import Mathlib.Data.List.TakeWhile
import Scriptlet.Proofs.Token.Respelling

/-!
# Tokens side by side

A token that is written right before another one is lexed as it was unless the two are read
together: two words, two numbers, or a mark that makes an operator with the `=` behind it
(`Kind.fuses`). So what follows a token decides whether it comes off the front of a text as it is
(`map_content_lex_append_iff`). `Laid` goes through a text token by token: unlike `Tiles` it leaves
the places out, and it says of each token that it is written as one of its kind. Every text is laid
out by its own tokens (`exists_laid`).
-/

namespace Scriptlet

namespace Kind

/-- Tokens of the kinds are read together where nothing stands between them. -/
def fuses (first second : Kind) : Bool :=
  first.isWord && second.isWord || first = .int && second = .int ||
    first.isHalf && second ∈ [.assign, .equal]

/-- Nothing is read together with an illegal token before it. -/
theorem illegal_fuses (second : Kind) : Kind.illegal.fuses second = false :=
  rfl

/-- No token is read together with an illegal one behind it. -/
theorem fuses_illegal (first : Kind) : first.fuses .illegal = false := by
  cases first <;> rfl

/-- No token goes on with a blank. -/
theorem takes_of_isBlank {char : Char} (kind : Kind) (h : Token.isBlank char = true) :
    kind.takes char = false := by
  have hborder := Token.isBorder_of_isBlank h
  simp only [Token.isBorder, Bool.and_eq_true, Bool.not_eq_true', decide_eq_true_eq] at hborder
  obtain ⟨⟨hletter, hdigit⟩, hmark⟩ := hborder
  have hequals : char ≠ '=' := by
    rintro rfl
    exact hmark List.mem_cons_self
  simp [takes, hletter, hdigit, hequals]

end Kind

namespace Token

/-- The first character of a token tells whether it is a word or a number or begins with `=`. -/
theorem first_of_spelled {kind : Kind} {text rest : List Char} {first : Char}
    (h : Spelled kind text) (hspell : spell kind text = first :: rest) :
    isLetter first = kind.isWord ∧ isDigit first = decide (kind = .int) ∧
      decide (first = '=') = decide (kind ∈ [.assign, .equal]) := by
  cases h with
  | name hne hletters hother =>
      cases hspell
      have hletter := hletters first List.mem_cons_self
      refine ⟨hletter, ?_, decide_eq_false ?_⟩
      · cases hdigit : isDigit first with
        | false => rfl
        | true => exact absurd (hletter.symm.trans (isLetter_eq_false hdigit)) Bool.noConfusion
      · rintro rfl
        exact absurd hletter (by decide)
  | number hne hdigits =>
      cases hspell
      have hdigit := hdigits first List.mem_cons_self
      refine ⟨isLetter_eq_false hdigit, hdigit, decide_eq_false ?_⟩
      rintro rfl
      exact absurd hdigit (by decide)
  | unknown hblank hletter hdigit hquote hother =>
      cases hspell
      refine ⟨hletter, hdigit, decide_eq_false ?_⟩
      rintro rfl
      exact hother ⟨.assign, _, rfl, List.mem_cons_self⟩
  | quoted | unterminated =>
      cases hspell
      decide
  | word hword =>
      have htext := map_toList hword
      clear hword
      cases kind <;> cases htext <;> cases hspell <;> decide
  | symbol hsymbol =>
      have htext := map_toList hsymbol
      clear hsymbol
      cases kind <;> cases htext <;> cases hspell <;> decide

/-- Whether a token goes on with the next one is told by its first character. -/
theorem takes_eq_fuses {kind : Kind} {text rest : List Char} {first : Char} (before : Kind)
    (h : Spelled kind text) (hspell : spell kind text = first :: rest) :
    before.takes first = before.fuses kind := by
  obtain ⟨hletter, hdigit, hequals⟩ := first_of_spelled h hspell
  rw [Kind.takes, Kind.fuses, hletter, hdigit, hequals]

/-- Every token is spelled with at least one character. -/
theorem spelling_ne_nil {token : Token} (h : Spelled token.kind token.text.toList) :
    token.spelling ≠ [] := by
  obtain ⟨first, rest, hspell, -, -⟩ := scan_spelled h
  rw [spelling, hspell]
  exact List.cons_ne_nil first rest

/-- A token comes off the front of a text exactly if it does not go on with what follows it. -/
theorem map_content_lex_append_iff {token : Token} {more : List Char}
    (h : Spelled token.kind token.text.toList) (hclosed : token.Unterminated → more = [])
    (position : Position) (list : List (Kind × String)) :
    (lex position (token.spelling ++ more)).map content = token.content :: list ↔
      (∀ next ∈ more.head?, token.kind.takes next = false) ∧
        (lex (position.after token.spelling) more).map content = list := by
  obtain ⟨first, rest, hspell, hblank, hscan⟩ := scan_spelled h
  have hcut : (token.spelling ++ more).dropWhile isBlank = first :: (rest ++ more) := by
    rw [spelling, hspell, List.cons_append, List.dropWhile_cons_of_neg (by simp [hblank])]
  have hgap : (token.spelling ++ more).takeWhile isBlank = [] := by
    rw [spelling, hspell, List.cons_append, List.takeWhile_cons_of_neg (by simp [hblank])]
  have hlexeme := spell_scan first (rest ++ more)
  rw [lex_of_scan position hcut, hgap, List.map_cons, List.cons.injEq, ← hscan more hclosed]
  cases hresult : scan first (rest ++ more) with
  | mk kind text behind =>
      rw [hresult] at hlexeme
      constructor
      · rintro ⟨hcontent, hlist⟩
        obtain ⟨rfl, htext⟩ := Prod.mk.inj hcontent
        obtain rfl : text = token.text.toList := by rw [← htext, String.toList_ofList]
        obtain rfl : behind = more := by
          rw [← List.cons_append, ← hspell] at hlexeme
          exact List.append_cancel_left hlexeme
        exact ⟨rfl, hlist⟩
      · rintro ⟨heq, hlist⟩
        cases heq
        refine ⟨?_, hlist⟩
        rw [content, String.ofList_toList]
        rfl

/-- The pieces and blanks behind the last of them are the characters; each token is written as one
of its kind, and behind a string that is left open nothing stands. -/
inductive Laid : List Piece → List Char → Prop where
  | nil {chars} : (∀ char ∈ chars, isBlank char = true) → Laid [] chars
  | cons {gap token pieces chars} : (∀ char ∈ gap, isBlank char = true) →
      Spelled token.kind token.text.toList → (token.Unterminated → chars = []) →
      Laid pieces chars → Laid (⟨gap, token⟩ :: pieces) (gap ++ (token.spelling ++ chars))

/-- Every text is laid out by its tokens. -/
theorem exists_laid (position : Position) (chars : List Char) :
    ∃ pieces, Laid pieces chars ∧ lex position chars = pieces.map Piece.token := by
  induction position, chars using lex.induct with
  | case1 position chars hcut =>
      exact ⟨[], .nil (List.dropWhile_eq_nil_iff.1 hcut), lex_of_blank position hcut⟩
  | case2 position chars place first rest hcut lexeme ih =>
      obtain ⟨pieces, hlaid, hlex⟩ := ih
      have hblank : isBlank first = false := by
        simpa [hcut] using List.head?_dropWhile_not isBlank chars
      let token : Token := ⟨lexeme.kind, String.ofList lexeme.text, place⟩
      have htext : token.text.toList = lexeme.text := String.toList_ofList
      have hspelled : Spelled token.kind token.text.toList := by
        rw [htext]
        exact spelled_scan hblank rest
      have hclosed : token.Unterminated → lexeme.rest = [] := by
        rintro ⟨hkind, hopen⟩
        rw [htext] at hopen
        exact rest_scan_eq_nil hkind hopen
      refine ⟨⟨chars.takeWhile isBlank, token⟩ :: pieces, ?_, ?_⟩
      · have hgap : ∀ char ∈ chars.takeWhile isBlank, isBlank char = true :=
          fun char hchar => List.mem_takeWhile_imp hchar
        have hpiece := Laid.cons hgap hspelled hclosed hlaid
        rwa [spelling, htext, ← chars_eq_of_scan hcut] at hpiece
      · rw [lex_of_scan position hcut, List.map_cons]
        exact congrArg _ hlex

/-- The characters of the tokens are characters of the text. -/
theorem Laid.mem {pieces : List Piece} {chars : List Char} (h : Laid pieces chars)
    {piece : Piece} (hpiece : piece ∈ pieces) {char : Char} (hchar : char ∈ piece.token.spelling) :
    char ∈ chars := by
  induction h with
  | nil => cases hpiece
  | cons hgap hspelled hclosed hlaid ih =>
      refine List.mem_append_right _ (List.mem_append.2 ?_)
      rcases List.mem_cons.1 hpiece with rfl | hpiece
      · exact .inl hchar
      · exact .inr (ih hpiece)

end Token

end Scriptlet
