import Scriptlet.Prompt.Line
import Scriptlet.Proofs.Token.Adjacency

/-!
# What cleaning does to the tokens of a text

Outside of strings an invisible character is an unknown token of its own or, as the carriage return,
a blank. Cleaning takes these out and leaves the other tokens as they are, with two exceptions: a
string loses its invisible characters, and tokens with nothing but invisible characters between them
come to stand side by side, where some are read together (`Separated` says that none are). The main
theorem, `tokenize_clean_iff`, says that both do change the tokens and that there is no other
exception.
-/

namespace Scriptlet.Prompt

open Token

/-- The token is an unknown character that cleaning takes out. -/
def isUnseen (token : Token) : Bool :=
  match token.kind, token.text.toList with
  | .illegal, [char] => char ∈ ['\u200b', '\u200c', '\u200d', '\ufeff', '\u00a0']
  | _, _ => false

/-- The characters that cleaning leaves. -/
def visible (chars : List Char) : List Char :=
  chars.filter fun char => !isInvisible char

/-- Cleaning takes the token out or leaves all its characters. -/
def Intact (token : Token) : Prop :=
  isUnseen token = false → ∀ char ∈ token.spelling, isInvisible char = false

/-- No token of the pieces with nothing but invisible characters before it is of a kind that fuses
with the kind. -/
def Separates (kind : Kind) (pieces : List Piece) : Prop :=
  ∀ middle second back, pieces = middle ++ second :: back →
    (∀ char ∈ middle.flatMap Piece.chars ++ second.gap, isInvisible char = true) →
    kind.fuses second.token.kind = false

/-- No two tokens of the pieces that have nothing but invisible characters between them are of
kinds that fuse. -/
def Separated (pieces : List Piece) : Prop :=
  ∀ front first back, pieces = front ++ first :: back → Separates first.token.kind back

section Pieces

variable {pieces : List Piece} {piece : Piece} {kind : Kind} {chars : List Char} {token : Token}

theorem separates_nil : Separates kind [] := by
  intro middle second back heq
  cases middle <;> cases heq

/-- A kind is kept apart from the next token, and if that one vanishes, from those behind it. -/
theorem separates_cons : Separates kind (piece :: pieces) ↔
    ((∀ char ∈ piece.gap, isInvisible char = true) → kind.fuses piece.token.kind = false) ∧
      ((∀ char ∈ piece.chars, isInvisible char = true) → Separates kind pieces) := by
  constructor
  · intro h
    refine ⟨h [] piece pieces rfl, fun hpiece middle second back heq hbetween => ?_⟩
    refine h (piece :: middle) second back (by rw [heq, List.cons_append]) ?_
    rw [List.flatMap_cons, List.append_assoc]
    exact List.forall_mem_append.2 ⟨hpiece, hbetween⟩
  · rintro ⟨hfirst, hrest⟩ middle second back heq hbetween
    cases middle with
    | nil =>
        cases heq
        exact hfirst hbetween
    | cons head middle =>
        cases heq
        rw [List.flatMap_cons, List.append_assoc, List.forall_mem_append] at hbetween
        exact hrest hbetween.1 middle second back rfl hbetween.2

theorem separated_nil : Separated [] := by
  intro front first back heq
  cases front <;> cases heq

/-- Pieces are kept apart if the first is and the others are. -/
theorem separated_cons : Separated (piece :: pieces) ↔
    Separates piece.token.kind pieces ∧ Separated pieces := by
  constructor
  · intro h
    refine ⟨h [] piece pieces rfl, fun front first back heq => ?_⟩
    exact h (piece :: front) first back (by rw [heq, List.cons_append])
  · rintro ⟨hfirst, hrest⟩ front first back heq
    cases front with
    | nil =>
        cases heq
        exact hfirst
    | cons head front =>
        cases heq
        exact hrest front first back rfl

/-- Nothing fuses with what is unknown. -/
theorem separates_illegal (pieces : List Piece) : Separates .illegal pieces :=
  fun _ second _ _ _ => second.token.kind.illegal_fuses

/-- The visible characters of two parts are those of the first and of the second. -/
theorem visible_append (chars more : List Char) :
    visible (chars ++ more) = visible chars ++ visible more :=
  List.filter_append chars more

theorem mem_visible {char : Char} :
    char ∈ visible chars ↔ char ∈ chars ∧ isInvisible char = false := by
  simp [visible]

/-- Nothing is visible of characters that are all stripped. -/
theorem visible_eq_nil : visible chars = [] ↔ ∀ char ∈ chars, isInvisible char = true := by
  simp [visible]

/-- Characters that are not stripped stay as they are. -/
theorem visible_eq_self : visible chars = chars ↔ ∀ char ∈ chars, isInvisible char = false := by
  simp [visible]

/-- What is left of blanks is blank. -/
theorem isBlank_of_mem_visible {char : Char} (h : ∀ char ∈ chars, isBlank char = true)
    (hchar : char ∈ visible chars) : isBlank char = true :=
  h char (mem_visible.1 hchar).1

/-- A token that is taken out is one invisible character. -/
theorem spelling_of_isUnseen (h : isUnseen token = true) :
    token.kind = .illegal ∧ ∃ char, token.spelling = [char] ∧ isInvisible char = true := by
  unfold isUnseen at h
  split at h
  · next char hkind htext =>
      refine ⟨hkind, char, ?_, ?_⟩
      · rw [spelling, hkind, htext]
        rfl
      · simp only [List.mem_cons, List.not_mem_nil, or_false, decide_eq_true_eq] at h
        rcases h with rfl | rfl | rfl | rfl | rfl <;> decide
  · cases h

/-- Nothing is left of a token that is not seen. -/
theorem visible_of_isUnseen (h : isUnseen token = true) : visible token.spelling = [] := by
  obtain ⟨-, char, hspelling, hchar⟩ := spelling_of_isUnseen h
  rw [hspelling]
  exact visible_eq_nil.2 (List.forall_mem_singleton.2 hchar)

/-- Letters and digits are not stripped. -/
theorem isInvisible_eq_false {char : Char} (h : isLetter char = true ∨ isDigit char = true) :
    isInvisible char = false := by
  unfold isInvisible
  simp only [Bool.or_eq_false_iff, decide_eq_false_iff_not]
  refine ⟨⟨⟨⟨⟨?_, ?_⟩, ?_⟩, ?_⟩, ?_⟩, ?_⟩ <;> rintro rfl <;> exact absurd h (by decide)

/-- Only a string, closed or left open, holds invisible characters and is not taken out. -/
theorem intact_of_spelled (h : Spelled token.kind token.text.toList)
    (hquoted : ¬ (token.kind = .string ∨ token.Unterminated)) : Intact token := by
  obtain ⟨kind, text, position⟩ := token
  intro hseen
  rw [spelling]
  unfold isUnseen at hseen
  unfold Unterminated at hquoted
  simp only at h hseen hquoted ⊢
  generalize text.toList = letters at h hseen hquoted ⊢
  cases h with
  | name hne hletters hother =>
      exact fun char hchar => isInvisible_eq_false (.inl (hletters char hchar))
  | number hne hdigits => exact fun char hchar => isInvisible_eq_false (.inr (hdigits char hchar))
  | quoted | unterminated => exact absurd (by simp) hquoted
  | unknown hblank hletter hdigit hquote hother =>
      -- The carriage return is a blank, and the others would be taken out.
      rename_i char
      refine List.forall_mem_singleton.2 (eq_false_of_ne_true fun hchar => ?_)
      simp only [isInvisible, Bool.or_eq_true, decide_eq_true_eq] at hchar
      rcases hchar with ((((rfl | rfl) | rfl) | rfl) | rfl) | rfl
      all_goals first | exact absurd hblank (by decide) | exact absurd hseen (by decide)
  | word hword =>
      have htext := map_toList hword
      clear hword hseen hquoted
      cases kind <;> cases htext <;> exact visible_eq_self.1 rfl
  | symbol hsymbol =>
      have htext := map_toList hsymbol
      clear hsymbol hseen hquoted
      cases kind <;> cases htext <;> exact visible_eq_self.1 rfl

/-- A blank that is left ends every token before it. -/
theorem takes_gap {gap : List Char} (h : ∀ char ∈ gap, isBlank char = true)
    (hne : visible gap ≠ []) (kind : Kind) (more : List Char) :
    ∀ next ∈ (visible gap ++ more).head?, kind.takes next = false := by
  obtain ⟨first, rest, hfirst⟩ := List.exists_cons_of_ne_nil hne
  have hblank : isBlank first = true := by
    refine isBlank_of_mem_visible h ?_
    rw [hfirst]
    exact List.mem_cons_self
  rw [hfirst]
  intro next hnext
  cases hnext
  exact kind.takes_of_isBlank hblank

/-- A token that stays as it is meets the one before it with its first character. -/
theorem takes_spelling_iff (h : Spelled token.kind token.text.toList)
    (hwhole : visible token.spelling = token.spelling) (kind : Kind) (more : List Char) :
    (∀ next ∈ (visible token.spelling ++ more).head?, kind.takes next = false) ↔
      kind.fuses token.kind = false := by
  obtain ⟨first, rest, hspell, -, -⟩ := scan_spelled h
  rw [hwhole, spelling, hspell, ← takes_eq_fuses kind h hspell]
  simp

/-- The first character that is left is none that the kind takes exactly if no token that comes to
stand behind one of the kind fuses with it. -/
theorem takes_visible_iff (h : Laid pieces chars)
    (hintact : ∀ piece ∈ pieces, Intact piece.token) (kind : Kind) :
    (∀ next ∈ (visible chars).head?, kind.takes next = false) ↔ Separates kind pieces := by
  induction h with
  | @nil chars hblank =>
      refine iff_of_true (fun next hnext => ?_) separates_nil
      exact kind.takes_of_isBlank (isBlank_of_mem_visible hblank (List.mem_of_mem_head? hnext))
  | @cons gap token pieces chars hgap hspelled hclosed hlaid ih =>
      obtain ⟨htoken, hrest⟩ := List.forall_mem_cons.1 hintact
      rw [separates_cons, ← ih hrest, visible_append, visible_append, Piece.chars,
        ← visible_eq_nil, ← visible_eq_nil, visible_append, List.append_eq_nil_iff]
      by_cases hall : visible gap = []
      · cases hunseen : isUnseen token with
        | true =>
            rw [hall, visible_of_isUnseen hunseen, (spelling_of_isUnseen hunseen).1]
            simp [kind.fuses_illegal]
        | false =>
            have hstays := visible_eq_self.2 (htoken hunseen)
            have hleft : visible token.spelling ≠ [] := by
              rw [hstays]
              exact spelling_ne_nil hspelled
            rw [hall, List.nil_append, takes_spelling_iff hspelled hstays]
            simp [hleft]
      · simp only [hall, false_and, false_implies, and_true, iff_true]
        exact takes_gap hgap hall kind _

/-- What is left of a text is lexed as its tokens that stay exactly if none of them fuse. -/
theorem map_content_lex_visible_iff (h : Laid pieces chars)
    (hintact : ∀ piece ∈ pieces, Intact piece.token) (position : Position) :
    (lex position (visible chars)).map content =
        ((pieces.map Piece.token).filter fun token => !isUnseen token).map content ↔
      Separated pieces := by
  induction h generalizing position with
  | @nil chars hblank =>
      refine iff_of_true ?_ separated_nil
      have hcut : (visible chars).dropWhile isBlank = [] :=
        (run_whole fun char hchar => isBlank_of_mem_visible hblank hchar).2
      rw [lex_of_blank position hcut]
      rfl
  | @cons gap token pieces chars hgap hspelled hclosed hlaid ih =>
      obtain ⟨htoken, hrest⟩ := List.forall_mem_cons.1 hintact
      rw [separated_cons, visible_append, visible_append, List.map_cons,
        lex_blank_append position _ fun char hchar => isBlank_of_mem_visible hgap hchar]
      cases hunseen : isUnseen token with
      | true =>
          rw [visible_of_isUnseen hunseen, List.nil_append,
            List.filter_cons_of_neg (by simp [hunseen]), ih hrest, (spelling_of_isUnseen hunseen).1]
          exact (and_iff_right (separates_illegal pieces)).symm
      | false =>
          have hopen : token.Unterminated → visible chars = [] := by
            intro hopen
            rw [hclosed hopen]
            rfl
          rw [visible_eq_self.2 (htoken hunseen), List.filter_cons_of_pos (by simp [hunseen]),
            List.map_cons, map_content_lex_append_iff hspelled hopen, ih hrest,
            takes_visible_iff hlaid hrest]

end Pieces

/-- Strings are always seen, since their quotes are. -/
theorem isUnseen_eq_false {token : Token} (h : token.kind = .string ∨ token.Unterminated) :
    isUnseen token = false := by
  refine eq_false_of_ne_true fun hunseen => ?_
  obtain ⟨hkind, char, hspelling, hchar⟩ := spelling_of_isUnseen hunseen
  rcases h with hstring | ⟨-, hquote⟩
  · cases hkind.symm.trans hstring
  · rw [spelling, hkind, spell, if_neg (by decide)] at hspelling
    rw [hspelling] at hquote
    cases hquote
    exact absurd hchar (by decide)

/-- A token is left as it is unless it is a string with invisible characters. -/
theorem intact_iff {token : Token} (h : Spelled token.kind token.text.toList) :
    Intact token ↔ (token.kind = .string ∨ token.Unterminated →
      ∀ char ∈ token.text.toList, isInvisible char = false) := by
  constructor
  · intro hintact hquoted char hchar
    refine hintact (isUnseen_eq_false hquoted) char ?_
    unfold spelling spell
    split <;> simp [hchar]
  · intro hquoted
    by_cases hstring : token.kind = .string ∨ token.Unterminated
    · intro _
      have htext := hquoted hstring
      unfold spelling spell
      split
      · intro char hchar
        simp only [List.mem_cons, List.mem_append, List.not_mem_nil, or_false] at hchar
        rcases hchar with rfl | hchar | rfl
        · decide
        · exact htext char hchar
        · decide
      · exact htext
    · exact intact_of_spelled h hstring

/-- Tokens that are still there when only visible characters are left hold no others. -/
theorem intact_of_map_content {position : Position} {chars : List Char} {tokens : List Token}
    (h : (lex position (visible chars)).map content =
      (tokens.filter fun token => !isUnseen token).map content) :
    ∀ token ∈ tokens, Intact token := by
  intro token htoken hseen char hchar
  have hmem : token.content ∈ (lex position (visible chars)).map content := by
    rw [h]
    exact List.mem_map_of_mem (List.mem_filter.2 ⟨htoken, by simp [hseen]⟩)
  obtain ⟨other, hother, hcontent⟩ := List.mem_map.1 hmem
  obtain ⟨hkind, htext⟩ := Prod.mk.inj hcontent
  obtain ⟨pieces, hlaid, hlex⟩ := exists_laid position (visible chars)
  rw [hlex] at hother
  obtain ⟨piece, hpiece, rfl⟩ := List.mem_map.1 hother
  rw [spelling, ← hkind, ← htext, ← spelling] at hchar
  exact (mem_visible.1 (hlaid.mem hpiece hchar)).2

/-- The tokens without those that cleaning takes out, by what they hold. -/
theorem map_content_filter_tokenize (text : String) :
    ((tokenize text).filter fun token => !isUnseen token).map content =
      ((ofText text).filter fun token => !isUnseen token).map content ++ [(.eof, "")] := by
  rw [tokenize, List.filter_append, List.map_append]
  rfl

/-- A clean text has the tokens of the text, without the invisible characters among them, exactly if
no string, closed or left open, holds an invisible character and no two tokens that have nothing but
invisible characters between them are of kinds that are read together. -/
theorem tokenize_clean_iff (text : String) :
    ∃ pieces, Laid pieces text.toList ∧ ofText text = pieces.map Piece.token ∧
      ((tokenize (clean text)).map content =
          ((tokenize text).filter fun token => !isUnseen token).map content ↔
        (∀ token ∈ ofText text, token.kind = .string ∨ token.Unterminated →
          ∀ char ∈ token.text.toList, isInvisible char = false) ∧ Separated pieces) := by
  obtain ⟨pieces, hlaid, hlex⟩ := exists_laid .start text.toList
  refine ⟨pieces, hlaid, hlex, ?_⟩
  have hclean : (clean text).toList = visible text.toList := String.toList_ofList
  have hstrings : (∀ token ∈ ofText text, token.kind = .string ∨ token.Unterminated →
      ∀ char ∈ token.text.toList, isInvisible char = false) ↔
      ∀ piece ∈ pieces, Intact piece.token := by
    rw [ofText, hlex, List.forall_mem_map]
    refine forall₂_congr fun piece hpiece => (intact_iff ?_).symm
    have hmem : piece.token ∈ ofText text := by
      rw [ofText, hlex]
      exact List.mem_map_of_mem hpiece
    exact spelled_of_mem_ofText hmem
  rw [map_content_filter_tokenize, tokenize, List.map_append, List.map_singleton,
    show (endOf (clean text)).content = (.eof, "") from rfl, List.append_left_inj, ofText, hclean,
    hstrings, ofText, hlex]
  constructor
  · intro heq
    have hintact := List.forall_mem_map.1 (intact_of_map_content heq)
    exact ⟨hintact, (map_content_lex_visible_iff hlaid hintact _).1 heq⟩
  · intro h
    exact (map_content_lex_visible_iff hlaid h.1 _).2 h.2

/-- Two numbers become one, a keyword and a name become one word, and a string loses a character. -/
theorem tokenize_clean_joins :
    (tokenize (clean "1\u200b2")).map content ≠
        ((tokenize "1\u200b2").filter fun token => !isUnseen token).map content ∧
      (tokenize (clean "let\rx")).map content ≠
        ((tokenize "let\rx").filter fun token => !isUnseen token).map content ∧
      (tokenize (clean "\"a\u200bb\"")).map content ≠
        ((tokenize "\"a\u200bb\"").filter fun token => !isUnseen token).map content := by
  decide +kernel

end Scriptlet.Prompt
