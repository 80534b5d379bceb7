import Scriptlet.Proofs.Token.Spelling

/-!
# Lexing undoes spelling

The kinds and texts of tokens are well formed where each text is one of its kind and only the last
token may be a string that is left open (`WellFormed`). Spelled one behind the other with blanks
between them (`Spaced`), they are lexed back to what they were, and what the lexer gives is always
well formed: `tokenize_spaced_and_wellFormed` states both.
-/

namespace Scriptlet.Token

/-- The kinds and texts are those of tokens, and no string but the last is left open. -/
structure WellFormed (list : List (Kind × String)) : Prop where
  spelled : ∀ pair ∈ list, Spelled pair.1 pair.2.toList
  closed : ∀ pair ∈ list.dropLast, ¬ (pair.1 = .illegal ∧ pair.2.toList.head? = some '"')

/-- The text spells the kinds and texts in order, with blanks between each two of them. -/
inductive Spaced : List (Kind × String) → List Char → Prop where
  | nil : Spaced [] []
  | single (kind text) : Spaced [(kind, text)] (spell kind text.toList)
  | cons (kind text gap) {next list chars} : gap ≠ [] → (∀ char ∈ gap, isBlank char = true) →
      Spaced (next :: list) chars →
      Spaced ((kind, text) :: next :: list) (spell kind text.toList ++ (gap ++ chars))

/-- Blanks are borders. -/
theorem isBorder_of_isBlank {char : Char} (h : isBlank char = true) : isBorder char = true := by
  simp only [isBlank, Bool.or_eq_true, decide_eq_true_eq] at h
  rcases h with ((((rfl | rfl) | rfl) | rfl) | rfl) | rfl <;> decide

/-- Blanks behind a text end its last lexeme. -/
theorem apart_blank {gap : List Char} (chars more : List Char) (hne : gap ≠ [])
    (h : ∀ char ∈ gap, isBlank char = true) : Apart chars (gap ++ more) := by
  obtain ⟨first, rest, rfl⟩ := List.exists_cons_of_ne_nil hne
  intro last _ next hnext
  cases hnext
  exact joins_eq_false (.inr (isBorder_of_isBlank (h first List.mem_cons_self)))

/-- One token and blanks behind it come off the front of a text. -/
theorem lex_spelled_append {kind : Kind} {text : String} {gap : List Char} (position : Position)
    (more : List Char) (h : Spelled kind text.toList)
    (hclosed : ¬ (kind = .illegal ∧ text.toList.head? = some '"'))
    (hne : gap ≠ []) (hgap : ∀ char ∈ gap, isBlank char = true) :
    lex position (spell kind text.toList ++ (gap ++ more)) = ⟨kind, text, position⟩ ::
      lex ((position.after (spell kind text.toList)).after gap) more := by
  have hlex := lex_spelled h position
  rw [String.ofList_toList] at hlex
  have hopen : ∀ token ∈ lex position (spell kind text.toList), ¬ token.Unterminated := by
    intro token htoken
    rw [hlex, List.mem_singleton] at htoken
    rw [htoken]
    exact hclosed
  rw [lex_append hopen (apart_blank _ more hne hgap), hlex, lex_blank_append _ more hgap]
  rfl

/-- What is spelled with blanks between is lexed back, wherever it stands. -/
theorem map_content_lex {list : List (Kind × String)} {chars : List Char}
    (h : WellFormed list) (hspaced : Spaced list chars) (position : Position) :
    (lex position chars).map content = list := by
  induction hspaced generalizing position with
  | nil => rw [lex_of_blank position rfl, List.map_nil]
  | single kind text =>
      rw [lex_spelled (h.spelled _ List.mem_cons_self), String.ofList_toList]
      rfl
  | cons kind text gap hne hgap hspaced ih =>
      obtain ⟨hfirst, hrest⟩ := List.forall_mem_cons.1 h.spelled
      obtain ⟨hclosed, hlater⟩ := List.forall_mem_cons.1 h.closed
      rw [lex_spelled_append position _ hfirst hclosed hne hgap, List.map_cons, ih ⟨hrest, hlater⟩]
      rfl

/-- A string that is left open takes all that is left of the text. -/
theorem rest_scan_eq_nil {first : Char} {chars : List Char}
    (hkind : (scan first chars).kind = .illegal)
    (hopen : (scan first chars).text.head? = some '"') : (scan first chars).rest = [] := by
  obtain ⟨rfl, hcut⟩ := eq_quote_of_scan hkind hopen
  simp only [scan, if_true, scanString, hcut]

/-- Only the last token of a text can be a string that is left open. -/
theorem not_unterminated_of_mem_dropLast {token : Token} {position : Position}
    {chars : List Char} (h : token ∈ (lex position chars).dropLast) : ¬ token.Unterminated := by
  induction position, chars using lex.induct with
  | case1 position chars hcut =>
      rw [lex_of_blank position hcut] at h
      cases h
  | case2 position chars place first rest hcut lexeme ih =>
      rw [lex_of_scan position hcut] at h
      by_cases hlast : lex (place.after (spell lexeme.kind lexeme.text)) lexeme.rest = []
      · rw [hlast] at h
        cases h
      · rw [List.dropLast_cons_of_ne_nil hlast] at h
        rcases List.mem_cons.1 h with htoken | h
        · intro hopen
          rw [htoken] at hopen
          obtain ⟨hkind, htext⟩ := hopen
          rw [String.toList_ofList] at htext
          refine hlast ?_
          rw [rest_scan_eq_nil hkind htext]
          exact lex_of_blank _ rfl
        · exact ih h

/-- The tokens of a text are well formed. -/
theorem wellFormed_ofText (source : String) : WellFormed ((ofText source).map content) where
  spelled pair hpair := by
    obtain ⟨token, htoken, rfl⟩ := List.mem_map.1 hpair
    exact spelled_of_mem_ofText htoken
  closed pair hpair := by
    rw [← List.map_dropLast] at hpair
    obtain ⟨token, htoken, rfl⟩ := List.mem_map.1 hpair
    exact not_unterminated_of_mem_dropLast htoken

/-- The tokens of a text that are no end marker. -/
theorem filter_tokenize (source : String) :
    (tokenize source).filter (fun token => token.kind ≠ .eof) = ofText source := by
  have hkeep : (ofText source).filter (fun token => token.kind ≠ .eof) = ofText source := by
    refine List.filter_eq_self.2 fun token htoken => ?_
    exact decide_eq_true (kind_ne_eof_of_mem_lex htoken)
  rw [tokenize, List.filter_append, hkeep]
  exact List.append_nil _

/-- Well-formed kinds and texts, spelled with blanks between them, are lexed back, and what a text
is lexed to is well formed. -/
theorem tokenize_spaced_and_wellFormed :
    (∀ list chars, WellFormed list → Spaced list chars →
      (tokenize (String.ofList chars)).map content = list ++ [(.eof, "")]) ∧
    ∀ source, WellFormed
      (((tokenize source).filter fun token => token.kind ≠ .eof).map content) := by
  refine ⟨fun list chars hformed hspaced => ?_, fun source => ?_⟩
  · rw [tokenize, List.map_append, ofText, String.toList_ofList, map_content_lex hformed hspaced]
    rfl
  · rw [filter_tokenize]
    exact wellFormed_ofText source

/-- A name that begins with a reserved word, two marks that would join, an unknown character and a
string that is left open. -/
theorem tokenize_spaced_letter :
    WellFormed [(.ident, "letter"), (.less, "<"), (.assign, "="), (.illegal, "@"),
        (.illegal, "\" \n1")] ∧
      (tokenize "letter < =\n@\t \" \n1").map content = [(.ident, "letter"), (.less, "<"),
        (.assign, "="), (.illegal, "@"), (.illegal, "\" \n1"), (.eof, "")] := by
  have hname : Spelled .ident "letter".toList := by
    refine .name (by decide) (List.all_eq_true.1 rfl) fun kind hkind => ?_
    cases kind <;> exact absurd hkind (by decide)
  have hunknown : Spelled .illegal "@".toList := by
    refine .unknown rfl rfl rfl (by decide) fun hsymbolic => ?_
    obtain ⟨kind, symbol, hkind, hchar⟩ := hsymbolic
    cases kind <;> cases hkind <;> exact absurd hchar (by decide)
  have hformed : WellFormed [(.ident, "letter"), (.less, "<"), (.assign, "="), (.illegal, "@"),
      (.illegal, "\" \n1")] := by
    refine ⟨?_, by decide⟩
    simp only [List.forall_mem_cons]
    exact ⟨hname, .symbol rfl, .symbol rfl, hunknown,
      .unterminated (List.all_eq_true.1 rfl), nofun⟩
  have hspaced := Spaced.cons .ident "letter" [' '] (by decide) (List.all_eq_true.1 rfl)
    (.cons .less "<" [' '] (by decide) (List.all_eq_true.1 rfl)
      (.cons .assign "=" ['\n'] (by decide) (List.all_eq_true.1 rfl)
        (.cons .illegal "@" ['\t', ' '] (by decide) (List.all_eq_true.1 rfl)
          (.single .illegal "\" \n1"))))
  exact ⟨hformed, tokenize_spaced_and_wellFormed.1 _ _ hformed hspaced⟩

end Scriptlet.Token
