import Scriptlet.Token.Lexer

/-!
# Facts about lexing

One turn of the lexer skips blanks and cuts a lexeme, and the lexeme is spelled as it stands in the
text. So the tokens of a text stand one behind the other, each at a place of its own, and the end
marker behind them all (`pairwise_before_tokenize`).
-/

namespace Scriptlet

namespace Kind

theorem ofWord_ne_eof (word : String) : ofWord word ≠ eof := by
  unfold ofWord
  split <;> nofun

theorem ofWord_ne_string (word : String) : ofWord word ≠ string := by
  unfold ofWord
  split <;> nofun

theorem ofChar_ne_eof (char : Char) : ofChar char ≠ eof := by
  unfold ofChar
  split <;> nofun

theorem ofChar_ne_string (char : Char) : ofChar char ≠ string := by
  unfold ofChar
  split <;> nofun

theorem ofPair?_ne_eof (first second : Char) : ofPair? first second ≠ some eof := by
  unfold ofPair?
  split <;> nofun

theorem ofPair?_ne_string (first second : Char) : ofPair? first second ≠ some string := by
  unfold ofPair?
  split <;> nofun

end Kind

namespace Position

/-- The first place stands before the second one in a text. -/
def Before (first second : Position) : Prop :=
  first.line < second.line ∨ first.line = second.line ∧ first.column < second.column

variable {first second third : Position}

/-- Places follow each other transitively. -/
theorem Before.trans (h : first.Before second) (hnext : second.Before third) :
    first.Before third := by
  unfold Before at *
  omega

theorem Before.ne (h : first.Before second) : first ≠ second := by
  intro heq
  subst heq
  unfold Before at h
  omega

theorem before_advance (position : Position) (char : Char) :
    position.Before (position.advance char) := by
  unfold advance Before
  split
  · exact .inl (Nat.lt_succ_self _)
  · exact .inr ⟨rfl, Nat.lt_succ_self _⟩

/-- The place behind two parts is the place behind the second one. -/
theorem after_append (position : Position) (chars more : List Char) :
    position.after (chars ++ more) = (position.after chars).after more :=
  List.foldl_append

/-- The place behind some characters is the same or a later one. -/
theorem eq_or_before_after (position : Position) (chars : List Char) :
    position = position.after chars ∨ position.Before (position.after chars) := by
  induction chars generalizing position with
  | nil => exact .inl rfl
  | cons char chars ih =>
      have hadvance := before_advance position char
      rcases ih (position.advance char) with heq | hbefore
      · right
        rw [show position.after (char :: chars) = (position.advance char).after chars from rfl,
          ← heq]
        exact hadvance
      · exact .inr (hadvance.trans hbefore)

/-- Behind characters comes a later place. -/
theorem before_after {chars : List Char} (position : Position) (h : chars ≠ []) :
    position.Before (position.after chars) := by
  cases chars with
  | nil => exact absurd rfl h
  | cons char chars =>
      have hadvance := before_advance position char
      rcases eq_or_before_after (position.advance char) chars with heq | hbefore
      · rw [show position.after (char :: chars) = (position.advance char).after chars from rfl,
          ← heq]
        exact hadvance
      · exact hadvance.trans hbefore

end Position

namespace Token

/-- The kind and the text of a token. -/
def content (token : Token) : Kind × String :=
  (token.kind, token.text)

/-- Blanks have no tokens. -/
theorem lex_of_blank {chars : List Char} (position : Position)
    (h : chars.dropWhile isBlank = []) : lex position chars = [] := by
  rw [lex]
  split
  · rfl
  · next hcut => cases h.symm.trans hcut

/-- One turn of the lexer. -/
theorem lex_of_scan {chars rest : List Char} {first : Char} (position : Position)
    (h : chars.dropWhile isBlank = first :: rest) :
    lex position chars =
      ⟨(scan first rest).kind, String.ofList (scan first rest).text,
        position.after (chars.takeWhile isBlank)⟩ ::
      lex ((position.after (chars.takeWhile isBlank)).after
        (spell (scan first rest).kind (scan first rest).text)) (scan first rest).rest := by
  rw [lex]
  split
  · next hcut => cases h.symm.trans hcut
  · next hcut =>
      cases h.symm.trans hcut
      rfl

/-- No lexeme is an end marker. -/
theorem kind_scan_ne_eof (first : Char) (chars : List Char) : (scan first chars).kind ≠ .eof := by
  unfold scan
  split
  · unfold scanString
    split <;> nofun
  · split
    · exact Kind.ofWord_ne_eof _
    · split
      · nofun
      · unfold scanSymbol
        split
        · exact Kind.ofChar_ne_eof _
        · split
          · next hpair =>
              intro hkind
              subst hkind
              exact Kind.ofPair?_ne_eof _ _ hpair
          · exact Kind.ofChar_ne_eof _

/-- The end marker is no token of a text. -/
theorem kind_ne_eof_of_mem_lex {token : Token} {position : Position} {chars : List Char}
    (h : token ∈ lex position chars) : token.kind ≠ .eof := by
  induction position, chars using lex.induct with
  | case1 position chars hcut =>
      rw [lex_of_blank position hcut] at h
      cases h
  | case2 position chars place first rest hcut lexeme ih =>
      rw [lex_of_scan position hcut] at h
      rcases List.mem_cons.1 h with rfl | h
      · exact kind_scan_ne_eof first rest
      · exact ih h

/-- A string is spelled as it was written, closed or not. -/
theorem spell_scanString (chars : List Char) :
    spell (scanString chars).kind (scanString chars).text ++ (scanString chars).rest =
      '"' :: chars := by
  unfold scanString
  split
  · simp [spell]
  · next close rest hrest =>
      have hclose : isQuotable close = false := by
        simpa [hrest] using List.head?_dropWhile_not isQuotable chars
      have hquote : close = '"' := by simpa [isQuotable] using hclose
      have hchars : chars.takeWhile isQuotable ++ chars.dropWhile isQuotable = chars :=
        List.takeWhile_append_dropWhile
      rw [hrest, hquote] at hchars
      simp [spell, hchars]

theorem spell_scanSymbol (first : Char) (chars : List Char) :
    spell (scanSymbol first chars).kind (scanSymbol first chars).text ++
      (scanSymbol first chars).rest = first :: chars := by
  unfold scanSymbol
  split
  · simp [spell, Kind.ofChar_ne_string]
  · split
    · next kind hpair =>
        have hkind : kind ≠ .string := by
          intro hkind
          subst hkind
          exact Kind.ofPair?_ne_string _ _ hpair
        simp [spell, hkind]
    · simp [spell, Kind.ofChar_ne_string]

/-- A lexeme is spelled as it stands in the text. -/
theorem spell_scan (first : Char) (chars : List Char) :
    spell (scan first chars).kind (scan first chars).text ++ (scan first chars).rest =
      first :: chars := by
  unfold scan
  split
  · next hquote =>
      rw [hquote]
      exact spell_scanString chars
  · split
    · simp [spell, Kind.ofWord_ne_string, List.takeWhile_append_dropWhile]
    · split
      · simp [spell, List.takeWhile_append_dropWhile]
      · exact spell_scanSymbol first chars

/-- What is scanned is spelled with at least one character. -/
theorem spell_scan_ne_nil (first : Char) (chars : List Char) :
    spell (scan first chars).kind (scan first chars).text ≠ [] := by
  intro hnil
  have hscan := spell_scan first chars
  have hlength := length_rest_scan_le first chars
  rw [hnil, List.nil_append] at hscan
  rw [hscan, List.length_cons] at hlength
  omega

/-- The text is blanks, a lexeme and the rest. -/
theorem chars_eq_of_scan {chars rest : List Char} {first : Char}
    (h : chars.dropWhile isBlank = first :: rest) :
    chars = chars.takeWhile isBlank ++
      (spell (scan first rest).kind (scan first rest).text ++ (scan first rest).rest) := by
  rw [spell_scan, ← h, List.takeWhile_append_dropWhile]

/-- The end of a text lies behind its blanks, its first lexeme and the rest. -/
theorem after_eq_of_scan {chars rest : List Char} {first : Char} (position : Position)
    (h : chars.dropWhile isBlank = first :: rest) :
    position.after chars = ((position.after (chars.takeWhile isBlank)).after
      (spell (scan first rest).kind (scan first rest).text)).after (scan first rest).rest := by
  conv => lhs; rw [chars_eq_of_scan h]
  rw [Position.after_append, Position.after_append]

/-- The places of the tokens of a text and of its end. -/
def places (position : Position) (chars : List Char) : List Position :=
  (lex position chars).map Token.position ++ [position.after chars]

/-- The first token stands behind the blanks, the others behind it. -/
theorem places_of_scan {chars rest : List Char} {first : Char} (position : Position)
    (h : chars.dropWhile isBlank = first :: rest) :
    places position chars =
      position.after (chars.takeWhile isBlank) ::
        places ((position.after (chars.takeWhile isBlank)).after
          (spell (scan first rest).kind (scan first rest).text)) (scan first rest).rest := by
  rw [places, places, lex_of_scan position h, after_eq_of_scan position h]
  rfl

/-- No token stands before the place where lexing began. -/
theorem eq_or_before_of_mem_places {position place : Position} {chars : List Char}
    (h : place ∈ places position chars) : position = place ∨ position.Before place := by
  induction position, chars using lex.induct with
  | case1 position chars hcut =>
      rw [places, lex_of_blank position hcut] at h
      rw [List.mem_singleton.1 h]
      exact Position.eq_or_before_after position chars
  | case2 position chars start first rest hcut lexeme ih =>
      rw [places_of_scan position hcut] at h
      have hblank := Position.eq_or_before_after position (chars.takeWhile isBlank)
      rcases List.mem_cons.1 h with rfl | h
      · exact hblank
      · have hlexeme := Position.before_after (position.after (chars.takeWhile isBlank))
          (spell_scan_ne_nil first rest)
        right
        have hplace : (position.after (chars.takeWhile isBlank)).Before place := by
          rcases ih h with heq | hbefore
          · rw [← heq]
            exact hlexeme
          · exact hlexeme.trans hbefore
        rcases hblank with heq | hbefore
        · rw [heq]
          exact hplace
        · exact hbefore.trans hplace

/-- Tokens stand one behind the other, and the end behind them all. -/
theorem pairwise_before_places (position : Position) (chars : List Char) :
    (places position chars).Pairwise Position.Before := by
  induction position, chars using lex.induct with
  | case1 position chars hcut =>
      rw [places, lex_of_blank position hcut]
      exact List.pairwise_singleton _ _
  | case2 position chars start first rest hcut lexeme ih =>
      rw [places_of_scan position hcut]
      refine List.pairwise_cons.2 ⟨fun place hplace => ?_, ih⟩
      have hlexeme := Position.before_after (position.after (chars.takeWhile isBlank))
        (spell_scan_ne_nil first rest)
      rcases eq_or_before_of_mem_places hplace with heq | hbefore
      · rw [← heq]
        exact hlexeme
      · exact hlexeme.trans hbefore

/-- The tokens of a text stand at its places. -/
theorem map_position_tokenize (source : String) :
    (tokenize source).map Token.position = places .start source.toList := by
  simp [tokenize, places, ofText, endOf]

/-- The tokens of a text stand one behind the other, the end marker last. -/
theorem pairwise_before_tokenize (source : String) :
    ((tokenize source).map Token.position).Pairwise Position.Before := by
  rw [map_position_tokenize]
  exact pairwise_before_places _ _

/-- No token of a text stands on line zero. -/
theorem line_pos_of_mem_tokenize {source : String} {token : Token} (h : token ∈ tokenize source) :
    0 < token.position.line := by
  have hmem : token.position ∈ places .start source.toList := by
    rw [← map_position_tokenize]
    exact List.mem_map_of_mem h
  have hstart : (0 : Nat) < Position.start.line := by decide
  rcases eq_or_before_of_mem_places hmem with heq | hbefore
  · rw [← heq]
    exact hstart
  · unfold Position.Before at hbefore
    omega

end Token

end Scriptlet
