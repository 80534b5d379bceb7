import Scriptlet.Token.Cursor
import Scriptlet.Proofs.Token.Lexing

/-!
# Tokens tile the text

A text is its tokens as they are written, with blanks before, between and behind them, and nothing
else (`Tiles`). The place of a token follows from the characters before it alone: the line feeds
among them give the line, those behind the last line feed the column (`Position.behind`). The main
theorem, `tokenize_tiles`, says so of every text, and that tokens read one at a time are the same
ones, with the end marker over and over behind them.
-/

namespace Scriptlet

namespace Position

/-- The place behind the characters at the front of a text. -/
def behind (chars : List Char) : Position :=
  ⟨1 + chars.count '\n', 1 + (chars.reverse.takeWhile (· ≠ '\n')).length⟩

/-- Behind one more character the place is one step further. -/
theorem behind_append_singleton (chars : List Char) (char : Char) :
    behind (chars ++ [char]) = (behind chars).advance char := by
  unfold advance
  by_cases hbreak : char = '\n'
  · subst hbreak
    rw [if_pos rfl]
    simp [behind, Nat.add_assoc]
  · rw [if_neg hbreak]
    have hcount : [char].count '\n' = 0 := List.count_eq_zero.2 (by simpa using Ne.symm hbreak)
    simp [behind, hbreak, List.count_append, hcount, Nat.add_assoc]

/-- Going on behind some characters is going on behind them all. -/
theorem after_behind (before chars : List Char) :
    (behind before).after chars = behind (before ++ chars) := by
  induction chars generalizing before with
  | nil => rw [List.append_nil]; rfl
  | cons char chars ih =>
      show ((behind before).advance char).after chars = behind (before ++ char :: chars)
      rw [← behind_append_singleton, ih, List.append_assoc]
      rfl

/-- The place behind characters, from the start of a text. -/
theorem after_start (chars : List Char) : start.after chars = behind chars :=
  after_behind [] chars

/-- On the first line of a text the characters before a place give its column. -/
theorem column_behind {chars : List Char} (h : '\n' ∉ chars) :
    (behind chars).column = 1 + chars.length := by
  have hall : ∀ char ∈ chars.reverse, decide (char ≠ '\n') = true := by
    intro char hchar
    refine decide_eq_true fun hbreak => h ?_
    rw [← hbreak]
    exact List.mem_reverse.1 hchar
  have hrun : (chars.reverse ++ []).takeWhile (· ≠ '\n') = chars.reverse ++ [] :=
    List.takeWhile_append_of_pos hall
  rw [List.append_nil] at hrun
  rw [behind, hrun, List.length_reverse]

end Position

namespace Token

/-- A token and the blanks before it. -/
structure Piece where
  gap : List Char
  token : Token

/-- The characters of a piece as they stand in the text. -/
def Piece.chars (piece : Piece) : List Char :=
  piece.gap ++ piece.token.spelling

/-- The pieces, and blanks behind the last of them, are the text `chars`, which stands behind the
characters `before`; no token is written with nothing, and each is where the characters before it
end. -/
structure Tiles (before : List Char) (pieces : List Piece) (last chars : List Char) : Prop where
  whole : chars = pieces.flatMap Piece.chars ++ last
  gaps : ∀ piece ∈ pieces, ∀ char ∈ piece.gap, isBlank char = true
  last : ∀ char ∈ last, isBlank char = true
  written : ∀ piece ∈ pieces, piece.token.spelling ≠ []
  placed : ∀ front piece back, pieces = front ++ piece :: back →
    piece.token.position = .behind (before ++ front.flatMap Piece.chars ++ piece.gap)

namespace Tiles

variable {before gap last chars : List Char} {pieces : List Piece} {token : Token}

/-- Blanks alone are tiled by no piece. -/
theorem nil (h : ∀ char ∈ chars, isBlank char = true) : Tiles before [] chars chars where
  whole := rfl
  gaps := nofun
  last := h
  written := nofun
  placed front piece back heq := by
    have hlength := congrArg List.length heq
    simp at hlength

/-- A piece before a text that is tiled. -/
theorem cons (hgap : ∀ char ∈ gap, isBlank char = true) (hwritten : token.spelling ≠ [])
    (hplace : token.position = .behind (before ++ gap))
    (h : Tiles (before ++ gap ++ token.spelling) pieces last chars) :
    Tiles before (⟨gap, token⟩ :: pieces) last (gap ++ (token.spelling ++ chars)) where
  whole := by
    rw [h.whole]
    simp [Piece.chars]
  gaps := List.forall_mem_cons.2 ⟨hgap, h.gaps⟩
  last := h.last
  written := List.forall_mem_cons.2 ⟨hwritten, h.written⟩
  placed front piece back heq := by
    cases front with
    | nil =>
        cases heq
        simpa using hplace
    | cons first front =>
        obtain ⟨hfirst, hpieces⟩ := List.cons.inj heq
        rw [h.placed front piece back hpieces, ← hfirst]
        simp [Piece.chars]

/-- What stands behind the first piece is tiled by the others. -/
theorem uncons {piece : Piece} (h : Tiles before (piece :: pieces) last chars) :
    ∃ rest, chars = piece.gap ++ (piece.token.spelling ++ rest) ∧
      Tiles (before ++ piece.gap ++ piece.token.spelling) pieces last rest := by
  refine ⟨pieces.flatMap Piece.chars ++ last, ?_, ?_⟩
  · rw [h.whole]
    simp [Piece.chars]
  · refine ⟨rfl, (List.forall_mem_cons.1 h.gaps).2, h.last, (List.forall_mem_cons.1 h.written).2,
      ?_⟩
    intro front other back heq
    rw [h.placed (piece :: front) other back (by rw [heq, List.cons_append])]
    simp [Piece.chars]

end Tiles

/-- Whatever stands before a text, its tokens tile it. -/
theorem exists_tiles (position : Position) (chars : List Char) :
    ∀ before, position = .behind before → ∃ pieces last,
      Tiles before pieces last chars ∧ lex position chars = pieces.map Piece.token := by
  induction position, chars using lex.induct with
  | case1 position chars hcut =>
      intro before _
      have hblank : ∀ char ∈ chars, isBlank char = true := by
        intro char hchar
        rw [← List.takeWhile_append_dropWhile (p := isBlank) (l := chars), hcut,
          List.append_nil] at hchar
        exact List.all_eq_true.1 List.all_takeWhile char hchar
      exact ⟨[], chars, .nil hblank, lex_of_blank position hcut⟩
  | case2 position chars place first rest hcut lexeme ih =>
      intro before hbefore
      have hplace : place = .behind (before ++ chars.takeWhile isBlank) := by
        rw [← Position.after_behind, ← hbefore]
      let token : Token := ⟨lexeme.kind, String.ofList lexeme.text, place⟩
      have hspelling : token.spelling = spell lexeme.kind lexeme.text := by
        rw [Token.spelling, String.toList_ofList]
      have hnext : place.after (spell lexeme.kind lexeme.text) =
          .behind (before ++ chars.takeWhile isBlank ++ token.spelling) := by
        rw [hspelling, ← Position.after_behind, ← hplace]
      obtain ⟨pieces, last, htiles, hlex⟩ := ih _ hnext
      refine ⟨⟨chars.takeWhile isBlank, token⟩ :: pieces, last, ?_, ?_⟩
      · have hpiece := htiles.cons
          (fun char hchar => List.all_eq_true.1 List.all_takeWhile char hchar)
          (by rw [hspelling]; exact spell_scan_ne_nil first rest) hplace
        rwa [hspelling, ← chars_eq_of_scan hcut] at hpiece
      · rw [lex_of_scan position hcut, List.map_cons]
        exact congrArg _ hlex

/-- A list with a marker at its end may be filled up with markers before or behind. -/
theorem take_append_marker {α : Type} (list : List α) (marker : α) (count : Nat) :
    (list ++ [marker]).take count ++ List.replicate (count - (list ++ [marker]).length) marker =
      list.take count ++ List.replicate (count - list.length) marker := by
  rw [List.take_append, List.append_assoc, List.length_append, List.length_singleton,
    Nat.sub_add_eq]
  cases count - list.length with
  | zero => rfl
  | succ more => simp [List.replicate_succ]

namespace Cursor

/-- Where only blanks are left, the end marker is pulled. -/
theorem next_of_blank {chars : List Char} (position : Position)
    (h : chars.dropWhile isBlank = []) :
    next ⟨position, chars⟩ =
      (⟨.eof, "", position.after chars⟩, ⟨position.after chars, []⟩) := by
  have hchars : chars.takeWhile isBlank = chars := by
    have hall := List.takeWhile_append_dropWhile (p := isBlank) (l := chars)
    rwa [h, List.append_nil] at hall
  simp only [next, h, hchars]

/-- Where more is left, the token behind the blanks is pulled. -/
theorem next_of_scan {chars rest : List Char} {first : Char} (position : Position)
    (h : chars.dropWhile isBlank = first :: rest) :
    next ⟨position, chars⟩ =
      (⟨(scan first rest).kind, String.ofList (scan first rest).text,
        position.after (chars.takeWhile isBlank)⟩,
      ⟨(position.after (chars.takeWhile isBlank)).after
        (spell (scan first rest).kind (scan first rest).text), (scan first rest).rest⟩) := by
  simp only [next, h]

/-- A cursor at the end stays there. -/
theorem pull_of_blank {chars : List Char} (position : Position)
    (h : chars.dropWhile isBlank = []) (count : Nat) :
    pull ⟨position, chars⟩ count = List.replicate count ⟨.eof, "", position.after chars⟩ := by
  induction count generalizing position chars with
  | zero => rfl
  | succ count ih =>
      rw [pull, next_of_blank position h, ih _ rfl, List.replicate_succ]
      rfl

/-- The tokens read one at a time are those of the text, and then end markers. -/
theorem pull_eq (position : Position) (chars : List Char) (count : Nat) :
    pull ⟨position, chars⟩ count = (lex position chars).take count ++
      List.replicate (count - (lex position chars).length) ⟨.eof, "", position.after chars⟩ := by
  induction position, chars using lex.induct generalizing count with
  | case1 position chars hcut =>
      rw [pull_of_blank position hcut, lex_of_blank position hcut, List.take_nil]
      rfl
  | case2 position chars place first rest hcut lexeme ih =>
      cases count with
      | zero => simp [pull]
      | succ count =>
          rw [pull, next_of_scan position hcut, lex_of_scan position hcut, List.take_succ_cons,
            List.length_cons, Nat.add_sub_add_right, after_eq_of_scan position hcut,
            List.cons_append]
          exact congrArg _ (ih count)

end Cursor

/-- Every text is tiled by its tokens, which carry exact places, and one end marker stands behind
them, however often one reads on. -/
theorem tokenize_tiles (source : String) :
    ∃ pieces last, Tiles [] pieces last source.toList ∧
      (∀ piece ∈ pieces, piece.token.kind ≠ .eof) ∧
      tokenize source = pieces.map Piece.token ++ [⟨.eof, "", .behind source.toList⟩] ∧
      ∀ count, (Cursor.start source).pull count = (tokenize source).take count ++
        List.replicate (count - (tokenize source).length) ⟨.eof, "", .behind source.toList⟩ := by
  obtain ⟨pieces, last, htiles, hlex⟩ := exists_tiles .start source.toList [] rfl
  have hend : endOf source = ⟨.eof, "", .behind source.toList⟩ := by
    rw [endOf, Position.after_start]
  refine ⟨pieces, last, htiles, ?_, ?_, ?_⟩
  · intro piece hpiece
    have hmem : piece.token ∈ lex .start source.toList := by
      rw [hlex]
      exact List.mem_map_of_mem hpiece
    exact kind_ne_eof_of_mem_lex hmem
  · rw [tokenize, hend]
    exact congrArg (· ++ _) hlex
  · intro count
    rw [Cursor.start, Cursor.pull_eq, Position.after_start, tokenize, hend, ofText,
      take_append_marker]

-- A string that goes over a line feed moves what stands behind it to the line of its end.
example : (tokenize "a\n\r \"b\nc\" <").map Token.position = [⟨1, 1⟩, ⟨2, 3⟩, ⟨3, 4⟩, ⟨3, 5⟩] := by
  decide +kernel

end Token

end Scriptlet
