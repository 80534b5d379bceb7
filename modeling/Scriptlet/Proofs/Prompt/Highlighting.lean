import Scriptlet.Prompt.Highlight
import Scriptlet.Proofs.Token.Spelling

/-!
# Highlighting loses nothing

The columns of the tokens of a line, with the lengths of their spellings, cut the line where the
lexer did. So the fragments of a line are its pieces, each as the blanks before a token and the
token itself, and the blanks behind the last one (`fragmentsFrom_of_tiles`). No token is passed
over. The main theorem, `highlight_lossless`, says what one sees of that: the fragments together are
the line, and those that hold more than blanks are the tokens, in their styles.
-/

namespace Scriptlet.Prompt

open Token

/-- The fragment holds nothing but blanks. -/
def Fragment.isGap (fragment : Fragment) : Bool :=
  fragment.text.toList.all isBlank

/-- The kind of the token in front, the end marker's where none is left. -/
def leadingKind : List Token → Kind
  | [] => .eof
  | token :: _ => token.kind

/-- A token as it is written, in its style before the tokens behind it. -/
def tokenFragment (token : Token) (tokens : List Token) : Fragment :=
  ⟨(Group.ofKind token.kind (leadingKind tokens)).style, String.ofList token.spelling⟩

/-- Tokens as they are written, each in its style. -/
def tokenFragments : List Token → List Fragment
  | [] => []
  | token :: tokens => tokenFragment token tokens :: tokenFragments tokens

/-- Characters without a style, as a fragment unless there are none. -/
def plainFragments (chars : List Char) : List Fragment :=
  if chars = [] then [] else [⟨"", String.ofList chars⟩]

/-- The fragments of pieces and of what stands behind the last of them. -/
def pieceFragments (last : List Char) : List Piece → List Fragment
  | [] => plainFragments last
  | piece :: pieces =>
      plainFragments piece.gap ++
        tokenFragment piece.token (pieces.map Piece.token) :: pieceFragments last pieces

section Cutting

variable (before middle behind : List Char)

/-- The slice between two places is what stands there. -/
theorem slice_append : slice (before ++ (middle ++ behind)) before.length
    (before.length + middle.length) = String.ofList middle := by
  rw [slice, Nat.add_sub_cancel_left, List.drop_left, List.take_left]

/-- The gap between two places is what stands there, without a style. -/
theorem gap_append : gap (before ++ (middle ++ behind)) before.length
    (before.length + middle.length) = plainFragments middle := by
  rw [gap, slice_append, plainFragments]
  by_cases h : middle = []
  · simp [h]
  · have hlength := List.length_pos_iff.2 h
    rw [if_pos (by omega), if_neg h]

end Cutting

/-- A turn of the highlighter at a token that stands behind the cursor and some blanks. -/
theorem fragmentsFrom_cons {before gap rest : List Char} {token : Token} (tokens : List Token)
    (hcolumn : token.position.column = 1 + (before ++ gap).length)
    (hwritten : token.spelling ≠ []) :
    fragmentsFrom (before ++ (gap ++ (token.spelling ++ rest))) before.length (token :: tokens) =
      plainFragments gap ++ tokenFragment token tokens ::
        fragmentsFrom (before ++ (gap ++ (token.spelling ++ rest)))
          (before ++ gap ++ token.spelling).length tokens := by
  have hlength := List.length_pos_iff.2 hwritten
  have hstart : token.position.column - 1 = before.length + gap.length := by
    rw [hcolumn, List.length_append]
    omega
  have hkept : (decide (before.length + gap.length < before.length) ||
      decide (before.length + gap.length + token.spelling.length ≤
        before.length + gap.length)) = false := by
    simp only [Bool.or_eq_false_iff, decide_eq_false_iff_not]
    omega
  have hslice := slice_append (before ++ gap) token.spelling rest
  rw [List.append_assoc, List.length_append] at hslice
  rw [List.length_append, List.length_append, ← gap_append before gap, tokenFragment, ← hslice]
  -- The kind of the next token is looked up in the tokens that are left.
  cases tokens <;> simp only [fragmentsFrom, hstart, hkept] <;> rfl

/-- The fragments of a line, from a place between two tokens on, are its pieces. -/
theorem fragmentsFrom_of_tiles {before last chars : List Char} {pieces : List Piece}
    (h : Tiles before pieces last chars) (hline : '\n' ∉ before ++ chars) :
    fragmentsFrom (before ++ chars) before.length (pieces.map Piece.token) =
      pieceFragments last pieces := by
  induction pieces generalizing before chars with
  | nil =>
      have hchars : chars = last ++ [] := by simpa using h.whole
      have hgap := gap_append before last []
      rw [← hchars] at hgap
      rw [List.map_nil, fragmentsFrom, pieceFragments, ← hgap, hchars, List.append_nil,
        List.length_append]
  | cons piece pieces ih =>
      obtain ⟨rest, rfl, hbehind⟩ := h.uncons
      have hplace := h.placed [] piece pieces rfl
      rw [List.flatMap_nil, List.append_nil] at hplace
      have hcolumn : piece.token.position.column = 1 + (before ++ piece.gap).length := by
        rw [hplace]
        refine Position.column_behind fun hbreak => hline ?_
        rw [← List.append_assoc]
        exact List.mem_append_left _ hbreak
      have hassoc : before ++ (piece.gap ++ (piece.token.spelling ++ rest)) =
          before ++ piece.gap ++ piece.token.spelling ++ rest := by
        simp only [List.append_assoc]
      have hwritten := h.written piece List.mem_cons_self
      rw [List.map_cons, fragmentsFrom_cons _ hcolumn hwritten, pieceFragments, hassoc,
        ih hbehind (hassoc ▸ hline)]

section Plain

variable {chars : List Char} {fragment : Fragment}

/-- A fragment without style is all that it was made of. -/
theorem of_mem_plainFragments (h : fragment ∈ plainFragments chars) :
    chars ≠ [] ∧ fragment = ⟨"", String.ofList chars⟩ := by
  unfold plainFragments at h
  split at h
  · cases h
  · next hchars => exact ⟨hchars, List.mem_singleton.1 h⟩

/-- A fragment without style loses no character. -/
theorem flatMap_plainFragments (chars : List Char) :
    (plainFragments chars).flatMap (fun fragment => fragment.text.toList) = chars := by
  unfold plainFragments
  split
  · next hempty => rw [hempty, List.flatMap_nil]
  · rw [List.flatMap_singleton, String.toList_ofList]

/-- A fragment made of blanks is a gap. -/
theorem isGap_of_mem_plainFragments (hblank : ∀ char ∈ chars, isBlank char = true)
    (h : fragment ∈ plainFragments chars) : fragment.isGap = true := by
  rw [(of_mem_plainFragments h).2, Fragment.isGap, String.toList_ofList]
  exact List.all_eq_true.2 hblank

end Plain

/-- No token of a text is written with blanks alone: it would not be lexed as a token then. -/
theorem not_isGap_tokenFragment {token : Token} {position : Position} {chars : List Char}
    (h : token ∈ lex position chars) (tokens : List Token) :
    (tokenFragment token tokens).isGap = false := by
  rw [Bool.eq_false_iff]
  intro hgap
  rw [Fragment.isGap, tokenFragment, String.toList_ofList, List.all_eq_true] at hgap
  have htoken := lex_spelled (spelled_of_mem_lex h) .start
  rw [← Token.spelling, lex_of_blank _ (run_whole hgap).2] at htoken
  cases htoken

section Pieces

variable {last : List Char} {pieces : List Piece} {fragment : Fragment}

/-- The fragments of pieces are the text of the pieces. -/
theorem flatMap_pieceFragments (last : List Char) (pieces : List Piece) :
    (pieceFragments last pieces).flatMap (fun fragment => fragment.text.toList) =
      pieces.flatMap Piece.chars ++ last := by
  induction pieces with
  | nil => exact flatMap_plainFragments last
  | cons piece pieces ih =>
      rw [pieceFragments, List.flatMap_append, List.flatMap_cons, ih, flatMap_plainFragments,
        tokenFragment, String.toList_ofList, List.flatMap_cons, Piece.chars, List.append_assoc,
        List.append_assoc]

/-- A fragment of pieces is a token or unstyled text between tokens. -/
theorem of_mem_pieceFragments (h : fragment ∈ pieceFragments last pieces) :
    (∃ gap ∈ last :: pieces.map Piece.gap, fragment ∈ plainFragments gap) ∨
      ∃ piece ∈ pieces, ∃ tokens, fragment = tokenFragment piece.token tokens := by
  induction pieces with
  | nil => exact .inl ⟨last, List.mem_cons_self, h⟩
  | cons piece pieces ih =>
      rw [pieceFragments, List.mem_append, List.mem_cons] at h
      rcases h with hgap | htoken | hbehind
      · exact .inl ⟨piece.gap, by simp, hgap⟩
      · exact .inr ⟨piece, List.mem_cons_self, _, htoken⟩
      · rcases ih hbehind with ⟨gap, hmem, hgap⟩ | ⟨other, hmem, hother⟩
        · refine .inl ⟨gap, ?_, hgap⟩
          rw [List.mem_cons] at hmem
          simp only [List.map_cons, List.mem_cons]
          exact hmem.imp_right .inr
        · exact .inr ⟨other, List.mem_cons_of_mem _ hmem, hother⟩

/-- The gaps left out, the fragments of pieces are their tokens. -/
theorem filter_pieceFragments (hlast : ∀ char ∈ last, isBlank char = true)
    (hgaps : ∀ piece ∈ pieces, ∀ char ∈ piece.gap, isBlank char = true)
    (htokens : ∀ piece ∈ pieces, ∀ tokens, (tokenFragment piece.token tokens).isGap = false) :
    (pieceFragments last pieces).filter (fun fragment => !fragment.isGap) =
      tokenFragments (pieces.map Piece.token) := by
  have hplain : ∀ {chars : List Char}, (∀ char ∈ chars, isBlank char = true) →
      (plainFragments chars).filter (fun fragment => !fragment.isGap) = [] := by
    intro chars hblank
    refine List.filter_eq_nil_iff.2 fun fragment hfragment => ?_
    rw [isGap_of_mem_plainFragments hblank hfragment]
    exact Bool.false_ne_true
  induction pieces with
  | nil => exact hplain hlast
  | cons piece pieces ih =>
      obtain ⟨hgap, hgaps⟩ := List.forall_mem_cons.1 hgaps
      obtain ⟨htoken, htokens⟩ := List.forall_mem_cons.1 htokens
      rw [pieceFragments, List.filter_append, hplain hgap, List.nil_append,
        List.filter_cons_of_pos (by rw [htoken]; rfl), ih hgaps htokens, List.map_cons,
        tokenFragments]

end Pieces

/-- The fragments of a line that is not empty are its pieces. -/
theorem highlight_of_tiles {line : String} {pieces : List Piece} {last : List Char}
    (h : Tiles [] pieces last line.toList) (htokens : ofText line = pieces.map Piece.token)
    (hbreak : '\n' ∉ line.toList) (hline : line ≠ "") :
    highlight line = pieceFragments last pieces := by
  have hfragments := fragmentsFrom_of_tiles h hbreak
  have hchars := flatMap_pieceFragments last pieces
  rw [← h.whole] at hchars
  rw [highlight, htokens]
  rw [List.nil_append, List.length_nil] at hfragments
  rw [hfragments]
  split
  · next hnil =>
      rw [hnil, List.flatMap_nil] at hchars
      exact absurd (String.toList_eq_nil_iff.1 hchars.symm) hline
  · rfl

/-- The fragments of a line without a line break, put together, are the line; none is empty, unless
the line is. Those that hold more than blanks are its tokens as they are written, in order and each
in the style of its kind; the others have no style. -/
theorem highlight_lossless (line : String) (h : '\n' ∉ line.toList) :
    String.join ((highlight line).map Fragment.text) = line ∧
    (line ≠ "" → ∀ fragment ∈ highlight line, fragment.text ≠ "") ∧
    (highlight line).filter (fun fragment => !fragment.isGap) = tokenFragments (ofText line) ∧
    ∀ fragment ∈ highlight line, fragment.isGap = true → fragment.style = "" := by
  by_cases hline : line = ""
  · subst hline
    decide +kernel
  · obtain ⟨pieces, last, htiles, htokens⟩ := exists_tiles .start line.toList [] rfl
    have hseen : ∀ piece ∈ pieces, ∀ tokens,
        (tokenFragment piece.token tokens).isGap = false := by
      intro piece hpiece tokens
      have hmem : piece.token ∈ lex .start line.toList := by
        rw [htokens]
        exact List.mem_map_of_mem hpiece
      exact not_isGap_tokenFragment hmem tokens
    rw [highlight_of_tiles htiles htokens h hline]
    refine ⟨?_, fun _ fragment hfragment => ?_, ?_, fun fragment hfragment hgap => ?_⟩
    · refine String.toList_injective ?_
      rw [String.toList_join, List.flatMap_map, flatMap_pieceFragments, ← htiles.whole]
    · rcases of_mem_pieceFragments hfragment with ⟨gap, -, hgap⟩ | ⟨piece, hpiece, tokens, rfl⟩
      · obtain ⟨hchars, rfl⟩ := of_mem_plainFragments hgap
        exact fun hempty => hchars (String.ofList_eq_empty_iff.1 hempty)
      · have hwritten := htiles.written piece hpiece
        exact fun hempty => hwritten (String.ofList_eq_empty_iff.1 hempty)
    · rw [filter_pieceFragments htiles.last htiles.gaps hseen, ← htokens]
      rfl
    · rcases of_mem_pieceFragments hfragment with ⟨gap, -, hplain⟩ | ⟨piece, hpiece, tokens, rfl⟩
      · rw [(of_mem_plainFragments hplain).2]
      · rw [hseen piece hpiece tokens] at hgap
        cases hgap

/-- A called name, an empty string, a carriage return between two tokens, an unknown character and a
string that is left open, with a blank at its end. -/
theorem highlight_lossless_unterminated :
    let line := "f (\"\") \r@\"x "
    '\n' ∉ line.toList ∧ String.join ((highlight line).map Fragment.text) = line ∧
      (highlight line).filter (fun fragment => !fragment.isGap) =
        [⟨"bold ansiyellow", "f"⟩, ⟨"", "("⟩, ⟨"ansigreen", "\"\""⟩, ⟨"", ")"⟩,
          ⟨"bold ansired", "@"⟩, ⟨"bold ansired", "\"x "⟩] := by
  intro line
  have hbreak : '\n' ∉ line.toList := by decide
  obtain ⟨hwhole, -, htokens, -⟩ := highlight_lossless line hbreak
  refine ⟨hbreak, hwhole, htokens.trans ?_⟩
  decide +kernel

end Scriptlet.Prompt
