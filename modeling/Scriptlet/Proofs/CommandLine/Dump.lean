import Scriptlet.CommandLine
import Scriptlet.Proofs.Text.Numeral
import Scriptlet.Proofs.Text.Quoting
import Scriptlet.Proofs.Token.Respelling

/-!
# A token dump tells the tokens

Each part of a row in a token dump is closed by a character that does not stand in it: a colon, a
tab, a tab and the line break. So a row comes off the front of a dump in one way
(`tokenRow_append_inj`), and two dumps are the same only for the same tokens (`tokenRows_eq_iff`),
whatever characters count as hidden.
-/

namespace Scriptlet

/-- A part that is closed by a character which does not stand in it comes off the front of a list in
one way. -/
theorem append_cons_inj {α : Type} {stop : α} {first second rest other : List α}
    (hfirst : stop ∉ first) (hsecond : stop ∉ second)
    (h : first ++ stop :: rest = second ++ stop :: other) : first = second ∧ rest = other := by
  induction first generalizing second with
  | nil =>
      cases second with
      | nil => exact ⟨rfl, (List.cons.inj h).2⟩
      | cons head second =>
          rw [(List.cons.inj h).1] at hsecond
          exact absurd List.mem_cons_self hsecond
  | cons head first ih =>
      cases second with
      | nil =>
          rw [← (List.cons.inj h).1] at hfirst
          exact absurd List.mem_cons_self hfirst
      | cons next second =>
          obtain ⟨rfl, hbehind⟩ := List.cons.inj h
          obtain ⟨rfl, hrest⟩ := ih (fun hmem => hfirst (List.mem_cons_of_mem _ hmem))
            (fun hmem => hsecond (List.mem_cons_of_mem _ hmem)) hbehind
          exact ⟨rfl, hrest⟩

namespace Kind

/-- All kinds, in the order of their declaration. -/
def all : List Kind :=
  [illegal, eof, ident, int, string, assign, plus, minus, bang, asterisk, slash, percent, less,
    lessEqual, greater, greaterEqual, equal, notEqual, dot, comma, colon, semicolon, openParen,
    closeParen, openBracket, closeBracket, openBrace, closeBrace, wordFn, wordLet, wordTrue,
    wordFalse, wordIf, wordElse, wordReturn, wordFor]

/-- The dump names tell the kinds apart. -/
theorem name_injective : Function.Injective name := by
  have hfind : ∀ kind : Kind, all.find? (fun other => other.name = kind.name) = some kind := by
    intro kind
    cases kind <;> rfl
  intro first second h
  have hfirst := hfind first
  rw [h, hfind second] at hfirst
  exact (Option.some.inj hfirst).symm

/-- The name of a kind has no tab in it. -/
theorem tab_notMem_name (kind : Kind) : '\t' ∉ kind.name.toList := by
  cases kind <;> decide

end Kind

namespace CommandLine

variable {hidden : Char → Bool}

/-- A row as characters: line, column, kind and text, each with what closes it. -/
theorem toList_tokenRow (token : Token) : (tokenRow hidden token).toList =
    (toString token.position.line).toList ++ ':' :: ((toString token.position.column).toList ++
      '\t' :: (token.kind.name.toList ++
        '\t' :: ((Text.quotedBy hidden token.text).toList ++ ['\n']))) := by
  simp [tokenRow]

/-- The row of a token comes off the front of a dump in one way. -/
theorem tokenRow_append_inj {first second : Token} {rest other : List Char}
    (h : (tokenRow hidden first).toList ++ rest = (tokenRow hidden second).toList ++ other) :
    first = second ∧ rest = other := by
  simp only [toList_tokenRow, List.append_assoc, List.cons_append, List.nil_append] at h
  obtain ⟨hline, h⟩ := append_cons_inj (notMem_toString rfl _) (notMem_toString rfl _) h
  obtain ⟨hcolumn, h⟩ := append_cons_inj (notMem_toString rfl _) (notMem_toString rfl _) h
  obtain ⟨hname, h⟩ := append_cons_inj (Kind.tab_notMem_name _) (Kind.tab_notMem_name _) h
  obtain ⟨htext, hrest⟩ := append_cons_inj (Text.notMem_quotedBy hidden (.inl rfl) _)
    (Text.notMem_quotedBy hidden (.inl rfl) _) h
  refine ⟨?_, hrest⟩
  obtain ⟨kind, text, line, column⟩ := first
  obtain ⟨otherKind, otherText, otherLine, otherColumn⟩ := second
  cases toString_nat_injective (String.toList_injective hline)
  cases toString_nat_injective (String.toList_injective hcolumn)
  cases Kind.name_injective (String.toList_injective hname)
  cases Text.quotedBy_injective hidden (String.toList_injective htext)
  rfl

/-- Rows one behind the other tell their tokens. -/
theorem flatMap_tokenRow_injective :
    Function.Injective (List.flatMap fun token => (tokenRow hidden token).toList) := by
  intro first second h
  induction first generalizing second with
  | nil =>
      cases second with
      | nil => rfl
      | cons token second => simp [toList_tokenRow] at h
  | cons token first ih =>
      cases second with
      | nil => simp [toList_tokenRow] at h
      | cons other second =>
          obtain ⟨htoken, hrest⟩ := tokenRow_append_inj h
          rw [htoken, ih hrest]

/-- A dump as characters: the rows one behind the other. -/
theorem toList_tokenRows (source : String) : (tokenRows hidden source).toList =
    (Token.ofText source).flatMap fun token => (tokenRow hidden token).toList := by
  rw [tokenRows, String.toList_join, List.flatMap_map]

/-- Two texts have the same token dump exactly when they have the same tokens, with the same texts
at the same places, the end marker apart. No two texts are quoted alike in a dump, and what is
quoted has no line break in it. All this holds whatever characters count as hidden. -/
theorem tokenRows_eq_iff (hidden : Char → Bool) :
    (∀ first second : String, tokenRows hidden first = tokenRows hidden second ↔
      (Token.tokenize first).filter (fun token => token.kind ≠ .eof) =
        (Token.tokenize second).filter fun token => token.kind ≠ .eof) ∧
    Function.Injective (Text.quotedBy hidden) ∧
    ∀ text, '\n' ∉ (Text.quotedBy hidden text).toList ∧
      '\r' ∉ (Text.quotedBy hidden text).toList := by
  refine ⟨fun first second => ?_, Text.quotedBy_injective hidden, fun text => ?_⟩
  · rw [Token.filter_tokenize, Token.filter_tokenize]
    refine ⟨fun h => ?_, fun h => ?_⟩
    · have hrows := congrArg String.toList h
      rw [toList_tokenRows, toList_tokenRows] at hrows
      exact flatMap_tokenRow_injective hrows
    · rw [tokenRows, h, tokenRows]
  · exact ⟨Text.notMem_quotedBy hidden (.inl rfl) text, Text.notMem_quotedBy hidden (.inr rfl) text⟩

end CommandLine

end Scriptlet
