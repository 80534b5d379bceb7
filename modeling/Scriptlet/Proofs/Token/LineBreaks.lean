import Scriptlet.Proofs.Relocation.Nodes
import Scriptlet.Proofs.Token.Tiling

/-!
# Lexing one text behind another

Where the last character of a text and the first one of the next belong to no common lexeme, the
texts are lexed one after the other (`lex_append`), unless a string is left open in the first one.
A line break ends every lexeme but a quoted string, so the tokens of two texts with a line break
between them are those of the first text and then those of the second, further down
(`ofText_append_newline`). A string that is left open in the first text goes on behind the break, so
there is no other exception (`tokenize_append_newline_iff`).
-/

namespace Scriptlet

namespace Position

/-- The place some lines further down. Line zero is no line of a text and stays. -/
def down (lines : Nat) (position : Position) : Position :=
  if position.line = 0 then position else ⟨position.line + lines, position.column⟩

/-- A place in a line is moved down by lines, in its column. -/
theorem down_of_pos {position : Position} (lines : Nat) (h : 0 < position.line) :
    position.down lines = ⟨position.line + lines, position.column⟩ :=
  if_neg (Nat.ne_of_gt h)

/-- Moving down leaves line zero alone. -/
theorem keeps_down (lines : Nat) : Keeps (down lines) := by
  intro position
  unfold down
  split <;> simp_all

theorem line_pos_advance {position : Position} (h : 0 < position.line) (char : Char) :
    0 < (position.advance char).line := by
  unfold advance
  split
  · exact Nat.succ_pos _
  · exact h

/-- A character may be read before or behind moving down. -/
theorem advance_down {position : Position} (lines : Nat) (h : 0 < position.line) (char : Char) :
    (position.down lines).advance char = (position.advance char).down lines := by
  rw [down_of_pos lines h, down_of_pos lines (line_pos_advance h char)]
  unfold advance
  split
  · rw [Nat.add_right_comm]
  · rfl

/-- Characters may be read before or behind moving down. -/
theorem after_down {position : Position} (lines : Nat) (h : 0 < position.line)
    (chars : List Char) :
    (position.down lines).after chars = (position.after chars).down lines := by
  induction chars generalizing position with
  | nil => rfl
  | cons char chars ih =>
      have hnext := ih (line_pos_advance h char)
      rw [← advance_down lines h] at hnext
      exact hnext

theorem line_pos_after {position : Position} (h : 0 < position.line) (chars : List Char) :
    0 < (position.after chars).line := by
  rcases eq_or_before_after position chars with heq | hbefore
  · rw [← heq]
    exact h
  · unfold Before at hbefore
    omega

/-- The place behind a text and a line break is the first one, further down. -/
theorem after_newline (chars : List Char) :
    (start.after chars).advance '\n' = start.down (start.after chars).line := by
  rw [down_of_pos _ (by decide)]
  simp only [advance, if_true, start, Position.mk.injEq, and_true]
  omega

end Position

namespace Token

/-- The token is a string that is left open at the end of the text. -/
def Unterminated (token : Token) : Prop :=
  token.kind = .illegal ∧ token.text.toList.head? = some '"'

section Runs

variable {α : Type} {p : α → Bool} {list more rest : List α} {stop : α}

/-- What is taken ends before a stop, whatever follows. -/
theorem takeWhile_append_stop (h : p stop = false) :
    (list ++ stop :: more).takeWhile p = list.takeWhile p := by
  induction list with
  | nil => simp [h]
  | cons first list ih => simp [List.takeWhile_cons, ih]

theorem dropWhile_append_stop (h : p stop = false) :
    (list ++ stop :: more).dropWhile p = list.dropWhile p ++ stop :: more := by
  induction list with
  | nil => simp [h]
  | cons first list ih =>
      simp only [List.cons_append, List.dropWhile_cons, ih]
      split <;> rfl

/-- What is taken ends where something is left, whatever follows. -/
theorem takeWhile_append_of_dropWhile (h : list.dropWhile p = stop :: rest) :
    (list ++ more).takeWhile p = list.takeWhile p := by
  induction list with
  | nil => cases h
  | cons first list ih =>
      cases hfirst : p first with
      | true =>
          rw [List.dropWhile_cons_of_pos hfirst] at h
          simp [hfirst, ih h]
      | false => simp [hfirst]

theorem dropWhile_append_of_dropWhile (h : list.dropWhile p = stop :: rest) :
    (list ++ more).dropWhile p = stop :: (rest ++ more) := by
  rw [List.dropWhile_append, h]
  rfl

end Runs

/-- The characters belong to one lexeme where the first one stands right before the second. -/
def joins (last next : Char) : Bool :=
  isLetter last && isLetter next || isDigit last && isDigit next || (Kind.ofPair? last next).isSome

/-- The border between the two texts goes through no lexeme but an open string. -/
def Apart (chars more : List Char) : Prop :=
  ∀ last ∈ chars.getLast?, ∀ next ∈ more.head?, joins last next = false

/-- What comes behind the first characters is as far apart from the rest. -/
theorem Apart.of_append {before chars more : List Char} (h : Apart (before ++ chars) more) :
    Apart chars more := by
  intro last hlast
  refine h last ?_
  rw [List.getLast?_append, Option.mem_def.1 hlast]
  rfl

/-- The border is also behind the first lexeme of the text and behind what follows it. -/
theorem Apart.of_scan {chars rest more : List Char} {first : Char} (h : Apart chars more)
    (hcut : chars.dropWhile isBlank = first :: rest) :
    Apart (first :: rest) more ∧ Apart (scan first rest).rest more := by
  have hlexeme : Apart (first :: rest) more := by
    rw [← List.takeWhile_append_dropWhile (p := isBlank) (l := chars), hcut] at h
    exact h.of_append
  refine ⟨hlexeme, ?_⟩
  rw [← spell_scan first rest] at hlexeme
  exact hlexeme.of_append

/-- Nothing joins with a line break. -/
theorem joins_newline (last : Char) : joins last '\n' = false := by
  have hpair : Kind.ofPair? last '\n' = none := by
    unfold Kind.ofPair?
    split <;> first | rfl | simp_all
  have hletter : isLetter '\n' = false := by decide
  have hdigit : isDigit '\n' = false := by decide
  simp [joins, hpair, hletter, hdigit]

/-- A line break keeps apart what stands around it. -/
theorem apart_newline (chars more : List Char) : Apart chars ('\n' :: more) := by
  intro last _ next hnext
  cases hnext
  exact joins_newline last

/-- A run of characters that join ends at the border. -/
theorem Apart.run {p : Char → Bool} {first next : Char} {chars more : List Char}
    (hjoins : ∀ {last next}, p last = true → p next = true → joins last next = true)
    (hfirst : p first = true) (h : Apart (first :: chars) (next :: more)) :
    (chars ++ next :: more).takeWhile p = chars.takeWhile p ∧
      (chars ++ next :: more).dropWhile p = chars.dropWhile p ++ next :: more := by
  cases hcut : chars.dropWhile p with
  | nil =>
      -- The run goes up to the border, so the next character must not be of its class.
      have hall : ∀ char ∈ first :: chars, p char = true := by
        refine List.forall_mem_cons.2 ⟨hfirst, fun char hchar => ?_⟩
        rw [← List.takeWhile_append_dropWhile (p := p) (l := chars), hcut, List.append_nil] at hchar
        exact List.all_eq_true.1 List.all_takeWhile char hchar
      have hnext : p next = false := by
        have hlast := List.getLast?_eq_some_getLast (List.cons_ne_nil first chars)
        have hborder := h _ hlast next rfl
        have hrun := hall _ (List.getLast_mem (List.cons_ne_nil first chars))
        cases hnext : p next with
        | false => rfl
        | true => exact absurd (hborder.symm.trans (hjoins hrun hnext)) Bool.false_ne_true
      rw [takeWhile_append_stop hnext, dropWhile_append_stop hnext, hcut]
      exact ⟨rfl, rfl⟩
  | cons stop rest =>
      rw [takeWhile_append_of_dropWhile hcut, dropWhile_append_of_dropWhile hcut]
      exact ⟨rfl, rfl⟩

/-- What stands behind the border does not belong to the lexeme before it, unless that is an open
string. -/
theorem scan_append {first : Char} {chars more : List Char}
    (hopen : ¬ ((scan first chars).kind = .illegal ∧ (scan first chars).text.head? = some '"'))
    (h : Apart (first :: chars) more) :
    scan first (chars ++ more) =
      ⟨(scan first chars).kind, (scan first chars).text, (scan first chars).rest ++ more⟩ := by
  cases more with
  | nil => simp only [List.append_nil]
  | cons next more =>
      unfold scan at hopen ⊢
      split
      · next hquote =>
          rw [if_pos hquote] at hopen
          unfold scanString at hopen ⊢
          cases hcut : chars.dropWhile isQuotable with
          | nil =>
              rw [hcut] at hopen
              exact absurd ⟨rfl, rfl⟩ hopen
          | cons close rest =>
              rw [dropWhile_append_of_dropWhile hcut, takeWhile_append_of_dropWhile hcut]
      · split
        · next hletter =>
            obtain ⟨htake, hdrop⟩ :=
              h.run (fun hlast hnext => by simp [joins, hlast, hnext]) hletter
            rw [htake, hdrop]
        · split
          · next hdigit =>
              obtain ⟨htake, hdrop⟩ :=
                h.run (fun hlast hnext => by simp [joins, hlast, hnext]) hdigit
              rw [htake, hdrop]
          · unfold scanSymbol
            cases chars with
            | nil =>
                have hpair : Kind.ofPair? first next = none := by
                  have hborder := h first rfl next rfl
                  simp only [joins, Bool.or_eq_false_iff, Option.isSome_eq_false_iff,
                    Option.isNone_iff_eq_none] at hborder
                  exact hborder.2
                simp only [List.nil_append, hpair]
            | cons second rest =>
                simp only [List.cons_append]
                split <;> rfl

/-- A string that is left open begins with a quote, and no other quote follows. -/
theorem eq_quote_of_scan {first : Char} {chars : List Char}
    (hkind : (scan first chars).kind = .illegal)
    (hopen : (scan first chars).text.head? = some '"') :
    first = '"' ∧ chars.dropWhile isQuotable = [] := by
  have hquote : first = '"' := by
    have hspell := spell_scan first chars
    rw [hkind, spell, if_neg (by decide)] at hspell
    obtain ⟨text, htext⟩ := List.head?_eq_some_iff.1 hopen
    rw [htext] at hspell
    exact (List.cons.inj hspell).1.symm
  subst hquote
  refine ⟨rfl, ?_⟩
  rw [scan, if_pos rfl, scanString] at hkind
  split at hkind
  · assumption
  · cases hkind

/-- A string that is left open does not end at a border. -/
theorem scan_append_ne {first : Char} {chars more : List Char}
    (hkind : (scan first chars).kind = .illegal)
    (hopen : (scan first chars).text.head? = some '"') (hmore : more ≠ [])
    (h : (scan first (chars ++ more)).kind = .illegal) :
    (scan first (chars ++ more)).text ≠ (scan first chars).text := by
  obtain ⟨rfl, hcut⟩ := eq_quote_of_scan hkind hopen
  intro htext
  simp only [scan, if_true, scanString, hcut] at h htext
  split at h
  · next hlonger =>
      rw [hlonger] at htext
      exact hmore (List.append_right_eq_self.1 (List.cons.inj htext).2)
  · cases h

/-- Blanks before a text only move it. -/
theorem lex_blank_append {blanks : List Char} (position : Position) (rest : List Char)
    (h : ∀ char ∈ blanks, isBlank char = true) :
    lex position (blanks ++ rest) = lex (position.after blanks) rest := by
  have hdrop : (blanks ++ rest).dropWhile isBlank = rest.dropWhile isBlank :=
    List.dropWhile_append_of_pos h
  cases hcut : rest.dropWhile isBlank with
  | nil => rw [lex_of_blank _ (hdrop.trans hcut), lex_of_blank _ hcut]
  | cons first behind =>
      rw [lex_of_scan _ (hdrop.trans hcut), lex_of_scan _ hcut, List.takeWhile_append_of_pos h,
        Position.after_append]

/-- The lexer goes on behind a border as if the text began there. -/
theorem lex_append {position : Position} {chars more : List Char}
    (h : ∀ token ∈ lex position chars, ¬ token.Unterminated) (hapart : Apart chars more) :
    lex position (chars ++ more) = lex position chars ++ lex (position.after chars) more := by
  induction position, chars using lex.induct with
  | case1 position chars hcut =>
      have hall : chars.takeWhile isBlank ++ chars.dropWhile isBlank = chars :=
        List.takeWhile_append_dropWhile
      rw [hcut, List.append_nil] at hall
      have hblank : ∀ char ∈ chars, isBlank char = true := by
        intro char hchar
        rw [← hall] at hchar
        exact List.all_eq_true.1 List.all_takeWhile char hchar
      rw [lex_of_blank position hcut, lex_blank_append position more hblank, List.nil_append]
  | case2 position chars place first rest hcut lexeme ih =>
      -- The first lexeme ends where it did, so the longer text goes on from the same place.
      rw [lex_of_scan position hcut] at h ⊢
      obtain ⟨hfirst, hrest⟩ := List.forall_mem_cons.1 h
      have hopen : ¬ ((scan first rest).kind = .illegal ∧
          (scan first rest).text.head? = some '"') := by
        intro hopen
        refine hfirst ⟨hopen.1, ?_⟩
        rw [String.toList_ofList]
        exact hopen.2
      obtain ⟨hlexeme, hbehind⟩ := hapart.of_scan hcut
      have hlonger : (chars ++ more).dropWhile isBlank = first :: (rest ++ more) :=
        dropWhile_append_of_dropWhile hcut
      rw [lex_of_scan position hlonger, takeWhile_append_of_dropWhile hcut,
        scan_append hopen hlexeme, List.cons_append, after_eq_of_scan position hcut]
      exact congrArg _ (ih hrest hbehind)

/-- Where a string is left open, the longer text has another token in its place. -/
theorem lex_append_ne {token : Token} {position : Position} {chars more : List Char}
    (h : token ∈ lex position chars) (hopen : token.Unterminated) (hmore : more ≠ [])
    (hapart : Apart chars more) (behind : List Token) :
    lex position (chars ++ more) ≠ lex position chars ++ behind := by
  induction position, chars using lex.induct with
  | case1 position chars hcut =>
      rw [lex_of_blank position hcut] at h
      cases h
  | case2 position chars place first rest hcut lexeme ih =>
      have hlonger : (chars ++ more).dropWhile isBlank = first :: (rest ++ more) :=
        dropWhile_append_of_dropWhile hcut
      rw [lex_of_scan position hcut] at h ⊢
      rw [lex_of_scan position hlonger, List.cons_append]
      intro heq
      obtain ⟨htoken, hrest⟩ := List.cons.inj heq
      obtain ⟨hkind, htext, -⟩ := Token.mk.inj htoken
      by_cases hfirst : (scan first rest).kind = .illegal ∧
          (scan first rest).text.head? = some '"'
      · exact scan_append_ne hfirst.1 hfirst.2 hmore (hkind.trans hfirst.1)
          (String.ofList_injective htext)
      · -- The first lexeme is closed, so both texts go on behind it and differ there.
        obtain ⟨hlexeme, hbehind⟩ := hapart.of_scan hcut
        have hlater : token ∈ lex (place.after (spell lexeme.kind lexeme.text)) lexeme.rest := by
          refine (List.mem_cons.1 h).resolve_left fun hmem => hfirst ?_
          rw [hmem] at hopen
          refine ⟨hopen.1, ?_⟩
          have hhead := hopen.2
          rwa [String.toList_ofList] at hhead
        rw [scan_append hfirst hlexeme, takeWhile_append_of_dropWhile hcut] at hrest
        exact ih hlater hbehind hrest

/-- The lexer goes on behind a line break as if the text began there. -/
theorem lex_append_newline {position : Position} {chars : List Char} (more : List Char)
    (h : ∀ token ∈ lex position chars, ¬ token.Unterminated) :
    lex position (chars ++ '\n' :: more) =
      lex position chars ++ lex ((position.after chars).advance '\n') more := by
  have hblank : ∀ char ∈ ['\n'], isBlank char = true :=
    List.forall_mem_singleton.2 rfl
  rw [lex_append h (apart_newline chars more)]
  exact congrArg _ (lex_blank_append _ more hblank)

/-- A text further down has the same tokens, further down. -/
theorem lex_down {position : Position} (lines : Nat) (h : 0 < position.line) (chars : List Char) :
    lex (position.down lines) chars =
      (lex position chars).map (Token.relocate (Position.down lines)) := by
  induction position, chars using lex.induct with
  | case1 position chars hcut => rw [lex_of_blank _ hcut, lex_of_blank _ hcut, List.map_nil]
  | case2 position chars place first rest hcut lexeme ih =>
      have hplace := Position.line_pos_after h (chars.takeWhile isBlank)
      have hnext := ih (Position.line_pos_after hplace _)
      rw [lex_of_scan _ hcut, lex_of_scan _ hcut, Position.after_down lines h,
        Position.after_down lines hplace, List.map_cons]
      exact congrArg _ hnext

theorem toList_append_newline (first second : String) :
    (first ++ "\n" ++ second).toList = first.toList ++ '\n' :: second.toList := by
  simp

/-- The tokens of two texts with a line break between them. -/
theorem ofText_append_newline {first : String} (second : String)
    (h : ∀ token ∈ ofText first, ¬ token.Unterminated) :
    ofText (first ++ "\n" ++ second) = ofText first ++
      (ofText second).map
        (Token.relocate (Position.down (Position.start.after first.toList).line)) := by
  have hplace := Position.after_newline first.toList
  rw [ofText, toList_append_newline, lex_append_newline second.toList h, hplace,
    lex_down _ (by decide)]
  rfl

/-- The end marker of two texts with a line break between them is that of the second, further
down. -/
theorem endOf_append_newline (first second : String) :
    endOf (first ++ "\n" ++ second) = (endOf second).relocate
      (Position.down (Position.start.after first.toList).line) := by
  have hplace := Position.after_newline first.toList
  rw [endOf, toList_append_newline, Position.after_append]
  show (⟨.eof, "", ((Position.start.after first.toList).advance '\n').after second.toList⟩ :
    Token) = _
  rw [hplace, Position.after_down _ (by decide)]
  rfl

/-- The end marker of a text is the last of its tokens. -/
theorem dropLast_tokenize (source : String) : (tokenize source).dropLast = ofText source :=
  List.dropLast_concat

/-- The end marker is no open string. -/
theorem not_unterminated_endOf (source : String) : ¬ (endOf source).Unterminated := by
  intro h
  cases h.1

/-- The tokens of a text, as many lines further down as another text and a line break take. -/
theorem map_down_tokenize (first second : String) :
    (tokenize second).map
        (Token.relocate (Position.down (Position.start.after first.toList).line)) =
      (tokenize second).map (Token.relocate fun place =>
        ⟨place.line + (1 + first.toList.count '\n'), place.column⟩) := by
  refine List.map_congr_left fun token htoken => ?_
  rw [Token.relocate, Position.down_of_pos _ (line_pos_of_mem_tokenize htoken),
    Position.after_start]
  rfl

/-- The tokens of two texts with a line break between them are those of the first, without its end
marker, and then those of the second and its end marker, as many lines further down as the first
text and the break take, exactly if no string is left open in the first text. -/
theorem tokenize_append_newline_iff (first second : String) :
    tokenize (first ++ "\n" ++ second) = (tokenize first).dropLast ++
        (tokenize second).map (Token.relocate fun place =>
          ⟨place.line + (1 + first.toList.count '\n'), place.column⟩) ↔
      ∀ token ∈ tokenize first, ¬ token.Unterminated := by
  rw [dropLast_tokenize, ← map_down_tokenize]
  constructor
  · intro h token htoken hopen
    rcases List.mem_append.1 htoken with htoken | htoken
    · rw [tokenize, tokenize, List.map_append, ← List.append_assoc, List.map_singleton] at h
      have htokens := List.append_inj_left' h rfl
      rw [ofText, toList_append_newline] at htokens
      exact lex_append_ne htoken hopen (List.cons_ne_nil _ _) (apart_newline _ _) _ htokens
    · rw [List.mem_singleton.1 htoken] at hopen
      exact not_unterminated_endOf first hopen
  · intro h
    have hclosed : ∀ token ∈ ofText first, ¬ token.Unterminated :=
      fun token htoken => h token (List.mem_append_left _ htoken)
    rw [tokenize, ofText_append_newline second hclosed, endOf_append_newline, tokenize,
      List.map_append, List.map_singleton, List.append_assoc]

-- An open string goes on behind the break, here up to the quote of the second text.
example : (tokenize "a \"b").map Token.content = [(.ident, "a"), (.illegal, "\"b"), (.eof, "")] ∧
    (tokenize "a \"b\n\" c").map Token.content =
      [(.ident, "a"), (.string, "b\n"), (.ident, "c"), (.eof, "")] := by
  decide +kernel

end Token

end Scriptlet
