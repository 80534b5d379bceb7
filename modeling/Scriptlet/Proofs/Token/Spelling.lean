import Scriptlet.Proofs.Grammar.Rules
import Scriptlet.Proofs.Token.LineBreaks

/-!
# The texts of tokens, and texts put together from them

`Spelled` says which text a token of a kind can have; every token of a text has such a one
(`spelled_of_mem_ofText`), and what such a token is written with is lexed as that one token
(`lex_spelled`). Before other characters it is cut off as that token exactly if the kind does not go
on with the first of them (`scan_spelled`).

`Written` puts a text and a property of its tokens together, wherever the text stands. Written texts
go one behind the other where a character that no token is continued by or continues stands between
them (`Written.before`, `Written.behind`).
-/

namespace Scriptlet

namespace Kind

/-- A word is a reserved one or an identifier. -/
theorem word?_ofWord (word : String) : (ofWord word).word? = some word ∨
    ofWord word = ident ∧ ∀ kind : Kind, kind.word? ≠ some word := by
  unfold ofWord
  split <;> first
    | exact .inl rfl
    | refine .inr ⟨rfl, fun kind hkind => ?_⟩
      cases kind <;> cases hkind <;> contradiction

/-- No word is an operator or a punctuation mark. -/
theorem symbol?_eq_none_of_word? {kind : Kind} {word : String} (h : kind.word? = some word) :
    kind.symbol? = none := by
  cases kind <;> first | rfl | cases h

/-- The character stands in an operator or a punctuation mark. -/
def IsSymbolic (char : Char) : Prop :=
  ∃ kind : Kind, ∃ symbol ∈ kind.symbol?, char ∈ symbol.toList

/-- A single character is a mark of its kind, or stands in none. -/
theorem symbol?_ofChar (char : Char) : (ofChar char).symbol? = some (String.ofList [char]) ∨
    ofChar char = illegal ∧ ¬ IsSymbolic char := by
  unfold ofChar
  split
  case h_20 =>
    refine .inr ⟨rfl, fun hsymbolic => ?_⟩
    obtain ⟨kind, symbol, hkind, hchar⟩ := hsymbolic
    cases kind <;> cases hkind <;> simp_all
  all_goals exact .inl rfl

/-- A character that is no symbol is illegal. -/
theorem ofChar_eq_illegal {char : Char} (h : ¬ IsSymbolic char) : ofChar char = illegal := by
  rcases symbol?_ofChar char with hsymbol | ⟨hkind, -⟩
  · exact absurd ⟨_, _, hsymbol, by simp⟩ h
  · exact hkind

/-- The kind is that of a word, a reserved one or a name. -/
def isWord (kind : Kind) : Bool :=
  kind = .ident || kind.word?.isSome

/-- The mark of the kind is the first character of an operator of two. -/
def isHalf (kind : Kind) : Bool :=
  kind ∈ [.assign, .bang, .less, .greater]

/-- A token of the kind goes on with the character where that stands right behind it. -/
def takes (kind : Kind) (next : Char) : Bool :=
  kind.isWord && Token.isLetter next || kind = .int && Token.isDigit next ||
    kind.isHalf && next = '='

/-- Words go on with letters. -/
theorem takes_ofWord (word : String) (next : Char) :
    (ofWord word).takes next = Token.isLetter next := by
  unfold ofWord
  split <;> exact (Bool.or_false _).trans (Bool.or_false _)

theorem takes_int (next : Char) : Kind.int.takes next = Token.isDigit next :=
  Bool.or_false _

/-- A mark goes on with a second character where the two are an operator. -/
theorem takes_ofChar (first next : Char) :
    (ofChar first).takes next = (ofPair? first next).isSome := by
  unfold ofPair?
  split
  case h_5 hequal hnot hless hgreater =>
    unfold ofChar
    split <;> first
      | rfl
      | refine decide_eq_false ?_
        rintro rfl
        simp_all
  all_goals rfl

end Kind

/-- Binary operators are symbols. -/
theorem Kind.isSome_symbol?_of_isBinary {kind : Kind} (h : kind.isBinary = true) :
    kind.symbol?.isSome = true := by
  revert h
  cases kind <;> decide

namespace Token

/-- The texts of the tokens of a kind. -/
inductive Spelled : Kind → List Char → Prop where
  | name {text} : text ≠ [] → (∀ char ∈ text, isLetter char = true) →
      (∀ kind : Kind, kind.word? ≠ some (String.ofList text)) → Spelled .ident text
  | word {kind text} : kind.word? = some (String.ofList text) → Spelled kind text
  | number {text} : text ≠ [] → (∀ char ∈ text, isDigit char = true) → Spelled .int text
  | quoted {text} : (∀ char ∈ text, isQuotable char = true) → Spelled .string text
  | symbol {kind text} : kind.symbol? = some (String.ofList text) → Spelled kind text
  | unknown {char} : isBlank char = false → isLetter char = false → isDigit char = false →
      char ≠ '"' → ¬ Kind.IsSymbolic char → Spelled .illegal [char]
  | unterminated {text} : (∀ char ∈ text, isQuotable char = true) → Spelled .illegal ('"' :: text)

/-- Letters spell a word. -/
theorem spelled_ofWord {text : List Char} (hne : text ≠ [])
    (hletters : ∀ char ∈ text, isLetter char = true) :
    Spelled (.ofWord (String.ofList text)) text := by
  rcases Kind.word?_ofWord (String.ofList text) with hword | ⟨hkind, hother⟩
  · exact .word hword
  · rw [hkind]
    exact .name hne hletters hother

/-- Two characters that are one symbol spell it. -/
theorem spelled_ofPair? {first second : Char} {kind : Kind}
    (h : Kind.ofPair? first second = some kind) : Spelled kind [first, second] := by
  unfold Kind.ofPair? at h
  split at h <;> cases h <;> exact .symbol rfl

/-- A string is spelled by its characters, closed or not. -/
theorem spelled_scanString (chars : List Char) :
    Spelled (scanString chars).kind (scanString chars).text := by
  unfold scanString
  split
  · next hcut =>
      refine .unterminated fun char hchar => ?_
      rw [← List.takeWhile_append_dropWhile (p := isQuotable) (l := chars), hcut,
        List.append_nil] at hchar
      exact List.all_eq_true.1 List.all_takeWhile char hchar
  · exact .quoted fun char hchar => List.all_eq_true.1 List.all_takeWhile char hchar

/-- Every lexeme has a text of its kind. -/
theorem spelled_scan {first : Char} (h : isBlank first = false) (chars : List Char) :
    Spelled (scan first chars).kind (scan first chars).text := by
  unfold scan
  split
  · exact spelled_scanString chars
  · next hquote =>
      split
      · next hletter =>
          refine spelled_ofWord (List.cons_ne_nil _ _) (List.forall_mem_cons.2 ⟨hletter, ?_⟩)
          exact fun char hchar => List.all_eq_true.1 List.all_takeWhile char hchar
      · next hletter =>
          split
          · next hdigit =>
              refine .number (List.cons_ne_nil _ _) (List.forall_mem_cons.2 ⟨hdigit, ?_⟩)
              exact fun char hchar => List.all_eq_true.1 List.all_takeWhile char hchar
          · next hdigit =>
              have hsingle : Spelled (.ofChar first) [first] := by
                rcases Kind.symbol?_ofChar first with hsymbol | ⟨hkind, hother⟩
                · exact .symbol hsymbol
                · rw [hkind]
                  exact .unknown h (eq_false_of_ne_true hletter)
                    (eq_false_of_ne_true hdigit) hquote hother
              unfold scanSymbol
              split
              · exact hsingle
              · split
                · next hpair => exact spelled_ofPair? hpair
                · exact hsingle

/-- Every token that is lexed is spelled. -/
theorem spelled_of_mem_lex {token : Token} {position : Position} {chars : List Char}
    (h : token ∈ lex position chars) : Spelled token.kind token.text.toList := by
  induction position, chars using lex.induct with
  | case1 position chars hcut =>
      rw [lex_of_blank position hcut] at h
      cases h
  | case2 position chars place first rest hcut lexeme ih =>
      rw [lex_of_scan position hcut] at h
      have hblank : isBlank first = false := by
        simpa [hcut] using List.head?_dropWhile_not isBlank chars
      rcases List.mem_cons.1 h with rfl | h
      · rw [String.toList_ofList]
        exact spelled_scan hblank rest
      · exact ih h

theorem spelled_of_mem_ofText {source : String} {token : Token} (h : token ∈ ofText source) :
    Spelled token.kind token.text.toList :=
  spelled_of_mem_lex h

/-- A token of an operator or a punctuation mark has its characters as text. -/
theorem Spelled.symbol?_eq {kind : Kind} {text : String} {symbol : String}
    (h : Spelled kind text.toList) (hsymbol : kind.symbol? = some symbol) : text = symbol := by
  generalize htext : text.toList = chars at h
  cases h with
  | symbol hkind =>
      rw [hsymbol, ← htext, String.ofList_toList] at hkind
      exact (Option.some.inj hkind).symm
  | word hword =>
      rw [Kind.symbol?_eq_none_of_word? hword] at hsymbol
      cases hsymbol
  | name | number | quoted | unknown | unterminated => cases hsymbol

/-- Letters and digits are not blank. -/
theorem isBlank_eq_false {char : Char} (h : isLetter char = true ∨ isDigit char = true) :
    isBlank char = false := by
  unfold isBlank
  simp only [Bool.or_eq_false_iff, decide_eq_false_iff_not]
  refine ⟨⟨⟨⟨⟨?_, ?_⟩, ?_⟩, ?_⟩, ?_⟩, ?_⟩ <;> rintro rfl <;> exact absurd h (by decide)

theorem isLetter_eq_false {char : Char} (h : isDigit char = true) : isLetter char = false := by
  simp only [isDigit, Char.isDigit, ge_iff_le, UInt32.le_iff_toNat_le, Bool.and_eq_true,
    decide_eq_true_eq] at h
  obtain ⟨hlow, hhigh⟩ := h
  unfold isLetter Char.isAlpha Char.isUpper Char.isLower
  simp only [ge_iff_le, UInt32.le_iff_toNat_le, Bool.or_eq_false_iff, Bool.and_eq_false_iff,
    decide_eq_false_iff_not]
  simp at hlow hhigh ⊢
  omega

/-- A run of characters of one class ends where the next character is not of that class. -/
theorem run_append_iff {p : Char → Bool} {chars more : List Char}
    (h : ∀ char ∈ chars, p char = true) :
    ((chars ++ more).takeWhile p = chars ∧ (chars ++ more).dropWhile p = more) ↔
      ∀ next ∈ more.head?, p next = false := by
  rw [List.takeWhile_append_of_pos h, List.dropWhile_append_of_pos h,
    List.append_right_eq_self]
  cases more with
  | nil => simp
  | cons next more => cases hnext : p next <;> simp [hnext]

/-- A run of characters of one class has its end where the text has. -/
theorem run_whole {p : Char → Bool} {chars : List Char} (h : ∀ char ∈ chars, p char = true) :
    chars.takeWhile p = chars ∧ chars.dropWhile p = [] := by
  have hrun : (chars ++ []).takeWhile p = chars ∧ (chars ++ []).dropWhile p = [] :=
    (run_append_iff h).2 nofun
  rwa [List.append_nil] at hrun

/-- A word is cut off where no further letter follows it. -/
theorem scan_word_iff {first : Char} {rest more : List Char}
    (h : ∀ char ∈ first :: rest, isLetter char = true) :
    scan first (rest ++ more) = ⟨.ofWord (String.ofList (first :: rest)), first :: rest, more⟩ ↔
      ∀ next ∈ more.head?, (Kind.ofWord (String.ofList (first :: rest))).takes next = false := by
  obtain ⟨hfirst, hrest⟩ := List.forall_mem_cons.1 h
  have hquote : first ≠ '"' := by
    rintro rfl
    exact absurd hfirst (by decide)
  simp only [Kind.takes_ofWord]
  rw [scan, if_neg hquote, if_pos hfirst, ← run_append_iff hrest]
  constructor
  · intro heq
    obtain ⟨-, htext, hbehind⟩ := Lexeme.mk.inj heq
    exact ⟨(List.cons.inj htext).2, hbehind⟩
  · intro hrun
    rw [hrun.1, hrun.2]

/-- A number is cut off where no further digit follows it. -/
theorem scan_number_iff {first : Char} {rest more : List Char}
    (h : ∀ char ∈ first :: rest, isDigit char = true) :
    scan first (rest ++ more) = ⟨.int, first :: rest, more⟩ ↔
      ∀ next ∈ more.head?, Kind.int.takes next = false := by
  obtain ⟨hfirst, hrest⟩ := List.forall_mem_cons.1 h
  have hquote : first ≠ '"' := by
    rintro rfl
    exact absurd hfirst (by decide)
  simp only [Kind.takes_int]
  rw [scan, if_neg hquote, if_neg (by simp [isLetter_eq_false hfirst]), if_pos hfirst,
    ← run_append_iff hrest]
  simp

/-- A mark is cut off where it is no operator together with what follows it. -/
theorem scanSymbol_iff {first : Char} {more : List Char} :
    scanSymbol first more = ⟨.ofChar first, [first], more⟩ ↔
      ∀ next ∈ more.head?, (Kind.ofChar first).takes next = false := by
  cases more with
  | nil => simp [scanSymbol]
  | cons next more =>
      cases hpair : Kind.ofPair? first next <;> simp [scanSymbol, Kind.takes_ofChar, hpair]

/-- The characters of an optional text. -/
theorem map_toList {text? : Option String} {text : List Char}
    (h : text? = some (String.ofList text)) : text?.map String.toList = some text := by
  rw [h, Option.map_some, String.toList_ofList]

/-- What a token is written with is cut off as the token exactly if the token does not go on with
what follows it. -/
theorem scan_spelled {kind : Kind} {text : List Char} (h : Spelled kind text) :
    ∃ first rest, spell kind text = first :: rest ∧ isBlank first = false ∧
      ∀ more, (kind = .illegal ∧ text.head? = some '"' → more = []) →
        (scan first (rest ++ more) = ⟨kind, text, more⟩ ↔
          ∀ next ∈ more.head?, kind.takes next = false) := by
  cases h with
  | name hne hletters hother =>
      obtain ⟨first, rest, rfl⟩ := List.exists_cons_of_ne_nil hne
      have hkind : Kind.ofWord (String.ofList (first :: rest)) = .ident := by
        rcases Kind.word?_ofWord (String.ofList (first :: rest)) with hword | ⟨hkind, -⟩
        · exact absurd hword (hother _)
        · exact hkind
      refine ⟨first, rest, rfl, isBlank_eq_false (.inl (hletters first List.mem_cons_self)), ?_⟩
      intro more _
      rw [← hkind]
      exact scan_word_iff hletters
  | number hne hdigits =>
      obtain ⟨first, rest, rfl⟩ := List.exists_cons_of_ne_nil hne
      refine ⟨first, rest, rfl, isBlank_eq_false (.inr (hdigits first List.mem_cons_self)), ?_⟩
      exact fun more _ => scan_number_iff hdigits
  | quoted htext =>
      -- The closing quote ends the string, whatever stands behind it.
      refine ⟨'"', _, rfl, by decide, fun more _ => iff_of_true ?_ fun next _ => rfl⟩
      rw [scan, if_pos rfl, scanString, List.append_assoc, List.dropWhile_append_of_pos htext,
        List.takeWhile_append_of_pos htext]
      simp [isQuotable]
  | unterminated htext =>
      refine ⟨'"', _, rfl, by decide, fun more hmore => iff_of_true ?_ fun next _ => rfl⟩
      rw [hmore ⟨rfl, rfl⟩, List.append_nil, scan, if_pos rfl, scanString, (run_whole htext).2]
  | unknown hblank hletter hdigit hquote hother =>
      refine ⟨_, [], rfl, hblank, fun more _ => ?_⟩
      rw [scan, if_neg hquote, if_neg (by simp [hletter]), if_neg (by simp [hdigit]),
        ← Kind.ofChar_eq_illegal hother]
      exact scanSymbol_iff
  | word hword =>
      have htext := map_toList hword
      clear hword
      cases kind <;> cases htext <;>
        exact ⟨_, _, rfl, by decide, fun more _ => scan_word_iff (List.all_eq_true.1 rfl)⟩
  | symbol hsymbol =>
      have htext := map_toList hsymbol
      clear hsymbol
      cases kind <;> cases htext <;>
        refine ⟨_, _, rfl, by decide, fun more _ => ?_⟩ <;> first
        | exact scanSymbol_iff
        | exact iff_of_true rfl fun next _ => rfl

/-- What a token is written with is lexed as the token. -/
theorem lex_spelled {kind : Kind} {text : List Char} (h : Spelled kind text)
    (position : Position) :
    lex position (spell kind text) = [⟨kind, String.ofList text, position⟩] := by
  obtain ⟨first, rest, hspell, hblank, hscan⟩ := scan_spelled h
  have hlexeme := (hscan [] fun _ => rfl).2 nofun
  rw [List.append_nil] at hlexeme
  have hcut : (first :: rest).dropWhile isBlank = first :: rest := by simp [hblank]
  rw [hspell, lex_of_scan position hcut, hlexeme, lex_of_blank _ rfl,
    List.takeWhile_cons_of_neg (by simp [hblank])]
  rfl

/-- What begins with the character of an assignment is one or an equality. -/
theorem kind_scan_equals (chars : List Char) :
    (scan '=' chars).kind = .assign ∨ (scan '=' chars).kind = .equal := by
  rw [show scan '=' chars = scanSymbol '=' chars from rfl]
  unfold scanSymbol
  split
  · exact .inl rfl
  · split
    · next hpair =>
        unfold Kind.ofPair? at hpair
        split at hpair <;> cases hpair <;>
          first | exact .inr rfl | exact absurd ‹ '=' = _› (by decide)
    · exact .inl rfl

/-- The kinds of the tokens of a text do not depend on where it stands. -/
theorem map_kind_lex (position other : Position) (chars : List Char) :
    (lex position chars).map Token.kind = (lex other chars).map Token.kind := by
  induction position, chars using lex.induct generalizing other with
  | case1 position chars hcut => rw [lex_of_blank _ hcut, lex_of_blank _ hcut]
  | case2 position chars place first rest hcut lexeme ih =>
      rw [lex_of_scan _ hcut, lex_of_scan _ hcut, List.map_cons, List.map_cons]
      exact congrArg _ (ih _)

/-- The character joins no other one. -/
def isBorder (char : Char) : Bool :=
  !isLetter char && !isDigit char && char ∉ ['=', '!', '<', '>']

/-- A border is no part of a symbol of two characters. -/
theorem ofPair?_eq_none {first second : Char} (h : isBorder first = true ∨ isBorder second = true) :
    Kind.ofPair? first second = none := by
  unfold Kind.ofPair?
  split <;> first | rfl | exact absurd h (by decide)

/-- Nothing joins across a border. -/
theorem joins_eq_false {last next : Char} (h : isBorder last = true ∨ isBorder next = true) :
    joins last next = false := by
  rw [joins, ofPair?_eq_none h]
  simp only [isBorder, Bool.and_eq_true, Bool.not_eq_true', decide_eq_true_eq] at h
  rcases h with ⟨⟨hletter, hdigit⟩, -⟩ | ⟨⟨hletter, hdigit⟩, -⟩ <;> simp [hletter, hdigit]

/-- An exclamation mark joins with an equals sign only. -/
theorem joins_bang {next : Char} (h : next ≠ '=') : joins '!' next = false := by
  have hpair : Kind.ofPair? '!' next = none := by
    unfold Kind.ofPair?
    split <;> first | rfl | exact absurd rfl h
  have hletter : isLetter '!' = false := by decide
  have hdigit : isDigit '!' = false := by decide
  simp [joins, hpair, hletter, hdigit]

/-- The first character of the text joins none before it. -/
def beginsApart (text : String) : Bool :=
  text.toList.head?.any isBorder

/-- The last character of the text joins none behind it. -/
def endsApart (text : String) : Bool :=
  text.toList.getLast?.any isBorder

/-- A text that begins apart does so whatever follows. -/
theorem beginsApart_append {text : String} (h : beginsApart text = true) (more : String) :
    beginsApart (text ++ more) = true := by
  obtain ⟨first, hfirst, hborder⟩ := (Option.any_eq_true _ _).1 h
  rw [beginsApart, String.toList_append, List.head?_append, hfirst]
  exact hborder

theorem endsApart_append {more : String} (text : String) (h : endsApart more = true) :
    endsApart (text ++ more) = true := by
  obtain ⟨last, hlast, hborder⟩ := (Option.any_eq_true _ _).1 h
  rw [endsApart, String.toList_append, List.getLast?_append, hlast]
  exact hborder

/-- The tokens of the text are legal and have the property, wherever the text stands. -/
structure Written (text : String) (property : List Token → Prop) : Prop where
  holds : ∀ position, property (lex position text.toList)
  legal : ∀ position, ∀ token ∈ lex position text.toList, token.kind ≠ .illegal

namespace Written

variable {text more : String} {property other : List Token → Prop}

/-- What is written with a property is written with a weaker one. -/
theorem mono (h : Written text property) (himp : ∀ tokens, property tokens → other tokens) :
    Written text other :=
  ⟨fun position => himp _ (h.holds position), h.legal⟩

/-- Texts that are kept apart are written one behind the other. -/
theorem append (h : Written text property) (hmore : Written more other)
    (hapart : Apart text.toList more.toList) :
    Written (text ++ more) fun tokens =>
      ∃ first second, tokens = first ++ second ∧ property first ∧ other second := by
  have hlex : ∀ position, lex position (text ++ more).toList =
      lex position text.toList ++ lex (position.after text.toList) more.toList := by
    intro position
    rw [String.toList_append]
    exact lex_append (fun token htoken hopen => h.legal position token htoken hopen.1) hapart
  refine ⟨fun position => ⟨_, _, hlex position, h.holds position, hmore.holds _⟩, ?_⟩
  intro position token htoken
  rw [hlex position] at htoken
  rcases List.mem_append.1 htoken with hmem | hmem
  · exact h.legal position token hmem
  · exact hmore.legal _ token hmem

/-- A text before one that begins with a border. -/
theorem before (h : Written text property) (hmore : Written more other)
    (hbegins : beginsApart more = true) :
    Written (text ++ more) fun tokens =>
      ∃ first second, tokens = first ++ second ∧ property first ∧ other second := by
  refine h.append hmore fun last _ next hnext => joins_eq_false (.inr ?_)
  obtain ⟨first, hfirst, hborder⟩ := (Option.any_eq_true _ _).1 hbegins
  cases hfirst.symm.trans hnext
  exact hborder

/-- A text behind one that ends with a border. -/
theorem behind (h : Written text property) (hmore : Written more other)
    (hends : endsApart text = true) :
    Written (text ++ more) fun tokens =>
      ∃ first second, tokens = first ++ second ∧ property first ∧ other second := by
  refine h.append hmore fun last hlast next _ => joins_eq_false (.inl ?_)
  obtain ⟨final, hfinal, hborder⟩ := (Option.any_eq_true _ _).1 hends
  cases hfinal.symm.trans hlast
  exact hborder

end Written

/-- The tokens have the kinds, in order. -/
def OfKinds : List Kind → List Token → Prop
  | [], tokens => tokens = []
  | kind :: kinds, tokens =>
      ∃ token rest, tokens = token :: rest ∧ token.kind = kind ∧ OfKinds kinds rest

/-- Tokens have their own kinds. -/
theorem ofKinds_map_kind : ∀ tokens : List Token, OfKinds (tokens.map Token.kind) tokens
  | [] => rfl
  | token :: tokens => ⟨token, tokens, rfl, rfl, ofKinds_map_kind tokens⟩

/-- A fixed text has tokens of fixed kinds. -/
theorem written_kinds {text : String} {kinds : List Kind}
    (h : (ofText text).map Token.kind = kinds) (hlegal : .illegal ∉ kinds) :
    Written text (OfKinds kinds) := by
  have hkinds : ∀ position, (lex position text.toList).map Token.kind = kinds :=
    fun position => (map_kind_lex position .start text.toList).trans h
  refine ⟨fun position => ?_, fun position token htoken hkind => hlegal ?_⟩
  · rw [← hkinds position]
    exact ofKinds_map_kind _
  · rw [← hkinds position, ← hkind]
    exact List.mem_map_of_mem htoken

/-- A spelled text is one token. -/
theorem written_spelled {kind : Kind} {text : String} (h : Spelled kind text.toList)
    (hlegal : kind ≠ .illegal) (hplain : kind ≠ .string) :
    Written text fun tokens =>
      ∃ token, tokens = [token] ∧ token.kind = kind ∧ token.text = text := by
  have hlex : ∀ position, lex position text.toList = [⟨kind, text, position⟩] := by
    intro position
    have hspell := lex_spelled h position
    rwa [spell, if_neg hplain, String.ofList_toList] at hspell
  refine ⟨fun position => ⟨_, hlex position, rfl, rfl⟩, ?_⟩
  intro position token htoken
  rw [hlex position, List.mem_singleton] at htoken
  rw [htoken]
  exact hlegal

end Token

end Scriptlet
