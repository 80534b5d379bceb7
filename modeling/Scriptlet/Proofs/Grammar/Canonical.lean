import Mathlib.Data.List.Forall2
import Scriptlet.Node.Render
import Scriptlet.Proofs.Parser.Soundness
import Scriptlet.Proofs.Token.Spelling

/-!
# Canonical texts are phrases

`Rereads` says that a text is a phrase of the grammar, whatever follows it, and that the value of
the phrase agrees with a given one. The canonical text of a node is put together from the texts of
its children, and here is one lemma a form: if the children reread, the node does. Parentheses make
every application of an operator a primary expression again; only a call stands as it is, behind a
callee that is a `Term`.
-/

namespace Scriptlet

namespace Node

/-- The nodes are the same up to their origins. -/
abbrev Same (node other : Node) : Prop :=
  node.same other = true

/-- The keys are the same and the values are. -/
def SamePair (pair other : Node × Node) : Prop :=
  pair.1.Same other.1 ∧ pair.2.Same other.2

/-- The canonical text of a pair of a map. -/
def renderPair (pair : Node × Node) : String :=
  pair.1.renderWith "\n" ++ ":" ++ pair.2.renderWith "\n"

/-- Lists of nodes are the same if their elements are, one by one. -/
theorem sameList_of_forall₂ : ∀ {nodes others : List Node}, List.Forall₂ Same nodes others →
    sameList nodes others = true
  | _, _, .nil => rfl
  | _, _, .cons hnode hnodes =>
      Bool.and_eq_true_iff.2 ⟨hnode, sameList_of_forall₂ hnodes⟩

theorem samePairs_of_forall₂ : ∀ {pairs others : List (Node × Node)},
    List.Forall₂ SamePair pairs others → samePairs pairs others = true
  | _, _, .nil => rfl
  | (_, _) :: _, (_, _) :: _, .cons hpair hpairs =>
      Bool.and_eq_true_iff.2 ⟨Bool.and_eq_true_iff.2 hpair, samePairs_of_forall₂ hpairs⟩

/-- A list of nodes is rendered element by element. -/
theorem renderList_eq_map (nodes : List Node) :
    renderList nodes = nodes.map (renderWith "\n") := by
  induction nodes with
  | nil => rfl
  | cons node nodes ih => rw [renderList, ih, List.map_cons]

theorem renderPairs_eq_map (pairs : List (Node × Node)) :
    renderPairs pairs = pairs.map renderPair := by
  induction pairs with
  | nil => rfl
  | cons pair pairs ih => exact congrArg _ ih

/-- A terminated statement is a clause of a loop header without its terminator. -/
theorem withoutTerminator_append (text : String) : withoutTerminator (text ++ ";") = text := by
  have hchars : (text ++ ";").toList = text.toList ++ [';'] := String.toList_append
  rw [withoutTerminator, hchars, List.getLast?_concat, if_pos rfl, List.dropLast_concat,
    String.ofList_toList]

end Node

namespace Grammar

open Scriptlet.Parser Scriptlet.Token

variable {α : Type} {phrase : List Token → List Token → α → Prop} {agrees : α → Prop}
  {kind : Kind} {text : String}

/-- The tokens are a phrase for the value, whatever follows them. -/
def Whole (phrase : List Token → List Token → α → Prop) (tokens : List Token) (value : α) : Prop :=
  ∀ rest, phrase (tokens ++ rest) rest value

/-- The text is a phrase for a value of the wanted sort. -/
def Rereads (phrase : List Token → List Token → α → Prop) (text : String) (agrees : α → Prop) :
    Prop :=
  Written text fun tokens => ∃ value, agrees value ∧ Whole phrase tokens value

/-- The text of the node is a phrase for the same node. -/
abbrev RereadsAs (phrase : List Token → List Token → Node → Prop) (node : Node) : Prop :=
  Rereads phrase (node.renderWith "\n") node.Same

/-- What becomes a phrase by a token of the kind behind it. -/
def Closing (kind : Kind) (phrase : List Token → List Token → α → Prop) (tokens rest : List Token)
    (value : α) : Prop :=
  ∀ mark more, mark.kind = kind → rest = mark :: more → phrase tokens more value

/-- A phrase that is closed by a mark is reread when the mark is written behind it. -/
theorem Rereads.close {mark : String} (h : Rereads (Closing kind phrase) text agrees)
    (hmark : Written mark (OfKinds [kind])) (hbegins : beginsApart mark = true) :
    Rereads phrase (text ++ mark) agrees := by
  refine (h.before hmark hbegins).mono ?_
  rintro _ ⟨tokens, _, rfl, ⟨value, hvalue, hwhole⟩, token, _, rfl, hkind, rfl⟩
  refine ⟨value, hvalue, fun rest => ?_⟩
  rw [List.append_assoc]
  exact hwhole _ token rest hkind rfl

section Marks

/-- The fixed texts that stand between the parts of a node, and the kinds of their tokens. -/
def marks : List (String × List Kind) :=
  [("", []), (" ", []), ("\n", []), ("\n\t", []), ("(", [.openParen]), (")", [.closeParen]),
    ("[", [.openBracket]), ("]", [.closeBracket]), ("\x7b", [.openBrace]), ("\x7d", [.closeBrace]),
    (", ", [.comma]), (":", [.colon]), (".", [.dot]), (";", [.semicolon]), ("; ", [.semicolon]),
    (" = ", [.assign]), ("true", [.wordTrue]), ("false", [.wordFalse]), ("let ", [.wordLet]),
    ("return", [.wordReturn]), ("fn (", [.wordFn, .openParen]), ("for (", [.wordFor, .openParen]),
    (") \x7b\n\t", [.closeParen, .openBrace]), ("\n\x7d", [.closeBrace])]

/-- The marks are lexed as what they stand for, by evaluation. -/
theorem map_kind_marks : ∀ mark ∈ marks,
    (ofText mark.1).map Token.kind = mark.2 ∧ .illegal ∉ mark.2 := by
  decide +kernel

/-- Each of the marks is written by its text. -/
theorem written_mark {kinds : List Kind} (h : (text, kinds) ∈ marks) :
    Written text (OfKinds kinds) :=
  written_kinds (map_kind_marks _ h).1 (map_kind_marks _ h).2

theorem written_openParen : Written "(" (OfKinds [.openParen]) :=
  written_mark (by decide)

theorem written_closeParen : Written ")" (OfKinds [.closeParen]) :=
  written_mark (by decide)

theorem written_openBracket : Written "[" (OfKinds [.openBracket]) :=
  written_mark (by decide)

theorem written_closeBracket : Written "]" (OfKinds [.closeBracket]) :=
  written_mark (by decide)

theorem written_semicolon : Written ";" (OfKinds [.semicolon]) :=
  written_mark (by decide)

theorem written_empty : Written "" (OfKinds []) :=
  written_mark (by decide)

end Marks

section Terms

/-- An operand without a sign: a primary expression and what is applied to it. -/
def Term (tokens rest : List Token) (node : Node) : Prop :=
  ∃ middle target, Primary Readable tokens middle target ∧
    Postfixes Readable target middle rest node

variable {tokens middle rest : List Token} {target node other : Node}

/-- What is no operator is a term. -/
theorem Term.of_primary (h : Primary Readable tokens rest node) : Term tokens rest node :=
  ⟨rest, node, h, .nil⟩

/-- Accesses and calls behind others go on from them. -/
theorem Postfixes.trans : ∀ {target tokens middle node other},
    Postfixes Readable target tokens middle node → Postfixes Readable node middle rest other →
    Postfixes Readable target tokens rest other
  | _, _, _, _, _, .nil, hmore => hmore
  | _, _, _, _, _, .call hparen harguments hclose h, hmore =>
      .call hparen harguments hclose (h.trans hmore)
  | _, _, _, _, _, .index hbracket hposition hclose h, hmore =>
      .index hbracket hposition hclose (h.trans hmore)
  | _, _, _, _, _, .member hdot hname h, hmore => .member hdot hname (h.trans hmore)

/-- A term with a call or an access behind it is a term. -/
theorem Term.apply (h : Term tokens middle node)
    (hmore : Postfixes Readable node middle rest other) : Term tokens rest other := by
  obtain ⟨behind, target, hprimary, hpostfixes⟩ := h
  exact ⟨behind, target, hprimary, hpostfixes.trans hmore⟩

theorem Term.operand (h : Term tokens rest node) : Operand Readable tokens rest node := by
  obtain ⟨middle, target, hprimary, hpostfixes⟩ := h
  exact .primary hprimary hpostfixes

theorem Operand.expression (h : Operand Readable tokens rest node) :
    Expression Readable tokens rest node := by
  have hgrouped : Expression Readable tokens rest (grouped node []) := .links h .nil
  rwa [grouped] at hgrouped

theorem Term.expression (h : Term tokens rest node) : Expression Readable tokens rest node :=
  h.operand.expression

/-- An operator between two operands. -/
theorem Operand.applied {operator : Token} {left right : Node}
    (hleft : Operand Readable tokens (operator :: middle) left)
    (hoperator : operator.kind.isBinary = true) (hright : Operand Readable middle rest right) :
    Expression Readable tokens rest (applied operator left right) := by
  have hgrouped : Expression Readable tokens rest (grouped left [(operator, right)]) :=
    .links hleft (.cons hoperator hright .nil)
  simpa [grouped] using hgrouped

/-- A term begins with a token that can begin an expression. -/
theorem Whole.initial (h : Whole Term tokens node) :
    ∃ first more, tokens = first :: more ∧ first.kind.isInitial = true := by
  obtain ⟨middle, target, hprimary, -⟩ := h []
  rw [List.append_nil] at hprimary
  exact hprimary.initial

end Terms

section Expressions

variable {origin : Origin} {left right target position operand callee : Node}

/-- A text in parentheses is a term if it is an expression. -/
theorem Rereads.group {agrees : Node → Prop} (h : Rereads (Expression Readable) text agrees) :
    Rereads Term ("(" ++ (text ++ ")")) agrees := by
  refine (written_openParen.behind (h.before written_closeParen rfl) rfl).mono ?_
  rintro _ ⟨_, _, rfl, ⟨paren, _, rfl, hparen, rfl⟩, tokens, _, rfl, ⟨node, hnode, hwhole⟩,
    close, _, rfl, hclose, rfl⟩
  refine ⟨node, hnode, fun rest => ?_⟩
  simp only [List.cons_append, List.nil_append, List.append_assoc]
  exact .of_primary (.group hparen (hwhole (close :: rest)) hclose)

/-- An identifier is reread by its name. -/
theorem rereads_name (h : Spelled .ident text.toList) :
    Rereads Term text (Node.Same (.identifier origin text)) := by
  refine (written_spelled h (by decide) (by decide)).mono ?_
  rintro _ ⟨token, rfl, hkind, rfl⟩
  exact ⟨.identifier (some token) token.text, beq_self_eq_true token.text,
    fun rest => .of_primary (.identifier hkind)⟩

/-- The numeral of an integer that is not negative is its digits. -/
theorem toString_natCast (value : Nat) :
    toString (value : Int) = String.ofList (Nat.toDigits 10 value) := by
  rw [Int.toString_eq_repr, Int.repr_eq_if, if_pos (Int.natCast_nonneg value), Int.toNat_natCast,
    Nat.repr_eq_ofList_toDigits]

/-- Digits spell an integer token. -/
theorem spelled_toDigits (value : Nat) : Spelled .int (Nat.toDigits 10 value) :=
  .number Nat.toDigits_ne_nil fun _ hchar =>
    Nat.isDigit_of_mem_toDigits (by decide) (by decide) hchar

/-- The shortest digits of a literal are few enough, and stand for it. -/
theorem readable_of_toDigits {token : Token} {value : Nat}
    (htext : token.text.toList = Nat.toDigits 10 value) (h : value ≤ maxLiteral) :
    Readable token ∧ decimal token.text.toList = value := by
  have hdecimal : decimal token.text.toList = value := by
    rw [htext]
    exact Nat.ofDigitChars_ten_toDigits
  have hshort : (Nat.toDigits 10 value).length ≤ 19 := by
    rw [Nat.length_toDigits_le_iff (by decide) (by decide)]
    exact Nat.lt_of_le_of_lt h (by decide)
  have hlength : token.text.toList.length ≤ maxDigits := by
    rw [htext]
    exact Nat.le_trans hshort (by decide)
  exact ⟨⟨hlength, by rw [hdecimal]; exact h⟩, hdecimal⟩

/-- An integer that a literal can have is reread by its digits. -/
theorem rereads_integer {value : Nat} (h : value ≤ maxLiteral) :
    RereadsAs Term (.integer origin value) := by
  have hspelled : Spelled .int (toString (value : Int)).toList := by
    rw [toString_natCast, String.toList_ofList]
    exact spelled_toDigits value
  rw [RereadsAs, Node.renderWith]
  refine (written_spelled hspelled (by decide) (by decide)).mono ?_
  rintro _ ⟨token, rfl, hkind, htext⟩
  have hdigits : token.text.toList = Nat.toDigits 10 value := by
    rw [htext, toString_natCast, String.toList_ofList]
  obtain ⟨hreadable, hdecimal⟩ := readable_of_toDigits hdigits h
  refine ⟨.integer (some token) (decimal token.text.toList), ?_, fun rest => ?_⟩
  · rw [hdecimal]
    exact beq_self_eq_true (value : Int)
  · exact .of_primary (.integer hkind hreadable)

theorem rereads_yes : Rereads Term "true" (Node.Same (.boolean origin true)) := by
  have htext : Written "true" (OfKinds [.wordTrue]) := written_mark (by decide)
  refine htext.mono ?_
  rintro _ ⟨token, _, rfl, hkind, rfl⟩
  exact ⟨.boolean (some token) true, rfl, fun rest => .of_primary (.yes hkind)⟩

theorem rereads_no : Rereads Term "false" (Node.Same (.boolean origin false)) := by
  have htext : Written "false" (OfKinds [.wordFalse]) := written_mark (by decide)
  refine htext.mono ?_
  rintro _ ⟨token, _, rfl, hkind, rfl⟩
  exact ⟨.boolean (some token) false, rfl, fun rest => .of_primary (.no hkind)⟩

/-- No term begins with the character that would make an inequality of a negation. -/
theorem Rereads.head_ne {agrees : Node → Prop} (h : Rereads Term text agrees) :
    text.toList.head? ≠ some '=' := by
  intro hhead
  obtain ⟨node, -, hwhole⟩ := h.holds .start
  obtain ⟨first, more, hlex, hinitial⟩ := hwhole.initial
  obtain ⟨rest, hchars⟩ := List.head?_eq_some_iff.1 hhead
  have hcut : text.toList.dropWhile isBlank = '=' :: rest := by
    rw [hchars]
    rfl
  rw [lex_of_scan _ hcut] at hlex
  obtain ⟨rfl, -⟩ := List.cons.inj hlex
  rcases kind_scan_equals rest with hkind | hkind <;> rw [hkind] at hinitial <;> cases hinitial

/-- A sign does not join the term behind it. -/
theorem Rereads.apart_sign {agrees : Node → Prop} {sign : Token}
    (hspelled : Spelled sign.kind sign.text.toList)
    (hsign : sign.kind = .bang ∨ sign.kind = .minus) (h : Rereads Term text agrees) :
    Apart sign.text.toList text.toList := by
  intro last hlast next hnext
  rcases hsign with hkind | hkind
  · have hbang : sign.text = "!" := hspelled.symbol?_eq (by rw [hkind]; rfl)
    rw [hbang] at hlast
    obtain rfl : '!' = last := Option.some.inj hlast
    exact joins_bang fun heq => h.head_ne (heq ▸ hnext)
  · have hminus : sign.text = "-" := hspelled.symbol?_eq (by rw [hkind]; rfl)
    rw [hminus] at hlast
    obtain rfl : '-' = last := Option.some.inj hlast
    exact joins_eq_false (.inl rfl)

/-- An operator and its operand, in parentheses. -/
theorem rereads_unary {sign : Token} (hspelled : Spelled sign.kind sign.text.toList)
    (hsign : sign.kind = .bang ∨ sign.kind = .minus)
    (h : RereadsAs Term operand) : RereadsAs Term (.unary origin sign.text operand) := by
  have hlegal : sign.kind ≠ .illegal ∧ sign.kind ≠ .string := by
    rcases hsign with hkind | hkind <;> rw [hkind] <;> decide
  have hrender : (Node.unary origin sign.text operand).renderWith "\n" =
      "(" ++ (sign.text ++ operand.renderWith "\n" ++ ")") := by
    simp only [Node.renderWith, String.append_assoc]
  rw [RereadsAs, hrender]
  -- The sign and the operand are an expression, and the parentheses make a term of it.
  have hword := written_spelled hspelled hlegal.1 hlegal.2
  refine Rereads.group ((hword.append h (h.apart_sign hspelled hsign)).mono ?_)
  rintro _ ⟨_, tokens, rfl, ⟨token, rfl, hkind, htext⟩, other, hother, hwhole⟩
  refine ⟨.unary (some token) token.text other, ?_, fun rest => Operand.expression ?_⟩
  · rw [htext]
    exact Bool.and_eq_true_iff.2 ⟨beq_self_eq_true sign.text, hother⟩
  · rw [← hkind] at hsign
    exact .unary hsign (hwhole rest).operand

/-- Two terms with an operator between them, set apart from both. -/
theorem rereads_applied {between : String} {agrees : Token → Prop}
    (hleft : RereadsAs Term left)
    (hbetween : Written between fun tokens =>
      ∃ token, tokens = [token] ∧ token.kind.isBinary = true ∧ agrees token)
    (hright : RereadsAs Term right)
    (hbegins : beginsApart between = true) (hends : endsApart between = true) :
    Rereads Term
      ("(" ++ (left.renderWith "\n" ++ (between ++ right.renderWith "\n") ++ ")"))
      fun node => ∃ operator first second, node = applied operator first second ∧ agrees operator ∧
        left.Same first ∧ right.Same second := by
  have htext := hleft.before (hbetween.behind hright hends) (beginsApart_append hbegins _)
  refine Rereads.group (htext.mono ?_)
  rintro _ ⟨before, _, rfl, ⟨first, hfirst, hbefore⟩, _, behind, rfl,
    ⟨operator, rfl, hbinary, hagrees⟩, second, hsecond, hbehind⟩
  refine ⟨_, ⟨operator, first, second, rfl, hagrees, hfirst, hsecond⟩, fun rest => ?_⟩
  simp only [List.cons_append, List.nil_append, List.append_assoc]
  exact (hbefore _).operand.applied hbinary (hbehind rest).operand

/-- Two operands and the operator between them, in parentheses. -/
theorem rereads_binary {operator : Token} (hspelled : Spelled operator.kind operator.text.toList)
    (hbinary : operator.kind.isBinary = true) (hassign : operator.kind ≠ .assign)
    (hleft : RereadsAs Term left) (hright : RereadsAs Term right) :
    RereadsAs Term (.binary origin left operator.text right) := by
  have hplain : operator.kind ≠ .string := by
    intro hkind
    rw [hkind] at hbinary
    cases hbinary
  have hword := written_spelled hspelled (Kind.ne_illegal_of_isBinary hbinary) hplain
  have hspace : Written " " (OfKinds []) := written_mark (by decide)
  have hspaced := hspace.behind (hword.before hspace rfl) rfl
  have hends : endsApart (" " ++ (operator.text ++ " ")) = true :=
    endsApart_append _ (endsApart_append _ rfl)
  have hrender : (Node.binary origin left operator.text right).renderWith "\n" =
      "(" ++ (left.renderWith "\n" ++ ((" " ++ (operator.text ++ " ")) ++ right.renderWith "\n") ++
        ")") := by
    simp only [Node.renderWith, String.append_assoc]
  rw [RereadsAs, hrender]
  have hbetween : Written (" " ++ (operator.text ++ " ")) fun tokens =>
      ∃ token, tokens = [token] ∧ token.kind.isBinary = true ∧
        (token.kind = operator.kind ∧ token.text = operator.text) := by
    refine hspaced.mono ?_
    rintro _ ⟨_, _, rfl, rfl, _, _, rfl, ⟨token, rfl, hkind, htext⟩, rfl⟩
    exact ⟨token, rfl, by rw [hkind, hbinary], hkind, htext⟩
  refine (rereads_applied hleft hbetween hright (beginsApart_append rfl _) hends).mono ?_
  rintro _ ⟨_, ⟨token, first, second, rfl, ⟨hkind, htext⟩, hfirst, hsecond⟩, hwhole⟩
  rw [applied, if_neg (by rw [hkind]; exact hassign)] at hwhole
  refine ⟨_, ?_, hwhole⟩
  rw [htext]
  exact Bool.and_eq_true_iff.2
    ⟨Bool.and_eq_true_iff.2 ⟨hfirst, beq_self_eq_true operator.text⟩, hsecond⟩

/-- A target and its value, in parentheses. -/
theorem rereads_assign (htarget : RereadsAs Term target) (hvalue : RereadsAs Term right) :
    RereadsAs Term (.assign origin target right) := by
  have hbetween : Written " = " fun tokens =>
      ∃ token, tokens = [token] ∧ token.kind.isBinary = true ∧ token.kind = .assign := by
    have hequals : Written " = " (OfKinds [.assign]) := written_mark (by decide)
    refine hequals.mono ?_
    rintro _ ⟨token, _, rfl, hkind, rfl⟩
    exact ⟨token, rfl, by rw [hkind]; rfl, hkind⟩
  have hrender : (Node.assign origin target right).renderWith "\n" =
      "(" ++ (target.renderWith "\n" ++ (" = " ++ right.renderWith "\n") ++ ")") := by
    simp only [Node.renderWith, String.append_assoc]
  rw [RereadsAs, hrender]
  refine (rereads_applied htarget hbetween hvalue rfl rfl).mono ?_
  rintro _ ⟨_, ⟨token, first, second, rfl, hkind, hfirst, hsecond⟩, hwhole⟩
  rw [applied, if_pos hkind] at hwhole
  refine ⟨_, ?_, hwhole⟩
  exact Bool.and_eq_true_iff.2 ⟨hfirst, hsecond⟩

theorem rereads_index (htarget : RereadsAs Term target) (hposition : RereadsAs Term position) :
    RereadsAs Term (.index origin target position) := by
  have hrender : (Node.index origin target position).renderWith "\n" =
      "(" ++ (target.renderWith "\n" ++ ("[" ++ (position.renderWith "\n" ++ "]")) ++ ")") := by
    have hmark : "])" = "]" ++ ")" := rfl
    simp only [Node.renderWith, String.append_assoc, hmark]
  rw [RereadsAs, hrender]
  refine Rereads.group (((htarget.before
    (written_openBracket.behind (hposition.before written_closeBracket rfl) rfl)
    (beginsApart_append rfl _))).mono ?_)
  rintro _ ⟨before, _, rfl, ⟨first, hfirst, hbefore⟩, _, _, rfl, ⟨bracket, _, rfl, hbracket, rfl⟩,
    inside, _, rfl, ⟨second, hsecond, hinside⟩, close, _, rfl, hkind, rfl⟩
  refine ⟨.index (some bracket) first second, ?_, fun rest => ?_⟩
  · exact Bool.and_eq_true_iff.2 ⟨hfirst, hsecond⟩
  · simp only [List.cons_append, List.nil_append, List.append_assoc]
    exact ((hbefore _).apply (.index hbracket (hinside _).expression hkind .nil)).expression

/-- An owner and the name of the member, in parentheses. -/
theorem rereads_member {inner : Origin} (htarget : RereadsAs Term target)
    (hname : Spelled .ident text.toList) :
    RereadsAs Term (.member origin target (.identifier inner text)) := by
  have hdot : Written "." (OfKinds [.dot]) := written_mark (by decide)
  have hrender : (Node.member origin target (.identifier inner text)).renderWith "\n" =
      "(" ++ (target.renderWith "\n" ++ ("." ++ text) ++ ")") := by
    simp only [Node.renderWith, String.append_assoc, Node.renderName]
  rw [RereadsAs, hrender]
  have hmember := hdot.behind (written_spelled hname (by decide) (by decide)) rfl
  refine Rereads.group ((htarget.before hmember (beginsApart_append rfl _)).mono ?_)
  rintro _ ⟨before, _, rfl, ⟨first, hfirst, hbefore⟩, _, _, rfl, ⟨dot, _, rfl, hkind, rfl⟩,
    name, rfl, hident, rfl⟩
  refine ⟨.member (some dot) first (.identifier (some name) name.text), ?_, fun rest => ?_⟩
  · exact Bool.and_eq_true_iff.2 ⟨hfirst, beq_self_eq_true name.text⟩
  · simp only [List.cons_append, List.nil_append, List.append_assoc]
    exact ((hbefore _).apply (.member hkind hident .nil)).expression

end Expressions

section Lists

/-- Items with commas between them reread, if each of them does. -/
theorem rereads_items {item : List Token → List Token → α → Prop} {agrees : α → α → Prop}
    {render : α → String} : ∀ {values : List α},
    (∀ value ∈ values, Rereads item (render value) (agrees value)) →
    Rereads (Items item) (", ".intercalate (values.map render)) (List.Forall₂ agrees values)
  | [], _ => by
      rw [List.map_nil, String.intercalate_nil]
      refine written_empty.mono ?_
      rintro _ rfl
      exact ⟨[], .nil, fun rest => .nil⟩
  | [value], h => by
      rw [List.map_singleton, String.intercalate_singleton]
      refine (h value List.mem_cons_self).mono ?_
      rintro tokens ⟨other, hother, hwhole⟩
      exact ⟨[other], .cons hother .nil, fun rest => .single (hwhole rest)⟩
  | value :: next :: values, h => by
      obtain ⟨hvalue, hvalues⟩ := List.forall_mem_cons.1 h
      rw [List.map_cons, List.map_cons, String.intercalate_cons_cons, String.append_assoc]
      have hcomma : Written ", " (OfKinds [.comma]) := written_mark (by decide)
      refine (hvalue.before (hcomma.behind (rereads_items hvalues) rfl)
        (beginsApart_append rfl _)).mono ?_
      rintro _ ⟨before, _, rfl, ⟨other, hother, hbefore⟩, _, behind, rfl,
        ⟨comma, _, rfl, hcomma, rfl⟩, others, hothers, hbehind⟩
      refine ⟨other :: others, .cons hother hothers, fun rest => ?_⟩
      simp only [List.cons_append, List.nil_append, List.append_assoc]
      -- The comma has an item behind it, as the grammar asks, since there are more values.
      cases hothers with
      | cons _ _ => exact .comma (hbefore _) hcomma (hbehind rest)

/-- Statements one behind the other reread, if each of them does. -/
theorem rereads_statements {separator : String} (hblank : Written separator (OfKinds []))
    (hbegins : beginsApart separator = true) (hends : endsApart separator = true) :
    ∀ {nodes : List Node},
      (∀ node ∈ nodes, RereadsAs (Statement Readable) node) →
      Rereads (Statements Readable) (separator.intercalate (nodes.map (Node.renderWith "\n")))
        (List.Forall₂ Node.Same nodes)
  | [], _ => by
      rw [List.map_nil, String.intercalate_nil]
      refine written_empty.mono ?_
      rintro _ rfl
      exact ⟨[], .nil, fun rest => .nil⟩
  | [node], h => by
      rw [List.map_singleton, String.intercalate_singleton]
      refine (h node List.mem_cons_self).mono ?_
      rintro tokens ⟨other, hother, hwhole⟩
      exact ⟨[other], .cons hother .nil, fun rest => .closed (hwhole rest) .nil⟩
  | node :: next :: nodes, h => by
      obtain ⟨hnode, hnodes⟩ := List.forall_mem_cons.1 h
      rw [List.map_cons, List.map_cons, String.intercalate_cons_cons, String.append_assoc]
      refine (hnode.before (hblank.behind (rereads_statements hblank hbegins hends hnodes) hends)
        (beginsApart_append hbegins _)).mono ?_
      rintro _ ⟨before, _, rfl, ⟨other, hother, hbefore⟩, _, behind, rfl, rfl, others, hothers,
        hbehind⟩
      refine ⟨other :: others, .cons hother hothers, fun rest => ?_⟩
      simp only [List.nil_append, List.append_assoc]
      exact .closed (hbefore _) (hbehind rest)

end Lists

section Collections

variable {origin inner : Origin} {callee : Node} {nodes : List Node}

/-- A list of terms is a list of expressions. -/
theorem Items.of_terms : ∀ {tokens rest nodes}, Items Term tokens rest nodes →
    Items (Expression Readable) tokens rest nodes
  | _, _, _, .nil => .nil
  | _, _, _, .single h => .single h.expression
  | _, _, _, .comma h hcomma hmore => .comma h.expression hcomma hmore.of_terms

/-- Texts of terms with commas between them. -/
theorem rereads_terms (h : ∀ node ∈ nodes, RereadsAs Term node) :
    Rereads (Items (Expression Readable)) (", ".intercalate (Node.renderList nodes))
      fun others => Node.sameList nodes others = true := by
  rw [Node.renderList_eq_map]
  refine (rereads_items h).mono ?_
  rintro tokens ⟨others, hothers, hwhole⟩
  exact ⟨others, Node.sameList_of_forall₂ hothers, fun rest => (hwhole rest).of_terms⟩

/-- The elements of an array between brackets. -/
theorem rereads_array (h : ∀ node ∈ nodes, RereadsAs Term node) :
    RereadsAs Term (.array origin nodes) := by
  rw [RereadsAs, Node.renderWith, String.append_assoc]
  refine (written_openBracket.behind
    ((rereads_terms h).before written_closeBracket rfl) rfl).mono ?_
  rintro _ ⟨_, _, rfl, ⟨bracket, _, rfl, hbracket, rfl⟩, tokens, _, rfl, ⟨others, hothers, hwhole⟩,
    close, _, rfl, hkind, rfl⟩
  refine ⟨.array (some bracket) others, hothers, fun rest => ?_⟩
  simp only [List.cons_append, List.nil_append, List.append_assoc]
  exact .of_primary (.array hbracket (hwhole _) hkind)

/-- A callee and its arguments between parentheses. -/
theorem rereads_call (hcallee : RereadsAs Term callee) (h : ∀ node ∈ nodes, RereadsAs Term node) :
    RereadsAs Term (.call origin callee nodes) := by
  simp only [RereadsAs, Node.renderWith, String.append_assoc]
  -- No parentheses stand around a call: the callee is a term, and the arguments go on behind it.
  refine (hcallee.before (written_openParen.behind
    ((rereads_terms h).before written_closeParen rfl) rfl) (beginsApart_append rfl _)).mono ?_
  rintro _ ⟨before, _, rfl, ⟨other, hother, hbefore⟩, _, _, rfl, ⟨paren, _, rfl, hparen, rfl⟩,
    tokens, _, rfl, ⟨others, hothers, hwhole⟩, close, _, rfl, hclose, rfl⟩
  refine ⟨.call (some paren) other others, ?_, fun rest => ?_⟩
  · exact Bool.and_eq_true_iff.2 ⟨hother, hothers⟩
  · simp only [List.cons_append, List.nil_append, List.append_assoc]
    exact (hbefore _).apply (.call hparen (hwhole _) hclose .nil)

/-- A key and its value with a colon between them. -/
theorem rereads_pair {pair : Node × Node} (hkey : RereadsAs Term pair.1)
    (hvalue : RereadsAs Term pair.2) :
    Rereads (Pair Readable) (Node.renderPair pair) (Node.SamePair pair) := by
  have hcolon : Written ":" (OfKinds [.colon]) := written_mark (by decide)
  rw [Node.renderPair, String.append_assoc]
  refine (hkey.before (hcolon.behind hvalue rfl) (beginsApart_append rfl _)).mono ?_
  rintro _ ⟨before, _, rfl, ⟨key, hkey, hbefore⟩, _, behind, rfl, ⟨colon, _, rfl, hkind, rfl⟩,
    value, hvalue, hbehind⟩
  refine ⟨(key, value), ⟨hkey, hvalue⟩, fun rest => ?_⟩
  simp only [List.cons_append, List.nil_append, List.append_assoc]
  exact .colon (hbefore _).expression hkind (hbehind rest).expression

theorem rereads_map {pairs : List (Node × Node)}
    (hkeys : ∀ pair ∈ pairs, RereadsAs Term pair.1)
    (hvalues : ∀ pair ∈ pairs, RereadsAs Term pair.2) : RereadsAs Term (.map origin pairs) := by
  have hopen : Written "\x7b" (OfKinds [.openBrace]) := written_mark (by decide)
  have hclose : Written "\x7d" (OfKinds [.closeBrace]) := written_mark (by decide)
  have hpairs := rereads_items fun pair hpair =>
    rereads_pair (hkeys pair hpair) (hvalues pair hpair)
  rw [RereadsAs, Node.renderWith, String.append_assoc, Node.renderPairs_eq_map]
  refine (hopen.behind (hpairs.before hclose rfl) rfl).mono ?_
  rintro _ ⟨_, _, rfl, ⟨brace, _, rfl, hbrace, rfl⟩, tokens, _, rfl, ⟨others, hothers, hwhole⟩,
    close, _, rfl, hkind, rfl⟩
  refine ⟨.map (some brace) others, Node.samePairs_of_forall₂ hothers, fun rest => ?_⟩
  simp only [List.cons_append, List.nil_append, List.append_assoc]
  exact .of_primary (.map hbrace (hwhole _) hkind)

/-- The statements of a body with the braces around them, the first one behind a parenthesis. -/
theorem rereads_body (origin : Origin)
    (h : ∀ node ∈ nodes, RereadsAs (Statement Readable) node) :
    Written (") \x7b\n\t" ++ ((Node.block origin nodes).renderWith "\n\t" ++ "\n\x7d"))
      fun tokens => ∃ close behind body, tokens = close :: behind ∧ close.kind = .closeParen ∧
        (Node.block origin nodes).Same body ∧ Whole (Block Readable) behind body := by
  have hblank : Written "\n\t" (OfKinds []) := written_mark (by decide)
  have hopen : Written ") \x7b\n\t" (OfKinds [.closeParen, .openBrace]) := written_mark (by decide)
  have hclose : Written "\n\x7d" (OfKinds [.closeBrace]) := written_mark (by decide)
  rw [Node.renderWith, Node.renderList_eq_map]
  refine (hopen.behind ((rereads_statements hblank rfl rfl h).before hclose rfl) rfl).mono ?_
  rintro _ ⟨_, _, rfl, ⟨close, _, rfl, hclose, brace, _, rfl, hbrace, rfl⟩, tokens, _, rfl,
    ⟨others, hothers, hwhole⟩, final, _, rfl, hfinal, rfl⟩
  refine ⟨close, brace :: (tokens ++ [final]), .block (some brace) others, rfl, hclose,
    Node.sameList_of_forall₂ hothers, fun rest => ?_⟩
  simp only [List.cons_append, List.nil_append, List.append_assoc]
  exact .braces hbrace (hwhole _) hfinal

theorem rereads_parameter (h : Spelled .ident text.toList) :
    Rereads Parameter text (Node.Same (.identifier origin text)) := by
  refine (written_spelled h (by decide) (by decide)).mono ?_
  rintro _ ⟨token, rfl, hkind, rfl⟩
  exact ⟨.identifier (some token) token.text, beq_self_eq_true token.text, fun rest => .name hkind⟩

/-- Parameters and the statements of the body. -/
theorem rereads_function {parameters : List Node}
    (hparameters : ∀ node ∈ parameters, RereadsAs Parameter node)
    (hbody : ∀ node ∈ nodes, RereadsAs (Statement Readable) node) :
    RereadsAs Term (.function origin parameters (.block inner nodes)) := by
  have hword : Written "fn (" (OfKinds [.wordFn, .openParen]) := written_mark (by decide)
  have hrender : (Node.function origin parameters (.block inner nodes)).renderWith "\n" =
      "fn (" ++ (", ".intercalate (parameters.map (Node.renderWith "\n")) ++
        (") \x7b\n\t" ++ ((Node.block inner nodes).renderWith "\n\t" ++ "\n\x7d"))) := by
    simp only [Node.renderWith, Node.renderList_eq_map, String.append_assoc]
  rw [RereadsAs, hrender]
  refine (hword.behind ((rereads_items hparameters).before (rereads_body inner hbody)
    (beginsApart_append rfl _)) rfl).mono ?_
  rintro _ ⟨_, _, rfl, ⟨word, _, rfl, hfn, paren, _, rfl, hparen, rfl⟩, names, _, rfl,
    ⟨others, hothers, hnames⟩, close, behind, body, rfl, hclose, hsame, hwhole⟩
  refine ⟨.function (some word) others body, ?_, fun rest => ?_⟩
  · exact Bool.and_eq_true_iff.2 ⟨Node.sameList_of_forall₂ hothers, hsame⟩
  · simp only [List.cons_append, List.nil_append, List.append_assoc]
    exact .of_primary (.function hfn hparen (hnames _) hclose (hwhole rest))

end Collections

section Statements

variable {origin inner : Origin} {body : Node} {value : Option Node}

/-- A term becomes an expression statement by the token that closes it. -/
theorem rereads_expression (origin : Origin) (wrap : Node → α) (h : RereadsAs Term body)
    (hwrap : ∀ {first mark : Token} {tokens more : List Token} {node : Node},
      Expression Readable (first :: tokens) (mark :: more) node → mark.kind = kind →
        phrase (first :: tokens) more (wrap (.expression (some first) node))) :
    Rereads (Closing kind phrase) (body.renderWith "\n") fun value =>
      ∃ node, value = wrap node ∧ Node.Same (.expression origin body) node := by
  refine h.mono ?_
  rintro tokens ⟨node, hnode, hwhole⟩
  obtain ⟨first, behind, rfl, -⟩ := hwhole.initial
  refine ⟨_, ⟨.expression (some first) node, rfl, hnode⟩, ?_⟩
  rintro rest mark more hkind rfl
  exact hwrap (hwhole _).expression hkind

theorem rereads_expressionStatement (h : RereadsAs Term body) :
    RereadsAs (Statement Readable) (.expression origin body) := by
  have hbody : Rereads (Closing .semicolon (Statement Readable)) (body.renderWith "\n") _ :=
    rereads_expression origin id h fun hnode hmark => .expression hnode hmark
  rw [RereadsAs, Node.renderWith]
  refine (hbody.close written_semicolon rfl).mono ?_
  rintro tokens ⟨node, ⟨_, rfl, hnode⟩, hwhole⟩
  exact ⟨node, hnode, hwhole⟩

/-- A declaration without its semicolon. -/
theorem rereads_declaration (hname : Spelled .ident text.toList)
    (hvalue : ∀ node ∈ value, RereadsAs Term node) :
    Rereads (Closing .semicolon (Declaration Readable))
      ("let " ++ (text ++ Node.renderGiven " = " value))
      (Node.Same (.declaration origin (.identifier inner text) value)) := by
  have hlet : Written "let " (OfKinds [.wordLet]) := written_mark (by decide)
  have hequals : Written " = " (OfKinds [.assign]) := written_mark (by decide)
  have htext := written_spelled hname (by decide) (by decide)
  cases value with
  | none =>
      rw [Node.renderGiven, String.append_empty]
      refine (hlet.behind htext rfl).mono ?_
      rintro _ ⟨_, _, rfl, ⟨word, _, rfl, hword, rfl⟩, name, rfl, hident, rfl⟩
      refine ⟨.declaration (some word) (.identifier (some name) name.text) none, ?_, ?_⟩
      · exact Bool.and_eq_true_iff.2 ⟨beq_self_eq_true name.text, rfl⟩
      · rintro rest mark more hmark rfl
        exact .bare hword hident hmark
  | some node =>
      rw [Node.renderGiven]
      refine (hlet.behind (htext.before (hequals.behind (hvalue node rfl) rfl)
        (beginsApart_append rfl _)) rfl).mono ?_
      rintro _ ⟨_, _, rfl, ⟨word, _, rfl, hword, rfl⟩, _, _, rfl, ⟨name, rfl, hident, rfl⟩,
        _, tokens, rfl, ⟨equals, _, rfl, hassign, rfl⟩, other, hother, hwhole⟩
      refine ⟨.declaration (some word) (.identifier (some name) name.text) (some other), ?_, ?_⟩
      · exact Bool.and_eq_true_iff.2 ⟨beq_self_eq_true name.text, hother⟩
      · rintro rest mark more hmark rfl
        exact .valued hword hident hassign (hwhole _).expression hmark

/-- A return with its value or without one. -/
theorem rereads_returning (hvalue : ∀ node ∈ value, RereadsAs Term node) :
    RereadsAs (Statement Readable) (.returning origin value) := by
  have hreturn : Written "return" (OfKinds [.wordReturn]) := written_mark (by decide)
  have hspace : Written " " (OfKinds []) := written_mark (by decide)
  rw [RereadsAs, Node.renderWith, String.append_assoc]
  cases value with
  | none =>
      rw [Node.renderGiven, String.empty_append]
      refine (hreturn.before written_semicolon rfl).mono ?_
      rintro _ ⟨_, _, rfl, ⟨word, _, rfl, hword, rfl⟩, mark, _, rfl, hmark, rfl⟩
      exact ⟨.returning (some word) none, rfl, fun rest => .returning hword hmark⟩
  | some node =>
      rw [Node.renderGiven, String.append_assoc]
      refine (hreturn.before (hspace.behind ((hvalue node rfl).before written_semicolon rfl) rfl)
        (beginsApart_append rfl _)).mono ?_
      rintro _ ⟨_, _, rfl, ⟨word, _, rfl, hword, rfl⟩, _, _, rfl, rfl, tokens, _, rfl,
        ⟨other, hother, hwhole⟩, mark, _, rfl, hmark, rfl⟩
      refine ⟨.returning (some word) (some other), hother, fun rest => ?_⟩
      simp only [List.cons_append, List.nil_append, List.append_assoc]
      exact .returningValue hword (hwhole _).expression hmark

/-- The text of the header clause is a phrase for the same clause, once a token of the kind closes
it. -/
abbrev RereadsClause (kind : Kind) (phrase : List Token → List Token → Option Node → Prop)
    (clause : Option Node) : Prop :=
  Rereads (Closing kind phrase) (Node.renderClause clause)
    fun other => Node.sameOption clause other = true

/-- A header clause that is left out. -/
theorem rereads_noClause {phrase : List Token → List Token → Option Node → Prop}
    (hnone : ∀ {mark : Token} {more : List Token}, mark.kind = kind →
      phrase (mark :: more) more none) :
    RereadsClause kind phrase none := by
  rw [RereadsClause, Node.renderClause]
  refine written_empty.mono ?_
  rintro _ rfl
  refine ⟨none, rfl, ?_⟩
  rintro rest mark more hkind rfl
  exact hnone hkind

/-- A header clause that is an expression loses its semicolon and is closed by another token. -/
theorem rereads_testClause {phrase : List Token → List Token → Option Node → Prop}
    (h : RereadsAs Term body)
    (hclause : ∀ {first mark : Token} {tokens more : List Token} {node : Node},
      Expression Readable (first :: tokens) (mark :: more) node → mark.kind = kind →
        phrase (first :: tokens) more (some (.expression (some first) node))) :
    RereadsClause kind phrase (some (.expression origin body)) := by
  rw [RereadsClause, Node.renderClause, Node.renderWith, Node.withoutTerminator_append]
  refine (rereads_expression origin some h hclause).mono ?_
  rintro tokens ⟨_, ⟨node, rfl, hnode⟩, hwhole⟩
  exact ⟨some node, hnode, hwhole⟩

/-- The three clauses of a loop and its body. -/
theorem rereads_loop {first test step : Option Node} {nodes : List Node}
    (hfirst : RereadsClause .semicolon (FirstClause Readable) first)
    (htest : RereadsClause .semicolon (TestClause Readable) test)
    (hstep : RereadsClause .closeParen (StepClause Readable) step)
    (hbody : ∀ node ∈ nodes, RereadsAs (Statement Readable) node) :
    RereadsAs (Statement Readable) (.loop origin first test step (.block inner nodes)) := by
  have hfor : Written "for (" (OfKinds [.wordFor, .openParen]) := written_mark (by decide)
  have hmark : Written "; " (OfKinds [.semicolon]) := written_mark (by decide)
  have hrender : (Node.loop origin first test step (.block inner nodes)).renderWith "\n" =
      "for (" ++ (Node.renderClause first ++ ("; " ++ (Node.renderClause test ++ ("; " ++
        (Node.renderClause step ++ (") \x7b\n\t" ++ ((Node.block inner nodes).renderWith "\n\t" ++
          "\n\x7d"))))))) := by
    simp only [Node.renderWith, String.append_assoc]
  rw [RereadsAs, hrender]
  have hbehind := hstep.before (rereads_body inner hbody) (beginsApart_append rfl _)
  have hmiddle := htest.before (hmark.behind hbehind rfl) (beginsApart_append rfl _)
  refine (hfor.behind (hfirst.before (hmark.behind hmiddle rfl) (beginsApart_append rfl _))
    rfl).mono ?_
  rintro _ ⟨_, _, rfl, ⟨word, _, rfl, hword, paren, _, rfl, hparen, rfl⟩,
    _, _, rfl, ⟨first', hfirst, hfirsts⟩, _, _, rfl, ⟨mark, _, rfl, hmark, rfl⟩,
    _, _, rfl, ⟨test', htest, htests⟩, _, _, rfl, ⟨mark', _, rfl, hmark', rfl⟩,
    _, _, rfl, ⟨step', hstep, hsteps⟩, close, behind, body, rfl, hclose, hsame, hwhole⟩
  refine ⟨.loop (some word) first' test' step' body, ?_, fun rest => ?_⟩
  · exact Bool.and_eq_true_iff.2 ⟨Bool.and_eq_true_iff.2
      ⟨Bool.and_eq_true_iff.2 ⟨hfirst, htest⟩, hstep⟩, hsame⟩
  · -- The header itself brings the tokens that close its clauses.
    simp only [List.cons_append, List.nil_append, List.append_assoc]
    exact .loop hword hparen (hfirsts _ mark _ hmark rfl) (htests _ mark' _ hmark' rfl)
      (hsteps _ close _ hclose rfl) (hwhole rest)

end Statements

end Grammar

end Scriptlet
