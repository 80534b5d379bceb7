import Scriptlet.Proofs.Grammar.Canonical
import Scriptlet.Proofs.Parser.Acceptance
import Scriptlet.Proofs.Parser.Formation
import Scriptlet.Proofs.Relocation.Nodes

/-!
# Canonical texts are read back

The canonical text of a program that was read from a text is read without an error, and as the same
program (`render_rereads`), unless a node in it is abridged: a string has lost its quotes there, a
choice its braces, and a declaration at the end of a loop header its semicolon. All else is put
together from texts that reread. The texts of the two programs are then the same too, since a text
does not show origins.
-/

namespace Scriptlet

open Scriptlet.Grammar Scriptlet.Parser Scriptlet.Token

namespace Node

section Flaws

variable {view : View}

/-- A body that was read has statements. -/
theorem Formed.bodyFlaw?_eq_none {tokens : List Token} {node : Node}
    (h : node.Formed tokens .block) : node.bodyFlaw? view = none := by
  cases h
  simp [bodyFlaw?, hasStatements]

/-- A node that was read from a text has no flaw. -/
theorem Formed.flaw?_eq_none {tokens : List Token} {place : Place} {node : Node}
    (h : node.Formed tokens place) : node.flaw? view = none := by
  induction h with
  | identifier _ ih | testClause _ ih | clauseStatement _ ih => exact ih
  | name | integer | string | yes | no => rfl
  | unary _ _ _ ih | test _ _ ih => exact ih
  | binary _ _ _ _ _ hleft hright | assign _ _ _ _ hleft hright | index _ _ _ _ hleft hright =>
      rw [flaw?, hleft, hright]
      rfl
  | call _ _ _ _ hcallee harguments =>
      rw [flaw?, hcallee, flawList?_eq_none harguments]
      rfl
  | member _ _ _ hname htarget _ =>
      rw [flaw?, htarget, hname.isIdentifier.nameFlaw?_eq_none]
      rfl
  | array _ _ _ ih | block _ _ _ ih => exact flawList?_eq_none ih
  | map _ _ _ _ hkeys hvalues => exact flawPairs?_eq_none hkeys hvalues
  | choice _ _ _ _ _ htest hconsequence halternative =>
      rw [flaw?, htest, hconsequence, flawOption?_eq_none halternative]
      rfl
  | function _ _ hnames hblock hparameters hbody =>
      rw [flaw?, flawParameters?_eq_none hparameters fun node hmem =>
        (hnames node hmem).isIdentifier.nameFlaw?_eq_none, hblock.bodyFlaw?_eq_none, hbody]
      rfl
  | declaration _ _ hname _ _ hvalue =>
      rw [flaw?, hname.isIdentifier.nameFlaw?_eq_none, flawOption?_eq_none hvalue]
      rfl
  | returning _ _ _ hvalue => exact flawOption?_eq_none hvalue
  | loop _ _ _ _ _ hblock hfirst htest hstep hbody =>
      rw [flaw?, flawOption?_eq_none hfirst, flawOption?_eq_none htest, flawOption?_eq_none hstep,
        hblock.bodyFlaw?_eq_none, hbody]
      rfl

end Flaws

/-- The text of the node leaves out characters that reading needs: the quotes of a string, the
braces of a choice, or the semicolon of a declaration at the end of a loop header. -/
def isAbridged : Node → Bool
  | string _ _ => true
  | choice _ _ _ _ => true
  | loop _ _ _ (some (declaration _ _ _)) _ => true
  | _ => false

/-- No node in the node is abridged. -/
def Unabridged (node : Node) : Prop :=
  ∀ inner, node.Contains inner → inner.isAbridged = false

/-- The children of an unabridged node are unabridged. -/
theorem Unabridged.child {node inner : Node} (h : node.Unabridged) (hmem : inner ∈ node.children) :
    inner.Unabridged :=
  fun part hpart => h part (.child hmem hpart)

end Node

/-- The text of the node is a phrase for the place the node stands in. -/
def Rereadable : Place → Node → Prop
  | .name, node => ∃ origin text, node = .identifier origin text ∧ Spelled .ident text.toList
  | .expression, node => RereadsAs Term node
  | .test, node => ∃ origin body, node = .expression origin body ∧ RereadsAs Term body
  | .clause, node =>
      (∃ origin body, node = .expression origin body ∧ RereadsAs Term body) ∨
      ∃ origin inner text value, node = .declaration origin (.identifier inner text) value ∧
        Rereads (Closing .semicolon (Declaration Readable))
          ("let " ++ (text ++ Node.renderGiven " = " value)) node.Same
  | .statement, node => RereadsAs (Statement Readable) node
  | .block, node => ∃ origin nodes, node = .block origin nodes ∧
      ∀ inner ∈ nodes, RereadsAs (Statement Readable) inner

/-- A clause with a semicolon behind it is a statement. -/
theorem Rereadable.statement {node : Node} (h : Rereadable .clause node) :
    Rereadable .statement node := by
  rcases h with ⟨origin, body, rfl, hbody⟩ | ⟨origin, inner, text, value, rfl, hcore⟩
  · exact rereads_expressionStatement hbody
  · have hrender : (Node.declaration origin (.identifier inner text) value).renderWith "\n" =
        "let " ++ (text ++ Node.renderGiven " = " value) ++ ";" := by
      simp only [Node.renderWith, Node.renderName, String.append_assoc]
    rw [Rereadable, RereadsAs, hrender]
    refine (hcore.close written_semicolon rfl).mono ?_
    rintro tokens ⟨other, hother, hwhole⟩
    exact ⟨other, hother, fun rest => .declaration (hwhole rest)⟩

section Header

variable {clause : Option Node}

/-- The first clause of a loop is reread, if it is there. -/
theorem rereads_firstClause (h : ∀ node ∈ clause, Rereadable .clause node) :
    RereadsClause .semicolon (FirstClause Readable) clause := by
  cases clause with
  | none => exact rereads_noClause .none
  | some node =>
      rcases h node rfl with ⟨origin, body, rfl, hbody⟩ | ⟨origin, inner, text, value, rfl, hcore⟩
      · exact rereads_testClause hbody .expression
      · have hrender : Node.renderClause
            (some (.declaration origin (.identifier inner text) value)) =
              "let " ++ (text ++ Node.renderGiven " = " value) := by
          rw [Node.renderClause, Node.renderWith, Node.withoutTerminator_append,
            String.append_assoc]
          rfl
        rw [RereadsClause, hrender]
        refine hcore.mono ?_
        rintro tokens ⟨other, hother, hwhole⟩
        exact ⟨some other, hother, fun rest mark more hmark hrest =>
          .declaration (hwhole rest mark more hmark hrest)⟩

/-- The test of a loop is reread, if it is there. -/
theorem rereads_test (h : ∀ node ∈ clause, Rereadable .test node) :
    RereadsClause .semicolon (TestClause Readable) clause := by
  cases clause with
  | none => exact rereads_noClause .none
  | some node =>
      obtain ⟨origin, body, rfl, hbody⟩ := h node rfl
      exact rereads_testClause hbody .expression

/-- The last clause of a header that is no declaration. -/
theorem rereads_stepClause (h : ∀ node ∈ clause, Rereadable .clause node)
    (hplain : ∀ origin name value, clause ≠ some (.declaration origin name value)) :
    RereadsClause .closeParen (StepClause Readable) clause := by
  cases clause with
  | none => exact rereads_noClause .none
  | some node =>
      rcases h node rfl with ⟨origin, body, rfl, hbody⟩ | ⟨origin, inner, text, value, rfl, -⟩
      · exact rereads_testClause hbody .expression
      · -- Its text has lost the semicolon that the grammar asks for here too.
        exact absurd rfl (hplain _ _ _)

end Header

/-- The text of a node that was read, and has no abridged node in it, is a phrase. -/
theorem Node.Formed.rereadable {tokens : List Token} {place : Place} {node : Node}
    (hspelled : ∀ token ∈ tokens, Spelled token.kind token.text.toList)
    (h : node.Formed tokens place) (hfull : node.Unabridged) : Rereadable place node := by
  induction h with
  | name htoken hkind => exact ⟨_, _, rfl, hkind ▸ hspelled _ htoken⟩
  | identifier _ ih =>
      obtain ⟨origin, text, rfl, htext⟩ := ih hfull
      exact rereads_name htext
  | integer _ _ hreadable => exact rereads_integer hreadable.2
  | string | choice => exact absurd (hfull _ .self).symm Bool.false_ne_true
  | yes => exact rereads_yes
  | no => exact rereads_no
  | unary hsign hkind _ ih =>
      exact rereads_unary (hspelled _ hsign) hkind (ih (hfull.child List.mem_cons_self))
  | binary hoperator hbinary hassign _ _ hleft hright =>
      exact rereads_binary (hspelled _ hoperator) hbinary hassign
        (hleft (hfull.child List.mem_cons_self))
        (hright (hfull.child (List.mem_cons_of_mem _ List.mem_cons_self)))
  | assign _ _ _ _ htarget hvalue =>
      exact rereads_assign (htarget (hfull.child List.mem_cons_self))
        (hvalue (hfull.child (List.mem_cons_of_mem _ List.mem_cons_self)))
  | call _ _ _ _ hcallee harguments =>
      exact rereads_call (hcallee (hfull.child List.mem_cons_self))
        fun node hmem => harguments node hmem (hfull.child (List.mem_cons_of_mem _ hmem))
  | index _ _ _ _ htarget hposition =>
      exact rereads_index (htarget (hfull.child List.mem_cons_self))
        (hposition (hfull.child (List.mem_cons_of_mem _ List.mem_cons_self)))
  | member _ _ _ _ htarget hname =>
      obtain ⟨inner, text, rfl, htext⟩ :=
        hname (hfull.child (List.mem_cons_of_mem _ List.mem_cons_self))
      exact rereads_member (htarget (hfull.child List.mem_cons_self)) htext
  | array _ _ _ ih => exact rereads_array fun node hmem => ih node hmem (hfull.child hmem)
  | map _ _ _ _ hkeys hvalues =>
      refine rereads_map (fun pair hmem => hkeys pair hmem (hfull.child ?_))
        (fun pair hmem => hvalues pair hmem (hfull.child ?_))
      · exact List.mem_flatMap.2 ⟨pair, hmem, List.mem_cons_self⟩
      · exact List.mem_flatMap.2 ⟨pair, hmem, List.mem_cons_of_mem _ List.mem_cons_self⟩
  | function _ _ _ _ hparameters hbody =>
      obtain ⟨inner, nodes, rfl, hnodes⟩ :=
        hbody (hfull.child (List.mem_append_right _ List.mem_cons_self))
      refine rereads_function (fun node hmem => ?_) hnodes
      obtain ⟨origin, text, rfl, htext⟩ :=
        hparameters node hmem (hfull.child (List.mem_append_left _ hmem))
      exact rereads_parameter htext
  | test _ _ ih => exact ⟨_, _, rfl, ih (hfull.child List.mem_cons_self)⟩
  | testClause _ ih => exact .inl (ih hfull)
  | declaration _ _ _ _ hname hvalue =>
      obtain ⟨inner, text, rfl, htext⟩ := hname (hfull.child List.mem_cons_self)
      refine .inr ⟨_, _, _, _, rfl, rereads_declaration htext fun node hmem => ?_⟩
      exact hvalue node hmem (hfull.child (List.mem_cons_of_mem _ (Option.mem_toList.2 hmem)))
  | clauseStatement _ ih => exact (ih hfull).statement
  | returning _ _ _ hvalue =>
      exact rereads_returning fun node hmem =>
        hvalue node hmem (hfull.child (Option.mem_toList.2 hmem))
  | @loop word first test step body _ _ _ _ _ _ hfirst htest hstep hbody =>
      -- The children of a loop are four lists in a row; each of them is named here once.
      have hchild : ∀ inner, inner ∈ first ∨ inner ∈ test ∨ inner ∈ step ∨ inner = body →
          inner.Unabridged := by
        intro inner hinner
        refine hfull.child ?_
        simpa [Node.children, or_assoc] using hinner
      obtain ⟨origin, nodes, rfl, hnodes⟩ := hbody (hchild _ (.inr (.inr (.inr rfl))))
      refine rereads_loop (rereads_firstClause fun node hmem => ?_)
        (rereads_test fun node hmem => ?_) (rereads_stepClause (fun node hmem => ?_) ?_) hnodes
      · exact hfirst node hmem (hchild node (.inl hmem))
      · exact htest node hmem (hchild node (.inr (.inl hmem)))
      · exact hstep node hmem (hchild node (.inr (.inr (.inl hmem))))
      · rintro origin name value rfl
        exact absurd (hfull _ .self).symm Bool.false_ne_true
  | block _ _ _ ih => exact ⟨_, _, rfl, fun node hmem => ih node hmem (hfull.child hmem)⟩

/-- A program that was read has a text. -/
theorem render?_of_parse {source : String} {parsed : Parsed} (h : parse source = .ok parsed) :
    parsed.program.render? = .ok parsed.program.render := by
  have hflaw : parsed.program.flaw? .text = none :=
    Node.flawList?_eq_none fun node hmem => (formed_of_parse h node hmem).flaw?_eq_none
  rw [Node.render?, hflaw]

/-- The canonical text of a program that was read, with or without errors, and has no abridged node
in it, is read without an error and as the same program, whose text it is again. -/
theorem render_rereads (source : String) (parsed : Parsed) (hparse : parse source = .ok parsed)
    (hfull : parsed.program.Unabridged) :
    ∃ text again, parsed.program.render? = .ok text ∧ parse text = .ok again ∧ again.errors = [] ∧
      parsed.program.same again.program = true ∧ again.program.render? = .ok text := by
  have hstatements : ∀ node ∈ parsed.statements, RereadsAs (Statement Readable) node := by
    intro node hmem
    exact (formed_of_parse hparse node hmem).rereadable
      (fun token htoken => spelled_of_mem_ofText htoken) (hfull.child hmem)
  have hrender : parsed.program.render =
      "\n".intercalate (parsed.statements.map (Node.renderWith "\n")) := by
    rw [← Node.renderList_eq_map]
    rfl
  have hline : Written "\n" (OfKinds []) := written_mark (by decide)
  have htext := rereads_statements hline rfl rfl hstatements
  rw [← hrender] at htext
  obtain ⟨nodes, hnodes, hwhole⟩ := htext.holds .start
  have hagain : parse parsed.program.render = .ok ⟨nodes, []⟩ := by
    rw [parse_eq_iff, ofText]
    simpa using hwhole []
  have hsame : parsed.program.same (.program nodes) = true := Node.sameList_of_forall₂ hnodes
  refine ⟨_, _, render?_of_parse hparse, hagain, rfl, hsame, ?_⟩
  rw [render?_of_parse hagain, Node.render, Node.render, Node.renderWith_of_same "\n" hsame]
  rfl

/-- No node down to the depth is abridged, and there is none below. -/
def Node.unabridgedWithin : Nat → Node → Bool
  | 0, _ => false
  | depth + 1, node => !node.isAbridged && node.children.all (unabridgedWithin depth)

/-- A node that passed the check is unabridged. -/
theorem Node.unabridged_of_within {depth : Nat} {node : Node}
    (h : node.unabridgedWithin depth = true) : node.Unabridged := by
  intro inner hinner
  refine hinner.of_check (p := fun part => part.isAbridged = false) (fun _ => rfl)
    (fun {depth node} hcheck => ?_) h
  rw [unabridgedWithin, Bool.and_eq_true, Bool.not_eq_true', List.all_eq_true] at hcheck
  exact hcheck

/-- A loop around calls of a call and of a function literal, a map, an array and an assignment. -/
theorem render_rereads_loop :
    let source :=
      "for (let i = 007; !i; i = i + 1) \x7bfn(a) \x7breturn -a.b[0];\x7d(i)(\x7bi: [1]\x7d)\x7d"
    ∃ parsed, parse source = .ok parsed ∧ parsed.errors = [] ∧ parsed.program.Unabridged ∧
      ∃ text again, parsed.program.render? = .ok text ∧ parse text = .ok again ∧ again.errors = [] ∧
        parsed.program.same again.program = true ∧ again.program.render? = .ok text := by
  intro source
  have hchecked : ((parse source).toOption.filter fun parsed =>
      parsed.errors.isEmpty && parsed.program.unabridgedWithin 20).isSome = true := by
    decide +kernel
  obtain ⟨parsed, hparsed⟩ := Option.isSome_iff_exists.1 hchecked
  obtain ⟨hsome, hgood⟩ := Option.filter_eq_some_iff.1 hparsed
  obtain ⟨hempty, hwithin⟩ := Bool.and_eq_true_iff.1 hgood
  have hparse : parse source = .ok parsed := by
    cases hsource : parse source with
    | error stop =>
        rw [hsource] at hsome
        cases hsome
    | ok other =>
        rw [hsource] at hsome
        cases hsome
        rfl
  have herrors : parsed.errors = [] := List.isEmpty_iff.1 hempty
  have hfull := Node.unabridged_of_within hwithin
  exact ⟨parsed, hparse, herrors, hfull, render_rereads source parsed hparse hfull⟩

end Scriptlet
