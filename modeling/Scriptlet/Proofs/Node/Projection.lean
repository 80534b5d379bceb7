import Scriptlet.Node.Sameness
import Scriptlet.Proofs.Parts
import Scriptlet.Proofs.Text.Numeral

/-!
# The tree of a node

The tree of a node does not show origins: nodes that are the same up to origins have the same tree
(`toTree_of_same`). It shows everything else as long as names are identifiers (`same_of_toTree`).
The labels tell the constructs apart, and below a label the children stand at fixed places or in
lists of their own, so an optional child that is missing leaves no room for another one to take its
place.

A declaration in the place of a name is shown by the name that it declares, and nothing of its value
is seen. There the tree does lose something (`toTree?_declared_member`).
-/

namespace Scriptlet.Node

/-- Something holds of a node and of all below it. -/
inductive Everywhere (p : Node → Prop) : Node → Prop where
  | intro {node} : p node → (∀ inner ∈ node.children, Everywhere p inner) → Everywhere p node

theorem Everywhere.self {p : Node → Prop} {node : Node} : Everywhere p node → p node
  | .intro h _ => h

/-- What holds everywhere in a node does so in its children. -/
theorem Everywhere.inner {p : Node → Prop} {node inner : Node} :
    Everywhere p node → inner ∈ node.children → Everywhere p inner
  | .intro _ h, hinner => h inner hinner

/-- No child is missing, at any depth. -/
def Filled : Node → Prop :=
  Everywhere fun node => node ≠ hole

/-- What stands in the place of a name is an identifier, at any depth. -/
def Named : Node → Prop :=
  Everywhere fun node => ∀ name ∈ node.nameChildren, name.IsIdentifier

/-- A node that lacks nothing and whose names are identifiers has a tree. -/
theorem Filled.flaw?_eq_none {node : Node} (h : node.Filled) (hnamed : node.Named) :
    node.flaw? .tree = none := by
  induction h with
  | @intro node hne _ ih =>
      have hchild (inner : Node) (hinner : inner ∈ node.children) : inner.flaw? .tree = none :=
        ih inner hinner (hnamed.inner hinner)
      -- An optional child of the node is one of its children.
      have hoption (child : Option Node) (hmem : ∀ inner ∈ child, inner ∈ node.children) :
          flawOption? .tree child = none :=
        flawOption?_eq_none fun inner hinner => hchild inner (hmem inner hinner)
      have hname (name : Node) (hmem : name ∈ node.nameChildren) : name.nameFlaw? = none :=
        (hnamed.self name hmem).nameFlaw?_eq_none
      cases node with
      | hole => exact absurd rfl hne
      | integer | boolean | string | identifier => rfl
      | program | block | array => exact flawList?_eq_none hchild
      | expression _ body | unary _ _ body => exact hchild body List.mem_cons_self
      | returning _ value => exact hoption value (by simp [children])
      | map _ pairs =>
          refine flawPairs?_eq_none (fun pair hpair => hchild _ ?_)
            (fun pair hpair => hchild _ ?_) <;>
          exact List.mem_flatMap.2 ⟨pair, hpair, by simp⟩
      | declaration _ name value =>
          rw [flaw?, hname name List.mem_cons_self, hoption value (by simp +contextual [children])]
          rfl
      | member _ target name =>
          rw [flaw?, hchild target List.mem_cons_self, hname name List.mem_cons_self]
          rfl
      | function _ parameters body =>
          have hparameters : flawParameters? .tree parameters = none :=
            flawParameters?_eq_none
              (fun inner hinner => hchild inner (List.mem_append_left _ hinner)) hname
          have hbody : body.flaw? .tree = none := hchild body (by simp [children])
          rw [flaw?, hparameters, hbody]
          rfl
      | loop _ first test step body =>
          have hbody : body.flaw? .tree = none := hchild body (by simp [children])
          rw [flaw?, hoption first (by simp +contextual [children]),
            hoption test (by simp +contextual [children]),
            hoption step (by simp +contextual [children]), hbody]
          rfl
      | choice _ test consequence alternative =>
          rw [flaw?, hchild test (by simp [children]), hchild consequence (by simp [children]),
            hoption alternative (by simp +contextual [children])]
          rfl
      | binary _ left _ right | index _ left right | assign _ left right =>
          rw [flaw?, hchild left (by simp [children]), hchild right (by simp [children])]
          rfl
      | call _ callee arguments =>
          rw [flaw?, hchild callee List.mem_cons_self,
            flawList?_eq_none fun inner hinner => hchild inner (List.mem_cons_of_mem _ hinner)]
          rfl

/-- The leaves of two identifiers tell their names. -/
theorem same_of_nameLeaf {first second : Node} (hfirst : first.IsIdentifier)
    (hsecond : second.IsIdentifier) (h : first.nameLeaf = second.nameLeaf) :
    first.same second = true := by
  obtain ⟨origin, name, rfl⟩ := hfirst
  obtain ⟨other, text, rfl⟩ := hsecond
  exact beq_iff_eq.2 (Tree.leaf.inj h).2

/-- The leaves of a list of identifiers tell their names. -/
theorem sameList_of_nameLeaves : ∀ {firsts seconds : List Node},
    (∀ name ∈ firsts, name.IsIdentifier) → (∀ name ∈ seconds, name.IsIdentifier) →
    firsts.map nameLeaf = seconds.map nameLeaf → sameList firsts seconds = true
  | [], [], _, _, _ => rfl
  | [], _ :: _, _, _, h | _ :: _, [], _, _, h => by cases h
  | _ :: _, _ :: _, hfirst, hsecond, h => by
      obtain ⟨hname, hnames⟩ := List.cons.inj h
      obtain ⟨hhead, htail⟩ := List.forall_mem_cons.1 hfirst
      obtain ⟨hhead', htail'⟩ := List.forall_mem_cons.1 hsecond
      exact Bool.and_eq_true_iff.2
        ⟨same_of_nameLeaf hhead hhead' hname, sameList_of_nameLeaves htail htail' hnames⟩

mutual

/-- Nodes whose names are identifiers and that have the same tree are the same up to origins. -/
theorem same_of_toTree : ∀ {first second : Node}, first.Named → second.Named →
    first.toTree = second.toTree → first.same second = true
  | hole, second, _, _, heq => by
      cases second <;> first | rfl | simp [toTree] at heq
  | program _, second, h, h', heq | block _ _, second, h, h', heq
  | array _ _, second, h, h', heq => by
      -- A node of another form has another label.
      cases second <;> first
        | exact sameList_of_treeList (fun _ => h.inner) (fun _ => h'.inner) (Tree.branch.inj heq).2
        | simp [toTree] at heq
  | expression _ body, second, h, h', heq => by
      cases second with
      | expression _ other =>
          have htree : body.toTree = other.toTree := by simpa [toTree] using heq
          have hbody : body.same other = true :=
            same_of_toTree (h.inner List.mem_cons_self) (h'.inner List.mem_cons_self) htree
          exact hbody
      | _ => simp [toTree] at heq
  | declaration _ name value, second, h, h', heq => by
      cases second with
      | declaration _ text other =>
          obtain ⟨hleaf, htree⟩ : name.nameLeaf = text.nameLeaf ∧
              treeOption value = treeOption other := by simpa [toTree] using heq
          have hname := same_of_nameLeaf (h.self name List.mem_cons_self)
            (h'.self text List.mem_cons_self) hleaf
          have hvalue := sameOption_of_treeOption
            (fun _ hinner => h.inner (List.mem_cons_of_mem _ hinner))
            (fun _ hinner => h'.inner (List.mem_cons_of_mem _ hinner)) htree
          simp only [same, hname, hvalue, Bool.and_self]
      | _ => simp [toTree] at heq
  | returning _ _, second, h, h', heq => by
      cases second with
      | returning =>
          exact sameOption_of_treeOption (fun _ => h.inner) (fun _ => h'.inner)
            (Tree.branch.inj heq).2
      | _ => simp [toTree] at heq
  | loop _ first test step body, second, h, h', heq => by
      cases second with
      | loop _ start check turn other =>
          obtain ⟨hstart, hcheck, hturn, hother⟩ : treeOption first = treeOption start ∧
              treeOption test = treeOption check ∧ treeOption step = treeOption turn ∧
              body.toTree = other.toTree := by simpa [toTree] using heq
          have hfirst := sameOption_of_treeOption
            (fun _ hinner => h.inner (by simp [children, hinner]))
            (fun _ hinner => h'.inner (by simp [children, hinner])) hstart
          have htest := sameOption_of_treeOption
            (fun _ hinner => h.inner (by simp [children, hinner]))
            (fun _ hinner => h'.inner (by simp [children, hinner])) hcheck
          have hstep := sameOption_of_treeOption
            (fun _ hinner => h.inner (by simp [children, hinner]))
            (fun _ hinner => h'.inner (by simp [children, hinner])) hturn
          have hbody := same_of_toTree (h.inner (by simp [children]))
            (h'.inner (by simp [children])) hother
          simp only [same, hfirst, htest, hstep, hbody, Bool.and_self]
      | _ => simp [toTree] at heq
  | integer _ value, second, _, _, heq => by
      cases second with
      | integer _ other =>
          have hvalue : toString value = toString other := by simpa [toTree] using heq
          exact beq_iff_eq.2 (toString_int_injective hvalue)
      | _ => simp [toTree] at heq
  | boolean _ value, second, _, _, heq => by
      cases second with
      | boolean _ other => cases value <;> cases other <;> first | rfl | simp [toTree] at heq
      | _ => simp [toTree] at heq
  | string _ _, second, _, _, heq => by
      cases second with
      | string => simpa [toTree, same] using heq
      | _ => simp [toTree] at heq
  | identifier _ _, second, _, _, heq => by
      cases second with
      | identifier => simpa [toTree, same] using heq
      | _ => simp [toTree] at heq
  | map _ _, second, h, h', heq => by
      cases second with
      | map =>
          exact samePairs_of_treePairs (fun _ => h.inner) (fun _ => h'.inner)
            (Tree.branch.inj heq).2
      | _ => simp [toTree] at heq
  | function _ parameters body, second, h, h', heq => by
      cases second with
      | function _ names other =>
          obtain ⟨hnames, hother⟩ : parameters.map nameLeaf = names.map nameLeaf ∧
              body.toTree = other.toTree := by
            simpa only [toTree, Tree.branch.injEq, List.cons.injEq, true_and, and_true] using heq
          have hparameters : sameList parameters names = true :=
            sameList_of_nameLeaves h.self h'.self hnames
          have hbody := same_of_toTree (h.inner (by simp [children]))
            (h'.inner (by simp [children])) hother
          simp only [same, hparameters, hbody, Bool.and_self]
      | _ => simp [toTree] at heq
  | choice _ test consequence alternative, second, h, h', heq => by
      cases second with
      | choice _ check positive negative =>
          obtain ⟨hcheck, hpositive, hnegative⟩ : test.toTree = check.toTree ∧
              consequence.toTree = positive.toTree ∧
              treeOption alternative = treeOption negative := by simpa [toTree] using heq
          have htest := same_of_toTree (h.inner (by simp [children]))
            (h'.inner (by simp [children])) hcheck
          have hconsequence := same_of_toTree (h.inner (by simp [children]))
            (h'.inner (by simp [children])) hpositive
          have halternative := sameOption_of_treeOption
            (fun _ hinner => h.inner (by simp [children, hinner]))
            (fun _ hinner => h'.inner (by simp [children, hinner])) hnegative
          simp only [same, htest, hconsequence, halternative, Bool.and_self]
      | _ => simp [toTree] at heq
  | unary _ operator operand, second, h, h', heq => by
      cases second with
      | unary _ sign other =>
          obtain ⟨rfl, htree⟩ : operator = sign ∧ operand.toTree = other.toTree := by
            simpa [toTree] using heq
          have hoperand := same_of_toTree (h.inner List.mem_cons_self) (h'.inner List.mem_cons_self)
            htree
          simp only [same, beq_self_eq_true, hoperand, Bool.and_self]
      | _ => simp [toTree] at heq
  | binary _ left operator right, second, h, h', heq => by
      cases second with
      | binary _ first sign last =>
          obtain ⟨hfirst, rfl, hlast⟩ : left.toTree = first.toTree ∧ operator = sign ∧
              right.toTree = last.toTree := by simpa [toTree] using heq
          have hleft := same_of_toTree (h.inner (by simp [children]))
            (h'.inner (by simp [children])) hfirst
          have hright := same_of_toTree (h.inner (by simp [children]))
            (h'.inner (by simp [children])) hlast
          simp only [same, hleft, beq_self_eq_true, hright, Bool.and_self]
      | _ => simp [toTree] at heq
  | call _ callee arguments, second, h, h', heq => by
      cases second with
      | call _ other values =>
          obtain ⟨hother, hvalues⟩ : callee.toTree = other.toTree ∧
              treeList arguments = treeList values := by simpa [toTree] using heq
          have hcallee := same_of_toTree (h.inner List.mem_cons_self) (h'.inner List.mem_cons_self)
            hother
          have harguments := sameList_of_treeList
            (fun _ hinner => h.inner (List.mem_cons_of_mem _ hinner))
            (fun _ hinner => h'.inner (List.mem_cons_of_mem _ hinner)) hvalues
          simp only [same, hcallee, harguments, Bool.and_self]
      | _ => simp [toTree] at heq
  | index _ target inner, second, h, h', heq | assign _ target inner, second, h, h', heq => by
      cases second <;> try (simp [toTree] at heq; done)
      obtain ⟨hfirst, hlast⟩ : target.toTree = _ ∧ inner.toTree = _ := by simpa [toTree] using heq
      have htarget := same_of_toTree (h.inner (by simp [children])) (h'.inner (by simp [children]))
        hfirst
      have hinner := same_of_toTree (h.inner (by simp [children])) (h'.inner (by simp [children]))
        hlast
      simp only [same, htarget, hinner, Bool.and_self]
  | member _ target name, second, h, h', heq => by
      cases second with
      | member _ other text =>
          obtain ⟨hother, hleaf⟩ : target.toTree = other.toTree ∧
              name.nameLeaf = text.nameLeaf := by simpa [toTree] using heq
          have htarget := same_of_toTree (h.inner List.mem_cons_self) (h'.inner List.mem_cons_self)
            hother
          have hname := same_of_nameLeaf (h.self name List.mem_cons_self)
            (h'.self text List.mem_cons_self) hleaf
          simp only [same, htarget, hname, Bool.and_self]
      | _ => simp [toTree] at heq
termination_by structural first => first

theorem sameList_of_treeList : ∀ {firsts seconds : List Node},
    (∀ node ∈ firsts, node.Named) → (∀ node ∈ seconds, node.Named) →
    treeList firsts = treeList seconds → sameList firsts seconds = true
  | [], [], _, _, _ => rfl
  | [], _ :: _, _, _, h | _ :: _, [], _, _, h => by cases h
  | _ :: _, _ :: _, hfirst, hsecond, h => by
      obtain ⟨hnode, hnodes⟩ := List.cons.inj h
      obtain ⟨hhead, htail⟩ := List.forall_mem_cons.1 hfirst
      obtain ⟨hhead', htail'⟩ := List.forall_mem_cons.1 hsecond
      exact Bool.and_eq_true_iff.2
        ⟨same_of_toTree hhead hhead' hnode, sameList_of_treeList htail htail' hnodes⟩
termination_by structural firsts => firsts

/-- The trees of pairs tell keys and values. -/
theorem samePairs_of_treePairs : ∀ {firsts seconds : List (Node × Node)},
    (∀ node ∈ firsts.flatMap fun pair => [pair.1, pair.2], node.Named) →
    (∀ node ∈ seconds.flatMap fun pair => [pair.1, pair.2], node.Named) →
    treePairs firsts = treePairs seconds → samePairs firsts seconds = true
  | [], [], _, _, _ => rfl
  | [], _ :: _, _, _, h | _ :: _, [], _, _, h => by cases h
  | (key, value) :: _, (label, other) :: _, hfirst, hsecond, h => by
      obtain ⟨⟨hlabel, hother⟩, hpairs⟩ : (key.toTree = label.toTree ∧
          value.toTree = other.toTree) ∧ treePairs _ = treePairs _ := by simpa [treePairs] using h
      have hkey := same_of_toTree (hfirst key (by simp)) (hsecond label (by simp)) hlabel
      have hvalue := same_of_toTree (hfirst value (by simp)) (hsecond other (by simp)) hother
      have hrest := samePairs_of_treePairs
        (fun inner hinner => hfirst inner (List.mem_append_right _ hinner))
        (fun inner hinner => hsecond inner (List.mem_append_right _ hinner)) hpairs
      simp only [samePairs, hkey, hvalue, hrest, Bool.and_self]
termination_by structural firsts => firsts

/-- An optional child that is missing has no tree to be taken for another. -/
theorem sameOption_of_treeOption : ∀ {first second : Option Node},
    (∀ inner ∈ first.toList, inner.Named) → (∀ inner ∈ second.toList, inner.Named) →
    treeOption first = treeOption second → sameOption first second = true
  | none, none, _, _, _ => rfl
  | none, some _, _, _, h | some _, none, _, _, h => by cases h
  | some _, some _, hfirst, hsecond, h =>
      same_of_toTree (hfirst _ List.mem_cons_self) (hsecond _ List.mem_cons_self)
        (List.cons.inj h).1
termination_by structural first => first

end

end Scriptlet.Node
