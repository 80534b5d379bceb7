import Scriptlet.Node.Tree

/-!
# Sameness of nodes

Two nodes are the same exactly if they are equal once they have no origins (`same_iff`), and no way
to show a node looks at origins: the flaws, the text and the tree of a node are those of the bare
node. So they do not tell two nodes apart that are the same. A node up to sameness is a `Node.Key`;
as such it stands among the keys of a dictionary.
-/

namespace Scriptlet.Node

mutual

/-- The node without origins, at any depth. -/
def bare : Node → Node
  | hole => hole
  | program statements => program (bareList statements)
  | expression _ body => expression none body.bare
  | declaration _ name value => declaration none name.bare (bareOption value)
  | returning _ value => returning none (bareOption value)
  | block _ statements => block none (bareList statements)
  | loop _ first test step body =>
      loop none (bareOption first) (bareOption test) (bareOption step) body.bare
  | integer _ value => integer none value
  | boolean _ value => boolean none value
  | string _ value => string none value
  | identifier _ name => identifier none name
  | array _ elements => array none (bareList elements)
  | map _ pairs => map none (barePairs pairs)
  | function _ parameters body => function none (bareList parameters) body.bare
  | choice _ test consequence alternative =>
      choice none test.bare consequence.bare (bareOption alternative)
  | unary _ operator operand => unary none operator operand.bare
  | binary _ left operator right => binary none left.bare operator right.bare
  | call _ callee arguments => call none callee.bare (bareList arguments)
  | index _ target position => index none target.bare position.bare
  | member _ target name => member none target.bare name.bare
  | assign _ target value => assign none target.bare value.bare

/-- The nodes of a list without origins. -/
def bareList : List Node → List Node
  | [] => []
  | node :: nodes => node.bare :: bareList nodes

/-- The pairs of a map without origins. -/
def barePairs : List (Node × Node) → List (Node × Node)
  | [] => []
  | (key, value) :: pairs => (key.bare, value.bare) :: barePairs pairs

/-- An optional child without origins. -/
def bareOption : Option Node → Option Node
  | none => none
  | some node => some node.bare

end

mutual

/-- Two nodes are the same exactly if they are equal without origins. -/
theorem same_iff : ∀ {node other : Node}, node.same other = true ↔ node.bare = other.bare
  | hole, other => by cases other <;> simp [same, bare]
  | program _, other | block _ _, other | array _ _, other => by
      cases other <;> simp [same, bare, sameList_iff]
  | expression _ _, other => by cases other <;> simp [same, bare, same_iff]
  | declaration _ _ _, other => by
      cases other <;> simp [same, bare, same_iff, sameOption_iff]
  | returning _ _, other => by cases other <;> simp [same, bare, sameOption_iff]
  | loop _ _ _ _ _, other => by
      cases other <;> simp [same, bare, same_iff, sameOption_iff, and_assoc]
  | integer _ _, other | boolean _ _, other | string _ _, other | identifier _ _, other => by
      cases other <;> simp [same, bare]
  | map _ _, other => by cases other <;> simp [same, bare, samePairs_iff]
  | function _ _ _, other => by cases other <;> simp [same, bare, same_iff, sameList_iff]
  | choice _ _ _ _, other => by
      cases other <;> simp [same, bare, same_iff, sameOption_iff, and_assoc]
  | unary _ _ _, other => by cases other <;> simp [same, bare, same_iff]
  | binary _ _ _ _, other => by cases other <;> simp [same, bare, same_iff, and_assoc]
  | call _ _ _, other => by cases other <;> simp [same, bare, same_iff, sameList_iff]
  | index _ _ _, other | member _ _ _, other | assign _ _ _, other => by
      cases other <;> simp [same, bare, same_iff]
termination_by structural node => node

/-- The same for the nodes of a list. -/
theorem sameList_iff : ∀ {nodes others : List Node},
    sameList nodes others = true ↔ bareList nodes = bareList others
  | [], others => by cases others <;> simp [sameList, bareList]
  | _ :: _, others => by cases others <;> simp [sameList, bareList, same_iff, sameList_iff]
termination_by structural nodes => nodes

/-- The same for the pairs of a map. -/
theorem samePairs_iff : ∀ {pairs others : List (Node × Node)},
    samePairs pairs others = true ↔ barePairs pairs = barePairs others
  | [], others => by cases others <;> simp [samePairs, barePairs]
  | (_, _) :: _, others => by
      cases others <;> simp [samePairs, barePairs, same_iff, samePairs_iff]
termination_by structural pairs => pairs

/-- The same for an optional child. -/
theorem sameOption_iff : ∀ {node other : Option Node},
    sameOption node other = true ↔ bareOption node = bareOption other
  | none, other => by cases other <;> simp [sameOption, bareOption]
  | some _, other => by cases other <;> simp [sameOption, bareOption, same_iff]
termination_by structural node => node

end

section Forms

variable (node : Node)

theorem form_bare : node.bare.form = node.form := by
  cases node <;> rfl

theorem hasStatements_bare : node.bare.hasStatements = node.hasStatements := by
  cases node <;> rfl

theorem bodyFlaw?_bare (view : View) : node.bare.bodyFlaw? view = node.bodyFlaw? view := by
  rw [bodyFlaw?, bodyFlaw?, hasStatements_bare, form_bare]

end Forms

/-- The name of a declaration that stands for a name is shown as part of a text. -/
theorem nameFlaw?_declaration (origin : Origin) (name : Node) (value : Option Node) :
    (declaration origin name value).nameFlaw? = name.textFlaw? := by
  cases name <;> rfl

/-- The flaws of a node as part of a text are those of the node, unless it is missing. -/
theorem textFlaw?_bare_of {node : Node} (h : node.bare.flaw? .text = node.flaw? .text) :
    node.bare.textFlaw? = node.textFlaw? := by
  cases node <;> first | rfl | exact h

mutual

/-- The flaws of a node do not depend on origins. -/
theorem flaw?_bare (view : View) : ∀ node : Node, node.bare.flaw? view = node.flaw? view
  | hole | integer _ _ | boolean _ _ | string _ _ | identifier _ _ => rfl
  | program statements | block _ statements | array _ statements => flawList?_bare view statements
  | expression _ body => flaw?_bare view body
  | declaration _ name value => by
      simp only [bare, flaw?, nameFlaw?_bare name, flawOption?_bare view value]
  | returning _ value => flawOption?_bare view value
  | loop _ first test step body => by
      simp only [bare, flaw?, flawOption?_bare view first, flawOption?_bare view test,
        flawOption?_bare view step, bodyFlaw?_bare, flaw?_bare view body]
  | map _ pairs => flawPairs?_bare view pairs
  | function _ parameters body => by
      simp only [bare, flaw?, flawParameters?_bare view parameters, bodyFlaw?_bare,
        flaw?_bare view body]
  | choice _ test consequence alternative => by
      simp only [bare, flaw?, flaw?_bare view test, flaw?_bare view consequence,
        flawOption?_bare view alternative]
  | unary _ _ operand => flaw?_bare view operand
  | binary _ left _ right | index _ left right | assign _ left right => by
      simp only [bare, flaw?, flaw?_bare view left, flaw?_bare view right]
  | call _ callee arguments => by
      simp only [bare, flaw?, flaw?_bare view callee, flawList?_bare view arguments]
  | member _ target name => by
      simp only [bare, flaw?, flaw?_bare view target, nameFlaw?_bare name]

/-- The flaws of a name do not depend on origins. -/
theorem nameFlaw?_bare : ∀ node : Node, node.bare.nameFlaw? = node.nameFlaw?
  | declaration _ name _ => by
      rw [bare, nameFlaw?_declaration, nameFlaw?_declaration,
        textFlaw?_bare_of (flaw?_bare .text name)]
  | hole | program _ | expression _ _ | returning _ _ | block _ _ | loop _ _ _ _ _ | integer _ _
  | boolean _ _ | string _ _ | identifier _ _ | array _ _ | map _ _ | function _ _ _
  | choice _ _ _ _ | unary _ _ _ | binary _ _ _ _ | call _ _ _ | index _ _ _ | member _ _ _
  | assign _ _ _ => rfl

theorem flawList?_bare (view : View) : ∀ nodes : List Node,
    flawList? view (bareList nodes) = flawList? view nodes
  | [] => rfl
  | node :: nodes => by
      rw [bareList, flawList?, flawList?, flaw?_bare view node, flawList?_bare view nodes]

theorem flawParameters?_bare (view : View) : ∀ nodes : List Node,
    flawParameters? view (bareList nodes) = flawParameters? view nodes
  | [] => rfl
  | node :: nodes => by
      rw [bareList, flawParameters?, flawParameters?, flaw?_bare view node, nameFlaw?_bare node,
        flawParameters?_bare view nodes]

theorem flawPairs?_bare (view : View) : ∀ pairs : List (Node × Node),
    flawPairs? view (barePairs pairs) = flawPairs? view pairs
  | [] => rfl
  | (key, value) :: pairs => by
      rw [barePairs, flawPairs?, flawPairs?, flaw?_bare view key, flaw?_bare view value,
        flawPairs?_bare view pairs]

theorem flawOption?_bare (view : View) : ∀ node : Option Node,
    flawOption? view (bareOption node) = flawOption? view node
  | none => rfl
  | some node => flaw?_bare view node

end

mutual

/-- The canonical text does not show origins. -/
theorem renderWith_bare (separator : String) : ∀ node : Node,
    node.bare.renderWith separator = node.renderWith separator
  | hole | integer _ _ | boolean _ _ | string _ _ | identifier _ _ => rfl
  | program statements | block _ statements | array _ statements => by
      simp only [bare, renderWith, renderList_bare statements]
  | expression _ body => by simp only [bare, renderWith, renderWith_bare "\n" body]
  | declaration _ name value => by
      simp only [bare, renderWith, renderName_bare name, renderGiven_bare " = " value]
  | returning _ value => by simp only [bare, renderWith, renderGiven_bare " " value]
  | loop _ first test step body => by
      simp only [bare, renderWith, renderClause_bare first, renderClause_bare test,
        renderClause_bare step, renderWith_bare "\n\t" body]
  | map _ pairs => by simp only [bare, renderWith, renderPairs_bare pairs]
  | function _ parameters body => by
      simp only [bare, renderWith, renderList_bare parameters, renderWith_bare "\n\t" body]
  | choice _ test consequence alternative => by
      simp only [bare, renderWith, renderWith_bare "\n" test, renderWith_bare "\n" consequence,
        renderGiven_bare " else " alternative]
  | unary _ _ operand => by simp only [bare, renderWith, renderWith_bare "\n" operand]
  | binary _ left _ right | index _ left right | assign _ left right => by
      simp only [bare, renderWith, renderWith_bare "\n" left, renderWith_bare "\n" right]
  | call _ callee arguments => by
      simp only [bare, renderWith, renderWith_bare "\n" callee, renderList_bare arguments]
  | member _ target name => by
      simp only [bare, renderWith, renderWith_bare "\n" target, renderName_bare name]

/-- The text of a name does not show origins. -/
theorem renderName_bare : ∀ node : Node, node.bare.renderName = node.renderName
  | declaration _ name _ => renderWith_bare "\n" name
  | hole | program _ | expression _ _ | returning _ _ | block _ _ | loop _ _ _ _ _ | integer _ _
  | boolean _ _ | string _ _ | identifier _ _ | array _ _ | map _ _ | function _ _ _
  | choice _ _ _ _ | unary _ _ _ | binary _ _ _ _ | call _ _ _ | index _ _ _ | member _ _ _
  | assign _ _ _ => rfl

theorem renderList_bare : ∀ nodes : List Node, renderList (bareList nodes) = renderList nodes
  | [] => rfl
  | node :: nodes => by
      rw [bareList, renderList, renderList, renderWith_bare "\n" node, renderList_bare nodes]

theorem renderPairs_bare : ∀ pairs : List (Node × Node),
    renderPairs (barePairs pairs) = renderPairs pairs
  | [] => rfl
  | (key, value) :: pairs => by
      rw [barePairs, renderPairs, renderPairs, renderWith_bare "\n" key, renderWith_bare "\n" value,
        renderPairs_bare pairs]

theorem renderGiven_bare (introduction : String) : ∀ node : Option Node,
    renderGiven introduction (bareOption node) = renderGiven introduction node
  | none => rfl
  | some node => by rw [bareOption, renderGiven, renderGiven, renderWith_bare "\n" node]

theorem renderClause_bare : ∀ node : Option Node,
    renderClause (bareOption node) = renderClause node
  | none => rfl
  | some node => by rw [bareOption, renderClause, renderClause, renderWith_bare "\n" node]

end

/-- The leaf of a name does not show origins. -/
theorem nameLeaf_bare (name : Node) : name.bare.nameLeaf = name.nameLeaf := by
  rw [nameLeaf, nameLeaf, renderName_bare]

theorem nameLeaves_bare : ∀ names : List Node,
    (bareList names).map nameLeaf = names.map nameLeaf
  | [] => rfl
  | name :: names => by
      rw [bareList, List.map_cons, List.map_cons, nameLeaf_bare, nameLeaves_bare names]

mutual

/-- The tree of a node does not show origins. -/
theorem toTree_bare : ∀ node : Node, node.bare.toTree = node.toTree
  | hole | integer _ _ | boolean _ _ | string _ _ | identifier _ _ => rfl
  | program statements | block _ statements | array _ statements => by
      simp only [bare, toTree, treeList_bare statements]
  | expression _ body => by simp only [bare, toTree, toTree_bare body]
  | declaration _ name value => by
      simp only [bare, toTree, nameLeaf_bare name, treeOption_bare value]
  | returning _ value => by simp only [bare, toTree, treeOption_bare value]
  | loop _ first test step body => by
      simp only [bare, toTree, treeOption_bare first, treeOption_bare test, treeOption_bare step,
        toTree_bare body]
  | map _ pairs => by simp only [bare, toTree, treePairs_bare pairs]
  | function _ parameters body => by
      simp only [bare, toTree, nameLeaves_bare parameters, toTree_bare body]
  | choice _ test consequence alternative => by
      simp only [bare, toTree, toTree_bare test, toTree_bare consequence,
        treeOption_bare alternative]
  | unary _ _ operand => by simp only [bare, toTree, toTree_bare operand]
  | binary _ left _ right | index _ left right | assign _ left right => by
      simp only [bare, toTree, toTree_bare left, toTree_bare right]
  | call _ callee arguments => by
      simp only [bare, toTree, toTree_bare callee, treeList_bare arguments]
  | member _ target name => by simp only [bare, toTree, toTree_bare target, nameLeaf_bare name]

theorem treeList_bare : ∀ nodes : List Node, treeList (bareList nodes) = treeList nodes
  | [] => rfl
  | node :: nodes => by rw [bareList, treeList, treeList, toTree_bare node, treeList_bare nodes]

theorem treePairs_bare : ∀ pairs : List (Node × Node),
    treePairs (barePairs pairs) = treePairs pairs
  | [] => rfl
  | (key, value) :: pairs => by
      rw [barePairs, treePairs, treePairs, toTree_bare key, toTree_bare value, treePairs_bare pairs]

theorem treeOption_bare : ∀ node : Option Node, treeOption (bareOption node) = treeOption node
  | none => rfl
  | some node => by rw [bareOption, treeOption, treeOption, toTree_bare node]

end

section Views

variable {node other : Node}

/-- What is told of bare nodes does not tell nodes apart that are the same. -/
theorem eq_of_same {α : Type} {view : Node → α} (hbare : ∀ node, view node.bare = view node)
    (h : node.same other = true) : view node = view other := by
  rw [← hbare node, same_iff.1 h, hbare other]

/-- Nodes that are the same have the same flaws. -/
theorem flaw?_of_same (view : View) (h : node.same other = true) :
    node.flaw? view = other.flaw? view :=
  eq_of_same (flaw?_bare view) h

theorem textFlaw?_of_same (h : node.same other = true) : node.textFlaw? = other.textFlaw? :=
  eq_of_same (fun node => textFlaw?_bare_of (flaw?_bare .text node)) h

/-- Nodes that are the same have the same canonical text. -/
theorem renderWith_of_same (separator : String) (h : node.same other = true) :
    node.renderWith separator = other.renderWith separator :=
  eq_of_same (renderWith_bare separator) h

theorem renderName_of_same (h : node.same other = true) : node.renderName = other.renderName :=
  eq_of_same renderName_bare h

/-- Nodes that are the same have the same tree. -/
theorem toTree_of_same (h : node.same other = true) : node.toTree = other.toTree :=
  eq_of_same toTree_bare h

/-- A node is the same as itself. -/
theorem same_self (node : Node) : node.same node = true :=
  same_iff.2 rfl

end Views

/-- Nodes that differ in origins only count as one. -/
instance sameness : Setoid Node where
  r node other := node.same other = true
  iseqv := {
    refl := same_self
    symm := fun h => same_iff.2 (same_iff.1 h).symm
    trans := fun h h' => same_iff.2 ((same_iff.1 h).trans (same_iff.1 h')) }

instance (node other : Node) : Decidable (node ≈ other) :=
  inferInstanceAs (Decidable (node.same other = true))

/-- A node up to sameness. -/
abbrev Key := Quotient sameness

/-- Two nodes are one key exactly if they are the same. -/
theorem key_eq_iff {node other : Node} :
    (Quotient.mk sameness node = Quotient.mk sameness other) ↔ node.same other = true :=
  ⟨Quotient.exact, fun h => Quotient.sound h⟩

namespace Key

/-- The flaw that keeps a key from being shown as part of a text. -/
def flaw? (key : Key) : Option Flaw :=
  Quotient.lift textFlaw? (fun _ _ h => textFlaw?_of_same h) key

/-- The text of a key. -/
def render (key : Key) : String :=
  Quotient.lift Node.render (fun _ _ h => renderWith_of_same "\n" h) key

end Key

end Scriptlet.Node
