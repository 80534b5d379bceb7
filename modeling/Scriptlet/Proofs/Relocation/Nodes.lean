import Scriptlet.Node.Name

/-!
# Nodes at other places

`Node.relocate` moves the tokens of a node to other places and changes nothing else. A node and
its relocation have the same shape, and none of the ways to show a node tells them apart.
-/

namespace Scriptlet

/-- The token at another place. -/
def Token.relocate (move : Position → Position) (token : Token) : Token :=
  { token with position := move token.position }

/-- The origin at another place. -/
def Origin.relocate (move : Position → Position) (origin : Origin) : Origin :=
  origin.map (Token.relocate move)

/-- Line zero stays, and no other line becomes that one. Faults take no place from line zero. -/
def Keeps (move : Position → Position) : Prop :=
  ∀ position, (move position).line = 0 ↔ position.line = 0

/-- A node that is moved is placed where its token was moved to. -/
theorem Origin.position?_relocate {move : Position → Position} (keeps : Keeps move)
    (origin : Origin) : (origin.relocate move).position? = origin.position?.map move := by
  cases origin with
  | none => rfl
  | some token =>
      simp only [Origin.relocate, Option.map_some, Origin.position?, Token.relocate,
        keeps token.position]
      split <;> rfl

/-- Moving twice is moving by both. -/
theorem Origin.relocate_relocate (move other : Position → Position) (origin : Origin) :
    (origin.relocate move).relocate other = origin.relocate (other ∘ move) := by
  cases origin <;> rfl

@[simp] theorem Origin.relocate_id (origin : Origin) : origin.relocate id = origin := by
  cases origin <;> rfl

namespace Node

mutual

/-- The node with all its tokens at other places. -/
def relocate (move : Position → Position) : Node → Node
  | hole => hole
  | program statements => program (relocateList move statements)
  | expression origin body => expression (origin.relocate move) (body.relocate move)
  | declaration origin name value =>
      declaration (origin.relocate move) (name.relocate move) (relocateOption move value)
  | returning origin value => returning (origin.relocate move) (relocateOption move value)
  | block origin statements => block (origin.relocate move) (relocateList move statements)
  | loop origin first test step body =>
      loop (origin.relocate move) (relocateOption move first) (relocateOption move test)
        (relocateOption move step) (body.relocate move)
  | integer origin value => integer (origin.relocate move) value
  | boolean origin value => boolean (origin.relocate move) value
  | string origin value => string (origin.relocate move) value
  | identifier origin name => identifier (origin.relocate move) name
  | array origin elements => array (origin.relocate move) (relocateList move elements)
  | map origin pairs => map (origin.relocate move) (relocatePairs move pairs)
  | function origin parameters body =>
      function (origin.relocate move) (relocateList move parameters) (body.relocate move)
  | choice origin test consequence alternative =>
      choice (origin.relocate move) (test.relocate move) (consequence.relocate move)
        (relocateOption move alternative)
  | unary origin operator operand =>
      unary (origin.relocate move) operator (operand.relocate move)
  | binary origin left operator right =>
      binary (origin.relocate move) (left.relocate move) operator (right.relocate move)
  | call origin callee arguments =>
      call (origin.relocate move) (callee.relocate move) (relocateList move arguments)
  | index origin target position =>
      index (origin.relocate move) (target.relocate move) (position.relocate move)
  | member origin target name =>
      member (origin.relocate move) (target.relocate move) (name.relocate move)
  | assign origin target value =>
      assign (origin.relocate move) (target.relocate move) (value.relocate move)

/-- The nodes of a list with all their tokens at other places. -/
def relocateList (move : Position → Position) : List Node → List Node
  | [] => []
  | node :: nodes => node.relocate move :: relocateList move nodes

/-- The pairs of a map with all their tokens at other places. -/
def relocatePairs (move : Position → Position) : List (Node × Node) → List (Node × Node)
  | [] => []
  | (key, value) :: pairs =>
      (key.relocate move, value.relocate move) :: relocatePairs move pairs

/-- An optional child with all its tokens at other places. -/
def relocateOption (move : Position → Position) : Option Node → Option Node
  | none => none
  | some node => some (node.relocate move)

end

variable (move : Position → Position)

/-- A list is moved element by element. -/
theorem relocateList_eq_map (nodes : List Node) :
    relocateList move nodes = nodes.map (relocate move) := by
  induction nodes with
  | nil => rfl
  | cons node nodes ih => rw [relocateList, ih, List.map_cons]

/-- The pairs of a map are moved key by key and value by value. -/
theorem relocatePairs_eq_map (pairs : List (Node × Node)) :
    relocatePairs move pairs =
      pairs.map fun pair => (pair.1.relocate move, pair.2.relocate move) := by
  induction pairs with
  | nil => rfl
  | cons pair pairs ih => rw [relocatePairs, ih, List.map_cons]

/-- The name of an identifier stays. -/
@[simp] theorem identifier?_relocate (node : Node) :
    (node.relocate move).identifier? = node.identifier? := by
  cases node <;> rfl

@[simp] theorem isProgram_relocate (node : Node) :
    (node.relocate move).isProgram = node.isProgram := by
  cases node <;> rfl

@[simp] theorem isSilent_relocate (node : Node) :
    (node.relocate move).isSilent = node.isSilent := by
  cases node <;> rfl

mutual

/-- Moving changes origins only. -/
theorem same_relocate : ∀ node : Node, node.same (node.relocate move) = true
  | hole => rfl
  | program statements => sameList_relocate statements
  | expression _ body => same_relocate body
  | declaration _ name value => by
      show (name.same (name.relocate move) && sameOption value (relocateOption move value)) = true
      rw [same_relocate name, sameOption_relocate value, Bool.and_true]
  | returning _ value => sameOption_relocate value
  | block _ statements => sameList_relocate statements
  | loop _ first test step body => by
      show (sameOption first (relocateOption move first) &&
        sameOption test (relocateOption move test) &&
        sameOption step (relocateOption move step) && body.same (body.relocate move)) = true
      rw [sameOption_relocate first, sameOption_relocate test, sameOption_relocate step,
        same_relocate body]
      rfl
  | integer _ value => beq_self_eq_true value
  | boolean _ value => beq_self_eq_true value
  | string _ value => beq_self_eq_true value
  | identifier _ name => beq_self_eq_true name
  | array _ elements => sameList_relocate elements
  | map _ pairs => samePairs_relocate pairs
  | function _ parameters body => by
      show (sameList parameters (relocateList move parameters) &&
        body.same (body.relocate move)) = true
      rw [sameList_relocate parameters, same_relocate body, Bool.and_true]
  | choice _ test consequence alternative => by
      show (test.same (test.relocate move) && consequence.same (consequence.relocate move) &&
        sameOption alternative (relocateOption move alternative)) = true
      rw [same_relocate test, same_relocate consequence, sameOption_relocate alternative]
      rfl
  | unary _ operator operand => by
      show (operator == operator && operand.same (operand.relocate move)) = true
      rw [same_relocate operand, beq_self_eq_true, Bool.and_true]
  | binary _ left operator right => by
      show (left.same (left.relocate move) && operator == operator &&
        right.same (right.relocate move)) = true
      rw [same_relocate left, same_relocate right, beq_self_eq_true]
      rfl
  | call _ callee arguments => by
      show (callee.same (callee.relocate move) &&
        sameList arguments (relocateList move arguments)) = true
      rw [same_relocate callee, sameList_relocate arguments, Bool.and_true]
  | index _ target position => by
      show (target.same (target.relocate move) && position.same (position.relocate move)) = true
      rw [same_relocate target, same_relocate position, Bool.and_true]
  | member _ target name => by
      show (target.same (target.relocate move) && name.same (name.relocate move)) = true
      rw [same_relocate target, same_relocate name, Bool.and_true]
  | assign _ target value => by
      show (target.same (target.relocate move) && value.same (value.relocate move)) = true
      rw [same_relocate target, same_relocate value, Bool.and_true]

theorem sameList_relocate : ∀ nodes : List Node, sameList nodes (relocateList move nodes) = true
  | [] => rfl
  | node :: nodes => by
      show (node.same (node.relocate move) && sameList nodes (relocateList move nodes)) = true
      rw [same_relocate node, sameList_relocate nodes, Bool.and_true]

theorem samePairs_relocate :
    ∀ pairs : List (Node × Node), samePairs pairs (relocatePairs move pairs) = true
  | [] => rfl
  | (key, value) :: pairs => by
      show (key.same (key.relocate move) && value.same (value.relocate move) &&
        samePairs pairs (relocatePairs move pairs)) = true
      rw [same_relocate key, same_relocate value, samePairs_relocate pairs]
      rfl

theorem sameOption_relocate :
    ∀ node : Option Node, sameOption node (relocateOption move node) = true
  | none => rfl
  | some node => same_relocate node

end

/-! A node is the same as its relocation, and so shown alike. -/

/-- What a node is called stays, up to origins. -/
@[simp] theorem naming_relocate (node : Node) : (node.relocate move).naming = node.naming := by
  cases node with
  | declaration _ name _ =>
      have hkey : Quotient.mk sameness (name.relocate move) = Quotient.mk sameness name :=
        (key_eq_iff.2 (same_relocate move name)).symm
      show Except.ok (Name.node _) = Except.ok (Name.node _)
      rw [hkey]
  | _ => rfl

/-- The text of a node shows no positions. -/
@[simp] theorem render_relocate (node : Node) : (node.relocate move).render = node.render :=
  (renderWith_of_same "\n" (same_relocate move node)).symm

@[simp] theorem flaw?_relocate (view : View) (node : Node) :
    (node.relocate move).flaw? view = node.flaw? view :=
  (flaw?_of_same view (same_relocate move node)).symm

@[simp] theorem render?_relocate (node : Node) : (node.relocate move).render? = node.render? := by
  rw [render?, render?, flaw?_relocate, render_relocate]

@[simp] theorem toTree?_relocate (node : Node) : (node.relocate move).toTree? = node.toTree? := by
  rw [toTree?, toTree?, flaw?_relocate, toTree_of_same (same_relocate move node)]

mutual

/-- Moving a node twice is moving it once. -/
theorem relocate_relocate (other : Position → Position) :
    ∀ node : Node, (node.relocate move).relocate other = node.relocate (other ∘ move)
  | hole => rfl
  | integer _ _ | boolean _ _ | string _ _ | identifier _ _ => by
      simp [relocate, Origin.relocate_relocate]
  | program statements | block _ statements => by
      simp [relocate, Origin.relocate_relocate, relocateList_relocateList other statements]
  | expression _ body => by
      simp [relocate, Origin.relocate_relocate, relocate_relocate other body]
  | declaration _ name value => by
      simp [relocate, Origin.relocate_relocate, relocate_relocate other name,
        relocateOption_relocateOption other value]
  | returning _ value => by
      simp [relocate, Origin.relocate_relocate, relocateOption_relocateOption other value]
  | loop _ first test step body => by
      simp [relocate, Origin.relocate_relocate, relocateOption_relocateOption other first,
        relocateOption_relocateOption other test, relocateOption_relocateOption other step,
        relocate_relocate other body]
  | array _ elements => by
      simp [relocate, Origin.relocate_relocate, relocateList_relocateList other elements]
  | map _ pairs => by
      simp [relocate, Origin.relocate_relocate, relocatePairs_relocatePairs other pairs]
  | function _ parameters body => by
      simp [relocate, Origin.relocate_relocate, relocateList_relocateList other parameters,
        relocate_relocate other body]
  | choice _ test consequence alternative => by
      simp [relocate, Origin.relocate_relocate, relocate_relocate other test,
        relocate_relocate other consequence, relocateOption_relocateOption other alternative]
  | unary _ operator operand => by
      simp [relocate, Origin.relocate_relocate, relocate_relocate other operand]
  | binary _ left operator right => by
      simp [relocate, Origin.relocate_relocate, relocate_relocate other left,
        relocate_relocate other right]
  | call _ callee arguments => by
      simp [relocate, Origin.relocate_relocate, relocate_relocate other callee,
        relocateList_relocateList other arguments]
  | index _ target position => by
      simp [relocate, Origin.relocate_relocate, relocate_relocate other target,
        relocate_relocate other position]
  | member _ target name => by
      simp [relocate, Origin.relocate_relocate, relocate_relocate other target,
        relocate_relocate other name]
  | assign _ target value => by
      simp [relocate, Origin.relocate_relocate, relocate_relocate other target,
        relocate_relocate other value]

/-- Moving a list twice is moving it by both. -/
theorem relocateList_relocateList (other : Position → Position) : ∀ nodes : List Node,
    relocateList other (relocateList move nodes) = relocateList (other ∘ move) nodes
  | [] => rfl
  | node :: nodes => by
      simp [relocateList, relocate_relocate other node, relocateList_relocateList other nodes]

theorem relocatePairs_relocatePairs (other : Position → Position) : ∀ pairs : List (Node × Node),
    relocatePairs other (relocatePairs move pairs) = relocatePairs (other ∘ move) pairs
  | [] => rfl
  | (key, value) :: pairs => by
      simp [relocatePairs, relocate_relocate other key, relocate_relocate other value,
        relocatePairs_relocatePairs other pairs]

theorem relocateOption_relocateOption (other : Position → Position) : ∀ node : Option Node,
    relocateOption other (relocateOption move node) = relocateOption (other ∘ move) node
  | none => rfl
  | some node => by simp [relocateOption, relocate_relocate other node]

end

mutual

/-- A node that stays where it is does not change. -/
theorem relocate_id : ∀ node : Node, node.relocate id = node
  | hole => rfl
  | integer _ _ | boolean _ _ | string _ _ | identifier _ _ => by simp [relocate]
  | program statements | block _ statements => by simp [relocate, relocateList_id statements]
  | expression _ body => by simp [relocate, relocate_id body]
  | declaration _ name value => by simp [relocate, relocate_id name, relocateOption_id value]
  | returning _ value => by simp [relocate, relocateOption_id value]
  | loop _ first test step body => by
      simp [relocate, relocateOption_id first, relocateOption_id test, relocateOption_id step,
        relocate_id body]
  | array _ elements => by simp [relocate, relocateList_id elements]
  | map _ pairs => by simp [relocate, relocatePairs_id pairs]
  | function _ parameters body => by
      simp [relocate, relocateList_id parameters, relocate_id body]
  | choice _ test consequence alternative => by
      simp [relocate, relocate_id test, relocate_id consequence, relocateOption_id alternative]
  | unary _ operator operand => by simp [relocate, relocate_id operand]
  | binary _ left operator right => by simp [relocate, relocate_id left, relocate_id right]
  | call _ callee arguments => by simp [relocate, relocate_id callee, relocateList_id arguments]
  | index _ target position => by simp [relocate, relocate_id target, relocate_id position]
  | member _ target name => by simp [relocate, relocate_id target, relocate_id name]
  | assign _ target value => by simp [relocate, relocate_id target, relocate_id value]

theorem relocateList_id : ∀ nodes : List Node, relocateList id nodes = nodes
  | [] => rfl
  | node :: nodes => by simp [relocateList, relocate_id node, relocateList_id nodes]

theorem relocatePairs_id : ∀ pairs : List (Node × Node), relocatePairs id pairs = pairs
  | [] => rfl
  | (key, value) :: pairs => by
      simp [relocatePairs, relocate_id key, relocate_id value, relocatePairs_id pairs]

theorem relocateOption_id : ∀ node : Option Node, relocateOption id node = node
  | none => rfl
  | some node => by simp [relocateOption, relocate_id node]

end

/-- Nodes stay the same in front of nodes that are moved. -/
theorem sameList_append_relocate (nodes others : List Node) :
    sameList (nodes ++ others) (nodes ++ relocateList move others) = true := by
  induction nodes with
  | nil => exact sameList_relocate move others
  | cons node nodes ih =>
      exact Bool.and_eq_true_iff.2 ⟨same_self node, ih⟩

end Node

end Scriptlet
