import Scriptlet.Eval.Basic
import Scriptlet.Proofs.Relocation.Nodes
import Scriptlet.Value.Operation

/-!
# Values, scopes and stores at other places

The bodies of functions hold tokens, so values, scopes and stores can be moved like nodes. No
operation on values looks at a place. `unplaced` forgets the places: two things that are equal
without their places differ only in where their tokens stand.
-/

namespace Scriptlet

/-- The function with its code at other places. -/
def Closure.relocate (move : Position → Position) (closure : Closure) : Closure :=
  ⟨Node.relocateList move closure.parameters, closure.body.relocate move, closure.scope⟩

namespace Value

mutual

/-- The value with the code of its functions at other places. -/
def relocate (move : Position → Position) : Value → Value
  | null => null
  | boolean value => boolean value
  | integer value => integer value
  | string value => string value
  | array id elements => array id (relocateList move elements)
  | map id entries => map id (relocateEntries move entries)
  | function id closure => function id (closure.relocate move)
  | builtin host => builtin host

/-- The values of a list with the code of their functions at other places. -/
def relocateList (move : Position → Position) : List Value → List Value
  | [] => []
  | value :: values => value.relocate move :: relocateList move values

/-- The values under keys with the code of their functions at other places. -/
def relocateEntries (move : Position → Position) :
    List (String × Value) → List (String × Value)
  | [] => []
  | (key, value) :: entries => (key, value.relocate move) :: relocateEntries move entries

end

variable (move : Position → Position)

/-- A list of values is moved value by value. -/
theorem relocateList_eq_map (values : List Value) :
    relocateList move values = values.map (relocate move) := by
  induction values with
  | nil => rfl
  | cons value values ih => rw [relocateList, ih, List.map_cons]

theorem relocateEntries_eq_map (entries : List (String × Value)) :
    relocateEntries move entries = entries.map fun entry => (entry.1, entry.2.relocate move) := by
  induction entries with
  | nil => rfl
  | cons entry entries ih => rw [relocateEntries, ih, List.map_cons]

/-- The type of a value stays. -/
@[simp] theorem type_relocate (value : Value) : (value.relocate move).type = value.type := by
  cases value <;> rfl

@[simp] theorem truthy_relocate (value : Value) :
    (value.relocate move).truthy = value.truthy := by
  cases value <;> rfl

/-- Whether values are equal stays. -/
@[simp] theorem equals_relocate (left right : Value) :
    (left.relocate move).equals (right.relocate move) = left.equals right := by
  cases left <;> cases right <;> rfl

/-- The names of the parameters are shown alike. -/
theorem names_relocate (closure : Closure) :
    (closure.relocate move).names = closure.names := by
  have hname (parameter : Node) : (parameter.relocate move).renderName = parameter.renderName :=
    (Node.renderName_of_same (Node.same_relocate move parameter)).symm
  simp [Closure.names, Closure.relocate, Node.relocateList_eq_map, Function.comp_def, hname]

mutual

/-- The text of a value shows no places. -/
@[simp] theorem inspect_relocate : ∀ value : Value, (value.relocate move).inspect = value.inspect
  | null | boolean _ | integer _ | string _ | builtin _ => rfl
  | array _ elements => by simp [relocate, inspect, inspectList_relocate elements]
  | map _ entries => by simp [relocate, inspect, inspectEntries_relocate entries]
  | function _ closure => by
      simp only [relocate, inspect, names_relocate]
      simp [Closure.relocate]

/-- The texts of values show no positions. -/
theorem inspectList_relocate :
    ∀ values : List Value, inspectList (relocateList move values) = inspectList values
  | [] => rfl
  | value :: values => by
      simp [relocateList, inspectList, inspect_relocate value, inspectList_relocate values]

theorem inspectEntries_relocate : ∀ entries : List (String × Value),
    inspectEntries (relocateEntries move entries) = inspectEntries entries
  | [] => rfl
  | (key, value) :: entries => by
      simp [relocateEntries, inspectEntries, inspect_relocate value,
        inspectEntries_relocate entries]

end

mutual

/-- Moving a value twice is moving it once. -/
theorem relocate_relocate (other : Position → Position) :
    ∀ value : Value, (value.relocate move).relocate other = value.relocate (other ∘ move)
  | null | boolean _ | integer _ | string _ | builtin _ => rfl
  | array _ elements => by simp [relocate, relocateList_relocateList other elements]
  | map _ entries => by simp [relocate, relocateEntries_relocateEntries other entries]
  | function _ closure => by
      simp [relocate, Closure.relocate, Node.relocate_relocate, Node.relocateList_relocateList]

/-- Moving values twice is moving them by both. -/
theorem relocateList_relocateList (other : Position → Position) : ∀ values : List Value,
    relocateList other (relocateList move values) = relocateList (other ∘ move) values
  | [] => rfl
  | value :: values => by
      simp [relocateList, relocate_relocate other value, relocateList_relocateList other values]

theorem relocateEntries_relocateEntries (other : Position → Position) :
    ∀ entries : List (String × Value),
      relocateEntries other (relocateEntries move entries) = relocateEntries (other ∘ move) entries
  | [] => rfl
  | (key, value) :: entries => by
      simp [relocateEntries, relocate_relocate other value,
        relocateEntries_relocateEntries other entries]

end

mutual

/-- A value whose code stays where it is does not change. -/
theorem relocate_id : ∀ value : Value, value.relocate id = value
  | null | boolean _ | integer _ | string _ | builtin _ => rfl
  | array _ elements => by simp [relocate, relocateList_id elements]
  | map _ entries => by simp [relocate, relocateEntries_id entries]
  | function _ closure => by
      simp [relocate, Closure.relocate, Node.relocate_id, Node.relocateList_id]

theorem relocateList_id : ∀ values : List Value, relocateList id values = values
  | [] => rfl
  | value :: values => by simp [relocateList, relocate_id value, relocateList_id values]

theorem relocateEntries_id :
    ∀ entries : List (String × Value), relocateEntries id entries = entries
  | [] => rfl
  | (key, value) :: entries => by
      simp [relocateEntries, relocate_id value, relocateEntries_id entries]

end

section Operations

/-- An operator in front of a value does not look at positions. -/
theorem unary_relocate (operator : String) (operand : Value) :
    unary operator (operand.relocate move) = (unary operator operand).map (relocate move) := by
  unfold unary
  rw [truthy_relocate, type_relocate]
  split
  · rfl
  · cases operand with
    | integer value => simp only [relocate]; split <;> rfl
    | _ => simp only [relocate]; rfl

theorem integerBinary_relocate (operator : String) (left right : Int) :
    (integerBinary operator left right).map (relocate move) =
      integerBinary operator left right := by
  unfold integerBinary
  split
  · split <;> rfl
  · split <;> rfl

/-- Faults between values tell their types only. -/
theorem binaryFault_relocate (operator : String) (left right : Value) :
    binaryFault operator (left.relocate move) (right.relocate move) =
      binaryFault operator left right := by
  simp [binaryFault]

/-- An operator between values does not look at positions. -/
theorem binary_relocate (operator : String) (left right : Value) :
    binary operator (left.relocate move) (right.relocate move) =
      (binary operator left right).map (relocate move) := by
  unfold binary
  rw [equals_relocate]
  split
  · rfl
  · split
    · rfl
    · cases left with
      | integer first =>
          cases right with
          | integer second => exact (integerBinary_relocate move operator first second).symm
          | _ => exact congrArg Except.error (binaryFault_relocate move operator (.integer first) _)
      | string first =>
          cases right with
          | string second =>
              show (if operator = "+" then _ else _) =
                Except.map _ (if operator = "+" then _ else _)
              split <;> rfl
          | _ => exact congrArg Except.error (binaryFault_relocate move operator (.string first) _)
      | _ => exact congrArg Except.error (binaryFault_relocate move operator _ right)

/-- What a dictionary or a scope holds under a key moves with it. -/
theorem lookup_map_relocate {κ : Type} [BEq κ] (key : κ) (entries : List (κ × Value)) :
    (entries.map fun entry => (entry.1, entry.2.relocate move)).lookup key =
      (entries.lookup key).map (relocate move) := by
  induction entries with
  | nil => rfl
  | cons entry entries ih =>
      obtain ⟨name, value⟩ := entry
      simp only [List.map_cons, List.lookup_cons, ih]
      split <;> rfl

/-- The value under a key is moved with the map. -/
theorem entry_relocate (key : String) (entries : List (String × Value)) :
    entry key (relocateEntries move entries) = (entry key entries).relocate move := by
  rw [entry, entry, relocateEntries_eq_map, lookup_map_relocate]
  cases entries.lookup key <;> rfl

theorem named_relocate (name : Name) (entries : List (String × Value)) :
    named name (relocateEntries move entries) = (named name entries).relocate move := by
  cases name with
  | text key => exact entry_relocate move key entries
  | node _ => rfl

/-- An index does not look at positions. -/
theorem index_relocate (target position : Value) :
    index (target.relocate move) (position.relocate move) =
      (index target position).map (relocate move) := by
  cases target with
  | array _ elements =>
      cases position with
      | integer place =>
          simp only [relocate, index, relocateList_eq_map, List.getElem?_map]
          split
          · rfl
          · cases elements[place.toNat]? <;> rfl
      | _ => rfl
  | map _ entries =>
      cases position with
      | string key => exact congrArg Except.ok (entry_relocate move key entries)
      | _ => rfl
  | _ => cases position <;> rfl

/-- A member access does not look at positions. -/
theorem member_relocate (target : Value) (name : Name) :
    member (target.relocate move) name = (member target name).map (relocate move) := by
  cases target with
  | string text => simp only [relocate, member]; split <;> rfl
  | array _ elements =>
      simp only [relocate, member, relocateList_eq_map, List.length_map]
      split <;> rfl
  | map _ entries => exact congrArg Except.ok (named_relocate move name entries)
  | _ => rfl

theorem length_relocate (arguments : List Value) :
    length (relocateList move arguments) = (length arguments).map (relocate move) := by
  match arguments with
  | [] => rfl
  | [value] =>
      cases value with
      | array _ elements =>
          simp only [relocateList, relocate, length, relocateList_eq_map, List.length_map]
          rfl
      | _ => rfl
  | first :: second :: rest =>
      have hcount : (relocateList move rest).length = rest.length := by
        simp [relocateList_eq_map]
      cases first <;> simp only [relocateList, relocate, length, List.length_cons, hcount] <;> rfl

/-- Entries that are put are moved with the map. -/
theorem putEntry_relocate (key : String) (value : Value) (entries : List (String × Value)) :
    putEntry key (value.relocate move) (relocateEntries move entries) =
      relocateEntries move (putEntry key value entries) := by
  induction entries with
  | nil => rfl
  | cons entry entries ih =>
      obtain ⟨name, old⟩ := entry
      simp only [relocateEntries, putEntry]
      split
      · rfl
      · rw [relocateEntries, ih]

end Operations

mutual

/-- The scopes that functions in the value were written in. -/
def captured : Value → List ScopeId
  | array _ elements => capturedList elements
  | map _ entries => capturedEntries entries
  | function _ closure => [closure.scope]
  | _ => []

/-- The scopes that functions in the values of a list were written in. -/
def capturedList : List Value → List ScopeId
  | [] => []
  | value :: values => value.captured ++ capturedList values

/-- The scopes that functions in the values under keys were written in. -/
def capturedEntries : List (String × Value) → List ScopeId
  | [] => []
  | (_, value) :: entries => value.captured ++ capturedEntries entries

end

/-- A list captures what its values do. -/
theorem mem_capturedList {id : ScopeId} {values : List Value} :
    id ∈ capturedList values ↔ ∃ value ∈ values, id ∈ value.captured := by
  induction values with
  | nil => simp [capturedList]
  | cons value values ih => simp [capturedList, ih]

theorem mem_capturedEntries {id : ScopeId} {entries : List (String × Value)} :
    id ∈ capturedEntries entries ↔ ∃ entry ∈ entries, id ∈ entry.2.captured := by
  induction entries with
  | nil => simp [capturedEntries]
  | cons entry entries ih => simp [capturedEntries, ih]

section Captured

variable {id : ScopeId}

theorem captured_unary {operator : String} {operand result : Value}
    (h : unary operator operand = .ok result) : result.captured = [] := by
  unfold unary at h
  split at h
  · cases h; rfl
  · split at h <;> cases h
    rfl

theorem captured_integerBinary {operator : String} {left right : Int} {result : Value}
    (h : integerBinary operator left right = .ok result) : result.captured = [] := by
  unfold integerBinary at h
  split at h <;> split at h <;> cases h <;> rfl

/-- An operator between values captures no scope. -/
theorem captured_binary {operator : String} {left right result : Value}
    (h : binary operator left right = .ok result) : result.captured = [] := by
  unfold binary at h
  split at h
  · cases h; rfl
  · split at h
    · cases h; rfl
    · split at h
      · exact captured_integerBinary h
      · split at h <;> cases h
        rfl
      · cases h

/-- What is found under a key captures no more than the map. -/
theorem captured_entry {key : String} {entries : List (String × Value)}
    (h : id ∈ (entry key entries).captured) : id ∈ capturedEntries entries := by
  unfold entry at h
  cases hfound : entries.lookup key with
  | none => rw [hfound] at h; cases h
  | some value =>
      rw [hfound] at h
      obtain ⟨before, behind, rfl, -⟩ := List.lookup_eq_some_iff.1 hfound
      exact mem_capturedEntries.2 ⟨(key, value), by simp, h⟩

/-- An index captures no more than its target. -/
theorem captured_index {target position result : Value} (h : index target position = .ok result)
    (hid : id ∈ result.captured) : id ∈ target.captured := by
  unfold index at h
  split at h
  · split at h
    · cases h
    · split at h <;> cases h
      next hvalue => exact mem_capturedList.2 ⟨_, List.mem_of_getElem? hvalue, hid⟩
  · cases h
    exact captured_entry hid
  · cases h

theorem captured_named {name : Name} {entries : List (String × Value)}
    (h : id ∈ (named name entries).captured) : id ∈ capturedEntries entries := by
  cases name with
  | text key => exact captured_entry h
  | node _ => cases h

/-- A member captures no more than its owner. -/
theorem captured_member {target result : Value} {name : Name}
    (h : member target name = .ok result) (hid : id ∈ result.captured) :
    id ∈ target.captured := by
  unfold member at h
  split at h
  · split at h <;> cases h
    cases hid
  · split at h <;> cases h
    cases hid
  · cases h
    exact captured_named hid
  · cases h

theorem captured_length {arguments : List Value} {result : Value}
    (h : length arguments = .ok result) : result.captured = [] := by
  unfold length at h
  split at h <;> cases h <;> rfl

/-- A new entry adds what its value captures. -/
theorem captured_putEntry {key : String} {value : Value} {entries : List (String × Value)}
    (h : id ∈ capturedEntries (putEntry key value entries)) :
    id ∈ value.captured ∨ id ∈ capturedEntries entries := by
  induction entries with
  | nil => simpa [putEntry, capturedEntries] using h
  | cons entry entries ih =>
      obtain ⟨name, old⟩ := entry
      simp only [putEntry] at h
      split at h
      · simp only [capturedEntries, List.mem_append] at h ⊢
        rcases h with h | h
        · exact .inl h
        · exact .inr (.inr h)
      · simp only [capturedEntries, List.mem_append] at h ⊢
        rcases h with h | h
        · exact .inr (.inl h)
        · rcases ih h with h | h
          · exact .inl h
          · exact .inr (.inr h)

end Captured

end Value

namespace Scope

/-- The scope with the code of its functions at other places. -/
def relocate (move : Position → Position) (scope : Scope) : Scope :=
  ⟨scope.parent, scope.bindings.map fun binding => (binding.1, binding.2.relocate move)⟩

/-- The scopes that functions in the values of a scope were written in. -/
def captured (scope : Scope) : List ScopeId :=
  scope.bindings.flatMap fun binding => binding.2.captured

/-- A scope captures what the values of its names do. -/
theorem mem_captured {id : ScopeId} {scope : Scope} :
    id ∈ scope.captured ↔ ∃ binding ∈ scope.bindings, id ∈ binding.2.captured :=
  List.mem_flatMap

variable (move : Position → Position)

/-- The values of a scope are moved with it. -/
theorem find?_relocate (scope : Scope) (name : Name) :
    (scope.relocate move).find? name = (scope.find? name).map (Value.relocate move) :=
  Value.lookup_map_relocate move name scope.bindings

/-- The names of a scope stay. -/
@[simp] theorem declares_relocate (scope : Scope) (name : Name) :
    (scope.relocate move).declares name = scope.declares name := by
  rw [declares, declares, find?_relocate, Option.isSome_map]

/-- A name may be appended before or behind a move. -/
theorem append_relocate (scope : Scope) (name : Name) (value : Value) :
    (scope.relocate move).append name (value.relocate move) =
      (scope.append name value).relocate move := by
  simp [append, relocate]

theorem replace_relocate (scope : Scope) (name : Name) (value : Value) :
    (scope.relocate move).replace name (value.relocate move) =
      (scope.replace name value).relocate move := by
  simp only [replace, relocate, List.map_map]
  congr 1
  apply List.map_congr_left
  intro binding _
  simp only [Function.comp_apply]
  split <;> rfl

theorem relocate_id (scope : Scope) : scope.relocate id = scope := by
  simp [relocate, Value.relocate_id]

end Scope

/-- The failure at another place. -/
def Failure.relocate (move : Position → Position) : Failure → Failure
  | fault cause position => fault cause (position.map move)
  | sink reason => sink reason
  | flaw cause => flaw cause

/-- A fault has no place when it is found. -/
theorem Failure.relocate_raised (move : Position → Position) (cause : Fault) :
    (raised cause).relocate move = raised cause := by
  unfold raised
  split <;> rfl

/-- The exit with its value or its failure at other places. -/
def Exit.relocate (move : Position → Position) : Exit → Exit
  | returned value => returned (value.relocate move)
  | failed failure => failed (failure.relocate move)
  | exhausted => exhausted

/-- The store with all code at other places. -/
def Store.relocate (move : Position → Position) (store : Store) : Store :=
  { store with
    scopes := store.scopes.map (Scope.relocate move)
    printed := store.printed.map (Value.relocateList move) }

section Forgetting

/-- All places become the same one; only line zero stays apart. -/
def Position.forget (position : Position) : Position :=
  ⟨min position.line 1, 0⟩

/-- Forgetting places keeps line zero. -/
theorem keeps_forget : Keeps Position.forget := by
  intro position
  simp only [Position.forget]
  omega

/-- Behind any move, forgetting forgets the same. -/
theorem forget_comp {move : Position → Position} (keeps : Keeps move) :
    Position.forget ∘ move = Position.forget := by
  funext position
  have hline := keeps position
  simp only [Function.comp_apply, Position.forget, Position.mk.injEq, and_true]
  omega

/-- The value without the places of its code. -/
def Value.unplaced (value : Value) : Value :=
  value.relocate Position.forget

/-- A value that was moved differs from it only in its places. -/
theorem Value.unplaced_relocate {move : Position → Position} (keeps : Keeps move) (value : Value) :
    (value.relocate move).unplaced = value.unplaced := by
  rw [unplaced, unplaced, relocate_relocate, forget_comp keeps]

/-- The store without the places of its code. -/
def Store.unplaced (store : Store) : Store :=
  store.relocate Position.forget

end Forgetting

end Scriptlet
