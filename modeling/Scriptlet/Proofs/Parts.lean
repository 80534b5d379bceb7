import Scriptlet.Node.Flaw
import Scriptlet.Value.Operation

/-!
# Parts of nodes and of values

The children of a node, the nodes it contains at any depth, and the values that occur in a value.
Lists, pairs and optional children of nodes without flaws have no flaw.

Every value that an operation gives is a simple one, made on the spot, or occurs in an operand, or
is the size of one (`binary_simple`, `index_made`, `member_made`, `length_made`).
-/

namespace Scriptlet

namespace Node

/-- The nodes right below a node, in reading order. -/
def children : Node → List Node
  | hole => []
  | program statements => statements
  | expression _ body => [body]
  | declaration _ name value => name :: value.toList
  | returning _ value => value.toList
  | block _ statements => statements
  | loop _ first test step body => first.toList ++ test.toList ++ step.toList ++ [body]
  | integer _ _ => []
  | boolean _ _ => []
  | string _ _ => []
  | identifier _ _ => []
  | array _ elements => elements
  | map _ pairs => pairs.flatMap fun pair => [pair.1, pair.2]
  | function _ parameters body => parameters ++ [body]
  | choice _ test consequence alternative => test :: consequence :: alternative.toList
  | unary _ _ operand => [operand]
  | binary _ left _ right => [left, right]
  | call _ callee arguments => callee :: arguments
  | index _ target position => [target, position]
  | member _ target name => [target, name]
  | assign _ target value => [target, value]

/-- The children that stand where a name should. -/
def nameChildren : Node → List Node
  | declaration _ name _ => [name]
  | function _ parameters _ => parameters
  | member _ _ name => [name]
  | _ => []

/-- The node is an identifier. -/
def IsIdentifier (node : Node) : Prop :=
  ∃ origin name, node = identifier origin name

/-- One node stands in another one, at any depth. -/
inductive Contains : Node → Node → Prop where
  | self {node} : Contains node node
  | child {node inner part} : inner ∈ node.children → Contains inner part → Contains node part

/-- A part of a part is a part. -/
theorem Contains.trans {node inner part : Node} (h : node.Contains inner)
    (hpart : inner.Contains part) : node.Contains part := by
  induction h with
  | self => exact hpart
  | child hmem _ ih => exact .child hmem (ih hpart)

/-- A child of a part is a part. -/
theorem Contains.step {node inner part : Node} (h : node.Contains inner)
    (hpart : part ∈ inner.children) : node.Contains part :=
  h.trans (.child hpart .self)

/-- What a check of a node and, one level deeper, of its children shows of a node goes for all that
the node contains. -/
theorem Contains.of_check {check : Nat → Node → Bool} {p : Node → Prop}
    (hzero : ∀ node, check 0 node = false)
    (hstep : ∀ {depth node}, check (depth + 1) node = true →
      p node ∧ ∀ inner ∈ node.children, check depth inner = true)
    {depth : Nat} {node part : Node} (hcheck : check depth node = true)
    (h : node.Contains part) : p part := by
  induction h generalizing depth with
  | self =>
      cases depth with
      | zero => exact absurd ((hzero _).symm.trans hcheck) Bool.false_ne_true
      | succ depth => exact (hstep hcheck).1
  | child hmem _ ih =>
      cases depth with
      | zero => exact absurd ((hzero _).symm.trans hcheck) Bool.false_ne_true
      | succ depth => exact ih ((hstep hcheck).2 _ hmem)

section Flaws

variable {view : View}

theorem flawList?_eq_none : ∀ {nodes : List Node}, (∀ node ∈ nodes, node.flaw? view = none) →
    flawList? view nodes = none
  | [], _ => rfl
  | node :: nodes, h => by
      obtain ⟨hnode, hnodes⟩ := List.forall_mem_cons.1 h
      rw [flawList?, hnode, flawList?_eq_none hnodes]
      rfl

theorem flawPairs?_eq_none : ∀ {pairs : List (Node × Node)},
    (∀ pair ∈ pairs, pair.1.flaw? view = none) → (∀ pair ∈ pairs, pair.2.flaw? view = none) →
    flawPairs? view pairs = none
  | [], _, _ => rfl
  | (key, value) :: pairs, hkeys, hvalues => by
      obtain ⟨hkey, hkeys⟩ := List.forall_mem_cons.1 hkeys
      obtain ⟨hvalue, hvalues⟩ := List.forall_mem_cons.1 hvalues
      rw [flawPairs?, hkey, hvalue, flawPairs?_eq_none hkeys hvalues]
      rfl

/-- Parameters without flaws, as nodes and as names, have none as a list. -/
theorem flawParameters?_eq_none : ∀ {nodes : List Node}, (∀ node ∈ nodes, node.flaw? view = none) →
    (∀ node ∈ nodes, node.nameFlaw? = none) → flawParameters? view nodes = none
  | [], _, _ => rfl
  | node :: nodes, h, hnames => by
      obtain ⟨hnode, hnodes⟩ := List.forall_mem_cons.1 h
      obtain ⟨hname, hnames⟩ := List.forall_mem_cons.1 hnames
      rw [flawParameters?, hnode, hname, flawParameters?_eq_none hnodes hnames, ite_self]
      rfl

/-- An identifier has a text for a name. -/
theorem IsIdentifier.naming_eq {node : Node} (h : node.IsIdentifier) :
    ∃ name : String, node.naming = .ok name := by
  obtain ⟨origin, name, rfl⟩ := h
  exact ⟨name, rfl⟩

/-- An identifier can stand for a name. -/
theorem IsIdentifier.nameFlaw?_eq_none {node : Node} (h : node.IsIdentifier) :
    node.nameFlaw? = none := by
  obtain ⟨origin, name, rfl⟩ := h
  rfl

/-- A list of identifiers is shown by their names. -/
theorem noTextFlaw?_eq_none : ∀ {nodes : List Node}, (∀ node ∈ nodes, node.IsIdentifier) →
    ∀ place, noTextFlaw? place nodes = none
  | [], _, _ => rfl
  | node :: nodes, h, place => by
      obtain ⟨⟨origin, name, rfl⟩, hnodes⟩ := List.forall_mem_cons.1 h
      exact noTextFlaw?_eq_none hnodes (place + 1)

/-- A list of identifiers is a list of names. -/
theorem noNameFlaw?_eq_none {nodes : List Node} (h : ∀ node ∈ nodes, node.IsIdentifier) :
    nodes.findSome? noNameFlaw? = none := by
  refine List.findSome?_eq_none_iff.2 fun node hnode => ?_
  obtain ⟨origin, name, rfl⟩ := h node hnode
  rfl

theorem textFlaw?_eq_none {node : Node} (h : node.flaw? .text = none) : node.textFlaw? = none := by
  cases node with
  | hole => rfl
  | _ => exact h

theorem flawOption?_eq_none {node : Option Node} (h : ∀ inner ∈ node, inner.flaw? view = none) :
    flawOption? view node = none := by
  cases node with
  | none => rfl
  | some inner => exact h inner rfl

end Flaws

end Node

namespace Value

/-- One value occurs in another one: as the whole, in an element or under a key. -/
inductive Occurs (part : Value) : Value → Prop where
  | self : Occurs part part
  | element {id elements value} : value ∈ elements → Occurs part value →
      Occurs part (.array id elements)
  | entry {id entries key value} : (key, value) ∈ entries → Occurs part value →
      Occurs part (.map id entries)

/-- The number of characters of a string or of elements of an array. -/
def size? : Value → Option Nat
  | string text => some text.length
  | array _ elements => some elements.length
  | _ => none

/-- A value that operations make on the spot, other than by measuring: data without parts, where an
integer is a wrapped one. -/
inductive Simple : Value → Prop where
  | null : Simple .null
  | boolean {value} : Simple (.boolean value)
  | string {value} : Simple (.string value)
  | builtin {host} : Simple (.builtin host)
  | wrapped {value} : Simple (.integer (Integer.wrap value))

variable {result : Value}

/-- What occurs in a part occurs in the whole. -/
theorem Occurs.trans {part middle whole : Value} (hpart : part.Occurs middle)
    (h : middle.Occurs whole) : part.Occurs whole := by
  induction h with
  | self => exact hpart
  | element hmem _ ih => exact .element hmem ih
  | entry hmem _ ih => exact .entry hmem ih

/-- In simple data nothing occurs but the data. -/
theorem Simple.eq_of_occurs {part whole : Value} (hwhole : whole.Simple) (h : part.Occurs whole) :
    part = whole := by
  cases h with
  | self => rfl
  | element | entry => cases hwhole

/-- An operator in front of a value gives simple data. -/
theorem unary_simple {operator : String} {operand : Value}
    (h : unary operator operand = .ok result) : result.Simple := by
  unfold unary at h
  split at h
  · cases h
    exact .boolean
  · split at h
    · cases h
      exact .wrapped
    · cases h

theorem integerBinary_simple {operator : String} {left right : Int}
    (h : integerBinary operator left right = .ok result) : result.Simple := by
  unfold integerBinary at h
  split at h
  · next operation _ =>
      split at h
      · next value hvalue =>
          cases h
          have hwrapped : ∃ exact, value = Integer.wrap exact := by
            cases operation with
            | add | sub | mul => exact ⟨_, (Option.some.inj hvalue).symm⟩
            | div | rem =>
                simp only [Integer.Arithmetic.result?] at hvalue
                split at hvalue
                · cases hvalue
                · exact ⟨_, (Option.some.inj hvalue).symm⟩
          obtain ⟨exact, rfl⟩ := hwrapped
          exact .wrapped
      · cases h
  · split at h
    · cases h
      exact .boolean
    · cases h

theorem binary_simple {operator : String} {left right : Value}
    (h : binary operator left right = .ok result) : result.Simple := by
  unfold binary at h
  split at h
  · cases h
    exact .boolean
  · split at h
    · cases h
      exact .boolean
    · split at h
      · exact integerBinary_simple h
      · split at h
        · cases h
          exact .string
        · cases h
      · cases h

/-- A length is the size of the only argument. -/
theorem length_made {arguments : List Value} (h : length arguments = .ok result) :
    ∃ value count, arguments = [value] ∧ value.size? = some count ∧ result = .integer count := by
  unfold length at h
  split at h
  · cases h
    exact ⟨_, _, rfl, rfl, rfl⟩
  · cases h
    exact ⟨_, _, rfl, rfl, rfl⟩
  · cases h
  · cases h

/-- What is found under a key is null or stands there. -/
theorem entry_made {key : String} {entries : List (String × Value)} :
    entry key entries = .null ∨ (key, entry key entries) ∈ entries := by
  unfold entry
  cases hlookup : entries.lookup key with
  | none => exact .inl rfl
  | some value =>
      obtain ⟨before, behind, rfl, -⟩ := List.lookup_eq_some_iff.1 hlookup
      exact .inr (by simp)

/-- What indexing gives is null or occurs in the collection. -/
theorem index_made {target position : Value} (h : index target position = .ok result) :
    result = .null ∨ result.Occurs target := by
  unfold index at h
  split at h
  · split at h
    · cases h
    · split at h
      · next hvalue =>
          cases h
          exact .inr (.element (List.mem_of_getElem? hvalue) .self)
      · cases h
  · cases h
    exact entry_made.imp id fun hmem => .entry hmem .self
  · cases h

theorem named_made {name : Name} {entries : List (String × Value)} :
    named name entries = .null ∨ ∃ key, (key, named name entries) ∈ entries := by
  cases name with
  | text key => exact entry_made.imp id fun hmem => ⟨key, hmem⟩
  | node _ => exact .inl rfl

/-- What member access gives is null, occurs in the owner or is the size of the owner. -/
theorem member_made {target : Value} {name : Name} (h : member target name = .ok result) :
    result = .null ∨ result.Occurs target ∨
      ∃ count, name = "length" ∧ target.size? = some count ∧ result = .integer count := by
  unfold member at h
  split at h
  · split at h
    · next hname =>
        cases h
        exact .inr (.inr ⟨_, hname, rfl, rfl⟩)
    · cases h
  · split at h
    · next hname =>
        cases h
        exact .inr (.inr ⟨_, hname, rfl, rfl⟩)
    · cases h
  · cases h
    exact named_made.imp id fun ⟨_, hmem⟩ => .inl (.entry hmem .self)
  · cases h

/-- Behind a new entry, an entry is the new one or was there before. -/
theorem mem_putEntry {key name : String} {value part : Value} :
    ∀ {entries : List (String × Value)}, (name, part) ∈ putEntry key value entries →
      part = value ∨ (name, part) ∈ entries
  | [], h => by
      rw [putEntry, List.mem_singleton, Prod.mk.injEq] at h
      exact .inl h.2
  | (other, old) :: entries, h => by
      rw [putEntry] at h
      split at h
      · rcases List.mem_cons.1 h with heq | hmem
        · exact .inl (Prod.mk.inj heq).2
        · exact .inr (List.mem_cons_of_mem _ hmem)
      · rcases List.mem_cons.1 h with heq | hmem
        · exact .inr (heq ▸ List.mem_cons_self)
        · exact (mem_putEntry hmem).imp id (List.mem_cons_of_mem _)

end Value

end Scriptlet
