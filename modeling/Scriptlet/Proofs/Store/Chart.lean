import Mathlib.Data.List.Dedup
import Scriptlet.Proofs.Evaluation.Growth

/-!
# Scopes as a chart of writes

The plain picture of nested scopes: a chart records which scope was opened inside which, and every
write in the order in which it happened. A name resolves to the nearest scope, from a given one
outward, in which it was ever written, and has the value that was written there last. The store
instead keeps one cell a name and looks for it link by link. Whatever operations are made on scopes,
both give the same answers (`store_follows_chart`), and each operation changes what the picture says
it changes and nothing else.
-/

namespace Scriptlet

/-- An operation on scopes. -/
inductive Operation where
  /-- Open a scope, inside another one or outermost. -/
  | openScope (parent : Option ScopeId)
  /-- Declare a name, with the value null. -/
  | declare (id : ScopeId) (name : Name)
  /-- Declare a name with a value. -/
  | define (id : ScopeId) (name : Name) (value : Value)
  /-- Give a name another value. -/
  | set (id : ScopeId) (name : Name) (value : Value)
  /-- Ask for the value of a name. -/
  | get (id : ScopeId) (name : Name)
  /-- Ask whether a name is in reach. -/
  | has (id : ScopeId) (name : Name)

/-- What an operation gives back. -/
inductive Answer where
  | scope (id : ScopeId)
  | done
  | value (value : Value)
  | found (found : Bool)

namespace Operation

/-- The scopes that the operation names are among the first `size` ones. -/
def isValid (size : Nat) : Operation → Bool
  | openScope parent => parent.all (· < size)
  | declare id _ => id < size
  | define id _ _ => id < size
  | set id _ _ => id < size
  | get id _ => id < size
  | has id _ => id < size

/-- The number of scopes that the operation opens. -/
def opened : Operation → Nat
  | openScope _ => 1
  | _ => 0

/-- Each operation names scopes that are there when its turn comes. -/
def areValid (size : Nat) : List Operation → Bool
  | [] => true
  | operation :: operations =>
      operation.isValid size && areValid (size + operation.opened) operations

end Operation

namespace Store

/-- The answer to a change that may be refused: a refused one leaves the store as it was. -/
def settle (store : Store) : Except Fault Store → Except Fault Answer × Store
  | .ok final => (.ok .done, final)
  | .error fault => (.error fault, store)

/-- Make one operation. -/
def perform (store : Store) : Operation → Except Fault Answer × Store
  | .openScope parent => (.ok (.scope (store.openScope parent).1), (store.openScope parent).2)
  | .declare id name => store.settle (store.declare id name .null)
  | .define id name value => store.settle (store.declare id name value)
  | .set id name value => store.settle (store.set id name value)
  | .get id name => ((store.get id name).map .value, store)
  | .has id name => (.ok (.found (store.has id name)), store)

/-- Make operations one behind the other. -/
def performAll (store : Store) : List Operation → List (Except Fault Answer) × Store
  | [] => ([], store)
  | operation :: operations =>
      let rest := (store.perform operation).2.performAll operations
      ((store.perform operation).1 :: rest.1, rest.2)

end Store

/-- The links between scopes and all writes, both with the latest first. -/
structure Chart where
  parents : List (Option ScopeId)
  writes : List (ScopeId × Name × Value)

namespace Chart

/-- The chart without scopes. -/
def empty : Chart := ⟨[], []⟩

/-- A scope and the scopes around it, from inside out, given the links with the latest first. -/
def lineage : List (Option ScopeId) → ScopeId → List ScopeId
  | [], _ => []
  | parent :: older, id =>
      if id = older.length then id :: parent.elim [] (lineage older) else lineage older id

/-- The name was written in the scope. -/
def declares (chart : Chart) (id : ScopeId) (name : Name) : Bool :=
  chart.writes.any fun write => write.1 = id && write.2.1 = name

/-- The nearest scope, from `id` outward, in which the name was written. -/
def resolve (chart : Chart) (id : ScopeId) (name : Name) : Option ScopeId :=
  (lineage chart.parents id).find? fun owner => chart.declares owner name

/-- The value that was written last for a name of a scope. -/
def latest? (chart : Chart) (id : ScopeId) (name : Name) : Option Value :=
  (chart.writes.find? fun write => write.1 = id && write.2.1 = name).map fun write => write.2.2

/-- The names of a scope in the order of their first write. -/
def names (chart : Chart) (id : ScopeId) : List Name :=
  ((chart.writes.filter fun write => write.1 = id).map fun write => write.2.1).dedup.reverse

/-- The chart with one more write. -/
def write (chart : Chart) (id : ScopeId) (name : Name) (value : Value) : Chart :=
  { chart with writes := (id, name, value) :: chart.writes }

/-- A name is first written in a scope where it was not written before. -/
def declare (chart : Chart) (id : ScopeId) (name : Name) (value : Value) :
    Except Fault Answer × Chart :=
  if chart.declares id name then
    (.error (.redeclared name), chart)
  else
    (.ok .done, chart.write id name value)

/-- One operation in the plain picture. -/
def perform (chart : Chart) : Operation → Except Fault Answer × Chart
  | .openScope parent =>
      (.ok (.scope chart.parents.length), { chart with parents := parent :: chart.parents })
  | .declare id name => chart.declare id name .null
  | .define id name value => chart.declare id name value
  | .set id name value =>
      match chart.resolve id name with
      | none => (.error (.unbound name), chart)
      | some owner => (.ok .done, chart.write owner name value)
  | .get id name =>
      match (chart.resolve id name).bind fun owner => chart.latest? owner name with
      | none => (.error (.unbound name), chart)
      | some value => (.ok (.value value), chart)
  | .has id name => (.ok (.found (chart.resolve id name).isSome), chart)

/-- Operations one behind the other. -/
def performAll (chart : Chart) : List Operation → List (Except Fault Answer) × Chart
  | [] => ([], chart)
  | operation :: operations =>
      let rest := (chart.perform operation).2.performAll operations
      ((chart.perform operation).1 :: rest.1, rest.2)

section Writes

variable {chart : Chart} {id other : ScopeId} {name text : Name} {value : Value}

/-- What is written is declared from then on. -/
theorem declares_write : (chart.write other text value).declares id name =
    (decide (other = id ∧ text = name) || chart.declares id name) := by
  simp [declares, write]

/-- Of the values written to a name of a scope, the last one counts. -/
theorem latest?_write : (chart.write other text value).latest? id name =
    if other = id ∧ text = name then some value else chart.latest? id name := by
  by_cases h : other = id ∧ text = name
  · simp [latest?, write, h]
  · rw [if_neg h, latest?, write, List.find?_cons_of_neg (by simpa using h), latest?]

/-- A scope has values for the names that it declares. -/
theorem isSome_latest? : (chart.latest? id name).isSome = chart.declares id name := by
  rw [Bool.eq_iff_iff, latest?, Option.isSome_map, List.find?_isSome, declares, List.any_eq_true]

/-- The names of a scope are those that it declares. -/
theorem mem_names : name ∈ chart.names id ↔ chart.declares id name = true := by
  simp [names, declares, and_comm]

theorem names_write_of_ne (h : other ≠ id) :
    (chart.write other text value).names id = chart.names id := by
  simp [names, write, h]

/-- Writing a name again adds none. -/
theorem names_write_of_declares (h : chart.declares id text = true) :
    (chart.write id text value).names id = chart.names id := by
  rw [← mem_names, names, List.mem_reverse, List.mem_dedup] at h
  simp [names, write, List.dedup_cons_of_mem h]

/-- A name that is written for the first time comes last. -/
theorem names_write_of_not_declares (h : chart.declares id text = false) :
    (chart.write id text value).names id = chart.names id ++ [text] := by
  have hnew : text ∉ chart.names id := by simp [mem_names, h]
  rw [names, List.mem_reverse, List.mem_dedup] at hnew
  simp [names, write, List.dedup_cons_of_notMem hnew]

/-- The nearest scope for which one of two tests holds, unless it is a scope that only the first
one holds for. -/
theorem find?_or_eq {scopes : List ScopeId} {test : ScopeId → Bool}
    (h : (scopes.find? fun id => decide (other = id) || test id) ≠ some other) :
    (scopes.find? fun id => decide (other = id) || test id) = scopes.find? test := by
  induction scopes with
  | nil => rfl
  | cons first scopes ih =>
      rw [List.find?_cons] at h
      rw [List.find?_cons, List.find?_cons]
      by_cases hfirst : other = first
      · simp [hfirst] at h
      · rw [decide_eq_false hfirst, Bool.false_or] at h ⊢
        cases htest : test first with
        | true => rfl
        | false =>
            rw [htest] at h
            exact ih h

theorem declares_of_resolve (h : chart.resolve id name = some other) :
    chart.declares other name = true := by
  have hfound := List.find?_some h
  exact hfound

/-- A name has a value where it resolves. -/
theorem exists_latest? (h : chart.resolve id name = some other) :
    ∃ value, chart.latest? other name = some value := by
  rw [← Option.isSome_iff_exists, isSome_latest?]
  exact declares_of_resolve h

/-- Writing one name does not change where the others are found. -/
theorem resolve_write_of_ne (h : text ≠ name) :
    (chart.write other text value).resolve id name = chart.resolve id name := by
  rw [resolve, resolve]
  simp only [declares_write, h, and_false, decide_false, Bool.false_or]
  rfl

/-- A write where a name was written before changes no resolution. -/
theorem resolve_write_of_declares (h : chart.declares other text = true) :
    (chart.write other text value).resolve id name = chart.resolve id name := by
  have hdeclares (owner : ScopeId) :
      (chart.write other text value).declares owner name = chart.declares owner name := by
    rw [declares_write, Bool.or_eq_right_iff_imp]
    intro hsame
    obtain ⟨rfl, rfl⟩ := of_decide_eq_true hsame
    exact h
  rw [resolve, resolve]
  simp only [hdeclares]
  rfl

/-- A write changes the resolution of its name only to its own scope. -/
theorem resolve_write_of_ne_owner
    (h : (chart.write other name value).resolve id name ≠ some other) :
    (chart.write other name value).resolve id name = chart.resolve id name := by
  rw [resolve] at h ⊢
  simp only [declares_write, and_true] at h ⊢
  exact find?_or_eq h

end Writes

section Links

/-- The scope around a scope, given the links with the latest first. -/
def parentOf : List (Option ScopeId) → ScopeId → Option ScopeId
  | [], _ => none
  | parent :: older, id => if id = older.length then parent else parentOf older id

/-- Every scope was opened inside an older one. -/
def Older : List (Option ScopeId) → Prop
  | [] => True
  | parent :: older => (∀ outer ∈ parent, outer < older.length) ∧ Older older

variable {parents : List (Option ScopeId)} {id outer : ScopeId}

/-- A parent is older than the scope inside it. -/
theorem parentOf_lt (h : Older parents) (hparent : parentOf parents id = some outer) :
    outer < id := by
  induction parents with
  | nil => cases hparent
  | cons parent older ih =>
      rw [parentOf] at hparent
      split at hparent
      · next hid =>
          rw [hid]
          exact h.1 outer hparent
      · exact ih h.2 hparent

/-- A scope that is not there yet has no lineage. -/
theorem lineage_of_length_le (h : parents.length ≤ id) : lineage parents id = [] := by
  induction parents with
  | nil => rfl
  | cons parent older ih =>
      rw [List.length_cons] at h
      rw [lineage, if_neg (Nat.ne_of_gt h)]
      exact ih (Nat.le_of_succ_le h)

/-- A later link does not matter for the scopes before it. -/
theorem lineage_cons_of_lt {parent : Option ScopeId} (h : id < parents.length) :
    lineage (parent :: parents) id = lineage parents id := by
  rw [lineage, if_neg (Nat.ne_of_lt h)]

/-- The lineage of a scope is the scope and the lineage of the one around it. -/
theorem lineage_eq (h : Older parents) (hid : id < parents.length) :
    lineage parents id = id :: (parentOf parents id).elim [] (lineage parents) := by
  induction parents with
  | nil => cases hid
  | cons parent older ih =>
      by_cases hlast : id = older.length
      · rw [lineage, if_pos hlast, parentOf, if_pos hlast]
        cases parent with
        | none => rfl
        | some outer => rw [Option.elim_some, Option.elim_some, lineage_cons_of_lt (h.1 outer rfl)]
      · have hless : id < older.length := Nat.lt_of_le_of_ne (Nat.le_of_lt_succ hid) hlast
        rw [lineage_cons_of_lt hless, ih h.2 hless, parentOf, if_neg hlast]
        cases hparent : parentOf older id with
        | none => rfl
        | some outer =>
            have houter := parentOf_lt h.2 hparent
            rw [Option.elim_some, Option.elim_some, lineage_cons_of_lt (Nat.lt_trans houter hless)]

end Links

end Chart

namespace Scope

/-- In a scope to which a name was appended, older bindings come first. -/
theorem find?_append (scope : Scope) (text name : Name) (value : Value) :
    (scope.append text value).find? name =
      (scope.find? name).or (if text = name then some value else none) := by
  rw [find?, append, List.lookup_append, find?, List.lookup_cons, List.lookup_nil]
  by_cases h : text = name
  · simp [h]
  · rw [if_neg h, beq_false_of_ne (Ne.symm h)]

/-- In a scope whose value was replaced, the name has the new one. -/
theorem find?_replace (scope : Scope) (text name : Name) (value : Value) :
    (scope.replace text value).find? name =
      if text = name then (scope.find? name).map fun _ => value else scope.find? name := by
  obtain ⟨parent, bindings⟩ := scope
  simp only [find?, replace]
  induction bindings with
  | nil => split <;> rfl
  | cons binding bindings ih =>
      obtain ⟨key, old⟩ := binding
      rw [List.map_cons]
      by_cases hkey : key = text
      · subst hkey
        rw [if_pos rfl, List.lookup_cons, List.lookup_cons, ih]
        by_cases hname : key = name
        · simp [hname]
        · rw [beq_false_of_ne (Ne.symm hname), if_neg hname]
      · rw [if_neg hkey, List.lookup_cons, List.lookup_cons, ih]
        by_cases hname : name = key
        · subst hname
          simp only [if_neg (Ne.symm hkey), beq_self_eq_true]
        · rw [beq_false_of_ne hname]

end Scope

namespace Store

/-- The value that a scope itself gives a name. -/
def cell? (store : Store) (id : ScopeId) (name : Name) : Option Value :=
  store.scopes[id]?.bind fun scope => scope.find? name

/-- The store holds what the chart shows. -/
structure Agrees (store : Store) (chart : Chart) : Prop where
  size : store.scopes.size = chart.parents.length
  older : Chart.Older chart.parents
  parent : ∀ id, store.parent? id = Chart.parentOf chart.parents id
  cell : ∀ id name, store.cell? id name = chart.latest? id name
  names : ∀ id, store.names id = chart.names id

variable {store : Store} {chart : Chart} {id owner : ScopeId} {name : Name} {value : Value}

/-- A scope declares the names that it has cells for. -/
theorem declares_eq : store.declares id name = (store.cell? id name).isSome := by
  rw [declares, cell?]
  cases store.scopes[id]? <;> rfl

/-- A store and a chart that agree declare the same names. -/
theorem Agrees.declares (h : store.Agrees chart) :
    store.declares id name = chart.declares id name := by
  rw [declares_eq, h.cell, Chart.isSome_latest?]

/-- A name is found in the scope itself or else through its parent. -/
theorem resolve_eq : store.resolve id name =
    if store.declares id name then some id else
      match store.parent? id with
      | none => none
      | some outer => if outer < id then store.resolve outer name else none := by
  rw [resolve, Store.declares, parent?]
  cases store.scopes[id]? with
  | none => rfl
  | some scope => rfl

/-- A name resolves to the same scope in the store and in the chart. -/
theorem Agrees.resolve (h : store.Agrees chart) (id : ScopeId) (name : Name) :
    store.resolve id name = chart.resolve id name := by
  induction id using Nat.strongRecOn with
  | _ id ih =>
      by_cases hid : id < chart.parents.length
      · rw [resolve_eq, h.declares, h.parent, Chart.resolve, Chart.lineage_eq h.older hid,
          List.find?_cons]
        cases chart.declares id name with
        | true => rfl
        | false =>
            cases hparent : Chart.parentOf chart.parents id with
            | none => rfl
            | some outer =>
                have houter := Chart.parentOf_lt h.older hparent
                simp only [Bool.false_eq_true, if_false, if_pos houter]
                exact ih outer houter
      · have hnone : store.scopes[id]? = none := by
          rw [Array.getElem?_eq_none_iff, h.size]
          exact Nat.le_of_not_lt hid
        rw [Store.resolve, hnone, Chart.resolve, Chart.lineage_of_length_le (Nat.le_of_not_lt hid)]
        rfl

/-- The value of a name is that of its cell where the name is found. -/
theorem lookup?_eq : store.lookup? id name =
    (store.resolve id name).bind fun owner => store.cell? owner name := by
  unfold lookup? cell?
  cases store.resolve id name with
  | none => rfl
  | some owner =>
      simp only [Option.bind_some]
      cases store.scopes[owner]? <;> rfl

/-- The value of a name is the one that was written last where it resolves. -/
theorem Agrees.lookup (h : store.Agrees chart) (id : ScopeId) (name : Name) :
    store.lookup? id name = (chart.resolve id name).bind fun owner => chart.latest? owner name := by
  simp only [lookup?_eq, h.resolve, h.cell]

section Changes

/-- The value of a name in a changed scope. -/
theorem cell?_modify {change : Scope → Scope} {other : ScopeId} :
    cell? { store with scopes := store.scopes.modify other change } id name =
      if other = id then store.scopes[id]?.bind fun scope => (change scope).find? name
      else store.cell? id name := by
  simp only [cell?, Array.getElem?_modify]
  split
  · cases store.scopes[id]? <;> rfl
  · rfl

/-- A declaration keeps the parents. -/
theorem parent?_append : (store.append owner name value).parent? id = store.parent? id :=
  parent?_modify fun _ => rfl

theorem parent?_write : (store.write owner name value).parent? id = store.parent? id :=
  parent?_modify fun _ => rfl

/-- A declared name that is given another value has it, and every other cell is as it was. -/
theorem cell?_write_eq (h : (store.cell? owner name).isSome = true) (id : ScopeId)
    (text : Name) : (store.write owner name value).cell? id text =
      if owner = id ∧ name = text then some value else store.cell? id text := by
  rw [write, cell?_modify]
  by_cases hid : owner = id
  · subst hid
    obtain ⟨old, hold⟩ := Option.isSome_iff_exists.1 h
    obtain ⟨scope, hscope, hfind⟩ := Option.bind_eq_some_iff.1 hold
    rw [if_pos rfl, cell?, hscope, Option.bind_some, Option.bind_some, Scope.find?_replace]
    by_cases htext : name = text
    · subst htext
      rw [if_pos rfl, if_pos ⟨rfl, rfl⟩, hfind]
      rfl
    · rw [if_neg htext, if_neg fun hboth => htext hboth.2]
  · rw [if_neg hid, if_neg fun hboth => hid hboth.1]

/-- A scope is opened. -/
theorem Agrees.openScope (h : store.Agrees chart) {parent : Option ScopeId}
    (hparent : ∀ outer ∈ parent, outer < chart.parents.length) :
    (store.openScope parent).2.Agrees { chart with parents := parent :: chart.parents } where
  size := by
    rw [Store.openScope, Array.size_push, h.size]
    rfl
  older := ⟨hparent, h.older⟩
  parent id := by
    rw [Store.openScope, parent?, Array.getElem?_push, Chart.parentOf, ← h.parent, h.size]
    split <;> rfl
  cell id name := by
    have hcell := h.cell id name
    rw [Store.openScope, cell?, Array.getElem?_push]
    split
    · next hid =>
        rw [cell?, hid, Array.getElem?_size, ← hid] at hcell
        exact hcell
    · exact hcell
  names id := by
    have hnames := h.names id
    rw [Store.openScope, Store.names, Array.getElem?_push]
    split
    · next hid =>
        rw [Store.names, hid, Array.getElem?_size, ← hid] at hnames
        exact hnames
    · exact hnames

/-- A name is declared. -/
theorem Agrees.append (h : store.Agrees chart) (hid : id < store.scopes.size)
    (hnew : chart.declares id name = false) :
    (store.append id name value).Agrees (chart.write id name value) where
  size := Array.size_modify.trans h.size
  older := h.older
  parent other := by
    rw [parent?_append]
    exact h.parent other
  cell other text := by
    rw [Store.append, cell?_modify, Chart.latest?_write, ← h.cell]
    by_cases hother : id = other
    · subst hother
      have hfree : store.cell? id name = none := by
        rw [h.cell, ← Option.not_isSome_iff_eq_none, Chart.isSome_latest?, hnew]
        exact Bool.false_ne_true
      rw [if_pos rfl, cell?, Array.getElem?_eq_getElem hid, Option.bind_some, Option.bind_some,
        Scope.find?_append]
      rw [cell?, Array.getElem?_eq_getElem hid, Option.bind_some] at hfree
      by_cases htext : name = text
      · subst htext
        simp [hfree]
      · simp [htext]
    · simp [hother]
  names other := by
    by_cases hother : other = id
    · rw [hother, names_append_self hid, h.names, Chart.names_write_of_not_declares hnew]
    · rw [names_append_of_ne hother, h.names, Chart.names_write_of_ne (Ne.symm hother)]

/-- A name that is declared gets another value. -/
theorem Agrees.write (h : store.Agrees chart) (hdeclares : chart.declares owner name = true) :
    (store.write owner name value).Agrees (chart.write owner name value) where
  size := Array.size_modify.trans h.size
  older := h.older
  parent other := by
    rw [parent?_write]
    exact h.parent other
  cell other text := by
    have hbound : (store.cell? owner name).isSome = true := by
      rw [h.cell, Chart.isSome_latest?, hdeclares]
    rw [cell?_write_eq hbound, Chart.latest?_write, ← h.cell]
  names other := by
    rw [names_write, h.names]
    by_cases hother : owner = other
    · rw [hother] at hdeclares ⊢
      rw [Chart.names_write_of_declares hdeclares]
    · rw [Chart.names_write_of_ne hother]

end Changes

section Steps

theorem Agrees.empty (sink : Sink) : (Store.empty sink).Agrees .empty where
  size := rfl
  older := trivial
  parent _ := rfl
  cell _ _ := rfl
  names _ := rfl

/-- Declaring a name answers as the chart says and keeps the agreement. -/
theorem Agrees.declare (h : store.Agrees chart) (hid : id < store.scopes.size) :
    (store.settle (store.declare id name value)).1 = (chart.declare id name value).1 ∧
      (store.settle (store.declare id name value)).2.Agrees (chart.declare id name value).2 := by
  rw [Store.declare, h.declares, Chart.declare]
  cases hdeclares : chart.declares id name with
  | true => exact ⟨rfl, h⟩
  | false => exact ⟨rfl, h.append hid hdeclares⟩

/-- One operation on the store and in the chart. -/
theorem Agrees.perform (h : store.Agrees chart) {operation : Operation}
    (hvalid : operation.isValid store.scopes.size = true) :
    (store.perform operation).1 = (chart.perform operation).1 ∧
      (store.perform operation).2.Agrees (chart.perform operation).2 := by
  cases operation with
  | openScope parent =>
      refine ⟨?_, h.openScope fun outer houter => ?_⟩
      · rw [Store.perform, Chart.perform, Store.openScope, h.size]
      · rw [← h.size]
        rw [Operation.isValid, houter] at hvalid
        exact of_decide_eq_true hvalid
  | declare id name => exact h.declare (of_decide_eq_true hvalid)
  | define id name value => exact h.declare (of_decide_eq_true hvalid)
  | set id name value =>
      rw [Store.perform, Store.set, h.resolve, Chart.perform]
      cases hresolve : chart.resolve id name with
      | none => exact ⟨rfl, h⟩
      | some owner => exact ⟨rfl, h.write (Chart.declares_of_resolve hresolve)⟩
  | get id name =>
      rw [Store.perform, Store.get, h.lookup, Chart.perform]
      cases (chart.resolve id name).bind fun owner => chart.latest? owner name with
      | none => exact ⟨rfl, h⟩
      | some value => exact ⟨rfl, h⟩
  | has id name =>
      rw [Store.perform, Store.has, h.resolve, Chart.perform]
      exact ⟨rfl, h⟩

/-- The operations that open a scope add one, the others none. -/
theorem size_perform (store : Store) (operation : Operation) :
    (store.perform operation).2.scopes.size = store.scopes.size + operation.opened := by
  cases operation with
  | openScope parent => exact Array.size_push _
  | get | has => rfl
  | declare id name | define id name value =>
      rw [Store.perform, Store.declare]
      split
      · rfl
      · exact Array.size_modify
  | set id name value =>
      rw [Store.perform, Store.set]
      split
      · rfl
      · exact Array.size_modify

/-- Any run of operations on the store and in the chart. -/
theorem Agrees.performAll (h : store.Agrees chart) {operations : List Operation}
    (hvalid : Operation.areValid store.scopes.size operations = true) :
    (store.performAll operations).1 = (chart.performAll operations).1 ∧
      (store.performAll operations).2.Agrees (chart.performAll operations).2 := by
  induction operations generalizing store chart with
  | nil => exact ⟨rfl, h⟩
  | cons operation operations ih =>
      rw [Operation.areValid, Bool.and_eq_true] at hvalid
      obtain ⟨hanswer, hagrees⟩ := h.perform hvalid.1
      rw [← size_perform] at hvalid
      obtain ⟨hanswers, hlast⟩ := ih hagrees hvalid.2
      rw [Store.performAll, Chart.performAll]
      exact ⟨by rw [hanswer, hanswers], hlast⟩

end Steps

section Laws

/-- The second store differs from the first one in the value of one name of one scope. Who resolves
the name there sees the new value; nothing else can be told apart. -/
structure Rebound (chart : Chart) (owner : ScopeId) (name : Name) (value : Value)
    (store final : Store) : Prop where
  bindings : ∀ id, final.bindings id = (store.bindings id).map fun binding =>
    if owner = id ∧ binding.1 = name then (binding.1, value) else binding
  parent : ∀ id, final.parent? id = store.parent? id
  names : ∀ id, final.names id = store.names id
  has : ∀ id other, final.has id other = store.has id other
  here : ∀ id, chart.resolve id name = some owner → final.get id name = .ok value
  elsewhere : ∀ id other, other ≠ name ∨ chart.resolve id other ≠ some owner →
    final.get id other = store.get id other

/-- The second store differs from the first one in a last binding of one scope. Who now resolves the
name there sees its value; nothing else can be told apart. -/
structure Extended (chart : Chart) (owner : ScopeId) (name : Name) (value : Value)
    (store final : Store) : Prop where
  bindings : ∀ id, final.bindings id =
    store.bindings id ++ if owner = id then [(name, value)] else []
  parent : ∀ id, final.parent? id = store.parent? id
  names : ∀ id, final.names id = store.names id ++ if owner = id then [name] else []
  here : ∀ id, (chart.write owner name value).resolve id name = some owner →
    final.get id name = .ok value
  elsewhere : ∀ id other,
    other ≠ name ∨ (chart.write owner name value).resolve id other ≠ some owner →
    final.get id other = store.get id other ∧ final.has id other = store.has id other

/-- What each operation on the store does, told by the chart. -/
structure Follows (store : Store) (chart : Chart) : Prop where
  /-- A scope has the names that were written in it, in the order of their first write. -/
  names : ∀ id, store.names id = chart.names id
  /-- A name is in reach where it resolves. -/
  has : ∀ id name, store.has id name = true ↔ ∃ owner, chart.resolve id name = some owner
  /-- A name has the value that was last written where it resolves. -/
  get : ∀ id name owner, chart.resolve id name = some owner →
    ∃ value, chart.latest? owner name = some value ∧ store.get id name = .ok value
  /-- A name that does not resolve has none. -/
  unbound : ∀ id name fault, store.get id name = .error fault ↔
    chart.resolve id name = none ∧ fault = .unbound name
  /-- An assignment changes the name where it resolves. -/
  set : ∀ id name value owner, chart.resolve id name = some owner →
    ∃ final, store.set id name value = .ok final ∧ Rebound chart owner name value store final
  /-- An assignment to a name that does not resolve is refused. -/
  unset : ∀ id name value fault, store.set id name value = .error fault ↔
    chart.resolve id name = none ∧ fault = .unbound name
  /-- A declaration adds a last name to its scope. -/
  declare : ∀ id name value, id < store.scopes.size → name ∉ store.names id →
    ∃ final, store.declare id name value = .ok final ∧ Extended chart id name value store final
  /-- A second declaration is refused. -/
  redeclared : ∀ id name value fault, store.declare id name value = .error fault ↔
    name ∈ store.names id ∧ fault = .redeclared name
  /-- An operation that is refused changes nothing. -/
  refused : ∀ operation fault, (store.perform operation).1 = .error fault →
    (store.perform operation).2 = store

/-- Writing replaces the value in the one binding, in its place. -/
theorem bindings_write : (store.write owner name value).bindings id =
    (store.bindings id).map fun binding =>
      if owner = id ∧ binding.1 = name then (binding.1, value) else binding := by
  simp only [bindings, write, Array.getElem?_modify]
  by_cases hid : owner = id
  · cases store.scopes[id]? with
    | none => simp [hid]
    | some scope => simp [hid, Scope.replace]
  · simp [hid]

/-- Appending adds one binding, behind the others. -/
theorem bindings_append (hid : owner < store.scopes.size) :
    (store.append owner name value).bindings id =
      store.bindings id ++ if owner = id then [(name, value)] else [] := by
  simp only [bindings, append, Array.getElem?_modify]
  by_cases hsame : owner = id
  · subst hsame
    simp [Array.getElem?_eq_getElem hid, Scope.append]
  · simp [hsame]

/-- Writing a declared name changes the store and the chart in one value. -/
theorem Agrees.rebound (h : store.Agrees chart) (hdeclares : chart.declares owner name = true) :
    Rebound chart owner name value store (store.write owner name value) := by
  have hfinal : (store.write owner name value).Agrees (chart.write owner name value) :=
    h.write hdeclares
  have hresolve (id : ScopeId) (other : Name) :
      (chart.write owner name value).resolve id other = chart.resolve id other :=
    Chart.resolve_write_of_declares hdeclares
  refine ⟨fun _ => bindings_write, fun _ => parent?_write, fun _ => names_write,
    fun id other => ?_, fun id hid => ?_, fun id other hother => ?_⟩
  · rw [Store.has, hfinal.resolve, hresolve, Store.has, h.resolve]
  · rw [Store.get, hfinal.lookup, hresolve, hid, Option.bind_some, Chart.latest?_write,
      if_pos ⟨rfl, rfl⟩]
  · have hlookup : (store.write owner name value).lookup? id other = store.lookup? id other := by
      rw [hfinal.lookup, hresolve, h.lookup]
      cases hplace : chart.resolve id other with
      | none => rfl
      | some place =>
          rw [Option.bind_some, Option.bind_some, Chart.latest?_write, if_neg]
          rintro ⟨rfl, rfl⟩
          exact hother.elim (fun hname => hname rfl) fun howner => howner hplace
    rw [Store.get, hlookup, Store.get]

/-- Writing a new name extends the store and the chart by one name. -/
theorem Agrees.extended (h : store.Agrees chart) (hid : owner < store.scopes.size)
    (hnew : chart.declares owner name = false) :
    Extended chart owner name value store (store.append owner name value) := by
  have hfinal : (store.append owner name value).Agrees (chart.write owner name value) :=
    h.append hid hnew
  refine ⟨fun _ => bindings_append hid, fun _ => parent?_append, fun id => ?_, fun id hplace => ?_,
    fun id other hother => ?_⟩
  · by_cases hsame : owner = id
    · subst hsame
      rw [names_append_self hid, if_pos rfl]
    · rw [names_append_of_ne (Ne.symm hsame), if_neg hsame, List.append_nil]
  · rw [Store.get, hfinal.lookup, hplace, Option.bind_some, Chart.latest?_write, if_pos ⟨rfl, rfl⟩]
  · have hresolve : (chart.write owner name value).resolve id other = chart.resolve id other := by
      by_cases hname : name = other
      · subst hname
        exact Chart.resolve_write_of_ne_owner (hother.resolve_left fun hne => hne rfl)
      · exact Chart.resolve_write_of_ne hname
    have hlookup : (store.append owner name value).lookup? id other = store.lookup? id other := by
      rw [hfinal.lookup, hresolve, h.lookup]
      cases hplace : chart.resolve id other with
      | none => rfl
      | some place =>
          rw [Option.bind_some, Option.bind_some, Chart.latest?_write, if_neg]
          rintro ⟨rfl, rfl⟩
          rw [hresolve, hplace] at hother
          exact hother.elim (fun hne => hne rfl) fun hne => hne rfl
    refine ⟨by rw [Store.get, hlookup, Store.get], ?_⟩
    rw [Store.has, hfinal.resolve, hresolve, Store.has, h.resolve]

/-- An operation that is refused leaves the store as it is. -/
theorem settle_refused {result : Except Fault Store} {fault : Fault}
    (h : (store.settle result).1 = .error fault) : (store.settle result).2 = store := by
  cases result with
  | ok final => cases h
  | error cause => rfl

/-- A store that agrees with a chart follows it. -/
theorem Agrees.follows (h : store.Agrees chart) : store.Follows chart where
  names := h.names
  has id name := by rw [Store.has, h.resolve, Option.isSome_iff_exists]
  get id name owner hplace := by
    obtain ⟨value, hvalue⟩ := Chart.exists_latest? hplace
    refine ⟨value, hvalue, ?_⟩
    rw [Store.get, h.lookup, hplace, Option.bind_some, hvalue]
  unbound id name fault := by
    rw [Store.get, h.lookup]
    cases hplace : chart.resolve id name with
    | none => simp [eq_comm]
    | some owner =>
        obtain ⟨value, hvalue⟩ := Chart.exists_latest? hplace
        simp [hvalue]
  set id name value owner hplace := by
    refine ⟨store.write owner name value, ?_, h.rebound (Chart.declares_of_resolve hplace)⟩
    rw [Store.set, h.resolve, hplace]
  unset id name value fault := by
    rw [Store.set, h.resolve]
    cases chart.resolve id name with
    | none => simp [eq_comm]
    | some owner => simp
  declare id name value hid hnew := by
    have hfree : chart.declares id name = false := by
      rw [h.names, Chart.mem_names, Bool.not_eq_true] at hnew
      exact hnew
    refine ⟨store.append id name value, ?_, h.extended hid hfree⟩
    rw [Store.declare, h.declares, hfree]
    rfl
  redeclared id name value fault := by
    rw [Store.declare, h.declares, h.names, Chart.mem_names]
    cases chart.declares id name with
    | true => simp [eq_comm]
    | false => simp
  refused operation fault hrefused := by
    cases operation with
    | openScope => cases hrefused
    | get | has => rfl
    | declare | define | set => exact settle_refused hrefused

end Laws

end Store

/-- After any run of operations on scopes, each naming scopes that are there: the answers were those
of the chart, and every further operation reads and changes what the chart says, where a name
resolves to the nearest scope outward in which it was written. -/
theorem store_follows_chart (sink : Sink) (operations : List Operation)
    (hvalid : Operation.areValid 0 operations = true) :
    let ran := (Store.empty sink).performAll operations
    let model := Chart.empty.performAll operations
    ran.1 = model.1 ∧ ran.2.Follows model.2 ∧
      ∀ name : String, (Fault.unbound name).message = "identifier not found: " ++ name := by
  intro ran model
  obtain ⟨hanswers, hagrees⟩ := (Store.Agrees.empty sink).performAll hvalid
  exact ⟨hanswers, hagrees.follows, fun _ => rfl⟩

/-- A name that is shadowed in between: the outer one is written and read from both branches before,
and past the inner one from the other branch after. -/
theorem store_follows_chart_shadowed :
    let operations : List Operation := [.openScope none, .openScope (some 0), .openScope (some 0),
      .openScope (some 1), .define 0 "x" (.integer 1), .set 3 "x" (.integer 2), .declare 1 "x"]
    Operation.areValid 0 operations = true ∧
    let store := ((Store.empty .recording).performAll operations).2
    store.get 3 "x" = .ok .null ∧ store.get 2 "x" = .ok (.integer 2) ∧
    ∃ final, store.set 3 "x" (.integer 5) = .ok final ∧ final.get 1 "x" = .ok (.integer 5) ∧
      final.get 2 "x" = store.get 2 "x" := by
  intro operations
  refine ⟨rfl, ?_⟩
  intro store
  obtain ⟨-, hfollows, -⟩ := store_follows_chart .recording operations rfl
  obtain ⟨inner, hinner, hget⟩ := hfollows.get 3 "x" 1 rfl
  obtain ⟨outer, houter, hread⟩ := hfollows.get 2 "x" 0 rfl
  obtain ⟨final, hset, hrebound⟩ := hfollows.set 3 "x" (.integer 5) 1 rfl
  cases hinner
  cases houter
  refine ⟨hget, hread, final, hset, hrebound.here 1 rfl, hrebound.elsewhere 2 "x" (.inr ?_)⟩
  decide

end Scriptlet
