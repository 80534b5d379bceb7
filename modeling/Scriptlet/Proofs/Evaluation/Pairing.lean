import Scriptlet.Eval.Node
import Scriptlet.Proofs.Lockstep
import Scriptlet.Proofs.Relocation.Values

/-!
# Pairs of evaluations

Two evaluations are compared that run the same code at different places, in stores that agree only
on some of their scopes, the visible ones. Every scope that is opened later is visible, a visible
scope has a visible parent, and its values hold functions from visible scopes only. `Stores` states
this of the two stores; the lemmas here say that each operation on a store keeps it.
-/

namespace Scriptlet

/-- Two evaluations to compare: how code is moved, which scopes are visible, and the two stores
they start in. -/
structure Pairing where
  move : Position → Position
  visible : ScopeId → Prop
  left : Store
  right : Store
  keeps : Keeps move
  opened : ∀ id, left.scopes.size ≤ id → visible id

namespace Pairing

variable (pairing : Pairing)

/-- All these scopes are visible. -/
def Within (ids : List ScopeId) : Prop :=
  ∀ id ∈ ids, pairing.visible id

/-- The second value is the first one with its code moved, and holds functions from visible scopes
only. -/
def Values (left right : Value) : Prop :=
  right = left.relocate pairing.move ∧ pairing.Within left.captured

/-- The same of two lists of values. -/
def Lists (left right : List Value) : Prop :=
  right = Value.relocateList pairing.move left ∧ pairing.Within (Value.capturedList left)

/-- The same of two lists of values under keys. -/
def Entries (left right : List (String × Value)) : Prop :=
  right = Value.relocateEntries pairing.move left ∧ pairing.Within (Value.capturedEntries left)

/-- The same of two optional values. -/
def Options (left right : Option Value) : Prop :=
  right = left.map (Value.relocate pairing.move) ∧ ∀ value ∈ left, pairing.Within value.captured

/-- The same of two exits. -/
inductive Exits : Exit → Exit → Prop where
  | returned {left right} : pairing.Values left right → Exits (.returned left) (.returned right)
  | failed {failure} : Exits (.failed failure) (.failed (failure.relocate pairing.move))
  | exhausted : Exits .exhausted .exhausted

/-- A fault is raised alike on both sides. -/
theorem Exits.raised (cause : Fault) :
    pairing.Exits (.failed (.raised cause)) (.failed (.raised cause)) := by
  have h : pairing.Exits (.failed (.raised cause)) _ := .failed
  rwa [Failure.relocate_raised] at h

/-- From a visible scope no step leads to an invisible one. -/
structure Inside (scope : Scope) : Prop where
  parent : ∀ parent ∈ scope.parent, pairing.visible parent
  values : pairing.Within (scope.captured)

/-- The stores have the same visible scopes but for places, and made the same steps. Invisible
scopes are as they were. -/
structure Stores (left right : Store) : Prop where
  size : right.scopes.size = left.scopes.size
  grown : pairing.left.scopes.size ≤ left.scopes.size
  fresh : right.fresh = left.fresh
  sink : right.sink = left.sink
  printed : ∃ calls : List (List Value),
    left.printed.toList = pairing.left.printed.toList ++ calls ∧
      right.printed.toList =
        pairing.right.printed.toList ++ calls.map (Value.relocateList pairing.move)
  seen : ∀ {id scope}, pairing.visible id → left.scopes[id]? = some scope →
    right.scopes[id]? = some (scope.relocate pairing.move) ∧ pairing.Inside scope
  hidden : ∀ {id}, ¬ pairing.visible id →
    left.scopes[id]? = pairing.left.scopes[id]? ∧ right.scopes[id]? = pairing.right.scopes[id]?

/-- The two evaluations go in lockstep. -/
abbrev Runs {α β : Type} (values : α → β → Prop) (left : Eval α) (right : Eval β) : Prop :=
  Lockstep pairing.Stores pairing.Exits values left right

section Reading

variable {pairing} {left right : Store} {id owner : ScopeId} {name : Name}

/-- A scope that is missing on one side is missing on the other. -/
theorem Stores.seen_none (h : pairing.Stores left right) (hnone : left.scopes[id]? = none) :
    right.scopes[id]? = none := by
  rw [Array.getElem?_eq_none_iff] at hnone ⊢
  rw [h.size]
  exact hnone

/-- A name belongs to the same scope in both stores. -/
theorem Stores.resolve (h : pairing.Stores left right) (hid : pairing.visible id) :
    right.resolve id name = left.resolve id name := by
  -- A parent was opened before its scope, so the identities go down.
  induction id using Nat.strongRecOn with
  | _ id ih =>
      rw [Store.resolve, Store.resolve]
      cases hscope : left.scopes[id]? with
      | none => rw [h.seen_none hscope]
      | some scope =>
          obtain ⟨hright, hinside⟩ := h.seen hid hscope
          rw [hright]
          simp only [Scope.declares_relocate]
          split
          · rfl
          · cases hparent : scope.parent with
            | none => simp only [Scope.relocate, hparent]
            | some parent =>
                simp only [Scope.relocate, hparent]
                split
                · next hless => exact ih parent hless (hinside.parent parent hparent)
                · rfl

/-- The scope that a name belongs to is visible. -/
theorem Stores.visible_of_resolve (h : pairing.Stores left right) (hid : pairing.visible id)
    (howner : left.resolve id name = some owner) : pairing.visible owner := by
  induction id using Nat.strongRecOn with
  | _ id ih =>
      rw [Store.resolve] at howner
      cases hscope : left.scopes[id]? with
      | none => rw [hscope] at howner; cases howner
      | some scope =>
          rw [hscope] at howner
          simp only at howner
          split at howner
          · cases howner; exact hid
          · cases hparent : scope.parent with
            | none => rw [hparent] at howner; cases howner
            | some parent =>
                rw [hparent] at howner
                simp only at howner
                split at howner
                · next hless =>
                    exact ih parent hless ((h.seen hid hscope).2.parent parent hparent) howner
                · cases howner

theorem options_none : pairing.Options none none :=
  ⟨rfl, fun _ hvalue => absurd hvalue (Option.not_mem_none _)⟩

/-- A name has the same value in both stores, but for places. -/
theorem Stores.lookup (h : pairing.Stores left right) (hid : pairing.visible id) :
    pairing.Options (left.lookup? id name) (right.lookup? id name) := by
  rw [Store.lookup?, Store.lookup?, h.resolve hid]
  cases howner : left.resolve id name with
  | none => exact options_none
  | some owner =>
      simp only
      cases hscope : left.scopes[owner]? with
      | none =>
          rw [h.seen_none hscope]
          exact options_none
      | some scope =>
          obtain ⟨hright, hinside⟩ := h.seen (h.visible_of_resolve hid howner) hscope
          rw [hright]
          refine ⟨Scope.find?_relocate pairing.move scope name, ?_⟩
          intro value hvalue captured hcaptured
          obtain ⟨before, behind, hbindings, -⟩ := List.lookup_eq_some_iff.1 hvalue
          refine hinside.values captured (Scope.mem_captured.2 ⟨(name, value), ?_, hcaptured⟩)
          rw [hbindings]
          simp

/-- A visible scope declares the same names on both sides. -/
theorem Stores.declares (h : pairing.Stores left right) (hid : pairing.visible id) :
    right.declares id name = left.declares id name := by
  rw [Store.declares, Store.declares]
  cases hscope : left.scopes[id]? with
  | none => rw [h.seen_none hscope]
  | some scope =>
      rw [(h.seen hid hscope).1]
      exact Scope.declares_relocate pairing.move scope name

end Reading

section Writing

variable {pairing} {left right : Store} {id : ScopeId} {name : Name} {value : Value}

/-- A visible scope may be changed in both stores alike. -/
theorem Stores.modify (h : pairing.Stores left right) (hid : pairing.visible id)
    {change other : Scope → Scope}
    (hchange : ∀ scope, pairing.Inside scope →
      other (scope.relocate pairing.move) = (change scope).relocate pairing.move ∧
        pairing.Inside (change scope)) :
    pairing.Stores { left with scopes := left.scopes.modify id change }
      { right with scopes := right.scopes.modify id other } where
  size := by simpa using h.size
  grown := by simpa using h.grown
  fresh := h.fresh
  sink := h.sink
  printed := h.printed
  seen := by
    intro place scope hplace hscope
    rw [Array.getElem?_modify] at hscope ⊢
    split
    · next heq =>
        subst heq
        rw [if_pos rfl] at hscope
        obtain ⟨old, hold, rfl⟩ := Option.map_eq_some_iff.1 hscope
        obtain ⟨hright, hinside⟩ := h.seen hid hold
        obtain ⟨hother, hchanged⟩ := hchange old hinside
        rw [hright, Option.map_some, hother]
        exact ⟨rfl, hchanged⟩
    · next hne =>
        rw [if_neg hne] at hscope
        exact h.seen hplace hscope
  hidden := by
    intro place hplace
    have hne : id ≠ place := by
      intro heq
      subst heq
      exact hplace hid
    rw [Array.getElem?_modify, Array.getElem?_modify, if_neg hne, if_neg hne]
    exact h.hidden hplace

/-- A name may be declared on both sides in a visible scope. -/
theorem Stores.append (h : pairing.Stores left right) (hid : pairing.visible id)
    (hvalue : pairing.Within value.captured) :
    pairing.Stores (left.append id name value)
      (right.append id name (value.relocate pairing.move)) := by
  refine h.modify hid fun scope hinside => ⟨Scope.append_relocate _ scope name value, ?_⟩
  refine ⟨hinside.parent, fun captured hcaptured => ?_⟩
  obtain ⟨binding, hbinding, hcaptured⟩ := Scope.mem_captured.1 hcaptured
  rcases List.mem_append.1 hbinding with hbinding | hbinding
  · exact hinside.values captured (Scope.mem_captured.2 ⟨binding, hbinding, hcaptured⟩)
  · rw [List.mem_singleton.1 hbinding] at hcaptured
    exact hvalue captured hcaptured

theorem Stores.write (h : pairing.Stores left right) (hid : pairing.visible id)
    (hvalue : pairing.Within value.captured) :
    pairing.Stores (left.write id name value)
      (right.write id name (value.relocate pairing.move)) := by
  refine h.modify hid fun scope hinside => ⟨Scope.replace_relocate _ scope name value, ?_⟩
  refine ⟨hinside.parent, fun captured hcaptured => ?_⟩
  obtain ⟨binding, hbinding, hcaptured⟩ := Scope.mem_captured.1 hcaptured
  obtain ⟨old, hold, rfl⟩ := List.mem_map.1 hbinding
  split at hcaptured
  · exact hvalue captured hcaptured
  · exact hinside.values captured (Scope.mem_captured.2 ⟨old, hold, hcaptured⟩)

/-- A scope that is opened inside a visible one is visible. -/
theorem Stores.openScope (h : pairing.Stores left right) (hid : pairing.visible id) :
    pairing.Stores (left.openScope (some id)).2 (right.openScope (some id)).2 where
  size := by simp [Store.openScope, h.size]
  grown := by simpa [Store.openScope] using Nat.le_succ_of_le h.grown
  fresh := h.fresh
  sink := h.sink
  printed := h.printed
  seen := by
    intro place scope hplace hscope
    simp only [Store.openScope] at hscope ⊢
    rw [Array.getElem?_push] at hscope ⊢
    rw [h.size]
    split at hscope
    · next heq =>
        cases hscope
        rw [if_pos heq]
        refine ⟨rfl, ?_, nofun⟩
        intro parent hparent
        cases hparent
        exact hid
    · next hne =>
        rw [if_neg hne]
        exact h.seen hplace hscope
  hidden := by
    intro place hplace
    -- An invisible scope was there at the start, so it is not the new one.
    have hless : place < left.scopes.size := by
      rcases Nat.lt_or_ge place left.scopes.size with hless | hge
      · exact hless
      · exact absurd (pairing.opened place (Nat.le_trans h.grown hge)) hplace
    simp only [Store.openScope]
    rw [Array.getElem?_push, Array.getElem?_push, h.size, if_neg (Nat.ne_of_lt hless),
      if_neg (Nat.ne_of_lt hless)]
    exact h.hidden hplace

/-- The next identity is the same on both sides. -/
theorem Stores.newId (h : pairing.Stores left right) :
    pairing.Stores left.newId.2 right.newId.2 :=
  { h with fresh := congrArg Nat.succ h.fresh }

theorem Stores.print (h : pairing.Stores left right) {arguments : List Value} :
    pairing.Stores { left with printed := left.printed.push arguments }
      { right with printed := right.printed.push (Value.relocateList pairing.move arguments) } := by
  obtain ⟨calls, hleft, hright⟩ := h.printed
  refine { h with printed := ⟨calls ++ [arguments], ?_, ?_⟩ }
  · rw [Array.toList_push, hleft, List.append_assoc]
  · rw [Array.toList_push, hright, List.map_append, List.append_assoc]
    rfl

end Writing

end Pairing

end Scriptlet
