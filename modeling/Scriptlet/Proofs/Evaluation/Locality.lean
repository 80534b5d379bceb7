import Scriptlet.Proofs.Evaluation.Simulation

/-!
# Evaluation is local

An evaluation neither writes nor reads a scope that cannot be reached from the one it runs in, over
parents and over the scopes that functions in its bindings were written in. `eval_local` states both
halves: unreachable scopes stay as they are, and stores that agree on the reachable ones give the
same outcome and the same prints and agree on all that is reachable afterwards.
-/

namespace Scriptlet

/-- The scopes that can be reached from some of the store's scopes. -/
inductive Store.Reaches (store : Store) (roots : List ScopeId) : ScopeId → Prop where
  | root {id} : id ∈ roots → Reaches store roots id
  | parent {id scope parent} :
      Reaches store roots id → store.scopes[id]? = some scope → scope.parent = some parent →
      Reaches store roots parent
  | captured {id scope captured} :
      Reaches store roots id → store.scopes[id]? = some scope →
      captured ∈ scope.captured → Reaches store roots captured

namespace Eval

/-- How an evaluation ended: with a value or with an exit. -/
def ending : EStateM.Result Exit Store Value → Except Exit Value
  | .ok value _ => .ok value
  | .error exit _ => .error exit

/-- The store at the end of an evaluation. -/
def final : EStateM.Result Exit Store Value → Store
  | .ok _ store => store
  | .error _ store => store

/-- The scopes that functions in the outcome of an evaluation were written in. -/
def captured : Except Exit Value → List ScopeId
  | .ok value => value.captured
  | .error (.returned value) => value.captured
  | .error _ => []

end Eval

namespace Pairing

/-- Two evaluations of the same code from a scope, in stores that agree on what it reaches. -/
def reaching (left right : Store) (scope : ScopeId) : Pairing where
  move := id
  visible id := left.Reaches [scope] id ∨ left.scopes.size ≤ id
  left := left
  right := right
  keeps _ := Iff.rfl
  opened _ := .inr

variable {left right : Store} {scope : ScopeId}

/-- A scope reaches itself. -/
theorem visible_reaching : (reaching left right scope).visible scope :=
  .inl (.root (List.mem_singleton.2 rfl))

/-- Stores that agree on what is reachable are paired. -/
theorem stores_reaching (hsize : right.scopes.size = left.scopes.size)
    (hfresh : right.fresh = left.fresh) (hsink : right.sink = left.sink)
    (hagree : ∀ id, left.Reaches [scope] id → right.scopes[id]? = left.scopes[id]?) :
    (reaching left right scope).Stores left right where
  size := hsize
  grown := Nat.le_refl _
  fresh := hfresh
  sink := hsink
  printed := ⟨[], by simp [reaching], by simp [reaching]⟩
  seen := by
    intro id found hid hfound
    have hless : id < left.scopes.size := (Array.getElem?_eq_some_iff.1 hfound).1
    have hreaches : left.Reaches [scope] id := hid.resolve_right (Nat.not_le_of_gt hless)
    refine ⟨?_, ?_, ?_⟩
    · rw [hagree id hreaches, hfound]
      exact congrArg some (Scope.relocate_id found).symm
    · intro parent hparent
      exact .inl (.parent hreaches hfound hparent)
    · intro captured hcaptured
      exact .inl (.captured hreaches hfound hcaptured)
  hidden _ := ⟨rfl, rfl⟩

/-- All that can be reached from visible scopes is visible. -/
theorem Stores.visible_of_reaches {pairing : Pairing} {first second : Store} {roots : List ScopeId}
    (h : pairing.Stores first second) (hroots : pairing.Within roots) {id : ScopeId}
    (hid : first.Reaches roots id) : pairing.visible id := by
  induction hid with
  | root hmem => exact hroots _ hmem
  | parent _ hfound hparent ih => exact (h.seen ih hfound).2.parent _ hparent
  | captured _ hfound hcaptured ih => exact (h.seen ih hfound).2.values _ hcaptured

/-- Stores that are paired without moving code agree on visible scopes. -/
theorem Stores.scopes_eq {first second : Store}
    (h : (reaching left right scope).Stores first second) {id : ScopeId}
    (hid : (reaching left right scope).visible id) : second.scopes[id]? = first.scopes[id]? := by
  cases hfound : first.scopes[id]? with
  | none => exact h.seen_none hfound
  | some found =>
      rw [(h.seen hid hfound).1]
      exact congrArg some (Scope.relocate_id found)

/-- Paired results are the same outcome, from visible scopes, in paired stores. -/
theorem ending_eq {first second : EStateM.Result Exit Store Value}
    (h : ResultRel (reaching left right scope).Stores (reaching left right scope).Exits
      (reaching left right scope).Values first second) :
    Eval.ending second = Eval.ending first ∧
      (reaching left right scope).Within (Eval.captured (Eval.ending first)) ∧
      (reaching left right scope).Stores (Eval.final first) (Eval.final second) := by
  cases h with
  | ok hvalues hstores =>
      obtain ⟨rfl, hwithin⟩ := hvalues
      exact ⟨congrArg Except.ok (Value.relocate_id _), hwithin, hstores⟩
  | error hexits hstores =>
      cases hexits with
      | returned hvalues =>
          obtain ⟨rfl, hwithin⟩ := hvalues
          refine ⟨?_, hwithin, hstores⟩
          exact congrArg (fun value => Except.error (Exit.returned value)) (Value.relocate_id _)
      | exhausted => exact ⟨rfl, nofun, hstores⟩
      | @failed failure =>
          refine ⟨?_, nofun, hstores⟩
          cases failure with
          | fault cause position => cases position <;> rfl
          | sink | flaw => rfl

/-- Evaluation in two stores that agree where the scope reaches goes in lockstep. -/
theorem eval_reaching (limits : Limits) (node : Node)
    (hstores : (reaching left right scope).Stores left right) :
    ResultRel (reaching left right scope).Stores (reaching left right scope).Exits
      (reaching left right scope).Values (node.eval limits.model limits.rounds scope left)
      (node.eval limits.model limits.rounds scope right) := by
  have hrun := (limits_runs limits visible_reaching node).run hstores
  rw [show (reaching left right scope).move = id from rfl, Node.relocate_id] at hrun
  exact hrun

end Pairing

/-- The evaluation of a node in a scope leaves every scope that it cannot reach as it was, and does
not depend on one: in a store that agrees on the reachable scopes it has the same outcome and
prints the same, and the two stores agree on all that is reachable afterwards. -/
theorem eval_local (limits : Limits) (node : Node) (scope : ScopeId) (left : Store) :
    let run (store : Store) := node.eval limits.model limits.rounds scope store
    (∀ id, id < left.scopes.size → ¬ left.Reaches [scope] id →
      (Eval.final (run left)).scopes[id]? = left.scopes[id]?) ∧
    ∀ right : Store, right.scopes.size = left.scopes.size → right.fresh = left.fresh →
      right.sink = left.sink →
      (∀ id, left.Reaches [scope] id → right.scopes[id]? = left.scopes[id]?) →
      Eval.ending (run right) = Eval.ending (run left) ∧
      (∃ calls, (Eval.final (run left)).printed.toList = left.printed.toList ++ calls ∧
        (Eval.final (run right)).printed.toList = right.printed.toList ++ calls) ∧
      ∀ id, (Eval.final (run left)).Reaches (scope :: Eval.captured (Eval.ending (run left))) id →
        (Eval.final (run right)).scopes[id]? = (Eval.final (run left)).scopes[id]? := by
  intro run
  have hrun (right : Store) (hstores : (Pairing.reaching left right scope).Stores left right) :=
    Pairing.ending_eq (Pairing.eval_reaching limits node hstores)
  refine ⟨?_, ?_⟩
  · intro id hless hunreached
    -- The store is compared with itself; what is invisible then stays as it was.
    have hstores : (Pairing.reaching left left scope).Stores left left :=
      Pairing.stores_reaching rfl rfl rfl fun _ _ => rfl
    have hhidden : ¬ (Pairing.reaching left left scope).visible id := by
      intro hvisible
      exact hvisible.elim hunreached (Nat.not_le_of_gt hless)
    exact ((hrun left hstores).2.2.hidden hhidden).1
  · intro right hsize hfresh hsink hagree
    obtain ⟨hending, hwithin, hstores⟩ :=
      hrun right (Pairing.stores_reaching hsize hfresh hsink hagree)
    refine ⟨hending, ?_, ?_⟩
    · obtain ⟨calls, hleft, hright⟩ := hstores.printed
      refine ⟨calls, hleft, ?_⟩
      have hcalls : calls.map (Value.relocateList id) = calls := by
        simp [funext Value.relocateList_id]
      rw [show (Pairing.reaching left right scope).move = id from rfl, hcalls] at hright
      exact hright
    · intro id hid
      refine hstores.scopes_eq (hstores.visible_of_reaches ?_ hid)
      exact List.forall_mem_cons.2 ⟨Pairing.visible_reaching, hwithin⟩

/-- Two outermost scopes, neither of which reaches the other. -/
def Store.apart (value : Int) : Store :=
  ⟨#[⟨none, [("x", .integer 1)]⟩, ⟨none, [("y", .integer value)]⟩], 0, .recording, #[]⟩

/-- The second scope is out of reach. -/
theorem Store.reaches_apart {value : Int} {id : ScopeId} (h : (apart value).Reaches [0] id) :
    id = 0 := by
  induction h with
  | root hmem => exact List.mem_singleton.1 hmem
  | parent _ hfound hparent ih =>
      subst ih
      cases hfound
      cases hparent
  | captured _ hfound hcaptured ih =>
      subst ih
      cases hfound
      cases hcaptured

/-- An assignment in the first scope does not depend on the second one. -/
theorem eval_local_assign :
    (∀ id, (Store.apart 2).Reaches [0] id →
      (Store.apart 3).scopes[id]? = (Store.apart 2).scopes[id]?) ∧
    let assignment : Node := .assign none (.identifier none "x") (.integer none 5)
    let run (store : Store) := assignment.eval (Limits.model ⟨1, 1⟩) 1 0 store
    Eval.ending (run (.apart 3)) = Eval.ending (run (.apart 2)) := by
  have hagree (id : ScopeId) (h : (Store.apart 2).Reaches [0] id) :
      (Store.apart 3).scopes[id]? = (Store.apart 2).scopes[id]? := by
    rw [Store.reaches_apart h]
    rfl
  refine ⟨hagree, ?_⟩
  intro assignment run
  exact ((eval_local ⟨1, 1⟩ assignment 0 (.apart 2)).2 (.apart 3) rfl rfl rfl hagree).1

end Scriptlet
