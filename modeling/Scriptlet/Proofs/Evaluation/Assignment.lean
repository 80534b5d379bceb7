import Scriptlet.Proofs.Evaluation.Carrying

/-!
# Assignments complete

An assignment asks for its name before its right side is evaluated and looks for it again behind it.
The right side may declare names, apply functions and assign itself; whatever it does, a name that
was in reach is found again, and all that then changes is the one cell it is found in
(`Store.Rewritten`). A target that is refused stops the assignment before its right side.
-/

namespace Scriptlet

namespace Store

/-- The second store differs from the first one in the value of one cell: that of a name in the
scope that declares it. -/
structure Rewritten (owner : ScopeId) (name : Name) (value : Value) (store final : Store) :
    Prop where
  declared : name ∈ store.names owner
  cell : ∀ id other, final.cell? id other =
    if owner = id ∧ name = other then some value else store.cell? id other
  /-- The other bindings are the same, in the same order. -/
  bindings : ∀ id, final.bindings id = (store.bindings id).map fun binding =>
    if owner = id ∧ binding.1 = name then (binding.1, value) else binding
  size : final.scopes.size = store.scopes.size
  parent : ∀ id, final.parent? id = store.parent? id
  fresh : final.fresh = store.fresh
  sink : final.sink = store.sink
  printed : final.printed = store.printed

variable {store : Store} {scope owner : ScopeId} {name : Name} {value : Value}

/-- Giving a declared name a value changes its cell and nothing else. -/
theorem rewritten_write (h : name ∈ store.names owner) :
    Rewritten owner name value store (store.write owner name value) where
  declared := h
  cell := cell?_write_eq (isSome_cell?_iff.2 h)
  bindings _ := bindings_write
  size := Array.size_modify
  parent _ := parent?_write
  fresh := rfl
  sink := rfl
  printed := rfl

/-- A name in reach is given its value in the scope that it resolves to. -/
theorem set_of_resolve (h : store.resolve scope name = some owner) :
    store.set scope name value = .ok (store.write owner name value) := by
  rw [set, h]

/-- What was written is read. -/
theorem get_write (h : store.resolve scope name = some owner) :
    (store.write owner name value).get scope name = .ok value := by
  rw [get, lookup?_write h]

end Store

section Refusal

variable {scope : ScopeId} {store : Store} {origin : Origin} {target value : Node}

/-- A target that is no name in reach is refused, whatever stands on the right side. -/
theorem Node.eval_assign_of_refused {model : CallModel} {rounds : Nat}
    (h : ∀ name, target.identifier? = some name → store.has scope name = false) :
    (assign origin target value).eval model rounds scope store =
      .error (.failed (.fault .badTarget origin.position?)) store := by
  show (assign origin target value).eval model rounds scope store =
    .error (Exit.located origin (.failed (.fault .badTarget none))) store
  rw [eval]
  refine Eval.located_of_error origin ?_
  cases hname : target.identifier? with
  | none => rfl
  | some name =>
      have hfound : Eval.has scope name store = .ok false store := by rw [Eval.has, h name hname]
      show (Eval.has scope name >>= _) store = _
      rw [Eval.bind_of_ok hfound]
      rfl

/-- An assignment that is refused contains no other evaluation. -/
theorem Evaluation.eq_of_leads_refused {rounds calls : Nat} {inner : Evaluation}
    (h : ∀ name, target.identifier? = some name → store.has scope name = false)
    (hleads : Leads rounds ⟨calls, scope, .assign origin target value, store⟩ inner) :
    inner = ⟨calls, scope, .assign origin target value, store⟩ := by
  cases hleads with
  | refl => rfl
  | part henters _ =>
      cases henters with
      | assigned hname hhas =>
          rw [h _ hname] at hhas
          cases hhas

end Refusal

/-- An assignment in any scope of any store. If its target is a name in reach and the right side has
a value, the name is found once more: giving it the value does not fail, the assignment has that
value, the name has it from then on, and the store that the right side left differs in the one cell
that the name resolves to there. If the target is no such name, the assignment fails in the store it
was given, and its right side is not evaluated. -/
theorem assign_completes (limits : Limits) (scope : ScopeId) (store : Store) (origin : Origin)
    (target value : Node) :
    let node : Node := .assign origin target value
    (∀ name result middle, target.identifier? = some name → store.has scope name = true →
      value.eval limits.model limits.rounds scope store = .ok result middle →
      ∃ owner final, middle.resolve scope name = some owner ∧
        middle.set scope name result = .ok final ∧
        node.eval limits.model limits.rounds scope store = .ok result final ∧
        final.get scope name = .ok result ∧
        Store.Rewritten owner name result middle final) ∧
    ((∀ name, target.identifier? = some name → store.has scope name = false) →
      node.eval limits.model limits.rounds scope store =
        .error (.failed (.fault .badTarget origin.position?)) store ∧
      ∀ inner, Evaluation.Leads limits.rounds ⟨limits.calls, scope, node, store⟩ inner →
        inner = ⟨limits.calls, scope, node, store⟩) := by
  intro node
  refine ⟨?_, ?_⟩
  · intro name result middle hname hhas hvalue
    obtain ⟨owner, howner, hrun⟩ := Evaluation.exists_run_assign origin hname hhas hvalue
    exact ⟨owner, _, howner, Store.set_of_resolve howner, hrun, Store.get_write howner,
      Store.rewritten_write (Store.mem_names_of_resolve howner)⟩
  · intro hrefused
    exact ⟨Node.eval_assign_of_refused hrefused,
      fun _ hleads => Evaluation.eq_of_leads_refused hrefused hleads⟩

/-- A right side that declares the name nearer by: the new cell is written, and the outer one, which
the name resolved to at first, keeps its value. With a name that is nowhere declared as the target
the declaration is not made. -/
theorem assign_completes_shadowed :
    let store : Store := ⟨#[⟨none, [("x", .integer 1)]⟩, ⟨some 0, []⟩], 0, .recording, #[]⟩
    let body : Node := .block none [
      .declaration none (.identifier none "x") (some (.integer none 5)),
      .expression none (.integer none 7)]
    let value : Node := .choice none (.boolean none true) body none
    let run (name : String) :=
      (Node.assign none (.identifier none name) value).eval (Limits.model ⟨1, 1⟩) 1 1 store
    store.resolve 1 "x" = some 0 ∧
    (∃ final, run "x" = .ok (.integer 7) final ∧ final.get 1 "x" = .ok (.integer 7) ∧
      final.cell? 1 "x" = some (.integer 7) ∧ final.cell? 0 "x" = some (.integer 1)) ∧
    run "y" = .error (.failed (.fault .badTarget none)) store := by
  intro store body value run
  have hresolve : store.resolve 1 "x" = some 0 := by
    simp [store, Store.resolve, Scope.declares, Scope.find?]
  have hfree : store.resolve 1 "y" = none := by
    simp [store, Store.resolve, Scope.declares, Scope.find?]
  have hx := (assign_completes ⟨1, 1⟩ 1 store none (.identifier none "x") value).1 "x" (.integer 7)
    (store.append 1 "x" (.integer 5)) rfl (by rw [Store.has, hresolve]; rfl) rfl
  have hy := (assign_completes ⟨1, 1⟩ 1 store none (.identifier none "y") value).2
  obtain ⟨owner, final, howner, -, hrun, hget, hfinal⟩ := hx
  obtain rfl : 1 = owner := by
    rw [Store.resolve_eq] at howner
    exact Option.some.inj howner
  refine ⟨hresolve, ⟨final, hrun, hget, hfinal.cell 1 "x", hfinal.cell 0 "x"⟩, (hy ?_).1⟩
  rintro name ⟨⟩
  rw [Store.has, hfree]
  rfl

end Scriptlet
