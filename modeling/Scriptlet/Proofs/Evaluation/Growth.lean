import Scriptlet.Proofs.Evaluation.Descent

/-!
# Scopes only grow

An evaluation leaves every scope where it is, adds names to the scope it runs in and to no other
one that was there before, and opens scopes only by applying functions. `Grows` states this of two
stores, `Leads` says which evaluations one evaluation contains, those inside the bodies of the
functions it applies included, and `eval_grows` ties each new scope to the call that opened it. What
is declared in reach of a scope therefore stays so (`Grows.has`).
-/

namespace Scriptlet

/-- Replacing a value keeps the names of a scope. -/
theorem Scope.names_replace (scope : Scope) (name : Name) (value : Value) :
    (scope.replace name value).names = scope.names := by
  rw [names, replace, List.map_map, names]
  refine List.map_congr_left fun binding _ => ?_
  simp only [Function.comp_apply]
  split <;> rfl

/-- A scope declares the names that it lists. -/
theorem Scope.declares_iff (scope : Scope) (name : Name) :
    scope.declares name = true ↔ name ∈ scope.names := by
  rw [declares, find?, names, List.lookup_isSome_iff, List.mem_map]
  simp only [beq_iff_eq]
  exact exists_congr fun _ => and_congr_right fun _ => eq_comm

/-- A name that is appended comes last. -/
theorem Scope.names_append (scope : Scope) (name : Name) (value : Value) :
    (scope.append name value).names = scope.names ++ [name] := by
  rw [names, append, List.map_append, names]
  rfl

namespace Store

/-- The scope around a scope. -/
def parent? (store : Store) (id : ScopeId) : Option ScopeId :=
  store.scopes[id]?.bind Scope.parent

/-- The names that a scope itself declares, in order. -/
def names (store : Store) (id : ScopeId) : List Name :=
  (store.scopes[id]?.map Scope.names).getD []

variable {store : Store} {id other : ScopeId} {name : Name} {value : Value}

/-- A scope that is not there yet has no names. -/
theorem names_of_size_le (h : store.scopes.size ≤ id) : store.names id = [] := by
  rw [names, Array.getElem?_eq_none h]
  rfl

/-- A change of one scope that keeps its parent keeps all parents. -/
theorem parent?_modify {change : Scope → Scope}
    (hchange : ∀ scope, (change scope).parent = scope.parent) :
    parent? { store with scopes := store.scopes.modify other change } id = store.parent? id := by
  simp only [parent?, Array.getElem?_modify]
  split
  · cases store.scopes[id]? with
    | none => rfl
    | some scope => exact hchange scope
  · rfl

theorem names_write : (store.write other name value).names id = store.names id := by
  simp only [names, write, Array.getElem?_modify]
  split
  · cases store.scopes[id]? with
    | none => rfl
    | some scope => exact scope.names_replace name value
  · rfl

/-- Appending to one scope keeps the names of the others. -/
theorem names_append_of_ne (h : id ≠ other) :
    (store.append other name value).names id = store.names id := by
  simp only [names, append, Array.getElem?_modify, if_neg (Ne.symm h)]

/-- Appending to a scope adds the name behind those it has. -/
theorem names_append_self (h : id < store.scopes.size) :
    (store.append id name value).names id = store.names id ++ [name] := by
  simp only [names, append, Array.getElem?_modify, if_true, Array.getElem?_eq_getElem h,
    Option.map_some, Option.getD_some, Scope.names_append]

/-- Only scopes that are there have parents. -/
theorem lt_size_of_parent? {parent : ScopeId} (h : store.parent? id = some parent) :
    id < store.scopes.size := by
  obtain ⟨scope, hscope, -⟩ := Option.bind_eq_some_iff.1 h
  exact (Array.getElem?_eq_some_iff.1 hscope).1

/-- A name is declared in reach of a scope if the scope declares it or its parent reaches it. -/
theorem has_iff : store.has id name = true ↔
    name ∈ store.names id ∨
      ∃ parent, store.parent? id = some parent ∧ parent < id ∧ store.has parent name = true := by
  rw [has, resolve, names, parent?]
  cases store.scopes[id]? with
  | none => simp
  | some scope =>
      simp only [Scope.declares_iff, Option.map_some, Option.getD_some, Option.bind_some]
      by_cases hname : name ∈ scope.names
      · simp [hname]
      · cases scope.parent with
        | none => simp [hname]
        | some parent =>
            by_cases hless : parent < id
            · simp [hname, hless, has]
            · simp [hname, hless]

/-- Opening a scope keeps those that are there. -/
theorem getElem?_openScope_of_lt {parent : Option ScopeId} (h : id < store.scopes.size) :
    (store.openScope parent).2.scopes[id]? = store.scopes[id]? := by
  rw [openScope, Array.getElem?_push, if_neg (Nat.ne_of_lt h)]

end Store

/-- What the evaluations in one scope may do to a store: `opens` says which scopes they may open
inside which others. -/
structure Grows (opens : ScopeId → ScopeId → Prop) (scope : ScopeId) (before after : Store) :
    Prop where
  size : before.scopes.size ≤ after.scopes.size
  parent : ∀ {id}, id < before.scopes.size → after.parent? id = before.parent? id
  elsewhere : ∀ {id}, id < before.scopes.size → id ≠ scope → after.names id = before.names id
  here : before.names scope <+: after.names scope
  opened : ∀ {id}, before.scopes.size ≤ id → id < after.scopes.size →
    ∃ parent, after.parent? id = some parent ∧ opens id parent

namespace Grows

variable {opens others : ScopeId → ScopeId → Prop} {scope inner : ScopeId}
  {before middle after : Store} {name : Name} {value : Value}

/-- A store with the same scopes has grown by nothing. -/
theorem of_scopes_eq (h : after.scopes = before.scopes) : Grows opens scope before after where
  size := Nat.le_of_eq (congrArg Array.size h.symm)
  parent _ := by rw [Store.parent?, h, Store.parent?]
  elsewhere _ _ := by rw [Store.names, h, Store.names]
  here := by simp only [Store.names, h, List.prefix_refl]
  opened := by
    intro id hold hnew
    rw [h] at hnew
    omega

theorem refl : Grows opens scope before before :=
  of_scopes_eq rfl

/-- Scopes that may be opened for one reason may be opened for a weaker one. -/
theorem mono (h : Grows opens scope before after)
    (hopens : ∀ id parent, opens id parent → others id parent) :
    Grows others scope before after where
  size := h.size
  parent := h.parent
  elsewhere := h.elsewhere
  here := h.here
  opened := by
    intro id hold hnew
    obtain ⟨parent, hparent, hopen⟩ := h.opened hold hnew
    exact ⟨parent, hparent, hopens id parent hopen⟩

/-- Evaluations in a scope that was opened meanwhile are as good as ones in the scope itself. -/
theorem within (h : Grows opens scope before middle)
    (hinner : inner = scope ∨ before.scopes.size ≤ inner)
    (hnext : Grows opens inner middle after) : Grows opens scope before after where
  size := Nat.le_trans h.size hnext.size
  parent := by
    intro id hid
    rw [hnext.parent (Nat.lt_of_lt_of_le hid h.size), h.parent hid]
  elsewhere := by
    intro id hid hne
    have hapart : id ≠ inner := by
      rcases hinner with rfl | hlater
      · exact hne
      · omega
    rw [hnext.elsewhere (Nat.lt_of_lt_of_le hid h.size) hapart, h.elsewhere hid hne]
  here := by
    by_cases hscope : scope = inner
    · rw [hscope] at h ⊢
      exact h.here.trans hnext.here
    · by_cases hid : scope < middle.scopes.size
      · rw [hnext.elsewhere hid hscope]
        exact h.here
      · rw [Store.names_of_size_le (Nat.le_trans h.size (Nat.le_of_not_lt hid))]
        exact List.nil_prefix
  opened := by
    intro id hold hnew
    by_cases hid : id < middle.scopes.size
    · obtain ⟨parent, hparent, hopen⟩ := h.opened hold hid
      exact ⟨parent, by rw [hnext.parent hid, hparent], hopen⟩
    · exact hnext.opened (Nat.le_of_not_lt hid) hnew

/-- Growth in one and the same scope adds up. -/
theorem trans (h : Grows opens scope before middle) (hnext : Grows opens scope middle after) :
    Grows opens scope before after :=
  h.within (.inl rfl) hnext

/-- Writing a value is no growth, in whatever scope it is found. -/
theorem write {owner : ScopeId} : Grows opens scope before (before.write owner name value) where
  size := Nat.le_of_eq Array.size_modify.symm
  parent _ := Store.parent?_modify fun _ => rfl
  elsewhere _ _ := Store.names_write
  here := by simp only [Store.names_write, List.prefix_refl]
  opened := by
    intro id hold hnew
    rw [Store.write, Array.size_modify] at hnew
    omega

/-- A new name comes behind the names of its own scope. -/
theorem append : Grows opens scope before (before.append scope name value) where
  size := Nat.le_of_eq Array.size_modify.symm
  parent _ := Store.parent?_modify fun _ => rfl
  elsewhere _ hne := Store.names_append_of_ne hne
  here := by
    by_cases hid : scope < before.scopes.size
    · rw [Store.names_append_self hid]
      exact List.prefix_append _ _
    · rw [Store.names_of_size_le (Nat.le_of_not_lt hid)]
      exact List.nil_prefix
  opened := by
    intro id hold hnew
    rw [Store.append, Array.size_modify] at hnew
    omega

/-- A scope may be opened if there is a cause for it. -/
theorem openScope {parent : ScopeId} (hopens : opens before.scopes.size parent) :
    Grows opens scope before (before.openScope (some parent)).2 where
  size := by
    rw [Store.openScope, Array.size_push]
    omega
  parent hid := by rw [Store.parent?, Store.getElem?_openScope_of_lt hid, Store.parent?]
  elsewhere hid _ := by rw [Store.names, Store.getElem?_openScope_of_lt hid, Store.names]
  here := by
    by_cases hid : scope < before.scopes.size
    · simp only [Store.names, Store.getElem?_openScope_of_lt hid, List.prefix_refl]
    · rw [Store.names_of_size_le (Nat.le_of_not_lt hid)]
      exact List.nil_prefix
  opened := by
    intro id hold hnew
    rw [Store.openScope, Array.size_push] at hnew
    obtain rfl : id = before.scopes.size := by omega
    refine ⟨parent, ?_, hopens⟩
    rw [Store.parent?, Store.openScope, Array.getElem?_push_size]
    rfl

/-- A scope keeps the names that it has. -/
theorem names_subset (h : Grows opens scope before after) {id : ScopeId}
    (hname : name ∈ before.names id) : name ∈ after.names id := by
  by_cases hscope : id = scope
  · rw [hscope] at hname ⊢
    exact h.here.subset hname
  · by_cases hid : id < before.scopes.size
    · rw [h.elsewhere hid hscope]
      exact hname
    · rw [Store.names_of_size_le (Nat.le_of_not_lt hid)] at hname
      cases hname

/-- A name that is declared in reach of a scope stays so. -/
theorem has (h : Grows opens scope before after) {id : ScopeId} (hhas : before.has id name = true) :
    after.has id name = true := by
  induction id using Nat.strongRecOn with
  | _ id ih =>
      rw [Store.has_iff] at hhas ⊢
      rcases hhas with hname | ⟨parent, hparent, hless, hhas⟩
      · exact .inl (h.names_subset hname)
      · refine .inr ⟨parent, ?_, hless, ih parent hless hhas⟩
        rw [h.parent (Store.lt_size_of_parent? hparent), hparent]

end Grows

/-- The evaluation of a node in a scope, begun in a store, with so many calls to spend. -/
structure Evaluation where
  calls : Nat
  scope : ScopeId
  node : Node
  store : Store

namespace Evaluation

variable (rounds : Nat)

/-- One evaluation contains another one: that of a part of its node or that of the body of a
function which it applies, at any depth. -/
inductive Leads : Evaluation → Evaluation → Prop where
  | refl {evaluation} : Leads evaluation evaluation
  | part {calls scope node store inner middle evaluation} :
      Node.Enters (Closure.invoke rounds calls) rounds scope node store inner middle →
      Leads ⟨calls, scope, inner, middle⟩ evaluation →
      Leads ⟨calls, scope, node, store⟩ evaluation
  | body {calls scope origin callee arguments store object closure values start inner begun
      evaluation} :
      Node.Yields (Closure.invoke rounds (calls + 1)) rounds scope (callee :: arguments) store
        (.function object closure :: values) start →
      closure.Starts values start inner begun →
      Leads ⟨calls, inner, closure.body, begun⟩ evaluation →
      Leads ⟨calls + 1, scope, .call origin callee arguments, store⟩ evaluation

/-- The evaluation is that of a call, which applies a function to as many arguments as it has
parameters and so opens the scope `id` inside the one that the function was written in. -/
inductive Opens : Evaluation → ScopeId → ScopeId → Prop where
  | application {calls scope origin callee arguments store object closure values start} :
      Node.Yields (Closure.invoke rounds (calls + 1)) rounds scope (callee :: arguments) store
        (.function object closure :: values) start →
      values.length = closure.parameters.length →
      Opens ⟨calls + 1, scope, .call origin callee arguments, store⟩ start.scopes.size
        closure.scope

/-- The evaluation itself opens no scopes but these. -/
def OpensOnly (opens : ScopeId → ScopeId → Prop) (evaluation : Evaluation) : Prop :=
  ∀ id parent, Opens rounds evaluation id parent → opens id parent

/-- An evaluation that this one contains opens the scope `id` inside `parent`. -/
def Causes (evaluation : Evaluation) (id parent : ScopeId) : Prop :=
  ∃ inner, Leads rounds evaluation inner ∧ Opens rounds inner id parent

end Evaluation

/-- The application of a closure opens the scope `id` inside `parent`: its own scope, or one that
its body causes. -/
inductive Closure.Causes (rounds : Nat) : Nat → Closure → List Value → Store → ScopeId → ScopeId →
    Prop where
  | own {calls closure arguments store} : arguments.length = closure.parameters.length →
      Causes rounds (calls + 1) closure arguments store store.scopes.size closure.scope
  | body {calls closure arguments store inner begun id parent} :
      closure.Starts arguments store inner begun →
      Evaluation.Causes rounds ⟨calls, inner, closure.body, begun⟩ id parent →
      Causes rounds (calls + 1) closure arguments store id parent

/-- The store that an evaluation leaves, whatever its end. -/
def Eval.after {α : Type} (action : Eval α) (store : Store) : Store :=
  match action store with
  | .ok _ final => final
  | .error _ final => final

/-- The scopes of a store grow while an action runs in one of them. -/
def Eval.Growing {α : Type} (opens : ScopeId → ScopeId → Prop) (scope : ScopeId) (action : Eval α)
    (store : Store) : Prop :=
  Grows opens scope store (action.after store)

namespace Eval

variable {α β : Type} {opens : ScopeId → ScopeId → Prop} {scope : ScopeId} {store : Store}
  {action : Eval α}

theorem after_of_ok {value : α} {final : Store} (h : action store = .ok value final) :
    action.after store = final := by
  rw [after, h]

theorem after_of_error {exit : Exit} {final : Store} (h : action store = .error exit final) :
    action.after store = final := by
  rw [after, h]

namespace Growing

/-- An action that touches no scope. -/
theorem of_scopes_eq (h : (action.after store).scopes = store.scopes) :
    Growing opens scope action store :=
  Grows.of_scopes_eq h

theorem mono {others : ScopeId → ScopeId → Prop} (h : Growing opens scope action store)
    (hopens : ∀ id parent, opens id parent → others id parent) :
    Growing others scope action store :=
  Grows.mono h hopens

/-- A result is given without growth. -/
theorem pure (value : α) : Growing opens scope (pure value) store :=
  of_scopes_eq rfl

theorem throw (exit : Exit) : Growing opens scope (throw exit : Eval α) store :=
  of_scopes_eq rfl

/-- The next action may use how the first one ended. -/
theorem bind {next : α → Eval β} (h : Growing opens scope action store)
    (hnext : ∀ value middle, action store = .ok value middle →
      Growing opens scope (next value) middle) :
    Growing opens scope (action >>= next) store := by
  cases haction : action store with
  | ok value middle =>
      rw [Growing, after, bind_of_ok haction]
      rw [Growing, after_of_ok haction] at h
      exact h.trans (hnext value middle haction)
  | error exit final =>
      rw [Growing, after_of_error (bind_of_error haction)]
      rw [Growing, after_of_error haction] at h
      exact h

/-- Giving a place to a fault leaves the store as it is. -/
theorem located (origin : Origin) (h : Growing opens scope action store) :
    Growing opens scope (Eval.located origin action) store := by
  cases haction : action store with
  | ok value final =>
      rw [Growing, after_of_ok haction] at h
      rw [Growing, after_of_ok (located_of_ok origin haction)]
      exact h
  | error exit final =>
      rw [Growing, after_of_error haction] at h
      rw [Growing, after_of_error (located_of_error origin haction)]
      exact h

/-- Catching a return leaves the store as it is. -/
theorem catchReturn {action : Eval Value} (h : Growing opens scope action store) :
    Growing opens scope (Eval.catchReturn action) store := by
  have hafter : (Eval.catchReturn action).after store = action.after store := by
    rw [after, Eval.catchReturn, after]
    cases action store with
    | ok => rfl
    | error exit => cases exit <;> rfl
  rw [Growing, hafter]
  exact h

theorem fault (cause : Fault) : Growing opens scope (Eval.fault cause : Eval α) store :=
  of_scopes_eq rfl

theorem ofExcept (result : Except Fault α) : Growing opens scope (Eval.ofExcept result) store := by
  cases result <;> exact of_scopes_eq rfl

theorem nameOf (node : Node) : Growing opens scope (Eval.nameOf node) store := by
  refine of_scopes_eq ?_
  rw [after, Eval.nameOf]
  cases node.naming <;> rfl

theorem lookup (owner : ScopeId) (name : String) :
    Growing opens scope (Eval.lookup owner name) store := by
  refine of_scopes_eq ?_
  rw [after, Eval.lookup]
  cases store.lookup? owner name with
  | some => rfl
  | none => cases Builtin.ofName? name <;> rfl

theorem has (owner : ScopeId) (name : String) :
    Growing opens scope (Eval.has owner name) store :=
  of_scopes_eq rfl

theorem newId : Growing opens scope Eval.newId store :=
  of_scopes_eq rfl

theorem print (arguments : List Value) : Growing opens scope (Eval.print arguments) store := by
  refine of_scopes_eq ?_
  rw [after, Eval.print]
  cases store.sink <;> rfl

/-- A declaration adds its name to the scope it runs in, or nothing. -/
theorem declare (name : Name) (value : Value) :
    Growing opens scope (Eval.declare scope name value) store := by
  rw [Growing, after, Eval.declare, Store.declare]
  cases store.declares scope name with
  | true => exact .refl
  | false => exact .append

theorem write (name : Name) (value : Value) :
    Growing opens scope (Eval.write scope name value) store :=
  Grows.write

theorem set (name : String) (value : Value) :
    Growing opens scope (Eval.set scope name value) store := by
  rw [Growing, after, Eval.set, Store.set]
  cases store.resolve scope name with
  | none => exact .refl
  | some owner => exact .write

end Growing

end Eval

namespace Evaluation

variable {rounds calls : Nat} {scope id parent : ScopeId} {callee : Node} {arguments : List Node}
  {store start : Store}

/-- What the application of the called function causes, the call does. -/
theorem Causes.call {origin : Origin} {object : ObjectId} {closure : Closure} {values : List Value}
    (hyields : Node.Yields (Closure.invoke rounds calls) rounds scope (callee :: arguments) store
      (.function object closure :: values) start)
    (h : closure.Causes rounds calls values start id parent) :
    Causes rounds ⟨calls, scope, .call origin callee arguments, store⟩ id parent := by
  cases h with
  | own hcount => exact ⟨_, .refl, .application hyields hcount⟩
  | body hstarts hbody =>
      obtain ⟨evaluation, hleads, hopens⟩ := hbody
      exact ⟨evaluation, .body hyields hstarts hleads, hopens⟩

end Evaluation

namespace Node

section Loops

variable {model : CallModel} {rounds : Nat} {scope : ScopeId} {test step child : Option Node}
  {body : Node} {store start final : Store}

/-- An optional child that ends well has a value, if it is there. -/
theorem yields_of_evalOption {result : Option Value}
    (h : evalOption model rounds scope child store = .ok result final) :
    Yields model rounds scope child.toList store result.toList final := by
  cases child with
  | none =>
      rw [evalOption] at h
      cases h
      exact .nil
  | some node =>
      rw [evalOption] at h
      cases hnode : node.eval model rounds scope store with
      | error exit middle =>
          rw [Eval.bind_of_error hnode] at h
          cases h
      | ok value middle =>
          rw [Eval.bind_of_ok hnode] at h
          cases h
          exact .cons hnode .nil

/-- A test that holds is left out or has a value that counts as true. -/
theorem yields_of_loopTest (h : loopTest model rounds scope test store = .ok true final) :
    ∃ values, Yields model rounds scope test.toList store values final ∧
      ∀ value ∈ values, value.truthy = true := by
  rw [loopTest] at h
  cases htest : evalOption model rounds scope test store with
  | error exit middle =>
      rw [Eval.bind_of_error htest] at h
      cases h
  | ok result middle =>
      rw [Eval.bind_of_ok htest] at h
      have hyields := yields_of_evalOption htest
      cases result with
      | none =>
          cases h
          exact ⟨[], hyields, List.forall_mem_nil _⟩
      | some value =>
          obtain ⟨htruthy, rfl⟩ := EStateM.Result.ok.inj h
          exact ⟨[value], hyields, List.forall_mem_singleton.2 htruthy⟩

/-- A round that ends well is the body and then the step. -/
theorem yields_of_loopRound (h : loopRound model rounds scope step body store = .ok () final) :
    ∃ values, Yields model rounds scope (body :: step.toList) store values final := by
  rw [loopRound] at h
  cases hbody : body.eval model rounds scope store with
  | error exit middle =>
      rw [Eval.bind_of_error hbody] at h
      cases h
  | ok value middle =>
      rw [Eval.bind_of_ok hbody] at h
      cases hstep : evalOption model rounds scope step middle with
      | error exit finish =>
          rw [Eval.bind_of_error hstep] at h
          cases h
      | ok result finish =>
          rw [Eval.bind_of_ok hstep] at h
          cases h
          exact ⟨_, .cons hbody (yields_of_evalOption hstep)⟩

/-- A loop grows what its tests and rounds do, whenever they come. -/
theorem repeatWhile_grows {opens : ScopeId → ScopeId → Prop}
    (htest : ∀ {count middle}, Rounds model rounds scope test step body count start middle →
      count < rounds → Eval.Growing opens scope (loopTest model rounds scope test) middle)
    (hround : ∀ {count next middle tests},
      Rounds model rounds scope test step body count start next → count < rounds →
      Yields model rounds scope test.toList next tests middle →
      (∀ value ∈ tests, value.truthy = true) →
      Eval.Growing opens scope (loopRound model rounds scope step body) middle) :
    ∀ (more : Nat) {count : Nat} {store : Store}, count + more = rounds →
      Rounds model rounds scope test step body count start store →
      Eval.Growing opens scope (Eval.repeatWhile (loopTest model rounds scope test)
        (loopRound model rounds scope step body) more) store
  | 0, _, _, _, _ => .throw .exhausted
  | more + 1, count, store, hcount, hrounds => by
      refine (htest hrounds (by omega)).bind fun holds middle htested => ?_
      cases holds with
      | false => exact .pure ()
      | true =>
          obtain ⟨tests, hyields, htruthy⟩ := yields_of_loopTest htested
          rw [if_pos rfl]
          refine (hround hrounds (by omega) hyields htruthy).bind fun _ next hdone => ?_
          obtain ⟨results, hresults⟩ := yields_of_loopRound hdone
          exact repeatWhile_grows htest hround more (by omega)
            (.succ hrounds hyields htruthy hresults)

end Loops

section Parts

variable (rounds calls : Nat) (scope : ScopeId) (allowed : Evaluation → Prop)

/-- All that the evaluation of a node contains is allowed. -/
def Allows (node : Node) (store : Store) : Prop :=
  ∀ evaluation, Evaluation.Leads rounds ⟨calls, scope, node, store⟩ evaluation → allowed evaluation

/-- All that the evaluations of nodes, one behind the other, contain is allowed. -/
def AllowsList (nodes : List Node) (store : Store) : Prop :=
  ∀ before inner behind {values middle}, nodes = before ++ inner :: behind →
    Yields (Closure.invoke rounds calls) rounds scope before store values middle →
    Allows rounds calls scope allowed inner middle

/-- All that the evaluations of keys and values, one behind the other, contain is allowed. -/
structure AllowsPairs (pairs : List (Node × Node)) (store : Store) : Prop where
  key : ∀ before inner value behind {middle}, pairs = before ++ (inner, value) :: behind →
    YieldsPairs (Closure.invoke rounds calls) rounds scope before store middle →
    Allows rounds calls scope allowed inner middle
  keyed : ∀ before key inner behind {text next middle}, pairs = before ++ (key, inner) :: behind →
    YieldsPairs (Closure.invoke rounds calls) rounds scope before store next →
    key.eval (Closure.invoke rounds calls) rounds scope next = .ok (.string text) middle →
    Allows rounds calls scope allowed inner middle

/-- All that the evaluation of an optional child contains is allowed. -/
def AllowsOption (child : Option Node) (store : Store) : Prop :=
  ∀ inner, child = some inner → Allows rounds calls scope allowed inner store

variable {rounds calls scope allowed} {node inner key : Node} {nodes : List Node}
  {pairs : List (Node × Node)} {store middle next : Store} {value : Value} {text : String}
  {label : Name}

/-- What a node allows, each of its parts does where it is entered. -/
theorem Allows.part (h : Allows rounds calls scope allowed node store)
    (henters : Enters (Closure.invoke rounds calls) rounds scope node store inner middle) :
    Allows rounds calls scope allowed inner middle :=
  fun evaluation hleads => h evaluation (.part henters hleads)

theorem AllowsList.head (h : AllowsList rounds calls scope allowed (node :: nodes) store) :
    Allows rounds calls scope allowed node store :=
  h [] node nodes rfl .nil

/-- The others are entered behind the first one. -/
theorem AllowsList.tail (h : AllowsList rounds calls scope allowed (node :: nodes) store)
    (hnode : node.eval (Closure.invoke rounds calls) rounds scope store = .ok value middle) :
    AllowsList rounds calls scope allowed nodes middle := by
  intro before inner behind values final hnodes hyields
  exact h (node :: before) inner behind (by rw [hnodes, List.cons_append]) (.cons hnode hyields)

theorem AllowsPairs.head
    (h : AllowsPairs rounds calls scope allowed ((key, node) :: pairs) store) :
    Allows rounds calls scope allowed key store :=
  h.key [] key node pairs rfl .nil

/-- The value next to a key is entered behind it. -/
theorem AllowsPairs.second
    (h : AllowsPairs rounds calls scope allowed ((key, node) :: pairs) store)
    (hkey : key.eval (Closure.invoke rounds calls) rounds scope store = .ok (.string text) middle) :
    Allows rounds calls scope allowed node middle :=
  h.keyed [] key node pairs rfl .nil hkey

/-- The other pairs are entered behind the first one. -/
theorem AllowsPairs.tail
    (h : AllowsPairs rounds calls scope allowed ((key, node) :: pairs) store)
    (hpair : Yields (Closure.invoke rounds calls) rounds scope [key, node] store
      [.string text, value] middle) :
    AllowsPairs rounds calls scope allowed pairs middle where
  key := by
    intro before inner value behind final hpairs hbefore
    refine h.key ((key, node) :: before) inner value behind ?_ (.cons hpair hbefore)
    rw [hpairs, List.cons_append]
  keyed := by
    intro before name inner behind text next final hpairs hbefore hname
    refine h.keyed ((key, node) :: before) name inner behind ?_ (.cons hpair hbefore) hname
    rw [hpairs, List.cons_append]

section Children

variable {origin : Origin} {name target test callee : Node} {child first step : Option Node}
  {body : Node} {values : List Value} {start final : Store} {count : Nat}

/-- The statements of a program are entered one behind the other. -/
theorem Allows.statements (h : Allows rounds calls scope allowed (program nodes) store) :
    AllowsList rounds calls scope allowed nodes store := by
  intro before inner behind values middle hnodes hyields
  subst hnodes
  exact h.part (.statement hyields)

theorem Allows.blockStatements (h : Allows rounds calls scope allowed (block origin nodes) store) :
    AllowsList rounds calls scope allowed nodes store := by
  intro before inner behind values middle hnodes hyields
  subst hnodes
  exact h.part (.blockStatement hyields)

theorem Allows.elements (h : Allows rounds calls scope allowed (array origin nodes) store) :
    AllowsList rounds calls scope allowed nodes store := by
  intro before inner behind values middle hnodes hyields
  subst hnodes
  exact h.part (.element hyields)

/-- Arguments are entered behind the value that is called. -/
theorem Allows.arguments (h : Allows rounds calls scope allowed (call origin callee nodes) store)
    (hcallee : callee.eval (Closure.invoke rounds calls) rounds scope store = .ok value middle) :
    AllowsList rounds calls scope allowed nodes middle := by
  intro before inner behind values middle hnodes hyields
  subst hnodes
  exact h.part (.argument (.cons hcallee hyields))

/-- The pairs of a map are entered one behind the other. -/
theorem Allows.entries (h : Allows rounds calls scope allowed (map origin pairs) store) :
    AllowsPairs rounds calls scope allowed pairs store where
  key := by
    intro before inner value behind middle hpairs hbefore
    subst hpairs
    exact h.part (.key hbefore)
  keyed := by
    intro before key inner behind text next middle hpairs hbefore hkey
    subst hpairs
    exact h.part (.keyed hbefore hkey)

/-- The first value is entered where the name is declared already. -/
theorem Allows.firstValue
    (h : Allows rounds calls scope allowed (declaration origin name child) store)
    (hname : name.naming = .ok label) (hdeclare : store.declare scope label .null = .ok middle) :
    AllowsOption rounds calls scope allowed child middle := by
  intro inner hchild
  subst hchild
  exact h.part (.firstValue hname hdeclare)

theorem Allows.returned (h : Allows rounds calls scope allowed (returning origin child) store) :
    AllowsOption rounds calls scope allowed child store := by
  intro inner hchild
  subst hchild
  exact h.part .returning

/-- The first clause of a loop is entered in the first store. -/
theorem Allows.loopFirst
    (h : Allows rounds calls scope allowed (loop origin first child step body) store) :
    AllowsOption rounds calls scope allowed first store := by
  intro inner hfirst
  subst hfirst
  exact h.part .loopFirst

/-- The test is entered behind any number of completed rounds. -/
theorem Allows.loopTest
    (h : Allows rounds calls scope allowed (loop origin first child step body) store)
    (hfirst : Yields (Closure.invoke rounds calls) rounds scope first.toList store values start)
    (hrounds : Rounds (Closure.invoke rounds calls) rounds scope child step body count start middle)
    (hcount : count < rounds) : AllowsOption rounds calls scope allowed child middle := by
  intro inner hchild
  subst hchild
  exact h.part (.loopTest hfirst hrounds hcount)

/-- The step is entered behind the body of a round whose test held. -/
theorem Allows.loopStep {tests : List Value}
    (h : Allows rounds calls scope allowed (loop origin first child step body) store)
    (hfirst : Yields (Closure.invoke rounds calls) rounds scope first.toList store values start)
    (hrounds : Rounds (Closure.invoke rounds calls) rounds scope child step body count start next)
    (hcount : count < rounds)
    (htests : Yields (Closure.invoke rounds calls) rounds scope child.toList next tests middle)
    (htruthy : ∀ value ∈ tests, value.truthy = true)
    (hbody : body.eval (Closure.invoke rounds calls) rounds scope middle = .ok value final) :
    AllowsOption rounds calls scope allowed step final := by
  intro inner hstep
  subst hstep
  exact h.part (.loopStep hfirst hrounds hcount htests htruthy hbody)

/-- The second block is entered behind a test that does not hold. -/
theorem Allows.alternative
    (h : Allows rounds calls scope allowed (choice origin test body child) store)
    (htest : test.eval (Closure.invoke rounds calls) rounds scope store = .ok value middle)
    (htruthy : value.truthy = false) : AllowsOption rounds calls scope allowed child middle := by
  intro inner hchild
  subst hchild
  exact h.part (.alternative htest htruthy)

end Children

/-- A name that is found is the name of the node, and nothing has changed. -/
theorem naming_of_nameOf {final : Store} (h : Eval.nameOf node store = .ok label final) :
    node.naming = .ok label ∧ final = store := by
  rw [Eval.nameOf] at h
  cases hname : node.naming with
  | error flaw => simp [hname] at h
  | ok name =>
      simp only [hname, EStateM.Result.ok.injEq] at h
      exact ⟨by rw [h.1], h.2.symm⟩

/-- A declaration that ends well is one of the store. -/
theorem declare_of_declare {final : Store}
    (h : Eval.declare scope label value store = .ok () final) :
    store.declare scope label value = .ok final := by
  rw [Eval.declare] at h
  cases hdeclare : store.declare scope label value with
  | error cause => simp [hdeclare] at h
  | ok middle =>
      simp only [hdeclare, EStateM.Result.ok.injEq, true_and] at h
      rw [h]

/-- A key is a string. -/
theorem eq_string_of_keyText {final : Store} (h : keyText value store = .ok text final) :
    value = .string text ∧ final = store := by
  cases value with
  | string => exact ⟨by cases h; rfl, by cases h; rfl⟩
  | _ => cases h

/-- Reading a key changes nothing. -/
theorem keyText_growing {opens : ScopeId → ScopeId → Prop} :
    Eval.Growing opens scope (keyText value) store := by
  cases value with
  | string => exact .pure _
  | _ => exact .fault _

end Parts

section Walk

variable {rounds calls : Nat} {scope : ScopeId} {opens : ScopeId → ScopeId → Prop}

/-- The applications of functions grow what they cause. -/
def CallsGrow (rounds calls : Nat) : Prop :=
  ∀ closure arguments scope store, Eval.Growing (closure.Causes rounds calls arguments store) scope
    (Closure.invoke rounds calls closure arguments) store

/-- Applying a value opens scopes for the causes that a written function has. -/
theorem apply_growing (hcalls : CallsGrow rounds calls) {callee : Value} {arguments : List Value}
    {store : Store}
    (hopens : ∀ object closure, callee = .function object closure →
      ∀ id parent, closure.Causes rounds calls arguments store id parent → opens id parent) :
    Eval.Growing opens scope (callee.apply (Closure.invoke rounds calls) arguments) store := by
  cases callee with
  | function object closure =>
      exact (hcalls closure arguments scope store).mono (hopens object closure rfl)
  | builtin host =>
      cases host with
      | len => exact .ofExcept _
      | print => exact (Eval.Growing.print arguments).bind fun _ _ _ => .pure _
  | _ => exact .fault _

mutual

/-- The evaluation of a node grows the scopes of the store by what it causes. -/
theorem eval_growing (hcalls : CallsGrow rounds calls) : ∀ (node : Node) (store : Store),
    Allows rounds calls scope (Evaluation.OpensOnly rounds opens) node store →
    Eval.Growing opens scope (node.eval (Closure.invoke rounds calls) rounds scope) store
  | hole, _, _ => by
      rw [eval]
      exact .throw _
  | program statements, store, hallows => by
      rw [eval]
      exact evalStatements_growing hcalls statements store .null hallows.statements
  | expression origin body, store, hallows => by
      rw [eval]
      exact .located origin (eval_growing hcalls body store (hallows.part .expression))
  | declaration origin name value, store, hallows => by
      rw [eval]
      refine .located origin ((Eval.Growing.nameOf name).bind fun text start hname => ?_)
      refine (Eval.Growing.declare text .null).bind fun _ middle hdeclare => ?_
      obtain ⟨htext, rfl⟩ := naming_of_nameOf hname
      have hvalue := hallows.firstValue htext (declare_of_declare hdeclare)
      refine (evalOption_growing hcalls value middle hvalue).bind fun first final _ => ?_
      cases first with
      | none => exact .pure _
      | some first => exact (Eval.Growing.write text first).bind fun _ _ _ => .pure _
  | returning origin value, store, hallows => by
      rw [eval]
      exact .located origin ((evalOption_growing hcalls value store hallows.returned).bind
        fun _ _ _ => .throw _)
  | block origin statements, store, hallows => by
      rw [eval]
      exact .located origin
        (evalStatements_growing hcalls statements store .null hallows.blockStatements)
  | loop origin first test step body, store, hallows => by
      rw [eval_loop]
      refine .located origin ((evalOption_growing hcalls first store hallows.loopFirst).bind
        fun result start hfirst => ?_)
      have hbegun := yields_of_evalOption hfirst
      refine (repeatWhile_grows ?_ ?_ rounds (Nat.zero_add rounds) .zero).bind
        fun _ _ _ => .pure _
      · intro count middle hrounds hcount
        have htest := hallows.loopTest hbegun hrounds hcount
        refine (evalOption_growing hcalls test middle htest).bind fun value _ _ => ?_
        cases value <;> exact .pure _
      · intro count next middle tests hrounds hcount hyields htruthy
        refine (eval_growing hcalls body middle ?_).bind fun value turn hbody => ?_
        · exact hallows.part (.loopBody hbegun hrounds hcount hyields htruthy)
        have hstep := hallows.loopStep hbegun hrounds hcount hyields htruthy hbody
        exact (evalOption_growing hcalls step turn hstep).bind fun _ _ _ => .pure _
  | integer _ _, _, _ => by
      rw [eval]
      exact .pure _
  | boolean _ _, _, _ => by
      rw [eval]
      exact .pure _
  | string _ _, _, _ => by
      rw [eval]
      exact .pure _
  | identifier origin name, _, _ => by
      rw [eval]
      exact .located origin (.lookup scope name)
  | array origin elements, store, hallows => by
      rw [eval]
      exact .located origin ((evalList_growing hcalls elements store hallows.elements).bind
        fun _ _ _ => Eval.Growing.newId.bind fun _ _ _ => .pure _)
  | map origin pairs, store, hallows => by
      rw [eval]
      exact .located origin ((evalPairs_growing hcalls pairs store [] hallows.entries).bind
        fun _ _ _ => Eval.Growing.newId.bind fun _ _ _ => .pure _)
  | function _ _ _, _, _ => by
      rw [eval]
      exact Eval.Growing.newId.bind fun _ _ _ => .pure _
  | choice origin test consequence alternative, store, hallows => by
      rw [eval]
      refine .located origin ((eval_growing hcalls test store (hallows.part .test)).bind
        fun value middle htest => ?_)
      cases htruthy : value.truthy with
      | true =>
          exact eval_growing hcalls consequence middle
            (hallows.part (.consequence htest htruthy))
      | false =>
          have hchosen := hallows.alternative htest htruthy
          exact (evalOption_growing hcalls alternative middle hchosen).bind fun _ _ _ => .pure _
  | unary origin operator operand, store, hallows => by
      rw [eval]
      exact .located origin ((eval_growing hcalls operand store (hallows.part .operand)).bind
        fun _ _ _ => .ofExcept _)
  | binary origin left operator right, store, hallows => by
      rw [eval]
      refine .located origin ((eval_growing hcalls left store (hallows.part .left)).bind
        fun first middle hleft => ?_)
      exact (eval_growing hcalls right middle (hallows.part (.right hleft))).bind
        fun _ _ _ => .ofExcept _
  | call origin callee arguments, store, hallows => by
      rw [eval]
      refine .located origin ((eval_growing hcalls callee store (hallows.part .callee)).bind
        fun function middle hcallee => ?_)
      refine (evalList_growing hcalls arguments middle (hallows.arguments hcallee)).bind
        fun values start harguments => apply_growing hcalls ?_
      intro object closure hfunction id parent hcauses
      subst hfunction
      have hcall : Evaluation.Causes rounds ⟨calls, scope, .call origin callee arguments, store⟩ id
          parent := .call (.cons hcallee (yields_of_evalList harguments)) hcauses
      obtain ⟨inner, hleads, hopens⟩ := hcall
      exact hallows inner hleads id parent hopens
  | index origin target position, store, hallows => by
      rw [eval]
      refine .located origin ((eval_growing hcalls target store (hallows.part .target)).bind
        fun collection middle htarget => ?_)
      exact (eval_growing hcalls position middle (hallows.part (.position htarget))).bind
        fun _ _ _ => .ofExcept _
  | member origin target name, store, hallows => by
      rw [eval]
      refine .located origin ((eval_growing hcalls target store (hallows.part .owner)).bind
        fun _ _ _ => (Eval.Growing.nameOf name).bind fun _ _ _ => .ofExcept _)
  | assign origin target value, store, hallows => by
      rw [eval]
      refine .located origin ?_
      cases hname : target.identifier? with
      | none => exact .fault _
      | some name =>
          refine (Eval.Growing.has scope name).bind fun found middle hfound => ?_
          obtain ⟨rfl, rfl⟩ := EStateM.Result.ok.inj hfound
          cases hhas : store.has scope name with
          | false => exact .fault _
          | true =>
              exact (eval_growing hcalls value store (hallows.part (.assigned hname hhas))).bind
                fun result _ _ => (Eval.Growing.set name result).bind fun _ _ _ => .pure _

/-- Nodes one behind the other, by induction on the list. -/
theorem evalList_growing (hcalls : CallsGrow rounds calls) :
    ∀ (nodes : List Node) (store : Store),
    AllowsList rounds calls scope (Evaluation.OpensOnly rounds opens) nodes store →
    Eval.Growing opens scope (evalList (Closure.invoke rounds calls) rounds scope nodes) store
  | [], _, _ => by
      rw [evalList]
      exact .pure _
  | node :: nodes, store, hallows => by
      rw [evalList]
      refine (eval_growing hcalls node store hallows.head).bind fun value middle hnode => ?_
      exact (evalList_growing hcalls nodes middle (hallows.tail hnode)).bind fun _ _ _ => .pure _

theorem evalStatements_growing (hcalls : CallsGrow rounds calls) :
    ∀ (nodes : List Node) (store : Store) (result : Value),
    AllowsList rounds calls scope (Evaluation.OpensOnly rounds opens) nodes store →
    Eval.Growing opens scope
      (evalStatements (Closure.invoke rounds calls) rounds scope result nodes) store
  | [], _, _, _ => by
      rw [evalStatements]
      exact .pure _
  | node :: nodes, store, result, hallows => by
      rw [evalStatements]
      refine (eval_growing hcalls node store hallows.head).bind fun value middle hnode => ?_
      exact evalStatements_growing hcalls nodes middle _ (hallows.tail hnode)

theorem evalPairs_growing (hcalls : CallsGrow rounds calls) :
    ∀ (pairs : List (Node × Node)) (store : Store) (entries : List (String × Value)),
    AllowsPairs rounds calls scope (Evaluation.OpensOnly rounds opens) pairs store →
    Eval.Growing opens scope
      (evalPairs (Closure.invoke rounds calls) rounds scope entries pairs) store
  | [], _, _, _ => by
      rw [evalPairs]
      exact .pure _
  | (key, node) :: pairs, store, entries, hallows => by
      rw [evalPairs]
      refine (eval_growing hcalls key store hallows.head).bind fun name middle hkey => ?_
      refine keyText_growing.bind fun text _ htext => ?_
      obtain ⟨rfl, rfl⟩ := eq_string_of_keyText htext
      refine (eval_growing hcalls node _ (hallows.second hkey)).bind fun value final hvalue => ?_
      exact evalPairs_growing hcalls pairs final _ (hallows.tail (.cons hkey (.cons hvalue .nil)))

/-- An optional child grows the store as the child does. -/
theorem evalOption_growing (hcalls : CallsGrow rounds calls) :
    ∀ (child : Option Node) (store : Store),
    AllowsOption rounds calls scope (Evaluation.OpensOnly rounds opens) child store →
    Eval.Growing opens scope (evalOption (Closure.invoke rounds calls) rounds scope child) store
  | none, _, _ => by
      rw [evalOption]
      exact .pure _
  | some node, store, hallows => by
      rw [evalOption]
      exact (eval_growing hcalls node store (hallows node rfl)).bind fun _ _ _ => .pure _

end

end Walk

end Node

section Calls

variable {opens : ScopeId → ScopeId → Prop} {scope : ScopeId}

/-- Parameters are declared in the scope of the call, one by one. -/
theorem bind_growing : ∀ (pairs : List (Node × Value)) (store : Store),
    Eval.Growing opens scope (Closure.bind scope pairs) store
  | [], _ => .pure ()
  | (parameter, value) :: pairs, store => by
      rw [Closure.bind]
      exact (Eval.Growing.nameOf parameter).bind fun name _ _ =>
        (Eval.Growing.declare name value).bind fun _ middle _ => bind_growing pairs middle

/-- The application of a function grows the store by its own scope and by what its body causes. -/
theorem invoke_growing (rounds : Nat) : ∀ calls, Node.CallsGrow rounds calls
  | 0, _, _, _, _ => .throw _
  | calls + 1, closure, arguments, scope, store => by
      rw [Closure.invoke]
      by_cases hcount : arguments.length = closure.parameters.length
      · rw [if_pos hcount]
        have hopened : Grows (closure.Causes rounds (calls + 1) arguments store) scope store
            (store.openScope (some closure.scope)).2 := .openScope (.own hcount)
        refine hopened.within (.inr (Nat.le_refl store.scopes.size)) ?_
        -- What follows runs in the new scope.
        refine Eval.Growing.bind (bind_growing _ _) fun _ begun hbound => .catchReturn ?_
        refine Node.eval_growing (invoke_growing rounds calls) closure.body begun ?_
        exact fun inner hleads id parent hopens =>
          .body ⟨hcount, rfl, hbound⟩ ⟨inner, hleads, hopens⟩
      · rw [if_neg hcount]
        exact .fault _

/-- An evaluation only grows the scopes of its store, by what it causes. -/
theorem eval_grows (rounds calls : Nat) (scope : ScopeId) (node : Node) (store : Store) :
    Grows (Evaluation.Causes rounds ⟨calls, scope, node, store⟩) scope store
      ((node.eval (Closure.invoke rounds calls) rounds scope).after store) :=
  Node.eval_growing (invoke_growing rounds calls) node store
    fun inner hleads _ _ hopens => ⟨inner, hleads, hopens⟩

end Calls

end Scriptlet
