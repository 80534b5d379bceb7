import Scriptlet.Proofs.Evaluation.Ledger
import Scriptlet.Proofs.Store.Chart

/-!
# Values on their way

Evaluation hands values on: a declaration and an assignment to a name, a call to a parameter, a
return to the call, a literal to a place of a collection. Who looks there next finds the very same
value, with the identity that it had (`Evaluation.Hands.found`).
-/

namespace Scriptlet

/-- An action and the next one end with a value if the first one does and the next one then does. -/
theorem Eval.exists_of_bind {α β : Type} {action : Eval α} {next : α → Eval β} {store final : Store}
    {result : β} (h : (action >>= next) store = .ok result final) :
    ∃ value middle, action store = .ok value middle ∧ next value middle = .ok result final := by
  cases haction : action store with
  | error exit middle =>
      rw [bind_of_error haction] at h
      cases h
  | ok value middle =>
      rw [bind_of_ok haction] at h
      exact ⟨value, middle, rfl, h⟩

/-- A place is given to faults only: a result was there before. -/
theorem Eval.ok_of_located {α : Type} {origin : Origin} {action : Eval α} {store final : Store}
    {result : α} (h : Eval.located origin action store = .ok result final) :
    action store = .ok result final := by
  cases haction : action store with
  | ok other middle =>
      rw [located_of_ok origin haction] at h
      exact h
  | error exit middle =>
      rw [located_of_error origin haction] at h
      cases h

namespace Store

variable {store : Store} {id owner : ScopeId} {name other : Name} {value : Value}

/-- A name that the scope itself declares is found there. -/
theorem lookup?_of_cell? (h : store.cell? id name = some value) :
    store.lookup? id name = some value := by
  have hdeclares : store.declares id name = true := by rw [declares_eq, h]; rfl
  rw [lookup?_eq, resolve_eq, if_pos hdeclares, Option.bind_some, h]

theorem isSome_cell?_iff : (store.cell? id name).isSome = true ↔ name ∈ store.names id := by
  rw [← declares_eq, Discipline.declares_iff]

/-- A cell that is written has the value. -/
theorem cell?_write (hname : name ∈ store.names id) :
    (store.write id name value).cell? id name = some value := by
  rw [cell?_write_eq (isSome_cell?_iff.2 hname), if_pos ⟨rfl, rfl⟩]

/-- A cell that is appended has the value. -/
theorem cell?_append (hid : id < store.scopes.size) (hname : store.declares id name = false) :
    (store.append id name value).cell? id name = some value := by
  have hfree : store.cell? id name = none := by
    rw [← Option.not_isSome_iff_eq_none, ← declares_eq, hname]
    exact Bool.false_ne_true
  rw [cell?, Array.getElem?_eq_getElem hid, Option.bind_some] at hfree
  rw [append, cell?_modify, if_pos rfl, Array.getElem?_eq_getElem hid, Option.bind_some,
    Scope.find?_append, if_pos rfl, hfree]
  rfl

/-- A name that is declared keeps its value when another one is. -/
theorem cell?_append_of_some (h : store.cell? id name = some value) {another : Value} :
    (store.append id other another).cell? id name = some value := by
  obtain ⟨scope, hscope, hfind⟩ := Option.bind_eq_some_iff.1 h
  rw [append, cell?_modify, if_pos rfl, hscope, Option.bind_some, Scope.find?_append, hfind]
  rfl

theorem declares_write : (store.write owner name value).declares id other =
    store.declares id other := by
  rw [Bool.eq_iff_iff, Discipline.declares_iff, Discipline.declares_iff, names_write]

/-- Writing does not change where names are found. -/
theorem resolve_write (id : ScopeId) :
    (store.write owner name value).resolve id other = store.resolve id other := by
  induction id using Nat.strongRecOn with
  | _ id ih =>
      rw [resolve_eq, declares_write, parent?_write, resolve_eq]
      cases store.parent? id with
      | none => rfl
      | some outer =>
          by_cases houter : outer < id
          · simp only [if_pos houter, ih outer houter]
          · simp only [if_neg houter]

/-- A name resolves to a scope that declares it. -/
theorem mem_names_of_resolve {id : ScopeId} (h : store.resolve id name = some owner) :
    name ∈ store.names owner := by
  induction id using Nat.strongRecOn with
  | _ id ih =>
      rw [resolve_eq] at h
      split at h
      · next hdeclares =>
          cases h
          exact Discipline.declares_iff.1 hdeclares
      · split at h
        · cases h
        · split at h
          · next outer _ hless => exact ih outer hless h
          · cases h

/-- A name that is given a value where it resolves has it from then on. -/
theorem lookup?_write (h : store.resolve id name = some owner) :
    (store.write owner name value).lookup? id name = some value := by
  rw [lookup?_eq, resolve_write, h, Option.bind_some, cell?_write (mem_names_of_resolve h)]

end Store

namespace Value

variable {key name : String} {value : Value}

/-- Putting a value under a key changes that key only. -/
theorem lookup_putEntry (entries : List (String × Value)) :
    (putEntry key value entries).lookup name =
      if key = name then some value else entries.lookup name := by
  induction entries with
  | nil =>
      rw [putEntry, List.lookup_cons, List.lookup_nil]
      by_cases h : key = name
      · simp [h]
      · rw [if_neg h, beq_false_of_ne (Ne.symm h)]
  | cons entry entries ih =>
      obtain ⟨other, old⟩ := entry
      rw [putEntry]
      by_cases hother : other = key
      · subst hother
        rw [if_pos rfl, List.lookup_cons, List.lookup_cons]
        by_cases h : other = name
        · simp [h]
        · rw [beq_false_of_ne (Ne.symm h), if_neg h]
      · rw [if_neg hother, List.lookup_cons, List.lookup_cons, ih]
        by_cases h : name = other
        · subst h
          simp only [beq_self_eq_true, if_neg (Ne.symm hother)]
        · rw [beq_false_of_ne h]

/-- An array gives the element at a place that it has. -/
theorem index_array {id : ObjectId} {elements : List Value} {place : Nat}
    (h : elements[place]? = some value) :
    index (array id elements) (integer place) = .ok value := by
  have hplace : ¬ (place : Int) < 0 := by omega
  simp only [index, if_neg hplace, Int.toNat_natCast, h]

/-- Put entries one behind the other. -/
def putAll (given entries : List (String × Value)) : List (String × Value) :=
  given.foldl (fun entries entry => putEntry entry.1 entry.2 entries) entries

/-- Under each key stands the value that was put there last. -/
theorem lookup_putAll (given entries : List (String × Value)) :
    (putAll given entries).lookup name = (given.reverse.lookup name).or (entries.lookup name) := by
  induction given generalizing entries with
  | nil => rfl
  | cons entry given ih =>
      obtain ⟨key, value⟩ := entry
      rw [putAll, List.foldl_cons, ← putAll, ih, lookup_putEntry, List.reverse_cons,
        List.lookup_append, Option.or_assoc, List.lookup_cons]
      by_cases h : key = name
      · simp [h]
      · simp [h, beq_false_of_ne (Ne.symm h)]

/-- Of the values that were put under a key, the last one is found. -/
theorem entry_putAll {before behind : List (String × Value)} (h : ∀ entry ∈ behind, entry.1 ≠ key)
    (entries : List (String × Value)) :
    entry key (putAll (before ++ (key, value) :: behind) entries) = value := by
  have hbehind : behind.reverse.lookup key = none :=
    List.lookup_eq_none_iff.2 fun entry hentry =>
      bne_iff_ne.2 (h entry (List.mem_reverse.1 hentry)).symm
  rw [entry, lookup_putAll, List.reverse_append, List.reverse_cons, List.append_assoc,
    List.lookup_append, hbehind, List.singleton_append, List.lookup_cons_self]
  rfl

end Value

namespace Node

section Rules

variable (model : CallModel) (rounds : Nat) (scope : ScopeId)

/-- The keys and values of a map have these ordinary values, one behind the other. -/
inductive YieldsEntries : List (Node × Node) → Store → List (String × Value) → Store → Prop where
  | nil {store} : YieldsEntries [] store [] store
  | cons {key node pairs store middle next final text value given} :
      key.eval model rounds scope store = .ok (.string text) middle →
      node.eval model rounds scope middle = .ok value next →
      YieldsEntries pairs next given final →
      YieldsEntries ((key, node) :: pairs) store ((text, value) :: given) final

end Rules

variable {model : CallModel} {rounds : Nat} {scope : ScopeId} {store final : Store}

/-- Pairs with these values leave the rest of a map literal to do. -/
theorem evalPairs_append_of_yields {pairs : List (Node × Node)} {given : List (String × Value)}
    (h : YieldsEntries model rounds scope pairs store given final) (rest : List (Node × Node))
    (entries : List (String × Value)) :
    evalPairs model rounds scope entries (pairs ++ rest) store =
      evalPairs model rounds scope (Value.putAll given entries) rest final := by
  induction h generalizing entries with
  | nil => rfl
  | @cons key node pairs store middle next final text value given hkey hnode _ ih =>
      rw [List.cons_append, evalPairs, Eval.bind_of_ok hkey,
        Eval.bind_of_ok (keyText_string text middle), Eval.bind_of_ok hnode, ih]
      rfl

/-- Pairs that have keys and values are put into the map one by one. -/
theorem evalPairs_of_yields {pairs : List (Node × Node)} {given : List (String × Value)}
    (h : YieldsEntries model rounds scope pairs store given final)
    (entries : List (String × Value)) :
    evalPairs model rounds scope entries pairs store = .ok (Value.putAll given entries) final := by
  have hall := evalPairs_append_of_yields h [] entries
  rw [List.append_nil] at hall
  exact hall

end Node

namespace Evaluation

variable (rounds : Nat)

/-- The value that the evaluation ends with, its own or a returned one. -/
def value? (evaluation : Evaluation) : Option Value :=
  match evaluation.run rounds with
  | .ok value _ => some value
  | .error (.returned value) _ => some value
  | .error _ _ => none

/-- The store that the evaluation leaves. -/
def after (evaluation : Evaluation) : Store :=
  (evaluation.node.eval (Closure.invoke rounds evaluation.calls) rounds evaluation.scope).after
    evaluation.store

/-- The evaluation hands a value on, and this is what is found where the value went. -/
inductive Hands (evaluation : Evaluation) : Value → Option Value → Prop where
  /-- A declaration binds its name to the value. -/
  | binding {origin name text inner begun value middle} :
      evaluation.node = .declaration origin name (some inner) → name.naming = .ok text →
      evaluation.store.declare evaluation.scope text .null = .ok begun →
      run rounds { evaluation with node := inner, store := begun } = .ok value middle →
      Hands evaluation value ((evaluation.after rounds).lookup? evaluation.scope text)
  /-- An assignment gives a name in reach the value. -/
  | assignment {origin target name inner value middle} :
      evaluation.node = .assign origin target inner → target.identifier? = some name →
      evaluation.store.has evaluation.scope name = true →
      run rounds { evaluation with node := inner } = .ok value middle →
      Hands evaluation value ((evaluation.after rounds).lookup? evaluation.scope name)
  /-- A name is read. -/
  | reading {origin name value} : evaluation.node = .identifier origin name →
      evaluation.store.lookup? evaluation.scope name = some value →
      Hands evaluation value (evaluation.value? rounds)
  /-- A call passes its arguments to the parameters. -/
  | passing {origin callee arguments object closure values start inner begun parameter text value} :
      evaluation.node = .call origin callee arguments →
      Node.Yields (Closure.invoke rounds evaluation.calls) rounds evaluation.scope
        (callee :: arguments) evaluation.store (.function object closure :: values) start →
      closure.Starts values start inner begun →
      (parameter, value) ∈ closure.parameters.zip values → parameter.naming = .ok text →
      Hands evaluation value (begun.lookup? inner text)
  /-- A return hands over the value behind it. -/
  | returning {origin inner value middle} :
      evaluation.node = .returning origin (some inner) →
      run rounds { evaluation with node := inner } = .ok value middle →
      Hands evaluation value (evaluation.value? rounds)
  /-- A call has the value that its body ends with. -/
  | calling {origin callee arguments object closure values start inner begun calls value} :
      evaluation.node = .call origin callee arguments → evaluation.calls = calls + 1 →
      Node.Yields (Closure.invoke rounds evaluation.calls) rounds evaluation.scope
        (callee :: arguments) evaluation.store (.function object closure :: values) start →
      closure.Starts values start inner begun →
      value? rounds ⟨calls, inner, closure.body, begun⟩ = some value →
      Hands evaluation value (evaluation.value? rounds)
  /-- An array literal stores its elements at their places. -/
  | element {origin elements values middle place value} :
      evaluation.node = .array origin elements →
      Node.Yields (Closure.invoke rounds evaluation.calls) rounds evaluation.scope elements
        evaluation.store values middle →
      values[place]? = some value →
      Hands evaluation value ((evaluation.value? rounds).bind fun array =>
        (Value.index array (.integer (place : Nat))).toOption)
  /-- A map literal stores the last value of each key under it. -/
  | entry {origin pairs before key value behind middle} :
      evaluation.node = .map origin pairs →
      Node.YieldsEntries (Closure.invoke rounds evaluation.calls) rounds evaluation.scope pairs
        evaluation.store (before ++ (key, value) :: behind) middle →
      (∀ entry ∈ behind, entry.1 ≠ key) →
      Hands evaluation value ((evaluation.value? rounds).bind fun map =>
        (Value.index map (.string key)).toOption)
  /-- The values of a map are its members, too. -/
  | member {origin pairs before value behind middle} {key : String} :
      evaluation.node = .map origin pairs →
      Node.YieldsEntries (Closure.invoke rounds evaluation.calls) rounds evaluation.scope pairs
        evaluation.store (before ++ (key, value) :: behind) middle →
      (∀ entry ∈ behind, entry.1 ≠ key) →
      Hands evaluation value ((evaluation.value? rounds).bind fun map =>
        (Value.member map key).toOption)
  /-- A member of a value is read. -/
  | accessing {origin target label owner name middle value} :
      evaluation.node = .member origin target label →
      run rounds { evaluation with node := target } = .ok owner middle →
      label.naming = .ok name → Value.member owner name = .ok value →
      Hands evaluation value (evaluation.value? rounds)
  /-- A place of a collection is read. -/
  | indexing {origin target position collection place middle value} :
      evaluation.node = .index origin target position →
      Node.Yields (Closure.invoke rounds evaluation.calls) rounds evaluation.scope
        [target, position] evaluation.store [collection, place] middle →
      Value.index collection place = .ok value →
      Hands evaluation value (evaluation.value? rounds)

variable {rounds} {evaluation : Evaluation} {value : Value} {final : Store}

theorem after_of_ok (h : evaluation.run rounds = .ok value final) :
    evaluation.after rounds = final :=
  Eval.after_of_ok h

theorem value?_of_ok (h : evaluation.run rounds = .ok value final) :
    evaluation.value? rounds = some value := by
  rw [value?, h]

/-- A value is given by an ordinary end or by a return. -/
theorem exists_of_value? (h : evaluation.value? rounds = some value) :
    ∃ final, evaluation.run rounds = .ok value final ∨
      evaluation.run rounds = .error (.returned value) final := by
  rw [value?] at h
  split at h
  · next final hrun =>
      cases h
      exact ⟨final, .inl hrun⟩
  · next final hrun =>
      cases h
      exact ⟨final, .inr hrun⟩
  · cases h

section Ways

variable {calls : Nat} {scope : ScopeId} {origin : Origin} {inner : Node} {name : Name}
  {store middle start begun : Store} {closure : Closure} {values : List Value}

/-- A declaration gives its name the value of its first value. -/
theorem after_declaration {label : Node} (hscope : scope < store.scopes.size)
    (hname : label.naming = .ok name) (hdeclare : store.declare scope name .null = .ok begun)
    (hinner : run rounds ⟨calls, scope, inner, begun⟩ = .ok value middle) :
    (after rounds ⟨calls, scope, .declaration origin label (some inner), store⟩).lookup? scope
      name = some value := by
  have htext : Eval.nameOf label store = .ok name store := by rw [Eval.nameOf, hname]
  have hdeclared : Eval.declare scope name .null store = .ok () begun := by
    rw [Eval.declare, hdeclare]
  have hrun : run rounds ⟨calls, scope, .declaration origin label (some inner), store⟩ =
      .ok .null (middle.write scope name value) := by
    rw [run, Node.eval]
    refine Eval.located_of_ok origin ?_
    rw [Eval.bind_of_ok htext, Eval.bind_of_ok hdeclared,
      Eval.bind_of_ok (Node.evalOption_of_yields (.cons hinner .nil))]
    rfl
  rw [after_of_ok hrun]
  refine Store.lookup?_of_cell? (Store.cell?_write ?_)
  -- The name is declared before its first value is evaluated, and stays so.
  have hgrows := eval_grows rounds calls scope inner begun
  rw [Eval.after_of_ok hinner] at hgrows
  refine hgrows.names_subset ?_
  rw [Discipline.eq_append_of_declare hdeclared, Store.names_append_self hscope]
  exact List.mem_append_right _ List.mem_cons_self

/-- An assignment to a name in reach gives it the value where it is found behind the right side. -/
theorem exists_run_assign {name : String} (origin : Origin) {target : Node}
    (hname : target.identifier? = some name)
    (hhas : store.has scope name = true)
    (hinner : run rounds ⟨calls, scope, inner, store⟩ = .ok value middle) :
    ∃ owner, middle.resolve scope name = some owner ∧
      run rounds ⟨calls, scope, .assign origin target inner, store⟩ =
        .ok value (middle.write owner name value) := by
  -- What is in reach before the value is evaluated is so behind it, perhaps in another scope.
  have hgrows := eval_grows rounds calls scope inner store
  rw [Eval.after_of_ok hinner] at hgrows
  obtain ⟨owner, howner⟩ := Option.isSome_iff_exists.1 (hgrows.has hhas)
  have hfound : Eval.has scope name store = .ok true store := by rw [Eval.has, hhas]
  have hset : Eval.set scope name value middle = .ok () (middle.write owner name value) := by
    rw [Eval.set, Store.set, howner]
  refine ⟨owner, howner, ?_⟩
  rw [run]
  simp only [Node.eval, hname]
  refine Eval.located_of_ok origin ?_
  rw [Eval.bind_of_ok hfound, if_pos rfl, Eval.bind_of_ok hinner, Eval.bind_of_ok hset]
  rfl

/-- Behind an assignment the name has the value of the right side. -/
theorem after_assign {name : String} {target : Node} (hname : target.identifier? = some name)
    (hhas : store.has scope name = true)
    (hinner : run rounds ⟨calls, scope, inner, store⟩ = .ok value middle) :
    (after rounds ⟨calls, scope, .assign origin target inner, store⟩).lookup? scope name =
      some value := by
  obtain ⟨owner, howner, hrun⟩ := exists_run_assign origin hname hhas hinner
  rw [after_of_ok hrun]
  exact Store.lookup?_write howner

/-- An identifier gives the value that its name has. -/
theorem value?_identifier {name : String} (h : store.lookup? scope name = some value) :
    value? rounds ⟨calls, scope, .identifier origin name, store⟩ = some value := by
  have hrun : run rounds ⟨calls, scope, .identifier origin name, store⟩ = .ok value store := by
    rw [run, Node.eval]
    refine Eval.located_of_ok origin ?_
    rw [Eval.lookup, h]
  exact value?_of_ok hrun

/-- Binding parameters keeps what the scope has, and gives each parameter its argument. -/
theorem cell?_of_bind : ∀ {pairs : List (Node × Value)} {store : Store},
    scope < store.scopes.size → Closure.bind scope pairs store = .ok () final →
    (∀ value, store.cell? scope name = some value → final.cell? scope name = some value) ∧
    ∀ parameter value, (parameter, value) ∈ pairs → parameter.naming = .ok name →
      final.cell? scope name = some value
  | [], store, _, h => by
      cases h
      exact ⟨fun _ hcell => hcell, nofun⟩
  | (parameter, value) :: pairs, store, hscope, h => by
      rw [Closure.bind] at h
      obtain ⟨text, begun, hnamed, hrest⟩ := Eval.exists_of_bind h
      obtain ⟨htext, rfl⟩ := Node.naming_of_nameOf hnamed
      obtain ⟨_, next, hdeclared, hlast⟩ := Eval.exists_of_bind hrest
      have hdeclare := Node.declare_of_declare hdeclared
      obtain rfl := Discipline.eq_append_of_declare hdeclared
      have hnew : begun.declares scope text = false := by
        rw [Store.declare] at hdeclare
        split at hdeclare
        · cases hdeclare
        · next hnew => exact Bool.not_eq_true _ ▸ hnew
      have hsize : scope < (begun.append scope text value).scopes.size := by
        rw [Store.append, Array.size_modify]
        exact hscope
      obtain ⟨hkept, hbound⟩ := cell?_of_bind hsize hlast
      refine ⟨fun old hold => hkept old (Store.cell?_append_of_some hold), ?_⟩
      intro other argument hmem hother
      rcases List.mem_cons.1 hmem with heq | hmem
      · cases heq
        obtain rfl : text = name := Except.ok.inj (htext.symm.trans hother)
        exact hkept value (Store.cell?_append hscope hnew)
      · exact hbound other argument hmem hother

/-- In the scope of a call, a parameter has its argument. -/
theorem lookup?_of_starts {parameter : Node} (hstarts : closure.Starts values start scope begun)
    (hmem : (parameter, value) ∈ closure.parameters.zip values)
    (hname : parameter.naming = .ok name) : begun.lookup? scope name = some value := by
  obtain ⟨-, rfl, hbound⟩ := hstarts
  refine Store.lookup?_of_cell? ((cell?_of_bind ?_ hbound).2 parameter value hmem hname)
  rw [Store.openScope, Array.size_push]
  exact Nat.lt_succ_self _

theorem value?_returning (hinner : run rounds ⟨calls, scope, inner, store⟩ = .ok value middle) :
    value? rounds ⟨calls, scope, .returning origin (some inner), store⟩ = some value := by
  have hrun : run rounds ⟨calls, scope, .returning origin (some inner), store⟩ =
      .error (.returned value) middle := by
    have hyields : Node.Yields (Closure.invoke rounds calls) rounds scope (some inner).toList store
        [value] middle := .cons hinner .nil
    have haction : (do
        let result ← Node.evalOption (Closure.invoke rounds calls) rounds scope (some inner)
        throw (.returned (result.getD .null)) : Eval Value) store =
          .error (.returned value) middle := by
      rw [Eval.bind_of_ok (Node.evalOption_of_yields hyields)]
      rfl
    rw [run, Node.eval]
    exact Eval.located_of_error origin haction
  rw [value?, hrun]

/-- A call gives what the body of the function gives, returned or not. -/
theorem value?_call {callee : Node} {arguments : List Node} {object : ObjectId} {body : ScopeId}
    (hyields : Node.Yields (Closure.invoke rounds (calls + 1)) rounds scope (callee :: arguments)
      store (.function object closure :: values) start)
    (hstarts : closure.Starts values start body begun)
    (hbody : value? rounds ⟨calls, body, closure.body, begun⟩ = some value) :
    value? rounds ⟨calls + 1, scope, .call origin callee arguments, store⟩ = some value := by
  have hinvoke : ∃ final,
      Closure.invoke rounds (calls + 1) closure values start = .ok value final := by
    obtain ⟨final, hrun | hrun⟩ := exists_of_value? hbody
    · obtain ⟨hcount, rfl, hbound⟩ := hstarts
      have hopened : Eval.openScope closure.scope start =
          .ok start.scopes.size (start.openScope (some closure.scope)).2 := rfl
      refine ⟨final, ?_⟩
      rw [Closure.invoke, if_pos hcount, Eval.bind_of_ok hopened, Eval.bind_of_ok hbound,
        Eval.catchReturn]
      rw [run] at hrun
      rw [hrun]
    · exact ⟨final, hstarts.invoke_of_returned hrun⟩
  cases hyields with
  | cons hcallee harguments =>
      obtain ⟨final, hinvoke⟩ := hinvoke
      have hrun : run rounds ⟨calls + 1, scope, .call origin callee arguments, store⟩ =
          .ok value final := by
        rw [run, Node.eval]
        refine Eval.located_of_ok origin ?_
        rw [Eval.bind_of_ok hcallee, Eval.bind_of_ok (Node.evalList_of_yields harguments)]
        exact hinvoke
      exact value?_of_ok hrun

theorem run_array {elements : List Node}
    (h : Node.Yields (Closure.invoke rounds calls) rounds scope elements store values middle) :
    run rounds ⟨calls, scope, .array origin elements, store⟩ =
      .ok (.array middle.fresh values) middle.newId.2 := by
  rw [run, Node.eval]
  refine Eval.located_of_ok origin ?_
  rw [Eval.bind_of_ok (Node.evalList_of_yields h)]
  rfl

theorem run_map {pairs : List (Node × Node)} {given : List (String × Value)}
    (h : Node.YieldsEntries (Closure.invoke rounds calls) rounds scope pairs store given middle) :
    run rounds ⟨calls, scope, .map origin pairs, store⟩ =
      .ok (.map middle.fresh (Value.putAll given [])) middle.newId.2 := by
  rw [run, Node.eval]
  refine Eval.located_of_ok origin ?_
  rw [Eval.bind_of_ok (Node.evalPairs_of_yields h [])]
  rfl

/-- A member access gives what its owner has under the name. -/
theorem run_member (origin : Origin) {target label : Node} {owner : Value}
    (htarget : run rounds ⟨calls, scope, target, store⟩ = .ok owner middle)
    (hname : label.naming = .ok name) (hmember : Value.member owner name = .ok value) :
    run rounds ⟨calls, scope, .member origin target label, store⟩ = .ok value middle := by
  have htext : Eval.nameOf label middle = .ok name middle := by rw [Eval.nameOf, hname]
  rw [run, Node.eval]
  refine Eval.located_of_ok origin ?_
  rw [Eval.bind_of_ok htarget, Eval.bind_of_ok htext, hmember]
  rfl

/-- An index gives what the collection has at the place. -/
theorem run_index (origin : Origin) {target position : Node} {collection place : Value}
    (hyields : Node.Yields (Closure.invoke rounds calls) rounds scope [target, position] store
      [collection, place] middle)
    (hindex : Value.index collection place = .ok value) :
    run rounds ⟨calls, scope, .index origin target position, store⟩ = .ok value middle := by
  obtain ⟨next, htarget, hposition⟩ := hyields.pair
  rw [run, Node.eval]
  refine Eval.located_of_ok origin ?_
  rw [Eval.bind_of_ok htarget, Eval.bind_of_ok hposition, hindex]
  rfl

end Ways

/-- A value that is handed on is found where it went. -/
theorem Hands.found {found : Option Value} (h : evaluation.Hands rounds value found)
    (hscope : evaluation.scope < evaluation.store.scopes.size) : found = some value := by
  obtain ⟨calls, scope, node, store⟩ := evaluation
  cases h with
  | binding hnode hname hdeclare hinner =>
      obtain rfl : node = _ := hnode
      exact after_declaration hscope hname hdeclare hinner
  | assignment hnode hname hhas hinner =>
      obtain rfl : node = _ := hnode
      exact after_assign hname hhas hinner
  | reading hnode hlookup =>
      obtain rfl : node = _ := hnode
      exact value?_identifier hlookup
  | passing _ _ hstarts hmem hname => exact lookup?_of_starts hstarts hmem hname
  | returning hnode hinner =>
      obtain rfl : node = _ := hnode
      exact value?_returning hinner
  | calling hnode hcalls hyields hstarts hbody =>
      obtain rfl : node = _ := hnode
      obtain rfl : calls = _ := hcalls
      exact value?_call hyields hstarts hbody
  | @element _ _ _ _ place _ hnode hyields hplace =>
      obtain rfl : node = _ := hnode
      rw [value?_of_ok (run_array hyields), Option.bind_some, Value.index_array hplace]
      rfl
  | entry hnode hyields hlast =>
      obtain rfl : node = _ := hnode
      rw [value?_of_ok (run_map hyields), Option.bind_some, Value.index, Value.entry_putAll hlast]
      rfl
  | member hnode hyields hlast =>
      obtain rfl : node = _ := hnode
      rw [value?_of_ok (run_map hyields), Option.bind_some, Value.member, Value.named,
        Value.entry_putAll hlast]
      rfl
  | accessing hnode htarget hname hmember =>
      obtain rfl : node = _ := hnode
      exact value?_of_ok (run_member _ htarget hname hmember)
  | indexing hnode hyields hindex =>
      obtain rfl : node = _ := hnode
      exact value?_of_ok (run_index _ hyields hindex)

end Evaluation

end Scriptlet
