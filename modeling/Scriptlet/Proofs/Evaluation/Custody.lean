import Scriptlet.Proofs.Evaluation.Growth
import Scriptlet.Proofs.Parts

/-!
# What an evaluation can come to hold

A `Discipline` says which code may be evaluated, which values may occur, which scopes may be opened
inside which others and which failures may come up, such that each single step of evaluation keeps
to it. `Discipline.eval_keeps` then says so of whole evaluations, calls included, as long as what
they measure has an admitted size: their values fit, the store they leave holds fitting values and
links only, what they print fits, and their failures are among the allowed ones, at the place of the
node that raised them.
-/

namespace Scriptlet

/-- The faults that a node itself can have, once its parts have values. -/
inductive Node.Faults : Node → Fault → Prop where
  | redeclared {origin name value text} : name.naming = .ok text →
      Faults (.declaration origin name value) (.redeclared text)
  | unbound {origin} {name : String} : Faults (.identifier origin name) (.unbound name)
  | badKey {origin pairs type} : Faults (.map origin pairs) (.badKey type)
  | unary {origin operator operand value cause} : Value.unary operator value = .error cause →
      Faults (.unary origin operator operand) cause
  | binary {origin left operator right first second cause} :
      Value.binary operator first second = .error cause →
      Faults (.binary origin left operator right) cause
  | index {origin target position collection place cause} :
      Value.index collection place = .error cause → Faults (.index origin target position) cause
  | member {origin target name value text cause} : name.naming = .ok text →
      Value.member value text = .error cause → Faults (.member origin target name) cause
  | badTarget {origin target value} : Faults (.assign origin target value) .badTarget
  | notCallable {origin callee arguments} : Faults (.call origin callee arguments) .notCallable
  | length {origin callee arguments values cause} : Value.length values = .error cause →
      Faults (.call origin callee arguments) cause

/-- What a node itself can fail with, once its parts have values. -/
inductive Node.Raises : Node → Failure → Prop where
  | fault {node cause} : node.Faults cause → Raises node (.raised cause)
  | hole : Raises .hole (.flaw .hole)
  | nameless {origin name value flaw} : name.naming = .error flaw →
      Raises (.declaration origin name value) (.flaw flaw)
  | memberless {origin target name flaw} : name.naming = .error flaw →
      Raises (.member origin target name) (.flaw flaw)
  | sink {origin callee arguments reason} : Raises (.call origin callee arguments) (.sink reason)

/-- The names under which parameters are declared, in order. -/
def Node.declaredNames (parameters : List Node) : List Name :=
  parameters.filterMap fun parameter => parameter.naming.toOption

/-- The faults that the application of a closure can have before its body runs. -/
inductive Closure.Rejects (closure : Closure) (arguments : List Value) : Fault → Prop where
  | count : arguments.length ≠ closure.parameters.length →
      Rejects closure arguments (.argumentCount arguments.length closure.parameters.length)
  | duplicate {name} : 1 < (Node.declaredNames closure.parameters).count name →
      Rejects closure arguments (.redeclared name)

/-- What the application of a closure can fail with before its body runs. -/
inductive Closure.Refuses (closure : Closure) (arguments : List Value) : Failure → Prop where
  | fault {cause} : closure.Rejects arguments cause → Refuses closure arguments (.raised cause)
  | nameless {parameter flaw} : parameter ∈ closure.parameters → parameter.naming = .error flaw →
      Refuses closure arguments (.flaw flaw)

/-- A fault that was found has no place yet. -/
theorem Failure.eq_of_raised_eq {cause found : Fault} {position : Option Position}
    (h : raised found = .fault cause position) : position = none ∧ cause = found := by
  unfold raised at h
  split at h
  · cases h
  · cases h
    exact ⟨rfl, rfl⟩

/-- A fault is raised as a fault or as the flaw in its text, never as a failure to print. -/
theorem Failure.raised_ne_sink (cause : Fault) (reason : String) : raised cause ≠ .sink reason := by
  unfold raised
  split <;> nofun

/-- The failure with the place of an origin, if it is a fault that has none yet. -/
def Failure.located (origin : Origin) : Failure → Failure
  | fault cause none => fault cause origin.position?
  | failure => failure

/-- A failure that passes a node gets the place of the node. -/
theorem Exit.located_failed (origin : Origin) (failure : Failure) :
    (failed failure).located origin = failed (failure.located origin) := by
  cases failure with
  | sink | flaw => rfl
  | fault cause position => cases position <;> rfl

/-- The evaluation is that of a node which measures a string or an array with so many elements. -/
inductive Evaluation.Measures (rounds : Nat) : Evaluation → Nat → Prop where
  | length {calls scope origin callee arguments store value start count} :
      Node.Yields (Closure.invoke rounds calls) rounds scope (callee :: arguments) store
        [.builtin .len, value] start →
      value.size? = some count →
      Measures rounds ⟨calls, scope, .call origin callee arguments, store⟩ count
  | member {calls scope origin target name store value middle count} :
      target.eval (Closure.invoke rounds calls) rounds scope store = .ok value middle →
      name.naming = .ok "length" → value.size? = some count →
      Measures rounds ⟨calls, scope, .member origin target name, store⟩ count

/-- A place does not make a failure of the sink. -/
theorem Failure.eq_sink_of_located {origin : Origin} (failure : Failure) {reason : String}
    (h : failure.located origin = .sink reason) : failure = .sink reason := by
  cases failure with
  | sink | flaw => exact h
  | fault cause position => cases position <;> cases h

/-- Rules that every step of evaluation keeps. -/
structure Discipline where
  /-- The nodes that may be evaluated. -/
  code : Node → Prop
  /-- The values that may occur in a store of so many scopes. -/
  fits : Nat → Value → Prop
  /-- The scopes that may be opened, and the ones they may be opened inside. -/
  link : ScopeId → ScopeId → Prop
  /-- The failures that may come up. -/
  failure : Failure → Prop
  /-- The sizes that may be measured. -/
  count : Nat → Prop
  part : ∀ {node inner}, code node → inner ∈ node.children → code inner
  later : ∀ {size more value}, fits size value → size ≤ more → fits more value
  simple : ∀ {size value}, value.Simple → fits size value
  array : ∀ {size id elements}, fits size (.array id elements)
  map : ∀ {size id entries}, fits size (.map id entries)
  counted : ∀ {size measured}, count measured → fits size (.integer measured)
  literal : ∀ {size origin value}, code (.integer origin value) → fits size (.integer value)
  made : ∀ {size origin parameters body scope id}, code (.function origin parameters body) →
    scope < size → fits size (.function id ⟨parameters, body, scope⟩)
  body : ∀ {size id closure}, fits size (.function id closure) → code closure.body
  linked : ∀ {size id closure}, fits size (.function id closure) → link size closure.scope
  raised : ∀ {node failed}, code node → node.Raises failed → failure (failed.located node.origin)
  refused : ∀ {origin callee arguments size id closure values failed},
    code (.call origin callee arguments) → fits size (.function id closure) →
    closure.Refuses values failed → failure (failed.located origin)
  outward : ∀ {node failed}, code node → failure failed → failure (failed.located node.origin)

namespace Discipline

variable (rules : Discipline)

/-- The value and all that occurs in it fit. -/
def Fits (size : Nat) (value : Value) : Prop :=
  ∀ part, part.Occurs value → rules.fits size part

/-- The store holds fitting values and links only. -/
structure Holds (store : Store) : Prop where
  values : ∀ {id : ScopeId} {scope : Scope}, store.scopes[id]? = some scope →
    ∀ binding ∈ scope.bindings, rules.Fits store.scopes.size binding.2
  links : ∀ {id parent}, store.parent? id = some parent → rules.link id parent

/-- A list of fitting values. -/
def FitsAll (size : Nat) (values : List Value) : Prop :=
  ∀ value ∈ values, rules.Fits size value

/-- The second store holds fitting values and has no fewer scopes than the first, and what was
printed meanwhile fits. -/
structure Keeps (before after : Store) : Prop where
  size : before.scopes.size ≤ after.scopes.size
  holds : rules.Holds after
  sink : after.sink = before.sink
  printed : ∃ calls, after.printed.toList = before.printed.toList ++ calls ∧
    ∀ arguments ∈ calls, rules.FitsAll after.scopes.size arguments

/-- How an evaluation that leaves the store `final` may end without a value, when some failures are
still on their way. Only a broken sink fails. -/
inductive Exits (pending : Failure → Prop) (final : Store) : Exit → Prop where
  | returned {value} : rules.Fits final.scopes.size value → Exits pending final (.returned value)
  | failed {failure} : pending failure →
      (∀ reason, failure = .sink reason → final.sink = .broken reason) →
      Exits pending final (.failed failure)
  | exhausted : Exits pending final .exhausted

/-- The failures that are on their way inside a node of this origin, which gives them their
place. -/
def Pending (origin : Origin) (failed : Failure) : Prop :=
  rules.failure (failed.located origin)

/-- An action that is begun in a store keeps the rules, and its value is as expected. -/
def Ends {α : Type} (pending : Failure → Prop) (expected : Nat → α → Prop) (action : Eval α)
    (store : Store) : Prop :=
  match action store with
  | .ok value final => rules.Keeps store final ∧ expected final.scopes.size value
  | .error exit final => rules.Keeps store final ∧ rules.Exits pending final exit

variable {rules}

theorem Exits.fault {pending : Failure → Prop} {final : Store} {cause : Fault}
    {position : Option Position} (h : pending (.fault cause position)) :
    rules.Exits pending final (.failed (.fault cause position)) := by
  refine .failed h fun reason hreason => ?_
  cases hreason

/-- A fault that is raised ends an action if what it is raised as is a pending failure. -/
theorem Exits.raised {pending : Failure → Prop} {final : Store} {cause : Fault}
    (h : pending (.raised cause)) : rules.Exits pending final (.failed (.raised cause)) :=
  .failed h fun reason hreason => absurd hreason (Failure.raised_ne_sink cause reason)

theorem Exits.flaw {pending : Failure → Prop} {final : Store} {flaw : Flaw}
    (h : pending (.flaw flaw)) : rules.Exits pending final (.failed (.flaw flaw)) := by
  refine .failed h fun reason hreason => ?_
  cases hreason

section Values

variable {size more : Nat} {value : Value}

/-- A value still fits when more scopes are there. -/
theorem Fits.later (h : rules.Fits size value) (hsize : size ≤ more) : rules.Fits more value :=
  fun part hpart => rules.later (h part hpart) hsize

/-- What occurs in a value that fits does fit. -/
theorem Fits.occurs {part : Value} (h : rules.Fits size value) (hpart : part.Occurs value) :
    rules.Fits size part :=
  fun inner hinner => h inner (hinner.trans hpart)

/-- Data made on the spot always fit. -/
theorem fits_of_simple (h : value.Simple) : rules.Fits size value := by
  intro part hpart
  rw [h.eq_of_occurs hpart]
  exact rules.simple h

/-- An array fits if its elements do. -/
theorem fits_array {id : ObjectId} {elements : List Value}
    (h : ∀ value ∈ elements, rules.Fits size value) : rules.Fits size (.array id elements) := by
  intro part hpart
  cases hpart with
  | self => exact rules.array
  | element hmem hpart => exact h _ hmem part hpart

theorem fits_map {id : ObjectId} {entries : List (String × Value)}
    (h : ∀ entry ∈ entries, rules.Fits size entry.2) : rules.Fits size (.map id entries) := by
  intro part hpart
  cases hpart with
  | self => exact rules.map
  | entry hmem hpart => exact h _ hmem part hpart

/-- An integer has no parts. -/
theorem fits_integer {n : Int} (h : rules.fits size (.integer n)) :
    rules.Fits size (.integer n) := by
  intro part hpart
  cases hpart with
  | self => exact h

/-- A function has no parts: what its scope holds is the concern of the store. -/
theorem fits_function {id : ObjectId} {closure : Closure}
    (h : rules.fits size (.function id closure)) : rules.Fits size (.function id closure) := by
  intro part hpart
  cases hpart with
  | self => exact h

end Values

section Stores

variable {store final : Store} {id owner : ScopeId} {name : Name} {value : Value}

theorem FitsAll.later {size more : Nat} {values : List Value} (h : rules.FitsAll size values)
    (hsize : size ≤ more) : rules.FitsAll more values :=
  fun value hvalue => (h value hvalue).later hsize

/-- A step that touches neither the sink nor what was printed. -/
theorem Holds.keeps_of_printed (h : rules.Holds final)
    (hsize : store.scopes.size ≤ final.scopes.size) (hsink : final.sink = store.sink)
    (hprinted : final.printed = store.printed) : rules.Keeps store final :=
  ⟨hsize, h, hsink, [], by rw [hprinted, List.append_nil], nofun⟩

/-- A store that holds to the rules keeps to them by staying as it is. -/
theorem Holds.keeps (h : rules.Holds store) : rules.Keeps store store :=
  h.keeps_of_printed (Nat.le_refl _) rfl rfl

/-- What keeps to the rules step by step keeps to them. -/
theorem Keeps.trans {middle : Store} (h : rules.Keeps store middle)
    (hnext : rules.Keeps middle final) : rules.Keeps store final := by
  obtain ⟨calls, hcalls, hfits⟩ := h.printed
  obtain ⟨more, hmore, hlater⟩ := hnext.printed
  refine ⟨Nat.le_trans h.size hnext.size, hnext.holds, hnext.sink.trans h.sink, calls ++ more,
    ?_, ?_⟩
  · rw [hmore, hcalls, List.append_assoc]
  · intro arguments harguments
    rcases List.mem_append.1 harguments with hmem | hmem
    · exact (hfits arguments hmem).later hnext.size
    · exact hlater arguments hmem

/-- A store with the same scopes holds to the rules as well. -/
theorem Holds.of_scopes_eq (h : rules.Holds store) (hscopes : final.scopes = store.scopes) :
    rules.Holds final where
  values := by
    rw [hscopes]
    exact h.values
  links := by
    intro id parent hparent
    rw [Store.parent?, hscopes] at hparent
    exact h.links hparent

/-- The sink takes fitting values. -/
theorem Holds.print (h : rules.Holds store) {arguments : List Value}
    (hfits : rules.FitsAll store.scopes.size arguments) :
    rules.Keeps store { store with printed := store.printed.push arguments } where
  size := Nat.le_refl _
  holds := h.of_scopes_eq rfl
  sink := rfl
  printed := ⟨[arguments], Array.toList_push, List.forall_mem_singleton.2 hfits⟩

/-- What a name stands for fits. -/
theorem Holds.lookup (h : rules.Holds store) (hlookup : store.lookup? id name = some value) :
    rules.Fits store.scopes.size value := by
  rw [Store.lookup?] at hlookup
  split at hlookup
  · cases hlookup
  · split at hlookup
    · cases hlookup
    · next scope hscope =>
        obtain ⟨before, behind, hbindings, -⟩ := List.lookup_eq_some_iff.1 hlookup
        exact h.values hscope (name, value) (by rw [hbindings]; simp)

/-- A change of one scope that keeps its parent and brings in fitting values. -/
theorem Holds.modify (h : rules.Holds store) {change : Scope → Scope}
    (hparent : ∀ scope, (change scope).parent = scope.parent)
    (hvalues : ∀ scope, ∀ binding ∈ (change scope).bindings,
      binding ∈ scope.bindings ∨ rules.Fits store.scopes.size binding.2) :
    rules.Keeps store { store with scopes := store.scopes.modify owner change } := by
  refine Holds.keeps_of_printed ⟨?_, ?_⟩ (Nat.le_of_eq Array.size_modify.symm) rfl rfl
  · intro id scope hscope binding hbinding
    rw [Array.size_modify]
    simp only [Array.getElem?_modify] at hscope
    split at hscope
    · obtain ⟨old, hold, rfl⟩ := Option.map_eq_some_iff.1 hscope
      exact (hvalues old binding hbinding).elim (h.values hold binding) fun hfits => hfits
    · exact h.values hscope binding hbinding
  · intro id parent hlink
    rw [Store.parent?_modify hparent] at hlink
    exact h.links hlink

/-- A name may be declared with a value that fits. -/
theorem Holds.append (h : rules.Holds store) (hvalue : rules.Fits store.scopes.size value) :
    rules.Keeps store (store.append owner name value) := by
  refine h.modify (fun _ => rfl) ?_
  intro scope binding hmem
  rcases List.mem_append.1 hmem with hold | hnew
  · exact .inl hold
  · rw [List.mem_singleton.1 hnew]
    exact .inr hvalue

/-- A name may be given a value that fits. -/
theorem Holds.write (h : rules.Holds store) (hvalue : rules.Fits store.scopes.size value) :
    rules.Keeps store (store.write owner name value) := by
  refine h.modify (fun _ => rfl) ?_
  intro scope binding hmem
  obtain ⟨old, hold, hnew⟩ := List.mem_map.1 hmem
  split at hnew
  · rw [← hnew]
    exact .inr hvalue
  · rw [← hnew]
    exact .inl hold

/-- A scope may be opened inside one that may be linked to. -/
theorem Holds.openScope (h : rules.Holds store) (hlink : rules.link store.scopes.size owner) :
    rules.Keeps store (store.openScope (some owner)).2 := by
  have hsize : store.scopes.size ≤ (store.openScope (some owner)).2.scopes.size := by
    rw [Store.openScope, Array.size_push]
    exact Nat.le_succ _
  refine Holds.keeps_of_printed ⟨?_, ?_⟩ hsize rfl rfl
  · intro id scope hscope binding hbinding
    rw [Store.openScope, Array.getElem?_push] at hscope
    split at hscope
    · cases hscope
      cases hbinding
    · exact (h.values hscope binding hbinding).later hsize
  · intro id parent hparent
    rw [Store.parent?, Store.openScope, Array.getElem?_push] at hparent
    split at hparent
    · next hid =>
        cases hparent
        rw [hid]
        exact hlink
    · exact h.links hparent

/-- The store holds to the rules and has the scope. -/
structure Ready (rules : Discipline) (scope : ScopeId) (store : Store) : Prop where
  inside : scope < store.scopes.size
  holds : rules.Holds store

/-- What is ready for evaluation stays so. -/
theorem Ready.later {scope : ScopeId} (h : rules.Ready scope store)
    (hkeeps : rules.Keeps store final) : rules.Ready scope final :=
  ⟨Nat.lt_of_lt_of_le h.inside hkeeps.size, hkeeps.holds⟩

/-- A scope that was just opened is ready for evaluation. -/
theorem Holds.ready_openScope (h : rules.Holds store)
    (hlink : rules.link store.scopes.size owner) :
    rules.Ready store.scopes.size (store.openScope (some owner)).2 := by
  refine ⟨?_, (h.openScope hlink).holds⟩
  rw [Store.openScope, Array.size_push]
  exact Nat.lt_succ_self _

end Stores

section Actions

variable {α β : Type} {pending : Failure → Prop} {expected : Nat → α → Prop}
  {results : Nat → β → Prop} {action : Eval α} {store : Store} {scope : ScopeId} {name : Name}
  {value : Value}

namespace Ends

theorem of_ok {result : α} {final : Store} (h : action store = .ok result final)
    (hkeeps : rules.Keeps store final) (hresult : expected final.scopes.size result) :
    rules.Ends pending expected action store := by
  rw [Ends, h]
  exact ⟨hkeeps, hresult⟩

theorem of_error {exit : Exit} {final : Store} (h : action store = .error exit final)
    (hkeeps : rules.Keeps store final) (hexit : rules.Exits pending final exit) :
    rules.Ends pending expected action store := by
  rw [Ends, h]
  exact ⟨hkeeps, hexit⟩

/-- The result of an action that ends within the rules is an expected one. -/
theorem ok {result : α} {final : Store} (h : rules.Ends pending expected action store)
    (hok : action store = .ok result final) :
    rules.Keeps store final ∧ expected final.scopes.size result := by
  rw [Ends, hok] at h
  exact h

/-- The exit of an action that ends within the rules is a pending one. -/
theorem error {exit : Exit} {final : Store} (h : rules.Ends pending expected action store)
    (herror : action store = .error exit final) :
    rules.Keeps store final ∧ rules.Exits pending final exit := by
  rw [Ends, herror] at h
  exact h

/-- Whatever the end of the action, the store behind it holds to the rules. -/
theorem holds_after (h : rules.Ends pending expected action store) :
    rules.Holds (action.after store) := by
  cases haction : action store with
  | ok result final =>
      rw [Eval.after_of_ok haction]
      exact (h.ok haction).1.holds
  | error exit final =>
      rw [Eval.after_of_error haction]
      exact (h.error haction).1.holds

theorem pure (h : rules.Holds store) {result : α} (hresult : expected store.scopes.size result) :
    rules.Ends pending expected (pure result) store :=
  ⟨h.keeps, hresult⟩

theorem throw (h : rules.Holds store) {exit : Exit}
    (hexit : rules.Exits pending store exit) :
    rules.Ends pending expected (throw exit) store :=
  ⟨h.keeps, hexit⟩

theorem fault (h : rules.Holds store) {cause : Fault} (hcause : pending (.raised cause)) :
    rules.Ends pending expected (Eval.fault cause) store :=
  ⟨h.keeps, .raised hcause⟩

/-- Actions one behind the other end within the rules if each does where it is reached. -/
theorem bind {next : α → Eval β} (h : rules.Ends pending expected action store)
    (hnext : ∀ result middle, action store = .ok result middle → rules.Keeps store middle →
      expected middle.scopes.size result → rules.Ends pending results (next result) middle) :
    rules.Ends pending results (action >>= next) store := by
  cases haction : action store with
  | error exit final =>
      obtain ⟨hkeeps, hexit⟩ := h.error haction
      exact of_error (Eval.bind_of_error haction) hkeeps hexit
  | ok result middle =>
      obtain ⟨hkeeps, hresult⟩ := h.ok haction
      have hrest := hnext result middle haction hkeeps hresult
      cases hfinal : next result middle with
      | error exit final =>
          obtain ⟨hlater, hexit⟩ := hrest.error hfinal
          exact of_error (by rw [Eval.bind_of_ok haction, hfinal]) (hkeeps.trans hlater) hexit
      | ok other final =>
          obtain ⟨hlater, hother⟩ := hrest.ok hfinal
          exact of_ok (by rw [Eval.bind_of_ok haction, hfinal]) (hkeeps.trans hlater) hother

/-- An action that ends with one of some failures ends with one of more. -/
theorem mono {others : Failure → Prop} (h : rules.Ends pending expected action store)
    (hpending : ∀ failure, pending failure → others failure) :
    rules.Ends others expected action store := by
  cases haction : action store with
  | ok result final =>
      obtain ⟨hkeeps, hresult⟩ := h.ok haction
      exact of_ok haction hkeeps hresult
  | error exit final =>
      obtain ⟨hkeeps, hexit⟩ := h.error haction
      refine of_error haction hkeeps ?_
      cases hexit with
      | returned hvalue => exact .returned hvalue
      | failed hfailure hsink => exact .failed (hpending _ hfailure) hsink
      | exhausted => exact .exhausted

/-- Failures that are on their way in a node get its place. -/
theorem located {origin : Origin} (h : rules.Ends (rules.Pending origin) expected action store) :
    rules.Ends rules.failure expected (Eval.located origin action) store := by
  cases haction : action store with
  | ok result final =>
      obtain ⟨hkeeps, hresult⟩ := h.ok haction
      exact of_ok (Eval.located_of_ok origin haction) hkeeps hresult
  | error exit final =>
      obtain ⟨hkeeps, hexit⟩ := h.error haction
      refine of_error (Eval.located_of_error origin haction) hkeeps ?_
      cases hexit with
      | returned hvalue => exact .returned hvalue
      | @failed failure hfailure hsink =>
          rw [Exit.located_failed]
          refine .failed hfailure fun reason hreason => hsink reason ?_
          exact failure.eq_sink_of_located hreason
      | exhausted => exact .exhausted

/-- A returned value fits as an ordinary one does. -/
theorem catchReturn {action : Eval Value} (h : rules.Ends pending rules.Fits action store) :
    rules.Ends pending rules.Fits (Eval.catchReturn action) store := by
  cases haction : action store with
  | ok result final =>
      obtain ⟨hkeeps, hresult⟩ := h.ok haction
      exact of_ok (by rw [Eval.catchReturn, haction]) hkeeps hresult
  | error exit final =>
      obtain ⟨hkeeps, hexit⟩ := h.error haction
      cases hexit with
      | returned hvalue => exact of_ok (by rw [Eval.catchReturn, haction]) hkeeps hvalue
      | failed hfailure hsink =>
          exact of_error (by rw [Eval.catchReturn, haction]) hkeeps (.failed hfailure hsink)
      | exhausted => exact of_error (by rw [Eval.catchReturn, haction]) hkeeps .exhausted

theorem ofExcept (h : rules.Holds store) {result : Except Fault α}
    (hok : ∀ value, result = .ok value → expected store.scopes.size value)
    (herror : ∀ cause, result = .error cause → pending (.raised cause)) :
    rules.Ends pending expected (Eval.ofExcept result) store := by
  cases result with
  | ok value => exact ⟨h.keeps, hok value rfl⟩
  | error cause => exact ⟨h.keeps, .raised (herror cause rfl)⟩

/-- The name of a node, or the flaw that it has none. -/
theorem nameOf (h : rules.Holds store) {node : Node}
    (herror : ∀ flaw, node.naming = .error flaw → pending (.flaw flaw)) :
    rules.Ends pending (fun _ text => node.naming = .ok text) (Eval.nameOf node) store := by
  cases hname : node.naming with
  | ok text => exact of_ok (by rw [Eval.nameOf, hname]) h.keeps rfl
  | error flaw =>
      exact of_error (by rw [Eval.nameOf, hname]) h.keeps (.flaw (herror flaw hname))

/-- A name in reach, or the fault that it is not bound. -/
theorem lookup (h : rules.Holds store) {name : String}
    (herror : pending (.fault (.unbound name) none)) :
    rules.Ends pending rules.Fits (Eval.lookup scope name) store := by
  cases hlookup : store.lookup? scope name with
  | some value => exact of_ok (by rw [Eval.lookup, hlookup]) h.keeps (h.lookup hlookup)
  | none =>
      cases hhost : Builtin.ofName? name with
      | some host =>
          have hrun : Eval.lookup scope name store = .ok (.builtin host) store := by
            simp only [Eval.lookup, hlookup, hhost]
          exact of_ok hrun h.keeps (fits_of_simple .builtin)
      | none =>
          exact of_error (by simp only [Eval.lookup, hlookup, hhost]) h.keeps (.fault herror)

/-- Asking for a name changes nothing. -/
theorem has (h : rules.Holds store) {name : String} :
    rules.Ends pending (fun _ found => found = store.has scope name) (Eval.has scope name) store :=
  ⟨h.keeps, rfl⟩

/-- A declaration, or the fault that the scope has the name already. -/
theorem declare (h : rules.Holds store) (hvalue : rules.Fits store.scopes.size value)
    (herror : store.declares scope name = true → pending (.raised (.redeclared name))) :
    rules.Ends pending (fun _ _ => True) (Eval.declare scope name value) store := by
  cases hdeclares : store.declares scope name with
  | true =>
      have hrun : Eval.declare scope name value store =
          .error (.failed (.raised (.redeclared name))) store := by
        rw [Eval.declare, Store.declare, if_pos hdeclares]
      exact of_error hrun h.keeps (.raised (herror hdeclares))
  | false =>
      have hrun : Eval.declare scope name value store =
          .ok () (store.append scope name value) := by
        simp [Eval.declare, Store.declare, hdeclares]
      exact of_ok hrun (h.append hvalue) trivial

theorem write (h : rules.Holds store) (hvalue : rules.Fits store.scopes.size value) :
    rules.Ends pending (fun _ _ => True) (Eval.write scope name value) store :=
  ⟨h.write hvalue, trivial⟩

/-- A name that is declared in reach can be given another value. -/
theorem set (h : rules.Holds store) {name : String}
    (hvalue : rules.Fits store.scopes.size value) (hhas : store.has scope name = true) :
    rules.Ends pending (fun _ _ => True) (Eval.set scope name value) store := by
  obtain ⟨owner, howner⟩ := Option.isSome_iff_exists.1 hhas
  have hrun : Eval.set scope name value store = .ok () (store.write owner name value) := by
    rw [Eval.set, Store.set, howner]
  exact of_ok hrun (h.write hvalue) trivial

theorem newId (h : rules.Holds store) : rules.Ends pending (fun _ _ => True) Eval.newId store :=
  ⟨Holds.keeps_of_printed (h.of_scopes_eq rfl) (Nat.le_refl _) rfl rfl, trivial⟩

/-- What is printed fits, and a sink may refuse it. -/
theorem print (h : rules.Holds store) {arguments : List Value}
    (hfits : rules.FitsAll store.scopes.size arguments)
    (herror : ∀ reason, pending (.sink reason)) :
    rules.Ends pending (fun _ _ => True) (Eval.print arguments) store := by
  cases hsink : store.sink with
  | recording =>
      have hrun : Eval.print arguments store =
          .ok () { store with printed := store.printed.push arguments } := by
        simp only [Eval.print, hsink]
      exact of_ok hrun (h.print hfits) trivial
  | broken reason =>
      refine of_error (by rw [Eval.print, hsink]) h.keeps (.failed (herror reason) ?_)
      intro other hother
      cases hother
      exact hsink

end Ends

end Actions

section Walk

variable {rounds calls : Nat} {scope : ScopeId}

/-- A list of fitting values under keys. -/
def FitsEntries (rules : Discipline) (size : Nat) (entries : List (String × Value)) : Prop :=
  ∀ entry ∈ entries, rules.Fits size entry.2

/-- A fitting value, if there is one. -/
def FitsOption (rules : Discipline) (size : Nat) (result : Option Value) : Prop :=
  ∀ value ∈ result, rules.Fits size value

/-- What the evaluation itself measures has an admitted size. -/
def Admits (rules : Discipline) (rounds : Nat) (evaluation : Evaluation) : Prop :=
  ∀ count, evaluation.Measures rounds count → rules.count count

/-- The applications of fitting functions keep the rules. -/
def CallsEnd (rules : Discipline) (rounds calls : Nat) : Prop :=
  ∀ {id closure arguments store}, rules.fits store.scopes.size (.function id closure) →
    rules.FitsAll store.scopes.size arguments → rules.Holds store →
    (∀ {less inner begun}, calls = less + 1 → closure.Starts arguments store inner begun →
      Node.Allows rounds less inner (rules.Admits rounds) closure.body begun) →
    rules.Ends (fun failed => rules.failure failed ∨ closure.Refuses arguments failed) rules.Fits
      (Closure.invoke rounds calls closure arguments) store

/-- The clauses and the body of a loop that may be evaluated. -/
theorem code_loop {origin : Origin} {first test step : Option Node} {body inner : Node}
    (hcode : rules.code (.loop origin first test step body))
    (hinner : inner ∈ first.toList ∨ inner ∈ test.toList ∨ inner ∈ step.toList ∨ inner = body) :
    rules.code inner := by
  refine rules.part hcode ?_
  simpa [Node.children, or_assoc] using hinner

/-- The keys and values of a map that may be evaluated. -/
theorem code_map {origin : Origin} {pairs : List (Node × Node)} {pair : Node × Node}
    (hcode : rules.code (.map origin pairs)) (hpair : pair ∈ pairs) :
    rules.code pair.1 ∧ rules.code pair.2 := by
  refine ⟨rules.part hcode ?_, rules.part hcode ?_⟩
  · exact List.mem_flatMap.2 ⟨pair, hpair, List.mem_cons_self⟩
  · exact List.mem_flatMap.2 ⟨pair, hpair, List.mem_cons_of_mem _ List.mem_cons_self⟩

/-- A failure that a node raises is pending inside the origin of the node. -/
theorem pending_raised {node : Node} {failed : Failure} (hcode : rules.code node)
    (h : node.Raises failed) : rules.Pending node.origin failed :=
  rules.raised hcode h

/-- A fault that a node may have is pending inside the origin of the node. -/
theorem pending_fault {node : Node} {cause : Fault} (hcode : rules.code node)
    (h : node.Faults cause) : rules.Pending node.origin (.raised cause) :=
  rules.raised hcode (.fault h)

/-- What comes up inside a part of a node is on its way in the node. -/
theorem Ends.inside {α : Type} {expected : Nat → α → Prop} {action : Eval α} {store : Store}
    {node : Node} (hcode : rules.code node) (h : rules.Ends rules.failure expected action store) :
    rules.Ends (rules.Pending node.origin) expected action store :=
  h.mono fun _ hfailure => rules.outward hcode hfailure

/-- A child that is left out counts as null, which fits. -/
theorem FitsOption.getD {size : Nat} {result : Option Value} (h : rules.FitsOption size result) :
    rules.Fits size (result.getD .null) := by
  cases result with
  | none => exact fits_of_simple .null
  | some value => exact h value rfl

/-- Entries still fit when one more that fits is put among them. -/
theorem FitsEntries.putEntry {size : Nat} {entries : List (String × Value)} {name : String}
    {value : Value} (h : rules.FitsEntries size entries) (hvalue : rules.Fits size value) :
    rules.FitsEntries size (Value.putEntry name value entries) := by
  rintro ⟨key, part⟩ hmem
  rcases Value.mem_putEntry hmem with rfl | hold
  · exact hvalue
  · exact h _ hold

/-- The value that is called is applied within the rules, at the place of the call. -/
theorem apply_ends (hcalls : rules.CallsEnd rounds calls) {origin : Origin} {callee : Node}
    {arguments : List Node} {function : Value} {values : List Value} {begun store : Store}
    (hcode : rules.code (.call origin callee arguments))
    (hallows : Node.Allows rounds calls scope (rules.Admits rounds)
      (.call origin callee arguments) begun)
    (hyields : Node.Yields (Closure.invoke rounds calls) rounds scope (callee :: arguments) begun
      (function :: values) store)
    (hfunction : rules.Fits store.scopes.size function)
    (hvalues : rules.FitsAll store.scopes.size values) (h : rules.Holds store) :
    rules.Ends (rules.Pending origin) rules.Fits
      (function.apply (Closure.invoke rounds calls) values) store := by
  cases function with
  | function id closure =>
      have hfits : rules.fits store.scopes.size (.function id closure) := hfunction _ .self
      have hinner : ∀ {less inner begun}, calls = less + 1 →
          closure.Starts values store inner begun →
          Node.Allows rounds less inner (rules.Admits rounds) closure.body begun := by
        -- The body is evaluated on the way, one level of calls further down.
        intro less inner begun hless hstarts
        subst hless
        exact fun evaluation hleads => hallows evaluation (.body hyields hstarts hleads)
      refine (hcalls hfits hvalues h hinner).mono ?_
      rintro failed (hfailure | hrefuses)
      · exact rules.outward hcode hfailure
      · exact rules.refused hcode hfits hrefuses
  | builtin host =>
      cases host with
      | len =>
          refine .ofExcept h (fun result hok => ?_)
            fun _ herror => pending_fault hcode (.length herror)
          obtain ⟨value, count, rfl, hsize, rfl⟩ := Value.length_made hok
          exact fits_integer (rules.counted (hallows _ .refl count (.length hyields hsize)))
      | print =>
          refine (Ends.print h hvalues fun _ => pending_raised hcode .sink).bind
            fun _ _ _ hkeeps _ => ?_
          exact .pure hkeeps.holds (fits_of_simple .null)
  | _ => exact .fault h (pending_fault hcode .notCallable)

/-- A loop keeps the rules if its tests and rounds do, whenever they come. -/
theorem repeatWhile_ends {model : CallModel} {pending : Failure → Prop} {test step : Option Node}
    {body : Node} {start : Store}
    (htest : ∀ {count middle},
      Node.Rounds model rounds scope test step body count start middle → count < rounds →
      rules.Ready scope middle →
      rules.Ends pending (fun _ _ => True) (Node.loopTest model rounds scope test) middle)
    (hround : ∀ {count next middle tests},
      Node.Rounds model rounds scope test step body count start next → count < rounds →
      Node.Yields model rounds scope test.toList next tests middle →
      (∀ value ∈ tests, value.truthy = true) → rules.Ready scope middle →
      rules.Ends pending (fun _ _ => True) (Node.loopRound model rounds scope step body) middle) :
    ∀ (more : Nat) {count : Nat} {store : Store}, count + more = rounds →
      Node.Rounds model rounds scope test step body count start store → rules.Ready scope store →
      rules.Ends pending (fun _ _ => True) (Eval.repeatWhile (Node.loopTest model rounds scope test)
        (Node.loopRound model rounds scope step body) more) store
  | 0, _, _, _, _, hready => .throw hready.holds .exhausted
  | more + 1, count, store, hcount, hrounds, hready => by
      refine (htest hrounds (by omega) hready).bind fun holds middle htested hkept _ => ?_
      cases holds with
      | false => exact .pure hkept.holds trivial
      | true =>
          obtain ⟨tests, hyields, htruthy⟩ := Node.yields_of_loopTest htested
          rw [if_pos rfl]
          refine (hround hrounds (by omega) hyields htruthy (hready.later hkept)).bind
            fun _ next hdone hlater _ => ?_
          obtain ⟨results, hresults⟩ := Node.yields_of_loopRound hdone
          exact repeatWhile_ends htest hround more (by omega)
            (.succ hrounds hyields htruthy hresults) ((hready.later hkept).later hlater)

mutual

/-- The evaluation of a node keeps the rules. -/
theorem eval_keeps (hcalls : rules.CallsEnd rounds calls) : ∀ (node : Node) {store : Store},
    rules.code node → rules.Ready scope store →
    Node.Allows rounds calls scope (rules.Admits rounds) node store →
    rules.Ends rules.failure rules.Fits (node.eval (Closure.invoke rounds calls) rounds scope) store
  | .hole, store, hcode, hready, _ => by
      rw [Node.eval]
      exact .throw hready.holds (.flaw (rules.raised hcode .hole))
  | .program statements, store, hcode, hready, hallows => by
      rw [Node.eval]
      exact evalStatements_keeps hcalls statements (fun _ hinner => rules.part hcode hinner)
        hready (fits_of_simple .null) hallows.statements
  | .expression origin body, store, hcode, hready, hallows => by
      rw [Node.eval]
      have hbody : rules.code body := rules.part hcode List.mem_cons_self
      exact .located
        ((eval_keeps hcalls body hbody hready (hallows.part .expression)).inside hcode)
  | .declaration origin name value, store, hcode, hready, hallows => by
      rw [Node.eval]
      refine .located ?_
      have hnamed (flaw : Flaw) (herror : name.naming = .error flaw) :
          rules.Pending origin (.flaw flaw) :=
        pending_raised hcode (.nameless herror)
      refine (Ends.nameOf hready.holds hnamed).bind fun text middle hnameOf hkept htext => ?_
      obtain ⟨-, rfl⟩ := Node.naming_of_nameOf hnameOf
      have hclash := pending_fault hcode (.redeclared htext)
      refine (Ends.declare hkept.holds (fits_of_simple .null) fun _ => hclash).bind
        fun _ start hdeclare hdeclared _ => ?_
      have hvalue := hallows.firstValue htext (Node.declare_of_declare hdeclare)
      refine ((evalOption_keeps hcalls value ?_ ((hready.later hkept).later hdeclared)
        hvalue).inside hcode).bind fun first final _ hkeeps hfirst => ?_
      · exact fun _ hinner => rules.part hcode (List.mem_cons_of_mem _ hinner)
      · cases first with
        | none => exact .pure hkeeps.holds (fits_of_simple .null)
        | some first =>
            refine (Ends.write hkeeps.holds (hfirst first rfl)).bind fun _ _ _ hwritten _ => ?_
            exact .pure hwritten.holds (fits_of_simple .null)
  | .returning origin value, store, hcode, hready, hallows => by
      rw [Node.eval]
      refine .located (((evalOption_keeps hcalls value ?_ hready hallows.returned).inside
        hcode).bind fun result _ _ hkeeps hresult => .throw hkeeps.holds (.returned hresult.getD))
      exact fun _ hinner => rules.part hcode hinner
  | .block origin statements, store, hcode, hready, hallows => by
      rw [Node.eval]
      exact .located ((evalStatements_keeps hcalls statements
        (fun _ hinner => rules.part hcode hinner) hready (fits_of_simple .null)
        hallows.blockStatements).inside hcode)
  | .loop origin first test step body, store, hcode, hready, hallows => by
      rw [Node.eval_loop]
      refine .located (((evalOption_keeps hcalls first ?_ hready hallows.loopFirst).inside
        hcode).bind fun result start hfirst hbegun _ => ?_)
      · exact fun inner hinner => code_loop hcode (.inl hinner)
      have hyieldsFirst := Node.yields_of_evalOption hfirst
      refine (repeatWhile_ends ?_ ?_ rounds (Nat.zero_add rounds) .zero (hready.later hbegun)).bind
        fun _ _ _ hkeeps _ => .pure hkeeps.holds (fits_of_simple .null)
      · intro count middle hrounds hcount hready
        have htest := hallows.loopTest hyieldsFirst hrounds hcount
        refine ((evalOption_keeps hcalls test ?_ hready htest).inside hcode).bind
          fun value _ _ hkeeps _ => ?_
        · exact fun inner hinner => code_loop hcode (.inr (.inl hinner))
        · cases value <;> exact .pure hkeeps.holds trivial
      · intro count next middle tests hrounds hcount hyields htruthy hready
        have hbody : rules.code body := code_loop hcode (.inr (.inr (.inr rfl)))
        have hround := hallows.part (.loopBody hyieldsFirst hrounds hcount hyields htruthy)
        refine ((eval_keeps hcalls body hbody hready hround).inside hcode).bind
          fun _ turn hdone hkept _ => ?_
        have hstep := hallows.loopStep hyieldsFirst hrounds hcount hyields htruthy hdone
        refine ((evalOption_keeps hcalls step ?_ (hready.later hkept) hstep).inside hcode).bind
          fun _ _ _ hkeeps _ => .pure hkeeps.holds trivial
        exact fun inner hinner => code_loop hcode (.inr (.inr (.inl hinner)))
  | .integer origin value, store, hcode, hready, _ => by
      rw [Node.eval]
      exact .pure hready.holds (fits_integer (rules.literal hcode))
  | .boolean _ _, store, hcode, hready, _ => by
      rw [Node.eval]
      exact .pure hready.holds (fits_of_simple .boolean)
  | .string _ _, store, hcode, hready, _ => by
      rw [Node.eval]
      exact .pure hready.holds (fits_of_simple .string)
  | .identifier origin name, store, hcode, hready, _ => by
      rw [Node.eval]
      exact .located (.lookup hready.holds (pending_fault hcode .unbound))
  | .array origin elements, store, hcode, hready, hallows => by
      rw [Node.eval]
      refine .located (((evalList_keeps hcalls elements
        (fun _ hinner => rules.part hcode hinner) hready hallows.elements).inside hcode).bind
        fun values _ _ hkeeps hvalues => ?_)
      exact (Ends.newId hkeeps.holds).bind fun _ _ _ hmade _ =>
        .pure hmade.holds (fits_array (hvalues.later hmade.size))
  | .map origin pairs, store, hcode, hready, hallows => by
      rw [Node.eval]
      refine .located ((evalPairs_keeps hcalls pairs (fun _ hpair => code_map hcode hpair)
        (fun _ => pending_fault hcode .badKey) (fun _ => rules.outward hcode) hready
        (List.forall_mem_nil _) hallows.entries).bind fun entries _ _ hkeeps hentries => ?_)
      refine (Ends.newId hkeeps.holds).bind fun _ _ _ hmade _ => .pure hmade.holds (fits_map ?_)
      exact fun entry hentry => (hentries entry hentry).later hmade.size
  | .function origin parameters body, store, hcode, hready, _ => by
      rw [Node.eval]
      refine (Ends.newId hready.holds).bind fun id middle _ hmade _ => ?_
      have hscope := (hready.later hmade).inside
      exact .pure hmade.holds (fits_function (rules.made hcode hscope))
  | .choice origin test consequence alternative, store, hcode, hready, hallows => by
      rw [Node.eval]
      have htest : rules.code test := rules.part hcode List.mem_cons_self
      have hconsequence : rules.code consequence :=
        rules.part hcode (List.mem_cons_of_mem _ List.mem_cons_self)
      refine .located (((eval_keeps hcalls test htest hready (hallows.part .test)).inside
        hcode).bind fun value middle htested hkeeps _ => ?_)
      have hlater := hready.later hkeeps
      cases htruthy : value.truthy with
      | true =>
          have hchosen := hallows.part (.consequence htested htruthy)
          exact (eval_keeps hcalls consequence hconsequence hlater hchosen).inside hcode
      | false =>
          have hchosen := hallows.alternative htested htruthy
          refine ((evalOption_keeps hcalls alternative ?_ hlater hchosen).inside hcode).bind
            fun result _ _ hkept hresult => .pure hkept.holds hresult.getD
          exact fun _ hinner =>
            rules.part hcode (List.mem_cons_of_mem _ (List.mem_cons_of_mem _ hinner))
  | .unary origin operator operand, store, hcode, hready, hallows => by
      rw [Node.eval]
      have hoperand : rules.code operand := rules.part hcode List.mem_cons_self
      refine .located (((eval_keeps hcalls operand hoperand hready
        (hallows.part .operand)).inside hcode).bind
        fun value _ _ hkeeps _ => .ofExcept hkeeps.holds ?_ ?_)
      · exact fun _ hok => fits_of_simple (Value.unary_simple hok)
      · exact fun _ herror => pending_fault hcode (.unary herror)
  | .binary origin left operator right, store, hcode, hready, hallows => by
      rw [Node.eval]
      have hleft : rules.code left := rules.part hcode List.mem_cons_self
      have hright : rules.code right :=
        rules.part hcode (List.mem_cons_of_mem _ List.mem_cons_self)
      refine .located (((eval_keeps hcalls left hleft hready (hallows.part .left)).inside
        hcode).bind fun first _ hfirst hkeeps _ => ?_)
      refine ((eval_keeps hcalls right hright (hready.later hkeeps)
        (hallows.part (.right hfirst))).inside hcode).bind
        fun second _ _ hlater _ => .ofExcept hlater.holds ?_ ?_
      · exact fun _ hok => fits_of_simple (Value.binary_simple hok)
      · exact fun _ herror => pending_fault hcode (.binary herror)
  | .call origin callee arguments, store, hcode, hready, hallows => by
      rw [Node.eval]
      have hcallee : rules.code callee := rules.part hcode List.mem_cons_self
      refine .located (((eval_keeps hcalls callee hcallee hready
        (hallows.part .callee)).inside hcode).bind
        fun function middle hfirst hkeeps hfunction => ?_)
      refine ((evalList_keeps hcalls arguments ?_ (hready.later hkeeps)
        (hallows.arguments hfirst)).inside hcode).bind fun values _ hrest hlater hvalues => ?_
      · exact fun _ hinner => rules.part hcode (List.mem_cons_of_mem _ hinner)
      · exact apply_ends hcalls hcode hallows (.cons hfirst (Node.yields_of_evalList hrest))
          (hfunction.later hlater.size) hvalues hlater.holds
  | .index origin target position, store, hcode, hready, hallows => by
      rw [Node.eval]
      have htarget : rules.code target := rules.part hcode List.mem_cons_self
      have hposition : rules.code position :=
        rules.part hcode (List.mem_cons_of_mem _ List.mem_cons_self)
      refine .located (((eval_keeps hcalls target htarget hready
        (hallows.part .target)).inside hcode).bind fun collection _ hfirst hkeeps hcollection => ?_)
      refine ((eval_keeps hcalls position hposition (hready.later hkeeps)
        (hallows.part (.position hfirst))).inside hcode).bind
        fun place _ _ hlater _ => .ofExcept hlater.holds ?_ ?_
      · intro result hok
        rcases Value.index_made hok with rfl | hoccurs
        · exact fits_of_simple .null
        · exact (hcollection.later hlater.size).occurs hoccurs
      · exact fun _ herror => pending_fault hcode (.index herror)
  | .member origin target name, store, hcode, hready, hallows => by
      rw [Node.eval]
      have htarget : rules.code target := rules.part hcode List.mem_cons_self
      refine .located (((eval_keeps hcalls target htarget hready
        (hallows.part .owner)).inside hcode).bind fun value _ howner hkeeps hvalue => ?_)
      have hnamed (flaw : Flaw) (herror : name.naming = .error flaw) :
          rules.Pending origin (.flaw flaw) :=
        pending_raised hcode (.memberless herror)
      refine (Ends.nameOf hkeeps.holds hnamed).bind fun text _ _ hlater htext =>
        .ofExcept hlater.holds ?_ ?_
      · intro result hok
        rcases Value.member_made hok with rfl | hoccurs | ⟨count, rfl, hsize, rfl⟩
        · exact fits_of_simple .null
        · exact (hvalue.later hlater.size).occurs hoccurs
        · exact fits_integer (rules.counted (hallows _ .refl count (.member howner htext hsize)))
      · exact fun _ herror => pending_fault hcode (.member htext herror)
  | .assign origin target value, store, hcode, hready, hallows => by
      rw [Node.eval]
      refine .located ?_
      cases hname : target.identifier? with
      | none => exact .fault hready.holds (pending_fault hcode .badTarget)
      | some name =>
          have hvalue : rules.code value :=
            rules.part hcode (List.mem_cons_of_mem _ List.mem_cons_self)
          refine (Ends.has hready.holds).bind fun found middle hrun hkept hfound => ?_
          obtain ⟨-, rfl⟩ := EStateM.Result.ok.inj hrun
          split
          · next hhas =>
              rw [hfound] at hhas
              refine ((eval_keeps hcalls value hvalue hready
                (hallows.part (.assigned hname hhas))).inside hcode).bind
                fun result final hresult hkeeps hfits => ?_
              -- The name was there before the value was evaluated, and names do not go away.
              have hgrown := eval_grows rounds calls scope value store
              rw [Eval.after_of_ok hresult] at hgrown
              exact (Ends.set hkeeps.holds hfits (hgrown.has hhas)).bind fun _ _ _ hset _ =>
                .pure hset.holds (hfits.later hset.size)
          · exact .fault hkept.holds (pending_fault hcode .badTarget)

/-- Nodes one behind the other, by induction on the list. -/
theorem evalList_keeps (hcalls : rules.CallsEnd rounds calls) :
    ∀ (nodes : List Node) {store : Store}, (∀ node ∈ nodes, rules.code node) →
    rules.Ready scope store →
    Node.AllowsList rounds calls scope (rules.Admits rounds) nodes store →
    rules.Ends rules.failure rules.FitsAll
      (Node.evalList (Closure.invoke rounds calls) rounds scope nodes) store
  | [], store, _, hready, _ => by
      rw [Node.evalList]
      exact .pure hready.holds nofun
  | node :: nodes, store, hcode, hready, hallows => by
      rw [Node.evalList]
      obtain ⟨hnode, hnodes⟩ := List.forall_mem_cons.1 hcode
      refine (eval_keeps hcalls node hnode hready hallows.head).bind
        fun value middle hfirst hkeeps hvalue => ?_
      refine (evalList_keeps hcalls nodes hnodes (hready.later hkeeps) (hallows.tail hfirst)).bind
        fun values _ _ hlater hvalues => .pure hlater.holds ?_
      exact List.forall_mem_cons.2 ⟨hvalue.later hlater.size, hvalues⟩

theorem evalStatements_keeps (hcalls : rules.CallsEnd rounds calls) :
    ∀ (nodes : List Node) {store : Store} {result : Value}, (∀ node ∈ nodes, rules.code node) →
    rules.Ready scope store → rules.Fits store.scopes.size result →
    Node.AllowsList rounds calls scope (rules.Admits rounds) nodes store →
    rules.Ends rules.failure rules.Fits
      (Node.evalStatements (Closure.invoke rounds calls) rounds scope result nodes) store
  | [], store, result, _, hready, hresult, _ => by
      rw [Node.evalStatements]
      exact .pure hready.holds hresult
  | node :: nodes, store, result, hcode, hready, hresult, hallows => by
      rw [Node.evalStatements]
      obtain ⟨hnode, hnodes⟩ := List.forall_mem_cons.1 hcode
      refine (eval_keeps hcalls node hnode hready hallows.head).bind
        fun value middle hfirst hkeeps hvalue => ?_
      refine evalStatements_keeps hcalls nodes hnodes (hready.later hkeeps) ?_ (hallows.tail hfirst)
      split
      · exact hresult.later hkeeps.size
      · exact hvalue

theorem evalPairs_keeps (hcalls : rules.CallsEnd rounds calls) {pending : Failure → Prop} :
    ∀ (pairs : List (Node × Node)) {store : Store} {entries : List (String × Value)},
    (∀ pair ∈ pairs, rules.code pair.1 ∧ rules.code pair.2) →
    (∀ type, pending (.fault (.badKey type) none)) →
    (∀ failed, rules.failure failed → pending failed) →
    rules.Ready scope store → rules.FitsEntries store.scopes.size entries →
    Node.AllowsPairs rounds calls scope (rules.Admits rounds) pairs store →
    rules.Ends pending rules.FitsEntries
      (Node.evalPairs (Closure.invoke rounds calls) rounds scope entries pairs) store
  | [], store, entries, _, _, _, hready, hentries, _ => by
      rw [Node.evalPairs]
      exact .pure hready.holds hentries
  | (key, node) :: pairs, store, entries, hcode, hbad, hinside, hready, hentries, hallows => by
      rw [Node.evalPairs]
      obtain ⟨⟨hkey, hnode⟩, hpairs⟩ := List.forall_mem_cons.1 hcode
      refine ((eval_keeps hcalls key hkey hready hallows.head).mono hinside).bind
        fun name middle hfirst hkeeps _ => ?_
      have htext : rules.Ends pending (fun _ _ => True) (Node.keyText name) middle := by
        cases name with
        | string => exact .pure hkeeps.holds trivial
        | _ => exact .fault hkeeps.holds (hbad _)
      refine htext.bind fun text turn hread _ _ => ?_
      obtain ⟨rfl, rfl⟩ := Node.eq_string_of_keyText hread
      have hturn := hready.later hkeeps
      refine ((eval_keeps hcalls node hnode hturn (hallows.second hfirst)).mono hinside).bind
        fun value final hsecond hlater hvalue => ?_
      refine evalPairs_keeps hcalls pairs hpairs hbad hinside (hturn.later hlater) ?_
        (hallows.tail (.cons hfirst (.cons hsecond .nil)))
      refine FitsEntries.putEntry (fun entry hentry => ?_) hvalue
      exact (hentries entry hentry).later (hkeeps.trans hlater).size

theorem evalOption_keeps (hcalls : rules.CallsEnd rounds calls) :
    ∀ (child : Option Node) {store : Store}, (∀ node ∈ child.toList, rules.code node) →
    rules.Ready scope store →
    Node.AllowsOption rounds calls scope (rules.Admits rounds) child store →
    rules.Ends rules.failure rules.FitsOption
      (Node.evalOption (Closure.invoke rounds calls) rounds scope child) store
  | none, store, _, hready, _ => by
      rw [Node.evalOption]
      exact .pure hready.holds nofun
  | some node, store, hcode, hready, hallows => by
      rw [Node.evalOption]
      refine (eval_keeps hcalls node (hcode node List.mem_cons_self) hready
        (hallows node rfl)).bind fun value middle _ hkeeps hvalue => .pure hkeeps.holds ?_
      rintro _ ⟨⟩
      exact hvalue

end

end Walk

section Calls

variable {rounds : Nat} {scope : ScopeId} {store : Store}

/-- A scope of a store declares the names that it lists there. -/
theorem declares_iff {name : Name} :
    store.declares scope name = true ↔ name ∈ store.names scope := by
  rw [Store.declares, Store.names]
  cases store.scopes[scope]? with
  | none => simp
  | some found => exact found.declares_iff name

/-- A declaration that ends well appends the name. -/
theorem eq_append_of_declare {name : Name} {value : Value} {final : Store}
    (h : Eval.declare scope name value store = .ok () final) :
    final = store.append scope name value := by
  have hdeclare := Node.declare_of_declare h
  rw [Store.declare] at hdeclare
  split at hdeclare
  · cases hdeclare
  · exact (Except.ok.inj hdeclare).symm

/-- The names of parameters, in their order. -/
theorem declaredNames_append_cons {before behind : List Node} {parameter : Node} {name : Name}
    (hname : parameter.naming = .ok name) :
    Node.declaredNames (before ++ parameter :: behind) =
      Node.declaredNames before ++ name :: Node.declaredNames behind := by
  simp [Node.declaredNames, hname, Except.toOption]

/-- A parameter that is declared already is there twice. -/
theorem count_declaredNames {before behind : List Node} {parameter : Node} {name : Name}
    (hname : parameter.naming = .ok name) (hmem : name ∈ Node.declaredNames before) :
    1 < (Node.declaredNames (before ++ parameter :: behind)).count name := by
  have hbefore := List.count_pos_iff.2 hmem
  rw [declaredNames_append_cons hname, List.count_append, List.count_cons_self]
  omega

/-- Binding parameters keeps the rules or is refused. -/
theorem bind_ends {closure : Closure} {arguments : List Value} :
    ∀ (pairs : List (Node × Value)) (before : List Node) {store : Store},
    closure.parameters = before ++ pairs.map Prod.fst →
    store.names scope = Node.declaredNames before →
    (∀ pair ∈ pairs, rules.Fits store.scopes.size pair.2) → rules.Ready scope store →
    rules.Ends (closure.Refuses arguments) (fun _ _ => True) (Closure.bind scope pairs) store
  | [], _, _, _, _, _, hready => .pure hready.holds trivial
  | (parameter, value) :: pairs, before, store, hparameters, hnames, hfits, hready => by
      rw [Closure.bind]
      obtain ⟨hvalue, hvalues⟩ := List.forall_mem_cons.1 hfits
      have hmem : parameter ∈ closure.parameters := by
        rw [hparameters]
        exact List.mem_append_right _ List.mem_cons_self
      refine (Ends.nameOf hready.holds fun flaw herror => .nameless hmem herror).bind
        fun name middle hnamed hkept htext => ?_
      obtain ⟨-, rfl⟩ := Node.naming_of_nameOf hnamed
      refine (Ends.declare hkept.holds hvalue fun hdeclares => ?_).bind
        fun _ final hdeclared hlater _ => ?_
      · rw [declares_iff, hnames] at hdeclares
        refine .fault (.duplicate ?_)
        rw [hparameters, List.map_cons]
        exact count_declaredNames htext hdeclares
      · refine bind_ends pairs (before ++ [parameter]) ?_ ?_ ?_ (hready.later hlater)
        · rw [hparameters, List.map_cons, List.append_assoc]
          rfl
        · rw [eq_append_of_declare hdeclared, Store.names_append_self hready.inside, hnames,
            declaredNames_append_cons htext]
          rfl
        · exact fun pair hpair => (hvalues pair hpair).later hlater.size

/-- Parameters are bound in the new scope of an application. -/
theorem starts_ends {id : ObjectId} {closure : Closure} {arguments : List Value}
    (hfunction : rules.fits store.scopes.size (.function id closure))
    (harguments : rules.FitsAll store.scopes.size arguments) (h : rules.Holds store)
    (hcount : arguments.length = closure.parameters.length) :
    rules.Ends (closure.Refuses arguments) (fun _ _ => True)
      (Closure.bind store.scopes.size (closure.parameters.zip arguments))
      (store.openScope (some closure.scope)).2 := by
  have hkeeps := h.openScope (rules.linked hfunction)
  refine bind_ends (closure.parameters.zip arguments) [] ?_ ?_ ?_
    (h.ready_openScope (rules.linked hfunction))
  · rw [List.nil_append, List.map_fst_zip (Nat.le_of_eq hcount.symm)]
  · rw [Store.names, Store.openScope, Array.getElem?_push_size]
    rfl
  · intro pair hpair
    exact (harguments pair.2 (List.of_mem_zip hpair).2).later hkeeps.size

/-- The application of a function keeps the rules. -/
theorem invoke_ends : ∀ calls, rules.CallsEnd rounds calls
  | 0, _, _, _, _, _, _, h, _ => .throw h .exhausted
  | calls + 1, id, closure, arguments, store, hfunction, harguments, h, hallows => by
      rw [Closure.invoke]
      by_cases hcount : arguments.length = closure.parameters.length
      · rw [if_pos hcount]
        have hopen : rules.Ends
            (fun failed => rules.failure failed ∨ closure.Refuses arguments failed)
            (fun _ _ => True) (Eval.openScope closure.scope) store :=
          ⟨h.openScope (rules.linked hfunction), trivial⟩
        refine hopen.bind fun scope start hopened hkeeps _ => ?_
        obtain ⟨rfl, rfl⟩ := EStateM.Result.ok.inj hopened
        have hready := h.ready_openScope (rules.linked hfunction)
        refine ((starts_ends hfunction harguments h hcount).mono fun _ => .inr).bind
          fun _ begun hbind hbound _ => ?_
        have hbody := eval_keeps (invoke_ends calls) closure.body (rules.body hfunction)
          (hready.later hbound) (hallows rfl ⟨hcount, rfl, hbind⟩)
        exact hbody.catchReturn.mono fun _ => .inl
      · rw [if_neg hcount]
        exact .fault h (.inr (.fault (.count hcount)))

/-- Rules that admit every size need no condition on what is measured. -/
theorem evalStatements_ends {calls : Nat} (hcalls : rules.CallsEnd rounds calls)
    (nodes : List Node) {result : Value} (hcode : ∀ node ∈ nodes, rules.code node)
    (hready : rules.Ready scope store) (hresult : rules.Fits store.scopes.size result)
    (hcount : ∀ count, rules.count count := by exact fun _ => trivial) :
    rules.Ends rules.failure rules.Fits
      (Node.evalStatements (Closure.invoke rounds calls) rounds scope result nodes) store :=
  evalStatements_keeps hcalls nodes hcode hready hresult
    fun _ _ _ _ _ _ _ _ _ count _ => hcount count

/-- An evaluation within limits keeps the rules. -/
theorem limits_ends (limits : Limits) {node : Node} (hcode : rules.code node)
    (hready : rules.Ready scope store)
    (hcount : ∀ count, rules.count count := by exact fun _ => trivial) :
    rules.Ends rules.failure rules.Fits (node.eval limits.model limits.rounds scope) store :=
  eval_keeps (invoke_ends limits.calls) node hcode hready fun _ _ count _ => hcount count

end Calls

end Discipline

end Scriptlet
