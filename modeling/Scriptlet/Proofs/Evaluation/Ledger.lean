import Scriptlet.Proofs.Evaluation.Sessions

/-!
# The ledger of identities

Arrays, maps and functions get their identities one behind the other, and none is ever given twice.
A ledger lists the objects that were made, each at the place of its identity. A store is recorded by
a ledger when every array, map or function in it is the one that the ledger has for its identity.

An evaluation only adds to the ledger at its end (`eval_tracked`). One ledger therefore serves a
whole session: every evaluation on the way, whatever became of its value, begins and ends in stores
that are recorded by beginnings of it (`session_tracked`).
-/

namespace Scriptlet

/-- Objects in the order of their making. -/
abbrev Ledger := List Value

namespace Value

/-- The identity of an array, a map or a function. -/
def id? : Value → Option ObjectId
  | array id _ | map id _ | function id _ => some id
  | _ => none

/-- Every object that occurs in the value is the one that the ledger has for its identity. -/
def Recorded (ledger : Ledger) (value : Value) : Prop :=
  ∀ (part : Value) (id : ObjectId), part.Occurs value → part.id? = some id → ledger[id]? = some part

/-- The values are recorded. -/
def AllRecorded (ledger : Ledger) (values : List Value) : Prop :=
  ∀ value ∈ values, value.Recorded ledger

/-- The values under keys are recorded. -/
def EntriesRecorded (ledger : Ledger) (entries : List (String × Value)) : Prop :=
  ∀ entry ∈ entries, entry.2.Recorded ledger

/-- The value, if there is one, is recorded. -/
def OptionRecorded (ledger : Ledger) (result : Option Value) : Prop :=
  ∀ value ∈ result, value.Recorded ledger

variable {ledger longer : Ledger} {value part : Value}

/-- A value stays recorded when the ledger grows. -/
theorem Recorded.later (h : value.Recorded ledger) (hlonger : ledger <+: longer) :
    value.Recorded longer := by
  intro part id hpart hid
  obtain ⟨more, rfl⟩ := hlonger
  have hplace := h part id hpart hid
  rw [List.getElem?_append_left (List.getElem?_eq_some_iff.1 hplace).1]
  exact hplace

/-- What occurs in a recorded value is recorded. -/
theorem Recorded.occurs (h : value.Recorded ledger) (hpart : part.Occurs value) :
    part.Recorded ledger :=
  fun inner id hinner hid => h inner id (hinner.trans hpart) hid

/-- Simple data have no identity. -/
theorem recorded_of_simple (h : value.Simple) : value.Recorded ledger := by
  intro part id hpart hid
  rw [h.eq_of_occurs hpart] at hid
  cases h <;> cases hid

/-- Integers have no identity. -/
theorem recorded_integer (n : Int) : (integer n).Recorded ledger := by
  intro part id hpart hid
  cases hpart
  cases hid

/-- A new object whose parts are recorded goes to the end of the ledger. -/
theorem recorded_made (hid : value.id? = some ledger.length)
    (hparts : ∀ part, part.Occurs value → part = value ∨ part.Recorded ledger) :
    value.Recorded (ledger ++ [value]) := by
  intro part id hpart hpartId
  rcases hparts part hpart with rfl | hrecorded
  · obtain rfl : ledger.length = id := Option.some.inj (hid.symm.trans hpartId)
    exact List.getElem?_concat_length
  · exact hrecorded.later (List.prefix_append _ _) part id .self hpartId

/-- A new array is recorded by its own entry. -/
theorem recorded_array {elements : List Value} (h : AllRecorded ledger elements) :
    (array ledger.length elements).Recorded (ledger ++ [array ledger.length elements]) := by
  refine recorded_made rfl fun part hpart => ?_
  cases hpart with
  | self => exact .inl rfl
  | element hmem hpart => exact .inr ((h _ hmem).occurs hpart)

theorem recorded_map {entries : List (String × Value)} (h : EntriesRecorded ledger entries) :
    (map ledger.length entries).Recorded (ledger ++ [map ledger.length entries]) := by
  refine recorded_made rfl fun part hpart => ?_
  cases hpart with
  | self => exact .inl rfl
  | entry hmem hpart => exact .inr ((h _ hmem).occurs hpart)

theorem recorded_function {closure : Closure} :
    (function ledger.length closure).Recorded (ledger ++ [function ledger.length closure]) := by
  refine recorded_made rfl fun part hpart => ?_
  cases hpart
  exact .inl rfl

/-- Values stay recorded when the ledger grows. -/
theorem AllRecorded.later {values : List Value} (h : AllRecorded ledger values)
    (hlonger : ledger <+: longer) : AllRecorded longer values :=
  fun value hvalue => (h value hvalue).later hlonger

theorem EntriesRecorded.later {entries : List (String × Value)} (h : EntriesRecorded ledger entries)
    (hlonger : ledger <+: longer) : EntriesRecorded longer entries :=
  fun entry hentry => (h entry hentry).later hlonger

/-- A child that is left out counts as null, which is recorded. -/
theorem OptionRecorded.getD {result : Option Value} (h : OptionRecorded ledger result) :
    (result.getD .null).Recorded ledger := by
  cases result with
  | none => exact recorded_of_simple .null
  | some value => exact h value rfl

/-- Entries stay recorded when a recorded value is put among them. -/
theorem EntriesRecorded.putEntry {entries : List (String × Value)} {name : String}
    (h : EntriesRecorded ledger entries) (hvalue : value.Recorded ledger) :
    EntriesRecorded ledger (Value.putEntry name value entries) := by
  rintro ⟨key, part⟩ hmem
  rcases mem_putEntry hmem with rfl | hold
  · exact hvalue
  · exact h _ hold

end Value

namespace Store

/-- A store whose values are recorded, in a ledger of all identities that it has given out. -/
structure Recorded (ledger : Ledger) (store : Store) : Prop where
  fresh : store.fresh = ledger.length
  cells : ∀ {id : ScopeId} {scope : Scope}, store.scopes[id]? = some scope →
    ∀ binding ∈ scope.bindings, binding.2.Recorded ledger
  printed : ∀ arguments ∈ store.printed.toList, Value.AllRecorded ledger arguments

variable {ledger : Ledger} {store : Store} {id owner : ScopeId} {name : Name} {value : Value}

/-- What a name stands for is recorded. -/
theorem Recorded.lookup (h : store.Recorded ledger) (hlookup : store.lookup? id name = some value) :
    value.Recorded ledger := by
  rw [lookup?] at hlookup
  split at hlookup
  · cases hlookup
  · split at hlookup
    · cases hlookup
    · next scope hscope =>
        obtain ⟨before, behind, hbindings, -⟩ := List.lookup_eq_some_iff.1 hlookup
        exact h.cells hscope (name, value) (by rw [hbindings]; simp)

/-- A change of one scope that brings in recorded values. -/
theorem Recorded.modify (h : store.Recorded ledger) {change : Scope → Scope}
    (hchange : ∀ scope, ∀ binding ∈ (change scope).bindings,
      binding ∈ scope.bindings ∨ binding.2.Recorded ledger) :
    Recorded ledger { store with scopes := store.scopes.modify owner change } where
  fresh := h.fresh
  cells := by
    intro id scope hscope binding hbinding
    simp only [Array.getElem?_modify] at hscope
    split at hscope
    · obtain ⟨old, hold, rfl⟩ := Option.map_eq_some_iff.1 hscope
      exact (hchange old binding hbinding).elim (h.cells hold binding) fun hvalue => hvalue
    · exact h.cells hscope binding hbinding
  printed := h.printed

theorem Recorded.append (h : store.Recorded ledger) (hvalue : value.Recorded ledger) :
    (store.append owner name value).Recorded ledger := by
  refine h.modify fun scope binding hmem => ?_
  rcases List.mem_append.1 hmem with hold | hnew
  · exact .inl hold
  · rw [List.mem_singleton.1 hnew]
    exact .inr hvalue

/-- A recorded value may be written. -/
theorem Recorded.write (h : store.Recorded ledger) (hvalue : value.Recorded ledger) :
    (store.write owner name value).Recorded ledger := by
  refine h.modify fun scope binding hmem => ?_
  obtain ⟨old, hold, hnew⟩ := List.mem_map.1 hmem
  split at hnew
  · rw [← hnew]
    exact .inr hvalue
  · rw [← hnew]
    exact .inl hold

/-- A new scope has nothing to record. -/
theorem Recorded.openScope (h : store.Recorded ledger) {parent : Option ScopeId} :
    (store.openScope parent).2.Recorded ledger where
  fresh := h.fresh
  cells := by
    intro id scope hscope
    rw [Store.openScope, Array.getElem?_push] at hscope
    split at hscope
    · cases hscope
      exact List.forall_mem_nil _
    · exact h.cells hscope
  printed := h.printed

/-- Recorded values may be printed. -/
theorem Recorded.print (h : store.Recorded ledger) {arguments : List Value}
    (hvalues : Value.AllRecorded ledger arguments) :
    Recorded ledger { store with printed := store.printed.push arguments } where
  fresh := h.fresh
  cells := h.cells
  printed := by
    intro call hcall
    rw [Array.toList_push] at hcall
    rcases List.mem_append.1 hcall with hold | hnew
    · exact h.printed call hold
    · rw [List.mem_singleton.1 hnew]
      exact hvalues

/-- The next identity goes to the object that the ledger gets. -/
theorem Recorded.newId (h : store.Recorded ledger) (object : Value) :
    store.newId.2.Recorded (ledger ++ [object]) where
  fresh := by
    rw [List.length_append, ← h.fresh]
    rfl
  cells hscope binding hbinding := (h.cells hscope binding hbinding).later (List.prefix_append _ _)
  printed arguments hmem := (h.printed arguments hmem).later (List.prefix_append _ _)

end Store

/-- A value that is being returned is recorded. -/
def Exit.Recorded (ledger : Ledger) : Exit → Prop
  | returned value => value.Recorded ledger
  | failed _ => True
  | exhausted => True

/-- The store that an action has left is recorded, and its value is as expected. -/
def Eval.Settled {α : Type} (expected : Ledger → α → Prop) (ledger : Ledger) :
    EStateM.Result Exit Store α → Prop
  | .ok value final => final.Recorded ledger ∧ expected ledger value
  | .error exit final => final.Recorded ledger ∧ exit.Recorded ledger

namespace Evaluation

variable (rounds : Nat)

/-- How the evaluation ends. -/
def run (evaluation : Evaluation) : EStateM.Result Exit Store Value :=
  evaluation.node.eval (Closure.invoke rounds evaluation.calls) rounds evaluation.scope
    evaluation.store

/-- The evaluation begins and ends in stores that are recorded by beginnings of a ledger. -/
def Tracked (ledger : Ledger) (evaluation : Evaluation) : Prop :=
  ∃ start finish, start <+: finish ∧ finish <+: ledger ∧ evaluation.store.Recorded start ∧
    Eval.Settled Value.Recorded finish (evaluation.run rounds)

end Evaluation

/-- An action that is begun in a store adds to the ledger: its end is recorded, and so are the
evaluations that it contains, in every ledger that goes on from there. The evaluations are given by
what it means that all of them are of some kind. -/
def Eval.Tracks {α : Type} (rounds : Nat) (contains : (Evaluation → Prop) → Prop)
    (expected : Ledger → α → Prop) (action : Eval α) (ledger : Ledger) (store : Store) : Prop :=
  ∃ longer, ledger <+: longer ∧ Settled expected longer (action store) ∧
    ∀ whole, longer <+: whole → contains (Evaluation.Tracked rounds whole)

namespace Eval

/-- An action that contains no evaluation. -/
abbrev Plain (_ : Evaluation → Prop) : Prop := True

variable {α β : Type} {rounds : Nat} {contains more : (Evaluation → Prop) → Prop}
  {expected : Ledger → α → Prop} {results : Ledger → β → Prop} {action : Eval α} {ledger : Ledger}
  {store : Store} {scope : ScopeId} {name : Name} {value : Value}

namespace Tracks

/-- An action that tracks evaluations of one kind tracks those of a weaker one. -/
theorem mono (h : Tracks rounds contains expected action ledger store)
    (hmore : ∀ kind, contains kind → more kind) :
    Tracks rounds more expected action ledger store := by
  obtain ⟨longer, hlonger, hsettled, hcontains⟩ := h
  exact ⟨longer, hlonger, hsettled, fun whole hwhole => hmore _ (hcontains whole hwhole)⟩

/-- Identities are never taken back. -/
theorem fresh_le (h : Tracks rounds contains expected action ledger store)
    (hrecorded : store.Recorded ledger) {result : α} {final : Store}
    (hok : action store = .ok result final) : store.fresh ≤ final.fresh := by
  obtain ⟨longer, hlonger, hsettled, -⟩ := h
  rw [hok] at hsettled
  rw [hrecorded.fresh, hsettled.1.fresh]
  exact hlonger.length_le

/-- An action that makes no object. -/
theorem of_settled (h : Settled expected ledger (action store)) :
    Tracks rounds Plain expected action ledger store :=
  ⟨ledger, List.prefix_refl _, h, fun _ _ => trivial⟩

theorem pure (h : store.Recorded ledger) {result : α} (hresult : expected ledger result) :
    Tracks rounds Plain expected (pure result) ledger store :=
  of_settled ⟨h, hresult⟩

theorem throw (h : store.Recorded ledger) {exit : Exit} (hexit : exit.Recorded ledger) :
    Tracks rounds Plain expected (throw exit) ledger store :=
  of_settled ⟨h, hexit⟩

theorem fault (h : store.Recorded ledger) (cause : Fault) :
    Tracks rounds Plain expected (Eval.fault cause) ledger store :=
  of_settled ⟨h, trivial⟩

/-- The second action contains what it contains from where the first one has ended. -/
theorem bind {next : α → Eval β} {second : α → Store → (Evaluation → Prop) → Prop}
    (h : Tracks rounds contains expected action ledger store)
    (hnext : ∀ result middle longer, action store = .ok result middle → ledger <+: longer →
      middle.Recorded longer → expected longer result →
      Tracks rounds (second result middle) results (next result) longer middle) :
    Tracks rounds (fun kind => contains kind ∧ ∀ result middle,
      action store = .ok result middle → second result middle kind) results (action >>= next)
      ledger store := by
  obtain ⟨longer, hlonger, hsettled, hcontains⟩ := h
  cases haction : action store with
  | error exit final =>
      rw [haction] at hsettled
      refine ⟨longer, hlonger, ?_, fun whole hwhole => ⟨hcontains whole hwhole, nofun⟩⟩
      rw [bind_of_error haction]
      exact hsettled
  | ok result middle =>
      rw [haction] at hsettled
      obtain ⟨further, hfurther, hend, hsecond⟩ :=
        hnext result middle longer haction hlonger hsettled.1 hsettled.2
      refine ⟨further, hlonger.trans hfurther, ?_, fun whole hwhole => ⟨?_, ?_⟩⟩
      · rw [bind_of_ok haction]
        exact hend
      · exact hcontains whole (hfurther.trans hwhole)
      · rintro _ _ ⟨⟩
        exact hsecond whole hwhole

theorem located (origin : Origin) (h : Tracks rounds contains expected action ledger store) :
    Tracks rounds contains expected (Eval.located origin action) ledger store := by
  obtain ⟨longer, hlonger, hsettled, hcontains⟩ := h
  refine ⟨longer, hlonger, ?_, hcontains⟩
  cases haction : action store with
  | ok result final =>
      rw [haction] at hsettled
      rw [located_of_ok origin haction]
      exact hsettled
  | error exit final =>
      rw [haction] at hsettled
      rw [located_of_error origin haction]
      refine ⟨hsettled.1, ?_⟩
      cases exit with
      | returned | exhausted => exact hsettled.2
      | failed failure =>
          rw [Exit.located_failed]
          trivial

/-- A returned value is recorded as an ordinary one is. -/
theorem catchReturn {action : Eval Value}
    (h : Tracks rounds contains Value.Recorded action ledger store) :
    Tracks rounds contains Value.Recorded (Eval.catchReturn action) ledger store := by
  obtain ⟨longer, hlonger, hsettled, hcontains⟩ := h
  refine ⟨longer, hlonger, ?_, hcontains⟩
  rw [Eval.catchReturn]
  cases haction : action store with
  | ok result final =>
      rw [haction] at hsettled
      exact hsettled
  | error exit final =>
      rw [haction] at hsettled
      cases exit <;> exact hsettled

theorem ofExcept (h : store.Recorded ledger) {result : Except Fault α}
    (hok : ∀ value, result = .ok value → expected ledger value) :
    Tracks rounds Plain expected (Eval.ofExcept result) ledger store := by
  cases result with
  | ok value => exact of_settled ⟨h, hok value rfl⟩
  | error cause => exact of_settled ⟨h, trivial⟩

theorem nameOf (h : store.Recorded ledger) (node : Node) :
    Tracks rounds Plain (fun _ _ => True) (Eval.nameOf node) ledger store := by
  refine of_settled ?_
  rw [Eval.nameOf]
  cases node.naming <;> exact ⟨h, trivial⟩

theorem lookup (h : store.Recorded ledger) {name : String} :
    Tracks rounds Plain Value.Recorded (Eval.lookup scope name) ledger store := by
  refine of_settled ?_
  rw [Eval.lookup]
  cases hlookup : store.lookup? scope name with
  | some value => exact ⟨h, h.lookup hlookup⟩
  | none =>
      cases Builtin.ofName? name with
      | some host => exact ⟨h, Value.recorded_of_simple .builtin⟩
      | none => exact ⟨h, trivial⟩

theorem has (h : store.Recorded ledger) {name : String} :
    Tracks rounds Plain (fun _ _ => True) (Eval.has scope name) ledger store :=
  of_settled ⟨h, trivial⟩

theorem openScope (h : store.Recorded ledger) {parent : ScopeId} :
    Tracks rounds Plain (fun _ _ => True) (Eval.openScope parent) ledger store :=
  of_settled ⟨h.openScope, trivial⟩

theorem declare (h : store.Recorded ledger) (hvalue : value.Recorded ledger) :
    Tracks rounds Plain (fun _ _ => True) (Eval.declare scope name value) ledger store := by
  refine of_settled ?_
  rw [Eval.declare, Store.declare]
  cases store.declares scope name with
  | true => exact ⟨h, trivial⟩
  | false => exact ⟨h.append hvalue, trivial⟩

theorem write (h : store.Recorded ledger) (hvalue : value.Recorded ledger) :
    Tracks rounds Plain (fun _ _ => True) (Eval.write scope name value) ledger store :=
  of_settled ⟨h.write hvalue, trivial⟩

theorem set (h : store.Recorded ledger) {name : String} (hvalue : value.Recorded ledger) :
    Tracks rounds Plain (fun _ _ => True) (Eval.set scope name value) ledger store := by
  refine of_settled ?_
  rw [Eval.set, Store.set]
  cases store.resolve scope name with
  | none => exact ⟨h, trivial⟩
  | some owner => exact ⟨h.write hvalue, trivial⟩

theorem print (h : store.Recorded ledger) {arguments : List Value}
    (hvalues : Value.AllRecorded ledger arguments) :
    Tracks rounds Plain (fun _ _ => True) (Eval.print arguments) ledger store := by
  refine of_settled ?_
  rw [Eval.print]
  split
  · exact ⟨h.print hvalues, trivial⟩
  · exact ⟨h, trivial⟩

/-- An object that takes the next identity is the next one of the ledger. -/
theorem made (h : store.Recorded ledger) {object : ObjectId → Value}
    (hobject : (object ledger.length).Recorded (ledger ++ [object ledger.length])) :
    Tracks rounds Plain Value.Recorded (do return object (← Eval.newId)) ledger store := by
  refine ⟨ledger ++ [object ledger.length], List.prefix_append _ _, ?_, fun _ _ => trivial⟩
  show Settled _ _ (.ok (object store.fresh) store.newId.2)
  rw [h.fresh]
  exact ⟨h.newId _, hobject⟩

end Tracks

end Eval

namespace Node

section Contents

variable {rounds calls : Nat} {scope : ScopeId} {kind : Evaluation → Prop} {node key : Node}
  {pairs : List (Node × Node)} {store : Store}

/-- The node is a call. -/
def isCall : Node → Bool
  | call _ _ _ => true
  | _ => false

/-- The evaluations of pairs are those of the first pair and of the others behind it. -/
theorem allowsPairs_cons (hkey : Allows rounds calls scope kind key store)
    (hvalue : ∀ text middle,
      key.eval (Closure.invoke rounds calls) rounds scope store = .ok (.string text) middle →
      Allows rounds calls scope kind node middle ∧ ∀ value final,
        node.eval (Closure.invoke rounds calls) rounds scope middle = .ok value final →
        AllowsPairs rounds calls scope kind pairs final) :
    AllowsPairs rounds calls scope kind ((key, node) :: pairs) store where
  key := by
    intro before inner value behind final heq hbefore
    cases hbefore with
    | nil =>
        cases heq
        exact hkey
    | cons hpair hbefore =>
        cases heq
        obtain ⟨middle, hname, hresult⟩ := hpair.pair
        exact ((hvalue _ _ hname).2 _ _ hresult).key _ inner value behind rfl hbefore
  keyed := by
    intro before name inner behind text next final heq hbefore hlast
    cases hbefore with
    | nil =>
        cases heq
        exact (hvalue _ _ hlast).1
    | cons hpair hbefore =>
        cases heq
        obtain ⟨middle, hname, hresult⟩ := hpair.pair
        exact ((hvalue _ _ hname).2 _ _ hresult).keyed _ name inner behind rfl hbefore hlast

end Contents

section Loops

variable {model : CallModel} {rounds calls : Nat} {scope : ScopeId} {test step : Option Node}
  {body : Node} {store final : Store}

/-- The rounds of a loop behind its first one are those of a loop that begins there. They are
counted from the first one, and the evaluation takes them one by one from there. -/
theorem Rounds.first {count : Nat}
    (h : Rounds model rounds scope test step body (count + 1) store final) :
    ∃ middle next, loopTest model rounds scope test store = .ok true middle ∧
      loopRound model rounds scope step body middle = .ok () next ∧
      Rounds model rounds scope test step body count next final := by
  induction count generalizing final with
  | zero =>
      cases h with
      | succ hbefore htests htruthy hround =>
          cases hbefore
          exact ⟨_, _, loopTest_of_yields htests htruthy, loopRound_of_yields hround, .zero⟩
  | succ count ih =>
      cases h with
      | succ hbefore htests htruthy hround =>
          obtain ⟨middle, next, htested, hdone, hrest⟩ := ih hbefore
          exact ⟨middle, next, htested, hdone, .succ hrest htests htruthy hround⟩

variable (rounds calls scope test step body)

/-- All that a round of a loop contains behind its test is of a kind. -/
def AllowsRound (kind : Evaluation → Prop) (store : Store) : Prop :=
  Allows rounds calls scope kind body store ∧ ∀ value middle,
    body.eval (Closure.invoke rounds calls) rounds scope store = .ok value middle →
    AllowsOption rounds calls scope kind step middle

/-- All that so many rounds of a loop contain is of a kind. -/
def AllowsLoop (kind : Evaluation → Prop) (more : Nat) (store : Store) : Prop :=
  ∀ {count middle}, Rounds (Closure.invoke rounds calls) rounds scope test step body count store
      middle → count < more →
    AllowsOption rounds calls scope kind test middle ∧ ∀ next,
      loopTest (Closure.invoke rounds calls) rounds scope test middle = .ok true next →
      AllowsRound rounds calls scope step body kind next

variable {rounds calls scope test step body} {kind : Evaluation → Prop}

/-- The evaluations of a loop are those of one round and of the loop behind it. -/
theorem allowsLoop_succ {more : Nat} (htest : AllowsOption rounds calls scope kind test store)
    (hround : ∀ middle,
      loopTest (Closure.invoke rounds calls) rounds scope test store = .ok true middle →
      AllowsRound rounds calls scope step body kind middle ∧ ∀ next,
        loopRound (Closure.invoke rounds calls) rounds scope step body middle = .ok () next →
        AllowsLoop rounds calls scope test step body kind more next) :
    AllowsLoop rounds calls scope test step body kind (more + 1) store := by
  intro count final hrounds hcount
  cases count with
  | zero =>
      cases hrounds
      exact ⟨htest, fun middle htested => (hround middle htested).1⟩
  | succ count =>
      obtain ⟨middle, next, htested, hdone, hrest⟩ := hrounds.first
      exact (hround middle htested).2 next hdone hrest (Nat.lt_of_succ_lt_succ hcount)

end Loops

section Walk

open Eval (Tracks Plain)

variable {rounds calls : Nat} {scope : ScopeId} {ledger : Ledger} {store : Store}

/-- The applications of functions to recorded arguments are tracked, and their bodies with them. -/
def CallsTrack (rounds calls : Nat) : Prop :=
  ∀ {closure arguments ledger store}, store.Recorded ledger → Value.AllRecorded ledger arguments →
    Tracks rounds (fun kind => ∀ {less inner begun}, calls = less + 1 →
        closure.Starts arguments store inner begun →
        Allows rounds less inner kind closure.body begun)
      Value.Recorded (Closure.invoke rounds calls closure arguments) ledger store

/-- What the application of a value contains: the body of a function. -/
def AllowsBody (rounds calls : Nat) (callee : Value) (arguments : List Value) (store : Store)
    (kind : Evaluation → Prop) : Prop :=
  ∀ {object closure less inner begun}, callee = .function object closure → calls = less + 1 →
    closure.Starts arguments store inner begun → Allows rounds less inner kind closure.body begun

/-- Applying a value tracks the evaluation of the body, if it is a written function. -/
theorem apply_tracked (hcalls : CallsTrack rounds calls) (h : store.Recorded ledger)
    {arguments : List Value} (harguments : Value.AllRecorded ledger arguments) (callee : Value) :
    Tracks rounds (AllowsBody rounds calls callee arguments store) Value.Recorded
      (callee.apply (Closure.invoke rounds calls) arguments) ledger store := by
  cases callee with
  | function object closure =>
      refine (hcalls h harguments).mono fun kind hbody => ?_
      rintro _ _ less inner begun ⟨⟩ hless hstarts
      exact hbody hless hstarts
  | builtin host =>
      have hplain : Tracks rounds Plain Value.Recorded (host.apply arguments) ledger store := by
        cases host with
        | len =>
            refine .ofExcept h fun result hok => ?_
            obtain ⟨_, count, -, -, rfl⟩ := Value.length_made hok
            exact Value.recorded_integer count
        | print =>
            exact ((Tracks.print h harguments).bind fun _ _ _ _ _ hprinted _ =>
              .pure hprinted (Value.recorded_of_simple .null)).mono fun _ _ => trivial
      exact hplain.mono fun _ _ => nofun
  | _ => exact (Tracks.fault h .notCallable).mono fun _ _ => nofun

/-- Reading a key makes no object. -/
theorem keyText_tracked (h : store.Recorded ledger) (key : Value) :
    Tracks rounds Plain (fun _ _ => True) (keyText key) ledger store := by
  cases key with
  | string text => exact .pure h trivial
  | _ => exact .fault h _

/-- A loop is tracked if its tests and rounds are. -/
theorem repeatWhile_tracked {test step : Option Node} {body : Node}
    (htest : ∀ {ledger store}, store.Recorded ledger →
      Tracks rounds (fun kind => AllowsOption rounds calls scope kind test store)
        (fun _ _ => True) (loopTest (Closure.invoke rounds calls) rounds scope test) ledger store)
    (hround : ∀ {ledger store}, store.Recorded ledger →
      Tracks rounds (fun kind => AllowsRound rounds calls scope step body kind store)
        (fun _ _ => True) (loopRound (Closure.invoke rounds calls) rounds scope step body) ledger
        store) :
    ∀ (more : Nat) {ledger store}, store.Recorded ledger →
      Tracks rounds (fun kind => AllowsLoop rounds calls scope test step body kind more store)
        (fun _ _ => True)
        (Eval.repeatWhile (loopTest (Closure.invoke rounds calls) rounds scope test)
          (loopRound (Closure.invoke rounds calls) rounds scope step body) more) ledger store
  | 0, ledger, store, h => by
      have hexit : Exit.exhausted.Recorded ledger := trivial
      refine (Tracks.throw h hexit).mono fun _ _ count middle _ hcount => ?_
      exact absurd hcount (Nat.not_lt_zero count)
  | more + 1, ledger, store, h => by
      rw [Eval.repeatWhile]
      apply Tracks.mono
      · apply (htest h).bind
        intro holds middle _ _ _ hmiddle _
        show Tracks rounds (fun kind => holds = true →
          AllowsRound rounds calls scope step body kind middle ∧ ∀ next,
            loopRound (Closure.invoke rounds calls) rounds scope step body middle = .ok () next →
            AllowsLoop rounds calls scope test step body kind more next) _ _ _ _
        cases holds with
        | false =>
            refine (Tracks.pure hmiddle trivial).mono fun _ _ hholds => ?_
            cases hholds
        | true =>
            refine ((hround hmiddle).bind fun _ _ _ _ _ hnext _ =>
              repeatWhile_tracked htest hround more hnext).mono fun kind hkind _ => ?_
            exact ⟨hkind.1, fun next hdone => hkind.2 () next hdone⟩
      · exact fun kind hkind => allowsLoop_succ hkind.1 fun middle htested =>
          hkind.2 true middle htested rfl

/-- A node is tracked if its action is, with what its parts contain. -/
theorem tracks_of_parts {node : Node} {contains : (Evaluation → Prop) → Prop}
    (hrecorded : store.Recorded ledger)
    (h : Tracks rounds contains Value.Recorded
      (node.eval (Closure.invoke rounds calls) rounds scope) ledger store)
    (hnode : ∀ kind : Evaluation → Prop, kind ⟨calls, scope, node, store⟩ → contains kind →
      Allows rounds calls scope kind node store) :
    Tracks rounds (fun kind => Allows rounds calls scope kind node store) Value.Recorded
      (node.eval (Closure.invoke rounds calls) rounds scope) ledger store := by
  obtain ⟨longer, hlonger, hsettled, hcontains⟩ := h
  refine ⟨longer, hlonger, hsettled, fun whole hwhole => ?_⟩
  exact hnode _ ⟨ledger, longer, hlonger, hwhole, hrecorded, hsettled⟩ (hcontains whole hwhole)

/-- All that a node other than a call contains is itself and what its parts contain. -/
theorem tracks_of_enters {node : Node} {contains : (Evaluation → Prop) → Prop}
    (hrecorded : store.Recorded ledger) (hnode : node.isCall = false)
    (h : Tracks rounds contains Value.Recorded
      (node.eval (Closure.invoke rounds calls) rounds scope) ledger store)
    (hparts : ∀ kind, contains kind → ∀ inner middle,
      Enters (Closure.invoke rounds calls) rounds scope node store inner middle →
      Allows rounds calls scope kind inner middle) :
    Tracks rounds (fun kind => Allows rounds calls scope kind node store) Value.Recorded
      (node.eval (Closure.invoke rounds calls) rounds scope) ledger store := by
  refine tracks_of_parts hrecorded h fun kind hself hkind evaluation hleads => ?_
  cases hleads with
  | refl => exact hself
  | part henters hinner => exact hparts kind hkind _ _ henters evaluation hinner
  | body => cases hnode

mutual

/-- The evaluation of a node is tracked, with all that it contains. -/
theorem eval_tracks (hcalls : CallsTrack rounds calls) : ∀ (node : Node) {ledger : Ledger}
    {store : Store}, store.Recorded ledger →
    Tracks rounds (fun kind => Allows rounds calls scope kind node store) Value.Recorded
      (node.eval (Closure.invoke rounds calls) rounds scope) ledger store
  | hole, ledger, store, h => by
      have hexit : (Exit.failed (.flaw .hole)).Recorded ledger := trivial
      apply tracks_of_enters h rfl
      · rw [eval]
        exact .throw h hexit
      · exact fun _ _ _ _ => nofun
  | program statements, ledger, store, h => by
      apply tracks_of_enters h rfl
      · rw [eval]
        exact evalStatements_tracks hcalls statements h (Value.recorded_of_simple .null)
      · intro kind hstatements inner middle henters
        cases henters with
        | statement hyields => exact hstatements _ inner _ rfl hyields
  | expression origin body, ledger, store, h => by
      apply tracks_of_enters h rfl
      · rw [eval]
        exact .located origin (eval_tracks hcalls body h)
      · intro kind hbody inner middle henters
        cases henters
        exact hbody
  | declaration origin name value, ledger, store, h => by
      apply tracks_of_enters h rfl
      · rw [eval]
        apply Tracks.located
        apply (Tracks.nameOf h name).bind
        intro text start _ _ _ hstart _
        apply (Tracks.declare hstart (Value.recorded_of_simple .null)).bind
        intro _ middle _ _ _ hmiddle _
        apply (evalOption_tracks hcalls value hmiddle).bind
        intro first final _ _ _ hfinal hfirst
        show Tracks rounds Plain _ _ _ _
        cases first with
        | none => exact .pure hfinal (Value.recorded_of_simple .null)
        | some first =>
            exact ((Tracks.write hfinal (hfirst first rfl)).bind fun _ _ _ _ _ hwritten _ =>
              .pure hwritten (Value.recorded_of_simple .null)).mono fun _ _ => trivial
      · intro kind hkind inner middle henters
        cases henters with
        | @firstValue _ _ text _ _ _ hname hdeclare =>
            have htext : Eval.nameOf name store = .ok text store := by rw [Eval.nameOf, hname]
            have hdeclared : Eval.declare scope text .null store = .ok () middle := by
              rw [Eval.declare, hdeclare]
            exact ((hkind.2 text store htext).2 () middle hdeclared).1 inner rfl
  | returning origin value, ledger, store, h => by
      apply tracks_of_enters h rfl
      · rw [eval]
        exact .located origin ((evalOption_tracks hcalls value h).bind
          fun result _ _ _ _ hfinal hresult => .throw hfinal hresult.getD)
      · intro kind hkind inner middle henters
        cases henters
        exact hkind.1 inner rfl
  | block origin statements, ledger, store, h => by
      apply tracks_of_enters h rfl
      · rw [eval]
        exact .located origin
          (evalStatements_tracks hcalls statements h (Value.recorded_of_simple .null))
      · intro kind hkind inner middle henters
        cases henters with
        | blockStatement hyields => exact hkind _ inner _ rfl hyields
  | loop origin first test step body, ledger, store, h => by
      have htest {ledger : Ledger} {store : Store} (h : store.Recorded ledger) :
          Tracks rounds (fun kind => AllowsOption rounds calls scope kind test store)
            (fun _ _ => True) (loopTest (Closure.invoke rounds calls) rounds scope test) ledger
            store := by
        rw [loopTest]
        apply Tracks.mono
        · apply (evalOption_tracks hcalls test h).bind
          intro value _ _ _ _ hfinal _
          show Tracks rounds Plain _ _ _ _
          cases value <;> exact .pure hfinal trivial
        · exact fun _ hkind => hkind.1
      have hround {ledger : Ledger} {store : Store} (h : store.Recorded ledger) :
          Tracks rounds (fun kind => AllowsRound rounds calls scope step body kind store)
            (fun _ _ => True) (loopRound (Closure.invoke rounds calls) rounds scope step body)
            ledger store := by
        rw [loopRound]
        refine ((eval_tracks hcalls body h).bind fun _ middle _ _ _ hmiddle _ =>
          (evalOption_tracks hcalls step hmiddle).bind fun _ _ _ _ _ hfinal _ =>
            .pure hfinal trivial).mono ?_
        exact fun kind hkind => ⟨hkind.1, fun value middle hbody => (hkind.2 value middle hbody).1⟩
      apply tracks_of_enters h rfl
      · rw [eval_loop]
        exact .located origin ((evalOption_tracks hcalls first h).bind
          fun _ start _ _ _ hstart _ =>
            (repeatWhile_tracked htest hround rounds hstart).bind
              fun _ _ _ _ _ hfinal _ => .pure hfinal (Value.recorded_of_simple .null))
      · intro kind hkind inner middle henters
        have hrounds {values : List Value} {start : Store}
            (hfirst : Yields (Closure.invoke rounds calls) rounds scope first.toList store values
              start) : AllowsLoop rounds calls scope test step body kind rounds start :=
          (hkind.2 _ start (evalOption_of_yields hfirst)).1
        cases henters with
        | loopFirst => exact hkind.1 inner rfl
        | loopTest hfirst hbefore hcount => exact (hrounds hfirst hbefore hcount).1 inner rfl
        | loopBody hfirst hbefore hcount htests htruthy =>
            exact ((hrounds hfirst hbefore hcount).2 _ (loopTest_of_yields htests htruthy)).1
        | loopStep hfirst hbefore hcount htests htruthy hbody =>
            exact ((hrounds hfirst hbefore hcount).2 _ (loopTest_of_yields htests htruthy)).2 _ _
              hbody inner rfl
  | integer _ value, ledger, store, h => by
      apply tracks_of_enters h rfl
      · rw [eval]
        exact .pure h (Value.recorded_integer value)
      · exact fun _ _ _ _ => nofun
  | boolean _ _, ledger, store, h => by
      apply tracks_of_enters h rfl
      · rw [eval]
        exact .pure h (Value.recorded_of_simple .boolean)
      · exact fun _ _ _ _ => nofun
  | string _ _, ledger, store, h => by
      apply tracks_of_enters h rfl
      · rw [eval]
        exact .pure h (Value.recorded_of_simple .string)
      · exact fun _ _ _ _ => nofun
  | identifier origin name, ledger, store, h => by
      apply tracks_of_enters h rfl
      · rw [eval]
        exact .located origin (.lookup h)
      · exact fun _ _ _ _ => nofun
  | array origin elements, ledger, store, h => by
      apply tracks_of_enters h rfl
      · rw [eval]
        exact .located origin ((evalList_tracks hcalls elements h).bind
          fun values _ _ _ _ hmiddle hvalues => .made hmiddle (Value.recorded_array hvalues))
      · intro kind hkind inner middle henters
        cases henters with
        | element hyields => exact hkind.1 _ inner _ rfl hyields
  | map origin pairs, ledger, store, h => by
      apply tracks_of_enters h rfl
      · rw [eval]
        exact .located origin ((evalPairs_tracks hcalls pairs h (List.forall_mem_nil _)).bind
          fun entries _ _ _ _ hmiddle hentries => .made hmiddle (Value.recorded_map hentries))
      · intro kind hkind inner middle henters
        cases henters with
        | key hbefore => exact hkind.1.key _ inner _ _ rfl hbefore
        | keyed hbefore hkey => exact hkind.1.keyed _ _ inner _ rfl hbefore hkey
  | function _ parameters body, ledger, store, h => by
      apply tracks_of_enters h rfl
      · rw [eval]
        exact .made h Value.recorded_function
      · exact fun _ _ _ _ => nofun
  | choice origin test consequence alternative, ledger, store, h => by
      apply tracks_of_enters h rfl
      · rw [eval]
        apply Tracks.located
        apply (eval_tracks hcalls test h).bind
        intro value middle longer _ _ hmiddle _
        show Tracks rounds (fun kind =>
          (value.truthy = true → Allows rounds calls scope kind consequence middle) ∧
            (value.truthy = false → AllowsOption rounds calls scope kind alternative middle))
          _ _ _ _
        cases value.truthy with
        | true =>
            exact (eval_tracks hcalls consequence hmiddle).mono fun _ hkind =>
              ⟨fun _ => hkind, nofun⟩
        | false =>
            exact ((evalOption_tracks hcalls alternative hmiddle).bind
              fun result _ _ _ _ hfinal hresult => .pure hfinal hresult.getD).mono
              fun _ hkind => ⟨nofun, fun _ => hkind.1⟩
      · intro kind hkind inner middle henters
        cases henters with
        | test => exact hkind.1
        | consequence htest htruthy => exact (hkind.2 _ middle htest).1 htruthy
        | alternative htest htruthy => exact (hkind.2 _ middle htest).2 htruthy inner rfl
  | unary origin operator operand, ledger, store, h => by
      apply tracks_of_enters h rfl
      · rw [eval]
        exact .located origin ((eval_tracks hcalls operand h).bind fun _ _ _ _ _ hfinal _ =>
          .ofExcept hfinal fun _ hok => Value.recorded_of_simple (Value.unary_simple hok))
      · intro kind hkind inner middle henters
        cases henters
        exact hkind.1
  | binary origin left operator right, ledger, store, h => by
      apply tracks_of_enters h rfl
      · rw [eval]
        exact .located origin ((eval_tracks hcalls left h).bind fun _ _ _ _ _ hmiddle _ =>
          (eval_tracks hcalls right hmiddle).bind fun _ _ _ _ _ hfinal _ =>
            .ofExcept hfinal fun _ hok => Value.recorded_of_simple (Value.binary_simple hok))
      · intro kind hkind inner middle henters
        cases henters with
        | left => exact hkind.1
        | right hleft => exact (hkind.2 _ middle hleft).1
  | call origin callee arguments, ledger, store, h => by
      apply tracks_of_parts h
      · rw [eval]
        exact .located origin ((eval_tracks hcalls callee h).bind
          fun function middle _ _ _ hmiddle _ => (evalList_tracks hcalls arguments hmiddle).bind
            fun values start _ _ _ hstart hvalues => apply_tracked hcalls hstart hvalues function)
      · intro kind hself hkind evaluation hleads
        cases hleads with
        | refl => exact hself
        | part henters hinner =>
            cases henters with
            | callee => exact hkind.1 evaluation hinner
            | argument hyields =>
                cases hyields with
                | cons hcallee hbefore =>
                    exact (hkind.2 _ _ hcallee).1 _ _ _ rfl hbefore evaluation hinner
        | body hyields hstarts hinner =>
            cases hyields with
            | cons hcallee harguments =>
                exact (hkind.2 _ _ hcallee).2 _ _ (evalList_of_yields harguments) rfl rfl hstarts
                  evaluation hinner
  | index origin target position, ledger, store, h => by
      apply tracks_of_enters h rfl
      · rw [eval]
        apply Tracks.located
        apply (eval_tracks hcalls target h).bind
        intro collection middle _ _ _ hmiddle hcollection
        apply (eval_tracks hcalls position hmiddle).bind
        intro place final _ _ hlonger hfinal _
        refine .ofExcept hfinal fun result hok => ?_
        rcases Value.index_made hok with rfl | hoccurs
        · exact Value.recorded_of_simple .null
        · exact (hcollection.later hlonger).occurs hoccurs
      · intro kind hkind inner middle henters
        cases henters with
        | target => exact hkind.1
        | position htarget => exact (hkind.2 _ middle htarget).1
  | member origin target name, ledger, store, h => by
      apply tracks_of_enters h rfl
      · rw [eval]
        apply Tracks.located
        apply (eval_tracks hcalls target h).bind
        intro value middle _ _ _ hmiddle hvalue
        apply (Tracks.nameOf hmiddle name).bind
        intro text final _ _ hlonger hfinal _
        refine .ofExcept hfinal fun result hok => ?_
        rcases Value.member_made hok with rfl | hoccurs | ⟨count, -, -, rfl⟩
        · exact Value.recorded_of_simple .null
        · exact (hvalue.later hlonger).occurs hoccurs
        · exact Value.recorded_integer count
      · intro kind hkind inner middle henters
        cases henters
        exact hkind.1
  | assign origin target value, ledger, store, h => by
      have haction (name : String) : Tracks rounds
          (fun kind => store.has scope name = true → Allows rounds calls scope kind value store)
          Value.Recorded (do
            if ← Eval.has scope name then
              let result ← value.eval (Closure.invoke rounds calls) rounds scope
              Eval.set scope name result
              return result
            else
              Eval.fault .badTarget) ledger store := by
        apply Tracks.mono
        · apply (Tracks.has h).bind
          intro found middle longer _ _ hmiddle _
          show Tracks rounds (fun kind => found = true →
            Allows rounds calls scope kind value middle) _ _ _ _
          cases found with
          | false => exact (Tracks.fault hmiddle .badTarget).mono fun _ _ => nofun
          | true =>
              refine ((eval_tracks hcalls value hmiddle).bind fun result _ _ _ _ hfinal hresult =>
                (Tracks.set hfinal hresult).bind fun _ _ _ _ hlonger hset _ =>
                  .pure hset (hresult.later hlonger)).mono fun kind hkind _ => hkind.1
        · exact fun kind hkind hhas => hkind.2 true store (by rw [Eval.has, hhas]) rfl
      apply tracks_of_enters h rfl
      · rw [eval]
        apply Tracks.located
        show Tracks rounds (fun kind => ∀ name, target.identifier? = some name →
          store.has scope name = true → Allows rounds calls scope kind value store) _ _ _ _
        cases target.identifier? with
        | none => exact (Tracks.fault h .badTarget).mono fun _ _ => nofun
        | some name =>
            refine (haction name).mono fun kind hkind => ?_
            rintro _ ⟨⟩
            exact hkind
      · intro kind hkind inner middle henters
        cases henters with
        | assigned hname hhas => exact hkind _ hname hhas

/-- Nodes one behind the other, by induction on the list. -/
theorem evalList_tracks (hcalls : CallsTrack rounds calls) : ∀ (nodes : List Node) {ledger : Ledger}
    {store : Store}, store.Recorded ledger →
    Tracks rounds (fun kind => AllowsList rounds calls scope kind nodes store) Value.AllRecorded
      (evalList (Closure.invoke rounds calls) rounds scope nodes) ledger store
  | [], ledger, store, h => by
      rw [evalList]
      refine (Tracks.pure h (List.forall_mem_nil _)).mono
        fun _ _ before inner behind _ _ hnodes => ?_
      exact absurd hnodes (by simp)
  | node :: nodes, ledger, store, h => by
      rw [evalList]
      refine ((eval_tracks hcalls node h).bind fun value middle _ _ _ hmiddle hvalue =>
        (evalList_tracks hcalls nodes hmiddle).bind fun values final _ _ hlonger hfinal hvalues =>
          .pure hfinal (List.forall_mem_cons.2 ⟨hvalue.later hlonger, hvalues⟩)).mono ?_
      exact fun kind hkind => allowsList_cons hkind.1 fun value middle hnode =>
        (hkind.2 value middle hnode).1

theorem evalStatements_tracks (hcalls : CallsTrack rounds calls) : ∀ (nodes : List Node)
    {ledger : Ledger} {store : Store} {result : Value}, store.Recorded ledger →
    result.Recorded ledger →
    Tracks rounds (fun kind => AllowsList rounds calls scope kind nodes store) Value.Recorded
      (evalStatements (Closure.invoke rounds calls) rounds scope result nodes) ledger store
  | [], ledger, store, result, h, hresult => by
      rw [evalStatements]
      refine (Tracks.pure h hresult).mono fun _ _ before inner behind _ _ hnodes => ?_
      exact absurd hnodes (by simp)
  | node :: nodes, ledger, store, result, h, hresult => by
      rw [evalStatements]
      refine ((eval_tracks hcalls node h).bind fun value middle _ _ hlonger hmiddle hvalue =>
        evalStatements_tracks hcalls nodes hmiddle ?_).mono ?_
      · split
        · exact hresult.later hlonger
        · exact hvalue
      · exact fun kind hkind => allowsList_cons hkind.1 hkind.2

theorem evalPairs_tracks (hcalls : CallsTrack rounds calls) : ∀ (pairs : List (Node × Node))
    {ledger : Ledger} {store : Store} {entries : List (String × Value)}, store.Recorded ledger →
    Value.EntriesRecorded ledger entries →
    Tracks rounds (fun kind => AllowsPairs rounds calls scope kind pairs store)
      Value.EntriesRecorded (evalPairs (Closure.invoke rounds calls) rounds scope entries pairs)
      ledger store
  | [], ledger, store, entries, h, hentries => by
      rw [evalPairs]
      refine (Tracks.pure h hentries).mono fun _ _ => ⟨?_, ?_⟩
      · exact fun before inner value behind _ hpairs => absurd hpairs (by simp)
      · exact fun before key inner behind _ _ _ hpairs => absurd hpairs (by simp)
  | (key, node) :: pairs, ledger, store, entries, h, hentries => by
      rw [evalPairs]
      refine ((eval_tracks hcalls key h).bind fun name _ _ _ hkeyed hmiddle _ =>
        (keyText_tracked hmiddle name).bind fun text _ _ _ hnamed hturn _ =>
          (eval_tracks hcalls node hturn).bind fun value _ _ _ hvalued hfinal hvalue =>
            evalPairs_tracks hcalls pairs hfinal (Value.EntriesRecorded.putEntry ?_ hvalue)).mono ?_
      · exact hentries.later ((hkeyed.trans hnamed).trans hvalued)
      · exact fun kind hkind => allowsPairs_cons hkind.1 fun text middle hkey =>
          (hkind.2 _ middle hkey).2 text middle (keyText_string text middle)

theorem evalOption_tracks (hcalls : CallsTrack rounds calls) : ∀ (child : Option Node)
    {ledger : Ledger} {store : Store}, store.Recorded ledger →
    Tracks rounds (fun kind => AllowsOption rounds calls scope kind child store)
      Value.OptionRecorded (evalOption (Closure.invoke rounds calls) rounds scope child) ledger
      store
  | none, ledger, store, h => by
      rw [evalOption]
      exact (Tracks.pure h nofun).mono fun _ _ _ => nofun
  | some node, ledger, store, h => by
      rw [evalOption]
      refine ((eval_tracks hcalls node h).bind fun value final _ _ _ hfinal hvalue =>
        .pure hfinal ?_).mono ?_
      · rintro _ ⟨⟩
        exact hvalue
      · rintro kind ⟨hnode, -⟩ _ ⟨⟩
        exact hnode

end

end Walk

end Node

section Calls

open Eval (Tracks Plain)

variable {rounds : Nat} {ledger : Ledger} {store : Store}

/-- Declaring parameters makes no object. -/
theorem bind_tracked {scope : ScopeId} : ∀ (pairs : List (Node × Value)) {ledger : Ledger}
    {store : Store}, store.Recorded ledger → (∀ pair ∈ pairs, pair.2.Recorded ledger) →
    Tracks rounds Plain (fun _ _ => True) (Closure.bind scope pairs) ledger store
  | [], _, _, h, _ => .pure h trivial
  | (parameter, value) :: pairs, ledger, store, h, hpairs => by
      obtain ⟨hvalue, hpairs⟩ := List.forall_mem_cons.1 hpairs
      rw [Closure.bind]
      apply Tracks.mono
      · apply (Tracks.nameOf h parameter).bind
        intro name _ _ _ hnamed hmiddle _
        apply (Tracks.declare hmiddle (hvalue.later hnamed)).bind
        intro _ _ _ _ hdeclared hnext _
        refine bind_tracked pairs hnext fun pair hpair => ?_
        exact (hpairs pair hpair).later (hnamed.trans hdeclared)
      · exact fun _ _ => trivial

/-- The application of a function is tracked, and so is its body. -/
theorem invoke_tracked (rounds : Nat) : ∀ calls, Node.CallsTrack rounds calls
  | 0, _, _, ledger, _, h, _ => by
      have hexit : Exit.exhausted.Recorded ledger := trivial
      exact (Tracks.throw h hexit).mono fun _ _ => nofun
  | calls + 1, closure, arguments, ledger, store, h, harguments => by
      rw [Closure.invoke]
      by_cases hcount : arguments.length = closure.parameters.length
      · rw [if_pos hcount]
        have hpairs (pair : Node × Value) (hpair : pair ∈ closure.parameters.zip arguments) :
            pair.2.Recorded ledger := harguments _ (List.of_mem_zip hpair).2
        apply Tracks.mono
        · apply (Tracks.openScope h).bind
          intro scope _ _ _ hopened hinside _
          apply (bind_tracked _ hinside fun pair hpair => (hpairs pair hpair).later hopened).bind
          intro _ begun _ _ _ hbegun _
          exact .catchReturn (Node.eval_tracks (invoke_tracked rounds calls) closure.body hbegun)
        · rintro kind ⟨-, hkind⟩ less inner begun hless ⟨-, rfl, hbound⟩
          obtain rfl : calls = less := Nat.succ.inj hless
          exact (hkind _ _ rfl).2 () begun hbound
      · rw [if_neg hcount]
        refine (Tracks.fault h _).mono fun _ _ _ _ _ _ hstarts => ?_
        exact absurd hstarts.count hcount

/-- An evaluation that begins in a recorded store is tracked, with all that it contains. -/
theorem eval_tracked (rounds calls : Nat) (scope : ScopeId) (node : Node)
    (h : store.Recorded ledger) :
    Tracks rounds (fun kind => Node.Allows rounds calls scope kind node store) Value.Recorded
      (node.eval (Closure.invoke rounds calls) rounds scope) ledger store :=
  Node.eval_tracks (invoke_tracked rounds calls) node h

end Calls

/-- The value that a text has ended with. -/
def Verdict.value? : Verdict → Option Value
  | .ran (.value value) => some value
  | _ => none

/-- A value that a text has ended with is recorded. -/
def Verdict.Recorded (ledger : Ledger) (verdict : Verdict) : Prop :=
  Value.OptionRecorded ledger verdict.value?

section Sessions

variable {limits : Limits} {scope : ScopeId} {ledger : Ledger} {store : Store}

/-- The verdict on a node and the store behind it show recorded values only. -/
theorem evaluate_recorded {node : Node}
    (h : Eval.Settled Value.Recorded ledger
      (node.eval limits.model limits.rounds scope store)) :
    (node.evaluate limits scope store).2.Recorded ledger ∧
      (Verdict.ran (node.evaluate limits scope store).1).Recorded ledger := by
  rw [Node.evaluate]
  cases hrun : node.eval limits.model limits.rounds scope store with
  | ok value final =>
      rw [hrun] at h
      refine ⟨h.1, ?_⟩
      rintro _ ⟨⟩
      exact h.2
  | error exit final =>
      rw [hrun] at h
      cases exit with
      | returned value =>
          refine ⟨h.1, ?_⟩
          rintro _ ⟨⟩
          exact h.2
      | failed failure =>
          refine ⟨h.1, ?_⟩
          cases node.isProgram <;> rintro _ ⟨⟩
      | exhausted =>
          refine ⟨h.1, ?_⟩
          rintro _ ⟨⟩

/-- A text adds to the ledger, and all that its program contains is tracked from there on. -/
theorem submit_tracked (source : String) (h : store.Recorded ledger) :
    ∃ longer, ledger <+: longer ∧ (submit limits scope source store).2.Recorded longer ∧
      (submit limits scope source store).1.Recorded longer ∧
      ∀ whole, longer <+: whole → ∀ parsed, parse source = .ok parsed → parsed.errors = [] →
        Node.Allows limits.rounds limits.calls scope (Evaluation.Tracked limits.rounds whole)
          parsed.program store := by
  cases hparse : parse source with
  | error stop =>
      have heq : submit limits scope source store = (.unreadable stop, store) := by
        simp only [submit, hparse]
      rw [heq]
      refine ⟨ledger, List.prefix_refl _, h, ?_, ?_⟩
      · rintro _ ⟨⟩
      · rintro whole - parsed ⟨⟩
  | ok parsed =>
      cases herrors : parsed.errors with
      | cons error errors =>
          have heq : submit limits scope source store = (.rejected (error :: errors), store) := by
            simp only [submit, hparse, herrors]
          rw [heq]
          refine ⟨ledger, List.prefix_refl _, h, ?_, ?_⟩
          · rintro _ ⟨⟩
          · rintro whole - _ ⟨⟩ hnone
            exact absurd (herrors.symm.trans hnone) (List.cons_ne_nil _ _)
      | nil =>
          have heq : submit limits scope source store =
              (.ran (parsed.program.evaluate limits scope store).1,
                (parsed.program.evaluate limits scope store).2) := by
            simp only [submit, hparse, herrors]
          rw [heq]
          obtain ⟨longer, hlonger, hsettled, hcontains⟩ := eval_tracked limits.rounds limits.calls
            scope parsed.program h
          obtain ⟨hfinal, hverdict⟩ := evaluate_recorded hsettled
          refine ⟨longer, hlonger, hfinal, hverdict, ?_⟩
          rintro whole hwhole _ ⟨⟩ -
          exact hcontains whole hwhole

/-- One ledger serves a whole session: its texts leave stores and values that are recorded by
beginnings of it, and every evaluation on the way is tracked by it. -/
theorem session_tracked (limits : Limits) (scope : ScopeId) (sources : List String)
    (h : store.Recorded ledger) :
    ∃ whole, ledger <+: whole ∧
      (∀ step ∈ submitAll limits scope sources store, ∃ finish, finish <+: whole ∧
        step.2.Recorded finish ∧ step.1.Recorded finish) ∧
      ∀ evaluation, Session.Leads limits scope sources store evaluation →
        evaluation.Tracked limits.rounds whole := by
  induction sources generalizing ledger store with
  | nil => exact ⟨ledger, List.prefix_refl _, List.forall_mem_nil _, fun _ => nofun⟩
  | cons source sources ih =>
      obtain ⟨longer, hlonger, hstore, hverdict, hcontains⟩ := submit_tracked source h
      obtain ⟨whole, hwhole, hsteps, hleads⟩ := ih hstore
      refine ⟨whole, hlonger.trans hwhole, ?_, fun evaluation hevaluation => ?_⟩
      · exact List.forall_mem_cons.2 ⟨⟨longer, hwhole, hstore, hverdict⟩, hsteps⟩
      · cases hevaluation with
        | here hparse herrors hinner =>
            exact hcontains whole hwhole _ hparse herrors evaluation hinner
        | later hlater => exact hleads evaluation hlater

end Sessions

end Scriptlet
