import Scriptlet.Proofs.Evaluation.Pairing
import Scriptlet.Run

/-!
# Evaluations in lockstep

The evaluation of a node goes in lockstep with the evaluation of the same node at other places,
whatever the stores hold in scopes that are not visible (`eval_runs`, one case for each form of
node). The meaning of calls is a parameter there; `invoke_runs` shows by induction on the number of
calls that calls go in lockstep too.
-/

namespace Scriptlet.Pairing

variable {pairing : Pairing} {scope : ScopeId} {name : String} {value other : Value}

section Operations

variable {α β : Type} {values : α → β → Prop}

theorem fault_runs (cause : Fault) :
    pairing.Runs values (Eval.fault cause) (Eval.fault cause) :=
  ⟨fun hstores => .error (.raised _ cause) hstores⟩

/-- Computations that touch no store go in lockstep when their results are alike. -/
theorem ofExcept_runs {result : Except Fault Value}
    (h : ∀ value, result = .ok value → pairing.Within value.captured) :
    pairing.Runs pairing.Values (Eval.ofExcept result)
      (Eval.ofExcept (result.map (Value.relocate pairing.move))) := by
  refine ⟨fun {left right} hstores => ?_⟩
  cases result with
  | ok value => exact .ok ⟨rfl, h value rfl⟩ hstores
  | error cause => exact .error (.raised _ cause) hstores

/-- The name of a node is the same on both sides. -/
theorem nameOf_runs (node : Node) :
    pairing.Runs Eq (Eval.nameOf node) (Eval.nameOf (node.relocate pairing.move)) := by
  refine ⟨fun {left right} hstores => ?_⟩
  unfold Eval.nameOf
  rw [Node.naming_relocate]
  cases node.naming with
  | ok name => exact .ok rfl hstores
  | error flaw => exact .error .failed hstores

/-- A fault gets the place of the moved node where it gets the place of the node. -/
theorem located_runs {left : Eval α} {right : Eval β} (origin : Origin)
    (h : pairing.Runs values left right) :
    pairing.Runs values (Eval.located origin left)
      (Eval.located (origin.relocate pairing.move) right) := by
  refine ⟨fun {leftStore rightStore} hstores => ?_⟩
  have hrun := h.run hstores
  unfold Eval.located
  generalize left leftStore = first at hrun
  generalize right rightStore = second at hrun
  cases hrun with
  | ok hvalues hfinish => exact .ok hvalues hfinish
  | error hexits hfinish =>
      cases hexits with
      | returned hvalues => exact .error (.returned hvalues) hfinish
      | exhausted => exact .error .exhausted hfinish
      | @failed failure =>
          cases failure with
          | sink reason | flaw cause => exact .error .failed hfinish
          | fault cause position =>
              cases position with
              | some position => exact .error .failed hfinish
              | none =>
                  -- Only here does an evaluation read a place, and it tells line zero from others.
                  simp only [Failure.relocate, Option.map_none,
                    Origin.position?_relocate pairing.keeps origin]
                  exact .error .failed hfinish

/-- A return is caught on both sides. -/
theorem catchReturn_runs {left right : Eval Value}
    (h : pairing.Runs pairing.Values left right) :
    pairing.Runs pairing.Values (Eval.catchReturn left) (Eval.catchReturn right) := by
  refine ⟨fun {leftStore rightStore} hstores => ?_⟩
  have hrun := h.run hstores
  unfold Eval.catchReturn
  generalize left leftStore = first at hrun
  generalize right rightStore = second at hrun
  cases hrun with
  | ok hvalues hfinish => exact .ok hvalues hfinish
  | error hexits hfinish =>
      cases hexits with
      | returned hvalues => exact .ok hvalues hfinish
      | failed => exact .error .failed hfinish
      | exhausted => exact .error .exhausted hfinish

/-- Names in a visible scope stand for corresponding values. -/
theorem lookup_runs (hscope : pairing.visible scope) (name : String) :
    pairing.Runs pairing.Values (Eval.lookup scope name) (Eval.lookup scope name) := by
  refine ⟨fun {left right} hstores => ?_⟩
  obtain ⟨hlookup, hwithin⟩ : pairing.Options (left.lookup? scope name)
    (right.lookup? scope name) := hstores.lookup hscope
  unfold Eval.lookup
  rw [hlookup]
  cases hfound : left.lookup? scope name with
  | some value => exact .ok ⟨rfl, hwithin value hfound⟩ hstores
  | none =>
      simp only [Option.map_none]
      cases Builtin.ofName? name with
      | some host => exact .ok ⟨rfl, nofun⟩ hstores
      | none => exact .error .failed hstores

/-- A name is in reach of a visible scope on both sides, or on neither. -/
theorem has_runs (hscope : pairing.visible scope) (name : String) :
    pairing.Runs Eq (Eval.has scope name) (Eval.has scope name) := by
  refine ⟨fun {left right} hstores => ?_⟩
  refine .ok ?_ hstores
  rw [Store.has, Store.has, hstores.resolve hscope]

/-- A name is declared on both sides, or refused on both. -/
theorem declare_runs (hscope : pairing.visible scope) (name : Name)
    (hvalue : pairing.Values value other) :
    pairing.Runs Eq (Eval.declare scope name value) (Eval.declare scope name other) := by
  refine ⟨fun {left right} hstores => ?_⟩
  obtain ⟨rfl, hwithin⟩ := hvalue
  have hdeclares : right.declares scope name = left.declares scope name := hstores.declares hscope
  unfold Eval.declare Store.declare
  rw [hdeclares]
  cases left.declares scope name with
  | true => exact .error (.raised _ _) hstores
  | false => exact .ok rfl (hstores.append hscope hwithin)

theorem write_runs (hscope : pairing.visible scope) (name : Name)
    (hvalue : pairing.Values value other) :
    pairing.Runs Eq (Eval.write scope name value) (Eval.write scope name other) := by
  refine ⟨fun {left right} hstores => ?_⟩
  obtain ⟨rfl, hwithin⟩ := hvalue
  exact .ok rfl (hstores.write hscope hwithin)

/-- A name is found in corresponding scopes and given corresponding values. -/
theorem set_runs (hscope : pairing.visible scope) (name : String)
    (hvalue : pairing.Values value other) :
    pairing.Runs Eq (Eval.set scope name value) (Eval.set scope name other) := by
  refine ⟨fun {left right} hstores => ?_⟩
  obtain ⟨rfl, hwithin⟩ := hvalue
  have hresolve : right.resolve scope name = left.resolve scope name := hstores.resolve hscope
  unfold Eval.set Store.set
  rw [hresolve]
  cases howner : left.resolve scope name with
  | none => exact .error .failed hstores
  | some owner => exact .ok rfl (hstores.write (hstores.visible_of_resolve hscope howner) hwithin)

/-- Both evaluations open the same scope. -/
theorem openScope_runs (hscope : pairing.visible scope) :
    pairing.Runs (fun left right => right = left ∧ pairing.visible left)
      (Eval.openScope scope) (Eval.openScope scope) := by
  refine ⟨fun {left right} hstores => ?_⟩
  refine .ok ⟨hstores.size, ?_⟩ (hstores.openScope hscope)
  exact pairing.opened _ hstores.grown

/-- New objects get the same identity. -/
theorem newId_runs : pairing.Runs Eq Eval.newId Eval.newId := by
  refine ⟨fun {left right} hstores => ?_⟩
  exact .ok hstores.fresh.symm hstores.newId

/-- Corresponding values are printed. -/
theorem print_runs {arguments others : List Value} (h : pairing.Lists arguments others) :
    pairing.Runs Eq (Eval.print arguments) (Eval.print others) := by
  refine ⟨fun {left right} hstores => ?_⟩
  obtain ⟨rfl, -⟩ := h
  have hsink := hstores.sink
  unfold Eval.print
  split
  · next hleft =>
      rw [hleft] at hsink
      split
      · exact .ok rfl hstores.print
      · next hright => cases hsink.symm.trans hright
  · next reason hleft =>
      rw [hleft] at hsink
      split
      · next hright => cases hsink.symm.trans hright
      · next hright =>
          cases hsink.symm.trans hright
          exact .error .failed hstores

/-- Loops in lockstep make the same rounds. -/
theorem repeatWhile_runs {test otherTest : Eval Bool} {body otherBody : Eval Unit}
    (htest : pairing.Runs Eq test otherTest) (hbody : pairing.Runs Eq body otherBody)
    (rounds : Nat) :
    pairing.Runs Eq (Eval.repeatWhile test body rounds)
      (Eval.repeatWhile otherTest otherBody rounds) := by
  induction rounds with
  | zero => exact .throw .exhausted
  | succ rounds ih =>
      unfold Eval.repeatWhile
      refine htest.bind ?_
      intro holds _ heq
      subst heq
      split
      · exact hbody.bind fun _ => ih
      · exact .pure rfl

end Operations

/-- The meanings of calls go in lockstep for functions from visible scopes. -/
def Models (pairing : Pairing) (model otherModel : CallModel) : Prop :=
  ∀ {closure : Closure} {arguments others : List Value}, pairing.visible closure.scope →
    pairing.Lists arguments others →
    pairing.Runs pairing.Values (model closure arguments)
      (otherModel (closure.relocate pairing.move) others)

variable {model otherModel : CallModel} {rounds : Nat}

/-- Host functions answer correspondingly, since they look at no place. -/
theorem hostApply_runs (host : Builtin) {arguments others : List Value}
    (h : pairing.Lists arguments others) :
    pairing.Runs pairing.Values (host.apply arguments) (host.apply others) := by
  cases host with
  | len =>
      obtain ⟨rfl, -⟩ := h
      simp only [Builtin.apply, Value.length_relocate]
      refine ofExcept_runs fun value hvalue => ?_
      rw [Value.captured_length hvalue]
      nofun
  | print => exact (print_runs h).bind fun _ => .pure ⟨rfl, nofun⟩

/-- Corresponding values are applied correspondingly, if written functions are. -/
theorem apply_runs (hmodel : pairing.Models model otherModel) {callee otherCallee : Value}
    {arguments others : List Value} (hcallee : pairing.Values callee otherCallee)
    (harguments : pairing.Lists arguments others) :
    pairing.Runs pairing.Values (callee.apply model arguments)
      (otherCallee.apply otherModel others) := by
  obtain ⟨rfl, hwithin⟩ := hcallee
  cases callee with
  | function id closure =>
      exact hmodel (hwithin closure.scope (List.mem_singleton.2 rfl)) harguments
  | builtin host => exact hostApply_runs host harguments
  | _ => exact fault_runs .notCallable

theorem keyText_runs {key otherKey : Value} (h : pairing.Values key otherKey) :
    pairing.Runs Eq (Node.keyText key) (Node.keyText otherKey) := by
  obtain ⟨rfl, -⟩ := h
  cases key with
  | string text => exact .pure rfl
  | _ => exact fault_runs _

section Nodes

theorem values_null : pairing.Values .null .null :=
  ⟨rfl, nofun⟩

/-- A child that is left out counts as null on both sides. -/
theorem Options.getD {first second : Option Value} (h : pairing.Options first second) :
    pairing.Values (first.getD .null) (second.getD .null) := by
  obtain ⟨rfl, hwithin⟩ := h
  cases first with
  | none => exact values_null
  | some value => exact ⟨rfl, hwithin value rfl⟩

/-- Corresponding values count as true alike. -/
theorem Values.truthy {first second : Value} (h : pairing.Values first second) :
    second.truthy = first.truthy := by
  rw [h.1, Value.truthy_relocate]

/-- An assignment whose target has this name. -/
theorem assign_runs (hscope : pairing.visible scope) (name : String)
    {action otherAction : Eval Value} (haction : pairing.Runs pairing.Values action otherAction) :
    pairing.Runs pairing.Values
      (do
        if ← Eval.has scope name then
          let result ← action
          Eval.set scope name result
          return result
        else
          Eval.fault .badTarget)
      (do
        if ← Eval.has scope name then
          let result ← otherAction
          Eval.set scope name result
          return result
        else
          Eval.fault .badTarget) := by
  refine (has_runs hscope name).bind ?_
  intro found _ heq
  subst heq
  split
  · exact haction.bind fun hresult => (set_runs hscope name hresult).bind fun _ => .pure hresult
  · exact fault_runs .badTarget

mutual

/-- The evaluation of a node goes in lockstep with that of the node at other places. -/
theorem eval_runs (hmodel : pairing.Models model otherModel) (hscope : pairing.visible scope) :
    ∀ node : Node, pairing.Runs pairing.Values (node.eval model rounds scope)
      ((node.relocate pairing.move).eval otherModel rounds scope)
  | .hole => by
      simp only [Node.relocate, Node.eval]
      exact .throw .failed
  | .program statements => by
      simp only [Node.relocate, Node.eval]
      exact evalStatements_runs hmodel hscope statements values_null
  | .expression origin body => by
      simp only [Node.relocate, Node.eval]
      exact located_runs origin (eval_runs hmodel hscope body)
  | .declaration origin name value => by
      simp only [Node.relocate, Node.eval]
      refine located_runs origin ((nameOf_runs name).bind ?_)
      intro text _ heq
      subst heq
      refine (declare_runs hscope text values_null).bind fun _ => ?_
      refine (evalOption_runs hmodel hscope value).bind ?_
      intro first _ hfirst
      obtain ⟨rfl, hwithin⟩ := hfirst
      cases first with
      | none => exact .pure values_null
      | some first =>
          exact (write_runs hscope text ⟨rfl, hwithin first rfl⟩).bind fun _ => .pure values_null
  | .returning origin value => by
      simp only [Node.relocate, Node.eval]
      exact located_runs origin ((evalOption_runs hmodel hscope value).bind
        fun hresult => .throw (.returned hresult.getD))
  | .block origin statements => by
      simp only [Node.relocate, Node.eval]
      exact located_runs origin (evalStatements_runs hmodel hscope statements values_null)
  | .loop origin first test step body => by
      simp only [Node.relocate, Node.eval]
      refine located_runs origin ((evalOption_runs hmodel hscope first).bind fun _ => ?_)
      -- Rounds are counted alike on both sides; the test and one round remain.
      refine (repeatWhile_runs ?_ ?_ rounds).bind fun _ => .pure values_null
      · refine (evalOption_runs hmodel hscope test).bind ?_
        intro value _ hvalue
        obtain ⟨rfl, -⟩ := hvalue
        cases value with
        | none => exact .pure rfl
        | some value => exact .pure (Value.truthy_relocate pairing.move value).symm
      · exact (eval_runs hmodel hscope body).bind fun _ =>
          (evalOption_runs hmodel hscope step).bind fun _ => .pure rfl
  | .integer _ value => by
      simp only [Node.relocate, Node.eval]
      exact .pure ⟨rfl, nofun⟩
  | .boolean _ value => by
      simp only [Node.relocate, Node.eval]
      exact .pure ⟨rfl, nofun⟩
  | .string _ value => by
      simp only [Node.relocate, Node.eval]
      exact .pure ⟨rfl, nofun⟩
  | .identifier origin name => by
      simp only [Node.relocate, Node.eval]
      exact located_runs origin (lookup_runs hscope name)
  | .array origin elements => by
      simp only [Node.relocate, Node.eval]
      refine located_runs origin ((evalList_runs hmodel hscope elements).bind ?_)
      intro values _ hvalues
      obtain ⟨rfl, hwithin⟩ := hvalues
      refine newId_runs.bind ?_
      intro id _ heq
      subst heq
      exact .pure ⟨rfl, hwithin⟩
  | .map origin pairs => by
      simp only [Node.relocate, Node.eval]
      have hnone : pairing.Entries [] [] := ⟨rfl, nofun⟩
      refine located_runs origin ((evalPairs_runs hmodel hscope pairs hnone).bind ?_)
      intro entries _ hentries
      obtain ⟨rfl, hwithin⟩ := hentries
      refine newId_runs.bind ?_
      intro id _ heq
      subst heq
      exact .pure ⟨rfl, hwithin⟩
  | .function _ parameters body => by
      simp only [Node.relocate, Node.eval]
      refine newId_runs.bind ?_
      intro id _ heq
      subst heq
      refine .pure ⟨rfl, ?_⟩
      intro captured hcaptured
      rw [List.mem_singleton.1 hcaptured]
      exact hscope
  | .choice origin test consequence alternative => by
      simp only [Node.relocate, Node.eval]
      refine located_runs origin ((eval_runs hmodel hscope test).bind ?_)
      intro value _ hvalue
      rw [hvalue.truthy]
      split
      · exact eval_runs hmodel hscope consequence
      · exact (evalOption_runs hmodel hscope alternative).bind fun hresult => .pure hresult.getD
  | .unary origin operator operand => by
      simp only [Node.relocate, Node.eval]
      refine located_runs origin ((eval_runs hmodel hscope operand).bind ?_)
      intro value _ hvalue
      obtain ⟨rfl, -⟩ := hvalue
      rw [Value.unary_relocate]
      refine ofExcept_runs fun result hresult => ?_
      rw [Value.captured_unary hresult]
      nofun
  | .binary origin left operator right => by
      simp only [Node.relocate, Node.eval]
      refine located_runs origin ((eval_runs hmodel hscope left).bind ?_)
      intro first _ hfirst
      obtain ⟨rfl, -⟩ := hfirst
      refine (eval_runs hmodel hscope right).bind ?_
      intro second _ hsecond
      obtain ⟨rfl, -⟩ := hsecond
      rw [Value.binary_relocate]
      refine ofExcept_runs fun result hresult => ?_
      rw [Value.captured_binary hresult]
      nofun
  | .call origin callee arguments => by
      simp only [Node.relocate, Node.eval]
      exact located_runs origin ((eval_runs hmodel hscope callee).bind fun hcallee =>
        (evalList_runs hmodel hscope arguments).bind fun harguments =>
          apply_runs hmodel hcallee harguments)
  | .index origin target position => by
      simp only [Node.relocate, Node.eval]
      refine located_runs origin ((eval_runs hmodel hscope target).bind ?_)
      intro collection _ hcollection
      obtain ⟨rfl, hwithin⟩ := hcollection
      refine (eval_runs hmodel hscope position).bind ?_
      intro place _ hplace
      obtain ⟨rfl, -⟩ := hplace
      rw [Value.index_relocate]
      exact ofExcept_runs fun result hresult captured hcaptured =>
        hwithin captured (Value.captured_index hresult hcaptured)
  | .member origin target name => by
      simp only [Node.relocate, Node.eval]
      refine located_runs origin ((eval_runs hmodel hscope target).bind ?_)
      intro value _ hvalue
      obtain ⟨rfl, hwithin⟩ := hvalue
      refine (nameOf_runs name).bind ?_
      intro text _ heq
      subst heq
      rw [Value.member_relocate]
      exact ofExcept_runs fun result hresult captured hcaptured =>
        hwithin captured (Value.captured_member hresult hcaptured)
  | .assign origin target value => by
      simp only [Node.relocate, Node.eval, Node.identifier?_relocate]
      refine located_runs origin ?_
      cases target.identifier? with
      | none => exact fault_runs .badTarget
      | some name => exact assign_runs hscope name (eval_runs hmodel hscope value)

theorem evalList_runs (hmodel : pairing.Models model otherModel) (hscope : pairing.visible scope) :
    ∀ nodes : List Node, pairing.Runs pairing.Lists (Node.evalList model rounds scope nodes)
      (Node.evalList otherModel rounds scope (Node.relocateList pairing.move nodes))
  | [] => by
      simp only [Node.relocateList, Node.evalList]
      exact .pure ⟨rfl, nofun⟩
  | node :: nodes => by
      simp only [Node.relocateList, Node.evalList]
      refine (eval_runs hmodel hscope node).bind ?_
      intro value _ hvalue
      obtain ⟨rfl, hwithin⟩ := hvalue
      refine (evalList_runs hmodel hscope nodes).bind ?_
      intro values _ hvalues
      obtain ⟨rfl, hmore⟩ := hvalues
      exact .pure ⟨rfl, List.forall_mem_append.2 ⟨hwithin, hmore⟩⟩

theorem evalStatements_runs (hmodel : pairing.Models model otherModel)
    (hscope : pairing.visible scope) : ∀ (nodes : List Node) {result otherResult : Value},
      pairing.Values result otherResult →
      pairing.Runs pairing.Values (Node.evalStatements model rounds scope result nodes)
        (Node.evalStatements otherModel rounds scope otherResult
          (Node.relocateList pairing.move nodes))
  | [], _, _, hresult => by
      simp only [Node.relocateList, Node.evalStatements]
      exact .pure hresult
  | node :: nodes, _, _, hresult => by
      simp only [Node.relocateList, Node.evalStatements, Node.isSilent_relocate]
      refine (eval_runs hmodel hscope node).bind fun hvalue => ?_
      refine evalStatements_runs hmodel hscope nodes ?_
      split
      · exact hresult
      · exact hvalue

theorem evalPairs_runs (hmodel : pairing.Models model otherModel)
    (hscope : pairing.visible scope) : ∀ (pairs : List (Node × Node))
      {entries otherEntries : List (String × Value)}, pairing.Entries entries otherEntries →
      pairing.Runs pairing.Entries (Node.evalPairs model rounds scope entries pairs)
        (Node.evalPairs otherModel rounds scope otherEntries
          (Node.relocatePairs pairing.move pairs))
  | [], _, _, hentries => by
      simp only [Node.relocatePairs, Node.evalPairs]
      exact .pure hentries
  | (key, node) :: pairs, _, _, ⟨hentries, hmore⟩ => by
      simp only [Node.relocatePairs, Node.evalPairs]
      refine (eval_runs hmodel hscope key).bind fun hkey => ?_
      refine (keyText_runs hkey).bind ?_
      intro text _ heq
      subst heq
      refine (eval_runs hmodel hscope node).bind ?_
      intro value _ hvalue
      obtain ⟨rfl, hwithin⟩ := hvalue
      refine evalPairs_runs hmodel hscope pairs ⟨?_, ?_⟩
      · rw [hentries, Value.putEntry_relocate]
      · intro captured hcaptured
        rcases Value.captured_putEntry hcaptured with hcaptured | hcaptured
        · exact hwithin captured hcaptured
        · exact hmore captured hcaptured

/-- An optional child runs on both sides or on neither. -/
theorem evalOption_runs (hmodel : pairing.Models model otherModel)
    (hscope : pairing.visible scope) :
    ∀ node : Option Node, pairing.Runs pairing.Options (Node.evalOption model rounds scope node)
      (Node.evalOption otherModel rounds scope (Node.relocateOption pairing.move node))
  | none => by
      simp only [Node.relocateOption, Node.evalOption]
      exact .pure options_none
  | some node => by
      simp only [Node.relocateOption, Node.evalOption]
      refine (eval_runs hmodel hscope node).bind ?_
      intro value _ hvalue
      obtain ⟨rfl, hwithin⟩ := hvalue
      refine .pure ⟨rfl, ?_⟩
      intro result hresult
      cases hresult
      exact hwithin

end

end Nodes

/-- Parameters are declared with their arguments in lockstep. -/
theorem bind_runs (hscope : pairing.visible scope) :
    ∀ {parameters : List Node} {arguments others : List Value}, pairing.Lists arguments others →
      pairing.Runs Eq (Closure.bind scope (parameters.zip arguments))
        (Closure.bind scope ((Node.relocateList pairing.move parameters).zip others))
  | [], _, _, _ => .pure rfl
  | _ :: _, [], _, ⟨rfl, _⟩ => .pure rfl
  | parameter :: parameters, value :: values, _, ⟨rfl, hwithin⟩ => by
      obtain ⟨hvalue, hvalues⟩ := List.forall_mem_append.1 hwithin
      simp only [Node.relocateList, Value.relocateList, List.zip_cons_cons, Closure.bind]
      refine (nameOf_runs parameter).bind ?_
      intro text _ heq
      subst heq
      exact (declare_runs hscope text ⟨rfl, hvalue⟩).bind fun _ => bind_runs hscope ⟨rfl, hvalues⟩

/-- Calls go in lockstep, however many may be nested in one another. -/
theorem invoke_runs (rounds calls : Nat) :
    pairing.Models (Closure.invoke rounds calls) (Closure.invoke rounds calls) := by
  -- The calls in a body may be nested one level less, which is the induction.
  induction calls with
  | zero => exact fun _ _ => .throw .exhausted
  | succ calls ih =>
      intro closure arguments others hscope harguments
      have hcount : others.length = arguments.length := by
        rw [harguments.1, Value.relocateList_eq_map, List.length_map]
      have hwanted : (closure.relocate pairing.move).parameters.length =
          closure.parameters.length := by
        simp [Closure.relocate, Node.relocateList_eq_map]
      unfold Closure.invoke
      rw [hcount, hwanted]
      split
      · refine (openScope_runs hscope).bind ?_
        intro inner _ hinner
        obtain ⟨rfl, hinner⟩ := hinner
        refine (bind_runs hinner harguments).bind fun _ => ?_
        exact catchReturn_runs (eval_runs ih hinner closure.body)
      · exact fault_runs _

/-- Evaluations within limits go in lockstep. -/
theorem limits_runs (limits : Limits) (hscope : pairing.visible scope) (node : Node) :
    pairing.Runs pairing.Values (node.eval limits.model limits.rounds scope)
      ((node.relocate pairing.move).eval limits.model limits.rounds scope) :=
  eval_runs (invoke_runs limits.rounds limits.calls) hscope node

end Scriptlet.Pairing
