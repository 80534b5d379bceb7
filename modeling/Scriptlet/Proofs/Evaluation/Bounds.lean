import Scriptlet.Proofs.Evaluation.Placement
import Scriptlet.Proofs.Evaluation.Sessions
import Scriptlet.Proofs.Parser.Tracing
import Scriptlet.Proofs.Value.Arithmetic

/-!
# Integers keep to 64 bits

Integers come from literals, which the parser keeps in range, from arithmetic, which wraps, and from
the sizes of strings and arrays. Where the sizes that a session measures are those that a machine
can hold, every integer in its results, in what it prints and in its scopes has 64 bits, at the end
of every text and of every evaluation on the way (`session_bounded`).
-/

namespace Scriptlet

/-- The literals in the node are in range. -/
def Node.Bounded (node : Node) : Prop :=
  ∀ origin value, node.Contains (.integer origin value) → Integer.InRange value

/-- The integers of a program that was read are in range. -/
theorem bounded_of_parse {source : String} {parsed : Parsed} (h : parse source = .ok parsed) :
    parsed.program.Bounded := by
  intro origin value hcontains
  -- The program itself is no literal, so the literal stands in one of its statements.
  cases hcontains with
  | child hmem hpart =>
      obtain ⟨place, hformed⟩ := (formed_of_parse h _ hmem).part hpart
      obtain ⟨hlow, hhigh⟩ := hformed.regular fun _ => Token.spelled_of_mem_ofText
      exact ⟨Int.le_trans (by decide) hlow, hhigh⟩

/-- The integers that occur in the value are in range, and so are the literals of the functions. -/
structure Value.Bounded (value : Value) : Prop where
  integers : ∀ n, (integer n).Occurs value → Integer.InRange n
  functions : ∀ id closure, (function id closure).Occurs value → closure.body.Bounded

/-- The values that are bound in the store are bounded. -/
def Store.Bounded (store : Store) : Prop :=
  ∀ (id : ScopeId) (scope : Scope), store.scopes[id]? = some scope →
    ∀ binding ∈ scope.bindings, binding.2.Bounded

namespace Discipline

/-- Integers are in range, literals as well as values, as long as sizes are. -/
def bounded : Discipline where
  code := Node.Bounded
  fits _ value := (∀ n, value = .integer n → Integer.InRange n) ∧
    ∀ id closure, value = .function id closure → closure.body.Bounded
  link _ _ := True
  failure _ := True
  count size := (size : Int) ≤ Integer.greatest
  part h hinner origin value hcontains := h origin value (.child hinner hcontains)
  later h _ := h
  simple := by
    intro size value hsimple
    cases hsimple with
    | wrapped =>
        refine ⟨fun n hn => ?_, nofun⟩
        cases hn
        exact Integer.inRange_wrap _
    | null | boolean | string | builtin => exact ⟨nofun, nofun⟩
  array := ⟨nofun, nofun⟩
  map := ⟨nofun, nofun⟩
  counted := by
    intro size measured hmeasured
    refine ⟨fun n hn => ?_, nofun⟩
    cases hn
    exact Integer.inRange_natCast hmeasured
  literal := by
    intro size origin value hcode
    refine ⟨fun n hn => ?_, nofun⟩
    cases hn
    exact hcode origin _ .self
  made := by
    intro size origin parameters body scope id hcode _
    refine ⟨nofun, fun object closure hvalue => ?_⟩
    cases hvalue
    exact fun origin value hcontains =>
      hcode origin value (.child (List.mem_append_right _ List.mem_cons_self) hcontains)
  body h := h.2 _ _ rfl
  linked _ := trivial
  raised _ _ := trivial
  refused _ _ _ := trivial
  outward _ _ := trivial

/-- A value fits the rules exactly if all integers in it are in range. -/
theorem fits_bounded_iff {size : Nat} {value : Value} :
    bounded.Fits size value ↔ value.Bounded := by
  constructor
  · intro h
    exact ⟨fun n hn => (h _ hn).1 n rfl, fun id closure hc => (h _ hc).2 id closure rfl⟩
  · intro h part hpart
    refine ⟨fun n hn => ?_, fun id closure hclosure => ?_⟩
    · subst hn
      exact h.integers n hpart
    · subst hclosure
      exact h.functions id closure hpart

/-- A store that holds to the rules has integers in range only. -/
theorem bounded_of_holds {store : Store} (h : bounded.Holds store) : store.Bounded :=
  fun _ _ hscope binding hbinding => fits_bounded_iff.1 (h.values hscope binding hbinding)

/-- A store with integers in range only holds to the rules. -/
theorem holds_bounded {store : Store} (h : store.Bounded) : bounded.Holds store where
  values hscope binding hbinding := fits_bounded_iff.2 (h _ _ hscope binding hbinding)
  links _ := trivial

end Discipline

section Unmeasured

/-- The node may measure a value. -/
def Node.isMeasuring : Node → Bool
  | .call _ _ _ | .member _ _ _ => true
  | _ => false

/-- No node down to the depth may measure a value, and there is none below. -/
def Node.unmeasuringWithin : Nat → Node → Bool
  | 0, _ => false
  | depth + 1, node => !node.isMeasuring && node.children.all (unmeasuringWithin depth)

/-- No part of a node that passed the check measures anything. -/
theorem Node.unmeasuring_of_within {depth : Nat} {node part : Node}
    (h : node.unmeasuringWithin depth = true) (hpart : node.Contains part) :
    part.isMeasuring = false := by
  refine hpart.of_check (p := fun part => part.isMeasuring = false) (fun _ => rfl)
    (fun {depth node} hcheck => ?_) h
  rw [unmeasuringWithin, Bool.and_eq_true, Bool.not_eq_true', List.all_eq_true] at hcheck
  exact hcheck

/-- A size is measured by a call or a member access. -/
theorem Evaluation.Measures.isMeasuring {rounds count : Nat} {evaluation : Evaluation}
    (h : evaluation.Measures rounds count) : evaluation.node.isMeasuring = true := by
  cases h with
  | length | member => rfl

/-- Where nothing is called, only nodes inside the node are evaluated. -/
theorem Evaluation.Leads.contains {rounds : Nat} {outer inner : Evaluation}
    (h : Leads rounds outer inner)
    (hnode : ∀ part, outer.node.Contains part → part.isMeasuring = false) :
    outer.node.Contains inner.node := by
  induction h with
  | refl => exact .self
  | part henters _ ih =>
      have hinner := henters.mem_children
      exact .child hinner (ih fun part hpart => hnode part (.child hinner hpart))
  | body => exact absurd (hnode _ .self).symm Bool.false_ne_true

/-- A session of texts without calls and member accesses measures nothing. -/
theorem Session.Leads.not_measures {limits : Limits} {scope : ScopeId} {sources : List String}
    {store : Store} {evaluation : Evaluation} {depth count : Nat}
    (h : Leads limits scope sources store evaluation)
    (hsources : ∀ source ∈ sources, (parse source).toOption.all
      (fun parsed => parsed.program.unmeasuringWithin depth) = true) :
    ¬ evaluation.Measures limits.rounds count := by
  induction h with
  | here hparse _ hleads =>
      have hwithin := (List.forall_mem_cons.1 hsources).1
      rw [hparse] at hwithin
      intro hmeasures
      have hnode := hleads.contains fun _ hpart => Node.unmeasuring_of_within hwithin hpart
      have hnot := Node.unmeasuring_of_within hwithin hnode
      rw [hmeasures.isMeasuring] at hnot
      cases hnot
  | later _ ih => exact ih (List.forall_mem_cons.1 hsources).2

end Unmeasured

/-- Texts run one behind the other, from a store whose values hold only integers in range. As long
as the strings and arrays that are measured on the way have fewer than 2^63 elements, every result,
everything printed and every store hold only integers in range, and so do the stores and values of
all evaluations on the way. -/
theorem session_bounded (limits : Limits) (scope : ScopeId) (sources : List String) (store : Store)
    (hscope : scope < store.scopes.size) (hstore : store.Bounded)
    (hsizes : ∀ evaluation count, Session.Leads limits scope sources store evaluation →
      evaluation.Measures limits.rounds count → (count : Int) ≤ Integer.greatest) :
    (∀ step ∈ submitAll limits scope sources store, step.2.Bounded ∧
      (∀ value, step.1 = .ran (.value value) → value.Bounded) ∧
      ∃ calls, step.2.printed.toList = store.printed.toList ++ calls ∧
        ∀ arguments ∈ calls, ∀ value ∈ arguments, value.Bounded) ∧
    ∀ evaluation, Session.Leads limits scope sources store evaluation →
      let run := evaluation.node.eval (Closure.invoke limits.rounds evaluation.calls) limits.rounds
        evaluation.scope
      evaluation.store.Bounded ∧ (run.after evaluation.store).Bounded ∧
      ∀ value final, run evaluation.store = .ok value final ∨
        run evaluation.store = .error (.returned value) final → value.Bounded := by
  have hready : Discipline.bounded.Ready scope store := ⟨hscope, Discipline.holds_bounded hstore⟩
  have hcode : ∀ source ∈ sources, ∀ parsed, parse source = .ok parsed →
      Discipline.bounded.code parsed.program := fun _ _ _ hparse => bounded_of_parse hparse
  have hadmits : ∀ evaluation, Session.Leads limits scope sources store evaluation →
      Discipline.bounded.Admits limits.rounds evaluation :=
    fun evaluation hleads count hmeasures => hsizes evaluation count hleads hmeasures
  refine ⟨fun step hstep => ?_, fun evaluation hleads => ?_⟩
  · obtain ⟨hkeeps, hconcludes⟩ := Discipline.submitAll_keeps hready hcode hadmits step hstep
    obtain ⟨calls, hcalls, hfits⟩ := hkeeps.printed
    refine ⟨Discipline.bounded_of_holds hkeeps.holds, fun value hvalue => ?_, calls, hcalls, ?_⟩
    · rw [hvalue] at hconcludes
      exact Discipline.fits_bounded_iff.1 hconcludes
    · intro arguments harguments value hvalue
      exact Discipline.fits_bounded_iff.1 (hfits arguments harguments value hvalue)
  · intro run
    obtain ⟨-, hbegun⟩ := Discipline.ready_of_session hleads hready hcode hadmits
    have hends := Discipline.session_ends hleads hready hcode hadmits
    refine ⟨Discipline.bounded_of_holds hbegun.holds,
      Discipline.bounded_of_holds hends.holds_after, fun value final hrun => ?_⟩
    rcases hrun with hrun | hrun
    · exact Discipline.fits_bounded_iff.1 (hends.ok hrun).2
    · cases (hends.error hrun).2 with
      | returned hfits => exact Discipline.fits_bounded_iff.1 hfits

/-- The least integer, divided by minus one, multiplied by it and negated. -/
theorem session_bounded_least :
    let sources := ["let a = -9223372036854775807 - 1;", "a / -1", "a * -1", "-a"]
    let root := (Store.empty .recording).openRoot
    root.2.Bounded ∧
    (∀ evaluation count, Session.Leads ⟨1, 1⟩ root.1 sources root.2 evaluation →
      evaluation.Measures 1 count → (count : Int) ≤ Integer.greatest) ∧
    (submitAll ⟨1, 1⟩ root.1 sources root.2).map (fun step => match step.1 with
      | .ran (.value (.integer value)) => some value
      | _ => none) = [none, some Integer.least, some Integer.least, some Integer.least] ∧
    ∀ step ∈ submitAll ⟨1, 1⟩ root.1 sources root.2, step.2.Bounded ∧
      ∀ value, step.1 = .ran (.value value) → value.Bounded := by
  intro sources root
  have hready : Discipline.bounded.Ready root.1 root.2 :=
    Discipline.bounded.ready_freshRoot List.mem_cons_self fun _ _ => trivial
  have hstore : root.2.Bounded := Discipline.bounded_of_holds hready.holds
  have hwithin : ∀ source ∈ sources, (parse source).toOption.all
      (fun parsed => parsed.program.unmeasuringWithin 5) = true := by
    decide +kernel
  have hsizes : ∀ evaluation count, Session.Leads ⟨1, 1⟩ root.1 sources root.2 evaluation →
      evaluation.Measures 1 count → (count : Int) ≤ Integer.greatest :=
    fun _ _ hleads hmeasures => absurd hmeasures (hleads.not_measures hwithin)
  refine ⟨hstore, hsizes, ?_, fun step hstep => ?_⟩
  · decide +kernel
  · obtain ⟨hbounded, hvalue, -⟩ := (session_bounded ⟨1, 1⟩ root.1 sources root.2 hready.inside
      hstore hsizes).1 step hstep
    exact ⟨hbounded, hvalue⟩

end Scriptlet
