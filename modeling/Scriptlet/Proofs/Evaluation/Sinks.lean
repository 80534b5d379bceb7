import Scriptlet.Proofs.Evaluation.Composition
import Scriptlet.Proofs.Evaluation.Layout
import Scriptlet.Proofs.Evaluation.Growth

/-!
# Printing to a broken sink

A program cannot look at the sink, so up to its first print call it runs with a broken sink as it
does with a recording one. That call ends it, wherever it stands, since nothing in the language
catches a failure and a failure of the sink gets no place. `Foretells` states both of one evaluation
by what it has printed into the recording sink; `broken_sink_heard` states them of the run of a
text.
-/

namespace Scriptlet

namespace Store

variable (reason : String) (store : Store)

/-- The store with a sink that fails for the given reason. -/
def broken : Store :=
  { store with sink := .broken reason }

/-- Where a name is found does not depend on the sink. -/
theorem resolve_broken (id : ScopeId) (name : Name) :
    (store.broken reason).resolve id name = store.resolve id name := by
  induction id using Nat.strongRecOn with
  | ind id ih =>
      rw [resolve, resolve, show (store.broken reason).scopes = store.scopes from rfl]
      cases store.scopes[id]? with
      | none => rfl
      | some scope =>
          simp only
          split
          · rfl
          · cases scope.parent with
            | none => rfl
            | some parent =>
                simp only
                split
                · next hless => exact ih parent hless
                · rfl

/-- What a name stands for does not depend on the sink. -/
theorem lookup?_broken (id : ScopeId) (name : Name) :
    (store.broken reason).lookup? id name = store.lookup? id name := by
  rw [lookup?, lookup?, resolve_broken]
  rfl

end Store

/-- The result with a sink that fails in the store that is left. -/
def brokenResult {α : Type} (reason : String) :
    EStateM.Result Exit Store α → EStateM.Result Exit Store α
  | .ok value final => .ok value (final.broken reason)
  | .error exit final => .error exit (final.broken reason)

/-- What an evaluation that begins with a recording sink says of the same one with a broken sink: if
nothing is printed they end alike, and if something is, the other one fails. -/
structure Foretells {α : Type} (reason : String) (action : Eval α) (store : Store) : Prop where
  sink : (action.after store).sink = .recording
  grown : store.printed.size ≤ (action.after store).printed.size
  silent : (action.after store).printed.size = store.printed.size →
    action (store.broken reason) = brokenResult reason (action store)
  heard : store.printed.size < (action.after store).printed.size →
    ∃ final, action (store.broken reason) = .error (.failed (.sink reason)) final

namespace Foretells

variable {α β : Type} {reason : String} {action : Eval α} {store : Store}

/-- An operation that neither looks at the sink nor prints. -/
theorem of_silent (hsink : store.sink = .recording)
    (h : (action.after store).sink = store.sink ∧ (action.after store).printed = store.printed ∧
      action (store.broken reason) = brokenResult reason (action store)) :
    Foretells reason action store := by
  obtain ⟨hkept, hprinted, hbroken⟩ := h
  refine ⟨hkept.trans hsink, ?_, fun _ => hbroken, fun hless => ?_⟩
  · exact Nat.le_of_eq (congrArg Array.size hprinted.symm)
  · rw [hprinted] at hless
    exact absurd hless (Nat.lt_irrefl _)

/-- Actions one behind the other foretell if each does where it is reached. -/
theorem bind {next : α → Eval β} (h : Foretells reason action store)
    (hnext : ∀ value (middle : Store), middle.sink = .recording →
      Foretells reason (next value) middle) :
    Foretells reason (action >>= next) store := by
  obtain ⟨hsink, hgrown, hsilent, hheard⟩ := h
  cases haction : action store with
  | error exit final =>
      have hafter : (action >>= next).after store = action.after store := by
        rw [Eval.after_of_error haction, Eval.after_of_error (Eval.bind_of_error haction)]
      refine ⟨?_, ?_, fun hsame => ?_, fun hless => ?_⟩
      · rw [hafter]
        exact hsink
      · rw [hafter]
        exact hgrown
      · rw [hafter] at hsame
        have hbroken := hsilent hsame
        rw [haction] at hbroken
        rw [Eval.bind_of_error haction, Eval.bind_of_error hbroken]
        rfl
      · rw [hafter] at hless
        obtain ⟨last, hbroken⟩ := hheard hless
        exact ⟨last, Eval.bind_of_error hbroken⟩
  | ok value middle =>
      rw [Eval.after_of_ok haction] at hsink hgrown hsilent hheard
      have hafter : (action >>= next).after store = (next value).after middle := by
        rw [Eval.after, Eval.after, Eval.bind_of_ok haction]
      have hrest := hnext value middle hsink
      have hmore := hrest.grown
      refine ⟨?_, ?_, fun hsame => ?_, fun hless => ?_⟩
      · rw [hafter]
        exact hrest.sink
      · rw [hafter]
        omega
      · -- What is printed never becomes less, so neither part has printed anything.
        rw [hafter] at hsame
        have hbroken := hsilent (by omega)
        rw [haction] at hbroken
        rw [Eval.bind_of_ok haction, Eval.bind_of_ok hbroken]
        exact hrest.silent (by omega)
      · rw [hafter] at hless
        by_cases hsame : middle.printed.size = store.printed.size
        · have hbroken := hsilent hsame
          rw [haction] at hbroken
          rw [Eval.bind_of_ok hbroken]
          exact hrest.heard (by omega)
        · obtain ⟨last, hbroken⟩ := hheard (by omega)
          exact ⟨last, Eval.bind_of_error hbroken⟩

/-- An evaluation whose end is changed, where the change leaves the store and a failure of the sink
alone. -/
theorem of_change {other : Eval α}
    (change : EStateM.Result Exit Store α → EStateM.Result Exit Store α)
    (hother : ∀ start, other start = change (action start))
    (hafter : other.after store = action.after store)
    (hbroken : change (brokenResult reason (action store)) =
      brokenResult reason (change (action store)))
    (hfailed : ∀ final : Store, change (.error (.failed (.sink reason)) final) =
      .error (.failed (.sink reason)) final)
    (h : Foretells reason action store) : Foretells reason other store where
  sink := by rw [hafter]; exact h.sink
  grown := by rw [hafter]; exact h.grown
  silent hsame := by
    rw [hafter] at hsame
    rw [hother, h.silent hsame, hbroken, hother]
  heard hless := by
    rw [hafter] at hless
    obtain ⟨final, hfinal⟩ := h.heard hless
    exact ⟨final, by rw [hother, hfinal, hfailed]⟩

/-- A failure of the sink has no place, whatever it passes through. -/
theorem located (origin : Origin) (h : Foretells reason action store) :
    Foretells reason (Eval.located origin action) store := by
  refine h.of_change (fun result => Eval.located origin (fun _ => result) store)
    (fun _ => rfl) ?_ ?_ fun _ => rfl
  · cases haction : action store with
    | ok value final =>
        rw [Eval.after_of_ok haction, Eval.after_of_ok (Eval.located_of_ok origin haction)]
    | error exit final =>
        rw [Eval.after_of_error haction, Eval.after_of_error (Eval.located_of_error origin haction)]
  · cases action store with
    | ok value final => rfl
    | error exit final =>
        cases exit with
        | returned | exhausted => rfl
        | failed failure =>
            cases failure with
            | sink | flaw => rfl
            | fault cause position => cases position <;> rfl

/-- A failure of the sink is no return that a call could take for its end. -/
theorem catchReturn {action : Eval Value} (h : Foretells reason action store) :
    Foretells reason (Eval.catchReturn action) store := by
  refine h.of_change (fun result => Eval.catchReturn (fun _ => result) store)
    (fun _ => rfl) ?_ ?_ fun _ => rfl
  · rw [Eval.after, Eval.after, Eval.catchReturn]
    cases action store with
    | ok value final => rfl
    | error exit final => cases exit <;> rfl
  · cases action store with
    | ok value final => rfl
    | error exit final => cases exit <;> rfl

/-- The first print tells the two sinks apart. -/
theorem print (arguments : List Value) (hsink : store.sink = .recording) :
    Foretells reason (Eval.print arguments) store := by
  have hrun : Eval.print arguments store =
      .ok () { store with printed := store.printed.push arguments } := by
    rw [Eval.print, hsink]
  refine ⟨?_, ?_, fun hsame => ?_, fun _ => ⟨store.broken reason, rfl⟩⟩
  · rw [Eval.after_of_ok hrun]
    exact hsink
  · rw [Eval.after_of_ok hrun]
    simp
  · rw [Eval.after_of_ok hrun] at hsame
    simp at hsame

end Foretells

/-- Every evaluation with a recording sink foretells the one with a broken sink: print is the only
operation that looks at the sink. -/
theorem composes_foretells (reason : String) : Composes fun action =>
    ∀ store : Store, store.sink = .recording → Foretells reason action store where
  pure value store hsink := .of_silent hsink ⟨rfl, rfl, rfl⟩
  throw exit store hsink := .of_silent hsink ⟨rfl, rfl, rfl⟩
  bind h hnext store hsink := (h store hsink).bind fun value middle hmiddle =>
    hnext value middle hmiddle
  located origin h store hsink := (h store hsink).located origin
  catchReturn h store hsink := (h store hsink).catchReturn
  lookup scope name store hsink := by
    refine .of_silent hsink ?_
    simp only [Eval.after, Eval.lookup, Store.lookup?_broken]
    cases store.lookup? scope name with
    | some value => exact ⟨rfl, rfl, rfl⟩
    | none => cases Builtin.ofName? name <;> exact ⟨rfl, rfl, rfl⟩
  has scope name store hsink := by
    refine .of_silent hsink ⟨rfl, rfl, ?_⟩
    rw [Eval.has, Store.has, Store.resolve_broken]
    rfl
  declare scope name value store hsink := by
    refine .of_silent hsink ?_
    cases hdeclares : store.declares scope name with
    | true =>
        have hrun : ∀ start : Store, start.declares scope name = true →
            Eval.declare scope name value start = Eval.fault (.redeclared name) start := by
          intro start hstart
          rw [Eval.declare, Store.declare, if_pos hstart]
          rfl
        rw [Eval.after, hrun store hdeclares, hrun (store.broken reason) hdeclares]
        exact ⟨rfl, rfl, rfl⟩
    | false =>
        have hrun : ∀ start : Store, start.declares scope name = false →
            Eval.declare scope name value start = .ok () (start.append scope name value) := by
          intro start hstart
          rw [Eval.declare, Store.declare, hstart]
          rfl
        rw [Eval.after, hrun store hdeclares, hrun (store.broken reason) hdeclares]
        exact ⟨rfl, rfl, rfl⟩
  write scope name value store hsink := .of_silent hsink ⟨rfl, rfl, rfl⟩
  set scope name value store hsink := by
    refine .of_silent hsink ?_
    simp only [Eval.after, Eval.set, Store.set, Store.resolve_broken]
    cases store.resolve scope name <;> exact ⟨rfl, rfl, rfl⟩
  openScope parent store hsink := .of_silent hsink ⟨rfl, rfl, rfl⟩
  newId store hsink := .of_silent hsink ⟨rfl, rfl, rfl⟩
  print arguments store hsink := .print arguments hsink

/-- A program that is run with a broken sink does what it does with a recording one if it prints
nothing there, and else it fails. -/
theorem evaluate_broken (reason : String) (limits : Limits) (scope : ScopeId)
    (statements : List Node) {store : Store} (hsink : store.sink = .recording) :
    let run := (Node.program statements).evaluate limits scope store
    let other := (Node.program statements).evaluate limits scope (store.broken reason)
    run.2.printed.size = store.printed.size ∧ other = (run.1, run.2.broken reason) ∨
      store.printed.size < run.2.printed.size ∧ other.1 = .reported (.sink reason) := by
  intro run other
  have hforetells :=
    (composes_foretells reason).within limits scope (.program statements) store hsink
  have hfinal : run.2 = Eval.after ((Node.program statements).eval limits.model limits.rounds scope)
      store := by
    simp only [run, Node.evaluate, Eval.after]
    split <;> simp_all
  have hgrown := hforetells.grown
  rcases Nat.eq_or_lt_of_le hgrown with hsame | hless
  · refine .inl ⟨?_, ?_⟩
    · rw [hfinal]
      exact hsame.symm
    · have hbroken := hforetells.silent hsame.symm
      simp only [other, run, Node.evaluate, hbroken]
      cases (Node.program statements).eval limits.model limits.rounds scope store with
      | ok value final => rfl
      | error exit final => cases exit <;> rfl
  · refine .inr ⟨?_, ?_⟩
    · rw [hfinal]
      exact hless
    · obtain ⟨final, hbroken⟩ := hforetells.heard hless
      simp only [other, Node.evaluate, hbroken]
      rfl

/-- Whether a text is run does not depend on the store, and a text that is not run leaves it
alone. -/
theorem submit_refused_or_run (limits : Limits) (scope : ScopeId) (source : String) :
    (∃ verdict, ∀ store, submit limits scope source store = (verdict, store)) ∨
      ∃ statements, ∀ store, submit limits scope source store =
        (.ran ((Node.program statements).evaluate limits scope store).1,
          ((Node.program statements).evaluate limits scope store).2) := by
  cases hparse : parse source with
  | error stop => exact .inl ⟨.unreadable stop, fun store => by rw [submit, hparse]⟩
  | ok parsed =>
      obtain ⟨statements, errors⟩ := parsed
      cases errors with
      | nil => exact .inr ⟨statements, fun store => by simp only [submit, hparse, Parsed.program]⟩
      | cons error errors =>
          exact .inl ⟨.rejected (error :: errors), fun store => by rw [submit, hparse]⟩

/-- A text is run in a fresh outermost scope with a recording sink, and once more with a sink that
fails at every call. If the first run prints nothing, the second one ends in the same way and leaves
the same store, but for the sink. If it prints anything, wherever in the program, the second one is
reported to have failed for the sink's reason, which is all that is told of it: it has no place. -/
theorem broken_sink_heard (limits : Limits) (source : String) (reason : String) :
    let recording := (Store.empty .recording).openRoot
    let broken := (Store.empty (.broken reason)).openRoot
    let run := submit limits recording.1 source recording.2
    let other := submit limits broken.1 source broken.2
    run.2.printed = #[] ∧ other = (run.1, { run.2 with sink := .broken reason }) ∨
      run.2.printed ≠ #[] ∧ ∃ failure, other.1 = .ran (.reported failure) ∧
        failure = .sink reason ∧ failure.describe = reason ∧
        (Outcome.reported failure).position? = none := by
  intro recording broken run other
  have hbroken : broken = (recording.1, recording.2.broken reason) := rfl
  rcases submit_refused_or_run limits recording.1 source with ⟨verdict, hkept⟩ | ⟨statements, hrun⟩
  · refine .inl ?_
    simp only [run, other, hbroken, hkept]
    exact ⟨rfl, rfl⟩
  · have hsink : recording.2.sink = .recording := rfl
    have hprogram := evaluate_broken reason limits recording.1 statements hsink
    simp only [run, other, hbroken, hrun]
    rcases hprogram with ⟨hsame, hother⟩ | ⟨hless, hother⟩
    · refine .inl ⟨Array.size_eq_zero_iff.1 hsame, ?_⟩
      rw [hother]
      rfl
    · refine .inr ⟨fun hempty => ?_, .sink reason, ?_, rfl, rfl, rfl⟩
      · rw [hempty] at hless
        exact absurd hless (Nat.lt_irrefl 0)
      · rw [hother]

-- Kept in an array, `print` is still the host's; a parameter of that name is not.
example :
    ["let hosts = [print]; [0, -hosts[0](1)]", "fn(print) \x7b print \x7d(2)"].map (fun source =>
      match (submit ⟨1, 1⟩ 0 source (Store.empty (.broken "closed")).openRoot.2).1 with
      | .ran (.reported failure) => some failure
      | _ => none) = [some (.sink "closed"), none] := by
  decide +kernel

end Scriptlet
