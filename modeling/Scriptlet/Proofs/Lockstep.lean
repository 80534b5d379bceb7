/-!
# Runs in lockstep

Two computations over a state that may stop early go in lockstep when, started in related states,
they end in the same way, with related results and in related states. `Lockstep.bind` builds such
runs from their steps; the relations of states and of exits stay the same throughout.
-/

namespace Scriptlet

variable {ε σ α β γ δ : Type}

/-- The two results are of the same sort and have related contents and states. -/
inductive ResultRel (states : σ → σ → Prop) (exits : ε → ε → Prop) (values : α → β → Prop) :
    EStateM.Result ε σ α → EStateM.Result ε σ β → Prop where
  | ok {left right leftState rightState} :
      values left right → states leftState rightState →
      ResultRel states exits values (.ok left leftState) (.ok right rightState)
  | error {left right leftState rightState} :
      exits left right → states leftState rightState →
      ResultRel states exits values (.error left leftState) (.error right rightState)

/-- Started in related states the two computations end alike. -/
structure Lockstep (states : σ → σ → Prop) (exits : ε → ε → Prop) (values : α → β → Prop)
    (left : EStateM ε σ α) (right : EStateM ε σ β) : Prop where
  run : ∀ {leftState rightState}, states leftState rightState →
    ResultRel states exits values (left leftState) (right rightState)

namespace Lockstep

variable {states : σ → σ → Prop} {exits : ε → ε → Prop} {values : α → β → Prop}
  {results : γ → δ → Prop}

/-- Results that correspond are given in lockstep. -/
theorem pure {left : α} {right : β} (h : values left right) :
    Lockstep states exits values (pure left) (pure right) :=
  ⟨fun hstates => .ok h hstates⟩

/-- Exits that correspond are made in lockstep. -/
theorem throw {left right : ε} (h : exits left right) :
    Lockstep states exits values (throw left) (throw right) :=
  ⟨fun hstates => .error h hstates⟩

/-- Lockstep composes: the second actions go on from corresponding values and states. -/
theorem bind {left : EStateM ε σ α} {right : EStateM ε σ β} {next : α → EStateM ε σ γ}
    {other : β → EStateM ε σ δ} (h : Lockstep states exits values left right)
    (hnext : ∀ {first second}, values first second →
      Lockstep states exits results (next first) (other second)) :
    Lockstep states exits results (left >>= next) (right >>= other) := by
  refine ⟨fun {leftState rightState} hstates => ?_⟩
  have hfirst := h.run hstates
  show ResultRel states exits results (EStateM.bind left next leftState)
    (EStateM.bind right other rightState)
  unfold EStateM.bind
  generalize left leftState = first at hfirst
  generalize right rightState = second at hfirst
  cases hfirst with
  | ok hvalues hmiddle => exact (hnext hvalues).run hmiddle
  | error hexits hmiddle => exact .error hexits hmiddle

end Lockstep

end Scriptlet
