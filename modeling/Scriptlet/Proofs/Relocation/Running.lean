import Scriptlet.Proofs.Evaluation.Simulation
import Scriptlet.Proofs.Relocation.Parsing

/-!
# Running code at other places

Moving the code of a program, and of the store it runs in, moves the outcome and the store at the
end and changes nothing else (`evaluate_relocate`). Only the places of faults tell where the code
stood.
-/

namespace Scriptlet

/-- The outcome with its value or its failure at other places. -/
def Outcome.relocate (move : Position → Position) : Outcome → Outcome
  | value result => value (result.relocate move)
  | failed failure => failed (failure.relocate move)
  | reported failure => reported (failure.relocate move)
  | exhausted => exhausted

namespace Pairing

/-- The same code at other places, in a store all of which is visible. -/
def everywhere {move : Position → Position} (keeps : Keeps move) (store : Store) : Pairing where
  move := move
  visible _ := True
  left := store
  right := store.relocate move
  keeps := keeps
  opened _ _ := trivial

variable {move : Position → Position} {keeps : Keeps move} {store left right : Store}

/-- A store and its moved copy correspond in all scopes. -/
theorem stores_everywhere : (everywhere keeps store).Stores store (store.relocate move) where
  size := by simp [Store.relocate]
  grown := Nat.le_refl _
  fresh := rfl
  sink := rfl
  printed := ⟨[], by simp [everywhere], by simp [everywhere]⟩
  seen := by
    intro id scope _ hscope
    refine ⟨?_, fun _ _ => trivial, fun _ _ => trivial⟩
    simp [Store.relocate, hscope, everywhere]
  hidden hhidden := absurd trivial hhidden

/-- The second of two paired stores is the first one with its code moved. -/
theorem Stores.eq_relocate (h : (everywhere keeps store).Stores left right) :
    right = left.relocate move := by
  obtain ⟨scopes, fresh, sink, printed⟩ := right
  have hscopes : scopes = left.scopes.map (Scope.relocate move) := by
    apply Array.ext_getElem?
    intro id
    rw [Array.getElem?_map]
    cases hscope : left.scopes[id]? with
    | none => exact h.seen_none hscope
    | some scope => exact (h.seen trivial hscope).1
  have hprinted : printed = left.printed.map (Value.relocateList move) := by
    obtain ⟨calls, hleft, hright⟩ := h.printed
    apply Array.toList_inj.1
    rw [Array.toList_map, hleft, List.map_append, hright]
    simp [everywhere, Store.relocate]
  rw [Store.relocate, ← hscopes, ← hprinted, ← h.fresh, ← h.sink]

end Pairing

variable {move : Position → Position}

/-- A run of moved code in a store with moved code is the moved run. -/
theorem eval_relocate (keeps : Keeps move) (limits : Limits) (scope : ScopeId) (node : Node)
    (store : Store) :
    (node.relocate move).eval limits.model limits.rounds scope (store.relocate move) =
      match node.eval limits.model limits.rounds scope store with
      | .ok value finish => .ok (value.relocate move) (finish.relocate move)
      | .error exit finish => .error (exit.relocate move) (finish.relocate move) := by
  have hrun := (Pairing.limits_runs limits (show (Pairing.everywhere keeps store).visible scope
    from trivial) node).run Pairing.stores_everywhere
  generalize node.eval limits.model limits.rounds scope store = first at hrun
  rw [show (Pairing.everywhere keeps store).move = move from rfl] at hrun
  generalize (node.relocate move).eval limits.model limits.rounds scope (store.relocate move) =
    second at hrun
  cases hrun with
  | ok hvalues hstores => rw [hvalues.1, hstores.eq_relocate]; rfl
  | error hexits hstores =>
      rw [hstores.eq_relocate]
      cases hexits with
      | returned hvalues => rw [hvalues.1]; rfl
      | failed | exhausted => rfl

/-- Evaluating moved code gives the moved outcome and the moved store. -/
theorem evaluate_relocate (keeps : Keeps move) (limits : Limits) (scope : ScopeId) (node : Node)
    (store : Store) :
    (node.relocate move).evaluate limits scope (store.relocate move) =
      ((node.evaluate limits scope store).1.relocate move,
        (node.evaluate limits scope store).2.relocate move) := by
  rw [Node.evaluate, Node.evaluate, eval_relocate keeps]
  cases node.eval limits.model limits.rounds scope store with
  | ok value finish => rfl
  | error exit finish =>
      cases exit with
      | returned value | exhausted => rfl
      | failed failure =>
          simp only [Exit.relocate, Node.isProgram_relocate]
          cases node.isProgram <;> rfl

/-- A text whose tokens are those of another one at other places is read alike. -/
theorem parse_relocate {source other : String}
    (h : Token.ofText other = (Token.ofText source).map (Token.relocate move)) :
    parse other = (parse source).map fun parsed =>
      ⟨Node.relocateList move parsed.statements, parsed.errors⟩ := by
  have hread := Parser.readTokens_relocate move (Token.ofText source)
  rw [← h] at hread
  unfold parse
  generalize Parser.readTokens (Token.ofText source) = first at hread
  generalize Parser.readTokens (Token.ofText other) = second at hread
  cases hread with
  | ok hvalues hstates => rw [hvalues, hstates]; rfl
  | error hstop hstates => rw [hstop]; rfl

end Scriptlet
