import Mathlib.Data.Fintype.Card
import Mathlib.Data.Fintype.EquivFin
import Scriptlet.Proofs.Evaluation.Custody

/-!
# Only calls open scopes

Whatever an evaluation does and however it ends, the scopes that were there keep their parents, only
the scope it runs in gets more names, and every new scope was opened by the application of a
function to as many arguments as it has parameters, inside the scope that the function was written
in. Where the links between scopes lead to no gap and have no cycle, they stay so, and every search
along the parents comes to an end (`scopes_grow`).
-/

namespace Scriptlet

namespace Store

/-- The first scope is the parent of the second. -/
def ParentOf (store : Store) (parent id : ScopeId) : Prop :=
  store.parent? id = some parent

/-- No scope lies inside itself. -/
def Acyclic (store : Store) : Prop :=
  ∀ id, ¬ Relation.TransGen store.ParentOf id id

/-- All scopes that the store speaks of are there: the parents of scopes and the scopes that
functions in their bindings were written in. -/
structure Whole (store : Store) : Prop where
  parents : ∀ {id parent}, store.parent? id = some parent → parent < store.scopes.size
  written : ∀ {id : ScopeId} {scope : Scope}, store.scopes[id]? = some scope →
    ∀ binding ∈ scope.bindings, ∀ object closure, (Value.function object closure).Occurs binding.2 →
      closure.scope < store.scopes.size

variable {store final : Store} {id parent : ScopeId}

/-- Without a cycle every way along the parents ends. -/
theorem Acyclic.wellFounded (h : store.Acyclic) (hwhole : store.Whole) :
    WellFounded store.ParentOf := by
  let inside (left right : Fin store.scopes.size) : Prop :=
    Relation.TransGen store.ParentOf left right
  have htrans : IsTrans _ inside := ⟨fun _ _ _ => Relation.TransGen.trans⟩
  have hirrefl : Std.Irrefl inside := ⟨fun id => h id⟩
  have hinside : WellFounded inside := Finite.wellFounded_of_trans_of_irrefl inside
  have hold (id : Fin store.scopes.size) : Acc store.ParentOf id := by
    induction id using hinside.induction with
    | _ id ih =>
        refine ⟨_, fun parent hparent => ?_⟩
        exact ih ⟨parent, hwhole.parents hparent⟩ (.single hparent)
  refine ⟨fun id => ⟨id, fun parent hparent => ?_⟩⟩
  exact hold ⟨parent, hwhole.parents hparent⟩

section Grown

variable {opens : ScopeId → ScopeId → Prop} {scope : ScopeId}

/-- Above a scope that was there before stand such scopes only, as before. -/
theorem ancestor_of_old (hgrows : Grows opens scope store final) (hwhole : store.Whole)
    (h : Relation.TransGen final.ParentOf parent id) (hid : id < store.scopes.size) :
    parent < store.scopes.size ∧ Relation.TransGen store.ParentOf parent id := by
  induction h with
  | single hparent =>
      rw [ParentOf, hgrows.parent hid] at hparent
      exact ⟨hwhole.parents hparent, .single hparent⟩
  | tail _ hparent ih =>
      rw [ParentOf, hgrows.parent hid] at hparent
      obtain ⟨hless, habove⟩ := ih (hwhole.parents hparent)
      exact ⟨hless, habove.tail hparent⟩

/-- Above a new scope stand scopes that were opened before it. -/
theorem ancestor_of_new (hgrows : Grows opens scope store final) (hwhole : store.Whole)
    (hlinks : ∀ {id parent}, store.scopes.size ≤ id → final.parent? id = some parent → parent < id)
    (h : Relation.TransGen final.ParentOf parent id) (hid : store.scopes.size ≤ id) :
    parent < id := by
  induction h with
  | single hparent => exact hlinks hid hparent
  | @tail middle id habove hparent ih =>
      have hless : middle < id := hlinks hid hparent
      by_cases hmiddle : store.scopes.size ≤ middle
      · exact Nat.lt_trans (ih hmiddle) hless
      · have hold := (ancestor_of_old hgrows hwhole habove (Nat.lt_of_not_le hmiddle)).1
        exact Nat.lt_of_lt_of_le hold hid

/-- Links from new scopes to older ones close no cycle. -/
theorem Acyclic.of_grows (h : store.Acyclic) (hgrows : Grows opens scope store final)
    (hwhole : store.Whole)
    (hlinks : ∀ {id parent}, store.scopes.size ≤ id → final.parent? id = some parent →
      parent < id) :
    final.Acyclic := by
  intro id hcycle
  by_cases hid : store.scopes.size ≤ id
  · exact Nat.lt_irrefl id (ancestor_of_new hgrows hwhole hlinks hcycle hid)
  · exact h id (ancestor_of_old hgrows hwhole hcycle (Nat.lt_of_not_le hid)).2

end Grown

end Store

namespace Discipline

/-- Functions are from scopes that are there, and from the scope `first` on every scope is opened
inside an older one. -/
def ranked (first : Nat) : Discipline where
  code _ := True
  fits size value := ∀ object closure, value = .function object closure → closure.scope < size
  link id parent := first ≤ id → parent < id
  failure _ := True
  count _ := True
  part _ _ := trivial
  later h hsize object closure hvalue := Nat.lt_of_lt_of_le (h object closure hvalue) hsize
  simple := by
    rintro size value hsimple object closure rfl
    cases hsimple
  array := nofun
  map := nofun
  counted _ := nofun
  literal _ := nofun
  made := by
    rintro size origin parameters body scope id - hscope object closure ⟨⟩
    exact hscope
  body _ := trivial
  linked h _ := h _ _ rfl
  raised _ _ := trivial
  refused _ _ _ := trivial
  outward _ _ := trivial

variable {store final : Store}

/-- A store without gaps holds to the rules that rank its scopes. -/
theorem holds_ranked (h : store.Whole) : (ranked store.scopes.size).Holds store where
  values := by
    rintro id scope hscope binding hbinding _ hpart object closure rfl
    exact h.written hscope binding hbinding object closure hpart
  links := by
    intro id parent hparent hnew
    exact absurd (Store.lt_size_of_parent? hparent) (Nat.not_lt_of_le hnew)

end Discipline

/-- A store without gaps stays so when it grows within the rules. -/
theorem Store.Whole.of_grows {opens : ScopeId → ScopeId → Prop} {scope : ScopeId}
    {store final : Store} (h : store.Whole) (hgrows : Grows opens scope store final)
    (hholds : (Discipline.ranked store.scopes.size).Holds final) : final.Whole where
  parents := by
    intro id parent hparent
    by_cases hid : store.scopes.size ≤ id
    · exact Nat.lt_trans (hholds.links hparent hid) (Store.lt_size_of_parent? hparent)
    · rw [hgrows.parent (Nat.lt_of_not_le hid)] at hparent
      exact Nat.lt_of_lt_of_le (h.parents hparent) hgrows.size
  written := by
    intro id found hfound binding hbinding object closure hoccurs
    exact hholds.values hfound binding hbinding _ hoccurs object closure rfl

/-- The evaluation of a node in a scope, whatever its end, changes no parent, gives names to no
scope but its own, and there only behind the names it has. Every scope it opens is opened by a call
that it contains, inside the scope that the called function was written in. Links that lead to no
gap and have no cycle stay so, and every way along them ends. -/
theorem scopes_grow (limits : Limits) (node : Node) (scope : ScopeId) (store : Store) :
    let final := (node.eval limits.model limits.rounds scope).after store
    store.scopes.size ≤ final.scopes.size ∧
    (∀ id, id < store.scopes.size → final.parent? id = store.parent? id) ∧
    (∀ id, id < store.scopes.size → id ≠ scope → final.names id = store.names id) ∧
    store.names scope <+: final.names scope ∧
    (∀ id, store.scopes.size ≤ id → id < final.scopes.size →
      ∃ parent, final.parent? id = some parent ∧
        Evaluation.Causes limits.rounds ⟨limits.calls, scope, node, store⟩ id parent) ∧
    (store.Whole → scope < store.scopes.size → store.Acyclic →
      final.Whole ∧ final.Acyclic ∧ WellFounded final.ParentOf) := by
  intro final
  have hgrows : Grows (Evaluation.Causes limits.rounds ⟨limits.calls, scope, node, store⟩) scope
      store final := eval_grows limits.rounds limits.calls scope node store
  refine ⟨hgrows.size, fun _ => hgrows.parent, fun _ => hgrows.elsewhere, hgrows.here,
    fun _ => hgrows.opened, ?_⟩
  intro hwhole hscope hacyclic
  have hready : (Discipline.ranked store.scopes.size).Ready scope store :=
    ⟨hscope, Discipline.holds_ranked hwhole⟩
  have hcode : (Discipline.ranked store.scopes.size).code node := trivial
  have hholds := (Discipline.limits_ends limits hcode hready).holds_after
  have hfinal : final.Whole := hwhole.of_grows hgrows hholds
  have hends : final.Acyclic := by
    refine hacyclic.of_grows hgrows hwhole ?_
    intro id parent hid hparent
    exact hholds.links hparent hid
  exact ⟨hfinal, hends, hends.wellFounded hfinal⟩

/-- The store with the outermost scope alone. -/
def Store.outermost : Store :=
  (Store.empty .recording).openRoot.2

/-- The outermost scope has no parent. -/
theorem Store.parent?_outermost (id : ScopeId) : outermost.parent? id = none := by
  rw [parent?, show outermost.scopes = #[⟨none, [("print", .builtin .print)]⟩] from rfl]
  cases id with
  | zero => rfl
  | succ id => rfl

/-- A store with the outermost scope only has no gaps. -/
theorem Store.whole_outermost : outermost.Whole where
  parents := by
    intro id parent hparent
    rw [parent?_outermost] at hparent
    cases hparent
  written := by
    intro id scope hscope binding hbinding object closure hoccurs
    cases id with
    | zero =>
        cases hscope
        rw [List.mem_singleton.1 hbinding] at hoccurs
        cases hoccurs
    | succ id => cases hscope

theorem Store.acyclic_outermost : outermost.Acyclic := by
  intro id hcycle
  obtain ⟨parent, -, hparent⟩ := Relation.TransGen.tail'_iff.1 hcycle
  rw [ParentOf, parent?_outermost] at hparent
  cases hparent

/-- A declaration whose first value is a call: one name is added, and one scope is opened by the
call inside the outermost one. -/
theorem scopes_grow_declaration :
    let body : Node := .block none [.declaration none (.identifier none "z") none]
    let node : Node := .declaration none (.identifier none "y")
      (some (.call none (.function none [.identifier none "x"] body) [.integer none 7]))
    let final := (node.eval (Limits.model ⟨1, 1⟩) 1 0).after Store.outermost
    Store.outermost.Whole ∧ Store.outermost.Acyclic ∧
    final.names 0 = ["print", "y"] ∧ final.names 1 = ["x", "z"] ∧
    (∃ parent, final.parent? 1 = some parent ∧
      Evaluation.Causes 1 ⟨1, 0, node, Store.outermost⟩ 1 parent) ∧
    final.Acyclic ∧ WellFounded final.ParentOf := by
  intro body node final
  obtain ⟨-, -, -, -, hopened, hlinks⟩ := scopes_grow ⟨1, 1⟩ node 0 Store.outermost
  obtain ⟨-, hacyclic, hends⟩ := hlinks Store.whole_outermost (by decide) Store.acyclic_outermost
  exact ⟨Store.whole_outermost, Store.acyclic_outermost, rfl, rfl,
    hopened 1 (by decide) (by decide), hacyclic, hends⟩

end Scriptlet
