import Scriptlet.Proofs.Evaluation.Descent
import Scriptlet.Proofs.Value.Arithmetic

/-!
# Wrapping once is enough

An expression of integer literals, sums, differences, products and negations is wrapped at every
operation on the way. Wrapping its value in unbounded integers once gives the same, since wrapping
may be left out of operands (`eval_of_reckons`).
-/

namespace Scriptlet

open Integer

/-- The node is an expression of literals of 64 bits with `+`, `-`, `*` and negation, and the number
is its value in unbounded integers. -/
inductive Node.Reckons : Node → Int → Prop where
  | integer {origin value} : InRange value → Reckons (.integer origin value) value
  | negation {origin operand exact} :
      Reckons operand exact → Reckons (.unary origin "-" operand) (-exact)
  | sum {origin left right first second} :
      Reckons left first → Reckons right second →
      Reckons (.binary origin left "+" right) (first + second)
  | difference {origin left right first second} :
      Reckons left first → Reckons right second →
      Reckons (.binary origin left "-" right) (first - second)
  | product {origin left right first second} :
      Reckons left first → Reckons right second →
      Reckons (.binary origin left "*" right) (first * second)

namespace Node

variable {model : CallModel} {rounds : Nat} {scope : ScopeId} {store middle final : Store}
  {origin : Origin} {operator : String} {left right operand : Node} {first second result : Value}

/-- An operator in front of an operand that has a value. -/
theorem eval_unary_of_ok (hoperand : operand.eval model rounds scope store = .ok first middle)
    (h : Value.unary operator first = .ok result) :
    (unary origin operator operand).eval model rounds scope store = .ok result middle := by
  rw [eval]
  refine Eval.located_of_ok origin ?_
  rw [Eval.bind_of_ok hoperand, h]
  rfl

/-- An operator between operands that have values, the left one first. -/
theorem eval_binary_of_ok (hleft : left.eval model rounds scope store = .ok first middle)
    (hright : right.eval model rounds scope middle = .ok second final)
    (h : Value.binary operator first second = .ok result) :
    (binary origin left operator right).eval model rounds scope store = .ok result final := by
  rw [eval]
  refine Eval.located_of_ok origin ?_
  rw [Eval.bind_of_ok hleft, Eval.bind_of_ok hright, h]
  rfl

/-- The value of such an expression is its exact value, wrapped once, and nothing else happens. -/
theorem eval_of_reckons {node : Node} {exact : Int} (h : node.Reckons exact) :
    node.eval model rounds scope store = .ok (.integer (wrap exact)) store := by
  induction h with
  | integer hrange =>
      rw [eval, wrap_of_inRange hrange]
      rfl
  | negation _ ih =>
      refine eval_unary_of_ok ih ?_
      rw [← wrap_neg_wrap]
      rfl
  | sum _ _ hleft hright =>
      refine eval_binary_of_ok hleft hright ?_
      rw [← wrap_add_wrap]
      rfl
  | difference _ _ hleft hright =>
      refine eval_binary_of_ok hleft hright ?_
      rw [← wrap_sub_wrap]
      rfl
  | product _ _ hleft hright =>
      refine eval_binary_of_ok hleft hright ?_
      rw [← wrap_mul_wrap]
      rfl

end Node

/-- Wrapping takes each integer to the only one between -2^63 and 2^63 - 1 that is congruent to it
modulo 2^64. An expression of literals in that range with `+`, `-`, `*` and negation, evaluated in
any scope of any store, has the value that is exact in unbounded integers, wrapped once, and leaves
the store as it is. -/
theorem wrapped_once :
    (∀ value result : Int, result = wrap value ↔
      (-2 ^ 63 ≤ result ∧ result ≤ 2 ^ 63 - 1) ∧ result ≡ value [ZMOD 2 ^ 64]) ∧
    ∀ (node : Node) (exact : Int), node.Reckons exact →
      ∀ (model : CallModel) (rounds : Nat) (scope : ScopeId) (store : Store),
        node.eval model rounds scope store = .ok (.integer (wrap exact)) store := by
  refine ⟨fun value result => ?_, fun node exact h model rounds scope store => ?_⟩
  · rw [eq_comm, wrap_eq_iff]
    exact Iff.rfl
  · exact Node.eval_of_reckons h

/-- The sum of the greatest integer and one, times minus three, less one. -/
theorem wrapped_once_overflow :
    let sum : Node := .binary none (.integer none 9223372036854775807) "+" (.integer none 1)
    let node : Node := .binary none (.binary none sum "*" (.unary none "-" (.integer none 3))) "-"
      (.integer none 1)
    node.Reckons (-27670116110564327425) ∧
    node.eval (Limits.model ⟨1, 1⟩) 1 0 (Store.empty .recording) =
      .ok (.integer 9223372036854775807) (Store.empty .recording) := by
  intro sum node
  have hnode : node.Reckons ((9223372036854775807 + 1) * (-3) - 1) :=
    .difference (.product (.sum (.integer (by decide)) (.integer (by decide)))
      (.negation (.integer (by decide)))) (.integer (by decide))
  exact ⟨hnode, wrapped_once.2 node _ hnode (Limits.model ⟨1, 1⟩) 1 0 (Store.empty .recording)⟩

end Scriptlet
