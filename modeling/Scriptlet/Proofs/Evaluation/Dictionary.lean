import Mathlib.Data.List.Induction
import Scriptlet.Proofs.Evaluation.Carrying
import Scriptlet.Proofs.Parts

/-!
# Map literals

A map literal evaluates its keys and values one behind the other, each key before its value, and
puts every value under its key as it comes. What it has made in the end is the dictionary of all
that was put (`Value.IsDictionary`): a key that is given again keeps its place and takes the new
value. The text of the map and both ways to read it show that dictionary, and a key that is no
string stops the literal before the value next to it (`map_follows_dictionary`).
-/

namespace Scriptlet

namespace Value

/-- The entries are the dictionary of what was given, in that order. -/
structure IsDictionary (given entries : List (String × Value)) : Prop where
  /-- No key stands twice. -/
  once : (entries.map Prod.fst).Nodup
  /-- The keys are those that were given, in the order of their first occurrence. -/
  order : entries.map Prod.fst = (given.map Prod.fst).eraseDups
  /-- Under a key stands the value that was given last. -/
  last : ∀ key value, (key, value) ∈ entries ↔ given.reverse.lookup key = some value

/-- A key that is put keeps its place, or it comes last. -/
theorem keys_putEntry (key : String) (value : Value) (entries : List (String × Value)) :
    (putEntry key value entries).map Prod.fst =
      if key ∈ entries.map Prod.fst then entries.map Prod.fst
      else entries.map Prod.fst ++ [key] := by
  induction entries with
  | nil => rfl
  | cons entry entries ih =>
      obtain ⟨name, old⟩ := entry
      rw [putEntry]
      by_cases hname : name = key
      · simp [hname]
      · rw [if_neg hname, List.map_cons, ih]
        by_cases hmem : key ∈ entries.map Prod.fst
        · simp [hmem]
        · simp [hmem, Ne.symm hname]

/-- Of pairs that are put, the last one is put at the end. -/
theorem putAll_concat (given entries : List (String × Value)) (key : String) (value : Value) :
    putAll (given ++ [(key, value)]) entries = putEntry key value (putAll given entries) := by
  rw [putAll, List.foldl_append]
  rfl

/-- The keys that come out are those that went in, each where it came first. -/
theorem keys_putAll (given : List (String × Value)) :
    (putAll given []).map Prod.fst = (given.map Prod.fst).eraseDups := by
  induction given using List.reverseRecOn with
  | nil => rfl
  | append_singleton given entry ih =>
      obtain ⟨key, value⟩ := entry
      rw [putAll_concat, keys_putEntry, ih, List.map_append, List.eraseDups_append]
      simp only [List.mem_eraseDups]
      by_cases hmem : key ∈ given.map Prod.fst
      · simp [hmem, List.cons_removeAll]
      · simp [hmem, List.cons_removeAll, List.eraseDups_cons]

/-- No key stands twice in what was put. -/
theorem nodup_keys_putAll (given : List (String × Value)) :
    ((putAll given []).map Prod.fst).Nodup := by
  induction given using List.reverseRecOn with
  | nil => exact List.nodup_nil
  | append_singleton given entry ih =>
      obtain ⟨key, value⟩ := entry
      rw [putAll_concat, keys_putEntry]
      split
      · exact ih
      · next hmem => exact List.nodup_append.2 ⟨ih, List.nodup_singleton _, by grind⟩

/-- Where keys are distinct, an entry is what is found under its key. -/
theorem mem_iff_lookup {entries : List (String × Value)} (h : (entries.map Prod.fst).Nodup)
    {key : String} {value : Value} : (key, value) ∈ entries ↔ entries.lookup key = some value := by
  induction entries with
  | nil => simp
  | cons entry entries ih =>
      obtain ⟨name, old⟩ := entry
      rw [List.map_cons, List.nodup_cons] at h
      rw [List.mem_cons, ih h.2, List.lookup_cons]
      by_cases hname : key = name
      · subst hname
        have hnone : entries.lookup key = none :=
          List.lookup_eq_none_iff.2 fun other hother => bne_iff_ne.2 fun heq =>
            h.1 (List.mem_map.2 ⟨other, hother, heq.symm⟩)
        simp [hnone, eq_comm]
      · simp [hname, beq_false_of_ne hname]

/-- Under a key stands what was put there last. -/
theorem lookup_putAll_nil (given : List (String × Value)) (key : String) :
    (putAll given []).lookup key = given.reverse.lookup key := by
  rw [lookup_putAll, List.lookup_nil, Option.or_none]

/-- What was put is the dictionary of all pairs. -/
theorem isDictionary_putAll (given : List (String × Value)) :
    IsDictionary given (putAll given []) where
  once := nodup_keys_putAll given
  order := keys_putAll given
  last key value := by rw [mem_iff_lookup (nodup_keys_putAll given), lookup_putAll_nil]

/-- The entries of a map are shown one by one, in their order. -/
theorem inspectEntries_eq_map (entries : List (String × Value)) :
    inspectEntries entries = entries.map fun entry => entry.1 ++ ":" ++ entry.2.inspect := by
  induction entries with
  | nil => rfl
  | cons entry entries ih => rw [inspectEntries, ih, List.map_cons]

end Value

namespace Node

section Rules

variable (model : CallModel) (rounds : Nat) (scope : ScopeId)

/-- Evaluating the nodes one behind the other comes to one of them, in the store that those before
it have left. -/
def ComesTo (nodes : List Node) (store : Store) (inner : Node) (begun : Store) : Prop :=
  ∃ before behind values, nodes = before ++ inner :: behind ∧
    Yields model rounds scope before store values begun

end Rules

variable {model : CallModel} {rounds : Nat} {scope : ScopeId} {store middle begun : Store}
  {origin : Origin} {key node inner : Node} {nodes : List Node} {pairs back : List (Node × Node)}
  {given : List (String × Value)}

theorem not_comesTo_nil : ¬ ComesTo model rounds scope [] store inner begun := by
  rintro ⟨before, behind, values, hnodes, -⟩
  simp at hnodes

/-- Evaluation comes to the first node, or to a later one behind its value. -/
theorem comesTo_cons_iff : ComesTo model rounds scope (node :: nodes) store inner begun ↔
    inner = node ∧ begun = store ∨ ∃ value middle,
      node.eval model rounds scope store = .ok value middle ∧
      ComesTo model rounds scope nodes middle inner begun := by
  constructor
  · rintro ⟨before, behind, values, hnodes, hbefore⟩
    cases hbefore with
    | nil =>
        cases hnodes
        exact .inl ⟨rfl, rfl⟩
    | cons hnode hbefore =>
        cases hnodes
        exact .inr ⟨_, _, hnode, _, _, _, rfl, hbefore⟩
  · rintro (⟨rfl, rfl⟩ | ⟨value, middle, hnode, before, behind, values, rfl, hbefore⟩)
    · exact ⟨[], nodes, [], rfl, .nil⟩
    · exact ⟨node :: before, behind, value :: values, rfl, .cons hnode hbefore⟩

theorem not_enters_map_nil : ¬ Enters model rounds scope (map origin []) store inner begun := by
  intro h
  generalize hpairs : ([] : List (Node × Node)) = pairs at h
  cases h <;> simp at hpairs

/-- A map literal comes to its first key, from there to the value next to it if the key is a string,
and then goes on with the other pairs. -/
theorem enters_map_cons_iff :
    Enters model rounds scope (map origin ((key, node) :: pairs)) store inner begun ↔
      inner = key ∧ begun = store ∨ ∃ text middle,
        key.eval model rounds scope store = .ok (.string text) middle ∧
        (inner = node ∧ begun = middle ∨ ∃ value next,
          node.eval model rounds scope middle = .ok value next ∧
          Enters model rounds scope (map origin pairs) next inner begun) := by
  constructor
  · intro h
    generalize hpairs : (key, node) :: pairs = all at h
    cases h with
    | key hbefore =>
        cases hbefore with
        | nil =>
            cases hpairs
            exact .inl ⟨rfl, rfl⟩
        | cons hpair hbefore =>
            cases hpairs
            obtain ⟨next, hkey, hvalue⟩ := hpair.pair
            exact .inr ⟨_, next, hkey, .inr ⟨_, _, hvalue, .key hbefore⟩⟩
    | keyed hbefore hlast =>
        cases hbefore with
        | nil =>
            cases hpairs
            exact .inr ⟨_, _, hlast, .inl ⟨rfl, rfl⟩⟩
        | cons hpair hbefore =>
            cases hpairs
            obtain ⟨next, hkey, hvalue⟩ := hpair.pair
            exact .inr ⟨_, next, hkey, .inr ⟨_, _, hvalue, .keyed hbefore hlast⟩⟩
  · rintro (⟨rfl, rfl⟩ | ⟨text, middle, hkey, ⟨rfl, rfl⟩ | ⟨value, next, hnode, h⟩⟩)
    · show Enters model rounds scope (map origin ([] ++ (inner, node) :: pairs)) begun inner begun
      exact .key .nil
    · show Enters model rounds scope (map origin ([] ++ (key, inner) :: pairs)) store inner begun
      exact .keyed .nil hkey
    · have hpair : Yields model rounds scope [key, node] store [.string text, value] next :=
        .cons hkey (.cons hnode .nil)
      generalize hall : pairs = all at h
      cases h with
      | key hbefore =>
          subst hall
          rw [← List.cons_append]
          exact .key (.cons hpair hbefore)
      | keyed hbefore hlast =>
          subst hall
          rw [← List.cons_append]
          exact .keyed (.cons hpair hbefore) hlast

/-- A literal enters its keys and values in the order in which they are written. -/
theorem comesTo_of_enters_map (h : Enters model rounds scope (map origin pairs) store inner begun) :
    ComesTo model rounds scope (map origin pairs).children store inner begun := by
  induction pairs generalizing store with
  | nil => exact absurd h not_enters_map_nil
  | cons pair pairs ih =>
      obtain ⟨key, node⟩ := pair
      rcases enters_map_cons_iff.1 h with hfirst | ⟨text, middle, hkey, hrest⟩
      · exact comesTo_cons_iff.2 (.inl hfirst)
      · refine comesTo_cons_iff.2 (.inr ⟨_, middle, hkey, comesTo_cons_iff.2 ?_⟩)
        rcases hrest with hsecond | ⟨value, next, hnode, hrest⟩
        · exact .inl hsecond
        · exact .inr ⟨value, next, hnode, ih hrest⟩

/-- Behind pairs that have been evaluated a map literal does with the other pairs as it would with
them alone. -/
theorem YieldsEntries.enters_iff_comesTo
    (h : YieldsEntries model rounds scope pairs store given middle)
    (hback : Enters model rounds scope (map origin back) middle inner begun ↔
      ComesTo model rounds scope nodes middle inner begun) :
    Enters model rounds scope (map origin (pairs ++ back)) store inner begun ↔
      ComesTo model rounds scope ((map origin pairs).children ++ nodes) store inner begun := by
  induction h with
  | nil => exact hback
  | @cons key node pairs store middle next final text value given hkey hnode _ ih =>
      show Enters model rounds scope (map origin ((key, node) :: (pairs ++ back))) store inner
          begun ↔
        ComesTo model rounds scope (key :: node :: ((map origin pairs).children ++ nodes)) store
          inner begun
      simp [enters_map_cons_iff, comesTo_cons_iff, hkey, hnode, ih hback]

/-- A key that is no string is refused by its type. -/
theorem keyText_of_type {result : Value} (h : result.type ≠ .string) (store : Store) :
    keyText result store = .error (.failed (.fault (.badKey result.type) none)) store := by
  cases result with
  | string => exact absurd rfl h
  | _ => rfl

/-- A key that is no string stops the literal in the store that the key has left. -/
theorem eval_map_of_badKey {result : Value} {final : Store} (value : Node)
    (h : YieldsEntries model rounds scope pairs store given middle)
    (hkey : key.eval model rounds scope middle = .ok result final)
    (hresult : result.type ≠ .string) :
    (map origin (pairs ++ (key, value) :: back)).eval model rounds scope store =
      .error (.failed (.fault (.badKey result.type) origin.position?)) final := by
  show (map origin (pairs ++ (key, value) :: back)).eval model rounds scope store =
    .error (Exit.located origin (.failed (.fault (.badKey result.type) none))) final
  rw [eval]
  refine Eval.located_of_error origin (Eval.bind_of_error ?_)
  rw [evalPairs_append_of_yields h, evalPairs, Eval.bind_of_ok hkey]
  exact Eval.bind_of_error (keyText_of_type hresult final)

/-- Behind a key that is refused, nothing more is entered. -/
theorem enters_map_of_badKey {result : Value} {final : Store} (value : Node)
    (hkey : key.eval model rounds scope store = .ok result final)
    (hresult : result.type ≠ .string) :
    Enters model rounds scope (map origin ((key, value) :: back)) store inner begun ↔
      ComesTo model rounds scope [key] store inner begun := by
  have hstring (text : String) : result ≠ .string text := by
    rintro rfl
    exact hresult rfl
  simp [enters_map_cons_iff, comesTo_cons_iff, hkey, hstring, not_comesTo_nil]

/-- There is no fourth way for a map literal to go: all pairs have entries, or one of the parts is
stopped, or a key is no string. -/
theorem yields_or_stops (origin : Origin) (pairs : List (Node × Node)) (store : Store) :
    (∃ given middle, YieldsEntries model rounds scope pairs store given middle) ∨
    (∃ inner begun exit final, Enters model rounds scope (map origin pairs) store inner begun ∧
      inner.eval model rounds scope begun = .error exit final) ∨
    ∃ front key value back given middle result final, pairs = front ++ (key, value) :: back ∧
      YieldsEntries model rounds scope front store given middle ∧
      key.eval model rounds scope middle = .ok result final ∧ result.type ≠ .string := by
  induction pairs generalizing store with
  | nil => exact .inl ⟨[], store, .nil⟩
  | cons pair pairs ih =>
      obtain ⟨key, node⟩ := pair
      cases hkey : key.eval model rounds scope store with
      | error exit final =>
          exact .inr (.inl ⟨key, store, exit, final, enters_map_cons_iff.2 (.inl ⟨rfl, rfl⟩), hkey⟩)
      | ok result middle =>
          by_cases hresult : result.type = .string
          · obtain ⟨text, rfl⟩ : ∃ text, result = .string text := by
              cases result with
              | string text => exact ⟨text, rfl⟩
              | _ => cases hresult
            cases hnode : node.eval model rounds scope middle with
            | error exit final =>
                refine .inr (.inl ⟨node, middle, exit, final, ?_, hnode⟩)
                exact enters_map_cons_iff.2 (.inr ⟨text, middle, hkey, .inl ⟨rfl, rfl⟩⟩)
            | ok value next =>
                rcases ih next with ⟨given, last, h⟩ | ⟨inner, begun, exit, final, henters, h⟩ |
                  ⟨front, bad, other, back, given, last, result, final, rfl, h, hbad⟩
                · exact .inl ⟨_, last, .cons hkey hnode h⟩
                · refine .inr (.inl ⟨inner, begun, exit, final, ?_, h⟩)
                  exact enters_map_cons_iff.2
                    (.inr ⟨text, middle, hkey, .inr ⟨value, next, hnode, henters⟩⟩)
                · exact .inr (.inr ⟨_, bad, other, back, _, last, result, final, rfl,
                    .cons hkey hnode h, hbad⟩)
          · exact .inr (.inr ⟨[], key, node, pairs, [], store, result, middle, rfl, .nil, hkey,
              hresult⟩)

end Node

/-- A map literal in any scope of any store. It comes to its keys and values in the order in which
they stand, and what stops one of them stops the literal. If all keys are strings and nothing stops,
it has the dictionary of the entries, its text lists them, and an index and a member find the last
value of a key in it, or null. If a key is the first that is no string, the literal fails behind
that key, and what it has come to is the pairs before and the key itself. One of the three is the
case. -/
theorem map_follows_dictionary (limits : Limits) (scope : ScopeId) (store : Store)
    (origin : Origin) (pairs : List (Node × Node)) :
    let literal : Node := .map origin pairs
    let run (node : Node) := node.eval limits.model limits.rounds scope
    let enters := Node.Enters limits.model limits.rounds scope literal store
    let comesTo (nodes : List Node) := Node.ComesTo limits.model limits.rounds scope nodes store
    let yields := Node.YieldsEntries limits.model limits.rounds scope
    (∀ inner begun, enters inner begun → comesTo literal.children inner begun ∧
      ∀ exit final, run inner begun = .error exit final →
        run literal store = .error (exit.located origin) final) ∧
    (∀ given middle, yields pairs store given middle →
      (∀ inner begun, enters inner begun ↔ comesTo literal.children inner begun) ∧
      ∃ entries, run literal store = .ok (.map middle.fresh entries) middle.newId.2 ∧
        Value.IsDictionary given entries ∧
        (Value.map middle.fresh entries).inspect = "\x7b" ++ ", ".intercalate
          (entries.map fun entry => entry.1 ++ ":" ++ entry.2.inspect) ++ "\x7d" ∧
        ∀ target begun next, run target begun = .ok (.map middle.fresh entries) next → ∀ text place,
          (∀ spot, run (.member place target (.identifier spot text)) begun =
            .ok ((given.reverse.lookup text).getD .null) next) ∧
          ∀ position final, run position next = .ok (.string text) final →
            run (.index place target position) begun =
              .ok ((given.reverse.lookup text).getD .null) final) ∧
    (∀ front key value back given middle result final, pairs = front ++ (key, value) :: back →
      yields front store given middle → run key middle = .ok result final →
      result.type ≠ .string →
      run literal store = .error (.failed (.fault (.badKey result.type) origin.position?)) final ∧
      (Fault.badKey result.type).message = "unusable as map key: " ++ result.type.name ∧
      ∀ inner begun, enters inner begun ↔
        comesTo ((Node.map origin front).children ++ [key]) inner begun) ∧
    ((∃ given middle, yields pairs store given middle) ∨
      (∃ inner begun exit final, enters inner begun ∧ run inner begun = .error exit final) ∨
      ∃ front key value back given middle result final, pairs = front ++ (key, value) :: back ∧
        yields front store given middle ∧ run key middle = .ok result final ∧
        result.type ≠ .string) := by
  intro literal run enters comesTo yields
  refine ⟨?_, ?_, ?_, Node.yields_or_stops origin pairs store⟩
  · intro inner begun henters
    exact ⟨Node.comesTo_of_enters_map henters, fun _ _ hinner => henters.eval_of_error hinner⟩
  · intro given middle hyields
    have hlookup (text : String) : Value.entry text (Value.putAll given []) =
        (given.reverse.lookup text).getD .null := by
      rw [Value.entry, Value.lookup_putAll_nil]
    refine ⟨fun inner begun => ?_, Value.putAll given [], Evaluation.run_map hyields,
      Value.isDictionary_putAll given, ?_, ?_⟩
    · have hnone :
          Node.Enters limits.model limits.rounds scope (.map origin []) middle inner begun ↔
          Node.ComesTo limits.model limits.rounds scope [] middle inner begun :=
        iff_of_false Node.not_enters_map_nil Node.not_comesTo_nil
      have hall := hyields.enters_iff_comesTo hnone
      rw [List.append_nil, List.append_nil] at hall
      exact hall
    · rw [Value.inspect, Value.inspectEntries_eq_map]
    · intro target begun next htarget text place
      refine ⟨fun spot => ?_, fun position final hposition => ?_⟩
      · exact Evaluation.run_member place htarget rfl (congrArg Except.ok (hlookup text))
      · exact Evaluation.run_index place (.cons htarget (.cons hposition .nil))
          (congrArg Except.ok (hlookup text))
  · rintro front key value back given middle result final rfl hyields hkey hresult
    exact ⟨Node.eval_map_of_badKey value hyields hkey hresult, rfl, fun inner begun =>
      hyields.enters_iff_comesTo (Node.enters_map_of_badKey value hkey hresult)⟩

/-- A key that is given twice stands where it was first, with its second value. With a number as its
second key the literal fails before the print next to it. -/
theorem map_follows_dictionary_repeated :
    let store := (Store.empty .recording).openRoot.2
    let run (node : Node) := node.eval (Limits.model ⟨1, 1⟩) 1 0 store
    let literal (key : Node) (value : Node) : Node := .map none
      [(.string none "a", .integer none 1), (key, value), (.string none "a", .integer none 3)]
    let twice := literal (.string none "b") (.integer none 2)
    (∃ id entries final, run twice = .ok (.map id entries) final ∧
      entries.map Prod.fst = ["a", "b"] ∧ ("a", .integer 3) ∈ entries ∧
      run (.index none twice (.string none "a")) = .ok (.integer 3) final ∧
      run (.member none twice (.identifier none "b")) = .ok (.integer 2) final ∧
      run (.member none twice (.identifier none "c")) = .ok .null final) ∧
    run (literal (.integer none 2) (.call none (.identifier none "print") [])) =
      .error (.failed (.fault (.badKey .integer) none)) store := by
  intro store run literal twice
  have htwice := (map_follows_dictionary ⟨1, 1⟩ 0 store none
    [(.string none "a", .integer none 1), (.string none "b", .integer none 2),
      (.string none "a", .integer none 3)]).2.1
    [("a", .integer 1), ("b", .integer 2), ("a", .integer 3)] store
    (.cons rfl rfl (.cons rfl rfl (.cons rfl rfl .nil)))
  obtain ⟨-, entries, hrun, hdictionary, -, hread⟩ := htwice
  have hread := hread twice store store.newId.2 hrun
  have hbad := (map_follows_dictionary ⟨1, 1⟩ 0 store none
    [(.string none "a", .integer none 1),
      (.integer none 2, .call none (.identifier none "print") []),
      (.string none "a", .integer none 3)]).2.2.1
    [(.string none "a", .integer none 1)] (.integer none 2)
    (.call none (.identifier none "print") []) [(.string none "a", .integer none 3)]
    [("a", .integer 1)] store (.integer 2) store rfl (.cons rfl rfl .nil) rfl nofun
  refine ⟨⟨_, entries, _, hrun, ?_, (hdictionary.last "a" _).2 rfl, ?_, ?_, ?_⟩, hbad.1⟩
  · rw [hdictionary.order]
    decide
  · exact (hread "a" none).2 (.string none "a") store.newId.2 rfl
  · exact (hread "b" none).1 none
  · exact (hread "c" none).1 none

end Scriptlet
