import Scriptlet.Proofs.Relocation.Running
import Scriptlet.Proofs.Token.Lexing

/-!
# The layout of a text does not matter

Two texts with the same kinds and texts of tokens differ in their blanks and line breaks only, so
their tokens are the same but for places. The places of the first text are moved to those of the
second (`exists_move`); then all that was shown of moved code applies. `layout_irrelevant` puts it
together: equal errors and shapes, equal renderings, and runs that differ at most in the places of
their faults, which correspond token by token.
-/

namespace Scriptlet

section Alignment

/-- The place that stands in the second list where the given one stands in the first. -/
def realign (places others : List Position) (position : Position) : Position :=
  ((places.zip others).lookup position).getD position

/-- Distinct places are taken to the places that stand opposite them. -/
theorem map_realign {places others : List Position} (hdistinct : places.Nodup)
    (hlength : places.length = others.length) : places.map (realign places others) = others := by
  induction places generalizing others with
  | nil => exact (List.length_eq_zero_iff.1 hlength.symm).symm
  | cons place places ih =>
      cases others with
      | nil => cases hlength
      | cons other others =>
          obtain ⟨hfresh, hdistinct⟩ := List.nodup_cons.1 hdistinct
          have hrest : places.map (realign (place :: places) (other :: others)) =
              places.map (realign places others) := by
            apply List.map_congr_left
            intro position hposition
            have hother : (position == place) = false := by
              apply beq_false_of_ne
              intro heq
              subst heq
              exact hfresh hposition
            simp [realign, List.lookup_cons, hother]
          rw [List.map_cons, hrest, ih hdistinct (by simpa using hlength)]
          simp [realign]

/-- Where lines are counted from one, no place is taken to line zero or from it. -/
theorem keeps_realign {places others : List Position} (hplaces : ∀ place ∈ places, 0 < place.line)
    (hothers : ∀ other ∈ others, 0 < other.line) : Keeps (realign places others) := by
  intro position
  unfold realign
  cases hfound : (places.zip others).lookup position with
  | none => exact Iff.rfl
  | some other =>
      obtain ⟨before, behind, hzip, -⟩ := List.lookup_eq_some_iff.1 hfound
      have hmem : (position, other) ∈ places.zip others := by
        rw [hzip]
        simp
      have hplace := hplaces position (List.of_mem_zip hmem).1
      have hother := hothers other (List.of_mem_zip hmem).2
      simp only [Option.getD_some]
      omega

/-- Tokens with the same contents are the same once their positions are moved. -/
theorem map_relocate_eq {tokens others : List Token} {move : Position → Position}
    (hcontent : tokens.map Token.content = others.map Token.content)
    (hposition : (tokens.map Token.position).map move = others.map Token.position) :
    tokens.map (Token.relocate move) = others := by
  induction tokens generalizing others with
  | nil => cases others with
    | nil => rfl
    | cons => cases hcontent
  | cons token tokens ih =>
      cases others with
      | nil => cases hcontent
      | cons other others =>
          simp only [List.map_cons, List.cons.injEq, Token.content, Prod.mk.injEq]
            at hcontent hposition
          obtain ⟨⟨hkind, htext⟩, hcontent⟩ := hcontent
          obtain ⟨hplace, hposition⟩ := hposition
          rw [List.map_cons, ih hcontent hposition]
          obtain ⟨kind, text, position⟩ := other
          simp only [Token.relocate, hkind, htext, hplace]

variable {left right : String}

/-- The tokens of a text with the same contents are those of the other one at other places. -/
theorem exists_move
    (h : (Token.tokenize left).map Token.content = (Token.tokenize right).map Token.content) :
    ∃ move, Keeps move ∧
      (Token.tokenize left).map (Token.relocate move) = Token.tokenize right := by
  have hlength : (Token.tokenize left).length = (Token.tokenize right).length := by
    simpa using congrArg List.length h
  have hdistinct : ((Token.tokenize left).map Token.position).Nodup :=
    (Token.pairwise_before_tokenize left).imp Position.Before.ne
  refine ⟨realign ((Token.tokenize left).map Token.position)
    ((Token.tokenize right).map Token.position), keeps_realign ?_ ?_, map_relocate_eq h ?_⟩
  · intro place hplace
    obtain ⟨token, htoken, rfl⟩ := List.mem_map.1 hplace
    exact Token.line_pos_of_mem_tokenize htoken
  · intro place hplace
    obtain ⟨token, htoken, rfl⟩ := List.mem_map.1 hplace
    exact Token.line_pos_of_mem_tokenize htoken
  -- No place stands twice in a text, so each has one partner.
  · exact map_realign hdistinct (by simpa using hlength)

/-- Texts whose tokens differ in positions only are read from tokens that do. -/
theorem ofText_eq_of_tokenize {move : Position → Position}
    (h : (Token.tokenize left).map (Token.relocate move) = Token.tokenize right) :
    Token.ofText right = (Token.ofText left).map (Token.relocate move) := by
  rw [Token.tokenize, Token.tokenize, List.map_append] at h
  exact (List.append_inj_left' h rfl).symm

end Alignment

section Runs

/-- The place of the failure that an outcome shows. -/
def Outcome.position? : Outcome → Option Position
  | failed (.fault _ position) => position
  | reported (.fault _ position) => position
  | _ => none

/-- The failures have the same cause, and so the same class and wording. -/
def Failure.SameCause : Failure → Failure → Prop
  | fault left _, fault right _ => left = right
  | sink left, sink right => left = right
  | flaw left, flaw right => left = right
  | _, _ => False

/-- The outcomes are of the same sort, with the same text or the same cause. -/
inductive Outcome.Alike : Outcome → Outcome → Prop where
  | value {left right : Value} : left.inspect = right.inspect → Alike (.value left) (.value right)
  | failed {left right : Failure} : left.SameCause right → Alike (.failed left) (.failed right)
  | reported {left right : Failure} :
      left.SameCause right → Alike (.reported left) (.reported right)
  | exhausted : Alike .exhausted .exhausted

/-- Two runs with the same prints, alike outcomes, and the same names with the same texts in the
outermost scope. -/
structure SameRun (root : ScopeId) (left right : Outcome × Store) : Prop where
  printed : left.2.printed.toList.map (List.map Value.unplaced) =
    right.2.printed.toList.map (List.map Value.unplaced)
  shown : printedText left.2.printed.toList = printedText right.2.printed.toList
  outcome : left.1.Alike right.1
  bindings : (left.2.bindings root).map (fun binding => (binding.1, binding.2.inspect)) =
    (right.2.bindings root).map fun binding => (binding.1, binding.2.inspect)

variable {move : Position → Position}

theorem Failure.sameCause_relocate (failure : Failure) :
    failure.SameCause (failure.relocate move) := by
  cases failure <;> rfl

/-- Moving an outcome keeps what it says. -/
theorem Outcome.alike_relocate (outcome : Outcome) : outcome.Alike (outcome.relocate move) := by
  cases outcome with
  | value result => exact .value (Value.inspect_relocate move result).symm
  | failed failure => exact .failed failure.sameCause_relocate
  | reported failure => exact .reported failure.sameCause_relocate
  | exhausted => exact .exhausted

/-- The position of an outcome is moved with it. -/
theorem Outcome.position?_relocate (outcome : Outcome) :
    (outcome.relocate move).position? = outcome.position?.map move := by
  cases outcome with
  | value | exhausted => rfl
  | failed failure => cases failure <;> rfl
  | reported failure => cases failure <;> rfl

/-- Moving a store keeps the names and moves the values. -/
theorem bindings_relocate (store : Store) (id : ScopeId) :
    (store.relocate move).bindings id =
      (store.bindings id).map fun binding => (binding.1, binding.2.relocate move) := by
  unfold Store.bindings
  simp only [Store.relocate, Array.getElem?_map]
  cases store.scopes[id]? <;> rfl

/-- A run and the moved run are the same but for places. -/
theorem sameRun_relocate (keeps : Keeps move) (root : ScopeId) (run : Outcome × Store) :
    SameRun root run (run.1.relocate move, run.2.relocate move) where
  printed := by
    simp [Store.relocate, Value.relocateList_eq_map, Value.unplaced_relocate keeps,
      Function.comp_def]
  shown := by
    simp [Store.relocate, Value.relocateList_eq_map, printedText, Function.comp_def]
  outcome := run.1.alike_relocate
  bindings := by
    simp [bindings_relocate]

/-- The stores with a fresh outermost scope, with and without the host's `print`. -/
def Store.freshRoots (sink : Sink) : List (ScopeId × Store) :=
  [(Store.empty sink).openRoot, (Store.empty sink).openScope none]

theorem openRoot_empty (sink : Sink) :
    (Store.empty sink).openRoot = (0, ⟨#[⟨none, [("print", .builtin .print)]⟩], 0, sink, #[]⟩) :=
  rfl

/-- A fresh store has no positions. -/
theorem relocate_freshRoot {sink : Sink} {root : ScopeId × Store}
    (h : root ∈ Store.freshRoots sink) : root.2.relocate move = root.2 := by
  rcases List.mem_cons.1 h with rfl | h
  · rw [openRoot_empty]
    simp [Store.relocate, Scope.relocate, Value.relocate]
  · rw [List.mem_singleton.1 h]
    simp [Store.relocate, Store.openScope, Store.empty, Scope.relocate]

end Runs

variable {left right : String}

/-- The program of a text with the same contents, and its run, are the moved ones. -/
theorem exists_moved_run
    (h : (Token.tokenize left).map Token.content = (Token.tokenize right).map Token.content) :
    ∃ move, Keeps move ∧
      (Token.tokenize left).map (Token.relocate move) = Token.tokenize right ∧
      parse right = (parse left).map (fun parsed =>
        ⟨Node.relocateList move parsed.statements, parsed.errors⟩) ∧
      ∀ (program : Node) (limits : Limits) (sink : Sink), ∀ root ∈ Store.freshRoots sink,
        (program.relocate move).evaluate limits root.1 root.2 =
          ((program.evaluate limits root.1 root.2).1.relocate move,
            (program.evaluate limits root.1 root.2).2.relocate move) := by
  obtain ⟨move, keeps, htokens⟩ := exists_move h
  refine ⟨move, keeps, htokens, parse_relocate (ofText_eq_of_tokenize htokens), ?_⟩
  intro program limits sink root hroot
  have hrun := evaluate_relocate keeps limits root.1 program root.2
  rw [relocate_freshRoot hroot] at hrun
  exact hrun

/-- The place of a fault goes with its token from one text to the other. -/
theorem position_of_token
    (h : (Token.tokenize left).map Token.content = (Token.tokenize right).map Token.content)
    {first second : Parsed} (hleft : parse left = .ok first) (hright : parse right = .ok second)
    (limits : Limits) {sink : Sink} {root : ScopeId × Store} (hroot : root ∈ Store.freshRoots sink)
    {index : Nat} {token other : Token} (htoken : (Token.tokenize left)[index]? = some token)
    (hother : (Token.tokenize right)[index]? = some other)
    (hplace : (first.program.evaluate limits root.1 root.2).1.position? = some token.position) :
    (second.program.evaluate limits root.1 root.2).1.position? = some other.position := by
  obtain ⟨move, keeps, htokens, hparse, hrun⟩ := exists_moved_run h
  rw [hleft, hright] at hparse
  cases hparse
  have hprogram : (Parsed.program ⟨Node.relocateList move first.statements, first.errors⟩) =
      first.program.relocate move := rfl
  rw [← htokens, List.getElem?_map, htoken] at hother
  cases hother
  rw [hprogram, hrun _ limits sink root hroot, Outcome.position?_relocate, hplace]
  rfl

/-- Texts with the same kinds and texts of tokens are read alike, errors included, are shown alike
and, when they have no errors, run alike in a fresh outermost scope: they print the same, end in the
same way and leave the same names with the same texts, and the place of a fault is that of the same
token in both. -/
theorem layout_irrelevant (left right : String)
    (h : (Token.tokenize left).map Token.content = (Token.tokenize right).map Token.content) :
    (∃ stop, parse left = .error stop ∧ parse right = .error stop) ∨
    ∃ first second, parse left = .ok first ∧ parse right = .ok second ∧
      first.errors = second.errors ∧ first.program.same second.program = true ∧
      first.program.render? = second.program.render? ∧
      first.program.toTree? = second.program.toTree? ∧
      (first.errors = [] →
        ∀ (limits : Limits) (sink : Sink), ∀ root ∈ Store.freshRoots sink,
          let run := first.program.evaluate limits root.1 root.2
          let other := second.program.evaluate limits root.1 root.2
          SameRun root.1 run other ∧
          ∀ (index : Nat) (token otherToken : Token),
            (Token.tokenize left)[index]? = some token →
            (Token.tokenize right)[index]? = some otherToken →
            (run.1.position? = some token.position ↔
              other.1.position? = some otherToken.position)) := by
  obtain ⟨move, keeps, htokens, hparse, hrun⟩ := exists_moved_run h
  cases hleft : parse left with
  | error stop =>
      rw [hleft] at hparse
      exact .inl ⟨stop, rfl, hparse⟩
  | ok first =>
      rw [hleft] at hparse
      refine .inr ⟨first, _, rfl, hparse, rfl, Node.same_relocate move first.program, ?_, ?_, ?_⟩
      · exact (Node.render?_relocate move first.program).symm
      · exact (Node.toTree?_relocate move first.program).symm
      · intro _ limits sink root hroot run other
        refine ⟨?_, ?_⟩
        · have hother : other = _ := hrun first.program limits sink root hroot
          rw [hother]
          exact sameRun_relocate keeps root.1 run
        · intro index token otherToken htoken hotherToken
          exact ⟨position_of_token h hleft hparse limits hroot htoken hotherToken,
            position_of_token h.symm hparse hleft limits hroot hotherToken htoken⟩

/-- A division on one line and on two. -/
theorem layout_irrelevant_division :
    (Token.tokenize "1/0").map Token.content = (Token.tokenize "1 /\n 0").map Token.content ∧
      ∃ first second, parse "1/0" = .ok first ∧ parse "1 /\n 0" = .ok second ∧
        first.errors = second.errors ∧ first.program.same second.program = true := by
  have hcontent : (Token.tokenize "1/0").map Token.content =
      (Token.tokenize "1 /\n 0").map Token.content := by
    decide +kernel
  have hread : (parse "1/0").isOk = true := by decide +kernel
  refine ⟨hcontent, ?_⟩
  rcases layout_irrelevant "1/0" "1 /\n 0" hcontent with
    ⟨stop, hleft, -⟩ | ⟨first, second, hleft, hright, herrors, hsame, -⟩
  · rw [hleft] at hread
    cases hread
  · exact ⟨first, second, hleft, hright, herrors, hsame⟩

end Scriptlet
