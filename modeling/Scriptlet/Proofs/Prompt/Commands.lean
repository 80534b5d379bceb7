import Mathlib.Data.List.DropRight
import Scriptlet.Prompt.Session
import Scriptlet.Proofs.Parser.Acceptance

/-!
# Commands do not touch evaluation

The lines of a session are blank, commands or submissions. A command other than the one that resets
the session leaves its store and its scope alone, so the submissions behind the last reset answer as
if they were run by themselves in a fresh scope, and leave the same store (`commands_inert`). Around
the answer to a submission the settings only add a tree before it, and log lines and a trace
(`exists_transcript_submit`).
-/

namespace Scriptlet.Prompt

/-- The first word of a line, empty when the line is blank. -/
def firstWord (line : String) : String :=
  String.ofList (Text.firstWord line.toList).1

/-- The line is neither blank nor does its first word begin with a slash. -/
def isSubmission (line : String) : Bool :=
  !Text.allBlank line.toList && (firstWord line).toList.head? != some '/'

/-- The line is no command that resets the session. -/
def keepsScope (line : String) : Bool :=
  firstWord line != "/reset"

/-- The session behind a run of lines. A break would end the session before its next line; it is
passed over here. -/
def Session.after (session : Session) (lines : List String) : Session :=
  lines.foldl (fun session line => (session.dispatch line).session) session

/-- The submissions among lines that a session takes one behind the other. -/
def Session.submissions (session : Session) : List String → List Submission
  | [] => []
  | line :: lines =>
      let next := (session.dispatch line).session.submissions lines
      if isSubmission line then session.run line :: next else next

/-- Texts run one behind the other in a scope: how each one ended, what it printed, and the store
behind the last one. -/
def runAll (root : ScopeId) : List String → Store → List (Verdict × List (List Value)) × Store
  | [], store => ([], store)
  | text :: texts, store =>
      let (verdict, ran) := Scriptlet.submit Limits.standard root text store
      let (printed, next) := ran.takePrinted
      let (answers, last) := runAll root texts next
      ((verdict, printed) :: answers, last)

/-- What is written about a text that was run, when trees, traces and logs are off: what it printed,
and its result or its errors. -/
def report (printed : List (List Value)) : Verdict → Transcript
  | .ran (.value value) => .output (printedText printed) ++ Diagnostic.result value
  | .ran (.failed failure) => .output (printedText printed) ++ Diagnostic.failure false failure
  | .ran (.reported failure) => .output (printedText printed) ++ Diagnostic.failure false failure
  | .ran .exhausted => .output (printedText printed)
  | .rejected errors => Diagnostic.syntaxErrors "Error: " errors
  | .unreadable _ => .empty

section Lines

variable {session : Session} {line : String}

/-- A word that is a command is the name of it. -/
theorem Command.name_of_ofName? {word : String} {command : Command}
    (h : ofName? word = some command) : command.name = word := by
  have hfound := List.find?_some h
  exact of_decide_eq_true hfound

/-- The name of a command is found. -/
theorem Command.ofName?_name (command : Command) : ofName? command.name = some command := by
  cases command <;> decide

/-- A blank line has no first word. -/
theorem firstWord_of_allBlank (h : Text.allBlank line.toList = true) : firstWord line = "" := by
  have hdropped : line.toList.dropWhile Text.isBlank = [] :=
    List.dropWhile_eq_nil_iff.2 (List.all_eq_true.1 h)
  rw [firstWord, Text.firstWord, hdropped]
  rfl

/-- A submission does not begin with the word of a command. -/
theorem firstWord_ne_of_submission (h : isSubmission line = true) (command : Command) :
    firstWord line ≠ command.name := by
  intro hword
  rw [isSubmission, hword, Bool.and_eq_true, bne_iff_ne] at h
  refine h.2 ?_
  cases command <;> decide

/-- A line whose first word begins with a slash is a slash line. -/
theorem ofText?_of_slash (h : (firstWord line).toList.head? = some '/') :
    SlashLine.ofText? line =
      some ⟨firstWord line, String.ofList (Text.firstWord line.toList).2⟩ := by
  rw [firstWord, String.toList_ofList] at h
  rw [SlashLine.ofText?]
  exact if_pos h

/-- Any other line is none. -/
theorem ofText?_of_not_slash (h : (firstWord line).toList.head? ≠ some '/') :
    SlashLine.ofText? line = none := by
  rw [firstWord, String.toList_ofList] at h
  rw [SlashLine.ofText?]
  exact if_neg h

/-- What a line can make of a session. -/
inductive Session.Takes (session : Session) (line : String) : Session → Prop where
  | submission : isSubmission line = true → Takes session line (session.run line).session
  | tree : isSubmission line = false → firstWord line = "/ast" →
      Takes session line { session with showTree := !session.showTree }
  | reset {root store} : isSubmission line = false → firstWord line = "/reset" →
      (Store.empty .recording).openRoot = (root, store) →
      Takes session line { session with root := root, store := store }
  | setting {trace} : isSubmission line = false → firstWord line ≠ "/ast" →
      firstWord line ≠ "/reset" → Takes session line { session with trace := trace }

/-- A slash line is taken as its command says. -/
theorem takes_command (hsubmission : isSubmission line = false) {slash : SlashLine}
    (hname : slash.name = firstWord line) : session.Takes line (session.command slash).2 := by
  have hother (command : Command) (hcommand : Command.ofName? slash.name ≠ some command) :
      firstWord line ≠ command.name := by
    intro hword
    rw [hname, hword, command.ofName?_name] at hcommand
    exact hcommand rfl
  unfold Session.command
  split
  · next hclear =>
      exact .setting hsubmission (hother .tree (by simp [hclear]))
        (hother .reset (by simp [hclear]))
  · next htree => exact .tree hsubmission (by rw [← hname, ← Command.name_of_ofName? htree]; rfl)
  · next hreset =>
      exact .reset hsubmission (by rw [← hname, ← Command.name_of_ofName? hreset]; rfl) rfl
  · next htrace =>
      have htree := hother .tree (by simp [htrace])
      have hreset := hother .reset (by simp [htrace])
      split <;> exact .setting hsubmission htree hreset
  · next hnone =>
      exact .setting hsubmission (hother .tree (by simp [hnone]))
        (hother .reset (by simp [hnone]))

/-- A line that is to be run is submitted. -/
theorem dispatch_of_submission (h : isSubmission line = true) :
    session.dispatch line = session.submit line := by
  rw [isSubmission, Bool.and_eq_true, Bool.not_eq_true', bne_iff_ne] at h
  rw [Session.dispatch, h.1, ofText?_of_not_slash h.2]
  rfl

/-- A slash line is carried out and runs nothing. -/
theorem dispatch_of_slash {slash : SlashLine} (hblank : Text.allBlank line.toList = false)
    (hslash : SlashLine.ofText? line = some slash) :
    (session.dispatch line).session = (session.command slash).2 := by
  simp only [Session.dispatch, hblank, hslash, Bool.false_eq_true, if_false]

/-- Every line is taken in one of these ways. -/
theorem dispatch_takes (session : Session) (line : String) :
    session.Takes line (session.dispatch line).session := by
  cases hsubmission : isSubmission line with
  | true =>
      rw [dispatch_of_submission hsubmission]
      exact .submission hsubmission
  | false =>
      cases hblank : Text.allBlank line.toList with
      | true =>
          rw [Session.dispatch, hblank]
          refine .setting hsubmission ?_ ?_ <;>
            rw [firstWord_of_allBlank hblank] <;> decide
      | false =>
          have hslash : (firstWord line).toList.head? = some '/' := by
            rw [isSubmission, hblank] at hsubmission
            simpa using hsubmission
          rw [dispatch_of_slash hblank (ofText?_of_slash hslash)]
          exact takes_command hsubmission rfl

end Lines

section Courses

variable {session : Session} {lines : List String}

/-- Lines one behind the other are taken one behind the other. -/
theorem Session.after_append (session : Session) (before behind : List String) :
    session.after (before ++ behind) = (session.after before).after behind :=
  List.foldl_append

/-- One line behind the others. -/
theorem Session.after_concat (session : Session) (lines : List String) (line : String) :
    session.after (lines ++ [line]) = ((session.after lines).dispatch line).session :=
  session.after_append lines [line]

/-- Lines that do not reset the session answer like their submissions alone. -/
theorem submissions_eq_runAll (h : ∀ line ∈ lines, keepsScope line = true) :
    let alone := runAll session.root (lines.filter isSubmission) session.store
    (session.submissions lines).map (fun answer => (answer.verdict, answer.printed)) = alone.1 ∧
      (session.after lines).store = alone.2 ∧ (session.after lines).root = session.root := by
  induction lines generalizing session with
  | nil => exact ⟨rfl, rfl, rfl⟩
  | cons line lines ih =>
      obtain ⟨hline, hlines⟩ := List.forall_mem_cons.1 h
      have htakes := dispatch_takes session line
      have hrest := @ih (session.dispatch line).session hlines
      have hafter : session.after (line :: lines) =
          (session.dispatch line).session.after lines := rfl
      rw [hafter, Session.submissions, List.filter_cons]
      generalize (session.dispatch line).session = next at htakes hrest
      cases htakes with
      | submission hsubmission =>
          obtain ⟨hanswers, hstore, hroot⟩ := hrest
          rw [if_pos hsubmission, if_pos hsubmission, List.map_cons, hanswers, hstore, hroot]
          exact ⟨rfl, rfl, rfl⟩
      | reset _ hreset =>
          rw [keepsScope, bne_iff_ne] at hline
          exact absurd hreset hline
      | tree hcommand | setting hcommand =>
          rw [hcommand]
          exact hrest

/-- Behind the last reset, or at the start, the session has a fresh scope. -/
theorem fresh_after_rdropWhile
    (hstart : (session.root, session.store) = (Store.empty .recording).openRoot)
    (lines : List String) :
    let opening := session.after (lines.rdropWhile keepsScope)
    (opening.root, opening.store) = (Store.empty .recording).openRoot := by
  induction lines using List.reverseRecOn with
  | nil => exact hstart
  | append_singleton lines line ih =>
      rw [List.rdropWhile_concat]
      split
      · exact ih
      · next hreset =>
          have htakes := dispatch_takes (session.after lines) line
          rw [Session.after_concat]
          generalize ((session.after lines).dispatch line).session = next at htakes
          have hword : firstWord line = "/reset" := by
            simpa [keepsScope] using hreset
          cases htakes with
          | reset _ _ hfresh => exact hfresh.symm
          | setting _ _ hother => exact absurd hword hother
          | tree _ htree =>
              rw [hword] at htree
              exact absurd htree (by decide)
          | submission hsubmission =>
              exact absurd hword (firstWord_ne_of_submission hsubmission .reset)

/-- The command for trees switches them, and no other line does. -/
theorem showTree_takes {line : String} {next : Session} (h : session.Takes line next) :
    next.showTree = (session.showTree ^^ decide (firstWord line = "/ast")) := by
  cases h with
  | submission hsubmission =>
      have hword : firstWord line ≠ "/ast" := firstWord_ne_of_submission hsubmission .tree
      rw [decide_eq_false hword, Bool.xor_false]
      rfl
  | tree _ hword => rw [decide_eq_true hword, Bool.xor_true]
  | reset _ hword _ =>
      have htree : firstWord line ≠ "/ast" := by
        rw [hword]
        decide
      rw [decide_eq_false htree, Bool.xor_false]
  | setting _ hword _ => rw [decide_eq_false hword, Bool.xor_false]

/-- Trees are shown behind an odd number of commands that show or hide them, if they were not shown
at first. -/
theorem showTree_after (session : Session) (lines : List String) :
    (session.after lines).showTree =
      (session.showTree ^^
        decide (lines.countP (fun line => firstWord line = "/ast") % 2 = 1)) := by
  induction lines using List.reverseRecOn with
  | nil => exact (Bool.xor_false _).symm
  | append_singleton lines line ih =>
      rw [Session.after_concat, showTree_takes (dispatch_takes _ line), ih, List.countP_append,
        List.countP_singleton]
      by_cases hword : firstWord line = "/ast"
      · simp only [hword, decide_true, Bool.xor_true, if_true]
        rcases Nat.mod_two_eq_zero_or_one (lines.countP fun line => firstWord line = "/ast") with
          heven | hodd
        · have hnext : (lines.countP (fun line => firstWord line = "/ast") + 1) % 2 = 1 := by omega
          simp [heven, hnext]
        · have hnext : (lines.countP (fun line => firstWord line = "/ast") + 1) % 2 = 0 := by omega
          simp [hodd, hnext]
      · simp only [hword, decide_false, Bool.xor_false, Bool.false_eq_true, if_false, Nat.add_zero]

end Courses

section Reports

variable {session : Session} {text : String}

theorem append_eq (first second : Transcript) :
    first ++ second = ⟨first.out ++ second.out, first.err ++ second.err⟩ :=
  rfl

/-- The log of reading goes to the second stream. -/
theorem out_readLog (verbose : Bool) (parsed : Parsed) :
    (Diagnostic.readLog verbose parsed).out = "" := by
  unfold Diagnostic.readLog
  split
  · split <;> rfl
  · rfl

/-- Where no tree is shown, only log lines go before the answer. -/
theorem out_preface (h : ∀ parsed, parse text = .ok parsed →
    (session.showTree && parsed.errors.isEmpty) = false) : (session.preface text).out = "" := by
  unfold Session.preface
  split
  · rfl
  · next parsed hparse =>
      rw [h parsed hparse]
      exact out_readLog session.verbose parsed

/-- Nothing is said before a text unless more is asked for. -/
theorem err_preface (h : session.verbose = false) : (session.preface text).err = "" := by
  unfold Session.preface
  split
  · rfl
  · rw [h]
    split <;> rfl

/-- The log of a value goes to the second stream, and only if more is asked for. -/
theorem exists_valueLog (verbose : Bool) (value : Value) :
    ∃ log, Diagnostic.valueLog verbose value = .error log ∧ (verbose = false → log = "") := by
  cases verbose with
  | false => exact ⟨"", rfl, fun _ => rfl⟩
  | true => exact ⟨_, rfl, nofun⟩

/-- A trace comes behind the failure, and only if it is asked for. -/
theorem exists_trace (trace : Bool) (failure : Failure) :
    ∃ text, Diagnostic.failure trace failure = Diagnostic.failure false failure ++ .error text ∧
      (trace = false → text = "") := by
  cases trace with
  | false => exact ⟨"", by simp [append_eq, Diagnostic.failure, Transcript.error], fun _ => rfl⟩
  | true =>
      refine ⟨"\nPython traceback:\n" ++ Diagnostic.traceLine failure, ?_, nofun⟩
      simp [append_eq, Diagnostic.failure, Transcript.error]

/-- The answer to a submission is its report, with log lines before its errors and a trace behind
them. -/
theorem exists_account (session : Session) (answer : Submission) :
    ∃ log trace, session.account answer =
        .error log ++ (report answer.printed answer.verdict ++ .error trace) ∧
      (session.verbose = false → log = "") ∧ (session.trace = false → trace = "") := by
  cases hverdict : answer.verdict with
  | rejected | unreadable =>
      refine ⟨"", "", ?_, fun _ => rfl, fun _ => rfl⟩
      simp [append_eq, Session.account, hverdict, report, Transcript.error]
  | ran outcome =>
      cases outcome with
      | exhausted =>
          refine ⟨"", "", ?_, fun _ => rfl, fun _ => rfl⟩
          simp [append_eq, Session.account, hverdict, Session.conclusion, report, Transcript.error,
            Transcript.empty]
      | value value =>
          obtain ⟨log, hlog, hquiet⟩ := exists_valueLog session.verbose value
          refine ⟨log, "", ?_, hquiet, fun _ => rfl⟩
          simp [append_eq, Session.account, hverdict, Session.conclusion, report, hlog,
            Transcript.error, Transcript.output]
      | failed failure | reported failure =>
          obtain ⟨trace, htrace, huntraced⟩ := exists_trace session.trace failure
          refine ⟨"", trace, ?_, fun _ => rfl, huntraced⟩
          simp [append_eq, Session.account, hverdict, Session.conclusion, report, htrace,
            Transcript.error, Transcript.output]

/-- What is written about a submission is its report, with a tree before it, and with log lines
before its errors and a trace behind them. With the settings off there is nothing but the report. -/
theorem exists_transcript_submit (session : Session) (text : String) :
    let answer := session.run text
    ∃ tree log trace, (session.submit text).transcript =
        .output tree ++ (.error log ++ (report answer.printed answer.verdict ++ .error trace)) ∧
      (session.showTree = false → tree = "") ∧ (session.verbose = false → log = "") ∧
      (session.trace = false → trace = "") := by
  intro answer
  obtain ⟨log, trace, haccount, hquiet, huntraced⟩ := exists_account session answer
  refine ⟨(session.preface text).out, (session.preface text).err ++ log, trace, ?_, ?_, ?_,
    huntraced⟩
  · have hsubmit : (session.submit text).transcript =
        session.preface text ++ session.account answer := rfl
    rw [hsubmit, haccount]
    simp [append_eq, Transcript.error, Transcript.output, String.append_assoc]
  · intro hhidden
    exact out_preface fun _ _ => by rw [hhidden, Bool.false_and]
  · intro hverbose
    rw [err_preface hverbose, hquiet hverbose]
    rfl

/-- A submission with a syntax error changes no scope and writes nothing on the output. -/
theorem submit_of_errors {parsed : Parsed} (hparse : parse text = .ok parsed)
    (herrors : parsed.errors ≠ []) :
    (session.submit text).transcript.out = "" ∧
      (session.submit text).session.root = session.root ∧
      (session.submit text).session.store.scopes = session.store.scopes := by
  have hrejected : Scriptlet.submit Limits.standard session.root text session.store =
      (.rejected parsed.errors, session.store) := by
    simp only [Scriptlet.submit, hparse]
  have hrun : session.run text = ⟨.rejected parsed.errors, session.store.takePrinted.1,
      { session with store := session.store.takePrinted.2 }⟩ := by
    rw [Session.run, hrejected]
  have hpreface : (session.preface text).out = "" := by
    refine out_preface fun other hother => ?_
    cases hparse.symm.trans hother
    rw [List.isEmpty_eq_false_iff.2 herrors, Bool.and_false]
  rw [Session.submit, hrun]
  refine ⟨?_, rfl, rfl⟩
  rw [append_eq, hpreface]
  rfl

end Reports

/-- In a session that begins with a fresh scope, whatever lines it takes: the submissions behind the
last reset have the verdicts and prints that they have when they are run alone in a fresh scope, and
leave the same store; what is written about a submission is determined by its verdict and its
prints, but for the tree before it, log lines and a trace; trees are shown behind an odd number of
commands for them; and a submission with a syntax error changes no scope and writes nothing on the
output. -/
theorem commands_inert (trace verbose : Bool) (lines : List String) :
    let start := Session.start .recording trace verbose
    let opening := start.after (lines.rdropWhile keepsScope)
    let behind := lines.rtakeWhile keepsScope
    let fresh := (Store.empty .recording).openRoot
    let alone := runAll fresh.1 (behind.filter isSubmission) fresh.2
    (lines.rdropWhile keepsScope ++ behind = lines ∧
      (opening.submissions behind).map (fun answer => (answer.verdict, answer.printed)) = alone.1 ∧
      (start.after lines).store = alone.2 ∧ (start.after lines).root = fresh.1) ∧
    (∀ (session : Session) (line : String), isSubmission line = true →
      let answer := session.run line
      (session.dispatch line).session = answer.session ∧
      ∃ tree log more, (session.dispatch line).transcript =
          .output tree ++ (.error log ++ (report answer.printed answer.verdict ++ .error more)) ∧
        (session.showTree = false → tree = "") ∧ (session.verbose = false → log = "") ∧
        (session.trace = false → more = "")) ∧
    (start.after lines).showTree =
      decide (lines.countP (fun line => firstWord line = "/ast") % 2 = 1) ∧
    ∀ (session : Session) (line : String) (parsed : Parsed), isSubmission line = true →
      parse line = .ok parsed → parsed.errors ≠ [] →
      (session.dispatch line).transcript.out = "" ∧
        (session.dispatch line).session.root = session.root ∧
        (session.dispatch line).session.store.scopes = session.store.scopes := by
  intro start opening behind fresh alone
  have hlines : lines.rdropWhile keepsScope ++ behind = lines := List.rdropWhile_append_rtakeWhile
  refine ⟨⟨hlines, ?_⟩, ?_, ?_, ?_⟩
  · have hopening : (opening.root, opening.store) = fresh := fresh_after_rdropWhile rfl lines
    have hkeeps : ∀ line ∈ behind, keepsScope line = true := fun _ => List.mem_rtakeWhile_imp
    have halone := @submissions_eq_runAll opening behind hkeeps
    have hafter : start.after lines = opening.after behind := by
      rw [← Session.after_append, hlines]
    obtain ⟨hroot, hstore⟩ := Prod.mk.inj hopening
    rw [hroot, hstore] at halone
    rw [hafter]
    exact halone
  · intro session line hline
    rw [dispatch_of_submission hline]
    exact ⟨rfl, exists_transcript_submit session line⟩
  · rw [showTree_after]
    exact Bool.false_xor _
  · intro session line parsed hline hparse herrors
    rw [dispatch_of_submission hline]
    exact submit_of_errors hparse herrors

/-- A reset between two declarations of a name, a tree that is turned on, and a text that is cut
short. -/
theorem commands_inert_reset :
    let lines := ["let a = 1;", " /reset now", "let a = 2;", "", "/ast", "let x", "a"]
    let start := Session.start .recording false false
    let fresh := (Store.empty .recording).openRoot
    let alone := runAll fresh.1 ["let a = 2;", "let x", "a"] fresh.2
    (lines.rtakeWhile keepsScope).filter isSubmission = ["let a = 2;", "let x", "a"] ∧
    (start.after lines).store = alone.2 ∧ (start.after lines).showTree = true ∧
    isSubmission "let x" = true ∧
    (∃ parsed, parse "let x" = .ok parsed ∧ parsed.errors ≠ []) ∧
    ((start.after lines).dispatch "let x").transcript.out = "" := by
  intro lines start fresh alone
  have hbehind : (lines.rtakeWhile keepsScope).filter isSubmission =
      ["let a = 2;", "let x", "a"] := by
    decide +kernel
  have hcut : isSubmission "let x" = true := by decide +kernel
  obtain ⟨parsed, hparse, herrors⟩ : ∃ parsed, parse "let x" = .ok parsed ∧ parsed.errors ≠ [] := by
    have hread : (parse "let x").toOption.map (fun parsed => parsed.errors.isEmpty) =
        some false := by
      decide +kernel
    obtain ⟨parsed, hparsed, herrors⟩ := Option.map_eq_some_iff.1 hread
    exact ⟨parsed, parse_of_toOption hparsed, List.isEmpty_eq_false_iff.1 herrors⟩
  have hcount : lines.countP (fun line => firstWord line = "/ast") = 1 := by decide +kernel
  obtain ⟨⟨-, -, hstore, -⟩, -, htree, hwrong⟩ := commands_inert false false lines
  rw [hbehind] at hstore
  rw [hcount] at htree
  refine ⟨hbehind, hstore, htree, hcut, ⟨parsed, hparse, herrors⟩, ?_⟩
  exact (hwrong (start.after lines) "let x" parsed hcut hparse herrors).1

end Scriptlet.Prompt
