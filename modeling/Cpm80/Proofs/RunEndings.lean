import Cpm80.Proofs.ProgramRuns
import Cpm80.Proofs.SavedPrograms

/-!
# How a call ends a run

A call executes lines of a program one after another as long as each goes on at once. It ends with
no line left, with a line left but no budget for it, or behind a line that has ended the run,
failed or asked for input. This decides all that the call gives: what is printed behind the output
of the lines, whether a break is told of, and whether the interpreter waits. A line of input that
sets no program going executes nothing.
-/
namespace Cpm80

/-! ## What a run comes to -/

namespace Basic

namespace Moment

/-- Lines that are executed one after another, each going on at once. -/
inductive Leads : Moment → List Outcome → Moment → Prop
  | nil (m : Moment) : Leads m [] m
  | cons {m n : Moment} {number : Nat} {code : List Char} {os : List Outcome}
    (hline : m.run.line? = some (number, code))
    (hgoes : (execute m.run m.bindings code).goesOn = true)
    (rest : Leads (after (execute m.run m.bindings code)) os n) :
    Leads m (execute m.run m.bindings code :: os) n

end Moment

/-- How the part of a run ends that a call executes. -/
inductive Ending
  /-- There is no line left. -/
  | finished
  /-- The line with the number is left, but no budget. -/
  | broken (number : Nat)
  /-- The run does not go on at once behind the line with the number. -/
  | stopped (number : Nat) (o : Outcome)

namespace Ending

/-- How many lines are executed at the end. -/
def lines : Ending → Nat
  | finished | broken _ => 0
  | stopped _ _ => 1

/-- What the latest line has printed, if it is part of the end. -/
def output : Ending → List Char
  | finished | broken _ => []
  | stopped _ o => o.output

/-- What is reported of the end, and the prompt if the run is over. -/
def report : Ending → List Char
  | finished => prompt.toList
  | broken number => ("?BREAK IN " ++ number.repr).toList ++ lineEnd ++ prompt.toList
  | stopped number o =>
    match o.flow with
    | .error e => ("?" ++ e.message ++ " IN " ++ number.repr).toList ++ lineEnd ++ prompt.toList
    | .ok (.input _) => []
    | .ok _ => prompt.toList

/-- What is printed at the end. -/
def text (e : Ending) : List Char :=
  e.output ++ e.report

/-- The run that waits for input from then on, with the variable it is for. -/
def waiting : Ending → Option (Run × String)
  | stopped _ o =>
    match o.flow with
    | .ok (.input name) => some (o.moved, name)
    | _ => none
  | _ => none

def status (e : Ending) : Status :=
  if e.waiting.isSome then .awaitingInput else .ready

/-- The variables from then on, if they were those of `m` before the end. -/
def bindings (m : Moment) : Ending → Variables
  | stopped _ o => o.bindings
  | _ => m.bindings

end Ending

namespace Moment

/-- How a run ends that has come to a moment with some budget left. -/
inductive Ends : (budget : Nat) → Moment → Ending → Prop
  | finished {budget : Nat} {m : Moment} (hline : m.run.line? = none) : Ends budget m .finished
  | broken {m : Moment} {number : Nat} {code : List Char}
    (hline : m.run.line? = some (number, code)) : Ends 0 m (.broken number)
  | stopped {budget : Nat} {m : Moment} {number : Nat} {code : List Char}
    (hline : m.run.line? = some (number, code))
    (hstays : (execute m.run m.bindings code).goesOn = false) :
    Ends (budget + 1) m (.stopped number (execute m.run m.bindings code))

variable {m n : Moment} {os : List Outcome} {ending : Ending} {budget : Nat}

/-- Every run comes to an end within its budget. -/
theorem exists_ends (budget : Nat) (m : Moment) :
    ∃ os n ending, m.Leads os n ∧ os.length + ending.lines ≤ budget ∧
      n.Ends (budget - os.length) ending := by
  induction budget generalizing m with
  | zero =>
    cases hline : m.run.line? with
    | none => exact ⟨[], m, .finished, .nil m, Nat.le_refl 0, .finished hline⟩
    | some line => exact ⟨[], m, .broken line.1, .nil m, Nat.le_refl 0, .broken hline⟩
  | succ budget ih =>
    cases hline : m.run.line? with
    | none => exact ⟨[], m, .finished, .nil m, Nat.zero_le _, .finished hline⟩
    | some line =>
      cases hgoes : (execute m.run m.bindings line.2).goesOn with
      | false =>
        exact ⟨[], m, .stopped line.1 _, .nil m, Nat.le_add_left 1 budget, .stopped hline hgoes⟩
      | true =>
        obtain ⟨os, n, ending, hleads, hlines, hends⟩ :=
          ih (after (execute m.run m.bindings line.2))
        refine ⟨_ :: os, n, ending, .cons hline hgoes hleads, ?_, ?_⟩
        · rw [List.length_cons]
          omega
        · rwa [List.length_cons, Nat.add_sub_add_right]

/-- A break is told of exactly if there is a line left and no budget for it. -/
theorem Ends.eq_broken_iff (h : n.Ends budget ending) {number : Nat} :
    ending = .broken number ↔ budget = 0 ∧ ∃ code, n.run.line? = some (number, code) := by
  cases h with
  | finished hline => simp [hline]
  | broken hline => simp [hline, eq_comm]
  | stopped hline hstays => simp

end Moment

namespace Interpreter

variable {i : Interpreter} {m n : Moment} {os : List Outcome} {ending : Ending} {budget : Nat}

theorem printLine_eq (c : Console) (text : String) :
    c.printLine text = c.putBytes (Utf8.encode (text.toList ++ lineEnd)) := by
  rw [Utf8.encode_append, ← Console.putBytes_putBytes]
  rfl

/-- Lines that go on at once leave their output, and the budget that they have not used. -/
theorem resume_of_leads (h : m.Leads os n) (budget : Nat) (i : Interpreter) (c : Console) :
    resume (os.length + budget) { i with bindings := m.bindings } m.run c =
      resume budget { i with bindings := n.bindings } n.run
        (c.putBytes (Utf8.encode (os.flatMap Outcome.output))) := by
  induction h generalizing c with
  | nil m =>
    rw [List.length_nil, Nat.zero_add]
    congr 1
  | @cons m n number code os hline hgoes rest ih =>
    rw [List.length_cons, Nat.add_right_comm, resume, hline, List.flatMap_cons,
      Utf8.encode_append, ← Console.putBytes_putBytes, ← ih]
    dsimp only
    generalize execute m.run m.bindings code = o at hgoes
    obtain ⟨q, v, output, flow⟩ := o
    -- the two ways to go on move the run as `Outcome.moved` says
    rcases flow with e | next | index | stop | name
    case ok.next | ok.jump => rfl
    case error | ok.stop | ok.input => cases hgoes

theorem endRun_eq (i : Interpreter) (c : Console) (text : List Char) :
    i.endRun (c.putBytes (Utf8.encode text)) =
      ({ i with waiting := none }, c.putBytes (Utf8.encode (text ++ prompt.toList)), .ready) := by
  rw [Utf8.encode_append, ← Console.putBytes_putBytes]
  rfl

/-- The end of a run leaves its text, its variables and what waits. -/
theorem resume_of_ends (h : n.Ends budget ending) (i : Interpreter) (c : Console) :
    resume budget { i with bindings := n.bindings } n.run c =
      ({ i with bindings := ending.bindings n, waiting := ending.waiting },
        c.putBytes (Utf8.encode ending.text), ending.status) := by
  cases h with
  | finished hline => cases budget <;> simp [resume, hline] <;> rfl
  | @broken _ number _ hline =>
    simp only [resume, hline, printLine_eq]
    exact endRun_eq _ c _
  | @stopped budget _ number code hline hstays =>
    simp only [resume, hline]
    generalize execute n.run n.bindings code = o at hstays
    obtain ⟨q, v, output, flow⟩ := o
    rcases flow with e | next | index | stop | name
    case ok.next | ok.jump => cases hstays
    case ok.stop => exact endRun_eq _ c output
    case ok.input =>
      have htext : (Ending.stopped number ⟨q, v, output, .ok (.input name)⟩).text = output :=
        List.append_nil output
      rw [htext]
      rfl
    case error =>
      simp only [printLine_eq, Console.putBytes_putBytes, ← Utf8.encode_append]
      rw [endRun_eq, List.append_assoc output]
      rfl

end Interpreter

/-! ## Reports of a break -/

/-- A line that begins like the report of a break. -/
def TellsBreak (text : List Char) : Prop :=
  ['?', 'B', 'R', 'E', 'A', 'K'] <+: text

instance (text : List Char) : Decidable (TellsBreak text) :=
  inferInstanceAs (Decidable (_ <+: _))

/-- What has been shown is whole lines, none of which tells of a break, and requests to go on. -/
inductive Quiet (c : Console) : Console → Prop
  | refl : Quiet c c
  | line {d : Console} {text : String} (h : Quiet c d) (htext : ¬TellsBreak text.toList) :
    Quiet c (d.printLine text)
  | request {d : Console} (h : Quiet c d) (text : String)
    (htext : text.toList = prompt.toList ∨ text.toList = questionMark) : Quiet c (d.print text)

theorem not_tellsBreak_of_head? {text : List Char} (h : text.head? ≠ some '?') :
    ¬TellsBreak text := by
  rintro ⟨rest, rfl⟩
  simp at h

theorem any_head?_append {front : String} {p : Char → Bool} (h : front.toList.head?.any p)
    (rest : String) : (front ++ rest).toList.head?.any p := by
  rw [String.toList_append]
  generalize front.toList = shown at h ⊢
  cases shown with
  | nil => cases h
  | cons c shown => exact h

theorem not_tellsBreak_error {message : String} (h : message.toList.head?.any (· ≠ 'B'))
    (rest : List Char) : ¬TellsBreak (("?" ++ message).toList ++ rest) := by
  rintro ⟨behind, htext⟩
  rw [String.toList_append] at htext
  generalize message.toList = shown at h htext
  cases shown with
  | nil => cases h
  | cons c shown =>
    obtain ⟨rfl, -⟩ : 'B' = c ∧ _ := by simpa using htext
    cases h

theorem head?_driveError_message (e : DriveError) : e.message.toList.head?.any (· ≠ 'B') := by
  cases e with
  | notFound name => exact any_head?_append (by decide) name
  | alreadyExists name => exact any_head?_append (by decide) name
  | invalidName name => exact any_head?_append (by decide) (Text.quoted name)
  | host failure => exact any_head?_append (by decide) failure.message

theorem not_tellsBreak_driveError (e : DriveError) : ¬TellsBreak ("?" ++ e.message).toList := by
  have herror := not_tellsBreak_error (head?_driveError_message e) []
  rwa [List.append_nil] at herror

theorem head?_fault_message (e : Fault) : e.message.toList.head?.any (· ≠ 'B') := by
  cases e with
  | undefinedLine number => exact any_head?_append (by decide) number.repr
  | _ => decide

/-- Of all ends only a break is reported as one. -/
theorem tellsBreak_report_iff (ending : Ending) :
    TellsBreak ending.report ↔ ∃ number, ending = .broken number := by
  cases ending with
  | finished => exact iff_of_false (by decide) (by simp)
  | broken number => exact iff_of_true (by simp [TellsBreak, Ending.report]) ⟨number, rfl⟩
  | stopped number o =>
    refine iff_of_false ?_ (by simp)
    rw [Ending.report]
    split
    case h_1 e hflow =>
      rw [String.append_assoc, String.append_assoc, List.append_assoc]
      exact not_tellsBreak_error (any_head?_append (head?_fault_message e) _) _
    case h_2 | h_3 => decide

theorem not_tellsBreak_countOf (p : Program) {verb : String} (between name : String)
    (h : verb.toList.head?.any (· ≠ '?')) :
    ¬TellsBreak (Interpreter.countOf p verb between name).toList := by
  apply not_tellsBreak_of_head?
  have hhead : (Interpreter.countOf p verb between name).toList.head?.any (· ≠ '?') := by
    rw [Interpreter.countOf]
    iterate 6 apply any_head?_append
    exact h
  intro heq
  rw [heq] at hhead
  cases hhead

theorem not_tellsBreak_lineText (line : Nat × List Char) :
    ¬TellsBreak (Program.lineText line) := by
  apply not_tellsBreak_of_head?
  obtain ⟨c, hhead, hdigit⟩ := Program.exists_head?_lineText line.1 line.2
  rw [hhead]
  rintro ⟨rfl⟩
  cases hdigit

theorem not_tellsBreak_help : ∀ text ∈ Interpreter.help, ¬TellsBreak text.toList := by
  have hhead : ∀ text ∈ Interpreter.help, text.toList.head? ≠ some '?' := by
    rw [Interpreter.help]
    simp
  exact fun text htext => not_tellsBreak_of_head? (hhead text htext)

/-- Lines that are shown one by one. -/
theorem Quiet.foldl {c d : Console} (h : Quiet c d) {lines : List String}
    (hlines : ∀ text ∈ lines, ¬TellsBreak text.toList) :
    Quiet c (lines.foldl Console.printLine d) := by
  induction lines generalizing d with
  | nil => exact h
  | cons text lines ih =>
    obtain ⟨htext, hlines⟩ := List.forall_mem_cons.mp hlines
    exact ih (h.line htext) hlines

/-! ## Lines that set no program going -/

namespace Interpreter

variable {i j : Interpreter} {s t : Station} {line : List Char} {m : Moment}

/-- What a line of input does that sets no program going. -/
structure Idle (i : Interpreter) (s : Station) (result : Interpreter × Station × Status) :
    Prop where
  status : result.2.2 = .awaitingInput ↔ i.isRunning
  quiet : Quiet s.console result.2.1.console

theorem Idle.asking (hi : i.waiting = none) (hquiet : Quiet s.console t.console) :
    i.Idle s (j.asking t) where
  status := by simp [Interpreter.asking, isRunning, hi]
  quiet := hquiet.request prompt (.inl rfl)

theorem console_printLines (lines : List String) (s : Station) :
    (s.printLines lines).console = lines.foldl Console.printLine s.console := by
  induction lines generalizing s with
  | nil => rfl
  | cons text lines ih => exact ih (s.printLine text)

theorem quiet_listing (p : Program) (argument : List Char) (s : Station) :
    Quiet s.console ((p.listing argument).foldl
      (fun s line => s.printLine (String.ofList line)) s).console := by
  rw [← List.foldl_map (f := String.ofList) (g := Station.printLine), ← Station.printLines,
    console_printLines]
  refine Quiet.refl.foldl fun text htext => ?_
  obtain ⟨shown, hshown, rfl⟩ := List.mem_map.mp htext
  obtain ⟨line, -, rfl⟩ := List.mem_map.mp hshown
  rw [String.toList_ofList]
  exact not_tellsBreak_lineText line

theorem idle_save (hi : i.waiting = none) (argument : List Char) (s : Station) :
    i.Idle s (i.save argument s) := by
  rw [save]
  split
  · exact .asking hi (.line .refl (by decide))
  · dsimp only
    split
    · exact .asking hi (.line .refl (not_tellsBreak_countOf _ _ _ (by decide)))
    · exact .asking hi (.line .refl (not_tellsBreak_driveError _))
    · exact ⟨by simp [isRunning, hi], .refl⟩

theorem idle_load (hi : i.waiting = none) (argument : List Char) (s : Station) :
    i.Idle s (i.load argument s) := by
  rw [load]
  dsimp only
  split
  · exact ⟨by simp [isRunning, hi], .refl⟩
  · split
    · exact .asking hi (.line .refl (by decide))
    · exact .asking hi (.line .refl (not_tellsBreak_countOf _ _ _ (by decide)))

theorem idle_help (hi : i.waiting = none) (s : Station) :
    i.Idle s (i.asking (s.printLines help)) := by
  refine .asking hi ?_
  rw [console_printLines]
  exact Quiet.refl.foldl not_tellsBreak_help

/-- A command that sets no program going does the same for every budget. -/
theorem exists_idle_perform (hi : i.waiting = none) {command : Command}
    (hrun : command = .run → i.program.isEmpty = true) (argument : List Char) (s : Station) :
    ∃ result, i.Idle s result ∧ ∀ budget, perform budget command argument i s = result := by
  have hline (text : String) (htext : ¬TellsBreak text.toList) :
      Quiet s.console (s.printLine text).console := .line .refl htext
  cases command with
  | new | clear =>
    refine ⟨_, .asking hi (hline _ ?_), fun _ => rfl⟩
    decide
  | list => exact ⟨_, .asking hi (quiet_listing i.program argument s), fun _ => rfl⟩
  | run =>
    have hquiet := hline "No program to run" (by decide)
    refine ⟨_, .asking (j := i) hi hquiet, fun budget => ?_⟩
    simp only [perform, run, hrun rfl, if_true]
    rfl
  | save => exact ⟨_, idle_save hi argument s, fun _ => rfl⟩
  | load => exact ⟨_, idle_load hi argument s, fun _ => rfl⟩
  | help => exact ⟨_, idle_help hi s, fun _ => rfl⟩
  | quit => exact ⟨(i, s, .quit), ⟨by simp [isRunning, hi], .refl⟩, fun _ => rfl⟩

theorem exists_idle_of_not_begun (h : i.begun? line = none) (s : Station) :
    ∃ result, i.Idle s result ∧ ∀ budget, i.handle budget line s = result := by
  unfold handle
  cases hwaiting : i.waiting with
  | some wait =>
    obtain ⟨r, name⟩ := wait
    have hreply : reply? name line = none := by simpa [begun?, hwaiting] using h
    have hquiet : Quiet s.console (s.console.printLine "?REDO FROM START") :=
      .line .refl (by decide)
    simp only [takeReply, hreply]
    exact ⟨_, ⟨by simp [isRunning, hwaiting], hquiet.request "? " (.inr rfl)⟩, fun _ => rfl⟩
  | none =>
    unfold obey
    dsimp only
    split
    case isTrue =>
      split
      case h_1 => exact ⟨_, .asking hwaiting .refl, fun _ => rfl⟩
      case h_2 => exact ⟨_, .asking hwaiting (.line .refl (by decide)), fun _ => rfl⟩
    case isFalse hnumbered =>
      split
      case isTrue => exact ⟨_, .asking hwaiting .refl, fun _ => rfl⟩
      case isFalse hline =>
        split
        case h_1 command hcommand =>
          apply exists_idle_perform hwaiting
          rintro rfl
          simpa [begun?, hwaiting, hnumbered, hline, hcommand] using h
        case h_2 => exact ⟨_, .asking hwaiting (.line .refl (by decide)), fun _ => rfl⟩

/-! ## Calls -/

/-- A line of input that sets the program going is followed by lines and by an end. -/
theorem exists_ending_of_begun (h : i.begun? line = some m) (budget : Nat) (s : Station) :
    ∃ os n ending, m.Leads os n ∧ os.length + ending.lines ≤ budget ∧
      n.Ends (budget - os.length) ending ∧
      i.handle budget line s =
        (⟨i.program, ending.bindings n, ending.waiting⟩,
          s.onConsole fun c => c.putBytes (Utf8.encode (os.flatMap Outcome.output ++ ending.text)),
          ending.status) := by
  obtain ⟨os, n, ending, hleads, hlines, hends⟩ := m.exists_ends budget
  refine ⟨os, n, ending, hleads, hlines, hends, ?_⟩
  have hbudget : os.length + (budget - os.length) = budget := by omega
  have hresume := resume_of_leads hleads (budget - os.length) { i with waiting := none } s.console
  rw [hbudget, resume_of_ends hends, Console.putBytes_putBytes, ← Utf8.encode_append] at hresume
  rw [handle_eq_resume h, hresume]
  rfl

theorem isRunning_handle_iff (budget : Nat) (i : Interpreter) (line : List Char) (s : Station) :
    (i.handle budget line s).1.isRunning ↔ (i.handle budget line s).2.2 = .awaitingInput := by
  cases hbegun : i.begun? line with
  | none =>
    obtain ⟨result, hidle, hresult⟩ := exists_idle_of_not_begun hbegun s
    have hwaiting := (handle_of_not_begun hbegun budget s).1
    rw [isRunning, hwaiting, hresult budget]
    exact hidle.status.symm
  | some m =>
    obtain ⟨os, n, ending, -, -, -, hresult⟩ := exists_ending_of_begun hbegun budget s
    rw [hresult, Ending.status, isRunning]
    split <;> simp_all

theorem handle_of_refused {r : Run} {name : String} (hwaiting : i.waiting = some (r, name))
    (hreply : reply? name line = none) (budget : Nat) (s : Station) :
    (i.handle budget line s).1 = i := by
  simp only [handle, hwaiting, takeReply, hreply]

/-- A call executes lines of the program one after another, at most as many as its budget allows.
A break is told of, with the number of the next line, exactly if the budget is used up, all lines
went on at once, and there is a next line. A call that sets no program going executes no line and
tells of no break. After a call the interpreter is running exactly if the call has answered that
input is awaited, and then there is a variable that the input is for. A reply that is refused
changes nothing. -/
theorem handle_runs_within_budget (budget : Nat) (i : Interpreter) (line : List Char)
    (s : Station) :
    (∀ m, i.begun? line = some m → ∃ os n ending,
      m.Leads os n ∧ os.length + ending.lines ≤ budget ∧
      n.Ends (budget - os.length) ending ∧
      i.handle budget line s =
        (⟨i.program, ending.bindings n, ending.waiting⟩,
          s.onConsole fun c => c.putBytes (Utf8.encode (os.flatMap Outcome.output ++ ending.text)),
          ending.status) ∧
      (∀ number, ending = .broken number ↔
        os.length = budget ∧ ∃ code, n.run.line? = some (number, code)) ∧
      (TellsBreak ending.report ↔ ∃ number, ending = .broken number)) ∧
    (i.begun? line = none →
      (∀ other, i.handle other line s = i.handle budget line s) ∧
        Quiet s.console (i.handle budget line s).2.1.console) ∧
    ((i.handle budget line s).1.isRunning ↔ (i.handle budget line s).2.2 = .awaitingInput) ∧
    ((i.handle budget line s).1.isRunning →
      ∃ r name, (i.handle budget line s).1.waiting = some (r, name)) ∧
    ∀ r name, i.waiting = some (r, name) → reply? name line = none →
      (i.handle budget line s).1 = i := by
  refine ⟨fun m hbegun => ?_, fun hbegun => ?_, isRunning_handle_iff budget i line s,
    fun hrunning => ?_, fun r name hwaiting hreply => handle_of_refused hwaiting hreply budget s⟩
  · obtain ⟨os, n, ending, hleads, hlines, hends, hresult⟩ :=
      exists_ending_of_begun hbegun budget s
    have hspent : budget - os.length = 0 ↔ os.length = budget := by omega
    refine ⟨os, n, ending, hleads, hlines, hends, hresult, fun number => ?_,
      tellsBreak_report_iff ending⟩
    rw [hends.eq_broken_iff, hspent]
  · obtain ⟨result, hidle, hresult⟩ := exists_idle_of_not_begun hbegun s
    exact ⟨fun other => (hresult other).trans (hresult budget).symm,
      (hresult budget).symm ▸ hidle.quiet⟩
  · obtain ⟨⟨r, name⟩, hwaiting⟩ := Option.isSome_iff_exists.mp hrunning
    exact ⟨r, name, hwaiting⟩

/-- A program that jumps to its only line. -/
def jumpsToItself : Interpreter :=
  { program := SortedMap.empty.insert 10 "GOTO 10".toList }

/-- A run that waits for a number. -/
def waitsForNumber : Interpreter :=
  { waiting := some ({ lines := #[] }, "N") }

/-- A run that does not end by itself, a listing, and a reply that is no number. -/
theorem handle_runs_within_budget_jumpsToItself :
    (∃ m os n ending, jumpsToItself.begun? "RUN".toList = some m ∧ m.Leads os n ∧
      os.length + ending.lines ≤ 3 ∧ n.Ends (3 - os.length) ending) ∧
    (∀ other, jumpsToItself.handle other "LIST".toList (.ofDrives []) =
      jumpsToItself.handle 3 "LIST".toList (.ofDrives [])) ∧
    (waitsForNumber.handle 3 "X".toList (.ofDrives [])).1 = waitsForNumber := by
  refine ⟨?_, ?_, ?_⟩
  · obtain ⟨m, hbegun⟩ := Option.isSome_iff_exists.mp
      (by decide : (jumpsToItself.begun? "RUN".toList).isSome)
    obtain ⟨os, n, ending, hleads, hlines, hends, -⟩ :=
      (handle_runs_within_budget 3 jumpsToItself "RUN".toList (.ofDrives [])).1 m hbegun
    exact ⟨m, os, n, ending, hbegun, hleads, hlines, hends⟩
  · have hnone : jumpsToItself.begun? "LIST".toList = none :=
      Option.isNone_iff_eq_none.mp (by decide)
    exact ((handle_runs_within_budget 3 jumpsToItself "LIST".toList (.ofDrives [])).2.1 hnone).1
  · have hrefused : reply? "N" "X".toList = none := Option.isNone_iff_eq_none.mp (by decide)
    exact (handle_runs_within_budget 3 waitsForNumber "X".toList (.ofDrives [])).2.2.2.2 _ _ rfl
      hrefused

end Interpreter

end Basic

end Cpm80
