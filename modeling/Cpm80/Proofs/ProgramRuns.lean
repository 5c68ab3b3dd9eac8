import Cpm80.Proofs.Statements

/-!
# Runs of programs

A run is followed from moment to moment, from before its first line to after its last one. It
starts out sound, each line keeps it so, and an interpreter takes over the moment at which the
run stops or waits; so whatever an interpreter is told to do, it only ever goes through sound
moments.
-/
namespace Cpm80.Basic

/-- The run behind a line that has been executed. -/
def Outcome.moved (o : Outcome) : Run :=
  match o.flow with
  | .ok .next | .ok (.input _) => { o.run with index := o.run.index + 1 }
  | .ok (.jump index) => { o.run with index }
  | .ok .stop | .error _ => o.run

/-- Whether a run goes on at once behind a line that has been executed. -/
def Outcome.goesOn (o : Outcome) : Bool :=
  match o.flow with
  | .ok .next | .ok (.jump _) => true
  | _ => false

/-- What a run has come to between two lines. -/
structure Moment where
  bindings : Variables
  run : Run

namespace Moment

def after (o : Outcome) : Moment :=
  ⟨o.bindings, o.moved⟩

/-- The moments of a run of up to `budget` lines: before the first of them and after each. -/
def trail : (budget : Nat) → Moment → List Moment
  | 0, m => [m]
  | budget + 1, m =>
    match m.run.line? with
    | none => [m]
    | some (_, code) =>
      let o := execute m.run m.bindings code
      m :: (if o.goesOn then trail budget (after o) else [after o])

theorem trail_ne_nil (budget : Nat) (m : Moment) : m.trail budget ≠ [] := by
  unfold trail
  split
  · exact List.cons_ne_nil _ _
  · split
    · exact List.cons_ne_nil _ _
    · exact List.cons_ne_nil _ _

theorem getLast?_cons_trail (budget : Nat) (m n : Moment) :
    (m :: trail budget n).getLast? = (trail budget n).getLast? :=
  List.getLast?_cons_of_ne_nil (trail_ne_nil budget n)

/-- The state of a run between two lines is in order. -/
structure Sound (m : Moment) : Prop where
  kinded : m.bindings.Kinded
  run : m.run.Sound

variable {m : Moment} {r : Run} {o : Outcome} {budget : Nat}

theorem sound_after (h : o.Keeps r) (hindex : r.index < r.lines.size) : (after o).Sound := by
  refine ⟨h.kinded, ?_⟩
  have hnext : o.run.index + 1 ≤ o.run.lines.size := by
    rw [h.index_eq, h.lines_eq]
    exact hindex
  unfold after Outcome.moved
  dsimp only
  split
  case h_1 | h_2 => exact h.sound.moved hnext
  case h_3 index hflow => exact h.sound.moved (h.lines_eq ▸ h.jump_le index hflow)
  case h_4 | h_5 => exact h.sound

theorem Sound.after_execute (h : m.Sound) {line : Nat × List Char}
    (hline : m.run.line? = some line) :
    (after (execute m.run m.bindings line.2)).Sound := by
  have hindex : m.run.index < m.run.lines.size := (Array.getElem?_eq_some_iff.mp hline).1
  exact sound_after (execute_keeps h.run h.kinded hindex line.2) hindex

/-- Every moment of a run that starts in order is in order. -/
theorem Sound.trail (h : m.Sound) : ∀ n ∈ m.trail budget, n.Sound := by
  induction budget generalizing m with
  | zero =>
    intro n hn
    rw [List.mem_singleton.mp hn]
    exact h
  | succ budget ih =>
    intro n hn
    rw [Moment.trail] at hn
    split at hn
    case h_1 =>
      rw [List.mem_singleton.mp hn]
      exact h
    case h_2 number code hline =>
      have hafter := h.after_execute hline
      rcases List.mem_cons.mp hn with rfl | hn
      · exact h
      split at hn
      case isTrue => exact ih hafter n hn
      case isFalse =>
        rw [List.mem_singleton.mp hn]
        exact hafter

end Moment

namespace Interpreter

variable {i : Interpreter} {line : List Char} {m : Moment}

/-- A run ends at the last of its moments: its variables are those of the interpreter from then
on, and a run that waits for input waits as it is there. -/
theorem resume_eq_getLast? (budget : Nat) (i : Interpreter) (r : Run) (c : Console) :
    ∃ last, (Moment.trail budget ⟨i.bindings, r⟩).getLast? = some last ∧
      (resume budget i r c).1.bindings = last.bindings ∧
      ∀ q name, (resume budget i r c).1.waiting = some (q, name) → q = last.run := by
  induction budget generalizing i r c with
  | zero =>
    refine ⟨⟨i.bindings, r⟩, rfl, ?_⟩
    rw [resume]
    split <;> exact ⟨rfl, nofun⟩
  | succ budget ih =>
    rw [Moment.trail, resume]
    cases hline : r.line? with
    | none => exact ⟨⟨i.bindings, r⟩, rfl, rfl, nofun⟩
    | some line =>
      obtain ⟨number, code⟩ := line
      dsimp only
      generalize execute r i.bindings code = o
      obtain ⟨q, v, output, flow⟩ := o
      -- a run that goes on has the moments of what follows; any other ends behind the line
      rcases flow with e | next | index | stop | name
      case error => exact ⟨⟨v, q⟩, rfl, rfl, nofun⟩
      case ok.stop => exact ⟨⟨v, q⟩, rfl, rfl, nofun⟩
      case ok.input =>
        refine ⟨⟨v, { q with index := q.index + 1 }⟩, rfl, rfl, fun p other hwaiting => ?_⟩
        exact (Prod.mk.inj (Option.some.inj hwaiting)).1.symm
      case ok.next =>
        obtain ⟨last, hlast, hrest⟩ := ih { i with bindings := v } { q with index := q.index + 1 }
          (c.putBytes (Utf8.encode output))
        exact ⟨last, (Moment.getLast?_cons_trail _ _ _).trans hlast, hrest⟩
      case ok.jump =>
        obtain ⟨last, hlast, hrest⟩ := ih { i with bindings := v } { q with index }
          (c.putBytes (Utf8.encode output))
        exact ⟨last, (Moment.getLast?_cons_trail _ _ _).trans hlast, hrest⟩

/-! ## Reachable interpreters -/

/-- The states that an interpreter with any program can get into. -/
inductive Reachable : Interpreter → Prop
  | ofProgram (program : Program) : Reachable { program }
  | handle {i : Interpreter} (h : Reachable i) (budget : Nat) (line : List Char) (s : Station) :
    Reachable (i.handle budget line s).1

/-- The moment at which a line of input sets the program going: at its first line, or behind the
input statement that the line is the reply to. -/
def begun? (i : Interpreter) (line : List Char) : Option Moment :=
  match i.waiting with
  | some (r, name) => (reply? name line).map fun x => ⟨i.bindings.insert name x, r⟩
  | none =>
    let line := Text.trim line
    if !isNumbered line && !line.isEmpty && !i.program.isEmpty &&
        Command.ofWord? (Text.upper (Text.splitWord line).1) = some .run then
      some ⟨.empty, .ofProgram i.program⟩
    else none

/-- The moments that a line of input leads a program through. -/
def moments (budget : Nat) (i : Interpreter) (line : List Char) : List Moment :=
  match i.begun? line with
  | none => []
  | some m => m.trail budget

/-- A line of input that sets the program going leads to what the run comes to. -/
theorem handle_eq_resume (h : i.begun? line = some m) (budget : Nat) (s : Station) :
    i.handle budget line s =
      let (j, c, status) :=
        resume budget { i with bindings := m.bindings, waiting := none } m.run s.console
      (j, s.onConsole fun _ => c, status) := by
  obtain ⟨program, bindings, waiting⟩ := i
  obtain ⟨memory, disk, console, usage⟩ := s
  cases waiting with
  | some wait =>
    obtain ⟨r, name⟩ := wait
    obtain ⟨x, hx, rfl⟩ := Option.map_eq_some_iff.mp h
    simp only [handle, takeReply, hx, Station.onConsole]
  | none =>
    simp only [begun?] at h
    split at h
    case isFalse => cases h
    case isTrue hrun =>
      obtain rfl := Option.some.inj h
      simp only [Bool.and_eq_true, Bool.not_eq_true', decide_eq_true_eq] at hrun
      obtain ⟨⟨⟨hnumbered, hline⟩, hprogram⟩, hcommand⟩ := hrun
      simp only [handle, obey, hnumbered, hline, hcommand, perform, run, hprogram,
      Station.onConsole, Bool.false_eq_true, if_false]

/-- Such a line leaves the interpreter at the last of the moments that it leads through. -/
theorem handle_eq_getLast? (h : i.begun? line = some m) (budget : Nat) (s : Station) :
    ∃ last, (i.moments budget line).getLast? = some last ∧
      (i.handle budget line s).1.bindings = last.bindings ∧
      ∀ r name, (i.handle budget line s).1.waiting = some (r, name) → r = last.run := by
  rw [handle_eq_resume h, moments, h]
  exact resume_eq_getLast? budget { i with bindings := m.bindings, waiting := none } m.run s.console

theorem save_fst (i : Interpreter) (argument : List Char) (s : Station) :
    (i.save argument s).1 = i := by
  unfold save
  split
  · rfl
  · dsimp only
    split <;> rfl

theorem load_fst (i : Interpreter) (argument : List Char) (s : Station) :
    (i.load argument s).1 = i ∨
      ∃ program, (i.load argument s).1 = { i with program, bindings := .empty } := by
  unfold load
  dsimp only
  split
  · exact .inl rfl
  split
  · exact .inl rfl
  · exact .inr ⟨_, rfl⟩

/-- Any other line leaves a waiting run as it is and assigns nothing. -/
theorem handle_of_not_begun (h : i.begun? line = none) (budget : Nat) (s : Station) :
    (i.handle budget line s).1.waiting = i.waiting ∧
      ((i.handle budget line s).1.bindings = i.bindings ∨
        (i.handle budget line s).1.bindings = .empty) := by
  obtain ⟨program, bindings, waiting⟩ := i
  cases waiting with
  | some wait =>
    obtain ⟨r, name⟩ := wait
    have hreply : reply? name line = none := Option.map_eq_none_iff.mp h
    simp [handle, takeReply, hreply]
  | none =>
    simp only [handle]
    unfold obey
    dsimp only
    split
    case isTrue => split <;> exact ⟨rfl, .inl rfl⟩
    case isFalse hnumbered =>
      split
      case isTrue => exact ⟨rfl, .inl rfl⟩
      case isFalse hline =>
        split
        case h_2 => exact ⟨rfl, .inl rfl⟩
        case h_1 command hcommand =>
          cases command with
          | list | help | quit => exact ⟨rfl, .inl rfl⟩
          | new | clear => exact ⟨rfl, .inr rfl⟩
          | save =>
            rw [perform, save_fst]
            exact ⟨rfl, .inl rfl⟩
          | load =>
            rw [perform]
            rcases load_fst ⟨program, bindings, none⟩ _ s with heq | ⟨loaded, heq⟩
            · rw [heq]
              exact ⟨rfl, .inl rfl⟩
            · rw [heq]
              exact ⟨rfl, .inr rfl⟩
          | run =>
            have hprogram : program.isEmpty = true := by
              simpa [begun?, hnumbered, hline, hcommand] using h
            simp [perform, run, hprogram]

/-- What holds of an interpreter between two lines of input. -/
structure Sound (i : Interpreter) : Prop where
  kinded : i.bindings.Kinded
  waiting : ∀ r name, i.waiting = some (r, name) → r.Sound

theorem isText_of_reply? {name : String} {x : Value} (h : reply? name line = some x) :
    x.isText = isTextName name := by
  unfold reply? at h
  split at h
  case isTrue hname =>
    rw [← Option.some.inj h, hname]
    rfl
  case isFalse hname =>
    obtain ⟨a, -, rfl⟩ := Option.map_eq_some_iff.mp h
    exact (Bool.eq_false_iff.mpr hname).symm

/-- A program is set going at a moment that is in order. -/
theorem Sound.begun (h : i.Sound) (hbegun : i.begun? line = some m) : m.Sound := by
  unfold begun? at hbegun
  split at hbegun
  case h_1 r name hwaiting =>
    obtain ⟨x, hx, rfl⟩ := Option.map_eq_some_iff.mp hbegun
    exact ⟨h.kinded.insert (isText_of_reply? hx), h.waiting r name hwaiting⟩
  case h_2 =>
    dsimp only at hbegun
    split at hbegun
    case isFalse => cases hbegun
    case isTrue =>
      obtain rfl := Option.some.inj hbegun
      exact ⟨Variables.kinded_empty, Run.sound_ofProgram i.program⟩

theorem Sound.moments (h : i.Sound) (budget : Nat) (line : List Char) :
    ∀ m ∈ i.moments budget line, m.Sound := by
  unfold Interpreter.moments
  split
  case h_1 => nofun
  case h_2 m hbegun => exact (h.begun hbegun).trail

theorem Sound.handle (h : i.Sound) (budget : Nat) (line : List Char) (s : Station) :
    (i.handle budget line s).1.Sound := by
  cases hbegun : i.begun? line with
  | none =>
    obtain ⟨hwaiting, hbindings⟩ := handle_of_not_begun hbegun budget s
    refine ⟨?_, hwaiting ▸ h.waiting⟩
    rcases hbindings with hsame | hempty
    · exact hsame ▸ h.kinded
    · exact hempty ▸ Variables.kinded_empty
  | some m =>
    obtain ⟨last, hlast, hbindings, hwaiting⟩ := handle_eq_getLast? hbegun budget s
    have hsound := h.moments budget line last (List.mem_of_getLast? hlast)
    refine ⟨hbindings ▸ hsound.kinded, fun r name heq => ?_⟩
    rw [hwaiting r name heq]
    exact hsound.run

theorem Reachable.sound (h : i.Reachable) : i.Sound := by
  induction h with
  | ofProgram => exact ⟨Variables.kinded_empty, nofun⟩
  | handle _ budget line s ih => exact ih.handle budget line s

/-- Whatever an interpreter is given to do, between any two lines of a program that it runs the
variables hold values of their kinds, the loops count in different variables for numbers, the
lines are in order, and everything the run can go on with lies within the program or right
behind it. So there is a line to execute unless the run has come to the end, and no loop ends in
a type mismatch. With every budget the interpreter comes to the last of these moments. -/
theorem run_keeps_order (h : i.Reachable) :
    i.bindings.Kinded ∧ (∀ r name, i.waiting = some (r, name) → r.Sound) ∧
      (∀ budget line, ∀ m ∈ i.moments budget line,
        m.bindings.Kinded ∧ m.run.Sound ∧
          (m.run.line? = none → m.run.index = m.run.lines.size) ∧
          ∀ s, (endLoop m.run m.bindings s).flow ≠ .error .typeMismatch) ∧
      ∀ budget line s, (i.begun? line).isSome →
        ∃ last, (i.moments budget line).getLast? = some last ∧
          (i.handle budget line s).1.bindings = last.bindings ∧
          ∀ r name, (i.handle budget line s).1.waiting = some (r, name) → r = last.run := by
  refine ⟨h.sound.kinded, h.sound.waiting, fun budget line m hm => ?_,
    fun budget line s hbegun => ?_⟩
  · have hsound := h.sound.moments budget line m hm
    refine ⟨hsound.kinded, hsound.run, fun hnone => ?_, flow_endLoop_ne hsound.run hsound.kinded⟩
    have hle := Array.getElem?_eq_none_iff.mp hnone
    exact Nat.le_antisymm hsound.run.index_le hle
  · obtain ⟨m, hm⟩ := Option.isSome_iff_exists.mp hbegun
    exact handle_eq_getLast? hm budget s

/-- A program that calls a subroutine at its end, which returns to behind the end. -/
def callAtEnd : Interpreter :=
  { program := (SortedMap.empty.insert 20 "RETURN".toList).insert 30 "GOSUB 20".toList }

theorem run_keeps_order_callAtEnd :
    callAtEnd.Reachable ∧ (callAtEnd.begun? "run".toList).isSome ∧
      ∀ m ∈ callAtEnd.moments 3 "run".toList, m.run.Sound := by
  have hreachable : callAtEnd.Reachable := .ofProgram _
  refine ⟨hreachable, by decide, fun m hm => ?_⟩
  exact ((run_keeps_order hreachable).2.2.1 3 _ m hm).2.1

end Interpreter

end Cpm80.Basic
