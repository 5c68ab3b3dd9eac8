import Cpm80.Proofs.FreshStart
import Cpm80.Proofs.NewNames

/-!
# Names on the drives of a session

The names that a session gives to files without looking at them are read off what is done with
it: those that its programs give by calls, the new names of renamings on the command line, and
those under which BASIC saves. If they all fit, a session whose drives start with short names has
nothing but short names on them, whatever else is done.
-/
namespace Cpm80

/-! ## Programs -/

namespace Computer

open FileName

variable {c d : Computer} {budget cost : Nat}

/-- Every name on every drive is short. -/
def Short (c : Computer) : Prop :=
  c.station.Short

/-- The name that the next action gives to a file, whether it fits or not. -/
def newName? (c : Computer) : Option String :=
  if c.cpu.halted = false ∧ c.cpu.pc = entryPoint then
    SystemCall.namedBy? c.cpu.c c.station.memory c.cpu.de
  else none

/-- The names that a run for a budget gives to files. -/
def given (budget : Nat) (c : Computer) : List String :=
  (List.range (c.used budget).instructions).filterMap fun i => (c.after i).newName?

theorem given_executed (hb : budget ≠ 0) (h : c.advance = (d, .executed cost)) :
    c.given budget = c.newName?.toList ++ d.given (budget - cost) := by
  have hlater : (fun i => (c.after i).newName?) ∘ Nat.succ = fun i => (d.after i).newName? := by
    funext i
    rw [Function.comp_apply, after, h]
  have hfirst : (c.after 0).newName? = c.newName? := rfl
  rw [given, given, used_executed hb h, Machine.Tally.instructions_add, Nat.add_comm,
    List.range_succ_eq_map, List.filterMap_cons, List.filterMap_map, hlater, hfirst]
  cases c.newName? <;> rfl

theorem short_serve (h : c.Short)
    (hname : ∀ name ∈ SystemCall.namedBy? c.cpu.c c.station.memory c.cpu.de, Fits name) :
    c.serve.Short := by
  obtain ⟨p, s⟩ := c
  have hperformed : (SystemCall.perform p.c p.de s).1.Short := SystemCall.short_perform h hname
  unfold serve
  dsimp only
  split
  case isTrue => exact hperformed
  case isFalse => exact hperformed

theorem short_executeInstruction (h : c.Short) : c.executeInstruction.1.Short := by
  obtain ⟨p, m, d, con, u⟩ := c
  exact h

theorem short_advance (h : c.Short) (hname : ∀ name ∈ c.newName?, Fits name) :
    c.advance.1.Short := by
  have hadvances := c.advances
  generalize c.advance = result at hadvances
  cases hadvances with
  | halted | waits => exact h
  | serves hrunning hpc hready =>
    rw [newName?, if_pos ⟨hrunning, hpc⟩] at hname
    exact short_serve h hname
  | executes => exact short_executeInstruction h

/-- A run that gives only names that fit leaves only short names. -/
theorem short_stop (h : c.Short) (hgiven : ∀ name ∈ c.given budget, Fits name) :
    (c.stop budget).Short := by
  induction budget, c using run_induction with
  | zero c =>
    rw [stop_zero]
    exact h
  | @executed budget cost c d hb hc ih =>
    rw [given_executed hb hc] at hgiven
    obtain ⟨hfirst, hrest⟩ := List.forall_mem_append.mp hgiven
    have hnext : c.advance.1.Short := by
      apply short_advance h
      intro name hname
      exact hfirst name (Option.mem_toList.mpr hname)
    rw [hc] at hnext
    rw [stop_executed hb hc]
    exact ih hnext hrest
  | halted hc =>
    rw [stop_halted hc]
    exact h
  | waiting hb hc =>
    rw [stop_waiting hc]
    exact h

end Computer

/-! ## Sessions -/

namespace Session

open FileName

/-- The names that a line gives to files when it is a command. -/
def givenByCommand (line : List Char) (budget : Nat) (s : Session) : List String :=
  match s.mode with
  | .commandLine =>
    let (st, outcome) := CommandLine.execute line s.computer.station
    (CommandLine.newName? s.computer.station.disk line).toList ++
      match outcome with
      | .run entry => ((⟨s.computer.cpu, st⟩ : Computer).start entry).given budget
      | _ => []
  | .basic i => (i.newName? line).toList
  | .editor _ | .exited _ => []

/-- The names that an operation gives to files without a look at them. -/
def given (s : Session) : Operation → List String
  | .run (some entry) budget => (s.computer.start entry).given budget
  | .run none budget => s.computer.given budget
  | .step => s.computer.newName?.toList
  | .command line budget => s.givenByCommand line budget
  | .enterLine line budget =>
    match s.mode with
    | .editor _ | .basic _ => s.givenByCommand line budget
    | .exited _ => []
    | .commandLine => if s.awaitingInput then (s.typeLine line).computer.given budget else []
  | _ => []

/-- The names that operations one after another give to files. -/
def givenIn (s : Session) : List Operation → List String
  | [] => []
  | o :: rest => s.given o ++ (s.perform o).givenIn rest

/-- Every name on every drive is short, and so is the one of the file in the editor. -/
structure Short (s : Session) : Prop where
  computer : s.computer.Short
  editor : ∀ e, s.mode = .editor e → isShort e.fileName = true

namespace Short

variable {s : Session} {budget : Nat} {line : List Char}

theorem printPrompt (h : s.Short) : s.printPrompt.Short := by
  obtain ⟨⟨p, st⟩, n, i, w, o, m⟩ := s
  unfold Session.printPrompt
  dsimp only
  split
  case h_1 prompt _ => exact ⟨Station.Short.print h.computer prompt, h.editor⟩
  case h_2 =>
    refine ⟨h.computer, ?_⟩
    rintro e ⟨⟩

theorem settlePrompt (h : s.Short) (halted : Bool) : (s.settlePrompt halted).Short := by
  unfold Session.settlePrompt
  split
  case isTrue =>
    apply printPrompt
    exact ⟨h.computer, h.editor⟩
  case isFalse => exact h

theorem resume (h : s.Short) (hgiven : ∀ name ∈ s.computer.given budget, Fits name) :
    (s.resume budget).1.Short := by
  rw [resume_fst]
  apply settlePrompt
  exact ⟨Computer.short_stop h.computer hgiven, h.editor⟩

theorem start (h : s.Short) (entry : UInt16) : (s.start entry).Short := by
  obtain ⟨⟨p, m, d, c, u⟩, n, i, w, o, mode⟩ := s
  exact ⟨h.computer, h.editor⟩

theorem reset (h : s.Short) : s.reset.Short := by
  obtain ⟨⟨p, m, d, c, u⟩, n, i, w, o, mode⟩ := s
  cases mode with
  | commandLine | editor | basic | exited => exact ⟨h.computer, fun e he => by cases he⟩

theorem load (h : s.Short) (a : UInt16) (bytes : List UInt8) : (s.load a bytes).1.Short := by
  obtain ⟨⟨p, m, d, c, u⟩, n, i, w, o, mode⟩ := s
  unfold Session.load
  dsimp only
  split
  case h_1 => exact ⟨h.computer, h.editor⟩
  case h_2 => exact ⟨h.computer, h.editor⟩

theorem assemble (h : s.Short) (source : List Char) (origin : UInt16) :
    (s.assemble source origin).1.Short := by
  unfold Session.assemble
  dsimp only
  generalize Assembly.ofText source origin = a
  have hcounted : (s.onStation fun st => st.onUsage fun u => u.addAssembly a.isOk).Short :=
    ⟨h.computer, h.editor⟩
  have hloaded := hcounted.load a.origin a.image.toList
  split
  case isTrue =>
    split
    case h_1 hdone =>
      rw [hdone] at hloaded
      exact hloaded
    case h_2 hrefused =>
      rw [hrefused] at hloaded
      exact hloaded
  case isFalse => exact hcounted

theorem step (h : s.Short) (hname : ∀ name ∈ s.computer.newName?, Fits name) :
    s.step.1.Short := by
  obtain ⟨c, n, i, w, o, m⟩ := s
  have hnext : c.advance.1.Short := Computer.short_advance h.computer hname
  unfold Session.step
  dsimp only
  split
  case h_1 hc | h_2 hc | h_3 hc =>
    rw [hc] at hnext
    exact ⟨hnext, h.editor⟩

theorem follow (h : s.Short) {outcome : CommandOutcome}
    (hedit : ∀ drive name, outcome = .edit drive name → isShort name = true)
    (hrun : ∀ entry, outcome = .run entry →
      ∀ name ∈ (s.computer.start entry).given budget, Fits name) :
    (s.follow outcome budget).1.Short := by
  cases outcome with
  | done => exact h.printPrompt
  | noLetter => exact ⟨h.computer, fun e he => by cases he⟩
  | run entry =>
    have hstarted : Short { s.start entry with owesPrompt := true } :=
      ⟨(h.start entry).computer, (h.start entry).editor⟩
    exact hstarted.resume (hrun entry rfl)
  | edit drive name =>
    obtain ⟨⟨p, st⟩, n, i, w, o, m⟩ := s
    refine ⟨LineEditor.short_start h.computer drive name, ?_⟩
    rintro e ⟨⟩
    exact hedit drive name rfl
  | basic =>
    obtain ⟨⟨p, st⟩, n, i, w, o, m⟩ := s
    exact ⟨Basic.Interpreter.short_start h.computer, fun e he => by cases he⟩
  | exit => exact ⟨h.computer, fun e he => by cases he⟩

theorem command (h : s.Short) (hgiven : ∀ name ∈ s.givenByCommand line budget, Fits name) :
    (s.command line budget).1.Short := by
  obtain ⟨⟨p, st⟩, n, i, w, o, m⟩ := s
  cases m with
  | exited why => exact h
  | commandLine =>
    -- a line may rename a file, or start a program that gives names of its own
    obtain ⟨hfirst, hrest⟩ := List.forall_mem_append.mp hgiven
    have hobeyed : Short ⟨⟨p, (CommandLine.execute line st).1⟩, n, i, w, o, .commandLine⟩ := by
      refine ⟨CommandLine.short_execute h.computer fun name hname => ?_, h.editor⟩
      exact hfirst name (Option.mem_toList.mpr hname)
    apply hobeyed.follow
    · intro drive name houtcome
      exact CommandLine.isShort_of_execute houtcome
    · intro entry houtcome
      rw [houtcome] at hrest
      exact hrest
  | editor e =>
    obtain ⟨hhandled, hfile⟩ := LineEditor.short_handle h.computer (h.editor e rfl) line
    simp only [Session.command]
    split
    case h_1 e' st' hresult =>
      rw [hresult] at hhandled hfile
      refine ⟨hhandled, ?_⟩
      rintro f ⟨⟩
      rw [hfile]
      exact h.editor e rfl
    case h_2 e' st' hresult =>
      rw [hresult] at hhandled
      have hleft : Short ⟨⟨p, st'⟩, n, i, w, o, .commandLine⟩ :=
        ⟨hhandled, fun f hf => by cases hf⟩
      exact hleft.printPrompt
  | basic b =>
    have hhandled : (b.handle budget line st).2.1.Short := by
      apply Basic.Interpreter.short_handle h.computer
      intro name hname
      exact hgiven name (Option.mem_toList.mpr hname)
    simp only [Session.command]
    split
    case h_1 b' st' hresult =>
      rw [hresult] at hhandled
      have hleft : Short ⟨⟨p, st'⟩, n, i, w, o, .commandLine⟩ :=
        ⟨hhandled, fun f hf => by cases hf⟩
      exact hleft.printPrompt
    case h_2 b' st' hresult | h_3 b' st' status _ _ hresult =>
      rw [hresult] at hhandled
      exact ⟨hhandled, fun f hf => by cases hf⟩

theorem enterLine (h : s.Short)
    (hgiven : ∀ name ∈ s.given (.enterLine line budget), Fits name) :
    (s.enterLine line budget).1.Short := by
  unfold Session.enterLine
  simp only [given] at hgiven
  split
  case h_1 hmode | h_2 hmode =>
    rw [hmode] at hgiven
    exact h.command hgiven
  case h_3 => exact h
  case h_4 hmode =>
    rw [hmode] at hgiven
    have htyped : (s.typeLine line).Short := ⟨h.computer, h.editor⟩
    have hawaiting : (s.typeLine line).awaitingInput = s.awaitingInput := rfl
    dsimp only
    split
    case isTrue hwaits =>
      rw [hawaiting] at hwaits
      simp only [hwaits, if_true] at hgiven
      exact htyped.resume hgiven
    case isFalse => exact htyped

theorem perform (h : s.Short) {o : Operation}
    (houtside : ∀ f, o = .changeDisk f → ∀ d : DiskSystem, d.Short → (f d).Short)
    (hgiven : ∀ name ∈ s.given o, Fits name) : (s.perform o).Short := by
  cases o with
  | reset => exact h.reset
  | load a bytes => exact h.load a bytes
  | assemble source origin => exact h.assemble source origin
  | run entry budget =>
    cases entry with
    | none => exact h.resume hgiven
    | some entry => exact (h.start entry).resume hgiven
  | step => exact h.step fun name hname => hgiven name (Option.mem_toList.mpr hname)
  | enterLine line budget => exact h.enterLine hgiven
  | command line budget => exact h.command hgiven
  | changeDisk f => exact ⟨houtside f rfl _ h.computer, h.editor⟩
  | type | typeLine | takeOutput | takeUsage | setRegisters => exact ⟨h.computer, h.editor⟩

theorem after (h : s.Short) {operations : List Operation}
    (houtside : ∀ f, .changeDisk f ∈ operations → ∀ d : DiskSystem, d.Short → (f d).Short)
    (hgiven : ∀ name ∈ s.givenIn operations, Fits name) : (s.after operations).Short := by
  induction operations generalizing s with
  | nil => exact h
  | cons o rest ih =>
    obtain ⟨hfirst, hrest⟩ := List.forall_mem_append.mp hgiven
    have hnext : (s.perform o).Short := by
      apply h.perform _ hfirst
      rintro f rfl
      exact houtside f List.mem_cons_self
    exact ih hnext (fun f hf => houtside f (List.mem_cons_of_mem _ hf)) hrest

end Short

theorem short_ofDrives {drives : List Drive} (h : ∀ drive ∈ drives, drive.Short) :
    (ofDrives drives).Short := by
  apply Short.printPrompt
  exact ⟨h, fun e he => by cases he⟩

/-- Whatever is done with a session whose drives start with short names, every name on them stays
short, if all the names fit that its programs give by making and renaming files, that are given by
renaming on the command line, and that BASIC saves under, and if nobody puts another name on them
from outside. Whatever the command line, the editor and the programs do otherwise adds only short
names. -/
theorem names_stay_short {drives : List Drive} (h : ∀ drive ∈ drives, drive.Short)
    {operations : List Operation}
    (houtside : ∀ f, .changeDisk f ∈ operations → ∀ d : DiskSystem, d.Short → (f d).Short)
    (hgiven : ∀ name ∈ (ofDrives drives).givenIn operations, Fits name) :
    ∀ drive ∈ ((ofDrives drives).after operations).drives, ∀ name ∈ drive.list,
      isShort name = true :=
  ((short_ofDrives h).after houtside hgiven).computer

/-- Has the processor perform a system call on the file control block at `fcb`, which holds
`bytes`. -/
def callingOn (function : UInt8) (fcb : UInt16) (bytes : List UInt8) : List Operation :=
  [.load fcb bytes,
    .setRegisters { Processor.initial with
      pc := Computer.entryPoint, c := function, d := highByte fcb, e := lowByte fcb },
    .step]

/-- A session that makes files in all the ways there are, from a source that it starts with. -/
def diligent : List Operation :=
  callingOn 22 0x005C (0 :: FileName.padded "made.txt") ++
    [.command "REN x.y=MADE.TXT".toList 0, .command "ASM HLT".toList 0,
      .command "SAVE 1 page.com".toList 0, .command "ED list".toList 0, .command "S".toList 0,
      .command "Q".toList 0, .command "BASIC".toList 0, .command "SAVE loops".toList 0]

def diligentDrives : List Drive :=
  [.memory (.ofList [("HLT.ASM", (Utf8.encode "HLT\n".toList).toArray)])]

theorem names_stay_short_diligent :
    let s := (ofDrives diligentDrives).after diligent
    s.drives.map Drive.list = [["HLT.ASM", "HLT.COM", "LIST", "LOOPS.BAS", "PAGE.COM", "X.Y"]] ∧
      ∀ drive ∈ s.drives, ∀ name ∈ drive.list, isShort name = true := by
  have hstart : ∀ drive ∈ diligentDrives, drive.Short := by decide +kernel
  have hgiven : ∀ name ∈ (ofDrives diligentDrives).givenIn diligent, Fits name := by
    decide +kernel
  intro s
  refine ⟨by decide +kernel, names_stay_short hstart ?_ hgiven⟩
  intro f hf
  simp [diligent, callingOn] at hf

/-- Other names get onto a drive too: a wildcard by a call that makes a file and a blank by one
that renames it, and names that are too long by renaming and by saving from BASIC. -/
theorem exists_long_names :
    ∃ drive : Drive, drive.list = ["A.TXT"] ∧ drive.Short ∧
      ∀ ending ∈ [(callingOn 22 0x005C (0 :: FileName.padded "A?.TXT"), "A?.TXT"),
          (callingOn 23 0x005C (0 :: (FileName.padded "A.TXT" ++ 0 :: 0 :: 0 :: 0 :: 0 ::
            FileName.padded "A B.TXT")), "A B.TXT"),
          ([.command "REN notes.text=a.txt".toList 0], "NOTES.TEXT"),
          ([.command "BASIC".toList 0, .command "SAVE longfilename".toList 0],
            "LONGFILENAME.BAS")],
        (((ofDrives [drive]).after ending.1).drives.any fun left => left.list.contains ending.2) ∧
          isShort ending.2 = false :=
  ⟨.memory (.ofList [("A.TXT", #[1])]), by decide +kernel, by decide +kernel,
    by decide +kernel⟩

end Session

end Cpm80
