import Cpm80.Computer

/-!
# Runs of a computer

What one action can be, and how the actions of a run follow on each other: a run for a budget
that ends early or overshoots can be taken up again where it stopped, and the two parts are
the run for the cycles used in the first part and the budget of the second together.
-/
namespace Cpm80

namespace Computer

/-- What one action does, by the reasons for it. -/
inductive Advances (c : Computer) : Computer × Progress → Prop
  | halted (hhalted : c.cpu.halted = true) : Advances c (c, .halted)
  | waits (hrunning : c.cpu.halted = false) (hpc : c.cpu.pc = entryPoint)
      (hwaits : waitsForInput c.cpu.c c.station.console = true) : Advances c (c, .waiting)
  | serves (hrunning : c.cpu.halted = false) (hpc : c.cpu.pc = entryPoint)
      (hready : waitsForInput c.cpu.c c.station.console = false) :
      Advances c (c.serve, .executed callCost)
  | executes (hrunning : c.cpu.halted = false) (hpc : c.cpu.pc ≠ entryPoint) :
      Advances c (c.executeInstruction.1, .executed c.executeInstruction.2)

theorem advances (c : Computer) : c.Advances c.advance := by
  unfold advance
  split
  · next hhalted => exact .halted hhalted
  · next hrunning =>
    have hrunning := Bool.eq_false_iff.mpr hrunning
    split
    · next hpc =>
      split
      · next hwaits => exact .waits hrunning hpc hwaits
      · next hready => exact .serves hrunning hpc (Bool.eq_false_iff.mpr hready)
    · next hpc => exact .executes hrunning hpc

theorem advances_of_eq {c : Computer} {result : Computer × Progress}
    (h : c.advance = result) : c.Advances result :=
  h ▸ c.advances

/-- A call that has to wait changes nothing. -/
theorem eq_of_advance_waiting {c d : Computer} (h : c.advance = (d, .waiting)) : d = c := by
  cases advances_of_eq h
  rfl

theorem eq_of_advance_halted {c d : Computer} (h : c.advance = (d, .halted)) : d = c := by
  cases advances_of_eq h
  rfl

theorem halted_of_advance_halted {c d : Computer} (h : c.advance = (d, .halted)) :
    c.cpu.halted = true := by
  cases advances_of_eq h with
  | halted hhalted => exact hhalted

theorem waits_of_advance_waiting {c d : Computer} (h : c.advance = (d, .waiting)) :
    c.cpu.halted = false ∧ c.cpu.pc = entryPoint ∧
      waitsForInput c.cpu.c c.station.console = true := by
  cases advances_of_eq h with
  | waits hrunning hpc hwaits => exact ⟨hrunning, hpc, hwaits⟩

theorem advance_of_halted {c : Computer} (h : c.cpu.halted = true) :
    c.advance = (c, .halted) := by
  simp [advance, h]

end Computer

/-- What two stretches amount to together. -/
def Machine.Tally.add (t u : Tally) : Tally :=
  ⟨t.instructions + u.instructions, t.cycles + u.cycles⟩

theorem Machine.Tally.add_assoc (t u v : Tally) : (t.add u).add v = t.add (u.add v) := by
  simp [add, Nat.add_assoc]

@[simp] theorem Machine.Tally.empty_add (t : Tally) : Tally.add {} t = t := by
  simp [add]

@[simp] theorem Machine.Tally.cycles_add (t u : Tally) :
    (t.add u).cycles = t.cycles + u.cycles := rfl

@[simp] theorem Machine.Tally.instructions_add (t u : Tally) :
    (t.add u).instructions = t.instructions + u.instructions := rfl

namespace Computer

/-! ## A run action by action -/

/-- The actions of a run one after another, as far as its budget allows. -/
theorem run_induction {motive : Nat → Computer → Prop} (zero : ∀ c, motive 0 c)
    (executed : ∀ {budget cost c d}, budget ≠ 0 → c.advance = (d, .executed cost) →
      motive (budget - cost) d → motive budget c)
    (halted : ∀ {budget c}, c.advance = (c, .halted) → motive budget c)
    (waiting : ∀ {budget c}, budget ≠ 0 → c.advance = (c, .waiting) → motive budget c)
    (budget : Nat) (c : Computer) : motive budget c := by
  induction budget using Nat.strongRecOn generalizing c with
  | _ budget ih =>
    by_cases hb : budget = 0
    · exact hb ▸ zero c
    · match hc : c.advance with
      | (d, .executed cost) =>
        have hpos := cost_pos hc
        exact executed hb hc (ih (budget - cost) (by omega) d)
      | (d, .halted) =>
        obtain rfl := eq_of_advance_halted hc
        exact halted hc
      | (d, .waiting) =>
        obtain rfl := eq_of_advance_waiting hc
        exact waiting hb hc

variable {c d : Computer} {t : Machine.Tally} {budget cost : Nat}

theorem run_zero (c : Computer) (t : Machine.Tally) : c.run 0 t = (c, t, false) := by
  rw [run, dif_pos rfl]

theorem run_executed (hb : budget ≠ 0) (h : c.advance = (d, .executed cost)) :
    c.run budget t = d.run (budget - cost) (t.add ⟨1, cost⟩) := by
  rw [run, dif_neg hb]
  split <;> simp_all [Machine.Tally.add]

theorem run_halted (h : c.advance = (c, .halted)) : c.run budget t = (c, t, false) := by
  rw [run]
  split
  · rfl
  · split <;> simp_all

theorem run_waiting (hb : budget ≠ 0) (h : c.advance = (c, .waiting)) :
    c.run budget t = (c, t, true) := by
  rw [run, dif_neg hb]
  split <;> simp_all

/-- Where a run for a budget stops. -/
def stop (budget : Nat) (c : Computer) : Computer := (c.run budget {}).1

/-- What a run for a budget amounts to. -/
def used (budget : Nat) (c : Computer) : Machine.Tally := (c.run budget {}).2.1

/-- Whether a run for a budget stops at a call that has to wait. -/
def parks (budget : Nat) (c : Computer) : Bool := (c.run budget {}).2.2

/-- The tally so far is only ever added to. -/
theorem run_eq (budget : Nat) (c : Computer) (t : Machine.Tally) :
    c.run budget t = (c.stop budget, t.add (c.used budget), c.parks budget) := by
  suffices ∀ t u : Machine.Tally, c.run budget (t.add u) =
      ((c.run budget u).1, t.add (c.run budget u).2.1, (c.run budget u).2.2) from
    this t {}
  induction budget, c using run_induction with
  | zero c => simp [run_zero]
  | executed hb hc ih =>
    intro t u
    rw [run_executed hb hc, run_executed hb hc, Machine.Tally.add_assoc, ih]
  | halted hc => simp [run_halted hc]
  | waiting hb hc => simp [run_waiting hb hc]

@[simp] theorem stop_zero : c.stop 0 = c := by simp [stop, run_zero]
@[simp] theorem used_zero : c.used 0 = {} := by simp [used, run_zero]
@[simp] theorem parks_zero : c.parks 0 = false := by simp [parks, run_zero]

theorem stop_executed (hb : budget ≠ 0) (h : c.advance = (d, .executed cost)) :
    c.stop budget = d.stop (budget - cost) := by
  rw [stop, run_executed hb h, run_eq]

theorem used_executed (hb : budget ≠ 0) (h : c.advance = (d, .executed cost)) :
    c.used budget = Machine.Tally.add ⟨1, cost⟩ (d.used (budget - cost)) := by
  rw [used, run_executed hb h, run_eq]
  simp

theorem parks_executed (hb : budget ≠ 0) (h : c.advance = (d, .executed cost)) :
    c.parks budget = d.parks (budget - cost) := by
  rw [parks, run_executed hb h, run_eq]

theorem stop_halted (h : c.advance = (c, .halted)) : c.stop budget = c := by
  rw [stop, run_halted h]

theorem used_halted (h : c.advance = (c, .halted)) : c.used budget = {} := by
  rw [used, run_halted h]

theorem parks_halted (h : c.advance = (c, .halted)) : c.parks budget = false := by
  rw [parks, run_halted h]

theorem stop_waiting (h : c.advance = (c, .waiting)) : c.stop budget = c := by
  by_cases hb : budget = 0
  · simp [hb]
  · rw [stop, run_waiting hb h]

theorem used_waiting (h : c.advance = (c, .waiting)) : c.used budget = {} := by
  by_cases hb : budget = 0
  · simp [hb]
  · rw [used, run_waiting hb h]

theorem parks_waiting (hb : budget ≠ 0) (h : c.advance = (c, .waiting)) :
    c.parks budget = true := by
  rw [parks, run_waiting hb h]

/-! ## Cutting a run -/

/-- A run can be cut after any budget: the rest goes on from where the first part stopped, and
the whole is the run for the cycles of the first part and the budget of the rest. -/
theorem run_add (budget more : Nat) (c : Computer) :
    c.stop ((c.used budget).cycles + more) = (c.stop budget).stop more ∧
      c.used ((c.used budget).cycles + more) =
        (c.used budget).add ((c.stop budget).used more) ∧
      c.parks ((c.used budget).cycles + more) = (c.stop budget).parks more := by
  induction budget, c using run_induction with
  | zero c => simp
  | @executed budget cost c d hb hc ih =>
    have hpos := cost_pos hc
    rw [used_executed hb hc, stop_executed hb hc, Machine.Tally.cycles_add]
    have hne : cost + (d.used (budget - cost)).cycles + more ≠ 0 := by omega
    have hsub : cost + (d.used (budget - cost)).cycles + more - cost =
        (d.used (budget - cost)).cycles + more := by omega
    rw [stop_executed hne hc, used_executed hne hc, parks_executed hne hc, hsub, ih.1, ih.2.1,
      ih.2.2, Machine.Tally.add_assoc]
    exact ⟨rfl, rfl, rfl⟩
  | halted hc => simp [stop_halted hc, used_halted hc, parks_halted hc]
  | waiting hb hc => simp [stop_waiting hc, used_waiting hc]

/-- A run for just the cycles that a run has used stops at the same place and asks for
nothing more. -/
theorem run_used (budget : Nat) (c : Computer) :
    c.stop (c.used budget).cycles = c.stop budget ∧
      c.used (c.used budget).cycles = c.used budget ∧
      c.parks (c.used budget).cycles = false := by
  obtain ⟨hstop, hused, hparks⟩ := run_add budget 0 c
  refine ⟨by simpa using hstop, ?_, by simpa using hparks⟩
  rw [Nat.add_zero, used_zero] at hused
  exact hused

/-- A run that parks stops right in front of a call that has to wait. -/
theorem advance_stop_of_parks (h : c.parks budget = true) :
    (c.stop budget).advance = (c.stop budget, .waiting) := by
  induction budget, c using run_induction with
  | zero c => simp at h
  | executed hb hc ih =>
    rw [parks_executed hb hc] at h
    rw [stop_executed hb hc]
    exact ih h
  | halted hc => simp [parks_halted hc] at h
  | waiting hb hc =>
    rw [stop_waiting hc]
    exact hc

end Computer

end Cpm80
