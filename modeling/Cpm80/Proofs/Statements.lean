import Cpm80.Basic.Interpreter
import Cpm80.Proofs.Expressions
import Mathlib.Data.List.TakeWhile

/-!
# What statements preserve

A run is sound if its lines are in order, everything it can go on with lies within the program
or right behind it, and its loops count in different variables for numbers. Every statement
keeps that, and leaves every variable with a value of the kind that its name asks for, whether
it succeeds or fails.
-/
namespace Cpm80.Basic

/-- Every variable holds a value of the kind that its name asks for. -/
def Variables.Kinded (v : Variables) : Prop :=
  ∀ name x, v.get? name = some x → x.isText = isTextName name

/-- What holds of a run between any two statements. -/
structure Run.Sound (r : Run) : Prop where
  ascending : Ascending r.lines.toList
  index_le : r.index ≤ r.lines.size
  returns_le : ∀ index ∈ r.returns, index ≤ r.lines.size
  body_le : ∀ l ∈ r.loops, l.body ≤ r.lines.size
  nodup_counters : (r.loops.map Loop.counter).Nodup
  isTextName_counter : ∀ l ∈ r.loops, isTextName l.counter = false

/-- What executing a line of a run leads to: a sound run at the same line of the same program,
which goes on within it. -/
structure Outcome.Keeps (o : Outcome) (r : Run) : Prop where
  kinded : o.bindings.Kinded
  sound : o.run.Sound
  lines_eq : o.run.lines = r.lines
  index_eq : o.run.index = r.index
  jump_le : ∀ index, o.flow = .ok (.jump index) → index ≤ r.lines.size

variable {r : Run} {v : Variables} {s : List Char} {name : String} {x : Value} {o : Outcome}

namespace Variables

theorem kinded_empty : Kinded .empty := by
  intro name x hx
  cases hx

theorem Kinded.insert (h : v.Kinded) (hx : x.isText = isTextName name) :
    Kinded (v.insert name x) := by
  intro other y hy
  rw [SortedMap.get?_insert] at hy
  split at hy
  case isTrue heq => rw [← heq, ← Option.some.inj hy, hx]
  case isFalse => exact h other y hy

/-- A variable for numbers can be counted on in. -/
theorem Kinded.toNumber_value (h : v.Kinded) (hname : isTextName name = false) :
    ∃ a, (v.value name).toNumber = .ok a := by
  rw [value, hname]
  cases hget : v.get? name with
  | none => exact ⟨0, rfl⟩
  | some x =>
    cases x with
    | number a => exact ⟨a, rfl⟩
    | text s => cases (h name _ hget).trans hname

end Variables

namespace Run

theorem find?_lt {number index : Nat} (h : r.find? number = some index) :
    index < r.lines.size :=
  (Array.findIdx?_eq_some_iff_findIdx_eq.mp h).1

theorem jumpTo_le {number index : Nat} (h : r.jumpTo number = .ok (.jump index)) :
    index ≤ r.lines.size := by
  unfold jumpTo at h
  split at h
  case h_1 found hfound =>
    obtain rfl : found = index := Flow.jump.inj (Except.ok.inj h)
    exact Nat.le_of_lt (find?_lt hfound)
  case h_2 => cases h

/-- A program is run from its first line. -/
theorem sound_ofProgram (p : Program) : (ofProgram p).Sound where
  ascending := p.ascending
  index_le := Nat.zero_le _
  returns_le := by simp [ofProgram]
  body_le := by simp [ofProgram]
  nodup_counters := List.nodup_nil
  isTextName_counter := by simp [ofProgram]

theorem Sound.moved (h : r.Sound) {index : Nat} (hindex : index ≤ r.lines.size) :
    Sound { r with index } :=
  { h with index_le := hindex }

theorem Sound.calling (h : r.Sound) (hindex : r.index < r.lines.size) :
    Sound { r with returns := (r.index + 1) :: r.returns } :=
  { h with
    returns_le := by
      intro index hmem
      rcases List.mem_cons.mp hmem with rfl | hmem
      · exact hindex
      · exact h.returns_le index hmem }

theorem Sound.returning (h : r.Sound) {index : Nat} {returns : List Nat}
    (hreturns : r.returns = index :: returns) : Sound { r with returns } :=
  { h with
    returns_le := fun i hi => h.returns_le i (hreturns ▸ List.mem_cons_of_mem _ hi) }

/-- Loops can be left in any way. -/
theorem Sound.leaving (h : r.Sound) {loops : List Loop} (hloops : loops.Sublist r.loops) :
    Sound { r with loops } :=
  { h with
    body_le := fun l hl => h.body_le l (hloops.subset hl)
    nodup_counters := h.nodup_counters.sublist (hloops.map _)
    isTextName_counter := fun l hl => h.isTextName_counter l (hloops.subset hl) }

theorem Sound.entering (h : r.Sound) {l : Loop} (hbody : l.body ≤ r.lines.size)
    (hname : isTextName l.counter = false) (hnew : ∀ k ∈ r.loops, k.counter ≠ l.counter) :
    Sound { r with loops := l :: r.loops } :=
  { h with
    body_le := by
      intro k hk
      rcases List.mem_cons.mp hk with rfl | hk
      · exact hbody
      · exact h.body_le k hk
    nodup_counters := by
      refine List.nodup_cons.mpr ⟨fun hmem => ?_, h.nodup_counters⟩
      obtain ⟨k, hk, hcounter⟩ := List.mem_map.mp hmem
      exact hnew k hk hcounter
    isTextName_counter := by
      intro k hk
      rcases List.mem_cons.mp hk with rfl | hk
      · exact hname
      · exact h.isTextName_counter k hk }

theorem Sound.keeps_goes (hr : r.Sound) (hv : v.Kinded) {flow : Except Fault Flow}
    (hflow : ∀ index, flow = .ok (.jump index) → index ≤ r.lines.size) :
    (r.goes v flow).Keeps r :=
  ⟨hv, hr, rfl, rfl, hflow⟩

theorem Sound.keeps_next (hr : r.Sound) (hv : v.Kinded) : (r.goes v (.ok .next)).Keeps r :=
  hr.keeps_goes hv nofun

theorem Sound.keeps_stop (hr : r.Sound) (hv : v.Kinded) : (r.goes v (.ok .stop)).Keeps r :=
  hr.keeps_goes hv nofun

theorem Sound.keeps_jump (hr : r.Sound) (hv : v.Kinded) {index : Nat}
    (hindex : index ≤ r.lines.size) : (r.goes v (.ok (.jump index))).Keeps r :=
  hr.keeps_goes hv fun _ heq => Flow.jump.inj (Except.ok.inj heq) ▸ hindex

theorem Sound.keeps_fails (hr : r.Sound) (hv : v.Kinded) (fault : Fault) :
    (r.fails v fault).Keeps r :=
  hr.keeps_goes hv nofun

end Run

theorem Outcome.Keeps.congr {q : Run} (h : o.Keeps q) (hlines : q.lines = r.lines)
    (hindex : q.index = r.index) : o.Keeps r :=
  ⟨h.kinded, h.sound, h.lines_eq.trans hlines, h.index_eq.trans hindex, hlines ▸ h.jump_le⟩

theorem Outcome.Keeps.endingAt (h : o.Keeps r) (rest : List Char) :
    (o.endingAt rest).Keeps r := by
  unfold Outcome.endingAt
  split
  · exact h
  · exact { h with jump_le := nofun }

/-! ## Loops -/

theorem outside_sublist (counter : String) (loops : List Loop) :
    (outside counter loops).Sublist loops := by
  unfold outside
  split
  case h_1 => exact List.Sublist.refl loops
  case h_2 l outer hdrop =>
    exact (List.sublist_cons_self l outer).trans (hdrop ▸ List.dropWhile_sublist _)

/-- No loop outside the one with a counter has that counter. -/
theorem counter_ne_of_mem_outside {counter : String} {loops : List Loop}
    (h : (loops.map Loop.counter).Nodup) : ∀ l ∈ outside counter loops, l.counter ≠ counter := by
  unfold outside
  split
  case h_1 hdrop =>
    intro l hl
    exact of_decide_eq_true (List.dropWhile_eq_nil_iff.mp hdrop l hl)
  case h_2 first outer hdrop =>
    have hfirst : first.counter = counter := by
      have hnot := List.head?_dropWhile_not (fun l : Loop => decide (l.counter ≠ counter)) loops
      rw [hdrop] at hnot
      simpa using hnot
    have hsublist : (first :: outer).Sublist loops := hdrop ▸ List.dropWhile_sublist _
    have hnodup := h.sublist (hsublist.map Loop.counter)
    intro l hl heq
    exact (List.nodup_cons.mp hnodup).1 (hfirst ▸ heq ▸ List.mem_map_of_mem hl)

theorem isTextName_of_loopHead {counter : String} {first bound step : Float}
    {rest : List Char} (h : loopHead v s = .ok (counter, first, bound, step, rest)) :
    isTextName counter = false := by
  unfold loopHead at h
  split at h
  · cases h
  split at h
  · cases h
  obtain ⟨_, -, h⟩ := Assembler.bind_eq_ok.mp h
  obtain ⟨_, -, h⟩ := Assembler.bind_eq_ok.mp h
  obtain ⟨_, -, h⟩ := Assembler.bind_eq_ok.mp h
  dsimp only at h
  split at h
  case isTrue => cases h
  case isFalse hname =>
    obtain ⟨rfl, -⟩ := Prod.mk.inj (Except.ok.inj h)
    exact Bool.eq_false_iff.mpr hname

/-! ## Statements -/

theorem print_keeps (hr : r.Sound) (hv : v.Kinded) (s : List Char) : (print r v s).Keeps r := by
  unfold print
  split
  · exact ⟨hv, hr, rfl, rfl, nofun⟩
  · exact hr.keeps_fails hv _

theorem kinded_of_assignment (hv : v.Kinded) {w : Variables} {rest : List Char}
    (h : assignment v s = .ok (w, rest)) : w.Kinded := by
  unfold assignment at h
  split at h
  · cases h
  split at h
  · cases h
  split at h
  · cases h
  split at h
  case isFalse => cases h
  case isTrue hkind =>
    obtain ⟨rfl, -⟩ := Prod.mk.inj (Except.ok.inj h)
    exact hv.insert hkind.symm

theorem assign_keeps (hr : r.Sound) (hv : v.Kinded) (s : List Char) : (assign r v s).Keeps r := by
  unfold assign
  split
  case h_1 => exact hr.keeps_fails hv _
  case h_2 w rest h =>
    exact (hr.keeps_next (kinded_of_assignment hv h)).endingAt rest

theorem input_keeps (hr : r.Sound) (hv : v.Kinded) (s : List Char) : (input r v s).Keeps r := by
  unfold input
  rcases inputPrompt? s with _ | ⟨text, rest⟩
  · exact hr.keeps_fails hv _
  dsimp only
  rcases identifier? rest with _ | ⟨name, rest, hshorter⟩
  · exact hr.keeps_fails hv _
  dsimp only
  cases isEnd rest with
  | true => exact ⟨hv, hr, rfl, rfl, nofun⟩
  | false => exact hr.keeps_fails hv _

theorem goto_keeps (hr : r.Sound) (hv : v.Kinded) (s : List Char) : (goto r v s).Keeps r := by
  unfold goto
  split
  · exact hr.keeps_fails hv _
  split
  case h_1 => exact hr.keeps_fails hv _
  case h_2 flow hflow =>
    refine (hr.keeps_goes hv fun index heq => ?_).endingAt _
    exact Run.jumpTo_le (hflow.trans heq)

theorem gosub_keeps (hr : r.Sound) (hv : v.Kinded) (hindex : r.index < r.lines.size)
    (s : List Char) : (gosub r v s).Keeps r :=
  (goto_keeps (hr.calling hindex) hv s).congr rfl rfl

theorem goBack_keeps (hr : r.Sound) (hv : v.Kinded) (s : List Char) : (goBack r v s).Keeps r := by
  unfold goBack
  split
  case h_1 => exact hr.keeps_fails hv _
  case h_2 index returns hreturns =>
    have hle : index ≤ r.lines.size := hr.returns_le index (hreturns ▸ List.mem_cons_self)
    have hback : Outcome.Keeps _ r := ((hr.returning hreturns).keeps_jump hv hle).congr rfl rfl
    exact hback.endingAt s

theorem enterLoop_keeps (hr : r.Sound) (hv : v.Kinded) (hindex : r.index < r.lines.size)
    (s : List Char) : (enterLoop r v s).Keeps r := by
  unfold enterLoop
  split
  case h_1 => exact hr.keeps_fails hv _
  case h_2 counter first bound step rest hhead =>
    have hname := isTextName_of_loopHead hhead
    have houtside : Run.Sound { r with loops := outside counter r.loops } :=
      hr.leaving (outside_sublist counter r.loops)
    have hentered := houtside.entering (l := ⟨counter, bound, step, r.index + 1⟩) hindex hname
      (counter_ne_of_mem_outside hr.nodup_counters)
    have hcounter := hv.insert (x := .number first) hname.symm
    have hnext : Outcome.Keeps _ r := (hentered.keeps_next hcounter).congr rfl rfl
    exact hnext.endingAt rest

theorem countOn_keeps (hr : r.Sound) (hv : v.Kinded) (rest : List Char) {loops : List Loop}
    (hloops : loops.Sublist r.loops) : (countOn r v rest loops).Keeps r := by
  unfold countOn
  split
  case h_1 => exact hr.keeps_fails hv _
  case h_2 l outer =>
    have hmem : l ∈ r.loops := hloops.subset List.mem_cons_self
    have houter : outer.Sublist r.loops := (List.sublist_cons_self l outer).trans hloops
    split
    case h_1 => exact hr.keeps_fails hv _
    case h_2 a ha =>
      have hcounted := hv.insert (x := .number (a + l.step)) (hr.isTextName_counter l hmem).symm
      dsimp only
      apply Outcome.Keeps.endingAt
      split
      case isTrue =>
        have hagain := (hr.leaving hloops).keeps_jump hcounted (hr.body_le l hmem)
        exact hagain.congr rfl rfl
      case isFalse =>
        have hnext := (hr.leaving houter).keeps_next hcounted
        exact hnext.congr rfl rfl

theorem endLoop_keeps (hr : r.Sound) (hv : v.Kinded) (s : List Char) :
    (endLoop r v s).Keeps r := by
  unfold endLoop
  split
  · exact countOn_keeps hr hv s (List.Sublist.refl _)
  · exact countOn_keeps hr hv _ (List.dropWhile_sublist _)

/-- A statement within a condition is executed at the same line. -/
theorem execute_keeps (hr : r.Sound) (hv : v.Kinded) (hindex : r.index < r.lines.size)
    (code : List Char) : (execute r v code).Keeps r := by
  fun_induction execute r v code with
  | case1 | case18 => exact hr.keeps_next hv
  | case2 | case5 => exact print_keeps hr hv _
  | case3 => exact (hr.keeps_next hv).endingAt _
  | case4 | case6 => exact assign_keeps hr hv _
  | case7 => exact input_keeps hr hv _
  | case8 => exact goto_keeps hr hv _
  | case9 => exact gosub_keeps hr hv hindex _
  | case10 => exact goBack_keeps hr hv _
  | case11 => exact enterLoop_keeps hr hv hindex _
  | case12 => exact endLoop_keeps hr hv _
  | case13 => exact (hr.keeps_stop hv).endingAt _
  | case14 | case15 => exact hr.keeps_fails hv _
  | case16 => exact hr.keeps_goes hv fun _ => Run.jumpTo_le
  | case17 => assumption

/-! ## The end of a loop -/

theorem Outcome.flow_endingAt_ne (h : o.flow ≠ .error .typeMismatch) (rest : List Char) :
    (o.endingAt rest).flow ≠ .error .typeMismatch := by
  unfold Outcome.endingAt
  split
  · exact h
  · nofun

theorem flow_countOn_ne (hr : r.Sound) (hv : v.Kinded) (rest : List Char) {loops : List Loop}
    (hloops : loops.Sublist r.loops) :
    (countOn r v rest loops).flow ≠ .error .typeMismatch := by
  unfold countOn
  split
  case h_1 => nofun
  case h_2 l outer =>
    have hcounter := hr.isTextName_counter l (hloops.subset List.mem_cons_self)
    obtain ⟨a, ha⟩ := hv.toNumber_value hcounter
    rw [ha]
    dsimp only
    apply Outcome.flow_endingAt_ne
    split <;> nofun

/-- A loop is never found to count in a variable for text. -/
theorem flow_endLoop_ne (hr : r.Sound) (hv : v.Kinded) (s : List Char) :
    (endLoop r v s).flow ≠ .error .typeMismatch := by
  unfold endLoop
  split
  · exact flow_countOn_ne hr hv s (List.Sublist.refl _)
  · exact flow_countOn_ne hr hv _ (List.dropWhile_sublist _)

end Cpm80.Basic
