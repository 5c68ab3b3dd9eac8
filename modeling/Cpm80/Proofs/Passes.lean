import Cpm80.Assembler.Assembly

/-!
# One pass over the statements

A pass goes on after a fault, so its state after some statements is a fold over them, whatever
was wrong with them. A pass that reports nothing met no fault at any statement, and hands all
of them on. An assembly without diagnostics is made of two such passes over all statements of
the source.
-/
namespace Cpm80.Assembler

variable {σ : Type} {run : σ → Statement → Outcome σ}

/-- The state in which the statement after `statements` is met. -/
def stateAfter (run : σ → Statement → Outcome σ) (s : σ) (statements : List (Nat × Statement)) :
    σ :=
  statements.foldl (fun s numbered => (run s numbered.2).1) s

/-- No statement meets a fault. -/
def Faultless (run : σ → Statement → Outcome σ) (s : σ) : List (Nat × Statement) → Prop
  | [] => True
  | numbered :: rest =>
    (run s numbered.2).2 = none ∧ Faultless run (run s numbered.2).1 rest

theorem stateAfter_append (s : σ) (front rest : List (Nat × Statement)) :
    stateAfter run s (front ++ rest) = stateAfter run (stateAfter run s front) rest :=
  List.foldl_append

theorem Faultless.append {s : σ} {front rest : List (Nat × Statement)}
    (h : Faultless run s (front ++ rest)) :
    Faultless run s front ∧ Faultless run (stateAfter run s front) rest := by
  induction front generalizing s with
  | nil => exact ⟨trivial, h⟩
  | cons numbered front ih =>
    obtain ⟨hfront, hrest⟩ := ih h.2
    exact ⟨⟨h.1, hfront⟩, hrest⟩

theorem pass_state (s : σ) (good statements : List (Nat × Statement)) (bad : List Diagnostic) :
    (pass run s good bad statements).1 = stateAfter run s statements := by
  induction statements generalizing s good bad with
  | nil => rfl
  | cons numbered rest ih =>
    obtain ⟨line, st⟩ := numbered
    rw [pass]
    split
    case h_1 s' hrun => rw [ih, stateAfter, stateAfter, List.foldl_cons, hrun]
    case h_2 s' e hrun => rw [ih, stateAfter, stateAfter, List.foldl_cons, hrun]

theorem pass_of_faultless {s : σ} {statements : List (Nat × Statement)}
    (h : Faultless run s statements) (good : List (Nat × Statement)) (bad : List Diagnostic) :
    pass run s good bad statements =
      (stateAfter run s statements, good.reverse ++ statements, bad.reverse) := by
  induction statements generalizing s good with
  | nil => rw [pass, List.append_nil, stateAfter, List.foldl_nil]
  | cons numbered rest ih =>
    obtain ⟨line, st⟩ := numbered
    have hrun : run s st = ((run s st).1, none) := Prod.ext rfl h.1
    rw [pass, hrun]
    dsimp only
    rw [ih h.2, List.reverse_cons, List.append_assoc, List.singleton_append, stateAfter,
      stateAfter, List.foldl_cons]

/-- A pass that reports nothing, after nothing has been reported, met no fault. -/
theorem faultless_of_pass {s : σ} {good statements : List (Nat × Statement)}
    {bad : List Diagnostic} (h : (pass run s good bad statements).2.2 = []) :
    bad = [] ∧ Faultless run s statements ∧
      (pass run s good bad statements).2.1 = good.reverse ++ statements := by
  induction statements generalizing s good bad with
  | nil => exact ⟨by simpa [pass] using h, trivial, by simp [pass]⟩
  | cons numbered rest ih =>
    obtain ⟨line, st⟩ := numbered
    rw [pass] at h ⊢
    split at h
    case h_1 s' hrun =>
      obtain ⟨hbad, hrest, hgood⟩ := ih h
      refine ⟨hbad, ⟨by rw [hrun], by rwa [hrun]⟩, ?_⟩
      rw [hgood, List.reverse_cons, List.append_assoc, List.singleton_append]
    case h_2 s' e hrun =>
      obtain ⟨hbad, -, -⟩ := ih h
      exact absurd hbad (List.cons_ne_nil _ _)

end Cpm80.Assembler

namespace Cpm80.Assembly

open Assembler

/-- The sizing pass after some statements. -/
def sizing (origin : UInt16) (statements : List (Nat × Statement)) : Sizing :=
  (pass Sizing.statement ⟨.start origin, .empty⟩ [] [] statements).1

/-- The emitting pass after some statements. -/
def emission (symbols : Symbols) (origin : UInt16) (statements : List (Nat × Statement)) :
    Emission :=
  (pass (Emission.statement symbols) ⟨.start origin, #[]⟩ [] [] statements).1

theorem sizing_append (origin : UInt16) (front rest : List (Nat × Statement)) :
    sizing origin (front ++ rest) = stateAfter Sizing.statement (sizing origin front) rest := by
  rw [sizing, sizing, pass_state, pass_state, stateAfter_append]

theorem emission_append (symbols : Symbols) (origin : UInt16)
    (front rest : List (Nat × Statement)) :
    emission symbols origin (front ++ rest) =
      stateAfter (Emission.statement symbols) (emission symbols origin front) rest := by
  rw [emission, emission, pass_state, pass_state, stateAfter_append]

/-- What an assembly without diagnostics is made of: two faultless passes over all statements. -/
structure Assembles (text : List Char) (origin : UInt16) (a : Assembly) : Prop where
  symbols_eq : a.symbols = (sizing origin (Source.read text).statements).symbols
  origin_eq : a.origin = (emission a.symbols origin (Source.read text).statements).cursor.origin
  image_eq : a.image = (emission a.symbols origin (Source.read text).statements).image
  sizes : Faultless Sizing.statement ⟨.start origin, .empty⟩ (Source.read text).statements
  codes : Faultless (Emission.statement a.symbols) ⟨.start origin, #[]⟩
    (Source.read text).statements

theorem assembles_of_isOk {text : List Char} {origin : UInt16}
    (h : (ofText text origin).isOk) : Assembles text origin (ofText text origin) := by
  have hdiagnostics : (ofText text origin).diagnostics = [] := List.isEmpty_iff.mp h
  have hnone := List.length_eq_zero_iff.mpr hdiagnostics
  simp only [ofText, List.length_mergeSort, List.length_append, Nat.add_eq_zero_iff,
    List.length_eq_zero_iff] at hnone
  obtain ⟨⟨-, hwrongSizes⟩, hwrongCode⟩ := hnone
  obtain ⟨-, hsizes, hgood⟩ := faultless_of_pass hwrongSizes
  rw [List.reverse_nil, List.nil_append] at hgood
  rw [hgood] at hwrongCode
  obtain ⟨-, hcodes, -⟩ := faultless_of_pass hwrongCode
  let sized := pass Sizing.statement ⟨.start origin, .empty⟩ [] [] (Source.read text).statements
  let emitted := pass (Emission.statement (ofText text origin).symbols) ⟨.start origin, #[]⟩ [] []
    sized.2.1
  have hemitted : emitted.1 =
      emission (ofText text origin).symbols origin (Source.read text).statements := by
    rw [emission, ← hgood]
  have himage : (ofText text origin).image =
      if (ofText text origin).diagnostics.isEmpty then emitted.1.image else #[] := rfl
  constructor
  case symbols_eq => rfl
  case origin_eq => exact congrArg (fun e => e.cursor.origin) hemitted
  case image_eq =>
    have hempty : (ofText text origin).diagnostics.isEmpty := h
    rw [himage, if_pos hempty, hemitted]
  case sizes => exact hsizes
  case codes => exact hcodes

/-- Two faultless passes over all statements make an assembly without diagnostics. -/
theorem ofText_of_faultless {text : List Char} {origin : UInt16}
    {statements : List (Nat × Statement)} (hsource : Source.read text = ⟨statements, []⟩)
    (hsizes : Faultless Sizing.statement ⟨.start origin, .empty⟩ statements)
    (hcodes : Faultless (Emission.statement (sizing origin statements).symbols)
      ⟨.start origin, #[]⟩ statements) :
    ofText text origin =
      let emitted := emission (sizing origin statements).symbols origin statements
      ⟨emitted.cursor.origin, emitted.image, (sizing origin statements).symbols, []⟩ := by
  have hsized := pass_of_faultless hsizes [] []
  have hemitted := pass_of_faultless hcodes [] []
  simp only [sizing, hsized, List.reverse_nil, List.nil_append] at hemitted
  simp only [ofText, hsource, sizing, emission, hsized, List.reverse_nil, List.nil_append,
    hemitted, List.mergeSort_nil, List.isEmpty_nil, if_true]

end Cpm80.Assembly
