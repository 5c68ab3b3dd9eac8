import Mathlib.Algebra.Group.Nat.Defs

/-!
# Checked accesses

Sums and differences of fixed width, and accesses to lists, that give nothing where they would
leave their range.
-/
namespace Cpm80.Checked

variable {α β ε : Type}

/-- A sum of numbers with `width` bits. -/
def add? (width a b : Nat) : Option Nat :=
  if a + b < 2 ^ width then some (a + b) else none

/-- A difference of numbers without a sign. -/
def sub? (a b : Nat) : Option Nat :=
  if b ≤ a then some (a - b) else none

/-- The first entries of a list, which has to have so many. -/
def take? (count : Nat) (s : List α) : Option (List α) :=
  if count ≤ s.length then some (s.take count) else none

/-- The entries from an index on, which must not be behind the end. -/
def drop? (index : Nat) (s : List α) : Option (List α) :=
  if index ≤ s.length then some (s.drop index) else none

/-- Puts an entry into the place of another. -/
def set? (index : Nat) (x : α) (s : List α) : Option (List α) :=
  if index < s.length then some (s.set index x) else none

/-- Puts an entry in front of that with an index, or behind the last one. -/
def insert? (index : Nat) (x : α) (s : List α) : Option (List α) :=
  if index ≤ s.length then some (s.take index ++ x :: s.drop index) else none

/-- Takes out an entry. -/
def remove? (index : Nat) (s : List α) : Option (List α) :=
  if index < s.length then some (s.eraseIdx index) else none

/-- The entries between two indices, of which the first must not be above the last. -/
def part? (first last : Nat) (s : List α) : Option (List α) := do
  let front ← take? last s
  drop? first front

/-- Writes over the entries from an index on, one after another. -/
def overwrite? (s : List α) (i : Nat) : List α → Option (List α)
  | [] => some s
  | x :: rest => do
    let s ← set? i x s
    overwrite? s (i + 1) rest

/-- Keeps the entries that pass a test. -/
def sift (test : α → Option Bool) : List α → Option (List α)
  | [] => some []
  | x :: s => do
    let passes ← test x
    let rest ← sift test s
    some (if passes then x :: rest else rest)

theorem add?_of_lt {width a b : Nat} (h : a + b < 2 ^ width) : add? width a b = some (a + b) :=
  if_pos h

theorem sub?_of_le {a b : Nat} (h : b ≤ a) : sub? a b = some (a - b) :=
  if_pos h

theorem take?_of_le {count : Nat} {s : List α} (h : count ≤ s.length) :
    take? count s = some (s.take count) :=
  if_pos h

theorem drop?_of_le {index : Nat} {s : List α} (h : index ≤ s.length) :
    drop? index s = some (s.drop index) :=
  if_pos h

theorem set?_of_lt {index : Nat} {x : α} {s : List α} (h : index < s.length) :
    set? index x s = some (s.set index x) :=
  if_pos h

theorem insert?_of_le {index : Nat} {x : α} {s : List α} (h : index ≤ s.length) :
    insert? index x s = some (s.take index ++ x :: s.drop index) :=
  if_pos h

theorem remove?_of_lt {index : Nat} {s : List α} (h : index < s.length) :
    remove? index s = some (s.eraseIdx index) :=
  if_pos h

theorem part?_of_le {first last : Nat} {s : List α} (hfirst : first ≤ last)
    (hlast : last ≤ s.length) : part? first last s = some ((s.take last).drop first) := by
  rw [part?, take?_of_le hlast, Option.bind_eq_bind, Option.bind_some, drop?_of_le]
  rwa [List.length_take, Nat.min_eq_left hlast]

/-- What is written over lies between what stays. -/
theorem overwrite?_append (front old back : List α) {new : List α} (h : new.length = old.length) :
    overwrite? (front ++ old ++ back) front.length new = some (front ++ new ++ back) := by
  induction new generalizing front old with
  | nil =>
    obtain rfl := List.eq_nil_of_length_eq_zero h.symm
    rfl
  | cons x new ih =>
    cases old with
    | nil => cases h
    | cons y old =>
      have hnext := ih (front ++ [x]) old (Nat.succ.inj h)
      have hset : (front ++ y :: old ++ back).set front.length x = front ++ [x] ++ old ++ back := by
        simp
      rw [overwrite?, set?_of_lt (by simp), Option.bind_eq_bind, Option.bind_some, hset]
      rw [List.length_append, List.length_singleton] at hnext
      rw [hnext]
      simp

theorem sift_some (test : α → Bool) (s : List α) :
    sift (fun x => some (test x)) s = some (s.filter test) := by
  induction s with
  | nil => rfl
  | cons x s ih =>
    rw [sift, ih, List.filter_cons]
    rfl

theorem foldlM_some (f : β → α → β) (x : β) (s : List α) :
    s.foldlM (fun x y => some (f x y)) x = some (s.foldl f x) :=
  List.foldlM_pure

theorem mapM_some {f : α → Option β} {g : α → β} {s : List α}
    (h : ∀ x ∈ s, f x = some (g x)) : s.mapM f = some (s.map g) := by
  induction s with
  | nil => rfl
  | cons x s ih =>
    obtain ⟨hx, hs⟩ := List.forall_mem_cons.mp h
    rw [List.mapM_cons, hx, ih hs]
    rfl

/-! ## Faults and failed checks -/

/-- What can find a fault, or give nothing where a check fails. -/
abbrev Attempt (ε : Type) := ExceptT ε Option

namespace Attempt

/-- What passes its checks, whether it finds a fault or not. -/
def of (x : Except ε α) : Attempt ε α :=
  ExceptT.mk (some x)

@[simp] theorem of_bind (x : Except ε α) (g : α → Except ε β) :
    (of x >>= fun a => of (g a)) = of (x >>= g) := by
  cases x <;> rfl

theorem run_of (x : Except ε α) : (of x).run = some x := rfl

@[simp] theorem of_ok_bind (a : α) (f : α → Attempt ε β) : (of (.ok a) >>= f) = f a := rfl

theorem pure_eq (a : α) : (pure a : Attempt ε α) = of (.ok a) := rfl

theorem throw_eq (e : ε) : (throw e : Attempt ε α) = of (.error e) := rfl

theorem lift_eq (a : α) : (liftM (some a) : Attempt ε α) = of (.ok a) := rfl

end Attempt

end Cpm80.Checked
