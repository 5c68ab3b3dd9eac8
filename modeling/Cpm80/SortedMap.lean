/-!
# Finite maps in key order

A map is a list of entries whose keys strictly ascend, so it has one form for its content:
maps with the same lookups are equal, and listing a map needs no sorting. Files on a drive,
symbols, program lines and counters are all kept this way.
-/
namespace Cpm80

/-- What the order on keys has to satisfy. -/
class KeyOrder (α : Type) [LT α] : Prop where
  irrefl : ∀ a : α, ¬a < a
  trans : ∀ {a b c : α}, a < b → b < c → a < c
  total : ∀ a b : α, a < b ∨ a = b ∨ b < a

instance : KeyOrder Nat where
  irrefl := Nat.lt_irrefl
  trans := Nat.lt_trans
  total := fun a b => by omega

instance : KeyOrder String where
  irrefl := String.lt_irrefl
  trans := String.lt_trans
  total := fun a b => by
    by_cases h : a < b
    · exact .inl h
    · by_cases h' : b < a
      · exact .inr (.inr h')
      · exact .inr (.inl (String.le_antisymm (String.not_lt.mp h') (String.not_lt.mp h)))

/-- Strictly ascending keys. -/
def Ascending {α β : Type} [LT α] (entries : List (α × β)) : Prop :=
  entries.Pairwise fun x y => x.1 < y.1

structure SortedMap (α β : Type) [LT α] where
  entries : List (α × β)
  ascending : Ascending entries

namespace SortedMap

variable {α β : Type} [LT α]

def empty : SortedMap α β := ⟨[], .nil⟩

instance : Inhabited (SortedMap α β) := ⟨empty⟩

def keys (m : SortedMap α β) : List α :=
  m.entries.map Prod.fst

def values (m : SortedMap α β) : List β :=
  m.entries.map Prod.snd

def size (m : SortedMap α β) : Nat :=
  m.entries.length

def isEmpty (m : SortedMap α β) : Bool :=
  m.entries.isEmpty

theorem ascending_keys (m : SortedMap α β) : m.keys.Pairwise (· < ·) :=
  List.pairwise_map.mpr m.ascending

variable [DecidableEq α]

/-- The value under a key of a list of entries. -/
def find? (k : α) : List (α × β) → Option β
  | [] => none
  | e :: rest => if e.1 = k then some e.2 else find? k rest

def get? (m : SortedMap α β) (k : α) : Option β :=
  find? k m.entries

def contains (m : SortedMap α β) (k : α) : Bool :=
  (m.get? k).isSome

def without (k : α) (entries : List (α × β)) : List (α × β) :=
  entries.filter fun e => e.1 ≠ k

def erase (m : SortedMap α β) (k : α) : SortedMap α β :=
  ⟨without k m.entries, m.ascending.filter _⟩

@[simp] theorem get?_empty (k : α) : (empty : SortedMap α β).get? k = none := rfl

omit [LT α] in
theorem find?_without (k l : α) (entries : List (α × β)) :
    find? l (without k entries) = if k = l then none else find? l entries := by
  induction entries with
  | nil => simp [without, find?]
  | cons e rest ih =>
    simp only [without, List.filter_cons] at ih ⊢
    by_cases hk : e.1 = k
    · by_cases hl : k = l
      · simpa [hk, hl, find?] using ih
      · simpa [hk, hl, find?] using ih
    · by_cases hl : e.1 = l
      · have : l ≠ k := fun h => hk (hl.trans h)
        simp [find?, hl, this, this.symm]
      · simpa [find?, hk, hl] using ih

theorem get?_erase (m : SortedMap α β) (k l : α) :
    (m.erase k).get? l = if k = l then none else m.get? l :=
  find?_without k l m.entries

omit [LT α] in
theorem isSome_find?_iff (k : α) (entries : List (α × β)) :
    (find? k entries).isSome = true ↔ k ∈ entries.map Prod.fst := by
  induction entries with
  | nil => simp [find?]
  | cons e rest ih =>
    by_cases h : e.1 = k
    · simp [find?, h]
    · have hne : k ≠ e.1 := fun heq => h heq.symm
      simpa [find?, h, hne] using ih

theorem mem_keys_iff {m : SortedMap α β} {k : α} : k ∈ m.keys ↔ m.contains k = true :=
  (isSome_find?_iff k m.entries).symm

variable [DecidableLT α]

/-- Puts a value into its place among the entries, over an older one for the same key. -/
def placed (k : α) (v : β) : List (α × β) → List (α × β)
  | [] => [(k, v)]
  | e :: rest =>
    if k < e.1 then (k, v) :: e :: rest
    else if e.1 = k then (k, v) :: rest
    else e :: placed k v rest

theorem mem_placed {k : α} {v : β} {entries : List (α × β)} {x : α × β}
    (h : x ∈ placed k v entries) : x = (k, v) ∨ x ∈ entries := by
  induction entries with
  | nil => simpa [placed] using h
  | cons e rest ih =>
    simp only [placed] at h
    split at h
    · simpa using h
    · split at h
      · rcases List.mem_cons.mp h with h | h
        · exact .inl h
        · exact .inr (List.mem_cons_of_mem _ h)
      · rcases List.mem_cons.mp h with h | h
        · exact .inr (h ▸ List.mem_cons_self)
        · exact (ih h).imp id (List.mem_cons_of_mem _)

theorem find?_placed (k l : α) (v : β) (entries : List (α × β)) :
    find? l (placed k v entries) = if k = l then some v else find? l entries := by
  induction entries with
  | nil => simp [placed, find?]
  | cons e rest ih =>
    simp only [placed]
    split
    · simp [find?]
    · split
      · next heq =>
        subst heq
        by_cases h : e.1 = l <;> simp [find?, h]
      · next heq =>
        by_cases h : e.1 = l
        · have : k ≠ l := fun hk => heq (h.trans hk.symm)
          simp [find?, h, this]
        · simp [find?, h, ih]

variable [KeyOrder α]

theorem ascending_placed (k : α) (v : β) {entries : List (α × β)} (h : Ascending entries) :
    Ascending (placed k v entries) := by
  induction entries with
  | nil => simp [placed, Ascending]
  | cons e rest ih =>
    have hrest := List.pairwise_cons.mp h
    simp only [placed]
    split
    · next hlt =>
      refine List.pairwise_cons.mpr ⟨fun x hx => ?_, h⟩
      rcases List.mem_cons.mp hx with rfl | hx
      · exact hlt
      · exact KeyOrder.trans hlt (hrest.1 x hx)
    · next hlt =>
      split
      · next heq =>
        refine List.pairwise_cons.mpr ⟨fun x hx => ?_, hrest.2⟩
        exact heq ▸ hrest.1 x hx
      · next heq =>
        refine List.pairwise_cons.mpr ⟨fun x hx => ?_, ih hrest.2⟩
        rcases mem_placed hx with rfl | hx
        · rcases KeyOrder.total e.1 k with h | h | h
          · exact h
          · exact absurd h heq
          · exact absurd h hlt
        · exact hrest.1 x hx

def insert (m : SortedMap α β) (k : α) (v : β) : SortedMap α β :=
  ⟨placed k v m.entries, ascending_placed k v m.ascending⟩

def ofList (entries : List (α × β)) : SortedMap α β :=
  entries.foldl (fun m e => m.insert e.1 e.2) empty

theorem get?_insert (m : SortedMap α β) (k l : α) (v : β) :
    (m.insert k v).get? l = if k = l then some v else m.get? l :=
  find?_placed k l v m.entries

end SortedMap

end Cpm80
