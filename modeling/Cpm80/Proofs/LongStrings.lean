import Cpm80.Proofs.DataLines

/-!
# Strings that are too long for the counter

Of the length of a string the counter takes the lowest 32 bits, and it goes round where these end.
So a line whose only item is a string of about 2^32 bytes has nothing wrong with it, as long as the
counter comes to stand in memory again. The string is emitted as a whole, and the counter does not
know.
-/
namespace Cpm80.Assembler

open Text

namespace DataLine

/-! ## Lines with one item -/

variable {l : DataLine} {i : SpacedItem}

theorem bytes_of_items (hitems : l.items = [i]) : l.bytes = i.item.bytes := by
  rw [bytes, hitems, List.map_singleton, itemBytes, List.flatMap_singleton]

theorem operands_of_items (hitems : l.items = [i]) : l.statement.operands = itemTexts [i.item] := by
  rw [statement, hitems, List.map_singleton]

/-- The sizing pass looks at the counter only after it has gone round. -/
theorem sizes_of_mod_le (hitems : l.items = [i]) {s : Sizing}
    (hmod : (s.cursor.address.toNat + l.bytes.length) % 2 ^ 32 ≤ 65536)
    (hnew : ∀ name ∈ l.statement.label, s.symbols.contains name = false) :
    (s.statement l.statement).2 = none := by
  refine sizes_of_bytes (hitems ▸ List.cons_ne_nil _ _) (fun labelled hcursor => ?_) hnew
  rw [← hcursor, bytes_of_items hitems] at hmod
  have hadvance : labelled.advance (dataSize i.item.text) =
      ({ labelled with cursor := labelled.cursor.after (.over i.item.bytes.length) }, none) := by
    rw [i.item.dataSize_text, Sizing.advance, Cursor.advance_of_mod_le hmod]
  rw [operands_of_items hitems, itemTexts, List.map_singleton,
    Sizing.bytes_cons i.item.quoted?_text hadvance]
  rfl

/-- So does the emitting pass, which puts all of the item behind the image. -/
theorem emits_of_mod_le (hitems : l.items = [i]) (symbols : Symbols) {s : Emission}
    (hmod : (s.cursor.address.toNat + l.bytes.length) % 2 ^ 32 ≤ 65536) :
    Emission.statement symbols s l.statement = (s.appended l.bytes, none) := by
  refine emits_of_bytes (hitems ▸ List.cons_ne_nil _ _) ?_
  rw [bytes_of_items hitems] at hmod ⊢
  rw [operands_of_items hitems, Emission.bytes_itemTexts_cons (Emission.emit_of_mod_le hmod)]
  rfl

/-! ## A string of any length -/

theorem text_ofLength (n : Nat) :
    (ofLength n).text = "DB '".toList ++ List.replicate n 'A' ++ ['\''] := by
  have hitems : (ofLength n).itemsText = '\'' :: List.replicate n 'A' ++ ['\''] := by
    change joined [[] ++ ('\'' :: List.replicate n 'A' ++ ['\'']) ++ []] = _
    rw [joined, List.intercalate_singleton, List.nil_append, List.append_nil]
  change [] ++ ([] ++ "DB".toList ++ ([' '] ++ (ofLength n).itemsText)) ++ [] = _
  rw [hitems]
  simp

theorem length_encode_letters (n : Nat) : (Utf8.encode (List.replicate n 'A')).length = n := by
  have hletter : (String.utf8EncodeChar 'A').length = 1 := by decide
  rw [Utf8.encode, List.length_flatMap, List.map_replicate, hletter, List.sum_replicate_nat,
    Nat.mul_one]

theorem length_bytes_ofLength (n : Nat) : (ofLength n).bytes.length = n := by
  rw [bytes_of_items (l := ofLength n) rfl]
  exact length_encode_letters n

theorem read_ofLength (n : Nat) :
    Source.read (ofLength n).text = ⟨[(1, (ofLength n).statement)], []⟩ :=
  read_source (List.cons_ne_nil _ _)

section

variable {n : Nat} {origin : UInt16} (hmod : (origin.toNat + n) % 2 ^ 32 ≤ 65536)

include hmod

theorem emits_ofLength (symbols : Symbols) :
    Emission.statement symbols ⟨.start origin, #[]⟩ (ofLength n).statement =
      (Emission.appended ⟨.start origin, #[]⟩ (ofLength n).bytes, none) := by
  refine emits_of_mod_le rfl symbols ?_
  rwa [length_bytes_ofLength]

/-- The counter has gone round while the image has grown. -/
theorem emission_ofLength (symbols : Symbols) :
    let emitted := Assembly.emission symbols origin [(1, (ofLength n).statement)]
    emitted.cursor.origin = origin ∧
      emitted.cursor.address.toNat = (origin.toNat + n) % 2 ^ 32 ∧ emitted.image.size = n := by
  have hemitted : Assembly.emission symbols origin [(1, (ofLength n).statement)] =
      Emission.appended ⟨.start origin, #[]⟩ (ofLength n).bytes := by
    rw [Assembly.emission, pass_state]
    exact congrArg Prod.fst (emits_ofLength hmod symbols)
  rw [hemitted, Emission.appended, length_bytes_ofLength]
  refine ⟨rfl, Cursor.toNat_address_over _ _, ?_⟩
  rw [← Array.length_toList, Array.toList_appendList, List.nil_append, length_bytes_ofLength]

/-- However long the string is, it is assembled if the counter comes back into memory. -/
theorem ofText_ofLength :
    let a := Assembly.ofText (ofLength n).text origin
    a.isOk = true ∧ a.origin = origin ∧ a.image.size = n := by
  have hsized : (Sizing.statement ⟨.start origin, .empty⟩ (ofLength n).statement).2 = none := by
    refine sizes_of_mod_le rfl ?_ fun _ _ => rfl
    rwa [length_bytes_ofLength]
  obtain ⟨hok, horigin, himage⟩ :=
    ofText_text (List.cons_ne_nil _ _) hsized (emits_ofLength hmod)
  refine ⟨hok, horigin, ?_⟩
  rw [← Array.length_toList, himage, length_bytes_ofLength]

end

end DataLine

end Cpm80.Assembler
