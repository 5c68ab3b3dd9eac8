/-!
# Bytes and words

A word is sixteen bits wide and is made of a high and a low byte. In memory the low byte
comes first. The two halves determine the word and the word determines them.
-/
namespace Cpm80

/-- The word with the given halves. -/
def word (high low : UInt8) : UInt16 :=
  high.toUInt16 * 256 + low.toUInt16

def highByte (w : UInt16) : UInt8 :=
  (w / 256).toUInt8

def lowByte (w : UInt16) : UInt8 :=
  w.toUInt8

theorem toNat_word (high low : UInt8) :
    (word high low).toNat = high.toNat * 256 + low.toNat := by
  have h := high.toNat_lt
  have l := low.toNat_lt
  simp only [word, UInt16.toNat_add, UInt16.toNat_mul, UInt8.toNat_toUInt16]
  simp only [UInt16.reduceToNat]
  omega

theorem toNat_highByte (w : UInt16) : (highByte w).toNat = w.toNat / 256 := by
  have h := w.toNat_lt
  simp only [highByte, UInt16.toNat_toUInt8, UInt16.toNat_div, UInt16.reduceToNat]
  omega

theorem toNat_lowByte (w : UInt16) : (lowByte w).toNat = w.toNat % 256 := by
  simp [lowByte]

@[simp] theorem highByte_word (high low : UInt8) : highByte (word high low) = high := by
  apply UInt8.toNat_inj.mp
  have h := low.toNat_lt
  rw [toNat_highByte, toNat_word]
  omega

@[simp] theorem lowByte_word (high low : UInt8) : lowByte (word high low) = low := by
  apply UInt8.toNat_inj.mp
  have h := low.toNat_lt
  rw [toNat_lowByte, toNat_word]
  omega

@[simp] theorem word_highByte_lowByte (w : UInt16) : word (highByte w) (lowByte w) = w := by
  apply UInt16.toNat_inj.mp
  rw [toNat_word, toNat_highByte, toNat_lowByte]
  omega

end Cpm80
