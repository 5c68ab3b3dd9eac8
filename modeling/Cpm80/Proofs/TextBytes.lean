import Cpm80.Text.Utf8
import Mathlib.Algebra.Group.Nat.Defs

/-!
# Text through its bytes

Reading the UTF-8 form of a text gives the text back. The first byte of a character tells how
many bytes follow and in which range the second one lies; a character that is no surrogate and
takes its shortest form keeps to that range, so the reader never sees a broken run. An ASCII
character is its own byte: no other character has that byte in its form, and from any bytes, broken
or not, the character is read only where its byte is.
-/
namespace Cpm80.Utf8

/-- A byte that goes on with a character. -/
def IsTail (c : UInt8) : Prop :=
  0x80 ≤ c.toNat ∧ c.toNat ≤ 0xBF

variable {b c d e : UInt8}

theorem finish_cons (h : IsTail c) (more bits : Nat) (rest : List UInt8) :
    finish (more + 1) bits (c :: rest) = finish more (bits * 64 + (c.toNat - 0x80)) rest := by
  rw [finish, if_pos]
  exact ⟨UInt8.le_iff_toNat_le.mpr h.1, UInt8.le_iff_toNat_le.mpr h.2⟩

theorem next_of_ascii (h : b.toNat < 0x80) (rest : List UInt8) :
    next b rest = (some (Char.ofNat b.toNat), rest) := by
  have hb : b < 0x80 := UInt8.lt_iff_toNat_lt.mpr h
  simp only [next, if_pos hb]

theorem next_of_lead {q : Lead} (hb : 0x80 ≤ b.toNat) (hq : lead? b = some q)
    (hlow : q.low.toNat ≤ c.toNat) (hhigh : c.toNat ≤ q.high.toNat) (rest : List UInt8) :
    next b (c :: rest) = finish q.more (q.bits * 64 + (c.toNat - 0x80)) rest := by
  have hlead : ¬b < 0x80 := by
    rw [UInt8.lt_iff_toNat_lt]
    exact Nat.not_lt.mpr hb
  simp only [next, if_neg hlead, hq]
  rw [if_pos ⟨UInt8.le_iff_toNat_le.mpr hlow, UInt8.le_iff_toNat_le.mpr hhigh⟩]

theorem next_of_two (hlow : 0xC2 ≤ b.toNat) (hhigh : b.toNat < 0xE0) (hc : IsTail c)
    (rest : List UInt8) :
    next b (c :: rest) =
      (some (Char.ofNat ((b.toNat - 0xC0) * 64 + (c.toNat - 0x80))), rest) := by
  have hlead : lead? b = some ⟨b.toNat - 0xC0, 0x80, 0xBF, 0⟩ := by
    simp only [lead?, UInt8.lt_iff_toNat_lt, UInt8.reduceToNat]
    rw [if_neg (by omega), if_pos hhigh]
  rw [next_of_lead (by omega) hlead hc.1 hc.2, finish]

/-- The second of three bytes has a smaller range after the least lead byte and after the one
that surrogates would start with. -/
theorem next_of_three (hlow : 0xE0 ≤ b.toNat) (hhigh : b.toNat < 0xF0) (hc : IsTail c)
    (hleast : b.toNat = 0xE0 → 0xA0 ≤ c.toNat) (hsurrogate : b.toNat = 0xED → c.toNat ≤ 0x9F)
    (hd : IsTail d) (rest : List UInt8) :
    next b (c :: d :: rest) = (some (Char.ofNat
      (((b.toNat - 0xE0) * 64 + (c.toNat - 0x80)) * 64 + (d.toNat - 0x80))), rest) := by
  obtain ⟨q, hq, hmore, hbits, hqlow, hqhigh⟩ : ∃ q, lead? b = some q ∧ q.more = 1 ∧
      q.bits = b.toNat - 0xE0 ∧ q.low.toNat ≤ c.toNat ∧ c.toNat ≤ q.high.toNat := by
    simp only [lead?, UInt8.lt_iff_toNat_lt, ← UInt8.toNat_inj, UInt8.reduceToNat]
    rw [if_neg (by omega), if_neg (by omega)]
    by_cases hfirst : b.toNat = 0xE0
    · exact ⟨_, if_pos hfirst, rfl, by rw [hfirst], hleast hfirst, hc.2⟩
    rw [if_neg hfirst]
    by_cases hbefore : b.toNat = 0xED
    · exact ⟨_, if_pos hbefore, rfl, by rw [hbefore], hc.1, hsurrogate hbefore⟩
    rw [if_neg hbefore]
    exact ⟨_, if_pos hhigh, rfl, rfl, hc.1, hc.2⟩
  rw [next_of_lead (by omega) hq hqlow hqhigh, hmore, hbits, finish_cons hd, finish]

/-- The second of four bytes has a smaller range after the least and the greatest lead byte. -/
theorem next_of_four (hlow : 0xF0 ≤ b.toNat) (hhigh : b.toNat ≤ 0xF4) (hc : IsTail c)
    (hleast : b.toNat = 0xF0 → 0x90 ≤ c.toNat) (hgreatest : b.toNat = 0xF4 → c.toNat ≤ 0x8F)
    (hd : IsTail d) (he : IsTail e) (rest : List UInt8) :
    next b (c :: d :: e :: rest) = (some (Char.ofNat
      ((((b.toNat - 0xF0) * 64 + (c.toNat - 0x80)) * 64 + (d.toNat - 0x80)) * 64 +
        (e.toNat - 0x80))), rest) := by
  obtain ⟨q, hq, hmore, hbits, hqlow, hqhigh⟩ : ∃ q, lead? b = some q ∧ q.more = 2 ∧
      q.bits = b.toNat - 0xF0 ∧ q.low.toNat ≤ c.toNat ∧ c.toNat ≤ q.high.toNat := by
    simp only [lead?, UInt8.lt_iff_toNat_lt, ← UInt8.toNat_inj, UInt8.reduceToNat]
    rw [if_neg (by omega), if_neg (by omega), if_neg (by omega), if_neg (by omega),
      if_neg (by omega)]
    by_cases hfirst : b.toNat = 0xF0
    · exact ⟨_, if_pos hfirst, rfl, by rw [hfirst], hleast hfirst, hc.2⟩
    rw [if_neg hfirst]
    by_cases hmiddle : b.toNat < 0xF4
    · exact ⟨_, if_pos hmiddle, rfl, rfl, hc.1, hc.2⟩
    have hlast : b.toNat = 0xF4 := by omega
    rw [if_neg hmiddle]
    exact ⟨_, if_pos hlast, rfl, by rw [hlast], hc.1, hgreatest hlast⟩
  rw [next_of_lead (by omega) hq hqlow hqhigh, hmore, hbits, finish_cons hd, finish_cons he,
    finish]

/-- The number of a character is none of a surrogate. -/
theorem toNat_range (c : Char) :
    c.toNat < 0xD800 ∨ 0xDFFF < c.toNat ∧ c.toNat < 0x110000 :=
  c.valid

/-- The reader takes a character off the bytes that start with its form. -/
theorem exists_next_encodeChar (c : Char) (rest : List UInt8) :
    ∃ b tail, String.utf8EncodeChar c = b :: tail ∧ next b (tail ++ rest) = (some c, rest) := by
  have hrange := toNat_range c
  have hbyte : ∀ n < 256, (UInt8.ofNat n).toNat = n := fun n hn => by
    rw [UInt8.toNat_ofNat', Nat.mod_eq_of_lt hn]
  have htail : ∀ n, (UInt8.ofNat (n % 0x40 + 0x80)).toNat = n % 0x40 + 0x80 := fun n =>
    hbyte _ (by omega)
  have hisTail : ∀ n, IsTail (UInt8.ofNat (n % 0x40 + 0x80)) := fun n => by
    rw [IsTail, htail]
    omega
  have hc : ∀ n, n = c.toNat → Char.ofNat n = c := fun n hn => by
    rw [hn, Char.ofNat_toNat]
  have hnumber : c.val.toNat = c.toNat := rfl
  rw [String.utf8EncodeChar, hnumber]
  by_cases hone : c.toNat ≤ 0x7F
  · have hb := hbyte c.toNat (by omega)
    refine ⟨_, _, if_pos hone, ?_⟩
    rw [List.nil_append, next_of_ascii (by omega), hc _ hb]
  rw [if_neg hone]
  by_cases htwo : c.toNat ≤ 0x7FF
  · have hb := hbyte (c.toNat / 64 % 0x20 + 0xC0) (by omega)
    refine ⟨_, _, if_pos htwo, ?_⟩
    rw [List.cons_append, next_of_two (by omega) (by omega) (hisTail _), hb, htail,
      hc _ (by omega), List.nil_append]
  rw [if_neg htwo]
  by_cases hthree : c.toNat ≤ 0xFFFF
  · have hb := hbyte (c.toNat / 4096 % 0x10 + 0xE0) (by omega)
    have hsecond := htail (c.toNat / 64)
    refine ⟨_, _, if_pos hthree, ?_⟩
    rw [List.cons_append, List.cons_append, next_of_three (by omega) (by omega) (hisTail _)
      (by omega) (by omega) (hisTail _), hb, hsecond, htail, hc _ (by omega), List.nil_append]
  rw [if_neg hthree]
  have hb := hbyte (c.toNat / 262144 % 0x08 + 0xF0) (by omega)
  have hsecond := htail (c.toNat / 4096)
  refine ⟨_, _, rfl, ?_⟩
  rw [List.cons_append, List.cons_append, List.cons_append, next_of_four (by omega) (by omega)
    (hisTail _) (by omega) (by omega) (hisTail _) (hisTail _), hb, hsecond, htail, htail,
    hc _ (by omega), List.nil_append]

theorem decodeFrom_encode (broken : Char) (done text : List Char) :
    decodeFrom broken done (encode text) = done.reverse ++ text := by
  induction text generalizing done with
  | nil => rw [encode, List.flatMap_nil, decodeFrom, List.append_nil]
  | cons c text ih =>
    obtain ⟨b, tail, hform, hnext⟩ := exists_next_encodeChar c (encode text)
    have hbytes : encode (c :: text) = b :: (tail ++ encode text) := by
      rw [encode, List.flatMap_cons, hform, List.cons_append, ← encode]
    rw [hbytes, decodeFrom, hnext, Option.getD_some, ih, List.reverse_cons, List.append_assoc,
      List.singleton_append]

/-- What a text was written as reads as the text. -/
theorem decodeLenient_encode (text : List Char) : decodeLenient (encode text) = text :=
  decodeFrom_encode _ [] text

end Cpm80.Utf8

/-! ## ASCII characters -/

namespace Cpm80.Utf8

variable {b : UInt8} {c broken : Char}

/-- A byte below 80H stands for itself alone. -/
theorem mem_utf8EncodeChar (hb : b.toNat < 0x80) (h : b ∈ String.utf8EncodeChar c) :
    c = Char.ofNat b.toNat := by
  have hlead : ∀ n k, 0x80 ≤ k → k + n < 256 → b ≠ UInt8.ofNat (n + k) := by
    rintro n k hk hn rfl
    rw [UInt8.toNat_ofNat', Nat.mod_eq_of_lt (by omega)] at hb
    omega
  have htail : ∀ n, b ≠ UInt8.ofNat (n % 0x40 + 0x80) := fun n =>
    hlead _ _ (by omega) (by omega)
  have hnumber : c.val.toNat = c.toNat := rfl
  rw [String.utf8EncodeChar, hnumber] at h
  split at h
  case isTrue hone =>
    rw [List.mem_singleton] at h
    rw [h, UInt8.toNat_ofNat', Nat.mod_eq_of_lt (by omega), Char.ofNat_toNat]
  case isFalse =>
    -- the forms of two, three and four bytes have none that is so small
    exfalso
    repeat'
      split at h
    all_goals
      simp only [List.mem_cons, List.not_mem_nil, or_false, htail, or_false] at h
      exact hlead _ _ (by omega) (by omega) h

theorem mem_encode {text : List Char} (hb : b.toNat < 0x80) (h : b ∈ encode text) :
    Char.ofNat b.toNat ∈ text := by
  obtain ⟨c, hc, hform⟩ := List.mem_flatMap.mp h
  rwa [← mem_utf8EncodeChar hb hform]

/-- A number that belongs to no character makes the one with number zero. -/
theorem toNat_ofNat {n : Nat} (h : (Char.ofNat n).toNat ≠ 0) : (Char.ofNat n).toNat = n := by
  by_cases hvalid : n.isValidChar
  case pos =>
    rw [Char.ofNat, dif_pos hvalid]
    rfl
  case neg =>
    rw [Char.ofNat, dif_neg hvalid] at h
    exact absurd rfl h

/-- What has been read of a character only grows. -/
theorem le_toNat_of_finish {more bits : Nat} {bytes : List UInt8}
    (h : (finish more bits bytes).1 = some c) (hc : c.toNat ≠ 0) : bits * 64 ^ more ≤ c.toNat := by
  induction more generalizing bits bytes with
  | zero =>
    obtain rfl := Option.some.inj h
    have hsame : bits * 64 ^ 0 = (Char.ofNat bits).toNat := by
      rw [Nat.pow_zero, Nat.mul_one, toNat_ofNat hc]
    exact Nat.le_of_eq hsame
  | succ more ih =>
    cases bytes with
    | nil => cases h
    | cons d rest =>
      rw [finish] at h
      split at h
      case isFalse => cases h
      case isTrue =>
        have hgrown := ih h
        rw [Nat.pow_succ, Nat.mul_comm (64 ^ more), ← Nat.mul_assoc]
        exact Nat.le_trans (Nat.mul_le_mul_right _ (Nat.le_add_right _ _)) hgrown

/-- What the first two bytes of a longer form say is too large for an ASCII character. -/
theorem le_of_lead {q : Lead} {d : UInt8} (hq : lead? b = some q) (hd : q.low ≤ d) :
    0x80 ≤ (q.bits * 64 + (d.toNat - 0x80)) * 64 ^ q.more := by
  have hlow := UInt8.le_iff_toNat_le.mp hd
  unfold lead? at hq
  simp only [UInt8.lt_iff_toNat_lt, ← UInt8.toNat_inj, UInt8.reduceToNat] at hq
  split at hq
  case isTrue => cases hq
  case isFalse hfirst =>
    repeat'
      split at hq
    all_goals
      simp only [reduceCtorEq, Option.some.injEq] at hq
    all_goals
      subst hq
      simp only [UInt8.reduceToNat, Nat.reducePow] at hlow ⊢
      omega

/-- The character at the front is an ASCII character only if its byte is. -/
theorem eq_of_next {rest : List UInt8} (h : (next b rest).1 = some c) (hc : c.toNat ≠ 0)
    (hascii : c.toNat < 0x80) : b = UInt8.ofNat c.toNat := by
  unfold next at h
  split at h
  case isTrue hb =>
    obtain rfl := Option.some.inj h
    rw [toNat_ofNat hc, UInt8.ofNat_toNat]
  case isFalse =>
    split at h
    case h_1 | h_2 => cases h
    case h_3 q d tail hq =>
      split at h
      case isFalse => cases h
      case isTrue hd =>
        have hleast := le_of_lead hq hd.1
        have hread := le_toNat_of_finish h hc
        omega

theorem finish_suffix (more bits : Nat) (bytes : List UInt8) :
    (finish more bits bytes).2 <:+ bytes := by
  induction more generalizing bits bytes with
  | zero => exact List.suffix_rfl
  | succ more ih =>
    cases bytes with
    | nil => exact List.suffix_rfl
    | cons d rest =>
      rw [finish]
      split
      · exact (ih _ rest).trans (List.suffix_cons d rest)
      · exact List.suffix_rfl

theorem next_suffix (b : UInt8) (rest : List UInt8) : (next b rest).2 <:+ rest := by
  unfold next
  split
  · exact List.suffix_rfl
  split
  · exact List.suffix_rfl
  · exact List.suffix_rfl
  case h_3 d tail _ =>
    split
    · exact (finish_suffix _ _ tail).trans (List.suffix_cons d tail)
    · exact List.suffix_rfl

/-- An ASCII character that is read was a byte. -/
theorem mem_decodeFrom {done : List Char} {bytes : List UInt8} (hbroken : c ≠ broken)
    (hc : c.toNat ≠ 0) (hascii : c.toNat < 0x80) (h : c ∈ decodeFrom broken done bytes) :
    c ∈ done ∨ UInt8.ofNat c.toNat ∈ bytes := by
  induction done, bytes using decodeFrom.induct broken with
  | case1 done =>
    rw [decodeFrom] at h
    exact .inl (List.mem_reverse.mp h)
  | case2 done b rest _ ih =>
    rw [decodeFrom] at h
    rcases ih h with hdone | hrest
    · rcases List.mem_cons.mp hdone with hfirst | hdone
      · cases hnext : (next b rest).1 with
        | none =>
          rw [hnext] at hfirst
          exact absurd hfirst hbroken
        | some d =>
          rw [hnext, Option.getD_some] at hfirst
          have hbyte := eq_of_next (hfirst ▸ hnext) hc hascii
          exact .inr (hbyte ▸ List.mem_cons_self)
      · exact .inl hdone
    · exact .inr (List.mem_cons_of_mem b ((next_suffix b rest).subset hrest))

/-- An ASCII character that is read from bytes was one of them. -/
theorem mem_decodeLenient {bytes : List UInt8} (hc : c.toNat ≠ 0) (hascii : c.toNat < 0x80)
    (h : c ∈ decodeLenient bytes) : UInt8.ofNat c.toNat ∈ bytes := by
  have hbroken : c ≠ '\uFFFD' := by
    rintro rfl
    exact absurd hascii (by decide)
  exact (mem_decodeFrom hbroken hc hascii h).resolve_left List.not_mem_nil

end Cpm80.Utf8
