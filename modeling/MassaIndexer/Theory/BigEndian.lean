/-
# Theory.BigEndian -- fixed-width big-endian numerals

Store keys spell their numbers most significant byte first. `bytes w n` is that spelling in `w`
bytes; below `256 ^ w` it loses nothing (`bytes_injective`, `value_bytes`, `bytes_value`) and orders the numbers
(`compare_bytes`). Complementing the bytes reverses the order (`compare_complement`).
-/
import MassaIndexer.Theory.KeyedTable
import Mathlib.Algebra.Group.Nat.Defs

namespace MassaIndexer.Theory.BigEndian

open MassaIndexer.Theory.KeyedTable (Bytes compare_cons)

set_option autoImplicit false

def bytes : Nat → Nat → Bytes
  | 0, _ => []
  | w + 1, n => UInt8.ofNat (n / 256 ^ w) :: bytes w (n % 256 ^ w)

@[simp] theorem length_bytes (w n : Nat) : (bytes w n).length = w := by
  induction w generalizing n with
  | zero => rfl
  | succ w ih => simp [bytes, ih]

theorem bytes_injective {w n m : Nat} (hn : n < 256 ^ w) (hm : m < 256 ^ w)
    (same : bytes w n = bytes w m) : n = m := by
  induction w generalizing n m with
  | zero =>
      rw [Nat.pow_zero] at hn hm
      omega
  | succ w ih =>
      obtain ⟨first, rest⟩ := List.cons.inj same
      have positive : 0 < 256 ^ w := Nat.pow_pos (by decide)
      have hn' : n / 256 ^ w < 256 := Nat.div_lt_of_lt_mul (by rw [← Nat.pow_succ]; exact hn)
      have hm' : m / 256 ^ w < 256 := Nat.div_lt_of_lt_mul (by rw [← Nat.pow_succ]; exact hm)
      have high : n / 256 ^ w = m / 256 ^ w := by
        simpa [UInt8.toNat_ofNat_of_lt' hn', UInt8.toNat_ofNat_of_lt' hm'] using
          congrArg UInt8.toNat first
      have low := ih (Nat.mod_lt n positive) (Nat.mod_lt m positive) rest
      rw [← Nat.div_add_mod n (256 ^ w), ← Nat.div_add_mod m (256 ^ w), high, low]

/-- The number a spelling stands for. -/
def value (bs : Bytes) : Nat := bs.foldl (fun n b => n * 256 + b.toNat) 0

theorem foldl_value_bytes {w n : Nat} (small : n < 256 ^ w) (acc : Nat) :
    (bytes w n).foldl (fun n b => n * 256 + b.toNat) acc = acc * 256 ^ w + n := by
  induction w generalizing n acc with
  | zero =>
      rw [Nat.pow_zero] at small
      obtain rfl : n = 0 := by omega
      simp [bytes]
  | succ w ih =>
      have positive : 0 < 256 ^ w := Nat.pow_pos (by decide)
      have digit : n / 256 ^ w < 256 := Nat.div_lt_of_lt_mul (by rw [← Nat.pow_succ]; exact small)
      show (bytes w (n % 256 ^ w)).foldl _ (acc * 256 + (UInt8.ofNat (n / 256 ^ w)).toNat) = _
      rw [ih (Nat.mod_lt n positive), UInt8.toNat_ofNat_of_lt' digit]
      calc (acc * 256 + n / 256 ^ w) * 256 ^ w + n % 256 ^ w
          = acc * 256 ^ (w + 1) + (256 ^ w * (n / 256 ^ w) + n % 256 ^ w) := by
            rw [Nat.add_mul, Nat.mul_assoc, Nat.pow_succ', Nat.mul_comm (n / 256 ^ w), Nat.add_assoc]
        _ = acc * 256 ^ (w + 1) + n := by rw [Nat.div_add_mod]

/-- A spelling is read back. -/
theorem value_bytes {w n : Nat} (small : n < 256 ^ w) : value (bytes w n) = n := by
  rw [value, foldl_value_bytes small, Nat.zero_mul, Nat.zero_add]

theorem foldl_value_lt (bs : Bytes) (acc : Nat) :
    bs.foldl (fun n b => n * 256 + b.toNat) acc < (acc + 1) * 256 ^ bs.length := by
  induction bs generalizing acc with
  | nil =>
      show acc < (acc + 1) * 1
      omega
  | cons b bs ih =>
      have digit := b.toNat_lt
      refine Nat.lt_of_lt_of_le (ih (acc * 256 + b.toNat)) ?_
      rw [List.length_cons, Nat.pow_succ', ← Nat.mul_assoc]
      apply Nat.mul_le_mul_right
      omega

theorem value_lt (bs : Bytes) : value bs < 256 ^ bs.length := by
  have bound := foldl_value_lt bs 0
  rwa [Nat.zero_add, Nat.one_mul] at bound

theorem foldl_value_eq (bs : Bytes) (acc : Nat) :
    bs.foldl (fun n b => n * 256 + b.toNat) acc = acc * 256 ^ bs.length + value bs := by
  induction bs generalizing acc with
  | nil =>
      show acc = acc * 1 + 0
      omega
  | cons b bs ih =>
      show bs.foldl _ (acc * 256 + b.toNat) = acc * 256 ^ (bs.length + 1) + bs.foldl _ (0 * 256 + b.toNat)
      rw [ih, ih (0 * 256 + b.toNat), Nat.pow_succ', Nat.add_mul, Nat.zero_mul, Nat.zero_add,
        Nat.mul_assoc, Nat.add_assoc]

/-- What is read is spelled again. -/
theorem bytes_value {w : Nat} {bs : Bytes} (width : bs.length = w) : bytes w (value bs) = bs := by
  induction bs generalizing w with
  | nil =>
      subst width
      rfl
  | cons b bs ih =>
      subst width
      have whole : value (b :: bs) = b.toNat * 256 ^ bs.length + value bs := by
        show bs.foldl _ (0 * 256 + b.toNat) = _
        rw [foldl_value_eq, Nat.zero_mul, Nat.zero_add]
      have small := value_lt bs
      have positive : 0 < 256 ^ bs.length := Nat.pow_pos (by decide)
      have high : (b.toNat * 256 ^ bs.length + value bs) / 256 ^ bs.length = b.toNat := by
        rw [Nat.mul_comm, Nat.mul_add_div positive, Nat.div_eq_of_lt small, Nat.add_zero]
      have low : (b.toNat * 256 ^ bs.length + value bs) % 256 ^ bs.length = value bs := by
        rw [Nat.mul_comm, Nat.mul_add_mod, Nat.mod_eq_of_lt small]
      rw [whole, List.length_cons, bytes, high, low, ih rfl]
      simp

/-! ## Order -/

theorem compare_toNat (a b : UInt8) : compare a b = compare a.toNat b.toNat := by
  show compareOfLessAndEq a b = compareOfLessAndEq a.toNat b.toNat
  simp only [compareOfLessAndEq, UInt8.lt_iff_toNat_lt, UInt8.toNat_inj]

/-- Numbers of one width are ordered like their spellings. -/
theorem compare_bytes {w n m : Nat} (hn : n < 256 ^ w) (hm : m < 256 ^ w) :
    compare (bytes w n) (bytes w m) = compare n m := by
  induction w generalizing n m with
  | zero =>
      rw [Nat.pow_zero] at hn hm
      obtain rfl : n = 0 := by omega
      obtain rfl : m = 0 := by omega
      simp [bytes]
  | succ w ih =>
      have positive : 0 < 256 ^ w := Nat.pow_pos (by decide)
      have hn' : n / 256 ^ w < 256 := Nat.div_lt_of_lt_mul (by rw [← Nat.pow_succ]; exact hn)
      have hm' : m / 256 ^ w < 256 := Nat.div_lt_of_lt_mul (by rw [← Nat.pow_succ]; exact hm)
      have splitN := Nat.div_add_mod n (256 ^ w)
      have splitM := Nat.div_add_mod m (256 ^ w)
      rw [bytes, bytes, compare_cons, compare_toNat, UInt8.toNat_ofNat_of_lt' hn',
        UInt8.toNat_ofNat_of_lt' hm', ih (Nat.mod_lt n positive) (Nat.mod_lt m positive)]
      rcases Nat.lt_trichotomy (n / 256 ^ w) (m / 256 ^ w) with less | same | more
      · have below : n < m := Nat.lt_of_div_lt_div less
        rw [Nat.compare_eq_lt.mpr less, Nat.compare_eq_lt.mpr below]
        rfl
      · rw [same, Nat.compare_eq_eq.mpr rfl, Ordering.eq_then]
        rw [same] at splitN
        generalize 256 ^ w * (m / 256 ^ w) = high at splitN splitM
        rcases Nat.lt_trichotomy (n % 256 ^ w) (m % 256 ^ w) with less | equal | more
        · rw [Nat.compare_eq_lt.mpr less, Nat.compare_eq_lt.mpr (by omega)]
        · rw [Nat.compare_eq_eq.mpr equal, Nat.compare_eq_eq.mpr (by omega)]
        · rw [Nat.compare_eq_gt.mpr more, Nat.compare_eq_gt.mpr (by omega)]
      · have above : m < n := Nat.lt_of_div_lt_div more
        rw [Nat.compare_eq_gt.mpr more, Nat.compare_eq_gt.mpr above]
        rfl

theorem compare_complement_byte (a b : UInt8) : compare (~~~a) (~~~b) = compare b a := by
  have boundA := a.toNat_lt
  have boundB := b.toNat_lt
  rw [compare_toNat, compare_toNat, UInt8.toNat_not, UInt8.toNat_not]
  rcases Nat.lt_trichotomy a.toNat b.toNat with less | same | more
  · rw [Nat.compare_eq_gt.mpr less, Nat.compare_eq_gt.mpr]
    show 255 - b.toNat < 255 - a.toNat
    omega
  · rw [same, Nat.compare_eq_eq.mpr rfl, Nat.compare_eq_eq.mpr rfl]
  · rw [Nat.compare_eq_lt.mpr more, Nat.compare_eq_lt.mpr]
    show 255 - a.toNat < 255 - b.toNat
    omega

/-- Complementing every byte reverses the order of byte strings of one width. -/
theorem compare_complement {a b : Bytes} (width : a.length = b.length) :
    compare (a.map fun x => ~~~x) (b.map fun x => ~~~x) = compare b a := by
  induction a generalizing b with
  | nil =>
      obtain rfl : b = [] := List.length_eq_zero_iff.mp width.symm
      rfl
  | cons x a ih =>
      cases b with
      | nil => cases width
      | cons y b =>
          rw [List.map_cons, List.map_cons, compare_cons, compare_cons, compare_complement_byte,
            ih (Nat.succ.inj width)]

end MassaIndexer.Theory.BigEndian
