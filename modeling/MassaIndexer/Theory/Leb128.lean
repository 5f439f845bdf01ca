/-
# Theory.Leb128 -- numbers in groups of seven bits

A number in LEB128 is a code: bytes that continue, with the high bit set, and a last one without it. The
low seven bits of each byte are its digits, least significant first (`payload`); in the signed reading the
highest digit bit of the last byte counts negatively (`signedPayload`).

A code of a `bits`-wide integer (`IsUnsigned`, `IsSigned`) has no more bytes than the width needs and its
value fits. It need not be the shortest code of the value. A string begins with at most one code
(`code_unique`).

Last, how the two readings come out of machine operations that `or` shifted digits together.
-/
import Mathlib.Data.Int.Bitwise
import Mathlib.Tactic.Common
import Mathlib.Tactic.Ring

namespace MassaIndexer.Theory.Leb128

set_option autoImplicit false

/-! ## Codes -/

/-- A byte that another one follows. -/
def Continues (b : UInt8) : Prop := 128 ≤ b.toNat

instance (b : UInt8) : Decidable (Continues b) := Nat.decLe _ _

/-- Every byte but the last continues. -/
def Terminated : List UInt8 → Prop
  | [] => False
  | b :: rest => if Continues b then Terminated rest else rest = []

instance decidableTerminated : (code : List UInt8) → Decidable (Terminated code)
  | [] => inferInstanceAs (Decidable False)
  | b :: rest =>
      have := decidableTerminated rest
      inferInstanceAs (Decidable (if Continues b then Terminated rest else rest = []))

/-- The digits, least significant first. -/
def payload : List UInt8 → Nat
  | [] => 0
  | b :: rest => b.toNat % 128 + 128 * payload rest

def lastByte (code : List UInt8) : UInt8 := code.getLastD 0

/-- The highest digit bit of the last byte. -/
def Negative (code : List UInt8) : Prop := 64 ≤ (lastByte code).toNat % 128

instance (code : List UInt8) : Decidable (Negative code) := Nat.decLe _ _

def signedPayload (code : List UInt8) : Int :=
  if Negative code then (payload code : Int) - 2 ^ (7 * code.length) else payload code

/-- How many bytes a code of this width may have. -/
def groups (bits : Nat) : Nat := (bits + 6) / 7

structure IsUnsigned (bits : Nat) (code : List UInt8) (v : Nat) : Prop where
  terminated : Terminated code
  short : code.length ≤ groups bits
  value : payload code = v
  fits : v < 2 ^ bits

structure IsSigned (bits : Nat) (code : List UInt8) (v : Int) : Prop where
  terminated : Terminated code
  short : code.length ≤ groups bits
  value : signedPayload code = v
  above : -2 ^ (bits - 1) ≤ v
  below : v < 2 ^ (bits - 1)

/-! ## Where a code ends -/

theorem terminated_cons_of_continues {b : UInt8} (more : Continues b) (rest : List UInt8) :
    Terminated (b :: rest) ↔ Terminated rest := by
  rw [Terminated, if_pos more]

theorem terminated_cons_of_last {b : UInt8} (last : ¬ Continues b) (rest : List UInt8) :
    Terminated (b :: rest) ↔ rest = [] := by
  rw [Terminated, if_neg last]

theorem Terminated.length_pos {code : List UInt8} (ends : Terminated code) : 0 < code.length := by
  cases code with
  | nil => exact ends.elim
  | cons b rest => exact Nat.succ_pos _

/-- A string begins with at most one code. -/
theorem code_unique {code code' rest rest' : List UInt8} (ends : Terminated code)
    (ends' : Terminated code') (same : code ++ rest = code' ++ rest') :
    code = code' ∧ rest = rest' := by
  induction code generalizing code' with
  | nil => exact ends.elim
  | cons b tail ih =>
      cases code' with
      | nil => exact ends'.elim
      | cons b' tail' =>
          obtain ⟨rfl, later⟩ := List.cons.inj same
          by_cases more : Continues b
          · rw [terminated_cons_of_continues more] at ends ends'
            obtain ⟨rfl, rfl⟩ := ih ends ends' later
            exact ⟨rfl, rfl⟩
          · rw [terminated_cons_of_last more] at ends ends'
            subst ends ends'
            exact ⟨rfl, later⟩

/-- A string that begins with no code continues to its end. -/
theorem code_or_continues (bytes : List UInt8) :
    (∃ code rest, bytes = code ++ rest ∧ Terminated code) ∨ ∀ b ∈ bytes, Continues b := by
  induction bytes with
  | nil => exact .inr fun b member => absurd member List.not_mem_nil
  | cons b bytes ih =>
      by_cases more : Continues b
      · rcases ih with ⟨code, rest, rfl, ends⟩ | all
        · exact .inl ⟨b :: code, rest, rfl, (terminated_cons_of_continues more code).mpr ends⟩
        · refine .inr fun b' member => ?_
          rcases List.mem_cons.mp member with rfl | later
          · exact more
          · exact all b' later
      · exact .inl ⟨[b], bytes, rfl, (terminated_cons_of_last more []).mpr rfl⟩

theorem not_terminated_of_continues {code rest : List UInt8}
    (all : ∀ b ∈ code ++ rest, Continues b) : ¬ Terminated code := by
  intro ends
  induction code with
  | nil => exact ends
  | cons b tail ih =>
      have more : Continues b := all b List.mem_cons_self
      rw [terminated_cons_of_continues more] at ends
      exact ih (fun b' member => all b' (List.mem_cons_of_mem b member)) ends

/-! ## Values -/

theorem payload_lt (code : List UInt8) : payload code < 2 ^ (7 * code.length) := by
  induction code with
  | nil => decide
  | cons b rest ih =>
      have digit : b.toNat % 128 < 128 := Nat.mod_lt _ (by decide)
      have grown : 2 ^ (7 * (rest.length + 1)) = 128 * 2 ^ (7 * rest.length) := by
        rw [Nat.mul_add, Nat.pow_add, Nat.mul_comm]
      rw [payload, List.length_cons, grown]
      omega

/-- The last byte carries the top of the value. -/
theorem payload_append_last (front : List UInt8) (last : UInt8) :
    payload (front ++ [last]) = payload front + last.toNat % 128 * 2 ^ (7 * front.length) := by
  induction front with
  | nil => simp [payload]
  | cons b front ih =>
      rw [List.cons_append, payload, payload, ih, List.length_cons, Nat.mul_add 7, Nat.pow_add]
      ring

theorem exists_front {code : List UInt8} (ends : Terminated code) :
    ∃ front, code = front ++ [lastByte code] ∧ front.length + 1 = code.length := by
  have some : code ≠ [] := List.ne_nil_of_length_pos ends.length_pos
  refine ⟨code.dropLast, ?_, ?_⟩
  · rw [lastByte, List.getLastD_eq_getLast?, List.getLast?_eq_some_getLast some, Option.getD_some]
    exact (List.dropLast_concat_getLast some).symm
  · have positive := ends.length_pos
    rw [List.length_dropLast]
    omega

theorem lastByte_cons_of_terminated {b : UInt8} {rest : List UInt8} (ends : Terminated rest) :
    lastByte (b :: rest) = lastByte rest := by
  cases rest with
  | nil => exact ends.elim
  | cons b' rest => rfl

theorem negative_cons_of_terminated {b : UInt8} {rest : List UInt8} (ends : Terminated rest) :
    Negative (b :: rest) ↔ Negative rest := by
  rw [Negative, lastByte_cons_of_terminated ends, Negative]

theorem lastByte_lt {code : List UInt8} (ends : Terminated code) : (lastByte code).toNat < 128 := by
  induction code with
  | nil => exact ends.elim
  | cons b rest ih =>
      by_cases more : Continues b
      · rw [terminated_cons_of_continues more] at ends
        rw [lastByte_cons_of_terminated ends]
        exact ih ends
      · rw [terminated_cons_of_last more] at ends
        subst ends
        exact Nat.lt_of_not_le more

theorem negative_iff {code : List UInt8} (ends : Terminated code) :
    Negative code ↔ 64 ≤ (lastByte code).toNat := by
  rw [Negative, Nat.mod_eq_of_lt (lastByte_lt ends)]

/-- The value as its top digit over the rest. -/
theorem exists_split {code : List UInt8} (ends : Terminated code) : ∃ low,
    low < 2 ^ (7 * (code.length - 1)) ∧
      payload code = low + (lastByte code).toNat * 2 ^ (7 * (code.length - 1)) := by
  obtain ⟨front, whole, length⟩ := exists_front ends
  have front_length : code.length - 1 = front.length := by omega
  refine ⟨payload front, ?_, ?_⟩
  · rw [front_length]
    exact payload_lt front
  · have top := lastByte_lt ends
    have value := payload_append_last front (lastByte code)
    rw [← whole, Nat.mod_eq_of_lt top] at value
    rw [front_length, value]

/-! ## Machine operations -/

/-- Digits above the ones that are there are added by `or`, in a word as far as it reaches. -/
theorem ofNat_or_shiftLeft {w p s : Nat} (low : p < 2 ^ s) (d : Nat) :
    BitVec.ofNat w p ||| BitVec.ofNat w d <<< s = BitVec.ofNat w (p + d * 2 ^ s) := by
  have whole : p + d * 2 ^ s = p ||| d <<< s := by
    rw [Nat.or_comm, ← Nat.shiftLeft_add_eq_or_of_lt low, Nat.shiftLeft_eq, Nat.add_comm]
  rw [whole]
  apply BitVec.eq_of_toNat_eq
  rw [BitVec.toNat_or, BitVec.toNat_shiftLeft, BitVec.toNat_ofNat, BitVec.toNat_ofNat,
    BitVec.toNat_ofNat, Nat.or_mod_two_pow]
  congr 1
  rw [Nat.shiftLeft_eq, Nat.shiftLeft_eq, Nat.mod_mul_mod]

/-- The same among unbounded integers. -/
theorem lor_shiftLeft {p s : Nat} (low : p < 2 ^ s) (d : Nat) :
    Int.lor p ((d : Int) <<< s) = ((p + d * 2 ^ s : Nat) : Int) := by
  have shifted : (d : Int) <<< s = ((d <<< s : Nat) : Int) := rfl
  have joined : Int.lor p ((d <<< s : Nat) : Int) = ((p ||| d <<< s : Nat) : Int) := rfl
  rw [shifted, joined, Nat.or_comm, ← Nat.shiftLeft_add_eq_or_of_lt low, Nat.shiftLeft_eq,
    Nat.add_comm]

/-- Ones above the digits that are there make the sign. -/
theorem lor_neg_one_shiftLeft {p s : Nat} (low : p < 2 ^ s) :
    Int.lor p ((-1 : Int) <<< s) = (p : Int) - 2 ^ s := by
  have ones : Nat.ldiff (2 ^ s - 1) p = 2 ^ s - (p + 1) := by
    apply Nat.eq_of_testBit_eq
    intro i
    rw [Nat.testBit_ldiff, Nat.testBit_two_pow_sub_one, Nat.testBit_two_pow_sub_succ low]
  have positive : 0 < 2 ^ s := Nat.two_pow_pos s
  have top : (-1 : Int) <<< s = Int.negSucc (2 ^ s - 1) := by
    rw [Int.shiftLeft_eq, Int.negSucc_eq]
    push_cast [Nat.cast_sub positive]
    ring
  have joined : Int.lor p (Int.negSucc (2 ^ s - 1)) =
      Int.negSucc (Nat.ldiff (2 ^ s - 1) p) := rfl
  rw [top, joined, ones, Int.negSucc_eq]
  push_cast [Nat.cast_sub (show p + 1 ≤ 2 ^ s from low)]
  ring

end MassaIndexer.Theory.Leb128
