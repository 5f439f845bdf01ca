/-
# Laws.NativeAmounts -- a mantissa and a scale, in nanoMAS

The node reports amounts as `mantissa / 10^scale`. What the API shows of an address is rescaled to nine
digits (`nativeAmountToNmas`), with a power of ten that nothing keeps inside its 128 bits; what is ingested
is the mantissa alone. `native_amounts_iff` says for which amounts every conversion gives the amount in
nanoMAS: those of scale nine, and nothing at all up to scale 47.
-/
import MassaIndexer.Writer.Handlers

namespace MassaIndexer.Laws.NativeAmounts

open MassaIndexer.Data.Ids MassaIndexer.Data.Model
open MassaIndexer.Writer.NodeProto MassaIndexer.Writer.NodeDecode MassaIndexer.Writer.Handlers

set_option autoImplicit false

/-! ## The side that rescales -/

/-- The power of ten an amount is multiplied with or divided by. -/
def exponent (a : NativeAmount) : Nat :=
  if a.scale.toNat ≤ 9 then 9 - a.scale.toNat else a.scale.toNat - 9

/-- `10u128.pow(k)`, which wraps. -/
def pow10 (k : Nat) : Nat := 10 ^ k % 2 ^ 128

/-- `none`: a division by zero, which ends the process. -/
def nativeAmountToNmas (a : NativeAmount) : Option Nat :=
  let power := pow10 (exponent a)
  if a.scale.toNat ≤ 9 then some (min (a.mantissa.toNat * power) (2 ^ 128 - 1))
  else if power = 0 then none
  else some (a.mantissa.toNat / power)

/-- The amount in nanoMAS, rounded down. -/
def exactNmas (a : NativeAmount) : Nat := a.mantissa.toNat * 10 ^ 9 / 10 ^ a.scale.toNat

theorem pow_lt_iff (k : Nat) : 10 ^ k < 2 ^ 128 ↔ k ≤ 38 := by
  constructor
  · intro fits
    refine Nat.le_of_not_lt fun large => ?_
    have least : 10 ^ 39 ≤ 10 ^ k := Nat.pow_le_pow_right (by decide) large
    have over128 : 2 ^ 128 < 10 ^ 39 := by decide
    omega
  · intro small
    exact Nat.lt_of_le_of_lt (Nat.pow_le_pow_right (by decide) small) (by decide)

/-- A power that fits makes the conversion exact. -/
theorem nativeAmountToNmas_of_fits {a : NativeAmount} (fits : 10 ^ exponent a < 2 ^ 128) :
    nativeAmountToNmas a = some (exactNmas a) := by
  have mantissa := a.mantissa.toNat_lt
  unfold nativeAmountToNmas exactNmas pow10
  dsimp only
  rw [Nat.mod_eq_of_lt fits]
  unfold exponent at fits ⊢
  split
  · next small =>
      have most : a.mantissa.toNat * 10 ^ (9 - a.scale.toNat) ≤ 2 ^ 64 * 10 ^ 9 :=
        Nat.mul_le_mul (by omega) (Nat.pow_le_pow_right (by decide) (Nat.sub_le _ _))
      have room : 2 ^ 64 * 10 ^ 9 ≤ 2 ^ 128 - 1 := by decide
      have split9 : 10 ^ 9 = 10 ^ (9 - a.scale.toNat) * 10 ^ a.scale.toNat := by
        rw [← Nat.pow_add, Nat.sub_add_cancel small]
      rw [Nat.min_eq_left (Nat.le_trans most room), split9, ← Nat.mul_assoc,
        Nat.mul_div_cancel _ (Nat.pow_pos (by decide))]
  · next large =>
      have positive : 0 < 10 ^ (a.scale.toNat - 9) := Nat.pow_pos (by decide)
      have splitScale : 10 ^ a.scale.toNat = 10 ^ (a.scale.toNat - 9) * 10 ^ 9 := by
        rw [← Nat.pow_add, Nat.sub_add_cancel (by omega)]
      rw [if_neg (Nat.ne_of_gt positive), splitScale, Nat.mul_div_mul_right _ _ (by decide)]

/-! ## The side that does not -/

section Ingest

variable [Bs58Check]

/-- What is stored of an amount, wherever it is stored. -/
structure Ingested (a : NativeAmount) (nmas : UInt64) : Prop where
  coins : valueFromProto (some (.coins a)) = .coins nmas
  deferredCredits : valueFromProto (some (.deferredCredits a)) = .deferredCredits nmas
  fee : ∀ signedOp content id thread nowMs stored, signedOp.content = some content →
    content.fee = some a → freshOperation signedOp id thread nowMs = .ok stored → stored.feeNmas = nmas
  amount : ∀ recipientAddress,
    (classifyOp (some (some (.transaction recipientAddress (some a))))).2.2.amountNmas = some nmas
  callCoins : ∀ targetAddress targetFunction parameter maxGas,
    (classifyOp (some (some (.callSc targetAddress targetFunction parameter maxGas
      (some a))))).2.2.coinsNmas = some nmas
  slashed : ∀ d : NodeAddressDenunciation, d.slashed = some a →
    decodeDenunciation (some (.address d)) = .address d.addressDenounced (denouncedSlot d.slot) nmas

theorem ingested_iff (a : NativeAmount) (nmas : UInt64) : Ingested a nmas ↔ nmas = a.mantissa := by
  constructor
  · intro ingested
    exact (TransferValue.coins.inj ingested.coins).symm
  · rintro rfl
    refine ⟨rfl, rfl, ?_, fun _ => rfl, fun _ _ _ _ => rfl, ?_⟩
    · intro signedOp content id thread nowMs stored named paid fresh
      unfold freshOperation at fresh
      rw [named] at fresh
      dsimp only at fresh
      split at fresh
      · cases fresh
      · obtain rfl := Except.ok.inj fresh
        rw [paid]
        rfl
    · intro d taken
      rw [decodeDenunciation, taken]
      rfl

/-- Every conversion gives the amount in nanoMAS, and no power runs over. -/
structure Uniform (a : NativeAmount) : Prop where
  power : 10 ^ exponent a < 2 ^ 128
  shown : nativeAmountToNmas a = some (exactNmas a)
  stored : ∃ nmas, Ingested a nmas ∧ nmas.toNat = exactNmas a

omit [Bs58Check] in
/-- The mantissa is the amount only at scale nine, or where there is nothing. -/
theorem mantissa_eq_exactNmas_iff (a : NativeAmount) :
    a.mantissa.toNat = exactNmas a ↔ a.scale.toNat = 9 ∨ a.mantissa.toNat = 0 := by
  unfold exactNmas
  generalize a.mantissa.toNat = m
  generalize a.scale.toNat = scale
  constructor
  · intro same
    by_contra neither
    obtain ⟨notNine, some⟩ := not_or.mp neither
    rcases Nat.lt_or_gt_of_ne notNine with less | more
    · have split9 : 10 ^ 9 = 10 ^ (9 - scale) * 10 ^ scale := by
        rw [← Nat.pow_add, Nat.sub_add_cancel (Nat.le_of_lt less)]
      rw [split9, ← Nat.mul_assoc, Nat.mul_div_cancel _ (Nat.pow_pos (by decide))] at same
      have ten : 10 ^ 1 ≤ 10 ^ (9 - scale) := Nat.pow_le_pow_right (by decide) (by omega)
      have grown : m * 10 ≤ m * 10 ^ (9 - scale) := Nat.mul_le_mul_left _ ten
      omega
    · have splitScale : 10 ^ scale = 10 ^ (scale - 9) * 10 ^ 9 := by
        rw [← Nat.pow_add, Nat.sub_add_cancel (Nat.le_of_lt more)]
      have ten : 10 ^ 1 ≤ 10 ^ (scale - 9) := Nat.pow_le_pow_right (by decide) (by omega)
      rw [splitScale, Nat.mul_div_mul_right _ _ (by decide)] at same
      have less := Nat.div_lt_self (Nat.pos_of_ne_zero some) (by omega : 1 < 10 ^ (scale - 9))
      omega
  · rintro (rfl | rfl)
    · rw [Nat.mul_div_cancel _ (by decide)]
    · rw [Nat.zero_mul, Nat.zero_div]

/-- **Every conversion of an amount gives the amount in nanoMAS, and none runs over, exactly for amounts of
scale nine and for zero at scales up to 47.** -/
theorem native_amounts_iff (a : NativeAmount) :
    Uniform a ↔ a.scale.toNat = 9 ∨ a.mantissa.toNat = 0 ∧ a.scale.toNat ≤ 47 := by
  have power : 10 ^ exponent a < 2 ^ 128 ↔ a.scale.toNat ≤ 47 := by
    rw [pow_lt_iff, exponent]
    split <;> omega
  have stored : (∃ nmas, Ingested a nmas ∧ nmas.toNat = exactNmas a) ↔
      a.scale.toNat = 9 ∨ a.mantissa.toNat = 0 := by
    simp only [ingested_iff, exists_eq_left, mantissa_eq_exactNmas_iff]
  constructor
  · intro uniform
    have small := power.mp uniform.power
    rcases stored.mp uniform.stored with nine | nothing
    · exact .inl nine
    · exact .inr ⟨nothing, small⟩
  · intro cond
    have fits : 10 ^ exponent a < 2 ^ 128 := power.mpr (by omega)
    exact ⟨fits, nativeAmountToNmas_of_fits fits, stored.mpr (by omega)⟩

end Ingest

/-- **One MAS at scale zero is a thousand million nanoMAS to the API and one to the store; at scale 137 the
API divides by zero.** -/
theorem one_mas_two_amounts :
    nativeAmountToNmas ⟨1, 0⟩ = some 1000000000 ∧ exactNmas ⟨1, 0⟩ = 1000000000 ∧
      valueFromProto (some (.coins ⟨1, 0⟩)) = .coins 1 ∧ nativeAmountToNmas ⟨1, 137⟩ = none :=
  ⟨by decide, by decide, rfl, by decide⟩

end MassaIndexer.Laws.NativeAmounts
