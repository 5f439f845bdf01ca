/-
# Laws.LebReaders -- which LEB128 codes the analyzer's readers accept

A reader is exact on a string when it returns a value just if the string begins with a code of that value
in its width (`ReadsExactly`). The three readers of the analyzer are exact on the strings whose first code
they were written for, and on no others (`leb_readers_exact_iff`): the unsigned one lets a sixth byte
pass and folds the top of a fifth one away, the signed ones have no limit at all, and the 64-bit one does
not extend the sign of a tenth byte.
-/
import MassaIndexer.Explorer.WasmReader
import Mathlib.Algebra.Order.Ring.Int

namespace MassaIndexer.Laws.LebReaders

open MassaIndexer.Theory.Leb128 MassaIndexer.Explorer.WasmReader

set_option autoImplicit false

/-! ## Exactness -/

section Exactness

variable {V : Type}

/-- The reader returns `v` and leaves `rest` exactly when a code of `v` stands before `rest`, and so
throws where there is none. -/
def ReadsExactly (read : Reading V) (Code : List UInt8 → V → Prop) (bytes : List UInt8) : Prop :=
  ∀ v rest, read bytes = .ok (v, rest) ↔ ∃ code, bytes = code ++ rest ∧ Code code v

/-- Where a reader returns only behind a code, it is exact when it is on the code the string begins
with. -/
theorem readsExactly_iff {read : Reading V} {Code : List UInt8 → V → Prop}
    (ends : ∀ code v, Code code v → Terminated code)
    (begins : ∀ bytes v rest, read bytes = .ok (v, rest) →
      ∃ code, bytes = code ++ rest ∧ Terminated code) (bytes : List UInt8) :
    ReadsExactly read Code bytes ↔ ∀ code rest, bytes = code ++ rest → Terminated code →
      ∀ v, read (code ++ rest) = .ok (v, rest) ↔ Code code v := by
  constructor
  · rintro exact_ code rest rfl terminated v
    rw [exact_ v rest]
    constructor
    · rintro ⟨code', same, coded⟩
      obtain ⟨rfl, -⟩ := code_unique terminated (ends code' v coded) same
      exact coded
    · intro coded
      exact ⟨code, rfl, coded⟩
  · intro onCode v rest
    constructor
    · intro read
      obtain ⟨code, rfl, terminated⟩ := begins bytes v rest read
      exact ⟨code, rfl, (onCode code rest rfl terminated v).mp read⟩
    · rintro ⟨code, rfl, coded⟩
      exact (onCode code rest rfl (ends code v coded) v).mpr coded

/-- A string that is a code is read wrong when what is returned is not what it is a code of. -/
theorem not_readsExactly {read : Reading V} {Code : List UInt8 → V → Prop} {code : List UInt8} {v : V}
    (ends : ∀ code v, Code code v → Terminated code) (terminated : Terminated code)
    (returns : read code = .ok (v, [])) (wrong : ¬ Code code v) : ¬ ReadsExactly read Code code := by
  intro exact_
  obtain ⟨code', same, coded⟩ := (exact_ v []).mp returns
  obtain ⟨rfl, -⟩ := code_unique terminated (ends code' v coded) ((List.append_nil code).trans same)
  exact wrong coded

end Exactness

/-! ## The codes they read right -/

/-- Not six bytes; and of five, a last one without bits beyond the word. -/
def ReadAsU32 (code : List UInt8) : Prop :=
  code.length ≠ 6 ∧ (code.length = 5 → (lastByte code).toNat < 0x10)

/-- At most five bytes; and of five, a last one whose bits beyond the word are all the sign. -/
def ReadAsS32 (code : List UInt8) : Prop :=
  code.length ≤ 5 ∧ (code.length = 5 → (lastByte code).toNat < 0x08 ∨ 0x78 ≤ (lastByte code).toNat)

/-- At most nine bytes; or ten, and the last one is zero. -/
def ReadAsS64 (code : List UInt8) : Prop :=
  code.length ≤ 9 ∨ code.length = 10 ∧ (lastByte code).toNat = 0

section OnCodes

variable {code : List UInt8} (terminated : Terminated code) (rest : List UInt8)

theorem payload_lt_of_le (code : List UInt8) {n : Nat} (short : code.length ≤ n) : payload code < 2 ^ (7 * n) :=
  Nat.lt_of_lt_of_le (payload_lt code) (Nat.pow_le_pow_right (by decide) (by omega))

include terminated

theorem payload_lt_word_iff (five : code.length = 5) :
    payload code < 2 ^ 32 ↔ (lastByte code).toNat < 0x10 := by
  obtain ⟨low, fits, value⟩ := exists_split terminated
  rw [five] at fits value
  norm_num at fits value
  rw [value]
  norm_num
  omega

theorem lebU32_onCode :
    (∀ v, lebU32 (code ++ rest) = .ok (v, rest) ↔ IsUnsigned 32 code v) ↔ ReadAsU32 code := by
  constructor
  · intro onCode
    constructor
    · intro six
      obtain ⟨v, read⟩ := lebU32From_of_six rest 0 0 terminated (by omega)
      have short := ((onCode v).mp read).short
      rw [six] at short
      exact absurd short (by decide)
    · intro five
      have coded := (onCode _).mp (lebU32_of_short rest terminated (by omega))
      rw [← payload_lt_word_iff terminated five, coded.value]
      exact coded.fits
  · intro right v
    by_cases short : code.length ≤ 5
    · have fits : payload code < 2 ^ 32 := by
        by_cases five : code.length = 5
        · exact (payload_lt_word_iff terminated five).mpr (right.2 five)
        · exact Nat.lt_trans (payload_lt_of_le code (n := 4) (by omega)) (by decide)
      rw [lebU32_of_short rest terminated short, Nat.mod_eq_of_lt fits]
      constructor
      · intro read
        obtain ⟨same, -⟩ := Prod.mk.inj (Except.ok.inj read)
        exact ⟨terminated, short, same, same ▸ fits⟩
      · intro coded
        rw [coded.value]
    · constructor
      · intro read
        obtain ⟨code', same, ends, within⟩ := code_of_lebU32From rest 0 0 (by decide) read
        obtain ⟨rfl, -⟩ := code_unique terminated ends same
        exact absurd (show code.length = 6 by omega) right.1
      · intro coded
        exact absurd coded.short short

/-- The last of five bytes decides whether the value fits, and what the word makes of it. -/
theorem signedPayload_five (five : code.length = 5) :
    (-2 ^ 31 ≤ signedPayload code ∧ signedPayload code < 2 ^ 31) ↔
      ((lastByte code).toNat < 0x08 ∨ 0x78 ≤ (lastByte code).toNat) := by
  obtain ⟨low, fits, value⟩ := exists_split terminated
  have top := lastByte_lt terminated
  rw [five] at fits value
  norm_num at fits value
  simp only [signedPayload, negative_iff terminated, five, value]
  norm_num
  split
  · omega
  · omega

theorem signedWord_eq (right : ReadAsS32 code) :
    signedWord (payload code) code.length (Negative code) = signedPayload code := by
  obtain ⟨short, sign⟩ := right
  unfold signedWord signedPayload
  by_cases five : code.length = 5
  · obtain ⟨low, fits, value⟩ := exists_split terminated
    have top := lastByte_lt terminated
    have sign := sign five
    rw [five] at fits value
    norm_num at fits value
    rw [if_neg (by omega), BitVec.toInt_eq_toNat_cond, BitVec.toNat_ofNat, five, value]
    simp only [negative_iff terminated]
    norm_num
    split
    · split
      · omega
      · omega
    · split
      · omega
      · omega
  · have small := payload_lt_of_le code (n := 4) (by omega)
    norm_num at small
    have word : (BitVec.ofNat 32 (payload code)).toInt = payload code := by
      rw [BitVec.toInt_eq_toNat_cond, BitVec.toNat_ofNat]
      norm_num
      omega
    rw [word]
    simp only [show 7 * code.length < 32 by omega, true_and]

theorem lebS32_onCode :
    (∀ v, lebS32 (code ++ rest) = .ok (v, rest) ↔ IsSigned 32 code v) ↔ ReadAsS32 code := by
  constructor
  · intro onCode
    obtain ⟨v, read⟩ := lebS32From_of_code rest 0 0 terminated
    have coded := (onCode v).mp read
    refine ⟨coded.short, fun five => ?_⟩
    rw [← signedPayload_five terminated five, coded.value]
    exact ⟨coded.above, coded.below⟩
  · intro right v
    rw [lebS32_of_short rest terminated right.1, signedWord_eq terminated right]
    constructor
    · intro read
      obtain ⟨same, -⟩ := Prod.mk.inj (Except.ok.inj read)
      have range : -2 ^ 31 ≤ signedPayload code ∧ signedPayload code < 2 ^ 31 := by
        by_cases five : code.length = 5
        · exact (signedPayload_five terminated five).mpr (right.2 five)
        · have short := right.1
          have small := payload_lt_of_le code (n := 4) (by omega)
          have width : (2 : Int) ^ (7 * code.length) ≤ 2 ^ 28 :=
            pow_le_pow_right₀ (by decide) (by omega)
          have positive : (0 : Int) < 2 ^ (7 * code.length) := pow_pos (by decide) _
          norm_num at small width
          unfold signedPayload
          split
          · omega
          · omega
      exact ⟨terminated, right.1, same, same ▸ range.1, same ▸ range.2⟩
    · intro coded
      rw [coded.value]

theorem lebS64_onCode :
    (∀ v, lebS64 (code ++ rest) = .ok (v, rest) ↔ IsSigned 64 code v) ↔ ReadAsS64 code := by
  rw [lebS64_of_code rest terminated]
  constructor
  · intro onCode
    have coded := (onCode _).mp rfl
    have short : code.length ≤ 10 := coded.short
    by_cases ten : code.length = 10
    · obtain ⟨low, fits, value⟩ := exists_split terminated
      have same := coded.value
      have below := coded.below
      rw [signedBig, if_neg (by omega)] at same below
      rw [ten] at value
      unfold signedPayload at same
      split at same
      · have positive : (0 : Int) < 2 ^ (7 * code.length) := pow_pos (by decide) _
        omega
      · refine .inr ⟨ten, ?_⟩
        norm_num at value below
        omega
    · exact .inl (by omega)
  · intro right v
    have same : signedBig (payload code) code.length (Negative code) = signedPayload code := by
      unfold signedBig signedPayload
      rcases right with few | ⟨ten, zero⟩
      · simp only [show 7 * code.length < 64 by omega, true_and]
      · rw [if_neg (by omega), if_neg (by rw [Negative, zero]; decide)]
    have range : -2 ^ 63 ≤ signedPayload code ∧ signedPayload code < 2 ^ 63 := by
      unfold signedPayload
      rcases right with few | ⟨ten, zero⟩
      · have small := payload_lt_of_le code (n := 9) few
        have width : (2 : Int) ^ (7 * code.length) ≤ 2 ^ 63 :=
          pow_le_pow_right₀ (by decide) (by omega)
        have positive : (0 : Int) < 2 ^ (7 * code.length) := pow_pos (by decide) _
        norm_num at small width ⊢
        split
        · omega
        · omega
      · obtain ⟨low, fits, value⟩ := exists_split terminated
        rw [if_neg (by rw [Negative, zero]; decide)]
        rw [ten, zero] at value
        rw [ten] at fits
        norm_num at fits value ⊢
        omega
    have short : code.length ≤ 10 := by
      rcases right with few | ten
      · omega
      · omega
    rw [same]
    constructor
    · intro read
      obtain ⟨value, -⟩ := Prod.mk.inj (Except.ok.inj read)
      exact ⟨terminated, short, value, value ▸ range.1, value ▸ range.2⟩
    · intro coded
      rw [coded.value]

end OnCodes

/-! ## The claim -/

/-- On every string: each reader is exact exactly when the code that the string begins with, if there is
one, is of the kind it reads right. -/
theorem leb_readers_exact_iff (bytes : List UInt8) :
    (ReadsExactly lebU32 (IsUnsigned 32) bytes ↔
      ∀ code rest, bytes = code ++ rest → Terminated code → ReadAsU32 code) ∧
    (ReadsExactly lebS32 (IsSigned 32) bytes ↔
      ∀ code rest, bytes = code ++ rest → Terminated code → ReadAsS32 code) ∧
    (ReadsExactly lebS64 (IsSigned 64) bytes ↔
      ∀ code rest, bytes = code ++ rest → Terminated code → ReadAsS64 code) := by
  refine ⟨?_, ?_, ?_⟩
  · have begins : ∀ bytes v rest, lebU32 bytes = .ok (v, rest) →
        ∃ code, bytes = code ++ rest ∧ Terminated code := by
      intro bytes v rest read
      obtain ⟨code, whole, terminated, -⟩ :=
        code_of_lebU32From rest 0 0 (by decide) read
      exact ⟨code, whole, terminated⟩
    rw [readsExactly_iff (fun _ _ coded => coded.terminated) begins]
    exact forall₄_congr fun code rest _ terminated => lebU32_onCode terminated rest
  · have begins : ∀ bytes v rest, lebS32 bytes = .ok (v, rest) →
        ∃ code, bytes = code ++ rest ∧ Terminated code := fun bytes v rest read =>
      code_of_lebS32From rest 0 0 read
    rw [readsExactly_iff (fun _ _ coded => coded.terminated) begins]
    exact forall₄_congr fun code rest _ terminated => lebS32_onCode terminated rest
  · have begins : ∀ bytes v rest, lebS64 bytes = .ok (v, rest) →
        ∃ code, bytes = code ++ rest ∧ Terminated code := fun bytes v rest read =>
      code_of_lebS64From rest 0 0 read
    rw [readsExactly_iff (fun _ _ coded => coded.terminated) begins]
    exact forall₄_congr fun code rest _ terminated => lebS64_onCode terminated rest

/-- A sixth byte passes, a bit beyond the word is folded away, and the ten bytes of -1 are read as a large
number. -/
theorem leb_readers_not_exact :
    ¬ ReadsExactly lebU32 (IsUnsigned 32) [0x80, 0x80, 0x80, 0x80, 0x80, 0x00] ∧
    ¬ ReadsExactly lebS32 (IsSigned 32) [0x80, 0x80, 0x80, 0x80, 0x10] ∧
    ¬ ReadsExactly lebS64 (IsSigned 64)
      [0xff, 0xff, 0xff, 0xff, 0xff, 0xff, 0xff, 0xff, 0xff, 0x7f] := by
  refine ⟨?_, ?_, ?_⟩
  · refine not_readsExactly (fun _ _ coded => coded.terminated) (by decide) (v := 0) rfl ?_
    exact fun coded => absurd coded.short (by decide)
  · refine not_readsExactly (fun _ _ coded => coded.terminated) (by decide) (v := 0) rfl ?_
    exact fun coded => absurd coded.value (by decide)
  · refine not_readsExactly (fun _ _ coded => coded.terminated) (by decide) (v := 2 ^ 70 - 1) rfl ?_
    exact fun coded => absurd coded.below (by decide)

end MassaIndexer.Laws.LebReaders
