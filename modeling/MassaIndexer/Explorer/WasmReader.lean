/-
# Explorer.WasmReader -- the byte reader of the WASM analyzer

`Reader` walks a byte array by a position and throws where the array ends. A reading is a function of the
bytes from the position on; it throws a text, or returns a value and the bytes it left.

The LEB128 readers work on JavaScript's numbers. `<<` and `|` are operations on 32-bit words and a shift
counts modulo 32 (`lebU32`, `lebS32`); the 64-bit reader has unbounded integers (`lebS64`).
-/
import MassaIndexer.Theory.Leb128

namespace MassaIndexer.Explorer.WasmReader

open MassaIndexer.Theory.Leb128

set_option autoImplicit false

/-! ## Readings -/

abbrev Reading (α : Type) := StateT (List UInt8) (Except String) α

section Steps

variable {α β : Type} {first : Reading α} {next : α → Reading β} {bytes rest : List UInt8} {a : α}

theorem bind_of_ok (read : first bytes = .ok (a, rest)) : (first >>= next) bytes = next a rest := by
  show (first bytes >>= fun p => next p.1 p.2) = _
  rw [read]
  rfl

theorem bind_of_error {e : String} (threw : first bytes = .error e) :
    (first >>= next) bytes = .error e := by
  show (first bytes >>= fun p => next p.1 p.2) = _
  rw [threw]
  rfl

theorem bind_eq_ok {b : β} : (first >>= next) bytes = .ok (b, rest) ↔
    ∃ a rest', first bytes = .ok (a, rest') ∧ next a rest' = .ok (b, rest) := by
  constructor
  · intro read
    cases threw : first bytes with
    | error e => exact absurd ((bind_of_error threw).symm.trans read) (by simp)
    | ok p =>
        obtain ⟨a, rest'⟩ := p
        exact ⟨a, rest', rfl, (bind_of_ok threw).symm.trans read⟩
  · rintro ⟨a, rest', read, read'⟩
    exact (bind_of_ok read).trans read'

@[simp] theorem pure_apply (b : α) : (pure b : Reading α) bytes = .ok (b, bytes) := rfl

end Steps

/-! ## Bytes and texts -/

def eof : String := "unexpected EOF (u8)"

def u8 : Reading UInt8
  | [] => .error eof
  | b :: rest => .ok (b, rest)

def bytesOf (n : Nat) : Reading (List UInt8) := fun bytes =>
  if bytes.length < n then
    .error ("unexpected EOF (need " ++ toString n ++ ", have " ++ toString bytes.length ++ ")")
  else .ok (bytes.take n, bytes.drop n)

/-! ## LEB128 -/

/-- `result |= (b & 0x7f) << shift` on words. -/
def orDigits (result : BitVec 32) (b : UInt8) (shift : Nat) : BitVec 32 :=
  result ||| BitVec.ofNat 32 (b.toNat &&& 0x7f) <<< (shift % 32)

/-- The limit is tested after the shift has advanced, and only where another byte follows. -/
def lebU32From (result : BitVec 32) (shift : Nat) : List UInt8 → Except String (Nat × List UInt8)
  | [] => .error eof
  | b :: rest =>
      let result := orDigits result b shift
      if b.toNat &&& 0x80 = 0 then .ok (result.toNat, rest)
      else if shift + 7 > 35 then .error "LEB u32 too long"
      else lebU32From result (shift + 7) rest

def lebU32 : Reading Nat := lebU32From 0 0

def lebS32From (result : BitVec 32) (shift : Nat) : List UInt8 → Except String (Int × List UInt8)
  | [] => .error eof
  | b :: rest =>
      let result := orDigits result b shift
      let shift := shift + 7
      if b.toNat &&& 0x80 ≠ 0 then lebS32From result shift rest
      else if shift < 32 ∧ b.toNat &&& 0x40 ≠ 0 then
        .ok ((result ||| BitVec.ofInt 32 (-1) <<< (shift % 32)).toInt, rest)
      else .ok (result.toInt, rest)

def lebS32 : Reading Int := lebS32From 0 0

def lebS64From (result : Int) (shift : Nat) : List UInt8 → Except String (Int × List UInt8)
  | [] => .error eof
  | b :: rest =>
      let result := Int.lor result (((b.toNat &&& 0x7f : Nat) : Int) <<< shift)
      let shift := shift + 7
      if b.toNat &&& 0x80 ≠ 0 then lebS64From result shift rest
      else if shift < 64 ∧ b.toNat &&& 0x40 ≠ 0 then .ok (Int.lor result ((-1 : Int) <<< shift), rest)
      else .ok (result, rest)

def lebS64 : Reading Int := lebS64From 0 0

/-! ## What the readers see of a byte -/

theorem and_0x80_eq_zero (b : UInt8) : b.toNat &&& 0x80 = 0 ↔ ¬ Continues b := by
  have all : ∀ n : Fin 256, n.val &&& 0x80 = 0 ↔ ¬ 128 ≤ n.val := by decide +kernel
  exact all ⟨b.toNat, b.toNat_lt⟩

theorem and_0x7f (b : UInt8) : b.toNat &&& 0x7f = b.toNat % 128 :=
  Nat.and_two_pow_sub_one_eq_mod b.toNat 7

theorem and_0x40_ne_zero (b : UInt8) : b.toNat &&& 0x40 ≠ 0 ↔ 64 ≤ b.toNat % 128 := by
  have all : ∀ n : Fin 256, n.val &&& 0x40 ≠ 0 ↔ 64 ≤ n.val % 128 := by decide +kernel
  exact all ⟨b.toNat, b.toNat_lt⟩

/-- Digits are added while they lie above those that are there and the shift is a word's. -/
theorem orDigits_ofNat {p shift : Nat} (low : p < 2 ^ shift) (inWord : shift < 32) (b : UInt8) :
    orDigits (BitVec.ofNat 32 p) b shift = BitVec.ofNat 32 (p + b.toNat % 128 * 2 ^ shift) := by
  rw [orDigits, and_0x7f, Nat.mod_eq_of_lt inWord, ofNat_or_shiftLeft low]

theorem grown_lt {p shift : Nat} (low : p < 2 ^ shift) (b : UInt8) :
    p + b.toNat % 128 * 2 ^ shift < 2 ^ (shift + 7) := by
  have digit : b.toNat % 128 ≤ 127 := Nat.le_of_lt_succ (Nat.mod_lt _ (by decide))
  have most : b.toNat % 128 * 2 ^ shift ≤ 127 * 2 ^ shift := Nat.mul_le_mul_right _ digit
  rw [Nat.pow_add]
  omega

/-- The value of the bytes that follow, above what was read. -/
theorem payload_above (p shift : Nat) (b : UInt8) (rest : List UInt8) :
    p + b.toNat % 128 * 2 ^ shift + payload rest * 2 ^ (shift + 7) =
      p + payload (b :: rest) * 2 ^ shift := by
  rw [payload, Nat.pow_add]
  ring

/-! ## Codes read back -/

section Codes

variable {code : List UInt8} (rest : List UInt8)

/-- Up to five bytes the unsigned reader adds up the digits, in a word. -/
theorem lebU32From_of_short {p j : Nat} (ends : Terminated code) (short : j + code.length ≤ 5)
    (low : p < 2 ^ (7 * j)) : lebU32From (BitVec.ofNat 32 p) (7 * j) (code ++ rest) =
      .ok ((p + payload code * 2 ^ (7 * j)) % 2 ^ 32, rest) := by
  induction code generalizing p j with
  | nil => exact ends.elim
  | cons b tail ih =>
      have inWord : 7 * j < 32 := by
        rw [List.length_cons] at short
        omega
      rw [List.cons_append, lebU32From, orDigits_ofNat low inWord]
      by_cases more : Continues b
      · rw [terminated_cons_of_continues more] at ends
        have positive := ends.length_pos
        rw [List.length_cons] at short
        have again : ¬ b.toNat &&& 0x80 = 0 := fun zero => (and_0x80_eq_zero b).mp zero more
        simp only [if_neg again, if_neg (show ¬ 7 * j + 7 > 35 by omega)]
        have later := ih ends (p := p + b.toNat % 128 * 2 ^ (7 * j)) (j := j + 1) (by omega)
          (grown_lt low b)
        rw [Nat.mul_add] at later
        rw [later, payload_above]
      · rw [terminated_cons_of_last more] at ends
        subst ends
        simp only [if_pos ((and_0x80_eq_zero b).mpr more), BitVec.toNat_ofNat, payload, Nat.mul_zero,
          Nat.add_zero, List.nil_append]

theorem lebU32_of_short (ends : Terminated code) (short : code.length ≤ 5) :
    lebU32 (code ++ rest) = .ok (payload code % 2 ^ 32, rest) := by
  have read := lebU32From_of_short rest ends (p := 0) (j := 0) (by omega) (by decide)
  rw [Nat.mul_zero, Nat.pow_zero, Nat.mul_one, Nat.zero_add] at read
  exact read

/-- With six bytes it still returns, whatever it makes of the last one. -/
theorem lebU32From_of_six (result : BitVec 32) (j : Nat) (ends : Terminated code)
    (six : j + code.length ≤ 6) : ∃ v, lebU32From result (7 * j) (code ++ rest) = .ok (v, rest) := by
  induction code generalizing result j with
  | nil => exact ends.elim
  | cons b tail ih =>
      rw [List.cons_append, lebU32From]
      by_cases more : Continues b
      · rw [terminated_cons_of_continues more] at ends
        have positive := ends.length_pos
        rw [List.length_cons] at six
        have again : ¬ b.toNat &&& 0x80 = 0 := fun zero => (and_0x80_eq_zero b).mp zero more
        simp only [if_neg again, if_neg (show ¬ 7 * j + 7 > 35 by omega)]
        exact ih _ (j + 1) ends (by omega)
      · rw [terminated_cons_of_last more] at ends
        subst ends
        simp only [if_pos ((and_0x80_eq_zero b).mpr more), List.nil_append]
        exact ⟨_, rfl⟩

/-- What it returns ends with a code of at most six bytes. -/
theorem code_of_lebU32From (result : BitVec 32) (j : Nat) (within : j ≤ 5) {bytes : List UInt8} {v : Nat}
    (read : lebU32From result (7 * j) bytes = .ok (v, rest)) :
    ∃ code, bytes = code ++ rest ∧ Terminated code ∧ j + code.length ≤ 6 := by
  induction bytes generalizing result j with
  | nil => exact absurd read (by simp [lebU32From])
  | cons b tail ih =>
      rw [lebU32From] at read
      by_cases more : Continues b
      · have again : ¬ b.toNat &&& 0x80 = 0 := fun zero => (and_0x80_eq_zero b).mp zero more
        simp only [if_neg again] at read
        split at read
        · exact absurd read (by simp)
        · next room =>
            obtain ⟨code, rfl, ends, short⟩ := ih _ (j + 1) (by omega) read
            refine ⟨b :: code, rfl, (terminated_cons_of_continues more code).mpr ends, ?_⟩
            rw [List.length_cons]
            omega
      · simp only [if_pos ((and_0x80_eq_zero b).mpr more)] at read
        obtain ⟨-, rfl⟩ := Prod.mk.inj (Except.ok.inj read)
        exact ⟨[b], rfl, (terminated_cons_of_last more []).mpr rfl, by simp; omega⟩

/-- Ones above at most 28 bits of digits make a negative word. -/
theorem toInt_or_ones {p k : Nat} (low : p < 2 ^ (7 * k)) (few : k ≤ 4) :
    (BitVec.ofNat 32 p ||| BitVec.ofInt 32 (-1) <<< (7 * k % 32)).toInt = (p : Int) - 2 ^ (7 * k) := by
  have ones : BitVec.ofInt 32 (-1) = BitVec.ofNat 32 (2 ^ 32 - 1) := by decide
  rw [ones, Nat.mod_eq_of_lt (by omega), ofNat_or_shiftLeft low, BitVec.toInt_eq_toNat_cond,
    BitVec.toNat_ofNat]
  obtain rfl | rfl | rfl | rfl | rfl : k = 0 ∨ k = 1 ∨ k = 2 ∨ k = 3 ∨ k = 4 := by omega
  · simp only [Nat.mul_zero, Nat.pow_zero, Nat.lt_one_iff] at low
    subst low
    decide
  all_goals
    simp only [Nat.reduceMul, Nat.reducePow, Nat.reduceSub, Int.reducePow] at low ⊢
    omega

/-- What the signed 32-bit reader makes of the digits of `k` bytes. -/
def signedWord (p k : Nat) (negative : Prop) [Decidable negative] : Int :=
  if 7 * k < 32 ∧ negative then (p : Int) - 2 ^ (7 * k) else (BitVec.ofNat 32 p).toInt

theorem lebS32From_of_short {p j : Nat} (ends : Terminated code) (short : j + code.length ≤ 5)
    (low : p < 2 ^ (7 * j)) : lebS32From (BitVec.ofNat 32 p) (7 * j) (code ++ rest) =
      .ok (signedWord (p + payload code * 2 ^ (7 * j)) (j + code.length) (Negative code), rest) := by
  induction code generalizing p j with
  | nil => exact ends.elim
  | cons b tail ih =>
      have inWord : 7 * j < 32 := by
        rw [List.length_cons] at short
        omega
      rw [List.cons_append, lebS32From, orDigits_ofNat low inWord]
      by_cases more : Continues b
      · rw [terminated_cons_of_continues more] at ends
        have positive := ends.length_pos
        have again : b.toNat &&& 0x80 ≠ 0 := fun zero => (and_0x80_eq_zero b).mp zero more
        rw [List.length_cons] at short ⊢
        have later := ih ends (p := p + b.toNat % 128 * 2 ^ (7 * j)) (j := j + 1) (by omega)
          (grown_lt low b)
        rw [Nat.mul_add] at later
        rw [if_pos again, later, payload_above]
        simp only [signedWord, negative_cons_of_terminated ends, Nat.add_right_comm, Nat.add_assoc]
      · rw [terminated_cons_of_last more] at ends
        subst ends
        have last : ¬ b.toNat &&& 0x80 ≠ 0 := fun high => high ((and_0x80_eq_zero b).mpr more)
        have whole : payload [b] = b.toNat % 128 := by
          rw [payload, payload, Nat.mul_zero, Nat.add_zero]
        have next : 7 * j + 7 = 7 * (j + 1) := by omega
        have grown := grown_lt low b
        rw [next] at grown
        simp only [if_neg last, List.nil_append, List.length_singleton, whole, signedWord,
          and_0x40_ne_zero, next]
        have same : Negative [b] ↔ 64 ≤ b.toNat % 128 := Iff.rfl
        simp only [same]
        split
        · next negative => rw [toInt_or_ones grown (by omega)]
        · rfl

theorem lebS32_of_short (ends : Terminated code) (short : code.length ≤ 5) :
    lebS32 (code ++ rest) =
      .ok (signedWord (payload code) code.length (Negative code), rest) := by
  have read := lebS32From_of_short rest ends (p := 0) (j := 0) (by omega) (by decide)
  rw [Nat.mul_zero, Nat.pow_zero, Nat.mul_one, Nat.zero_add, Nat.zero_add] at read
  exact read

/-- It has no limit. -/
theorem lebS32From_of_code (result : BitVec 32) (shift : Nat) (ends : Terminated code) :
    ∃ v, lebS32From result shift (code ++ rest) = .ok (v, rest) := by
  induction code generalizing result shift with
  | nil => exact ends.elim
  | cons b tail ih =>
      rw [List.cons_append, lebS32From]
      by_cases more : Continues b
      · rw [terminated_cons_of_continues more] at ends
        have again : b.toNat &&& 0x80 ≠ 0 := fun zero => (and_0x80_eq_zero b).mp zero more
        simp only [if_pos again]
        exact ih _ _ ends
      · rw [terminated_cons_of_last more] at ends
        subst ends
        have last : ¬ b.toNat &&& 0x80 ≠ 0 := fun high => high ((and_0x80_eq_zero b).mpr more)
        simp only [if_neg last, List.nil_append]
        split
        · exact ⟨_, rfl⟩
        · exact ⟨_, rfl⟩

theorem code_of_lebS32From (result : BitVec 32) (shift : Nat) {bytes : List UInt8} {v : Int}
    (read : lebS32From result shift bytes = .ok (v, rest)) :
    ∃ code, bytes = code ++ rest ∧ Terminated code := by
  induction bytes generalizing result shift with
  | nil => exact absurd read (by simp [lebS32From])
  | cons b tail ih =>
      rw [lebS32From] at read
      by_cases more : Continues b
      · have again : b.toNat &&& 0x80 ≠ 0 := fun zero => (and_0x80_eq_zero b).mp zero more
        simp only [if_pos again] at read
        obtain ⟨code, rfl, ends⟩ := ih _ _ read
        exact ⟨b :: code, rfl, (terminated_cons_of_continues more code).mpr ends⟩
      · have last : ¬ b.toNat &&& 0x80 ≠ 0 := fun high => high ((and_0x80_eq_zero b).mpr more)
        simp only [if_neg last] at read
        refine ⟨[b], ?_, (terminated_cons_of_last more []).mpr rfl⟩
        split at read
        · obtain ⟨-, rfl⟩ := Prod.mk.inj (Except.ok.inj read)
          rfl
        · obtain ⟨-, rfl⟩ := Prod.mk.inj (Except.ok.inj read)
          rfl

/-- What the signed 64-bit reader makes of the digits of `k` bytes. -/
def signedBig (p k : Nat) (negative : Prop) [Decidable negative] : Int :=
  if 7 * k < 64 ∧ negative then (p : Int) - 2 ^ (7 * k) else p

theorem lebS64From_of_code {p j : Nat} (ends : Terminated code) (low : p < 2 ^ (7 * j)) :
    lebS64From p (7 * j) (code ++ rest) =
      .ok (signedBig (p + payload code * 2 ^ (7 * j)) (j + code.length) (Negative code), rest) := by
  induction code generalizing p j with
  | nil => exact ends.elim
  | cons b tail ih =>
      rw [List.cons_append, lebS64From, and_0x7f, lor_shiftLeft low]
      by_cases more : Continues b
      · rw [terminated_cons_of_continues more] at ends
        have again : b.toNat &&& 0x80 ≠ 0 := fun zero => (and_0x80_eq_zero b).mp zero more
        have later := ih ends (p := p + b.toNat % 128 * 2 ^ (7 * j)) (j := j + 1) (grown_lt low b)
        rw [Nat.mul_add] at later
        rw [if_pos again, later, payload_above, List.length_cons]
        simp only [signedBig, negative_cons_of_terminated ends, Nat.add_right_comm, Nat.add_assoc]
      · rw [terminated_cons_of_last more] at ends
        subst ends
        have last : ¬ b.toNat &&& 0x80 ≠ 0 := fun high => high ((and_0x80_eq_zero b).mpr more)
        have whole : payload [b] = b.toNat % 128 := by
          rw [payload, payload, Nat.mul_zero, Nat.add_zero]
        have next : 7 * j + 7 = 7 * (j + 1) := by omega
        have grown := grown_lt low b
        rw [next] at grown
        simp only [if_neg last, List.nil_append, List.length_singleton, whole, signedBig,
          and_0x40_ne_zero, next]
        have same : Negative [b] ↔ 64 ≤ b.toNat % 128 := Iff.rfl
        simp only [same]
        split
        · rw [lor_neg_one_shiftLeft grown]
        · rfl

theorem lebS64_of_code (ends : Terminated code) : lebS64 (code ++ rest) =
    .ok (signedBig (payload code) code.length (Negative code), rest) := by
  have read := lebS64From_of_code rest ends (p := 0) (j := 0) (by decide)
  rw [Nat.mul_zero, Nat.pow_zero, Nat.mul_one, Nat.zero_add, Nat.zero_add] at read
  exact read

theorem code_of_lebS64From (result : Int) (shift : Nat) {bytes : List UInt8} {v : Int}
    (read : lebS64From result shift bytes = .ok (v, rest)) :
    ∃ code, bytes = code ++ rest ∧ Terminated code := by
  induction bytes generalizing result shift with
  | nil => exact absurd read (by simp [lebS64From])
  | cons b tail ih =>
      rw [lebS64From] at read
      by_cases more : Continues b
      · have again : b.toNat &&& 0x80 ≠ 0 := fun zero => (and_0x80_eq_zero b).mp zero more
        simp only [if_pos again] at read
        obtain ⟨code, rfl, ends⟩ := ih _ _ read
        exact ⟨b :: code, rfl, (terminated_cons_of_continues more code).mpr ends⟩
      · have last : ¬ b.toNat &&& 0x80 ≠ 0 := fun high => high ((and_0x80_eq_zero b).mpr more)
        simp only [if_neg last] at read
        refine ⟨[b], ?_, (terminated_cons_of_last more []).mpr rfl⟩
        split at read
        · obtain ⟨-, rfl⟩ := Prod.mk.inj (Except.ok.inj read)
          rfl
        · obtain ⟨-, rfl⟩ := Prod.mk.inj (Except.ok.inj read)
          rfl

end Codes

end MassaIndexer.Explorer.WasmReader
