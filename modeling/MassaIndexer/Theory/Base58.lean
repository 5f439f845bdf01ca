/-
# Theory.Base58 -- positional rebasing and the base58-check coding built on it

A base58 string is the big-endian base-256 reading of its bytes written in base 58, with every
leading zero byte kept as one leading zero digit. Both directions are one operation, `rebase`,
between two digit alphabets; it is its own inverse (`rebase_rebase`), so no byte string has two
spellings and no spelling two readings.

* `decode_encode`, `encode_of_decode` -- base58 is a bijection onto the strings it accepts.
* `decodeCheck_encodeCheck`, `encodeCheck_of_decodeCheck` -- the same with a four-byte checksum,
  for any checksum function of that width.
-/
import Mathlib.Data.Nat.Digits.Lemmas
import Mathlib.Tactic.Common
import MassaIndexer.Theory.Sha256

namespace MassaIndexer.Theory.Base58

set_option autoImplicit false

/-! ## Rebasing digit strings -/

/-- Big-endian base-`b` digits rewritten in base `c`; leading zeros are carried over one by one. -/
def rebase (b c : Nat) (ds : List Nat) : List Nat :=
  ds.takeWhile (· == 0) ++
    (Nat.digits c (Nat.ofDigits b (ds.dropWhile (· == 0)).reverse)).reverse

theorem rebase_lt {b c : Nat} (hc : 1 < c) {ds : List Nat} {d : Nat} (found : d ∈ rebase b c ds) :
    d < c := by
  simp only [rebase, List.mem_append, List.mem_reverse] at found
  rcases found with zero | digit
  · have : d = 0 := by simpa using List.all_eq_true.mp List.all_takeWhile d zero
    omega
  · exact Nat.digits_lt_base hc digit

/-- Leading zeros in front of digits that do not start with one are recovered exactly. -/
theorem takeWhile_zeros_append {zeros rest : List Nat} (hz : ∀ d ∈ zeros, d = 0)
    (hr : ∀ d ∈ rest.head?, d ≠ 0) :
    (zeros ++ rest).takeWhile (· == 0) = zeros ∧ (zeros ++ rest).dropWhile (· == 0) = rest := by
  have allZero : ∀ d ∈ zeros, (d == 0) = true := by simpa using hz
  rw [List.takeWhile_append_of_pos allZero, List.dropWhile_append_of_pos allZero]
  cases rest with
  | nil => simp
  | cons d rest =>
      have nonzero : d ≠ 0 := hr d (by simp)
      simp [nonzero]

theorem digits_reverse_head_ne_zero (c n : Nat) :
    ∀ d ∈ (Nat.digits c n).reverse.head?, d ≠ 0 := by
  intro d found
  rw [List.head?_reverse] at found
  by_cases hn : n = 0
  · simp [hn] at found
  · have last := Nat.getLast_digit_ne_zero c hn
    rw [List.getLast?_eq_some_getLast (Nat.digits_ne_nil_iff_ne_zero.mpr hn)] at found
    simp only [Option.mem_def, Option.some.injEq] at found
    exact found ▸ last

/-- **Rebasing back restores the digits.** -/
theorem rebase_rebase {b c : Nat} (hb : 1 < b) {ds : List Nat} (bounded : ∀ d ∈ ds, d < b) :
    rebase c b (rebase b c ds) = ds := by
  have zeros : ∀ d ∈ ds.takeWhile (· == 0), d = 0 := fun d found => by
    simpa using List.all_eq_true.mp List.all_takeWhile d found
  obtain ⟨front, back⟩ := takeWhile_zeros_append zeros
    (digits_reverse_head_ne_zero c (Nat.ofDigits b (ds.dropWhile (· == 0)).reverse))
  have restBounded : ∀ d ∈ (ds.dropWhile (· == 0)).reverse, d < b := fun d found =>
    bounded d ((List.dropWhile_sublist _).mem (List.mem_reverse.mp found))
  have restLast : ∀ h : (ds.dropWhile (· == 0)).reverse ≠ [],
      (ds.dropWhile (· == 0)).reverse.getLast h ≠ 0 := by
    intro h
    have nonempty : ds.dropWhile (· == 0) ≠ [] := by simpa only [ne_eq, List.reverse_eq_nil_iff] using h
    have head := List.head_dropWhile_not (· == 0) nonempty
    rw [List.getLast_reverse]
    exact fun zero => by simp [zero] at head
  rw [rebase, rebase, front, back, List.reverse_reverse, Nat.ofDigits_digits,
    Nat.digits_ofDigits b hb _ restBounded restLast, List.reverse_reverse,
    List.takeWhile_append_dropWhile]

/-! ## The base58 alphabet -/

def alphabet : List Char :=
  "123456789ABCDEFGHJKLMNPQRSTUVWXYZabcdefghijkmnopqrstuvwxyz".toList

theorem alphabet_nodup : alphabet.Nodup := by decide

def charOf (d : Nat) : Char := alphabet.getD d '1'

def digitOf (ch : Char) : Option Nat :=
  if ch ∈ alphabet then some (alphabet.idxOf ch) else none

theorem digitOf_charOf {d : Nat} (hd : d < 58) : digitOf (charOf d) = some d := by
  have hlen : d < alphabet.length := hd
  have spelled : charOf d = alphabet[d] := by simp [charOf, hlen]
  rw [digitOf, spelled, if_pos (List.getElem_mem hlen), alphabet_nodup.idxOf_getElem d hlen]

theorem charOf_of_digitOf {ch : Char} {d : Nat} (read : digitOf ch = some d) :
    charOf d = ch ∧ d < 58 := by
  unfold digitOf at read
  split at read
  · next member =>
      obtain rfl := Option.some.inj read
      have hlen : alphabet.idxOf ch < alphabet.length := List.idxOf_lt_length_of_mem member
      exact ⟨by simp [charOf, hlen], hlen⟩
  · exact absurd read (by simp)

theorem mapM_digitOf_charOf {ds : List Nat} (bounded : ∀ d ∈ ds, d < 58) :
    (ds.map charOf).mapM digitOf = some ds := by
  induction ds with
  | nil => rfl
  | cons d ds ih =>
      simp [digitOf_charOf (bounded d (by simp)), ih fun e member => bounded e (by simp [member])]

theorem of_mapM_digitOf {chars : List Char} {ds : List Nat} (read : chars.mapM digitOf = some ds) :
    ds.map charOf = chars ∧ ∀ d ∈ ds, d < 58 := by
  induction chars generalizing ds with
  | nil =>
      obtain rfl : [] = ds := by simpa using read
      simp
  | cons ch chars ih =>
      simp only [List.mapM_cons, Option.bind_eq_bind, Option.bind_eq_some_iff] at read
      obtain ⟨d, first, rest, tail, whole⟩ := read
      obtain rfl := Option.some.inj whole
      obtain ⟨spelled, small⟩ := charOf_of_digitOf first
      obtain ⟨restSpelled, restSmall⟩ := ih tail
      simp only [List.map_cons, spelled, restSpelled, true_and]
      exact fun e member => by
        rcases List.mem_cons.mp member with rfl | inner
        · exact small
        · exact restSmall e inner

/-! ## Bytes and strings -/

def encode (bytes : List UInt8) : String :=
  String.ofList ((rebase 256 58 (bytes.map UInt8.toNat)).map charOf)

def decode (text : String) : Option (List UInt8) :=
  (text.toList.mapM digitOf).map fun ds => (rebase 58 256 ds).map UInt8.ofNat

theorem map_ofNat_toNat (bytes : List UInt8) :
    (bytes.map UInt8.toNat).map UInt8.ofNat = bytes := by
  simp [Function.comp_def]

theorem map_toNat_ofNat {ds : List Nat} (bounded : ∀ d ∈ ds, d < 256) :
    (ds.map UInt8.ofNat).map UInt8.toNat = ds := by
  rw [List.map_map]
  conv_rhs => rw [← List.map_id ds]
  refine List.map_congr_left fun d member => ?_
  simpa using bounded d member

@[simp] theorem decode_encode (bytes : List UInt8) : decode (encode bytes) = some bytes := by
  have small : ∀ d ∈ rebase 256 58 (bytes.map UInt8.toNat), d < 58 := fun _ found =>
    rebase_lt (by decide) found
  have bounded : ∀ d ∈ bytes.map UInt8.toNat, d < 256 := by
    intro d member
    obtain ⟨byte, -, rfl⟩ := List.mem_map.mp member
    exact byte.toNat_lt
  rw [decode, encode, String.toList_ofList, mapM_digitOf_charOf small, Option.map_some,
    rebase_rebase (by decide) bounded, map_ofNat_toNat]

theorem encode_of_decode {text : String} {bytes : List UInt8} (read : decode text = some bytes) :
    encode bytes = text := by
  unfold decode at read
  obtain ⟨ds, digits, rfl⟩ := Option.map_eq_some_iff.mp read
  obtain ⟨spelled, small⟩ := of_mapM_digitOf digits
  rw [encode, map_toNat_ofNat fun _ found => rebase_lt (by decide) found,
    rebase_rebase (by decide) small, spelled, String.ofList_toList]

/-! ## The check bytes -/

section Check

variable (check : List UInt8 → List UInt8)

def encodeCheck (payload : List UInt8) : String := encode (payload ++ check payload)

/-- The last four bytes must be the checksum of what precedes them. -/
def decodeCheck (text : String) : Option (List UInt8) :=
  (decode text).bind fun bytes =>
    let payload := bytes.take (bytes.length - 4)
    if bytes.drop (bytes.length - 4) = check payload then some payload else none

variable {check}

theorem decodeCheck_encodeCheck (width : ∀ payload, (check payload).length = 4)
    (payload : List UInt8) : decodeCheck check (encodeCheck check payload) = some payload := by
  simp [decodeCheck, encodeCheck, width]

theorem encodeCheck_of_decodeCheck {text : String} {payload : List UInt8}
    (read : decodeCheck check text = some payload) : encodeCheck check payload = text := by
  unfold decodeCheck at read
  obtain ⟨bytes, decoded, checked⟩ := Option.bind_eq_some_iff.mp read
  dsimp only at checked
  split at checked
  · next sum =>
      obtain rfl := Option.some.inj checked
      rw [encodeCheck, ← sum, List.take_append_drop]
      exact encode_of_decode decoded
  · exact absurd checked (by simp)

end Check

/-- The check bytes in use: the first four of the doubled SHA-256. -/
def doubleSha (payload : List UInt8) : List UInt8 :=
  (Sha256.sha256 (Sha256.sha256 payload)).take 4

theorem length_doubleSha (payload : List UInt8) : (doubleSha payload).length = 4 := by
  simp [doubleSha]

end MassaIndexer.Theory.Base58
