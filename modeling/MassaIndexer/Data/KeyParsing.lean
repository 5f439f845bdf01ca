/-
# Data.KeyParsing -- what parses was built

A parser of composite keys checks the length and cuts at fixed offsets. Any key that it accepts is
one that the builder of its layout gives, with the slot, the index and the id that the parser read
(`parseIdxAddrSlotId_eq_some` and its siblings). The event parser checks only that the key is long
enough: what stands before the last 13 bytes can have any length (`parseIdxEvent_eq_some`).
-/
import MassaIndexer.Data.KeyOrder

namespace MassaIndexer.Data.KeyParsing

open MassaIndexer.Theory MassaIndexer.Theory.KeyedTable
open MassaIndexer.Data.Ids MassaIndexer.Data.Model MassaIndexer.Data.Keys MassaIndexer.Data.KeyOrder

set_option autoImplicit false

/-! ## Parts -/

theorem slotKey_readSlot {bytes : Bytes} (width : bytes.length = slotKeyLen) :
    slotKey ⟨UInt64.ofNat (BigEndian.value (bytes.take 8)), bytes.getD 8 0⟩ = bytes := by
  have eight : (bytes.take 8).length = 8 := by
    rw [List.length_take, width]
    rfl
  have small : BigEndian.value (bytes.take 8) < 2 ^ 64 := by
    have bound := BigEndian.value_lt (bytes.take 8)
    rw [eight] at bound
    omega
  have last : bytes.drop 8 = [bytes.getD 8 0] := by
    have one : (bytes.drop 8).length = 1 := by
      rw [List.length_drop, width]
      rfl
    obtain ⟨b, only⟩ := List.length_eq_one_iff.mp one
    have found : bytes[8]? = some b := by
      rw [← List.head?_drop, only]
      rfl
    rw [only, List.getD_eq_getElem?_getD, found]
    rfl
  rw [slotKey, UInt64.toNat_ofNat_of_lt' small]
  show BigEndian.bytes 8 (BigEndian.value (bytes.take 8)) ++ [bytes.getD 8 0] = bytes
  rw [BigEndian.bytes_value eight, ← last, List.take_append_drop]

theorem decodeRslotKey_eq_some {bytes : Bytes} {s : Slot} :
    decodeRslotKey bytes = some s ↔ bytes = rslotKey s := by
  constructor
  · intro read
    unfold decodeRslotKey at read
    split at read
    · cases read
    · next width =>
        obtain rfl := Option.some.inj read
        rw [rslotKey, slotKey_readSlot (by simpa using width), complement_complement]
  · rintro rfl
    exact decodeRslotKey_rslotKey s

theorem indexBytes_readIndex {bytes : Bytes} (width : bytes.length = indexInSlotLen) :
    indexBytes (readIndex bytes) = bytes := by
  have small : BigEndian.value bytes < 2 ^ 32 := by
    have bound := BigEndian.value_lt bytes
    rw [width] at bound
    exact bound
  rw [indexBytes, readIndex, UInt32.toNat_ofNat_of_lt' small]
  exact BigEndian.bytes_value width

/-- A slot is read at an offset of the keys that have it there. -/
theorem slot_at_iff {key rest : Bytes} {width : Nat} {s : Slot} :
    (decodeRslotKey ((key.drop width).take slotKeyLen) = some s ∧
      key.drop (width + slotKeyLen) = rest) ↔
    ∃ front, front.length = width ∧ key = front ++ rslotKey s ++ rest := by
  constructor
  · rintro ⟨read, rfl⟩
    have slot := decodeRslotKey_eq_some.mp read
    have long : width + slotKeyLen ≤ key.length := by
      have nine : ((key.drop width).take slotKeyLen).length = slotKeyLen := by
        rw [slot]
        simp [slotKeyLen]
      rw [List.length_take, List.length_drop] at nine
      unfold slotKeyLen at nine ⊢
      omega
    refine ⟨key.take width, by rw [List.length_take]; omega, ?_⟩
    rw [← slot, ← List.drop_drop, List.append_assoc, List.take_append_drop, List.take_append_drop]
  · rintro ⟨front, fits, rfl⟩
    rw [cut_slot fits, cut_rest fits]
    exact ⟨decodeRslotKey_rslotKey s, rfl⟩

/-! ## Layouts -/

/-- A layout of one width with the slot at an offset: `f` reads what stands behind it. -/
theorem cut_eq_some {α : Type} (f : Bytes → α) (width : Nat) {key : Bytes} {n : Nat} {s : Slot} {a : α} :
    (if key.length ≠ width + slotKeyLen + n then none
      else (decodeRslotKey ((key.drop width).take slotKeyLen)).map fun s =>
        (s, f (key.drop (width + slotKeyLen)))) = some (s, a) ↔
    ∃ front rest, front.length = width ∧ rest.length = n ∧ f rest = a ∧
      key = front ++ rslotKey s ++ rest := by
  split
  · next wrong =>
      constructor
      · intro parsed
        cases parsed
      · rintro ⟨front, rest, rfl, rfl, -, rfl⟩
        exact absurd (by simp [slotKeyLen, Nat.add_assoc]) wrong
  · next right =>
      simp only [Option.map_eq_some_iff, Prod.mk.injEq]
      constructor
      · rintro ⟨t, read, rfl, value⟩
        obtain ⟨front, fits, shape⟩ := slot_at_iff.mp ⟨read, rfl⟩
        refine ⟨front, _, fits, ?_, value, shape⟩
        rw [List.length_drop]
        omega
      · rintro ⟨front, rest, fits, -, rfl, shape⟩
        obtain ⟨read, back⟩ := slot_at_iff.mpr ⟨front, fits, shape⟩
        exact ⟨s, read, rfl, congrArg f back⟩

theorem parseIdxAddrSlotId_eq_some {key id : Bytes} {s : Slot} :
    parseIdxAddrSlotId key = some (s, id) ↔
      ∃ addr : Bytes, addr.length = addrKeyLen ∧ id.length = idKeyLen ∧ key =
          idxAddrSlotId addr s id := by
  refine (cut_eq_some (fun rest => rest) addrKeyLen).trans ?_
  constructor
  · rintro ⟨addr, rest, front, back, rfl, shape⟩
    exact ⟨addr, front, back, shape⟩
  · rintro ⟨addr, front, back, shape⟩
    exact ⟨addr, _, front, back, rfl, shape⟩

theorem parseIdxDenunciationByAddr_eq_some {key hash : Bytes} {s : Slot} :
    parseIdxDenunciationByAddr key = some (s, hash) ↔
      ∃ addr : Bytes, addr.length = addrKeyLen ∧ hash.length = denunciationHashLen ∧
        key = idxDenunciationByAddr addr s hash := by
  refine (cut_eq_some (fun rest => rest) addrKeyLen).trans ?_
  constructor
  · rintro ⟨addr, rest, front, back, rfl, shape⟩
    exact ⟨addr, front, back, shape⟩
  · rintro ⟨addr, front, back, shape⟩
    exact ⟨addr, _, front, back, rfl, shape⟩

theorem parseIdxDenunciationRecent_eq_some {key hash : Bytes} {s : Slot} :
    parseIdxDenunciationRecent key = some (s, hash) ↔
      hash.length = denunciationHashLen ∧ key = idxDenunciationRecent s hash := by
  refine (cut_eq_some (fun rest => rest) 0).trans ?_
  constructor
  · rintro ⟨front, rest, none, back, rfl, shape⟩
    rw [List.length_eq_zero_iff.mp none] at shape
    exact ⟨back, shape⟩
  · rintro ⟨back, shape⟩
    exact ⟨[], _, rfl, back, rfl, shape⟩

theorem parseIdxIdSlotIndex_eq_some {key : Bytes} {s : Slot} {i : UInt32} :
    parseIdxIdSlotIndex key = some (s, i) ↔
      ∃ id : Bytes, id.length = idKeyLen ∧ key = idxIdSlotIndex id s i := by
  refine (cut_eq_some readIndex idKeyLen).trans ?_
  constructor
  · rintro ⟨id, rest, front, back, rfl, shape⟩
    refine ⟨id, front, ?_⟩
    rw [idxIdSlotIndex, indexBytes_readIndex back]
    exact shape
  · rintro ⟨id, front, shape⟩
    exact ⟨id, indexBytes i, front, by simp [indexBytes, indexInSlotLen], readIndex_indexBytes i, shape⟩

theorem parseIdxTransferByAddr_eq_some {key : Bytes} {s : Slot} {i : UInt32} {tag : UInt8} :
    parseIdxTransferByAddr key = some (s, i, tag) ↔
      ∃ addr : Bytes, addr.length = addrKeyLen ∧ key = idxTransferByAddr addr s i tag := by
  have cut := @cut_eq_some _ (fun rest : Bytes => (readIndex (rest.take indexInSlotLen),
    rest.getD indexInSlotLen 0)) addrKeyLen key (indexInSlotLen + 1) s (i, tag)
  simp only [List.getD_eq_getElem?_getD, List.getElem?_drop] at cut
  unfold parseIdxTransferByAddr
  refine Iff.trans ?_ (cut.trans ?_)
  · rw [List.getD_eq_getElem?_getD]
    exact Iff.rfl
  constructor
  · rintro ⟨addr, rest, front, back, value, shape⟩
    rw [← List.getD_eq_getElem?_getD] at value
    obtain ⟨rfl, rfl⟩ := Prod.mk.inj value
    refine ⟨addr, front, ?_⟩
    have four : (rest.take indexInSlotLen).length = indexInSlotLen := by
      rw [List.length_take, back]
      rfl
    have one : rest.drop indexInSlotLen = [rest.getD indexInSlotLen 0] := by
      rw [List.drop_eq_getElem_cons (by omega), List.getD_eq_getElem _ _ (by omega),
        List.drop_of_length_le (by omega)]
    rw [idxTransferByAddr, indexBytes_readIndex four, List.append_assoc, ← one, List.take_append_drop]
    exact shape
  · rintro ⟨addr, front, shape⟩
    refine ⟨addr, indexBytes i ++ [tag], front, by simp [indexBytes, indexInSlotLen], ?_, ?_⟩
    · have cut : (indexBytes i ++ [tag]).take indexInSlotLen = indexBytes i :=
        List.take_left' (by simp [indexBytes, indexInSlotLen])
      simp only [cut, readIndex_indexBytes]
      rfl
    · rw [shape, idxTransferByAddr, List.append_assoc]

/-- An event key is any that ends in a reversed slot and an index. -/
theorem parseIdxEvent_eq_some {key : Bytes} {s : Slot} {i : UInt32} :
    parseIdxEvent key = some (s, i) ↔ ∃ front : Bytes, key = front ++ rslotKey s ++ indexBytes i := by
  constructor
  · intro parsed
    unfold parseIdxEvent at parsed
    split at parsed
    · cases parsed
    · next long =>
        simp only [Option.map_eq_some_iff, Prod.mk.injEq] at parsed
        obtain ⟨t, read, rfl, rfl⟩ := parsed
        have behind : key.length - slotKeyLen - indexInSlotLen + slotKeyLen =
            key.length - indexInSlotLen := by omega
        obtain ⟨front, -, shape⟩ := slot_at_iff.mp ⟨read, rfl⟩
        rw [behind] at shape
        refine ⟨front, ?_⟩
        rw [indexBytes_readIndex]
        · exact shape
        · rw [List.length_drop]
          omega
  · rintro ⟨front, rfl⟩
    exact parseIdxEvent_build front s i

end MassaIndexer.Data.KeyParsing
