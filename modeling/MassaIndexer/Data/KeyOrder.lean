/-
# Data.KeyOrder -- parsing composite keys, and the order they are stored in

A key is read back by cutting it at fixed offsets: each parser returns what the builder was given
(`parseIdxAddrSlotId_build` and its siblings), so built keys are equal only field by field. Slot keys sort
by slot, oldest first, and reversed ones newest first; behind a common prefix a composite key therefore
sorts by slot, newest first, and then by what follows the slot (`compare_idx_eq_lt`).
-/
import MassaIndexer.Data.Keys
import Mathlib.Data.List.GetD

namespace MassaIndexer.Data.KeyOrder

open MassaIndexer.Theory
open MassaIndexer.Theory.KeyedTable
open MassaIndexer.Data.Ids MassaIndexer.Data.Model MassaIndexer.Data.Keys

set_option autoImplicit false

/-! ## Parsers -/

def slotKeyLen : Nat := 9

def indexInSlotLen : Nat := 4

def denunciationHashLen : Nat := 32

def slotIndexedKeyLen : Nat := slotKeyLen + indexInSlotLen

def idxAddrSlotIdLen : Nat := addrKeyLen + slotKeyLen + idKeyLen

def idxTransferByAddrLen : Nat := addrKeyLen + slotKeyLen + indexInSlotLen + 1

def idxIdSlotIndexLen : Nat := idKeyLen + slotKeyLen + indexInSlotLen

def idxDenunciationByAddrLen : Nat := addrKeyLen + slotKeyLen + denunciationHashLen

def idxDenunciationRecentLen : Nat := slotKeyLen + denunciationHashLen

/-- `u32::from_be_bytes`. -/
def readIndex (bytes : Bytes) : UInt32 := UInt32.ofNat (BigEndian.value bytes)

def decodeSlotKey (bytes : Bytes) : Option Slot :=
  if bytes.length ≠ slotKeyLen then none
  else some ⟨UInt64.ofNat (BigEndian.value (bytes.take 8)), bytes.getD 8 0⟩

def decodeRslotKey (bytes : Bytes) : Option Slot :=
  if bytes.length ≠ slotKeyLen then none
  else
    let buf := bytes.map fun b => ~~~b
    some ⟨UInt64.ofNat (BigEndian.value (buf.take 8)), buf.getD 8 0⟩

def decodeSlotIndexedKey (bytes : Bytes) : Option (Slot × UInt32) :=
  if bytes.length ≠ slotIndexedKeyLen then none
  else (decodeSlotKey (bytes.take slotKeyLen)).map fun s => (s, readIndex (bytes.drop slotKeyLen))

def parseIdxAddrSlotId (key : Bytes) : Option (Slot × Bytes) :=
  if key.length ≠ idxAddrSlotIdLen then none
  else (decodeRslotKey ((key.drop addrKeyLen).take slotKeyLen)).map fun s =>
    (s, key.drop (addrKeyLen + slotKeyLen))

def parseIdxTransferByAddr (key : Bytes) : Option (Slot × UInt32 × UInt8) :=
  if key.length ≠ idxTransferByAddrLen then none
  else (decodeRslotKey ((key.drop addrKeyLen).take slotKeyLen)).map fun s =>
    (s, readIndex ((key.drop (addrKeyLen + slotKeyLen)).take indexInSlotLen),
      key.getD (idxTransferByAddrLen - 1) 0)

def parseIdxIdSlotIndex (key : Bytes) : Option (Slot × UInt32) :=
  if key.length ≠ idxIdSlotIndexLen then none
  else (decodeRslotKey ((key.drop idKeyLen).take slotKeyLen)).map fun s =>
    (s, readIndex (key.drop (idKeyLen + slotKeyLen)))

/-- Both event layouts end in a reversed slot and an index. -/
def parseIdxEvent (key : Bytes) : Option (Slot × UInt32) :=
  if key.length < slotKeyLen + indexInSlotLen then none
  else
    let tail := key.drop (key.length - slotKeyLen - indexInSlotLen)
    (decodeRslotKey (tail.take slotKeyLen)).map fun s =>
      (s, readIndex (key.drop (key.length - indexInSlotLen)))

def parseIdxDenunciationByAddr (key : Bytes) : Option (Slot × Bytes) :=
  if key.length ≠ idxDenunciationByAddrLen then none
  else (decodeRslotKey ((key.drop addrKeyLen).take slotKeyLen)).map fun s =>
    (s, key.drop (addrKeyLen + slotKeyLen))

def parseIdxDenunciationRecent (key : Bytes) : Option (Slot × Bytes) :=
  if key.length ≠ idxDenunciationRecentLen then none
  else (decodeRslotKey (key.take slotKeyLen)).map fun s => (s, key.drop slotKeyLen)

def parseIdxByRslotId (key : Bytes) : Option (Slot × Bytes) :=
  if key.length < slotKeyLen then none
  else (decodeRslotKey (key.take slotKeyLen)).map fun s => (s, key.drop slotKeyLen)

/-! ## What was built is read back -/

@[simp] theorem complement_complement (bs : Bytes) :
    (bs.map fun b => ~~~b).map (fun b => ~~~b) = bs := by
  rw [List.map_map]
  exact (List.map_congr_left fun b _ => UInt8.not_not).trans (List.map_id bs)

@[simp] theorem readIndex_indexBytes (i : UInt32) : readIndex (indexBytes i) = i := by
  rw [readIndex, indexBytes, BigEndian.value_bytes i.toNat_lt]
  simp

theorem readSlot_slotKey (s : Slot) :
    (⟨UInt64.ofNat (BigEndian.value ((slotKey s).take 8)), (slotKey s).getD 8 0⟩ : Slot) = s := by
  have period : (slotKey s).take 8 = BigEndian.bytes 8 s.period.toNat := by
    rw [slotKey, List.take_append_of_le_length (by simp), List.take_of_length_le (by simp)]
  have thread : (slotKey s).getD 8 0 = s.thread := by
    rw [slotKey, List.getD_append_right _ _ _ _ (by simp)]
    simp
  rw [period, thread, BigEndian.value_bytes s.period.toNat_lt]
  simp

@[simp] theorem decodeSlotKey_slotKey (s : Slot) : decodeSlotKey (slotKey s) = some s := by
  rw [decodeSlotKey, if_neg (by simp [slotKeyLen]), readSlot_slotKey]

@[simp] theorem decodeRslotKey_rslotKey (s : Slot) : decodeRslotKey (rslotKey s) = some s := by
  rw [decodeRslotKey, if_neg (by simp [slotKeyLen])]
  simp only [rslotKey, complement_complement, readSlot_slotKey]

@[simp] theorem decodeSlotIndexedKey_scEventKey (s : Slot) (i : UInt32) :
    decodeSlotIndexedKey (scEventKey s i) = some (s, i) := by
  rw [decodeSlotIndexedKey, if_neg (by simp [scEventKey, slotIndexedKeyLen, slotKeyLen, indexInSlotLen])]
  simp [scEventKey, slotKeyLen]

/-- The slot stands right behind a prefix. -/
theorem cut_slot {pre rest : Bytes} {width : Nat} (fits : pre.length = width) (s : Slot) :
    ((pre ++ rslotKey s ++ rest).drop width).take slotKeyLen = rslotKey s := by
  rw [List.append_assoc, List.drop_append_of_le_length (by omega),
    List.drop_of_length_le (by omega), List.nil_append,
    List.take_append_of_le_length (by simp [slotKeyLen]), List.take_of_length_le (by simp [slotKeyLen])]

/-- What stands behind the slot. -/
theorem cut_rest {pre rest : Bytes} {width : Nat} (fits : pre.length = width) (s : Slot) :
    (pre ++ rslotKey s ++ rest).drop (width + slotKeyLen) = rest := by
  rw [List.drop_append_of_le_length (by simp [slotKeyLen]; omega),
    List.drop_of_length_le (by simp [slotKeyLen]; omega), List.nil_append]

@[simp] theorem parseIdxAddrSlotId_build (a : Address) (s : Slot) {id : Bytes}
    (width : id.length = idKeyLen) :
    parseIdxAddrSlotId (idxAddrSlotId a.bytes s id) = some (s, id) := by
  rw [parseIdxAddrSlotId, idxAddrSlotId, if_neg, cut_slot a.width, cut_rest a.width]
  · simp
  · simp [a.width, width, idxAddrSlotIdLen, slotKeyLen, Nat.add_assoc]

@[simp] theorem parseIdxTransferByAddr_build (a : Address) (s : Slot) (i : UInt32) (tag : UInt8) :
    parseIdxTransferByAddr (idxTransferByAddr a.bytes s i tag) = some (s, i, tag) := by
  have shape : idxTransferByAddr a.bytes s i tag = a.bytes ++ rslotKey s ++ (indexBytes i ++ [tag]) := by
    simp [idxTransferByAddr]
  have last : (idxTransferByAddr a.bytes s i tag).getD (idxTransferByAddrLen - 1) 0 = tag := by
    rw [idxTransferByAddr, List.getD_append_right _ _ _ _
      (by simp [a.width, idxTransferByAddrLen, slotKeyLen, indexInSlotLen])]
    simp [a.width, idxTransferByAddrLen, slotKeyLen, indexInSlotLen]
  rw [parseIdxTransferByAddr, last, shape, if_neg, cut_slot a.width, cut_rest a.width]
  · simp [indexInSlotLen]
  · simp [a.width, idxTransferByAddrLen, slotKeyLen, indexInSlotLen]

@[simp] theorem parseIdxIdSlotIndex_build {id : Bytes} (width : id.length = idKeyLen) (s : Slot)
    (i : UInt32) : parseIdxIdSlotIndex (idxIdSlotIndex id s i) = some (s, i) := by
  rw [parseIdxIdSlotIndex, idxIdSlotIndex, if_neg, cut_slot width, cut_rest width]
  · simp
  · simp [width, idxIdSlotIndexLen, slotKeyLen, indexInSlotLen]

/-- An event key is read from its end, whatever its prefix is. -/
@[simp] theorem parseIdxEvent_build (pre : Bytes) (s : Slot) (i : UInt32) :
    parseIdxEvent (pre ++ rslotKey s ++ indexBytes i) = some (s, i) := by
  have size : (pre ++ rslotKey s ++ indexBytes i).length = pre.length + slotKeyLen + indexInSlotLen := by
    simp [slotKeyLen, indexInSlotLen]
  have front : (pre ++ rslotKey s ++ indexBytes i).length - slotKeyLen - indexInSlotLen = pre.length := by
    omega
  have back : (pre ++ rslotKey s ++ indexBytes i).length - indexInSlotLen = pre.length + slotKeyLen := by
    omega
  rw [parseIdxEvent, if_neg (by omega)]
  dsimp only
  rw [front, back, cut_slot rfl, cut_rest rfl]
  simp

@[simp] theorem parseIdxDenunciationByAddr_build (a : Address) (s : Slot) {hash : Bytes}
    (width : hash.length = denunciationHashLen) :
    parseIdxDenunciationByAddr (idxDenunciationByAddr a.bytes s hash) = some (s, hash) := by
  rw [parseIdxDenunciationByAddr, idxDenunciationByAddr, if_neg, cut_slot a.width, cut_rest a.width]
  · simp
  · simp [a.width, width, idxDenunciationByAddrLen, slotKeyLen, Nat.add_assoc]

@[simp] theorem parseIdxDenunciationRecent_build (s : Slot) {hash : Bytes}
    (width : hash.length = denunciationHashLen) :
    parseIdxDenunciationRecent (idxDenunciationRecent s hash) = some (s, hash) := by
  rw [parseIdxDenunciationRecent, if_neg (by simp [idxDenunciationRecent, width,
    idxDenunciationRecentLen, slotKeyLen])]
  simp [idxDenunciationRecent, slotKeyLen]

@[simp] theorem parseIdxByRslotId_build (s : Slot) (id : String) :
    parseIdxByRslotId (idxByRslotId s id) = some (s, textBytes id) := by
  rw [parseIdxByRslotId, if_neg (by simp [idxByRslotId, slotKeyLen])]
  simp [idxByRslotId, slotKeyLen]

/-! ## Built keys are equal field by field -/

theorem idxAddrSlotId_inj {a b : Address} {s t : Slot} {x y : Bytes} :
    idxAddrSlotId a.bytes s x = idxAddrSlotId b.bytes t y ↔ a = b ∧ s = t ∧ x = y := by
  constructor
  · intro same
    rw [idxAddrSlotId, idxAddrSlotId, List.append_assoc, List.append_assoc] at same
    obtain ⟨addrs, rest⟩ := List.append_inj same (a.width.trans b.width.symm)
    obtain ⟨slots, ids⟩ := List.append_inj rest (by simp)
    exact ⟨Address.ext addrs, rslotKey_injective slots, ids⟩
  · rintro ⟨rfl, rfl, rfl⟩
    rfl

theorem idxIdSlotIndex_inj {x y : Bytes} {s t : Slot} {i j : UInt32} (width : x.length = y.length) :
    idxIdSlotIndex x s i = idxIdSlotIndex y t j ↔ x = y ∧ s = t ∧ i = j := by
  constructor
  · intro same
    rw [idxIdSlotIndex, idxIdSlotIndex, List.append_assoc, List.append_assoc] at same
    obtain ⟨ids, rest⟩ := List.append_inj same width
    obtain ⟨slots, indices⟩ := List.append_inj rest (by simp)
    exact ⟨ids, rslotKey_injective slots, indexBytes_injective indices⟩
  · rintro ⟨rfl, rfl, rfl⟩
    rfl

theorem idxTransferByAddr_inj {a b : Address} {s t : Slot} {i j : UInt32} {x y : UInt8} :
    idxTransferByAddr a.bytes s i x = idxTransferByAddr b.bytes t j y ↔
      a = b ∧ s = t ∧ i = j ∧ x = y := by
  constructor
  · intro same
    obtain ⟨front, tags⟩ := List.append_inj' same rfl
    obtain ⟨addrs, slots, indices⟩ := (idxIdSlotIndex_inj (a.width.trans b.width.symm)).mp front
    exact ⟨Address.ext addrs, slots, indices, List.cons.inj tags |>.1⟩
  · rintro ⟨rfl, rfl, rfl, rfl⟩
    rfl

theorem idxAsyncByAddr_inj {a b : Address} {x y : String} :
    idxAsyncByAddr a.bytes x = idxAsyncByAddr b.bytes y ↔ a = b ∧ x = y := by
  constructor
  · intro same
    obtain ⟨addrs, rest⟩ := List.append_inj same (a.width.trans b.width.symm)
    exact ⟨Address.ext addrs, textBytes_injective (List.cons.inj rest).2⟩
  · rintro ⟨rfl, rfl⟩
    rfl

theorem idxByRslotId_inj {s t : Slot} {x y : String} :
    idxByRslotId s x = idxByRslotId t y ↔ s = t ∧ x = y := by
  constructor
  · intro same
    obtain ⟨slots, ids⟩ := List.append_inj same (by simp)
    exact ⟨rslotKey_injective slots, textBytes_injective ids⟩
  · rintro ⟨rfl, rfl⟩
    rfl

theorem idxDenunciationRecent_inj {s t : Slot} {x y : Bytes} :
    idxDenunciationRecent s x = idxDenunciationRecent t y ↔ s = t ∧ x = y := by
  constructor
  · intro same
    obtain ⟨slots, hashes⟩ := List.append_inj same (by simp)
    exact ⟨rslotKey_injective slots, hashes⟩
  · rintro ⟨rfl, rfl⟩
    rfl

/-- A key that starts with an address was built with it. -/
theorem isPrefix_append_iff {x y rest : Bytes} (width : x.length = y.length) : x <+: y ++ rest ↔ x = y := by
  constructor
  · rintro ⟨more, same⟩
    exact (List.append_inj same width).1
  · rintro rfl
    exact List.prefix_append x rest

/-! ## Order -/

theorem compare_slotKey_eq_lt {s t : Slot} :
    compare (slotKey s) (slotKey t) = .lt ↔ s.lt t = true := by
  have done : compare ([] : Bytes) [] = .eq := rfl
  rw [slotKey, slotKey, compare_append (by simp),
    BigEndian.compare_bytes s.period.toNat_lt t.period.toNat_lt, compare_cons, BigEndian.compare_toNat,
    done, Slot.lt_iff]
  rcases Nat.lt_trichotomy s.period.toNat t.period.toNat with less | same | more
  · simp [Nat.compare_eq_lt.mpr less, less]
  · rw [Nat.compare_eq_eq.mpr same, Ordering.eq_then]
    simp [same, Nat.compare_eq_lt]
  · simp [Nat.compare_eq_gt.mpr more]
    omega

theorem compare_rslotKey (s t : Slot) :
    compare (rslotKey s) (rslotKey t) = compare (slotKey t) (slotKey s) :=
  BigEndian.compare_complement (by simp)

/-- **Behind a common prefix keys are in the order of their slots, newest first, and then of what
follows the slot.** -/
theorem compare_idx_eq_lt (pre : Bytes) {s t : Slot} {x y : Bytes} :
    compare (pre ++ rslotKey s ++ x) (pre ++ rslotKey t ++ y) = .lt ↔
      t.lt s = true ∨ s = t ∧ compare x y = .lt := by
  have same : compare pre pre = .eq := Std.ReflCmp.compare_self
  rw [List.append_assoc, List.append_assoc, compare_append rfl, compare_append (by simp), same,
    Ordering.eq_then, compare_rslotKey, ← compare_slotKey_eq_lt]
  cases order : compare (slotKey t) (slotKey s) with
  | lt => simp
  | gt =>
      have differ : s ≠ t := by
        rintro rfl
        have same : compare (slotKey s) (slotKey s) = .eq := Std.ReflCmp.compare_self
        cases same.symm.trans order
      simp [differ]
  | eq =>
      obtain rfl : t = s := slotKey_injective (Std.LawfulEqOrd.eq_of_compare order)
      simp

end MassaIndexer.Data.KeyOrder
