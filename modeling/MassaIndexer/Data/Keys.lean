/-
# Data.Keys -- composite store keys

Every key is fixed-width fields laid end to end: a slot is its period in eight big-endian bytes and
its thread, a reversed slot the complement of those (newest first), an index four bytes. Equal keys
of one family therefore have equal fields (`slotKey_injective`, `slotIndexedKey_injective`), and
the slot is a prefix of the keys of its rows (`slotKey_isPrefix_iff`).
-/
import MassaIndexer.Data.Model
import MassaIndexer.Theory.BigEndian

namespace MassaIndexer.Data.Keys

open MassaIndexer.Theory
open MassaIndexer.Theory.KeyedTable (Bytes)
open MassaIndexer.Data.Ids MassaIndexer.Data.Model

set_option autoImplicit false

/-- `period(u64 BE) ‖ thread`. -/
def slotKey (s : Slot) : Bytes := BigEndian.bytes 8 s.period.toNat ++ [s.thread]

/-- The bitwise complement of `slotKey`. -/
def rslotKey (s : Slot) : Bytes := (slotKey s).map fun b => ~~~b

def indexBytes (index : UInt32) : Bytes := BigEndian.bytes 4 index.toNat

def scEventKey (s : Slot) (index : UInt32) : Bytes := slotKey s ++ indexBytes index

def transferKey (s : Slot) (index : UInt32) : Bytes := scEventKey s index

def idxAddrSlotId (addr : Bytes) (s : Slot) (id : Bytes) : Bytes := addr ++ rslotKey s ++ id

def idxBlockByCreator (creator : Bytes) (s : Slot) (blockId : Bytes) : Bytes :=
  idxAddrSlotId creator s blockId

def idxOpByCreator (creator : Bytes) (s : Slot) (opId : Bytes) : Bytes :=
  idxAddrSlotId creator s opId

def idxOpByTarget (target : Bytes) (s : Slot) (opId : Bytes) : Bytes :=
  idxAddrSlotId target s opId

def idxTransferByAddr (addr : Bytes) (s : Slot) (index : UInt32) (tag : UInt8) : Bytes :=
  addr ++ rslotKey s ++ indexBytes index ++ [tag]

def idxIdSlotIndex (id : Bytes) (s : Slot) (index : UInt32) : Bytes :=
  id ++ rslotKey s ++ indexBytes index

def idxTransferByOp (opId : Bytes) (s : Slot) (index : UInt32) : Bytes := idxIdSlotIndex opId s index

def idxTransferByBlock (blockId : Bytes) (s : Slot) (index : UInt32) : Bytes :=
  idxIdSlotIndex blockId s index

def idxEventByAddr (addr : Bytes) (s : Slot) (index : UInt32) : Bytes :=
  addr ++ rslotKey s ++ indexBytes index

def idxEventByOp (opId : Bytes) (s : Slot) (index : UInt32) : Bytes := idxIdSlotIndex opId s index

def idxDenunciationByAddr (addr : Bytes) (s : Slot) (hash : Bytes) : Bytes :=
  addr ++ rslotKey s ++ hash

def idxDenunciationRecent (s : Slot) (hash : Bytes) : Bytes := rslotKey s ++ hash

/-- Text ids (async messages, deferred calls) are keyed by their UTF-8 bytes. -/
def textBytes (s : String) : Bytes := s.toUTF8.data.toList

/-- `addr ‖ 0x00 ‖ id`. -/
def idxAsyncByAddr (addr : Bytes) (id : String) : Bytes := addr ++ 0 :: textBytes id

def idxByRslotId (s : Slot) (id : String) : Bytes := rslotKey s ++ textBytes id

@[simp] theorem length_slotKey (s : Slot) : (slotKey s).length = 9 := by simp [slotKey]

@[simp] theorem length_indexBytes (i : UInt32) : (indexBytes i).length = 4 := by simp [indexBytes]

theorem slotKey_injective {s t : Slot} (same : slotKey s = slotKey t) : s = t := by
  obtain ⟨period, thread⟩ := List.append_inj same (by simp)
  have periods := BigEndian.bytes_injective s.period.toNat_lt t.period.toNat_lt period
  obtain ⟨ps, ts⟩ := s
  obtain ⟨pt, tt⟩ := t
  simp only [List.cons.injEq, and_true] at thread
  simp only [Slot.mk.injEq]
  exact ⟨UInt64.toNat_inj.mp periods, thread⟩

@[simp] theorem slotKey_inj {s t : Slot} : slotKey s = slotKey t ↔ s = t :=
  ⟨slotKey_injective, congrArg slotKey⟩

theorem indexBytes_injective {i j : UInt32} (same : indexBytes i = indexBytes j) : i = j :=
  UInt32.toNat_inj.mp (BigEndian.bytes_injective i.toNat_lt j.toNat_lt same)

theorem scEventKey_injective {s t : Slot} {i j : UInt32} (same : scEventKey s i = scEventKey t j) :
    s = t ∧ i = j := by
  obtain ⟨slots, indices⟩ := List.append_inj same (by simp)
  exact ⟨slotKey_injective slots, indexBytes_injective indices⟩

@[simp] theorem scEventKey_inj {s t : Slot} {i j : UInt32} :
    scEventKey s i = scEventKey t j ↔ s = t ∧ i = j :=
  ⟨scEventKey_injective, fun both => by rw [both.1, both.2]⟩

@[simp] theorem transferKey_inj {s t : Slot} {i j : UInt32} :
    transferKey s i = transferKey t j ↔ s = t ∧ i = j := scEventKey_inj

/-- A scan under a slot's key meets the rows of that slot only. -/
@[simp] theorem slotKey_isPrefix_iff {s t : Slot} {i : UInt32} :
    slotKey s <+: scEventKey t i ↔ s = t := by
  constructor
  · rintro ⟨rest, same⟩
    exact slotKey_injective (List.append_inj same (by simp)).1
  · rintro rfl
    exact List.prefix_append _ _

@[simp] theorem length_rslotKey (s : Slot) : (rslotKey s).length = 9 := by simp [rslotKey]

theorem rslotKey_injective {s t : Slot} (same : rslotKey s = rslotKey t) : s = t := by
  refine slotKey_injective (List.map_injective_iff.mpr (fun a b flipped => ?_) same)
  rw [← UInt8.not_not (a := a), flipped, UInt8.not_not]

/-- The slot of an index entry is read off its end. -/
theorem slot_of_idxIdSlotIndex {id id' : Bytes} {s t : Slot} {i j : UInt32}
    (same : idxIdSlotIndex id s i = idxIdSlotIndex id' t j) : s = t := by
  have front := (List.append_inj' same (by simp)).1
  exact rslotKey_injective (List.append_inj' front (by simp)).2

theorem slot_of_idxTransferByAddr {a a' : Bytes} {s t : Slot} {i j : UInt32} {tag tag' : UInt8}
    (same : idxTransferByAddr a s i tag = idxTransferByAddr a' t j tag') : s = t :=
  slot_of_idxIdSlotIndex (List.append_inj' same rfl).1

theorem textBytes_injective {s t : String} (same : textBytes s = textBytes t) : s = t := by
  have arrays : s.toUTF8.data = t.toUTF8.data := Array.toList_inj.mp same
  exact String.toByteArray_inj.mp (ByteArray.ext arrays)

end MassaIndexer.Data.Keys
