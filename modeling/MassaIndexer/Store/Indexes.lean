/-
# Store.Indexes -- the secondary indexes and the rows they belong to

Every index family has one function from a row to the entries the row has there: those of transfers and
events are `Db`'s own, the others are named here, as the writers build them. An entry shows the key of its
row, at a fixed place (`entries_…`); no two rows share one.

`delete_async_msg`, which no handler calls, is here with the laws it is part of.
-/
import MassaIndexer.Theory.IndexedTable
import MassaIndexer.Data.KeyOrder
import MassaIndexer.Store.ColumnFamilies

namespace MassaIndexer.Store.Indexes

open MassaIndexer.Theory.KeyedTable
open MassaIndexer.Data.Ids MassaIndexer.Data.Model MassaIndexer.Data.Keys MassaIndexer.Data.KeyOrder
open MassaIndexer.Data.RowCodec
open MassaIndexer.Store.ColumnFamilies

set_option autoImplicit false

/-! ## The entries of a row -/

def blockCreatorKeys (b : StoredBlock) : List Bytes :=
  [idxBlockByCreator b.creator.bytes b.slot b.id.bytes]

/-- The pointer from a slot to a block seen there. -/
def slotBlockKeys (b : StoredBlock) : List Bytes := [slotKey b.slot ++ b.id.bytes]

def endorsementCreatorKeys (e : StoredEndorsement) : List Bytes :=
  [idxBlockByCreator e.contentCreatorAddress.bytes e.slot e.id.bytes]

/-- An operation is entered at its first inclusion. -/
def opCreatorKeys (op : StoredOperation) : List Bytes :=
  (op.inclusions.head?.map fun first => idxOpByCreator op.creator.bytes first.slot op.id.bytes).toList

def opTargetKeys (op : StoredOperation) : List Bytes :=
  (op.inclusions.head?.bind fun first => op.target.map fun target =>
    idxOpByTarget target.bytes first.slot op.id.bytes).toList

def denunciationAddrKeys (d : StoredDenunciationEntry) : List Bytes :=
  (d.denouncedAddr.map fun a => idxDenunciationByAddr a.bytes d.slot d.hash).toList

def denunciationRecentKeys (d : StoredDenunciationEntry) : List Bytes :=
  [idxDenunciationRecent d.slot d.hash]

def asyncSenderKeys (m : StoredAsyncMsg) : List Bytes := Db.addrEntry m.sender m.id

def asyncDestKeys (m : StoredAsyncMsg) : List Bytes := Db.addrEntry m.destination m.id

def asyncLastSlotKeys (m : StoredAsyncMsg) : List Bytes := Db.slotEntry m.lastSlot m.id

def deferredSenderKeys (c : StoredDeferredCall) : List Bytes := Db.addrEntry c.sender c.id

def deferredTargetKeys (c : StoredDeferredCall) : List Bytes := Db.addrEntry c.targetAddress c.id

def deferredLastSlotKeys (c : StoredDeferredCall) : List Bytes := Db.slotEntry c.lastSlot c.id

/-! ## An entry shows the key of its row -/

/-- Behind an address and a slot. -/
def behindSlot (k : Bytes) : Option Bytes := some (k.drop (addrKeyLen + slotKeyLen))

/-- Behind an address and its separator. -/
def behindAddr (k : Bytes) : Option Bytes := some (k.drop (addrKeyLen + 1))

/-- At the end of an event's entry, and of a transfer's under an operation or a block. -/
def placeAtEnd (k : Bytes) : Option Bytes :=
  (parseIdxEvent k).map fun parsed => scEventKey parsed.1 parsed.2

/-- In a transfer's entry under an address. -/
def placeBeforeTag (k : Bytes) : Option Bytes :=
  (parseIdxTransferByAddr k).map fun parsed => transferKey parsed.1 parsed.2.1

theorem behindSlot_build (a : Address) (s : Slot) (rest : Bytes) :
    behindSlot (idxAddrSlotId a.bytes s rest) = some rest := congrArg some (cut_rest a.width s)

theorem behindAddr_build (a : Address) (id : String) :
    behindAddr (idxAsyncByAddr a.bytes id) = some (textBytes id) := by
  have shape : idxAsyncByAddr a.bytes id = (a.bytes ++ [0]) ++ textBytes id := by
    simp [idxAsyncByAddr]
  rw [shape]
  exact congrArg some (List.drop_left' (by simp [a.width]))

theorem placeAtEnd_build (pre : Bytes) (s : Slot) (i : UInt32) :
    placeAtEnd (idxIdSlotIndex pre s i) = some (scEventKey s i) := by
  rw [placeAtEnd, idxIdSlotIndex, parseIdxEvent_build]
  rfl

theorem placeBeforeTag_build (a : Address) (s : Slot) (i : UInt32) (tag : UInt8) :
    placeBeforeTag (idxTransferByAddr a.bytes s i tag) = some (transferKey s i) := by
  simp [placeBeforeTag]

theorem read_addrEntry {addr : Option Address} {id : String} {k : Bytes}
    (entered : k ∈ Db.addrEntry addr id) : behindAddr k = some (textBytes id) := by
  obtain ⟨a, -, rfl⟩ := Option.map_eq_some_iff.mp (Option.mem_toList.mp entered)
  exact behindAddr_build a id

theorem read_slotEntry {slot : Option Slot} {id : String} {k : Bytes}
    (entered : k ∈ Db.slotEntry slot id) : some (k.drop slotKeyLen) = some (textBytes id) := by
  obtain ⟨s, -, rfl⟩ := Option.map_eq_some_iff.mp (Option.mem_toList.mp entered)
  exact congrArg some (List.drop_left' (length_rslotKey s))

theorem entries_blockCreator : Entries blockCreatorKeys :=
  .of_read behindSlot (fun _ => rfl) fun b k entered => by
    obtain rfl := List.mem_singleton.mp entered
    exact behindSlot_build b.creator b.slot b.id.bytes

theorem entries_endorsementCreator : Entries endorsementCreatorKeys :=
  .of_read behindSlot (fun _ => rfl) fun e k entered => by
    obtain rfl := List.mem_singleton.mp entered
    exact behindSlot_build e.contentCreatorAddress e.slot e.id.bytes

theorem entries_opCreator : Entries opCreatorKeys :=
  .of_read behindSlot (fun _ => rfl) fun op k entered => by
    obtain ⟨first, -, rfl⟩ := Option.map_eq_some_iff.mp (Option.mem_toList.mp entered)
    exact behindSlot_build op.creator first.slot op.id.bytes

theorem entries_opTarget : Entries opTargetKeys :=
  .of_read behindSlot (fun _ => rfl) fun op k entered => by
    obtain ⟨first, -, named⟩ := Option.bind_eq_some_iff.mp (Option.mem_toList.mp entered)
    obtain ⟨target, -, rfl⟩ := Option.map_eq_some_iff.mp named
    exact behindSlot_build target first.slot op.id.bytes

theorem entries_denunciationAddr : Entries denunciationAddrKeys :=
  .of_read behindSlot (fun _ => rfl) fun d k entered => by
    obtain ⟨a, -, rfl⟩ := Option.map_eq_some_iff.mp (Option.mem_toList.mp entered)
    exact behindSlot_build a d.slot d.hash

theorem entries_denunciationRecent : Entries denunciationRecentKeys :=
  .of_read (fun k => some (k.drop slotKeyLen)) (fun _ => rfl) fun d k entered => by
    obtain rfl := List.mem_singleton.mp entered
    exact congrArg some (List.drop_left' (length_rslotKey d.slot))

theorem entries_asyncSender : Entries asyncSenderKeys :=
  .of_read behindAddr (fun _ => rfl) fun _ _ => read_addrEntry

theorem entries_asyncDest : Entries asyncDestKeys :=
  .of_read behindAddr (fun _ => rfl) fun _ _ => read_addrEntry

theorem entries_asyncLastSlot : Entries asyncLastSlotKeys :=
  .of_read (fun k => some (k.drop slotKeyLen)) (fun _ => rfl) fun _ _ => read_slotEntry

theorem entries_deferredSender : Entries deferredSenderKeys :=
  .of_read behindAddr (fun _ => rfl) fun _ _ => read_addrEntry

theorem entries_deferredTarget : Entries deferredTargetKeys :=
  .of_read behindAddr (fun _ => rfl) fun _ _ => read_addrEntry

theorem entries_deferredLastSlot : Entries deferredLastSlotKeys :=
  .of_read (fun k => some (k.drop slotKeyLen)) (fun _ => rfl) fun _ _ => read_slotEntry

theorem entries_eventEmitter : Entries Db.eventEmitterKeys :=
  .of_read placeAtEnd (fun _ => rfl) fun ev k entered => by
    obtain ⟨a, -, rfl⟩ := List.mem_map.mp entered
    exact placeAtEnd_build a.bytes ev.slot ev.indexInSlot

theorem entries_eventCaller : Entries Db.eventCallerKeys :=
  .of_read placeAtEnd (fun _ => rfl) fun ev k entered => by
    obtain ⟨a, -, rfl⟩ := List.mem_map.mp entered
    exact placeAtEnd_build a.bytes ev.slot ev.indexInSlot

theorem entries_eventOp : Entries Db.eventOpKeys :=
  .of_read placeAtEnd (fun _ => rfl) fun ev k entered => by
    obtain ⟨op, -, rfl⟩ := Option.map_eq_some_iff.mp (Option.mem_toList.mp entered)
    exact placeAtEnd_build op.bytes ev.slot ev.indexInSlot

section Transfers

variable [Bs58Check]

/-- Which address, operation or block a text names. -/
def named {α : Type} (parse : String → Except String α) (text : Option String) : Option α :=
  text.bind fun s => (parse s).toOption

/-- The names a transfer is entered under. -/
structure Names where
  sender : Option Address
  recipient : Option Address
  operation : Option OperationId
  block : Option BlockId
deriving DecidableEq

def namesOf (t : StoredTransfer) : Names where
  sender := named Address.parse t.fromAddr
  recipient := named Address.parse t.toAddr
  operation := named OperationId.parse t.operationId
  block := named BlockId.parse t.blockId

theorem mem_transferAddrKeys {t : StoredTransfer} {k : Bytes} : k ∈ Db.transferAddrKeys t ↔
    (∃ a, (namesOf t).sender = some a ∧ idxTransferByAddr a.bytes t.slot t.indexInSlot 1 = k) ∨
    ∃ a, (namesOf t).recipient = some a ∧ idxTransferByAddr a.bytes t.slot t.indexInSlot 2 = k := by
  show k ∈ ((namesOf t).sender.map _).toList ++ ((namesOf t).recipient.map _).toList ↔ _
  rw [List.mem_append, Option.mem_toList, Option.mem_toList, Option.map_eq_some_iff,
    Option.map_eq_some_iff]

theorem mem_transferOpKeys {t : StoredTransfer} {k : Bytes} : k ∈ Db.transferOpKeys t ↔
    ∃ o, (namesOf t).operation = some o ∧ idxTransferByOp o.bytes t.slot t.indexInSlot = k := by
  show k ∈ ((namesOf t).operation.map _).toList ↔ _
  rw [Option.mem_toList, Option.map_eq_some_iff]

theorem mem_transferBlockKeys {t : StoredTransfer} {k : Bytes} : k ∈ Db.transferBlockKeys t ↔
    ∃ b, (namesOf t).block = some b ∧ idxTransferByBlock b.bytes t.slot t.indexInSlot = k := by
  show k ∈ ((namesOf t).block.map _).toList ↔ _
  rw [Option.mem_toList, Option.map_eq_some_iff]

theorem entries_transferAddr : Entries Db.transferAddrKeys :=
  .of_read placeBeforeTag (fun _ => rfl) fun t k entered => by
      rcases mem_transferAddrKeys.mp entered with ⟨a, -, rfl⟩ | ⟨a, -, rfl⟩
      · exact placeBeforeTag_build a t.slot t.indexInSlot 1
      · exact placeBeforeTag_build a t.slot t.indexInSlot 2

theorem entries_transferOp : Entries Db.transferOpKeys :=
  .of_read placeAtEnd (fun _ => rfl) fun t k entered => by
    obtain ⟨o, -, rfl⟩ := mem_transferOpKeys.mp entered
    exact placeAtEnd_build o.bytes t.slot t.indexInSlot

theorem entries_transferBlock : Entries Db.transferBlockKeys :=
  .of_read placeAtEnd (fun _ => rfl) fun t k entered => by
    obtain ⟨b, -, rfl⟩ := mem_transferBlockKeys.mp entered
    exact placeAtEnd_build b.bytes t.slot t.indexInSlot

end Transfers

/-! ## All indexes at once -/

/-- Every secondary index is the image of its rows. -/
structure IndexesExact [Bs58Check] (db : Db) : Prop where
  blockByCreator : Exact blockCreatorKeys db.blocks db.blockByCreator
  endorsementByCreator : Exact endorsementCreatorKeys db.endorsements db.endorsementByCreator
  opByCreator : Exact opCreatorKeys db.ops db.opByCreator
  opByTarget : Exact opTargetKeys db.ops db.opByTarget
  scEventByEmitter : Exact Db.eventEmitterKeys db.scEvents db.scEventByEmitter
  scEventByCaller : Exact Db.eventCallerKeys db.scEvents db.scEventByCaller
  scEventByOp : Exact Db.eventOpKeys db.scEvents db.scEventByOp
  denunciationByAddr : Exact denunciationAddrKeys db.denunciations db.denunciationByAddr
  denunciationRecent : Exact denunciationRecentKeys db.denunciations db.denunciationRecent
  transferByAddr : Exact Db.transferAddrKeys db.transfers db.transferByAddr
  transferByOp : Exact Db.transferOpKeys db.transfers db.transferByOp
  transferByBlock : Exact Db.transferBlockKeys db.transfers db.transferByBlock
  asyncBySender : Exact asyncSenderKeys db.asyncMsgs db.asyncBySender
  asyncByDest : Exact asyncDestKeys db.asyncMsgs db.asyncByDest
  asyncByLastSlot : Exact asyncLastSlotKeys db.asyncMsgs db.asyncByLastSlot
  deferredBySender : Exact deferredSenderKeys db.deferredCalls db.deferredBySender
  deferredByTarget : Exact deferredTargetKeys db.deferredCalls db.deferredByTarget
  deferredByLastSlot : Exact deferredLastSlotKeys db.deferredCalls db.deferredByLastSlot

/-! ## Deleting an async message -/

/-- The row and its entries go in one batch. -/
def deleteAsyncMsg (db : Db) (id : String) : Db :=
  match db.readAsyncMsg id with
  | some prev =>
      { db with
        asyncMsgs := db.asyncMsgs.erase (textBytes id)
        asyncBySender := Index.eraseAll db.asyncBySender (Db.addrEntry prev.sender id)
        asyncByDest := Index.eraseAll db.asyncByDest (Db.addrEntry prev.destination id)
        asyncByLastSlot := Index.eraseAll db.asyncByLastSlot (Db.slotEntry prev.lastSlot id) }
  | none => db

end MassaIndexer.Store.Indexes
