/-
# Store.ColumnFamilies -- the column families and the operations on them

One table for each primary family, one key set for each secondary index, and the two head markers.
Every write is one batch, so it is one function from store to store; a read is total, because a
table holds only rows that decode. What a write leaves alone is definitional: the fields it does not
name (`frame` lemmas below), so later proofs rewrite with the point reads and never unfold a batch.
-/
import MassaIndexer.Data.RowCodec
import MassaIndexer.Data.Keys

namespace MassaIndexer.Store.ColumnFamilies

open MassaIndexer.Theory.KeyedTable
open MassaIndexer.Data.Ids MassaIndexer.Data.Model MassaIndexer.Data.Keys
open MassaIndexer.Data.Codec MassaIndexer.Data.RowCodec

set_option autoImplicit false

/-! ## How rows are filed -/

instance : Row SlotState where
  key s := slotKey s.slot
  stored := readBackSlotState
  stored_stored s := by simp [readBackSlotState]
  key_stored _ := rfl

instance : Row StoredTransfer where
  key t := transferKey t.slot t.indexInSlot
  stored := readBackTransfer
  stored_stored t := by simp [readBackTransfer]
  key_stored _ := rfl

/-- A row the codec gives back unchanged. -/
@[reducible] def faithfulRow {V : Type} (key : V → Bytes) : Row V where
  key := key
  stored := id
  stored_stored _ := rfl
  key_stored _ := rfl

instance : Row StoredBlock := faithfulRow fun b => b.id.bytes
instance : Row StoredEndorsement := faithfulRow fun e => e.id.bytes
instance : Row StoredOperation := faithfulRow fun o => o.id.bytes
instance : Row StoredScEvent := faithfulRow fun e => scEventKey e.slot e.indexInSlot
instance : Row StoredDenunciationEntry := faithfulRow fun d => d.hash
instance : Row StoredAsyncMsg := faithfulRow fun m => textBytes m.id
instance : Row StoredDeferredCall := faithfulRow fun d => textBytes d.id

structure Db where
  slots : Table SlotState
  slotCandidateBlock : Index
  blocks : Table StoredBlock
  endorsements : Table StoredEndorsement
  ops : Table StoredOperation
  scEvents : Table StoredScEvent
  denunciations : Table StoredDenunciationEntry
  transfers : Table StoredTransfer
  asyncMsgs : Table StoredAsyncMsg
  deferredCalls : Table StoredDeferredCall
  blockByCreator : Index
  endorsementByCreator : Index
  opByCreator : Index
  opByTarget : Index
  scEventByEmitter : Index
  scEventByCaller : Index
  scEventByOp : Index
  denunciationByAddr : Index
  denunciationRecent : Index
  transferByAddr : Index
  transferByOp : Index
  transferByBlock : Index
  asyncBySender : Index
  asyncByDest : Index
  asyncByLastSlot : Index
  deferredBySender : Index
  deferredByTarget : Index
  deferredByLastSlot : Index
  lastFinalSlot : Option Slot
  lastCandidateSlot : Option Slot

namespace Db

/-- A freshly created store. -/
def empty : Db where
  slots := .empty
  slotCandidateBlock := ∅
  blocks := .empty
  endorsements := .empty
  ops := .empty
  scEvents := .empty
  denunciations := .empty
  transfers := .empty
  asyncMsgs := .empty
  deferredCalls := .empty
  blockByCreator := ∅
  endorsementByCreator := ∅
  opByCreator := ∅
  opByTarget := ∅
  scEventByEmitter := ∅
  scEventByCaller := ∅
  scEventByOp := ∅
  denunciationByAddr := ∅
  denunciationRecent := ∅
  transferByAddr := ∅
  transferByOp := ∅
  transferByBlock := ∅
  asyncBySender := ∅
  asyncByDest := ∅
  asyncByLastSlot := ∅
  deferredBySender := ∅
  deferredByTarget := ∅
  deferredByLastSlot := ∅
  lastFinalSlot := none
  lastCandidateSlot := none

/-! ## Head markers -/

def updateLastFinalSlot (db : Db) (s : Slot) : Db := { db with lastFinalSlot := some s }

def readLastFinalSlot (db : Db) : Option Slot := db.lastFinalSlot

def updateLastCandidateSlot (db : Db) (s : Slot) : Db := { db with lastCandidateSlot := some s }

/-! ## Slots -/

def readSlot (db : Db) (s : Slot) : Option SlotState := db.slots.get (slotKey s)

def writeSlot (db : Db) (row : SlotState) : Db := { db with slots := db.slots.put row }

theorem readSlot_writeSlot (db : Db) (row : SlotState) (s : Slot) :
    (db.writeSlot row).readSlot s =
      if row.slot = s then some (readBackSlotState row) else db.readSlot s := by
  change (db.slots.put row).get (slotKey s) = _
  rw [Table.get_put]
  simp only [Row.key, Row.stored, slotKey_inj, readSlot]

theorem slot_of_readSlot {db : Db} {s : Slot} {row : SlotState} (found : db.readSlot s = some row) :
    row.slot = s := slotKey_injective (Table.key_of_get found)

/-- A row on disk never has an empty trail hash. -/
theorem trail_of_readSlot {db : Db} {s : Slot} {row : SlotState}
    (found : db.readSlot s = some row) : readBackTrail row.executionTrailHash = row.executionTrailHash :=
  congrArg SlotState.executionTrailHash (Table.stored_of_get found)

/-! ## Blocks -/

def readBlock (db : Db) (id : BlockId) : Option StoredBlock := db.blocks.get id.bytes

def writeBlock (db : Db) (block : StoredBlock) : Db :=
  { db with
    blocks := db.blocks.put block
    blockByCreator :=
      db.blockByCreator.insert (idxBlockByCreator block.creator.bytes block.slot block.id.bytes)
    slotCandidateBlock := db.slotCandidateBlock.insert (slotKey block.slot ++ block.id.bytes) }

theorem readBlock_writeBlock (db : Db) (block : StoredBlock) (id : BlockId) :
    (db.writeBlock block).readBlock id = if block.id = id then some block else db.readBlock id := by
  change (db.blocks.put block).get id.bytes = _
  rw [Table.get_put]
  simp only [Row.key, Row.stored, id_eq, readBlock, FamilyId.ext_iff]

theorem id_of_readBlock {db : Db} {id : BlockId} {block : StoredBlock}
    (found : db.readBlock id = some block) : block.id = id := FamilyId.ext (Table.key_of_get found)

/-! ## Endorsements -/

def readEndorsement (db : Db) (id : EndorsementId) : Option StoredEndorsement :=
  db.endorsements.get id.bytes

/-- First write wins. -/
def writeEndorsement (db : Db) (e : StoredEndorsement) : Db :=
  if (db.readEndorsement e.id).isSome then db
  else
    { db with
      endorsements := db.endorsements.put e
      endorsementByCreator :=
        db.endorsementByCreator.insert
          (idxBlockByCreator e.contentCreatorAddress.bytes e.slot e.id.bytes) }

/-- The same for a row whose ids are still text: the key is parsed before the lookup, the other ids
only when the row has to be encoded. -/
def writeSeenEndorsement [Bs58Check] (db : Db) (e : SeenEndorsement) : Except String Db := do
  let id ← EndorsementId.parse e.id
  if (db.readEndorsement id).isSome then
    return db
  else
    let row ← resolveEndorsement e
    return db.writeEndorsement row

/-! ## Operations -/

def readOp (db : Db) (id : OperationId) : Option StoredOperation := db.ops.get id.bytes

def writeOp (db : Db) (op : StoredOperation) : Db :=
  { db with
    ops := db.ops.put op
    opByCreator := Index.insertAll db.opByCreator
      ((op.inclusions.head?.map fun first =>
        idxOpByCreator op.creator.bytes first.slot op.id.bytes).toList)
    opByTarget := Index.insertAll db.opByTarget
      ((op.inclusions.head?.bind fun first => op.target.map fun target =>
        idxOpByTarget target.bytes first.slot op.id.bytes).toList) }

theorem readOp_writeOp (db : Db) (op : StoredOperation) (id : OperationId) :
    (db.writeOp op).readOp id = if op.id = id then some op else db.readOp id := by
  change (db.ops.put op).get id.bytes = _
  rw [Table.get_put]
  simp only [Row.key, Row.stored, id_eq, readOp, FamilyId.ext_iff]

theorem id_of_readOp {db : Db} {id : OperationId} {op : StoredOperation}
    (found : db.readOp id = some op) : op.id = id := FamilyId.ext (Table.key_of_get found)

/-! ## Smart-contract events -/

def eventEmitterKeys (ev : StoredScEvent) : List Bytes :=
  ev.emitterAddrs.map fun a => idxEventByAddr a.bytes ev.slot ev.indexInSlot

def eventCallerKeys (ev : StoredScEvent) : List Bytes :=
  ev.callerAddrs.map fun a => idxEventByAddr a.bytes ev.slot ev.indexInSlot

def eventOpKeys (ev : StoredScEvent) : List Bytes :=
  (ev.opId.map fun op => idxEventByOp op.bytes ev.slot ev.indexInSlot).toList

def writeScEvent (db : Db) (ev : StoredScEvent) : Db :=
  { db with
    scEvents := db.scEvents.put ev
    scEventByEmitter := Index.insertAll db.scEventByEmitter (eventEmitterKeys ev)
    scEventByCaller := Index.insertAll db.scEventByCaller (eventCallerKeys ev)
    scEventByOp := Index.insertAll db.scEventByOp (eventOpKeys ev) }

/-- Every event of a slot, in index order. -/
def scEventsOfSlot (db : Db) (s : Slot) : List StoredScEvent := db.scEvents.under (slotKey s)

def clearScEventsForSlot (db : Db) (s : Slot) : Db :=
  let events := db.scEventsOfSlot s
  { db with
    scEvents := db.scEvents.eraseUnder (slotKey s)
    scEventByEmitter := Index.eraseAll db.scEventByEmitter (events.flatMap eventEmitterKeys)
    scEventByCaller := Index.eraseAll db.scEventByCaller (events.flatMap eventCallerKeys)
    scEventByOp := Index.eraseAll db.scEventByOp (events.flatMap eventOpKeys) }

/-! ## Denunciations -/

def readDenunciation (db : Db) (hash : Bytes) : Option StoredDenunciationEntry :=
  db.denunciations.get hash

/-- The first record of a hash stays; it only gains an including block when it had none. -/
def writeDenunciation (db : Db) (d : StoredDenunciationEntry) : Db :=
  match db.readDenunciation d.hash with
  | some prev =>
      if prev.includedBlockId.isNone && d.includedBlockId.isSome then
        { db with
          denunciations := db.denunciations.put
            { prev with includedBlockId := d.includedBlockId, includedSlot := d.includedSlot } }
      else db
  | none =>
      { db with
        denunciations := db.denunciations.put d
        denunciationByAddr := Index.insertAll db.denunciationByAddr
          ((d.denouncedAddr.map fun a => idxDenunciationByAddr a.bytes d.slot d.hash).toList)
        denunciationRecent :=
          db.denunciationRecent.insert (idxDenunciationRecent d.slot d.hash) }

/-! ## Transfers -/

section Transfers

variable [Bs58Check]

/-- The address entries of a transfer: its sender under tag 1, its recipient under tag 2, each when
the text is an address. -/
def transferAddrKeys (t : StoredTransfer) : List Bytes :=
  let entry (tag : UInt8) (text : Option String) : List Bytes :=
    ((text.bind fun s => (Address.parse s).toOption).map fun a =>
      idxTransferByAddr a.bytes t.slot t.indexInSlot tag).toList
  entry 1 t.fromAddr ++ entry 2 t.toAddr

def transferOpKeys (t : StoredTransfer) : List Bytes :=
  ((t.operationId.bind fun s => (OperationId.parse s).toOption).map fun o =>
    idxTransferByOp o.bytes t.slot t.indexInSlot).toList

def transferBlockKeys (t : StoredTransfer) : List Bytes :=
  ((t.blockId.bind fun s => (BlockId.parse s).toOption).map fun b =>
    idxTransferByBlock b.bytes t.slot t.indexInSlot).toList

/-- A row already at the key is replaced; the index entries it had stay behind. -/
def writeTransfer (db : Db) (t : StoredTransfer) : Db :=
  { db with
    transfers := db.transfers.put t
    transferByAddr := Index.insertAll db.transferByAddr (transferAddrKeys t)
    transferByOp := Index.insertAll db.transferByOp (transferOpKeys t)
    transferByBlock := Index.insertAll db.transferByBlock (transferBlockKeys t) }

def readTransfer (db : Db) (s : Slot) (index : UInt32) : Option StoredTransfer :=
  db.transfers.get (transferKey s index)

/-- `iter_transfers_for_slot`: every transfer recorded in a slot, in index order. -/
def transfersForSlot (db : Db) (s : Slot) : List StoredTransfer := db.transfers.under (slotKey s)

def clearTransfersForSlot (db : Db) (s : Slot) : Db :=
  let rows := db.transfersForSlot s
  { db with
    transfers := db.transfers.eraseUnder (slotKey s)
    transferByAddr := Index.eraseAll db.transferByAddr (rows.flatMap transferAddrKeys)
    transferByOp := Index.eraseAll db.transferByOp (rows.flatMap transferOpKeys)
    transferByBlock := Index.eraseAll db.transferByBlock (rows.flatMap transferBlockKeys) }

theorem readTransfer_writeTransfer (db : Db) (t : StoredTransfer) (s : Slot) (index : UInt32) :
    (db.writeTransfer t).readTransfer s index =
      if t.slot = s ∧ t.indexInSlot = index then some (readBackTransfer t)
      else db.readTransfer s index := by
  change (db.transfers.put t).get (transferKey s index) = _
  rw [Table.get_put]
  simp only [Row.key, Row.stored, transferKey_inj, readTransfer]

end Transfers

/-! ## Async messages and deferred calls -/

def readAsyncMsg (db : Db) (id : String) : Option StoredAsyncMsg := db.asyncMsgs.get (textBytes id)

def addrEntry (addr : Option Address) (id : String) : List Bytes :=
  (addr.map fun a => idxAsyncByAddr a.bytes id).toList

def slotEntry (slot : Option Slot) (id : String) : List Bytes :=
  (slot.map fun s => idxByRslotId s id).toList

/-- Retire the entry of the previous row when its field moved, then enter the new one. -/
def refresh {α : Type} [DecidableEq α] (idx : Index) (entry : Option α → String → List Bytes)
    (prev : Option (Option α)) (now : Option α) (id : String) : Index :=
  let retired := match prev with
    | some old => if old ≠ now then Index.eraseAll idx (entry old id) else idx
    | none => idx
  Index.insertAll retired (entry now id)

/-- Upsert; the first sighting of an existing row is kept unless it is zero. -/
def writeAsyncMsg (db : Db) (msg : StoredAsyncMsg) : Db :=
  let prev := db.readAsyncMsg msg.id
  let row := match prev with
    | some p => if p.firstSeenTsMs ≠ 0 then { msg with firstSeenTsMs := p.firstSeenTsMs } else msg
    | none => msg
  { db with
    asyncMsgs := db.asyncMsgs.put row
    asyncBySender := refresh db.asyncBySender addrEntry (prev.map (·.sender)) row.sender row.id
    asyncByDest := refresh db.asyncByDest addrEntry (prev.map (·.destination)) row.destination row.id
    asyncByLastSlot := refresh db.asyncByLastSlot slotEntry (prev.map (·.lastSlot)) row.lastSlot row.id }

def readDeferredCall (db : Db) (id : String) : Option StoredDeferredCall :=
  db.deferredCalls.get (textBytes id)

def writeDeferredCall (db : Db) (call : StoredDeferredCall) : Db :=
  let prev := db.readDeferredCall call.id
  let row := match prev with
    | some p => if p.firstSeenTsMs ≠ 0 then { call with firstSeenTsMs := p.firstSeenTsMs } else call
    | none => call
  { db with
    deferredCalls := db.deferredCalls.put row
    deferredBySender :=
      refresh db.deferredBySender addrEntry (prev.map (·.sender)) row.sender row.id
    deferredByTarget :=
      refresh db.deferredByTarget addrEntry (prev.map (·.targetAddress)) row.targetAddress row.id
    deferredByLastSlot :=
      refresh db.deferredByLastSlot slotEntry (prev.map (·.lastSlot)) row.lastSlot row.id }

theorem readAsyncMsg_writeAsyncMsg (db : Db) (msg : StoredAsyncMsg) (id : String) :
    (db.writeAsyncMsg msg).readAsyncMsg id =
      if msg.id = id then
        some (match db.readAsyncMsg msg.id with
          | some p => if p.firstSeenTsMs ≠ 0 then { msg with firstSeenTsMs := p.firstSeenTsMs } else msg
          | none => msg)
      else db.readAsyncMsg id := by
  have filed : ∀ row : StoredAsyncMsg, row.id = msg.id →
      (db.asyncMsgs.put row).get (textBytes id) =
        if msg.id = id then some row else db.readAsyncMsg id := by
    intro row same
    rw [Table.get_put]
    simp only [Row.key, Row.stored, id_eq, same, readAsyncMsg]
    exact if_congr ⟨fun eq => textBytes_injective eq, congrArg textBytes⟩ rfl rfl
  refine filed _ ?_
  split
  · split <;> rfl
  · rfl

theorem readDeferredCall_writeDeferredCall (db : Db) (call : StoredDeferredCall) (id : String) :
    (db.writeDeferredCall call).readDeferredCall id =
      if call.id = id then
        some (match db.readDeferredCall call.id with
          | some p => if p.firstSeenTsMs ≠ 0 then { call with firstSeenTsMs := p.firstSeenTsMs } else call
          | none => call)
      else db.readDeferredCall id := by
  have filed : ∀ row : StoredDeferredCall, row.id = call.id →
      (db.deferredCalls.put row).get (textBytes id) =
        if call.id = id then some row else db.readDeferredCall id := by
    intro row same
    rw [Table.get_put]
    simp only [Row.key, Row.stored, id_eq, same, readDeferredCall]
    exact if_congr ⟨fun eq => textBytes_injective eq, congrArg textBytes⟩ rfl rfl
  refine filed _ ?_
  split
  · split <;> rfl
  · rfl

theorem id_of_readAsyncMsg {db : Db} {id : String} {msg : StoredAsyncMsg}
    (found : db.readAsyncMsg id = some msg) : msg.id = id :=
  textBytes_injective (Table.key_of_get found)

theorem id_of_readDeferredCall {db : Db} {id : String} {call : StoredDeferredCall}
    (found : db.readDeferredCall id = some call) : call.id = id :=
  textBytes_injective (Table.key_of_get found)

/-- `iter_by_last_slot`: the ids the index lists under a slot, dereferenced into the primary family.
The scan stops at the limit, which counts the rows found. -/
def lastSlotIds (idx : Index) (s : Slot) : List Bytes :=
  ((idx.toList.dropWhile fun k => compare k (rslotKey s) == .lt).takeWhile
    fun k => (rslotKey s).isPrefixOf k).map fun k => k.drop (rslotKey s).length

def asyncMsgsByLastSlot (db : Db) (s : Slot) (limit : Nat) : List StoredAsyncMsg :=
  ((lastSlotIds db.asyncByLastSlot s).filterMap db.asyncMsgs.get).take limit

def deferredCallsByLastSlot (db : Db) (s : Slot) (limit : Nat) : List StoredDeferredCall :=
  ((lastSlotIds db.deferredByLastSlot s).filterMap db.deferredCalls.get).take limit

end Db

end MassaIndexer.Store.ColumnFamilies
