/-
# Repair.Producers -- what the repair passes ship

Three producers rebuild the transfers of settled slots and queue them as legacy patches: from the
operations on disk (`reconstructSlot`), from the sub-transfer rows of the archive
(`subTransfersPatch`), and slot by slot from all the archive holds (`fetchSlot`, for the one-shot
importer). Each gives its rows their numbers by itself: from 0, after the rows it finds stored, by the
position of the operation.

What the archive holds is an input: the block row of a slot with its operations, decoded, and the rows
of the slot's index, each column `none` where it is missing or malformed.
-/
import MassaIndexer.Store.ColumnFamilies

namespace MassaIndexer.Repair.Producers

open MassaIndexer.Data.Ids MassaIndexer.Data.Model MassaIndexer.Data.Proto MassaIndexer.Data.Codec
open MassaIndexer.Data.RowCodec MassaIndexer.Store.ColumnFamilies

set_option autoImplicit false

/-! ## Ranges and clocks -/

/-- Tunables of `run_reconstruct_transfers`. -/
structure ReconstructConfig where
  fromPeriod : UInt64
  toPeriod : UInt64
  threadCount : UInt8
  genesisTimestampMs : Int
  t0Ms : Int

/-- Tunables of `run_legacy_sub_transfers`, less the number of lookups in flight. -/
structure LegacySubTransfersConfig where
  fromPeriod : UInt64
  toPeriod : UInt64
  threadCount : UInt8
  genesisTimestampMs : Int
  t0Ms : Int

/-- The `rc` the sub-transfer pass stamps its rows with. -/
def LegacySubTransfersConfig.timing (cfg : LegacySubTransfersConfig) : ReconstructConfig where
  fromPeriod := cfg.fromPeriod
  toPeriod := cfg.toPeriod
  threadCount := cfg.threadCount
  genesisTimestampMs := cfg.genesisTimestampMs
  t0Ms := cfg.t0Ms

/-- The slots of `from..=to` in the threads below `threadCount`. -/
def ReconstructConfig.covers (cfg : ReconstructConfig) (s : Slot) : Bool :=
  cfg.fromPeriod ≤ s.period && s.period ≤ cfg.toPeriod && s.thread < cfg.threadCount

def saturateI64 (x : Int) : Int := max (-2 ^ 63) (min (2 ^ 63 - 1) x)

def slotTimestampMs (cfg : ReconstructConfig) (slot : Slot) : Int :=
  let perThread := cfg.t0Ms.tdiv (max cfg.threadCount.toNat 1 : Nat)
  cfg.genesisTimestampMs + saturateI64 (slot.period.toInt64.toInt * cfg.t0Ms) +
    slot.thread.toNat * perThread

/-! ## Rows from operations -/

section Rows

variable [Bs58Check]

/-- `<op_id>:<index>`. -/
def transactionTransferId (op : OperationId) (indexInSlot : UInt32) : String :=
  op.text ++ ":" ++ toString indexInSlot.toNat

/-- The movement of a `Transaction`; `none` for the other kinds and for a zero amount. -/
def legacyOpToTransfer (op : StoredOperation) (slot : Slot) (blockId : String) (indexInSlot : UInt32)
    (blockTimestampMs : Int) : Option StoredTransfer :=
  if op.kind ≠ .transaction then none
  else
    match op.details.amountNmas, op.details.recipientAddress with
    | some amount, some recipient =>
        if amount = 0 then none
        else some {
          slot := slot
          indexInSlot := indexInSlot
          id := transactionTransferId op.id indexInSlot
          blockId := some blockId
          blockTimestampMs := blockTimestampMs
          fromAddr := some op.creator.text
          toAddr := some recipient
          value := .coins amount
          origin := .opTransactionCoins
          operationId := some op.id.text
          asyncMsgId := none
          deferredCallId := none
          denunciationIndex := none
          isFinal := true
          firstSeenTsMs := blockTimestampMs }
    | _, _ => none

/-! ## Reconstruction from disk -/

/-- The loop over the executed operations, with the next number to give. -/
def reconstructRows (db : Db) (slot : Slot) (blockId : String) (ts : Int) :
    List OperationId → UInt32 → List StoredTransfer
  | [], _ => []
  | opId :: rest, index =>
      match db.readOp opId with
      | none => reconstructRows db slot blockId ts rest index
      | some op =>
          if op.kind ≠ .transaction ∨ op.finalExecStatus ≠ some .ok then
            reconstructRows db slot blockId ts rest index
          else
            match legacyOpToTransfer op slot blockId index ts with
            | none => reconstructRows db slot blockId ts rest index
            | some t => t :: reconstructRows db slot blockId ts rest (index + 1)

/-- A patch with transfers and nothing else. -/
def transfersPatch (slot : Slot) (blockId : BlockId) (rows : List StoredTransfer) :
    FinalSlotResponse where
  period := slot.period
  thread := slot.thread.toUInt32
  finalKnown := true
  isMiss := false
  finalBlockId := blockId.text
  transfers := rows.map transferToPeerPb

/-- The patch that rebuilds the movements of one slot; `none` when there is nothing to rebuild. -/
def reconstructSlot (db : Db) (cfg : ReconstructConfig) (slot : Slot) : Option FinalSlotResponse :=
  match db.readSlot slot with
  | none => none
  | some state =>
      if state.status ≠ .final ∨ state.isMiss ∨ state.completeness.transfersStored ∨
          state.executedOpIds = [] then none
      else
        match state.finalBlockId with
        | none => none
        | some blockId =>
            let rows := reconstructRows db slot blockId.text (slotTimestampMs cfg slot)
              state.executedOpIds 0
            if rows = [] then none
            else some (transfersPatch slot blockId rows)

/-! ## Rows from the archive -/

/-- A row of `OperationsMainnet` as the index by slot projects it. -/
structure OperationsItem where
  hash : Option String
  status : Option Int := none
  originalOperationId : Option String := none
  slotAndAscIndex : Option String := none
  creatorAddress : Option String := none
  otherAddress : Option String := none
  amount : Option UInt64 := none
deriving DecidableEq

structure SubTransferRow where
  hash : String
  status : Int
  originalOpId : Option String
  slotAndAscIndex : Option String
  creatorAddress : String
  otherAddress : Option String
  amountNmas : UInt64

def OperationsItem.view (item : OperationsItem) (hash : String) : SubTransferRow where
  hash := hash
  status := item.status.getD 0
  originalOpId := item.originalOperationId
  slotAndAscIndex := item.slotAndAscIndex
  creatorAddress := item.creatorAddress.getD ""
  otherAddress := item.otherAddress
  amountNmas := item.amount.getD 0

/-- Sub-transfer rows have `_` in their hash. -/
def isSubTransferHash (hash : String) : Bool := hash.toList.contains '_'

/-- `split_once('_')`, the part before. -/
def parentOpFromHash (hash : String) : Option String :=
  if isSubTransferHash hash then some (String.ofList (hash.toList.takeWhile (· ≠ '_'))) else none

/-- Neither blank nor the archive's `"0"`. -/
def filled (column : Option String) : Option String := column.filter fun s => s ≠ "" && s ≠ "0"

def subTransferOrigin (row : SubTransferRow) (parentOp : Option String) : CoinOrigin :=
  if parentOp.isSome then .abiTransferCoins
  else if (filled row.slotAndAscIndex).isSome then .blockReward
  else .other 0

def legacySubTransferToTransfer (row : SubTransferRow) (slot : Slot) (blockId : Option String)
    (indexInSlot : UInt32) (blockTimestampMs : Int) : Option StoredTransfer :=
  if row.status ≠ 1 then none
  else if row.amountNmas = 0 then none
  else
    let parentOp := (parentOpFromHash row.hash).or (filled row.originalOpId)
    some {
      slot := slot
      indexInSlot := indexInSlot
      id := row.hash
      blockId := blockId
      blockTimestampMs := blockTimestampMs
      fromAddr := if row.creatorAddress.isEmpty then none else some row.creatorAddress
      toAddr := filled row.otherAddress
      value := .coins row.amountNmas
      origin := subTransferOrigin row parentOp
      operationId := parentOp
      asyncMsgId := none
      deferredCallId := none
      denunciationIndex := none
      isFinal := true
      firstSeenTsMs := blockTimestampMs }

/-- `u32::saturating_add(1)`. -/
def saturatingSucc (index : UInt32) : UInt32 :=
  if index = UInt32.ofNat (2 ^ 32 - 1) then index else index + 1

/-- The loop over the rows of a slot, with the ids to skip and the next number to give. -/
def subTransferRows (slot : Slot) (blockId : Option String) (ts : Int) (skipIds : List String) :
    List OperationsItem → UInt32 → List StoredTransfer
  | [], _ => []
  | item :: rest, index =>
      match item.hash with
      | none => subTransferRows slot blockId ts skipIds rest index
      | some hash =>
          if !isSubTransferHash hash || skipIds.contains hash then
            subTransferRows slot blockId ts skipIds rest index
          else
            match legacySubTransferToTransfer (item.view hash) slot blockId index ts with
            | none => subTransferRows slot blockId ts skipIds rest index
            | some t => t :: subTransferRows slot blockId ts skipIds rest (saturatingSucc index)

/-! ## The sub-transfer pass -/

/-- Did the slot execute a `CallSC` or `ExecuteSC` successfully? -/
def slotHasSuccessfulScOp (db : Db) (state : SlotState) : Bool :=
  state.executedOpIds.any fun opId => (db.readOp opId).any fun op =>
    (op.kind = .callSc || op.kind = .executeSc) && op.finalExecStatus = some .ok

/-- What the pre-filter keeps of a slot: the ids stored for it and the first free number. -/
structure SubTarget where
  blockId : BlockId
  ids : List String
  nextIndex : UInt32

def subTransfersTarget (db : Db) (slot : Slot) : Option SubTarget :=
  match db.readSlot slot with
  | none => none
  | some state =>
      if state.status ≠ .final ∨ state.isMiss ∨ state.completeness.transfersStored ∨
          state.executedOpIds = [] then none
      else
        match state.finalBlockId with
        | none => none
        | some blockId =>
            if slotHasSuccessfulScOp db state then
              let existing := db.transfersForSlot slot
              some {
                blockId := blockId
                ids := existing.map (·.id)
                nextIndex := (existing.map fun t => t.indexInSlot + 1).foldl max 0 }
            else none

/-- The patch for a slot whose rows in the archive are `items`. -/
def subTransfersPatch (db : Db) (cfg : LegacySubTransfersConfig) (slot : Slot)
    (items : List OperationsItem) : Option FinalSlotResponse :=
  match subTransfersTarget db slot with
  | none => none
  | some target =>
      let rows := subTransferRows slot (some target.blockId.text) (slotTimestampMs cfg.timing slot)
        target.ids items target.nextIndex
      if rows = [] then none
      else some (transfersPatch slot target.blockId rows)

/-! ## The one-shot importer -/

/-- A decoded operation row, and whether the archive says it was executed successfully. -/
structure DecodedOp where
  stored : StoredOperation
  executed : Bool

/-- A block row of the archive with the operations it lists. There is no body when one of its
endorsements does not encode; the endorsements are those that do. -/
structure ArchivedBlock where
  blockHash : BlockId
  block : Option StoredBlock
  endorsements : List StoredEndorsement
  ops : List DecodedOp

/-- A block row and the rows the index has for its slot. -/
structure ArchivedSlot extends ArchivedBlock where
  items : List OperationsItem

/-- The operations an explicit sub-transfer row accounts for. -/
def coveredOpIdsFromRows (items : List OperationsItem) : List String :=
  items.filterMap fun item =>
    if item.hash.any isSubTransferHash then filled item.originalOperationId else none

/-- Is a transfer made up for this operation? Not when the archive has a row of its own for it. -/
def synthesises (covered : List String) (d : DecodedOp) : Bool :=
  d.executed && !covered.contains d.stored.id.text

/-- One transfer for each executed `Transaction`, numbered by its position among the operations. -/
def synthesisedRows (slot : Slot) (blockHash : String) (nowMs : Int) (covered : List String)
    (ops : List DecodedOp) : List StoredTransfer :=
  ops.zipIdx.filterMap fun (d, i) =>
    if synthesises covered d then legacyOpToTransfer d.stored slot blockHash (UInt32.ofNat i) nowMs
    else none

/-- The transfers of an archived slot: the synthesised ones, and the sub-transfers numbered from their
count. -/
def archivedRows (slot : Slot) (a : ArchivedSlot) (nowMs : Int) : List StoredTransfer :=
  let synthesised :=
    synthesisedRows slot a.blockHash.text nowMs (coveredOpIdsFromRows a.items) a.ops
  synthesised ++ subTransferRows slot (some a.blockHash.text) nowMs [] a.items
    (UInt32.ofNat synthesised.length)

/-- Legacy decoding stamps what it decodes with the time of the lookup. -/
def blockSeenAt (b : StoredBlock) (nowMs : Int) : StoredBlock :=
  { b with
    endorsements := b.endorsements.map fun e => { e with firstSeenTsMs := nowMs }
    firstSeenTsMs := nowMs }

def fetchSlot (slot : Slot) (a : ArchivedSlot) (nowMs : Int) : FinalSlotResponse where
  period := slot.period
  thread := slot.thread.toUInt32
  finalKnown := true
  isMiss := false
  block := a.block.map fun b => blockToPeerPb (blockSeenAt b nowMs)
  operations := a.ops.map fun d => operationToPeerPb { d.stored with firstSeenTsMs := nowMs }
  endorsements := a.endorsements.map fun e => endorsementToPb { e with firstSeenTsMs := nowMs }
  executedOpIds := (a.ops.filter (·.executed)).map (·.stored.id.text)
  transfers := (archivedRows slot a nowMs).map transferToPeerPb
  finalBlockId := a.blockHash.text

/-- A settled slot that is a miss, or has its body or its transfers, costs no lookup. -/
def slotAlreadyCovered (s : SlotState) : Bool :=
  s.status = .final && (s.isMiss || s.completeness.blockBodyStored || s.completeness.transfersStored)

/-- A slot our node finalised with a block is no miss, whatever the archive lacks. -/
def keepsBlock (s : SlotState) : Bool := s.status = .final && s.finalBlockId.isSome

def missPatch (slot : Slot) : FinalSlotResponse where
  period := slot.period
  thread := slot.thread.toUInt32
  finalKnown := true
  isMiss := true

end Rows

end MassaIndexer.Repair.Producers
