/-
# Writer.Handlers -- the three node streams

`handleBlock`, `handleExec` and `handleTransfers` as functions of the store. Only `handleBlock` can
stop half way: an endorsement whose ids do not parse, or an operation without content or creator,
ends it after the rows before were written, and those stay. `handleExec` and `handleTransfers` raise
their errors before they touch the store.

Where the source works on the slot row in hand and on the store in turns, the row is computed first
and the store follows: no write of these handlers reads the row back.
-/
import MassaIndexer.Writer.NodeDecode
import MassaIndexer.Writer.Shared

namespace MassaIndexer.Writer.Handlers

open MassaIndexer.Data.Ids MassaIndexer.Data.Model MassaIndexer.Data.Codec
open MassaIndexer.Store.ColumnFamilies
open MassaIndexer.Writer.NodeProto MassaIndexer.Writer.NodeDecode MassaIndexer.Writer.Shared

set_option autoImplicit false

/-- What a handler leaves: the store, with every write made before an error, and how it ended. -/
structure Handled (α : Type) where
  db : Db
  result : Except String α

variable [Bs58Check]

/-! ## Filled blocks -/

/-- What the block handler reads before its first write. -/
structure BlockHead where
  header : SignedBlockHeader
  content : BlockHeader
  id : BlockId
  slot : Slot
  creator : Address

def decodeHead (fb : FilledBlock) : Except String BlockHead :=
  match fb.header with
  | none => .error "FilledBlock missing header"
  | some header =>
      match header.content with
      | none => .error "SignedBlockHeader missing content"
      | some content =>
          if header.secureHash.isEmpty then .error "empty block id"
          else match BlockId.parse header.secureHash with
            | .error e => .error e
            | .ok id =>
                match content.slot with
                | none => .error "block header missing slot"
                | some slot =>
                    match Address.parse header.contentCreatorAddress with
                    | .error e => .error e
                    | .ok creator =>
                        .ok { header := header, content := content, id := id,
                              slot := slotFromPb slot, creator := creator }

namespace BlockHead

/-- Parents that do not parse are dropped, which moves the later ones to other threads. -/
def parents (head : BlockHead) : List BlockId :=
  head.content.parents.filterMap fun p => (BlockId.parse p).toOption

def endorsements (head : BlockHead) (nowMs : Int) : List SeenEndorsement :=
  head.content.endorsements.filterMap fun se => decodeEndorsement se head.id head.slot nowMs

def denunciations (head : BlockHead) : List StoredDenunciation :=
  head.content.denunciations.map decodeDenunciation

end BlockHead

def persistEndorsements (db : Db) : List SeenEndorsement → Handled Unit
  | [] => ⟨db, .ok ()⟩
  | e :: es =>
      match db.writeSeenEndorsement e with
      | .error err => ⟨db, .error err⟩
      | .ok db => persistEndorsements db es

/-- The id a filled operation goes by: its own field, else the hash of the signed message. -/
def filledOpId (filled : FilledOperation) (signedOp : SignedOperation) : Option OperationId :=
  let text :=
    if filled.operationId.isEmpty then signedOp.secureHash else filled.operationId
  if text.isEmpty then none else (OperationId.parse text).toOption

def freshOperation (signedOp : SignedOperation) (id : OperationId) (thread : UInt8) (nowMs : Int) :
    Except String StoredOperation :=
  match signedOp.content with
  | none => .error "op missing content"
  | some content =>
      let (kind, target, details) := classifyOp content.op
      match Address.parse signedOp.contentCreatorAddress with
      | .error e => .error e
      | .ok creator =>
          .ok { id := id
                creator := creator
                target := target
                kind := kind
                expirePeriod := content.expirePeriod
                feeNmas := (content.fee.map (·.mantissa)).getD 0
                thread := thread
                inclusions := []
                candidateExecStatus := none
                finalExecStatus := none
                details := details
                signature := signedOp.signature
                contentCreatorPubKey := signedOp.contentCreatorPubKey
                serializedSize := signedOp.serializedSize
                rawSignedOp := signedOp.encoded
                firstSeenTsMs := nowMs }

/-- Record the block as an inclusion site unless it is one already; the first stays first. -/
def recordInclusion (head : BlockHead) (op : StoredOperation) : StoredOperation :=
  let site : OperationInclusion := ⟨head.slot, head.id⟩
  let op := { op with thread := head.slot.thread }
  if site ∈ op.inclusions then op else { op with inclusions := op.inclusions ++ [site] }

/-- An operation without a message or a valid id is skipped. -/
def ingestOperation (db : Db) (head : BlockHead) (nowMs : Int) (filled : FilledOperation) :
    Handled (Option OperationId) :=
  match filled.operation with
  | none => ⟨db, .ok none⟩
  | some signedOp =>
      match filledOpId filled signedOp with
      | none => ⟨db, .ok none⟩
      | some id =>
          match db.readOp id with
          | some stored => ⟨db.writeOp (recordInclusion head stored), .ok (some id)⟩
          | none =>
              match freshOperation signedOp id head.slot.thread nowMs with
              | .error e => ⟨db, .error e⟩
              | .ok stored => ⟨db.writeOp (recordInclusion head stored), .ok (some id)⟩

def ingestOperations (db : Db) (head : BlockHead) (nowMs : Int) :
    List FilledOperation → Handled (List OperationId)
  | [] => ⟨db, .ok []⟩
  | filled :: rest =>
      match ingestOperation db head nowMs filled with
      | ⟨db, .error e⟩ => ⟨db, .error e⟩
      | ⟨db, .ok id⟩ =>
          let later := ingestOperations db head nowMs rest
          ⟨later.db, later.result.map (id.toList ++ ·)⟩

/-- A block can arrive after its slot is FINAL. -/
def initialBlockStatus (state : SlotState) (id : BlockId) : BlockStatus :=
  if state.status = .final then
    if state.finalBlockId = some id then .final else .discarded
  else .seenCandidate

/-- The row of the block: the one we hold brought up to date, or a new one. -/
def seenBlock (db : Db) (head : BlockHead) (endorsements : List StoredEndorsement)
    (operationIds : List OperationId) (initial : BlockStatus) (nowMs : Int) : StoredBlock :=
  match db.readBlock head.id with
  | some b =>
      { b with
        operationIds := if b.operationIds.isEmpty then operationIds else b.operationIds
        endorsements := endorsements
        endorsementIds := (head.endorsements nowMs).map (·.id)
        denunciations := head.denunciations
        status := if b.status = .seenCandidate then initial else b.status }
  | none =>
      { id := head.id
        slot := head.slot
        creator := head.creator
        parents := head.parents
        operationIds := operationIds
        endorsements := endorsements
        endorsementIds := (head.endorsements nowMs).map (·.id)
        denunciations := head.denunciations
        currentVersion := head.content.currentVersion
        announcedVersion := head.content.announcedVersion
        operationsHash := head.content.operationsHash
        signature := head.header.signature
        contentCreatorPubKey := head.header.contentCreatorPubKey
        serializedSize := head.header.serializedSize
        rawSignedHeader := head.header.encoded
        status := initial
        firstSeenTsMs := nowMs }

/-- The slot row once a block of the slot is stored. The body flag is set whatever the verdict. -/
def bodySeen (state : SlotState) (id : BlockId) (nowMs : Int) : SlotState :=
  let state := state.addCandidate id
  { state with
    completeness := { state.completeness with blockBodyStored := true }
    lastUpdatedTsMs := nowMs
    status := if state.status = .unknown then .candidate else state.status }

variable [DenunciationDigest]

def handleBlock (db : Db) (fb : FilledBlock) (nowMs : Int) : Handled Unit :=
  match decodeHead fb with
  | .error e => ⟨db, .error e⟩
  | .ok head =>
      match persistEndorsements db (head.endorsements nowMs) with
      | ⟨db, .error e⟩ => ⟨db, .error e⟩
      | ⟨db, .ok ()⟩ =>
          let db := head.denunciations.foldl
            (fun db d => db.writeDenunciation (denunciationEntry head.id nowMs d)) db
          match ingestOperations db head nowMs fb.operations with
          | ⟨db, .error e⟩ => ⟨db, .error e⟩
          | ⟨db, .ok operationIds⟩ =>
              let state := (db.readSlot head.slot).getD (SlotState.fresh head.slot nowMs)
              -- encoding the block row parses the ids of its endorsements once more
              match (head.endorsements nowMs).mapM resolveEndorsement with
              | .error e => ⟨db, .error e⟩
              | .ok endorsements =>
                  let block := seenBlock db head endorsements operationIds
                    (initialBlockStatus state head.id) nowMs
                  let db := (db.writeBlock block).writeSlot (bodySeen state head.id nowMs)
                  ⟨ensureParentStub db head.slot nowMs, .ok ()⟩

/-! ## Execution outputs -/

omit [DenunciationDigest]

def executedOpIds (entries : List ExecutedOpsChangeEntry) : List OperationId :=
  entries.filterMap fun entry => (OperationId.parse entry.operationId).toOption

/-- The first FINAL status of an operation stands; a CANDIDATE one is mirrored. Operations we do not
hold are skipped. -/
def applyExecutedOp (frame : ExecFrame) (db : Db) (entry : ExecutedOpsChangeEntry) : Db :=
  match (OperationId.parse entry.operationId).toOption with
  | none => db
  | some id =>
      match execStatusOf (entry.status.getD 0), db.readOp id with
      | some status, some op =>
          match frame with
          | .final =>
              if op.finalExecStatus.isNone then
                db.writeOp { op with
                  finalExecStatus := some status, candidateExecStatus := some status }
              else db
          | .candidate =>
              if op.candidateExecStatus ≠ some status then
                db.writeOp { op with candidateExecStatus := some status }
              else db
      | _, _ => db

def applyExecutedOpsChanges (frame : ExecFrame) (db : Db) (exec : ExecutionOutput) : Db :=
  match exec.stateChanges with
  | none => db
  | some sc => sc.executedOpsChanges.foldl (applyExecutedOp frame) db

/-- The executed list of a frame enters the row only where the row has none. -/
def fillExecutedOps (exec : ExecutionOutput) (known : List OperationId) : List OperationId :=
  match exec.stateChanges with
  | none => known
  | some sc =>
      let ids := executedOpIds sc.executedOpsChanges
      if !ids.isEmpty && known.isEmpty then ids else known

def applyAsyncPoolChange (slot : Slot) (nowMs : Int) (db : Db) (entry : AsyncPoolChangeEntry) : Db :=
  let id := entry.asyncMessageId
  let existing := (db.readAsyncMsg id).getD (mintedAsyncMsg id slot .pending nowMs)
  if id.isEmpty then db
  else match entry.value with
    | none => db
    | some value =>
        match asyncPoolChange value.changeType, value.message with
        | some .set, some (.createdMessage msg) =>
            db.writeAsyncMsg (asyncMsgFromProto id msg slot nowMs)
        | some .update, some (.updatedMessage upd) =>
            db.writeAsyncMsg
              { applyAsyncUpdate existing upd with lastSlot := some slot, lastUpdatedTsMs := nowMs }
        | some .delete, _ =>
            db.writeAsyncMsg
              { existing with
                -- a row the transfer stream has classified keeps its state
                state := match existing.state with
                  | .executed => .executed
                  | .cancelled => .cancelled
                  | _ => .consumed
                lastSlot := some slot
                lastUpdatedTsMs := nowMs }
        | _, _ => db

def applyAsyncPoolChanges (db : Db) (slot : Slot) (exec : ExecutionOutput) (nowMs : Int) : Db :=
  match exec.stateChanges with
  | none => db
  | some sc => sc.asyncPoolChanges.foldl (applyAsyncPoolChange slot nowMs) db

/-- The events of a frame replace the slot's. -/
def writeFrameEvents (db : Db) (slot : Slot) (status : SlotStatus) (exec : ExecutionOutput) : Db :=
  (frameEvents slot status exec).foldl Db.writeScEvent (db.clearScEventsForSlot slot)

/-- A block id a frame names; one that does not parse leaves the row without. -/
def frameBlock (exec : ExecutionOutput) : Option BlockId :=
  exec.blockId.bind fun s => (BlockId.parse s).toOption

/-- A slot that is not FINAL yet: the row a frame leaves. -/
def frameRow (state : SlotState) (frame : ExecFrame) (exec : ExecutionOutput) (nowMs : Int) :
    SlotState :=
  let state := { state with
    executionTrailHash := (frameTrail exec).or state.executionTrailHash
    scEventCount := UInt32.ofNat exec.events.length
    executedOpIds := fillExecutedOps exec state.executedOpIds
    lastUpdatedTsMs := nowMs }
  match frame with
  | .final =>
      { state with
        status := .final
        completeness := { state.completeness with execOutputFinal := true }
        isMiss := exec.blockId.isNone
        finalBlockId := (frameBlock exec).or state.finalBlockId }
  | .candidate =>
      { state with
        status := .candidate
        completeness := { state.completeness with execOutputCandidate := true } }

/-- A slot that is not FINAL yet: the store a frame leaves. -/
def recordFrame (db : Db) (slot : Slot) (state : SlotState) (frame : ExecFrame)
    (exec : ExecutionOutput) (nowMs : Int) : Db :=
  let row := frameRow state frame exec nowMs
  let db := writeFrameEvents db slot row.status exec
  match frame with
  | .final =>
      let db := db.updateLastFinalSlot slot
      let db := applyFinalityToBlocks db row.finalBlockId row.candidateBlockIds
      let db := applyExecutedOpsChanges .final db exec
      let db := applyAsyncPoolChanges db slot exec nowMs
      ensureParentStub (db.writeSlot row) slot nowMs
  | .candidate =>
      let db := db.updateLastCandidateSlot slot
      let db := applyExecutedOpsChanges .candidate db exec
      db.writeSlot row

/-- The row after the node's FINAL output has completed a slot a peer finalised. -/
def completedRow (state : SlotState) (exec : ExecutionOutput) (nowMs : Int) : SlotState :=
  { state with
    executionTrailHash := state.executionTrailHash.or (frameTrail exec)
    scEventCount := UInt32.ofNat exec.events.length
    completeness := { state.completeness with execOutputFinal := true }
    executedOpIds := fillExecutedOps exec state.executedOpIds
    lastUpdatedTsMs := nowMs }

def completeFinalExecFromNode (db : Db) (state : SlotState) (exec : ExecutionOutput) (nowMs : Int) :
    Db :=
  let row := completedRow state exec nowMs
  let db := writeFrameEvents db state.slot .final exec
  let db := applyExecutedOpsChanges .final db exec
  let db := applyAsyncPoolChanges db state.slot exec nowMs
  let db := applyFinalityToBlocks db row.finalBlockId row.candidateBlockIds
  db.writeSlot row

/-- Does a FINAL frame agree with the verdict of the row? -/
def sameVerdict (state : SlotState) (exec : ExecutionOutput) : Bool :=
  state.isMiss == exec.blockId.isNone &&
    (state.isMiss || decide (frameBlock exec = state.finalBlockId))

/-- First-final-wins: a frame for a FINAL slot only completes a row of the same verdict whose exec
part is open. -/
def confirmFrame (db : Db) (state : SlotState) (frame : ExecFrame) (exec : ExecutionOutput)
    (nowMs : Int) : Db :=
  if frame = .final ∧ trailsDiffer state.executionTrailHash (frameTrail exec) = false ∧
      sameVerdict state exec = true ∧ state.completeness.execOutputFinal = false then
    completeFinalExecFromNode db state exec nowMs
  else db

def handleExec (db : Db) (outer : SlotExecutionOutput) (nowMs : Int) : Handled Unit :=
  match outer.executionOutput with
  | none => ⟨db, .error "SlotExecutionOutput missing execution_output"⟩
  | some exec =>
      match exec.slot with
      | none => ⟨db, .error "execution_output missing slot"⟩
      | some slotPb =>
          let slot := slotFromPb slotPb
          match execFrame outer.status with
          | none => ⟨db, .ok ()⟩
          | some frame =>
              let state := (db.readSlot slot).getD (SlotState.fresh slot nowMs)
              if state.status = .final then ⟨confirmFrame db state frame exec nowMs, .ok ()⟩
              else ⟨recordFrame db slot state frame exec nowMs, .ok ()⟩

/-! ## Transfers -/

/-- The slot row once its transfer list is in; a row that has the flag is left as it is. -/
def settleTransfers (db : Db) (slot : Slot) (nowMs : Int) : Db :=
  match db.readSlot slot with
  | some state =>
      if state.completeness.transfersStored then db
      else
        db.writeSlot { state with
          completeness := { state.completeness with transfersStored := true }
          lastUpdatedTsMs := nowMs }
  | none =>
      let fresh := SlotState.fresh slot nowMs
      db.writeSlot { fresh with completeness := { fresh.completeness with transfersStored := true } }

/-- The node's list replaces the slot's transfers. -/
def handleTransfers (db : Db) (resp : NewTransfersInfoServerResponse) (nowMs : Int) : Handled Unit :=
  match resp.slot with
  | none => ⟨db, .error "NewTransfersInfoServerResponse missing slot"⟩
  | some slotPb =>
      let slot := slotFromPb slotPb
      let rows := decodeTransfers resp slot nowMs
      let db := rows.foldl Db.writeTransfer (db.clearTransfersForSlot slot)
      let db := reconcileAsyncFromTransfers db slot rows nowMs
      let db := reconcileDeferredFromTransfers db slot rows nowMs
      ⟨settleTransfers db slot nowMs, .ok ()⟩

end MassaIndexer.Writer.Handlers
