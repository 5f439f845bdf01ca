/-
# Peer.Patch -- applying a `FinalSlotResponse`

The three patch events of the writer: a peer's answer (`applyPeerPatch`), an answer stitched
together from the legacy archive (`applyLegacyPatch`) and an operator's verdict
(`applyForcedVerdict`). A response is first reconciled with the slot row we hold -- promoted,
arbitrated, or turned away -- and then its parts are applied one after the other to the store, the
row in hand and the outcome; the row is written last.

Nothing here fails half way. The only error is a forced verdict without a block id, raised before
any write.
-/
import MassaIndexer.Peer.Arbiter
import MassaIndexer.Writer.Shared

namespace MassaIndexer.Peer.Patch

open MassaIndexer.Data.Ids MassaIndexer.Data.Model MassaIndexer.Data.Proto
open MassaIndexer.Data.Codec MassaIndexer.Data.RowCodec
open MassaIndexer.Store.ColumnFamilies MassaIndexer.Writer.Shared MassaIndexer.Peer.Arbiter

set_option autoImplicit false

/-- Outcome of applying a patch. -/
structure PatchOutcome where
  becameFinal : Bool := false
  blockApplied : Bool := false
  execApplied : Bool := false
  transfersApplied : Bool := false
  trailMismatch : Bool := false
  empty : Bool := false
  divergenceRepaired : Bool := false
  divergenceKeptLocal : Bool := false
deriving DecidableEq

/-- The store, the slot row in hand and the outcome while a patch is applied. -/
structure Patching where
  db : Db
  state : SlotState
  out : PatchOutcome

variable [Bs58Check]

/-! ## Reading the response -/

/-- The slot a response is about; `none` when its thread does not fit. -/
def slotOf (resp : FinalSlotResponse) : Option Slot :=
  (threadFromPb resp.thread).toOption.map fun thread => ⟨resp.period, thread⟩

/-- An invalid id counts as none. -/
def parseFinalBlockId (resp : FinalSlotResponse) : Option BlockId :=
  if resp.finalBlockId.isEmpty then none else (BlockId.parse resp.finalBlockId).toOption

def peerTrail (resp : FinalSlotResponse) : Option String :=
  if resp.executionTrailHash.isEmpty then none else some resp.executionTrailHash

def shippedBlock (resp : FinalSlotResponse) : Option StoredBlock :=
  resp.block.bind fun pb => (blockFromPeerPb pb).toOption

def parseOpIds (ids : List String) : List OperationId :=
  ids.filterMap fun s => (OperationId.parse s).toOption

/-! ## Verdicts -/

/-- The verdict fields of a promotion, shared by the peer and the legacy path. -/
def promote (state : SlotState) (isMiss : Bool) (finalBlockId : Option BlockId) : SlotState :=
  let state := { state with status := .final, isMiss := isMiss }
  if isMiss then state
  else match finalBlockId with
    | none => state
    | some bid => { state with finalBlockId := some bid }.addCandidate bid

/-- `last_final_slot` moves only to a later slot. -/
def advanceHead (db : Db) (slot : Slot) : Db :=
  match db.readLastFinalSlot with
  | some prev => if prev.lt slot then db.updateLastFinalSlot slot else db
  | none => db.updateLastFinalSlot slot

/-- Replace the local FINAL verdict with the peer's: the superseded block is discarded, everything
derived from the old verdict dropped. -/
def adoptPeerVerdict (db : Db) (state : SlotState) (resp : FinalSlotResponse)
    (peerBlock : Option BlockId) (trail : Option String) : Db × SlotState :=
  let db := match state.finalBlockId with
    | some old => settleBlock db old .discarded
    | none => db
  let db := (db.clearScEventsForSlot state.slot).clearTransfersForSlot state.slot
  let finalBlockId := if resp.isMiss then none else peerBlock
  let state := { state with isMiss := resp.isMiss, finalBlockId := finalBlockId }
  let state := match finalBlockId with
    | some bid => state.addCandidate bid
    | none => state
  (db, { state with
    executionTrailHash := trail
    executedOpIds := []
    scEventCount := 0
    completeness := { blockBodyStored := resp.isMiss } })

/-! ## Parts -/

/-- Merge what the local row lacks: the FINAL status and, if none is recorded, the inclusions. -/
def mergeOperation (localOp op : StoredOperation) : StoredOperation :=
  let merged :=
    if localOp.finalExecStatus.isNone && op.finalExecStatus.isSome then
      { localOp with
        finalExecStatus := op.finalExecStatus
        candidateExecStatus := op.finalExecStatus }
    else localOp
  if merged.inclusions.isEmpty && !op.inclusions.isEmpty then
    { merged with inclusions := op.inclusions }
  else merged

omit [Bs58Check] in
theorem mergeOperation_eq (localOp op : StoredOperation) : mergeOperation localOp op = { localOp with
    finalExecStatus := localOp.finalExecStatus.or op.finalExecStatus
    candidateExecStatus :=
      if localOp.finalExecStatus.isNone && op.finalExecStatus.isSome then op.finalExecStatus
      else localOp.candidateExecStatus
    inclusions := if localOp.inclusions.isEmpty then op.inclusions else localOp.inclusions } := by
  obtain ⟨id, creator, target, kind, expire, fee, thread, inclusions, candidate, final, details⟩ :=
    localOp
  unfold mergeOperation
  cases final <;> cases op.finalExecStatus <;> cases inclusions <;> cases op.inclusions <;> rfl

/-- A row that does not decode is skipped. -/
def applyOperation (db : Db) (pb : StoredOperationPb) : Db :=
  match operationFromPeerPb pb with
  | .error _ => db
  | .ok op =>
      match db.readOp op.id with
      | none => db.writeOp op
      | some localOp =>
          let merged := mergeOperation localOp op
          if merged ≠ localOp then db.writeOp merged else db

def applyEndorsement (db : Db) (pb : StoredEndorsementPb) : Db :=
  match endorsementFromPb pb with
  | .error _ => db
  | .ok e => db.writeEndorsement e

variable [DenunciationDigest]

/-- Store the shipped body if we do not hold it, merge its operations, and add its endorsements and
denunciations. `none` when no decodable body was shipped. -/
def applyBlockPart (db : Db) (resp : FinalSlotResponse) (nowMs : Int) : Db × Option StoredBlock :=
  match shippedBlock resp with
  | none => (db, none)
  | some block =>
      let db := if (db.readBlock block.id).isNone then db.writeBlock block else db
      let db := resp.operations.foldl applyOperation db
      let db := resp.endorsements.foldl applyEndorsement db
      let db := block.denunciations.foldl
        (fun db d => db.writeDenunciation (denunciationEntry block.id nowMs d)) db
      (db, some block)

def applyScEvent (db : Db) (pb : StoredScEventPb) : Db :=
  match scEventFromPeerPb pb with
  | .error _ => db
  | .ok ev => db.writeScEvent ev

def applyAsyncMsg (db : Db) (pb : StoredAsyncMsgPb) : Db :=
  match asyncMsgFromPeerPb pb with
  | .error _ => db
  | .ok m => db.writeAsyncMsg m

/-- The peer's event list replaces the slot's; its async messages are upserted. -/
def applyExecPart (db : Db) (slot : Slot) (resp : FinalSlotResponse) : Db :=
  let db := db.clearScEventsForSlot slot
  let db := resp.scEvents.foldl applyScEvent db
  resp.asyncMsgs.foldl applyAsyncMsg db

def decodedTransfers (resp : FinalSlotResponse) : List StoredTransfer :=
  resp.transfers.filterMap fun pb => (transferFromPeerPb pb).toOption

def applyDeferredCall (db : Db) (pb : StoredDeferredCallPb) : Db :=
  match deferredCallFromPeerPb pb with
  | .error _ => db
  | .ok d => db.writeDeferredCall d

/-- The peer's transfer list replaces the slot's, then both reconciliations run over it. -/
def applyTransfersPart (db : Db) (slot : Slot) (resp : FinalSlotResponse) (nowMs : Int) : Db :=
  let rows := decodedTransfers resp
  let db := db.clearTransfersForSlot slot
  let db := rows.foldl Db.writeTransfer db
  let db := resp.deferredCalls.foldl applyDeferredCall db
  let db := reconcileAsyncFromTransfers db slot rows nowMs
  reconcileDeferredFromTransfers db slot rows nowMs

/-! ## Legacy patches -/

/-- Legacy settles the body flag only, and only where it was not set. -/
def legacyBlockPart (resp : FinalSlotResponse) (nowMs : Int) (p : Patching) : Patching :=
  if resp.block.isSome && !p.state.completeness.blockBodyStored && !resp.isMiss then
    match applyBlockPart p.db resp nowMs with
    | (db, some block) =>
        let state := p.state.addCandidate block.id
        { db := db
          state := { state with
            completeness := { state.completeness with blockBodyStored := true } }
          out := { p.out with blockApplied := true } }
    | (db, none) => { p with db := db }
  else p

/-- Only a slot that is a miss locally satisfies "body stored" vacuously. -/
def legacyMissFlag (resp : FinalSlotResponse) (p : Patching) : Patching :=
  if resp.isMiss && p.state.isMiss then
    { p with
      state := { p.state with completeness := { p.state.completeness with blockBodyStored := true } } }
  else p

def legacyExecutedOps (resp : FinalSlotResponse) (p : Patching) : Patching :=
  if p.state.executedOpIds.isEmpty && !resp.executedOpIds.isEmpty then
    { p with
      state := { p.state with executedOpIds := parseOpIds resp.executedOpIds }
      out := { p.out with execApplied := true } }
  else p

/-- Every shipped transfer is written, whatever the row already there. -/
def legacyTransfers (resp : FinalSlotResponse) (p : Patching) : Patching :=
  let rows := decodedTransfers resp
  { p with
    db := rows.foldl Db.writeTransfer p.db
    out := { p.out with transfersApplied := p.out.transfersApplied || !rows.isEmpty } }

def legacyParts (resp : FinalSlotResponse) (nowMs : Int) (p : Patching) : Patching :=
  legacyTransfers resp (legacyExecutedOps resp (legacyMissFlag resp (legacyBlockPart resp nowMs p)))

/-- The legacy verdict settles an open slot and is ignored by a settled one. -/
def legacyVerdict (db : Db) (slot : Slot) (state : SlotState) (resp : FinalSlotResponse) : Patching :=
  if state.status ≠ .final then
    { db := advanceHead db slot
      state := promote state resp.isMiss (parseFinalBlockId resp)
      out := { becameFinal := true } }
  else { db := db, state := state, out := {} }

/-- Block statuses follow once both the exec output and the body are there. -/
def legacyFinality (p : Patching) : Db :=
  if p.state.completeness.execOutputFinal && p.state.completeness.blockBodyStored then
    applyFinalityToBlocks p.db p.state.finalBlockId p.state.candidateBlockIds
  else p.db

def applyLegacyPatch (db : Db) (resp : FinalSlotResponse) (nowMs : Int) : Db × PatchOutcome :=
  match slotOf resp with
  | none => (db, {})
  | some slot =>
      if !resp.finalKnown then (db, { empty := true })
      else
        let state := (db.readSlot slot).getD (SlotState.fresh slot nowMs)
        let p := legacyParts resp nowMs (legacyVerdict db slot state resp)
        let db := (legacyFinality p).writeSlot { p.state with lastUpdatedTsMs := nowMs }
        (ensureParentStub db slot nowMs, p.out)

/-! ## Peer patches -/

/-- What reconciling the verdicts leads to: the row is only touched, or the parts are applied. -/
inductive Reconciled where
  | turnedAway (out : PatchOutcome)
  | proceed (p : Patching)

/-- Same verdict on both sides: first-final-wins on the trail hash. -/
def reconcileTrail (db : Db) (state : SlotState) (trail : Option String) : Reconciled :=
  match state.executionTrailHash, trail with
  | some existing, some incoming =>
      if existing ≠ incoming then .turnedAway { trailMismatch := true }
      else .proceed { db := db, state := state, out := {} }
  | none, _ =>
      .proceed { db := db, state := { state with executionTrailHash := trail }, out := {} }
  | some _, none => .proceed { db := db, state := state, out := {} }

def reconcileVerdict (db : Db) (slot : Slot) (state : SlotState) (resp : FinalSlotResponse) :
    Reconciled :=
  let trail := peerTrail resp
  let finalBlockId := parseFinalBlockId resp
  if state.status ≠ .final then
    let promoted := promote { state with executionTrailHash := trail.or state.executionTrailHash }
      resp.isMiss finalBlockId
    .proceed { db := advanceHead db slot, state := promoted, out := { becameFinal := true } }
  else
    match Verdict.ofLocal state, Verdict.ofPeer resp finalBlockId with
    | some localV, some peerV =>
        if localV ≠ peerV then
          match arbitrateVerdicts db slot localV peerV (shippedBlock resp) with
          | .adoptPeer =>
              let (db, state) := adoptPeerVerdict db state resp finalBlockId trail
              .proceed { db := db, state := state, out := { divergenceRepaired := true } }
          | _ =>
              .turnedAway
                { divergenceKeptLocal := true
                  trailMismatch := trailsDiffer state.executionTrailHash trail }
        else reconcileTrail db state trail
    | _, _ => reconcileTrail db state trail

/-- The body is stored when missing, and its operations merged even when it was there. -/
def peerBlockPart (resp : FinalSlotResponse) (nowMs : Int) (p : Patching) : Patching :=
  if resp.block.isSome && !resp.isMiss then
    match applyBlockPart p.db resp nowMs with
    | (db, some block) =>
        let state := p.state.addCandidate block.id
        if !state.completeness.blockBodyStored then
          { db := db
            state := { state with
              completeness := { state.completeness with blockBodyStored := true } }
            out := { p.out with blockApplied := true } }
        else { p with db := db, state := state }
    | (db, none) => { p with db := db }
  else p

/-- Miss slots trivially satisfy "block body stored". -/
def peerMissFlag (resp : FinalSlotResponse) (p : Patching) : Patching :=
  if resp.isMiss then
    { p with
      state := { p.state with completeness := { p.state.completeness with blockBodyStored := true } } }
  else p

def honoured (resp : FinalSlotResponse) : FinalSlotParts := resp.parts.getD {}

/-- Any payload of the exec part. -/
def execPartPresent (resp : FinalSlotResponse) : Bool :=
  !resp.executedOpIds.isEmpty || decide (0 < resp.scEventCount) || !resp.scEvents.isEmpty ||
    !resp.asyncMsgs.isEmpty

/-- The peer says it honoured the part and holds the FINAL exec output. -/
def execAsserted (resp : FinalSlotResponse) : Bool :=
  resp.completenessKnown && (honoured resp).execOutput && resp.hasExecOutput

def peerExecPart (slot : Slot) (resp : FinalSlotResponse) (p : Patching) : Patching :=
  if (execPartPresent resp || execAsserted resp) && !p.state.completeness.execOutputFinal then
    { db := applyExecPart p.db slot resp
      state := { p.state with
        executedOpIds :=
          if p.state.executedOpIds.isEmpty then parseOpIds resp.executedOpIds
          else p.state.executedOpIds
        scEventCount := resp.scEventCount
        completeness := { p.state.completeness with execOutputFinal := true } }
      out := { p.out with execApplied := true } }
  else p

def transfersPartPresent (resp : FinalSlotResponse) : Bool :=
  !resp.transfers.isEmpty || !resp.deferredCalls.isEmpty

def transfersAsserted (resp : FinalSlotResponse) : Bool :=
  resp.completenessKnown && (honoured resp).transfers && resp.hasTransfers

def peerTransfersPart (slot : Slot) (resp : FinalSlotResponse) (nowMs : Int) (p : Patching) :
    Patching :=
  if (transfersPartPresent resp || transfersAsserted resp) &&
      !p.state.completeness.transfersStored then
    { db := applyTransfersPart p.db slot resp nowMs
      state := { p.state with
        completeness := { p.state.completeness with transfersStored := true } }
      out := { p.out with transfersApplied := true } }
  else p

/-- The parts in the order they are applied. -/
def peerParts (slot : Slot) (resp : FinalSlotResponse) (nowMs : Int) (p : Patching) : Patching :=
  peerTransfersPart slot resp nowMs (peerExecPart slot resp
    (peerMissFlag resp (peerBlockPart resp nowMs p)))

def applyPeerPatch (db : Db) (resp : FinalSlotResponse) (nowMs : Int) : Db × PatchOutcome :=
  match slotOf resp with
  | none => (db, {})
  | some slot =>
      if !resp.finalKnown then (db, { empty := true })
      else
        let state := (db.readSlot slot).getD (SlotState.fresh slot nowMs)
        match reconcileVerdict db slot state resp with
        | .turnedAway out => (db.writeSlot { state with lastUpdatedTsMs := nowMs }, out)
        | .proceed p =>
            let p := peerParts slot resp nowMs p
            let db := applyFinalityToBlocks p.db p.state.finalBlockId p.state.candidateBlockIds
            let db := db.writeSlot { p.state with lastUpdatedTsMs := nowMs }
            (ensureParentStub db slot nowMs, p.out)

/-! ## Forced verdicts -/

omit [DenunciationDigest] in
/-- The verdict an operator forces; a block verdict must name its block. -/
def forcedTarget (resp : FinalSlotResponse) : Except String Verdict :=
  if resp.isMiss then .ok .miss
  else match parseFinalBlockId resp with
    | some b => .ok (.block b)
    | none => .error "forced verdict without block id"

omit [DenunciationDigest] in
/-- Replace whatever the row says with the shipped verdict, bypassing the arbiter. -/
def applyForcedVerdict (db : Db) (resp : FinalSlotResponse) (nowMs : Int) :
    Except String (Db × Bool) :=
  match slotOf resp with
  | none => .ok (db, false)
  | some slot =>
      let state := (db.readSlot slot).getD (SlotState.fresh slot nowMs)
      match forcedTarget resp with
      | .error e => .error e
      | .ok target =>
          if state.status = .final ∧ Verdict.ofLocal state = some target then .ok (db, false)
          else
            let (db, state) := adoptPeerVerdict db state resp (parseFinalBlockId resp) (peerTrail resp)
            let state := { state with status := .final }
            let db := applyFinalityToBlocks db state.finalBlockId state.candidateBlockIds
            .ok (db.writeSlot { state with lastUpdatedTsMs := nowMs }, true)

end MassaIndexer.Peer.Patch
