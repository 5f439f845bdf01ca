/-
# Writer.Families -- the handlers, family by family

Most helpers of the writer are confined to one column family: they write no other and look at no
other. What a handler does to a family is therefore what its helpers for that family do, run on the
store the handler started from; the rest of the handler can be forgotten (`contents_*`). Which
helpers run is decided by the slot row alone, and said once for each handler (`Taken`).
-/
import MassaIndexer.Writer.Effects

namespace MassaIndexer.Writer.Families

open MassaIndexer.Theory.Footprint
open MassaIndexer.Data.Ids MassaIndexer.Data.Model MassaIndexer.Data.Proto MassaIndexer.Data.Codec
open MassaIndexer.Data.RowCodec
open MassaIndexer.Store.ColumnFamilies MassaIndexer.Store.Footprint
open MassaIndexer.Writer.NodeProto MassaIndexer.Writer.NodeDecode
open MassaIndexer.Writer.Shared MassaIndexer.Writer.Handlers MassaIndexer.Writer.Effects
open MassaIndexer.Peer.Patch

set_option autoImplicit false

variable [Bs58Check]

/-! ## Helpers -/

theorem confined_settleBlock (b : BlockId) (status : BlockStatus) :
    ConfinedTo .blocks (settleBlock · b status) := by
  refine confinedTo_of_writes (writes_settleBlock · b status) fun db db' same => ?_
  unfold settleBlock
  rw [sameReadBlock same b]
  split
  · exact same
  · split
    · exact (confinedTo_apply (.block _)).own _ _ same
    · exact same

theorem confined_applyFinalityToBlocks (final : Option BlockId) (candidates : List BlockId) :
    ConfinedTo .blocks (applyFinalityToBlocks · final candidates) := by
  have settled : ConfinedTo .blocks (candidates.foldl (fun db bid => settleBlock db bid
      (if some bid = final then .final else .discarded)) ·) :=
    .foldl fun bid _ => confined_settleBlock bid _
  unfold applyFinalityToBlocks
  cases final with
  | none => exact settled
  | some bid => exact .ite settled ((confined_settleBlock bid .final).comp settled)

theorem confined_touchSlot (row : SlotState) (nowMs : Int) :
    ConfinedTo (Write.slot { row with lastUpdatedTsMs := nowMs }).family
      (apply · (.slot { row with lastUpdatedTsMs := nowMs })) := confinedTo_apply _

theorem confined_ensureParentStub (s : Slot) (nowMs : Int) :
    ConfinedTo .slots (ensureParentStub · s nowMs) := by
  refine confinedTo_of_writes (writes_ensureParentStub · s nowMs) fun db db' same => ?_
  unfold ensureParentStub
  dsimp only
  rw [sameReadSlot same]
  split
  · exact same
  · split
    · exact same
    · exact (confinedTo_apply (.slot _)).own _ _ same

theorem confined_reconcileAsyncFromTransfers (s : Slot) (rows : List StoredTransfer) (nowMs : Int) :
    ConfinedTo .asyncMsgs (reconcileAsyncFromTransfers · s rows nowMs) := by
  refine .foldl fun r _ => confinedTo_of_writes (writes_reconcileAsyncRow · s r nowMs) ?_
  intro db db' same
  unfold reconcileAsyncRow
  cases r.asyncMsgId with
  | none => exact same
  | some id =>
      dsimp only
      rw [sameReadAsyncMsg same id]
      split
      · exact same
      · exact (confinedTo_apply (.asyncMsg _)).own _ _ same

theorem confined_reconcileDeferredFromTransfers (s : Slot) (rows : List StoredTransfer)
    (nowMs : Int) : ConfinedTo .deferredCalls (reconcileDeferredFromTransfers · s rows nowMs) := by
  refine .foldl fun r _ => confinedTo_of_writes (writes_reconcileDeferredRow · s r nowMs) ?_
  intro db db' same
  unfold reconcileDeferredRow
  cases r.deferredCallId with
  | none => exact same
  | some id =>
      dsimp only
      rw [sameReadDeferredCall same id]
      split
      · exact same
      · exact (confinedTo_apply (.deferredCall _)).own _ _ same

theorem confined_transferRows (rows : List StoredTransfer) :
    ConfinedTo .transfers (rows.foldl Db.writeTransfer ·) :=
  .foldl fun t _ => confinedTo_apply (.transfer t)

theorem confined_denunciations {α : Type} (entry : α → StoredDenunciationEntry) (l : List α) :
    ConfinedTo .denunciations (l.foldl (fun db d => db.writeDenunciation (entry d)) ·) :=
  .foldl fun d _ => confinedTo_apply (.denunciation (entry d))

/-! ## Frames -/

theorem confined_writeFrameEvents (s : Slot) (status : SlotStatus) (exec : ExecutionOutput) :
    ConfinedTo .scEvents (writeFrameEvents · s status exec) :=
  Confined.comp (.foldl fun ev _ => confinedTo_apply (.scEvent ev)) (confinedTo_apply (.clearScEvents s))

theorem confined_applyExecutedOpsChanges (frame : ExecFrame) (exec : ExecutionOutput) :
    ConfinedTo .ops (applyExecutedOpsChanges frame · exec) := by
  unfold applyExecutedOpsChanges
  cases exec.stateChanges with
  | none => exact .nothing
  | some sc =>
      refine .foldl fun entry _ => confinedTo_of_writes (writes_applyExecutedOp frame · entry) ?_
      intro db db' same
      unfold applyExecutedOp
      split
      · exact same
      · next id _ =>
          rw [sameReadOp same id]
          split
          · split
            · split
              · exact (confinedTo_apply (.op _)).own _ _ same
              · exact same
            · split
              · exact (confinedTo_apply (.op _)).own _ _ same
              · exact same
          · exact same

theorem confined_applyAsyncPoolChanges (s : Slot) (exec : ExecutionOutput) (nowMs : Int) :
    ConfinedTo .asyncMsgs (applyAsyncPoolChanges · s exec nowMs) := by
  unfold applyAsyncPoolChanges
  cases exec.stateChanges with
  | none => exact .nothing
  | some sc =>
      refine .foldl fun entry _ => confinedTo_of_writes (writes_applyAsyncPoolChange · s entry nowMs) ?_
      intro db db' same
      unfold applyAsyncPoolChange
      dsimp only
      rw [sameReadAsyncMsg same entry.asyncMessageId]
      split
      · exact same
      · split
        · exact same
        · split <;> first | exact same | exact (confinedTo_apply (.asyncMsg _)).own _ _ same

/-! ## Patches -/

theorem confined_advanceHead (s : Slot) : ConfinedTo .heads (advanceHead · s) := by
  refine confinedTo_of_writes (writes_advanceHead · s) fun db db' same => ?_
  have head : db.readLastFinalSlot = db'.readLastFinalSlot :=
    congrArg (fun t : Contents .heads => t.1) same
  unfold advanceHead
  rw [head]
  split
  · split
    · exact (confinedTo_apply (.lastFinalSlot s)).own _ _ same
    · exact same
  · exact (confinedTo_apply (.lastFinalSlot s)).own _ _ same

theorem confined_applyOperation (pb : StoredOperationPb) : ConfinedTo .ops (applyOperation · pb) := by
  refine confinedTo_of_writes (writes_applyOperation · pb) fun db db' same => ?_
  unfold applyOperation
  split
  · exact same
  · next op _ =>
      rw [sameReadOp same op.id]
      split
      · exact (confinedTo_apply (.op _)).own _ _ same
      · dsimp only
        split
        · exact (confinedTo_apply (.op _)).own _ _ same
        · exact same

theorem confined_applyEndorsement (pb : StoredEndorsementPb) :
    ConfinedTo .endorsements (applyEndorsement · pb) := by
  unfold applyEndorsement
  split
  · exact .nothing
  · exact confinedTo_apply (.endorsement _)

theorem confined_applyScEvent (pb : StoredScEventPb) : ConfinedTo .scEvents (applyScEvent · pb) := by
  unfold applyScEvent
  split
  · exact .nothing
  · exact confinedTo_apply (.scEvent _)

theorem confined_applyAsyncMsg (pb : StoredAsyncMsgPb) : ConfinedTo .asyncMsgs (applyAsyncMsg · pb) := by
  unfold applyAsyncMsg
  split
  · exact .nothing
  · exact confinedTo_apply (.asyncMsg _)

theorem confined_applyDeferredCall (pb : StoredDeferredCallPb) :
    ConfinedTo .deferredCalls (applyDeferredCall · pb) := by
  unfold applyDeferredCall
  split
  · exact .nothing
  · exact confinedTo_apply (.deferredCall _)

/-! ## The handlers as stages -/

abbrev FamilyStage := Stage contents

@[reducible] def stage {f : Family} {P : Db → Db} (confined : ConfinedTo f P) : FamilyStage :=
  ⟨f, P, confined⟩

theorem contents_runAll (stages : List FamilyStage) (db : Db) (f : Family) :
    contents (Stage.runAll stages db) f =
      contents (Stage.runAll (stages.filter (·.site = f)) db) f := Stage.view_runAll stages db f

/-- The row a handler starts from. -/
def rowAt (db : Db) (s : Slot) (nowMs : Int) : SlotState :=
  (db.readSlot s).getD (SlotState.fresh s nowMs)

omit [Bs58Check] in
theorem slot_rowAt (db : Db) (s : Slot) (nowMs : Int) : (rowAt db s nowMs).slot = s := by
  unfold rowAt
  cases found : db.readSlot s with
  | none => rfl
  | some row => exact Db.slot_of_readSlot found

/-! ### Blocks -/

/-- A step that can fail: its writes are confined to a family, and so is what its end depends on. -/
structure HandledIn {α : Type} (f : Family) (run : Db → Handled α) : Prop where
  confined : ConfinedTo f fun db => (run db).db
  result : ∀ db db', contents db f = contents db' f → (run db).result = (run db').result

theorem sameWriteSeenEndorsement {db db' : Db}
    (same : contents db .endorsements = contents db' .endorsements) (e : SeenEndorsement) :
    (∀ err, db.writeSeenEndorsement e = .error err ↔ db'.writeSeenEndorsement e = .error err) ∧
      ∀ next, db.writeSeenEndorsement e = .ok next →
        ∃ next', db'.writeSeenEndorsement e = .ok next' ∧
          contents next .endorsements = contents next' .endorsements := by
  unfold Db.writeSeenEndorsement
  cases EndorsementId.parse e.id with
  | error err => simp [bind, Except.bind]
  | ok id =>
      simp only [bind, Except.bind, sameReadEndorsement same id]
      split
      · simpa [pure, Except.pure] using same
      · cases resolveEndorsement e with
        | error err => simp
        | ok row =>
            have written : contents (db.writeEndorsement row) .endorsements =
                contents (db'.writeEndorsement row) .endorsements :=
              (confinedTo_apply (.endorsement row)).own _ _ same
            simpa [pure, Except.pure] using written

theorem handledIn_persistEndorsements (l : List SeenEndorsement) :
    HandledIn .endorsements (persistEndorsements · l) := by
  have both : ∀ db db', contents db .endorsements = contents db' .endorsements →
      contents (persistEndorsements db l).db .endorsements =
          contents (persistEndorsements db' l).db .endorsements ∧
        (persistEndorsements db l).result = (persistEndorsements db' l).result := by
    induction l with
    | nil => exact fun db db' same => ⟨same, rfl⟩
    | cons e es ih =>
        intro db db' same
        obtain ⟨errors, written⟩ := sameWriteSeenEndorsement same e
        unfold persistEndorsements
        cases outcome : db.writeSeenEndorsement e with
        | error err =>
            rw [(errors err).mp outcome]
            exact ⟨same, rfl⟩
        | ok next =>
            obtain ⟨next', outcome', after⟩ := written next outcome
            rw [outcome']
            exact ih next next' after
  exact ⟨confinedTo_of_writes (writes_persistEndorsements · l) fun db db' same => (both db db' same).1,
    fun db db' same => (both db db' same).2⟩

theorem handledIn_ingestOperation (head : BlockHead) (nowMs : Int) (filled : FilledOperation) :
    HandledIn .ops (ingestOperation · head nowMs filled) := by
  have both : ∀ db db', contents db .ops = contents db' .ops →
      contents (ingestOperation db head nowMs filled).db .ops =
          contents (ingestOperation db' head nowMs filled).db .ops ∧
        (ingestOperation db head nowMs filled).result =
          (ingestOperation db' head nowMs filled).result := by
    intro db db' same
    unfold ingestOperation
    split
    · exact ⟨same, rfl⟩
    · split
      · exact ⟨same, rfl⟩
      · next id _ =>
          rw [sameReadOp same id]
          split
          · exact ⟨(confinedTo_apply (.op _)).own _ _ same, rfl⟩
          · split
            · exact ⟨same, rfl⟩
            · exact ⟨(confinedTo_apply (.op _)).own _ _ same, rfl⟩
  exact ⟨confinedTo_of_writes (writes_ingestOperation · head nowMs filled)
    fun db db' same => (both db db' same).1, fun db db' same => (both db db' same).2⟩

theorem handledIn_ingestOperations (head : BlockHead) (nowMs : Int) (ops : List FilledOperation) :
    HandledIn .ops (ingestOperations · head nowMs ops) := by
  have both : ∀ db db', contents db .ops = contents db' .ops →
      contents (ingestOperations db head nowMs ops).db .ops =
          contents (ingestOperations db' head nowMs ops).db .ops ∧
        (ingestOperations db head nowMs ops).result =
          (ingestOperations db' head nowMs ops).result := by
    induction ops with
    | nil => exact fun db db' same => ⟨same, rfl⟩
    | cons filled rest ih =>
        intro db db' same
        have one := handledIn_ingestOperation head nowMs filled
        have dbs := one.confined.own db db' same
        have results := one.result db db' same
        unfold ingestOperations
        rcases left : ingestOperation db head nowMs filled with ⟨next, result⟩
        rcases right : ingestOperation db' head nowMs filled with ⟨next', result'⟩
        rw [left, right] at dbs results
        obtain rfl : result = result' := results
        cases result with
        | error err => exact ⟨dbs, rfl⟩
        | ok id =>
            obtain ⟨after, later⟩ := ih next next' dbs
            exact ⟨after, congrArg (Except.map (id.toList ++ ·)) later⟩
  exact ⟨confinedTo_of_writes (writes_ingestOperations · head nowMs ops)
    fun db db' same => (both db db' same).1, fun db db' same => (both db db' same).2⟩

theorem confined_seenBlock (head : BlockHead) (endorsements : List StoredEndorsement)
    (operationIds : List OperationId) (initial : BlockStatus) (nowMs : Int) :
    ConfinedTo .blocks fun db =>
      db.writeBlock (seenBlock db head endorsements operationIds initial nowMs) := by
  refine confinedTo_of_writes (fun db => .one (.block _) rfl) fun db db' same => ?_
  have row : seenBlock db head endorsements operationIds initial nowMs =
      seenBlock db' head endorsements operationIds initial nowMs := by
    unfold seenBlock
    rw [sameReadBlock same head.id]
  rw [row]
  exact (confinedTo_apply (.block _)).own _ _ same

section Block

variable [DenunciationDigest]

/-- The rows of a block whose operations and endorsements were taken. -/
def storedBlockStages (state : SlotState) (head : BlockHead) (endorsements : List StoredEndorsement)
    (operationIds : List OperationId) (nowMs : Int) : List FamilyStage :=
  [stage (confined_seenBlock head endorsements operationIds (initialBlockStatus state head.id) nowMs),
    stage (confinedTo_apply (.slot (bodySeen state head.id nowMs))),
    stage (confined_ensureParentStub head.slot nowMs)]

/-- The stages of a block, as far as it is taken. -/
def handleBlockStages (db : Db) (head : BlockHead) (ops : List FilledOperation) (nowMs : Int) :
    List FamilyStage :=
  stage (handledIn_persistEndorsements (head.endorsements nowMs)).confined ::
    match (persistEndorsements db (head.endorsements nowMs)).result with
    | .error _ => []
    | .ok () =>
        stage (confined_denunciations (denunciationEntry head.id nowMs) head.denunciations) ::
        stage (handledIn_ingestOperations head nowMs ops).confined ::
        match (ingestOperations db head nowMs ops).result,
          (head.endorsements nowMs).mapM resolveEndorsement with
        | .ok operationIds, .ok endorsements =>
            storedBlockStages (rowAt db head.slot nowMs) head endorsements operationIds nowMs
        | _, _ => []

theorem handleBlock_db {fb : FilledBlock} {head : BlockHead} (decoded : decodeHead fb = .ok head)
    (db : Db) (nowMs : Int) :
    (handleBlock db fb nowMs).db =
      Stage.runAll (handleBlockStages db head fb.operations nowMs) db := by
  unfold handleBlock handleBlockStages
  rw [decoded]
  have persisted := (handledIn_persistEndorsements (head.endorsements nowMs)).confined
  dsimp only
  rcases persist : persistEndorsements db (head.endorsements nowMs) with ⟨db₁, result₁⟩
  cases result₁ with
  | error err => simp [persist]
  | ok done =>
      simp only [Stage.runAll_cons, persist]
      have ops₁ : contents db₁ .ops = contents db .ops := by
        have frame := persisted.frame db .ops (by decide)
        rwa [persist] at frame
      have slots₁ : contents db₁ .slots = contents db .slots := by
        have frame := persisted.frame db .slots (by decide)
        rwa [persist] at frame
      have denounced := confined_denunciations (denunciationEntry head.id nowMs) head.denunciations
      have ops₂ := (denounced.frame db₁ .ops (by decide)).trans ops₁
      have slots₂ := (denounced.frame db₁ .slots (by decide)).trans slots₁
      generalize head.denunciations.foldl
        (fun db d => db.writeDenunciation (denunciationEntry head.id nowMs d)) db₁ = db₂ at ops₂ slots₂ ⊢
      have taken := handledIn_ingestOperations head nowMs fb.operations
      have result := taken.result db₂ db ops₂
      have slots₃ := (taken.confined.frame db₂ .slots (by decide)).trans slots₂
      rcases ingest : ingestOperations db₂ head nowMs fb.operations with ⟨db₃, result₃⟩
      rw [ingest] at result slots₃
      rw [← result]
      cases result₃ with
      | error err => simp
      | ok operationIds =>
          dsimp only at slots₃ ⊢
          rw [sameReadSlot slots₃]
          cases (head.endorsements nowMs).mapM resolveEndorsement with
          | error err => rfl
          | ok endorsements => rfl

end Block

/-! ### Exec -/

/-- The slot, kind and output of a frame that is not ignored. -/
def readFrame (out : SlotExecutionOutput) : Option (Slot × ExecFrame × ExecutionOutput) :=
  out.executionOutput.bind fun exec => exec.slot.bind fun slotPb =>
    (execFrame out.status).map fun frame => (NodeDecode.slotFromPb slotPb, frame, exec)

theorem handleExec_db (db : Db) (out : SlotExecutionOutput) (nowMs : Int) :
    (handleExec db out nowMs).db =
      match readFrame out with
      | none => db
      | some (s, frame, exec) =>
          if (rowAt db s nowMs).status = .final then confirmFrame db (rowAt db s nowMs) frame exec nowMs
          else recordFrame db s (rowAt db s nowMs) frame exec nowMs := by
  unfold handleExec readFrame
  cases out.executionOutput with
  | none => rfl
  | some exec =>
      cases slotPb : exec.slot with
      | none => simp [slotPb]
      | some pb =>
          simp only [slotPb, Option.bind_some]
          cases execFrame out.status with
          | none => rfl
          | some frame =>
              dsimp only [Option.map_some]
              exact apply_ite Handled.db _ _ _

def recordStages (s : Slot) (state : SlotState) (frame : ExecFrame) (exec : ExecutionOutput)
    (nowMs : Int) : List FamilyStage :=
  let row := frameRow state frame exec nowMs
  let events := stage (confined_writeFrameEvents s row.status exec)
  match frame with
  | .final =>
      [events, stage (confinedTo_apply (.lastFinalSlot s)),
        stage (confined_applyFinalityToBlocks row.finalBlockId row.candidateBlockIds),
        stage (confined_applyExecutedOpsChanges .final exec),
        stage (confined_applyAsyncPoolChanges s exec nowMs), stage (confinedTo_apply (.slot row)),
        stage (confined_ensureParentStub s nowMs)]
  | .candidate =>
      [events, stage (confinedTo_apply (.lastCandidateSlot s)),
        stage (confined_applyExecutedOpsChanges .candidate exec), stage (confinedTo_apply (.slot row))]

theorem recordFrame_eq (db : Db) (s : Slot) (state : SlotState) (frame : ExecFrame)
    (exec : ExecutionOutput) (nowMs : Int) :
    recordFrame db s state frame exec nowMs =
      Stage.runAll (recordStages s state frame exec nowMs) db := by
  cases frame <;> rfl

def completeStages (state : SlotState) (exec : ExecutionOutput) (nowMs : Int) : List FamilyStage :=
  let row := completedRow state exec nowMs
  [stage (confined_writeFrameEvents state.slot .final exec),
    stage (confined_applyExecutedOpsChanges .final exec),
    stage (confined_applyAsyncPoolChanges state.slot exec nowMs),
    stage (confined_applyFinalityToBlocks row.finalBlockId row.candidateBlockIds),
    stage (confinedTo_apply (.slot row))]

theorem completeFinalExecFromNode_eq (db : Db) (state : SlotState) (exec : ExecutionOutput)
    (nowMs : Int) : completeFinalExecFromNode db state exec nowMs =
      Stage.runAll (completeStages state exec nowMs) db := rfl

/-- A FINAL frame whose output is applied: its slot is open, or settled with the same verdict and
without its exec part. -/
def takenFrame (db : Db) (out : SlotExecutionOutput) (nowMs : Int) : Option (Slot × ExecutionOutput) :=
  match readFrame out with
  | some (s, .final, exec) =>
      let state := rowAt db s nowMs
      if state.status ≠ .final ∨ trailsDiffer state.executionTrailHash (frameTrail exec) = false ∧
          sameVerdict state exec = true ∧ state.completeness.execOutputFinal = false then
        some (s, exec)
      else none
  | _ => none

theorem asyncMsgs_handleExec (db : Db) (out : SlotExecutionOutput) (nowMs : Int) :
    contents (handleExec db out nowMs).db .asyncMsgs =
      contents ((takenFrame db out nowMs).elim db fun taken =>
        applyAsyncPoolChanges db taken.1 taken.2 nowMs) .asyncMsgs := by
  rw [handleExec_db, takenFrame]
  rcases readFrame out with - | ⟨s, frame, exec⟩
  · rfl
  · dsimp only
    by_cases settled : (rowAt db s nowMs).status = .final
    · rw [if_pos settled, confirmFrame]
      cases frame with
      | candidate => rfl
      | final =>
          simp only [settled, ne_eq, not_true, false_or, true_and]
          split
          · rw [completeFinalExecFromNode_eq, contents_runAll]
            simp only [Option.elim, completeStages, slot_rowAt]
            rfl
          · rfl
    · rw [if_neg settled, recordFrame_eq, contents_runAll]
      cases frame with
      | candidate => rfl
      | final =>
          simp only [settled, ne_eq, not_false_eq_true, true_or, if_true]
          rfl

theorem deferredCalls_handleExec (db : Db) (out : SlotExecutionOutput) (nowMs : Int) :
    contents (handleExec db out nowMs).db .deferredCalls = contents db .deferredCalls := by
  rw [handleExec_db]
  rcases readFrame out with - | ⟨s, frame, exec⟩
  · rfl
  · dsimp only
    split
    · rw [confirmFrame]
      split
      · rw [completeFinalExecFromNode_eq, contents_runAll]
        rfl
      · rfl
    · rw [recordFrame_eq, contents_runAll]
      cases frame <;> rfl

/-! ### Transfers -/

theorem confined_settleTransfers (s : Slot) (nowMs : Int) :
    ConfinedTo .slots (settleTransfers · s nowMs) := by
  refine confinedTo_of_writes (fun db => ?_) fun db db' same => ?_
  · unfold settleTransfers
    split
    · split
      · exact .none
      · exact .one (.slot _) rfl
    · exact .one (.slot _) rfl
  · unfold settleTransfers
    rw [sameReadSlot same s]
    split
    · split
      · exact same
      · exact (confinedTo_apply (.slot _)).own _ _ same
    · exact (confinedTo_apply (.slot _)).own _ _ same

/-- A slot's transfers replaced by a list. -/
theorem confined_replaceTransfers (s : Slot) (rows : List StoredTransfer) :
    ConfinedTo .transfers fun db => rows.foldl Db.writeTransfer (db.clearTransfersForSlot s) :=
  (confined_transferRows rows).comp (confinedTo_apply (.clearTransfers s))

def handleTransfersStages (s : Slot) (rows : List StoredTransfer) (nowMs : Int) :
    List FamilyStage :=
  [stage (confined_replaceTransfers s rows), stage (confined_reconcileAsyncFromTransfers s rows nowMs),
    stage (confined_reconcileDeferredFromTransfers s rows nowMs),
    stage (confined_settleTransfers s nowMs)]

theorem handleTransfers_db (db : Db) (resp : NewTransfersInfoServerResponse) (nowMs : Int) :
    (handleTransfers db resp nowMs).db =
      match resp.slot with
      | none => db
      | some slotPb =>
          let s := NodeDecode.slotFromPb slotPb
          Stage.runAll (handleTransfersStages s (decodeTransfers resp s nowMs) nowMs) db := by
  unfold handleTransfers
  cases resp.slot <;> rfl

/-! ### Parts of a response -/

/-- The body a response delivers; beside a miss it is ignored. -/
def deliveredBlock (resp : FinalSlotResponse) : Option StoredBlock :=
  if resp.isMiss then none else shippedBlock resp

section Parts

variable [DenunciationDigest]

omit [DenunciationDigest] in
theorem confined_storeBlock (block : StoredBlock) : ConfinedTo .blocks fun db =>
    if (db.readBlock block.id).isNone then db.writeBlock block else db := by
  refine confinedTo_of_writes (fun db => ?_) fun db db' same => ?_
  · split
    · exact .one (.block block) rfl
    · exact .none
  · rw [sameReadBlock same]
    split
    · exact (confinedTo_apply (.block block)).own _ _ same
    · exact same

def blockStages (resp : FinalSlotResponse) (block : StoredBlock) (nowMs : Int) : List FamilyStage :=
  [stage (confined_storeBlock block),
    stage (Confined.foldl fun pb (_ : pb ∈ resp.operations) => confined_applyOperation pb),
    stage (Confined.foldl fun pb (_ : pb ∈ resp.endorsements) => confined_applyEndorsement pb),
    stage (confined_denunciations (denunciationEntry block.id nowMs) block.denunciations)]

theorem applyBlockPart_eq (db : Db) (resp : FinalSlotResponse) (nowMs : Int) :
    applyBlockPart db resp nowMs =
      match shippedBlock resp with
      | none => (db, none)
      | some block => (Stage.runAll (blockStages resp block nowMs) db, some block) := by
  unfold applyBlockPart
  cases shippedBlock resp <;> rfl

end Parts

theorem confined_replaceScEvents (s : Slot) (resp : FinalSlotResponse) :
    ConfinedTo .scEvents fun db => resp.scEvents.foldl applyScEvent (db.clearScEventsForSlot s) :=
  Confined.comp (.foldl fun pb _ => confined_applyScEvent pb) (confinedTo_apply (.clearScEvents s))

def execStages (s : Slot) (resp : FinalSlotResponse) : List FamilyStage :=
  [stage (confined_replaceScEvents s resp),
    stage (Confined.foldl fun pb (_ : pb ∈ resp.asyncMsgs) => confined_applyAsyncMsg pb)]

theorem applyExecPart_eq (db : Db) (s : Slot) (resp : FinalSlotResponse) :
    applyExecPart db s resp = Stage.runAll (execStages s resp) db := rfl

def transfersStages (s : Slot) (resp : FinalSlotResponse) (nowMs : Int) : List FamilyStage :=
  [stage (confined_replaceTransfers s (decodedTransfers resp)),
    stage (Confined.foldl fun pb (_ : pb ∈ resp.deferredCalls) => confined_applyDeferredCall pb),
    stage (confined_reconcileAsyncFromTransfers s (decodedTransfers resp) nowMs),
    stage (confined_reconcileDeferredFromTransfers s (decodedTransfers resp) nowMs)]

theorem applyTransfersPart_eq (db : Db) (s : Slot) (resp : FinalSlotResponse) (nowMs : Int) :
    applyTransfersPart db s resp nowMs = Stage.runAll (transfersStages s resp nowMs) db := rfl

end MassaIndexer.Writer.Families
