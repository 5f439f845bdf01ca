/-
# Writer.Effects -- which families each procedure of the writer writes

One footprint for each helper of the handlers and of the patches, and from these one for each event.
What a family holds after a procedure that does not write it is then read off its footprint.
-/
import MassaIndexer.Store.Footprint
import MassaIndexer.Writer.Handlers
import MassaIndexer.Peer.Patch

namespace MassaIndexer.Writer.Effects

open MassaIndexer.Data.Ids MassaIndexer.Data.Model MassaIndexer.Data.Proto MassaIndexer.Data.Codec
open MassaIndexer.Store.ColumnFamilies MassaIndexer.Store.Footprint
open MassaIndexer.Writer.NodeProto MassaIndexer.Writer.NodeDecode
open MassaIndexer.Writer.Shared MassaIndexer.Writer.Handlers MassaIndexer.Peer.Patch

set_option autoImplicit false

variable [Bs58Check]

/-! ## Shared helpers -/

theorem writes_settleBlock (db : Db) (b : BlockId) (status : BlockStatus) :
    WritesTo [.blocks] db (settleBlock db b status) := by
  unfold settleBlock
  split
  · exact .none
  · split
    · exact .one (.block _) rfl
    · exact .none

theorem writes_applyFinalityToBlocks (db : Db) (final : Option BlockId) (candidates : List BlockId) :
    WritesTo [.blocks] db (applyFinalityToBlocks db final candidates) := by
  have settled : WritesTo [.blocks] db (candidates.foldl (fun db bid => settleBlock db bid
      (if some bid = final then .final else .discarded)) db) :=
    .foldl (fun db bid _ => writes_settleBlock db bid _) db
  unfold applyFinalityToBlocks
  split
  · exact settled
  · split
    · exact settled
    · exact settled.trans (writes_settleBlock _ _ _)

theorem writes_ensureParentStub (db : Db) (s : Slot) (nowMs : Int) :
    WritesTo [.slots] db (ensureParentStub db s nowMs) := by
  unfold ensureParentStub
  split
  · exact .none
  · dsimp only
    split
    · exact .none
    · exact .one (.slot _) rfl

theorem writes_reconcileAsyncRow (db : Db) (s : Slot) (r : StoredTransfer) (nowMs : Int) :
    WritesTo [.asyncMsgs] db (reconcileAsyncRow s nowMs db r) := by
  unfold reconcileAsyncRow
  split
  · exact .none
  · dsimp only
    split
    · exact .none
    · exact .one (.asyncMsg _) rfl

theorem writes_reconcileAsyncFromTransfers (db : Db) (s : Slot) (rows : List StoredTransfer)
    (nowMs : Int) : WritesTo [.asyncMsgs] db (reconcileAsyncFromTransfers db s rows nowMs) :=
  .foldl (fun db r _ => writes_reconcileAsyncRow db s r nowMs) db

theorem writes_reconcileDeferredRow (db : Db) (s : Slot) (r : StoredTransfer) (nowMs : Int) :
    WritesTo [.deferredCalls] db (reconcileDeferredRow s nowMs db r) := by
  unfold reconcileDeferredRow
  split
  · exact .none
  · dsimp only
    split
    · exact .none
    · exact .one (.deferredCall _) rfl

theorem writes_reconcileDeferredFromTransfers (db : Db) (s : Slot) (rows : List StoredTransfer)
    (nowMs : Int) : WritesTo [.deferredCalls] db (reconcileDeferredFromTransfers db s rows nowMs) :=
  .foldl (fun db r _ => writes_reconcileDeferredRow db s r nowMs) db

/-! ## Blocks -/

theorem writeSeenEndorsement_ok {db next : Db} {e : SeenEndorsement}
    (written : db.writeSeenEndorsement e = .ok next) :
    next = db ∨ ∃ row, next = db.writeEndorsement row := by
  unfold Db.writeSeenEndorsement at written
  cases parsed : EndorsementId.parse e.id with
  | error err => simp [parsed, bind, Except.bind] at written
  | ok id =>
      by_cases known : (db.readEndorsement id).isSome
      · obtain rfl : db = next := by
          simpa [parsed, known, bind, Except.bind, pure, Except.pure] using written
        exact .inl rfl
      · cases resolved : resolveEndorsement e with
        | error err => simp [parsed, known, resolved, bind, Except.bind] at written
        | ok row =>
            obtain rfl : db.writeEndorsement row = next := by
              simpa [parsed, known, resolved, bind, Except.bind, pure, Except.pure] using written
            exact .inr ⟨row, rfl⟩

theorem writes_persistEndorsements (db : Db) (l : List SeenEndorsement) :
    WritesTo [.endorsements] db (persistEndorsements db l).db := by
  induction l generalizing db with
  | nil => exact .none
  | cons e es ih =>
      unfold persistEndorsements
      cases written : db.writeSeenEndorsement e with
      | error err => exact .none
      | ok next =>
          have first : WritesTo [.endorsements] db next := by
            rcases writeSeenEndorsement_ok written with rfl | ⟨row, rfl⟩
            · exact .none
            · exact .one (.endorsement row) rfl
          exact first.trans (ih next)

theorem writes_ingestOperation (db : Db) (head : BlockHead) (nowMs : Int) (filled : FilledOperation) :
    WritesTo [.ops] db (ingestOperation db head nowMs filled).db := by
  unfold ingestOperation
  split
  · exact .none
  · split
    · exact .none
    · split
      · exact .one (.op _) rfl
      · split
        · exact .none
        · exact .one (.op _) rfl

theorem writes_ingestOperations (db : Db) (head : BlockHead) (nowMs : Int)
    (ops : List FilledOperation) : WritesTo [.ops] db (ingestOperations db head nowMs ops).db := by
  induction ops generalizing db with
  | nil => exact .none
  | cons filled rest ih =>
      have first := writes_ingestOperation db head nowMs filled
      unfold ingestOperations
      rcases taken : ingestOperation db head nowMs filled with ⟨next, result⟩
      rw [taken] at first
      cases result with
      | error e => exact first
      | ok id => exact first.trans (ih next)

/-! ## Frames -/

theorem writes_writeFrameEvents (db : Db) (s : Slot) (status : SlotStatus) (exec : ExecutionOutput) :
    WritesTo [.scEvents] db (writeFrameEvents db s status exec) := by
  refine WritesTo.trans (.one (.clearScEvents s) rfl) (.foldl (fun db ev _ => ?_) _)
  exact .one (.scEvent ev) rfl

theorem writes_applyExecutedOp (frame : ExecFrame) (db : Db) (entry : ExecutedOpsChangeEntry) :
    WritesTo [.ops] db (applyExecutedOp frame db entry) := by
  unfold applyExecutedOp
  split
  · exact .none
  · split
    · split
      · split
        · exact .one (.op _) rfl
        · exact .none
      · split
        · exact .one (.op _) rfl
        · exact .none
    · exact .none

theorem writes_applyExecutedOpsChanges (frame : ExecFrame) (db : Db) (exec : ExecutionOutput) :
    WritesTo [.ops] db (applyExecutedOpsChanges frame db exec) := by
  unfold applyExecutedOpsChanges
  split
  · exact .none
  · exact .foldl (fun db entry _ => writes_applyExecutedOp frame db entry) db

theorem writes_applyAsyncPoolChange (db : Db) (s : Slot) (entry : AsyncPoolChangeEntry)
    (nowMs : Int) : WritesTo [.asyncMsgs] db (applyAsyncPoolChange s nowMs db entry) := by
  unfold applyAsyncPoolChange
  dsimp only
  split
  · exact .none
  · split
    · exact .none
    · split <;> first | exact .none | exact .one (.asyncMsg _) rfl

theorem writes_applyAsyncPoolChanges (db : Db) (s : Slot) (exec : ExecutionOutput) (nowMs : Int) :
    WritesTo [.asyncMsgs] db (applyAsyncPoolChanges db s exec nowMs) := by
  unfold applyAsyncPoolChanges
  split
  · exact .none
  · exact .foldl (fun db entry _ => writes_applyAsyncPoolChange db s entry nowMs) db

/-! ## Patches -/

theorem writes_advanceHead (db : Db) (s : Slot) : WritesTo [.heads] db (advanceHead db s) := by
  unfold advanceHead
  split
  · split
    · exact .one (.lastFinalSlot s) rfl
    · exact .none
  · exact .one (.lastFinalSlot s) rfl

theorem writes_adoptPeerVerdict (db : Db) (state : SlotState) (resp : FinalSlotResponse)
    (block : Option BlockId) (trail : Option String) :
    WritesTo [.blocks, .scEvents, .transfers] db (adoptPeerVerdict db state resp block trail).1 := by
  refine .trans ?_ (.trans (.one (.clearScEvents state.slot) rfl)
    (.one (.clearTransfers state.slot) rfl))
  split
  · exact (writes_settleBlock _ _ _).weaken rfl
  · exact .none

theorem writes_applyOperation (db : Db) (pb : StoredOperationPb) :
    WritesTo [.ops] db (applyOperation db pb) := by
  unfold applyOperation
  split
  · exact .none
  · split
    · exact .one (.op _) rfl
    · dsimp only
      split
      · exact .one (.op _) rfl
      · exact .none

theorem writes_applyEndorsement (db : Db) (pb : StoredEndorsementPb) :
    WritesTo [.endorsements] db (applyEndorsement db pb) := by
  unfold applyEndorsement
  split
  · exact .none
  · exact .one (.endorsement _) rfl

theorem writes_applyScEvent (db : Db) (pb : StoredScEventPb) :
    WritesTo [.scEvents] db (applyScEvent db pb) := by
  unfold applyScEvent
  split
  · exact .none
  · exact .one (.scEvent _) rfl

theorem writes_applyAsyncMsg (db : Db) (pb : StoredAsyncMsgPb) :
    WritesTo [.asyncMsgs] db (applyAsyncMsg db pb) := by
  unfold applyAsyncMsg
  split
  · exact .none
  · exact .one (.asyncMsg _) rfl

theorem writes_applyDeferredCall (db : Db) (pb : StoredDeferredCallPb) :
    WritesTo [.deferredCalls] db (applyDeferredCall db pb) := by
  unfold applyDeferredCall
  split
  · exact .none
  · exact .one (.deferredCall _) rfl

theorem writes_applyExecPart (db : Db) (s : Slot) (resp : FinalSlotResponse) :
    WritesTo [.scEvents, .asyncMsgs] db (applyExecPart db s resp) := by
  refine WritesTo.trans (.one (.clearScEvents s) rfl) (.trans (.foldl ?_ _) (.foldl ?_ _))
  · exact fun db pb _ => (writes_applyScEvent db pb).weaken rfl
  · exact fun db pb _ => (writes_applyAsyncMsg db pb).weaken rfl

theorem writes_transferRows (db : Db) (rows : List StoredTransfer) :
    WritesTo [.transfers] db (rows.foldl Db.writeTransfer db) :=
  .foldl (fun _ t _ => .one (.transfer t) rfl) db

theorem writes_applyTransfersPart (db : Db) (s : Slot) (resp : FinalSlotResponse) (nowMs : Int) :
    WritesTo [.transfers, .deferredCalls, .asyncMsgs] db (applyTransfersPart db s resp nowMs) := by
  have cleared : WritesTo [.transfers, .deferredCalls, .asyncMsgs] db (db.clearTransfersForSlot s) :=
    .one (.clearTransfers s) rfl
  have calls : ∀ db, WritesTo [.transfers, .deferredCalls, .asyncMsgs] db
      (resp.deferredCalls.foldl applyDeferredCall db) :=
    .foldl fun db pb _ => (writes_applyDeferredCall db pb).weaken rfl
  have rows : WritesTo [.transfers, .deferredCalls, .asyncMsgs] (db.clearTransfersForSlot s)
      ((decodedTransfers resp).foldl Db.writeTransfer (db.clearTransfersForSlot s)) :=
    (writes_transferRows _ _).weaken rfl
  unfold applyTransfersPart
  dsimp only
  refine (cleared.trans rows).trans ((calls _).trans ?_)
  generalize resp.deferredCalls.foldl applyDeferredCall _ = db
  have async := writes_reconcileAsyncFromTransfers db s (decodedTransfers resp) nowMs
  have deferred := writes_reconcileDeferredFromTransfers
    (reconcileAsyncFromTransfers db s (decodedTransfers resp) nowMs) s (decodedTransfers resp) nowMs
  exact (async.weaken rfl).trans (deferred.weaken rfl)

variable [DenunciationDigest]

theorem writes_applyBlockPart (db : Db) (resp : FinalSlotResponse) (nowMs : Int) :
    WritesTo [.blocks, .ops, .endorsements, .denunciations] db (applyBlockPart db resp nowMs).1 := by
  unfold applyBlockPart
  split
  · exact .none
  · dsimp only
    refine WritesTo.trans ?_ (.trans (.foldl ?_ _) (.trans (.foldl ?_ _) (.foldl ?_ _)))
    · split
      · exact .one (.block _) rfl
      · exact .none
    · exact fun db pb _ => (writes_applyOperation db pb).weaken rfl
    · exact fun db pb _ => (writes_applyEndorsement db pb).weaken rfl
    · exact fun db d _ => .one (.denunciation _) rfl

end MassaIndexer.Writer.Effects
