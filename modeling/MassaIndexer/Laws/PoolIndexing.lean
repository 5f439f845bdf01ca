/-
# Laws.PoolIndexing -- the pools of a run are indexed

An event reaches the rows of async messages and of deferred calls through writes that keep the indexes
of the two pools exact, or not at all. The pools a run leaves are indexed (`poolIndexed_ingest`).
-/
import MassaIndexer.Laws.KeyIsolation
import MassaIndexer.Writer.Stages

namespace MassaIndexer.Laws.PoolIndexing

open MassaIndexer.Theory.Footprint MassaIndexer.Theory.Runs
open MassaIndexer.Data.Ids MassaIndexer.Data.Model MassaIndexer.Data.Proto
open MassaIndexer.Store.ColumnFamilies MassaIndexer.Store.Footprint
open MassaIndexer.Writer.NodeProto MassaIndexer.Writer.NodeDecode
open MassaIndexer.Writer.Shared MassaIndexer.Writer.Handlers MassaIndexer.Writer.Effects
open MassaIndexer.Writer.Step MassaIndexer.Writer.Families MassaIndexer.Writer.Patches
open MassaIndexer.Writer.Stages
open MassaIndexer.Peer.Patch MassaIndexer.Peer.Arbiter
open MassaIndexer.Laws.IndexExactness MassaIndexer.Laws.KeyIsolation

set_option autoImplicit false

variable [Bs58Check]

/-! ## Stages -/

def Pooled (stage : FamilyStage) : Prop := ∀ db, PoolIndexed db → PoolIndexed (stage.act db)

theorem pooled_of_writes {f : Family} {P : Db → Db} (confined : ConfinedTo f P) {fs : List Family}
    (writes : ∀ db, WritesTo fs db (P db)) : Pooled (stage confined) := fun db indexed =>
  (writes db).keep (fun db w _ indexed => poolIndexed_write db w indexed) indexed

omit [Bs58Check] in
def inPools : Family → Bool
  | .asyncMsgs | .deferredCalls => true
  | _ => false

omit [Bs58Check] in
/-- A stage of another family. -/
theorem pooled_elsewhere (stage : FamilyStage) (elsewhere : inPools stage.site = false) :
    Pooled stage := by
  intro db indexed
  have asyncs := stage.confined.frame db .asyncMsgs fun same => by simp [← same, inPools] at elsewhere
  have deferreds := stage.confined.frame db .deferredCalls fun same => by
    simp [← same, inPools] at elsewhere
  simp only [contents, Prod.mk.injEq] at asyncs deferreds
  obtain ⟨m, m₁, m₂, m₃⟩ := asyncs
  obtain ⟨c, c₁, c₂, c₃⟩ := deferreds
  exact ⟨m₁ ▸ m ▸ indexed.asyncBySender, m₂ ▸ m ▸ indexed.asyncByDest,
    m₃ ▸ m ▸ indexed.asyncByLastSlot, c₁ ▸ c ▸ indexed.deferredBySender,
    c₂ ▸ c ▸ indexed.deferredByTarget, c₃ ▸ c ▸ indexed.deferredByLastSlot⟩

theorem pooled_exec (s : Slot) (row : SlotState) (frame : ExecFrame) (exec : ExecutionOutput)
    (nowMs : Int) : (∀ stage ∈ recordStages s row frame exec nowMs, Pooled stage) ∧
      ∀ stage ∈ completeStages row exec nowMs, Pooled stage := by
  have pool : ∀ s : Slot, Pooled (stage (confined_applyAsyncPoolChanges s exec nowMs)) := fun s =>
    pooled_of_writes _ fun db => writes_applyAsyncPoolChanges db s exec nowMs
  constructor
  · cases frame with
    | final =>
        simp only [recordStages, List.forall_mem_cons, List.not_mem_nil, false_implies, implies_true,
          and_true]
        refine ⟨?_, ?_, ?_, ?_, pool s, ?_, ?_⟩ <;> exact pooled_elsewhere _ rfl
    | candidate =>
        simp only [recordStages, List.forall_mem_cons, List.not_mem_nil, false_implies, implies_true,
          and_true]
        refine ⟨?_, ?_, ?_, ?_⟩ <;> exact pooled_elsewhere _ rfl
  · simp only [completeStages, List.forall_mem_cons, List.not_mem_nil, false_implies, implies_true,
      and_true]
    refine ⟨?_, ?_, pool row.slot, ?_, ?_⟩ <;> exact pooled_elsewhere _ rfl

theorem pooled_reconcile (s : Slot) (rows : List StoredTransfer) (nowMs : Int) :
    Pooled (stage (confined_reconcileAsyncFromTransfers s rows nowMs)) ∧
      Pooled (stage (confined_reconcileDeferredFromTransfers s rows nowMs)) :=
  ⟨pooled_of_writes _ fun db => writes_reconcileAsyncFromTransfers db s rows nowMs,
    pooled_of_writes _ fun db => writes_reconcileDeferredFromTransfers db s rows nowMs⟩

variable [DenunciationDigest]

/-! ## Events -/

theorem pooled_block (db : Db) (head : BlockHead) (ops : List FilledOperation) (nowMs : Int) :
    ∀ stage ∈ handleBlockStages db head ops nowMs, Pooled stage := by
  have elsewhere : ∀ stage ∈ handleBlockStages db head ops nowMs, inPools stage.site = false := by
    unfold handleBlockStages
    split
    · simp [inPools]
    · split <;> simp [storedBlockStages, Write.family, inPools]
  exact fun stage member => pooled_elsewhere stage (elsewhere stage member)

theorem pooled_body (resp : FinalSlotResponse) (nowMs : Int) (block : Option StoredBlock) :
    ∀ stage ∈ bodyStages resp nowMs block, Pooled stage := by
  cases block with
  | none => simp [bodyStages]
  | some block =>
      simp only [bodyStages, Option.elim_some, blockStages, List.forall_mem_cons, List.not_mem_nil,
        false_implies, implies_true, and_true]
      refine ⟨?_, ?_, ?_, ?_⟩ <;> exact pooled_elsewhere _ rfl

theorem pooled_peerParts (s : Slot) (resp : FinalSlotResponse) (nowMs : Int) (row : SlotState) :
    ∀ stage ∈ peerPartStages s resp nowMs row, Pooled stage := by
  unfold peerPartStages
  rw [List.forall_mem_append, List.forall_mem_append]
  refine ⟨⟨pooled_body resp nowMs _, ?_⟩, ?_⟩
  · split
    · simp only [execStages, List.forall_mem_cons, List.not_mem_nil, false_implies, implies_true,
        and_true]
      exact ⟨pooled_elsewhere _ rfl,
        pooled_of_writes _ fun db => WritesTo.foldl (fun db pb _ => writes_applyAsyncMsg db pb) db⟩
    · simp
  · split
    · simp only [transfersStages, List.forall_mem_cons, List.not_mem_nil, false_implies, implies_true,
        and_true]
      obtain ⟨asyncs, deferreds⟩ := pooled_reconcile s (decodedTransfers resp) nowMs
      exact ⟨pooled_elsewhere _ rfl,
        pooled_of_writes _ fun db => WritesTo.foldl (fun db pb _ => writes_applyDeferredCall db pb) db,
        asyncs, deferreds⟩
    · simp

omit [DenunciationDigest] in
theorem pooled_adopt (row : SlotState) : ∀ stage ∈ adoptStages row, Pooled stage := by
  unfold adoptStages
  rw [List.forall_mem_append]
  constructor
  · cases row.finalBlockId with
    | none => simp
    | some old =>
        simp only [Option.elim_some, List.forall_mem_cons, List.not_mem_nil, false_implies, implies_true,
          and_true]
        exact pooled_elsewhere _ rfl
  · simp only [List.forall_mem_cons, List.not_mem_nil, false_implies, implies_true, and_true]
    exact ⟨pooled_elsewhere _ rfl, pooled_elsewhere _ rfl⟩

omit [DenunciationDigest] in
theorem pooled_closing (s : Slot) (row : SlotState) (nowMs : Int) :
    ∀ stage ∈ closingStages s row nowMs, Pooled stage := by
  simp only [closingStages, List.forall_mem_cons, List.not_mem_nil, false_implies, implies_true, and_true]
  exact ⟨pooled_elsewhere _ rfl, pooled_elsewhere _ rfl, pooled_elsewhere _ rfl⟩

theorem pooled_peer (s : Slot) (row : SlotState) (resp : FinalSlotResponse) (nowMs : Int)
    (reconciled : Reconciled) : ∀ stage ∈ peerStages s row resp nowMs reconciled, Pooled stage := by
  cases reconciled with
  | turnedAway out =>
      simp only [peerStages, List.forall_mem_cons, List.not_mem_nil, false_implies, implies_true,
          and_true]
      exact pooled_elsewhere _ rfl
  | proceed p =>
      rw [peerStages, List.forall_mem_append, List.forall_mem_append]
      refine ⟨?_, pooled_peerParts s resp nowMs p.state, pooled_closing s _ nowMs⟩
      unfold openingStages
      split
      · simp only [List.forall_mem_cons, List.not_mem_nil, false_implies, implies_true, and_true]
        exact pooled_elsewhere _ rfl
      · split
        · exact pooled_adopt row
        · simp

theorem pooled_legacy (s : Slot) (row : SlotState) (resp : FinalSlotResponse) (nowMs : Int) :
    ∀ stage ∈ legacyStages s row resp nowMs, Pooled stage := by
  unfold legacyStages legacyPartStages
  dsimp only
  rw [List.forall_mem_append, List.forall_mem_append, List.forall_mem_append, List.forall_mem_append]
  refine ⟨⟨⟨?_, pooled_body resp nowMs _, ?_⟩, ?_⟩, ?_⟩
  · split
    · simp only [List.forall_mem_cons, List.not_mem_nil, false_implies, implies_true, and_true]
      exact pooled_elsewhere _ rfl
    · simp
  · simp only [List.forall_mem_cons, List.not_mem_nil, false_implies, implies_true, and_true]
    exact pooled_elsewhere _ rfl
  · split
    · simp only [List.forall_mem_cons, List.not_mem_nil, false_implies, implies_true, and_true]
      exact pooled_elsewhere _ rfl
    · simp
  · simp only [List.forall_mem_cons, List.not_mem_nil, false_implies, implies_true, and_true]
    exact ⟨pooled_elsewhere _ rfl, pooled_elsewhere _ rfl⟩

theorem pooled_event (db : Db) (e : Timed) : ∀ stage ∈ eventStages db e, Pooled stage := by
  obtain ⟨event, nowMs⟩ := e
  cases event with
  | block fb =>
      dsimp only [eventStages]
      split
      · simp
      · exact pooled_block db _ _ nowMs
  | exec out =>
      dsimp only [eventStages]
      rcases readFrame out with - | ⟨s, frame, exec⟩
      · simp
      · obtain ⟨recorded, completed⟩ := pooled_exec s (rowAt db s nowMs) frame exec nowMs
        dsimp only [Option.elim_some]
        split
        · split
          · exact completed
          · simp
        · exact recorded
  | transfers resp =>
      dsimp only [eventStages]
      cases resp.slot with
      | none => simp
      | some pb =>
          obtain ⟨asyncs, deferreds⟩ := pooled_reconcile (slotFromPb pb)
            (decodeTransfers resp (slotFromPb pb) nowMs) nowMs
          simp only [Option.elim_some, handleTransfersStages, List.forall_mem_cons, List.not_mem_nil,
            false_implies, implies_true, and_true]
          exact ⟨pooled_elsewhere _ rfl, asyncs, deferreds, pooled_elsewhere _ rfl⟩
  | peerPatch resp =>
      dsimp only [eventStages]
      split
      · cases slotOf resp with
        | none => simp
        | some s => exact pooled_peer s _ resp nowMs _
      · simp
  | legacyPatch resp =>
      dsimp only [eventStages]
      split
      · cases slotOf resp with
        | none => simp
        | some s => exact pooled_legacy s _ resp nowMs
      · simp
  | forcedVerdict resp =>
      dsimp only [eventStages]
      split
      · split
        · simp
        · rw [forcedStages, List.forall_mem_append]
          refine ⟨pooled_adopt _, ?_⟩
          simp only [List.forall_mem_cons, List.not_mem_nil, false_implies, implies_true, and_true]
          exact ⟨pooled_elsewhere _ rfl, pooled_elsewhere _ rfl⟩
      · simp
  | tick => simp [eventStages]

theorem poolIndexed_ingest (events : List Timed) : PoolIndexed (ingest events) := by
  refine invariant_of_step (fun db e indexed => ?_) events (poolIndexed_run [])
  rw [step_eq_stages]
  exact List.foldlRecOn (eventStages db e) _ indexed fun db' indexed stage member =>
    pooled_event db e stage member db' indexed

end MassaIndexer.Laws.PoolIndexing
