/-
# Laws.EventIdempotence -- an event delivered twice

Reconnects and sweeps deliver events again. Whatever a run has left, an event that comes twice in a row
leaves what it leaves when it comes once, but for the times of first sighting and last update: rows,
index entries and head markers alike (`event_idempotent`). That holds of events that are refused half
way too.
-/
import MassaIndexer.Laws.BlockRedelivery
import MassaIndexer.Laws.PoolIndexing
import MassaIndexer.Writer.Rewrites
import MassaIndexer.Writer.SecondDelivery

namespace MassaIndexer.Laws.EventIdempotence

open MassaIndexer.Theory.Attempts MassaIndexer.Theory.Footprint MassaIndexer.Theory.KeyedTable
open MassaIndexer.Theory.Runs
open MassaIndexer.Data.Ids MassaIndexer.Data.Model MassaIndexer.Data.Proto MassaIndexer.Data.Codec
open MassaIndexer.Data.RowCodec MassaIndexer.Data.Keys
open MassaIndexer.Store.ColumnFamilies MassaIndexer.Store.Footprint MassaIndexer.Store.Indexes
open MassaIndexer.Store.SlotRows MassaIndexer.Store.Timeless
open MassaIndexer.Writer.NodeProto MassaIndexer.Writer.NodeDecode
open MassaIndexer.Writer.Shared MassaIndexer.Writer.Handlers MassaIndexer.Writer.Effects
open MassaIndexer.Writer.Step MassaIndexer.Writer.Families MassaIndexer.Writer.Patches
open MassaIndexer.Writer.RowMoves MassaIndexer.Writer.BlockMoves MassaIndexer.Writer.BodyMoves
open MassaIndexer.Writer.Moves MassaIndexer.Writer.Stages MassaIndexer.Writer.Rewrites
open MassaIndexer.Writer.SecondDelivery
open MassaIndexer.Peer.Patch MassaIndexer.Peer.Arbiter
open MassaIndexer.Laws.IndexRebuild MassaIndexer.Laws.IndexExactness MassaIndexer.Laws.PoolIndexing
open MassaIndexer.Laws.BlockAtomicity MassaIndexer.Laws.BlockRedelivery
open MassaIndexer.Laws.LegacyDecoders

set_option autoImplicit false

variable [Bs58Check]

/-! ## Families -/

section Families

variable {db db' : Db}

omit [Bs58Check] in
theorem sameContents_slots (same : ∀ s, (db.readSlot s).map timelessSlot = (db'.readSlot s).map timelessSlot) :
    SameContents .slots (contents db .slots) (contents db' .slots) :=
  sameRows_of_keys fun row => same row.slot

variable (maintained : Maintained db) (maintained' : Maintained db')

include maintained maintained'

omit [Bs58Check] in
theorem sameContents_blocks (pointers : db.slotCandidateBlock = db'.slotCandidateBlock)
    (same : ∀ b, (db.readBlock b).map timelessBlock = (db'.readBlock b).map timelessBlock) :
    SameContents .blocks (contents db .blocks) (contents db' .blocks) := by
  have rows : SameRows timelessBlock db.blocks db'.blocks := sameRows_of_keys fun b => same b.id
  exact ⟨rows, Prod.ext (index_eq_of_sameRows maintained.blockByCreator maintained'.blockByCreator rows
    fun _ => rfl) pointers⟩

omit [Bs58Check] in
theorem sameContents_endorsements
    (same : ∀ e, (db.readEndorsement e).map timelessEndorsement =
      (db'.readEndorsement e).map timelessEndorsement) :
    SameContents .endorsements (contents db .endorsements) (contents db' .endorsements) := by
  have rows : SameRows timelessEndorsement db.endorsements db'.endorsements :=
    sameRows_of_keys fun e => same e.id
  exact ⟨rows, index_eq_of_sameRows maintained.endorsementByCreator maintained'.endorsementByCreator rows
    fun _ => rfl⟩

omit [Bs58Check] in
theorem sameContents_ops (same : ∀ o, (db.readOp o).map timelessOp = (db'.readOp o).map timelessOp) :
    SameContents .ops (contents db .ops) (contents db' .ops) := by
  have rows : SameRows timelessOp db.ops db'.ops := sameRows_of_keys fun o => same o.id
  exact ⟨rows, Prod.ext
    (index_eq_of_sameRows maintained.opByCreator maintained'.opByCreator rows fun _ => rfl)
    (index_eq_of_sameRows maintained.opByTarget maintained'.opByTarget rows fun _ => rfl)⟩

omit [Bs58Check] in
theorem sameContents_denunciations
    (same : ∀ k, (db.readDenunciation k).map timelessDenunciation =
      (db'.readDenunciation k).map timelessDenunciation) :
    SameContents .denunciations (contents db .denunciations) (contents db' .denunciations) := by
  have rows : SameRows timelessDenunciation db.denunciations db'.denunciations := same
  exact ⟨rows, Prod.ext
    (index_eq_of_sameRows maintained.denunciationByAddr maintained'.denunciationByAddr rows fun _ => rfl)
    (index_eq_of_sameRows maintained.denunciationRecent maintained'.denunciationRecent rows
      fun _ => rfl)⟩

end Families

section Pools

variable {db db' : Db} (indexed : PoolIndexed db) (indexed' : PoolIndexed db')

include indexed indexed'

omit [Bs58Check] in
theorem sameContents_asyncMsgs (rows : SameRows timelessAsyncMsg db.asyncMsgs db'.asyncMsgs) :
    SameContents .asyncMsgs (contents db .asyncMsgs) (contents db' .asyncMsgs) :=
  ⟨rows, Prod.ext (index_eq_of_sameRows indexed.asyncBySender indexed'.asyncBySender rows fun _ => rfl)
    (Prod.ext (index_eq_of_sameRows indexed.asyncByDest indexed'.asyncByDest rows fun _ => rfl)
      (index_eq_of_sameRows indexed.asyncByLastSlot indexed'.asyncByLastSlot rows fun _ => rfl))⟩

omit [Bs58Check] in
theorem sameContents_deferredCalls
    (rows : SameRows timelessDeferredCall db.deferredCalls db'.deferredCalls) :
    SameContents .deferredCalls (contents db .deferredCalls) (contents db' .deferredCalls) :=
  ⟨rows, Prod.ext
    (index_eq_of_sameRows indexed.deferredBySender indexed'.deferredBySender rows fun _ => rfl)
    (Prod.ext (index_eq_of_sameRows indexed.deferredByTarget indexed'.deferredByTarget rows fun _ => rfl)
      (index_eq_of_sameRows indexed.deferredByLastSlot indexed'.deferredByLastSlot rows fun _ => rfl))⟩

end Pools

/-! ## Slots -/

section Events

variable [DenunciationDigest] {db : Db} {first again : Timed}

omit [Bs58Check] [DenunciationDigest] in
/-- The row is filed as it stands, and the slot before it has its stub already. -/
theorem sameSlots_filed {db db₁ db₂ : Db} {m m' : RowMove} {firstMs againMs : Int}
    (filed : contents db₁ .slots = contents (m.file firstMs db) .slots)
    (filed' : contents db₂ .slots = contents (m'.file againMs db₁) .slots)
    (same : timelessSlot (readBackSlotState m'.row) = timelessSlot (readBackSlotState m.row))
    (stub : m'.stub = true → m.stub = true) :
    SameContents .slots (contents db₂ .slots) (contents db₁ .slots) := by
  have here : m'.row.slot = m.row.slot := (congrArg SlotState.slot same :)
  refine sameContents_slots fun s => ?_
  have read := sameReadSlot filed s
  rw [sameReadSlot filed' s, readSlot_file]
  split
  · next own =>
      rw [read, readSlot_file, if_pos (here ▸ own)]
      exact congrArg some same
  · next other =>
      split
      · next stubs =>
          obtain ⟨set, later, parent⟩ := stubs
          have there : (db₁.readSlot s).isSome = true := by
            rw [read, readSlot_file, if_neg (here ▸ other), if_pos ⟨stub set, here ▸ later, here ▸ parent⟩]
            cases db.readSlot s <;> rfl
          obtain ⟨row, found⟩ := Option.isSome_iff_exists.mp there
          rw [found, Option.some_or]
      · rfl

theorem sameSlots_again {m m' : RowMove} (moved : rowMove db first = some m)
    (moved' : rowMove (step db first) again = some m')
    (same : timelessSlot (readBackSlotState m'.row) = timelessSlot (readBackSlotState m.row))
    (stub : m'.stub = true → m.stub = true) :
    SameContents .slots (contents (step (step db first) again) .slots) (contents (step db first) .slots) := by
  have filed := slots_step db first
  have filed' := slots_step (step db first) again
  rw [moved, Option.elim_some] at filed
  rw [moved', Option.elim_some] at filed'
  exact sameSlots_filed filed filed' same stub

theorem sameSlots_unmoved (unmoved : rowMove db again = none) :
    SameContents .slots (contents (step db again) .slots) (contents db .slots) := by
  refine sameContents_slots fun s => ?_
  rw [readSlot_step, unmoved]

/-! ## Blocks -/

/-- The pointers of slots to their blocks stay, as long as they cover the rows. -/
def SamePointers (db db' : Db) : Prop :=
  Covers slotBlockKeys db.blocks db.slotCandidateBlock →
    Covers slotBlockKeys db'.blocks db'.slotCandidateBlock ∧ db'.slotCandidateBlock = db.slotCandidateBlock

omit [Bs58Check] [DenunciationDigest] in
theorem SamePointers.refl (db : Db) : SamePointers db db := fun covered => ⟨covered, rfl⟩

omit [Bs58Check] [DenunciationDigest] in
theorem SamePointers.trans {a b c : Db} (left : SamePointers a b) (right : SamePointers b c) :
    SamePointers a c := by
  intro covered
  obtain ⟨covered', same⟩ := left covered
  obtain ⟨covered'', same'⟩ := right covered'
  exact ⟨covered'', same'.trans same⟩

omit [Bs58Check] [DenunciationDigest] in
theorem samePointers_writeBlock {db : Db} {block old : StoredBlock} (found : db.readBlock block.id = some old)
    (slot : old.slot = block.slot) : SamePointers db (db.writeBlock block) := by
  intro covered
  refine ⟨covers_put entries_slotBlock covered block, ?_⟩
  have id : old.id = block.id := Db.id_of_readBlock found
  show Index.insertAll db.slotCandidateBlock (slotBlockKeys block) = db.slotCandidateBlock
  refine Index.insertAll_eq_self_iff.mpr fun k entered => ?_
  refine covered old (Table.holds_of_get found) k ?_
  rw [slotBlockKeys, slot, id]
  exact entered

omit [Bs58Check] [DenunciationDigest] in
theorem samePointers_settleBlock (db : Db) (b : BlockId) (status : BlockStatus) :
    SamePointers db (settleBlock db b status) := by
  unfold settleBlock
  cases found : db.readBlock b with
  | none => exact .refl db
  | some block =>
      have own : block.id = b := Db.id_of_readBlock found
      have held : db.readBlock block.id = some block := by rw [own, found]
      dsimp only
      split
      · have settled : db.readBlock { block with status := status }.id = some block := held
        exact samePointers_writeBlock settled rfl
      · exact .refl db

omit [Bs58Check] [DenunciationDigest] in
theorem samePointers_applyFinality (db : Db) (final : Option BlockId) (candidates : List BlockId) :
    SamePointers db (applyFinalityToBlocks db final candidates) := by
  have settled : SamePointers db (candidates.foldl (fun db bid => settleBlock db bid
      (if some bid = final then .final else .discarded)) db) :=
    List.foldlRecOn candidates _ (SamePointers.refl db) fun db' before bid _ =>
      before.trans (samePointers_settleBlock db' bid _)
  unfold applyFinalityToBlocks
  cases final with
  | none => exact settled
  | some bid =>
      dsimp only
      split
      · exact settled
      · exact settled.trans (samePointers_settleBlock _ bid .final)

/-- A block move taken again: nothing new comes in, and the verdict it settles is the same. -/
structure RepeatsBlocks (m m' : BlockMove) : Prop where
  discard : m'.discard = none
  seen : m'.seen = none
  store : m'.store = none ∨ m'.store = m.store
  settle : m'.settle = m.settle

omit [Bs58Check] [DenunciationDigest] in
theorem RepeatsBlocks.rowOf {m m' : BlockMove} (repeats : RepeatsBlocks m m') (b : BlockId)
    (old : Option StoredBlock) : m'.rowOf b (m.rowOf b old) = m.rowOf b old := by
  obtain ⟨discard, seen, store, settle⟩ := repeats
  let settled := settledTo (m.settle.bind fun verdict => statusBy verdict.1 verdict.2 b)
  have reads : ∀ old, m'.rowOf b old = (old.or (m'.store.filter (·.id = b))).map settled := by
    intro old
    unfold BlockMove.rowOf
    rw [discard, seen, settle]
    simp [settled]
  obtain ⟨brought, left, empty⟩ : ∃ brought, m.rowOf b old = brought.map settled ∧
      (brought = none → m.store.filter (·.id = b) = none) := by
    refine ⟨_, rfl, fun none_ => ?_⟩
    exact (Option.or_eq_none_iff.mp (Option.or_eq_none_iff.mp none_).2).2
  rw [reads, left]
  cases brought with
  | none =>
      have absent : m'.store.filter (·.id = b) = none := by
        rcases store with none_ | same
        · rw [none_, Option.filter_none]
        · rw [same, empty rfl]
      rw [absent]
      rfl
  | some block =>
      rw [Option.map_some, Option.some_or, Option.map_some]
      exact congrArg some ((settledTo_settledTo _ _ block).trans (by rw [Option.or_self]))

omit [Bs58Check] [DenunciationDigest] in
theorem samePointers_run {m : BlockMove} {db : Db} (discard : m.discard = none) (seen : m.seen = none)
    (held : ∀ block, m.store = some block → (db.readBlock block.id).isSome = true) :
    SamePointers db (m.run db) := by
  unfold BlockMove.run
  rw [discard, seen]
  dsimp only [Option.elim_none]
  have stored : (m.store.elim db fun block =>
      if (db.readBlock block.id).isNone then db.writeBlock block else db) = db := by
    cases store : m.store with
    | none => rfl
    | some block =>
        rw [Option.elim_some, if_neg]
        rw [Option.isNone_iff_eq_none]
        exact Option.isSome_iff_ne_none.mp (held block store)
  rw [stored]
  cases m.settle with
  | none => exact .refl db
  | some verdict => exact samePointers_applyFinality db verdict.1 verdict.2

theorem ingest_concat (events : List Timed) (e : Timed) :
    ingest (events ++ [e]) = step (ingest events) e := run_append ..

/-- What the store has kept of its indexes when an event comes, and when it comes again. -/
theorem maintained_step (events : List Timed) (e : Timed) : Maintained (step (ingest events) e) := by
  rw [← ingest_concat]
  exact maintained_ingest (events ++ [e])

theorem poolIndexed_step (events : List Timed) (e : Timed) : PoolIndexed (step (ingest events) e) := by
  rw [← ingest_concat]
  exact poolIndexed_ingest (events ++ [e])

theorem sameBlocks_again (events : List Timed) (first again : Timed)
    (repeats : RepeatsBlocks (blockMove (ingest events) first)
      (blockMove (step (ingest events) first) again)) :
    SameContents .blocks (contents (step (step (ingest events) first) again) .blocks)
      (contents (step (ingest events) first) .blocks) := by
  have maintained := maintained_step events first
  have maintained' := maintained_step (events ++ [first]) again
  rw [ingest_concat] at maintained'
  have held : ∀ block, (blockMove (step (ingest events) first) again).store = some block →
      ((step (ingest events) first).readBlock block.id).isSome = true := by
    intro block brought
    have same := (repeats.store.resolve_left (by rw [brought]; simp)).symm.trans brought
    rw [readBlock_step, BlockMove.rowOf, same]
    simp
  refine sameContents_blocks maintained' maintained ?_ fun b => ?_
  · have covered := maintained.pointers
    have run := (samePointers_run repeats.discard repeats.seen held covered).2
    have moved := congrArg (fun c : Contents .blocks => c.2.2) (blocks_step (step (ingest events) first) again)
    exact moved.trans run
  · rw [readBlock_step _ again, readBlock_step _ first, repeats.rowOf]

/-! ## Transfers and events -/

theorem sameTransfers_again (alike : AlikeMoves timelessTransfer (transferMove db first)
    (transferMove (step db first) again)) :
    SameContents .transfers (contents (step (step db first) again) .transfers)
      (contents (step db first) .transfers) := by
  have before := filedTransfers_step db first
  have after := filedTransfers_step (step db first) again
  have rows := sameRows_again blanks_transfers alike (filedTransfers db)
  have entries := entries_again blanks_transfers alike (filedTransfers db)
  rw [← before, ← after] at rows entries
  exact ⟨rows, Prod.ext (entries 0) (Prod.ext (entries 1) (entries 2))⟩

theorem sameEvents_again (same : eventMove (step db first) again = eventMove db first) :
    SameContents .scEvents (contents (step (step db first) again) .scEvents)
      (contents (step db first) .scEvents) := by
  have alike : AlikeMoves id (eventMove db first) (eventMove (step db first) again) := by
    rw [same]
    exact ⟨rfl, rfl⟩
  have before := filedEvents_step db first
  have after := filedEvents_step (step db first) again
  have rows := sameRows_again blanks_events alike (filedEvents db)
  have entries := entries_again blanks_events alike (filedEvents db)
  rw [← before, ← after] at rows entries
  have rowsEq : (step (step db first) again).scEvents = (step db first).scEvents :=
    Table.ext_get fun k => by simpa [filedEvents] using rows k
  exact Prod.ext rowsEq (Prod.ext (entries 0) (Prod.ext (entries 1) (entries 2)))

/-! ## What comes again of the node's transfers -/

omit [Bs58Check] [DenunciationDigest] in
/-- Attribution goes by what a row says, not by when it came. -/
theorem map_attributeOps (rows : List StoredTransfer) (current : Option String) :
    (attributeOps current rows).map timelessTransfer =
      attributeOps current (rows.map timelessTransfer) := by
  induction rows generalizing current with
  | nil => rfl
  | cons r rows ih =>
      unfold attributeOps
      simp only [apply_ite (List.map timelessTransfer), List.map_cons, ih]
      rfl

omit [Bs58Check] [DenunciationDigest] in
theorem decodeTransfers_again (resp : NewTransfersInfoServerResponse) (s : Slot) (firstMs againMs : Int) :
    (decodeTransfers resp s againMs).map timelessTransfer =
      (decodeTransfers resp s firstMs).map timelessTransfer := by
  have timeless : ∀ nowMs, (decodeTransfers resp s nowMs).map timelessTransfer =
      attributeOps none ((resp.transfersInfo.filter fun t =>
        !isZeroValue (valueFromProto t.value.join)).mapIdx (transferRow resp s 0)) := by
    intro nowMs
    rw [decodeTransfers, map_attributeOps]
    congr 1
    refine List.ext_getElem (by simp) fun i _ _ => ?_
    simp only [List.getElem_map, List.getElem_mapIdx]
    rfl
  rw [timeless againMs, timeless firstMs]

omit [DenunciationDigest] in
/-- Reconciling reads nothing of a transfer's clock. -/
theorem reconcile_again {s : Slot} {rows rows' : List StoredTransfer}
    (same : rows'.map timelessTransfer = rows.map timelessTransfer) (db : Db) (nowMs : Int) :
    reconcileAsyncFromTransfers db s rows' nowMs = reconcileAsyncFromTransfers db s rows nowMs ∧
      reconcileDeferredFromTransfers db s rows' nowMs = reconcileDeferredFromTransfers db s rows nowMs := by
  have asyncs : ∀ rows, reconcileAsyncFromTransfers db s rows nowMs =
      reconcileAsyncFromTransfers db s (rows.map timelessTransfer) nowMs := fun rows => by
    rw [reconcileAsyncFromTransfers, reconcileAsyncFromTransfers, List.foldl_map]
    rfl
  have deferreds : ∀ rows, reconcileDeferredFromTransfers db s rows nowMs =
      reconcileDeferredFromTransfers db s (rows.map timelessTransfer) nowMs := fun rows => by
    rw [reconcileDeferredFromTransfers, reconcileDeferredFromTransfers, List.foldl_map]
    rfl
  rw [asyncs rows', asyncs rows, deferreds rows', deferreds rows, same]
  exact ⟨rfl, rfl⟩

/-! ## Event by event -/

theorem same_elsewhere {f : Family} (absent : ∀ stage ∈ eventStages db again, stage.site ≠ f) :
    SameContents f (contents (step db again) f) (contents db f) := by
  rw [step_eq_stages]
  exact sameContents_of_eq (Stage.view_runAll_of_absent absent db)

theorem same_of_no_stages (none_ : eventStages db again = []) : SameButClock (step db again) db := by
  rw [step_eq_stages, none_]
  exact sameButClock_refl db

/-! ### Frames -/

omit [DenunciationDigest] in
/-- A CANDIDATE frame leaves its own row. -/
theorem frameRow_again (row : SlotState) (exec : ExecutionOutput) (firstMs againMs : Int) :
    timelessSlot (readBackSlotState (frameRow (readBackSlotState (frameRow row .candidate exec firstMs))
        .candidate exec againMs)) =
      timelessSlot (readBackSlotState (frameRow row .candidate exec firstMs)) := by
  have trail : readBackTrail ((frameTrail exec).or (readBackTrail
      ((frameTrail exec).or row.executionTrailHash))) =
        readBackTrail ((frameTrail exec).or row.executionTrailHash) := by
    cases frameTrail exec with
    | some hash => rfl
    | none => simp
  have listed : fillExecutedOps exec (fillExecutedOps exec row.executedOpIds) =
      fillExecutedOps exec row.executedOpIds := by
    unfold fillExecutedOps
    cases exec.stateChanges with
    | none => rfl
    | some sc =>
        dsimp only
        split
        · rw [ite_self]
        · rfl
  simp only [frameRow, readBackSlotState, timelessSlot, trail, listed]

theorem sameButClock_exec (events : List Timed) (out : SlotExecutionOutput) (firstMs againMs : Int) :
    SameButClock (step (step (ingest events) ⟨.exec out, firstMs⟩) ⟨.exec out, againMs⟩)
      (step (ingest events) ⟨.exec out, firstMs⟩) := by
  rcases exec_again (ingest events) out firstMs againMs with ignored | ⟨s, exec, read, open_⟩
  · exact same_of_no_stages ignored
  have maintained := maintained_step events ⟨.exec out, firstMs⟩
  have maintained' := maintained_step (events ++ [⟨.exec out, firstMs⟩]) ⟨.exec out, againMs⟩
  rw [ingest_concat] at maintained'
  generalize ingest events = db at *
  have stages : eventStages db ⟨.exec out, firstMs⟩ =
      recordStages s (rowAt db s firstMs) .candidate exec firstMs := by
    dsimp only [eventStages]
    rw [read, Option.elim_some]
    exact if_neg open_
  have moved : rowMove db ⟨.exec out, firstMs⟩ =
      some ⟨frameRow (rowAt db s firstMs) .candidate exec firstMs, false⟩ := by
    dsimp only [rowMove]
    rw [read, Option.bind_some]
    exact if_neg open_
  have left := rowAt_moved moved againMs
  rw [show (frameRow (rowAt db s firstMs) .candidate exec firstMs).slot = s from
    (slot_frameRow ..).trans (slot_rowAt db s firstMs)] at left
  have openStill : (rowAt (step db ⟨.exec out, firstMs⟩) s againMs).status ≠ .final := by
    rw [left]
    rintro ⟨⟩
  have stages' : eventStages (step db ⟨.exec out, firstMs⟩) ⟨.exec out, againMs⟩ =
      recordStages s (rowAt (step db ⟨.exec out, firstMs⟩) s againMs) .candidate exec againMs := by
    dsimp only [eventStages]
    rw [read, Option.elim_some]
    exact if_neg openStill
  have moved' : rowMove (step db ⟨.exec out, firstMs⟩) ⟨.exec out, againMs⟩ =
      some ⟨frameRow (rowAt (step db ⟨.exec out, firstMs⟩) s againMs) .candidate exec againMs, false⟩ := by
    dsimp only [rowMove]
    rw [read, Option.bind_some]
    exact if_neg openStill
  intro f
  cases f with
  | slots =>
      refine sameSlots_again moved moved' ?_ id
      rw [left]
      exact frameRow_again ..
  | scEvents =>
      refine sameEvents_again ?_
      dsimp only [eventMove]
      rw [read, Option.elim_some, Option.elim_some]
      dsimp only
      rw [frameEventMove, frameEventMove, if_neg open_, if_neg openStill]
  | heads =>
      refine sameContents_of_eq ?_
      have before : contents (step db ⟨.exec out, firstMs⟩) .heads =
          contents (db.updateLastCandidateSlot s) .heads := by
        rw [step_eq_stages, stages, contents_runAll]
        rfl
      rw [step_eq_stages, stages', contents_runAll]
      refine Eq.trans ?_ before.symm
      have finals := congrArg Prod.fst before
      exact Prod.ext finals rfl
  | ops =>
      refine sameContents_ops maintained' maintained fun id => congrArg _ ?_
      have before : contents (step db ⟨.exec out, firstMs⟩) .ops =
          contents (applyExecutedOpsChanges .candidate db exec) .ops := by
        rw [step_eq_stages, stages, contents_runAll]
        rfl
      have after : contents (step (step db ⟨.exec out, firstMs⟩) ⟨.exec out, againMs⟩) .ops =
          contents (applyExecutedOpsChanges .candidate (step db ⟨.exec out, firstMs⟩) exec) .ops := by
        rw [step_eq_stages (step db _), stages', contents_runAll]
        rfl
      have same := (confined_applyExecutedOpsChanges .candidate exec).own _ _ before
      rw [sameReadOp (after.trans same), sameReadOp before, readOp_candidate_again]
  | _ =>
      refine same_elsewhere ?_
      rw [stages']
      simp [recordStages, Write.family]

/-! ### Transfers -/

theorem sameButClock_transfers (events : List Timed) (resp : NewTransfersInfoServerResponse)
    (firstMs againMs : Int) :
    SameButClock (step (step (ingest events) ⟨.transfers resp, firstMs⟩) ⟨.transfers resp, againMs⟩)
      (step (ingest events) ⟨.transfers resp, firstMs⟩) := by
  have indexed := poolIndexed_step events ⟨.transfers resp, firstMs⟩
  have indexed' := poolIndexed_step (events ++ [⟨.transfers resp, firstMs⟩]) ⟨.transfers resp, againMs⟩
  rw [ingest_concat] at indexed'
  generalize ingest events = db at *
  cases about : resp.slot with
  | none =>
      refine same_of_no_stages ?_
      dsimp only [eventStages]
      rw [about]
      rfl
  | some pb =>
      have stages : ∀ db nowMs, eventStages db ⟨.transfers resp, nowMs⟩ =
          handleTransfersStages (slotFromPb pb) (decodeTransfers resp (slotFromPb pb) nowMs) nowMs := by
        intro db nowMs
        dsimp only [eventStages]
        rw [about]
        rfl
      have rows := decodeTransfers_again resp (slotFromPb pb) firstMs againMs
      intro f
      cases f with
      | slots => exact sameSlots_unmoved (transfers_again about db firstMs againMs)
      | transfers =>
          refine sameTransfers_again ?_
          dsimp only [transferMove]
          rw [about]
          exact ⟨rfl, rows⟩
      | asyncMsgs =>
          refine sameContents_asyncMsgs indexed' indexed ?_
          have moved : ∀ db nowMs, contents (step db ⟨.transfers resp, nowMs⟩) .asyncMsgs =
              contents (reconcileAsyncFromTransfers db (slotFromPb pb)
                (decodeTransfers resp (slotFromPb pb) nowMs) nowMs) .asyncMsgs := by
            intro db nowMs
            rw [step_eq_stages, stages, contents_runAll]
            rfl
          have after := moved (step db ⟨.transfers resp, firstMs⟩) againMs
          rw [(reconcile_again rows _ againMs).1] at after
          have same := after.trans
            ((confined_reconcileAsyncFromTransfers _ _ againMs).own _ _ (moved db firstMs))
          have reads := asyncMsgs_again (slotFromPb pb) (decodeTransfers resp (slotFromPb pb) firstMs)
            firstMs againMs db
          rw [show (step (step db _) _).asyncMsgs = _ from congrArg (fun c : Contents .asyncMsgs => c.1) same,
            show (step db _).asyncMsgs = _ from
              congrArg (fun c : Contents .asyncMsgs => c.1) (moved db firstMs)]
          exact reads
      | deferredCalls =>
          refine sameContents_deferredCalls indexed' indexed ?_
          have moved : ∀ db nowMs, contents (step db ⟨.transfers resp, nowMs⟩) .deferredCalls =
              contents (reconcileDeferredFromTransfers db (slotFromPb pb)
                (decodeTransfers resp (slotFromPb pb) nowMs) nowMs) .deferredCalls := by
            intro db nowMs
            rw [step_eq_stages, stages, contents_runAll]
            rfl
          have after := moved (step db ⟨.transfers resp, firstMs⟩) againMs
          rw [(reconcile_again rows _ againMs).2] at after
          have same := after.trans
            ((confined_reconcileDeferredFromTransfers _ _ againMs).own _ _ (moved db firstMs))
          have reads := deferredCalls_again (slotFromPb pb)
            (decodeTransfers resp (slotFromPb pb) firstMs) firstMs againMs db
          rw [show (step (step db _) _).deferredCalls = _ from
              congrArg (fun c : Contents .deferredCalls => c.1) same,
            show (step db _).deferredCalls = _ from
              congrArg (fun c : Contents .deferredCalls => c.1) (moved db firstMs)]
          exact reads
      | _ =>
          refine same_elsewhere ?_
          rw [stages]
          simp [handleTransfersStages]

/-! ### Answers of a peer -/

/-- The rows of a delivered body go to their own families, past every other part of the answer. -/
theorem entered_peer {f : Family} (own : f = .endorsements ∨ f = .ops ∨ f = .denunciations)
    {resp : FinalSlotResponse} {s : Slot} (about : slotOf resp = some s) (known : resp.finalKnown = true)
    {p : Patching} {nowMs : Int} (taken : reconcileVerdict db s (rowAt db s nowMs) resp = .proceed p)
    {block : StoredBlock} (delivered : deliveredBlock resp = some block) :
    contents (step db ⟨.peerPatch resp, nowMs⟩) f =
      contents (Stage.runAll (blockStages resp block nowMs) db) f := by
  show contents (applyPeerPatch db resp nowMs).1 f = _
  rw [applyPeerPatch_eq about known, taken]
  have start : contents p.db f = contents db f :=
    (proceeds_of_reconcileVerdict taken).frame (by rcases own with rfl | rfl | rfl <;> decide)
  dsimp only
  rw [Stage.view_runAll_congr _ start, contents_runAll (blockStages resp block nowMs) db,
    peerPartStages, bodyStages, delivered]
  rcases own with rfl | rfl | rfl <;> cases takesExec resp p.state <;>
    cases takesTransfers resp p.state <;> rfl

/-- A body that comes again leaves the rows it left. -/
theorem sameRows_body (resp : FinalSlotResponse) (block : StoredBlock) (firstMs againMs : Int)
    {db₁ db₂ : Db} (maintained : Maintained db₁) (maintained' : Maintained db₂) {f : Family}
    (own : f = .endorsements ∨ f = .ops ∨ f = .denunciations)
    (left : contents db₁ f = contents (Stage.runAll (blockStages resp block firstMs) db) f)
    (left' : contents db₂ f = contents (Stage.runAll (blockStages resp block againMs) db₁) f) :
    SameContents f (contents db₂ f) (contents db₁ f) := by
  rw [contents_runAll] at left
  rw [contents_runAll] at left'
  rcases own with rfl | rfl | rfl
  · have both := left'.trans (Stage.view_runAll_congr _ left)
    refine sameContents_endorsements maintained' maintained fun e => congrArg _ ?_
    rw [sameReadEndorsement both, sameReadEndorsement left]
    exact readEndorsement_again resp.endorsements db e
  · have both := left'.trans (Stage.view_runAll_congr _ left)
    refine sameContents_ops maintained' maintained fun id => congrArg _ ?_
    rw [sameReadOp both, sameReadOp left]
    exact readOp_again resp.operations db id
  · have both := left'.trans (Stage.view_runAll_congr _ left)
    refine sameContents_denunciations maintained' maintained fun k => congrArg _ ?_
    rw [sameReadDenunciation both, sameReadDenunciation left]
    exact readDenunciation_again block.id block.denunciations firstMs againMs db k

/-- A response that is turned away again only touches the row. -/
theorem sameButClock_turnedAway {resp : FinalSlotResponse} {s : Slot} (about : slotOf resp = some s)
    (known : resp.finalKnown = true) (db : Db) (firstMs againMs : Int) {out : PatchOutcome}
    (away : reconcileVerdict db s (rowAt db s firstMs) resp = .turnedAway out)
    (awayAgain : reconcileVerdict (step db ⟨.peerPatch resp, firstMs⟩) s
      (rowAt (step db ⟨.peerPatch resp, firstMs⟩) s againMs) resp = .turnedAway out) :
    SameButClock (step (step db ⟨.peerPatch resp, firstMs⟩) ⟨.peerPatch resp, againMs⟩)
      (step db ⟨.peerPatch resp, firstMs⟩) := by
  have moved := rowMove_peer about known db firstMs
  have moved' := rowMove_peer about known (step db ⟨.peerPatch resp, firstMs⟩) againMs
  rw [away] at moved
  rw [awayAgain] at moved'
  have left := rowAt_moved moved againMs
  rw [show (peerMove (rowAt db s firstMs) resp firstMs (.turnedAway out)).row.slot = s from
    slot_rowAt db s firstMs] at left
  intro f
  cases f with
  | slots =>
      refine sameSlots_again moved moved' ?_ (by rintro ⟨⟩)
      rw [left]
      simp [peerMove, timelessSlot, readBackSlotState]
  | _ =>
      refine same_elsewhere ?_
      dsimp only [eventStages]
      rw [known, if_pos rfl, about, Option.elim_some, awayAgain]
      simp [peerStages, Write.family]

/-- A response that proceeds finds the row it left, and brings at most its body again. -/
theorem sameButClock_proceeds {resp : FinalSlotResponse} {s : Slot} (about : slotOf resp = some s)
    (known : resp.finalKnown = true) (events : List Timed) (firstMs againMs : Int) {p : Patching}
    (taken : reconcileVerdict (ingest events) s (rowAt (ingest events) s firstMs) resp = .proceed p)
    (left : rowAt (step (ingest events) ⟨.peerPatch resp, firstMs⟩) s againMs =
      readBackSlotState { peerRow resp p.state with lastUpdatedTsMs := firstMs })
    (stands : Stands (step (ingest events) ⟨.peerPatch resp, firstMs⟩) s
      (rowAt (step (ingest events) ⟨.peerPatch resp, firstMs⟩) s againMs) resp) :
    SameButClock (step (step (ingest events) ⟨.peerPatch resp, firstMs⟩) ⟨.peerPatch resp, againMs⟩)
      (step (ingest events) ⟨.peerPatch resp, firstMs⟩) := by
  have maintained := maintained_step events ⟨.peerPatch resp, firstMs⟩
  have maintained' := maintained_step (events ++ [⟨.peerPatch resp, firstMs⟩]) ⟨.peerPatch resp, againMs⟩
  rw [ingest_concat] at maintained'
  have moved := rowMove_peer about known (ingest events) firstMs
  have moved' := rowMove_peer about known (step (ingest events) ⟨.peerPatch resp, firstMs⟩) againMs
  rw [taken] at moved
  rw [stands.meets] at moved'
  have stages : eventStages (step (ingest events) ⟨.peerPatch resp, firstMs⟩)
      ⟨.peerPatch resp, againMs⟩ = bodyStages resp againMs (deliveredBlock resp) ++
        closingStages s (rowAt (step (ingest events) ⟨.peerPatch resp, firstMs⟩) s againMs) againMs := by
    dsimp only [eventStages]
    rw [known, if_pos rfl, about, Option.elim_some, stands.meets, peerStages, peerPartStages]
    dsimp only
    rw [stands.exec, stands.transfers, stands.kept]
    simp [openingStages]
  have body : ∀ {f}, f = .endorsements ∨ f = .ops ∨ f = .denunciations →
      SameContents f
        (contents (step (step (ingest events) ⟨.peerPatch resp, firstMs⟩) ⟨.peerPatch resp, againMs⟩) f)
        (contents (step (ingest events) ⟨.peerPatch resp, firstMs⟩) f) := by
    intro f own
    cases delivered : deliveredBlock resp with
    | none =>
        refine same_elsewhere ?_
        rw [stages, delivered]
        rcases own with rfl | rfl | rfl <;> simp [bodyStages, closingStages, Write.family]
    | some block =>
        exact sameRows_body resp block firstMs againMs maintained maintained' own
          (entered_peer own about known taken delivered)
          (entered_peer own about known stands.meets delivered)
  intro f
  cases f with
  | slots =>
      refine sameSlots_again moved moved' ?_ id
      rw [peerMove, peerMove]
      dsimp only
      rw [stands.kept, left]
      simp [timelessSlot, readBackSlotState]
  | blocks =>
      refine sameBlocks_again events _ _ ?_
      have move : ∀ db nowMs, blockMove db ⟨.peerPatch resp, nowMs⟩ = peerBlockMove (rowAt db s nowMs) resp
          (reconcileVerdict db s (rowAt db s nowMs) resp) := by
        intro db nowMs
        simp [blockMove, known, about]
      rw [move, move, taken, stands.meets]
      refine ⟨rfl, rfl, .inr rfl, ?_⟩
      simp only [peerBlockMove]
      rw [stands.kept, left]
      rfl
  | endorsements => exact body (.inl rfl)
  | ops => exact body (.inr (.inl rfl))
  | denunciations => exact body (.inr (.inr rfl))
  | _ =>
      refine same_elsewhere ?_
      rw [stages]
      cases deliveredBlock resp <;> simp [bodyStages, blockStages, closingStages, Write.family]

theorem sameButClock_peer (events : List Timed) (resp : FinalSlotResponse) (firstMs againMs : Int) :
    SameButClock (step (step (ingest events) ⟨.peerPatch resp, firstMs⟩) ⟨.peerPatch resp, againMs⟩)
      (step (ingest events) ⟨.peerPatch resp, firstMs⟩) := by
  cases known : resp.finalKnown with
  | false =>
      refine same_of_no_stages ?_
      dsimp only [eventStages]
      rw [known]
      rfl
  | true =>
      cases about : slotOf resp with
      | none =>
          refine same_of_no_stages ?_
          dsimp only [eventStages]
          rw [known, about]
          rfl
      | some s =>
          rcases peer_again about known (ingest events) firstMs againMs with
            ⟨out, away, awayAgain⟩ | ⟨p, taken, left, stands⟩
          · exact sameButClock_turnedAway about known _ firstMs againMs away awayAgain
          · exact sameButClock_proceeds about known events firstMs againMs taken left stands

/-! ### Answers of the archive -/

/-- The archive's answer finds its body stored, and files its transfers where they are. -/
theorem sameButClock_archive {resp : FinalSlotResponse} {s : Slot} (about : slotOf resp = some s)
    (known : resp.finalKnown = true) (events : List Timed) (firstMs againMs : Int) :
    SameButClock (step (step (ingest events) ⟨.legacyPatch resp, firstMs⟩) ⟨.legacyPatch resp, againMs⟩)
      (step (ingest events) ⟨.legacyPatch resp, firstMs⟩) := by
  obtain ⟨settled, left, body, same⟩ := legacy_again about known (ingest events) firstMs againMs
  have promoted : legacyPromoted resp (rowAt (step (ingest events) ⟨.legacyPatch resp, firstMs⟩) s againMs) =
      rowAt (step (ingest events) ⟨.legacyPatch resp, firstMs⟩) s againMs :=
    if_neg (not_not.mpr settled)
  have delivers : legacyBody resp (legacyPromoted resp
      (rowAt (step (ingest events) ⟨.legacyPatch resp, firstMs⟩) s againMs)) = none := by
    rw [promoted, body]
  have moved : ∀ db nowMs, rowMove db ⟨.legacyPatch resp, nowMs⟩ =
      some ⟨{ legacyRow resp (legacyPromoted resp (rowAt db s nowMs)) with
        lastUpdatedTsMs := nowMs }, true⟩ := by
    intro db nowMs
    dsimp only [rowMove]
    rw [if_pos known, about]
    rfl
  intro f
  cases f with
  | slots =>
      refine sameSlots_again (moved _ _) (moved _ _) ?_ id
      dsimp only
      rw [promoted, same, left]
      simp [timelessSlot, readBackSlotState]
  | blocks =>
      refine sameBlocks_again events _ _ ?_
      have move : ∀ db nowMs, blockMove db ⟨.legacyPatch resp, nowMs⟩ =
          legacyBlockMove resp (rowAt db s nowMs) := by
        intro db nowMs
        simp [blockMove, known, about]
      rw [move, move, legacyBlockMove, legacyBlockMove, promoted, same]
      refine ⟨rfl, rfl, .inl body, ?_⟩
      dsimp only
      rw [left]
      rfl
  | transfers =>
      refine sameTransfers_again ?_
      have move : ∀ db nowMs, transferMove db ⟨.legacyPatch resp, nowMs⟩ = ⟨none, decodedTransfers resp⟩ := by
        intro db nowMs
        simp [transferMove, known, about]
      rw [move, move]
      exact ⟨rfl, rfl⟩
  | _ =>
      refine same_elsewhere ?_
      dsimp only [eventStages]
      rw [known, if_pos rfl, about, Option.elim_some, legacyStages, legacyPartStages, delivers,
        if_neg (not_not.mpr settled)]
      split <;> simp [bodyStages, Write.family]

theorem sameButClock_legacy (events : List Timed) (resp : FinalSlotResponse) (firstMs againMs : Int) :
    SameButClock (step (step (ingest events) ⟨.legacyPatch resp, firstMs⟩) ⟨.legacyPatch resp, againMs⟩)
      (step (ingest events) ⟨.legacyPatch resp, firstMs⟩) := by
  cases known : resp.finalKnown with
  | false =>
      refine same_of_no_stages ?_
      dsimp only [eventStages]
      rw [known]
      rfl
  | true =>
      cases about : slotOf resp with
      | none =>
          refine same_of_no_stages ?_
          dsimp only [eventStages]
          rw [known, about]
          rfl
      | some s => exact sameButClock_archive about known events firstMs againMs

/-! ### Blocks of the node -/

omit [DenunciationDigest] in
/-- The block and its slot, written over a store that holds what the message brings. -/
theorem sameContents_stored {w db₁ db₂ : Db} {head : BlockHead} {es es' : List StoredEndorsement}
    {ids : List OperationId} {firstMs againMs : Int} (maintained : Maintained db₁)
    (maintained' : Maintained db₂) (same : es'.map timelessEndorsement = es.map timelessEndorsement)
    (left : db₁ = Stage.runAll (storedBlockStages (rowAt w head.slot firstMs) head es ids firstMs) w)
    (left' : db₂ = Stage.runAll (storedBlockStages (rowAt db₁ head.slot againMs) head es' ids againMs) db₁) :
    SameButClock db₂ db₁ := by
  have filed : ∀ {db db' : Db} {es nowMs}, db' = Stage.runAll
      (storedBlockStages (rowAt db head.slot nowMs) head es ids nowMs) db →
      contents db' .slots = contents (RowMove.file nowMs db
        ⟨bodySeen (rowAt db head.slot nowMs) head.id nowMs, true⟩) .slots := by
    intro db db' es nowMs here
    have slot : (bodySeen (rowAt db head.slot nowMs) head.id nowMs).slot = head.slot :=
      (slot_bodySeen _ _ _).trans (slot_rowAt db head.slot nowMs)
    rw [here, contents_runAll, RowMove.file_stub (s := head.slot) slot rfl]
    rfl
  have seen : ∀ {db db' : Db} {es nowMs}, db' = Stage.runAll
      (storedBlockStages (rowAt db head.slot nowMs) head es ids nowMs) db →
      contents db' .blocks = contents (db.writeBlock (seenBlock db head es ids
        (initialBlockStatus (rowAt db head.slot nowMs) head.id) nowMs)) .blocks := by
    intro db db' es nowMs here
    rw [here, contents_runAll]
    rfl
  have row : rowAt db₁ head.slot againMs =
      readBackSlotState (bodySeen (rowAt w head.slot firstMs) head.id firstMs) := by
    have slot : (bodySeen (rowAt w head.slot firstMs) head.id firstMs).slot = head.slot :=
      (slot_bodySeen _ _ _).trans (slot_rowAt w head.slot firstMs)
    rw [rowAt, sameReadSlot (filed left), readSlot_file, if_pos slot, Option.getD_some]
  intro f
  cases f with
  | slots =>
      refine sameSlots_filed (filed left) (filed left') ?_ id
      rw [row]
      exact bodySeen_again ..
  | blocks =>
      have initial : initialBlockStatus (rowAt db₁ head.slot againMs) head.id =
          initialBlockStatus (rowAt w head.slot firstMs) head.id := by
        rw [row, initialBlockStatus_again]
      have first := seen left
      have second := seen left'
      rw [initial] at second
      have held := sameReadBlock first head.id
      rw [Db.readBlock_writeBlock, if_pos (id_seenBlock ..)] at held
      generalize initialBlockStatus (rowAt w head.slot firstMs) head.id = status at first second held
      have again : timelessBlock (seenBlock db₁ head es' ids status againMs) =
          timelessBlock (seenBlock w head es ids status firstMs) := seenBlock_again held same
      have own : (seenBlock db₁ head es' ids status againMs).id = head.id :=
        id_seenBlock db₁ es' ids status againMs
      refine sameContents_blocks maintained' maintained ?_ fun b => ?_
      · have there : db₁.readBlock (seenBlock db₁ head es' ids status againMs).id =
            some (seenBlock w head es ids status firstMs) := by rw [own, held]
        have slot := (congrArg StoredBlock.slot again :)
        have kept := (samePointers_writeBlock there slot.symm maintained.pointers).2
        exact (congrArg (fun c : Contents .blocks => c.2.2) second).trans kept
      · rw [sameReadBlock second b, Db.readBlock_writeBlock, own]
        split
        · next here =>
            rw [← here, held]
            exact congrArg some again
        · rfl
  | _ =>
      rw [left']
      exact sameContents_of_eq (Stage.view_runAll_of_absent (by simp [storedBlockStages, Write.family]) _)

theorem sameButClock_block (events : List Timed) (fb : FilledBlock) (firstMs againMs : Int) :
    SameButClock (step (step (ingest events) ⟨.block fb, firstMs⟩) ⟨.block fb, againMs⟩)
      (step (ingest events) ⟨.block fb, firstMs⟩) := by
  have maintained := maintained_step events ⟨.block fb, firstMs⟩
  have maintained' := maintained_step (events ++ [⟨.block fb, firstMs⟩]) ⟨.block fb, againMs⟩
  rw [ingest_concat] at maintained'
  generalize ingest events = db at *
  cases decoded : decodeHead fb with
  | error err =>
      refine same_of_no_stages ?_
      dsimp only [eventStages]
      rw [decoded]
  | ok head =>
      have restamped := endorsements_restamp head firstMs againMs
      have resolves := mapM_resolve_restamp (head.endorsements firstMs) againMs
      rw [show (head.endorsements firstMs).map (restamp againMs) = _ from restamped] at resolves
      by_cases taken : (written head firstMs db fb.operations).2 = none ∧
          ∃ es, (head.endorsements firstMs).mapM resolveEndorsement = .ok es
      · obtain ⟨clean, es, resolved⟩ := taken
        have left := handleBlock_stored decoded clean resolved
        have kept : ∀ a : Item, contents (step db ⟨.block fb, firstMs⟩) a.family =
            contents (written head firstMs db fb.operations).1 a.family := by
          intro a
          show contents (handleBlock db fb firstMs).db _ = _
          rw [left]
          refine Stage.view_runAll_of_absent ?_ _
          cases a <;> simp [storedBlockStages, Write.family, Item.family]
        have clean' : written head againMs (step db ⟨.block fb, firstMs⟩) fb.operations =
            (step db ⟨.block fb, firstMs⟩, none) := written_taken clean kept
        rw [resolved] at resolves
        have ended : (written head againMs (step db ⟨.block fb, firstMs⟩) fb.operations).2 = none := by
          rw [clean']
        have left' := handleBlock_stored decoded ended resolves
        rw [clean'] at left'
        refine sameContents_stored maintained maintained' ?_ left left'
        rw [List.map_map]
        rfl
      · have refused := handleBlock_refused decoded db taken
        have left : step db ⟨.block fb, firstMs⟩ = (written head firstMs db fb.operations).1 := refused.1
        obtain ⟨same, ended⟩ : _ ∧ ((written head againMs _ fb.operations).2 = none ↔ _) :=
          written_again fb.operations firstMs againMs db
        rw [← left] at same ended
        have taken' : ¬ ((written head againMs (step db ⟨.block fb, firstMs⟩) fb.operations).2 = none ∧
            ∃ es, (head.endorsements againMs).mapM resolveEndorsement = .ok es) := by
          rintro ⟨clean, es, resolved⟩
          refine taken ⟨ended.mp clean, ?_⟩
          rw [resolves] at resolved
          cases first : (head.endorsements firstMs).mapM resolveEndorsement with
          | ok es => exact ⟨es, rfl⟩
          | error err =>
              rw [first] at resolved
              cases resolved
        have left' := (handleBlock_refused decoded (step db ⟨.block fb, firstMs⟩) taken').1
        rw [same] at left'
        rw [show step (step db ⟨.block fb, firstMs⟩) ⟨.block fb, againMs⟩ = _ from left']
        exact sameButClock_refl _

/-! ## The law -/

/-- **An event delivered twice in a row leaves the store that it leaves when it is delivered once**, but
for the times of first sighting and last update: whatever came before, whether the event is well formed
or not, and whenever it comes again. -/
theorem event_idempotent (events : List Timed) (event : Event) (firstMs againMs : Int) :
    SameButClock (ingest (events ++ [⟨event, firstMs⟩, ⟨event, againMs⟩]))
      (ingest (events ++ [⟨event, firstMs⟩])) := by
  have twice : ingest (events ++ [⟨event, firstMs⟩, ⟨event, againMs⟩]) =
      step (step (ingest events) ⟨event, firstMs⟩) ⟨event, againMs⟩ := run_append ..
  rw [twice, ingest_concat]
  cases event with
  | block fb => exact sameButClock_block events fb firstMs againMs
  | exec out => exact sameButClock_exec events out firstMs againMs
  | transfers resp => exact sameButClock_transfers events resp firstMs againMs
  | peerPatch resp => exact sameButClock_peer events resp firstMs againMs
  | legacyPatch resp => exact sameButClock_legacy events resp firstMs againMs
  | forcedVerdict resp => exact same_of_no_stages (forced_again _ resp firstMs againMs)
  | tick => exact sameButClock_refl _

end Events

end MassaIndexer.Laws.EventIdempotence
