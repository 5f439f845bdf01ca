/-
# Laws.IndexRebuild -- the rebuilt indexes and the maintained ones

The rebuild leaves every row as it is, makes each secondary index the image of its rows and does nothing the
second time (`rebuild_exact`). The indexes of blocks, endorsements, operations and denunciations are that
image in every store the writer reaches: a row keeps its indexed fields from its first write on -- a block its
creator and slot, an operation its creator, target and first inclusion -- since each handler writes back the
row it has read, or a new one where there was none (`entries_stay`, stage by stage).
-/
import MassaIndexer.Store.Rebuild
import MassaIndexer.Writer.Stages

namespace MassaIndexer.Laws.IndexRebuild

open MassaIndexer.Theory.Footprint MassaIndexer.Theory.KeyedTable MassaIndexer.Theory.Runs
open MassaIndexer.Data.Ids MassaIndexer.Data.Model MassaIndexer.Data.Proto MassaIndexer.Data.Keys
open MassaIndexer.Data.KeyOrder MassaIndexer.Data.Codec MassaIndexer.Data.RowCodec
open MassaIndexer.Store.ColumnFamilies MassaIndexer.Store.Footprint MassaIndexer.Store.Indexes
open MassaIndexer.Store.Rebuild
open MassaIndexer.Writer.NodeProto MassaIndexer.Writer.NodeDecode
open MassaIndexer.Writer.Shared MassaIndexer.Writer.Handlers MassaIndexer.Writer.Step
open MassaIndexer.Writer.Families MassaIndexer.Writer.Patches MassaIndexer.Writer.RowMoves
open MassaIndexer.Writer.Stages MassaIndexer.Peer.Patch

set_option autoImplicit false

/-! ## The rebuild -/

/-- The same rows and head markers. -/
structure SameRows (db db' : Db) : Prop where
  slots : db'.slots = db.slots
  blocks : db'.blocks = db.blocks
  endorsements : db'.endorsements = db.endorsements
  ops : db'.ops = db.ops
  scEvents : db'.scEvents = db.scEvents
  denunciations : db'.denunciations = db.denunciations
  transfers : db'.transfers = db.transfers
  asyncMsgs : db'.asyncMsgs = db.asyncMsgs
  deferredCalls : db'.deferredCalls = db.deferredCalls
  lastFinalSlot : db'.lastFinalSlot = db.lastFinalSlot
  lastCandidateSlot : db'.lastCandidateSlot = db.lastCandidateSlot

section Rebuild

variable [Bs58Check] (db : Db)

theorem sameRows_rebuild : SameRows db (rebuildSecondaryIndexes db) := by
  rw [rebuild_eq]
  exact ⟨rfl, rfl, rfl, rfl, rfl, rfl, rfl, rfl, rfl, rfl, rfl⟩

/-- **After a rebuild every secondary index is the image of its rows.** -/
theorem rebuild_exact : IndexesExact (rebuildSecondaryIndexes db) := by
  rw [rebuild_eq]
  constructor <;> exact exact_rebuild _ _

theorem rebuild_idempotent :
    rebuildSecondaryIndexes (rebuildSecondaryIndexes db) = rebuildSecondaryIndexes db := by
  rw [rebuild_eq (rebuildSecondaryIndexes db), rebuild_eq db]
  dsimp only
  rw [enterAll_enterAll]

/-- The pointers from slots to blocks gain those of the stored blocks. -/
theorem pointers_rebuild (k : Bytes) : k ∈ (rebuildSecondaryIndexes db).slotCandidateBlock ↔
    (∃ b, db.blocks.Holds b ∧ k ∈ slotBlockKeys b) ∨ k ∈ db.slotCandidateBlock := by
  rw [rebuild_eq]
  show k ∈ enterAll slotBlockKeys db.blocks.toList db.slotCandidateBlock ↔ _
  rw [enterAll, Index.mem_foldl_insertAll]
  simp only [Table.holds_iff_mem]

end Rebuild

/-! ## The maintained indexes -/

/-- The indexes of blocks, endorsements, operations and denunciations are the image of the rows. -/
structure Maintained (db : Db) : Prop where
  blockByCreator : Exact blockCreatorKeys db.blocks db.blockByCreator
  pointers : Covers slotBlockKeys db.blocks db.slotCandidateBlock
  endorsementByCreator : Exact endorsementCreatorKeys db.endorsements db.endorsementByCreator
  opByCreator : Exact opCreatorKeys db.ops db.opByCreator
  opByTarget : Exact opTargetKeys db.ops db.opByTarget
  denunciationByAddr : Exact denunciationAddrKeys db.denunciations db.denunciationByAddr
  denunciationRecent : Exact denunciationRecentKeys db.denunciations db.denunciationRecent

theorem maintained_empty : Maintained Db.empty :=
  ⟨exact_empty _, (exact_empty slotBlockKeys).covers, exact_empty _, exact_empty _, exact_empty _,
    exact_empty _, exact_empty _⟩

/-- A procedure that keeps them so. -/
def Keeps (P : Db → Db) : Prop := ∀ db, Maintained db → Maintained (P db)

theorem Keeps.foldl {α : Type} {f : Db → α → Db} {l : List α} (each : ∀ a ∈ l, Keeps (f · a)) :
    Keeps (l.foldl f ·) := by
  induction l with
  | nil => exact fun db maintained => maintained
  | cons a l ih =>
      intro db maintained
      exact ih (fun b member => each b (List.mem_cons_of_mem a member)) _
        (each a List.mem_cons_self db maintained)

theorem Keeps.comp {P Q : Db → Db} (second : Keeps Q) (first : Keeps P) : Keeps fun db => Q (P db) :=
  fun db maintained => second _ (first db maintained)

variable {db : Db}

/-- What the four families hold decides. -/
theorem maintained_of_contents {db' : Db} (maintained : Maintained db)
    (blocks : contents db' .blocks = contents db .blocks)
    (endorsements : contents db' .endorsements = contents db .endorsements)
    (ops : contents db' .ops = contents db .ops)
    (denunciations : contents db' .denunciations = contents db .denunciations) : Maintained db' := by
  simp only [contents, Prod.mk.injEq] at blocks endorsements ops denunciations
  obtain ⟨b, b₁, b₂⟩ := blocks
  obtain ⟨e, e₁⟩ := endorsements
  obtain ⟨o, o₁, o₂⟩ := ops
  obtain ⟨d, d₁, d₂⟩ := denunciations
  constructor
  · rw [b, b₁]
    exact maintained.blockByCreator
  · rw [b, b₂]
    exact maintained.pointers
  · rw [e, e₁]
    exact maintained.endorsementByCreator
  · rw [o, o₁]
    exact maintained.opByCreator
  · rw [o, o₂]
    exact maintained.opByTarget
  · rw [d, d₁]
    exact maintained.denunciationByAddr
  · rw [d, d₂]
    exact maintained.denunciationRecent

/-- A procedure confined to another family. -/
theorem keeps_of_confined {f : Family} {P : Db → Db} (confined : ConfinedTo f P)
    (other : [Family.blocks, .endorsements, .ops, .denunciations].contains f = false) : Keeps P := by
  intro db maintained
  have apart : ∀ g ∈ [Family.blocks, .endorsements, .ops, .denunciations], g ≠ f := by
    rintro g member rfl
    rw [List.contains_iff_mem.mpr member] at other
    cases other
  exact maintained_of_contents maintained (confined.frame db _ (apart _ (by simp)))
    (confined.frame db _ (apart _ (by simp))) (confined.frame db _ (apart _ (by simp)))
    (confined.frame db _ (apart _ (by simp)))

/-! ### Stages -/

/-- Every stage of a list keeps the indexes. -/
def AllKeep (stages : List FamilyStage) : Prop := ∀ stage ∈ stages, Keeps stage.act

theorem allKeep_nil : AllKeep [] := fun _ member => by cases member

theorem allKeep_cons {first : FamilyStage} {stages : List FamilyStage} (one : Keeps first.act)
    (rest : AllKeep stages) : AllKeep (first :: stages) := by
  intro stage member
  rcases List.mem_cons.mp member with rfl | later
  · exact one
  · exact rest stage later

theorem allKeep_append {before after : List FamilyStage} (left : AllKeep before)
    (right : AllKeep after) : AllKeep (before ++ after) := by
  intro stage member
  rcases List.mem_append.mp member with inBefore | inAfter
  · exact left stage inBefore
  · exact right stage inAfter

theorem AllKeep.runAll {stages : List FamilyStage} (all : AllKeep stages) (maintained : Maintained db) :
    Maintained (Stage.runAll stages db) := by
  induction stages generalizing db with
  | nil => exact maintained
  | cons first stages ih =>
      exact ih (fun stage member => all stage (List.mem_cons_of_mem first member))
        (all first List.mem_cons_self db maintained)

/-- A stage of another family. -/
theorem keeps_stage {f : Family} {P : Db → Db} (confined : ConfinedTo f P)
    (other : [Family.blocks, .endorsements, .ops, .denunciations].contains f = false) :
    Keeps (stage confined).act := keeps_of_confined confined other

/-! ### Blocks -/

theorem entries_slotBlock : Entries slotBlockKeys :=
  .of_read (fun k => some (k.drop slotKeyLen)) (fun _ => rfl) fun b k entered => by
    obtain rfl := List.mem_singleton.mp entered
    exact congrArg some (List.drop_left' (length_slotKey b.slot))

/-- A block written over one of the same creator and slot, or where there was none. -/
theorem maintained_writeBlock (maintained : Maintained db) {block : StoredBlock}
    (kept : ∀ old, db.readBlock block.id = some old →
      old.creator = block.creator ∧ old.slot = block.slot) : Maintained (db.writeBlock block) where
  blockByCreator := by
    refine (exact_put_iff entries_blockCreator maintained.blockByCreator block).mpr ?_
    intro old found k entered
    obtain ⟨creator, slot⟩ := kept old found
    have id : old.id = block.id := Db.id_of_readBlock found
    rwa [blockCreatorKeys, creator, slot, id] at entered
  pointers := covers_put entries_slotBlock maintained.pointers block
  endorsementByCreator := maintained.endorsementByCreator
  opByCreator := maintained.opByCreator
  opByTarget := maintained.opByTarget
  denunciationByAddr := maintained.denunciationByAddr
  denunciationRecent := maintained.denunciationRecent

theorem keeps_settleBlock (b : BlockId) (status : BlockStatus) : Keeps (settleBlock · b status) := by
  intro db maintained
  show Maintained (settleBlock db b status)
  rw [settleBlock]
  cases found : db.readBlock b with
  | none => exact maintained
  | some block =>
      dsimp only
      split
      · refine maintained_writeBlock maintained fun old found' => ?_
        have same : db.readBlock block.id = some block := by rw [Db.id_of_readBlock found, found]
        obtain rfl := Option.some.inj (same.symm.trans found')
        exact ⟨rfl, rfl⟩
      · exact maintained

theorem keeps_applyFinality (final : Option BlockId) (candidates : List BlockId) :
    Keeps (applyFinalityToBlocks · final candidates) := by
  have settled : Keeps (candidates.foldl (fun db bid => settleBlock db bid
      (if some bid = final then .final else .discarded)) ·) :=
    .foldl fun bid _ => keeps_settleBlock bid _
  intro db maintained
  show Maintained (applyFinalityToBlocks db final candidates)
  unfold applyFinalityToBlocks
  cases final with
  | none => exact settled db maintained
  | some bid =>
      dsimp only
      split
      · exact settled db maintained
      · exact keeps_settleBlock bid .final _ (settled db maintained)

/-- The row of a block that is there keeps its creator and slot. -/
theorem keeps_seenBlock [Bs58Check] (head : BlockHead) (endorsements : List StoredEndorsement)
    (operationIds : List OperationId) (initial : BlockStatus) (nowMs : Int) :
    Keeps fun db => db.writeBlock (seenBlock db head endorsements operationIds initial nowMs) := by
  intro db maintained
  refine maintained_writeBlock maintained fun old found => ?_
  cases prior : db.readBlock head.id with
  | none =>
      have absent : db.readBlock (seenBlock db head endorsements operationIds initial nowMs).id = none := by
        rw [seenBlock, prior]
        exact prior
      rw [absent] at found
      cases found
  | some block =>
      have row : (seenBlock db head endorsements operationIds initial nowMs).id = block.id ∧
          (seenBlock db head endorsements operationIds initial nowMs).creator = block.creator ∧
          (seenBlock db head endorsements operationIds initial nowMs).slot = block.slot := by
        rw [seenBlock, prior]
        exact ⟨rfl, rfl, rfl⟩
      rw [row.1, Db.id_of_readBlock prior, prior] at found
      obtain rfl := Option.some.inj found
      exact ⟨row.2.1.symm, row.2.2.symm⟩

theorem keeps_storeBlock (block : StoredBlock) :
    Keeps fun db => if (db.readBlock block.id).isNone then db.writeBlock block else db := by
  intro db maintained
  dsimp only
  split
  · next absent =>
      refine maintained_writeBlock maintained fun old found => ?_
      rw [found] at absent
      cases absent
  · exact maintained

/-! ### Endorsements and denunciations -/

/-- The first row of an endorsement stays. -/
theorem keeps_writeEndorsement (e : StoredEndorsement) : Keeps (Db.writeEndorsement · e) := by
  intro db maintained
  show Maintained (db.writeEndorsement e)
  rw [Db.writeEndorsement]
  split
  · exact maintained
  · next absent =>
      have none : db.endorsements.get (Row.key e) = none := Option.not_isSome_iff_eq_none.mp absent
      exact { maintained with
        endorsementByCreator := exact_new entries_endorsementCreator maintained.endorsementByCreator none }

theorem keeps_applyEndorsement (pb : StoredEndorsementPb) : Keeps (applyEndorsement · pb) := by
  intro db maintained
  show Maintained (applyEndorsement db pb)
  unfold applyEndorsement
  split
  · exact maintained
  · exact keeps_writeEndorsement _ db maintained

/-- The first row of a denunciation stays, but for the block that includes it. -/
theorem keeps_writeDenunciation (d : StoredDenunciationEntry) : Keeps (Db.writeDenunciation · d) := by
  intro db maintained
  show Maintained (db.writeDenunciation d)
  rw [Db.writeDenunciation]
  cases found : db.readDenunciation d.hash with
  | none =>
      exact { maintained with
        denunciationByAddr := exact_new entries_denunciationAddr maintained.denunciationByAddr found
        denunciationRecent := exact_new entries_denunciationRecent maintained.denunciationRecent found }
  | some prev =>
      dsimp only
      split
      · have hash : prev.hash = d.hash := Table.key_of_get found
        have there : db.denunciations.get prev.hash = some prev := by rw [hash]; exact found
        exact { maintained with
          denunciationByAddr := exact_put_same entries_denunciationAddr maintained.denunciationByAddr there rfl
          denunciationRecent :=
            exact_put_same entries_denunciationRecent maintained.denunciationRecent there rfl }
      · exact maintained

theorem keeps_denunciations {α : Type} (entry : α → StoredDenunciationEntry) (l : List α) :
    Keeps (l.foldl (fun db d => db.writeDenunciation (entry d)) ·) :=
  .foldl fun d _ => keeps_writeDenunciation (entry d)

/-! ### Operations -/

/-- An operation written over one of the same creator and target whose first inclusion, if it had one, is
the first still; or where there was none. -/
theorem maintained_writeOp (maintained : Maintained db) {op : StoredOperation}
    (kept : ∀ old, db.readOp op.id = some old → old.creator = op.creator ∧ old.target = op.target ∧
      ∀ first, old.inclusions.head? = some first → op.inclusions.head? = some first) :
    Maintained (db.writeOp op) := by
  have byCreator := (exact_put_iff entries_opCreator maintained.opByCreator op).mpr
    fun old found k entered => by
      obtain ⟨creator, -, firsts⟩ := kept old found
      have id : old.id = op.id := Db.id_of_readOp found
      obtain ⟨first, included, rfl⟩ := Option.map_eq_some_iff.mp (Option.mem_toList.mp entered)
      rw [opCreatorKeys, firsts first included, creator, id]
      exact List.mem_singleton.mpr rfl
  have byTarget := (exact_put_iff entries_opTarget maintained.opByTarget op).mpr
    fun old found k entered => by
      obtain ⟨-, target, firsts⟩ := kept old found
      have id : old.id = op.id := Db.id_of_readOp found
      obtain ⟨first, included, aimed⟩ := Option.bind_eq_some_iff.mp (Option.mem_toList.mp entered)
      rw [opTargetKeys, firsts first included, ← target, ← id]
      exact Option.mem_toList.mpr aimed
  exact { maintained with opByCreator := byCreator, opByTarget := byTarget }

theorem head_recordInclusion (head : BlockHead) (op : StoredOperation) :
    (recordInclusion head op).id = op.id ∧ op.creator = (recordInclusion head op).creator ∧
      op.target = (recordInclusion head op).target ∧
      ∀ first, op.inclusions.head? = some first →
        (recordInclusion head op).inclusions.head? = some first := by
  unfold recordInclusion
  dsimp only
  split
  · exact ⟨rfl, rfl, rfl, fun first included => included⟩
  · refine ⟨rfl, rfl, rfl, fun first included => ?_⟩
    show (op.inclusions ++ _).head? = some first
    rw [List.head?_append, included]
    rfl

variable [Bs58Check]

theorem id_freshOperation {signedOp : SignedOperation} {id : OperationId} {thread : UInt8} {nowMs : Int}
    {op : StoredOperation} (fresh : freshOperation signedOp id thread nowMs = .ok op) : op.id = id := by
  unfold freshOperation at fresh
  split at fresh
  · cases fresh
  · dsimp only at fresh
    split at fresh
    · cases fresh
    · exact congrArg StoredOperation.id (Except.ok.inj fresh).symm

theorem keeps_ingestOperation (head : BlockHead) (nowMs : Int) (filled : FilledOperation) :
    Keeps fun db => (ingestOperation db head nowMs filled).db := by
  intro db maintained
  dsimp only
  unfold ingestOperation
  split
  · exact maintained
  · next signedOp _ =>
      split
      · exact maintained
      · next id _ =>
          cases found : db.readOp id with
          | some stored =>
              obtain ⟨ids, creator, target, firsts⟩ := head_recordInclusion head stored
              refine maintained_writeOp maintained fun old found' => ?_
              rw [ids, Db.id_of_readOp found, found] at found'
              obtain rfl := Option.some.inj found'
              exact ⟨creator, target, firsts⟩
          | none =>
              dsimp only
              cases fresh : freshOperation signedOp id head.slot.thread nowMs with
              | error err => exact maintained
              | ok stored =>
                  refine maintained_writeOp maintained fun old found' => ?_
                  rw [(head_recordInclusion head stored).1, id_freshOperation fresh, found] at found'
                  cases found'

theorem keeps_ingestOperations (head : BlockHead) (nowMs : Int) (ops : List FilledOperation) :
    Keeps fun db => (ingestOperations db head nowMs ops).db := by
  induction ops with
  | nil => exact fun db maintained => maintained
  | cons filled rest ih =>
      intro db maintained
      have one := keeps_ingestOperation head nowMs filled db maintained
      dsimp only at one ⊢
      unfold ingestOperations
      rcases taken : ingestOperation db head nowMs filled with ⟨next, result⟩
      rw [taken] at one
      cases result with
      | error err => exact one
      | ok id => exact ih next one

theorem keeps_applyExecutedOps (frame : ExecFrame) (exec : ExecutionOutput) :
    Keeps (applyExecutedOpsChanges frame · exec) := by
  have one : ∀ entry, Keeps (applyExecutedOp frame · entry) := by
    intro entry db maintained
    have back : ∀ (op op' : StoredOperation), db.readOp op.id = some op → op'.id = op.id →
        op'.creator = op.creator → op'.target = op.target → op'.inclusions = op.inclusions →
        Maintained (db.writeOp op') := by
      intro op op' found id creator target inclusions
      refine maintained_writeOp maintained fun old found' => ?_
      rw [id, found] at found'
      obtain rfl := Option.some.inj found'
      exact ⟨creator.symm, target.symm, fun first included => by rw [inclusions]; exact included⟩
    show Maintained (applyExecutedOp frame db entry)
    unfold applyExecutedOp
    split
    · exact maintained
    · next id _ =>
        split
        · next status op _ found =>
            have there : db.readOp op.id = some op := by rw [Db.id_of_readOp found, found]
            split
            · split
              · exact back op _ there rfl rfl rfl rfl
              · exact maintained
            · split
              · exact back op _ there rfl rfl rfl rfl
              · exact maintained
        · exact maintained
  unfold applyExecutedOpsChanges
  cases exec.stateChanges with
  | none => exact fun db maintained => maintained
  | some sc => exact .foldl fun entry _ => one entry

/-- A shipped operation fills in statuses, and inclusions where there are none. -/
theorem keeps_applyOperation (pb : StoredOperationPb) : Keeps (applyOperation · pb) := by
  intro db maintained
  show Maintained (applyOperation db pb)
  unfold applyOperation
  split
  · exact maintained
  · next op _ =>
      cases found : db.readOp op.id with
      | none =>
          refine maintained_writeOp maintained fun old found' => ?_
          rw [found] at found'
          cases found'
      | some localOp =>
          dsimp only
          split
          · refine maintained_writeOp maintained fun old found' => ?_
            have ids : (mergeOperation localOp op).id = localOp.id := by rw [mergeOperation_eq]
            rw [ids, Db.id_of_readOp found, found] at found'
            obtain rfl := Option.some.inj found'
            rw [mergeOperation_eq]
            refine ⟨rfl, rfl, fun first included => ?_⟩
            dsimp only
            rw [if_neg]
            · exact included
            · intro blank
              rw [List.isEmpty_iff.mp blank] at included
              cases included
          · exact maintained

theorem keeps_persistEndorsements (l : List SeenEndorsement) :
    Keeps fun db => (persistEndorsements db l).db := by
  induction l with
  | nil => exact fun db maintained => maintained
  | cons e es ih =>
      intro db maintained
      dsimp only
      unfold persistEndorsements
      cases written : db.writeSeenEndorsement e with
      | error err => exact maintained
      | ok next =>
          rcases Writer.Effects.writeSeenEndorsement_ok written with rfl | ⟨row, rfl⟩
          · exact ih next maintained
          · exact ih _ (keeps_writeEndorsement row db maintained)

/-! ### Stage by stage -/

section Events

variable [DenunciationDigest]

theorem allKeep_handleBlock (db : Db) (head : BlockHead) (ops : List FilledOperation) (nowMs : Int) :
    AllKeep (handleBlockStages db head ops nowMs) := by
  unfold handleBlockStages
  refine allKeep_cons (keeps_persistEndorsements _) ?_
  split
  · exact allKeep_nil
  · refine allKeep_cons (keeps_denunciations _ _) (allKeep_cons (keeps_ingestOperations head nowMs ops) ?_)
    split
    · exact allKeep_cons (keeps_seenBlock _ _ _ _ _)
        (allKeep_cons (keeps_stage _ rfl) (allKeep_cons (keeps_stage _ rfl) allKeep_nil))
    · exact allKeep_nil

omit [DenunciationDigest] in
theorem allKeep_record (s : Slot) (row : SlotState) (frame : ExecFrame) (exec : ExecutionOutput)
    (nowMs : Int) : AllKeep (recordStages s row frame exec nowMs) := by
  cases frame with
  | final =>
      exact allKeep_cons (keeps_stage _ rfl) <| allKeep_cons (keeps_stage _ rfl) <|
        allKeep_cons (keeps_applyFinality _ _) <| allKeep_cons (keeps_applyExecutedOps _ _) <|
        allKeep_cons (keeps_stage _ rfl) <| allKeep_cons (keeps_stage _ rfl) <|
        allKeep_cons (keeps_stage _ rfl) allKeep_nil
  | candidate =>
      exact allKeep_cons (keeps_stage _ rfl) <| allKeep_cons (keeps_stage _ rfl) <|
        allKeep_cons (keeps_applyExecutedOps _ _) <| allKeep_cons (keeps_stage _ rfl) allKeep_nil

omit [DenunciationDigest] in
theorem allKeep_complete (row : SlotState) (exec : ExecutionOutput) (nowMs : Int) :
    AllKeep (completeStages row exec nowMs) :=
  allKeep_cons (keeps_stage _ rfl) <| allKeep_cons (keeps_applyExecutedOps _ _) <|
    allKeep_cons (keeps_stage _ rfl) <| allKeep_cons (keeps_applyFinality _ _) <|
    allKeep_cons (keeps_stage _ rfl) allKeep_nil

omit [DenunciationDigest] in
theorem allKeep_handleTransfers (s : Slot) (rows : List StoredTransfer) (nowMs : Int) :
    AllKeep (handleTransfersStages s rows nowMs) :=
  allKeep_cons (keeps_stage _ rfl) <| allKeep_cons (keeps_stage _ rfl) <|
    allKeep_cons (keeps_stage _ rfl) <| allKeep_cons (keeps_stage _ rfl) allKeep_nil

theorem allKeep_body (resp : FinalSlotResponse) (nowMs : Int) (block : Option StoredBlock) :
    AllKeep (bodyStages resp nowMs block) := by
  cases block with
  | none => exact allKeep_nil
  | some block =>
      exact allKeep_cons (keeps_storeBlock block) <|
        allKeep_cons (Keeps.foldl fun pb _ => keeps_applyOperation pb) <|
        allKeep_cons (Keeps.foldl fun pb _ => keeps_applyEndorsement pb) <|
        allKeep_cons (keeps_denunciations _ _) allKeep_nil

omit [DenunciationDigest] in
theorem allKeep_adopt (row : SlotState) : AllKeep (adoptStages row) := by
  refine allKeep_append ?_ (allKeep_cons (keeps_stage _ rfl) (allKeep_cons (keeps_stage _ rfl) allKeep_nil))
  cases row.finalBlockId with
  | none => exact allKeep_nil
  | some old => exact allKeep_cons (keeps_settleBlock old .discarded) allKeep_nil

theorem allKeep_peer (s : Slot) (row : SlotState) (resp : FinalSlotResponse) (nowMs : Int)
    (verdict : Reconciled) : AllKeep (peerStages s row resp nowMs verdict) := by
  cases verdict with
  | turnedAway out => exact allKeep_cons (keeps_stage _ rfl) allKeep_nil
  | proceed p =>
      refine allKeep_append ?_ (allKeep_append (allKeep_append (allKeep_append ?_ ?_) ?_) ?_)
      · unfold openingStages
        split
        · exact allKeep_cons (keeps_stage _ rfl) allKeep_nil
        · split
          · exact allKeep_adopt row
          · exact allKeep_nil
      · exact allKeep_body resp nowMs _
      · split
        · exact allKeep_cons (keeps_stage _ rfl) (allKeep_cons (keeps_stage _ rfl) allKeep_nil)
        · exact allKeep_nil
      · split
        · exact allKeep_cons (keeps_stage _ rfl) <| allKeep_cons (keeps_stage _ rfl) <|
            allKeep_cons (keeps_stage _ rfl) <| allKeep_cons (keeps_stage _ rfl) allKeep_nil
        · exact allKeep_nil
      · exact allKeep_cons (keeps_applyFinality _ _) <| allKeep_cons (keeps_stage _ rfl) <|
          allKeep_cons (keeps_stage _ rfl) allKeep_nil

theorem allKeep_legacy (s : Slot) (row : SlotState) (resp : FinalSlotResponse) (nowMs : Int) :
    AllKeep (legacyStages s row resp nowMs) := by
  refine allKeep_append (allKeep_append (allKeep_append ?_ (allKeep_append ?_ ?_)) ?_) ?_
  · split
    · exact allKeep_cons (keeps_stage _ rfl) allKeep_nil
    · exact allKeep_nil
  · exact allKeep_body resp nowMs _
  · exact allKeep_cons (keeps_stage _ rfl) allKeep_nil
  · split
    · exact allKeep_cons (keeps_applyFinality _ _) allKeep_nil
    · exact allKeep_nil
  · exact allKeep_cons (keeps_stage _ rfl) (allKeep_cons (keeps_stage _ rfl) allKeep_nil)

omit [DenunciationDigest] in
theorem allKeep_forced (row : SlotState) (resp : FinalSlotResponse) (nowMs : Int) :
    AllKeep (forcedStages row resp nowMs) :=
  allKeep_append (allKeep_adopt row) <| allKeep_cons (keeps_applyFinality _ _) <|
    allKeep_cons (keeps_stage _ rfl) allKeep_nil

/-- **No stage of an event changes the entries of a row.** -/
theorem allKeep_event (db : Db) (e : Timed) : AllKeep (eventStages db e) := by
  obtain ⟨event, nowMs⟩ := e
  cases event with
  | block fb =>
      dsimp only [eventStages]
      split
      · exact allKeep_nil
      · exact allKeep_handleBlock db _ _ nowMs
  | exec out =>
      dsimp only [eventStages]
      rcases readFrame out with - | ⟨s, frame, exec⟩
      · exact allKeep_nil
      · rw [Option.elim_some]
        dsimp only
        split
        · split
          · exact allKeep_complete _ exec nowMs
          · exact allKeep_nil
        · exact allKeep_record s _ frame exec nowMs
  | transfers resp =>
      dsimp only [eventStages]
      cases resp.slot with
      | none => exact allKeep_nil
      | some pb => exact allKeep_handleTransfers _ _ nowMs
  | peerPatch resp =>
      dsimp only [eventStages]
      split
      · cases slotOf resp with
        | none => exact allKeep_nil
        | some s => exact allKeep_peer s _ resp nowMs _
      · exact allKeep_nil
  | legacyPatch resp =>
      dsimp only [eventStages]
      split
      · cases slotOf resp with
        | none => exact allKeep_nil
        | some s => exact allKeep_legacy s _ resp nowMs
      · exact allKeep_nil
  | forcedVerdict resp =>
      dsimp only [eventStages]
      split
      · split
        · exact allKeep_nil
        · exact allKeep_forced _ resp nowMs
      · exact allKeep_nil
  | tick => exact allKeep_nil

theorem maintained_ingest (events : List Timed) : Maintained (ingest events) := by
  refine invariant_of_step (fun db e maintained => ?_) events ?_
  · rw [step_eq_stages]
    exact (allKeep_event db e).runAll maintained
  · exact maintained_empty

/-! ## The law -/

/-- The indexes a rebuild would leave, where they are maintained. -/
structure AsRebuilt (db : Db) : Prop where
  blockByCreator : db.blockByCreator = (rebuildSecondaryIndexes db).blockByCreator
  pointers : db.slotCandidateBlock = (rebuildSecondaryIndexes db).slotCandidateBlock
  endorsementByCreator : db.endorsementByCreator = (rebuildSecondaryIndexes db).endorsementByCreator
  opByCreator : db.opByCreator = (rebuildSecondaryIndexes db).opByCreator
  opByTarget : db.opByTarget = (rebuildSecondaryIndexes db).opByTarget
  denunciationByAddr : db.denunciationByAddr = (rebuildSecondaryIndexes db).denunciationByAddr
  denunciationRecent : db.denunciationRecent = (rebuildSecondaryIndexes db).denunciationRecent

omit [DenunciationDigest] in
theorem Maintained.asRebuilt (maintained : Maintained db) : AsRebuilt db := by
  have exact_ := rebuild_exact db
  have rows := sameRows_rebuild db
  constructor
  · exact maintained.blockByCreator.unique (rows.blocks ▸ exact_.blockByCreator)
  · refine Std.ExtTreeSet.ext_mem fun k => ?_
    rw [pointers_rebuild]
    refine ⟨.inr, ?_⟩
    rintro (⟨b, held, entered⟩ | known)
    · exact maintained.pointers b held k entered
    · exact known
  · exact maintained.endorsementByCreator.unique (rows.endorsements ▸ exact_.endorsementByCreator)
  · exact maintained.opByCreator.unique (rows.ops ▸ exact_.opByCreator)
  · exact maintained.opByTarget.unique (rows.ops ▸ exact_.opByTarget)
  · exact maintained.denunciationByAddr.unique (rows.denunciations ▸ exact_.denunciationByAddr)
  · exact maintained.denunciationRecent.unique (rows.denunciations ▸ exact_.denunciationRecent)

/-- **A rebuild leaves every row, makes every secondary index the image of the rows and does nothing the
second time; where the writer has been, the indexes of blocks, endorsements, operations and denunciations
are that image already.** -/
theorem rebuild_agrees :
    (∀ db : Db, SameRows db (rebuildSecondaryIndexes db) ∧
      rebuildSecondaryIndexes (rebuildSecondaryIndexes db) = rebuildSecondaryIndexes db ∧
      IndexesExact (rebuildSecondaryIndexes db)) ∧
    ∀ events : List Timed, Maintained (ingest events) ∧ AsRebuilt (ingest events) :=
  ⟨fun db => ⟨sameRows_rebuild db, rebuild_idempotent db, rebuild_exact db⟩,
    fun events => ⟨maintained_ingest events, (maintained_ingest events).asRebuilt⟩⟩

end Events

end MassaIndexer.Laws.IndexRebuild
