/-
# Repair.Settling -- when a pass is done with a slot

The reconstruction is done with a slot when every row it would build is stored as it would be written
(`Rebuilt`), the sub-transfer pass when it would find every row of the archive there (`Listed`), and
the importer when the slot is covered (`Imported`). None of it is undone while the producers find the
same at the slot and the rows stay.
-/
import MassaIndexer.Repair.Passes

namespace MassaIndexer.Repair.Settling

open MassaIndexer.Theory.Additive
open MassaIndexer.Data.Ids MassaIndexer.Data.Model MassaIndexer.Data.Proto MassaIndexer.Data.Codec
open MassaIndexer.Data.RowCodec MassaIndexer.Store.ColumnFamilies
open MassaIndexer.Writer.Shared MassaIndexer.Writer.Families MassaIndexer.Peer.Patch
open MassaIndexer.Repair.Producers MassaIndexer.Repair.Numbering MassaIndexer.Repair.Applied
open MassaIndexer.Repair.Passes

set_option autoImplicit false

variable [Bs58Check]

/-! ## The patches -/

theorem slotOf_thread {resp : FinalSlotResponse} {s : Slot} (period : resp.period = s.period)
    (thread : resp.thread = s.thread.toUInt32) : slotOf resp = some s := by
  rw [slotOf, thread, threadFromPb_toUInt32, period]
  rfl

theorem decodedTransfers_shipped {resp : FinalSlotResponse} {rows : List StoredTransfer}
    (shipped : resp.transfers = rows.map transferToPeerPb) :
    decodedTransfers resp = rows.map readBackTransfer := by
  rw [decodedTransfers, shipped, List.filterMap_map]
  have each : (fun pb => (transferFromPeerPb pb).toOption) ∘ transferToPeerPb =
      some ∘ readBackTransfer := by
    funext t
    simp only [Function.comp, transferFromPeerPb_toPeerPb, Except.toOption]
  rw [each, ← List.filterMap_map, List.filterMap_some]

/-- A row whose origin is one of the two the passes give. -/
def Plain (t : StoredTransfer) : Prop :=
  t.origin = .opTransactionCoins ∨ t.origin = .abiTransferCoins

theorem map_readBackTransfer {rows : List StoredTransfer} (plain : ∀ t ∈ rows, Plain t) :
    rows.map readBackTransfer = rows := by
  refine (List.map_congr_left fun t member => ?_).trans (List.map_id rows)
  have origin : readBackOrigin t.origin = t.origin := by
    rcases plain t member with coins | abi
    · rw [coins]
      rfl
    · rw [abi]
      rfl
  rw [readBackTransfer, origin]
  rfl

theorem decodedTransfers_plain {resp : FinalSlotResponse} (rows : List StoredTransfer)
    (shipped : resp.transfers = rows.map transferToPeerPb) (plain : ∀ t ∈ rows, Plain t) :
    decodedTransfers resp = rows := by
  rw [decodedTransfers_shipped shipped, map_readBackTransfer plain]

omit [Bs58Check] in
theorem light_of_blank {resp : FinalSlotResponse} (executed : resp.executedOpIds = [])
    (operations : resp.operations = []) : Light resp := by
  refine ⟨executed, ?_⟩
  rw [carriedOps, operations]
  rfl

theorem carriedOps_fetchSlot (slot : Slot) (a : ArchivedSlot) (nowMs : Int) :
    carriedOps (fetchSlot slot a nowMs) = a.ops.map (·.stored.id) := by
  unfold carriedOps fetchSlot
  rw [List.filterMap_map]
  refine (List.filterMap_congr fun d _ => ?_).trans
    (congrFun (List.filterMap_eq_map' (f := fun d : DecodedOp => d.stored.id)) a.ops)
  simp only [Function.comp, operationFromPeerPb_toPeerPb, Except.toOption, Option.map_some]

theorem deliveredBlock_fetchSlot {slot : Slot} {a : ArchivedSlot} (encodes : a.block.isSome)
    (nowMs : Int) : ∃ block, deliveredBlock (fetchSlot slot a nowMs) = some block := by
  obtain ⟨block, found⟩ := Option.isSome_iff_exists.mp encodes
  refine ⟨blockSeenAt block nowMs, ?_⟩
  unfold deliveredBlock shippedBlock fetchSlot
  rw [found]
  simp only [Option.map_some, Option.bind_some, blockFromPeerPb_toPeerPb, Except.toOption]
  rfl

/-! ## Done with a slot -/

/-- Every row a reconstruction would build is stored as it would be written. -/
def Rebuilt (passes : Passes) (db : Db) (s : Slot) : Prop :=
  ∀ blockId opIds, eligibleAt db s = some (blockId, opIds) →
    ∀ t ∈ reconstructed db passes.reconstruct s blockId opIds, storedAt db (placeOf t) = some t

/-- A target of the sub-transfer pass has every row the archive has for it. -/
def Listed (passes : Passes) (db : Db) (s : Slot) : Prop :=
  (subTransfersTarget db s).isSome → ∀ hash ∈ movedHashes (passes.archive.items s),
    ∃ t ∈ db.transfersForSlot s, t.id = hash

def Imported (passes : Passes) (db : Db) (s : Slot) : Prop :=
  passes.archive.slot s = none ∨ coveredAt db s = true

variable {passes : Passes} {db db' : Db} {s : Slot}

theorem reconstructSlot_some {cfg : ReconstructConfig} {resp : FinalSlotResponse}
    (built : reconstructSlot db cfg s = some resp) : ∃ blockId opIds,
      eligibleAt db s = some (blockId, opIds) ∧
        resp = transfersPatch s blockId (reconstructed db cfg s blockId opIds) := by
  rw [reconstructSlot_eq] at built
  obtain ⟨⟨blockId, opIds⟩, offers, made⟩ := Option.bind_eq_some_iff.mp built
  dsimp only at made
  split at made
  · exact absurd made (by simp)
  · exact ⟨blockId, opIds, offers, (Option.some.inj made).symm⟩

theorem rebuilt_of_none (none : reconstructSlot db passes.reconstruct s = none) :
    Rebuilt passes db s := by
  intro blockId opIds offers t member
  rw [reconstructSlot_eq, offers, Option.bind_some] at none
  dsimp only at none
  split at none
  · next blank => exact absurd member (by simp [blank])
  · exact absurd none (by simp)

/-- The rows of a sub-transfer patch. -/
def subRows (passes : Passes) (s : Slot) (target : SubTarget) : List StoredTransfer :=
  subTransferRows s (some target.blockId.text) (slotTimestampMs passes.subTransfers.timing s)
    target.ids (passes.archive.items s) target.nextIndex

theorem subTransfersPatch_eq : subTransfersPatch db passes.subTransfers s (passes.archive.items s) =
    (subTransfersTarget db s).bind fun target =>
      if subRows passes s target = [] then none
      else some (transfersPatch s target.blockId (subRows passes s target)) := by
  unfold subTransfersPatch
  cases subTransfersTarget db s <;> rfl

theorem ids_of_target {target : SubTarget} (found : subTransfersTarget db s = some target) :
    target.ids = (db.transfersForSlot s).map (·.id) ∧
      target.nextIndex = nextIndex (db.transfersForSlot s) := by
  rw [subTransfersTarget_eq] at found
  obtain ⟨⟨blockId, opIds⟩, -, made⟩ := Option.bind_eq_some_iff.mp found
  dsimp only at made
  split at made
  · obtain rfl := Option.some.inj made
    exact ⟨rfl, rfl⟩
  · exact absurd made (by simp)

/-- What the archive has is there or shipped. -/
theorem hash_stored_or_shipped {target : SubTarget}
    (found : subTransfersTarget db s = some target) {hash : String}
    (listed : hash ∈ movedHashes (passes.archive.items s)) :
    (∃ t ∈ db.transfersForSlot s, t.id = hash) ∨ ∃ t ∈ subRows passes s target, t.id = hash := by
  by_cases there : hash ∈ target.ids
  · rw [(ids_of_target found).1] at there
    exact .inl (List.mem_map.mp there)
  · refine .inr (List.mem_map.mp ?_)
    rw [subRows, ids_subTransferRows]
    exact List.mem_filter.mpr ⟨listed, by simpa using there⟩

theorem listed_of_none
    (none : subTransfersPatch db passes.subTransfers s (passes.archive.items s) = none) :
    Listed passes db s := by
  intro isTarget hash listed
  obtain ⟨target, found⟩ := Option.isSome_iff_exists.mp isTarget
  rw [subTransfersPatch_eq, found, Option.bind_some] at none
  rcases hash_stored_or_shipped found listed with stored | ⟨t, member, -⟩
  · exact stored
  · split at none
    · next blank => exact absurd member (by simp [blank])
    · exact absurd none (by simp)

/-- Once all rows of the archive are there, the pass has nothing to ship. -/
theorem subTransfersPatch_of_listed (listed : Listed passes db s) :
    subTransfersPatch db passes.subTransfers s (passes.archive.items s) = none := by
  rw [subTransfersPatch_eq]
  cases found : subTransfersTarget db s with
  | none => rfl
  | some target =>
      rw [Option.bind_some, if_pos]
      have blank : (subRows passes s target).map (·.id) = [] := by
        rw [subRows, ids_subTransferRows, List.filter_eq_nil_iff]
        intro hash member
        obtain ⟨t, stored, same⟩ := listed (by rw [found]; rfl) hash member
        have known : hash ∈ target.ids := by
          rw [(ids_of_target found).1]
          exact List.mem_map.mpr ⟨t, stored, same⟩
        simpa using known
      exact List.map_eq_nil_iff.mp blank

/-! ## Nothing is undone -/

theorem reconstructed_same (same : SameSource db db' s) {cfg : ReconstructConfig} {blockId : BlockId}
    {opIds : List OperationId} (offers : eligibleAt db s = some (blockId, opIds)) :
    reconstructed db' cfg s blockId opIds = reconstructed db cfg s blockId opIds := by
  unfold reconstructed reconstructionNumbers
  rw [List.filterMap_congr fun id listed => same.ops id ((executed_of_eligible offers).symm ▸ listed)]

theorem reconstructSlot_same (same : SameSource db db' s) (cfg : ReconstructConfig) :
    reconstructSlot db' cfg s = reconstructSlot db cfg s := by
  rw [reconstructSlot_eq, reconstructSlot_eq, same.eligible]
  refine Option.bind_congr fun named offers => ?_
  obtain ⟨blockId, opIds⟩ := named
  dsimp only
  rw [reconstructed_same same offers]

theorem isSome_target_same (same : SameSource db db' s) :
    (subTransfersTarget db' s).isSome = (subTransfersTarget db s).isSome := by
  rw [subTransfersTarget_eq, subTransfersTarget_eq, same.eligible]
  cases offers : eligibleAt db s with
  | none => rfl
  | some pair =>
      obtain ⟨blockId, opIds⟩ := pair
      rw [Option.bind_some, Option.bind_some]
      dsimp only
      have ops : (opIds.any fun opId => (db'.readOp opId).any successfulScOp) =
          opIds.any fun opId => (db.readOp opId).any successfulScOp := by
        rw [Bool.eq_iff_iff, List.any_eq_true, List.any_eq_true]
        refine exists_congr fun id => and_congr_right fun listed => ?_
        rw [same.ops id ((executed_of_eligible offers).symm ▸ listed)]
      rw [ops]
      split <;> rfl

theorem Rebuilt.kept (rebuilt : Rebuilt passes db s) (same : SameSource db db' s)
    (stay : ∀ p t, p.1 = s → storedAt db p = some t → storedAt db' p = some t) :
    Rebuilt passes db' s := by
  intro blockId opIds offers t member
  rw [same.eligible] at offers
  rw [reconstructed_same same offers] at member
  obtain ⟨n, op, -, made⟩ := mem_transactionRows member
  exact stay _ t (movementOf_of_made made).slot (rebuilt blockId opIds offers t member)

theorem Listed.kept (listed : Listed passes db s) (same : SameSource db db' s)
    (stay : ∀ t ∈ db.transfersForSlot s, ∃ t' ∈ db'.transfersForSlot s, t'.id = t.id) :
    Listed passes db' s := by
  intro isTarget hash member
  rw [isSome_target_same same] at isTarget
  obtain ⟨t, stored, rfl⟩ := listed isTarget hash member
  exact stay t stored

end MassaIndexer.Repair.Settling
