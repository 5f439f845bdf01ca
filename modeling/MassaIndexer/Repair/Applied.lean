/-
# Repair.Applied -- what an applied legacy patch leaves for the producers

The producers read the transfers of a slot, its row and the operations executed in it. An applied
legacy patch fills the transfer store with the rows it ships (`stored_apply`), touches only the
operations it carries (`readOp_apply`), and moves the row of its own slot: a settled one keeps what the
producers go by (`eligibleAt_apply_self`), and a delivered body covers it (`coveredAt_of_block`).
-/
import MassaIndexer.Repair.Numbering
import MassaIndexer.Theory.Additive
import MassaIndexer.Writer.Moves
import MassaIndexer.Writer.RowMoves

namespace MassaIndexer.Repair.Applied

open MassaIndexer.Theory.Additive MassaIndexer.Theory.KeyedTable
open MassaIndexer.Data.Ids MassaIndexer.Data.Model MassaIndexer.Data.Proto MassaIndexer.Data.RowCodec
open MassaIndexer.Data.Codec MassaIndexer.Data.Keys MassaIndexer.Store.ColumnFamilies MassaIndexer.Store.Footprint
open MassaIndexer.Writer.Shared MassaIndexer.Writer.Step MassaIndexer.Writer.Families MassaIndexer.Writer.Patches
open MassaIndexer.Writer.Moves MassaIndexer.Writer.RowMoves MassaIndexer.Peer.Patch
open MassaIndexer.Repair.Producers MassaIndexer.Repair.Numbering

set_option autoImplicit false

/-- Where a transfer is filed. -/
abbrev Place := Slot × UInt32

def placeOf (t : StoredTransfer) : Place := (t.slot, t.indexInSlot)

/-- Is the slot settled with nothing left to import? -/
def coveredAt (db : Db) (s : Slot) : Bool := (db.readSlot s).any slotAlreadyCovered

def storedAt (db : Db) (p : Place) : Option StoredTransfer := db.readTransfer p.1 p.2

theorem placeOf_of_storedAt {db : Db} {p : Place} {t : StoredTransfer}
    (found : storedAt db p = some t) : placeOf t = p := by
  have key := Table.key_of_get found
  obtain ⟨slot, number⟩ := transferKey_inj.mp key
  exact Prod.ext slot number

theorem mem_transfersForSlot {db : Db} {s : Slot} {t : StoredTransfer} :
    t ∈ db.transfersForSlot s ↔ storedAt db (s, t.indexInSlot) = some t :=
  mem_transfersForSlot_iff

theorem storedAt_foldl [Bs58Check] (rows : List StoredTransfer) (db : Db) :
    storedAt (rows.foldl Db.writeTransfer db) =
      fill placeOf (storedAt db) (rows.map readBackTransfer) := by
  induction rows generalizing db with
  | nil => rfl
  | cons t rows ih =>
      rw [List.foldl_cons, ih, List.map_cons, fill_cons]
      congr 1
      funext p
      change (db.writeTransfer t).readTransfer p.1 p.2 = _
      rw [Db.readTransfer_writeTransfer]
      by_cases here : placeOf t = p
      · subst here
        rw [if_pos ⟨rfl, rfl⟩]
        exact (Function.update_self (placeOf t) _ (storedAt db)).symm
      · rw [if_neg fun same => here (Prod.ext same.1 same.2)]
        exact (Function.update_of_ne (fun same => here same.symm) _ (storedAt db)).symm

/-- The operations executed in a slot, as its row lists them. -/
def executedAt (db : Db) (s : Slot) : List OperationId := (db.readSlot s).elim [] (·.executedOpIds)

/-- A patch for `slot` that carries `ops` brings something to `u`, or to an operation executed there. -/
def Concerned (db : Db) (slot : Slot) (ops : List OperationId) (u : Slot) : Prop :=
  slot = u ∨ ∃ id ∈ executedAt db u, id ∈ ops

/-- The producers find the same at a slot. -/
structure SameSource (db db' : Db) (u : Slot) : Prop where
  eligible : eligibleAt db' u = eligibleAt db u
  executed : executedAt db' u = executedAt db u
  ops : ∀ id ∈ executedAt db u, db'.readOp id = db.readOp id

section Apply

variable [Bs58Check]

/-- The ids of the operations a response carries. -/
def carriedOps (resp : FinalSlotResponse) : List OperationId :=
  resp.operations.filterMap fun pb => ((operationFromPeerPb pb).toOption).map (·.id)

/-- No operation comes with the response. -/
structure Light (resp : FinalSlotResponse) : Prop where
  executed : resp.executedOpIds = []
  carries : carriedOps resp = []

variable [DenunciationDigest]

/-- The store after the writer takes a legacy patch. -/
abbrev applied (db : Db) (resp : FinalSlotResponse) (nowMs : Int) : Db :=
  step db ⟨.legacyPatch resp, nowMs⟩

variable {db : Db} {resp : FinalSlotResponse} {s : Slot} (about : slotOf resp = some s)
  (known : resp.finalKnown = true) (nowMs : Int)

include about known

theorem storedAt_apply : storedAt (applied db resp nowMs) =
    fill placeOf (storedAt db) ((decodedTransfers resp).map readBackTransfer) := by
  have move : transferMove db ⟨.legacyPatch resp, nowMs⟩ = ⟨none, decodedTransfers resp⟩ := by
    unfold transferMove
    dsimp only
    rw [if_pos known, about]
    rfl
  have tables := transfers_step db ⟨.legacyPatch resp, nowMs⟩
  rw [move] at tables
  rw [← storedAt_foldl]
  funext p
  exact congrArg (fun t : Contents .transfers => t.1.get (transferKey p.1 p.2)) tables

/-! ## Operations -/

omit about known [DenunciationDigest] in
theorem readOp_applyOperation {pb : StoredOperationPb} {id : OperationId}
    (other : ∀ op, operationFromPeerPb pb = .ok op → op.id ≠ id) :
    (applyOperation db pb).readOp id = db.readOp id := by
  unfold applyOperation
  cases decoded : operationFromPeerPb pb with
  | error err => rfl
  | ok op =>
      dsimp only
      cases found : db.readOp op.id with
      | none =>
          dsimp only
          rw [Db.readOp_writeOp, if_neg (other op decoded)]
      | some row =>
          dsimp only
          split
          · rw [Db.readOp_writeOp, if_neg]
            rw [mergeOperation_eq]
            exact fun same => other op decoded ((Db.id_of_readOp found).symm.trans same)
          · rfl

omit about known [DenunciationDigest] in
theorem readOp_operations {id : OperationId} (other : id ∉ carriedOps resp) :
    (resp.operations.foldl applyOperation db).readOp id = db.readOp id := by
  unfold carriedOps at other
  generalize resp.operations = carried at other ⊢
  induction carried generalizing db with
  | nil => rfl
  | cons pb pbs ih =>
      rw [List.foldl_cons, ih, readOp_applyOperation]
      · intro op decoded same
        refine other (List.mem_filterMap.mpr ⟨pb, List.mem_cons_self, ?_⟩)
        rw [decoded, ← same]
        rfl
      · intro later
        obtain ⟨pb', member, carried⟩ := List.mem_filterMap.mp later
        exact other (List.mem_filterMap.mpr ⟨pb', List.mem_cons_of_mem _ member, carried⟩)

theorem readOp_apply {id : OperationId} (other : id ∉ carriedOps resp) :
    (applied db resp nowMs).readOp id = db.readOp id := by
  have family : ∃ took : Bool, contents (applied db resp nowMs) .ops =
      contents (if took then resp.operations.foldl applyOperation db else db) .ops := by
    change ∃ took : Bool, contents (applyLegacyPatch db resp nowMs).1 .ops = _
    rw [applyLegacyPatch_eq about known]
    dsimp only
    generalize legacyPromoted resp (rowAt db s nowMs) = state
    refine ⟨(legacyBody resp state).isSome, ?_⟩
    rw [contents_runAll, legacyPartStages]
    cases legacyBody resp state <;> split <;> split <;> rfl
  obtain ⟨took, same⟩ := family
  rw [sameReadOp same]
  cases took with
  | false => rfl
  | true => exact readOp_operations other

/-! ## Rows -/

/-- The row a legacy patch leaves. -/
theorem readSlot_apply_self : (applied db resp nowMs).readSlot s =
    some (readBackSlotState { legacyRow resp (legacyPromoted resp (rowAt db s nowMs)) with
      lastUpdatedTsMs := nowMs }) := by
  rw [readSlot_step]
  have move : rowMove db ⟨.legacyPatch resp, nowMs⟩ =
      some ⟨{ legacyRow resp (legacyPromoted resp (rowAt db s nowMs)) with
        lastUpdatedTsMs := nowMs }, true⟩ := by
    unfold rowMove
    dsimp only
    rw [if_pos known, about]
    rfl
  rw [move]
  exact if_pos ((slot_legacyRow resp _).trans (slot_rowAt db s nowMs))

/-- Elsewhere at most a stub is new. -/
theorem readSlot_apply_other (store : Db) {u : Slot} (other : u ≠ s) :
    (applied store resp nowMs).readSlot u = store.readSlot u ∨
      (store.readSlot u = none ∧
        (applied store resp nowMs).readSlot u = some (SlotState.fresh u nowMs)) := by
  rw [readSlot_step]
  have move : rowMove store ⟨.legacyPatch resp, nowMs⟩ =
      some ⟨{ legacyRow resp (legacyPromoted resp (rowAt store s nowMs)) with
        lastUpdatedTsMs := nowMs }, true⟩ := by
    unfold rowMove
    dsimp only
    rw [if_pos known, about]
    rfl
  rw [move]
  have here : (legacyRow resp (legacyPromoted resp (rowAt store s nowMs))).slot = s :=
    (slot_legacyRow resp _).trans (slot_rowAt store s nowMs)
  dsimp only
  rw [if_neg fun same => other (same.symm.trans here)]
  split
  · cases store.readSlot u with
    | none => exact .inr ⟨rfl, rfl⟩
    | some row => exact .inl rfl
  · exact .inl rfl

theorem eligibleAt_apply_other {u : Slot} (other : u ≠ s) :
    eligibleAt (applied db resp nowMs) u = eligibleAt db u := by
  unfold eligibleAt
  rcases readSlot_apply_other about known nowMs db other with same | ⟨before, stub⟩
  · rw [same]
  · rw [before, stub]
    rfl

/-- A patch without executed operations leaves what is read off a settled row, and a miss leaves
nothing to read off an open one. -/
theorem eligibleAt_apply_self (noOps : resp.executedOpIds = [])
    (inert : resp.isMiss = true ∨ (rowAt db s nowMs).status = .final) :
    eligibleAt (applied db resp nowMs) s = eligibleAt db s := by
  have before : eligibleAt db s = eligible (rowAt db s nowMs) := by
    unfold eligibleAt rowAt
    cases db.readSlot s <;> rfl
  rw [before, eligibleAt, readSlot_apply_self about known, Option.bind_some]
  generalize rowAt db s nowMs = row at inert
  rw [legacyRow_eq]
  simp only [noOps, List.isEmpty_nil, Bool.not_true, Bool.and_false, Bool.false_eq_true, if_false]
  by_cases settled : row.status = .final
  · have same : legacyPromoted resp row = row := if_neg (not_not.mpr settled)
    rw [same]
    rfl
  · have miss := inert.resolve_right settled
    have still : eligible row = none := if_pos (.inl settled)
    rw [still]
    refine if_pos (.inr (.inl ?_))
    change (legacyPromoted resp row).isMiss = true
    rw [legacyPromoted, if_pos settled, promote_eq]
    exact miss

theorem status_apply_self {row : SlotState}
    (found : (applied db resp nowMs).readSlot s = some row) : row.status = .final := by
  rw [readSlot_apply_self about known, legacyRow_eq] at found
  obtain rfl := Option.some.inj found
  exact status_legacyPromoted resp _

/-- Covered slots stay covered. -/
theorem coveredAt_apply {u : Slot} (covered : coveredAt db u = true) :
    coveredAt (applied db resp nowMs) u = true := by
  by_cases here : u = s
  · subst here
    cases found : db.readSlot u with
    | none =>
        rw [coveredAt, found] at covered
        exact absurd covered (by simp)
    | some row =>
        have at_ : rowAt db u nowMs = row := by rw [rowAt, found, Option.getD_some]
        rw [coveredAt, found, Option.any_some, slotAlreadyCovered, Bool.and_eq_true,
          decide_eq_true_eq] at covered
        obtain ⟨settled, offers⟩ := covered
        have same : legacyPromoted resp row = row := if_neg (not_not.mpr settled)
        rw [coveredAt, readSlot_apply_self about known, at_, same, legacyRow_eq, Option.any_some]
        simp only [slotAlreadyCovered, readBackSlotState, settled]
        revert offers
        cases row.isMiss <;> cases row.completeness.blockBodyStored <;>
          cases row.completeness.transfersStored <;> simp
  · rw [coveredAt]
    rcases readSlot_apply_other about known nowMs db here with same | ⟨before, -⟩
    · rw [same]
      exact covered
    · rw [coveredAt, before] at covered
      exact absurd covered (by simp)

/-- A delivered body covers its slot. -/
theorem coveredAt_of_block {block : StoredBlock} (delivered : deliveredBlock resp = some block) :
    coveredAt (applied db resp nowMs) s = true := by
  rw [coveredAt, readSlot_apply_self about known, legacyRow_eq, Option.any_some]
  generalize rowAt db s nowMs = row
  simp only [slotAlreadyCovered, readBackSlotState, status_legacyPromoted]
  unfold legacyBody
  rw [delivered]
  cases (legacyPromoted resp row).completeness.blockBodyStored <;> simp

/-! ## What a producer goes by -/

omit about known [Bs58Check] [DenunciationDigest] in
theorem executed_of_eligible {u : Slot} {blockId : BlockId} {opIds : List OperationId}
    (offers : eligibleAt db u = some (blockId, opIds)) : executedAt db u = opIds := by
  unfold eligibleAt at offers
  unfold executedAt
  cases found : db.readSlot u with
  | none =>
      rw [found] at offers
      exact absurd offers (by simp)
  | some row =>
      rw [found, Option.bind_some, eligible] at offers
      split at offers
      · exact absurd offers (by simp)
      · obtain ⟨b, -, same⟩ := Option.map_eq_some_iff.mp offers
        exact (Prod.mk.inj same).2

theorem executedAt_apply_other {u : Slot} (other : u ≠ s) :
    executedAt (applied db resp nowMs) u = executedAt db u := by
  unfold executedAt
  rcases readSlot_apply_other about known nowMs db other with same | ⟨before, stub⟩
  · rw [same]
  · rw [before, stub]
    rfl

theorem executedAt_apply_self (noOps : resp.executedOpIds = []) :
    executedAt (applied db resp nowMs) s = executedAt db s := by
  have before : executedAt db s = (rowAt db s nowMs).executedOpIds := by
    unfold executedAt rowAt
    cases db.readSlot s <;> rfl
  rw [before, executedAt, readSlot_apply_self about known, Option.elim_some, legacyRow_eq]
  simp only [noOps, List.isEmpty_nil, Bool.not_true, Bool.and_false, Bool.false_eq_true, if_false]
  unfold legacyPromoted
  split
  · rw [promote_eq]
    rfl
  · rfl

/-- The patch is about another slot, and carries no operation executed in this one. -/
theorem sameSource_of_unconcerned {u : Slot} (apart : ¬ Concerned db s (carriedOps resp) u) :
    SameSource db (applied db resp nowMs) u := by
  have other : u ≠ s := fun same => apart (.inl same.symm)
  exact {
    eligible := eligibleAt_apply_other about known nowMs other
    executed := executedAt_apply_other about known nowMs other
    ops := fun id listed =>
      readOp_apply about known nowMs fun carried => apart (.inr ⟨id, listed, carried⟩) }

/-- A patch without operations. -/
theorem sameSource_of_light (light : Light resp)
    (inert : resp.isMiss = true ∨ (rowAt db s nowMs).status = .final) (u : Slot) :
    SameSource db (applied db resp nowMs) u := by
  have ops : ∀ id, (applied db resp nowMs).readOp id = db.readOp id := fun id =>
    readOp_apply about known nowMs (light.carries ▸ List.not_mem_nil)
  by_cases here : u = s
  · subst here
    exact ⟨eligibleAt_apply_self about known nowMs light.executed inert,
      executedAt_apply_self about known nowMs light.executed, fun id _ => ops id⟩
  · exact ⟨eligibleAt_apply_other about known nowMs here,
      executedAt_apply_other about known nowMs here, fun id _ => ops id⟩

end Apply

end MassaIndexer.Repair.Applied
