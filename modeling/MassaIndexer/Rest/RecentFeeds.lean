/-
# Rest.RecentFeeds -- the newest operations and blocks

Two handlers walk the slot rows newest first and collect what the rows name: `recent_operations` the
operations of their blocks, `blocks_recent` the blocks. A page is cut in entries and its cursor is a slot.
The block handler puts statuses right as it goes, and writes the rows back.

`serves_slots` says which slot rows the cursors go through; `steady_operations` and `steady_blocks`, that
nothing a request writes changes what the next one finds.
-/
import MassaIndexer.Rest.BlockPages
import MassaIndexer.Rest.SelfHeal
import MassaIndexer.Store.Scans
import MassaIndexer.Theory.Feed

namespace MassaIndexer.Rest.RecentFeeds

open MassaIndexer.Theory.KeyedTable MassaIndexer.Theory.Cursor MassaIndexer.Theory.Feed
open MassaIndexer.Data.Ids MassaIndexer.Data.Model MassaIndexer.Data.Keys
open MassaIndexer.Store.ColumnFamilies MassaIndexer.Store.Scans
open MassaIndexer.Rest.BlockPages MassaIndexer.Rest.SelfHeal

set_option autoImplicit false

/-! ## Handlers -/

/-- The candidates of a slot row, and its final block if that is none of them. -/
def blockIdsOf (row : SlotState) : List BlockId :=
  match row.finalBlockId with
  | some fid => if fid ∈ row.candidateBlockIds then row.candidateBlockIds
      else row.candidateBlockIds ++ [fid]
  | none => row.candidateBlockIds

theorem mem_blockIdsOf {row : SlotState} {id : BlockId} :
    id ∈ blockIdsOf row ↔ id ∈ row.candidateBlockIds ∨ row.finalBlockId = some id := by
  unfold blockIdsOf
  cases row.finalBlockId with
  | none => simp
  | some fid =>
      dsimp only
      split
      · next listed =>
          rw [Option.some.injEq]
          exact ⟨.inl, fun either => either.elim (fun there => there) fun same => same ▸ listed⟩
      · rw [List.mem_append, List.mem_singleton, Option.some.injEq, eq_comm (a := id)]

/-- A definite status is left alone, and so is one whose slot is not FINAL. -/
def resolveBlockStatus (db : Db) (block : StoredBlock) : Db × StoredBlock :=
  if block.status = .final ∨ block.status = .discarded then (db, block)
  else
    match db.readSlot block.slot with
    | none => (db, block)
    | some slot =>
        if slot.status ≠ .final then (db, block)
        else if block.status ≠ resolvedStatus slot block.id then
          (db.writeBlock (resolved block slot), resolved block slot)
        else (db, block)

/-- Query parameters of the operations' feed. -/
structure RecentOpsQ where
  limit : Option Nat := none
  maxSlots : Option Nat := none

def RecentOpsQ.budget (q : RecentOpsQ) (cfg : RestConfig) : Budget where
  limit := clamp (q.limit.getD cfg.defaultPageSize) 1 (effectiveMaxPageSize cfg)
  maxRows := clamp (q.maxSlots.getD 256) 1 4096
  batch := 64

section Handlers

variable [Bs58Check]

/-- Operations of the blocks of a slot row. -/
def operationFeed : Feeder Db Bytes SlotState OperationId String StoredOperation where
  fetch := iterSlotsDesc
  key row := slotKey row.slot
  named db row := (blockIdsOf row).flatMap fun id =>
    ((db.readBlock id).map (·.operationIds)).getD []
  label id := id.text
  read db id := (db, db.readOp id)

def recentOperations (cfg : RestConfig) (q : RecentOpsQ) (db : Db) (cursor : Option Bytes) :
    Db × Page Bytes StoredOperation := operationFeed.request (q.budget cfg) db cursor

/-- Blocks of a slot row, their statuses put right. -/
def blockFeed : Feeder Db Bytes SlotState BlockId String StoredBlock where
  fetch := iterSlotsDesc
  key row := slotKey row.slot
  named _ row := blockIdsOf row
  label id := id.text
  read db id :=
    match db.readBlock id with
    | some block => ((resolveBlockStatus db block).1, some (resolveBlockStatus db block).2)
    | none => (db, none)

def blockBudget (cfg : RestConfig) (limit : Option Nat) : Budget where
  limit := PageQ.limitOf { limit } cfg
  maxRows := 4096
  batch := 128

def blocksRecent (cfg : RestConfig) (limit : Option Nat) (db : Db) (cursor : Option Bytes) :
    Db × Page Bytes StoredBlock := blockFeed.request (blockBudget cfg limit) db cursor

end Handlers

/-! ## Budgets -/

theorem limit_pos (q : RecentOpsQ) (cfg : RestConfig) : 0 < (q.budget cfg).limit := by
  show 0 < clamp _ _ _
  unfold clamp
  omega

theorem maxRows_pos (q : RecentOpsQ) (cfg : RestConfig) : 0 < (q.budget cfg).maxRows := by
  show 0 < clamp _ _ _
  unfold clamp
  omega

/-! ## Slot rows -/

/-- The slot rows that requests come to. -/
def servedSlots (db : Db) : List SlotState := slotsFrom db (slotKey maxSlot)

/-- A feed of the slots serves them. -/
theorem serves_slots {ι ν α : Type} {F : Feeder Db Bytes SlotState ι ν α}
    (fetch : F.fetch = iterSlotsDesc) (key : F.key = fun row => slotKey row.slot) (db : Db) :
    F.Serves db (servedSlots db) := by
  have rows : servedSlots db = ((tablePager reverse fun _ => true).seek
      db.slots.rows.toList.reverse (some (slotKey maxSlot))).map Prod.snd := by
    rw [servedSlots, ← hits_slots, hits_table, List.takeWhile_eq_self_iff.mpr fun _ _ => rfl]
  rw [rows]
  refine Feeder.serves_page (ordered_table_reverse db.slots fun _ => true) (fun _ _ => rfl)
    (fun _ _ => rfl) (fun r stored => ?_) (by rw [fetch]; rfl)
  rw [key]
  exact (readSlot_of_mem (List.mem_reverse.mp stored)).1

/-! ## What requests leave -/

/-- A healed row is resolved. -/
theorem resolveBlockStatus_resolved (db : Db) (block : StoredBlock) (slot : SlotState) :
    resolveBlockStatus db (resolved block slot) = (db, resolved block slot) := by
  have definite : (resolved block slot).status = .final ∨ (resolved block slot).status = .discarded := by
    show resolvedStatus slot block.id = .final ∨ resolvedStatus slot block.id = .discarded
    unfold resolvedStatus
    split <;> simp
  rw [resolveBlockStatus, if_pos definite]

/-- Resolving a row writes at most that row, healed. -/
theorem resolveBlockStatus_cases (db : Db) (block : StoredBlock) :
    resolveBlockStatus db block = (db, block) ∨
      ∃ slot, resolveBlockStatus db block = (db.writeBlock (resolved block slot), resolved block slot) := by
  unfold resolveBlockStatus
  split
  · exact .inl rfl
  · split
    · exact .inl rfl
    · split
      · exact .inl rfl
      · split
        · exact .inr ⟨_, rfl⟩
        · exact .inl rfl

/-- It goes by the slot rows. -/
theorem resolved_writeBlock (db : Db) (written block : StoredBlock) :
    (resolveBlockStatus (db.writeBlock written) block).2 = (resolveBlockStatus db block).2 := by
  have slots : ∀ s, (db.writeBlock written).readSlot s = db.readSlot s := fun _ => rfl
  unfold resolveBlockStatus
  rw [slots]
  split
  · rfl
  · split
    · rfl
    · split
      · rfl
      · split <;> rfl

section Worlds

variable [Bs58Check]

theorem steady_operations : operationFeed.Steady where
  label _ _ same := FamilyId.text_injective same
  read _ _ := ⟨rfl, rfl, fun _ => rfl⟩

/-- What a stored block is served as. -/
theorem read_blockFeed {db : Db} {id : BlockId} {block : StoredBlock}
    (found : db.readBlock id = some block) : blockFeed.read db id =
      ((resolveBlockStatus db block).1, some (resolveBlockStatus db block).2) := by
  simp only [blockFeed, found]

theorem read_blockFeed_none {db : Db} {id : BlockId} (absent : db.readBlock id = none) :
    blockFeed.read db id = (db, none) := by
  simp only [blockFeed, absent]

theorem alike_writeBlock {db : Db} {block : StoredBlock} {slot : SlotState} {id : BlockId}
    (found : db.readBlock id = some block)
    (healed : (resolveBlockStatus db block).2 = resolved block slot) :
    blockFeed.Alike db (db.writeBlock (resolved block slot)) where
  fetch := rfl
  named := rfl
  value other := by
    have own : block.id = id := Db.id_of_readBlock found
    have rows := Db.readBlock_writeBlock db (resolved block slot) other
    by_cases here : (resolved block slot).id = other
    · rw [if_pos here] at rows
      have same : id = other := own.symm.trans here
      rw [read_blockFeed rows, resolveBlockStatus_resolved, ← same, read_blockFeed found, healed]
    · rw [if_neg here] at rows
      cases kept : db.readBlock other with
      | none => rw [read_blockFeed_none (rows.trans kept), read_blockFeed_none kept]
      | some row => rw [read_blockFeed (rows.trans kept), read_blockFeed kept, resolved_writeBlock]

theorem steady_blocks : blockFeed.Steady where
  label _ _ same := FamilyId.text_injective same
  read db id := by
    cases found : db.readBlock id with
    | none =>
        rw [read_blockFeed_none found]
        exact Feeder.Alike.refl db
    | some block =>
        rw [read_blockFeed found]
        rcases resolveBlockStatus_cases db block with same | ⟨slot, healed⟩
        · rw [same]
          exact Feeder.Alike.refl db
        · have value := congrArg Prod.snd healed
          rw [healed]
          exact alike_writeBlock found value

end Worlds

end MassaIndexer.Rest.RecentFeeds
