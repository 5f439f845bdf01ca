/-
# Laws.RecentFeeds -- what the recent feeds lose

Following the cursors of `recent_operations` and `blocks_recent` ends, and shows entries newest slots
first. But a page that its last slot overfills is cut, and the cursor stands behind that slot.
`recent_feeds_iff` says exactly when nothing is lost: each entry beyond the limit of its stretch of slots,
or named only by a slot row that no request comes to, is among the first of some stretch.
`overfull_slot_loses_operations` reads one block of two operations one operation a page.
-/
import MassaIndexer.Laws.RepairAdditive
import MassaIndexer.Rest.RecentFeeds
import MassaIndexer.Store.NewestSlots

namespace MassaIndexer.Laws.RecentFeeds

open MassaIndexer.Theory.KeyedTable MassaIndexer.Theory.Cursor MassaIndexer.Theory.Feed
open MassaIndexer.Data.Ids MassaIndexer.Data.Model MassaIndexer.Data.Keys MassaIndexer.Data.Codec
open MassaIndexer.Store.ColumnFamilies MassaIndexer.Store.Scans MassaIndexer.Store.NewestSlots
open MassaIndexer.Rest.BlockPages MassaIndexer.Rest.SelfHeal MassaIndexer.Rest.RecentFeeds
open MassaIndexer.Chain MassaIndexer.Laws.RepairAdditive

set_option autoImplicit false

/-! ## Feeds that lose nothing -/

/-- A stored block that a slot row names as candidate or final. -/
structure NamedBlock (db : Db) (row : SlotState) (id : BlockId) (block : StoredBlock) : Prop where
  held : db.readSlot row.slot = some row
  named : id ∈ row.candidateBlockIds ∨ row.finalBlockId = some id
  stored : db.readBlock id = some block

section Feeds

variable [Bs58Check]

/-- Entries in the order of the slots that name them. -/
def NewestFirst {ι ν α : Type} (F : Feeder Db Bytes SlotState ι ν α) (db : Db) (read : List α) : Prop :=
  read.Sublist ((slotsDesc db).flatMap fun row => (F.named db row).filterMap fun id => (F.read db id).2)

/-- The cursors come to an end, and the pages have every operation of the named blocks. -/
def OperationsComplete (db : Db) (cfg : RestConfig) (q : RecentOpsQ) : Prop :=
  ∃ read, Reading (recentOperations cfg q) db none read ∧ NewestFirst operationFeed db read ∧
    ∀ row id block, NamedBlock db row id block → ∀ opId ∈ block.operationIds, ∀ op,
      db.readOp opId = some op → op ∈ read

/-- The cursors come to an end, and the pages have every named block, as it is served. -/
def BlocksComplete (db : Db) (cfg : RestConfig) (limit : Option Nat) : Prop :=
  ∃ read, Reading (blocksRecent cfg limit) db none read ∧ NewestFirst blockFeed db read ∧
    ∀ row id block, NamedBlock db row id block → (resolveBlockStatus db block).2 ∈ read

end Feeds

/-! ## Entries there is no room for -/

section Room

variable {ι ν α : Type} [DecidableEq ι] (F : Feeder Db Bytes SlotState ι ν α) (b : Budget) (db : Db)

/-- The slot rows that requests come to, cut behind the row that fills a page, or after the slots one
request may walk. -/
def cuts : List (List SlotState) := F.stretches db b.limit b.maxRows (servedSlots db)

/-- What does not fit on the page of its slots, or is named by a slot row no request comes to. -/
def Surplus (v : α) : Prop :=
  (∃ st ∈ cuts F b db, v ∈ (F.found db st).drop b.limit) ∨
    ∃ row ∈ slotsDesc db, row ∉ servedSlots db ∧ ∃ id ∈ F.named db row, (F.read db id).2 = some v

/-- Each such entry fits on the page of other slots. -/
def RoomForAll : Prop := ∀ v, Surplus F b db v → ∃ st ∈ cuts F b db, v ∈ (F.found db st).take b.limit

variable {F b db}

theorem mem_shown {v : α} : v ∈ F.shown db b (servedSlots db) ↔
    ∃ st ∈ cuts F b db, v ∈ (F.found db st).take b.limit := List.mem_flatMap

theorem servedSlots_sublist (db : Db) : (servedSlots db).Sublist (slotsDesc db) :=
  List.filter_sublist.map _

/-- **Every entry is shown exactly when there is room for the surplus.** -/
theorem roomForAll_iff (positive : 0 < b.maxRows) :
    (∀ row ∈ slotsDesc db, ∀ id ∈ F.named db row, ∀ v, (F.read db id).2 = some v →
      v ∈ F.shown db b (servedSlots db)) ↔ RoomForAll F b db := by
  have served := Feeder.complete_iff (F := F) (w := db) positive (servedSlots db)
  constructor
  · intro complete v surplus
    rw [← mem_shown]
    rcases surplus with ⟨st, member, dropped⟩ | ⟨row, stored, -, id, names, read⟩
    · refine served.mp (fun row member id names v read => ?_) st member v dropped
      exact complete row ((servedSlots_sublist db).subset member) id names v read
    · exact complete row stored id names v read
  · intro room row stored id names v read
    by_cases member : row ∈ servedSlots db
    · refine served.mpr (fun st cut v dropped => ?_) row member id names v read
      exact mem_shown.mpr (room v (.inl ⟨st, cut, dropped⟩))
    · exact mem_shown.mpr (room v (.inr ⟨row, stored, member, id, names, read⟩))

variable [DecidableEq ν]

/-- A feed's requests end, and show what its slots have room for. -/
theorem reading_shown (steady : F.Steady) (fetch : F.fetch = iterSlotsDesc)
    (key : F.key = fun row => slotKey row.slot) (limit : 0 < b.limit) (positive : 0 < b.maxRows) :
    Reading (F.request b) db none (F.shown db b (servedSlots db)) :=
  Feeder.reading_stretches steady (serves_slots fetch key db) limit positive (.refl db)
    (List.suffix_refl _) (serves_slots fetch key db).first

omit [DecidableEq ν] in
theorem newestFirst_shown (positive : 0 < b.maxRows) :
    NewestFirst F db (F.shown db b (servedSlots db)) :=
  (Feeder.shown_sublist positive (servedSlots db)).trans
      ((servedSlots_sublist db).flatMap _)

end Room

section Laws

variable [Bs58Check] {db : Db}

theorem operationsComplete_iff (cfg : RestConfig) (q : RecentOpsQ) :
    OperationsComplete db cfg q ↔ RoomForAll operationFeed (q.budget cfg) db := by
  have reading : Reading (recentOperations cfg q) db none _ :=
    reading_shown steady_operations rfl rfl (limit_pos q cfg) (maxRows_pos q cfg)
  rw [← roomForAll_iff (maxRows_pos q cfg)]
  constructor
  · rintro ⟨read, walk, -, whole⟩ row stored opId names op found
    rw [reading.unique walk]
    obtain ⟨id, named, lists⟩ := List.mem_flatMap.mp names
    cases block : db.readBlock id with
    | none => simp [block] at lists
    | some held =>
        refine whole row id held ⟨mem_slotsDesc.mp stored, mem_blockIdsOf.mp named, block⟩ opId ?_ op found
        simpa [block] using lists
  · intro whole
    refine ⟨_, reading, newestFirst_shown (maxRows_pos q cfg), ?_⟩
    intro row id block named opId lists op found
    refine whole row (mem_slotsDesc.mpr named.held) opId (List.mem_flatMap.mpr ⟨id, ?_, ?_⟩) op found
    · exact mem_blockIdsOf.mpr named.named
    · rw [named.stored]
      exact lists

theorem blocksComplete_iff (cfg : RestConfig) (limit : Option Nat) :
    BlocksComplete db cfg limit ↔ RoomForAll blockFeed (blockBudget cfg limit) db := by
  have positive : 0 < (blockBudget cfg limit).maxRows := by
    show 0 < 4096
    omega
  have reading : Reading (blocksRecent cfg limit) db none _ :=
    reading_shown steady_blocks rfl rfl (limitOf_pos _ cfg) positive
  rw [← roomForAll_iff positive]
  constructor
  · rintro ⟨read, walk, -, whole⟩ row stored id names v found
    rw [reading.unique walk]
    cases block : db.readBlock id with
    | none =>
        rw [read_blockFeed_none block] at found
        cases found
    | some held =>
        rw [read_blockFeed block] at found
        rw [← Option.some.inj found]
        exact whole row id held ⟨mem_slotsDesc.mp stored, mem_blockIdsOf.mp names, block⟩
  · intro whole
    refine ⟨_, reading, newestFirst_shown positive, ?_⟩
    intro row id block named
    refine whole row (mem_slotsDesc.mpr named.held) id (mem_blockIdsOf.mpr named.named) _ ?_
    rw [read_blockFeed named.stored]

/-- **The recent feeds lose nothing exactly when there is room for what their pages cut off.** -/
theorem recent_feeds_iff (db : Db) (cfg : RestConfig) (q : RecentOpsQ) (limit : Option Nat) :
    (OperationsComplete db cfg q ↔ RoomForAll operationFeed (q.budget cfg) db) ∧
      (BlocksComplete db cfg limit ↔ RoomForAll blockFeed (blockBudget cfg limit) db) :=
  ⟨operationsComplete_iff cfg q, blocksComplete_iff cfg limit⟩

end Laws

/-! ## A slot that overfills its page -/

section Overfull

attribute [local instance] Bs58Check.doubleSha

/-- A FINAL slot whose block has two operations. -/
def busySlot : Db :=
  twoOps.writeBlock { bareBlock (blockNo 1) ⟨10, 0⟩ [] with operationIds := [transferId, callId] }

theorem readSlot_busySlot {s : Slot} {row : SlotState} (found : busySlot.readSlot s = some row) :
    row = readBackSlotState settledSlot := by
  have slots : busySlot.readSlot s = (((Db.empty.writeOp coinTransfer).writeOp contractCall).writeSlot
    settledSlot).readSlot s := rfl
  rw [slots, Db.readSlot_writeSlot] at found
  split at found
  · exact (Option.some.inj found).symm
  · cases found

theorem length_servedSlots_busySlot : (servedSlots busySlot).length ≤ 1 := by
  have only : ∀ row ∈ servedSlots busySlot, row = readBackSlotState settledSlot := fun row member =>
    readSlot_busySlot (mem_slotsDesc.mp ((servedSlots_sublist busySlot).subset member))
  have sorted := pairwise_slotsFrom busySlot (slotKey maxSlot)
  rcases split : servedSlots busySlot with _ | ⟨row, _ | ⟨row', rest⟩⟩
  · exact Nat.zero_le _
  · exact Nat.le_refl _
  · exfalso
    change (servedSlots busySlot).Pairwise _ at sorted
    rw [split] at sorted only
    have older := (List.pairwise_cons.mp sorted).1 row' List.mem_cons_self
    rw [only row (by simp), only row' (by simp)] at older
    exact absurd older (by decide)

/-- **Read one operation a page, a block of two operations loses one.** -/
theorem overfull_slot_loses_operations : ¬ ∀ (db : Db) (cfg : RestConfig) (q : RecentOpsQ)
    (limit : Option Nat), OperationsComplete db cfg q ∧ BlocksComplete db cfg limit := by
  intro complete
  obtain ⟨read, walk, -, whole⟩ := (complete busySlot ⟨20, 100⟩ { limit := some 1 } none).1
  have budget : (RecentOpsQ.budget { limit := some 1 } ⟨20, 100⟩).limit = 1 := rfl
  have reading : Reading (recentOperations ⟨20, 100⟩ { limit := some 1 }) busySlot none _ :=
    reading_shown steady_operations rfl rfl (limit_pos _ _) (maxRows_pos _ _)
  have short := Feeder.length_shown_le (F := operationFeed) (w := busySlot)
    (b := RecentOpsQ.budget { limit := some 1 } ⟨20, 100⟩) (maxRows_pos _ _) (servedSlots busySlot)
  rw [← walk.unique reading, budget, Nat.mul_one] at short
  have named : NamedBlock busySlot (readBackSlotState settledSlot) (blockNo 1) _ :=
    ⟨(Db.readSlot_writeSlot ..).trans (if_pos rfl), .inr rfl,
      (Db.readBlock_writeBlock ..).trans (if_pos rfl)⟩
  have first := whole _ _ _ named transferId (by simp) coinTransfer readOp_twoOps.1
  have second := whole _ _ _ named callId (by simp) contractCall readOp_twoOps.2
  have apart : coinTransfer ≠ contractCall := fun same =>
    absurd (congrArg StoredOperation.id same) (by decide)
  have one := length_servedSlots_busySlot
  rcases read with _ | ⟨op, _ | ⟨op', rest⟩⟩
  · cases first
  · rw [List.mem_singleton] at first second
    exact apart (first.trans second.symm)
  · simp at short
    omega

end Overfull

end MassaIndexer.Laws.RecentFeeds
