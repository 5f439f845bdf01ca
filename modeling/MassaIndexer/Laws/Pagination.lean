/-
# Laws.Pagination -- reading the store page by page

Every cursor scan but one reads, page by page and at any page size, exactly what one unlimited call reads, on
every store, entries whose row is gone included (`scans_paginate`); the slots at or before one are read from
the cursor right behind its key. The exception is the transfers of an address. A transfer that the address
sent to itself has two entries, and one whose row was replaced may have entries that no longer belong; the
pages are right exactly when no entry is stale and no page ends between the two (`transfers_paginate_iff`).
-/
import MassaIndexer.Store.TransferScan
import MassaIndexer.Laws.IndexExactness

namespace MassaIndexer.Laws.Pagination

open MassaIndexer.Theory.KeyedTable MassaIndexer.Theory.Runs MassaIndexer.Theory.Cursor
open MassaIndexer.Data.Ids MassaIndexer.Data.Model MassaIndexer.Data.Keys MassaIndexer.Data.KeyOrder
open MassaIndexer.Store.ColumnFamilies MassaIndexer.Store.Indexes MassaIndexer.Store.Scans
open MassaIndexer.Store.TransferScan
open MassaIndexer.Laws.IndexExactness

set_option autoImplicit false

section Scans

variable [Bs58Check]

/-! ## The scans of one entry a row -/

/-- Following the cursors ends and reads, in order, what one unlimited call reads. -/
def Paginates {α : Type} (scan : Option Bytes → Nat → Page Bytes α) : Prop :=
  ∃ rows whole, Reads scan none rows whole

/-- So do all scans that meet a row at one entry; behind a slot's key the slots at or before it are read. -/
structure ScansPaginate (db : Db) : Prop where
  blocksByCreator : ∀ a, Paginates (iterBlocksByCreator db a)
  opsByCreator : ∀ a, Paginates (iterOpsByCreator db a)
  opsByTarget : ∀ a, Paginates (iterOpsByTarget db a)
  endorsementsByCreator : ∀ a, Paginates (iterEndorsementsByCreator db a)
  scEventsByOp : ∀ o, Paginates (iterScEventsByOp db o)
  scEventsByEmitter : ∀ a, Paginates (iterScEventsByEmitter db a)
  scEventsByCaller : ∀ a, Paginates (iterScEventsByCaller db a)
  scEventsForSlot : ∀ s, Paginates (iterScEventsForSlot db s)
  denunciationsByAddr : ∀ a, Paginates (iterDenunciationsByAddr db a)
  denunciationsRecent : Paginates (iterDenunciationsRecent db)
  transfersByOp : ∀ o, Paginates (iterTransfersByOp db o)
  transfersByBlock : ∀ b, Paginates (iterTransfersByBlock db b)
  asyncByAddr : ∀ a role, Paginates (iterAsyncByAddr db a role)
  allAsync : Paginates (iterAllAsync db)
  deferredByAddr : ∀ a role, Paginates (iterDeferredByAddr db a role)
  allDeferred : Paginates (iterAllDeferred db)
  slotsDesc : Paginates (iterSlotsDesc db)
  slotsFrom : ∀ s, ∃ entries slots,
    Reads (iterSlotsDesc db) (some (slotKey s ++ [0])) entries slots ∧
    (∀ row, row ∈ slots ↔ db.readSlot row.slot = some row ∧ ¬ s.lt row.slot = true) ∧
    slots.Pairwise fun row later => later.slot.lt row.slot = true

omit [Bs58Check] in
theorem paginates_scanIndex {α : Type} (idx : Index) (pre : Bytes) (hit : Bytes → Option α) :
    Paginates (scanIndex idx pre hit) := ⟨_, _, reads_scanIndex idx pre hit⟩

omit [Bs58Check] in
theorem slotKey_append_ne (s t : Slot) : some (slotKey s ++ [0]) ≠ some (slotKey t) := by
  intro same
  have lengths := congrArg List.length (Option.some.inj same)
  simp at lengths

/-- **Every scan that meets a row at one entry reads the same by pages of any size as by one call.** -/
theorem scans_paginate (db : Db) : ScansPaginate db where
  blocksByCreator a := paginates_scanIndex _ _ _
  opsByCreator a := paginates_scanIndex _ _ _
  opsByTarget a := paginates_scanIndex _ _ _
  endorsementsByCreator a :=
    ⟨_, _, (reads_scanIndex db.endorsementByCreator a.bytes (idOfKey FamilyId.fromKeyBytes)).map
      FamilyId.text⟩
  scEventsByOp o := paginates_scanIndex _ _ _
  scEventsByEmitter a := paginates_scanIndex _ _ _
  scEventsByCaller a := paginates_scanIndex _ _ _
  scEventsForSlot s := ⟨_, _, reads_iterScEventsForSlot db s⟩
  denunciationsByAddr a := paginates_scanIndex _ _ _
  denunciationsRecent := ⟨_, _, reads_scanAllIndex _ _⟩
  transfersByOp o := paginates_scanIndex _ _ _
  transfersByBlock b := paginates_scanIndex _ _ _
  asyncByAddr a role := paginates_scanIndex _ _ _
  allAsync := ⟨_, _, reads_scanAll db.asyncMsgs⟩
  deferredByAddr a role := paginates_scanIndex _ _ _
  allDeferred := ⟨_, _, reads_scanAll db.deferredCalls⟩
  slotsDesc := ⟨_, _, reads_iterSlotsDesc db fun s => by simp⟩
  slotsFrom s := ⟨_, _, reads_iterSlotsDesc db fun t => slotKey_append_ne s t,
    fun row => mem_slotsFrom, pairwise_slotsFrom db _⟩

end Scans

/-! ## The transfers of an address -/

section Transfers

variable [Bs58Check] {db : Db}

theorem covers_apply (db : Db) (w : TransferWrite)
    (covers : Covers Db.transferAddrKeys db.transfers db.transferByAddr) :
    Covers Db.transferAddrKeys (w.apply db).transfers (w.apply db).transferByAddr := by
  cases w with
  | write t => exact covers_put entries_transferAddr covers t
  | clear s => exact covers_eraseUnder entries_transferAddr covers (slotKey s)

theorem built_apply (db : Db) (w : TransferWrite) (built : Built db.transferByAddr) :
    Built (w.apply db).transferByAddr := by
  cases w with
  | write t =>
      intro k entered
      rcases Index.mem_insertAll.mp entered with new | old
      · rcases mem_transferAddrKeys.mp new with ⟨a, -, rfl⟩ | ⟨a, -, rfl⟩
        · exact ⟨a, placeOf t, 1, .inl rfl, rfl⟩
        · exact ⟨a, placeOf t, 2, .inr rfl, rfl⟩
      · exact built k old
  | clear s => exact fun k entered => built k (Index.mem_eraseAll.mp entered).1

theorem built_run (writes : List TransferWrite) :
    Built (run TransferWrite.apply Db.empty writes).transferByAddr :=
  invariant_of_step (P := fun db : Db => Built db.transferByAddr) built_apply writes fun _ entered =>
    absurd entered Std.ExtTreeSet.not_mem_empty

theorem covers_run (writes : List TransferWrite) :
    Covers Db.transferAddrKeys (run TransferWrite.apply Db.empty writes).transfers
      (run TransferWrite.apply Db.empty writes).transferByAddr :=
  invariant_of_step (P := fun db : Db => Covers Db.transferAddrKeys db.transfers db.transferByAddr)
    covers_apply writes transfersIndexed_empty.byAddr.covers

/-- **On a store built by writes and clears the pages of an address list its transfers, each once and newest
first, exactly when no entry is stale and no page ends at a transfer that has both entries.** -/
theorem transfers_paginate_iff (writes : List TransferWrite) (a : Address) {limit : Nat}
    (positive : 0 < limit) :
    PagesRight (run TransferWrite.apply Db.empty writes) a limit ↔
      NoStale (run TransferWrite.apply Db.empty writes) a ∧
        NoSplit (run TransferWrite.apply Db.empty writes) a limit :=
  pagesRight_iff (built_run writes) (covers_run writes) positive

/-- A transfer to oneself, read one transfer a page. -/
theorem not_pagesRight_self :
    ¬ PagesRight (run TransferWrite.apply Db.empty
      [.write (bareTransfer (some someUser) (some someUser))]) someUser 1 := by
  intro right
  have noSplit := ((pagesRight_iff (built_run _) (covers_run _) Nat.one_pos).mp right).2
  have held : (Db.empty.writeTransfer (bareTransfer (some someUser) (some someUser))).transfers.Holds
      (bareTransfer (some someUser) (some someUser)) := by
    show (Db.empty.writeTransfer _).readTransfer ⟨1, 0⟩ 0 = _
    rw [Db.readTransfer_writeTransfer]
    rfl
  have sent := sender_bareTransfer (some someUser)
  have received := recipient_bareTransfer (some someUser)
  have entered := covers_run [.write (bareTransfer (some someUser) (some someUser))] _ held
  exact noSplit _ held (.inl sent)
    (entered _ (mem_transferAddrKeys.mpr (.inl ⟨someUser, sent, rfl⟩)))
    (entered _ (mem_transferAddrKeys.mpr (.inr ⟨someUser, received, rfl⟩))) (one_dvd _)

end Transfers

section SelfTransfer

attribute [local instance] Bs58Check.doubleSha

/-- Read one transfer a page, a transfer to oneself is read twice. -/
theorem self_transfer_read_twice :
    ¬ PagesRight (run TransferWrite.apply Db.empty
      [.write (bareTransfer (some someUser) (some someUser))]) someUser 1 :=
  not_pagesRight_self

theorem transfers_paginate_iff_self :
    PagesRight (run TransferWrite.apply Db.empty
        [.write (bareTransfer (some someUser) (some someUser))]) someUser 1 ↔
      NoStale (run TransferWrite.apply Db.empty
        [.write (bareTransfer (some someUser) (some someUser))]) someUser ∧
      NoSplit (run TransferWrite.apply Db.empty
        [.write (bareTransfer (some someUser) (some someUser))]) someUser 1 :=
  transfers_paginate_iff [.write (bareTransfer (some someUser) (some someUser))] someUser (by decide)

end SelfTransfer

end MassaIndexer.Laws.Pagination
