/-
# Store.Rebuild -- rebuilding the secondary indexes from the rows

`rebuild_secondary_indexes` empties every secondary index, collects the keys of each primary family,
and puts the row of each key through its writer again; endorsements and denunciations, whose writers
pass over a row that is there, have their entries put in directly. A writer given the row it has
stored changes no table, so the whole is one update of the indexes (`rebuild_eq`).
-/
import MassaIndexer.Store.Indexes

namespace MassaIndexer.Store.Rebuild

open MassaIndexer.Theory.KeyedTable
open MassaIndexer.Data.Ids MassaIndexer.Data.Model MassaIndexer.Data.Keys
open MassaIndexer.Store.ColumnFamilies MassaIndexer.Store.Indexes

set_option autoImplicit false

/-! ## The rebuild -/

/-- `raw_clear` of each family in `SECONDARY_INDEX_CFS`; the slot-to-block pointers are not one of
them. -/
def clearSecondaryIndexes (db : Db) : Db :=
  { db with
    blockByCreator := ∅
    opByCreator := ∅
    opByTarget := ∅
    endorsementByCreator := ∅
    transferByAddr := ∅
    transferByOp := ∅
    transferByBlock := ∅
    denunciationByAddr := ∅
    denunciationRecent := ∅
    scEventByEmitter := ∅
    scEventByCaller := ∅
    scEventByOp := ∅
    asyncBySender := ∅
    asyncByDest := ∅
    asyncByLastSlot := ∅
    deferredBySender := ∅
    deferredByTarget := ∅
    deferredByLastSlot := ∅ }

/-- Collect the keys of a family, then write the row that each of them has. -/
def replay {V : Type} [Row V] (family : Db → Table V) (write : Db → V → Db) (db : Db) : Db :=
  ((family db).rows.toList.map Prod.fst).foldl (fun db k =>
    match (family db).get k with
    | some v => write db v
    | none => db) db

def enterEndorsement (db : Db) (e : StoredEndorsement) : Db :=
  { db with
    endorsementByCreator :=
      db.endorsementByCreator.insert
        (idxBlockByCreator e.contentCreatorAddress.bytes e.slot e.id.bytes) }

def enterDenunciation (db : Db) (d : StoredDenunciationEntry) : Db :=
  { db with
    denunciationByAddr := Index.insertAll db.denunciationByAddr
      ((d.denouncedAddr.map fun a => idxDenunciationByAddr a.bytes d.slot d.hash).toList)
    denunciationRecent := db.denunciationRecent.insert (idxDenunciationRecent d.slot d.hash) }

def rebuildSecondaryIndexes [Bs58Check] (db : Db) : Db :=
  let db := clearSecondaryIndexes db
  let db := replay Db.blocks Db.writeBlock db
  let db := replay Db.endorsements enterEndorsement db
  let db := replay Db.ops Db.writeOp db
  let db := replay Db.transfers Db.writeTransfer db
  let db := replay Db.scEvents Db.writeScEvent db
  let db := replay Db.denunciations enterDenunciation db
  let db := replay Db.asyncMsgs Db.writeAsyncMsg db
  replay Db.deferredCalls Db.writeDeferredCall db

/-! ## One family -/

section Replay

variable {V : Type} [Row V]

/-- **A writer that only enters a row it has stored replays its family as one update.** -/
theorem replay_eq (family : Db → Table V) (write : Db → V → Db) (whole : Db → List V → Db)
    (enters : ∀ db v, (family db).Holds v → write db v = whole db [v])
    (kept : ∀ db v, family (whole db [v]) = family db) (nil : ∀ db, whole db [] = db)
    (cons : ∀ db v rows, whole (whole db [v]) rows = whole db (v :: rows)) (db : Db) :
    replay family write db = whole db (family db).toList := by
  have goes : ∀ (rows : List (Bytes × V)) (db' : Db), family db' = family db →
      (∀ r ∈ rows, (family db).get r.1 = some r.2) →
      (rows.map Prod.fst).foldl (fun db k =>
        match (family db).get k with
        | some v => write db v
        | none => db) db' = whole db' (rows.map Prod.snd) := by
    intro rows
    induction rows with
    | nil => exact fun db' _ _ => (nil db').symm
    | cons r rows ih =>
        intro db' same stored
        have found : (family db').get r.1 = some r.2 := by
          rw [same]
          exact stored r List.mem_cons_self
        have entered : write db' r.2 = whole db' [r.2] := enters db' r.2 (Table.holds_of_get found)
        rw [List.map_cons, List.foldl_cons, found, List.map_cons, ← cons]
        dsimp only
        rw [entered]
        exact ih (whole db' [r.2]) ((kept db' r.2).trans same) fun x member =>
          stored x (List.mem_cons_of_mem r member)
  exact goes (family db).rows.toList db rfl fun r member =>
    Std.ExtTreeMap.mem_toList_iff_getElem?_eq_some.mp member

end Replay

/-- Putting a stored row back leaves its table alone. -/
theorem put_of_holds {V : Type} [Row V] {t : Table V} {v : V} (held : t.Holds v) : t.put v = t :=
  Table.put_of_get held

theorem refresh_same {α : Type} [DecidableEq α] (idx : Index) (entry : Option α → String → List Bytes)
    (field : Option α) (id : String) :
    Db.refresh idx entry (some field) field id = Index.insertAll idx (entry field id) := by
  simp [Db.refresh]

section Writers

variable {db : Db}

theorem writeBlock_held {b : StoredBlock} (held : db.blocks.Holds b) : db.writeBlock b =
    { db with
      blockByCreator := Index.insertAll db.blockByCreator (blockCreatorKeys b)
      slotCandidateBlock := Index.insertAll db.slotCandidateBlock (slotBlockKeys b) } := by
  show { db with blocks := db.blocks.put b, blockByCreator := _, slotCandidateBlock := _ } = _
  rw [put_of_holds held]
  rfl

theorem writeOp_held {op : StoredOperation} (held : db.ops.Holds op) : db.writeOp op =
    { db with
      opByCreator := Index.insertAll db.opByCreator (opCreatorKeys op)
      opByTarget := Index.insertAll db.opByTarget (opTargetKeys op) } := by
  show { db with ops := db.ops.put op, opByCreator := _, opByTarget := _ } = _
  rw [put_of_holds held]
  rfl

theorem writeTransfer_held [Bs58Check] {t : StoredTransfer} (held : db.transfers.Holds t) :
    db.writeTransfer t =
    { db with
      transferByAddr := Index.insertAll db.transferByAddr (Db.transferAddrKeys t)
      transferByOp := Index.insertAll db.transferByOp (Db.transferOpKeys t)
      transferByBlock := Index.insertAll db.transferByBlock (Db.transferBlockKeys t) } := by
  rw [Db.writeTransfer, put_of_holds held]

theorem writeScEvent_held {ev : StoredScEvent} (held : db.scEvents.Holds ev) : db.writeScEvent ev =
    { db with
      scEventByEmitter := Index.insertAll db.scEventByEmitter (Db.eventEmitterKeys ev)
      scEventByCaller := Index.insertAll db.scEventByCaller (Db.eventCallerKeys ev)
      scEventByOp := Index.insertAll db.scEventByOp (Db.eventOpKeys ev) } := by
  rw [Db.writeScEvent, put_of_holds held]

theorem writeAsyncMsg_held {m : StoredAsyncMsg} (held : db.asyncMsgs.Holds m) : db.writeAsyncMsg m =
    { db with
      asyncBySender := Index.insertAll db.asyncBySender (asyncSenderKeys m)
      asyncByDest := Index.insertAll db.asyncByDest (asyncDestKeys m)
      asyncByLastSlot := Index.insertAll db.asyncByLastSlot (asyncLastSlotKeys m) } := by
  have found : db.readAsyncMsg m.id = some m := held
  have row : (if m.firstSeenTsMs ≠ 0 then { m with firstSeenTsMs := m.firstSeenTsMs } else m) = m :=
    ite_self m
  rw [Db.writeAsyncMsg, found]
  dsimp only [Option.map_some]
  rw [row, put_of_holds held, refresh_same, refresh_same, refresh_same]
  rfl

theorem writeDeferredCall_held {c : StoredDeferredCall} (held : db.deferredCalls.Holds c) :
    db.writeDeferredCall c =
    { db with
      deferredBySender := Index.insertAll db.deferredBySender (deferredSenderKeys c)
      deferredByTarget := Index.insertAll db.deferredByTarget (deferredTargetKeys c)
      deferredByLastSlot := Index.insertAll db.deferredByLastSlot (deferredLastSlotKeys c) } := by
  have found : db.readDeferredCall c.id = some c := held
  have row : (if c.firstSeenTsMs ≠ 0 then { c with firstSeenTsMs := c.firstSeenTsMs } else c) = c :=
    ite_self c
  rw [Db.writeDeferredCall, found]
  dsimp only [Option.map_some]
  rw [row, put_of_holds held, refresh_same, refresh_same, refresh_same]
  rfl

end Writers

/-! ## Every family -/

def reenterBlocks (db : Db) (rows : List StoredBlock) : Db :=
  { db with
    blockByCreator := enterAll blockCreatorKeys rows db.blockByCreator
    slotCandidateBlock := enterAll slotBlockKeys rows db.slotCandidateBlock }

theorem replay_blocks (db : Db) :
    replay Db.blocks Db.writeBlock db = reenterBlocks db db.blocks.toList :=
  replay_eq Db.blocks Db.writeBlock reenterBlocks (fun _ _ => writeBlock_held) (fun _ _ => rfl)
      (fun _ => rfl)
    (fun _ _ _ => rfl) db

def reenterEndorsements (db : Db) (rows : List StoredEndorsement) : Db :=
  { db with
    endorsementByCreator := enterAll endorsementCreatorKeys rows db.endorsementByCreator }

theorem replay_endorsements (db : Db) :
    replay Db.endorsements enterEndorsement db = reenterEndorsements db db.endorsements.toList :=
  replay_eq Db.endorsements enterEndorsement reenterEndorsements (fun _ _ _ => rfl) (fun _ _ => rfl)
      (fun _ => rfl)
    (fun _ _ _ => rfl) db

def reenterOps (db : Db) (rows : List StoredOperation) : Db :=
  { db with
    opByCreator := enterAll opCreatorKeys rows db.opByCreator
    opByTarget := enterAll opTargetKeys rows db.opByTarget }

theorem replay_ops (db : Db) :
    replay Db.ops Db.writeOp db = reenterOps db db.ops.toList :=
  replay_eq Db.ops Db.writeOp reenterOps (fun _ _ => writeOp_held) (fun _ _ => rfl) (fun _ => rfl)
    (fun _ _ _ => rfl) db

def reenterTransfers [Bs58Check] (db : Db) (rows : List StoredTransfer) : Db :=
  { db with
    transferByAddr := enterAll Db.transferAddrKeys rows db.transferByAddr
    transferByOp := enterAll Db.transferOpKeys rows db.transferByOp
    transferByBlock := enterAll Db.transferBlockKeys rows db.transferByBlock }

theorem replay_transfers [Bs58Check] (db : Db) :
    replay Db.transfers Db.writeTransfer db = reenterTransfers db db.transfers.toList :=
  replay_eq Db.transfers Db.writeTransfer reenterTransfers (fun _ _ => writeTransfer_held)
      (fun _ _ => rfl) (fun _ => rfl)
    (fun _ _ _ => rfl) db

def reenterScEvents (db : Db) (rows : List StoredScEvent) : Db :=
  { db with
    scEventByEmitter := enterAll Db.eventEmitterKeys rows db.scEventByEmitter
    scEventByCaller := enterAll Db.eventCallerKeys rows db.scEventByCaller
    scEventByOp := enterAll Db.eventOpKeys rows db.scEventByOp }

theorem replay_scEvents (db : Db) :
    replay Db.scEvents Db.writeScEvent db = reenterScEvents db db.scEvents.toList :=
  replay_eq Db.scEvents Db.writeScEvent reenterScEvents (fun _ _ => writeScEvent_held)
      (fun _ _ => rfl) (fun _ => rfl)
    (fun _ _ _ => rfl) db

def reenterDenunciations (db : Db) (rows : List StoredDenunciationEntry) : Db :=
  { db with
    denunciationByAddr := enterAll denunciationAddrKeys rows db.denunciationByAddr
    denunciationRecent := enterAll denunciationRecentKeys rows db.denunciationRecent }

theorem replay_denunciations (db : Db) :
    replay Db.denunciations enterDenunciation db = reenterDenunciations db db.denunciations.toList :=
  replay_eq Db.denunciations enterDenunciation reenterDenunciations (fun _ _ _ => rfl)
      (fun _ _ => rfl) (fun _ => rfl)
    (fun _ _ _ => rfl) db

def reenterAsyncMsgs (db : Db) (rows : List StoredAsyncMsg) : Db :=
  { db with
    asyncBySender := enterAll asyncSenderKeys rows db.asyncBySender
    asyncByDest := enterAll asyncDestKeys rows db.asyncByDest
    asyncByLastSlot := enterAll asyncLastSlotKeys rows db.asyncByLastSlot }

theorem replay_asyncMsgs (db : Db) :
    replay Db.asyncMsgs Db.writeAsyncMsg db = reenterAsyncMsgs db db.asyncMsgs.toList :=
  replay_eq Db.asyncMsgs Db.writeAsyncMsg reenterAsyncMsgs (fun _ _ => writeAsyncMsg_held)
      (fun _ _ => rfl) (fun _ => rfl)
    (fun _ _ _ => rfl) db

def reenterDeferredCalls (db : Db) (rows : List StoredDeferredCall) : Db :=
  { db with
    deferredBySender := enterAll deferredSenderKeys rows db.deferredBySender
    deferredByTarget := enterAll deferredTargetKeys rows db.deferredByTarget
    deferredByLastSlot := enterAll deferredLastSlotKeys rows db.deferredByLastSlot }

theorem replay_deferredCalls (db : Db) :
    replay Db.deferredCalls Db.writeDeferredCall db = reenterDeferredCalls db db.deferredCalls.toList :=
  replay_eq Db.deferredCalls Db.writeDeferredCall reenterDeferredCalls
      (fun _ _ => writeDeferredCall_held) (fun _ _ => rfl) (fun _ => rfl)
    (fun _ _ _ => rfl) db

/-! ## The whole -/

variable [Bs58Check]

/-- **The rebuild replaces the secondary indexes by the entries of the rows.** Of the slot-to-block
pointers it only adds those of the stored blocks. -/
theorem rebuild_eq (db : Db) : rebuildSecondaryIndexes db =
    { db with
      slotCandidateBlock := enterAll slotBlockKeys db.blocks.toList db.slotCandidateBlock
      blockByCreator := enterAll blockCreatorKeys db.blocks.toList ∅
      endorsementByCreator := enterAll endorsementCreatorKeys db.endorsements.toList ∅
      opByCreator := enterAll opCreatorKeys db.ops.toList ∅
      opByTarget := enterAll opTargetKeys db.ops.toList ∅
      transferByAddr := enterAll Db.transferAddrKeys db.transfers.toList ∅
      transferByOp := enterAll Db.transferOpKeys db.transfers.toList ∅
      transferByBlock := enterAll Db.transferBlockKeys db.transfers.toList ∅
      scEventByEmitter := enterAll Db.eventEmitterKeys db.scEvents.toList ∅
      scEventByCaller := enterAll Db.eventCallerKeys db.scEvents.toList ∅
      scEventByOp := enterAll Db.eventOpKeys db.scEvents.toList ∅
      denunciationByAddr := enterAll denunciationAddrKeys db.denunciations.toList ∅
      denunciationRecent := enterAll denunciationRecentKeys db.denunciations.toList ∅
      asyncBySender := enterAll asyncSenderKeys db.asyncMsgs.toList ∅
      asyncByDest := enterAll asyncDestKeys db.asyncMsgs.toList ∅
      asyncByLastSlot := enterAll asyncLastSlotKeys db.asyncMsgs.toList ∅
      deferredBySender := enterAll deferredSenderKeys db.deferredCalls.toList ∅
      deferredByTarget := enterAll deferredTargetKeys db.deferredCalls.toList ∅
      deferredByLastSlot := enterAll deferredLastSlotKeys db.deferredCalls.toList ∅ } := by
  rw [rebuildSecondaryIndexes, replay_blocks, replay_endorsements, replay_ops, replay_transfers,
    replay_scEvents, replay_denunciations, replay_asyncMsgs, replay_deferredCalls]
  rfl

end MassaIndexer.Store.Rebuild
