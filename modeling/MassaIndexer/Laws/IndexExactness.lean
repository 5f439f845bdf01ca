/-
# Laws.IndexExactness -- indexes that follow rows which change

Transfers and pool rows are written again and again. The writer of pool rows retires the entries of the row
it replaces, so their six indexes are the image of the rows after any writes (`pool_indexed`). The writer of
transfers only enters: its three indexes stay the image of the rows exactly as long as every row that is
replaced leaves all the addresses, operation and block it named to its successor (`transfers_indexed_iff`).
-/
import MassaIndexer.Theory.Runs
import MassaIndexer.Store.Rebuild
import MassaIndexer.Store.Listings

namespace MassaIndexer.Laws.IndexExactness

open MassaIndexer.Theory.KeyedTable MassaIndexer.Theory.Runs MassaIndexer.Theory.Cursor
open MassaIndexer.Data.Ids MassaIndexer.Data.Model MassaIndexer.Data.Keys MassaIndexer.Data.KeyOrder
open MassaIndexer.Store.ColumnFamilies MassaIndexer.Store.Indexes MassaIndexer.Store.Rebuild
open MassaIndexer.Store.Scans MassaIndexer.Store.Listings

set_option autoImplicit false

/-! ## Transfers -/

/-- The writers of the transfer families. -/
inductive TransferWrite where
  | write (t : StoredTransfer)
  | clear (s : Slot)

section Transfers

variable [Bs58Check]

def TransferWrite.apply (db : Db) : TransferWrite → Db
  | .write t => db.writeTransfer t
  | .clear s => db.clearTransfersForSlot s

/-- The transfer indexes are the image of the transfers. -/
structure TransfersIndexed (db : Db) : Prop where
  byAddr : Exact Db.transferAddrKeys db.transfers db.transferByAddr
  byOp : Exact Db.transferOpKeys db.transfers db.transferByOp
  byBlock : Exact Db.transferBlockKeys db.transfers db.transferByBlock

/-- The transfer indexes are those that a rebuild leaves. -/
structure TransfersAsRebuilt (db : Db) : Prop where
  byAddr : db.transferByAddr = (rebuildSecondaryIndexes db).transferByAddr
  byOp : db.transferByOp = (rebuildSecondaryIndexes db).transferByOp
  byBlock : db.transferByBlock = (rebuildSecondaryIndexes db).transferByBlock

theorem TransfersIndexed.asRebuilt {db : Db} (indexed : TransfersIndexed db) : TransfersAsRebuilt db := by
  constructor
  · rw [rebuild_eq]
    exact indexed.byAddr.unique (exact_rebuild _ _)
  · rw [rebuild_eq]
    exact indexed.byOp.unique (exact_rebuild _ _)
  · rw [rebuild_eq]
    exact indexed.byBlock.unique (exact_rebuild _ _)

/-- Whoever was named is still named, in the same role. -/
structure Names.Within (old new : Names) : Prop where
  sender : ∀ a, old.sender = some a → new.sender = some a
  recipient : ∀ a, old.recipient = some a → new.recipient = some a
  operation : ∀ o, old.operation = some o → new.operation = some o
  block : ∀ b, old.block = some b → new.block = some b

/-- A write that replaces a row names all that the row named. -/
def KeepsNames (db : Db) : TransferWrite → Prop
  | .write t => ∀ old, db.readTransfer t.slot t.indexInSlot = some old →
      Names.Within (namesOf old) (namesOf t)
  | .clear _ => True

section Overwrite

variable {old t : StoredTransfer} (slot : old.slot = t.slot) (index : old.indexInSlot = t.indexInSlot)

include slot index

theorem addrKeys_kept_iff : (∀ k ∈ Db.transferAddrKeys old, k ∈ Db.transferAddrKeys t) ↔
    (∀ a, (namesOf old).sender = some a → (namesOf t).sender = some a) ∧
    ∀ a, (namesOf old).recipient = some a → (namesOf t).recipient = some a := by
  simp only [mem_transferAddrKeys, slot, index]
  constructor
  · intro kept
    constructor
    · intro a sent
      rcases kept _ (.inl ⟨a, sent, rfl⟩) with ⟨b, sent', same⟩ | ⟨b, -, same⟩
      · rw [sent', (idxTransferByAddr_inj.mp same).1]
      · exact absurd (idxTransferByAddr_inj.mp same).2.2.2 (by decide)
    · intro a received
      rcases kept _ (.inr ⟨a, received, rfl⟩) with ⟨b, -, same⟩ | ⟨b, received', same⟩
      · exact absurd (idxTransferByAddr_inj.mp same).2.2.2 (by decide)
      · rw [received', (idxTransferByAddr_inj.mp same).1]
  · rintro ⟨senders, recipients⟩ k (⟨a, sent, rfl⟩ | ⟨a, received, rfl⟩)
    · exact .inl ⟨a, senders a sent, rfl⟩
    · exact .inr ⟨a, recipients a received, rfl⟩

theorem opKeys_kept_iff : (∀ k ∈ Db.transferOpKeys old, k ∈ Db.transferOpKeys t) ↔
    ∀ o, (namesOf old).operation = some o → (namesOf t).operation = some o := by
  simp only [mem_transferOpKeys, slot, index]
  constructor
  · intro kept o of
    obtain ⟨o', of', same⟩ := kept _ ⟨o, of, rfl⟩
    rw [of', FamilyId.ext ((idxIdSlotIndex_inj (o'.width.trans o.width.symm)).mp same).1]
  · rintro kept k ⟨o, of, rfl⟩
    exact ⟨o, kept o of, rfl⟩

theorem blockKeys_kept_iff : (∀ k ∈ Db.transferBlockKeys old, k ∈ Db.transferBlockKeys t) ↔
    ∀ b, (namesOf old).block = some b → (namesOf t).block = some b := by
  simp only [mem_transferBlockKeys, slot, index]
  constructor
  · intro kept b inside
    obtain ⟨b', inside', same⟩ := kept _ ⟨b, inside, rfl⟩
    rw [inside', FamilyId.ext ((idxIdSlotIndex_inj (b'.width.trans b.width.symm)).mp same).1]
  · rintro kept k ⟨b, inside, rfl⟩
    exact ⟨b, kept b inside, rfl⟩

end Overwrite

omit [Bs58Check] in
theorem place_of_readTransfer {db : Db} {s : Slot} {i : UInt32} {t : StoredTransfer}
    (found : db.readTransfer s i = some t) : t.slot = s ∧ t.indexInSlot = i :=
  transferKey_inj.mp (Table.key_of_get found)

/-- **One write keeps the indexes exact exactly when it keeps the names of the row it replaces.** -/
theorem transfersIndexed_apply_iff (db : Db) (w : TransferWrite) (indexed : TransfersIndexed db) :
    TransfersIndexed (w.apply db) ↔ KeepsNames db w := by
  cases w with
  | clear s =>
      refine iff_of_true ⟨?_, ?_, ?_⟩ trivial
      · exact exact_eraseUnder entries_transferAddr indexed.byAddr (slotKey s)
      · exact exact_eraseUnder entries_transferOp indexed.byOp (slotKey s)
      · exact exact_eraseUnder entries_transferBlock indexed.byBlock (slotKey s)
  | write t =>
      have byAddr := exact_put_iff entries_transferAddr indexed.byAddr t
      have byOp := exact_put_iff entries_transferOp indexed.byOp t
      have byBlock := exact_put_iff entries_transferBlock indexed.byBlock t
      constructor
      · intro after old found
        obtain ⟨slot, index⟩ := place_of_readTransfer found
        obtain ⟨sender, recipient⟩ :=
          (addrKeys_kept_iff slot index).mp (byAddr.mp after.byAddr old found)
        exact ⟨sender, recipient, (opKeys_kept_iff slot index).mp (byOp.mp after.byOp old found),
          (blockKeys_kept_iff slot index).mp (byBlock.mp after.byBlock old found)⟩
      · intro keeps
        refine ⟨byAddr.mpr fun old found => ?_, byOp.mpr fun old found => ?_,
          byBlock.mpr fun old found => ?_⟩
        · obtain ⟨slot, index⟩ := place_of_readTransfer found
          exact (addrKeys_kept_iff slot index).mpr ⟨(keeps old found).sender, (keeps old found).recipient⟩
        · obtain ⟨slot, index⟩ := place_of_readTransfer found
          exact (opKeys_kept_iff slot index).mpr (keeps old found).operation
        · obtain ⟨slot, index⟩ := place_of_readTransfer found
          exact (blockKeys_kept_iff slot index).mpr (keeps old found).block

theorem transfersIndexed_empty : TransfersIndexed Db.empty :=
  ⟨exact_empty _, exact_empty _, exact_empty _⟩

/-- **The transfer indexes are the image of the transfers throughout a run of writes, and so what a rebuild
would leave, exactly when every row that is replaced leaves its names to its successor.** -/
theorem transfers_indexed_iff (writes : List TransferWrite) :
    (∀ db, Visits TransferWrite.apply Db.empty writes db →
      TransfersIndexed db ∧ TransfersAsRebuilt db) ↔
    Along TransferWrite.apply KeepsNames Db.empty writes := by
  rw [← forall_visits_iff_along transfersIndexed_apply_iff transfersIndexed_empty]
  constructor
  · exact fun both db visited => (both db visited).1
  · exact fun indexed db visited => ⟨indexed db visited, (indexed db visited).asRebuilt⟩

/-- A transfer of nothing, at the first place of slot `(1, 0)`. -/
def bareTransfer (sender recipient : Option Address) : StoredTransfer where
  slot := ⟨1, 0⟩
  indexInSlot := 0
  id := ""
  blockId := none
  blockTimestampMs := 0
  fromAddr := sender.map Address.text
  toAddr := recipient.map Address.text
  value := .unknown
  origin := .unspecified
  operationId := none
  asyncMsgId := none
  deferredCallId := none
  denunciationIndex := none
  isFinal := true
  firstSeenTsMs := 0

/-- A user address. -/
def someUser : Address := ⟨List.replicate addrKeyLen 0, Address.width_zeros⟩

theorem parse_someUser : Address.parse someUser.text = .ok someUser := Address.parse_text (.inl rfl)

theorem sender_bareTransfer (recipient : Option Address) :
    (namesOf (bareTransfer (some someUser) recipient)).sender = some someUser := by
  show ((some someUser.text).bind fun s => (Address.parse s).toOption) = some someUser
  rw [Option.bind_some, parse_someUser]
  rfl

theorem recipient_bareTransfer (sender : Option Address) :
    (namesOf (bareTransfer sender (some someUser))).recipient = some someUser := by
  show ((some someUser.text).bind fun s => (Address.parse s).toOption) = some someUser
  rw [Option.bind_some, parse_someUser]
  rfl

/-- A row written over one that named a sender leaves that sender's entry behind. -/
theorem not_transfersIndexed_overwritten :
    ¬ TransfersIndexed ((Db.empty.writeTransfer (bareTransfer (some someUser) none)).writeTransfer
      (bareTransfer none none)) := by
  intro after
  have first : TransfersIndexed (Db.empty.writeTransfer (bareTransfer (some someUser) none)) := by
    refine (transfersIndexed_apply_iff Db.empty (.write _) transfersIndexed_empty).mpr ?_
    intro old found
    rw [Db.readTransfer, Db.empty, Table.get_empty] at found
    cases found
  have keeps := (transfersIndexed_apply_iff _ (.write _) first).mp after
  have stored : (Db.empty.writeTransfer (bareTransfer (some someUser) none)).readTransfer ⟨1, 0⟩ 0 =
      some (bareTransfer (some someUser) none) := by
    rw [Db.readTransfer_writeTransfer]
    rfl
  have kept := (keeps _ stored).sender someUser (sender_bareTransfer none)
  cases kept

end Transfers

section OverwrittenTransfer

attribute [local instance] Bs58Check.doubleSha

/-- The address index still lists a transfer under the sender that its row no longer names. -/
theorem overwritten_transfer_indexed :
    ¬ TransfersIndexed (run TransferWrite.apply Db.empty
      [.write (bareTransfer (some someUser) none), .write (bareTransfer none none)]) :=
  not_transfersIndexed_overwritten

end OverwrittenTransfer

/-! ## The pools -/

/-- The writers of async messages and deferred calls. -/
inductive PoolWrite where
  | writeAsyncMsg (msg : StoredAsyncMsg)
  | deleteAsyncMsg (id : String)
  | writeDeferredCall (call : StoredDeferredCall)

def PoolWrite.apply (db : Db) : PoolWrite → Db
  | .writeAsyncMsg msg => db.writeAsyncMsg msg
  | .deleteAsyncMsg id => Store.Indexes.deleteAsyncMsg db id
  | .writeDeferredCall call => db.writeDeferredCall call

/-- The pool indexes are the image of the pool rows. -/
structure PoolIndexed (db : Db) : Prop where
  asyncBySender : Exact asyncSenderKeys db.asyncMsgs db.asyncBySender
  asyncByDest : Exact asyncDestKeys db.asyncMsgs db.asyncByDest
  asyncByLastSlot : Exact asyncLastSlotKeys db.asyncMsgs db.asyncByLastSlot
  deferredBySender : Exact deferredSenderKeys db.deferredCalls db.deferredBySender
  deferredByTarget : Exact deferredTargetKeys db.deferredCalls db.deferredByTarget
  deferredByLastSlot : Exact deferredLastSlotKeys db.deferredCalls db.deferredByLastSlot

/-! ### One write -/

/-- Retiring the entry of a field that moved keeps the index of the field exact. -/
theorem exact_refreshed {V α : Type} [Row V] [DecidableEq α] {t : Table V} {idx : Index}
    {field : V → Option α} {idOf : V → String} {entry : Option α → String → List Bytes}
    (entries : Entries fun v => entry (field v) (idOf v))
    (exact_ : Exact (fun v => entry (field v) (idOf v)) t idx) {v : V} {prev : Option V}
    (found : t.get (Row.key v) = prev) (sameId : ∀ p, prev = some p → idOf p = idOf v) :
    Exact (fun v => entry (field v) (idOf v)) (t.put v)
      (Db.refresh idx entry (prev.map field) (field v) (idOf v)) := by
  cases prev with
  | none => exact exact_new entries exact_ found
  | some p =>
      have ids := sameId p rfl
      by_cases moved : field p = field v
      · have stays : Db.refresh idx entry (some (field p)) (field v) (idOf v) =
            Index.insertAll idx (entry (field v) (idOf v)) := by simp [Db.refresh, moved]
        rw [Option.map_some, stays]
        refine (exact_put_iff entries exact_ v).mpr fun old found' k entered => ?_
        obtain rfl : p = old := Option.some.inj (found.symm.trans found')
        rwa [moved, ids] at entered
      · have retires : Db.refresh idx entry (some (field p)) (field v) (idOf v) =
            Index.insertAll (Index.eraseAll idx (entry (field p) (idOf v)))
              (entry (field v) (idOf v)) := by simp [Db.refresh, moved]
        rw [Option.map_some, retires]
        refine exact_refresh entries exact_ (fun k gone => ⟨p, found, ?_⟩) fun old found' k entered => ?_
        · rwa [ids]
        · obtain rfl : p = old := Option.some.inj (found.symm.trans found')
          exact .inr (by rwa [ids] at entered)

/-- The row that `write_async_msg` files. -/
def asyncRow (prev : Option StoredAsyncMsg) (msg : StoredAsyncMsg) : StoredAsyncMsg :=
  match prev with
  | some p => if p.firstSeenTsMs ≠ 0 then { msg with firstSeenTsMs := p.firstSeenTsMs } else msg
  | none => msg

def deferredRow (prev : Option StoredDeferredCall) (call : StoredDeferredCall) : StoredDeferredCall :=
  match prev with
  | some p => if p.firstSeenTsMs ≠ 0 then { call with firstSeenTsMs := p.firstSeenTsMs } else call
  | none => call

theorem id_asyncRow (prev : Option StoredAsyncMsg) (msg : StoredAsyncMsg) :
    (asyncRow prev msg).id = msg.id := by
  cases prev with
  | none => rfl
  | some p =>
      show (if p.firstSeenTsMs ≠ 0 then _ else msg).id = msg.id
      split <;> rfl

theorem id_deferredRow (prev : Option StoredDeferredCall) (call : StoredDeferredCall) :
    (deferredRow prev call).id = call.id := by
  cases prev with
  | none => rfl
  | some p =>
      show (if p.firstSeenTsMs ≠ 0 then _ else call).id = call.id
      split <;> rfl

variable {db : Db}

theorem poolIndexed_writeAsyncMsg (indexed : PoolIndexed db) (msg : StoredAsyncMsg) :
    PoolIndexed (db.writeAsyncMsg msg) := by
  have ids := id_asyncRow (db.readAsyncMsg msg.id) msg
  have found : db.asyncMsgs.get (Row.key (asyncRow (db.readAsyncMsg msg.id) msg)) =
      db.readAsyncMsg msg.id := congrArg (fun id => db.asyncMsgs.get (textBytes id)) ids
  have sameId : ∀ p, db.readAsyncMsg msg.id = some p →
      p.id = (asyncRow (db.readAsyncMsg msg.id) msg).id := fun p stored =>
    (Db.id_of_readAsyncMsg stored).trans ids.symm
  exact { indexed with
    asyncBySender := exact_refreshed entries_asyncSender indexed.asyncBySender found sameId
    asyncByDest := exact_refreshed entries_asyncDest indexed.asyncByDest found sameId
    asyncByLastSlot := exact_refreshed entries_asyncLastSlot indexed.asyncByLastSlot found sameId }

theorem poolIndexed_writeDeferredCall (indexed : PoolIndexed db) (call : StoredDeferredCall) :
    PoolIndexed (db.writeDeferredCall call) := by
  have ids := id_deferredRow (db.readDeferredCall call.id) call
  have found : db.deferredCalls.get (Row.key (deferredRow (db.readDeferredCall call.id) call)) =
      db.readDeferredCall call.id := congrArg (fun id => db.deferredCalls.get (textBytes id)) ids
  have sameId : ∀ p, db.readDeferredCall call.id = some p →
      p.id = (deferredRow (db.readDeferredCall call.id) call).id := fun p stored =>
    (Db.id_of_readDeferredCall stored).trans ids.symm
  exact { indexed with
    deferredBySender := exact_refreshed entries_deferredSender indexed.deferredBySender found sameId
    deferredByTarget := exact_refreshed entries_deferredTarget indexed.deferredByTarget found sameId
    deferredByLastSlot :=
      exact_refreshed entries_deferredLastSlot indexed.deferredByLastSlot found sameId }

theorem poolIndexed_deleteAsyncMsg (indexed : PoolIndexed db) (id : String) :
    PoolIndexed (Store.Indexes.deleteAsyncMsg db id) := by
  rw [Store.Indexes.deleteAsyncMsg]
  cases found : db.readAsyncMsg id with
  | none => exact indexed
  | some prev =>
      obtain rfl : prev.id = id := Db.id_of_readAsyncMsg found
      exact { indexed with
        asyncBySender := exact_erase entries_asyncSender indexed.asyncBySender found
        asyncByDest := exact_erase entries_asyncDest indexed.asyncByDest found
        asyncByLastSlot := exact_erase entries_asyncLastSlot indexed.asyncByLastSlot found }

theorem poolIndexed_apply (db : Db) (w : PoolWrite) (indexed : PoolIndexed db) :
    PoolIndexed (w.apply db) := by
  cases w with
  | writeAsyncMsg msg => exact poolIndexed_writeAsyncMsg indexed msg
  | deleteAsyncMsg id => exact poolIndexed_deleteAsyncMsg indexed id
  | writeDeferredCall call => exact poolIndexed_writeDeferredCall indexed call

theorem poolIndexed_run (writes : List PoolWrite) : PoolIndexed (run PoolWrite.apply Db.empty writes) :=
  invariant_of_step poolIndexed_apply writes
    ⟨exact_empty _, exact_empty _, exact_empty _, exact_empty _, exact_empty _, exact_empty _⟩

/-! ### The first sighting -/

/-- The sightings that came with the writes of a message since it was created. -/
def asyncSightings (id : String) (seen : List Int) : PoolWrite → List Int
  | .writeAsyncMsg msg => if msg.id = id then seen ++ [msg.firstSeenTsMs] else seen
  | .deleteAsyncMsg gone => if gone = id then [] else seen
  | .writeDeferredCall _ => seen

def deferredSightings (id : String) (seen : List Int) : PoolWrite → List Int
  | .writeDeferredCall call => if call.id = id then seen ++ [call.firstSeenTsMs] else seen
  | _ => seen

/-- The first of them that is not zero; zero stands for none. -/
def firstSighting (seen : List Int) : Option Int :=
  if seen = [] then none else some ((seen.find? (· ≠ 0)).getD 0)

theorem firstSighting_append (seen : List Int) (x : Int) : firstSighting (seen ++ [x]) =
    some (match firstSighting seen with
      | some p => if p ≠ 0 then p else x
      | none => x) := by
  have last : ([x].find? (· ≠ 0)).getD 0 = x := by
    by_cases zero : x = 0 <;> simp [zero]
  rw [firstSighting, if_neg (by simp), firstSighting, List.find?_append]
  by_cases blank : seen = []
  · rw [if_pos blank, blank]
    simpa using last
  · rw [if_neg blank]
    cases known : seen.find? (· ≠ 0) with
    | none => simpa using last
    | some p =>
        have counts : p ≠ 0 := by simpa using List.find?_some known
        simp [counts]

theorem readAsyncMsg_deleteAsyncMsg (db : Db) (gone id : String) :
    (Store.Indexes.deleteAsyncMsg db gone).readAsyncMsg id =
      if gone = id then none else db.readAsyncMsg id := by
  rw [Store.Indexes.deleteAsyncMsg]
  cases found : db.readAsyncMsg gone with
  | none =>
      dsimp only
      split
      · next same => rw [← same, found]
      · rfl
  | some prev =>
      show (db.asyncMsgs.erase (textBytes gone)).get (textBytes id) = _
      rw [Table.get_erase]
      exact if_congr ⟨fun same => textBytes_injective same, congrArg textBytes⟩ rfl rfl

theorem firstSeen_asyncRow (prev : Option StoredAsyncMsg) (msg : StoredAsyncMsg) :
    (asyncRow prev msg).firstSeenTsMs = match prev.map (·.firstSeenTsMs) with
      | some p => if p ≠ 0 then p else msg.firstSeenTsMs
      | none => msg.firstSeenTsMs := by
  cases prev with
  | none => rfl
  | some p =>
      show (if p.firstSeenTsMs ≠ 0 then _ else msg).firstSeenTsMs = if p.firstSeenTsMs ≠ 0 then _ else _
      split <;> rfl

theorem firstSeen_deferredRow (prev : Option StoredDeferredCall) (call : StoredDeferredCall) :
    (deferredRow prev call).firstSeenTsMs = match prev.map (·.firstSeenTsMs) with
      | some p => if p ≠ 0 then p else call.firstSeenTsMs
      | none => call.firstSeenTsMs := by
  cases prev with
  | none => rfl
  | some p =>
      show (if p.firstSeenTsMs ≠ 0 then _ else call).firstSeenTsMs = if p.firstSeenTsMs ≠ 0 then _ else _
      split <;> rfl

theorem asyncFirstSeen_apply (w : PoolWrite) {id : String} {seen : List Int}
    (known : (db.readAsyncMsg id).map (·.firstSeenTsMs) = firstSighting seen) :
    ((w.apply db).readAsyncMsg id).map (·.firstSeenTsMs) =
      firstSighting (asyncSightings id seen w) := by
  cases w with
  | writeAsyncMsg msg =>
      show ((db.writeAsyncMsg msg).readAsyncMsg id).map _ = firstSighting (if msg.id = id then _ else seen)
      rw [Db.readAsyncMsg_writeAsyncMsg]
      by_cases same : msg.id = id
      · rw [if_pos same, if_pos same, firstSighting_append, ← known, ← same]
        exact congrArg some (firstSeen_asyncRow (db.readAsyncMsg msg.id) msg)
      · rw [if_neg same, if_neg same, known]
  | deleteAsyncMsg gone =>
      show ((Store.Indexes.deleteAsyncMsg db gone).readAsyncMsg id).map _ =
        firstSighting (if gone = id then [] else seen)
      rw [readAsyncMsg_deleteAsyncMsg]
      by_cases same : gone = id
      · rw [if_pos same, if_pos same]
        rfl
      · rw [if_neg same, if_neg same, known]
  | writeDeferredCall call => exact known

theorem deferredFirstSeen_apply (w : PoolWrite) {id : String} {seen : List Int}
    (known : (db.readDeferredCall id).map (·.firstSeenTsMs) = firstSighting seen) :
    ((w.apply db).readDeferredCall id).map (·.firstSeenTsMs) =
      firstSighting (deferredSightings id seen w) := by
  cases w with
  | writeAsyncMsg msg => exact known
  | deleteAsyncMsg gone =>
      show ((Store.Indexes.deleteAsyncMsg db gone).readDeferredCall id).map _ = _
      rw [Store.Indexes.deleteAsyncMsg]
      cases db.readAsyncMsg gone with
      | none => exact known
      | some prev => exact known
  | writeDeferredCall call =>
      show ((db.writeDeferredCall call).readDeferredCall id).map _ =
        firstSighting (if call.id = id then _ else seen)
      rw [Db.readDeferredCall_writeDeferredCall]
      by_cases same : call.id = id
      · rw [if_pos same, if_pos same, firstSighting_append, ← known, ← same]
        exact congrArg some (firstSeen_deferredRow (db.readDeferredCall call.id) call)
      · rw [if_neg same, if_neg same, known]

/-! ### The scans -/

/-- The address a message has in a role. -/
def asyncParty (role : AsyncByAddr) (msg : StoredAsyncMsg) : Option Address :=
  match role with
  | .sender => msg.sender
  | .destination => msg.destination

def deferredParty (role : DeferredByAddr) (call : StoredDeferredCall) : Option Address :=
  match role with
  | .sender => call.sender
  | .target => call.targetAddress

/-- Ids in the order of their bytes. -/
def idBefore (x y : String) : Prop := compare (textBytes x) (textBytes y) = .lt

theorem not_idBefore_self (x : String) : ¬ idBefore x x := by
  intro less
  have same : compare (textBytes x) (textBytes x) = .eq := Std.ReflCmp.compare_self
  rw [idBefore, same] at less
  cases less

/-- Entries under an address are in the order of the ids. -/
theorem lists_addrEntry {V : Type} [Row V] {t : Table V} {idx : Index} {field : V → Option Address}
    {idOf : V → String} (filed : ∀ v, Row.key v = textBytes (idOf v))
    (exact_ : Exact (fun v => Db.addrEntry (field v) (idOf v)) t idx) (a : Address) :
    Lists t (fun v => field v = some a) (fun v w => idBefore (idOf v) (idOf w))
      (rowsUnder idx (addrPrefix a) behindAddr t) := by
  have shape : ∀ v, ∀ k ∈ Db.addrEntry (field v) (idOf v),
      ∃ b, field v = some b ∧ k = addrPrefix b ++ textBytes (idOf v) := by
    intro v k entered
    obtain ⟨b, of, rfl⟩ := Option.map_eq_some_iff.mp (Option.mem_toList.mp entered)
    exact ⟨b, of, by simp [addrPrefix, idxAsyncByAddr]⟩
  have widths : ∀ b : Address, (addrPrefix b).length = addrKeyLen + 1 := fun b => by
    simp [addrPrefix, b.width]
  have ours : ∀ {b : Address} {rest : Bytes}, addrPrefix a <+: addrPrefix b ++ rest → a = b := by
    intro b rest below
    have same := (isPrefix_append_iff ((widths a).trans (widths b).symm)).mp below
    exact Address.ext (List.append_inj_left' same rfl)
  refine lists_of_exact exact_ (fun v k entered => ?_) (fun v => not_idBefore_self _)
    (fun v => ⟨fun of => ?_, ?_⟩) ?_
  · rw [filed]
    exact read_addrEntry entered
  · refine ⟨idxAsyncByAddr a.bytes (idOf v), ?_, ?_⟩
    · rw [of]
      exact List.mem_singleton.mpr rfl
    · exact ⟨textBytes (idOf v), by simp [addrPrefix, idxAsyncByAddr]⟩
  · rintro ⟨k, entered, below⟩
    obtain ⟨b, of, rfl⟩ := shape v k entered
    rw [of, ours below]
  · intro v w k inV k' inW belowV belowW less
    obtain ⟨b, -, rfl⟩ := shape v k inV
    obtain ⟨c, -, rfl⟩ := shape w k' inW
    obtain rfl := ours belowV
    obtain rfl := ours belowW
    have same : compare (addrPrefix a) (addrPrefix a) = .eq := Std.ReflCmp.compare_self
    rwa [compare_append rfl, same, Ordering.eq_then] at less

/-- So are those under a slot. -/
theorem lists_slotEntry {V : Type} [Row V] {t : Table V} {idx : Index} {field : V → Option Slot}
    {idOf : V → String} (filed : ∀ v, Row.key v = textBytes (idOf v))
    (exact_ : Exact (fun v => Db.slotEntry (field v) (idOf v)) t idx) (s : Slot) :
    Lists t (fun v => field v = some s) (fun v w => idBefore (idOf v) (idOf w))
      (rowsUnder idx (rslotKey s) (fun k => some (k.drop slotKeyLen)) t) := by
  have shape : ∀ v, ∀ k ∈ Db.slotEntry (field v) (idOf v),
      ∃ u, field v = some u ∧ k = rslotKey u ++ textBytes (idOf v) := by
    intro v k entered
    obtain ⟨u, of, rfl⟩ := Option.map_eq_some_iff.mp (Option.mem_toList.mp entered)
    exact ⟨u, of, rfl⟩
  have ours : ∀ {u : Slot} {rest : Bytes}, rslotKey s <+: rslotKey u ++ rest → s = u :=
    fun below => rslotKey_injective ((isPrefix_append_iff (by simp)).mp below)
  refine lists_of_exact exact_ (fun v k entered => ?_) (fun v => not_idBefore_self _)
    (fun v => ⟨fun of => ?_, ?_⟩) ?_
  · rw [filed]
    exact read_slotEntry entered
  · refine ⟨idxByRslotId s (idOf v), ?_, List.prefix_append _ _⟩
    rw [of]
    exact List.mem_singleton.mpr rfl
  · rintro ⟨k, entered, below⟩
    obtain ⟨u, of, rfl⟩ := shape v k entered
    rw [of, ours below]
  · intro v w k inV k' inW belowV belowW less
    obtain ⟨u, -, rfl⟩ := shape v k inV
    obtain ⟨u', -, rfl⟩ := shape w k' inW
    obtain rfl := ours belowV
    obtain rfl := ours belowW
    have same : compare (rslotKey s) (rslotKey s) = .eq := Std.ReflCmp.compare_self
    rwa [compare_append rfl, same, Ordering.eq_then] at less

/-- A scan under an address resolves an entry by the id behind it. -/
theorem hits_addrEntry {V : Type} [Row V] (idx : Index) (t : Table V) (a : Address) :
    (entriesUnder idx (addrPrefix a)).filterMap (rowOfKey t (addrPrefix a)) =
      rowsUnder idx (addrPrefix a) behindAddr t := by
  have width : (addrPrefix a).length = addrKeyLen + 1 := by simp [addrPrefix, a.width]
  refine List.filterMap_congr fun k _ => ?_
  rw [rowOfKey, width]
  rfl

theorem reads_addrEntry {V : Type} [Row V] (idx : Index) (t : Table V) (a : Address) :
    Reads (scanIndex idx (addrPrefix a) (rowOfKey t (addrPrefix a))) none idx.toList.length
      (rowsUnder idx (addrPrefix a) behindAddr t) := by
  rw [← hits_addrEntry]
  exact reads_scanIndex idx (addrPrefix a) _

theorem byLastSlot_eq {V : Type} [Row V] (idx : Index) (t : Table V) (s : Slot) :
    (Db.lastSlotIds idx s).filterMap t.get =
      rowsUnder idx (rslotKey s) (fun k => some (k.drop slotKeyLen)) t := by
  rw [Db.lastSlotIds, walk_eq_entriesUnder, List.filterMap_map, length_rslotKey]
  rfl

/-- The scans of the pools list exactly the rows whose fields match, in the order of their ids. -/
structure PoolScansMatch (db : Db) : Prop where
  asyncByAddr : ∀ a role, ∃ rows,
    Lists db.asyncMsgs (fun m => asyncParty role m = some a) (fun m m' => idBefore m.id m'.id) rows ∧
    ∃ entries, Reads (iterAsyncByAddr db a role) none entries rows
  deferredByAddr : ∀ a role, ∃ rows,
    Lists db.deferredCalls (fun c => deferredParty role c = some a) (fun c c' => idBefore c.id c'.id)
      rows ∧
    ∃ entries, Reads (iterDeferredByAddr db a role) none entries rows
  asyncByLastSlot : ∀ s, ∃ rows,
    Lists db.asyncMsgs (fun m => m.lastSlot = some s) (fun m m' => idBefore m.id m'.id) rows ∧
    ∀ limit, db.asyncMsgsByLastSlot s limit = rows.take limit
  deferredByLastSlot : ∀ s, ∃ rows,
    Lists db.deferredCalls (fun c => c.lastSlot = some s) (fun c c' => idBefore c.id c'.id) rows ∧
    ∀ limit, db.deferredCallsByLastSlot s limit = rows.take limit

theorem PoolIndexed.scansMatch (indexed : PoolIndexed db) : PoolScansMatch db where
  asyncByAddr a role := by
    cases role with
    | sender =>
        exact ⟨_, lists_addrEntry (fun _ => rfl) indexed.asyncBySender a, _, reads_addrEntry _ _ a⟩
    | destination =>
        exact ⟨_, lists_addrEntry (fun _ => rfl) indexed.asyncByDest a, _, reads_addrEntry _ _ a⟩
  deferredByAddr a role := by
    cases role with
    | sender =>
        exact ⟨_, lists_addrEntry (fun _ => rfl) indexed.deferredBySender a, _, reads_addrEntry _ _ a⟩
    | target =>
        exact ⟨_, lists_addrEntry (fun _ => rfl) indexed.deferredByTarget a, _, reads_addrEntry _ _ a⟩
  asyncByLastSlot s := by
    refine ⟨_, lists_slotEntry (fun _ => rfl) indexed.asyncByLastSlot s, fun limit => ?_⟩
    rw [Db.asyncMsgsByLastSlot, byLastSlot_eq]
  deferredByLastSlot s := by
    refine ⟨_, lists_slotEntry (fun _ => rfl) indexed.deferredByLastSlot s, fun limit => ?_⟩
    rw [Db.deferredCallsByLastSlot, byLastSlot_eq]

/-! ### The law -/

/-- **After any writes of the pools their indexes are the image of their rows, the first sighting of a row is
the first one its writes since creation name, and the scans list exactly the rows whose fields match.** -/
theorem pool_indexed (writes : List PoolWrite) :
    PoolIndexed (run PoolWrite.apply Db.empty writes) ∧
    (∀ id, ((run PoolWrite.apply Db.empty writes).readAsyncMsg id).map (·.firstSeenTsMs) =
      firstSighting (writes.foldl (asyncSightings id) [])) ∧
    (∀ id, ((run PoolWrite.apply Db.empty writes).readDeferredCall id).map (·.firstSeenTsMs) =
      firstSighting (writes.foldl (deferredSightings id) [])) ∧
    PoolScansMatch (run PoolWrite.apply Db.empty writes) := by
  refine ⟨poolIndexed_run writes, fun id => ?_, fun id => ?_, (poolIndexed_run writes).scansMatch⟩
  · induction writes using List.reverseRecOn with
    | nil => rfl
    | append_singleton writes w ih =>
        rw [run_append, List.foldl_append]
        exact asyncFirstSeen_apply w ih
  · induction writes using List.reverseRecOn with
    | nil => rfl
    | append_singleton writes w ih =>
        rw [run_append, List.foldl_append]
        exact deferredFirstSeen_apply w ih

/-- A message of which nothing but the id and the sighting is known. -/
def sighting (firstSeenTsMs : Int) : StoredAsyncMsg where
  id := ""
  sender := none
  destination := none
  handler := none
  coinsNmas := 0
  maxGas := 0
  feeNmas := 0
  emissionSlot := none
  validityStart := none
  validityEnd := none
  state := .pending
  lastSlot := none
  dataHex := none
  trigger := none
  canBeExecuted := true
  firstSeenTsMs := firstSeenTsMs
  lastUpdatedTsMs := 0

/-- A first write without a sighting takes that of the second. -/
theorem first_write_unsighted :
    ((run PoolWrite.apply Db.empty [.writeAsyncMsg (sighting 0), .writeAsyncMsg (sighting 5)]).readAsyncMsg
      "").map (·.firstSeenTsMs) ≠ some (sighting 0).firstSeenTsMs := by
  have first : (Db.empty.writeAsyncMsg (sighting 0)).readAsyncMsg "" = some (sighting 0) := by
    rw [Db.readAsyncMsg_writeAsyncMsg]
    rfl
  show (((Db.empty.writeAsyncMsg (sighting 0)).writeAsyncMsg (sighting 5)).readAsyncMsg "").map _ ≠ _
  have here : (sighting 5).id = "" := rfl
  rw [Db.readAsyncMsg_writeAsyncMsg, if_pos here]
  show (some (asyncRow ((Db.empty.writeAsyncMsg (sighting 0)).readAsyncMsg "") (sighting 5))).map _ ≠ _
  rw [first]
  decide

end MassaIndexer.Laws.IndexExactness
