/-
# Laws.KeyIsolation -- composite keys and the scans under an address

A composite key is read back as it was built, built keys are equal only field by field, and behind one
prefix they are in the order of their slots, newest first, whatever bytes the fields hold. A scan under an
address therefore lists its rows, newest first, and never a row of another address (`prefix_scans_list`):
endorsements after any writes; blocks, operations and transfers as long as no write replaces a row by one of
other indexed fields, which the writer never does to a block or an operation. An operation is listed from its
first inclusion on. The keys of async messages and deferred calls hold no slot: these are listed by id.
-/
import MassaIndexer.Store.TransferScan
import MassaIndexer.Laws.IndexExactness
import MassaIndexer.Laws.IndexRebuild

namespace MassaIndexer.Laws.KeyIsolation

open MassaIndexer.Theory.KeyedTable MassaIndexer.Theory.Runs MassaIndexer.Theory.Cursor
open MassaIndexer.Data.Ids MassaIndexer.Data.Model MassaIndexer.Data.Keys MassaIndexer.Data.KeyOrder
open MassaIndexer.Store.ColumnFamilies MassaIndexer.Store.Footprint MassaIndexer.Store.Indexes
open MassaIndexer.Store.Scans MassaIndexer.Store.Listings MassaIndexer.Store.TransferScan
open MassaIndexer.Writer.Shared MassaIndexer.Writer.Step
open MassaIndexer.Laws.IndexExactness MassaIndexer.Laws.IndexRebuild

set_option autoImplicit false

/-! ## Keys -/

/-- What was built is read back. -/
structure KeysParse : Prop where
  slot : ∀ s, decodeSlotKey (slotKey s) = some s
  rslot : ∀ s, decodeRslotKey (rslotKey s) = some s
  slotIndexed : ∀ s i, decodeSlotIndexedKey (scEventKey s i) = some (s, i)
  addrSlotId : ∀ (a : Address) (s : Slot) (id : Bytes), id.length = idKeyLen →
    parseIdxAddrSlotId (idxAddrSlotId a.bytes s id) = some (s, id)
  transferByAddr : ∀ (a : Address) (s : Slot) (i : UInt32) (tag : UInt8),
    parseIdxTransferByAddr (idxTransferByAddr a.bytes s i tag) = some (s, i, tag)
  idSlotIndex : ∀ (id : Bytes) (s : Slot) (i : UInt32), id.length = idKeyLen →
    parseIdxIdSlotIndex (idxIdSlotIndex id s i) = some (s, i)
  eventByAddr : ∀ (a : Address) (s : Slot) (i : UInt32),
    parseIdxEvent (idxEventByAddr a.bytes s i) = some (s, i)
  eventByOp : ∀ (o : OperationId) (s : Slot) (i : UInt32),
    parseIdxEvent (idxEventByOp o.bytes s i) = some (s, i)
  denunciationByAddr : ∀ (a : Address) (s : Slot) (hash : Bytes), hash.length = denunciationHashLen →
    parseIdxDenunciationByAddr (idxDenunciationByAddr a.bytes s hash) = some (s, hash)
  denunciationRecent : ∀ (s : Slot) (hash : Bytes), hash.length = denunciationHashLen →
    parseIdxDenunciationRecent (idxDenunciationRecent s hash) = some (s, hash)
  byRslotId : ∀ (s : Slot) (id : String), parseIdxByRslotId (idxByRslotId s id) = some (s, textBytes id)

/-- Built keys are equal field by field. -/
structure KeysInjective : Prop where
  slot : ∀ s t, slotKey s = slotKey t → s = t
  rslot : ∀ s t, rslotKey s = rslotKey t → s = t
  slotIndexed : ∀ s t i j, scEventKey s i = scEventKey t j → s = t ∧ i = j
  addrSlotId : ∀ (a b : Address) (s t : Slot) (x y : Bytes),
    idxAddrSlotId a.bytes s x = idxAddrSlotId b.bytes t y → a = b ∧ s = t ∧ x = y
  transferByAddr : ∀ (a b : Address) (s t : Slot) (i j : UInt32) (x y : UInt8),
    idxTransferByAddr a.bytes s i x = idxTransferByAddr b.bytes t j y → a = b ∧ s = t ∧ i = j ∧ x = y
  idSlotIndex : ∀ (x y : Bytes) (s t : Slot) (i j : UInt32), x.length = y.length →
    idxIdSlotIndex x s i = idxIdSlotIndex y t j → x = y ∧ s = t ∧ i = j
  eventByAddr : ∀ (a b : Address) (s t : Slot) (i j : UInt32),
    idxEventByAddr a.bytes s i = idxEventByAddr b.bytes t j → a = b ∧ s = t ∧ i = j
  denunciationByAddr : ∀ (a b : Address) (s t : Slot) (x y : Bytes),
    idxDenunciationByAddr a.bytes s x = idxDenunciationByAddr b.bytes t y → a = b ∧ s = t ∧ x = y
  denunciationRecent : ∀ (s t : Slot) (x y : Bytes),
    idxDenunciationRecent s x = idxDenunciationRecent t y → s = t ∧ x = y
  asyncByAddr : ∀ (a b : Address) (x y : String),
    idxAsyncByAddr a.bytes x = idxAsyncByAddr b.bytes y → a = b ∧ x = y
  byRslotId : ∀ (s t : Slot) (x y : String), idxByRslotId s x = idxByRslotId t y → s = t ∧ x = y

/-- Keys that start with an address were built with it, and behind one prefix keys are in the order of
their slots, newest first, then of what follows. -/
structure KeysOrdered : Prop where
  slot : ∀ s t, compare (slotKey s) (slotKey t) = .lt ↔ s.lt t = true
  behindPrefix : ∀ (pre : Bytes) (s t : Slot) (x y : Bytes),
    compare (pre ++ rslotKey s ++ x) (pre ++ rslotKey t ++ y) = .lt ↔
      t.lt s = true ∨ s = t ∧ compare x y = .lt
  ofAddress : ∀ (a b : Address) (rest : Bytes), a.bytes <+: b.bytes ++ rest ↔ a = b
  ofId : ∀ (x y : OperationId) (rest : Bytes), x.bytes <+: y.bytes ++ rest ↔ x = y

theorem keysParse : KeysParse where
  slot := decodeSlotKey_slotKey
  rslot := decodeRslotKey_rslotKey
  slotIndexed := decodeSlotIndexedKey_scEventKey
  addrSlotId a s _ width := parseIdxAddrSlotId_build a s width
  transferByAddr := parseIdxTransferByAddr_build
  idSlotIndex _ s i width := parseIdxIdSlotIndex_build width s i
  eventByAddr a := parseIdxEvent_build a.bytes
  eventByOp o := parseIdxEvent_build o.bytes
  denunciationByAddr a s _ width := parseIdxDenunciationByAddr_build a s width
  denunciationRecent s _ width := parseIdxDenunciationRecent_build s width
  byRslotId := parseIdxByRslotId_build

theorem keysInjective : KeysInjective where
  slot _ _ := slotKey_injective
  rslot _ _ := rslotKey_injective
  slotIndexed _ _ _ _ := scEventKey_injective
  addrSlotId _ _ _ _ _ _ := idxAddrSlotId_inj.mp
  transferByAddr _ _ _ _ _ _ _ _ := idxTransferByAddr_inj.mp
  idSlotIndex _ _ _ _ _ _ width := (idxIdSlotIndex_inj width).mp
  eventByAddr a b s t i j same := by
    obtain ⟨addrs, rest⟩ := (idxIdSlotIndex_inj (a.width.trans b.width.symm)).mp same
    exact ⟨Address.ext addrs, rest⟩
  denunciationByAddr _ _ _ _ _ _ := idxAddrSlotId_inj.mp
  denunciationRecent _ _ _ _ := idxDenunciationRecent_inj.mp
  asyncByAddr _ _ _ _ := idxAsyncByAddr_inj.mp
  byRslotId _ _ _ _ := idxByRslotId_inj.mp

theorem keysOrdered : KeysOrdered where
  slot _ _ := compare_slotKey_eq_lt
  behindPrefix pre _ _ _ _ := compare_idx_eq_lt pre
  ofAddress a b _ := (isPrefix_append_iff (a.width.trans b.width.symm)).trans
    ⟨Address.ext, congrArg Address.bytes⟩
  ofId x y _ := (isPrefix_append_iff (x.width.trans y.width.symm)).trans
    ⟨FamilyId.ext, congrArg FamilyId.bytes⟩

/-! ## Scans of ids under an address -/

/-- Newest slot first, then by the bytes of the id. -/
def slotsNewestFirst {V : Type} [Row V] (slotOf : V → Slot) (v w : V) : Prop :=
  (slotOf w).lt (slotOf v) = true ∨ slotOf v = slotOf w ∧ compare (Row.key v) (Row.key w) = .lt

section AddrSlotId

variable {V : Type} [Row V] {t : Table V} {idx : Index} {keys : V → List Bytes}
  {addr : V → Option Address} {slotOf : V → Slot}

/-- An exact index of entries `addr ‖ rslot ‖ key` lists the rows of an address, newest first. -/
theorem lists_addrSlotId (exact_ : Exact keys t idx)
    (shape : ∀ v, keys v = ((addr v).map fun a => idxAddrSlotId a.bytes (slotOf v) (Row.key v)).toList)
    (a : Address) :
    Lists t (fun v => addr v = some a) (slotsNewestFirst slotOf) (rowsUnder idx a.bytes behindSlot t) := by
  have entry : ∀ v, ∀ k ∈ keys v, ∃ b, addr v = some b ∧
      k = b.bytes ++ rslotKey (slotOf v) ++ Row.key v := by
    intro v k entered
    rw [shape] at entered
    obtain ⟨b, of, rfl⟩ := Option.map_eq_some_iff.mp (Option.mem_toList.mp entered)
    exact ⟨b, of, rfl⟩
  have ours : ∀ {b : Address} {x y : Bytes}, a.bytes <+: b.bytes ++ x ++ y → a = b := by
    intro b x y below
    rw [List.append_assoc] at below
    exact (keysOrdered.ofAddress a b _).mp below
  refine lists_of_exact exact_ (fun v k entered => ?_) (fun v earlier => ?_) (fun v => ⟨fun of => ?_, ?_⟩) ?_
  · obtain ⟨b, -, rfl⟩ := entry v k entered
    exact behindSlot_build b (slotOf v) (Row.key v)
  · rcases earlier with earlier | ⟨-, less⟩
    · exact Slot.lt_irrefl _ earlier
    · have same : compare (Row.key v) (Row.key v) = .eq := Std.ReflCmp.compare_self
      rw [same] at less
      cases less
  · refine ⟨idxAddrSlotId a.bytes (slotOf v) (Row.key v), ?_, ?_⟩
    · rw [shape, of]
      exact List.mem_singleton.mpr rfl
    · rw [idxAddrSlotId, List.append_assoc]
      exact List.prefix_append _ _
  · rintro ⟨k, entered, below⟩
    obtain ⟨b, of, rfl⟩ := entry v k entered
    rw [of, ours below]
  · intro v w k inV k' inW belowV belowW less
    obtain ⟨b, -, rfl⟩ := entry v k inV
    obtain ⟨c, -, rfl⟩ := entry w k' inW
    obtain rfl := ours belowV
    obtain rfl := ours belowW
    exact (compare_idx_eq_lt a.bytes).mp less

/-- The scan shows their ids. -/
theorem reads_addrSlotId {letter : Char} (exact_ : Exact keys t idx)
    (shape : ∀ v, keys v = ((addr v).map fun a => idxAddrSlotId a.bytes (slotOf v) (Row.key v)).toList)
    {idOf : V → FamilyId letter} (named : ∀ v, Row.key v = (idOf v).bytes) (a : Address) :
    Reads (scanPrefixForwardIds FamilyId.fromKeyBytes idx a.bytes) none idx.toList.length
      ((rowsUnder idx a.bytes behindSlot t).map idOf) := by
  have entry : ∀ v, ∀ k ∈ keys v, ∃ b, k = idxAddrSlotId (Address.bytes b) (slotOf v) (Row.key v) := by
    intro v k entered
    rw [shape] at entered
    obtain ⟨b, -, rfl⟩ := Option.map_eq_some_iff.mp (Option.mem_toList.mp entered)
    exact ⟨b, rfl⟩
  refine reads_of_exact exact_ (fun v k entered => ?_) fun v _ k entered => ?_
  · obtain ⟨b, rfl⟩ := entry v k entered
    exact behindSlot_build b (slotOf v) (Row.key v)
  · obtain ⟨b, rfl⟩ := entry v k entered
    rw [named, idOfKey, parseIdxAddrSlotId_build b (slotOf v) (idOf v).width, Option.bind_some]
    exact FamilyId.fromKeyBytes_bytes (idOf v)

end AddrSlotId

/-! ## Scans of a maintained store -/

/-- The slot an operation is entered at: that of its first inclusion. -/
def enteredAt (op : StoredOperation) : Slot := (op.inclusions.head?.map (·.slot)).getD ⟨0, 0⟩

/-- The scans of blocks and operations list exactly the rows of their address, newest first. -/
structure RowScans (db : Db) : Prop where
  blocksByCreator : ∀ a, ∃ rows,
    Lists db.blocks (fun b => some b.creator = some a) (slotsNewestFirst (·.slot)) rows ∧
    ∃ entries, Reads (iterBlocksByCreator db a) none entries (rows.map (·.id))
  opsByCreator : ∀ a, ∃ rows,
    Lists db.ops (fun op => (op.inclusions.head?.map fun _ => op.creator) = some a)
      (slotsNewestFirst enteredAt) rows ∧
    ∃ entries, Reads (iterOpsByCreator db a) none entries (rows.map (·.id))
  opsByTarget : ∀ a, ∃ rows,
    Lists db.ops (fun op => (op.inclusions.head?.bind fun _ => op.target) = some a)
      (slotsNewestFirst enteredAt) rows ∧
    ∃ entries, Reads (iterOpsByTarget db a) none entries (rows.map (·.id))

theorem opCreatorKeys_shape (op : StoredOperation) : opCreatorKeys op =
    ((op.inclusions.head?.map fun _ => op.creator).map fun a =>
      idxAddrSlotId a.bytes (enteredAt op) (Row.key op)).toList := by
  rw [opCreatorKeys, enteredAt]
  cases op.inclusions.head? with
  | none => rfl
  | some first => rfl

theorem opTargetKeys_shape (op : StoredOperation) : opTargetKeys op =
    ((op.inclusions.head?.bind fun _ => op.target).map fun a =>
      idxAddrSlotId a.bytes (enteredAt op) (Row.key op)).toList := by
  rw [opTargetKeys, enteredAt]
  cases op.inclusions.head? with
  | none => rfl
  | some first => rfl

variable {db : Db}

theorem rowScans_of_maintained (maintained : Maintained db) : RowScans db where
  blocksByCreator a := by
    have shape : ∀ b : StoredBlock, blockCreatorKeys b =
        ((some b.creator).map fun a => idxAddrSlotId a.bytes b.slot (Row.key b)).toList := fun _ => rfl
    exact ⟨_, lists_addrSlotId maintained.blockByCreator shape a, _,
      reads_addrSlotId maintained.blockByCreator shape (fun _ => rfl) a⟩
  opsByCreator a := ⟨_, lists_addrSlotId maintained.opByCreator opCreatorKeys_shape a, _,
    reads_addrSlotId maintained.opByCreator opCreatorKeys_shape (fun _ => rfl) a⟩
  opsByTarget a := ⟨_, lists_addrSlotId maintained.opByTarget opTargetKeys_shape a, _,
    reads_addrSlotId maintained.opByTarget opTargetKeys_shape (fun _ => rfl) a⟩

section Writes

variable [Bs58Check]

/-- The scan of endorsements shows their texts. -/
def EndorsementScans (db : Db) : Prop := ∀ a, ∃ rows,
  Lists db.endorsements (fun e => some e.contentCreatorAddress = some a) (slotsNewestFirst (·.slot)) rows ∧
  ∃ entries, Reads (iterEndorsementsByCreator db a) none entries (rows.map fun e => e.id.text)

theorem endorsementScans_of_exact
    (exact_ : Exact endorsementCreatorKeys db.endorsements db.endorsementByCreator) :
    EndorsementScans db := by
  intro a
  have shape : ∀ e : StoredEndorsement, endorsementCreatorKeys e =
      ((some e.contentCreatorAddress).map fun a => idxAddrSlotId a.bytes e.slot (Row.key e)).toList :=
    fun _ => rfl
  have ids : Reads (scanPrefixForwardIds FamilyId.fromKeyBytes db.endorsementByCreator a.bytes) none
      db.endorsementByCreator.toList.length
      ((rowsUnder db.endorsementByCreator a.bytes behindSlot db.endorsements).map (·.id)) :=
    reads_addrSlotId exact_ shape (fun _ => rfl) a
  have texts := ids.map FamilyId.text
  rw [List.map_map] at texts
  exact ⟨_, lists_addrSlotId exact_ shape a, _, texts⟩

/-- One call that no limit cuts short lists the transfers of an address, newest first. -/
def TransferScans (db : Db) : Prop := ∀ a, ∃ rows,
  Lists db.transfers (Mentions a) newer rows ∧
  ∀ limit, db.transferByAddr.toList.length < limit →
    iterTransfersByAddr db a none limit = { items := rows }

theorem transferScans_of_indexed (indexed : TransfersIndexed db) : TransferScans db := by
  intro a
  have built : Built db.transferByAddr := by
    intro k entered
    obtain ⟨t, -, has⟩ := (indexed.byAddr k).mp entered
    rcases mem_transferAddrKeys.mp has with ⟨b, -, rfl⟩ | ⟨b, -, rfl⟩
    · exact ⟨b, placeOf t, 1, .inl rfl, rfl⟩
    · exact ⟨b, placeOf t, 2, .inr rfl, rfl⟩
  have noStale : NoStale db a := by
    intro p tag entered t found
    obtain ⟨u, held, has⟩ := (indexed.byAddr _).mp entered
    have same : ∀ {b : Address} {x : UInt8},
        idxTransferByAddr b.bytes u.slot u.indexInSlot x = idxTransferByAddr a.bytes p.1 p.2 tag →
        b = a ∧ u = t := by
      intro b x equal
      obtain ⟨addrs, slots, indices, -⟩ := idxTransferByAddr_inj.mp equal
      have stored : db.readTransfer p.1 p.2 = some u := by
        rw [← slots, ← indices]
        exact held
      exact ⟨addrs, Option.some.inj (stored.symm.trans found)⟩
    rcases mem_transferAddrKeys.mp has with ⟨b, sent, equal⟩ | ⟨b, received, equal⟩
    · obtain ⟨rfl, rfl⟩ := same equal
      exact .inl sent
    · obtain ⟨rfl, rfl⟩ := same equal
      exact .inr received
  exact ⟨met db a, (lists_met_iff built indexed.byAddr.covers).mpr noStale, fun _ => unlimited_eq_met⟩

/-! ## Runs of writes -/

/-- A write that replaces a row leaves the fields it is entered by: a block its creator and slot, an
operation its creator, target and first inclusion, a transfer its names. -/
def KeepsEntries (db : Db) : Write → Prop
  | .block b => ∀ old, db.readBlock b.id = some old → old.creator = b.creator ∧ old.slot = b.slot
  | .op op => ∀ old, db.readOp op.id = some old → old.creator = op.creator ∧ old.target = op.target ∧
      ∀ first, old.inclusions.head? = some first → op.inclusions.head? = some first
  | .transfer t => KeepsNames db (.write t)
  | _ => True

theorem maintained_apply (w : Write) (keeps : KeepsEntries db w) (maintained : Maintained db) :
    Maintained (apply db w) := by
  cases w with
  | block b => exact maintained_writeBlock maintained keeps
  | op op => exact maintained_writeOp maintained keeps
  | endorsement e => exact keeps_writeEndorsement e db maintained
  | denunciation d => exact keeps_writeDenunciation d db maintained
  | _ =>
      apply maintained_of_contents maintained
      all_goals exact contents_apply db _ (by simp [Write.family])

/-- What the transfer families hold decides. -/
theorem indexed_of_contents {db' : Db} (indexed : TransfersIndexed db)
    (same : contents db' .transfers = contents db .transfers) : TransfersIndexed db' := by
  simp only [contents, Prod.mk.injEq] at same
  obtain ⟨rows, byAddr, byOp, byBlock⟩ := same
  constructor
  · rw [rows, byAddr]
    exact indexed.byAddr
  · rw [rows, byOp]
    exact indexed.byOp
  · rw [rows, byBlock]
    exact indexed.byBlock

theorem transfersIndexed_write (w : Write) (keeps : KeepsEntries db w) (indexed : TransfersIndexed db) :
    TransfersIndexed (apply db w) := by
  cases w with
  | transfer t => exact (transfersIndexed_apply_iff db (.write t) indexed).mpr keeps
  | clearTransfers s => exact (transfersIndexed_apply_iff db (.clear s) indexed).mpr trivial
  | _ => exact indexed_of_contents indexed (contents_apply db _ (by simp [Write.family]))

theorem poolIndexed_write (db : Db) (w : Write) (indexed : PoolIndexed db) : PoolIndexed (apply db w) := by
  have apart : w.family ≠ .asyncMsgs → w.family ≠ .deferredCalls → PoolIndexed (apply db w) := by
    intro notAsync notDeferred
    have asyncs := contents_apply db w notAsync
    have deferreds := contents_apply db w notDeferred
    simp only [contents, Prod.mk.injEq] at asyncs deferreds
    obtain ⟨m, m₁, m₂, m₃⟩ := asyncs
    obtain ⟨c, c₁, c₂, c₃⟩ := deferreds
    constructor
    · rw [m, m₁]
      exact indexed.asyncBySender
    · rw [m, m₂]
      exact indexed.asyncByDest
    · rw [m, m₃]
      exact indexed.asyncByLastSlot
    · rw [c, c₁]
      exact indexed.deferredBySender
    · rw [c, c₂]
      exact indexed.deferredByTarget
    · rw [c, c₃]
      exact indexed.deferredByLastSlot
  cases w with
  | asyncMsg m => exact poolIndexed_writeAsyncMsg indexed m
  | deferredCall c => exact poolIndexed_writeDeferredCall indexed c
  | _ => exact apart (by simp [Write.family]) (by simp [Write.family])

/-- The first row of an endorsement stays, so its entry does. -/
theorem endorsementsIndexed_write (db : Db) (w : Write)
    (exact_ : Exact endorsementCreatorKeys db.endorsements db.endorsementByCreator) :
    Exact endorsementCreatorKeys (apply db w).endorsements (apply db w).endorsementByCreator := by
  have apart : w.family ≠ .endorsements →
      Exact endorsementCreatorKeys (apply db w).endorsements (apply db w).endorsementByCreator := by
    intro other
    have same := contents_apply db w other
    simp only [contents, Prod.mk.injEq] at same
    obtain ⟨rows, entries⟩ := same
    rw [rows, entries]
    exact exact_
  cases w with
  | endorsement e =>
      show Exact endorsementCreatorKeys (db.writeEndorsement e).endorsements
        (db.writeEndorsement e).endorsementByCreator
      rw [Db.writeEndorsement]
      split
      · exact exact_
      · next absent =>
          exact exact_new entries_endorsementCreator exact_ (Option.not_isSome_iff_eq_none.mp absent)
  | _ => exact apart (by simp [Write.family])

/-- What the scans list after any writes, and after writes that leave the entries of the rows they replace. -/
structure ScansIsolate (writes : List Write) : Prop where
  endorsements : EndorsementScans (run apply Db.empty writes)
  pools : PoolScansMatch (run apply Db.empty writes)
  rows : Along apply KeepsEntries Db.empty writes → RowScans (run apply Db.empty writes)
  transfers : Along apply KeepsEntries Db.empty writes → TransferScans (run apply Db.empty writes)

theorem scansIsolate (writes : List Write) : ScansIsolate writes where
  endorsements := endorsementScans_of_exact <|
    invariant_of_step
      (P := fun db : Db => Exact endorsementCreatorKeys db.endorsements db.endorsementByCreator)
      endorsementsIndexed_write writes (exact_empty _)
  pools := (invariant_of_step poolIndexed_write writes (poolIndexed_run [])).scansMatch
  rows kept := rowScans_of_maintained <|
    invariant_of_along (fun _ w maintained keeps => maintained_apply w keeps maintained)
      maintained_empty kept
  transfers kept := transferScans_of_indexed <|
    invariant_of_along (fun _ w indexed keeps => transfersIndexed_write w keeps indexed)
      transfersIndexed_empty kept

/-! ## Messages have no order of slots -/

/-- A message from one user, last touched at a slot. -/
def pooled (id : String) (s : Slot) : StoredAsyncMsg :=
  { sighting 0 with id := id, sender := some someUser, emissionSlot := some s, lastSlot := some s }

/-- The scan of an address lists the messages it sent, the last touched first. -/
def SentNewestFirst (db : Db) (a : Address) : Prop := ∃ rows,
  Lists db.asyncMsgs (fun m => asyncParty .sender m = some a)
    (slotsNewestFirst fun m => m.lastSlot.getD ⟨0, 0⟩) rows ∧
  ∃ entries, Reads (iterAsyncByAddr db a .sender) none entries rows

/-- Whichever of two messages is newer, the scan lists the lesser id first. -/
theorem not_sentNewestFirst : ¬ SentNewestFirst
    (run apply Db.empty [.asyncMsg (pooled "a" ⟨1, 0⟩), .asyncMsg (pooled "b" ⟨2, 0⟩)]) someUser := by
  rintro ⟨rows, newestFirst, entries, reads⟩
  obtain ⟨rows', byId, entries', reads'⟩ := (scansIsolate
    [.asyncMsg (pooled "a" ⟨1, 0⟩), .asyncMsg (pooled "b" ⟨2, 0⟩)]).pools.asyncByAddr someUser .sender
  obtain rfl := reads.unique reads'
  have first : (Db.empty.writeAsyncMsg (pooled "a" ⟨1, 0⟩)).readAsyncMsg "a" = some (pooled "a" ⟨1, 0⟩) := by
    rw [Db.readAsyncMsg_writeAsyncMsg]
    rfl
  have heldA : ((Db.empty.writeAsyncMsg (pooled "a" ⟨1, 0⟩)).writeAsyncMsg
      (pooled "b" ⟨2, 0⟩)).readAsyncMsg "a" = some (pooled "a" ⟨1, 0⟩) := by
    rw [Db.readAsyncMsg_writeAsyncMsg]
    exact first
  have heldB : ((Db.empty.writeAsyncMsg (pooled "a" ⟨1, 0⟩)).writeAsyncMsg
      (pooled "b" ⟨2, 0⟩)).readAsyncMsg "b" = some (pooled "b" ⟨2, 0⟩) := by
    rw [Db.readAsyncMsg_writeAsyncMsg]
    rfl
  have apart : pooled "a" ⟨1, 0⟩ ≠ pooled "b" ⟨2, 0⟩ := by
    intro same
    have ids : "a" = "b" := congrArg StoredAsyncMsg.id same
    exact absurd ids (by decide)
  rcases newestFirst.agree byId ((newestFirst.mem (pooled "a" ⟨1, 0⟩)).mpr ⟨heldA, rfl⟩)
      ((newestFirst.mem (pooled "b" ⟨2, 0⟩)).mpr ⟨heldB, rfl⟩) apart with ⟨older, -⟩ | ⟨-, greater⟩
  · revert older
    simp [slotsNewestFirst, pooled, Slot.lt]
  · revert greater
    show ¬ compare (textBytes "b") (textBytes "a") = .lt
    decide

/-! ## The law -/

variable [DenunciationDigest]

/-- **Keys are read back as they were built, equal only field by field, and newest slot first under a prefix;
so a scan under an address lists exactly its rows, and in the stores the writer leaves those of its blocks
and operations too.** -/
theorem prefix_scans_list :
    KeysParse ∧ KeysInjective ∧ KeysOrdered ∧ (∀ writes : List Write, ScansIsolate writes) ∧
    ∀ events : List Timed, RowScans (ingest events) :=
  ⟨keysParse, keysInjective, keysOrdered, scansIsolate,
    fun events => rowScans_of_maintained (maintained_ingest events)⟩

end Writes

section TwoMessages

attribute [local instance] Bs58Check.doubleSha

/-- The messages of a user are not listed newest first. -/
theorem async_scan_not_newest_first : ¬ SentNewestFirst
    (run apply Db.empty [.asyncMsg (pooled "a" ⟨1, 0⟩), .asyncMsg (pooled "b" ⟨2, 0⟩)]) someUser :=
  not_sentNewestFirst

end TwoMessages

end MassaIndexer.Laws.KeyIsolation
