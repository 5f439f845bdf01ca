/-
# Laws.VerifyExactness -- the orphan scan against what it is to find

An entry is sound when its key has the layout of its family and the primary row that the key names is
stored (`Sound`, stated with the key builders and no parser). `verify` is to count the entries that are
not, and a missing meta row; what it lists is capped, what it counts is not.

It does so for the families whose parser checks the exact length. The event families share a parser
that reads the last 13 bytes of any key, so a key of the wrong length passes when an event is stored
at the place it ends with; and nothing is checked of the two indexes by last slot. The count is
exact when neither has let a violation through, and only then (`verify_exact_iff`).
-/
import MassaIndexer.Cli.Verify
import MassaIndexer.Data.KeyParsing
import MassaIndexer.Theory.Tally

namespace MassaIndexer.Laws.VerifyExactness

open MassaIndexer.Theory.KeyedTable MassaIndexer.Theory.Tally
open MassaIndexer.Data.Ids MassaIndexer.Data.Model MassaIndexer.Data.Keys MassaIndexer.Data.KeyOrder
open MassaIndexer.Data.KeyParsing
open MassaIndexer.Data.Storage (MetaRow)
open MassaIndexer.Cli.Verify

set_option autoImplicit false

/-! ## Sound entries -/

/-- The family that an index points into. -/
def primaryOf : IndexCf → PrimaryCf
  | .blockByCreator => .block
  | .opByCreator | .opByTarget => .op
  | .endorsementByCreator => .endorsement
  | .transferByAddr | .transferByOp | .transferByBlock => .transfer
  | .denunciationByAddr | .denunciationRecent => .denunciation
  | .scEventByEmitter | .scEventByCaller | .scEventByOp => .scEvent
  | .asyncBySender | .asyncByDest | .asyncByLastSlot => .asyncMsg
  | .deferredBySender | .deferredByTarget | .deferredByLastSlot => .deferredCall

/-- The key has the layout of its family and names a primary row. -/
def Names (cf : IndexCf) (key row : Bytes) : Prop :=
  match cf with
  | .blockByCreator | .opByCreator | .opByTarget | .endorsementByCreator =>
      ∃ addr s, addr.length = addrKeyLen ∧ row.length = idKeyLen ∧ key = idxAddrSlotId addr s row
  | .transferByAddr =>
      ∃ addr s i tag, addr.length = addrKeyLen ∧ key = idxTransferByAddr addr s i tag ∧ row =
          transferKey s i
  | .transferByOp | .transferByBlock =>
      ∃ id s i, id.length = idKeyLen ∧ key = idxIdSlotIndex id s i ∧ row = transferKey s i
  | .denunciationByAddr =>
      ∃ addr s, addr.length = addrKeyLen ∧ row.length = denunciationHashLen ∧
        key = idxDenunciationByAddr addr s row
  | .denunciationRecent => ∃ s, row.length = denunciationHashLen ∧ key = idxDenunciationRecent s row
  | .scEventByEmitter | .scEventByCaller =>
      ∃ addr s i, addr.length = addrKeyLen ∧ key = idxEventByAddr addr s i ∧ row = scEventKey s i
  | .scEventByOp => ∃ id s i, id.length = idKeyLen ∧ key = idxEventByOp id s i ∧ row = scEventKey s i
  | .asyncBySender | .asyncByDest | .deferredBySender | .deferredByTarget =>
      ∃ addr : Bytes, addr.length = addrKeyLen ∧ key = addr ++ 0 :: row
  | .asyncByLastSlot | .deferredByLastSlot => ∃ s, key = rslotKey s ++ row

/-- The key of an entry is well formed, and the row that it names is stored. -/
def Sound (db : RawDb) (cf : IndexCf) (key : Bytes) : Prop :=
  ∃ row, Names cf key row ∧ db.has (primaryOf cf) row = true

def MetaStored (db : RawDb) : Prop := ∃ row, db.readMeta = .ok (some row)

open Classical in
/-- The meta row, if it is missing, and every entry that is not sound. -/
noncomputable def violations (db : RawDb) : Nat :=
  (if MetaStored db then 0 else 1) + (entries db).countP fun e => ¬ Sound db e.1 e.2

/-! ## What the arms find -/

/-- What `verify` cannot see: an entry of an index by last slot that is not sound, and an event key that
ends in the place of a stored event behind an id or an address of the wrong length. -/
def Seen (db : RawDb) (cf : IndexCf) (key : Bytes) : Prop :=
  match cf with
  | .asyncByLastSlot | .deferredByLastSlot => Sound db cf key
  | .scEventByEmitter | .scEventByCaller => ∀ front s i, key = front ++ rslotKey s ++ indexBytes i →
      db.has .scEvent (scEventKey s i) = true → front.length = addrKeyLen
  | .scEventByOp => ∀ front s i, key = front ++ rslotKey s ++ indexBytes i →
      db.has .scEvent (scEventKey s i) = true → front.length = idKeyLen
  | _ => True

theorem deref_eq_none {α : Type} {malformed : String} {parsed : Option α} {present : α → Bool} :
    deref malformed parsed present = none ↔ ∃ x, parsed = some x ∧ present x = true := by
  unfold deref
  cases parsed with
  | none => simp
  | some x =>
      cases found : present x with
      | true => simp [found]
      | false => simp [found]

theorem splitAddrIdKey_eq_some {key addr id : Bytes} :
    splitAddrIdKey key = some (addr, id) ↔ addr.length = addrKeyLen ∧ key = addr ++ 0 :: id := by
  unfold splitAddrIdKey
  constructor
  · intro parsed
    split at parsed
    · cases parsed
    · next long =>
        split at parsed
        · cases parsed
        · next separator =>
            obtain ⟨rfl, rfl⟩ := Prod.mk.inj (Option.some.inj parsed)
            refine ⟨by rw [List.length_take]; omega, ?_⟩
            have zero : key.getD addrKeyLen 0 = 0 := by simpa using separator
            rw [List.getD_eq_getElem _ _ (by omega)] at zero
            rw [← zero, ← List.drop_eq_getElem_cons, List.take_append_drop]
  · rintro ⟨width, rfl⟩
    have long : ¬ (addr ++ 0 :: id).length < addrKeyLen + 1 := by
      rw [List.length_append, List.length_cons]
      omega
    have separator : (addr ++ 0 :: id).getD addrKeyLen 0 = 0 := by
      rw [← width, List.getD_append_right _ _ _ _ (Nat.le_refl _), Nat.sub_self]
      rfl
    rw [if_neg long, separator, if_neg (by simp), ← width]
    simp

section Arms

variable {db : RawDb} {key : Bytes} {malformed : String}

theorem addrSlotId_iff {cf : PrimaryCf} :
    deref malformed (parseIdxAddrSlotId key) (fun x => db.has cf x.2) = none ↔
      ∃ row, (∃ addr s, addr.length = addrKeyLen ∧ row.length = idKeyLen ∧ key =
          idxAddrSlotId addr s row) ∧
        db.has cf row = true := by
  rw [deref_eq_none]
  constructor
  · rintro ⟨⟨s, row⟩, parsed, found⟩
    obtain ⟨addr, front, back, shape⟩ := parseIdxAddrSlotId_eq_some.mp parsed
    exact ⟨row, ⟨addr, s, front, back, shape⟩, found⟩
  · rintro ⟨row, ⟨addr, s, front, back, shape⟩, found⟩
    exact ⟨(s, row), parseIdxAddrSlotId_eq_some.mpr ⟨addr, front, back, shape⟩, found⟩

theorem idSlotIndex_iff : deref malformed (parseIdxIdSlotIndex key)
      (fun x => db.has .transfer (transferKey x.1 x.2)) = none ↔
    ∃ row, (∃ id s i, id.length = idKeyLen ∧ key = idxIdSlotIndex id s i ∧ row = transferKey s i) ∧
      db.has .transfer row = true := by
  rw [deref_eq_none]
  constructor
  · rintro ⟨⟨s, i⟩, parsed, found⟩
    obtain ⟨id, front, shape⟩ := parseIdxIdSlotIndex_eq_some.mp parsed
    exact ⟨_, ⟨id, s, i, front, shape, rfl⟩, found⟩
  · rintro ⟨row, ⟨id, s, i, front, shape, rfl⟩, found⟩
    exact ⟨(s, i), parseIdxIdSlotIndex_eq_some.mpr ⟨id, front, shape⟩, found⟩

theorem addrId_iff {cf : PrimaryCf} :
    deref malformed (splitAddrIdKey key) (fun x => db.has cf x.2) = none ↔
      ∃ row, (∃ addr : Bytes, addr.length = addrKeyLen ∧ key = addr ++ 0 :: row) ∧
        db.has cf row = true := by
  rw [deref_eq_none]
  constructor
  · rintro ⟨⟨addr, row⟩, parsed, found⟩
    exact ⟨row, ⟨addr, splitAddrIdKey_eq_some.mp parsed⟩, found⟩
  · rintro ⟨row, ⟨addr, shape⟩, found⟩
    exact ⟨(addr, row), splitAddrIdKey_eq_some.mpr shape, found⟩

/-- The event arm takes every key that ends in the place of a stored event. -/
theorem event_iff : deref malformed (parseIdxEvent key)
      (fun x => db.has .scEvent (scEventKey x.1 x.2)) = none ↔
    ∃ front s i, key = front ++ rslotKey s ++ indexBytes i ∧ db.has .scEvent (scEventKey s i) = true := by
  rw [deref_eq_none]
  constructor
  · rintro ⟨⟨s, i⟩, parsed, found⟩
    obtain ⟨front, shape⟩ := parseIdxEvent_eq_some.mp parsed
    exact ⟨front, s, i, shape, found⟩
  · rintro ⟨front, s, i, shape, found⟩
    exact ⟨(s, i), parseIdxEvent_eq_some.mpr ⟨front, shape⟩, found⟩

/-- What an event key ends with is read in one way. -/
theorem event_end_unique {front front' : Bytes} {s s' : Slot} {i i' : UInt32}
    (same : front ++ rslotKey s ++ indexBytes i = front' ++ rslotKey s' ++ indexBytes i') :
    front = front' ∧ s = s' ∧ i = i' := by
  have parsed := parseIdxEvent_build front s i
  rw [same, parseIdxEvent_build] at parsed
  obtain ⟨rfl, rfl⟩ := Prod.mk.inj (Option.some.inj parsed)
  exact ⟨List.append_cancel_right (List.append_cancel_right same), rfl, rfl⟩

/-- An event entry of the right width is taken exactly when it is sound; one of another width is
taken when its place is stored. -/
theorem event_seen_iff {width : Nat} :
    (deref malformed (parseIdxEvent key) (fun x => db.has .scEvent (scEventKey x.1 x.2)) = none →
      ∃ row, (∃ front s i, front.length = width ∧ key = front ++ rslotKey s ++ indexBytes i ∧
        row = scEventKey s i) ∧ db.has .scEvent row = true) ↔
    ∀ front s i, key = front ++ rslotKey s ++ indexBytes i → db.has .scEvent (scEventKey s i) = true →
      front.length = width := by
  rw [event_iff]
  constructor
  · intro sound front s i shape found
    obtain ⟨row, ⟨front', s', i', width, shape', -⟩, -⟩ := sound ⟨front, s, i, shape, found⟩
    obtain ⟨rfl, -, -⟩ := event_end_unique (shape.symm.trans shape')
    exact width
  · rintro wide ⟨front, s, i, shape, found⟩
    exact ⟨_, ⟨front, s, i, wide front s i shape found, shape, rfl⟩, found⟩

theorem transferByAddr_iff : deref malformed (parseIdxTransferByAddr key)
      (fun x => db.has .transfer (transferKey x.1 x.2.1)) = none ↔
    ∃ row, (∃ addr s i tag, addr.length = addrKeyLen ∧ key = idxTransferByAddr addr s i tag ∧
      row = transferKey s i) ∧ db.has .transfer row = true := by
  rw [deref_eq_none]
  constructor
  · rintro ⟨⟨s, i, tag⟩, parsed, found⟩
    obtain ⟨addr, front, shape⟩ := parseIdxTransferByAddr_eq_some.mp parsed
    exact ⟨_, ⟨addr, s, i, tag, front, shape, rfl⟩, found⟩
  · rintro ⟨row, ⟨addr, s, i, tag, front, shape, rfl⟩, found⟩
    exact ⟨(s, i, tag), parseIdxTransferByAddr_eq_some.mpr ⟨addr, front, shape⟩, found⟩

theorem denunciationByAddr_iff : deref malformed (parseIdxDenunciationByAddr key)
      (fun x => db.has .denunciation x.2) = none ↔
    ∃ row, (∃ addr s, addr.length = addrKeyLen ∧ row.length = denunciationHashLen ∧
      key = idxDenunciationByAddr addr s row) ∧ db.has .denunciation row = true := by
  rw [deref_eq_none]
  constructor
  · rintro ⟨⟨s, row⟩, parsed, found⟩
    obtain ⟨addr, front, back, shape⟩ := parseIdxDenunciationByAddr_eq_some.mp parsed
    exact ⟨row, ⟨addr, s, front, back, shape⟩, found⟩
  · rintro ⟨row, ⟨addr, s, front, back, shape⟩, found⟩
    exact ⟨(s, row), parseIdxDenunciationByAddr_eq_some.mpr ⟨addr, front, back, shape⟩, found⟩

theorem denunciationRecent_iff : deref malformed (parseIdxDenunciationRecent key)
      (fun x => db.has .denunciation x.2) = none ↔
    ∃ row, (∃ s, row.length = denunciationHashLen ∧ key = idxDenunciationRecent s row) ∧
      db.has .denunciation row = true := by
  rw [deref_eq_none]
  constructor
  · rintro ⟨⟨s, row⟩, parsed, found⟩
    exact ⟨row, ⟨s, parseIdxDenunciationRecent_eq_some.mp parsed⟩, found⟩
  · rintro ⟨row, ⟨s, shape⟩, found⟩
    exact ⟨(s, row), parseIdxDenunciationRecent_eq_some.mpr shape, found⟩

end Arms

section Entry

variable {db : RawDb} {cf : IndexCf} {key : Bytes}

/-- No false alarm. -/
theorem flaw_of_sound (sound : Sound db cf key) : flaw db cf key = none := by
  cases cf
  case blockByCreator | opByCreator | opByTarget | endorsementByCreator =>
    exact addrSlotId_iff.mpr sound
  case transferByAddr => exact transferByAddr_iff.mpr sound
  case transferByOp | transferByBlock => exact idSlotIndex_iff.mpr sound
  case denunciationByAddr => exact denunciationByAddr_iff.mpr sound
  case denunciationRecent => exact denunciationRecent_iff.mpr sound
  case scEventByEmitter | scEventByCaller | scEventByOp =>
    obtain ⟨row, ⟨front, s, i, -, shape, rfl⟩, found⟩ := sound
    exact event_iff.mpr ⟨front, s, i, shape, found⟩
  case asyncBySender | asyncByDest | deferredBySender | deferredByTarget => exact addrId_iff.mpr sound
  case asyncByLastSlot | deferredByLastSlot => rfl

/-- What passes is sound, but for what `verify` cannot see. -/
theorem sound_of_passed_iff : (flaw db cf key = none → Sound db cf key) ↔ Seen db cf key := by
  cases cf
  case blockByCreator | opByCreator | opByTarget | endorsementByCreator =>
    exact iff_of_true addrSlotId_iff.mp trivial
  case transferByAddr => exact iff_of_true transferByAddr_iff.mp trivial
  case transferByOp | transferByBlock => exact iff_of_true idSlotIndex_iff.mp trivial
  case denunciationByAddr => exact iff_of_true denunciationByAddr_iff.mp trivial
  case denunciationRecent => exact iff_of_true denunciationRecent_iff.mp trivial
  case scEventByEmitter | scEventByCaller | scEventByOp => exact event_seen_iff
  case asyncBySender | asyncByDest | deferredBySender | deferredByTarget =>
    exact iff_of_true addrId_iff.mp trivial
  case asyncByLastSlot | deferredByLastSlot =>
    constructor
    · intro sound
      exact sound rfl
    · intro sound _
      exact sound

end Entry

/-! ## The count -/

/-- The claim about one report: it is clean when nothing is wrong, and it counts what is wrong. -/
def Exact (db : RawDb) (report : VerifyReport) : Prop :=
  (report.totalIssues = 0 ↔
    MetaStored db ∧ ∀ cf ∈ secondaryIndexCfs, ∀ key ∈ db.index cf, Sound db cf key) ∧
  report.totalIssues = violations db

theorem violations_eq_zero {db : RawDb} : violations db = 0 ↔
    MetaStored db ∧ ∀ cf ∈ secondaryIndexCfs, ∀ key ∈ db.index cf, Sound db cf key := by
  unfold violations
  rw [Nat.add_eq_zero_iff, List.countP_eq_zero]
  constructor
  · rintro ⟨row, sound⟩
    refine ⟨?_, ?_⟩
    · by_contra missing
      simp [missing] at row
    · intro cf _ key stored
      have passed := sound (cf, key) (mem_entries.mpr stored)
      simpa using passed
  · rintro ⟨row, sound⟩
    refine ⟨if_pos row, ?_⟩
    rintro ⟨cf, key⟩ stored
    have here := sound cf (mem_secondaryIndexCfs cf) key (mem_entries.mp stored)
    simpa using here

open Classical in
theorem violations_of_read {db : RawDb} {row : Option MetaRow} (read : db.readMeta = .ok row) :
    violations db =
      (if row.isNone then 1 else 0) + (entries db).countP fun e => ¬ Sound db e.1 e.2 := by
  unfold violations
  cases row with
  | none =>
      have absent : ¬ MetaStored db := by
        rintro ⟨m, stored⟩
        rw [read] at stored
        cases stored
      rw [if_neg absent]
      rfl
  | some m =>
      rw [if_pos ⟨m, read⟩]
      rfl

/-- What is counted is what is wrong when nothing wrong passes. -/
theorem counted_iff (db : RawDb) : (open Classical in (entries db).countP (flawed db) =
      (entries db).countP fun e => ¬ Sound db e.1 e.2) ↔
    ∀ cf ∈ secondaryIndexCfs, ∀ key ∈ db.index cf, Seen db cf key := by
  rw [countP_eq_countP_iff]
  · constructor
    · intro found cf _ key stored
      refine sound_of_passed_iff.mp fun passed => ?_
      by_contra unsound
      have flawed := found (cf, key) (mem_entries.mpr stored) (by simpa using unsound)
      rw [Cli.Verify.flawed, passed] at flawed
      cases flawed
    · intro seen
      rintro ⟨cf, key⟩ stored unsound
      have here := seen cf (mem_secondaryIndexCfs cf) key (mem_entries.mp stored)
      by_contra passed
      have sound := sound_of_passed_iff.mpr here (by simpa [flawed] using passed)
      simp [sound] at unsound
  · rintro ⟨cf, key⟩ _ found
    have unsound : ¬ Sound db cf key := by
      intro sound
      rw [flawed, flaw_of_sound sound] at found
      cases found
    simpa using unsound

/-- **The orphan scan is exact** when it has seen all that is wrong with the event keys and with the
indexes by last slot, and only then; the cap on the listed issues does not matter. -/
theorem verify_exact_iff {db : RawDb} {maxIssues : Nat} {report : VerifyReport}
    (verified : verify db maxIssues = .ok report) :
    Exact db report ↔ ∀ cf ∈ secondaryIndexCfs, ∀ key ∈ db.index cf, Seen db cf key := by
  obtain ⟨row, read, total⟩ := verify_eq_ok db verified
  have counts : report.totalIssues = violations db ↔
      ∀ cf ∈ secondaryIndexCfs, ∀ key ∈ db.index cf, Seen db cf key := by
    rw [total, violations_of_read read, Nat.add_left_cancel_iff, counted_iff]
  rw [← counts]
  constructor
  · intro exact_
    exact exact_.2
  · intro counted
    refine ⟨?_, counted⟩
    rw [counted]
    exact violations_eq_zero

/-! ## An orphan that passes -/

def bootMeta : MetaRow where
  network := ""
  genesisTimestampMs := 0
  t0Ms := 0
  threadCount := 32
  lastFinalSlot := none
  lastCandidateSlot := none
  buildVersion := ""
  createdAtMs := 0
  updatedAtMs := 0

/-- The entry of a deferred call by its last slot; the call itself is gone. -/
def orphanKey : Bytes := idxByRslotId ⟨10, 0⟩ "call"

/-- One entry in all indexes, and no primary row. -/
def orphaned : RawDb where
  readMeta := .ok (some bootMeta)
  primary _ := ∅
  index cf := if cf = .deferredByLastSlot then (∅ : Index).insert orphanKey else ∅

theorem flaw_orphaned {cf : IndexCf} {key : Bytes} (stored : key ∈ orphaned.index cf) :
    flaw orphaned cf key = none := by
  by_cases last : cf = .deferredByLastSlot
  · rw [last]
    rfl
  · simp only [orphaned, if_neg last] at stored
    exact absurd stored Std.ExtTreeSet.not_mem_empty

theorem verify_passes_orphan :
    ∃ report, verify orphaned 0 = .ok report ∧ ¬ Exact orphaned report := by
  refine ⟨_, rfl, ?_⟩
  intro exact_
  obtain ⟨row, read, total⟩ := verify_eq_ok orphaned (show verify orphaned 0 = .ok _ from rfl)
  obtain rfl := Except.ok.inj read
  have clean : (entries orphaned).countP (flawed orphaned) = 0 := by
    rw [List.countP_eq_zero]
    rintro ⟨cf, key⟩ stored
    rw [flawed, flaw_orphaned (mem_entries.mp stored)]
    simp
  rw [clean] at total
  have listed : orphanKey ∈ orphaned.index .deferredByLastSlot := by
    simp only [orphaned, if_true]
    exact Std.ExtTreeSet.mem_insert_self
  obtain ⟨row, -, found⟩ := (exact_.1.mp total).2 .deferredByLastSlot (by decide) orphanKey listed
  simp [RawDb.has, orphaned] at found

theorem verify_exact_iff_orphaned : ∃ report, verify orphaned 0 = .ok report ∧
    (Exact orphaned report ↔
      ∀ cf ∈ secondaryIndexCfs, ∀ key ∈ orphaned.index cf, Seen orphaned cf key) :=
  ⟨_, rfl, verify_exact_iff (show verify orphaned 0 = .ok _ from rfl)⟩

end MassaIndexer.Laws.VerifyExactness
