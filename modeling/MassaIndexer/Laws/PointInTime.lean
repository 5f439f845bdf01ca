/-
# Laws.PointInTime -- slots packed into one falling number

The archive keys its rows by `u32::MAX - (period * 100 + thread)`, so that later slots come first. A slot
has a key of its own where its thread is below a hundred and the sum fits (`Packs`); there the packing is
undone by `point_in_time_to_slot` and reverses the order. Every other slot is packed to the key of a slot
that is not it, by the carry of its thread or by saturation, and what the archive holds under that key does
not decode to the slot asked for: `fetch_slot` refuses the row.
-/
import MassaIndexer.Laws.ArchiveCompleteness
import MassaIndexer.Laws.LegacyNumbering

namespace MassaIndexer.Laws.PointInTime

open MassaIndexer.Theory.ByteText
open MassaIndexer.Data.Ids MassaIndexer.Data.Model MassaIndexer.Data.Proto MassaIndexer.Data.Codec
open MassaIndexer.Data.RowCodec MassaIndexer.Writer.Families MassaIndexer.Peer.Patch
open MassaIndexer.Repair.Producers hiding fetchSlot
open MassaIndexer.Repair.ArchiveFetch
open MassaIndexer.Repair.LegacyDecode hiding DecodedOp
open MassaIndexer.Laws.LegacyDecoders MassaIndexer.Laws.ArchiveCompleteness MassaIndexer.Laws.LegacyNumbering

set_option autoImplicit false

/-- The slots with a key of their own. -/
def Packs (s : Slot) : Prop := s.thread.toNat < 100 ∧ s.period.toNat * 100 + s.thread.toNat ≤ 2 ^ 32 - 1

instance (s : Slot) : Decidable (Packs s) := inferInstanceAs (Decidable (_ ∧ _))

/-! ## Keys -/

theorem toNat_pointInTime (s : Slot) : (pointInTime s.period s.thread).toNat =
    2 ^ 32 - 1 - min (s.period.toNat * 100 + s.thread.toNat) (2 ^ 32 - 1) := by
  have small := s.thread.toNat_lt
  rw [pointInTime, UInt32.toNat_ofNat']
  omega

/-- What a key decodes to. -/
theorem pointInTimeToSlot_iff (pit : UInt32) (s : Slot) : pointInTimeToSlot pit = s ↔
    s.thread.toNat < 100 ∧ s.period.toNat * 100 + s.thread.toNat = 2 ^ 32 - 1 - pit.toNat := by
  have bound := pit.toNat_lt
  have period : (UInt64.ofNat ((2 ^ 32 - 1 - pit.toNat) / 100)).toNat = (2 ^ 32 - 1 - pit.toNat) / 100 := by
    rw [UInt64.toNat_ofNat']
    omega
  have thread : (UInt8.ofNat ((2 ^ 32 - 1 - pit.toNat) % 100)).toNat = (2 ^ 32 - 1 - pit.toNat) % 100 := by
    rw [UInt8.toNat_ofNat']
    omega
  constructor
  · rintro rfl
    rw [pointInTimeToSlot]
    dsimp only
    rw [period, thread]
    omega
  · rintro ⟨below, sum⟩
    obtain ⟨p, t⟩ := s
    dsimp only at below sum
    rw [pointInTimeToSlot, Slot.mk.injEq, ← UInt64.toNat_inj, ← UInt8.toNat_inj, period, thread]
    omega

theorem packs_pointInTimeToSlot (pit : UInt32) : Packs (pointInTimeToSlot pit) := by
  obtain ⟨below, sum⟩ := (pointInTimeToSlot_iff pit _).mp rfl
  exact ⟨below, by omega⟩

/-- The packing is undone exactly where it packs. -/
theorem pointInTime_round_iff (s : Slot) :
    pointInTimeToSlot (pointInTime s.period s.thread) = s ↔ Packs s := by
  rw [pointInTimeToSlot_iff, toNat_pointInTime, Packs]
  omega

theorem pointInTime_lt {a b : Slot} (packsA : Packs a) (packsB : Packs b) (earlier : a.lt b = true) :
    pointInTime b.period b.thread < pointInTime a.period a.thread := by
  rw [Slot.lt_iff] at earlier
  rw [UInt32.lt_iff_toNat_lt, toNat_pointInTime, toNat_pointInTime]
  obtain ⟨lowA, fitsA⟩ := packsA
  obtain ⟨lowB, fitsB⟩ := packsB
  omega

/-- A key that decodes to a slot is the slot's. -/
theorem eq_pointInTime {pit : UInt32} {s : Slot} (decodes : pointInTimeToSlot pit = s) :
    pit = pointInTime s.period s.thread := by
  obtain ⟨-, sum⟩ := (pointInTimeToSlot_iff pit s).mp decodes
  have bound := pit.toNat_lt
  rw [← UInt32.toNat_inj, toNat_pointInTime]
  omega

/-! ## Lookups -/

section Lookups

variable [Bs58Check] [Wrappers] {env : Dynamo} {maxPeriod : Option UInt64} {s : Slot} {nowMs : Int}
  {calls : Nat} {resp : FinalSlotResponse}

/-- All that an answer carries is of the slot: the row it was read from, the slot it names, its block and
its transfers. -/
structure OfSlot (env : Dynamo) (s : Slot) (resp : FinalSlotResponse) : Prop where
  row : ∃ queried row, findBlockRow env (pointInTime s.period s.thread) = .ok (some queried) ∧
    withPayload env queried = .ok row ∧ row.pointInTime = .ok (pointInTime s.period s.thread)
  named : resp.period = s.period ∧ resp.thread = s.thread.toUInt32
  block : ∀ block, deliveredBlock resp = some block → block.slot = s
  transfers : ∀ pb ∈ resp.transfers, pb.slot = some (slotToPb s)

theorem slot_decodeBlockRow {row : BlockRow}
    {decoded : Data.Storage.BlockRow × List String × List SeenEndorsement}
    (parsed : decodeBlockRow row nowMs = .ok decoded) : decoded.1.slot = row.slot := by
  obtain ⟨wrapper, -, parsed⟩ := bind_eq_ok.mp parsed
  obtain ⟨block, -, parsed⟩ := bind_eq_ok.mp parsed
  obtain ⟨hdr, -, parsed⟩ := bind_eq_ok.mp parsed
  obtain ⟨blockHdr, -, parsed⟩ := bind_eq_ok.mp parsed
  obtain ⟨blockId, -, parsed⟩ := bind_eq_ok.mp parsed
  obtain ⟨creator, -, parsed⟩ := bind_eq_ok.mp parsed
  obtain rfl := Except.ok.inj parsed
  rfl

omit [Wrappers] in
theorem slot_resolve {row : Data.Storage.BlockRow} {block : StoredBlock}
    (resolved : row.resolve.toOption = some block) : block.slot = row.slot := by
  obtain ⟨endorsements, -, resolved⟩ := bind_eq_ok.mp (toOption_eq_some.mp resolved)
  obtain ⟨header, -, resolved⟩ := bind_eq_ok.mp resolved
  obtain rfl := Except.ok.inj resolved
  rfl

/-- The check of the key is what ties the row to the request. -/
theorem readBlock_ok {item : BlocksItem} {found : FoundBlock}
    (read : readBlock item s.period s.thread nowMs = .ok found) :
    item.pointInTime = .ok (pointInTime s.period s.thread) ∧ Packs s ∧ found.row.slot = s := by
  obtain ⟨hash, -, read⟩ := bind_eq_ok.mp read
  obtain ⟨creator, -, read⟩ := bind_eq_ok.mp read
  obtain ⟨raw, -, read⟩ := bind_eq_ok.mp read
  obtain ⟨pit, keyed, read⟩ := bind_eq_ok.mp read
  dsimp only at read
  split at read
  · cases read
  · next same =>
      have decodes : pointInTimeToSlot pit = s := Decidable.not_not.mp same
      obtain ⟨decoded, parsed, read⟩ := bind_eq_ok.mp read
      obtain rfl := Except.ok.inj read
      refine ⟨?_, decodes ▸ packs_pointInTimeToSlot pit, ?_⟩
      · rw [← eq_pointInTime decodes]
        exact mapError_eq_ok.mp keyed
      · exact (slot_decodeBlockRow (mapError_eq_ok.mp parsed)).trans decodes

theorem blockAt_some {found : FoundBlock} (block : blockAt env s.period s.thread nowMs = .ok (some found)) :
    Packs s ∧ found.row.slot = s ∧
      ∃ queried row, findBlockRow env (pointInTime s.period s.thread) = .ok (some queried) ∧
        withPayload env queried = .ok row ∧ row.pointInTime = .ok (pointInTime s.period s.thread) := by
  obtain ⟨queried?, asked, block⟩ := bind_eq_ok.mp block
  cases queried? with
  | none => cases block
  | some queried =>
      obtain ⟨row, whole, block⟩ := bind_eq_ok.mp block
      obtain ⟨found', read, block⟩ := bind_eq_ok.mp block
      obtain rfl := Option.some.inj (Except.ok.inj block)
      obtain ⟨keyed, packs, slot⟩ := readBlock_ok read
      exact ⟨packs, slot, queried, row, asked, whole, keyed⟩

/-- **The packing is undone exactly on the slots that pack, and reverses their order; whatever the archive
holds and answers, `fetch_slot` answers for no other slot, and with data of the slot asked for.** -/
theorem point_in_time_exact (s : Slot) :
    (pointInTimeToSlot (pointInTime s.period s.thread) = s ↔ Packs s) ∧
      (∀ s', Packs s → Packs s' → s.lt s' = true →
        pointInTime s'.period s'.thread < pointInTime s.period s.thread) ∧
      ∀ env maxPeriod nowMs calls resp,
        fetchSlot env maxPeriod s.period s.thread nowMs calls = some (.ok (some resp)) →
          Packs s ∧ OfSlot env s resp := by
  refine ⟨pointInTime_round_iff s, fun s' packs packs' earlier => pointInTime_lt packs packs' earlier, ?_⟩
  intro env maxPeriod nowMs calls resp returned
  obtain ⟨found, items, ops, block, -, -, rfl⟩ := fetchSlot_some returned
  obtain ⟨packs, slot, row⟩ := blockAt_some block
  refine ⟨packs, row, ⟨rfl, rfl⟩, ?_, ?_⟩
  · intro carried delivered
    obtain ⟨pb, shipped, read⟩ := Option.bind_eq_some_iff.mp
      (show shippedBlock (Repair.Producers.fetchSlot s (archived found ops items) nowMs) = some carried
        from delivered)
    obtain ⟨block, resolved, rfl⟩ := Option.map_eq_some_iff.mp shipped
    rw [blockFromPeerPb_toPeerPb] at read
    obtain rfl := Option.some.inj read
    exact (slot_resolve resolved).trans slot
  · intro pb listed
    obtain ⟨t, made, rfl⟩ := List.mem_map.mp listed
    show some (slotToPb t.slot) = _
    rw [(plain_archivedRows made).2]

end Lookups

section OneOperation

attribute [local instance] Bs58Check.doubleSha archiveOfOne

/-- The archive of one block answers for its slot. -/
theorem point_in_time_exact_ten : Packs ⟨10, 0⟩ ∧
    pointInTime 10 1 < pointInTime 10 0 ∧ ∃ resp, OfSlot (archiveOf true) ⟨10, 0⟩ resp := by
  obtain ⟨resp, returned⟩ := fetchSlot_archiveOf true
  have exact := point_in_time_exact ⟨10, 0⟩
  have answer := exact.2.2 (archiveOf true) none 5 1 resp returned
  exact ⟨answer.1, exact.2.1 ⟨10, 1⟩ (by decide) (by decide) (by decide), resp, answer.2⟩

end OneOperation

end MassaIndexer.Laws.PointInTime
