/-
# Laws.FinalStream -- the range stream against the FINAL slots of the range

The server reads as many rows as the limit allows, at or before the newest slot of the range, and sends the
FINAL ones of the range among them: the limit counts rows, not slots sent. What is sent is the newest FINAL
slots of the range, up to the limit, exactly when each of them has fewer rows than that before it, or all the
rows read are such slots (`stream_exact_iff`).
-/
import MassaIndexer.Theory.Scan
import MassaIndexer.Store.Listings
import MassaIndexer.Peer.Service

namespace MassaIndexer.Laws.FinalStream

open MassaIndexer.Theory.KeyedTable MassaIndexer.Theory.Scan MassaIndexer.Theory.Cursor
open MassaIndexer.Data.Ids MassaIndexer.Data.Model MassaIndexer.Data.Proto MassaIndexer.Data.Keys
open MassaIndexer.Data.KeyOrder
open MassaIndexer.Store.ColumnFamilies MassaIndexer.Store.Scans MassaIndexer.Store.Listings
open MassaIndexer.Peer.Service

set_option autoImplicit false

/-! ## The rows of a range -/

/-- Newer slots first. -/
def newerSlot (row later : SlotState) : Prop := later.slot.lt row.slot = true

instance : DecidableRel newerSlot := fun _ _ => inferInstanceAs (Decidable (_ = true))

/-- At or before the newest slot of a range. -/
def NotAfter (newest : Slot) (row : SlotState) : Prop := ¬ newest.lt row.slot = true

instance (newest : Slot) : DecidablePred (NotAfter newest) := fun _ => inferInstanceAs (Decidable (¬ _))

/-- A FINAL row of the range. -/
structure FinalIn (oldest newest : Slot) (row : SlotState) : Prop where
  final : row.status = .final
  notBefore : ¬ row.slot.lt oldest = true
  notAfter : NotAfter newest row

/-- How many stored rows are newer than one, and not past the range. -/
def newerRows (db : Db) (newest : Slot) (row : SlotState) : Nat :=
  rankIn db.slots (NotAfter newest) newerSlot row

/-- The rows read, as the cursor lists them. -/
def rowsTo (db : Db) (newest : Slot) : List SlotState := slotsFrom db (slotKey newest ++ [0])

variable {db : Db} {oldest newest : Slot}

theorem lists_rowsTo : Lists db.slots (NotAfter newest) newerSlot (rowsTo db newest) where
  mem _ := mem_slotsFrom
  sorted := pairwise_slotsFrom db _
  strict row := Slot.lt_irrefl row.slot

theorem newerSlot_trans {u v w : SlotState} (first : newerSlot u v) (second : newerSlot v w) :
    newerSlot u w := Slot.lt_trans second first

/-- FINAL, and not before the range. -/
def counts (oldest : Slot) (row : SlotState) : Bool := row.status = .final ∧ ¬ row.slot.lt oldest = true

theorem finalIn_iff {row : SlotState} (notAfter : NotAfter newest row) :
    FinalIn oldest newest row ↔ counts oldest row = true := by
  rw [counts, decide_eq_true_eq]
  exact ⟨fun inside => ⟨inside.final, inside.notBefore⟩, fun both => ⟨both.1, both.2, notAfter⟩⟩

/-- The FINAL rows of the range, newest first. -/
theorem lists_finals : Lists db.slots (FinalIn oldest newest) newerSlot
    ((rowsTo db newest).filter (counts oldest)) where
  mem row := by
    rw [List.mem_filter, lists_rowsTo.mem]
    constructor
    · rintro ⟨⟨held, notAfter⟩, passes⟩
      exact ⟨held, (finalIn_iff notAfter).mpr passes⟩
    · rintro ⟨held, inside⟩
      exact ⟨⟨held, inside.notAfter⟩, (finalIn_iff inside.notAfter).mp inside⟩
  sorted := lists_rowsTo.sorted.filter _
  strict row := Slot.lt_irrefl row.slot

/-! ## What is sent -/

section Sending

variable [Bs58Check] {parts : FinalSlotParts}

/-- What a stream should send: the newest FINAL slots of the range, up to the limit. -/
def SentExactly (db : Db) (oldest newest : Slot) (limit : Nat) (parts : FinalSlotParts)
    (sent : List FinalSlotResponse) : Prop :=
  ∃ rows, Lists db.slots (FinalIn oldest newest) newerSlot rows ∧
    sent = (rows.take limit).map (buildFinalSlotResponseFromState db · parts)

/-- Rows come newest first, so the first one before the range is where it ends. -/
theorem sendFinal_eq {rows : List SlotState} (sorted : rows.Pairwise newerSlot) :
    sendFinal db parts oldest rows =
      (rows.filter (counts oldest)).map (buildFinalSlotResponseFromState db · parts) := by
  induction rows with
  | nil => rfl
  | cons s rest ih =>
      obtain ⟨older, sortedRest⟩ := List.pairwise_cons.mp sorted
      rw [sendFinal]
      split
      · next past =>
          have none_ : (s :: rest).filter (counts oldest) = [] := by
            rw [List.filter_eq_nil_iff]
            intro row member passes
            rw [counts, decide_eq_true_eq] at passes
            rcases List.mem_cons.mp member with rfl | later
            · exact passes.2 past
            · exact passes.2 (Slot.lt_trans (older row later) past)
          rw [none_]
          rfl
      · next inside =>
          split
          · next open_ =>
              have skipped : counts oldest s = false := by simp [counts, open_]
              rw [ih sortedRest, List.filter_cons_of_neg (by simp [skipped])]
          · next final =>
              have kept : counts oldest s = true := by
                simp only [counts, decide_eq_true_eq]
                exact ⟨not_not.mp final, inside⟩
              rw [ih sortedRest, List.filter_cons_of_pos kept]
              rfl

/-- The limit is reached before the rows are filtered. -/
theorem streamFinalSlots_eq {cap : UInt32} {r : StreamFinalSlotsRequest}
    (range : requestedRange r = .ok (oldest, newest)) :
    streamFinalSlots db cap r = .ok
      ((((rowsTo db newest).take (streamLimit cap r.limit).toNat).filter (counts oldest)).map
        (buildFinalSlotResponseFromState db · (r.parts.getD {}))) := by
  have synthetic : ∀ s : Slot, some (slotKey newest ++ [0]) ≠ some (slotKey s) := by
    intro s same
    have lengths := congrArg List.length (Option.some.inj same)
    simp at lengths
  rw [streamFinalSlots, range]
  show Except.ok (sendFinal db _ oldest (iterSlotsDesc db _ _).items) = _
  rw [items_iterSlotsDesc db synthetic, Option.getD_some]
  exact congrArg Except.ok (sendFinal_eq (lists_rowsTo.sorted.sublist (List.take_sublist _ _)))

/-! ## The law -/

/-- No FINAL row of the range has more rows before it than the limit allows, or all rows up to the limit are
such rows. -/
def InReach (db : Db) (oldest newest : Slot) (limit : Nat) : Prop :=
  (∀ row, db.slots.Holds row → FinalIn oldest newest row → newerRows db newest row < limit) ∨
  ∀ row, db.slots.Holds row → NotAfter newest row → newerRows db newest row < limit →
    FinalIn oldest newest row

omit [Bs58Check] in
theorem inReach_iff {limit : Nat} : InReach db oldest newest limit ↔
    (∀ row ∈ (rowsTo db newest).drop limit, counts oldest row = false) ∨
      ∀ row ∈ (rowsTo db newest).take limit, counts oldest row = true := by
  have listed : ∀ row, row ∈ rowsTo db newest ↔ db.slots.Holds row ∧ NotAfter newest row :=
    lists_rowsTo.mem
  have early : ∀ row ∈ rowsTo db newest,
      (row ∈ (rowsTo db newest).take limit ↔ newerRows db newest row < limit) :=
    fun row member => lists_rowsTo.mem_take_iff newerSlot_trans member
  have apart : ∀ row, row ∈ (rowsTo db newest).take limit → row ∉ (rowsTo db newest).drop limit := by
    intro row inTake inDrop
    have single : (rowsTo db newest).Nodup := lists_rowsTo.nodup
    rw [← List.take_append_drop limit (rowsTo db newest), List.nodup_append] at single
    exact single.2.2 row inTake row inDrop rfl
  refine or_congr ⟨fun near row inDrop => ?_, fun far row held inside => ?_⟩
    ⟨fun all row inTake => ?_, fun all row held notAfter near => ?_⟩
  · rw [← Bool.not_eq_true]
    intro passes
    have member := List.mem_of_mem_drop inDrop
    obtain ⟨held, notAfter⟩ := (listed row).mp member
    exact apart row ((early row member).mpr (near row held ((finalIn_iff notAfter).mpr passes))) inDrop
  · have member := (listed row).mpr ⟨held, inside.notAfter⟩
    refine (early row member).mp ?_
    rw [← List.take_append_drop limit (rowsTo db newest), List.mem_append] at member
    refine member.resolve_right fun inDrop => ?_
    have fails := far row inDrop
    rw [(finalIn_iff inside.notAfter).mp inside] at fails
    cases fails
  · have member := List.mem_of_mem_take inTake
    obtain ⟨held, notAfter⟩ := (listed row).mp member
    exact (finalIn_iff notAfter).mp (all row held notAfter ((early row member).mp inTake))
  · exact (finalIn_iff notAfter).mpr (all row ((early row ((listed row).mpr ⟨held, notAfter⟩)).mpr near))

theorem sentExactly_iff {limit : Nat} :
    SentExactly db oldest newest limit parts
      ((((rowsTo db newest).take limit).filter (counts oldest)).map
        (buildFinalSlotResponseFromState db · parts)) ↔ InReach db oldest newest limit := by
  rw [inReach_iff]
  constructor
  · rintro ⟨rows, lists, same⟩
    refine length_filter_take_iff.mp ?_
    have sizes := congrArg List.length same
    rw [List.length_map, List.length_map] at sizes
    rw [sizes, List.length_take, List.length_take, lists.length_eq lists_finals]
  · intro reach
    refine ⟨_, lists_finals, ?_⟩
    rw [filter_take_iff.mpr reach]

/-- **The stream sends exactly the newest FINAL slots of the range, up to the limit, exactly when no row it
does not read is one of them or all the rows it reads are.** -/
theorem stream_exact_iff (db : Db) (cap : UInt32) (r : StreamFinalSlotsRequest)
    (range : requestedRange r = .ok (oldest, newest)) :
    (∃ sent, streamFinalSlots db cap r = .ok sent ∧
      SentExactly db oldest newest (streamLimit cap r.limit).toNat (r.parts.getD {}) sent) ↔
      InReach db oldest newest (streamLimit cap r.limit).toNat := by
  rw [streamFinalSlots_eq range]
  constructor
  · rintro ⟨sent, same, exactly⟩
    rw [← Except.ok.inj same] at exactly
    exact sentExactly_iff.mp exactly
  · exact fun reach => ⟨_, rfl, sentExactly_iff.mpr reach⟩

/-! ### A row in the way -/

/-- A FINAL miss. -/
def missedRow : SlotState := { SlotState.fresh ⟨1, 0⟩ 0 with status := .final, isMiss := true }

/-- A row of which nothing is known. -/
def stubRow : SlotState := SlotState.fresh ⟨2, 0⟩ 0

/-- The FINAL row behind the stub. -/
def stubbedDb : Db := (Db.empty.writeSlot missedRow).writeSlot stubRow

/-- One slot of the range that holds both. -/
def oneSlot : StreamFinalSlotsRequest := { toPeriod := 2, limit := 1 }

omit [Bs58Check] in
theorem holds_missedRow : stubbedDb.slots.Holds missedRow := by
  show stubbedDb.readSlot ⟨1, 0⟩ = some missedRow
  rw [stubbedDb, Db.readSlot_writeSlot, Db.readSlot_writeSlot]
  rfl

omit [Bs58Check] in
theorem holds_stubRow : stubbedDb.slots.Holds stubRow := by
  show stubbedDb.readSlot ⟨2, 0⟩ = some stubRow
  rw [stubbedDb, Db.readSlot_writeSlot]
  rfl

omit [Bs58Check] in
theorem not_inReach_stubbed : ¬ InReach stubbedDb ⟨0, 0⟩ ⟨2, 0⟩ 1 := by
  rintro (near | all)
  · have alone := near missedRow holds_missedRow ⟨rfl, by decide, by unfold NotAfter; decide⟩
    have before : stubRow ∈ stubbedDb.slots.toList.filter fun u =>
        NotAfter ⟨2, 0⟩ u ∧ newerSlot u missedRow := by
      rw [List.mem_filter, decide_eq_true_eq]
      exact ⟨Table.holds_iff_mem.mp holds_stubRow, by unfold NotAfter; decide, by unfold newerSlot; decide⟩
    have some_ := List.length_pos_of_mem before
    rw [newerRows, rankIn] at alone
    omega
  · have none_ : newerRows stubbedDb ⟨2, 0⟩ stubRow < 1 := by
      rw [newerRows, rankIn, Nat.lt_one_iff, List.length_eq_zero_iff, List.filter_eq_nil_iff]
      intro u _ both
      rw [decide_eq_true_eq] at both
      exact both.1 both.2
    have final := (all stubRow holds_stubRow (by unfold NotAfter; decide) none_).final
    cases final

theorem not_sent_stubbed : ¬ ∃ sent, streamFinalSlots stubbedDb 512 oneSlot = .ok sent ∧
    SentExactly stubbedDb ⟨0, 0⟩ ⟨2, 0⟩ 1 {} sent := by
  rintro ⟨sent, same, exactly⟩
  have range : requestedRange oneSlot = .ok (⟨0, 0⟩, ⟨2, 0⟩) := by rfl
  rw [streamFinalSlots_eq range] at same
  rw [← Except.ok.inj same] at exactly
  exact not_inReach_stubbed (sentExactly_iff.mp exactly)

end Sending

section Stubbed

attribute [local instance] Bs58Check.doubleSha

/-- The stub takes the one place there is, and the FINAL slot behind it is not sent. -/
theorem final_slot_not_streamed : ¬ ∃ sent, streamFinalSlots stubbedDb 512 oneSlot = .ok sent ∧
    SentExactly stubbedDb ⟨0, 0⟩ ⟨2, 0⟩ 1 {} sent := not_sent_stubbed

theorem stream_exact_iff_stubbed :
    (∃ sent, streamFinalSlots stubbedDb 512 oneSlot = .ok sent ∧
      SentExactly stubbedDb ⟨0, 0⟩ ⟨2, 0⟩ (streamLimit 512 oneSlot.limit).toNat
        (oneSlot.parts.getD {}) sent) ↔
      InReach stubbedDb ⟨0, 0⟩ ⟨2, 0⟩ (streamLimit 512 oneSlot.limit).toNat :=
  stream_exact_iff stubbedDb 512 oneSlot (by rfl)

end Stubbed

end MassaIndexer.Laws.FinalStream
