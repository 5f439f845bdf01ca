/-
# Laws.ExportRanges -- the exports against their period range

An export of a range is to list the newest rows of the range, as many as its cap. The code caps first and
takes the range out of what is left: rows newer than the range use up the cap. What a capped read does not
see is lost as well, and what it sees twice is listed twice: a transfer with two entries that ends a batch
of 10,000 begins the next one. `exports_exact_iff` says when none of this happens.
-/
import MassaIndexer.Chain.Snapshot
import MassaIndexer.Rest.Exports
import MassaIndexer.Store.TransferLists

namespace MassaIndexer.Laws.ExportRanges

open MassaIndexer.Theory MassaIndexer.Theory.KeyedTable MassaIndexer.Theory.Batches
open MassaIndexer.Theory.Cursor (PlacePager)
open MassaIndexer.Data.Ids MassaIndexer.Data.Model MassaIndexer.Data.Keys MassaIndexer.Data.Codec
open MassaIndexer.Store.ColumnFamilies MassaIndexer.Store.Scans MassaIndexer.Store.NewestSlots
open MassaIndexer.Store.TransferScan MassaIndexer.Store.TransferLists
open MassaIndexer.Rest.BlockPages (ApiErr)
open MassaIndexer.Rest.Charts MassaIndexer.Rest.Exports

set_option autoImplicit false

/-! ## Slots -/

/-- Every slot row of the range, newest first. -/
def slotsOfRange (db : Db) (q : ExportRangeQ) : List SlotState :=
  (slotsDesc db).filter fun row => q.takes row.slot

/-- The newest rows of the range are read before the cap. -/
def SlotsReached (db : Db) (q : ExportRangeQ) : Prop :=
  ∀ row ∈ slotsDesc db, q.takes row.slot = true →
    (slotsOfRange db q).countP (fun other => Newer other row) < slotsCap q →
      visible row = true ∧ rowsAbove db row < slotsCap q

theorem slots_exact_iff (db : Db) (q : ExportRangeQ) :
    exportSlotsCsv db q = (slotsOfRange db q).take (slotsCap q) ↔ SlotsReached db q := by
  have short : exportSlotsCsv db q = (exportSlotsCsv db q).take (slotsCap q) := by
    refine (List.take_of_length_le ?_).symm
    rw [exportSlotsCsv, fetchRecentSlots_eq]
    exact (List.length_filter_le _ _).trans (List.length_take_le _ _)
  have ordered : (exportSlotsCsv db q).Pairwise Newer :=
    ((ordered_slotsDesc db).sublist (fetchRecentSlots_sublist db _)).filter _
  have listed : ∀ row, row ∈ exportSlotsCsv db q ↔ row ∈ slotsDesc db ∧ q.takes row.slot = true ∧
      visible row = true ∧ rowsAbove db row < slotsCap q := by
    intro row
    rw [exportSlotsCsv, List.mem_filter, fetchRecentSlots_eq,
      Heads.mem_take_iff newer_asymm ((ordered_slotsDesc db).filter _), List.mem_filter]
    exact ⟨fun both => ⟨both.1.1.1, both.2, both.1.1.2, both.1.2⟩,
      fun all => ⟨⟨⟨all.1, all.2.2.1⟩, all.2.2.2⟩, all.2.1⟩⟩
  have whole : (slotsOfRange db q).Pairwise Newer := (ordered_slotsDesc db).filter _
  rw [short, Heads.take_eq_take_iff newer_asymm newer_trans ordered whole]
  · constructor
    · intro agree row stored takes few
      exact ((listed row).mp ((agree row few).mpr (List.mem_filter.mpr ⟨stored, takes⟩))).2.2
    · intro reached row few
      rw [listed, slotsOfRange, List.mem_filter]
      constructor
      · intro all
        exact ⟨all.1, all.2.1⟩
      · rintro ⟨stored, takes⟩
        exact ⟨stored, takes, reached row stored takes few⟩
  · intro x memberX y memberY
    exact newer_total ((listed x).mp memberX).1 (List.mem_filter.mp memberY).1

/-! ## Transfers of an address -/

section Transfers

/-- How many entries of the address lead to a transfer. -/
def entriesOf (db : Db) (a : Address) (t : StoredTransfer) : Nat :=
  (transferPager db a).count (placeOf t) (entriesUnder db.transferByAddr a.bytes)

/-- How many transfers the batches list before one: those that the entries lead to before it, and
once more each of them that ends a batch and has a further entry. -/
def listedBefore (db : Db) (a : Address) (t : StoredTransfer) : Nat :=
  (listing batch (fun u => 1 < entriesOf db a u) batch ((met db a).takeWhile fun u => u ≠ t)).length

section Batches

variable {db : Db} {a : Address} {t : StoredTransfer}

theorem nodup_met : (met db a).Nodup :=
  PlacePager.nodup_hits owned_transferPager (entriesUnder db.transferByAddr a.bytes) []

theorem ordered_met : (met db a).Pairwise newer :=
  PlacePager.pairwise_hits owned_transferPager placed_transferPager []

theorem stored_of_met (listed : t ∈ met db a) : t ∈ transfersDesc db := by
  obtain ⟨-, -, p, -, -, found⟩ := PlacePager.mem_hits.mp listed
  have key : Row.key t = transferKey p.1 p.2 := Table.key_of_get found
  rw [mem_transfersDesc, key]
  exact found

/-- What the batches collect. -/
theorem collect_transfers (cap : Nat) : collect (iterTransfersByAddr db a) batch none cap =
    (listing batch (fun u => 1 < entriesOf db a u) batch (met db a)).take cap := by
  have placed : (transferPager db a).Placed placeLess
      ((transferPager db a).inside db.transferByAddr.toList) := placed_transferPager
  have wide : 2 ≤ batch := by decide
  show collect ((transferPager db a).page (some a.bytes) db.transferByAddr.toList) batch none cap = _
  rw [collect_eq_take wide owned_transferPager ordered_transferPager placed cap, range_transferPager]
  rfl

theorem split_iff {front back : List StoredTransfer} (split : met db a = front ++ t :: back) :
    front = (met db a).takeWhile fun u => u ≠ t := by
  have once : (met db a).Nodup := nodup_met
  rw [split] at once ⊢
  rw [List.takeWhile_append_of_pos]
  · simp
  · intro u member
    have apart := (List.nodup_append.mp once).2.2 u member t List.mem_cons_self
    simpa using apart

/-- A transfer is among the first when few are listed before it. -/
theorem mem_collect_iff {cap : Nat} : t ∈ collect (iterTransfersByAddr db a) batch none cap ↔
    t ∈ met db a ∧ listedBefore db a t < cap := by
  rw [collect_transfers, mem_take_listing]
  constructor
  · rintro ⟨front, w, back, split, rfl, few⟩
    refine ⟨by rw [split]; simp, ?_⟩
    rw [listedBefore, ← split_iff split]
    exact few
  · rintro ⟨listed, few⟩
    obtain ⟨front, back, split⟩ := List.append_of_mem listed
    refine ⟨front, t, back, split, rfl, ?_⟩
    rw [listedBefore, ← split_iff split] at few
    exact few

/-- None that counts is listed twice. -/
theorem ordered_collect_iff (counts : StoredTransfer → Bool) (cap : Nat) :
    ((collect (iterTransfersByAddr db a) batch none cap).filter counts).Pairwise newer ↔
      ∀ t ∈ met db a, counts t = true → 1 < entriesOf db a t → batch ∣ listedBefore db a t + 1 →
        cap ≤ listedBefore db a t + 1 := by
  rw [collect_transfers, pairwise_take_listing (R := newer) (fun t => placeLess_irrefl (placeOf t))
      (by decide) counts ordered_met
    (by decide) (Nat.le_refl batch)]
  constructor
  · intro split t listed counted twice ends
    obtain ⟨front, back, parts⟩ := List.append_of_mem listed
    have here := split front t back parts counted (decide_eq_true twice)
    rw [listedBefore, ← split_iff parts] at ends ⊢
    exact here (by rwa [Nat.sub_self, Nat.add_zero])
  · intro once front t back parts counted twice ends
    have here := once t (by rw [parts]; simp) counted (of_decide_eq_true twice)
    rw [listedBefore, ← split_iff parts] at here
    exact here (by rwa [Nat.sub_self, Nat.add_zero] at ends)

end Batches

variable [Bs58Check]

/-- Every transfer of the address in the range, newest slot first. -/
def transfersOfRange (db : Db) (a : Address) (q : ExportRangeQ) : List StoredTransfer :=
  (readingOrder db).filter fun t => Mentions a t && q.takes t.slot

/-- The export that is wanted. -/
def wantedTransfers (db : Db) (text : String) (q : ExportRangeQ) : Except ApiErr (List StoredTransfer) :=
  match Address.parse text with
  | .error e => .error (.bad e)
  | .ok a => .ok ((transfersOfRange db a q).take (transfersCap q))

/-- No transfer of the range is repeated within the cap, and the newest of the range are those that are
listed before the cap. -/
structure TransfersReached (db : Db) (a : Address) (q : ExportRangeQ) : Prop where
  once : ∀ t ∈ met db a, q.takes t.slot = true → 1 < entriesOf db a t → batch ∣ listedBefore db a t + 1 →
    transfersCap q ≤ listedBefore db a t + 1
  reached : ∀ t ∈ transfersDesc db, q.takes t.slot = true →
    (transfersOfRange db a q).countP (fun u => newer u t) < transfersCap q →
      (Mentions a t ↔ t ∈ met db a ∧ listedBefore db a t < transfersCap q)

theorem transfers_exact_iff (db : Db) (a : Address) (q : ExportRangeQ) :
    ((collect (iterTransfersByAddr db a) batch none (transfersCap q)).filter fun t => q.takes t.slot) =
        (transfersOfRange db a q).take (transfersCap q) ↔ TransfersReached db a q := by
  have whole : (transfersOfRange db a q).Pairwise newer := (ordered_readingOrder db).filter _
  have wanted : ∀ t, t ∈ transfersOfRange db a q ↔
      t ∈ transfersDesc db ∧ Mentions a t ∧ q.takes t.slot = true := by
    intro t
    rw [transfersOfRange, List.mem_filter, mem_readingOrder]
    simp
  have listed : ∀ t, t ∈ (collect (iterTransfersByAddr db a) batch none (transfersCap q)).filter
      (fun t => q.takes t.slot) ↔
        (t ∈ met db a ∧ listedBefore db a t < transfersCap q) ∧ q.takes t.slot = true := by
    intro t
    rw [List.mem_filter, mem_collect_iff]
  have short : ((collect (iterTransfersByAddr db a) batch none (transfersCap q)).filter
      fun t => q.takes t.slot).length ≤ transfersCap q := by
    refine (List.length_filter_le _ _).trans ?_
    rw [collect_transfers]
    exact List.length_take_le _ _
  constructor
  · intro same
    have ordered := whole.sublist (List.take_sublist (transfersCap q) _)
    rw [← same] at ordered
    refine ⟨(ordered_collect_iff _ _).mp ordered, ?_⟩
    intro t stored takes few
    have head : t ∈ (transfersOfRange db a q).take (transfersCap q) ↔ Mentions a t := by
      rw [Heads.mem_take_iff newer_not_newer whole, wanted]
      exact ⟨fun all => all.1.2.1, fun mentions => ⟨⟨stored, mentions, takes⟩, few⟩⟩
    rw [← head, ← same, listed]
    exact and_iff_left takes
  · rintro ⟨once, reached⟩
    have ordered := (ordered_collect_iff _ _).mpr once
    rw [← List.take_of_length_le short, Heads.take_eq_take_iff newer_not_newer
      (fun first second => placeLess_trans first second) ordered whole]
    · intro t few
      rw [listed, wanted]
      constructor
      · rintro ⟨both, takes⟩
        have stored := stored_of_met both.1
        exact ⟨stored, (reached t stored takes few).mpr both, takes⟩
      · rintro ⟨stored, mentions, takes⟩
        exact ⟨(reached t stored takes few).mp mentions, takes⟩
    · intro t memberT u memberU
      exact reading_total (stored_of_met ((listed t).mp memberT).1.1) ((wanted u).mp memberU).1

/-- **The exports are exact** when the newest rows of the range are what is read before the cap,
each once; and only then. -/
theorem exports_exact_iff (db : Db) (q : ExportRangeQ) :
    (exportSlotsCsv db q = (slotsOfRange db q).take (slotsCap q) ↔ SlotsReached db q) ∧
    ∀ text, exportAddrTransfersCsv db text q = wantedTransfers db text q ↔
      ∀ a, Address.parse text = .ok a → TransfersReached db a q := by
  refine ⟨slots_exact_iff db q, fun text => ?_⟩
  unfold exportAddrTransfersCsv wantedTransfers
  cases parsed : Address.parse text with
  | error e =>
      refine iff_of_true rfl ?_
      intro a found
      cases found
  | ok a =>
      dsimp only
      rw [Except.ok.injEq, transfers_exact_iff]
      constructor
      · intro reached b same
        obtain rfl := Except.ok.inj same
        exact reached
      · intro reached
        exact reached a rfl

end Transfers

/-! ## A newer row uses up the cap -/

def slotOfPeriod (period : UInt64) : SlotState := SlotState.fresh ⟨period, 0⟩ 0

def twoSlots : Db := Chain.storeOf [slotOfPeriod 1, slotOfPeriod 2] []

/-- The newest row up to period 1. -/
def upToOne : ExportRangeQ where
  toPeriod := some 1
  limit := some 1

theorem mem_twoSlots {row : SlotState} : row ∈ slotsDesc twoSlots ↔
    row = readBackSlotState (slotOfPeriod 1) ∨ row = readBackSlotState (slotOfPeriod 2) := by
  have read : ∀ s, twoSlots.readSlot s =
      if (⟨2, 0⟩ : Slot) = s then some (readBackSlotState (slotOfPeriod 2))
      else if (⟨1, 0⟩ : Slot) = s then some (readBackSlotState (slotOfPeriod 1)) else none := by
    intro s
    show ((Db.empty.writeSlot (slotOfPeriod 1)).writeSlot (slotOfPeriod 2)).readSlot s = _
    rw [Db.readSlot_writeSlot, Db.readSlot_writeSlot]
    rfl
  rw [mem_slotsDesc, read]
  constructor
  · intro found
    split at found
    · exact .inr (Option.some.inj found).symm
    · split at found
      · exact .inl (Option.some.inj found).symm
      · cases found
  · rintro (rfl | rfl)
    · rfl
    · rfl

theorem newer_slot_fills_cap :
    exportSlotsCsv twoSlots upToOne ≠ (slotsOfRange twoSlots upToOne).take (slotsCap upToOne) := by
  intro same
  have first := mem_twoSlots.mpr (.inl rfl)
  have second := mem_twoSlots.mpr (.inr rfl)
  have top : (slotsOfRange twoSlots upToOne).countP
      (fun other => Newer other (readBackSlotState (slotOfPeriod 1))) = 0 := by
    rw [List.countP_eq_zero]
    intro other member
    obtain ⟨stored, takes⟩ := List.mem_filter.mp member
    rcases mem_twoSlots.mp stored with rfl | rfl
    · decide
    · exact absurd takes (by decide)
  have one : slotsCap upToOne = 1 := by decide
  obtain ⟨-, few⟩ := (slots_exact_iff twoSlots upToOne).mp same _ first (by decide) (by
    rw [top, one]
    exact Nat.one_pos)
  have above : 0 < rowsAbove twoSlots (readBackSlotState (slotOfPeriod 1)) :=
    List.countP_pos_iff.mpr ⟨_, List.mem_filter.mpr ⟨second, by decide⟩, by decide⟩
  omega

end MassaIndexer.Laws.ExportRanges
