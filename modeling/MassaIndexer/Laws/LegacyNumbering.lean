/-
# Laws.LegacyNumbering -- the two counters of a legacy slot

The one-shot importer numbers the transfers it makes up by the position of their operation, and the archive's
own sub-transfers from the count of those made up. Positions run ahead of the count as soon as an operation is
skipped, and then the two can meet. The numbers of a slot are pairwise distinct, and the patch keeps every
transfer it ships, exactly when no position falls among the numbers of the sub-transfers
(`legacy_numbers_distinct_iff`).
-/
import MassaIndexer.Laws.RepairAdditive

namespace MassaIndexer.Laws.LegacyNumbering

open MassaIndexer.Theory.Additive
open MassaIndexer.Data.Ids MassaIndexer.Data.Model MassaIndexer.Data.Proto MassaIndexer.Data.Codec
open MassaIndexer.Data.RowCodec MassaIndexer.Store.ColumnFamilies
open MassaIndexer.Writer.Shared MassaIndexer.Peer.Patch
open MassaIndexer.Repair.Producers MassaIndexer.Repair.Numbering MassaIndexer.Repair.Applied
open MassaIndexer.Repair.Settling MassaIndexer.Laws.RepairAdditive MassaIndexer.Chain

set_option autoImplicit false

/-! ## The numbers of the sub-transfers -/

/-- The next numbers of a saturating counter. -/
def countFrom : UInt32 → Nat → List UInt32
  | _, 0 => []
  | n, m + 1 => n :: countFrom (saturatingSucc n) m

theorem saturatingSucc_cases (n : UInt32) :
    n.toNat + 1 < 2 ^ 32 ∧ (saturatingSucc n).toNat = n.toNat + 1 ∨
      n.toNat = 2 ^ 32 - 1 ∧ saturatingSucc n = n := by
  have bound := n.toNat_lt
  by_cases last : n.toNat = 2 ^ 32 - 1
  · refine .inr ⟨last, if_pos (UInt32.toNat_inj.mp ?_)⟩
    rw [last]
    rfl
  · have room : n.toNat + 1 < 2 ^ 32 := by omega
    exact .inl ⟨room, toNat_saturatingSucc room⟩

theorem mem_countFrom {n x : UInt32} {m : Nat} :
    x ∈ countFrom n m ↔ n.toNat ≤ x.toNat ∧ x.toNat < n.toNat + m := by
  induction m generalizing n with
  | zero =>
      rw [countFrom]
      simp only [List.not_mem_nil, false_iff]
      omega
  | succ m ih =>
      rw [countFrom, List.mem_cons, ih, ← UInt32.toNat_inj]
      have bound := x.toNat_lt
      rcases saturatingSucc_cases n with ⟨-, next⟩ | ⟨last, stays⟩
      · rw [next]
        omega
      · rw [stays]
        omega

/-- A counter that saturates repeats its last number. -/
theorem nodup_countFrom_iff {n : UInt32} {m : Nat} :
    (countFrom n m).Nodup ↔ n.toNat + m ≤ 2 ^ 32 := by
  induction m generalizing n with
  | zero =>
      have bound := n.toNat_lt
      rw [countFrom]
      simp only [List.nodup_nil, true_iff]
      omega
  | succ m ih =>
      rw [countFrom, List.nodup_cons, mem_countFrom, ih]
      have bound := n.toNat_lt
      rcases saturatingSucc_cases n with ⟨-, next⟩ | ⟨last, stays⟩
      · rw [next]
        omega
      · rw [stays]
        omega

section Rows

variable [Bs58Check] {slot : Slot} {blockId : Option String} {ts : Int}

theorem numbers_subTransferRows (items : List OperationsItem) (n : UInt32) :
    (subTransferRows slot blockId ts [] items n).map (·.indexInSlot) =
      countFrom n (movedHashes items).length := by
  induction items generalizing n with
  | nil => rfl
  | cons item rest ih =>
      unfold subTransferRows movedHashes
      cases here : item.hash with
      | none =>
          rw [List.filterMap_cons_none (by rw [movedHash, here]; rfl)]
          exact ih n
      | some hash =>
          dsimp only
          cases sub : isSubTransferHash hash with
          | false =>
              rw [List.filterMap_cons_none (by simp [movedHash, here, Option.filter, sub])]
              exact ih n
          | true =>
              rcases subTransfer_cases item here sub slot blockId n ts with
                ⟨still, none⟩ | ⟨moved, t, made, -, -, number, -⟩
              · rw [List.filterMap_cons_none still, none, ite_self]
                exact ih n
              · rw [List.filterMap_cons_some moved, made]
                show t.indexInSlot :: _ = n :: _
                rw [number]
                exact congrArg _ (ih (saturatingSucc n))

/-! ## The numbers of a slot -/

/-- Is a transfer made up for the operation, as far as its row goes too? -/
def madeUp (a : ArchivedSlot) (d : DecodedOp) : Bool :=
  synthesises (coveredOpIdsFromRows a.items) d && movesCoins d.stored

/-- The positions of these operations among the operations of the block. -/
def madeUpAt (a : ArchivedSlot) : List Nat :=
  (a.ops.zipIdx.filter fun numbered => madeUp a numbered.1).map Prod.snd

theorem importNumbers_fst (a : ArchivedSlot) :
    (importNumbers a).map Prod.fst = (madeUpAt a).map UInt32.ofNat := by
  unfold importNumbers madeUpAt
  generalize a.ops.zipIdx = numbered
  induction numbered with
  | nil => rfl
  | cons first rest ih =>
      obtain ⟨d, i⟩ := first
      rw [List.filterMap_cons, List.filter_cons]
      dsimp only
      rw [show (synthesises (coveredOpIdsFromRows a.items) d && movesCoins d.stored) = madeUp a d from rfl]
      cases madeUp a d with
      | true => exact congrArg _ ih
      | false => exact ih

theorem numbers_transactionRows {id : String} {numbered : Numbered}
    (moves : ∀ n op, (n, op) ∈ numbered → movesCoins op = true) :
    (transactionRows slot id ts numbered).map (·.indexInSlot) = numbered.map Prod.fst := by
  induction numbered with
  | nil => rfl
  | cons first rest ih =>
      obtain ⟨n, op⟩ := first
      have later := ih fun m other listed => moves m other (List.mem_cons_of_mem _ listed)
      have some_ : (legacyOpToTransfer op slot id n ts).isSome = true := by
        rw [isSome_legacyOpToTransfer]
        exact moves n op List.mem_cons_self
      obtain ⟨t, made⟩ := Option.isSome_iff_exists.mp some_
      rw [transactionRows_cons, made, List.map_append, later]
      show [t.indexInSlot] ++ _ = n :: _
      rw [(movementOf_of_made made).number]
      rfl

/-- How many sub-transfers the archive has for the slot. -/
def subCount (a : ArchivedSlot) : Nat := (movedHashes a.items).length

/-- **The made up transfers have the positions of their operations, the others are counted on from how many
those are.** -/
theorem numbers_archivedRows (slot : Slot) (a : ArchivedSlot) (nowMs : Int) :
    (archivedRows slot a nowMs).map (·.indexInSlot) =
      (madeUpAt a).map UInt32.ofNat ++ countFrom (UInt32.ofNat (madeUpAt a).length) (subCount a) := by
  have moves : ∀ n op, (n, op) ∈ importNumbers a → movesCoins op = true :=
    fun n op listed => movesCoins_of_mem_importNumbers listed
  have count : (importNumbers a).length = (madeUpAt a).length := by
    have lengths := congrArg List.length (importNumbers_fst a)
    rwa [List.length_map, List.length_map] at lengths
  unfold archivedRows
  dsimp only
  rw [synthesisedRows_eq, List.map_append, numbers_transactionRows moves, importNumbers_fst,
    numbers_subTransferRows, length_transactionRows slot a.blockHash.text nowMs moves, count]
  rfl

theorem plain_archivedRows {a : ArchivedSlot} {nowMs : Int} {t : StoredTransfer}
    (member : t ∈ archivedRows slot a nowMs) : Plain t ∧ t.slot = slot := by
  unfold archivedRows at member
  dsimp only at member
  rw [synthesisedRows_eq] at member
  rcases List.mem_append.mp member with made | own
  · obtain ⟨n, op, -, here⟩ := mem_transactionRows made
    have row := movementOf_of_made here
    exact ⟨.inl row.origin, row.slot⟩
  · have row := subTransferOf_of_mem own
    exact ⟨.inr row.origin, row.slot⟩

/-! ## The law -/

/-- The two counters stay apart: no two positions agree in 32 bits, the count of the sub-transfers does not
run over, and no position is among their numbers. -/
structure CountersApart (a : ArchivedSlot) : Prop where
  positions : ((madeUpAt a).map (· % 2 ^ 32)).Nodup
  room : (madeUpAt a).length % 2 ^ 32 + subCount a ≤ 2 ^ 32
  beside : ∀ p ∈ madeUpAt a, p % 2 ^ 32 < (madeUpAt a).length % 2 ^ 32 ∨
    (madeUpAt a).length % 2 ^ 32 + subCount a ≤ p % 2 ^ 32

theorem numbers_nodup_iff (slot : Slot) (a : ArchivedSlot) (nowMs : Int) :
    ((archivedRows slot a nowMs).map (·.indexInSlot)).Nodup ↔ CountersApart a := by
  have words : (madeUpAt a).map (· % 2 ^ 32) = ((madeUpAt a).map UInt32.ofNat).map UInt32.toNat := by
    rw [List.map_map]
    rfl
  have apart : ((madeUpAt a).map UInt32.ofNat).Nodup ↔ ((madeUpAt a).map (· % 2 ^ 32)).Nodup := by
    rw [words]
    exact (List.nodup_map_iff fun _ _ => UInt32.toNat_inj.mp).symm
  have start : (UInt32.ofNat (madeUpAt a).length).toNat = (madeUpAt a).length % 2 ^ 32 := UInt32.toNat_ofNat'
  rw [numbers_archivedRows, List.nodup_append, apart, nodup_countFrom_iff, start]
  constructor
  · rintro ⟨positions, room, disjoint⟩
    refine ⟨positions, room, fun p listed => ?_⟩
    have outside : UInt32.ofNat p ∉ countFrom (UInt32.ofNat (madeUpAt a).length) (subCount a) :=
      fun inside => disjoint _ (List.mem_map_of_mem listed) _ inside rfl
    rw [mem_countFrom, start, UInt32.toNat_ofNat'] at outside
    omega
  · rintro ⟨positions, room, beside⟩
    refine ⟨positions, room, fun x made y counted same => ?_⟩
    obtain ⟨p, listed, rfl⟩ := List.mem_map.mp made
    rw [← same, mem_countFrom, start, UInt32.toNat_ofNat'] at counted
    have out := beside p listed
    omega

variable [DenunciationDigest]

/-- The transfers of a slot have pairwise distinct numbers, and the patch leaves every one of them in the
store. -/
structure AllKept (slot : Slot) (a : ArchivedSlot) (nowMs : Int) : Prop where
  distinct : ((fetchSlot slot a nowMs).transfers.map (·.indexInSlot)).Nodup
  kept : ∀ (db : Db) (appliedMs : Int), ∀ pb ∈ (fetchSlot slot a nowMs).transfers, ∃ t,
    transferFromPeerPb pb = .ok t ∧ t.indexInSlot = pb.indexInSlot ∧
      (applyLegacyPatch db (fetchSlot slot a nowMs) appliedMs).1.readTransfer slot pb.indexInSlot = some t

omit [DenunciationDigest] in
theorem numbers_fetchSlot (slot : Slot) (a : ArchivedSlot) (nowMs : Int) :
    (fetchSlot slot a nowMs).transfers.map (·.indexInSlot) =
      (archivedRows slot a nowMs).map (·.indexInSlot) := by
  show ((archivedRows slot a nowMs).map transferToPeerPb).map (·.indexInSlot) = _
  rw [List.map_map]
  rfl

/-- Rows with numbers of their own are all there after the patch. -/
theorem kept_of_nodup {slot : Slot} {a : ArchivedSlot} {nowMs : Int}
    (distinct : ((archivedRows slot a nowMs).map (·.indexInSlot)).Nodup) (db : Db) (appliedMs : Int)
    {t : StoredTransfer} (member : t ∈ archivedRows slot a nowMs) :
    (applyLegacyPatch db (fetchSlot slot a nowMs) appliedMs).1.readTransfer slot t.indexInSlot = some t := by
  have plain : ∀ r ∈ archivedRows slot a nowMs, Plain r := fun r listed => (plain_archivedRows listed).1
  have decoded : decodedTransfers (fetchSlot slot a nowMs) = archivedRows slot a nowMs :=
    decodedTransfers_plain _ rfl plain
  have about : slotOf (fetchSlot slot a nowMs) = some slot := slotOf_thread rfl rfl
  have known : (fetchSlot slot a nowMs).finalKnown = true := rfl
  have filled : storedAt (applied db (fetchSlot slot a nowMs) appliedMs) = _ :=
    storedAt_apply about known appliedMs
  rw [decoded, map_readBackTransfer plain] at filled
  have alone : ∀ r ∈ archivedRows slot a nowMs, placeOf r = placeOf t → r = t := by
    intro r listed same
    exact List.inj_on_of_nodup_map distinct listed member (congrArg Prod.snd same)
  have here := congrFun filled (placeOf t)
  rw [fill_of_mem member alone] at here
  have own : t.slot = slot := (plain_archivedRows member).2
  rw [placeOf, own] at here
  exact here

/-- **The numbers of a legacy slot are pairwise distinct, and the patch keeps each of its transfers, exactly
when the two counters stay apart.** -/
theorem legacy_numbers_distinct_iff (slot : Slot) (a : ArchivedSlot) (nowMs : Int) :
    AllKept slot a nowMs ↔ CountersApart a := by
  rw [← numbers_nodup_iff slot a nowMs]
  constructor
  · intro all
    rw [← numbers_fetchSlot]
    exact all.distinct
  · intro distinct
    refine ⟨by rwa [numbers_fetchSlot], fun db appliedMs pb shipped => ?_⟩
    obtain ⟨t, member, rfl⟩ := List.mem_map.mp shipped
    have back : readBackTransfer t = t := by
      have one : ∀ r ∈ [t], Plain r := fun r listed => by
        rw [List.mem_singleton.mp listed]
        exact (plain_archivedRows member).1
      exact List.cons.inj (map_readBackTransfer one) |>.1
    refine ⟨t, ?_, rfl, kept_of_nodup distinct db appliedMs member⟩
    rw [transferFromPeerPb_toPeerPb, back]

/-! ### A skipped operation -/

/-- A call, for which nothing is made up, then a coin transfer, and one sub-transfer of the call. -/
def callThenTransfer : ArchivedSlot where
  blockHash := blockNo 1
  block := some { bareBlock (blockNo 1) ⟨10, 0⟩ [] with operationIds := [callId, transferId] }
  endorsements := []
  ops := [⟨contractCall, true⟩, ⟨coinTransfer, true⟩]
  items := [{ hash := some "O1_0", status := some 1, amount := some 7 }]

omit [DenunciationDigest] in
theorem not_countersApart_callThenTransfer : ¬ CountersApart callThenTransfer := by
  intro apart
  have positions : madeUpAt callThenTransfer = [1] := rfl
  have subs : subCount callThenTransfer = 1 := by decide
  have out := apart.beside 1 (positions ▸ List.mem_singleton.mpr rfl)
  rw [positions, subs, List.length_singleton] at out
  omega

theorem not_allKept_callThenTransfer : ¬ AllKept ⟨10, 0⟩ callThenTransfer 0 := by
  intro all
  have distinct := all.distinct
  rw [numbers_fetchSlot, numbers_nodup_iff] at distinct
  exact not_countersApart_callThenTransfer distinct

end Rows

section Collision

attribute [local instance] Bs58Check.doubleSha Chain.noDenunciations

/-- The coin transfer and the sub-transfer of the call both get number 1. -/
theorem legacy_numbers_collide : ¬ AllKept ⟨10, 0⟩ callThenTransfer 0 := not_allKept_callThenTransfer

end Collision

end MassaIndexer.Laws.LegacyNumbering
