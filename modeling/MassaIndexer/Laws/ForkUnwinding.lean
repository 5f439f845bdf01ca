/-
# Laws.ForkUnwinding -- a dead fork in the store, answered for newest first

One thread of the store followed a dead fork for a while and then found back to the real chain. A
peer that knows better answers for the forked slots, newest first. Not every fork unwinds: a forked
slot is kept when the real block shipped for it builds on a block we hold but whose slot is still
forked, or when the blocks ahead have nothing to say.
-/
import MassaIndexer.Chain.Snapshot
import MassaIndexer.Chain.Unwinding
import MassaIndexer.Chain.Patches
import Mathlib.Tactic.IntervalCases

namespace MassaIndexer.Laws.ForkUnwinding

open MassaIndexer.Theory.Runs
open MassaIndexer.Data.Ids MassaIndexer.Data.Model MassaIndexer.Data.Proto MassaIndexer.Chain
open MassaIndexer.Store.ColumnFamilies MassaIndexer.Writer.Shared
open MassaIndexer.Peer.Arbiter MassaIndexer.Peer.Patch

set_option autoImplicit false

/-! ## The fork -/

def forkedSlot (thread : UInt8) (first : UInt64) (i : Nat) : Slot := ⟨first + .ofNat i, thread⟩

def newestFirst (thread : UInt8) (first : UInt64) (n : Nat) : List Slot :=
  ((List.range n).map (forkedSlot thread first)).reverse

/-- `n` consecutive periods of a thread are settled with blocks of a fork, each building on the one
before and all held; less than 512 periods after the last of them comes a real block, settled and
held. The thread has real blocks before the fork, and every other FINAL row agrees with the chain. -/
structure DeadFork (chain : RealChain) (L : Ledger) (thread : UInt8) (first : UInt64) (n : Nat)
    (fork : Nat → BlockId) (tip : UInt64) : Prop where
  length : 0 < n
  founded : ∃ p z, p < first ∧ chain.block ⟨p, thread⟩ = some z
  settledFork : ∀ i < n, (L.reg (forkedSlot thread first i)).settledWith (fork i)
  notReal : ∀ i < n, ∀ s, chain.block s ≠ some (fork i)
  bodyFork : ∀ i < n, ∃ parents, L.body (fork i) = some ⟨forkedSlot thread first i, parents⟩
  builds : ∀ i, i + 1 < n → L.link thread (fork (i + 1)) = some (fork i)
  after : first.toNat + n ≤ tip.toNat
  near : tip.toNat < first.toNat + n - 1 + 512
  tipReal : ∃ r, chain.block ⟨tip, thread⟩ = some r ∧ L.holds r
  tipFinal : (L.reg ⟨tip, thread⟩).status = .final
  settled : ∀ s, (∀ i < n, s ≠ forkedSlot thread first i) → (L.reg s).status = .final →
    chain.Settles s (L.reg s)
  bodies : chain.Bodies L

section Slots

variable {thread : UInt8} {first : UInt64} {n : Nat}

theorem mem_newestFirst {s : Slot} :
    s ∈ newestFirst thread first n ↔ ∃ i < n, forkedSlot thread first i = s := by
  simp [newestFirst]

theorem toNat_forkedSlot (room : first.toNat + n < 2 ^ 64) {i : Nat} (inside : i < n) :
    (forkedSlot thread first i).period.toNat = first.toNat + i := by
  simp only [forkedSlot, UInt64.toNat_add, UInt64.toNat_ofNat']
  omega

theorem pairwise_newestFirst (room : first.toNat + n < 2 ^ 64) :
    (newestFirst thread first n).Pairwise fun s t => t.period < s.period := by
  rw [newestFirst, List.pairwise_reverse, List.pairwise_map]
  refine List.Pairwise.imp_of_mem ?_ List.pairwise_lt_range
  intro i j iIn jIn lt
  rw [UInt64.lt_iff_toNat_lt, toNat_forkedSlot room (List.mem_range.mp iIn),
    toNat_forkedSlot room (List.mem_range.mp jIn)]
  omega

end Slots

section Store

variable {chain : RealChain} {thread : UInt8} {first : UInt64} {n : Nat} {fork : Nat → BlockId}
  {tip : UInt64}

theorem DeadFork.unwinding {L : Ledger} (dead : DeadFork chain L thread first n fork tip) :
    Unwinding chain L thread (newestFirst thread first n) := by
  have tipMax := tip.toNat_lt
  have room : first.toNat + n < 2 ^ 64 := by
    have := dead.after
    omega
  refine ⟨fun s outside final => ?_, dead.bodies, fun s member => ?_, fun s member => ?_,
    pairwise_newestFirst room, fun s member => ?_, fun s member => ?_⟩
  · refine dead.settled s (fun i inside here => ?_) final
    exact outside (mem_newestFirst.mpr ⟨i, inside, here.symm⟩)
  · obtain ⟨i, inside, rfl⟩ := mem_newestFirst.mp member
    exact ⟨fork i, dead.settledFork i inside, dead.notReal i inside⟩
  · obtain ⟨i, -, rfl⟩ := mem_newestFirst.mp member
    rfl
  · obtain ⟨i, inside, rfl⟩ := mem_newestFirst.mp member
    obtain ⟨p, z, below, found⟩ := dead.founded
    refine ⟨p, z, ?_, found⟩
    rw [UInt64.lt_iff_toNat_lt] at below ⊢
    rw [toNat_forkedSlot room inside]
    omega
  · obtain ⟨i, inside, rfl⟩ := mem_newestFirst.mp member
    refine ⟨tip, ?_⟩
    have := dead.after
    rw [UInt64.lt_iff_toNat_lt, toNat_forkedSlot room inside]
    omega

/-! ## The answers -/

variable [Bs58Check]

/-- A response with the real verdict of a slot and, if it has one, its block's body. -/
structure Answers (chain : RealChain) (s : Slot) (resp : FinalSlotResponse) : Prop where
  about : slotOf resp = some s
  known : resp.finalKnown = true
  verdict : Verdict.ofPeer resp (parseFinalBlockId resp) = some (chain.verdict s)
  body : ∀ y, chain.block s = some y →
    ∃ b, shippedBlock resp = some b ∧ shipmentOf b = ⟨y, ⟨s, chain.parents y⟩⟩

theorem Answers.chainOffer {s : Slot} {resp : FinalSlotResponse} (answers : Answers chain s resp) :
    ChainOffer chain s (offerAt s resp) where
  slot := rfl
  verdict := answers.verdict
  shipped y real := by
    obtain ⟨b, shipped, here⟩ := answers.body y real
    simp [offerAt, shipped, here]

variable [DenunciationDigest]

/-- The answers applied one after the other. -/
def unwind (answer : Slot → FinalSlotResponse) (nowMs : Slot → Int) (db : Db) (slots : List Slot) : Db :=
  run (fun db s => (applyPeerPatch db (answer s) (nowMs s)).1) db slots

variable {answer : Slot → FinalSlotResponse} {nowMs : Slot → Int}

theorem ledgerOf_unwind {slots : List Slot} (answers : ∀ s ∈ slots, Answers chain s (answer s))
    (db : Db) : ledgerOf (unwind answer nowMs db slots) =
      run (fun L s => L.peerOffer (offerAt s (answer s))) (ledgerOf db) slots := by
  induction slots generalizing db with
  | nil => rfl
  | cons s slots ih =>
      have here := answers s List.mem_cons_self
      have moved := ledgerOf_applyPeerPatch here.about here.known db (nowMs s)
      have rest := ih (fun t member => answers t (List.mem_cons_of_mem s member))
        (applyPeerPatch db (answer s) (nowMs s)).1
      rw [moved] at rest
      exact rest

theorem unwound_iff {slots : List Slot} (answers : ∀ s ∈ slots, Answers chain s (answer s)) (db : Db) :
    (∀ s ∈ slots, ∃ row, (unwind answer nowMs db slots).readSlot s = some row ∧
      row.status = .final ∧ Verdict.ofLocal row = some (chain.verdict s)) ↔
      ∀ s ∈ slots, Restored chain
        (run (fun L s => L.peerOffer (offerAt s (answer s))) (ledgerOf db) slots) s := by
  rw [← @ledgerOf_unwind _ _ _ _ nowMs _ answers db]
  exact forall_congr' fun s => imp_congr_right fun _ => exists_row_with_verdict_iff

/-- **When a dead fork unwinds.** Answering for the forked slots newest first leaves every one of them
with its real verdict exactly when each yields in its turn. -/
theorem unwinds_iff {db : Db} (dead : DeadFork chain (ledgerOf db) thread first n fork tip)
    (answers : ∀ s ∈ newestFirst thread first n, Answers chain s (answer s)) :
    (∀ s ∈ newestFirst thread first n,
      ∃ row, (unwind answer nowMs db (newestFirst thread first n)).readSlot s = some row ∧
        row.status = .final ∧ Verdict.ofLocal row = some (chain.verdict s)) ↔
      Along (Ledger.restore chain) (Yields chain) (ledgerOf db) (newestFirst thread first n) := by
  rw [unwound_iff answers db]
  exact restored_iff rfl dead.unwinding fun s member => (answers s member).chainOffer

end Store

/-! ## A held body in the way -/

section HeldBody

attribute [local instance] Bs58Check.doubleSha noDenunciations

/-- Four real blocks in a row. -/
def fourInARow : RealChain :=
  .ofTable
    [(⟨10, 0⟩, blockNo 1), (⟨11, 0⟩, blockNo 2), (⟨12, 0⟩, blockNo 3), (⟨13, 0⟩, blockNo 4)]
    (fun b =>
      if b = blockNo 2 then [blockNo 1]
      else if b = blockNo 3 then [blockNo 2]
      else if b = blockNo 4 then [blockNo 3]
      else [])
    (by decide) (by decide) (by decide)

def forkBlock (i : Nat) : BlockId := if i = 0 then blockNo 12 else blockNo 13

/-- The two in the middle were settled with a fork; the body of the first of them is held. -/
def middleForked : Db :=
  storeOf
    [settledRow ⟨10, 0⟩ (.block (blockNo 1)), settledRow ⟨11, 0⟩ (.block (forkBlock 0)),
      settledRow ⟨12, 0⟩ (.block (forkBlock 1)), settledRow ⟨13, 0⟩ (.block (blockNo 4))]
    [bareBlock (forkBlock 0) ⟨11, 0⟩ [blockNo 1], bareBlock (forkBlock 1) ⟨12, 0⟩ [forkBlock 0],
      bareBlock (blockNo 4) ⟨13, 0⟩ [blockNo 3], bareBlock (blockNo 2) ⟨11, 0⟩ [blockNo 1]]

theorem deadFork_middleForked :
    DeadFork fourInARow (ledgerOf middleForked) 0 11 2 forkBlock 13 where
  length := by decide
  founded := ⟨10, blockNo 1, by decide, by decide +kernel⟩
  settledFork := by decide +kernel
  notReal i inside s real := by
    have off : ∀ i < 2, forkBlock i ∉ [blockNo 1, blockNo 2, blockNo 3, blockNo 4] := by decide
    exact off i inside (List.mem_map_of_mem (f := Prod.snd) (mem_of_blockAt real))
  bodyFork i inside := by
    interval_cases i
    · exact ⟨[blockNo 1], by decide +kernel⟩
    · exact ⟨[forkBlock 0], by decide +kernel⟩
  builds i inside := by
    obtain rfl : i = 0 := by omega
    decide +kernel
  after := by decide
  near := by decide
  tipReal := ⟨blockNo 4, by decide +kernel, by unfold Ledger.holds; decide +kernel⟩
  tipFinal := by decide +kernel
  settled := settles_storeOf (by decide +kernel)
  bodies := bodies_storeOf (by decide +kernel)

/-- The body of either real block in the middle. -/
def middleBody (s : Slot) : StoredBlock :=
  if s = ⟨11, 0⟩ then bareBlock (blockNo 2) s [blockNo 1] else bareBlock (blockNo 3) s [blockNo 2]

def middleAnswer (s : Slot) : FinalSlotResponse :=
  answerOf s (fourInARow.verdict s) (some (middleBody s))

theorem newestFirst_middleForked : newestFirst 0 11 2 = [⟨12, 0⟩, ⟨11, 0⟩] := by decide

theorem answers_middleForked :
    ∀ s ∈ newestFirst 0 11 2, Answers fourInARow s (middleAnswer s) := by
  have bodies : ∀ s ∈ newestFirst 0 11 2,
      fourInARow.block s = some (middleBody s).id ∧
        bodyOf (middleBody s) = ⟨s, fourInARow.parents (middleBody s).id⟩ := by decide +kernel
  intro s member
  refine ⟨slotOf_answerOf _ _ _, rfl, ofPeer_answerOf _ _ _, fun y real => ?_⟩
  obtain ⟨here, body⟩ := bodies s member
  obtain rfl : (middleBody s).id = y := Option.some.inj (here.symm.trans real)
  exact ⟨middleBody s, shippedBlock_answerOf _ _ _, congrArg (Shipment.mk _) body⟩

/-- **A fork stays.** The real block shipped for the newer slot builds on the block we hold for the
older one, whose slot is still forked: the shipped block is called dead and the fork block is kept. -/
theorem dead_fork_kept :
    ¬ ∀ (chain : RealChain) (db : Db) (thread : UInt8) (first : UInt64) (n : Nat)
        (fork : Nat → BlockId) (tip : UInt64) (answer : Slot → FinalSlotResponse)
        (nowMs : Slot → Int), DeadFork chain (ledgerOf db) thread first n fork tip →
        (∀ s ∈ newestFirst thread first n, Answers chain s (answer s)) →
        ∀ s ∈ newestFirst thread first n,
          ∃ row, (unwind answer nowMs db (newestFirst thread first n)).readSlot s = some row ∧
            row.status = .final ∧ Verdict.ofLocal row = some (chain.verdict s) := by
  intro unwound
  have all := unwound fourInARow middleForked 0 11 2 forkBlock 13 middleAnswer (fun _ => 0)
    deadFork_middleForked answers_middleForked
  have yields := (restored_iff rfl deadFork_middleForked.unwinding
    fun s member => (answers_middleForked s member).chainOffer).mp
      ((unwound_iff answers_middleForked middleForked).mp all)
  rw [newestFirst_middleForked] at yields
  have newer : Yields fourInARow (ledgerOf middleForked) ⟨12, 0⟩ := yields.1
  have real : fourInARow.block ⟨12, 0⟩ = some (blockNo 3) := by decide +kernel
  rw [Yields, real] at newer
  exact newer.1 ⟨blockNo 2, by decide +kernel, ⟨⟨11, 0⟩, [blockNo 1]⟩, by decide +kernel,
    by decide +kernel⟩

theorem unwinds_iff_middleForked :
    (∀ s ∈ newestFirst 0 11 2, ∃ row,
      (unwind middleAnswer (fun _ => 0) middleForked (newestFirst 0 11 2)).readSlot s = some row ∧
        row.status = .final ∧ Verdict.ofLocal row = some (fourInARow.verdict s)) ↔
      Along (Ledger.restore fourInARow) (Yields fourInARow) (ledgerOf middleForked)
        (newestFirst 0 11 2) :=
  unwinds_iff deadFork_middleForked answers_middleForked

end HeldBody

end MassaIndexer.Laws.ForkUnwinding
