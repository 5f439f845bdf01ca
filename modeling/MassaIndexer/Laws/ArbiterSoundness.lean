/-
# Laws.ArbiterSoundness -- real verdicts before the arbiter

The store agrees with the real chain wherever it has a FINAL row, and a peer says otherwise about a
settled slot. The arbiter should keep the row. It gives it up when a row is missing between the slot
and the blocks ahead: a block ahead then seems to build on nothing we know, which the walk takes for
a dead fork. A block of a fork never profits; a miss always does.
-/
import MassaIndexer.Chain.Snapshot

namespace MassaIndexer.Laws.ArbiterSoundness

open MassaIndexer.Data.Ids MassaIndexer.Data.Model MassaIndexer.Chain
open MassaIndexer.Store.ColumnFamilies MassaIndexer.Peer.Arbiter
open MassaIndexer.Theory.LinkWalk

set_option autoImplicit false

/-- When a peer gets its way against the real verdict: a held block ahead names a parent, the shipped
body is not dead, and either there is a gap ahead (and a proposed block lies behind it) or the
proposed block is the one the next held block builds on. -/
def Exposed (L : Ledger) (s : Slot) (peer : Verdict) (shipped : Option Shipment) : Prop :=
  ¬ L.DeadShipment peer shipped ∧ ∃ n, L.nextLink s = some n ∧
    match peer with
    | .miss => ∃ q ∈ L.ahead s, ∃ z, L.link s.thread q = some z ∧ ¬ L.NamedNear s z
    | .block y => n = y ∨ ∃ z, L.FirstGap s z ∧ L.Reaches s.thread z y

variable {chain : RealChain} {L : Ledger}

/-- The next block never builds across a slot that really has a block. -/
theorem not_nextSpeaks_miss (agrees : chain.Agrees L) {s : Slot} {n : BlockId}
    (next : L.nextLink s = some n) : ¬ L.NextSpeaks s n (chain.verdict s) .miss := by
  cases real : chain.block s with
  | none => rw [RealChain.verdict_eq_miss real]; exact id
  | some x =>
      rw [RealChain.verdict_eq_block real]
      rintro ⟨-, previous⟩
      obtain ⟨p, ahead, q, final, named⟩ := Ledger.exists_of_nextLink next
      obtain ⟨k, below, atK, gap⟩ := RealChain.lastBefore_of_link agrees.bodies (agrees.real_of_finalAt final) named
      obtain ⟨j, behind, atJ⟩ := Ledger.exists_of_prevFinal previous
      obtain rfl : j = k :=
        congrArg Slot.period (chain.slot_unique _ _ n (agrees.real_of_finalAt atJ) atK)
      have skipped : chain.block s = none :=
        gap s.period (mem_behindPeriods.mp behind).1 (above_of_behind_lt behind ahead below)
      exact absurd (real.symm.trans skipped) (by simp)

theorem adopts_iff_exposed (agrees : chain.Agrees L) {s : Slot} (final : (L.reg s).status = .final)
    {peer : Verdict} (differs : chain.verdict s ≠ peer) (shipped : Option Shipment) :
    L.Adopts s (chain.verdict s) peer shipped ↔ Exposed L s peer shipped := by
  have alive := agrees.not_deadVerdict s
  constructor
  · rintro ⟨-, shippedAlive, dead | ⟨n, next, speaks⟩⟩
    · exact absurd dead alive
    · refine ⟨shippedAlive, n, next, ?_⟩
      cases peer with
      | miss =>
          rcases speaks with speaks | ⟨a, broken, -⟩
          · exact absurd speaks (not_nextSpeaks_miss agrees next)
          · exact exists_firstUnknown_iff.mp ⟨a, (agrees.anchor_eq_some_iff final).mp broken⟩
      | block y =>
          rcases speaks with speaks | ⟨a, broken, reached⟩
          · exact .inl (by cases real : chain.verdict s <;> rw [real] at speaks <;> exact speaks)
          · exact .inr ⟨a, (agrees.anchor_eq_some_iff final).mp broken, reached⟩
  · rintro ⟨shippedAlive, n, next, exposed⟩
    refine ⟨differs, shippedAlive, .inr ⟨n, next, ?_⟩⟩
    cases peer with
    | miss =>
        obtain ⟨z, gap⟩ := exists_firstUnknown_iff.mpr exposed
        exact .inr ⟨z, (agrees.anchor_eq_some_iff final).mpr gap, trivial⟩
    | block y =>
        rcases exposed with named | ⟨z, gap, reached⟩
        · exact .inl (by cases chain.verdict s <;> exact named)
        · exact .inr ⟨z, (agrees.anchor_eq_some_iff final).mpr gap, reached⟩

/-- A block that gets its way is a real block, of another slot. -/
theorem real_of_exposed (agrees : chain.Agrees L) {s : Slot} {y : BlockId}
    {shipped : Option Shipment} (exposed : Exposed L s (.block y) shipped) :
    ∃ t, chain.block t = some y := by
  obtain ⟨-, n, next, reason⟩ := exposed
  rcases reason with rfl | ⟨z, ⟨before, q, after, split, -, named, -⟩, reached⟩
  · obtain ⟨p, -, q, final, named⟩ := Ledger.exists_of_nextLink next
    exact RealChain.real_of_link agrees.bodies ⟨_, agrees.real_of_finalAt final⟩ named
  · obtain ⟨p, -, final⟩ := Ledger.mem_ahead.mp (by rw [split]; simp : q ∈ L.ahead s)
    have start := RealChain.real_of_link agrees.bodies ⟨_, agrees.real_of_finalAt final⟩ named
    exact reaches_closed (P := fun b => ∃ t, chain.block t = some b)
      (fun _ _ real link => RealChain.real_of_link agrees.bodies real link) start reached

/-! ## On the store -/

variable {db : Db}

/-- **Fork blocks stay out.** No body shipped with it makes the arbiter take a block that is not on
the chain. -/
theorem fork_block_never_adopted (agrees : chain.Agrees (ledgerOf db)) {s : Slot} {row : SlotState}
    (found : db.readSlot s = some row) (final : row.status = .final) {y : BlockId}
    (fork : ∀ t, chain.block t ≠ some y) (peerBlock : Option StoredBlock) :
    arbitrateVerdicts db s (chain.verdict s) (.block y) peerBlock ≠ .adoptPeer := by
  have settled : ((ledgerOf db).reg s).status = .final := by rw [← registerOf_of_readSlot found]; exact final
  intro adopted
  have adopts := (arbitrateVerdicts_eq_adoptPeer_iff db s _ _ peerBlock).mp adopted
  obtain ⟨t, real⟩ :=
    real_of_exposed agrees ((adopts_iff_exposed agrees settled adopts.1 _).mp adopts)
  exact fork t real

/-- **The real verdict is kept exactly when it is not exposed.** -/
theorem real_verdict_kept_iff (agrees : chain.Agrees (ledgerOf db)) {s : Slot} {row : SlotState}
    (found : db.readSlot s = some row) (final : row.status = .final) {peer : Verdict}
    (differs : chain.verdict s ≠ peer) (peerBlock : Option StoredBlock) :
    arbitrateVerdicts db s (chain.verdict s) peer peerBlock ≠ .adoptPeer ↔
      ¬ Exposed (ledgerOf db) s peer (peerBlock.map shipmentOf) := by
  have settled : ((ledgerOf db).reg s).status = .final := by
    rw [← registerOf_of_readSlot found]
    exact final
  rw [ne_eq, arbitrateVerdicts_eq_adoptPeer_iff, adopts_iff_exposed agrees settled differs]

/-! ## A missing row -/

section MissingRow

/-- Three blocks in a row. -/
def threeInARow : RealChain :=
  .ofTable [(⟨10, 0⟩, blockNo 1), (⟨11, 0⟩, blockNo 2), (⟨12, 0⟩, blockNo 3)]
    (fun b => if b = blockNo 2 then [blockNo 1] else if b = blockNo 3 then [blockNo 2] else [])
    (by decide) (by decide) (by decide)

/-- The first and the third are FINAL, with the body of the third; the second never came in. -/
def secondMissing : Db :=
  storeOf [settledRow ⟨10, 0⟩ (.block (blockNo 1)), settledRow ⟨12, 0⟩ (.block (blockNo 3))]
    [bareBlock (blockNo 3) ⟨12, 0⟩ [blockNo 2]]

theorem agrees_secondMissing : threeInARow.Agrees (ledgerOf secondMissing) :=
  agrees_storeOf (by decide +kernel) (by decide +kernel)

theorem found_secondMissing : secondMissing.readSlot ⟨10, 0⟩ =
    some (settledRow ⟨10, 0⟩ (.block (blockNo 1))) := by decide +kernel

/-- **A miss replaces a real block.** The third block builds on the second, which no row names: the
first slot, a real block, is given up for a miss. -/
theorem real_verdict_not_kept :
    ¬ ∀ (chain : RealChain) (db : Db) (s : Slot) (row : SlotState) (peer : Verdict)
        (peerBlock : Option StoredBlock), chain.Agrees (ledgerOf db) → db.readSlot s = some row →
        row.status = .final → chain.verdict s ≠ peer →
        arbitrateVerdicts db s (chain.verdict s) peer peerBlock ≠ .adoptPeer := by
  intro kept
  refine kept threeInARow secondMissing ⟨10, 0⟩ _ .miss none agrees_secondMissing
    found_secondMissing rfl (by decide +kernel) ?_
  decide +kernel

theorem real_verdict_kept_iff_secondMissing :
    arbitrateVerdicts secondMissing ⟨10, 0⟩ (threeInARow.verdict ⟨10, 0⟩) .miss none ≠ .adoptPeer ↔
      ¬ Exposed (ledgerOf secondMissing) ⟨10, 0⟩ .miss none :=
  real_verdict_kept_iff agrees_secondMissing
    found_secondMissing rfl (by decide +kernel) none

end MissingRow

end MassaIndexer.Laws.ArbiterSoundness
