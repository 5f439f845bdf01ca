/-
# Chain.RealChain -- a ledger that agrees with the network

A real chain gives every slot its real block or none. A ledger agrees with it when its FINAL registers
do, and when the bodies it holds of real blocks are theirs: ids are hashes. Nothing is asked of
registers that are not FINAL, of bodies that are missing, or of the blocks of forks.

The last real block before a slot may have no FINAL register of its own. `getLast?_eq_iff` says what
a walk over the blocks ahead can tell about it, and `anchor_eq_some_iff` where the walk from a real
verdict breaks: at the first held block whose predecessor no register of the lookaround names.
-/
import MassaIndexer.Chain.Window

namespace MassaIndexer.Chain

open MassaIndexer.Data.Ids MassaIndexer.Data.Model MassaIndexer.Peer.Arbiter
open MassaIndexer.Theory.LinkWalk MassaIndexer.Theory.Scan

set_option autoImplicit false

/-- `z` is the last block of the thread before `s`. -/
def LastBefore (block : Slot → Option BlockId) (s : Slot) (z : BlockId) : Prop :=
  ∃ p < s.period, block ⟨p, s.thread⟩ = some z ∧
    ∀ q, p < q → q < s.period → block ⟨q, s.thread⟩ = none

/-- Once a thread has a block, every later slot has a last one. -/
theorem exists_lastBefore {block : Slot → Option BlockId} {s : Slot} {p : UInt64} {b : BlockId}
    (below : p < s.period) (found : block ⟨p, s.thread⟩ = some b) : ∃ z, LastBefore block s z := by
  obtain ⟨d, near⟩ : ∃ d, s.period.toNat - p.toNat ≤ d := ⟨_, Nat.le_refl _⟩
  induction d generalizing p b with
  | zero =>
      have := UInt64.lt_iff_toNat_lt.mp below
      omega
  | succ d ih =>
      by_cases later : ∃ q c, p < q ∧ q < s.period ∧ block ⟨q, s.thread⟩ = some c
      · obtain ⟨q, c, above, below', found'⟩ := later
        have := UInt64.lt_iff_toNat_lt.mp above
        exact ih below' found' (by omega)
      · refine ⟨b, p, below, found, fun q above below' => ?_⟩
        cases atQ : block ⟨q, s.thread⟩ with
        | none => rfl
        | some c => exact absurd ⟨q, c, above, below', atQ⟩ later

/-- A slot without a block is a miss. The parents of a block are blocks of the chain, and the one of
its own thread is the block before it. -/
structure RealChain where
  block : Slot → Option BlockId
  parents : BlockId → List BlockId
  slot_unique : ∀ s t b, block s = some b → block t = some b → s = t
  parents_real : ∀ s b, block s = some b → ∀ q ∈ parents b, ∃ t, block t = some q
  parent_own_thread : ∀ s b, block s = some b → ∀ z,
    (parents b)[s.thread.toNat]? = some z ↔ LastBefore block s z

namespace RealChain

def verdict (chain : RealChain) (s : Slot) : Verdict :=
  match chain.block s with
  | none => .miss
  | some b => .block b

theorem verdict_eq_miss {chain : RealChain} {s : Slot} (miss : chain.block s = none) :
    chain.verdict s = .miss := by simp [verdict, miss]

theorem verdict_eq_block {chain : RealChain} {s : Slot} {b : BlockId} (real : chain.block s = some b) :
    chain.verdict s = .block b := by simp [verdict, real]

/-- The register's verdict is the real one. -/
def Settles (chain : RealChain) (s : Slot) (r : Register) : Prop :=
  match chain.block s with
  | none => r.isMiss = true
  | some b => r.isMiss = false ∧ r.finalBlockId = some b

instance (chain : RealChain) (s : Slot) (r : Register) : Decidable (chain.Settles s r) :=
  match real : chain.block s with
  | none => decidable_of_iff (r.isMiss = true) (by rw [Settles, real])
  | some b => decidable_of_iff (r.isMiss = false ∧ r.finalBlockId = some b) (by rw [Settles, real])

/-- The bodies a ledger holds of real blocks are theirs. -/
def Bodies (chain : RealChain) (L : Ledger) : Prop :=
  ∀ s b body, chain.block s = some b → L.body b = some body → body = ⟨s, chain.parents b⟩

structure Agrees (chain : RealChain) (L : Ledger) : Prop where
  settled : ∀ s, (L.reg s).status = .final → chain.Settles s (L.reg s)
  bodies : chain.Bodies L

variable {chain : RealChain} {L : Ledger}

theorem settledWith_of_settles {s : Slot} {b : BlockId} {r : Register} (final : r.status = .final)
    (settles : chain.Settles s r) (real : chain.block s = some b) : r.settledWith b := by
  rw [Settles, real] at settles
  exact ⟨final, settles⟩

theorem real_of_settles {s : Slot} {b : BlockId} {r : Register} (settles : chain.Settles s r)
    (block : r.settledWith b) : chain.block s = some b := by
  obtain ⟨-, notMiss, final⟩ := block
  unfold Settles at settles
  split at settles
  · exact absurd (settles.symm.trans notMiss) (by decide)
  · next c real => rw [real, ← settles.2, final]

theorem settles_of_verdict {s : Slot} {r : Register} (verdict : r.verdict = some (chain.verdict s)) :
    chain.Settles s r := by
  unfold Settles
  unfold Register.verdict at verdict
  cases real : chain.block s with
  | none =>
      rw [verdict_eq_miss real] at verdict
      cases isMiss : r.isMiss with
      | true => rfl
      | false => cases block : r.finalBlockId <;> simp [isMiss, block] at verdict
  | some b =>
      rw [verdict_eq_block real] at verdict
      cases isMiss : r.isMiss with
      | true => simp [isMiss] at verdict
      | false =>
          cases block : r.finalBlockId with
          | none => simp [isMiss, block] at verdict
          | some c => exact ⟨rfl, by simpa [isMiss, block] using verdict⟩

/-- The parents of a real block are never dead while their own slots agree. -/
theorem not_dead_of_real {s : Slot} {b : BlockId} (real : chain.block s = some b)
    (bodies : chain.Bodies L)
    (settled : ∀ t, ∀ q ∈ chain.parents b, chain.block t = some q → (L.reg t).status = .final →
      chain.Settles t (L.reg t)) : ¬ L.Dead ⟨s, chain.parents b⟩ := by
  rintro ⟨q, parent, body, held, against⟩
  obtain ⟨t, atT⟩ := chain.parents_real s b real q parent
  obtain rfl := bodies t q body atT held
  exact Ledger.not_settledAgainst_of_settledWith
    (settledWith_of_settles against.1 (settled t q parent atT against.1) atT) against

section Bodies

variable (bodies : chain.Bodies L)

include bodies

/-- The parent a held block names is the real block before it. -/
theorem lastBefore_of_link {s : Slot} {q z : BlockId} (real : chain.block s = some q)
    (named : L.link s.thread q = some z) : LastBefore chain.block s z := by
  obtain ⟨body, held, parent⟩ := Option.bind_eq_some_iff.mp named
  obtain rfl := bodies s q body real held
  exact (chain.parent_own_thread s q real z).mp parent

/-- Links through real blocks stay on the chain. -/
theorem real_of_link {thread : UInt8} {b z : BlockId} (real : ∃ s, chain.block s = some b)
    (named : L.link thread b = some z) : ∃ s, chain.block s = some z := by
  obtain ⟨s, real⟩ := real
  obtain ⟨body, held, parent⟩ := Option.bind_eq_some_iff.mp named
  obtain rfl := bodies s b body real held
  exact chain.parents_real s b real z (List.mem_of_getElem? parent)

/-- Where the rows ahead of `s` are real, the walk has just passed the block `q` builds on exactly
when a row ahead names that block. -/
theorem getLast?_eq_iff {s : Slot}
    (real : ∀ p ∈ aheadPeriods s.period, ∀ b, L.finalAt ⟨p, s.thread⟩ = some b →
      chain.block ⟨p, s.thread⟩ = some b) {before after : List BlockId} {q z : BlockId}
    (split : L.ahead s = before ++ q :: after) (named : L.link s.thread q = some z) :
    before.getLast? = some z ↔ z ∈ L.ahead s := by
  constructor
  · intro last
    rw [split]
    exact List.mem_append_left _ (List.mem_of_getLast? last)
  · intro inAhead
    obtain ⟨earlier, p, later, whole, passed, hit⟩ := Ledger.split_of_ahead split
    have sorted := pairwise_aheadPeriods s.period
    have ahead : ∀ y ∈ earlier ++ p :: later, y ∈ aheadPeriods s.period := by rw [whole]; simp
    rw [whole] at sorted
    obtain ⟨k, below, atK, gap⟩ := lastBefore_of_link bodies (real p (ahead p (by simp)) q hit) named
    obtain ⟨k', kAhead, atK'⟩ := Ledger.mem_ahead.mp inAhead
    obtain rfl : k' = k :=
      congrArg Slot.period (chain.slot_unique _ _ z (real k' kAhead z atK') atK)
    have member : k' ∈ earlier := by
      rw [whole] at kAhead
      rcases List.mem_append.mp kAhead with early | late
      · exact early
      · exfalso
        rcases List.mem_cons.mp late with rfl | late
        · exact UInt64.lt_irrefl _ below
        · have := (List.pairwise_cons.mp (List.pairwise_append.mp sorted).2.1).1 k' late
          exact UInt64.lt_irrefl _ (UInt64.lt_trans this below)
    rw [← passed]
    refine getLast?_filterMap_of_last (List.pairwise_append.mp sorted).1 member atK'
      fun y inEarlier above => ?_
    have lt : y < p := (List.pairwise_append.mp sorted).2.2 y inEarlier p List.mem_cons_self
    cases final : L.finalAt ⟨y, s.thread⟩ with
    | none => rfl
    | some b =>
        have := real y (ahead y (by simp [inEarlier])) b final
        exact absurd (this.symm.trans (gap y above lt)) (by simp)

end Bodies

namespace Agrees

variable (agrees : chain.Agrees L)

include agrees

theorem real_of_finalAt {s : Slot} {b : BlockId} (final : L.finalAt s = some b) :
    chain.block s = some b := by
  have block := Ledger.finalAt_eq_some.mp final
  exact real_of_settles (agrees.settled s block.1) block

theorem finalAt_of_final {s : Slot} {b : BlockId} (final : (L.reg s).status = .final)
    (real : chain.block s = some b) : L.finalAt s = some b :=
  Ledger.finalAt_eq_some.mpr (settledWith_of_settles final (agrees.settled s final) real)

theorem finalAt_eq_none {s : Slot} (miss : chain.block s = none) : L.finalAt s = none := by
  cases final : L.finalAt s with
  | none => rfl
  | some b => exact absurd ((agrees.real_of_finalAt final).symm.trans miss) (by simp)

/-- The real block of a slot is never dead. -/
theorem not_deadVerdict (s : Slot) : ¬ L.DeadVerdict (chain.verdict s) := by
  cases real : chain.block s with
  | none => rw [verdict_eq_miss real]; exact id
  | some b =>
      rw [verdict_eq_block real]
      rintro ⟨body, held, dead⟩
      obtain rfl := agrees.bodies s b body real held
      exact not_dead_of_real real agrees.bodies (fun t _ _ _ => agrees.settled t) dead

/-- What the walk passed last before `q` is the block `q` builds on exactly when some register of the
lookaround names that block. -/
theorem lastPassed_eq_iff {s : Slot} (final : (L.reg s).status = .final)
    {before after : List BlockId} {q z : BlockId} (split : L.ahead s = before ++ q :: after)
    (named : L.link s.thread q = some z) :
    lastPassed (L.standing s (chain.verdict s)) before = some z ↔ L.NamedNear s z := by
  have aheadReal : ∀ p ∈ aheadPeriods s.period, ∀ b, L.finalAt ⟨p, s.thread⟩ = some b →
      chain.block ⟨p, s.thread⟩ = some b := fun _ _ _ final => agrees.real_of_finalAt final
  have passedAhead := getLast?_eq_iff agrees.bodies aheadReal split named
  constructor
  · intro last
    cases tail : before.getLast? with
    | some b =>
        obtain rfl : b = z := by simpa [lastPassed, tail] using last
        obtain ⟨p, ahead, atP⟩ := Ledger.mem_ahead.mp (passedAhead.mp tail)
        exact ⟨p, .inr (.inr ahead), atP⟩
    | none =>
        have standing : L.standing s (chain.verdict s) = some z := by
          simpa [lastPassed, tail] using last
        cases real : chain.block s with
        | some b =>
            rw [verdict_eq_block real] at standing
            obtain rfl : b = z := Option.some.inj standing
            exact ⟨s.period, .inr (.inl rfl), agrees.finalAt_of_final final real⟩
        | none =>
            rw [verdict_eq_miss real] at standing
            obtain ⟨y, behind, atY⟩ := Ledger.exists_of_prevFinal standing
            exact ⟨y, .inl behind, atY⟩
  · rintro ⟨k, near, atK⟩
    by_cases inAhead : z ∈ L.ahead s
    · simp [lastPassed, passedAhead.mpr inAhead]
    obtain ⟨earlier, p, later, whole, passed, hit⟩ := Ledger.split_of_ahead split
    obtain ⟨k', below, atK', gap⟩ :=
      lastBefore_of_link agrees.bodies (agrees.real_of_finalAt hit) named
    obtain rfl : k = k' :=
      congrArg Slot.period (chain.slot_unique _ _ z (agrees.real_of_finalAt atK) atK')
    have sorted := pairwise_aheadPeriods s.period
    rw [whole] at sorted
    have pAhead : p ∈ aheadPeriods s.period := by rw [whole]; simp
    -- Between the slot and `p` there is no real block, so the walk passed nothing.
    have nothingPassed (start : s.period < p) (low : k ≤ s.period) : before = [] := by
      rw [← passed]
      refine List.filterMap_eq_nil_iff.mpr fun y member => ?_
      have inAhead : y ∈ aheadPeriods s.period := by rw [whole]; exact List.mem_append_left _ member
      have above := UInt64.lt_of_le_of_lt low (above_of_above inAhead start)
      have lt : y < p := (List.pairwise_append.mp sorted).2.2 y member p List.mem_cons_self
      exact agrees.finalAt_eq_none (gap y above lt)
    rcases near with behind | rfl | ahead
    · have start := above_of_behind_lt behind pAhead below
      have low := (mem_behindPeriods.mp behind).1
      rw [nothingPassed start (UInt64.le_of_lt low), lastPassed_nil,
        verdict_eq_miss (gap s.period low start)]
      exact Ledger.prevFinal_of_last behind atK fun y above lt =>
        agrees.finalAt_eq_none (gap y above (UInt64.lt_trans lt start))
    · rw [nothingPassed below (UInt64.le_refl _), lastPassed_nil,
        verdict_eq_block (agrees.real_of_finalAt atK)]
      rfl
    · exact absurd (Ledger.mem_ahead.mpr ⟨k, ahead, atK⟩) inAhead

end Agrees

end RealChain

/-- `z` is named by the first held final block ahead whose parent no register of the lookaround
names. -/
def Ledger.FirstGap (L : Ledger) (s : Slot) : BlockId → Prop :=
  FirstUnknown (L.link s.thread) (L.NamedNear s) (L.ahead s)

/-- **On a ledger that agrees with the chain, the walk ahead breaks exactly at the first gap.** -/
theorem RealChain.Agrees.anchor_eq_some_iff {chain : RealChain} {L : Ledger} (agrees : chain.Agrees L)
    {s : Slot} (final : (L.reg s).status = .final) {z : BlockId} :
    L.anchor s (chain.verdict s) = some z ↔ L.FirstGap s z :=
  firstBreak_eq_some_iff_firstUnknown fun _ _ _ _ split named =>
    agrees.lastPassed_eq_iff final split named

end MassaIndexer.Chain
