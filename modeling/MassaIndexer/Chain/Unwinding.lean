/-
# Chain.Unwinding -- replacing a dead fork, newest slot first

Some slots of one thread are settled with blocks of a fork, everything else agrees with the real
chain, and a peer answers for the forked slots one after the other, newest first. An answer that is
adopted changes the ledger that the next one is judged on.

`Yields` says of one forked slot, while everything newer is real, what makes it give up its fork
block, and `restored_iff` that all of them are restored exactly when each yields in its turn.
-/
import MassaIndexer.Chain.RealChain
import MassaIndexer.Chain.Moves
import MassaIndexer.Theory.Runs

namespace MassaIndexer.Chain

open MassaIndexer.Data.Ids MassaIndexer.Data.Model MassaIndexer.Peer.Arbiter
open MassaIndexer.Theory.LinkWalk MassaIndexer.Theory.Runs

set_option autoImplicit false

/-! ## Restoring a slot -/

/-- The body of the slot's real block. -/
def RealChain.shipment (chain : RealChain) (s : Slot) : Option Shipment :=
  (chain.block s).map fun y => ⟨y, ⟨s, chain.parents y⟩⟩

/-- The slot's real verdict, with the body of its block. -/
def Ledger.restore (chain : RealChain) (L : Ledger) (s : Slot) : Ledger :=
  L.settle s (chain.verdict s) (chain.shipment s)

/-- The body of the block that a slot is settled with is dead. -/
def Ledger.DeadAt (L : Ledger) (s : Slot) : Prop :=
  ∃ f, L.finalAt s = some f ∧ L.DeadVerdict (.block f)

/-- The slot gives up its fork block for the real verdict: the real block is not dead on this ledger,
and either the fork block is, or the blocks ahead speak for the real verdict. They speak for a miss
when one of them builds on a block that no row ahead names, and for a real block when the next of
them builds on it, or the first such block leads back to it. -/
def Yields (chain : RealChain) (L : Ledger) (s : Slot) : Prop :=
  match chain.block s with
  | none => L.DeadAt s ∨ ∃ q ∈ L.ahead s, ∃ z, L.link s.thread q = some z ∧ z ∉ L.ahead s
  | some y => ¬ L.Dead ⟨s, chain.parents y⟩ ∧
      (L.DeadAt s ∨ L.nextLink s = some y ∨
        ∃ z, FirstUnknown (L.link s.thread) (· ∈ L.ahead s) (L.ahead s) z ∧
          L.Reaches s.thread z y)

/-- The body of a real block is one more of the chain's. -/
theorem RealChain.Bodies.receive_shipment {chain : RealChain} {L : Ledger} (bodies : chain.Bodies L)
    (s : Slot) : chain.Bodies (L.receive (chain.shipment s)) := by
  intro t b body real held
  unfold RealChain.shipment at held
  cases atS : chain.block s with
  | none =>
      rw [atS] at held
      exact bodies t b body real held
  | some y =>
      rw [atS] at held
      simp only [Option.map_some, Ledger.receive, Ledger.body_addBody] at held
      split at held
      · next same =>
          subst same
          obtain rfl := chain.slot_unique t s b real atS
          cases known : L.body b with
          | none => simpa [known] using held.symm
          | some old =>
              obtain rfl : old = body := by simpa [known] using held
              exact bodies t b old real known
      · exact bodies t b body real held

theorem yields_bare (chain : RealChain) (L : Ledger) (s : Slot) :
    Yields chain L.bare s ↔ Yields chain L s := Iff.rfl

/-! ## The chain's answers -/

/-- An offer with the real verdict of a slot and, if it has one, its block's body. -/
structure ChainOffer (chain : RealChain) (s : Slot) (o : Offer) : Prop where
  slot : o.slot = s
  verdict : o.verdict = some (chain.verdict s)
  shipped : ∀ y, chain.block s = some y → o.shipped = some ⟨y, ⟨s, chain.parents y⟩⟩

section Answer

variable {chain : RealChain} {s : Slot} {o : Offer} (answer : ChainOffer chain s o)

include answer

theorem ChainOffer.isMiss_of_none (miss : chain.block s = none) : o.isMiss = true := by
  have verdict := answer.verdict
  rw [RealChain.verdict_eq_miss miss, Offer.verdict] at verdict
  split at verdict
  · next isMiss => exact isMiss
  · cases o.block <;> simp at verdict

theorem ChainOffer.block_of_some {y : BlockId} (real : chain.block s = some y) :
    o.isMiss = false ∧ o.block = some y := by
  have verdict := answer.verdict
  rw [RealChain.verdict_eq_block real, Offer.verdict] at verdict
  split at verdict
  · simp at verdict
  · next notMiss =>
      refine ⟨by simpa using notMiss, ?_⟩
      cases block : o.block with
      | none => simp [block] at verdict
      | some b => simpa [block] using verdict

theorem ChainOffer.delivered_eq : o.delivered = chain.shipment s := by
  unfold Offer.delivered RealChain.shipment
  cases real : chain.block s with
  | none => simp [answer.isMiss_of_none real]
  | some y => simp [(answer.block_of_some real).1, answer.shipped y real]

theorem ChainOffer.bare_adopted {L M : Ledger} (same : L.bare = M.bare) :
    (L.adopted o).bare = (M.restore chain s).bare := by
  rw [Ledger.bare_adopted answer.verdict, answer.slot, answer.delivered_eq]
  exact Ledger.bare_settle same s _ _

end Answer

/-! ## One forked slot -/

/-- The slots of `rest` are settled with blocks that are not real, newest first; the others agree
with the chain, whose thread has a block before the fork and goes on after it. -/
structure Unwinding (chain : RealChain) (L : Ledger) (thread : UInt8) (rest : List Slot) : Prop where
  settled : ∀ s, s ∉ rest → (L.reg s).status = .final → chain.Settles s (L.reg s)
  bodies : chain.Bodies L
  forked : ∀ s ∈ rest, ∃ f, (L.reg s).settledWith f ∧ ∀ t, chain.block t ≠ some f
  inThread : ∀ s ∈ rest, s.thread = thread
  newestFirst : rest.Pairwise fun s t => t.period < s.period
  founded : ∀ s ∈ rest, ∃ p z, p < s.period ∧ chain.block ⟨p, thread⟩ = some z
  bounded : ∀ s ∈ rest, ∃ r, s.period < r

namespace Unwinding

variable {chain : RealChain} {L : Ledger} {thread : UInt8} {s : Slot} {rest : List Slot}
  (unwinding : Unwinding chain L thread (s :: rest))

include unwinding

theorem above {p : UInt64} (ahead : p ∈ aheadPeriods s.period) : s.period < p := by
  obtain ⟨r, below⟩ := unwinding.bounded s List.mem_cons_self
  exact above_of_room ahead below

/-- Everything ahead of the newest forked slot is real. -/
theorem aheadReal (p : UInt64) (ahead : p ∈ aheadPeriods s.period) (b : BlockId)
    (final : L.finalAt ⟨p, s.thread⟩ = some b) : chain.block ⟨p, s.thread⟩ = some b := by
  have above := unwinding.above ahead
  have outside : (⟨p, s.thread⟩ : Slot) ∉ s :: rest := by
    intro inside
    rcases List.mem_cons.mp inside with same | later
    · have : p = s.period := congrArg Slot.period same
      rw [this] at above
      exact UInt64.lt_irrefl _ above
    · have below := (List.pairwise_cons.mp unwinding.newestFirst).1 _ later
      exact UInt64.lt_irrefl _ (UInt64.lt_trans above below)
  have block := Ledger.finalAt_eq_some.mp final
  exact RealChain.real_of_settles (unwinding.settled _ outside block.1) block

theorem real_of_ahead {q : BlockId} (inAhead : q ∈ L.ahead s) :
    ∃ p, s.period < p ∧ chain.block ⟨p, s.thread⟩ = some q := by
  obtain ⟨p, ahead, final⟩ := Ledger.mem_ahead.mp inAhead
  exact ⟨p, unwinding.above ahead, unwinding.aheadReal p ahead q final⟩

/-- The walk from the fork block breaks at the first held block ahead whose parent no row ahead
names. -/
theorem anchor_eq_some_iff {f z : BlockId} (fork : ∀ t, chain.block t ≠ some f) :
    L.anchor s (.block f) = some z ↔
      FirstUnknown (L.link s.thread) (· ∈ L.ahead s) (L.ahead s) z := by
  refine firstBreak_eq_some_iff_firstUnknown fun before q after z split named => ?_
  have passed := RealChain.getLast?_eq_iff unwinding.bodies unwinding.aheadReal split named
  rw [← passed]
  cases last : before.getLast? with
  | some b => simp [lastPassed, last]
  | none =>
      obtain ⟨p, -, real⟩ := unwinding.real_of_ahead (by rw [split]; simp : q ∈ L.ahead s)
      obtain ⟨k, -, atK, -⟩ := RealChain.lastBefore_of_link unwinding.bodies real named
      have differ : f ≠ z := fun same => fork _ (same ▸ atK)
      simp [lastPassed, last, Ledger.standing, differ]

/-- Every held block ahead names a parent, so if one does, the next one does. -/
theorem exists_nextLink {q z : BlockId} (inAhead : q ∈ L.ahead s)
    (named : L.link s.thread q = some z) : ∃ n, L.nextLink s = some n := by
  obtain ⟨body, held, -⟩ := Option.bind_eq_some_iff.mp named
  cases next : L.nextHeld s with
  | none =>
      have unheld := List.find?_eq_none.mp next q inAhead
      simp [held] at unheld
  | some q' =>
      have isHeld := List.find?_some (p := fun b => (L.body b).isSome) next
      obtain ⟨body', held'⟩ := Option.isSome_iff_exists.mp isHeld
      obtain ⟨p', above, real⟩ := unwinding.real_of_ahead (List.mem_of_find?_eq_some next)
      obtain ⟨p, z₀, below, found⟩ := unwinding.founded s List.mem_cons_self
      have inThread := unwinding.inThread s List.mem_cons_self
      obtain ⟨n, last⟩ := exists_lastBefore (s := ⟨p', s.thread⟩) (UInt64.lt_trans below above)
        (by rw [inThread]; exact found)
      obtain rfl := unwinding.bodies _ q' body' real held'
      refine ⟨n, ?_⟩
      rw [Ledger.nextLink, next, Option.bind_some, Ledger.link, held', Option.bind_some]
      exact (chain.parent_own_thread _ q' real n).mpr last

/-- The row behind the slot names a block, the next one ahead builds on it: no row ahead names it. -/
theorem not_ahead_of_prevFinal {n : BlockId} (next : L.nextLink s = some n)
    (previous : L.prevFinal s = some n) : n ∉ L.ahead s := by
  intro inAhead
  obtain ⟨p, above, atP⟩ := unwinding.real_of_ahead inAhead
  obtain ⟨j, behind, final⟩ := Ledger.exists_of_prevFinal previous
  have block := Ledger.finalAt_eq_some.mp final
  have atJ : chain.block ⟨j, s.thread⟩ = some n := by
    by_cases inside : (⟨j, s.thread⟩ : Slot) ∈ s :: rest
    · obtain ⟨f, settled, fork⟩ := unwinding.forked _ inside
      obtain rfl : f = n := Option.some.inj (settled.2.2.symm.trans block.2.2)
      exact absurd atP (fork _)
    · exact RealChain.real_of_settles (unwinding.settled _ inside block.1) block
  obtain rfl : p = j := congrArg Slot.period (chain.slot_unique _ _ n atP atJ)
  exact UInt64.lt_irrefl _ (UInt64.lt_trans above (mem_behindPeriods.mp behind).1)

/-- **The arbiter sides with the chain exactly when the slot yields.** -/
theorem adopts_iff {f : BlockId} (settled : (L.reg s).settledWith f)
    (fork : ∀ t, chain.block t ≠ some f) {o : Offer} (answer : ChainOffer chain s o) :
    L.Adopts s (.block f) (chain.verdict s) o.shipped ↔ Yields chain L s := by
  have deadAt : L.DeadAt s ↔ L.DeadVerdict (.block f) := by
    rw [Ledger.DeadAt, Ledger.finalAt_eq_some.mpr settled]
    simp
  have broken (z : BlockId) := unwinding.anchor_eq_some_iff (z := z) fork
  unfold Yields Ledger.Adopts
  rw [deadAt]
  cases real : chain.block s with
  | none =>
      rw [RealChain.verdict_eq_miss real]
      constructor
      · rintro ⟨-, -, dead | ⟨n, next, ⟨-, previous⟩ | ⟨a, breaks, -⟩⟩⟩
        · exact .inl dead
        · obtain ⟨p, ahead, q, final, named⟩ := Ledger.exists_of_nextLink next
          exact .inr ⟨q, Ledger.mem_ahead.mpr ⟨p, ahead, final⟩, n, named,
            unwinding.not_ahead_of_prevFinal next previous⟩
        · exact .inr (exists_firstUnknown_iff.mp ⟨a, (broken a).mp breaks⟩)
      · rintro (dead | ⟨q, inAhead, z, named, unknown⟩)
        · exact ⟨by simp, id, .inl dead⟩
        · obtain ⟨a, first⟩ := exists_firstUnknown_iff.mpr ⟨q, inAhead, z, named, unknown⟩
          obtain ⟨n, next⟩ := unwinding.exists_nextLink inAhead named
          exact ⟨by simp, id, .inr ⟨n, next, .inr ⟨a, (broken a).mpr first, trivial⟩⟩⟩
  | some y =>
      have differ : f ≠ y := fun same => fork s (same ▸ real)
      rw [RealChain.verdict_eq_block real, answer.shipped y real]
      constructor
      · rintro ⟨-, alive, dead | ⟨n, next, rfl | ⟨a, breaks, reached⟩⟩⟩
        · exact ⟨fun dead => alive ⟨rfl, dead⟩, .inl dead⟩
        · exact ⟨fun dead => alive ⟨rfl, dead⟩, .inr (.inl next)⟩
        · exact ⟨fun dead => alive ⟨rfl, dead⟩, .inr (.inr ⟨a, (broken a).mp breaks, reached⟩)⟩
      · rintro ⟨alive, reason⟩
        refine ⟨by simpa using differ, fun dead => alive dead.2, ?_⟩
        rcases reason with dead | next | ⟨a, first, reached⟩
        · exact .inl dead
        · exact .inr ⟨y, next, .inl rfl⟩
        · obtain ⟨before, q, after, split, -, named, -⟩ := id first
          obtain ⟨n, next⟩ := unwinding.exists_nextLink (by rw [split]; simp) named
          exact .inr ⟨n, next, .inr ⟨a, (broken a).mpr first, reached⟩⟩

/-- Once the newest forked slot has been restored, the next newest is the newest. -/
theorem adopted {o : Offer} (answer : ChainOffer chain s o) :
    Unwinding chain (L.adopted o) thread rest := by
  have below : ∀ t ∈ rest, t.period < s.period := (List.pairwise_cons.mp unwinding.newestFirst).1
  have elsewhere : ∀ t ∈ rest, t ≠ o.slot := by
    intro t later same
    have lt := below t later
    rw [same, answer.slot] at lt
    exact UInt64.lt_irrefl _ lt
  have tail {P : Slot → Prop} (all : ∀ t ∈ s :: rest, P t) : ∀ t ∈ rest, P t := fun t later =>
    all t (List.mem_cons_of_mem s later)
  refine ⟨fun t outside final => ?_, fun t b body real held => ?_, fun t later => ?_,
    tail unwinding.inThread, (List.pairwise_cons.mp unwinding.newestFirst).2,
    tail unwinding.founded, tail unwinding.bounded⟩
  · by_cases here : t = o.slot
    · subst here
      exact RealChain.settles_of_verdict ((L.verdict_adopted o).2.trans
        (answer.verdict.trans (by rw [answer.slot])))
    · rw [L.reg_adopted_of_ne here] at final ⊢
      refine unwinding.settled t (fun inside => ?_) final
      rcases List.mem_cons.mp inside with same | later
      · exact here (same.trans answer.slot.symm)
      · exact outside later
  · rw [Ledger.adopted, Ledger.body_setReg, answer.delivered_eq] at held
    exact unwinding.bodies.receive_shipment s t b body real held
  · rw [L.reg_adopted_of_ne (elsewhere t later)]
    exact unwinding.forked t (List.mem_cons_of_mem s later)

end Unwinding

/-! ## All of them in turn -/

/-- The slot carries its real verdict. -/
def Restored (chain : RealChain) (L : Ledger) (s : Slot) : Prop :=
  (L.reg s).status = .final ∧ (L.reg s).verdict = some (chain.verdict s)

section Run

variable {chain : RealChain} {offer : Slot → Offer}

/-- An answer leaves the slots alone that it is not about. -/
theorem reg_run_of_not_mem {slots : List Slot} (about : ∀ s ∈ slots, (offer s).slot = s) {t : Slot}
    (outside : t ∉ slots) (L : Ledger) :
    (run (fun L s => L.peerOffer (offer s)) L slots).reg t = L.reg t :=
  foldl_view (fun L : Ledger => L.reg t) (fun L s member => L.reg_peerOffer_of_ne fun same =>
    outside (same.trans (about s member) ▸ member)) L

/-- **The whole fork is replaced exactly when each of its slots yields in its turn**, judged on the
ledger where everything newer has been restored. -/
theorem restored_iff {thread : UInt8} {rest : List Slot} {L M : Ledger} (same : L.bare = M.bare)
    (unwinding : Unwinding chain L thread rest)
    (answers : ∀ s ∈ rest, ChainOffer chain s (offer s)) :
    (∀ s ∈ rest, Restored chain (run (fun L s => L.peerOffer (offer s)) L rest) s) ↔
      Along (Ledger.restore chain) (Yields chain) M rest := by
  induction rest generalizing L M with
  | nil => simp [Along]
  | cons s rest ih =>
      have answer := answers s List.mem_cons_self
      have later := fun t member => answers t (List.mem_cons_of_mem s member)
      have fresh : s ∉ rest := fun member =>
        UInt64.lt_irrefl _ ((List.pairwise_cons.mp unwinding.newestFirst).1 s member)
      have about : ∀ t ∈ rest, (offer t).slot = t := fun t member => (later t member).slot
      obtain ⟨f, settled, fork⟩ := unwinding.forked s List.mem_cons_self
      have held : (L.reg (offer s).slot).verdict = some (.block f) := by
        rw [answer.slot]
        exact Ledger.verdict_of_finalAt (Ledger.finalAt_eq_some.mpr settled)
      have final : (L.reg (offer s).slot).status = .final := by rw [answer.slot]; exact settled.1
      have differ : Verdict.block f ≠ chain.verdict s := fun same => by
        cases real : chain.block s with
        | none => simp [RealChain.verdict_eq_miss real] at same
        | some y =>
            rw [RealChain.verdict_eq_block real] at same
            exact fork s (by rw [real, Verdict.block.inj same])
      have yields : Yields chain M s ↔ L.Adopts s (.block f) (chain.verdict s) (offer s).shipped := by
        rw [← yields_bare, ← same, yields_bare, unwinding.adopts_iff settled fork answer]
      simp only [List.forall_mem_cons, run_cons, Along, yields]
      by_cases adopts : L.Adopts s (.block f) (chain.verdict s) (offer s).shipped
      · have moved : L.peerOffer (offer s) = L.adopted (offer s) :=
          Ledger.peerOffer_of_adopts final held answer.verdict (by rw [answer.slot]; exact adopts)
        have here := L.verdict_adopted (offer s)
        rw [answer.slot, answer.verdict] at here
        rw [moved, ih (answer.bare_adopted same) (unwinding.adopted answer) later]
        simp only [Restored, reg_run_of_not_mem about fresh, here, adopts, and_self, true_and]
      · have kept : L.peerOffer (offer s) = L :=
          Ledger.peerOffer_of_not_adopts final held answer.verdict differ
            (by rw [answer.slot]; exact adopts)
        have standing : ¬ Restored chain (run (fun L s => L.peerOffer (offer s)) L rest) s := by
          rintro ⟨-, verdict⟩
          rw [reg_run_of_not_mem about fresh, ← answer.slot, held, answer.slot] at verdict
          exact differ (Option.some.inj verdict)
        simp only [kept, standing, adopts, false_and]

end Run

end MassaIndexer.Chain
