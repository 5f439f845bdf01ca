/-
# Chain.Linkage -- when the chain speaks for the other verdict

The arbiter in terms of a ledger: which FINAL blocks lie ahead of a disputed slot, which of them is
the first whose parent is known, where the walk over them breaks. `Adopts` is the whole decision as
one proposition; `Chain.View` shows that the arbiter of the store computes it.
-/
import MassaIndexer.Chain.Record
import MassaIndexer.Theory.LinkWalk

namespace MassaIndexer.Chain

open MassaIndexer.Data.Ids MassaIndexer.Data.Model
open MassaIndexer.Peer.Arbiter MassaIndexer.Theory.LinkWalk

set_option autoImplicit false

namespace Ledger

variable (L : Ledger)

/-- The block a slot is settled with. -/
def finalAt (s : Slot) : Option BlockId :=
  if (L.reg s).status = .final ∧ (L.reg s).isMiss = false then (L.reg s).finalBlockId else none

/-- The parent a held block names in a thread. -/
def link (thread : UInt8) (b : BlockId) : Option BlockId :=
  (L.body b).bind fun body => body.parents[thread.toNat]?

/-- The final blocks within the lookaround after a slot, nearest first. -/
def ahead (s : Slot) : List BlockId :=
  (aheadPeriods s.period).filterMap fun p => L.finalAt ⟨p, s.thread⟩

/-- The last final block within the lookaround before a slot. -/
def prevFinal (s : Slot) : Option BlockId :=
  (behindPeriods s.period).findSome? fun p => L.finalAt ⟨p, s.thread⟩

/-- The first final block ahead whose body is held. -/
def nextHeld (s : Slot) : Option BlockId := (L.ahead s).find? fun b => (L.body b).isSome

/-- What the next held block builds on. -/
def nextLink (s : Slot) : Option BlockId := (L.nextHeld s).bind (L.link s.thread)

/-- The block a walk ahead starts behind. -/
def standing (s : Slot) : Verdict → Option BlockId
  | .block b => some b
  | .miss => L.prevFinal s

/-- The block named where the walk ahead breaks. -/
def anchor (s : Slot) (localV : Verdict) : Option BlockId :=
  firstBreak (L.link s.thread) (L.standing s localV) (L.ahead s)

/-- `y` is `a` or one of its nearer ancestors through bodies we hold. -/
def Reaches (thread : UInt8) (a y : BlockId) : Prop := reaches (L.link thread) y 64 a = true

/-- Builds on a block whose slot is settled otherwise. -/
def Dead (body : Body) : Prop :=
  ∃ q ∈ body.parents, ∃ b, L.body q = some b ∧ (L.reg b.slot).settledAgainst q

/-- The shipped body of the proposed block is dead. -/
def DeadShipment : Verdict → Option Shipment → Prop
  | .block y, some shipped => shipped.id = y ∧ L.Dead shipped.body
  | _, _ => False

/-- The held body of the block we settled on is dead. -/
def DeadVerdict : Verdict → Prop
  | .block x => ∃ body, L.body x = some body ∧ L.Dead body
  | .miss => False

/-- The next held block builds on `n`: does that decide for `peer`? -/
def NextSpeaks (s : Slot) (n : BlockId) : Verdict → Verdict → Prop
  | _, .block y => n = y
  | .block x, .miss => n ≠ x ∧ L.prevFinal s = some n
  | .miss, .miss => False

/-- The walk breaks at `a`: does the chain that rejoins there bear `peer` out? -/
def Rejoins (s : Slot) (a : BlockId) : Verdict → Prop
  | .block y => L.Reaches s.thread a y
  | .miss => True

/-- A verdict gives way to another. -/
def Adopts (s : Slot) (localV peer : Verdict) (shipped : Option Shipment) : Prop :=
  localV ≠ peer ∧ ¬ L.DeadShipment peer shipped ∧
    (L.DeadVerdict localV ∨ ∃ n, L.nextLink s = some n ∧
      (L.NextSpeaks s n localV peer ∨ ∃ a, L.anchor s localV = some a ∧ L.Rejoins s a peer))

/-! The decision can be run on any ledger that can be. -/

instance (thread : UInt8) (a y : BlockId) : Decidable (L.Reaches thread a y) :=
  inferInstanceAs (Decidable (_ = true))

instance (body : Body) : Decidable (L.Dead body) :=
  inferInstanceAs (Decidable (∃ q ∈ body.parents, ∃ b ∈ L.body q, (L.reg b.slot).settledAgainst q))

instance : (v : Verdict) → (shipped : Option Shipment) → Decidable (L.DeadShipment v shipped)
  | .block y, some shipped => inferInstanceAs (Decidable (shipped.id = y ∧ L.Dead shipped.body))
  | .block _, none => inferInstanceAs (Decidable False)
  | .miss, _ => inferInstanceAs (Decidable False)

instance : (v : Verdict) → Decidable (L.DeadVerdict v)
  | .block x => inferInstanceAs (Decidable (∃ body ∈ L.body x, L.Dead body))
  | .miss => inferInstanceAs (Decidable False)

instance (s : Slot) (n : BlockId) : (localV peer : Verdict) → Decidable (L.NextSpeaks s n localV peer)
  | .block _, .block y => inferInstanceAs (Decidable (n = y))
  | .miss, .block y => inferInstanceAs (Decidable (n = y))
  | .block x, .miss => inferInstanceAs (Decidable (n ≠ x ∧ L.prevFinal s = some n))
  | .miss, .miss => inferInstanceAs (Decidable False)

instance (s : Slot) (a : BlockId) : (peer : Verdict) → Decidable (L.Rejoins s a peer)
  | .block y => inferInstanceAs (Decidable (L.Reaches s.thread a y))
  | .miss => inferInstanceAs (Decidable True)

instance (s : Slot) (localV peer : Verdict) (shipped : Option Shipment) :
    Decidable (L.Adopts s localV peer shipped) :=
  inferInstanceAs (Decidable (localV ≠ peer ∧ ¬ L.DeadShipment peer shipped ∧
    (L.DeadVerdict localV ∨ ∃ n ∈ L.nextLink s,
      (L.NextSpeaks s n localV peer ∨ ∃ a ∈ L.anchor s localV, L.Rejoins s a peer))))

variable {L}

theorem mem_ahead {s : Slot} {b : BlockId} :
    b ∈ L.ahead s ↔ ∃ p ∈ aheadPeriods s.period, L.finalAt ⟨p, s.thread⟩ = some b := by
  simp [ahead, List.mem_filterMap]

theorem finalAt_eq_some {s : Slot} {b : BlockId} :
    L.finalAt s = some b ↔ (L.reg s).settledWith b := by
  simp only [finalAt, Register.settledWith]
  split
  · next settled => simp [settled]
  · next open_ => simp only [reduceCtorEq, false_iff]; exact fun h => open_ ⟨h.1, h.2.1⟩

theorem exists_of_nextLink {s : Slot} {n : BlockId} (next : L.nextLink s = some n) :
    ∃ p ∈ aheadPeriods s.period, ∃ q, L.finalAt ⟨p, s.thread⟩ = some q ∧
      L.link s.thread q = some n := by
  obtain ⟨q, held, named⟩ := Option.bind_eq_some_iff.mp next
  obtain ⟨p, ahead, final⟩ := mem_ahead.mp (List.mem_of_find?_eq_some held)
  exact ⟨p, ahead, q, final, named⟩

theorem verdict_of_finalAt {s : Slot} {b : BlockId} (final : L.finalAt s = some b) :
    (L.reg s).verdict = some (.block b) := by
  obtain ⟨-, notMiss, block⟩ := finalAt_eq_some.mp final
  simp [Register.verdict, notMiss, block]

/-- A block is never dead through a parent whose slot is settled with it. -/
theorem not_settledAgainst_of_settledWith {r : Register} {b : BlockId} (settled : r.settledWith b) :
    ¬ r.settledAgainst b := by
  rintro ⟨-, miss | other⟩
  · exact absurd (settled.2.1.symm.trans miss) (by decide)
  · exact other settled.2.2

end Ledger

end MassaIndexer.Chain
