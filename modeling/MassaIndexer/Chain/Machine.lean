/-
# Chain.Machine -- the ledger as a machine

What an event amounts to for the ledger, once decoded (`Act`), and what it does (`Ledger.step`). The
machine says what the writer is for: frames and patches settle open slots, a settled slot is only
completed by news that agrees with it, and its verdict is replaced by the operator or by a peer for
whom the chain ahead speaks.
-/
import MassaIndexer.Chain.Linkage

namespace MassaIndexer.Chain

open MassaIndexer.Data.Ids MassaIndexer.Data.Model
open MassaIndexer.Peer.Arbiter

set_option autoImplicit false

/-- What a patch says about its slot. -/
structure Offer where
  slot : Slot
  isMiss : Bool
  block : Option BlockId
  trail : Option String
  shipped : Option Shipment
  settlesExec : Bool
  settlesTransfers : Bool

namespace Offer

def verdict (o : Offer) : Option Verdict :=
  if o.isMiss then some .miss else o.block.map .block

/-- A body beside a miss is ignored. -/
def delivered (o : Offer) : Option Shipment := if o.isMiss then none else o.shipped

end Offer

inductive Act where
  | idle
  | body (shipped : Shipment)
  | candidate (slot : Slot) (trail : Option String)
  | final (slot : Slot) (isMiss : Bool) (block : Option BlockId) (trail : Option String)
  | transfers (slot : Slot)
  | peer (o : Offer)
  | legacy (o : Offer)
  | forced (slot : Slot) (verdict : Verdict) (trail : Option String)

namespace Register

/-- An offer with the verdict of a settled register: refused when the trail hashes clash. -/
def agreed (r : Register) (trail : Option String) : Option Register :=
  if Clash r.trail trail then none else some { r with trail := r.trail.or trail }

/-- The register an operator leaves. -/
def forcedTo (v : Verdict) (trail : Option String) : Register :=
  match v with
  | .miss => replaced true none trail
  | .block b => replaced false (some b) trail

end Register

namespace Ledger

/-- A peer's offer against the register of its slot; `none` when it is turned away. -/
def reconcile (L : Ledger) (o : Offer) : Option Register :=
  let r := L.reg o.slot
  if r.status ≠ .final then
    some { r.promoted o.isMiss o.block with trail := o.trail.or r.trail }
  else match r.verdict, o.verdict with
    | some localV, some peerV =>
        if localV = peerV then r.agreed o.trail
        else if L.Adopts o.slot localV peerV o.shipped then
          some (.replaced o.isMiss o.block o.trail)
        else none
    | _, _ => r.agreed o.trail

def peerOffer (L : Ledger) (o : Offer) : Ledger :=
  match L.reconcile o with
  | none => L
  | some r =>
      let settled := r.settleParts (o.isMiss || o.shipped.isSome) o.settlesExec o.settlesTransfers
      ((if (L.reg o.slot).status = .final then L else L.raiseHead o.slot).receive o.delivered).setReg
        o.slot settled

/-- A legacy offer settles an open slot; on a settled one it can only set the body flag. -/
def legacyOffer (L : Ledger) (o : Offer) : Ledger :=
  let r := L.reg o.slot
  let base := if r.status = .final then r else r.promoted o.isMiss o.block
  let body := if o.isMiss then base.isMiss else o.shipped.isSome
  ((if r.status = .final then L else L.raiseHead o.slot).receive
    (if r.completeness.blockBodyStored then none else o.delivered)).setReg
      o.slot (base.settleParts body false false)

def step (L : Ledger) : Act → Ledger
  | .idle => L
  | .body shipped =>
      (L.addBody shipped).setReg shipped.body.slot (L.reg shipped.body.slot).sawBody
  | .candidate s trail => L.setReg s ((L.reg s).sawCandidate trail)
  | .final s isMiss block trail =>
      (if (L.reg s).status = .final then L else L.moveHead s).setReg s
        ((L.reg s).sawFinal isMiss block trail)
  | .transfers s => L.setReg s (L.reg s).sawTransfers
  | .peer o => L.peerOffer o
  | .legacy o => L.legacyOffer o
  | .forced s v trail =>
      if (L.reg s).status = .final ∧ (L.reg s).verdict = some v then L
      else L.setReg s (.forcedTo v trail)

/-- The ledger after an offer whose verdict was adopted. -/
def adopted (L : Ledger) (o : Offer) : Ledger :=
  (L.receive o.delivered).setReg o.slot
    ((Register.replaced o.isMiss o.block o.trail).settleParts (o.isMiss || o.shipped.isSome)
      o.settlesExec o.settlesTransfers)

/-- An adopted verdict is the offer's. -/
theorem verdict_adopted (L : Ledger) (o : Offer) :
    ((L.adopted o).reg o.slot).status = .final ∧ ((L.adopted o).reg o.slot).verdict = o.verdict := by
  have here : (L.adopted o).reg o.slot =
      (Register.replaced o.isMiss o.block o.trail).settleParts (o.isMiss || o.shipped.isSome)
        o.settlesExec o.settlesTransfers := by simp [adopted]
  rw [here]
  refine ⟨rfl, ?_⟩
  cases isMiss : o.isMiss <;> simp [Register.verdict, Register.replaced, Register.settleParts,
    Offer.verdict, isMiss]

theorem reg_adopted_of_ne (L : Ledger) {o : Offer} {t : Slot} (elsewhere : t ≠ o.slot) :
    (L.adopted o).reg t = L.reg t := by simp [adopted, elsewhere]

theorem reg_peerOffer_of_ne (L : Ledger) {o : Offer} {t : Slot} (elsewhere : t ≠ o.slot) :
    (L.peerOffer o).reg t = L.reg t := by
  unfold peerOffer
  split
  · rfl
  · simp only [reg_setReg, reg_receive, if_neg elsewhere]
    split
    · rfl
    · rw [reg_raiseHead]

/-! ## Verdicts and bodies alone

What the arbiter reads. Trail hashes, completeness and the head make no difference to it. -/

end Ledger

def Register.bare (r : Register) : Register := { r with trail := none, completeness := {} }

namespace Ledger

def bare (L : Ledger) : Ledger where
  reg s := (L.reg s).bare
  body := L.body
  head := none

/-- A slot settled with a verdict, and a body entered. -/
def settle (L : Ledger) (s : Slot) (v : Verdict) (shipped : Option Shipment) : Ledger :=
  (L.receive shipped).setReg s (.forcedTo v none)

theorem adopts_bare (L : Ledger) (s : Slot) (localV peerV : Verdict) (shipped : Option Shipment) :
    L.bare.Adopts s localV peerV shipped ↔ L.Adopts s localV peerV shipped := Iff.rfl

theorem bare_setReg {L M : Ledger} (same : L.bare = M.bare) {r r' : Register}
    (alike : r.bare = r'.bare) (s : Slot) : (L.setReg s r).bare = (M.setReg s r').bare := by
  have bodies : L.bare.body = M.bare.body := by rw [same]
  refine Ledger.ext (funext fun t => ?_) bodies rfl
  have here : L.bare.reg t = M.bare.reg t := by rw [same]
  simp only [bare, reg_setReg] at here ⊢
  split
  · exact alike
  · exact here

theorem bare_receive {L M : Ledger} (same : L.bare = M.bare) (s : Option Shipment) :
    (L.receive s).bare = (M.receive s).bare := by
  cases s with
  | none => exact same
  | some s =>
      have regs : L.bare.reg = M.bare.reg := by rw [same]
      have bodies : L.bare.body = M.bare.body := by rw [same]
      refine Ledger.ext regs (funext fun b => ?_) rfl
      have here : L.body b = M.body b := congrFun bodies b
      simp only [bare, receive, body_addBody, here]

theorem bare_settle {L M : Ledger} (same : L.bare = M.bare) (s : Slot) (v : Verdict)
    (shipped : Option Shipment) : (L.settle s v shipped).bare = (M.settle s v shipped).bare :=
  bare_setReg (bare_receive same shipped) rfl s

/-- An adopted offer settles its slot with its verdict. -/
theorem bare_adopted {L : Ledger} {o : Offer} {v : Verdict} (offered : o.verdict = some v) :
    (L.adopted o).bare = (L.settle o.slot v o.delivered).bare := by
  refine bare_setReg rfl ?_ o.slot
  unfold Offer.verdict at offered
  cases isMiss : o.isMiss with
  | true =>
      obtain rfl : Verdict.miss = v := by simpa [isMiss] using offered
      rfl
  | false =>
      cases block : o.block with
      | none => simp [isMiss, block] at offered
      | some b =>
          obtain rfl : Verdict.block b = v := by simpa [isMiss, block] using offered
          rfl

theorem setReg_self (L : Ledger) (s : Slot) : L.setReg s (L.reg s) = L := by
  refine Ledger.ext (funext fun t => ?_) rfl rfl
  rw [reg_setReg]
  split
  · next here => rw [here]
  · rfl

end Ledger

end MassaIndexer.Chain
