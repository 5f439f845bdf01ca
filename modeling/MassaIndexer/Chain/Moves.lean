/-
# Chain.Moves -- what one act can do to one register

`RegMove` lists every way an act changes the register of a slot, and `Reconciles` every way a peer's
offer gets past the register it meets. Laws about registers are proved by going through these lists,
never by unfolding the machine.
-/
import MassaIndexer.Chain.Machine

namespace MassaIndexer.Chain

open MassaIndexer.Data.Ids MassaIndexer.Data.Model
open MassaIndexer.Data.Codec (readBackTrail readBackTrail_idem)
open MassaIndexer.Peer.Arbiter

set_option autoImplicit false

/-! ## Reconciling an offer -/

/-- The register a peer's offer is applied to. -/
inductive Reconciles (L : Ledger) (o : Offer) : Register → Prop where
  | promoted : (L.reg o.slot).status ≠ .final →
      Reconciles L o
        { (L.reg o.slot).promoted o.isMiss o.block with trail := o.trail.or (L.reg o.slot).trail }
  | agreed : (L.reg o.slot).status = .final →
      (∀ l p, (L.reg o.slot).verdict = some l → o.verdict = some p → l = p) →
      ¬ Register.Clash (L.reg o.slot).trail o.trail →
      Reconciles L o { L.reg o.slot with trail := (L.reg o.slot).trail.or o.trail }
  | adopted : (L.reg o.slot).status = .final → ∀ l p, (L.reg o.slot).verdict = some l →
      o.verdict = some p → L.Adopts o.slot l p o.shipped →
      Reconciles L o (.replaced o.isMiss o.block o.trail)

theorem reconciles_of_agreed {L : Ledger} {o : Offer} {r : Register}
    (settled : (L.reg o.slot).status = .final)
    (same : ∀ l p, (L.reg o.slot).verdict = some l → o.verdict = some p → l = p)
    (agreed : (L.reg o.slot).agreed o.trail = some r) : Reconciles L o r := by
  unfold Register.agreed at agreed
  split at agreed
  · simp at agreed
  · next noClash =>
      obtain rfl := Option.some.inj agreed
      exact .agreed settled same noClash

theorem reconciles_of_reconcile {L : Ledger} {o : Offer} {r : Register}
    (reconciled : L.reconcile o = some r) : Reconciles L o r := by
  unfold Ledger.reconcile at reconciled
  dsimp only at reconciled
  by_cases settled : (L.reg o.slot).status = .final
  · rw [if_neg (not_not.mpr settled)] at reconciled
    cases held : (L.reg o.slot).verdict with
    | none =>
        rw [held] at reconciled
        exact reconciles_of_agreed settled (by simp [held]) reconciled
    | some l =>
        cases offered : o.verdict with
        | none =>
            rw [held, offered] at reconciled
            exact reconciles_of_agreed settled (by simp [offered]) reconciled
        | some p =>
            rw [held, offered] at reconciled
            dsimp only at reconciled
            split at reconciled
            · next same =>
                exact reconciles_of_agreed settled (by simp [held, offered, same]) reconciled
            · split at reconciled
              · next adopts =>
                  obtain rfl := Option.some.inj reconciled
                  exact .adopted settled l p held offered adopts
              · simp at reconciled
  · rw [if_pos settled] at reconciled
    obtain rfl := Option.some.inj reconciled
    exact .promoted settled

/-- Both sides have a verdict, and not the same one. -/
def Disputed (L : Ledger) (o : Offer) : Prop :=
  ∃ l p, (L.reg o.slot).verdict = some l ∧ o.verdict = some p ∧ l ≠ p

section Reconcile

variable {L : Ledger} {o : Offer}

theorem reconcile_of_open (open_ : (L.reg o.slot).status ≠ .final) :
    L.reconcile o = some { (L.reg o.slot).promoted o.isMiss o.block with
      trail := o.trail.or (L.reg o.slot).trail } := by
  simp [Ledger.reconcile, open_]

theorem reconcile_of_agreed (settled : (L.reg o.slot).status = .final) (agreed : ¬ Disputed L o) :
    L.reconcile o = (L.reg o.slot).agreed o.trail := by
  rw [Ledger.reconcile]
  dsimp only
  rw [if_neg (not_not.mpr settled)]
  cases held : (L.reg o.slot).verdict with
  | none => rfl
  | some l =>
      cases offered : o.verdict with
      | none => rfl
      | some p => exact if_pos (not_not.mp fun differ => agreed ⟨l, p, held, offered, differ⟩)

theorem reconcile_of_adopts (settled : (L.reg o.slot).status = .final) {l p : Verdict}
    (held : (L.reg o.slot).verdict = some l) (offered : o.verdict = some p)
    (adopts : L.Adopts o.slot l p o.shipped) :
    L.reconcile o = some (.replaced o.isMiss o.block o.trail) := by
  simp [Ledger.reconcile, settled, held, offered, adopts, adopts.1]

theorem reconcile_of_not_adopts (settled : (L.reg o.slot).status = .final) {l p : Verdict}
    (held : (L.reg o.slot).verdict = some l) (offered : o.verdict = some p) (differ : l ≠ p)
    (keeps : ¬ L.Adopts o.slot l p o.shipped) : L.reconcile o = none := by
  simp [Ledger.reconcile, settled, held, offered, keeps, differ]

end Reconcile

namespace Ledger

section Dispute

variable {L : Ledger} {o : Offer} {localV peerV : Verdict}
  (settled : (L.reg o.slot).status = .final) (held : (L.reg o.slot).verdict = some localV)
  (offered : o.verdict = some peerV)

include settled held offered

/-- A settled register and an offer that disagrees with it: adopted whole, or turned away. -/
theorem peerOffer_of_adopts (adopts : L.Adopts o.slot localV peerV o.shipped) :
    L.peerOffer o = L.adopted o := by
  rw [peerOffer, reconcile_of_adopts settled held offered adopts]
  simp [settled, adopted]

theorem peerOffer_of_not_adopts (differ : localV ≠ peerV)
    (keeps : ¬ L.Adopts o.slot localV peerV o.shipped) : L.peerOffer o = L := by
  rw [peerOffer, reconcile_of_not_adopts settled held offered differ keeps]

end Dispute

end Ledger

/-! ## Moves -/

/-- The register a legacy offer is applied to. -/
def Ledger.legacyBase (L : Ledger) (o : Offer) : Register :=
  if (L.reg o.slot).status = .final then L.reg o.slot
  else (L.reg o.slot).promoted o.isMiss o.block

inductive RegMove (L : Ledger) (t : Slot) : Act → Register → Prop where
  | same (a : Act) : RegMove L t a (L.reg t)
  | body (shipped : Shipment) : shipped.body.slot = t →
      RegMove L t (.body shipped) (L.reg t).sawBody
  | candidate (trail : Option String) :
      RegMove L t (.candidate t trail) ((L.reg t).sawCandidate trail)
  | final (isMiss : Bool) (block : Option BlockId) (trail : Option String) :
      RegMove L t (.final t isMiss block trail) ((L.reg t).sawFinal isMiss block trail)
  | transfers : RegMove L t (.transfers t) (L.reg t).sawTransfers
  | peer (o : Offer) (r : Register) : o.slot = t → Reconciles L o r →
      RegMove L t (.peer o)
        (r.settleParts (o.isMiss || o.shipped.isSome) o.settlesExec o.settlesTransfers)
  | legacy (o : Offer) : o.slot = t →
      RegMove L t (.legacy o)
        ((L.legacyBase o).settleParts
          (if o.isMiss then (L.legacyBase o).isMiss else o.shipped.isSome) false false)
  | forced (v : Verdict) (trail : Option String) :
      ¬ ((L.reg t).status = .final ∧ (L.reg t).verdict = some v) →
      RegMove L t (.forced t v trail) (.forcedTo v trail)

theorem reg_ite_raiseHead (L : Ledger) (c : Prop) [Decidable c] (s : Slot) :
    (if c then L else L.raiseHead s).reg = L.reg := by
  split
  · rfl
  · exact L.reg_raiseHead s

theorem body_ite_raiseHead (L : Ledger) (c : Prop) [Decidable c] (s : Slot) :
    (if c then L else L.raiseHead s).body = L.body := by
  split
  · rfl
  · exact L.body_raiseHead s

/-- **Every act moves every register in one of these ways.** -/
theorem regMove_step (L : Ledger) (a : Act) (t : Slot) : RegMove L t a ((L.step a).reg t) := by
  cases a with
  | idle => exact .same _
  | body shipped =>
      simp only [Ledger.step, Ledger.reg_setReg, Ledger.reg_addBody]
      split
      · next here => rw [← here]; exact .body shipped here.symm
      · exact .same _
  | candidate s trail =>
      simp only [Ledger.step, Ledger.reg_setReg]
      split
      · next here => rw [← here]; exact .candidate trail
      · exact .same _
  | final s isMiss block trail =>
      have kept : (if (L.reg s).status = .final then L else L.moveHead s).reg = L.reg := by
        split <;> rfl
      simp only [Ledger.step, Ledger.reg_setReg, kept]
      split
      · next here => rw [← here]; exact .final isMiss block trail
      · exact .same _
  | transfers s =>
      simp only [Ledger.step, Ledger.reg_setReg]
      split
      · next here => rw [← here]; exact .transfers
      · exact .same _
  | peer o =>
      simp only [Ledger.step, Ledger.peerOffer]
      cases reconciled : L.reconcile o with
      | none => exact .same _
      | some r =>
          dsimp only
          rw [Ledger.reg_setReg, Ledger.reg_receive, reg_ite_raiseHead]
          split
          · next here => exact .peer o r here.symm (reconciles_of_reconcile reconciled)
          · exact .same _
  | legacy o =>
      simp only [Ledger.step, Ledger.legacyOffer]
      rw [Ledger.reg_setReg, Ledger.reg_receive, reg_ite_raiseHead]
      split
      · next here => exact .legacy o here.symm
      · exact .same _
  | forced s v trail =>
      simp only [Ledger.step]
      split
      · exact .same _
      · next stands =>
          rw [Ledger.reg_setReg]
          split
          · next here =>
              rw [← here] at stands ⊢
              exact .forced v trail stands
          · exact .same _

/-! ## Well-formed registers -/

/-- What holds of every register of a reachable ledger: an open slot has no verdict, a miss has no
block, and the trail hash is never the empty text. -/
structure Register.WellFormed (r : Register) : Prop where
  unsettled : r.status ≠ .final → r.isMiss = false ∧ r.finalBlockId = none
  miss : r.isMiss = true → r.finalBlockId = none
  trail : readBackTrail r.trail = r.trail

def Ledger.WellFormed (L : Ledger) : Prop := ∀ s, (L.reg s).WellFormed

/-- What decoding guarantees of an act: a patch never carries the empty trail hash, and a frame
without a block id carries no block. -/
def Act.Normal : Act → Prop
  | .final _ isMiss block _ => isMiss = true → block = none
  | .peer o => readBackTrail o.trail = o.trail
  | .forced _ _ trail => readBackTrail trail = trail
  | _ => True

theorem readBackTrail_or {a b : Option String} (left : readBackTrail a = a)
    (right : readBackTrail b = b) : readBackTrail (a.or b) = a.or b := by
  cases a with
  | none => exact right
  | some t => exact left

namespace Register.WellFormed

variable {r : Register}

theorem blank : Register.blank.WellFormed where
  unsettled _ := ⟨rfl, rfl⟩
  miss := by simp [Register.blank]
  trail := rfl

/-- Only the completeness moved. -/
theorem of_same {r' : Register} (wf : r.WellFormed) (status : r'.status = r.status)
    (isMiss : r'.isMiss = r.isMiss) (block : r'.finalBlockId = r.finalBlockId)
    (trail : r'.trail = r.trail) : r'.WellFormed where
  unsettled open_ := by
    rw [isMiss, block]
    exact wf.unsettled (status ▸ open_)
  miss isMiss' := by
    rw [block]
    exact wf.miss (isMiss ▸ isMiss')
  trail := by rw [trail]; exact wf.trail

theorem settleParts (wf : r.WellFormed) (body exec transfers : Bool) :
    (r.settleParts body exec transfers).WellFormed := wf.of_same rfl rfl rfl rfl

theorem sawBody (wf : r.WellFormed) : r.sawBody.WellFormed where
  unsettled open_ := by
    refine wf.unsettled fun final => open_ ?_
    simp [Register.sawBody, final]
  miss := wf.miss
  trail := wf.trail

theorem sawCandidate (wf : r.WellFormed) (trail : Option String) :
    (r.sawCandidate trail).WellFormed := by
  unfold Register.sawCandidate
  split
  · exact wf
  · next open_ =>
      obtain ⟨isMiss, block⟩ := wf.unsettled open_
      exact ⟨fun _ => ⟨isMiss, block⟩, fun _ => block, readBackTrail_idem _⟩

theorem sawFinal (wf : r.WellFormed) (isMiss : Bool) (block : Option BlockId)
    (trail : Option String) (noBlock : isMiss = true → block = none) :
    (r.sawFinal isMiss block trail).WellFormed := by
  unfold Register.sawFinal
  split
  · next settled =>
      split
      · exact ⟨fun open_ => absurd settled open_, wf.miss, readBackTrail_idem _⟩
      · exact wf
  · next open_ =>
      refine ⟨fun h => absurd rfl h, fun miss => ?_, readBackTrail_idem _⟩
      simp [noBlock miss, (wf.unsettled open_).2]

theorem promoted (wf : r.WellFormed) (open_ : r.status ≠ .final) (isMiss : Bool)
    (block : Option BlockId) : (r.promoted isMiss block).WellFormed := by
  refine ⟨fun h => absurd rfl h, fun miss => ?_, wf.trail⟩
  have miss : isMiss = true := miss
  simp [Register.promoted, miss, (wf.unsettled open_).2]

theorem replaced (isMiss : Bool) (block : Option BlockId) {trail : Option String}
    (normal : readBackTrail trail = trail) : (Register.replaced isMiss block trail).WellFormed := by
  refine ⟨fun h => absurd rfl h, fun miss => ?_, normal⟩
  have miss : isMiss = true := miss
  simp [Register.replaced, miss]

theorem withTrail (wf : r.WellFormed) {trail : Option String}
    (normal : readBackTrail trail = trail) : Register.WellFormed { r with trail := trail } :=
  ⟨wf.unsettled, wf.miss, normal⟩

theorem forcedTo (v : Verdict) {trail : Option String} (normal : readBackTrail trail = trail) :
    (Register.forcedTo v trail).WellFormed := by
  cases v <;> exact replaced _ _ normal

end Register.WellFormed

theorem Reconciles.wellFormed {L : Ledger} {o : Offer} {r : Register} (reconciled : Reconciles L o r)
    (wf : (L.reg o.slot).WellFormed) (normal : readBackTrail o.trail = o.trail) : r.WellFormed := by
  cases reconciled with
  | promoted open_ =>
      exact (wf.promoted open_ o.isMiss o.block).withTrail (readBackTrail_or normal wf.trail)
  | agreed _ _ _ => exact wf.withTrail (readBackTrail_or wf.trail normal)
  | adopted _ _ _ _ _ _ => exact .replaced _ _ normal

/-- **Acts keep registers well formed.** -/
theorem Ledger.WellFormed.step {L : Ledger} (wf : L.WellFormed) {a : Act} (normal : a.Normal) :
    (L.step a).WellFormed := by
  intro t
  have moved := regMove_step L a t
  generalize (L.step a).reg t = r at moved ⊢
  cases moved with
  | same _ => exact wf t
  | body _ _ => exact (wf t).sawBody
  | candidate trail => exact (wf t).sawCandidate trail
  | final isMiss block trail => exact (wf t).sawFinal isMiss block trail normal
  | transfers => exact (wf t).of_same rfl rfl rfl rfl
  | peer o r here reconciled => exact (reconciled.wellFormed (wf o.slot) normal).settleParts _ _ _
  | legacy o here =>
      refine Register.WellFormed.settleParts ?_ _ _ _
      unfold Ledger.legacyBase
      split
      · exact wf o.slot
      · next open_ => exact (wf o.slot).promoted open_ _ _
  | forced v trail _ => exact .forcedTo v normal

end MassaIndexer.Chain
