/-
# Chain.Record -- what the store knows about the chain

The part of the store that verdicts are made of: a register for each slot, a body for each block we
hold, and the head. It has no operations, events or transfers and no clock, and a slot without a row
has a blank register, so the stubs the writer leaves behind cannot be told from nothing.

The transitions below say what each kind of event does to a register. They are stated for one
register; `Chain.Machine` places them in a ledger and `Chain.Refinement` derives them from the
handlers.
-/
import MassaIndexer.Peer.Arbiter

namespace MassaIndexer.Chain

open MassaIndexer.Data.Ids MassaIndexer.Data.Model
open MassaIndexer.Data.Codec (readBackTrail readBackTrail_idem)
open MassaIndexer.Peer.Arbiter (Verdict)

set_option autoImplicit false

/-- A slot's status, verdict, trail hash and completeness. -/
@[ext] structure Register where
  status : SlotStatus
  isMiss : Bool
  finalBlockId : Option BlockId
  trail : Option String
  completeness : SlotCompleteness

/-- Where a block sits and what it builds on. -/
@[ext] structure Body where
  slot : Slot
  parents : List BlockId
deriving DecidableEq

/-- A block body on the wire or in a store, with the id it goes by. -/
structure Shipment where
  id : BlockId
  body : Body
deriving DecidableEq

@[ext] structure Ledger where
  reg : Slot → Register
  body : BlockId → Option Body
  head : Option Slot

namespace Register

def blank : Register where
  status := .unknown
  isMiss := false
  finalBlockId := none
  trail := none
  completeness := {}

/-- The FINAL verdict as recorded; a register can be FINAL without one. -/
def verdict (r : Register) : Option Verdict :=
  if r.isMiss then some .miss else r.finalBlockId.map .block

/-- Was the slot settled with this block? -/
def settledWith (r : Register) (b : BlockId) : Prop :=
  r.status = .final ∧ r.isMiss = false ∧ r.finalBlockId = some b

/-- Was the slot settled with anything else? -/
def settledAgainst (r : Register) (b : BlockId) : Prop :=
  r.status = .final ∧ (r.isMiss = true ∨ r.finalBlockId ≠ some b)

instance (r : Register) (b : BlockId) : Decidable (r.settledWith b) :=
  inferInstanceAs (Decidable (_ ∧ _ ∧ _))

instance (r : Register) (b : BlockId) : Decidable (r.settledAgainst b) :=
  inferInstanceAs (Decidable (_ ∧ (_ ∨ _)))

/-! ## Transitions -/

/-- A block of the slot was stored. -/
def sawBody (r : Register) : Register :=
  { r with
    status := if r.status = .unknown then .candidate else r.status
    completeness := { r.completeness with blockBodyStored := true } }

/-- A CANDIDATE frame: no effect on a FINAL slot. -/
def sawCandidate (r : Register) (trail : Option String) : Register :=
  if r.status = .final then r
  else
    { r with
      status := .candidate
      trail := readBackTrail (trail.or r.trail)
      completeness := { r.completeness with execOutputCandidate := true } }

/-- Does the node's verdict match the register's? -/
def agreesWith (r : Register) (isMiss : Bool) (block : Option BlockId) : Prop :=
  r.isMiss = isMiss ∧ (r.isMiss = true ∨ block = r.finalBlockId)

instance (r : Register) (isMiss : Bool) (block : Option BlockId) :
    Decidable (r.agreesWith isMiss block) := inferInstanceAs (Decidable (_ ∧ (_ ∨ _)))

/-- Two trail hashes clash when both are known and differ. -/
def Clash (a b : Option String) : Prop := ∃ x y, a = some x ∧ b = some y ∧ x ≠ y

instance (a b : Option String) : Decidable (Clash a b) :=
  decidable_of_iff (∃ x ∈ a, ∃ y ∈ b, x ≠ y) (by simp [Clash])

/-- A FINAL frame: it settles an open slot, and completes a settled one that it agrees with. -/
def sawFinal (r : Register) (isMiss : Bool) (block : Option BlockId)
    (trail : Option String) : Register :=
  if r.status = .final then
    if ¬ Clash r.trail trail ∧ r.agreesWith isMiss block ∧ r.completeness.execOutputFinal = false then
      { r with
        trail := readBackTrail (r.trail.or trail)
        completeness := { r.completeness with execOutputFinal := true } }
    else r
  else
    { status := .final
      isMiss := isMiss
      finalBlockId := block.or r.finalBlockId
      trail := readBackTrail (trail.or r.trail)
      completeness := { r.completeness with execOutputFinal := true } }

/-- The node's transfer list came in. -/
def sawTransfers (r : Register) : Register :=
  { r with completeness := { r.completeness with transfersStored := true } }

/-- A verdict that reaches an open slot through a patch. -/
def promoted (r : Register) (isMiss : Bool) (block : Option BlockId) : Register :=
  { r with
    status := .final
    isMiss := isMiss
    finalBlockId := if isMiss then r.finalBlockId else block.or r.finalBlockId }

/-- A verdict that replaces another: everything derived from the old one is open again. -/
def replaced (isMiss : Bool) (block : Option BlockId) (trail : Option String) : Register where
  status := .final
  isMiss := isMiss
  finalBlockId := if isMiss then none else block
  trail := trail
  completeness := { blockBodyStored := isMiss }

/-- The parts a peer's answer settles. -/
def settleParts (r : Register) (body exec transfers : Bool) : Register :=
  { r with
    completeness := { r.completeness with
      blockBodyStored := r.completeness.blockBodyStored || body
      execOutputFinal := r.completeness.execOutputFinal || exec
      transfersStored := r.completeness.transfersStored || transfers } }

end Register

/-! ## Ledgers -/

namespace Ledger

def blank : Ledger where
  reg _ := .blank
  body _ := none
  head := none

/-- Is the body of `b` held? -/
def holds (L : Ledger) (b : BlockId) : Prop := (L.body b).isSome

def setReg (L : Ledger) (s : Slot) (r : Register) : Ledger :=
  { L with reg := fun t => if t = s then r else L.reg t }

/-- A body is entered once; a second body under the same id is ignored. -/
def addBody (L : Ledger) (s : Shipment) : Ledger :=
  { L with body := fun b => if b = s.id then some ((L.body b).getD s.body) else L.body b }

def receive (L : Ledger) : Option Shipment → Ledger
  | none => L
  | some s => L.addBody s

def moveHead (L : Ledger) (s : Slot) : Ledger := { L with head := some s }

/-- The head moves only to a later slot. -/
def raiseHead (L : Ledger) (s : Slot) : Ledger :=
  match L.head with
  | some prev => if prev.lt s then L.moveHead s else L
  | none => L.moveHead s

@[simp] theorem reg_setReg (L : Ledger) (s t : Slot) (r : Register) :
    (L.setReg s r).reg t = if t = s then r else L.reg t := rfl

@[simp] theorem body_setReg (L : Ledger) (s : Slot) (r : Register) : (L.setReg s r).body = L.body := rfl

@[simp] theorem head_setReg (L : Ledger) (s : Slot) (r : Register) : (L.setReg s r).head = L.head := rfl

@[simp] theorem reg_addBody (L : Ledger) (s : Shipment) : (L.addBody s).reg = L.reg := rfl

@[simp] theorem head_addBody (L : Ledger) (s : Shipment) : (L.addBody s).head = L.head := rfl

@[simp] theorem body_addBody (L : Ledger) (s : Shipment) (b : BlockId) :
    (L.addBody s).body b = if b = s.id then some ((L.body b).getD s.body) else L.body b := rfl

@[simp] theorem reg_receive (L : Ledger) (s : Option Shipment) : (L.receive s).reg = L.reg := by
  cases s <;> rfl

@[simp] theorem head_receive (L : Ledger) (s : Option Shipment) : (L.receive s).head = L.head := by
  cases s <;> rfl

@[simp] theorem reg_moveHead (L : Ledger) (s : Slot) : (L.moveHead s).reg = L.reg := rfl

@[simp] theorem body_moveHead (L : Ledger) (s : Slot) : (L.moveHead s).body = L.body := rfl

@[simp] theorem reg_raiseHead (L : Ledger) (s : Slot) : (L.raiseHead s).reg = L.reg := by
  unfold raiseHead
  split
  · split <;> rfl
  · rfl

@[simp] theorem body_raiseHead (L : Ledger) (s : Slot) : (L.raiseHead s).body = L.body := by
  unfold raiseHead
  split
  · split <;> rfl
  · rfl

theorem body_receive_congr {L M : Ledger} (same : L.body = M.body) (s : Option Shipment) :
    (L.receive s).body = (M.receive s).body := by
  cases s with
  | none => exact same
  | some s =>
      funext b
      simp only [receive, body_addBody, same]

/-- Bodies are never lost. -/
theorem holds_receive_of_holds {L : Ledger} {b : BlockId} (s : Option Shipment) (held : L.holds b) :
    (L.receive s).holds b := by
  cases s with
  | none => exact held
  | some s =>
      unfold holds at held ⊢
      simp only [receive, body_addBody]
      split
      · rfl
      · exact held

end Ledger

end MassaIndexer.Chain
