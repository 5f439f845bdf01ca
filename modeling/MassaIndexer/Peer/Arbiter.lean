/-
# Peer.Arbiter -- chain-linkage arbitration between two FINAL verdicts

A pure function of the store, the two verdicts and the body the peer shipped: a block on a parent
our rows call not final is dead; else the next FINAL block in the thread names its parent; else a
broken link further ahead betrays a dead fork, and the block it names is the anchor the real chain
continues from.

Periods are machine words. In a release build `period + 1` and `period + 512` wrap, so the forward
range is empty within 512 periods of the largest period and starts again from zero at the largest
itself; the backward bound saturates.
-/
import MassaIndexer.Store.ColumnFamilies
import MassaIndexer.Theory.LinkWalk

namespace MassaIndexer.Peer.Arbiter

open MassaIndexer.Data.Ids MassaIndexer.Data.Model MassaIndexer.Data.Proto
open MassaIndexer.Store.ColumnFamilies

set_option autoImplicit false

/-- FINAL verdict for a slot, as recorded locally or proposed by a peer. -/
inductive Verdict where
  | miss
  | block (id : BlockId)
deriving DecidableEq

namespace Verdict

def ofLocal (state : SlotState) : Option Verdict :=
  if state.isMiss then some .miss else state.finalBlockId.map .block

def ofPeer (resp : FinalSlotResponse) (finalBlockId : Option BlockId) : Option Verdict :=
  if resp.isMiss then some .miss else finalBlockId.map .block

end Verdict

/-- What the arbiter concluded about two competing FINAL verdicts for the same slot. -/
inductive Arbitration where
  | adoptPeer
  | keepLocal
  | inconclusive
deriving DecidableEq

/-- How many periods ahead / behind the disputed slot to look. -/
def linkageLookaround : UInt64 := 512

/-! ## Looking around -/

/-- `lo..=hi`. -/
def rangeInclusive (lo hi : UInt64) : List UInt64 :=
  if lo ≤ hi then (List.range (hi.toNat - lo.toNat + 1)).map fun i => lo + UInt64.ofNat i else []

/-- `(period + 1)..=(period + LINKAGE_LOOKAROUND)`. -/
def aheadPeriods (period : UInt64) : List UInt64 :=
  rangeInclusive (period + 1) (period + linkageLookaround)

/-- `(period.saturating_sub(LINKAGE_LOOKAROUND)..period).rev()`. -/
def behindPeriods (period : UInt64) : List UInt64 :=
  let lo := if period < linkageLookaround then 0 else period - linkageLookaround
  ((List.range (period.toNat - lo.toNat)).map fun i => lo + UInt64.ofNat i).reverse

/-- The block of a FINAL non-miss row: the guard the three scans share. -/
def finalBlockAt (db : Db) (s : Slot) : Option BlockId :=
  (db.readSlot s).bind fun row =>
    if row.status ≠ .final ∨ row.isMiss = true then none else row.finalBlockId

/-- The parent a held block lists for a thread. -/
def parentLink (db : Db) (thread : UInt8) (b : BlockId) : Option BlockId :=
  (db.readBlock b).bind fun block => block.parents[thread.toNat]?

/-- `parents[thread]` of the first FINAL non-miss block after `slot` in the same thread whose body
we hold. -/
def nextParentLink (db : Db) (slot : Slot) : Option BlockId :=
  ((aheadPeriods slot.period).findSome? fun p =>
    (finalBlockAt db ⟨p, slot.thread⟩).bind fun bid =>
      (db.readBlock bid).map fun block => block.parents[slot.thread.toNat]?).join

/-- The last FINAL non-miss block before `slot` in the same thread. -/
def prevFinalBlock (db : Db) (slot : Slot) : Option BlockId :=
  (behindPeriods slot.period).findSome? fun p => finalBlockAt db ⟨p, slot.thread⟩

/-- The forward walk of `dead_fork_anchor`, over the periods still ahead. -/
def anchorWalk (db : Db) (thread : UInt8) : Option BlockId → List UInt64 → Option BlockId
  | _, [] => none
  | prev, p :: ps =>
      match finalBlockAt db ⟨p, thread⟩ with
      | none => anchorWalk db thread prev ps
      | some bid =>
          match parentLink db thread bid with
          | some par => if some par ≠ prev then some par else anchorWalk db thread (some bid) ps
          | none => anchorWalk db thread (some bid) ps

/-- Walk our own FINAL rows and look for a later FINAL block whose parent is not the block our rows
name as the previous one; the parent it names is the anchor. -/
def deadForkAnchor (db : Db) (slot : Slot) (localV : Verdict) : Option BlockId :=
  let prev := match localV with
    | .block b => some b
    | .miss => prevFinalBlock db slot
  anchorWalk db slot.thread prev (aheadPeriods slot.period)

/-- `target` is reachable from `anchor` by following `parents[thread]` through bodies we hold. -/
def reachableViaParents (db : Db) (anchor target : BlockId) (thread : UInt8) : Bool :=
  Theory.LinkWalk.reaches (parentLink db thread) target 64 anchor

/-- A parent whose body we hold sits at a slot our rows settle with a miss or another block. -/
def deadParent (db : Db) (parent : BlockId) : Bool :=
  match db.readBlock parent with
  | none => false
  | some pb =>
      match db.readSlot pb.slot with
      | none => false
      | some row =>
          decide (row.status = .final) && (row.isMiss || decide (row.finalBlockId ≠ some parent))

/-- A FINAL block's parents are FINAL; parents whose body we do not hold are skipped. -/
def blockHasDeadParent (db : Db) (block : StoredBlock) : Bool := block.parents.any (deadParent db)

/-! ## The decision -/

def arbitrateInDeadFork (db : Db) (slot : Slot) (localV peer : Verdict) (anchor : BlockId) :
    Arbitration :=
  match localV, peer with
  | .block _, .miss => .adoptPeer
  | _, .block y =>
      if y = anchor || reachableViaParents db anchor y slot.thread then .adoptPeer
      else .inconclusive
  | .miss, .miss => .keepLocal

/-- What the immediate next block says; `none` when it settles nothing. -/
def immediateVerdict (db : Db) (slot : Slot) (nextParent : BlockId) :
    Verdict → Verdict → Option Arbitration
  | .block x, .block y =>
      if nextParent = y then some .adoptPeer
      else if nextParent = x then some .keepLocal
      else none
  | .miss, .block y => if nextParent = y then some .adoptPeer else none
  | .block x, .miss =>
      if nextParent = x then some .keepLocal
      else if prevFinalBlock db slot = some nextParent then some .adoptPeer
      else none
  | .miss, .miss => some .keepLocal

/-- The peer shipped the body of its block, and that body is dead. -/
def peerBlockDead (db : Db) (peer : Verdict) (peerBlock : Option StoredBlock) : Bool :=
  match peer, peerBlock with
  | .block y, some pb => decide (pb.id = y) && blockHasDeadParent db pb
  | _, _ => false

/-- We hold the body of our block, and it is dead. -/
def localBlockDead (db : Db) : Verdict → Bool
  | .block x => match db.readBlock x with
    | some lb => blockHasDeadParent db lb
    | none => false
  | .miss => false

/-- Decide between a local and a peer FINAL verdict using the parent links of neighbouring FINAL
blocks. -/
def arbitrateVerdicts (db : Db) (slot : Slot) (localV peer : Verdict)
    (peerBlock : Option StoredBlock) : Arbitration :=
  if localV = peer then .keepLocal
  else if peerBlockDead db peer peerBlock then .keepLocal
  else if localBlockDead db localV then .adoptPeer
  else match nextParentLink db slot with
    | none => .inconclusive
    | some nextParent =>
        match immediateVerdict db slot nextParent localV peer with
        | some .keepLocal =>
            -- a consistent immediate link can still be a fork block naming a fork block
            match deadForkAnchor db slot localV with
            | some anchor => arbitrateInDeadFork db slot localV peer anchor
            | none => .keepLocal
        | some a => a
        | none =>
            match deadForkAnchor db slot localV with
            | some anchor => arbitrateInDeadFork db slot localV peer anchor
            | none => .inconclusive

/-! ## What the decision reads -/

/-- Two stores with the same verdicts in their rows and the same links in their bodies. -/
structure SameChain (db db' : Db) : Prop where
  rows : ∀ t, (db.readSlot t).map (fun row => (row.status, row.isMiss, row.finalBlockId)) =
    (db'.readSlot t).map fun row => (row.status, row.isMiss, row.finalBlockId)
  bodies : ∀ b, (db.readBlock b).map (fun block => (block.slot, block.parents)) =
    (db'.readBlock b).map fun block => (block.slot, block.parents)

namespace SameChain

variable {db db' : Db} (same : SameChain db db')

include same

theorem finalBlockAt_eq (t : Slot) : finalBlockAt db t = finalBlockAt db' t := by
  have rows := same.rows t
  unfold finalBlockAt
  cases found : db.readSlot t <;> cases found' : db'.readSlot t <;> simp_all

theorem parentLink_eq (thread : UInt8) : parentLink db thread = parentLink db' thread := by
  funext b
  have bodies := same.bodies b
  unfold parentLink
  cases found : db.readBlock b <;> cases found' : db'.readBlock b <;> simp_all

theorem deadParent_eq : deadParent db = deadParent db' := by
  funext b
  have bodies := same.bodies b
  unfold deadParent
  cases found : db.readBlock b with
  | none => cases found' : db'.readBlock b <;> simp_all
  | some block =>
      cases found' : db'.readBlock b with
      | none => simp_all
      | some block' =>
          simp only [found, found', Option.map_some, Option.some.injEq, Prod.mk.injEq] at bodies
          have rows := same.rows block.slot
          dsimp only
          rw [← bodies.1]
          cases row : db.readSlot block.slot <;> cases row' : db'.readSlot block.slot <;> simp_all

theorem nextParentLink_eq (s : Slot) : nextParentLink db s = nextParentLink db' s := by
  unfold nextParentLink
  congr 2
  funext p
  rw [same.finalBlockAt_eq]
  congr 1
  funext b
  have bodies := same.bodies b
  cases found : db.readBlock b <;> cases found' : db'.readBlock b <;> simp_all

theorem anchorWalk_eq (thread : UInt8) (prev : Option BlockId) (periods : List UInt64) :
    anchorWalk db thread prev periods = anchorWalk db' thread prev periods := by
  induction periods generalizing prev with
  | nil => rfl
  | cons p ps ih =>
      unfold anchorWalk
      rw [same.finalBlockAt_eq, same.parentLink_eq]
      simp only [ih]

theorem prevFinalBlock_eq (s : Slot) : prevFinalBlock db s = prevFinalBlock db' s := by
  unfold prevFinalBlock
  congr 1
  funext p
  exact same.finalBlockAt_eq _

theorem localBlockDead_eq (v : Verdict) : localBlockDead db v = localBlockDead db' v := by
  unfold localBlockDead blockHasDeadParent
  rw [same.deadParent_eq]
  cases v with
  | miss => rfl
  | block b =>
      have bodies := same.bodies b
      cases found : db.readBlock b <;> cases found' : db'.readBlock b <;> simp_all

/-- **Two such stores decide alike.** -/
theorem arbitrateVerdicts_eq (s : Slot) (l p : Verdict) (shipped : Option StoredBlock) :
    arbitrateVerdicts db s l p shipped = arbitrateVerdicts db' s l p shipped := by
  have dead : peerBlockDead db p shipped = peerBlockDead db' p shipped := by
    unfold peerBlockDead blockHasDeadParent
    rw [same.deadParent_eq]
  have immediate : immediateVerdict db s = immediateVerdict db' s := by
    funext b l p
    unfold immediateVerdict
    rw [same.prevFinalBlock_eq]
  have anchor : deadForkAnchor db s l = deadForkAnchor db' s l := by
    unfold deadForkAnchor
    rw [same.prevFinalBlock_eq, same.anchorWalk_eq]
  have inFork : arbitrateInDeadFork db = arbitrateInDeadFork db' := by
    funext s l p a
    unfold arbitrateInDeadFork reachableViaParents
    rw [same.parentLink_eq]
  unfold arbitrateVerdicts
  rw [dead, same.localBlockDead_eq, same.nextParentLink_eq, immediate, anchor, inFork]

end SameChain

end MassaIndexer.Peer.Arbiter
