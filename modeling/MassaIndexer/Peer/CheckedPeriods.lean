/-
# Peer.CheckedPeriods -- patch application with its period arithmetic checked

A release build wraps where a period runs over; a build with overflow checks stops there. The
definitions of this module are those of `Peer.Arbiter` and `Peer.Patch` in the second reading: `none` is
an addition or a subtraction on periods that left the 64 bits. Only three places compute periods by
plain arithmetic, the two forward lookarounds and the parent stub; the backward lookaround saturates and
is the same in both.
-/
import MassaIndexer.Peer.Patch

namespace MassaIndexer.Peer.CheckedPeriods

open MassaIndexer.Data.Ids MassaIndexer.Data.Model MassaIndexer.Data.Proto
open MassaIndexer.Store.ColumnFamilies MassaIndexer.Writer.Shared
open MassaIndexer.Peer.Arbiter MassaIndexer.Peer.Patch

set_option autoImplicit false

/-! ## Words -/

def checkedAdd (a b : UInt64) : Option UInt64 :=
  if a.toNat + b.toNat < UInt64.size then some (a + b) else none

def checkedSub (a b : UInt64) : Option UInt64 := if b ≤ a then some (a - b) else none

/-! ## The arbiter -/

/-- `(period + 1)..=(period + LINKAGE_LOOKAROUND)`. -/
def checkedAheadPeriods (period : UInt64) : Option (List UInt64) :=
  (checkedAdd period 1).bind fun lo =>
    (checkedAdd period linkageLookaround).map fun hi => rangeInclusive lo hi

def checkedNextParentLink (db : Db) (slot : Slot) : Option (Option BlockId) :=
  (checkedAheadPeriods slot.period).map fun periods =>
    (periods.findSome? fun p =>
      (finalBlockAt db ⟨p, slot.thread⟩).bind fun bid =>
        (db.readBlock bid).map fun block => block.parents[slot.thread.toNat]?).join

def checkedDeadForkAnchor (db : Db) (slot : Slot) (localV : Verdict) : Option (Option BlockId) :=
  let prev := match localV with
    | .block b => some b
    | .miss => prevFinalBlock db slot
  (checkedAheadPeriods slot.period).map (anchorWalk db slot.thread prev)

def checkedArbitrate (db : Db) (slot : Slot) (localV peer : Verdict)
    (peerBlock : Option StoredBlock) : Option Arbitration :=
  if localV = peer then some .keepLocal
  else if peerBlockDead db peer peerBlock then some .keepLocal
  else if localBlockDead db localV then some .adoptPeer
  else (checkedNextParentLink db slot).bind fun link =>
    match link with
    | none => some .inconclusive
    | some nextParent =>
        match immediateVerdict db slot nextParent localV peer with
        | some .keepLocal =>
            (checkedDeadForkAnchor db slot localV).map fun broken =>
              match broken with
              | some anchor => arbitrateInDeadFork db slot localV peer anchor
              | none => .keepLocal
        | some a => some a
        | none =>
            (checkedDeadForkAnchor db slot localV).map fun broken =>
              match broken with
              | some anchor => arbitrateInDeadFork db slot localV peer anchor
              | none => .inconclusive

/-! ## The patches -/

def checkedParentStub (db : Db) (slot : Slot) (nowMs : Int) : Option Db :=
  if slot.period = 0 then some db
  else (checkedSub slot.period 1).map fun period =>
    let parent : Slot := ⟨period, slot.thread⟩
    if (db.readSlot parent).isSome then db else db.writeSlot (SlotState.fresh parent nowMs)

section Patches

variable [Bs58Check]

def checkedReconcile (db : Db) (slot : Slot) (state : SlotState) (resp : FinalSlotResponse) :
    Option Reconciled :=
  let trail := peerTrail resp
  let finalBlockId := parseFinalBlockId resp
  if state.status ≠ .final then
    let promoted := promote { state with executionTrailHash := trail.or state.executionTrailHash }
      resp.isMiss finalBlockId
    some (.proceed { db := advanceHead db slot, state := promoted, out := { becameFinal := true } })
  else
    match Verdict.ofLocal state, Verdict.ofPeer resp finalBlockId with
    | some localV, some peerV =>
        if localV ≠ peerV then
          (checkedArbitrate db slot localV peerV (shippedBlock resp)).map fun arbitration =>
            match arbitration with
            | .adoptPeer =>
                let (db, state) := adoptPeerVerdict db state resp finalBlockId trail
                .proceed { db := db, state := state, out := { divergenceRepaired := true } }
            | _ =>
                .turnedAway
                  { divergenceKeptLocal := true
                    trailMismatch := trailsDiffer state.executionTrailHash trail }
        else some (reconcileTrail db state trail)
    | _, _ => some (reconcileTrail db state trail)

variable [DenunciationDigest]

def checkedPeerPatch (db : Db) (resp : FinalSlotResponse) (nowMs : Int) :
    Option (Db × PatchOutcome) :=
  match slotOf resp with
  | none => some (db, {})
  | some slot =>
      if !resp.finalKnown then some (db, { empty := true })
      else
        let state := (db.readSlot slot).getD (SlotState.fresh slot nowMs)
        (checkedReconcile db slot state resp).bind fun reconciled =>
          match reconciled with
          | .turnedAway out => some (db.writeSlot { state with lastUpdatedTsMs := nowMs }, out)
          | .proceed p =>
              let p := peerParts slot resp nowMs p
              let db := applyFinalityToBlocks p.db p.state.finalBlockId p.state.candidateBlockIds
              let db := db.writeSlot { p.state with lastUpdatedTsMs := nowMs }
              (checkedParentStub db slot nowMs).map fun db => (db, p.out)

def checkedLegacyPatch (db : Db) (resp : FinalSlotResponse) (nowMs : Int) :
    Option (Db × PatchOutcome) :=
  match slotOf resp with
  | none => some (db, {})
  | some slot =>
      if !resp.finalKnown then some (db, { empty := true })
      else
        let state := (db.readSlot slot).getD (SlotState.fresh slot nowMs)
        let p := legacyParts resp nowMs (legacyVerdict db slot state resp)
        let db := (legacyFinality p).writeSlot { p.state with lastUpdatedTsMs := nowMs }
        (checkedParentStub db slot nowMs).map fun db => (db, p.out)

end Patches

/-! ## Where both readings agree -/

/-- The forward lookaround stays within the 64 bits. -/
def Fits (period : UInt64) : Prop := period.toNat + 512 < UInt64.size

instance (period : UInt64) : Decidable (Fits period) := Nat.decLt _ _

theorem checkedAheadPeriods_eq (period : UInt64) :
    checkedAheadPeriods period = if Fits period then some (aheadPeriods period) else none := by
  have one : (1 : UInt64).toNat = 1 := rfl
  have around : linkageLookaround.toNat = 512 := rfl
  unfold checkedAheadPeriods checkedAdd
  rw [one, around]
  by_cases fits : Fits period
  · have near : period.toNat + 1 < UInt64.size := by
      unfold Fits at fits
      omega
    have fits' : period.toNat + 512 < UInt64.size := fits
    rw [if_pos near, Option.bind_some, if_pos fits', if_pos fits, Option.map_some, aheadPeriods]
  · have leaves : ¬ period.toNat + 512 < UInt64.size := fits
    rw [if_neg leaves, if_neg fits]
    split
    · rw [Option.bind_some, Option.map_none]
    · rw [Option.bind_none]

theorem checkedNextParentLink_eq (db : Db) (slot : Slot) :
    checkedNextParentLink db slot =
      if Fits slot.period then some (nextParentLink db slot) else none := by
  rw [checkedNextParentLink, checkedAheadPeriods_eq]
  split
  · rw [Option.map_some, nextParentLink]
  · rw [Option.map_none]

theorem checkedDeadForkAnchor_eq (db : Db) (slot : Slot) (localV : Verdict) :
    checkedDeadForkAnchor db slot localV =
      if Fits slot.period then some (deadForkAnchor db slot localV) else none := by
  unfold checkedDeadForkAnchor deadForkAnchor
  rw [checkedAheadPeriods_eq]
  by_cases fits : Fits slot.period
  · rw [if_pos fits, if_pos fits]
    exact Option.map_some _ _
  · rw [if_neg fits, if_neg fits]
    exact Option.map_none _

/-- The links are asked only about two different verdicts that no dead parent settles. -/
def AsksLinks (db : Db) (localV peer : Verdict) (peerBlock : Option StoredBlock) : Prop :=
  localV ≠ peer ∧ peerBlockDead db peer peerBlock = false ∧ localBlockDead db localV = false

theorem checkedArbitrate_of_fits {slot : Slot} (fits : Fits slot.period) (db : Db)
    (localV peer : Verdict) (peerBlock : Option StoredBlock) :
    checkedArbitrate db slot localV peer peerBlock =
      some (arbitrateVerdicts db slot localV peer peerBlock) := by
  unfold checkedArbitrate arbitrateVerdicts
  rw [checkedNextParentLink_eq, checkedDeadForkAnchor_eq, if_pos fits, if_pos fits]
  split
  · rfl
  · split
    · rfl
    · split
      · rfl
      · rw [Option.bind_some]
        cases nextParentLink db slot with
        | none => rfl
        | some nextParent =>
            dsimp only
            cases immediateVerdict db slot nextParent localV peer with
            | none => exact Option.map_some _ _
            | some arbitration =>
                cases arbitration with
                | keepLocal => exact Option.map_some _ _
                | adoptPeer => rfl
                | inconclusive => rfl

theorem checkedArbitrate_of_settled {db : Db} {localV peer : Verdict}
    {peerBlock : Option StoredBlock} (settled : ¬ AsksLinks db localV peer peerBlock) (slot : Slot) :
    checkedArbitrate db slot localV peer peerBlock =
      some (arbitrateVerdicts db slot localV peer peerBlock) := by
  unfold checkedArbitrate arbitrateVerdicts
  split
  · rfl
  · next differ =>
      split
      · rfl
      · next alive =>
          split
          · rfl
          · next alive' =>
              refine absurd ⟨differ, ?_, ?_⟩ settled
              · exact Bool.not_eq_true _ ▸ alive
              · exact Bool.not_eq_true _ ▸ alive'

/-- Left to the links, a dispute too far up is one the checked arbiter does not survive. -/
theorem checkedArbitrate_eq_none {db : Db} {slot : Slot} {localV peer : Verdict}
    {peerBlock : Option StoredBlock} (asks : AsksLinks db localV peer peerBlock)
    (leaves : ¬ Fits slot.period) : checkedArbitrate db slot localV peer peerBlock = none := by
  obtain ⟨differ, alive, alive'⟩ := asks
  unfold checkedArbitrate
  rw [if_neg differ, alive, alive', checkedNextParentLink_eq, if_neg leaves]
  rfl

theorem checkedParentStub_eq (db : Db) (slot : Slot) (nowMs : Int) :
    checkedParentStub db slot nowMs = some (ensureParentStub db slot nowMs) := by
  unfold checkedParentStub ensureParentStub
  split
  · rfl
  · next later =>
      have positive : 1 ≤ slot.period := by
        have one : (1 : UInt64).toNat = 1 := rfl
        have zero : (0 : UInt64).toNat = 0 := rfl
        rw [UInt64.le_iff_toNat_le, one]
        rw [← UInt64.toNat_inj, zero] at later
        omega
      rw [checkedSub, if_pos positive]
      rfl

end MassaIndexer.Peer.CheckedPeriods
