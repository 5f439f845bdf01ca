/-
# Chain.Rows -- the row an event leaves at its slot

The ledger keeps what verdicts are made of. The rest of a slot's row -- the executed operations, the
event count -- and the rows filed under the slot are read here, event by event: the row is written
once, at the end, and the stub of the parent slot is another slot's.
-/
import MassaIndexer.Chain.Patches
import MassaIndexer.Writer.Effects

namespace MassaIndexer.Chain

open MassaIndexer.Data.Ids MassaIndexer.Data.Model MassaIndexer.Data.Proto MassaIndexer.Data.Codec
open MassaIndexer.Store.ColumnFamilies MassaIndexer.Store.Footprint
open MassaIndexer.Writer.NodeProto MassaIndexer.Writer.NodeDecode
open MassaIndexer.Writer.Shared MassaIndexer.Writer.Handlers MassaIndexer.Writer.Effects
open MassaIndexer.Peer.Patch

set_option autoImplicit false

/-- The parent of a slot is another slot. -/
theorem readSlot_ensureParentStub (db : Db) (s : Slot) (nowMs : Int) :
    (ensureParentStub db s nowMs).readSlot s = db.readSlot s := by
  unfold ensureParentStub
  split
  · rfl
  · next later =>
      dsimp only
      split
      · rfl
      · rw [Db.readSlot_writeSlot, if_neg]
        intro same
        have period : s.period - 1 = s.period := congrArg Slot.period same
        grind

theorem executedOpIds_promote (row : SlotState) (isMiss : Bool) (block : Option BlockId) :
    (promote row isMiss block).executedOpIds = row.executedOpIds := by
  unfold promote
  cases isMiss with
  | true => rfl
  | false =>
      cases block with
      | none => rfl
      | some b => exact SlotState.executedOpIds_addCandidate _ b

variable [Bs58Check] [DenunciationDigest]

/-! ## Legacy patches -/

theorem readSlot_applyLegacyPatch {resp : FinalSlotResponse} {s : Slot}
    (about : slotOf resp = some s) (known : resp.finalKnown = true) (db : Db) (nowMs : Int) :
    (applyLegacyPatch db resp nowMs).1.readSlot s =
      some (readBackSlotState { (legacyParts resp nowMs (legacyVerdict db s
        ((db.readSlot s).getD (SlotState.fresh s nowMs)) resp)).state with
          lastUpdatedTsMs := nowMs }) := by
  have here := (patchingAt_legacyParts
    (patchingAt_legacyVerdict db (slot_getD db s nowMs) resp) resp nowMs).here
  unfold applyLegacyPatch
  rw [about]
  simp only [known, Bool.not_true, Bool.false_eq_true, if_false, readSlot_ensureParentStub,
    Db.readSlot_writeSlot]
  exact if_pos here

omit [DenunciationDigest] in
theorem executedOpIds_legacyVerdict (db : Db) (s : Slot) (row : SlotState)
    (resp : FinalSlotResponse) :
    (legacyVerdict db s row resp).state.executedOpIds = row.executedOpIds := by
  unfold legacyVerdict
  split
  · exact executedOpIds_promote row _ _
  · rfl

/-- The archive's executed list enters a row that has none. -/
theorem executedOpIds_legacyParts (resp : FinalSlotResponse) (nowMs : Int) (p : Patching) :
    (legacyParts resp nowMs p).state.executedOpIds =
      if p.state.executedOpIds.isEmpty && !resp.executedOpIds.isEmpty then
        parseOpIds resp.executedOpIds
      else p.state.executedOpIds := by
  have block : (legacyBlockPart resp nowMs p).state.executedOpIds = p.state.executedOpIds := by
    unfold legacyBlockPart
    split
    · split
      · exact SlotState.executedOpIds_addCandidate _ _
      · rfl
    · rfl
  have miss : (legacyMissFlag resp (legacyBlockPart resp nowMs p)).state.executedOpIds =
      p.state.executedOpIds := by
    unfold legacyMissFlag
    split
    · exact block
    · exact block
  unfold legacyParts legacyTransfers legacyExecutedOps
  rw [miss]
  split
  · rfl
  · exact miss

theorem exists_row_applyLegacyPatch {resp : FinalSlotResponse} {s : Slot}
    (about : slotOf resp = some s) (known : resp.finalKnown = true) (db : Db) (nowMs : Int) :
    ∃ row, (applyLegacyPatch db resp nowMs).1.readSlot s = some row ∧
      row.executedOpIds =
        let old := ((db.readSlot s).getD (SlotState.fresh s nowMs)).executedOpIds
        if old.isEmpty && !resp.executedOpIds.isEmpty then parseOpIds resp.executedOpIds else old := by
  have listed := executedOpIds_legacyParts resp nowMs
    (legacyVerdict db s ((db.readSlot s).getD (SlotState.fresh s nowMs)) resp)
  rw [executedOpIds_legacyVerdict] at listed
  exact ⟨_, readSlot_applyLegacyPatch about known db nowMs, listed⟩

end MassaIndexer.Chain
