/-
# Laws.AuthoritativeTransfers -- the archive and the transfers already delivered

Once the node or a peer has delivered a slot's transfers, what the archive says about them should not
matter any more. The importer skips slots that have their transfers, but it looks before its patch is
queued; the patch itself files every row it carries. `Redundant` is what such a patch must be to do no
harm.
-/
import MassaIndexer.Writer.Moves
import MassaIndexer.Chain.Snapshot

namespace MassaIndexer.Laws.AuthoritativeTransfers

open MassaIndexer.Theory.Runs
open MassaIndexer.Data.Ids MassaIndexer.Data.Model MassaIndexer.Data.Proto MassaIndexer.Data.RowCodec
open MassaIndexer.Store.ColumnFamilies MassaIndexer.Store.SlotRows
open MassaIndexer.Writer MassaIndexer.Writer.NodeProto MassaIndexer.Writer.NodeDecode
open MassaIndexer.Writer.Shared MassaIndexer.Writer.Step MassaIndexer.Writer.Families
open MassaIndexer.Writer.Patches MassaIndexer.Writer.Moves MassaIndexer.Peer.Patch
open MassaIndexer.Peer.Arbiter MassaIndexer.Chain

set_option autoImplicit false

section Writers

variable [Bs58Check]

/-- The event brings in the transfers of `s`: the node's list, or a peer's whose transfers are applied. -/
def Delivers (s : Slot) (db : Db) (e : Timed) : Prop :=
  match e.event with
  | .transfers resp => ∃ pb, resp.slot = some pb ∧ NodeDecode.slotFromPb pb = s
  | .peerPatch resp => slotOf resp = some s ∧ resp.finalKnown = true ∧
      ∃ p, reconcileVerdict db s (rowAt db s e.nowMs) resp = .proceed p ∧
        takesTransfers resp p.state = true
  | _ => False

/-- A patch of the archive for `s`. -/
def FromArchive (s : Slot) (e : Timed) : Prop :=
  ∃ resp, e.event = .legacyPatch resp ∧ slotOf resp = some s

/-- Every row of the slot that the patch would file is there already, its index entries included. -/
def Redundant (s : Slot) (db : Db) (e : Timed) : Prop :=
  ∀ resp, e.event = .legacyPatch resp → resp.finalKnown = true →
    Known transferFiling (filedTransfers db) (decodedTransfers resp) s

variable [DenunciationDigest]

theorem sameAt_archive_iff {s : Slot} {e : Timed} (archive : FromArchive s e) (db : Db) :
    SameAt transferFiling (filedTransfers db) (filedTransfers (step db e)) s ↔ Redundant s db e := by
  obtain ⟨event, nowMs⟩ := e
  obtain ⟨resp, rfl, about⟩ := archive
  rw [filedTransfers_step]
  cases known : resp.finalKnown with
  | false =>
      have quiet : transferMove db ⟨.legacyPatch resp, nowMs⟩ = {} := by simp [transferMove, known]
      rw [quiet]
      refine iff_of_true ⟨fun _ => rfl, fun _ _ _ => Iff.rfl⟩ ?_
      rintro _ ⟨⟩ known'
      exact absurd (known.symm.trans known') (by decide)
  | true =>
      have move : transferMove db ⟨.legacyPatch resp, nowMs⟩ = ⟨none, decodedTransfers resp⟩ := by
        simp [transferMove, known, about]
      have kept : (none : Option Slot) ≠ some s := fun cleared => by cases cleared
      rw [move, sameAt_run_iff kept]
      constructor
      · rintro there _ ⟨⟩ -
        exact there
      · exact fun redundant => redundant resp rfl known

/-- **When delivered transfers stand against the archive.** Started from any store, no patch of the
archive that comes after a delivery of the slot's transfers changes its rows or their index entries --
exactly when every such patch is redundant where it is taken. -/
theorem delivered_transfers_stand_iff (db : Db) (s : Slot) (events : List Timed) :
    (∀ before d between e after, events = before ++ d :: between ++ e :: after →
        Delivers s (run step db before) d → FromArchive s e →
        SameAt transferFiling (filedTransfers (run step db (before ++ d :: between)))
          (filedTransfers (step (run step db (before ++ d :: between)) e)) s) ↔
      ∀ before d between e after, events = before ++ d :: between ++ e :: after →
        Delivers s (run step db before) d → FromArchive s e →
        Redundant s (run step db (before ++ d :: between)) e := by
  constructor
  · intro stand before d between e after whole delivered archive
    exact (sameAt_archive_iff archive _).mp (stand before d between e after whole delivered archive)
  · intro redundant before d between e after whole delivered archive
    exact (sameAt_archive_iff archive _).mpr
      (redundant before d between e after whole delivered archive)

end Writers

/-! ## A patch that waited -/

section Waited

attribute [local instance] Bs58Check.doubleSha noDenunciations

/-- The node's one transfer of slot (10, 0). -/
def nodeList : NewTransfersInfoServerResponse where
  slot := some ⟨10, 0⟩
  transfersInfo := [{ id := "T1", value := some (some (.coins ⟨1, 0⟩)) }]

def nodeRow : StoredTransfer := transferRow nodeList ⟨10, 0⟩ 0 0 (nodeList.transfersInfo.headD {})

/-- The archive's transfer of the slot, under an id of its own. -/
def archiveRow : StoredTransfer := { nodeRow with id := "O1:0" }

def archivePatch : FinalSlotResponse :=
  { answerOf ⟨10, 0⟩ .miss none with transfers := [transferToPeerPb archiveRow] }

/-- **The archive's row replaces the node's.** -/
theorem delivered_transfers_replaced : ¬ ∀ (db : Db) (s : Slot) (before between : List Timed)
    (d e : Timed), Delivers s (run step db before) d → FromArchive s e →
      SameAt transferFiling (filedTransfers (run step db (before ++ d :: between)))
        (filedTransfers (step (run step db (before ++ d :: between)) e)) s := by
  intro stand
  have slot : slotOf archivePatch = some ⟨10, 0⟩ := slotOf_answerOf ⟨10, 0⟩ .miss none
  have same := (stand Db.empty ⟨10, 0⟩ [] [] ⟨.transfers nodeList, 0⟩ ⟨.legacyPatch archivePatch, 0⟩
    ⟨_, rfl, rfl⟩ ⟨archivePatch, rfl, slot⟩).rows 0
  have rows : decodedTransfers archivePatch = [readBackTransfer archiveRow] := by
    simp [decodedTransfers, archivePatch, transferFromPeerPb_toPeerPb, Except.toOption]
  have move : transferMove (run step Db.empty ([] ++ [⟨.transfers nodeList, 0⟩]))
      ⟨.legacyPatch archivePatch, 0⟩ = ⟨none, [readBackTransfer archiveRow]⟩ := by
    have known : archivePatch.finalKnown = true := rfl
    simp [transferMove, slot, known, rows]
  have before : (filedTransfers (run step Db.empty ([] ++ [⟨.transfers nodeList, 0⟩]))).row ⟨10, 0⟩ 0 =
      some (readBackTransfer nodeRow) := by
    rw [List.nil_append, run_cons, run_nil, filedTransfers_step, row_run]
    rfl
  have after : last transferFiling [readBackTransfer archiveRow] ⟨10, 0⟩ 0 =
      some (readBackTransfer archiveRow) := rfl
  rw [before, filedTransfers_step, move, row_run, after] at same
  have ids := congrArg (Option.map (·.id)) same
  exact absurd (Option.some.inj ids) (by decide)

end Waited

end MassaIndexer.Laws.AuthoritativeTransfers
