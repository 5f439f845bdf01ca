/-
# Laws.PatchScope -- a patch and the other slots

A patch is about one slot. Its slot row, flags and clearing go by the header of the response; the
events, transfers and the block it ships are filed where they themselves say. The rows of other slots
are left alone (`slotsScoped_*`); events, transfers and blocks are when the response carries none for
another slot, or only what is there.
-/
import MassaIndexer.Writer.RowBlocks
import MassaIndexer.Chain.Snapshot

namespace MassaIndexer.Laws.PatchScope

open MassaIndexer.Theory.Footprint
open MassaIndexer.Data.Ids MassaIndexer.Data.Model MassaIndexer.Data.Proto MassaIndexer.Data.Codec
open MassaIndexer.Data.RowCodec
open MassaIndexer.Store.ColumnFamilies MassaIndexer.Store.Footprint MassaIndexer.Store.SlotRows
open MassaIndexer.Writer MassaIndexer.Writer.NodeProto MassaIndexer.Writer.NodeDecode
open MassaIndexer.Writer.Shared MassaIndexer.Writer.Step
open MassaIndexer.Writer.Families MassaIndexer.Writer.Patches MassaIndexer.Writer.Moves
open MassaIndexer.Writer.RowMoves MassaIndexer.Writer.BlockMoves MassaIndexer.Writer.RowBlocks
open MassaIndexer.Peer.Patch MassaIndexer.Chain

set_option autoImplicit false

section Writers

variable [Bs58Check]

/-! ## Scope -/

/-- Nothing but slot `s` is concerned. -/
structure ScopedTo (s : Slot) (nowMs : Int) (db db' : Db) : Prop where
  slots : ∀ u, u ≠ s → db'.readSlot u = db.readSlot u ∨
    s.period ≠ 0 ∧ u = parentOf s ∧ db.readSlot u = none ∧
      db'.readSlot u = some (SlotState.fresh u nowMs)
  events : ∀ u, u ≠ s → SameAt eventFiling (filedEvents db) (filedEvents db') u
  transfers : ∀ u, u ≠ s → SameAt transferFiling (filedTransfers db) (filedTransfers db') u
  blocks : ∀ b ∈ blocksOf (rowAt db' s nowMs), b ∉ blocksOf (rowAt db s nowMs) →
    ∀ block, db'.readBlock b = some block → block.slot = s

/-- A response that names no slot changes nothing; any other concerns its slot alone. -/
def PatchScoped (resp : FinalSlotResponse) (nowMs : Int) (db db' : Db) : Prop :=
  match slotOf resp with
  | none => db' = db
  | some s => ScopedTo s nowMs db db'

def incoming (db : Db) (s : Slot) (e : Timed) : List BlockId :=
  match e.event with
  | .peerPatch resp =>
      if resp.finalKnown then
        peerIncoming resp (reconcileVerdict db s (rowAt db s e.nowMs) resp)
      else []
  | .legacyPatch resp => if resp.finalKnown then legacyIncoming resp (rowAt db s e.nowMs) else []
  | _ => []

/-- The slot of a block, as the body we hold says, or else the one that is shipped. -/
def bodySlot (db : Db) (shipped : Option StoredBlock) (b : BlockId) : Option Slot :=
  ((db.readBlock b).or (shipped.filter (·.id = b))).map (·.slot)

/-- What a patch carries for another slot is there already, and the blocks it brings to its row are
blocks of the slot where their bodies are known. -/
structure InScope (db : Db) (s : Slot) (e : Timed) : Prop where
  events : ∀ u, u ≠ s → Known eventFiling (filedEvents db) (eventMove db e).rows u
  transfers : ∀ u, u ≠ s → Known transferFiling (filedTransfers db) (transferMove db e).rows u
  blocks : ∀ b ∈ incoming db s e, b ∉ blocksOf (rowAt db s e.nowMs) →
    ∀ t, bodySlot db (blockMove db e).store b = some t → t = s

theorem slot_settledTo (status : Option BlockStatus) (block : StoredBlock) :
    (settledTo status block).slot = block.slot := by
  cases status <;> rfl

theorem slot_rowOf {m : BlockMove} (seen : m.seen = none) (db : Db) (b : BlockId) :
    (m.rowOf b (db.readBlock b)).map (·.slot) = bodySlot db m.store b := by
  have settled : ∀ (status : Option BlockStatus) (old : Option StoredBlock),
      (old.map (settledTo status)).map (·.slot) = old.map (·.slot) := fun status old => by
    rw [Option.map_map]
    exact congrArg (Option.map · old) (funext fun block => slot_settledTo status block)
  unfold BlockMove.rowOf bodySlot
  dsimp only
  rw [settled, seen, Option.filter_none, Option.none_or]
  cases db.readBlock b with
  | none => rfl
  | some block =>
      simp only [Option.map_some, Option.some_or]
      rw [slot_settledTo]

variable [DenunciationDigest]

/-! ## A patch and its slot -/

/-- What both kinds of patch have in common, once they name a slot. -/
structure PatchAt (s : Slot) (db : Db) (e : Timed) : Prop where
  row : ∀ m, rowMove db e = some m → m.row.slot = s
  events : ∀ u, u ≠ s → (eventMove db e).cleared ≠ some u
  transfers : ∀ u, u ≠ s → (transferMove db e).cleared ≠ some u
  seen : (blockMove db e).seen = none
  blocks : ∀ b, (b ∈ blocksOf (rowAt (step db e) s e.nowMs) ∧ b ∉ blocksOf (rowAt db s e.nowMs)) ↔
    b ∈ incoming db s e ∧ b ∉ blocksOf (rowAt db s e.nowMs)

theorem blocksOf_rowAt_step {db : Db} {e : Timed} {s : Slot} {m : RowMove}
    (moved : rowMove db e = some m) (here : m.row.slot = s) :
    blocksOf (rowAt (step db e) s e.nowMs) = blocksOf m.row := by
  have row := readSlot_step db e s
  rw [moved] at row
  dsimp only at row
  rw [if_pos here] at row
  rw [rowAt, row]
  rfl

theorem rowAt_step_of_none {db : Db} {e : Timed} (unmoved : rowMove db e = none) (s : Slot) :
    rowAt (step db e) s e.nowMs = rowAt db s e.nowMs := by
  have row := readSlot_step db e s
  rw [unmoved] at row
  rw [rowAt, row, rowAt]

theorem peer_patchAt {resp : FinalSlotResponse} {s : Slot} (about : slotOf resp = some s) (db : Db)
    (nowMs : Int) : PatchAt s db ⟨.peerPatch resp, nowMs⟩ := by
  cases known : resp.finalKnown with
  | false =>
      have row : rowMove db ⟨.peerPatch resp, nowMs⟩ = none := by simp [rowMove, known]
      have events : eventMove db ⟨.peerPatch resp, nowMs⟩ = {} := by simp [eventMove, known]
      have transfers : transferMove db ⟨.peerPatch resp, nowMs⟩ = {} := by simp [transferMove, known]
      refine ⟨fun m moved => ?_, fun u _ => ?_, fun u _ => ?_, ?_, fun b => ?_⟩
      · cases row.symm.trans moved
      · rw [events]
        intro cleared
        cases cleared
      · rw [transfers]
        intro cleared
        cases cleared
      · simp [blockMove, known]
      · have same := rowAt_step_of_none row s
        dsimp only at same
        rw [same]
        simp [incoming, known]
  | true =>
      have row : rowMove db ⟨.peerPatch resp, nowMs⟩ = some (peerMove (rowAt db s nowMs) resp nowMs
          (reconcileVerdict db s (rowAt db s nowMs) resp)) := by simp [rowMove, known, about]
      have events : eventMove db ⟨.peerPatch resp, nowMs⟩ =
          peerEventMove s resp (reconcileVerdict db s (rowAt db s nowMs) resp) := by
        simp [eventMove, known, about]
      have transfers : transferMove db ⟨.peerPatch resp, nowMs⟩ =
          peerTransferMove s resp (reconcileVerdict db s (rowAt db s nowMs) resp) := by
        simp [transferMove, known, about]
      have slot : (peerMove (rowAt db s nowMs) resp nowMs
          (reconcileVerdict db s (rowAt db s nowMs) resp)).row.slot = s := by
        have here := slot_rowAt db s nowMs
        cases taken : reconcileVerdict db s (rowAt db s nowMs) resp with
        | turnedAway out => exact here
        | proceed p =>
            exact (slot_peerRow resp p.state).trans
              ((slot_proceeds (proceeds_of_reconcileVerdict taken)).trans here)
      refine ⟨fun m moved => ?_, fun u other => ?_, fun u other => ?_, ?_, fun b => ?_⟩
      · obtain rfl := Option.some.inj (row.symm.trans moved)
        exact slot
      · rw [events]
        cases reconcileVerdict db s (rowAt db s nowMs) resp with
        | turnedAway out => exact fun cleared => by cases cleared
        | proceed p =>
            rw [peerEventMove]
            split
            · exact fun cleared => other (Option.some.inj cleared).symm
            · split
              · exact fun cleared => other (Option.some.inj cleared).symm
              · intro cleared
                cases cleared
      · rw [transfers]
        cases reconcileVerdict db s (rowAt db s nowMs) resp with
        | turnedAway out => exact fun cleared => by cases cleared
        | proceed p =>
            rw [peerTransferMove]
            split
            · exact fun cleared => other (Option.some.inj cleared).symm
            · split
              · exact fun cleared => other (Option.some.inj cleared).symm
              · intro cleared
                cases cleared
      · simp only [blockMove, known, about, if_true, Option.elim_some]
        cases reconcileVerdict db s (rowAt db s nowMs) resp <;> rfl
      · rw [blocksOf_rowAt_step row slot]
        simp only [incoming, known, if_true]
        cases taken : reconcileVerdict db s (rowAt db s nowMs) resp with
        | turnedAway out =>
            simp only [peerMove, peerIncoming, List.not_mem_nil, false_and, iff_false, not_and, not_not]
            exact id
        | proceed p => exact mem_blocksOf_peer (proceeds_of_reconcileVerdict taken) b

theorem legacy_patchAt {resp : FinalSlotResponse} {s : Slot} (about : slotOf resp = some s) (db : Db)
    (nowMs : Int) : PatchAt s db ⟨.legacyPatch resp, nowMs⟩ := by
  have uncleared : ∀ u : Slot, (none : Option Slot) ≠ some u := fun u cleared => by cases cleared
  cases known : resp.finalKnown with
  | false =>
      have row : rowMove db ⟨.legacyPatch resp, nowMs⟩ = none := by simp [rowMove, known]
      have transfers : transferMove db ⟨.legacyPatch resp, nowMs⟩ = {} := by simp [transferMove, known]
      refine ⟨fun m moved => ?_, fun u _ => uncleared u, fun u _ => ?_, ?_, fun b => ?_⟩
      · cases row.symm.trans moved
      · rw [transfers]
        exact uncleared u
      · simp [blockMove, known]
      · have same := rowAt_step_of_none row s
        dsimp only at same
        rw [same]
        simp [incoming, known]
  | true =>
      have row : rowMove db ⟨.legacyPatch resp, nowMs⟩ =
          some ⟨{ legacyRow resp (legacyPromoted resp (rowAt db s nowMs)) with
            lastUpdatedTsMs := nowMs }, true⟩ := by simp [rowMove, known, about]
      have transfers : transferMove db ⟨.legacyPatch resp, nowMs⟩ = ⟨none, decodedTransfers resp⟩ := by
        simp [transferMove, known, about]
      have slot : (legacyRow resp (legacyPromoted resp (rowAt db s nowMs))).slot = s :=
        (slot_legacyRow resp _).trans (slot_rowAt db s nowMs)
      refine ⟨fun m moved => ?_, fun u _ => uncleared u, fun u _ => ?_, ?_, fun b => ?_⟩
      · obtain rfl := Option.some.inj (row.symm.trans moved)
        exact slot
      · rw [transfers]
        exact uncleared u
      · simp only [blockMove, known, about, if_true, Option.elim_some]
        rfl
      · rw [blocksOf_rowAt_step row slot]
        simp only [incoming, known, if_true]
        exact mem_blocksOf_legacy resp (rowAt db s nowMs) b

theorem scopedTo_iff {s : Slot} {db : Db} {e : Timed} (patch : PatchAt s db e) :
    ScopedTo s e.nowMs db (step db e) ↔ InScope db s e := by
  have slots : ∀ u, u ≠ s → (step db e).readSlot u = db.readSlot u ∨
      s.period ≠ 0 ∧ u = parentOf s ∧ db.readSlot u = none ∧
        (step db e).readSlot u = some (SlotState.fresh u e.nowMs) := by
    intro u other
    have row := readSlot_step db e u
    cases moved : rowMove db e with
    | none =>
        rw [moved] at row
        exact .inl row
    | some m =>
        have here := patch.row m moved
        rw [moved] at row
        dsimp only at row
        rw [if_neg (by rw [here]; exact other.symm)] at row
        split at row
        · next stubs =>
            cases found : db.readSlot u with
            | some old =>
                rw [found] at row
                exact .inl row
            | none =>
                rw [found] at row
                obtain ⟨-, later, parent⟩ := stubs
                rw [here] at later parent
                exact .inr ⟨later, parent, rfl, row⟩
        · exact .inl row
  have body : ∀ b t, (∃ block, (step db e).readBlock b = some block ∧ block.slot = t) ↔
      bodySlot db (blockMove db e).store b = some t := by
    intro b t
    rw [readBlock_step, ← slot_rowOf patch.seen db b, Option.map_eq_some_iff]
  constructor
  · intro keep
    refine ⟨fun u other => ?_, fun u other => ?_, fun b came absent t slot => ?_⟩
    · have same := keep.events u other
      rw [filedEvents_step] at same
      exact (sameAt_run_iff (patch.events u other)).mp same
    · have same := keep.transfers u other
      rw [filedTransfers_step] at same
      exact (sameAt_run_iff (patch.transfers u other)).mp same
    · obtain ⟨block, found, rfl⟩ := (body b t).mpr slot
      exact keep.blocks b ((patch.blocks b).mpr ⟨came, absent⟩).1 absent block found
  · intro inScope
    refine ⟨slots, fun u other => ?_, fun u other => ?_, fun b named absent block found => ?_⟩
    · rw [filedEvents_step]
      exact (sameAt_run_iff (patch.events u other)).mpr (inScope.events u other)
    · rw [filedTransfers_step]
      exact (sameAt_run_iff (patch.transfers u other)).mpr (inScope.transfers u other)
    · have came := ((patch.blocks b).mp ⟨named, absent⟩).1
      exact inScope.blocks b came absent block.slot ((body b _).mp ⟨block, found, rfl⟩)

/-- **When a patch keeps to its slot.** A peer's answer, and an answer of the archive, changes nothing
of other slots and brings only blocks of its own -- exactly when all it carries for another slot is
there already, and every block it names or ships is one of the slot as far as bodies are known. -/
theorem patches_scoped_iff (db : Db) (resp : FinalSlotResponse) (nowMs : Int) :
    (PatchScoped resp nowMs db (applyPeerPatch db resp nowMs).1 ↔
        ∀ s, slotOf resp = some s → InScope db s ⟨.peerPatch resp, nowMs⟩) ∧
      (PatchScoped resp nowMs db (applyLegacyPatch db resp nowMs).1 ↔
        ∀ s, slotOf resp = some s → InScope db s ⟨.legacyPatch resp, nowMs⟩) := by
  unfold PatchScoped
  cases about : slotOf resp with
  | none =>
      constructor
      · refine iff_of_true ?_ fun s named => by cases named
        dsimp only
        rw [applyPeerPatch, about]
      · refine iff_of_true ?_ fun s named => by cases named
        dsimp only
        rw [applyLegacyPatch, about]
  | some s =>
      have only : ∀ P : Slot → Prop, (∀ t, some s = some t → P t) ↔ P s := fun P =>
        ⟨fun all => all s rfl, fun here t same => Option.some.inj same ▸ here⟩
      rw [only, only]
      exact ⟨scopedTo_iff (peer_patchAt about db nowMs), scopedTo_iff (legacy_patchAt about db nowMs)⟩

end Writers

/-! ## An answer with another slot's rows -/

section Foreign

attribute [local instance] Bs58Check.doubleSha noDenunciations

/-- A transfer of slot (11, 0). -/
def foreignTransfer : StoredTransfer :=
  transferRow {} ⟨11, 0⟩ 0 0 { id := "T1", value := some (some (.coins ⟨1, 0⟩)) }

/-- The archive's answer about slot (10, 0), with that transfer. -/
def foreignAnswer : FinalSlotResponse :=
  { answerOf ⟨10, 0⟩ .miss none with transfers := [transferToPeerPb foreignTransfer] }

/-- **A patch files another slot's transfer.** -/
theorem patches_not_scoped : ¬ ∀ (events : List Timed) (resp : FinalSlotResponse) (nowMs : Int),
    PatchScoped resp nowMs (ingest events) (applyPeerPatch (ingest events) resp nowMs).1 ∧
      PatchScoped resp nowMs (ingest events) (applyLegacyPatch (ingest events) resp nowMs).1 := by
  intro keep
  have about : slotOf foreignAnswer = some ⟨10, 0⟩ := slotOf_answerOf ⟨10, 0⟩ .miss none
  have here := (keep [] foreignAnswer 0).2
  unfold PatchScoped at here
  rw [about] at here
  have same := (here.transfers ⟨11, 0⟩ (by decide)).rows 0
  have rows : decodedTransfers foreignAnswer = [readBackTransfer foreignTransfer] := by
    simp [decodedTransfers, foreignAnswer, transferFromPeerPb_toPeerPb, Except.toOption]
  have move : transferMove (ingest []) ⟨.legacyPatch foreignAnswer, 0⟩ =
      ⟨none, [readBackTransfer foreignTransfer]⟩ := by
    have known : foreignAnswer.finalKnown = true := rfl
    simp [transferMove, about, known, rows]
  have filed := filedTransfers_step (ingest []) ⟨.legacyPatch foreignAnswer, 0⟩
  rw [move] at filed
  change filedTransfers (applyLegacyPatch (ingest []) foreignAnswer 0).1 = _ at filed
  rw [filed, row_run] at same
  exact absurd same (by decide +kernel)

end Foreign

end MassaIndexer.Laws.PatchScope
