/-
# Writer.Moves -- what an event does to events and transfers

The two families filed under slots move in one way only: an event clears the rows of a slot, or not,
and then files a list of rows (`Store.SlotRows.Move`). Which slot and which rows is read off the event
and the row it meets (`eventMove`, `transferMove`); the handlers do no more to these families than
that (`events_step`, `transfers_step`).
-/
import MassaIndexer.Store.SlotRows
import MassaIndexer.Writer.Patches
import MassaIndexer.Writer.Step

namespace MassaIndexer.Writer.Moves

open MassaIndexer.Theory.KeyedTable MassaIndexer.Theory.Footprint
open MassaIndexer.Data.Ids MassaIndexer.Data.Model MassaIndexer.Data.Proto MassaIndexer.Data.RowCodec
open MassaIndexer.Data.Keys
open MassaIndexer.Store.ColumnFamilies MassaIndexer.Store.Footprint MassaIndexer.Store.SlotRows
open MassaIndexer.Writer.NodeProto MassaIndexer.Writer.NodeDecode
open MassaIndexer.Writer.Shared MassaIndexer.Writer.Handlers MassaIndexer.Writer.Step
open MassaIndexer.Writer.Families MassaIndexer.Writer.Patches MassaIndexer.Peer.Patch
open MassaIndexer.Peer.Arbiter

set_option autoImplicit false

/-! ## Rows of the node -/

theorem mem_transfersForSlot_iff {db : Db} {s : Slot} {t : StoredTransfer} :
    t ∈ db.transfersForSlot s ↔ db.readTransfer s t.indexInSlot = some t := by
  unfold Db.transfersForSlot Db.readTransfer
  rw [Table.mem_under_iff]
  constructor
  · rintro ⟨found, below⟩
    rw [slotKey_isPrefix_iff.mp below]
    exact found
  · intro found
    have filed := Table.key_of_get found
    obtain ⟨rfl, -⟩ := scEventKey_injective filed
    exact ⟨found, List.prefix_append _ _⟩

/-- Attribution only fills in operations. -/
theorem forall_mem_attributeOps {P : StoredTransfer → Prop}
    (blind : ∀ r op, P r → P { r with operationId := op }) {rows : List StoredTransfer}
    (all : ∀ r ∈ rows, P r) (current : Option String) : ∀ r ∈ attributeOps current rows, P r := by
  induction rows generalizing current with
  | nil => simp [attributeOps]
  | cons r rows ih =>
      obtain ⟨here, later⟩ := List.forall_mem_cons.mp all
      unfold attributeOps
      split
      · exact List.forall_mem_cons.mpr ⟨here, ih later _⟩
      · split
        · exact List.forall_mem_cons.mpr ⟨here, ih later _⟩
        · split
          · exact List.forall_mem_cons.mpr ⟨here, ih later _⟩
          · split
            · exact List.forall_mem_cons.mpr ⟨blind r _ here, ih later _⟩
            · exact List.forall_mem_cons.mpr ⟨here, ih later _⟩

/-- The node's rows are all rows of the slot it names. -/
theorem slot_of_mem_decodeTransfers {resp : NewTransfersInfoServerResponse} {s : Slot} {nowMs : Int}
    {t : StoredTransfer} (member : t ∈ decodeTransfers resp s nowMs) : t.slot = s := by
  refine forall_mem_attributeOps (P := fun t => t.slot = s) (fun _ _ same => same) ?_ none t member
  intro r decoded
  obtain ⟨i, _, rfl⟩ := List.mem_mapIdx.mp decoded
  rfl

variable [Bs58Check]

/-! ## Filing a move -/

def fileTransfers (m : Move StoredTransfer) (db : Db) : Db :=
  m.rows.foldl Db.writeTransfer (m.cleared.elim db db.clearTransfersForSlot)

def fileEvents (m : Move StoredScEvent) (db : Db) : Db :=
  m.rows.foldl Db.writeScEvent (m.cleared.elim db db.clearScEventsForSlot)

theorem filedTransfers_file (m : Move StoredTransfer) (db : Db) :
    filedTransfers (fileTransfers m db) = m.run transferFiling (filedTransfers db) := by
  have start : filedTransfers (m.cleared.elim db db.clearTransfersForSlot) =
      m.cleared.elim (filedTransfers db) ((filedTransfers db).clear transferFiling) := by
    cases m.cleared with
    | none => rfl
    | some s => exact filedTransfers_clear db s
  rw [fileTransfers, Move.run, ← start]
  generalize m.cleared.elim db db.clearTransfersForSlot = db
  induction m.rows generalizing db with
  | nil => rfl
  | cons t rows ih =>
      rw [List.foldl_cons, List.foldl_cons, ih, filedTransfers_write]

omit [Bs58Check] in
theorem filedEvents_file (m : Move StoredScEvent) (db : Db) :
    filedEvents (fileEvents m db) = m.run eventFiling (filedEvents db) := by
  have start : filedEvents (m.cleared.elim db db.clearScEventsForSlot) =
      m.cleared.elim (filedEvents db) ((filedEvents db).clear eventFiling) := by
    cases m.cleared with
    | none => rfl
    | some s => exact filedEvents_clear db s
  rw [fileEvents, Move.run, ← start]
  generalize m.cleared.elim db db.clearScEventsForSlot = db
  induction m.rows generalizing db with
  | nil => rfl
  | cons ev rows ih =>
      rw [List.foldl_cons, List.foldl_cons, ih, filedEvents_write]

/-! ## Moves -/

/-- What a peer's answer does once it is reconciled with the row. An adopted verdict clears the slot
even when no transfers come with it. -/
def peerTransferMove (s : Slot) (resp : FinalSlotResponse) : Reconciled → Move StoredTransfer
  | .turnedAway _ => {}
  | .proceed p =>
      if takesTransfers resp p.state then ⟨some s, decodedTransfers resp⟩
      else if p.out.divergenceRepaired then ⟨some s, []⟩
      else {}

def transferMove (db : Db) (e : Timed) : Move StoredTransfer :=
  match e.event with
  | .transfers resp =>
      resp.slot.elim {} fun pb =>
        ⟨some (NodeDecode.slotFromPb pb), decodeTransfers resp (NodeDecode.slotFromPb pb) e.nowMs⟩
  | .peerPatch resp =>
      if resp.finalKnown then
        (slotOf resp).elim {} fun s =>
          peerTransferMove s resp (reconcileVerdict db s (rowAt db s e.nowMs) resp)
      else {}
  | .legacyPatch resp =>
      if resp.finalKnown then (slotOf resp).elim {} fun _ => ⟨none, decodedTransfers resp⟩ else {}
  | .forcedVerdict resp =>
      match slotOf resp, forcedTarget resp with
      | some s, .ok v =>
          if (rowAt db s e.nowMs).status = .final ∧ Verdict.ofLocal (rowAt db s e.nowMs) = some v then {}
          else ⟨some s, []⟩
      | _, _ => {}
  | _ => {}

theorem transfersForSlot_clear (db : Db) (s : Slot) :
    (db.clearTransfersForSlot s).transfersForSlot s = [] := by
  refine List.eq_nil_iff_forall_not_mem.mpr fun t member => ?_
  have cleared := row_clear (u := s) transferFiling (filedTransfers db) s t.indexInSlot
  rw [← filedTransfers_clear, if_pos rfl] at cleared
  rw [mem_transfersForSlot_iff] at member
  cases cleared.symm.trans member

/-- Clearing a slot without transfers changes nothing. -/
theorem clearTransfersForSlot_of_nil {db : Db} {s : Slot} (none : db.transfersForSlot s = []) :
    db.clearTransfersForSlot s = db := by
  have table : db.transfers.eraseUnder (slotKey s) = db.transfers := by
    have scan : db.transfers.under (slotKey s) = [] := none
    rw [Table.eraseUnder, scan]
    rfl
  unfold Db.clearTransfersForSlot
  rw [none, table]
  rfl

/-- The store a peer's answer starts its parts from. -/
theorem contents_proceeds {db : Db} {s : Slot} {state : SlotState} {resp : FinalSlotResponse}
    {p : Patching} (here : state.slot = s) (proceeds : Proceeds db s state resp p) :
    contents p.db .transfers =
      contents (if p.out.divergenceRepaired then db.clearTransfersForSlot s else db) .transfers := by
  subst here
  cases proceeds with
  | promoted open_ => exact (confined_advanceHead state.slot).frame db .transfers (by decide)
  | agreed settled agree trails => rfl
  | adopted settled l q held offered differ adopts =>
      rw [adoptPeerVerdict_db, contents_runAll, adoptStages]
      cases state.finalBlockId <;> rfl

variable [DenunciationDigest]

/-- What the parts of a peer's answer do to the transfers they meet. -/
theorem contents_peerTransfers {db : Db} {s : Slot} {p : Patching}
    (start : contents p.db .transfers =
      contents (if p.out.divergenceRepaired then db.clearTransfersForSlot s else db) .transfers)
    (resp : FinalSlotResponse) (nowMs : Int) (row : SlotState) :
    contents (Stage.runAll (peerPartStages s resp nowMs p.state ++ closingStages s row nowMs) p.db)
      .transfers = contents (fileTransfers (peerTransferMove s resp (.proceed p)) db) .transfers := by
  have parts : contents (Stage.runAll (peerPartStages s resp nowMs p.state ++
      closingStages s row nowMs) p.db) .transfers = contents (if takesTransfers resp p.state then
        (decodedTransfers resp).foldl Db.writeTransfer (p.db.clearTransfersForSlot s) else p.db)
          .transfers := by
    rw [contents_runAll, peerPartStages]
    cases deliveredBlock resp <;> cases takesExec resp p.state <;>
      cases takesTransfers resp p.state <;> rfl
  rw [parts, peerTransferMove]
  cases takesTransfers resp p.state with
  | false =>
      refine Eq.trans start ?_
      cases p.out.divergenceRepaired <;> rfl
  | true =>
      refine ((confined_replaceTransfers s (decodedTransfers resp)).own _ _ start).trans ?_
      cases p.out.divergenceRepaired with
      | false => rfl
      | true =>
          rw [if_pos rfl, clearTransfersForSlot_of_nil (transfersForSlot_clear db s)]
          rfl

/-- **Every event moves the transfers as its move says.** -/
theorem transfers_step (db : Db) (e : Timed) :
    contents (step db e) .transfers = contents (fileTransfers (transferMove db e) db) .transfers := by
  obtain ⟨event, nowMs⟩ := e
  cases event with
  | block fb =>
      change contents (handleBlock db fb nowMs).db .transfers = contents db .transfers
      cases decoded : decodeHead fb with
      | error err => rw [handleBlock, decoded]
      | ok head =>
          rw [handleBlock_db decoded]
          refine Stage.view_runAll_of_absent ?_ db
          unfold handleBlockStages
          split
          · simp
          · split <;> simp [storedBlockStages, Write.family]
  | exec out =>
      change contents (handleExec db out nowMs).db .transfers = contents db .transfers
      rw [handleExec_db]
      rcases readFrame out with - | ⟨s, frame, exec⟩
      · rfl
      · dsimp only
        split
        · rw [confirmFrame]
          split
          · rw [completeFinalExecFromNode_eq, contents_runAll]
            rfl
          · rfl
        · rw [recordFrame_eq, contents_runAll]
          cases frame <;> rfl
  | transfers resp =>
      change contents (handleTransfers db resp nowMs).db .transfers = _
      rw [handleTransfers_db]
      dsimp only [transferMove]
      cases resp.slot with
      | none => rfl
      | some pb =>
          dsimp only
          rw [contents_runAll]
          rfl
  | peerPatch resp =>
      change contents (applyPeerPatch db resp nowMs).1 .transfers = _
      dsimp only [transferMove]
      cases about : slotOf resp with
      | none =>
          rw [applyPeerPatch, about]
          cases resp.finalKnown <;> rfl
      | some s =>
          cases known : resp.finalKnown with
          | false => rw [applyPeerPatch, about, known]; rfl
          | true =>
              rw [applyPeerPatch_eq about known]
              rw [if_pos rfl, Option.elim_some]
              cases taken : reconcileVerdict db s (rowAt db s nowMs) resp with
              | turnedAway out => rfl
              | proceed p =>
                  have start := contents_proceeds (slot_rowAt db s nowMs)
                    (proceeds_of_reconcileVerdict taken)
                  exact contents_peerTransfers start resp nowMs _
  | legacyPatch resp =>
      change contents (applyLegacyPatch db resp nowMs).1 .transfers = _
      dsimp only [transferMove]
      cases about : slotOf resp with
      | none =>
          rw [applyLegacyPatch, about]
          cases resp.finalKnown <;> rfl
      | some s =>
          cases known : resp.finalKnown with
          | false => rw [applyLegacyPatch, about, known]; rfl
          | true =>
              rw [applyLegacyPatch_eq about known]
              dsimp only
              generalize legacyPromoted resp (rowAt db s nowMs) = state
              rw [contents_runAll, legacyPartStages]
              cases legacyBody resp state <;> split <;> split <;> rfl
  | forcedVerdict resp =>
      unfold step
      dsimp only [transferMove]
      cases about : slotOf resp with
      | none => rw [applyForcedVerdict, about]; rfl
      | some s =>
          cases target : forcedTarget resp with
          | error err => rw [applyForcedVerdict, about, target]; rfl
          | ok v =>
              rw [applyForcedVerdict_eq about target]
              dsimp only
              split
              · rfl
              · have here := slot_rowAt db s nowMs
                generalize rowAt db s nowMs = state at here ⊢
                subst here
                rw [contents_runAll, adoptStages]
                cases state.finalBlockId <;> rfl
  | tick => rfl

theorem filedTransfers_step (db : Db) (e : Timed) :
    filedTransfers (step db e) = (transferMove db e).run transferFiling (filedTransfers db) :=
  (sameFiledTransfers (transfers_step db e)).trans (filedTransfers_file _ _)

/-! ## Events -/

def decodedEvents (resp : FinalSlotResponse) : List StoredScEvent :=
  resp.scEvents.filterMap fun pb => (scEventFromPeerPb pb).toOption

def peerEventMove (s : Slot) (resp : FinalSlotResponse) : Reconciled → Move StoredScEvent
  | .turnedAway _ => {}
  | .proceed p =>
      if takesExec resp p.state then ⟨some s, decodedEvents resp⟩
      else if p.out.divergenceRepaired then ⟨some s, []⟩
      else {}

/-- A frame's events replace those of its slot, unless the slot is settled and not to be completed. -/
def frameEventMove (row : SlotState) (s : Slot) (frame : ExecFrame) (exec : ExecutionOutput) :
    Move StoredScEvent :=
  if row.status = .final then
    if frame = .final ∧ trailsDiffer row.executionTrailHash (frameTrail exec) = false ∧
        sameVerdict row exec = true ∧ row.completeness.execOutputFinal = false then
      ⟨some s, frameEvents s .final exec⟩
    else {}
  else
    match frame with
    | .final => ⟨some s, frameEvents s .final exec⟩
    | .candidate => ⟨some s, frameEvents s .candidate exec⟩

def eventMove (db : Db) (e : Timed) : Move StoredScEvent :=
  match e.event with
  | .exec out =>
      (readFrame out).elim {} fun (s, frame, exec) => frameEventMove (rowAt db s e.nowMs) s frame exec
  | .peerPatch resp =>
      if resp.finalKnown then
        (slotOf resp).elim {} fun s =>
          peerEventMove s resp (reconcileVerdict db s (rowAt db s e.nowMs) resp)
      else {}
  | .forcedVerdict resp =>
      match slotOf resp, forcedTarget resp with
      | some s, .ok v =>
          if (rowAt db s e.nowMs).status = .final ∧ Verdict.ofLocal (rowAt db s e.nowMs) = some v then {}
          else ⟨some s, []⟩
      | _, _ => {}
  | _ => {}

omit [Bs58Check] [DenunciationDigest] in
theorem scEventsOfSlot_clear (db : Db) (s : Slot) : (db.clearScEventsForSlot s).scEventsOfSlot s = [] := by
  refine List.eq_nil_iff_forall_not_mem.mpr fun ev member => ?_
  obtain ⟨found, below⟩ := Table.mem_under_iff.mp member
  change (db.scEvents.eraseUnder (slotKey s)).get _ = _ at found
  rw [Table.get_eraseUnder, if_pos below] at found
  cases found

omit [Bs58Check] [DenunciationDigest] in
theorem clearScEventsForSlot_of_nil {db : Db} {s : Slot} (none : db.scEventsOfSlot s = []) :
    db.clearScEventsForSlot s = db := by
  have table : db.scEvents.eraseUnder (slotKey s) = db.scEvents := by
    have scan : db.scEvents.under (slotKey s) = [] := none
    rw [Table.eraseUnder, scan]
    rfl
  unfold Db.clearScEventsForSlot
  rw [none, table]
  rfl

omit [Bs58Check] [DenunciationDigest] in
theorem foldl_applyScEvent (resp : FinalSlotResponse) (db : Db) :
    resp.scEvents.foldl applyScEvent db = (decodedEvents resp).foldl Db.writeScEvent db := by
  unfold decodedEvents
  induction resp.scEvents generalizing db with
  | nil => rfl
  | cons pb pbs ih =>
      rw [List.foldl_cons, ih]
      unfold applyScEvent
      cases decoded : scEventFromPeerPb pb with
      | error err => rw [List.filterMap_cons_none (by rw [decoded]; rfl)]
      | ok ev => rw [List.filterMap_cons_some (by rw [decoded]; rfl), List.foldl_cons]

omit [DenunciationDigest] in
theorem contents_proceeds_events {db : Db} {s : Slot} {state : SlotState} {resp : FinalSlotResponse}
    {p : Patching} (here : state.slot = s) (proceeds : Proceeds db s state resp p) :
    contents p.db .scEvents =
      contents (if p.out.divergenceRepaired then db.clearScEventsForSlot s else db) .scEvents := by
  subst here
  cases proceeds with
  | promoted open_ => exact (confined_advanceHead state.slot).frame db .scEvents (by decide)
  | agreed settled agree trails => rfl
  | adopted settled l q held offered differ adopts =>
      rw [adoptPeerVerdict_db, contents_runAll, adoptStages]
      cases state.finalBlockId <;> rfl

theorem contents_peerEvents {db : Db} {s : Slot} {p : Patching}
    (start : contents p.db .scEvents =
      contents (if p.out.divergenceRepaired then db.clearScEventsForSlot s else db) .scEvents)
    (resp : FinalSlotResponse) (nowMs : Int) (row : SlotState) :
    contents (Stage.runAll (peerPartStages s resp nowMs p.state ++ closingStages s row nowMs) p.db)
      .scEvents = contents (fileEvents (peerEventMove s resp (.proceed p)) db) .scEvents := by
  have parts : contents (Stage.runAll (peerPartStages s resp nowMs p.state ++
      closingStages s row nowMs) p.db) .scEvents = contents (if takesExec resp p.state then
        resp.scEvents.foldl applyScEvent (p.db.clearScEventsForSlot s) else p.db) .scEvents := by
    rw [contents_runAll, peerPartStages]
    cases deliveredBlock resp <;> cases takesExec resp p.state <;>
      cases takesTransfers resp p.state <;> rfl
  rw [parts, peerEventMove]
  cases takesExec resp p.state with
  | false =>
      refine Eq.trans start ?_
      cases p.out.divergenceRepaired <;> rfl
  | true =>
      refine ((confined_replaceScEvents s resp).own _ _ start).trans ?_
      rw [foldl_applyScEvent]
      cases p.out.divergenceRepaired with
      | false => rfl
      | true =>
          rw [if_pos rfl, clearScEventsForSlot_of_nil (scEventsOfSlot_clear db s)]
          rfl

/-- **Every event moves the events as its move says.** -/
theorem events_step (db : Db) (e : Timed) :
    contents (step db e) .scEvents = contents (fileEvents (eventMove db e) db) .scEvents := by
  obtain ⟨event, nowMs⟩ := e
  cases event with
  | block fb =>
      change contents (handleBlock db fb nowMs).db .scEvents = contents db .scEvents
      cases decoded : decodeHead fb with
      | error err => rw [handleBlock, decoded]
      | ok head =>
          rw [handleBlock_db decoded]
          refine Stage.view_runAll_of_absent ?_ db
          unfold handleBlockStages
          split
          · simp
          · split <;> simp [storedBlockStages, Write.family]
  | exec out =>
      change contents (handleExec db out nowMs).db .scEvents = _
      rw [handleExec_db]
      dsimp only [eventMove]
      rcases readFrame out with - | ⟨s, frame, exec⟩
      · rfl
      · have here := slot_rowAt db s nowMs
        rw [Option.elim_some]
        dsimp only
        generalize rowAt db s nowMs = row at here ⊢
        subst here
        by_cases settled : row.status = .final
        · rw [if_pos settled, confirmFrame, frameEventMove.eq_def, if_pos settled]
          split
          · rw [completeFinalExecFromNode_eq, contents_runAll]
            rfl
          · rfl
        · rw [if_neg settled, recordFrame_eq, contents_runAll, frameEventMove.eq_def, if_neg settled]
          cases frame <;> rfl
  | transfers resp =>
      change contents (handleTransfers db resp nowMs).db .scEvents = contents db .scEvents
      rw [handleTransfers_db]
      cases resp.slot with
      | none => rfl
      | some pb =>
          dsimp only
          rw [contents_runAll]
          rfl
  | peerPatch resp =>
      change contents (applyPeerPatch db resp nowMs).1 .scEvents = _
      dsimp only [eventMove]
      cases about : slotOf resp with
      | none =>
          rw [applyPeerPatch, about]
          cases resp.finalKnown <;> rfl
      | some s =>
          cases known : resp.finalKnown with
          | false => rw [applyPeerPatch, about, known]; rfl
          | true =>
              rw [applyPeerPatch_eq about known]
              rw [if_pos rfl, Option.elim_some]
              cases taken : reconcileVerdict db s (rowAt db s nowMs) resp with
              | turnedAway out => rfl
              | proceed p =>
                  have start := contents_proceeds_events (slot_rowAt db s nowMs)
                    (proceeds_of_reconcileVerdict taken)
                  exact contents_peerEvents start resp nowMs _
  | legacyPatch resp =>
      change contents (applyLegacyPatch db resp nowMs).1 .scEvents = contents db .scEvents
      cases about : slotOf resp with
      | none => rw [applyLegacyPatch, about]
      | some s =>
          cases known : resp.finalKnown with
          | false => rw [applyLegacyPatch, about, known]; rfl
          | true =>
              rw [applyLegacyPatch_eq about known]
              dsimp only
              generalize legacyPromoted resp (rowAt db s nowMs) = state
              rw [contents_runAll, legacyPartStages]
              cases legacyBody resp state <;> split <;> split <;> rfl
  | forcedVerdict resp =>
      unfold step
      dsimp only [eventMove]
      cases about : slotOf resp with
      | none => rw [applyForcedVerdict, about]; rfl
      | some s =>
          cases target : forcedTarget resp with
          | error err => rw [applyForcedVerdict, about, target]; rfl
          | ok v =>
              rw [applyForcedVerdict_eq about target]
              dsimp only
              split
              · rfl
              · have here := slot_rowAt db s nowMs
                generalize rowAt db s nowMs = state at here ⊢
                subst here
                rw [contents_runAll, adoptStages]
                cases state.finalBlockId <;> rfl
  | tick => rfl

theorem filedEvents_step (db : Db) (e : Timed) :
    filedEvents (step db e) = (eventMove db e).run eventFiling (filedEvents db) :=
  (sameFiledEvents (events_step db e)).trans (filedEvents_file _ _)

end MassaIndexer.Writer.Moves
