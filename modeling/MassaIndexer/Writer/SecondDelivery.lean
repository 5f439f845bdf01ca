/-
# Writer.SecondDelivery -- an event that comes again

What the store is left with decides how the same event is met the second time. A FINAL frame finds its
slot settled; a peer's response finds a row that echoes it, or is turned away as before; the archive's
answer finds its body stored; a forced verdict finds itself. Only the steps that are idempotent row by
row are taken again.
-/
import MassaIndexer.Writer.BodyMoves
import MassaIndexer.Writer.Moves
import MassaIndexer.Writer.RowBlocks
import MassaIndexer.Writer.Stages

namespace MassaIndexer.Writer.SecondDelivery

open MassaIndexer.Theory.Footprint
open MassaIndexer.Data.Ids MassaIndexer.Data.Model MassaIndexer.Data.Proto MassaIndexer.Data.Codec
open MassaIndexer.Store.ColumnFamilies MassaIndexer.Store.Footprint
open MassaIndexer.Writer.NodeProto MassaIndexer.Writer.NodeDecode
open MassaIndexer.Writer.Shared MassaIndexer.Writer.Handlers MassaIndexer.Writer.Step
open MassaIndexer.Writer.Families MassaIndexer.Writer.Patches MassaIndexer.Writer.RowMoves
open MassaIndexer.Writer.Stages MassaIndexer.Writer.RowBlocks
open MassaIndexer.Peer.Patch MassaIndexer.Peer.Arbiter

set_option autoImplicit false

variable [Bs58Check]

/-! ## The row an event meets again -/

omit [Bs58Check] in
theorem rowAt_settled {db : Db} {s : Slot} {nowMs : Int} (settled : (rowAt db s nowMs).status = .final)
    (againMs : Int) : rowAt db s againMs = rowAt db s nowMs := by
  unfold rowAt at settled ⊢
  cases found : db.readSlot s with
  | some row => rfl
  | none =>
      rw [found] at settled
      cases settled

omit [Bs58Check] in
/-- A row in hand never has an empty trail hash. -/
theorem trail_rowAt (db : Db) (s : Slot) (nowMs : Int) :
    readBackTrail (rowAt db s nowMs).executionTrailHash = (rowAt db s nowMs).executionTrailHash := by
  unfold rowAt
  cases found : db.readSlot s with
  | some row => exact Db.trail_of_readSlot found
  | none => rfl

omit [Bs58Check] in
theorem readBack_rowAt (db : Db) (s : Slot) (nowMs : Int) :
    readBackSlotState (rowAt db s nowMs) = rowAt db s nowMs := by
  rw [readBackSlotState, trail_rowAt]

omit [Bs58Check] in
theorem readBack_touched (db : Db) (s : Slot) (nowMs clockMs : Int) :
    readBackSlotState { rowAt db s nowMs with lastUpdatedTsMs := clockMs } =
      { rowAt db s nowMs with lastUpdatedTsMs := clockMs } :=
  congrArg (fun row : SlotState => { row with lastUpdatedTsMs := clockMs }) (readBack_rowAt db s nowMs)

theorem readSlot_moved [DenunciationDigest] {db : Db} {e : Timed} {m : RowMove}
    (moved : rowMove db e = some m) :
    (step db e).readSlot m.row.slot = some (readBackSlotState m.row) := by
  rw [readSlot_step, moved]
  exact if_pos rfl

theorem rowAt_moved [DenunciationDigest] {db : Db} {e : Timed} {m : RowMove}
    (moved : rowMove db e = some m) (againMs : Int) :
    rowAt (step db e) m.row.slot againMs = readBackSlotState m.row := by
  rw [rowAt, readSlot_moved moved, Option.getD_some]

/-! ## Frames -/

theorem not_completes_of_output {row : SlotState} {frame : ExecFrame} {exec : ExecutionOutput}
    (complete : row.completeness.execOutputFinal = true) : ¬ Completes row frame exec :=
  fun completes => by simp [completes.2.2.2] at complete

/-- **A frame that comes again is ignored, unless it is a CANDIDATE frame of an open slot.** -/
theorem exec_again [DenunciationDigest] (db : Db) (out : SlotExecutionOutput) (firstMs againMs : Int) :
    eventStages (step db ⟨.exec out, firstMs⟩) ⟨.exec out, againMs⟩ = [] ∨
      ∃ s exec, readFrame out = some (s, .candidate, exec) ∧
        (rowAt db s firstMs).status ≠ .final := by
  cases read : readFrame out with
  | none =>
      refine .inl ?_
      dsimp only [eventStages]
      rw [read]
      rfl
  | some taken =>
      obtain ⟨s, frame, exec⟩ := taken
      have ignored : ∀ {db' : Db}, (rowAt db' s againMs).status = .final →
          ¬ Completes (rowAt db' s againMs) frame exec →
          eventStages db' ⟨.exec out, againMs⟩ = [] := by
        intro db' settled stays
        dsimp only [eventStages]
        rw [read, Option.elim_some]
        dsimp only
        rw [if_pos settled, if_neg stays]
      have move : ∀ m, frameMove (rowAt db s firstMs) frame exec firstMs = some m →
          rowMove db ⟨.exec out, firstMs⟩ = some m := by
        intro m moved
        dsimp only [rowMove]
        rw [read]
        exact moved
      by_cases settled : (rowAt db s firstMs).status = .final
      · refine .inl ?_
        by_cases completes : Completes (rowAt db s firstMs) frame exec
        · have moved := move ⟨completedRow (rowAt db s firstMs) exec firstMs, false⟩ (by
            rw [frameMove, if_pos settled, if_pos completes])
          have left := rowAt_moved moved againMs
          rw [show (completedRow (rowAt db s firstMs) exec firstMs).slot = s from
            slot_rowAt db s firstMs] at left
          refine ignored (by rw [left]; exact settled) (not_completes_of_output ?_)
          rw [left]
          rfl
        · have unmoved : step db ⟨.exec out, firstMs⟩ = db := by
            rw [step_eq_stages]
            dsimp only [eventStages]
            rw [read, Option.elim_some]
            dsimp only
            rw [if_pos settled, if_neg completes]
            rfl
          have same := rowAt_settled settled againMs
          rw [unmoved]
          exact ignored (same ▸ settled) (same ▸ completes)
      · cases frame with
        | candidate => exact .inr ⟨s, exec, rfl, settled⟩
        | final =>
            have moved := move ⟨frameRow (rowAt db s firstMs) .final exec firstMs, true⟩ (by
              rw [frameMove, if_neg settled]
              rfl)
            have left := rowAt_moved moved againMs
            rw [show (frameRow (rowAt db s firstMs) .final exec firstMs).slot = s from
              slot_rowAt db s firstMs] at left
            refine .inl (ignored (by rw [left]; rfl) (not_completes_of_output ?_))
            rw [left]
            rfl

/-! ## Transfers of the node -/

/-- The row of a slot whose transfers are stored is left alone when they come again. -/
theorem transfers_again [DenunciationDigest] {resp : NewTransfersInfoServerResponse} {pb : NodeSlot}
    (about : resp.slot = some pb) (db : Db) (firstMs againMs : Int) :
    rowMove (step db ⟨.transfers resp, firstMs⟩) ⟨.transfers resp, againMs⟩ = none := by
  have moved : ∀ db nowMs, rowMove db ⟨.transfers resp, nowMs⟩ =
      transfersMove (rowAt db (slotFromPb pb) nowMs) nowMs := by
    intro db nowMs
    dsimp only [rowMove]
    rw [about]
    rfl
  have first := moved db firstMs
  have stored : (rowAt (step db ⟨.transfers resp, firstMs⟩) (slotFromPb pb)
      againMs).completeness.transfersStored = true := by
    by_cases before : (rowAt db (slotFromPb pb) firstMs).completeness.transfersStored = true
    · rw [transfersMove, if_pos before] at first
      rw [rowAt, readSlot_step, first]
      unfold rowAt at before
      cases found : db.readSlot (slotFromPb pb) with
      | none =>
          rw [found] at before
          cases before
      | some row =>
          rw [found] at before
          exact before
    · rw [transfersMove, if_neg before] at first
      have left := rowAt_moved first againMs
      rw [show ({ rowAt db (slotFromPb pb) firstMs with
          completeness := { (rowAt db (slotFromPb pb) firstMs).completeness with transfersStored := true }
          lastUpdatedTsMs := firstMs } : SlotState).slot = slotFromPb pb from slot_rowAt db _ firstMs]
        at left
      rw [left]
      rfl
  rw [moved, transfersMove, if_pos stored]

/-! ## Answers of a peer -/

/-- A settled row that has nothing to say against a response. -/
structure Echoes (row : SlotState) (resp : FinalSlotResponse) : Prop where
  settled : row.status = .final
  agrees : ¬ Disputes row resp
  trail : peerTrail resp = none ∨ row.executionTrailHash = peerTrail resp

omit [Bs58Check] in
theorem readBack_peerTrail (resp : FinalSlotResponse) :
    readBackTrail (peerTrail resp) = peerTrail resp := by
  unfold peerTrail
  split
  · rfl
  · next named => simp [readBackTrail, named]

theorem echoes_of_proceeds {db : Db} {s : Slot} {row : SlotState} {resp : FinalSlotResponse}
    {p : Patching} (proceeds : Proceeds db s row resp p) : Echoes p.state resp := by
  refine ⟨status_proceeds proceeds, ?_, ?_⟩
  · rintro ⟨l, q, held, offered, differ⟩
    unfold Verdict.ofPeer at offered
    cases proceeds with
    | promoted open_ =>
        rw [promote_eq, Verdict.ofLocal] at held
        cases miss : resp.isMiss with
        | true => simp_all
        | false => cases named : parseFinalBlockId resp <;> simp_all
    | agreed settled agree trails => exact agree ⟨l, q, held, offered, differ⟩
    | adopted settled l' q' held' offered' differ' adopts =>
        rw [adoptPeerVerdict_row, adoptedRow_eq, Verdict.ofLocal] at held
        cases miss : resp.isMiss with
        | true => simp_all
        | false => cases named : parseFinalBlockId resp <;> simp_all
  · cases proceeds with
    | promoted open_ =>
        rw [promote_eq]
        cases named : peerTrail resp with
        | none => exact .inl rfl
        | some incoming => exact .inr rfl
    | agreed settled agree trails =>
        cases named : peerTrail resp with
        | none => exact .inl rfl
        | some incoming =>
            refine .inr ?_
            cases known : row.executionTrailHash with
            | none => rfl
            | some existing =>
                rw [known, named] at trails
                simpa [trailsDiffer] using trails
    | adopted settled l q held offered differ adopts =>
        rw [adoptPeerVerdict_row, adoptedRow_eq]
        exact .inr rfl

/-- The parts of a response leave the verdict and the trail hash alone. -/
theorem Echoes.peerRow {row : SlotState} {resp : FinalSlotResponse} (echoes : Echoes row resp)
    (nowMs : Int) : Echoes (readBackSlotState { peerRow resp row with lastUpdatedTsMs := nowMs }) resp := by
  obtain ⟨settled, agrees, trail⟩ := echoes
  rw [peerRow_eq]
  refine ⟨settled, agrees, trail.imp id fun named => ?_⟩
  show readBackTrail row.executionTrailHash = _
  rw [named, readBack_peerTrail]

/-- A response that is echoed goes on from the store and the row as they are. -/
theorem Echoes.reconcileVerdict {row : SlotState} {resp : FinalSlotResponse} (echoes : Echoes row resp)
    (db : Db) (s : Slot) : reconcileVerdict db s row resp = .proceed ⟨db, row, {}⟩ := by
  have trail : reconcileTrail db row (peerTrail resp) = .proceed ⟨db, row, {}⟩ := by
    unfold reconcileTrail
    cases known : row.executionTrailHash with
    | none =>
        have none_ : peerTrail resp = none := echoes.trail.elim id fun named => by rw [← named, known]
        dsimp only
        rw [none_, ← known]
    | some existing =>
        rcases echoes.trail with none_ | named
        · rw [none_]
        · rw [← named, known]
          exact if_neg (not_not.mpr rfl)
  rw [Peer.Patch.reconcileVerdict]
  dsimp only
  rw [if_neg (not_not.mpr echoes.settled)]
  cases held : Verdict.ofLocal row with
  | none => exact trail
  | some l =>
      cases offered : Verdict.ofPeer resp (parseFinalBlockId resp) with
      | none => exact trail
      | some q =>
          dsimp only
          rw [if_neg fun differ => echoes.agrees ⟨l, q, held, offered, differ⟩]
          exact trail

omit [Bs58Check] in
theorem candidates_addCandidate_of_mem {row : SlotState} {b : BlockId}
    (named : b ∈ row.candidateBlockIds) :
    (row.addCandidate b).candidateBlockIds = row.candidateBlockIds := by
  rw [SlotState.addCandidate, if_pos named]

omit [Bs58Check] in
/-- A body the row knows adds no candidate. -/
theorem candidates_delivered (resp : FinalSlotResponse) {row : SlotState}
    (known : ∀ block, deliveredBlock resp = some block → block.id ∈ row.candidateBlockIds) :
    ((deliveredBlock resp).elim row fun b => row.addCandidate b.id).candidateBlockIds =
      row.candidateBlockIds := by
  cases delivered : deliveredBlock resp with
  | none => rfl
  | some block => exact candidates_addCandidate_of_mem (known block delivered)

/-- **The parts of a response are applied once.** -/
theorem peerRow_again (resp : FinalSlotResponse) (row : SlotState) :
    takesExec resp (peerRow resp row) = false ∧ takesTransfers resp (peerRow resp row) = false ∧
      peerRow resp (peerRow resp row) = peerRow resp row := by
  have named : ∀ block, deliveredBlock resp = some block →
      block.id ∈ (peerRow resp row).candidateBlockIds := fun block delivered =>
    mem_candidates_peerRow.mpr (.inl (by simp [delivered]))
  have exec : takesExec resp (peerRow resp row) = false := by
    rw [peerRow_eq]
    unfold takesExec
    cases row.completeness.execOutputFinal <;> cases execPartPresent resp <;> simp
  have transfers : takesTransfers resp (peerRow resp row) = false := by
    rw [peerRow_eq]
    unfold takesTransfers
    cases row.completeness.transfersStored <;> cases transfersPartPresent resp <;> simp
  have body : ((peerRow resp row).completeness.blockBodyStored || (deliveredBlock resp).isSome ||
      resp.isMiss) = (peerRow resp row).completeness.blockBodyStored := by
    rw [peerRow_eq]
    cases row.completeness.blockBodyStored <;> cases (deliveredBlock resp).isSome <;>
      cases resp.isMiss <;> rfl
  refine ⟨exec, transfers, ?_⟩
  generalize peerRow resp row = left at named exec transfers body ⊢
  rw [peerRow_eq, candidates_delivered resp named, exec, transfers, body]
  simp

/-- A row whose clock was set is turned away as before. -/
theorem turnedAway_touched {db : Db} {s : Slot} {row : SlotState} {resp : FinalSlotResponse}
    {out : PatchOutcome} (taken : reconcileVerdict db s row resp = .turnedAway out) (nowMs : Int) :
    reconcileVerdict db s { row with lastUpdatedTsMs := nowMs } resp = .turnedAway out := by
  have trail : ∀ out, reconcileTrail db row (peerTrail resp) = .turnedAway out →
      reconcileTrail db { row with lastUpdatedTsMs := nowMs } (peerTrail resp) = .turnedAway out := by
    intro out taken
    unfold reconcileTrail at taken ⊢
    dsimp only
    cases known : row.executionTrailHash with
    | none =>
        rw [known] at taken
        cases taken
    | some existing =>
        cases named : peerTrail resp with
        | none =>
            rw [known, named] at taken
            cases taken
        | some incoming =>
            rw [known, named] at taken
            dsimp only at taken ⊢
            split at taken
            · next differ => rw [if_pos differ, ← taken]
            · cases taken
  unfold reconcileVerdict at taken ⊢
  dsimp only at taken ⊢
  split
  · next open_ =>
      rw [if_pos open_] at taken
      cases taken
  · next settled =>
      rw [if_neg settled] at taken
      rw [show Verdict.ofLocal { row with lastUpdatedTsMs := nowMs } = Verdict.ofLocal row from rfl]
      cases held : Verdict.ofLocal row with
      | none =>
          rw [held] at taken
          exact trail out taken
      | some l =>
          cases offered : Verdict.ofPeer resp (parseFinalBlockId resp) with
          | none =>
              rw [held, offered] at taken
              exact trail out taken
          | some q =>
              rw [held, offered] at taken
              dsimp only at taken ⊢
              split
              · next differ =>
                  rw [if_pos differ] at taken
                  cases ruled : arbitrateVerdicts db s l q (shippedBlock resp) <;> rw [ruled] at taken
                  · cases taken
                  · exact taken
                  · exact taken
              · next same =>
                  rw [if_neg same] at taken
                  exact trail out taken

omit [Bs58Check] in
theorem readSlot_of_settled {db : Db} {s : Slot} {nowMs : Int}
    (settled : (rowAt db s nowMs).status = .final) : db.readSlot s = some (rowAt db s nowMs) := by
  unfold rowAt at settled ⊢
  cases found : db.readSlot s with
  | some row => rfl
  | none =>
      rw [found] at settled
      cases settled

/-- The row's form on disk plays no part. -/
theorem peerRow_readBack (resp : FinalSlotResponse) (row : SlotState) :
    peerRow resp (readBackSlotState row) = readBackSlotState (peerRow resp row) := by
  rw [peerRow_eq, peerRow_eq]
  cases deliveredBlock resp with
  | none => rfl
  | some block =>
      simp only [Option.elim_some, SlotState.addCandidate_eq]
      rfl

/-- What a row is that a response met and left: the response goes on from it and changes nothing in it. -/
structure Stands (db : Db) (s : Slot) (row : SlotState) (resp : FinalSlotResponse) : Prop where
  meets : reconcileVerdict db s row resp = .proceed ⟨db, row, {}⟩
  kept : peerRow resp row = row
  exec : takesExec resp row = false
  transfers : takesTransfers resp row = false

theorem rowMove_peer {resp : FinalSlotResponse} {s : Slot} (about : slotOf resp = some s)
    (known : resp.finalKnown = true) (db : Db) (nowMs : Int) :
    rowMove db ⟨.peerPatch resp, nowMs⟩ = some (peerMove (rowAt db s nowMs) resp nowMs
      (reconcileVerdict db s (rowAt db s nowMs) resp)) := by
  dsimp only [rowMove]
  rw [if_pos known, about]
  rfl

variable [DenunciationDigest]

/-- **A response that comes again is turned away again, or finds the row it left.** -/
theorem peer_again {resp : FinalSlotResponse} {s : Slot} (about : slotOf resp = some s)
    (known : resp.finalKnown = true) (db : Db) (firstMs againMs : Int) :
    (∃ out, reconcileVerdict db s (rowAt db s firstMs) resp = .turnedAway out ∧
      reconcileVerdict (step db ⟨.peerPatch resp, firstMs⟩) s
        (rowAt (step db ⟨.peerPatch resp, firstMs⟩) s againMs) resp = .turnedAway out) ∨
    ∃ p, reconcileVerdict db s (rowAt db s firstMs) resp = .proceed p ∧
      rowAt (step db ⟨.peerPatch resp, firstMs⟩) s againMs =
        readBackSlotState { peerRow resp p.state with lastUpdatedTsMs := firstMs } ∧
      Stands (step db ⟨.peerPatch resp, firstMs⟩) s
        (rowAt (step db ⟨.peerPatch resp, firstMs⟩) s againMs) resp := by
  have moved := rowMove_peer about known db firstMs
  cases taken : reconcileVerdict db s (rowAt db s firstMs) resp with
  | turnedAway out =>
      refine .inl ⟨out, rfl, ?_⟩
      have settled := settled_of_turnedAway taken
      rw [taken] at moved
      have left := rowAt_moved moved againMs
      have here : (peerMove (rowAt db s firstMs) resp firstMs (.turnedAway out)).row.slot = s :=
        slot_rowAt db s firstMs
      rw [here] at left
      have chain : SameChain db (step db ⟨.peerPatch resp, firstMs⟩) := by
        constructor
        · intro t
          rw [readSlot_step, moved]
          dsimp only
          by_cases same : (peerMove (rowAt db s firstMs) resp firstMs (.turnedAway out)).row.slot = t
          · rw [if_pos same]
            obtain rfl : s = t := here.symm.trans same
            rw [readSlot_of_settled settled]
            rfl
          · rw [if_neg same, if_neg fun stub => by cases stub.1]
        · intro b
          rw [BlockMoves.readBlock_step]
          dsimp only [BlockMoves.blockMove]
          rw [if_pos known, about, Option.elim_some, taken]
          show _ = (BlockMoves.BlockMove.rowOf {} b (db.readBlock b)).map _
          simp [BlockMoves.BlockMove.rowOf]
      have again := sameEnd_reconcileVerdict chain s (rowAt (step db ⟨.peerPatch resp, firstMs⟩) s againMs)
        resp
      have before := turnedAway_touched taken firstMs
      rw [left] at again ⊢
      rw [show readBackSlotState (peerMove (rowAt db s firstMs) resp firstMs (.turnedAway out)).row =
        { rowAt db s firstMs with lastUpdatedTsMs := firstMs } from readBack_touched ..] at again ⊢
      rw [before] at again
      cases ended : reconcileVerdict (step db ⟨.peerPatch resp, firstMs⟩) s
          { rowAt db s firstMs with lastUpdatedTsMs := firstMs } resp with
      | turnedAway out' =>
          rw [ended] at again
          exact congrArg Reconciled.turnedAway again.symm
      | proceed p =>
          rw [ended] at again
          exact again.elim
  | proceed p =>
      refine .inr ⟨p, rfl, ?_⟩
      have proceeds := proceeds_of_reconcileVerdict taken
      rw [taken] at moved
      have left := rowAt_moved moved againMs
      rw [show (peerMove (rowAt db s firstMs) resp firstMs (.proceed p)).row.slot = s from
        (slot_peerRow resp p.state).trans ((slot_proceeds proceeds).trans (slot_rowAt db s firstMs))]
        at left
      change _ = readBackSlotState { peerRow resp p.state with lastUpdatedTsMs := firstMs } at left
      refine ⟨left, ?_⟩
      rw [left]
      obtain ⟨exec, transfers, same⟩ := peerRow_again resp p.state
      refine ⟨((echoes_of_proceeds proceeds).peerRow firstMs).reconcileVerdict _ s, ?_, exec, transfers⟩
      rw [peerRow_readBack, peerRow_touched, same]

/-! ## Answers of the archive -/

section Legacy

omit [DenunciationDigest]

/-- **The parts of the archive's answer are applied once.** -/
theorem legacyRow_again (resp : FinalSlotResponse) (row : SlotState) :
    legacyBody resp (legacyRow resp row) = none ∧
      legacyRow resp (legacyRow resp row) = legacyRow resp row := by
  have stored : (legacyRow resp row).completeness.blockBodyStored =
      (row.completeness.blockBodyStored || (legacyBody resp row).isSome || (resp.isMiss && row.isMiss)) := by
    rw [legacyRow_eq]
  have body : legacyBody resp (legacyRow resp row) = none := by
    unfold legacyBody at stored ⊢
    rw [stored]
    cases row.completeness.blockBodyStored with
    | true => rfl
    | false => cases deliveredBlock resp <;> simp
  have isMiss : (legacyRow resp row).isMiss = row.isMiss := by rw [legacyRow_eq]
  have listed : (if (legacyRow resp row).executedOpIds.isEmpty && !resp.executedOpIds.isEmpty then
      parseOpIds resp.executedOpIds else (legacyRow resp row).executedOpIds) =
        (legacyRow resp row).executedOpIds := by
    rw [legacyRow_eq]
    dsimp only
    by_cases taken : (row.executedOpIds.isEmpty && !resp.executedOpIds.isEmpty) = true
    · rw [if_pos taken, ite_self]
    · rw [if_neg taken, if_neg taken]
  have flag : ((legacyRow resp row).completeness.blockBodyStored ||
      (resp.isMiss && (legacyRow resp row).isMiss)) =
        (legacyRow resp row).completeness.blockBodyStored := by
    rw [stored, isMiss]
    cases row.completeness.blockBodyStored <;> cases (legacyBody resp row).isSome <;>
      cases resp.isMiss <;> cases row.isMiss <;> rfl
  refine ⟨body, ?_⟩
  generalize legacyRow resp row = left at body listed flag ⊢
  rw [legacyRow_eq, body, listed]
  simp only [Option.elim_none, Option.isSome_none, Bool.or_false, flag]

theorem legacyRow_readBack (resp : FinalSlotResponse) (row : SlotState) (nowMs : Int) :
    legacyBody resp (readBackSlotState { row with lastUpdatedTsMs := nowMs }) = legacyBody resp row ∧
      legacyRow resp (readBackSlotState { row with lastUpdatedTsMs := nowMs }) =
        readBackSlotState { legacyRow resp row with lastUpdatedTsMs := nowMs } := by
  have body : legacyBody resp (readBackSlotState { row with lastUpdatedTsMs := nowMs }) =
      legacyBody resp row := rfl
  refine ⟨body, ?_⟩
  rw [legacyRow_eq, legacyRow_eq, body]
  cases legacyBody resp row with
  | none => rfl
  | some block =>
      simp only [Option.elim_some, SlotState.addCandidate_eq]
      rfl

end Legacy

/-- **The archive's answer finds the row it left.** -/
theorem legacy_again {resp : FinalSlotResponse} {s : Slot} (about : slotOf resp = some s)
    (known : resp.finalKnown = true) (db : Db) (firstMs againMs : Int) :
    (rowAt (step db ⟨.legacyPatch resp, firstMs⟩) s againMs).status = .final ∧
      rowAt (step db ⟨.legacyPatch resp, firstMs⟩) s againMs = readBackSlotState
        { legacyRow resp (legacyPromoted resp (rowAt db s firstMs)) with lastUpdatedTsMs := firstMs } ∧
      legacyBody resp (rowAt (step db ⟨.legacyPatch resp, firstMs⟩) s againMs) = none ∧
      legacyRow resp (rowAt (step db ⟨.legacyPatch resp, firstMs⟩) s againMs) =
        rowAt (step db ⟨.legacyPatch resp, firstMs⟩) s againMs := by
  have moved : rowMove db ⟨.legacyPatch resp, firstMs⟩ =
      some ⟨{ legacyRow resp (legacyPromoted resp (rowAt db s firstMs)) with
        lastUpdatedTsMs := firstMs }, true⟩ := by
    dsimp only [rowMove]
    rw [if_pos known, about]
    rfl
  have left := rowAt_moved moved againMs
  rw [show ({ legacyRow resp (legacyPromoted resp (rowAt db s firstMs)) with
      lastUpdatedTsMs := firstMs } : SlotState).slot = s from
    (slot_legacyRow resp _).trans (slot_rowAt db s firstMs)] at left
  obtain ⟨body, same⟩ := legacyRow_again resp (legacyPromoted resp (rowAt db s firstMs))
  obtain ⟨bodyBack, rowBack⟩ := legacyRow_readBack resp
    (legacyRow resp (legacyPromoted resp (rowAt db s firstMs))) firstMs
  refine ⟨?_, left, ?_, ?_⟩
  · rw [left]
    show (legacyRow resp _).status = _
    rw [legacyRow_eq]
    exact status_legacyPromoted resp _
  · rw [left, bodyBack, body]
  · rw [left, rowBack, same]

/-! ## Forced verdicts -/

omit [DenunciationDigest] in
theorem ofLocal_forcedRow {resp : FinalSlotResponse} {v : Verdict} (target : forcedTarget resp = .ok v)
    (row : SlotState) : Verdict.ofLocal (forcedRow row resp) = some v := by
  unfold forcedTarget at target
  rw [forcedRow, adoptedRow_eq, Verdict.ofLocal]
  cases miss : resp.isMiss with
  | true =>
      rw [miss] at target
      exact congrArg some (Except.ok.inj target)
  | false =>
      rw [miss] at target
      cases named : parseFinalBlockId resp with
      | none => simp [named] at target
      | some b =>
          rw [named] at target
          exact congrArg some (Except.ok.inj target)

/-- **A forced verdict finds itself.** -/
theorem forced_again (db : Db) (resp : FinalSlotResponse) (firstMs againMs : Int) :
    eventStages (step db ⟨.forcedVerdict resp, firstMs⟩) ⟨.forcedVerdict resp, againMs⟩ = [] := by
  cases about : slotOf resp with
  | none =>
      dsimp only [eventStages]
      rw [about]
  | some s =>
      cases target : forcedTarget resp with
      | error err =>
          dsimp only [eventStages]
          rw [about, target]
      | ok v =>
          have ignored : ∀ {db' : Db}, (rowAt db' s againMs).status = .final ∧
              Verdict.ofLocal (rowAt db' s againMs) = some v →
              eventStages db' ⟨.forcedVerdict resp, againMs⟩ = [] := by
            intro db' stands
            dsimp only [eventStages]
            rw [about, target]
            exact if_pos stands
          by_cases stands : (rowAt db s firstMs).status = .final ∧
              Verdict.ofLocal (rowAt db s firstMs) = some v
          · have unmoved : step db ⟨.forcedVerdict resp, firstMs⟩ = db := by
              rw [step_eq_stages]
              dsimp only [eventStages]
              rw [about, target]
              dsimp only
              rw [if_pos stands]
              rfl
            rw [unmoved]
            rw [← rowAt_settled stands.1 againMs] at stands
            exact ignored stands
          · have moved : rowMove db ⟨.forcedVerdict resp, firstMs⟩ =
                some ⟨{ forcedRow (rowAt db s firstMs) resp with lastUpdatedTsMs := firstMs }, false⟩ := by
              dsimp only [rowMove]
              rw [about, target]
              exact if_neg stands
            have left := rowAt_moved moved againMs
            rw [show ({ forcedRow (rowAt db s firstMs) resp with
                lastUpdatedTsMs := firstMs } : SlotState).slot = s from
              (slot_adoptedRow _ resp (parseFinalBlockId resp) (peerTrail resp)).trans (slot_rowAt db s firstMs)] at left
            refine ignored ?_
            rw [left]
            refine ⟨rfl, ?_⟩
            show Verdict.ofLocal (forcedRow (rowAt db s firstMs) resp) = some v
            exact ofLocal_forcedRow target _

end MassaIndexer.Writer.SecondDelivery
