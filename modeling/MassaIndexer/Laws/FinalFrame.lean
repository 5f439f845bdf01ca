/-
# Laws.FinalFrame -- what a FINAL frame leaves, whoever was first

The node's FINAL frame should determine its slot: the verdict, the trail hash, the executed
operations, the event count and the events. Candidate frames before it leave two things behind, the
trail hash where the FINAL frame has none and the executed list where the row has one
(`Residue`); a peer's answer before it leaves its trail hash, and a frame of another trail hash is
then ignored. `Outcome` is the part of a row the law is about.
-/
import MassaIndexer.Writer.BlockMoves
import MassaIndexer.Chain.Snapshot

namespace MassaIndexer.Laws.FinalFrame

open MassaIndexer.Theory.Runs MassaIndexer.Theory.KeyedTable
open MassaIndexer.Data.Ids MassaIndexer.Data.Model MassaIndexer.Data.Proto MassaIndexer.Data.Codec
open MassaIndexer.Data.RowCodec
open MassaIndexer.Store.ColumnFamilies MassaIndexer.Store.SlotRows
open MassaIndexer.Writer MassaIndexer.Writer.NodeProto MassaIndexer.Writer.NodeDecode
open MassaIndexer.Writer.Shared MassaIndexer.Writer.Handlers MassaIndexer.Writer.Step
open MassaIndexer.Writer.Families MassaIndexer.Writer.Patches MassaIndexer.Writer.Moves
open MassaIndexer.Writer.RowMoves MassaIndexer.Writer.BlockMoves
open MassaIndexer.Peer.Patch MassaIndexer.Peer.Arbiter MassaIndexer.Chain

set_option autoImplicit false

/-! ## Outcomes -/

/-- What a FINAL frame is to determine of a slot row. -/
@[ext]
structure Outcome where
  status : SlotStatus
  isMiss : Bool
  finalBlockId : Option BlockId
  trail : Option String
  executedOpIds : List OperationId
  scEventCount : UInt32
deriving DecidableEq

def outcomeOf (row : SlotState) : Outcome :=
  ⟨row.status, row.isMiss, row.finalBlockId, row.executionTrailHash, row.executedOpIds,
    row.scEventCount⟩

/-- A slot without a row counts as a fresh one. -/
def outcomeAt (db : Db) (s : Slot) : Outcome := outcomeOf (rowAt db s 0)

theorem outcomeOf_rowAt (db : Db) (s : Slot) (nowMs : Int) :
    outcomeOf (rowAt db s nowMs) = outcomeAt db s := by
  unfold outcomeAt rowAt
  cases db.readSlot s <;> rfl

theorem trail_outcomeAt (db : Db) (s : Slot) :
    readBackTrail (outcomeAt db s).trail = (outcomeAt db s).trail := by
  unfold outcomeAt rowAt
  cases found : db.readSlot s with
  | none => rfl
  | some row => exact Db.trail_of_readSlot found

/-- The slot ends alike: the outcome, and the events at every index. -/
structure SameEnd (s : Slot) (db db' : Db) : Prop where
  outcome : outcomeAt db s = outcomeAt db' s
  events : ∀ i, (filedEvents db).row s i = (filedEvents db').row s i

section Writers

variable [Bs58Check]

/-! ## Frames -/

/-- A frame of the slot, of one kind. -/
structure Frame (kind : ExecFrame) (s : Slot) where
  out : SlotExecutionOutput
  nowMs : Int
  exec : ExecutionOutput
  reads : readFrame out = some (s, kind, exec)

def Frame.event {kind : ExecFrame} {s : Slot} (f : Frame kind s) : Timed := ⟨.exec f.out, f.nowMs⟩

/-- The operations a frame reports as executed. -/
def executedList (exec : ExecutionOutput) : List OperationId :=
  exec.stateChanges.elim [] fun sc => Handlers.executedOpIds sc.executedOpsChanges

theorem fillExecutedOps_eq (exec : ExecutionOutput) (known : List OperationId) :
    fillExecutedOps exec known = if known.isEmpty then executedList exec else known := by
  unfold fillExecutedOps executedList
  cases exec.stateChanges with
  | none => cases known <;> rfl
  | some sc =>
      dsimp only [Option.elim_some]
      cases known with
      | cons op ops => simp
      | nil => cases Handlers.executedOpIds sc.executedOpsChanges <;> rfl

/-- What a frame makes of an open outcome. -/
def Outcome.framed (o : Outcome) (kind : ExecFrame) (exec : ExecutionOutput) : Outcome :=
  match kind with
  | .final => ⟨.final, exec.blockId.isNone, (frameBlock exec).or o.finalBlockId,
      readBackTrail ((frameTrail exec).or o.trail), fillExecutedOps exec o.executedOpIds,
      UInt32.ofNat exec.events.length⟩
  | .candidate => ⟨.candidate, o.isMiss, o.finalBlockId,
      readBackTrail ((frameTrail exec).or o.trail), fillExecutedOps exec o.executedOpIds,
      UInt32.ofNat exec.events.length⟩

theorem outcomeOf_frameRow (row : SlotState) (kind : ExecFrame) (exec : ExecutionOutput)
    (nowMs : Int) : outcomeOf (readBackSlotState (frameRow row kind exec nowMs)) =
      (outcomeOf row).framed kind exec := by
  cases kind <;> rfl

variable [DenunciationDigest]

theorem outcomeAt_of_rowMove {db : Db} {e : Timed} {m : RowMove} (moved : rowMove db e = some m) :
    outcomeAt (step db e) m.row.slot = outcomeOf (readBackSlotState m.row) := by
  have row := readSlot_step db e m.row.slot
  rw [moved] at row
  dsimp only at row
  rw [if_pos rfl] at row
  rw [outcomeAt, rowAt, row]
  rfl

variable {s : Slot} {kind : ExecFrame}

omit [DenunciationDigest] in
theorem rowMove_frame (f : Frame kind s) (db : Db) :
    rowMove db f.event = frameMove (rowAt db s f.nowMs) kind f.exec f.nowMs := by
  simp [rowMove, Frame.event, f.reads]

omit [DenunciationDigest] in
theorem status_rowAt (db : Db) (s : Slot) (nowMs : Int) :
    (rowAt db s nowMs).status = (outcomeAt db s).status :=
  congrArg Outcome.status (outcomeOf_rowAt db s nowMs)

theorem outcome_framed (f : Frame kind s) {db : Db} (open_ : (outcomeAt db s).status ≠ .final) :
    outcomeAt (step db f.event) s = (outcomeAt db s).framed kind f.exec := by
  have unsettled : (rowAt db s f.nowMs).status ≠ .final := by rwa [status_rowAt]
  have moved := rowMove_frame f db
  rw [frameMove, if_neg unsettled] at moved
  have here : (frameRow (rowAt db s f.nowMs) kind f.exec f.nowMs).slot = s :=
    (slot_frameRow _ _ _ _).trans (slot_rowAt _ _ _)
  have after := outcomeAt_of_rowMove moved
  dsimp only at after
  rw [here, outcomeOf_frameRow, outcomeOf_rowAt] at after
  exact after

theorem step_unconfirmed (f : Frame kind s) {db : Db}
    (settled : (rowAt db s f.nowMs).status = .final)
    (other : ¬ Completes (rowAt db s f.nowMs) kind f.exec) : step db f.event = db := by
  change (handleExec db f.out f.nowMs).db = db
  rw [handleExec_db, f.reads]
  dsimp only
  rw [if_pos settled, confirmFrame_eq, if_neg other]

/-- A settled slot ignores candidate frames. -/
theorem step_candidate_settled (f : Frame .candidate s) {db : Db}
    (settled : (outcomeAt db s).status = .final) : step db f.event = db := by
  have final : (rowAt db s f.nowMs).status = .final := by rw [status_rowAt, settled]
  exact step_unconfirmed f final fun completes => by cases completes.1

/-- What a FINAL frame adds to a settled outcome it completes. -/
theorem outcome_completed (f : Frame .final s) {db : Db}
    (settled : (rowAt db s f.nowMs).status = .final)
    (completes : Completes (rowAt db s f.nowMs) .final f.exec) :
    outcomeAt (step db f.event) s = { outcomeAt db s with
      trail := readBackTrail ((outcomeAt db s).trail.or (frameTrail f.exec))
      executedOpIds := fillExecutedOps f.exec (outcomeAt db s).executedOpIds
      scEventCount := UInt32.ofNat f.exec.events.length } := by
  have moved := rowMove_frame f db
  rw [frameMove, if_pos settled, if_pos completes] at moved
  have after := outcomeAt_of_rowMove moved
  have here : (completedRow (rowAt db s f.nowMs) f.exec f.nowMs).slot = s := slot_rowAt _ _ _
  dsimp only at after
  rw [here] at after
  rw [after, ← outcomeOf_rowAt db s f.nowMs]
  rfl

/-! ## Candidate frames first -/

/-- The trail hash of the last frame that has one. -/
def lastTrail (frames : List (Frame .candidate s)) : Option String :=
  (frames.filterMap fun f => frameTrail f.exec).getLast?

/-- The executed operations of the first frame that has any. -/
def firstExecuted (frames : List (Frame .candidate s)) : List OperationId :=
  ((frames.map fun f => executedList f.exec).find? fun ops => !ops.isEmpty).getD []

/-- Candidate frames leave no trail hash that the FINAL frame does not overwrite, and no executed
list that the FINAL frame would not have written. -/
structure NoResidue (o : Outcome) (frames : List (Frame .candidate s)) (exec : ExecutionOutput) :
    Prop where
  trail : frameTrail exec = none → ∀ t, lastTrail frames = some t → readBackTrail (some t) = o.trail
  executed : o.executedOpIds = [] → firstExecuted frames ≠ [] →
    firstExecuted frames = executedList exec

def Outcome.framedAll (o : Outcome) (frames : List (Frame .candidate s)) : Outcome :=
  frames.foldl (fun o f => o.framed .candidate f.exec) o

theorem outcome_candidates (frames : List (Frame .candidate s)) {db : Db}
    (open_ : (outcomeAt db s).status ≠ .final) :
    outcomeAt (run step db (frames.map Frame.event)) s = (outcomeAt db s).framedAll frames ∧
      (outcomeAt (run step db (frames.map Frame.event)) s).status ≠ .final := by
  induction frames generalizing db with
  | nil => exact ⟨rfl, open_⟩
  | cons f frames ih =>
      have first := outcome_framed f open_
      have still : (outcomeAt (step db f.event) s).status ≠ .final := by
        rw [first]
        intro same
        cases same
      obtain ⟨later, status⟩ := ih still
      rw [first] at later
      exact ⟨later, status⟩

theorem run_candidates_settled (frames : List (Frame .candidate s)) {db : Db}
    (settled : (outcomeAt db s).status = .final) :
    run step db (frames.map Frame.event) = db := by
  induction frames with
  | nil => rfl
  | cons f frames ih =>
      rw [List.map_cons, run_cons, step_candidate_settled f settled]
      exact ih

omit [DenunciationDigest] in
theorem trail_framedAll (frames : List (Frame .candidate s)) {o : Outcome}
    (normal : readBackTrail o.trail = o.trail) :
    (o.framedAll frames).trail = readBackTrail ((lastTrail frames).or o.trail) := by
  induction frames generalizing o with
  | nil => exact normal.symm
  | cons f frames ih =>
      have later := ih (o := o.framed .candidate f.exec) (readBackTrail_idem _)
      refine later.trans ?_
      unfold lastTrail
      cases own : frameTrail f.exec with
      | none =>
          simp only [List.filterMap_cons, Outcome.framed, own, Option.none_or, normal]
      | some t =>
          simp only [List.filterMap_cons, own, List.getLast?_cons]
          cases (frames.filterMap fun f => frameTrail f.exec).getLast? with
          | none => simp [Outcome.framed, own]
          | some t' => rfl

omit [DenunciationDigest] in
theorem executed_framedAll (frames : List (Frame .candidate s)) (o : Outcome) :
    (o.framedAll frames).executedOpIds =
      if o.executedOpIds.isEmpty then firstExecuted frames else o.executedOpIds := by
  induction frames generalizing o with
  | nil =>
      change o.executedOpIds = if o.executedOpIds.isEmpty then [] else o.executedOpIds
      cases o.executedOpIds <;> rfl
  | cons f frames ih =>
      have later := ih (o.framed .candidate f.exec)
      refine later.trans ?_
      simp only [Outcome.framed, fillExecutedOps_eq]
      cases o.executedOpIds with
      | cons op ops => rfl
      | nil =>
          unfold firstExecuted
          rw [List.map_cons]
          cases own : executedList f.exec with
          | nil => rw [List.find?_cons_of_neg (by simp)]; rfl
          | cons op ops => rw [List.find?_cons_of_pos (by simp)]; rfl

omit [DenunciationDigest] in
theorem kept_framedAll (frames : List (Frame .candidate s)) (o : Outcome) :
    (o.framedAll frames).isMiss = o.isMiss ∧ (o.framedAll frames).finalBlockId = o.finalBlockId := by
  induction frames generalizing o with
  | nil => exact ⟨rfl, rfl⟩
  | cons f frames ih => exact ih (o.framed .candidate f.exec)

omit [DenunciationDigest] in
/-- **A FINAL frame after candidate frames ends as it would have alone exactly when they left no
residue.** -/
theorem framedAll_framed_iff (frames : List (Frame .candidate s)) (exec : ExecutionOutput) {o : Outcome}
    (normal : readBackTrail o.trail = o.trail) :
    (o.framedAll frames).framed .final exec = o.framed .final exec ↔ NoResidue o frames exec := by
  have trails : readBackTrail ((frameTrail exec).or (o.framedAll frames).trail) =
      readBackTrail ((frameTrail exec).or o.trail) ↔
      (frameTrail exec = none → ∀ t, lastTrail frames = some t → readBackTrail (some t) = o.trail) := by
    rw [trail_framedAll frames normal]
    cases frameTrail exec with
    | some t => simp
    | none =>
        cases lastTrail frames with
        | none => simp
        | some t => simp [normal]
  have executed : fillExecutedOps exec (o.framedAll frames).executedOpIds =
      fillExecutedOps exec o.executedOpIds ↔
      (o.executedOpIds = [] → firstExecuted frames ≠ [] → firstExecuted frames = executedList exec) := by
    rw [executed_framedAll, fillExecutedOps_eq, fillExecutedOps_eq]
    cases o.executedOpIds with
    | cons op ops => simp
    | nil => cases firstExecuted frames <;> simp
  obtain ⟨isMiss, block⟩ := kept_framedAll frames o
  constructor
  · intro same
    exact ⟨trails.mp (congrArg Outcome.trail same), executed.mp (congrArg Outcome.executedOpIds same)⟩
  · rintro ⟨trail, ops⟩
    unfold Outcome.framed
    dsimp only
    rw [trails.mpr trail, executed.mpr ops, block]

/-! ## Events -/

/-- A frame that clears the slot leaves its own events there. -/
theorem events_of_frameMove (f : Frame .final s) {db : Db}
    (clears : frameEventMove (rowAt db s f.nowMs) s .final f.exec =
      ⟨some s, frameEvents s .final f.exec⟩) (i : UInt32) :
    (filedEvents (step db f.event)).row s i =
      (last eventFiling (frameEvents s .final f.exec) s i).map Row.stored := by
  have moved : eventMove db f.event = ⟨some s, frameEvents s .final f.exec⟩ := by
    rw [← clears]
    simp [eventMove, Frame.event, f.reads]
  rw [filedEvents_step, moved, row_run]
  dsimp only
  rw [if_pos rfl, Option.or_none]

theorem events_framed (f : Frame .final s) {db : Db} (open_ : (outcomeAt db s).status ≠ .final)
    (i : UInt32) : (filedEvents (step db f.event)).row s i =
      (last eventFiling (frameEvents s .final f.exec) s i).map Row.stored := by
  refine events_of_frameMove f ?_ i
  have unsettled : (rowAt db s f.nowMs).status ≠ .final := by rwa [status_rowAt]
  rw [frameEventMove, if_neg unsettled]

theorem events_completed (f : Frame .final s) {db : Db}
    (settled : (rowAt db s f.nowMs).status = .final)
    (completes : Completes (rowAt db s f.nowMs) .final f.exec) (i : UInt32) :
    (filedEvents (step db f.event)).row s i =
      (last eventFiling (frameEvents s .final f.exec) s i).map Row.stored := by
  refine events_of_frameMove f ?_ i
  rw [frameEventMove, if_pos settled]
  exact if_pos completes

/-- **Candidate frames first**: the FINAL frame determines an open slot exactly when they leave no
residue, and a settled one always. -/
theorem sameEnd_candidates_iff (frames : List (Frame .candidate s)) (f : Frame .final s) (db : Db) :
    SameEnd s (run step db (frames.map Frame.event ++ [f.event])) (step db f.event) ↔
      ((outcomeAt db s).status ≠ .final → NoResidue (outcomeAt db s) frames f.exec) := by
  rw [run_append, run_cons, run_nil]
  by_cases settled : (outcomeAt db s).status = .final
  · rw [run_candidates_settled frames settled]
    exact ⟨fun _ open_ => absurd settled open_, fun _ => ⟨rfl, fun _ => rfl⟩⟩
  · obtain ⟨after, open_⟩ := outcome_candidates frames settled
    have outcome := framedAll_framed_iff frames f.exec (trail_outcomeAt db s)
    rw [← after, ← outcome_framed f open_, ← outcome_framed f settled] at outcome
    constructor
    · intro same _
      exact outcome.mp same.outcome
    · intro none
      refine ⟨outcome.mpr (none settled), fun i => ?_⟩
      rw [events_framed f open_, events_framed f settled]

/-! ## A peer's answer first -/

/-- An answer without exec part that settles the open slot first, on the frame's verdict. -/
structure PeerFirst (db : Db) (f : Frame .final s) where
  resp : FinalSlotResponse
  nowMs : Int
  open_ : (outcomeAt db s).status ≠ .final
  about : slotOf resp = some s
  known : resp.finalKnown = true
  noExec : (execPartPresent resp || execAsserted resp) = false
  sameMiss : resp.isMiss = f.exec.blockId.isNone
  sameBlock : resp.isMiss = false → parseFinalBlockId resp = frameBlock f.exec

namespace PeerFirst

variable {db : Db} {f : Frame .final s} (first : PeerFirst db f)

def event : Timed := ⟨.peerPatch first.resp, first.nowMs⟩

/-- The trail hash the answer leaves. -/
def trail : Option String := (peerTrail first.resp).or (outcomeAt db s).trail

/-- The row the answer leaves. -/
def row : SlotState :=
  { peerRow first.resp (promote { rowAt db s first.nowMs with
      executionTrailHash :=
        (peerTrail first.resp).or (rowAt db s first.nowMs).executionTrailHash }
    first.resp.isMiss (parseFinalBlockId first.resp)) with lastUpdatedTsMs := first.nowMs }

omit [DenunciationDigest] in
theorem rowMove_event : rowMove db first.event = some ⟨first.row, true⟩ := by
  have unsettled : (rowAt db s first.nowMs).status ≠ .final := by
    rw [status_rowAt]
    exact first.open_
  have taken : rowMove db first.event = some (peerMove (rowAt db s first.nowMs) first.resp first.nowMs
      (reconcileVerdict db s (rowAt db s first.nowMs) first.resp)) := by
    simp [rowMove, event, first.about, first.known]
  rw [taken, reconcileVerdict, if_pos unsettled]
  rfl

omit [DenunciationDigest] in
theorem slot_row : first.row.slot = s := by
  refine (slot_peerRow first.resp _).trans ((slot_promote _ _ _).trans ?_)
  exact slot_rowAt db s first.nowMs

omit [DenunciationDigest] in
/-- The answer brings no exec part: only the verdict and the trail hash move. -/
theorem outcomeOf_row : outcomeOf first.row = ⟨.final, first.resp.isMiss,
    if first.resp.isMiss then (outcomeAt db s).finalBlockId
      else (parseFinalBlockId first.resp).or (outcomeAt db s).finalBlockId,
    first.trail, (outcomeAt db s).executedOpIds, (outcomeAt db s).scEventCount⟩ := by
  have untaken : ∀ row, takesExec first.resp row = false := by
    intro row
    rw [takesExec, first.noExec]
    rfl
  have same := outcomeOf_rowAt db s first.nowMs
  unfold row trail
  rw [peerRow_eq, promote_eq, untaken, ← same]
  rfl

omit [DenunciationDigest] in
theorem exec_row : first.row.completeness.execOutputFinal =
    (rowAt db s first.nowMs).completeness.execOutputFinal := by
  unfold row
  rw [peerRow_eq, promote_eq]
  simp [takesExec, first.noExec]

omit [DenunciationDigest] in
theorem normal_trail : readBackTrail first.trail = first.trail := by
  have own : readBackTrail (peerTrail first.resp) = peerTrail first.resp := by
    unfold peerTrail
    split
    · rfl
    · next nonempty => simp [readBackTrail, Option.filter, nonempty]
  exact readBackTrail_or own (trail_outcomeAt db s)

theorem rowAt_step (nowMs : Int) :
    rowAt (step db first.event) s nowMs = readBackSlotState first.row := by
  have after := readSlot_step db first.event s
  rw [first.rowMove_event] at after
  dsimp only at after
  rw [if_pos first.slot_row] at after
  rw [rowAt, after]
  rfl

theorem outcomeAt_step : outcomeAt (step db first.event) s = ⟨.final, first.resp.isMiss,
    if first.resp.isMiss then (outcomeAt db s).finalBlockId
      else (parseFinalBlockId first.resp).or (outcomeAt db s).finalBlockId,
    first.trail, (outcomeAt db s).executedOpIds, (outcomeAt db s).scEventCount⟩ := by
  have left := first.outcomeOf_row
  rw [outcomeAt, first.rowAt_step, ← first.normal_trail]
  exact congrArg (fun o : Outcome => { o with trail := readBackTrail o.trail }) left

end PeerFirst

/-- An open slot of a reachable store has no verdict and no exec part. -/
theorem open_ingest (history : List Timed) (nowMs : Int)
    (open_ : (outcomeAt (ingest history) s).status ≠ .final) :
    (outcomeAt (ingest history) s).finalBlockId = none ∧
      (rowAt (ingest history) s nowMs).completeness.execOutputFinal = false := by
  have wf := wellFormed_ingest history s
  have unsettled := unsettled_ingest history s
  unfold outcomeAt rowAt at open_ ⊢
  cases found : (ingest history).readSlot s with
  | none => exact ⟨rfl, rfl⟩
  | some row =>
      rw [found] at open_
      have here : (ledgerOf (ingest history)).reg s = registerOf row := by
        simp [ledgerOf, found]
      rw [here] at wf
      exact ⟨(wf.unsettled open_).2, unsettled row found open_⟩

/-- The frame finds the answer's trail hash or none. -/
structure SameTrail (o : Outcome) (offered : Option String) (exec : ExecutionOutput) : Prop where
  agree : trailsDiffer (offered.or o.trail) (frameTrail exec) = false
  own : frameTrail exec = none → offered.or o.trail = o.trail

omit [Bs58Check] [DenunciationDigest] in
theorem trail_completed_iff {held before own : Option String} (agree : trailsDiffer held own = false)
    (normal : readBackTrail held = held) (normal' : readBackTrail before = before) :
    readBackTrail (held.or own) = readBackTrail (own.or before) ↔ (own = none → held = before) := by
  cases own with
  | none => simp [normal, normal']
  | some t =>
      cases held with
      | none => simp
      | some t' =>
          have same : t' = t := by simpa [trailsDiffer] using agree
          simp [same]

omit [Bs58Check] [DenunciationDigest] in
/-- A trail hash that the frame would have left agrees with the frame's. -/
theorem agree_of_trails_eq {held before own : Option String}
    (same : held = readBackTrail (own.or before)) : trailsDiffer held own = false := by
  subst same
  cases own with
  | none => cases readBackTrail (none.or before) <;> rfl
  | some t => cases empty : t.isEmpty <;> simp [readBackTrail, Option.filter, empty, trailsDiffer]

/-- **A peer's answer first**: the frame still determines the slot exactly when the answer left the
frame's own trail hash, or the slot's where the frame has none. -/
theorem sameEnd_peer_iff {history : List Timed} {f : Frame .final s}
    (first : PeerFirst (ingest history) f) :
    SameEnd s (step (step (ingest history) first.event) f.event) (step (ingest history) f.event) ↔
      SameTrail (outcomeAt (ingest history) s) (peerTrail first.resp) f.exec := by
  obtain ⟨noBlock, noExec⟩ := open_ingest history first.nowMs first.open_
  have alone := outcome_framed f first.open_
  generalize ingest history = db at first noBlock noExec alone ⊢
  have held := first.outcomeAt_step
  have row := outcomeOf_rowAt (step db first.event) s f.nowMs
  rw [held] at row
  have settled : (rowAt (step db first.event) s f.nowMs).status = .final :=
    congrArg Outcome.status row
  have trail : (rowAt (step db first.event) s f.nowMs).executionTrailHash = first.trail :=
    congrArg Outcome.trail row
  have completes_iff : Completes (rowAt (step db first.event) s f.nowMs) .final f.exec ↔
      trailsDiffer first.trail (frameTrail f.exec) = false := by
    have exec : (rowAt (step db first.event) s f.nowMs).completeness.execOutputFinal = false := by
      rw [first.rowAt_step]
      exact first.exec_row.trans noExec
    have isMiss : (rowAt (step db first.event) s f.nowMs).isMiss = first.resp.isMiss :=
      congrArg Outcome.isMiss row
    have block := congrArg Outcome.finalBlockId row
    have verdict : sameVerdict (rowAt (step db first.event) s f.nowMs) f.exec = true := by
      unfold sameVerdict
      rw [isMiss, first.sameMiss]
      cases miss : f.exec.blockId.isNone with
      | true => rfl
      | false =>
          have open_ : first.resp.isMiss = false := first.sameMiss.trans miss
          rw [open_, noBlock, Option.or_none, first.sameBlock open_] at block
          have same : (rowAt (step db first.event) s f.nowMs).finalBlockId = frameBlock f.exec := block
          simp [same]
    rw [Completes, trail, exec, verdict]
    simp
  have verdict : (if first.resp.isMiss then (outcomeAt db s).finalBlockId
      else (parseFinalBlockId first.resp).or (outcomeAt db s).finalBlockId) =
      (frameBlock f.exec).or (outcomeAt db s).finalBlockId := by
    rw [noBlock]
    cases miss : first.resp.isMiss with
    | true =>
        have absent : f.exec.blockId = none := by
          simpa [miss] using first.sameMiss.symm
        simp [frameBlock, absent]
    | false => simp [first.sameBlock miss]
  have normal := first.normal_trail
  have normal' := trail_outcomeAt db s
  by_cases agree : trailsDiffer first.trail (frameTrail f.exec) = false
  · have completes := completes_iff.mpr agree
    have after := outcome_completed f settled completes
    rw [held, verdict] at after
    dsimp only at after
    have trails := trail_completed_iff agree normal normal'
    constructor
    · intro same
      refine ⟨agree, trails.mp ?_⟩
      have ends := congrArg Outcome.trail same.outcome
      rw [after, alone] at ends
      exact ends
    · intro same
      refine ⟨?_, fun i => ?_⟩
      · rw [after, alone, trails.mpr same.own, first.sameMiss]
        rfl
      · rw [events_completed f settled completes, events_framed f first.open_]
  · have ignored := step_unconfirmed f settled (mt completes_iff.mp agree)
    refine ⟨fun same => absurd ?_ agree, fun same => absurd same.agree agree⟩
    have ends := congrArg Outcome.trail same.outcome
    rw [ignored, held, alone] at ends
    exact agree_of_trails_eq ends

/-! ## Both -/

/-- **When the FINAL frame determines its slot.** Candidate frames before it change nothing exactly
when the slot is settled or they leave no residue; an answer without exec part and of the same verdict
changes nothing exactly when it leaves the frame's trail hash. -/
theorem final_frame_determines_iff (history : List Timed) (f : Frame .final s) :
    (∀ frames : List (Frame .candidate s),
      SameEnd s (ingest (history ++ (frames.map Frame.event ++ [f.event])))
          (ingest (history ++ [f.event])) ↔
        ((outcomeAt (ingest history) s).status ≠ .final →
          NoResidue (outcomeAt (ingest history) s) frames f.exec)) ∧
    ∀ first : PeerFirst (ingest history) f,
      SameEnd s (ingest (history ++ [first.event, f.event])) (ingest (history ++ [f.event])) ↔
        SameTrail (outcomeAt (ingest history) s) (peerTrail first.resp) f.exec := by
  have after : ∀ events, ingest (history ++ events) = run step (ingest history) events :=
    fun events => run_append _ _ _ _
  constructor
  · intro frames
    rw [after, after]
    exact sameEnd_candidates_iff frames f (ingest history)
  · intro first
    rw [after, after]
    exact sameEnd_peer_iff first

end Writers

/-! ## A fork's trail hash on a missed slot -/

section Fork

attribute [local instance] Bs58Check.doubleSha noDenunciations

/-- A candidate frame of slot (10, 0) with a trail hash. -/
def forkFrame : Frame .candidate ⟨10, 0⟩ where
  out :=
    { status := 1
      executionOutput := some
        { slot := some ⟨10, 0⟩
          stateChanges := some { executionTrailHashChange := some (.set "fork") } } }
  nowMs := 0
  exec :=
    { slot := some ⟨10, 0⟩
      stateChanges := some { executionTrailHashChange := some (.set "fork") } }
  reads := rfl

/-- The slot is missed, and its frame has no state changes. -/
def missFrame : Frame .final ⟨10, 0⟩ where
  out := { status := 2, executionOutput := some { slot := some ⟨10, 0⟩ } }
  nowMs := 0
  exec := { slot := some ⟨10, 0⟩ }
  reads := rfl

/-- **The missed slot ends with the fork's trail hash.** -/
theorem fork_leaves_trail :
    ¬ SameEnd ⟨10, 0⟩ (ingest [forkFrame.event, missFrame.event]) (ingest [missFrame.event]) := by
  intro same
  have fresh : (outcomeAt Db.empty ⟨10, 0⟩).status ≠ .final := by
    simp [outcomeAt, rowAt, Db.empty, Db.readSlot, outcomeOf, SlotState.fresh]
  have clean := (sameEnd_candidates_iff [forkFrame] missFrame Db.empty).mp same fresh
  have held : readBackTrail (some "fork") = (outcomeAt Db.empty ⟨10, 0⟩).trail :=
    clean.trail rfl "fork" rfl
  have none : (outcomeAt Db.empty ⟨10, 0⟩).trail = none := by
    simp [outcomeAt, rowAt, Db.empty, Db.readSlot, outcomeOf, SlotState.fresh]
  rw [none] at held
  exact absurd held (by decide)

end Fork

end MassaIndexer.Laws.FinalFrame
