/-
# Writer.BlockMoves -- what an event does to block rows

An event discards the block of a verdict it replaces, enters a body it ships unless one is there,
writes the row of a block of the node, and settles statuses by the row it leaves: in this order, and
each at most once (`BlockMove`). All of it is pointwise (`readBlock_step`).
-/
import MassaIndexer.Writer.RowMoves

namespace MassaIndexer.Writer.BlockMoves

open MassaIndexer.Theory.Footprint MassaIndexer.Theory.Runs
open MassaIndexer.Data.Ids MassaIndexer.Data.Model MassaIndexer.Data.Proto MassaIndexer.Data.Codec
open MassaIndexer.Store.ColumnFamilies MassaIndexer.Store.Footprint
open MassaIndexer.Writer.NodeProto MassaIndexer.Writer.NodeDecode
open MassaIndexer.Writer.Shared MassaIndexer.Writer.Handlers MassaIndexer.Writer.Step
open MassaIndexer.Writer.Families MassaIndexer.Writer.Patches MassaIndexer.Writer.RowMoves
open MassaIndexer.Peer.Patch MassaIndexer.Peer.Arbiter

set_option autoImplicit false

/-! ## Statuses -/

/-- The status a verdict gives a block: FINAL for its own, discarded for the other candidates. -/
def statusBy (finalBlockId : Option BlockId) (candidates : List BlockId) (b : BlockId) :
    Option BlockStatus :=
  if finalBlockId = some b then some .final
  else if b ∈ candidates then some .discarded
  else none

def settledTo (status : Option BlockStatus) (block : StoredBlock) : StoredBlock :=
  status.elim block fun status => { block with status := status }

@[simp] theorem settledTo_none : settledTo none = id := rfl

theorem settledTo_settledTo (first second : Option BlockStatus) (block : StoredBlock) :
    settledTo second (settledTo first block) = settledTo (second.or first) block := by
  cases first <;> cases second <;> rfl

theorem readBlock_settleBlock (db : Db) (b c : BlockId) (status : BlockStatus) :
    (settleBlock db b status).readBlock c =
      (db.readBlock c).map (settledTo (if b = c then some status else none)) := by
  unfold settleBlock
  cases found : db.readBlock b with
  | none =>
      by_cases here : b = c
      · subst here
        simp [found]
      · simp [here]
  | some block =>
      have own : block.id = b := Db.id_of_readBlock found
      by_cases here : b = c
      · subst here
        dsimp only
        split
        · rw [Db.readBlock_writeBlock, if_pos own, found, if_pos rfl]
          rfl
        · next same =>
            rw [found, if_pos rfl]
            have kept : { block with status := status } = block := by
              rw [← not_not.mp same]
            exact congrArg some kept.symm
      · dsimp only
        rw [if_neg here]
        have other : (db.writeBlock { block with status := status }).readBlock c = db.readBlock c := by
          rw [Db.readBlock_writeBlock, if_neg]
          exact fun same => here (own.symm.trans same)
        rw [settledTo_none, Option.map_id_fun, id_eq]
        split
        · exact other
        · rfl

theorem readBlock_applyFinality (db : Db) (final : Option BlockId) (candidates : List BlockId)
    (b : BlockId) : (applyFinalityToBlocks db final candidates).readBlock b =
      (db.readBlock b).map (settledTo (statusBy final candidates b)) := by
  have fold : ∀ db : Db, (candidates.foldl (fun db bid => settleBlock db bid
      (if some bid = final then .final else .discarded)) db).readBlock b =
        (db.readBlock b).map (settledTo
          (if b ∈ candidates then some (if some b = final then .final else .discarded) else none)) := by
    induction candidates with
    | nil => exact fun db => Option.map_id'.symm
    | cons c candidates ih =>
        intro db
        rw [List.foldl_cons, ih, readBlock_settleBlock, Option.map_map]
        congr 1
        funext block
        rw [Function.comp_apply, settledTo_settledTo]
        congr 1
        by_cases here : c = b
        · subst here
          by_cases later : c ∈ candidates <;> simp [later]
        · by_cases later : b ∈ candidates <;> simp [later, here, Ne.symm here]
  unfold applyFinalityToBlocks statusBy
  cases final with
  | none => simpa using fold db
  | some f =>
      dsimp only
      split
      · next listed =>
          rw [fold]
          by_cases here : f = b
          · subst here
            simp [listed]
          · simp [here, Ne.symm here]
      · next fresh =>
          rw [readBlock_settleBlock, fold, Option.map_map]
          congr 1
          funext block
          rw [Function.comp_apply, settledTo_settledTo]
          by_cases here : f = b
          · subst here
            simp [fresh]
          · simp [here, Ne.symm here]

/-! ## Moves -/

structure BlockMove where
  discard : Option BlockId := none
  store : Option StoredBlock := none
  seen : Option StoredBlock := none
  settle : Option (Option BlockId × List BlockId) := none

namespace BlockMove

variable (m : BlockMove)

def run (db : Db) : Db :=
  let db := m.discard.elim db (settleBlock db · .discarded)
  let db := m.store.elim db fun block =>
    if (db.readBlock block.id).isNone then db.writeBlock block else db
  let db := m.seen.elim db db.writeBlock
  m.settle.elim db fun verdict => applyFinalityToBlocks db verdict.1 verdict.2

/-- The same at one id. -/
def rowOf (b : BlockId) (old : Option StoredBlock) : Option StoredBlock :=
  let old := old.map (settledTo (if m.discard = some b then some .discarded else none))
  let old := old.or (m.store.filter (·.id = b))
  let old := (m.seen.filter (·.id = b)).or old
  old.map (settledTo (m.settle.bind fun verdict => statusBy verdict.1 verdict.2 b))

theorem readBlock_run (db : Db) (b : BlockId) :
    (m.run db).readBlock b = m.rowOf b (db.readBlock b) := by
  have discarded : ∀ db : Db, (m.discard.elim db (settleBlock db · .discarded)).readBlock b =
      (db.readBlock b).map (settledTo (if m.discard = some b then some .discarded else none)) := by
    intro db
    cases m.discard with
    | none => simp
    | some c => simpa using readBlock_settleBlock db c b .discarded
  have stored : ∀ db : Db, (m.store.elim db fun block =>
      if (db.readBlock block.id).isNone then db.writeBlock block else db).readBlock b =
        (db.readBlock b).or (m.store.filter (·.id = b)) := by
    intro db
    cases m.store with
    | none => simp
    | some block =>
        rw [Option.elim_some, Option.filter_some]
        by_cases here : block.id = b
        · subst here
          cases found : db.readBlock block.id with
          | none => simp [Db.readBlock_writeBlock]
          | some old => simp [found]
        · simp only [here, decide_false, Bool.false_eq_true, if_false, Option.or_none]
          split
          · rw [Db.readBlock_writeBlock, if_neg here]
          · rfl
  have seen : ∀ db : Db, (m.seen.elim db db.writeBlock).readBlock b =
      (m.seen.filter (·.id = b)).or (db.readBlock b) := by
    intro db
    cases m.seen with
    | none => rfl
    | some block =>
        rw [Option.elim_some, Option.filter_some, Db.readBlock_writeBlock]
        by_cases here : block.id = b <;> simp [here]
  have settled : ∀ db : Db, (m.settle.elim db fun verdict =>
      applyFinalityToBlocks db verdict.1 verdict.2).readBlock b =
        (db.readBlock b).map (settledTo (m.settle.bind fun verdict =>
          statusBy verdict.1 verdict.2 b)) := by
    intro db
    cases m.settle with
    | none => simp
    | some verdict => exact readBlock_applyFinality db verdict.1 verdict.2 b
  unfold run rowOf
  dsimp only
  rw [settled, seen, stored, discarded]

/-- A block that a move discards or settles ends alike, whatever its status was. -/
theorem rowOf_congr {m : BlockMove} {b : BlockId} {old old' : Option StoredBlock}
    (alike : old.map (settledTo (some .discarded)) = old'.map (settledTo (some .discarded)))
    (named : m.discard = some b ∨ ∃ verdict, m.settle = some verdict ∧ b ∈ verdict.2) :
    m.rowOf b old = m.rowOf b old' := by
  by_cases discarded : m.discard = some b
  · unfold rowOf
    rw [if_pos discarded, alike]
  · obtain ⟨verdict, settles, listed⟩ := named.resolve_left discarded
    have status : ∃ status, statusBy verdict.1 verdict.2 b = some status := by
      unfold statusBy
      rw [if_pos listed]
      split <;> exact ⟨_, rfl⟩
    obtain ⟨status, given⟩ := status
    have forget : ∀ block : StoredBlock, settledTo (some status) block =
        settledTo (some status) (settledTo (some .discarded) block) := fun block => rfl
    have late : ∀ old : Option StoredBlock, m.rowOf b old =
        ((m.seen.filter (·.id = b)).or ((old.map (settledTo (some .discarded))).or
          (m.store.filter (·.id = b)))).map (settledTo (some status)) := by
      intro old
      unfold rowOf
      rw [if_neg discarded, settles, Option.bind_some, given, settledTo_none, Option.map_id_fun, id_eq]
      cases m.seen.filter (·.id = b) with
      | some seen => rfl
      | none =>
          cases old with
          | none => rfl
          | some block => exact congrArg some (forget block)
    rw [late, late, alike]

end BlockMove

variable [Bs58Check]

def frameBlockMove (row : SlotState) (frame : ExecFrame) (exec : ExecutionOutput) : BlockMove where
  settle :=
    if row.status = .final then
      if Completes row frame exec then some (row.finalBlockId, row.candidateBlockIds) else none
    else if frame = .final then
      some ((frameBlock exec).or row.finalBlockId, row.candidateBlockIds)
    else none

def peerBlockMove (row : SlotState) (resp : FinalSlotResponse) : Reconciled → BlockMove
  | .turnedAway _ => {}
  | .proceed p =>
      { discard := if p.out.divergenceRepaired then row.finalBlockId else none
        store := deliveredBlock resp
        settle :=
          some ((peerRow resp p.state).finalBlockId, (peerRow resp p.state).candidateBlockIds) }

def legacyBlockMove (resp : FinalSlotResponse) (row : SlotState) : BlockMove :=
  let state := legacyPromoted resp row
  let left := legacyRow resp state
  { store := legacyBody resp state
    settle :=
      if left.completeness.execOutputFinal && left.completeness.blockBodyStored then
        some (left.finalBlockId, left.candidateBlockIds)
      else none }

def forcedBlockMove (row : SlotState) (resp : FinalSlotResponse) : BlockMove where
  discard := row.finalBlockId
  settle := some ((forcedRow row resp).finalBlockId, (forcedRow row resp).candidateBlockIds)

/-- The row of a block of the node that is taken. -/
def seenRow (db : Db) (b : TakenBlock) (nowMs : Int) : StoredBlock :=
  seenBlock db b.head b.endorsements b.operationIds
    (initialBlockStatus (rowAt db b.head.slot nowMs) b.head.id) nowMs

def blockMove (db : Db) (e : Timed) : BlockMove :=
  match e.event with
  | .block fb => { seen := (takenBlock db fb e.nowMs).map (seenRow db · e.nowMs) }
  | .exec out =>
      (readFrame out).elim {} fun (s, frame, exec) => frameBlockMove (rowAt db s e.nowMs) frame exec
  | .peerPatch resp =>
      if resp.finalKnown then
        (slotOf resp).elim {} fun s => peerBlockMove (rowAt db s e.nowMs) resp
          (reconcileVerdict db s (rowAt db s e.nowMs) resp)
      else {}
  | .legacyPatch resp =>
      if resp.finalKnown then
        (slotOf resp).elim {} fun s => legacyBlockMove resp (rowAt db s e.nowMs)
      else {}
  | .forcedVerdict resp =>
      match slotOf resp, forcedTarget resp with
      | some s, .ok v =>
          if (rowAt db s e.nowMs).status = .final ∧ Verdict.ofLocal (rowAt db s e.nowMs) = some v then {}
          else forcedBlockMove (rowAt db s e.nowMs) resp
      | _, _ => {}
  | _ => {}

variable [DenunciationDigest]

theorem blocks_node (db : Db) (fb : FilledBlock) (nowMs : Int) :
    contents (step db ⟨.block fb, nowMs⟩) .blocks =
      contents ((blockMove db ⟨.block fb, nowMs⟩).run db) .blocks := by
  change contents (handleBlock db fb nowMs).db .blocks = _
  dsimp only [blockMove]
  unfold takenBlock
  cases decoded : decodeHead fb with
  | error err => rw [handleBlock, decoded]; rfl
  | ok head =>
      rw [handleBlock_db decoded]
      dsimp only
      unfold handleBlockStages
      cases (persistEndorsements db (head.endorsements nowMs)).result with
      | error err => rw [contents_runAll]; rfl
      | ok done =>
          cases (ingestOperations db head nowMs fb.operations).result with
          | error err => rw [contents_runAll]; rfl
          | ok operationIds =>
              cases (head.endorsements nowMs).mapM resolveEndorsement with
              | error err => rw [contents_runAll]; rfl
              | ok endorsements => rw [contents_runAll]; rfl

theorem blocks_exec (db : Db) (out : SlotExecutionOutput) (nowMs : Int) :
    contents (step db ⟨.exec out, nowMs⟩) .blocks =
      contents ((blockMove db ⟨.exec out, nowMs⟩).run db) .blocks := by
  change contents (handleExec db out nowMs).db .blocks = _
  rw [handleExec_db]
  dsimp only [blockMove]
  rcases readFrame out with - | ⟨s, frame, exec⟩
  · rfl
  · simp only [Option.elim_some, frameBlockMove]
    by_cases settled : (rowAt db s nowMs).status = .final
    · rw [if_pos settled, confirmFrame_eq]
      simp only [if_pos settled]
      by_cases completes : Completes (rowAt db s nowMs) frame exec
      · simp only [if_pos completes]
        rw [completeFinalExecFromNode_eq, contents_runAll]
        rfl
      · simp only [if_neg completes]
        rfl
    · rw [if_neg settled, recordFrame_eq, contents_runAll]
      simp only [if_neg settled]
      cases frame <;> rfl

theorem blocks_peer (db : Db) (resp : FinalSlotResponse) (nowMs : Int) :
    contents (step db ⟨.peerPatch resp, nowMs⟩) .blocks =
      contents ((blockMove db ⟨.peerPatch resp, nowMs⟩).run db) .blocks := by
  change contents (applyPeerPatch db resp nowMs).1 .blocks = _
  dsimp only [blockMove]
  cases about : slotOf resp with
  | none =>
      rw [applyPeerPatch, about]
      cases resp.finalKnown <;> rfl
  | some s =>
      cases known : resp.finalKnown with
      | false => rw [applyPeerPatch, about, known]; rfl
      | true =>
          rw [applyPeerPatch_eq about known, if_pos rfl, Option.elim_some]
          have here := slot_rowAt db s nowMs
          generalize rowAt db s nowMs = row at here ⊢
          subst here
          cases taken : reconcileVerdict db row.slot row resp with
          | turnedAway out => rfl
          | proceed p =>
              have start : contents p.db .blocks = contents ((if p.out.divergenceRepaired then
                  row.finalBlockId else none).elim db (settleBlock db · .discarded)) .blocks := by
                cases proceeds_of_reconcileVerdict taken with
                | promoted open_ => exact (confined_advanceHead row.slot).frame db .blocks (by decide)
                | agreed settled agree trails => rfl
                | adopted settled l q held offered differ adopts =>
                    rw [adoptPeerVerdict_db, contents_runAll, adoptStages]
                    cases row.finalBlockId <;> rfl
              have stages : contents (Stage.runAll (peerPartStages row.slot resp nowMs p.state ++
                  closingStages row.slot (peerRow resp p.state) nowMs) p.db) .blocks =
                  contents (BlockMove.run ⟨none, deliveredBlock resp, none,
                    some ((peerRow resp p.state).finalBlockId,
                      (peerRow resp p.state).candidateBlockIds)⟩ p.db) .blocks := by
                rw [contents_runAll, peerPartStages]
                cases deliveredBlock resp <;> cases takesExec resp p.state <;>
                  cases takesTransfers resp p.state <;> rfl
              refine stages.trans ?_
              have final := confined_applyFinalityToBlocks (peerRow resp p.state).finalBlockId
                (peerRow resp p.state).candidateBlockIds
              cases delivered : deliveredBlock resp with
              | none => simpa [BlockMove.run, peerBlockMove, delivered] using final.own _ _ start
              | some block =>
                  have stored := (confined_storeBlock block).own _ _ start
                  simpa [BlockMove.run, peerBlockMove, delivered] using final.own _ _ stored

theorem blocks_legacy (db : Db) (resp : FinalSlotResponse) (nowMs : Int) :
    contents (step db ⟨.legacyPatch resp, nowMs⟩) .blocks =
      contents ((blockMove db ⟨.legacyPatch resp, nowMs⟩).run db) .blocks := by
  change contents (applyLegacyPatch db resp nowMs).1 .blocks = _
  dsimp only [blockMove]
  cases about : slotOf resp with
  | none =>
      rw [applyLegacyPatch, about]
      cases resp.finalKnown <;> rfl
  | some s =>
      cases known : resp.finalKnown with
      | false => rw [applyLegacyPatch, about, known]; rfl
      | true =>
          rw [applyLegacyPatch_eq about known, if_pos rfl, Option.elim_some, legacyBlockMove]
          dsimp only
          rw [contents_runAll, legacyPartStages]
          cases legacyBody resp (legacyPromoted resp (rowAt db s nowMs)) <;> split <;> split <;> rfl

theorem blocks_forced (db : Db) (resp : FinalSlotResponse) (nowMs : Int) :
    contents (step db ⟨.forcedVerdict resp, nowMs⟩) .blocks =
      contents ((blockMove db ⟨.forcedVerdict resp, nowMs⟩).run db) .blocks := by
  unfold step
  dsimp only [blockMove]
  cases about : slotOf resp with
  | none => rw [applyForcedVerdict, about]; rfl
  | some s =>
      cases target : forcedTarget resp with
      | error err => rw [applyForcedVerdict, about, target]; rfl
      | ok v =>
          rw [applyForcedVerdict_eq about target]
          dsimp only
          split
          · rfl
          · rw [contents_runAll, adoptStages, forcedBlockMove]
            cases (rowAt db s nowMs).finalBlockId <;> rfl

/-- **Every event moves the block rows as its move says.** -/
theorem blocks_step (db : Db) (e : Timed) :
    contents (step db e) .blocks = contents ((blockMove db e).run db) .blocks := by
  obtain ⟨event, nowMs⟩ := e
  cases event with
  | block fb => exact blocks_node db fb nowMs
  | exec out => exact blocks_exec db out nowMs
  | transfers resp =>
      change contents (handleTransfers db resp nowMs).db .blocks = _
      rw [handleTransfers_db]
      dsimp only [blockMove]
      cases resp.slot with
      | none => rfl
      | some pb =>
          dsimp only
          rw [contents_runAll]
          rfl
  | peerPatch resp => exact blocks_peer db resp nowMs
  | legacyPatch resp => exact blocks_legacy db resp nowMs
  | forcedVerdict resp => exact blocks_forced db resp nowMs
  | tick => rfl

/-- **The block rows after an event.** -/
theorem readBlock_step (db : Db) (e : Timed) (b : BlockId) :
    (step db e).readBlock b = (blockMove db e).rowOf b (db.readBlock b) :=
  (sameReadBlock (blocks_step db e) b).trans (BlockMove.readBlock_run _ db b)

/-! ## What an event that writes a row can be -/

/-- The row an event writes, with its block move, in each of the ways it comes about. -/
inductive RowStep (db : Db) : Timed → RowMove → BlockMove → Prop where
  | block {fb : FilledBlock} {nowMs : Int} (b : TakenBlock) : takenBlock db fb nowMs = some b →
      RowStep db ⟨.block fb, nowMs⟩
        ⟨bodySeen (rowAt db b.head.slot nowMs) b.head.id nowMs, true⟩
        { seen := some (seenRow db b nowMs) }
  | candidate {out : SlotExecutionOutput} {nowMs : Int} (s : Slot) (exec : ExecutionOutput) :
      readFrame out = some (s, .candidate, exec) → (rowAt db s nowMs).status ≠ .final →
      RowStep db ⟨.exec out, nowMs⟩ ⟨frameRow (rowAt db s nowMs) .candidate exec nowMs, false⟩ {}
  | final {out : SlotExecutionOutput} {nowMs : Int} (s : Slot) (exec : ExecutionOutput) :
      readFrame out = some (s, .final, exec) → (rowAt db s nowMs).status ≠ .final →
      RowStep db ⟨.exec out, nowMs⟩ ⟨frameRow (rowAt db s nowMs) .final exec nowMs, true⟩
        { settle := some ((frameBlock exec).or (rowAt db s nowMs).finalBlockId,
            (rowAt db s nowMs).candidateBlockIds) }
  | completed {out : SlotExecutionOutput} {nowMs : Int} (s : Slot) (exec : ExecutionOutput) :
      readFrame out = some (s, .final, exec) → (rowAt db s nowMs).status = .final →
      Completes (rowAt db s nowMs) .final exec →
      RowStep db ⟨.exec out, nowMs⟩ ⟨completedRow (rowAt db s nowMs) exec nowMs, false⟩
        { settle := some ((rowAt db s nowMs).finalBlockId, (rowAt db s nowMs).candidateBlockIds) }
  | transfers {resp : NewTransfersInfoServerResponse} {nowMs : Int} (pb : NodeSlot) (m : RowMove) :
      resp.slot = some pb →
      transfersMove (rowAt db (NodeDecode.slotFromPb pb) nowMs) nowMs = some m →
      RowStep db ⟨.transfers resp, nowMs⟩ m {}
  | touched {resp : FinalSlotResponse} {nowMs : Int} (s : Slot) (out : PatchOutcome) :
      slotOf resp = some s → resp.finalKnown = true →
      reconcileVerdict db s (rowAt db s nowMs) resp = .turnedAway out →
      RowStep db ⟨.peerPatch resp, nowMs⟩ ⟨{ rowAt db s nowMs with lastUpdatedTsMs := nowMs }, false⟩ {}
  | peer {resp : FinalSlotResponse} {nowMs : Int} (s : Slot) (p : Patching) :
      slotOf resp = some s → resp.finalKnown = true →
      Proceeds db s (rowAt db s nowMs) resp p →
      RowStep db ⟨.peerPatch resp, nowMs⟩ ⟨{ peerRow resp p.state with lastUpdatedTsMs := nowMs }, true⟩
        (peerBlockMove (rowAt db s nowMs) resp (.proceed p))
  | legacy {resp : FinalSlotResponse} {nowMs : Int} (s : Slot) :
      slotOf resp = some s → resp.finalKnown = true →
      RowStep db ⟨.legacyPatch resp, nowMs⟩
        ⟨{ legacyRow resp (legacyPromoted resp (rowAt db s nowMs)) with lastUpdatedTsMs := nowMs }, true⟩
        (legacyBlockMove resp (rowAt db s nowMs))
  | forced {resp : FinalSlotResponse} {nowMs : Int} (s : Slot) (v : Verdict) :
      slotOf resp = some s → forcedTarget resp = .ok v →
      RowStep db ⟨.forcedVerdict resp, nowMs⟩
        ⟨{ forcedRow (rowAt db s nowMs) resp with lastUpdatedTsMs := nowMs }, false⟩
        (forcedBlockMove (rowAt db s nowMs) resp)

omit [DenunciationDigest] in
/-- **Every event that writes a row does it in one of these ways.** -/
theorem rowStep_of_rowMove {db : Db} {e : Timed} {m : RowMove} (moved : rowMove db e = some m) :
    RowStep db e m (blockMove db e) := by
  obtain ⟨event, nowMs⟩ := e
  cases event with
  | block fb =>
      obtain ⟨b, taken, rfl⟩ := Option.map_eq_some_iff.mp moved
      have move : blockMove db ⟨.block fb, nowMs⟩ = { seen := some (seenRow db b nowMs) } := by
        simp [blockMove, taken]
      rw [move]
      exact .block b taken
  | exec out =>
      obtain ⟨⟨s, frame, exec⟩, read, framed⟩ := Option.bind_eq_some_iff.mp moved
      have move : blockMove db ⟨.exec out, nowMs⟩ = frameBlockMove (rowAt db s nowMs) frame exec := by
        simp [blockMove, read]
      rw [move]
      dsimp only [frameMove] at framed
      by_cases settled : (rowAt db s nowMs).status = .final
      · rw [if_pos settled] at framed
        split at framed
        · next completes =>
            obtain rfl := Option.some.inj framed
            obtain rfl := completes.1
            rw [frameBlockMove, if_pos settled, if_pos completes]
            exact .completed s exec read settled completes
        · cases framed
      · rw [if_neg settled] at framed
        obtain rfl := Option.some.inj framed
        rw [frameBlockMove, if_neg settled]
        cases frame with
        | final => exact .final s exec read settled
        | candidate => exact .candidate s exec read settled
  | transfers resp =>
      obtain ⟨pb, about, framed⟩ := Option.bind_eq_some_iff.mp moved
      exact .transfers pb m about framed
  | peerPatch resp =>
      cases known : resp.finalKnown with
      | false => simp [rowMove, known] at moved
      | true =>
          simp only [rowMove, known, if_true] at moved
          obtain ⟨s, about, rfl⟩ := Option.map_eq_some_iff.mp moved
          have move : blockMove db ⟨.peerPatch resp, nowMs⟩ = peerBlockMove (rowAt db s nowMs) resp
              (reconcileVerdict db s (rowAt db s nowMs) resp) := by simp [blockMove, known, about]
          rw [move]
          cases taken : reconcileVerdict db s (rowAt db s nowMs) resp with
          | turnedAway out => exact .touched s out about known taken
          | proceed p => exact .peer s p about known (proceeds_of_reconcileVerdict taken)
  | legacyPatch resp =>
      cases known : resp.finalKnown with
      | false => simp [rowMove, known] at moved
      | true =>
          simp only [rowMove, known, if_true] at moved
          obtain ⟨s, about, rfl⟩ := Option.map_eq_some_iff.mp moved
          have move : blockMove db ⟨.legacyPatch resp, nowMs⟩ =
              legacyBlockMove resp (rowAt db s nowMs) := by simp [blockMove, known, about]
          rw [move]
          exact .legacy s about known
  | forcedVerdict resp =>
      cases about : slotOf resp with
      | none => simp [rowMove, about] at moved
      | some s =>
          cases target : forcedTarget resp with
          | error err => simp [rowMove, about, target] at moved
          | ok v =>
              simp only [rowMove, about, target] at moved
              split at moved
              · cases moved
              · next stands =>
                  obtain rfl := Option.some.inj moved
                  have move : blockMove db ⟨.forcedVerdict resp, nowMs⟩ =
                      forcedBlockMove (rowAt db s nowMs) resp := by
                    simp only [blockMove, about, target, if_neg stands]
                  rw [move]
                  exact .forced s v about target
  | tick => cases moved

omit [DenunciationDigest] in
/-- An event that writes no row moves no block. -/
theorem blockMove_of_unmoved {db : Db} {e : Timed} (unmoved : rowMove db e = none) :
    blockMove db e = {} := by
  obtain ⟨event, nowMs⟩ := e
  cases event with
  | block fb =>
      have taken : takenBlock db fb nowMs = none := Option.map_eq_none_iff.mp unmoved
      simp [blockMove, taken]
  | exec out =>
      dsimp only [rowMove, blockMove] at unmoved ⊢
      rcases read : readFrame out with - | ⟨s, frame, exec⟩
      · rfl
      · rw [read] at unmoved
        simp only [Option.bind_some, frameMove] at unmoved
        simp only [Option.elim_some, frameBlockMove]
        split at unmoved
        · next settled =>
            rw [if_pos settled]
            split at unmoved
            · cases unmoved
            · next open_ => rw [if_neg open_]
        · cases unmoved
  | transfers resp => rfl
  | peerPatch resp =>
      dsimp only [rowMove, blockMove] at unmoved ⊢
      split at unmoved
      · next known => rw [if_pos known, Option.map_eq_none_iff.mp unmoved]; rfl
      · next unknown => rw [if_neg unknown]
  | legacyPatch resp =>
      dsimp only [rowMove, blockMove] at unmoved ⊢
      split at unmoved
      · next known => rw [if_pos known, Option.map_eq_none_iff.mp unmoved]; rfl
      · next unknown => rw [if_neg unknown]
  | forcedVerdict resp =>
      dsimp only [rowMove, blockMove] at unmoved ⊢
      cases about : slotOf resp with
      | none => rfl
      | some s =>
          cases target : forcedTarget resp with
          | error err => rfl
          | ok v =>
              simp only [about, target] at unmoved
              dsimp only
              split at unmoved
              · next stands => rw [if_pos stands]
              · cases unmoved
  | tick => rfl

omit [DenunciationDigest] in
/-- An open row whose exec output is not final stays so, or is settled. -/
theorem unsettled_move {db : Db} {e : Timed} {m : RowMove} (moved : rowMove db e = some m)
    (before : (rowAt db m.row.slot e.nowMs).status ≠ .final →
      (rowAt db m.row.slot e.nowMs).completeness.execOutputFinal = false)
    (open_ : m.row.status ≠ .final) : m.row.completeness.execOutputFinal = false := by
  have move := rowStep_of_rowMove moved
  generalize blockMove db e = bm at move
  cases move with
  | @block fb nowMs taken found =>
      have here : (bodySeen (rowAt db taken.head.slot nowMs) taken.head.id nowMs).slot =
          taken.head.slot := (slot_bodySeen _ _ _).trans (slot_rowAt _ _ _)
      rw [here] at before
      rw [bodySeen_eq] at open_ ⊢
      refine before fun settled => open_ ?_
      dsimp only
      rw [settled]
      rfl
  | @candidate out nowMs s exec read unsettled =>
      rw [(slot_frameRow _ _ _ _).trans (slot_rowAt db s nowMs)] at before
      exact before unsettled
  | @final out nowMs s exec read unsettled => exact absurd rfl open_
  | @completed out nowMs s exec read settled completes => exact absurd settled open_
  | @transfers resp nowMs pb m about framed =>
      unfold transfersMove at framed
      split at framed
      · cases framed
      · obtain rfl := Option.some.inj framed
        rw [slot_rowAt] at before
        exact before open_
  | @touched resp nowMs s out about known taken =>
      exact absurd (settled_of_turnedAway taken) open_
  | @peer resp nowMs s p about known proceeds =>
      refine absurd ?_ open_
      dsimp only
      rw [peerRow_eq]
      exact status_proceeds proceeds
  | @legacy resp nowMs s about known =>
      refine absurd ?_ open_
      dsimp only
      rw [legacyRow_eq]
      exact status_legacyPromoted resp _
  | @forced resp nowMs s v about target => exact absurd rfl open_

/-- **In a reachable store only settled rows have their exec output.** -/
theorem unsettled_ingest (events : List Timed) : ∀ t row, (ingest events).readSlot t = some row →
    row.status ≠ .final → row.completeness.execOutputFinal = false := by
  refine invariant_of_step (P := fun db : Db => ∀ (t : Slot) (row : SlotState),
    db.readSlot t = some row → row.status ≠ .final →
    row.completeness.execOutputFinal = false) ?_ events ?_
  · intro db e before t row found open_
    rcases row_after found with ⟨m, moved, rfl, rfl⟩ | ⟨old, -⟩ | rfl
    · refine unsettled_move moved (fun unsettled => ?_) open_
      unfold rowAt at unsettled ⊢
      cases found : db.readSlot m.row.slot with
      | none => rfl
      | some row =>
          rw [found] at unsettled
          exact before _ row found unsettled
    · exact before t row old open_
    · rfl
  · intro t row found
    simp [Db.empty, Db.readSlot] at found

end MassaIndexer.Writer.BlockMoves
