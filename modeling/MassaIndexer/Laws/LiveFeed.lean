/- # Laws.LiveFeed -- the live feed mirrors the store

A client that keeps the row each `slot_updated` frame carries has, after any run, the rows of the
store but for their clocks; the slots it has not heard of have no row, or a stub (`feed_mirrors`).
What a frame carries is what the store holds once the event is done (`frames_carry`). A `slot_final`
frame marks a verdict: one is sent exactly when a slot becomes FINAL or its verdict is replaced, the
archive's answers aside (`final_frames_mark_verdicts`). -/
import MassaIndexer.Chain.Snapshot
import MassaIndexer.Writer.BodyMoves
import MassaIndexer.Writer.LiveFrames
import MassaIndexer.Writer.SecondDelivery

namespace MassaIndexer.Laws.LiveFeed

open MassaIndexer.Theory.Runs MassaIndexer.Theory.Footprint
open MassaIndexer.Data.Ids MassaIndexer.Data.Model MassaIndexer.Data.Proto MassaIndexer.Data.Codec
open MassaIndexer.Store.ColumnFamilies MassaIndexer.Store.Footprint
open MassaIndexer.Writer.NodeProto MassaIndexer.Writer.NodeDecode
open MassaIndexer.Writer.Shared MassaIndexer.Writer.Handlers MassaIndexer.Writer.Step
open MassaIndexer.Writer.Families MassaIndexer.Writer.Patches MassaIndexer.Writer.RowMoves
open MassaIndexer.Writer.LiveFrames MassaIndexer.Writer.SecondDelivery
open MassaIndexer.Peer.Patch MassaIndexer.Peer.Arbiter
open MassaIndexer.Data.Keys

set_option autoImplicit false

section Runs

variable [Bs58Check] [DenunciationDigest]

/-! ## The mirror -/

omit [Bs58Check] [DenunciationDigest] in
/-- The last row of a slot among the frames. -/
def mirror (sent : List SlotSseEvent) (s : Slot) : Option SlotState :=
  ((sent.filterMap SlotSseEvent.slotUpdate).filter (·.slot = s)).getLast?

omit [Bs58Check] [DenunciationDigest] in
theorem mirror_append (sent later : List SlotSseEvent) (s : Slot) :
    mirror (sent ++ later) s = (mirror later s).or (mirror sent s) := by
  simp [mirror, List.filterMap_append, List.getLast?_append]

theorem feed_concat (db : Db) (events : List Timed) (e : Timed) :
    feed db (events ++ [e]) = feed db events ++ frames (run step db events) e := by
  induction events generalizing db with
  | nil => simp [feed]
  | cons first events ih =>
      rw [List.cons_append, feed, ih, feed, List.append_assoc]
      rfl

omit [Bs58Check] [DenunciationDigest] in
/-- What a client knows of a slot, and what the store has there. -/
def Mirrors (s : Slot) (stored : Option SlotState) : Option SlotState → Prop
  | some row => ∃ t, stored = some { readBackSlotState row with lastUpdatedTsMs := t }
  | none => stored = none ∨ ∃ t, stored = some (SlotState.fresh s t)

omit [Bs58Check] [DenunciationDigest] in
/-- A stub comes only where there is nothing. -/
theorem mirrors_stub {s : Slot} {stored known : Option SlotState} (mirrors : Mirrors s stored known)
    (nowMs : Int) : Mirrors s (stored.or (some (SlotState.fresh s nowMs))) known := by
  cases known with
  | some row =>
      obtain ⟨t, rfl⟩ := mirrors
      exact ⟨t, rfl⟩
  | none =>
      refine .inr ?_
      rcases mirrors with rfl | ⟨t, rfl⟩
      · exact ⟨nowMs, rfl⟩
      · exact ⟨t, rfl⟩

omit [DenunciationDigest] in
/-- The move of an event that is turned away: the settled row with a new clock. -/
theorem move_of_turnedAway {db : Db} {e : Timed} (away : TurnedAway db e) :
    ∃ m, rowMove db e = some m ∧ m.stub = false ∧ (rowAt db m.row.slot e.nowMs).status = .final ∧
      m.row = { rowAt db m.row.slot e.nowMs with lastUpdatedTsMs := e.nowMs } := by
  obtain ⟨event, nowMs⟩ := e
  obtain ⟨resp, s, out, rfl, known, about, away⟩ := away
  dsimp only at away
  have here := slot_rowAt db s nowMs
  refine ⟨⟨{ rowAt db s nowMs with lastUpdatedTsMs := nowMs }, false⟩, ?_, rfl, ?_, ?_⟩
  · dsimp only [rowMove]
    rw [known, if_pos rfl, about, Option.map_some, away]
    rfl
  · dsimp only
    rw [here]
    exact settled_of_turnedAway away
  · exact congrArg (fun u => { rowAt db u nowMs with lastUpdatedTsMs := nowMs }) here.symm

/-- **One event.** -/
theorem mirrors_step {db : Db} {s : Slot} {known : Option SlotState}
    (mirrors : Mirrors s (db.readSlot s) known) (e : Timed) :
    Mirrors s ((step db e).readSlot s) ((mirror (frames db e) s).or known) := by
  rw [readSlot_step]
  rcases slotUpdates_frames db e with ⟨away, sent⟩ | ⟨-, sent⟩
  · obtain ⟨m, moved, unstubbed, settled, row⟩ := move_of_turnedAway away
    rw [mirror, sent, moved]
    change Mirrors s _ known
    dsimp only
    by_cases here : m.row.slot = s
    · subst here
      rw [if_pos rfl, row]
      cases known with
      | some last =>
          obtain ⟨t, stored⟩ := mirrors
          refine ⟨e.nowMs, ?_⟩
          simp [rowAt, stored, readBackSlotState]
      | none =>
          rcases mirrors with absent | ⟨t, stub⟩
          · rw [rowAt, absent] at settled
            cases settled
          · rw [rowAt, stub] at settled
            cases settled
    · rw [if_neg here, if_neg fun stubs => by simp [RowMove.stubs, unstubbed] at stubs]
      exact mirrors
  · rw [mirror, sent]
    cases moved : rowMove db e with
    | none => exact mirrors
    | some m =>
        dsimp only [Option.elim_some]
        by_cases here : m.row.slot = s
        · rw [if_pos here]
          simp only [List.filter_cons, here, decide_true, if_true, List.filter_nil,
            List.getLast?_singleton, Option.some_or]
          exact ⟨m.row.lastUpdatedTsMs, rfl⟩
        · rw [if_neg here]
          simp only [List.filter_cons, here, decide_false, Bool.false_eq_true, if_false,
            List.filter_nil, List.getLast?_nil, Option.none_or]
          split
          · exact mirrors_stub mirrors e.nowMs
          · exact mirrors

/-- **The feed mirrors the store**: whatever the run, the last row sent for a slot is the stored one
but for its clock, and a slot of which none was sent has no row or a stub. -/
theorem feed_mirrors (events : List Timed) (s : Slot) :
    Mirrors s ((ingest events).readSlot s) (mirror (feed Db.empty events) s) := by
  induction events using List.reverseRecOn with
  | nil => exact .inl rfl
  | append_singleton events e ih =>
      rw [feed_concat, mirror_append, ingest, run_append, run_cons, run_nil]
      exact mirrors_step ih e

/-! ## FINAL rows -/

omit [Bs58Check] [DenunciationDigest] in
/-- A slot becomes FINAL, or its verdict is replaced. -/
def Decides (row row' : SlotState) : Prop :=
  row'.status = .final ∧ (row.status ≠ .final ∨ Verdict.ofLocal row' ≠ Verdict.ofLocal row)

omit [Bs58Check] [DenunciationDigest] in
theorem not_decides_of_kept {row row' : SlotState} (status : row'.status = .final → row.status = .final)
    (verdict : Verdict.ofLocal row' = Verdict.ofLocal row) : ¬ Decides row row' := by
  rintro ⟨settled, open_ | replaced⟩
  · exact open_ (status settled)
  · exact replaced verdict

omit [Bs58Check] [DenunciationDigest] in
theorem decides_opened {row row' : SlotState} (open_ : row.status ≠ .final)
    (settled : row'.status = .final) : Decides row row' := ⟨settled, .inl open_⟩

omit [DenunciationDigest] in
theorem ofLocal_peerRow (resp : FinalSlotResponse) (row : SlotState) :
    Verdict.ofLocal (peerRow resp row) = Verdict.ofLocal row := by rw [peerRow_eq]; rfl

omit [DenunciationDigest] in
theorem status_peerRow (resp : FinalSlotResponse) (row : SlotState) :
    (peerRow resp row).status = row.status := by rw [peerRow_eq]

omit [Bs58Check] [DenunciationDigest] in
/-- The verdict of an adopted row is the one that was offered. -/
theorem ofLocal_adoptedRow {resp : FinalSlotResponse} {block : Option BlockId} {v : Verdict}
    (offered : Verdict.ofPeer resp block = some v) (row : SlotState) (trail : Option String) :
    Verdict.ofLocal (adoptedRow row resp block trail) = some v := by
  rw [adoptedRow_eq, ← offered]
  unfold Verdict.ofLocal Verdict.ofPeer
  cases resp.isMiss <;> rfl

theorem finals_peerFrames {resp : FinalSlotResponse} {s : Slot} (about : slotOf resp = some s)
    (known : resp.finalKnown = true) (db : Db) (nowMs : Int) :
    (peerFrames db resp nowMs).filterMap SlotSseEvent.finality = [] ∧
        ¬ Decides (rowAt db s nowMs)
          (peerMove (rowAt db s nowMs) resp nowMs (reconcileVerdict db s (rowAt db s nowMs) resp)).row ∨
      (peerFrames db resp nowMs).filterMap SlotSseEvent.finality =
          [(peerMove (rowAt db s nowMs) resp nowMs
            (reconcileVerdict db s (rowAt db s nowMs) resp)).row] ∧
        Decides (rowAt db s nowMs)
          (peerMove (rowAt db s nowMs) resp nowMs
            (reconcileVerdict db s (rowAt db s nowMs) resp)).row := by
  rw [peerFrames_eq about known]
  generalize rowAt db s nowMs = row
  cases taken : reconcileVerdict db s row resp with
  | turnedAway out => exact .inl ⟨rfl, not_decides_of_kept id rfl⟩
  | proceed p =>
      have settled : (peerRow resp p.state).status = .final :=
        (status_peerRow resp p.state).trans (status_proceeds (proceeds_of_reconcileVerdict taken))
      have verdict := ofLocal_peerRow resp p.state
      cases proceeds_of_reconcileVerdict taken with
      | promoted open_ => exact .inr ⟨rfl, decides_opened open_ settled⟩
      | agreed held agree trails =>
          refine .inl ⟨rfl, not_decides_of_kept (fun _ => held) ?_⟩
          exact verdict
      | adopted held l q known offered differ adopts =>
          refine .inr ⟨rfl, settled, .inr ?_⟩
          rw [known]
          refine ne_of_eq_of_ne (verdict.trans ?_) fun same => differ (Option.some.inj same).symm
          rw [adoptPeerVerdict_row]
          exact ofLocal_adoptedRow offered row (peerTrail resp)

omit [DenunciationDigest] in
/-- What the FINAL frames of an event say of its move. -/
def Announced (db : Db) (e : Timed) (finals : List SlotState) : Prop :=
  (finals = [] ∧ ∀ m, rowMove db e = some m → (∀ resp, e.event ≠ .legacyPatch resp) →
      ¬ Decides (rowAt db m.row.slot e.nowMs) m.row) ∨
    ∃ m, rowMove db e = some m ∧ (∀ resp, e.event ≠ .legacyPatch resp) ∧ finals = [m.row] ∧
      Decides (rowAt db m.row.slot e.nowMs) m.row

omit [DenunciationDigest] in
theorem announced_of_unmoved {db : Db} {e : Timed} {finals : List SlotState} (silent : finals = [])
    (unmoved : rowMove db e = none) : Announced db e finals :=
  .inl ⟨silent, fun m moved => by cases unmoved.symm.trans moved⟩

omit [DenunciationDigest] in
theorem announced_of_kept {db : Db} {e : Timed} {finals : List SlotState} {m : RowMove}
    (silent : finals = []) (moved : rowMove db e = some m)
    (kept : ¬ Decides (rowAt db m.row.slot e.nowMs) m.row) : Announced db e finals := by
  refine .inl ⟨silent, fun m' moved' _ => ?_⟩
  obtain rfl := Option.some.inj (moved.symm.trans moved')
  exact kept

theorem announced_block (db : Db) (fb : FilledBlock) (nowMs : Int) :
    Announced db ⟨.block fb, nowMs⟩ ((blockFrames db fb nowMs).filterMap SlotSseEvent.finality) := by
  rw [filterMap_blockFrames SlotSseEvent.finality (fun _ => rfl) fun _ => rfl]
  have moved : rowMove db ⟨.block fb, nowMs⟩ = (takenBlock db fb nowMs).map fun b =>
      ⟨bodySeen (rowAt db b.head.slot nowMs) b.head.id nowMs, true⟩ := rfl
  cases taken : takenBlock db fb nowMs with
  | none => exact announced_of_unmoved rfl (by rw [moved, taken]; rfl)
  | some b =>
      rw [taken, Option.map_some] at moved
      refine announced_of_kept rfl moved ?_
      dsimp only
      rw [slot_bodySeen, slot_rowAt, bodySeen_eq]
      refine not_decides_of_kept (fun settled => ?_) rfl
      dsimp only at settled
      split at settled
      · cases settled
      · exact settled

omit [DenunciationDigest] in
theorem announced_exec (db : Db) (out : SlotExecutionOutput) (nowMs : Int) :
    Announced db ⟨.exec out, nowMs⟩ ((execFrames db out nowMs).filterMap SlotSseEvent.finality) := by
  rw [finals_execFrames]
  have moved : rowMove db ⟨.exec out, nowMs⟩ = (readFrame out).bind fun what =>
      frameMove (rowAt db what.1 nowMs) what.2.1 what.2.2 nowMs := rfl
  rcases read : readFrame out with - | ⟨s, frame, exec⟩
  · exact announced_of_unmoved rfl (by rw [moved, read]; rfl)
  · rw [read, Option.bind_some] at moved
    dsimp only at moved
    have here := slot_rowAt db s nowMs
    dsimp only [Option.elim_some]
    unfold frameMove at moved
    by_cases settled : (rowAt db s nowMs).status = .final
    · have quiet : ¬ ((rowAt db s nowMs).status ≠ .final ∧ frame = .final) := fun both => both.1 settled
      rw [if_neg quiet]
      rw [if_pos settled] at moved
      split at moved
      · refine announced_of_kept rfl moved (not_decides_of_kept (fun _ => ?_) ?_)
        · exact (congrArg (fun u => (rowAt db u nowMs).status) here).trans settled
        · exact congrArg (fun u => Verdict.ofLocal (rowAt db u nowMs)) here.symm
      · exact announced_of_unmoved rfl moved
    · rw [if_neg settled] at moved
      have same : (frameRow (rowAt db s nowMs) frame exec nowMs).slot = s :=
        (slot_frameRow _ frame exec nowMs).trans here
      cases frame with
      | final =>
          rw [if_pos ⟨settled, rfl⟩]
          refine .inr ⟨_, moved, (by rintro resp ⟨⟩), rfl, ?_⟩
          dsimp only
          rw [same]
          exact decides_opened settled rfl
      | candidate =>
          rw [if_neg (by rintro ⟨-, ⟨⟩⟩)]
          refine announced_of_kept rfl moved fun decides => ?_
          cases decides.1

omit [DenunciationDigest] in
theorem announced_transfers (db : Db) (resp : NewTransfersInfoServerResponse) (nowMs : Int) :
    Announced db ⟨.transfers resp, nowMs⟩
      ((transfersFrames db resp nowMs).filterMap SlotSseEvent.finality) := by
  rw [filterMap_transfersFrames]
  have moved : rowMove db ⟨.transfers resp, nowMs⟩ = resp.slot.bind fun pb =>
      transfersMove (rowAt db (Writer.NodeDecode.slotFromPb pb) nowMs) nowMs := rfl
  cases about : resp.slot with
  | none => exact announced_of_unmoved rfl (by rw [moved, about]; rfl)
  | some pb =>
      rw [about, Option.bind_some] at moved
      have here := slot_rowAt db (Writer.NodeDecode.slotFromPb pb) nowMs
      rw [Option.bind_some]
      unfold transfersMove at moved ⊢
      split at moved
      · next flagged =>
          rw [if_pos flagged]
          exact announced_of_unmoved rfl moved
      · next open_ =>
          rw [if_neg open_]
          refine announced_of_kept rfl moved (not_decides_of_kept ?_ ?_)
          · dsimp only
            rw [here]
            exact id
          · exact congrArg (fun u => Verdict.ofLocal (rowAt db u nowMs)) here.symm

theorem announced_peer (db : Db) (resp : FinalSlotResponse) (nowMs : Int) :
    Announced db ⟨.peerPatch resp, nowMs⟩
      ((peerFrames db resp nowMs).filterMap SlotSseEvent.finality) := by
  have moved : rowMove db ⟨.peerPatch resp, nowMs⟩ = if resp.finalKnown then
      (slotOf resp).map fun s => peerMove (rowAt db s nowMs) resp nowMs
        (reconcileVerdict db s (rowAt db s nowMs) resp) else none := rfl
  cases about : slotOf resp with
  | none =>
      rw [about, Option.map_none, ite_self] at moved
      exact announced_of_unmoved (by rw [peerFrames, about]; rfl) moved
  | some s =>
      cases known : resp.finalKnown with
      | false =>
          rw [known] at moved
          exact announced_of_unmoved (by rw [peerFrames, about, known]; rfl) moved
      | true =>
          rw [known, if_pos rfl, about, Option.map_some] at moved
          have here : (peerMove (rowAt db s nowMs) resp nowMs
              (reconcileVerdict db s (rowAt db s nowMs) resp)).row.slot = s := by
            cases taken : reconcileVerdict db s (rowAt db s nowMs) resp with
            | turnedAway out => exact slot_rowAt db s nowMs
            | proceed p =>
                exact (slot_peerRow resp p.state).trans
                  ((slot_proceeds (proceeds_of_reconcileVerdict taken)).trans (slot_rowAt db s nowMs))
          rcases finals_peerFrames about known db nowMs with ⟨silent, kept⟩ | ⟨sent, decides⟩
          · exact announced_of_kept silent moved (by rw [here]; exact kept)
          · exact .inr ⟨_, moved, (by rintro resp ⟨⟩), sent, by rw [here]; exact decides⟩

theorem announced_legacy (db : Db) (resp : FinalSlotResponse) (nowMs : Int) :
    Announced db ⟨.legacyPatch resp, nowMs⟩
      ((legacyFrames db resp nowMs).filterMap SlotSseEvent.finality) := by
  refine .inl ⟨?_, fun m _ other => absurd rfl (other resp)⟩
  unfold legacyFrames
  cases slotOf resp with
  | none => rfl
  | some s =>
      dsimp only
      split <;> rfl

omit [DenunciationDigest] in
theorem announced_forced (db : Db) (resp : FinalSlotResponse) (nowMs : Int) :
    Announced db ⟨.forcedVerdict resp, nowMs⟩
      ((forcedFrames db resp nowMs).filterMap SlotSseEvent.finality) := by
  unfold forcedFrames
  cases about : slotOf resp with
  | none => exact announced_of_unmoved rfl (by dsimp only [rowMove]; rw [about])
  | some s =>
      cases target : forcedTarget resp with
      | error err => exact announced_of_unmoved rfl (by dsimp only [rowMove]; rw [about, target])
      | ok v =>
          have moved : rowMove db ⟨.forcedVerdict resp, nowMs⟩ =
              if (rowAt db s nowMs).status = .final ∧ Verdict.ofLocal (rowAt db s nowMs) = some v then
                none
              else
                some ⟨{ forcedRow (rowAt db s nowMs) resp with lastUpdatedTsMs := nowMs }, false⟩ := by
            dsimp only [rowMove]
            rw [about, target]
          have here : (forcedRow (rowAt db s nowMs) resp).slot = s :=
            (slot_adoptedRow _ resp _ (peerTrail resp)).trans (slot_rowAt db s nowMs)
          dsimp only
          by_cases agrees : (rowAt db s nowMs).status = .final ∧
              Verdict.ofLocal (rowAt db s nowMs) = some v
          · rw [if_pos agrees] at moved ⊢
            exact announced_of_unmoved rfl moved
          · rw [if_neg agrees] at moved ⊢
            refine .inr ⟨_, moved, (by rintro resp ⟨⟩), ?_, ?_⟩
            · rw [adoptPeerVerdict_row]
              rfl
            · dsimp only
              rw [here]
              refine ⟨rfl, ?_⟩
              by_cases settled : (rowAt db s nowMs).status = .final
              · refine .inr fun same => agrees ⟨settled, same.symm.trans ?_⟩
                exact ofLocal_forcedRow target _
              · exact .inl settled

theorem announced_frames (db : Db) (e : Timed) :
    Announced db e ((frames db e).filterMap SlotSseEvent.finality) := by
  obtain ⟨event, nowMs⟩ := e
  cases event with
  | block fb => exact announced_block db fb nowMs
  | exec out => exact announced_exec db out nowMs
  | transfers resp => exact announced_transfers db resp nowMs
  | peerPatch resp => exact announced_peer db resp nowMs
  | legacyPatch resp => exact announced_legacy db resp nowMs
  | forcedVerdict resp => exact announced_forced db resp nowMs
  | tick => exact announced_of_unmoved rfl rfl

/-- The row a slot has after an event, with a stub counted as none. -/
theorem rowAt_after (db : Db) (e : Timed) (s : Slot) :
    rowAt (step db e) s e.nowMs = (rowMove db e).elim (rowAt db s e.nowMs) fun m =>
      if m.row.slot = s then readBackSlotState m.row else rowAt db s e.nowMs := by
  rw [rowAt, readSlot_step]
  cases rowMove db e with
  | none => rfl
  | some m =>
      dsimp only [Option.elim_some]
      split
      · rfl
      · split
        · rw [rowAt]
          cases db.readSlot s <;> rfl
        · rfl

/-- **A FINAL frame marks a verdict**: one is sent for a slot exactly when the slot becomes FINAL or
its verdict is replaced, unless an archive's answer settled it. -/
theorem final_frames_mark_verdicts (db : Db) (e : Timed) (s : Slot) :
    (∃ row, .slotFinal row ∈ frames db e ∧ row.slot = s) ↔
      (∀ resp, e.event ≠ .legacyPatch resp) ∧
        Decides (rowAt db s e.nowMs) (rowAt (step db e) s e.nowMs) := by
  have sent : ∀ row, .slotFinal row ∈ frames db e ↔
      row ∈ (frames db e).filterMap SlotSseEvent.finality := by
    intro row
    rw [List.mem_filterMap]
    constructor
    · exact fun member => ⟨_, member, rfl⟩
    · rintro ⟨frame, member, told⟩
      cases frame with
      | slotFinal row' =>
          obtain rfl := Option.some.inj told
          exact member
      | _ => cases told
  have quiet : ¬ Decides (rowAt db s e.nowMs) (rowAt db s e.nowMs) := not_decides_of_kept id rfl
  simp only [sent]
  rw [rowAt_after]
  rcases announced_frames db e with ⟨silent, kept⟩ | ⟨m, moved, other, told, decides⟩
  · rw [silent]
    constructor
    · rintro ⟨row, member, -⟩
      cases member
    · rintro ⟨other, decides⟩
      cases moved : rowMove db e with
      | none =>
          rw [moved] at decides
          exact absurd decides quiet
      | some m =>
          rw [moved, Option.elim_some] at decides
          split at decides
          · next here =>
              subst here
              exact absurd decides (kept m moved other)
          · exact absurd decides quiet
  · rw [told, moved, Option.elim_some]
    constructor
    · rintro ⟨row, member, rfl⟩
      obtain rfl := List.mem_singleton.mp member
      rw [if_pos rfl]
      exact ⟨other, decides⟩
    · rintro ⟨-, decided⟩
      split at decided
      · next here => exact ⟨m.row, List.mem_singleton.mpr rfl, here⟩
      · exact absurd decided quiet

/-! ## What a frame carries -/

omit [Bs58Check] [DenunciationDigest] in
/-- What a frame carries is stored. -/
def Carried (db : Db) : SlotSseEvent → Prop
  | .slotUpdated row => db.readSlot row.slot = some (readBackSlotState row)
  | .slotFinal row => db.readSlot row.slot = some (readBackSlotState row)
  | .blockSeen block => db.readBlock block.id = some block
  | .opSeen op => db.readOp op.id = some op
  | .eventSeen ev => db.scEvents.get (scEventKey ev.slot ev.indexInSlot) = some ev
  | .heartbeat _ => True

section Operations

omit [DenunciationDigest]

/-- The row filed for an operation, if one is, and the row it was made from. -/
theorem seenOperation_cases (db : Db) (head : BlockHead) (nowMs : Int) (filled : FilledOperation) :
    (seenOperation db head nowMs filled = none ∧ (ingestOperation db head nowMs filled).db = db) ∨
    ∃ op, seenOperation db head nowMs filled = some (recordInclusion head op) ∧
      (ingestOperation db head nowMs filled).db = db.writeOp (recordInclusion head op) ∧
      ∀ row, db.readOp op.id = some row → op = row := by
  unfold seenOperation ingestOperation
  cases filled.operation with
  | none => exact .inl ⟨rfl, rfl⟩
  | some signedOp =>
      dsimp only
      cases filledOpId filled signedOp with
      | none => exact .inl ⟨rfl, rfl⟩
      | some id =>
          dsimp only
          cases found : db.readOp id with
          | some stored =>
              refine .inr ⟨stored, rfl, rfl, fun row held => ?_⟩
              rw [Db.id_of_readOp found, found] at held
              exact Option.some.inj held
          | none =>
              cases fresh : freshOperation signedOp id head.slot.thread nowMs with
              | error err => exact .inl ⟨rfl, rfl⟩
              | ok op =>
                  refine .inr ⟨op, rfl, rfl, fun row held => ?_⟩
                  rw [(Writer.BodyMoves.id_freshOperation fresh).1, found] at held
                  cases held

/-- A row that names the block among its sites stays as it is. -/
theorem readOp_ingestOperation {db : Db} {head : BlockHead} {op : StoredOperation}
    (found : db.readOp op.id = some op) (sited : recordInclusion head op = op) (nowMs : Int)
    (filled : FilledOperation) :
    (ingestOperation db head nowMs filled).db.readOp op.id = some op := by
  rcases seenOperation_cases db head nowMs filled with ⟨-, same⟩ | ⟨row, -, filed, held⟩
  · rw [same]
    exact found
  · rw [filed, Db.readOp_writeOp, Writer.BodyMoves.id_recordInclusion]
    split
    · next here =>
        obtain rfl := held op (here.symm ▸ found)
        rw [sited]
    · exact found

theorem readOp_ingestOperations {head : BlockHead} {op : StoredOperation}
    (sited : recordInclusion head op = op) (nowMs : Int) (ops : List FilledOperation) {db : Db}
    (found : db.readOp op.id = some op) :
    (ingestOperations db head nowMs ops).db.readOp op.id = some op := by
  induction ops generalizing db with
  | nil => exact found
  | cons filled rest ih =>
      have kept := readOp_ingestOperation found sited nowMs filled
      rw [ingestOperations]
      generalize ingestOperation db head nowMs filled = handled at kept ⊢
      rcases handled with ⟨after, err | id⟩
      · exact kept
      · exact ih kept

/-- An operation that comes twice in a block is sent twice, as the same row. -/
theorem carried_operationFrames (head : BlockHead) (nowMs : Int) (ops : List FilledOperation)
    (db : Db) :
    ∀ frame ∈ operationFrames db head nowMs ops,
      ∃ op, frame = .opSeen op ∧ (ingestOperations db head nowMs ops).db.readOp op.id = some op := by
  induction ops generalizing db with
  | nil => exact fun frame member => by cases member
  | cons filled rest ih =>
      intro frame member
      have seen := seenOperation_cases db head nowMs filled
      rw [operationFrames] at member
      rw [ingestOperations]
      generalize ingestOperation db head nowMs filled = handled at member seen ⊢
      rcases handled with ⟨after, err | id⟩
      · cases member
      · dsimp only at member seen ⊢
        rcases List.mem_append.mp member with now | later
        · rcases seen with ⟨none_, -⟩ | ⟨op, some_, filed, -⟩
          · rw [none_] at now
            cases now
          · rw [some_] at now
            obtain rfl := List.mem_singleton.mp now
            refine ⟨recordInclusion head op, rfl, ?_⟩
            refine readOp_ingestOperations (Writer.BodyMoves.recordInclusion_idem head op) nowMs rest ?_
            rw [filed, Db.readOp_writeOp, if_pos rfl]
        · exact ih after frame later

end Operations

/-- The frames of a block, its slot row aside. -/
theorem carried_blockFrames (db : Db) (fb : FilledBlock) (nowMs : Int) :
    ∀ frame ∈ blockFrames db fb nowMs,
      (∃ row, frame = .slotUpdated row) ∨ Carried (handleBlock db fb nowMs).db frame := by
  intro frame member
  unfold blockFrames at member
  unfold handleBlock
  cases decoded : decodeHead fb with
  | error err =>
      rw [decoded] at member
      cases member
  | ok head =>
      rw [decoded] at member
      dsimp only at member ⊢
      rcases persist : persistEndorsements db (head.endorsements nowMs) with ⟨db₁, err | done⟩
      · rw [persist] at member
        cases member
      · rw [persist] at member
        dsimp only at member ⊢
        generalize head.denunciations.foldl
          (fun db d => db.writeDenunciation (denunciationEntry head.id nowMs d)) db₁ = db₂ at member ⊢
        have ops := carried_operationFrames head nowMs fb.operations db₂
        generalize operationFrames db₂ head nowMs fb.operations = seen at member ops
        generalize ingestOperations db₂ head nowMs fb.operations = ingested at member ops ⊢
        rcases ingested with ⟨db₃, err | operationIds⟩
        · obtain ⟨op, rfl, stored⟩ := ops frame member
          exact .inr stored
        · dsimp only at member ops ⊢
          generalize (head.endorsements nowMs).mapM resolveEndorsement = resolved at member ⊢
          cases resolved with
          | error err =>
              obtain ⟨op, rfl, stored⟩ := ops frame member
              exact .inr stored
          | ok endorsements =>
              dsimp only at member ⊢
              rw [rowAt] at member
              generalize (db₃.readSlot head.slot).getD (SlotState.fresh head.slot nowMs) = state
                at member ⊢
              generalize block_ : seenBlock db₃ head endorsements operationIds
                (initialBlockStatus state head.id) nowMs = block at member ⊢
              have stub := confined_ensureParentStub head.slot nowMs
              have row : ConfinedTo .slots (·.writeSlot (bodySeen state head.id nowMs)) :=
                confinedTo_apply (.slot _)
              have body : ConfinedTo .blocks (·.writeBlock block) := confinedTo_apply (.block _)
              rcases List.mem_append.mp member with seen_ | last
              · obtain ⟨op, rfl, stored⟩ := ops frame seen_
                refine .inr (Eq.trans (sameReadOp ?_ op.id) stored)
                exact ((stub.frame _ .ops (by decide)).trans (row.frame _ .ops (by decide))).trans
                  (body.frame _ .ops (by decide))
              · rcases List.mem_cons.mp last with rfl | updated
                · refine .inr (Eq.trans (sameReadBlock ((stub.frame _ .blocks (by decide)).trans
                    (row.frame _ .blocks (by decide))) block.id) ?_)
                  exact (Db.readBlock_writeBlock db₃ block block.id).trans (if_pos rfl)
                · exact .inl ⟨_, List.mem_singleton.mp updated⟩

/-- Fewer than 2^32 events, so that their positions fit the rows' index. -/
def EventsFit (e : Timed) : Prop :=
  ∀ out exec, e.event = .exec out → out.executionOutput = some exec → exec.events.length ≤ 2 ^ 32

omit [DenunciationDigest] in
theorem events_writeFrameEvents (db : Db) (s : Slot) (status : SlotStatus) {exec : ExecutionOutput}
    (fits : exec.events.length ≤ 2 ^ 32) : ∀ ev ∈ frameEvents s status exec,
      (writeFrameEvents db s status exec).scEvents.get
        (scEventKey ev.slot ev.indexInSlot) = some ev := by
  intro ev member
  have distinct : ∀ other ∈ frameEvents s status exec,
      scEventKey other.slot other.indexInSlot = scEventKey ev.slot ev.indexInSlot → other = ev := by
    intro other member' same
    unfold frameEvents at member member'
    obtain ⟨i, hi, rfl⟩ := List.mem_mapIdx.mp member
    obtain ⟨j, hj, rfl⟩ := List.mem_mapIdx.mp member'
    have index := (scEventKey_injective same).2
    dsimp only at index
    have positions := congrArg UInt32.toNat index
    simp only [UInt32.toNat_ofNat'] at positions
    obtain rfl : j = i := by omega
    rfl
  have written : ∀ (l : List StoredScEvent) (db : Db),
      (l.foldl Db.writeScEvent db).scEvents = l.foldl Theory.KeyedTable.Table.put db.scEvents := by
    intro l
    induction l with
    | nil => exact fun db => rfl
    | cons first rest ih => exact fun db => ih (db.writeScEvent first)
  rw [writeFrameEvents, written, Theory.KeyedTable.Table.get_foldl_put]
  cases last : ((frameEvents s status exec).filter fun other =>
      Theory.KeyedTable.Row.key other = scEventKey ev.slot ev.indexInSlot).getLast? with
  | none =>
      have empty := List.getLast?_eq_none_iff.mp last
      exact absurd (List.mem_filter.mpr ⟨member, decide_eq_true rfl⟩)
        (by rw [empty]; exact List.not_mem_nil)
  | some other =>
      obtain ⟨member', same⟩ := List.mem_filter.mp (List.mem_of_getLast? last)
      obtain rfl := distinct other member' (of_decide_eq_true same)
      rfl

omit [DenunciationDigest] in
/-- The frames of an output, its slot rows aside. -/
theorem carried_execFrames (db : Db) (out : SlotExecutionOutput) (nowMs : Int)
    (fits : ∀ exec, out.executionOutput = some exec → exec.events.length ≤ 2 ^ 32) :
    ∀ frame ∈ execFrames db out nowMs,
      (∃ row, frame = .slotUpdated row ∨ frame = .slotFinal row) ∨
        Carried (handleExec db out nowMs).db frame := by
  intro frame member
  unfold execFrames at member
  rw [handleExec_db]
  cases read : readFrame out with
  | none =>
      rw [read] at member
      cases member
  | some what =>
      obtain ⟨s, kind, exec⟩ := what
      have small : exec.events.length ≤ 2 ^ 32 := by
        refine fits exec ?_
        simp only [readFrame, Option.bind_eq_some_iff, Option.map_eq_some_iff, Prod.mk.injEq] at read
        obtain ⟨exec', found, pb, -, frame, -, -, -, rfl⟩ := read
        exact found
      rw [read] at member
      dsimp only at member ⊢
      have events : ∀ status, ∀ frame ∈ eventsSeen s status exec, ∃ ev, frame = .eventSeen ev ∧
          ∀ db, (writeFrameEvents db s status exec).scEvents.get
            (scEventKey ev.slot ev.indexInSlot) = some ev := by
        intro status frame member
        obtain ⟨ev, listed, rfl⟩ := List.mem_map.mp member
        exact ⟨ev, rfl, fun db => events_writeFrameEvents db s status small ev listed⟩
      have here := slot_rowAt db s nowMs
      generalize rowAt db s nowMs = row at here member ⊢
      subst here
      by_cases settled : row.status = .final
      · rw [if_pos settled] at member ⊢
        rw [confirmFrame_eq]
        by_cases completes : Completes row kind exec
        · rw [if_pos completes] at member ⊢
          rcases List.mem_append.mp member with seen | updated
          · obtain ⟨ev, rfl, stored⟩ := events _ frame seen
            have filed : contents (completeFinalExecFromNode db row exec nowMs) .scEvents =
                contents (writeFrameEvents db row.slot .final exec) .scEvents := by
              rw [completeFinalExecFromNode_eq, contents_runAll]
              rfl
            exact .inr ((congrArg (fun t : Contents .scEvents =>
              t.1.get (scEventKey ev.slot ev.indexInSlot)) filed).trans (stored db))
          · exact .inl ⟨_, .inl (List.mem_singleton.mp updated)⟩
        · rw [if_neg completes] at member
          cases member
      · rw [if_neg settled] at member ⊢
        rcases List.mem_append.mp member with seen | updated
        · rcases List.mem_append.mp seen with seen | final
          · obtain ⟨ev, rfl, stored⟩ := events _ frame seen
            have filed : contents (recordFrame db row.slot row kind exec nowMs) .scEvents =
                contents (writeFrameEvents db row.slot (frameRow row kind exec nowMs).status exec)
                  .scEvents := by
              rw [recordFrame_eq, contents_runAll]
              cases kind <;> rfl
            exact .inr ((congrArg (fun t : Contents .scEvents =>
              t.1.get (scEventKey ev.slot ev.indexInSlot)) filed).trans (stored db))
          · cases kind with
            | final => exact .inl ⟨_, .inr (List.mem_singleton.mp final)⟩
            | candidate => cases final
        · exact .inl ⟨_, .inl (List.mem_singleton.mp updated)⟩

/-- Frames of slot rows alone. -/
theorem slotFrames_of_other {db : Db} {e : Timed} {frame : SlotSseEvent} (member : frame ∈ frames db e)
    (block : ∀ fb, e.event ≠ .block fb) (exec : ∀ out, e.event ≠ .exec out) :
    (∃ row, frame = .slotUpdated row ∨ frame = .slotFinal row) ∨ ∃ t, frame = .heartbeat t := by
  obtain ⟨event, nowMs⟩ := e
  cases event with
  | block fb => exact absurd rfl (block fb)
  | exec out => exact absurd rfl (exec out)
  | transfers resp =>
      change frame ∈ transfersFrames db resp nowMs at member
      unfold transfersFrames at member
      cases about : resp.slot with
      | none =>
          rw [about] at member
          cases member
      | some pb =>
          rw [about] at member
          dsimp only at member
          unfold settleFrames at member
          split at member
          · split at member
            · cases member
            · exact .inl ⟨_, .inl (List.mem_singleton.mp member)⟩
          · exact .inl ⟨_, .inl (List.mem_singleton.mp member)⟩
  | peerPatch resp =>
      change frame ∈ peerFrames db resp nowMs at member
      unfold peerFrames at member
      split at member
      · cases member
      · split at member
        · cases member
        · split at member
          · cases member
          · rcases List.mem_append.mp member with final | updated
            · split at final
              · exact .inl ⟨_, .inr (List.mem_singleton.mp final)⟩
              · cases final
            · exact .inl ⟨_, .inl (List.mem_singleton.mp updated)⟩
  | legacyPatch resp =>
      change frame ∈ legacyFrames db resp nowMs at member
      unfold legacyFrames at member
      split at member
      · cases member
      · split at member
        · cases member
        · exact .inl ⟨_, .inl (List.mem_singleton.mp member)⟩
  | forcedVerdict resp =>
      change frame ∈ forcedFrames db resp nowMs at member
      unfold forcedFrames at member
      split at member
      · cases member
      · dsimp only at member
        split at member
        · cases member
        · split at member
          · cases member
          · rcases List.mem_cons.mp member with final | updated
            · exact .inl ⟨_, .inr final⟩
            · exact .inl ⟨_, .inl (List.mem_singleton.mp updated)⟩
  | tick => exact .inr ⟨_, List.mem_singleton.mp member⟩

/-- The row of a move is what the store has at its slot. -/
theorem carried_move {db : Db} {e : Timed} {m : RowMove} (moved : rowMove db e = some m) :
    (step db e).readSlot m.row.slot = some (readBackSlotState m.row) := by
  rw [readSlot_step, moved]
  exact if_pos rfl

theorem carried_updated {db : Db} {e : Timed} {row : SlotState}
    (sent : .slotUpdated row ∈ frames db e) :
    (step db e).readSlot row.slot = some (readBackSlotState row) := by
  have told : row ∈ (frames db e).filterMap SlotSseEvent.slotUpdate :=
    List.mem_filterMap.mpr ⟨_, sent, rfl⟩
  rcases slotUpdates_frames db e with ⟨-, silent⟩ | ⟨-, sent⟩
  · rw [silent] at told
    cases told
  · rw [sent] at told
    cases moved : rowMove db e with
    | none =>
        rw [moved] at told
        cases told
    | some m =>
        rw [moved] at told
        obtain rfl := List.mem_singleton.mp told
        exact carried_move moved

theorem carried_final {db : Db} {e : Timed} {row : SlotState} (sent : .slotFinal row ∈ frames db e) :
    (step db e).readSlot row.slot = some (readBackSlotState row) := by
  have told : row ∈ (frames db e).filterMap SlotSseEvent.finality :=
    List.mem_filterMap.mpr ⟨_, sent, rfl⟩
  rcases announced_frames db e with ⟨silent, -⟩ | ⟨m, moved, -, sent, -⟩
  · rw [silent] at told
    cases told
  · rw [sent] at told
    obtain rfl := List.mem_singleton.mp told
    exact carried_move moved

/-- **What a frame carries is what the store holds once the event is done.** -/
theorem frames_carry (db : Db) (e : Timed) (fits : EventsFit e) :
    ∀ frame ∈ frames db e, Carried (step db e) frame := by
  intro frame member
  have slots : (∃ row, frame = .slotUpdated row ∨ frame = .slotFinal row) →
      Carried (step db e) frame := by
    rintro ⟨row, rfl | rfl⟩
    · exact carried_updated member
    · exact carried_final member
  cases event : e.event with
  | block fb =>
      obtain ⟨_, nowMs⟩ := e
      obtain rfl := event
      rcases carried_blockFrames db fb nowMs frame member with ⟨row, same⟩ | carried
      · exact slots ⟨row, .inl same⟩
      · exact carried
  | exec out =>
      obtain ⟨_, nowMs⟩ := e
      obtain rfl := event
      rcases carried_execFrames db out nowMs (fits out · rfl) frame member with same | carried
      · exact slots same
      · exact carried
  | _ =>
      rcases slotFrames_of_other member (by rw [event]; rintro _ ⟨⟩) (by rw [event]; rintro _ ⟨⟩) with
        same | ⟨t, rfl⟩
      · exact slots same
      · trivial

end Runs

section OneEvent

attribute [local instance] Bs58Check.doubleSha Chain.noDenunciations

/-- A CANDIDATE output with one event. -/
def oneEvent : Timed :=
  ⟨.exec
    { status := 1
      executionOutput := some { slot := some ⟨5, 1⟩, blockId := none, events := [{}] } }, 7⟩

theorem frames_carry_one :
    List.Forall (Carried (step Db.empty oneEvent)) (frames Db.empty oneEvent) :=
  List.forall_iff_forall_mem.mpr (frames_carry Db.empty oneEvent (by rintro _ _ ⟨⟩ ⟨⟩; decide))

end OneEvent

end MassaIndexer.Laws.LiveFeed
