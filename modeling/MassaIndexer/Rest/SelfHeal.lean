/-
# Rest.SelfHeal -- readers that put block statuses right

`resolve_block_status` runs in a request handler, beside the writer: it has read a block row, it reads
the slot row, and when the slot is FINAL it writes the block row back with the status the verdict
gives it. The three database calls are three steps here, of any number of readers, and the writer's
events fall between them.

`Twin` compares a store that readers write to with one that only the writer does: every family but
the block rows is the same, and a block row is the same or has been healed. The writer keeps stores
twins (`twin_ingest`), because nothing it decides goes by the status of a block.
-/
import MassaIndexer.Writer.RowBlocks
import MassaIndexer.Writer.Stages

namespace MassaIndexer.Rest.SelfHeal

open MassaIndexer.Theory.Runs
open MassaIndexer.Data.Ids MassaIndexer.Data.Model MassaIndexer.Data.Proto MassaIndexer.Data.Codec
open MassaIndexer.Store.ColumnFamilies MassaIndexer.Store.Footprint
open MassaIndexer.Writer MassaIndexer.Writer.NodeProto MassaIndexer.Writer.NodeDecode
open MassaIndexer.Writer.Shared MassaIndexer.Writer.Handlers MassaIndexer.Writer.Step
open MassaIndexer.Writer.Families MassaIndexer.Writer.Patches MassaIndexer.Writer.RowMoves
open MassaIndexer.Writer.BlockMoves MassaIndexer.Writer.Stages
open MassaIndexer.Peer.Patch MassaIndexer.Peer.Arbiter

set_option autoImplicit false

/-! ## Readers beside the writer -/

/-- How far one request has come: what it has read, and what it is about to write. -/
inductive Reader where
  | idle
  | holdsBlock (block : StoredBlock)
  | holdsBoth (block : StoredBlock) (slot : SlotState)

structure World where
  db : Db
  readers : Nat → Reader := fun _ => .idle

inductive Act where
  | ingest (e : Timed)
  | readBlock (r : Nat) (id : BlockId)
  | readSlot (r : Nat)
  | writeBlock (r : Nat)

/-- The status the verdict of a FINAL slot gives a block. -/
def resolvedStatus (slot : SlotState) (id : BlockId) : BlockStatus :=
  if slot.finalBlockId = some id then .final else .discarded

theorem resolvedStatus_ne_seen (slot : SlotState) (id : BlockId) :
    resolvedStatus slot id ≠ .seenCandidate := by
  unfold resolvedStatus
  split <;> rintro ⟨⟩

theorem resolvedStatus_eq_initial {slot : SlotState} (settled : slot.status = .final) (id : BlockId) :
    resolvedStatus slot id = initialBlockStatus slot id := by
  rw [resolvedStatus, initialBlockStatus, if_pos settled]

/-- The row a reader writes back. -/
def resolved (block : StoredBlock) (slot : SlotState) : StoredBlock :=
  { block with status := resolvedStatus slot block.id }

/-- A row with a definite status is served as it is. -/
def afterBlock : Option StoredBlock → Reader
  | none => .idle
  | some block => if block.status = .seenCandidate then .holdsBlock block else .idle

/-- Only the verdict of a FINAL slot resolves a status. -/
def afterSlot (block : StoredBlock) : Option SlotState → Reader
  | none => .idle
  | some slot => if slot.status = .final then .holdsBoth block slot else .idle

section Steps
variable [Bs58Check] [DenunciationDigest]

def act (w : World) : Act → World
  | .ingest e => { w with db := step w.db e }
  | .readBlock r id => { w with readers := Function.update w.readers r (afterBlock (w.db.readBlock id)) }
  | .readSlot r =>
      match w.readers r with
      | .holdsBlock block =>
          { w with readers := Function.update w.readers r (afterSlot block (w.db.readSlot block.slot)) }
      | _ => w
  | .writeBlock r =>
      match w.readers r with
      | .holdsBoth block slot =>
          { db := w.db.writeBlock (resolved block slot)
            readers := Function.update w.readers r .idle }
      | _ => w

end Steps

/-- The events the writer took, in order. -/
def eventsOf (acts : List Act) : List Timed :=
  acts.filterMap fun
    | .ingest e => some e
    | _ => none

/-! ## Rows healed by a reader -/

/-- `healed` is the row the writer alone would have left, or that row with its status moved from
candidate to the one its FINAL slot gives it. -/
def HealedRow (db : Db) (healed alone : Option StoredBlock) : Prop :=
  healed = alone ∨ ∃ row slot, alone = some row ∧ row.status = .seenCandidate ∧
    db.readSlot row.slot = some slot ∧ slot.status = .final ∧ healed = some (resolved row slot)

/-- A healed row differs in its status only. -/
theorem HealedRow.alike {db : Db} {healed alone : Option StoredBlock}
    (related : HealedRow db healed alone) :
    healed.map (settledTo (some .discarded)) = alone.map (settledTo (some .discarded)) := by
  rcases related with rfl | ⟨row, slot, rfl, -, -, -, rfl⟩ <;> rfl

structure Twin (healed alone : Db) : Prop where
  families : ∀ f, f ≠ Family.blocks → contents healed f = contents alone f
  blocks : ∀ b, HealedRow alone (healed.readBlock b) (alone.readBlock b)

namespace Twin

theorem refl (db : Db) : Twin db db := ⟨fun _ _ => rfl, fun _ => .inl rfl⟩

variable {healed alone : Db} (twin : Twin healed alone)

include twin

theorem readSlot_eq (s : Slot) : healed.readSlot s = alone.readSlot s :=
  sameReadSlot (twin.families .slots (by decide)) s

theorem stages : Alike healed alone where
  slots := twin.families .slots (by decide)
  endorsements := twin.families .endorsements (by decide)
  ops := twin.families .ops (by decide)
  chain := {
    rows := fun t => by rw [twin.readSlot_eq t]
    bodies := fun b => by
      rcases twin.blocks b with same | ⟨row, slot, found, -, -, -, now⟩
      · rw [same]
      · rw [found, now]
        rfl }

end Twin

/-! ## What an event does to a healed row -/

section Writer
variable [Bs58Check]

omit [Bs58Check] in
/-- A block no part of a move is about keeps its row. -/
theorem rowOf_quiet {m : BlockMove} {b : BlockId} (discard : m.discard ≠ some b)
    (settle : (m.settle.bind fun v => statusBy v.1 v.2 b) = none) (seen : m.seen = none)
    (row : StoredBlock) : m.rowOf b (some row) = some row := by
  unfold BlockMove.rowOf
  rw [if_neg discard, settle, seen]
  rfl

omit [Bs58Check] in
/-- A status that a move gives a block replaces the one it had. -/
theorem rowOf_settled {m : BlockMove} {b : BlockId} {row row' : StoredBlock}
    (alike : settledTo (some .discarded) row = settledTo (some .discarded) row')
    (seen : m.seen = none)
    (given : m.discard = some b ∨ (m.settle.bind fun v => statusBy v.1 v.2 b) ≠ none) :
    m.rowOf b (some row) = m.rowOf b (some row') := by
  unfold BlockMove.rowOf
  rw [seen]
  by_cases discard : m.discard = some b
  · rw [if_pos discard, Option.map_some, Option.map_some, alike]
  · obtain ⟨status, settles⟩ := Option.ne_none_iff_exists'.mp (given.resolve_left discard)
    have forget : ∀ block : StoredBlock, settledTo (some status) block =
        settledTo (some status) (settledTo (some .discarded) block) := fun block => rfl
    rw [if_neg discard, settles]
    simp only [settledTo_none, id_eq, Option.filter_none, Option.none_or,
      Option.some_or, Option.map_some]
    rw [forget row, forget row', alike]

/-- What an event leaves of the verdict of a FINAL slot: the same verdict, or one whose blocks, old and
new, it gives their statuses. -/
theorem verdict_after {db : Db} {e : Timed} {m : RowMove} (moved : rowMove db e = some m)
    (settled : (rowAt db m.row.slot e.nowMs).status = .final) :
    m.row.status = .final ∧
      (m.row.finalBlockId = (rowAt db m.row.slot e.nowMs).finalBlockId ∨
        (blockMove db e).discard = (rowAt db m.row.slot e.nowMs).finalBlockId ∧
          (blockMove db e).settle = some (m.row.finalBlockId, m.row.candidateBlockIds)) := by
  have move := rowStep_of_rowMove moved
  generalize blockMove db e = bm at move ⊢
  cases move with
  | @block fb nowMs taken found =>
      have here : (bodySeen (rowAt db taken.head.slot nowMs) taken.head.id nowMs).slot =
          taken.head.slot := (slot_bodySeen _ _ _).trans (slot_rowAt _ _ _)
      rw [here] at settled ⊢
      rw [bodySeen_eq]
      refine ⟨?_, .inl rfl⟩
      dsimp only
      rw [settled]
      decide
  | @candidate out nowMs s exec read open_ =>
      have here : (frameRow (rowAt db s nowMs) .candidate exec nowMs).slot = s :=
        (slot_frameRow _ _ _ _).trans (slot_rowAt _ _ _)
      rw [here] at settled
      exact absurd settled open_
  | @final out nowMs s exec read open_ =>
      have here : (frameRow (rowAt db s nowMs) .final exec nowMs).slot = s :=
        (slot_frameRow _ _ _ _).trans (slot_rowAt _ _ _)
      rw [here] at settled
      exact absurd settled open_
  | @completed out nowMs s exec read final completes =>
      have here : (completedRow (rowAt db s nowMs) exec nowMs).slot = s := slot_rowAt _ _ _
      rw [here]
      exact ⟨final, .inl rfl⟩
  | @transfers resp nowMs pb m about framed =>
      unfold transfersMove at framed
      split at framed
      · cases framed
      · obtain rfl := Option.some.inj framed
        have here := slot_rowAt db (NodeDecode.slotFromPb pb) nowMs
        dsimp only at settled ⊢
        rw [here] at settled ⊢
        exact ⟨settled, .inl rfl⟩
  | @touched resp nowMs s out about known taken =>
      have here := slot_rowAt db s nowMs
      dsimp only at settled ⊢
      rw [here] at settled ⊢
      exact ⟨settled, .inl rfl⟩
  | @peer resp nowMs s p about known proceeds =>
      have here : (peerRow resp p.state).slot = s :=
        (slot_peerRow resp p.state).trans ((slot_proceeds proceeds).trans (slot_rowAt _ _ _))
      have status : (peerRow resp p.state).status = p.state.status := by rw [peerRow_eq]
      have final : (peerRow resp p.state).finalBlockId = p.state.finalBlockId := by rw [peerRow_eq]
      dsimp only at settled ⊢
      rw [here] at settled ⊢
      refine ⟨status.trans (status_proceeds proceeds), ?_⟩
      cases proceeds with
      | promoted open_ => exact absurd settled open_
      | agreed settled agree trails => exact .inl final
      | adopted settled l q held offered differ adopts => exact .inr ⟨rfl, rfl⟩
  | @legacy resp nowMs s about known =>
      have here : (legacyRow resp (legacyPromoted resp (rowAt db s nowMs))).slot = s :=
        (slot_legacyRow resp _).trans (slot_rowAt _ _ _)
      dsimp only at settled ⊢
      rw [here] at settled ⊢
      have same : legacyPromoted resp (rowAt db s nowMs) = rowAt db s nowMs :=
        if_neg (not_not.mpr settled)
      rw [same, legacyRow_eq]
      exact ⟨settled, .inl rfl⟩
  | @forced resp nowMs s v about target =>
      have here : (forcedRow (rowAt db s nowMs) resp).slot = s :=
        (slot_adoptedRow _ _ _ (peerTrail resp)).trans (slot_rowAt _ _ _)
      dsimp only at settled ⊢
      rw [here] at settled ⊢
      exact ⟨rfl, .inr ⟨rfl, rfl⟩⟩

variable [DenunciationDigest]

/-- **A healed status stays the right one** while the event gives the block none: its slot stays FINAL
and the verdict says the same of the block. -/
theorem resolved_after {db : Db} {e : Timed} {b : BlockId} {s : Slot} {slot : SlotState}
    (found : db.readSlot s = some slot) (settled : slot.status = .final)
    (discard : (blockMove db e).discard ≠ some b)
    (settle : ((blockMove db e).settle.bind fun v => statusBy v.1 v.2 b) = none) :
    ∃ slot', (step db e).readSlot s = some slot' ∧ slot'.status = .final ∧
      resolvedStatus slot' b = resolvedStatus slot b := by
  rw [readSlot_step]
  cases moved : rowMove db e with
  | none => exact ⟨slot, found, settled, rfl⟩
  | some m =>
      dsimp only
      by_cases here : m.row.slot = s
      · have row : rowAt db m.row.slot e.nowMs = slot := by rw [here, rowAt, found]; rfl
        have after := verdict_after moved
        rw [row] at after
        obtain ⟨final, verdict⟩ := after settled
        refine ⟨readBackSlotState m.row, if_pos here, final, ?_⟩
        change (if m.row.finalBlockId = some b then BlockStatus.final else .discarded) = _
        rw [resolvedStatus]
        rcases verdict with same | ⟨discards, settles⟩
        · rw [same]
        · rw [settles] at settle
          rw [discards] at discard
          have notNew : m.row.finalBlockId ≠ some b := by
            intro new
            rw [Option.bind_some, statusBy, if_pos new] at settle
            cases settle
          rw [if_neg notNew, if_neg discard]
      · refine ⟨slot, ?_, settled, rfl⟩
        rw [if_neg here, found]
        split <;> rfl

/-! ## The writer keeps stores twins -/

/-- A block the event takes from the node is for the slot its row is already filed under, as the
block's id is a digest of its header. -/
def OneSlot (db : Db) (e : Timed) : Prop :=
  ∀ fb head row, e.event = .block fb → decodeHead fb = .ok head →
    db.readBlock head.id = some row → row.slot = head.slot

omit [DenunciationDigest] in
theorem takenBlock_eq {healed alone : Db} (alike : Alike healed alone) (fb : FilledBlock)
    (nowMs : Int) : takenBlock healed fb nowMs = takenBlock alone fb nowMs := by
  unfold takenBlock
  cases decodeHead fb with
  | error err => rfl
  | ok head =>
      dsimp only
      rw [(handledIn_persistEndorsements (head.endorsements nowMs)).result _ _ alike.endorsements,
        (handledIn_ingestOperations head nowMs fb.operations).result _ _ alike.ops]

omit [DenunciationDigest] in
theorem peerBlockMove_eq (row : SlotState) (resp : FinalSlotResponse) {left right : Reconciled}
    (same : SameEnd left right) : peerBlockMove row resp left = peerBlockMove row resp right := by
  cases left with
  | turnedAway out =>
      cases right with
      | turnedAway out' => rfl
      | proceed p' => exact same.elim
  | proceed p =>
      cases right with
      | turnedAway out' => exact same.elim
      | proceed p' =>
          obtain ⟨states, outs⟩ := same
          rw [peerBlockMove, peerBlockMove, states, outs]

omit [DenunciationDigest] in
/-- Stores alike move their block rows alike, but for a block of the node. -/
theorem blockMove_eq {healed alone : Db} (alike : Alike healed alone) {e : Timed}
    (notBlock : ∀ fb, e.event ≠ .block fb) :
    blockMove healed e = blockMove alone e ∧ (blockMove alone e).seen = none := by
  obtain ⟨event, nowMs⟩ := e
  have rows := rowAt_eq alike.slots
  unfold blockMove
  cases event with
  | block fb => exact absurd rfl (notBlock fb)
  | exec out =>
      simp only [rows, true_and]
      cases readFrame out <;> rfl
  | transfers resp => exact ⟨rfl, rfl⟩
  | peerPatch resp =>
      dsimp only
      cases resp.finalKnown with
      | false => exact ⟨rfl, rfl⟩
      | true =>
          cases slotOf resp with
          | none => exact ⟨rfl, rfl⟩
          | some s =>
              simp only [if_true, Option.elim_some, rows]
              refine ⟨peerBlockMove_eq _ _ (sameEnd_reconcileVerdict alike.chain _ _ _), ?_⟩
              cases reconcileVerdict alone s (rowAt alone s nowMs) resp <;> rfl
  | legacyPatch resp =>
      simp only [rows, true_and]
      split
      · cases slotOf resp <;> rfl
      · rfl
  | forcedVerdict resp =>
      simp only [rows, true_and]
      split
      · split <;> rfl
      · rfl
  | tick => exact ⟨rfl, rfl⟩

omit [DenunciationDigest] in
theorem id_seenRow (db : Db) (taken : TakenBlock) (nowMs : Int) :
    (seenRow db taken nowMs).id = taken.head.id := by
  unfold seenRow seenBlock
  cases found : db.readBlock taken.head.id with
  | none => rfl
  | some row =>
      have own : row.id = taken.head.id := Db.id_of_readBlock found
      exact own

omit [DenunciationDigest] in
/-- The row of a block of the node is the same whether or not a reader healed the one before it. -/
theorem seenRow_eq {healed alone : Db} (twin : Twin healed alone) (taken : TakenBlock) (nowMs : Int)
    (oneSlot : ∀ row, alone.readBlock taken.head.id = some row → row.slot = taken.head.slot) :
    seenRow healed taken nowMs = seenRow alone taken nowMs := by
  have rows : rowAt healed taken.head.slot nowMs = rowAt alone taken.head.slot nowMs :=
    rowAt_eq (twin.families .slots (by decide)) _ _
  unfold seenRow seenBlock
  rw [rows]
  rcases twin.blocks taken.head.id with same | ⟨row, slot, found, open_, settled, final, now⟩
  · rw [same]
  · have own : row.id = taken.head.id := Db.id_of_readBlock found
    have here : rowAt alone taken.head.slot nowMs = slot := by
      rw [← oneSlot row found, rowAt, settled]
      rfl
    have status : resolvedStatus slot row.id =
        initialBlockStatus (rowAt alone taken.head.slot nowMs) taken.head.id := by
      rw [here, own, resolvedStatus_eq_initial final]
    rw [found, now]
    dsimp only [resolved]
    rw [if_neg (resolvedStatus_ne_seen slot row.id), if_pos open_, status]

/-- A healed row that the event gives no status stays healed. -/
theorem healedRow_quiet {alone : Db} {e : Timed} {healed : Option StoredBlock} {b : BlockId}
    (related : HealedRow alone healed (alone.readBlock b))
    (discard : (blockMove alone e).discard ≠ some b)
    (settle : ((blockMove alone e).settle.bind fun v => statusBy v.1 v.2 b) = none) :
    HealedRow (step alone e) healed (alone.readBlock b) := by
  rcases related with same | ⟨row, slot, found, open_, settled, final, now⟩
  · exact .inl same
  · obtain ⟨slot', settled', final', kept⟩ := resolved_after settled final discard settle
    have own : row.id = b := Db.id_of_readBlock found
    refine .inr ⟨row, slot', found, open_, settled', final', ?_⟩
    rw [now, resolved, resolved, own, kept]

/-- **The writer keeps stores twins.** -/
theorem twin_ingest {healed alone : Db} (twin : Twin healed alone) {e : Timed}
    (oneSlot : OneSlot alone e) : Twin (step healed e) (step alone e) where
  families f other := contents_step_eq twin.stages e (twin.families f other)
  blocks b := by
    have related := twin.blocks b
    by_cases block : ∃ fb, e.event = .block fb
    · obtain ⟨fb, isBlock⟩ := block
      obtain ⟨event, nowMs⟩ := e
      dsimp only at isBlock
      subst isBlock
      have moves : ∀ db, blockMove db ⟨.block fb, nowMs⟩ =
          { seen := (takenBlock db fb nowMs).map (seenRow db · nowMs) } := fun db => rfl
      have quiet : HealedRow (step alone ⟨.block fb, nowMs⟩) (healed.readBlock b)
          (alone.readBlock b) := by
        refine healedRow_quiet related ?_ ?_
        · rw [moves]
          rintro ⟨⟩
        · rw [moves]
          rfl
      rw [readBlock_step, readBlock_step, moves, moves, takenBlock_eq twin.stages]
      cases taken : takenBlock alone fb nowMs with
      | none => simpa [BlockMove.rowOf] using quiet
      | some t =>
          have same : seenRow healed t nowMs = seenRow alone t nowMs := by
            refine seenRow_eq twin t nowMs ?_
            intro row found
            exact oneSlot fb t.head row rfl (RowBlocks.decodeHead_of_takenBlock taken) found
          simp only [Option.map_some, same]
          by_cases here : (seenRow alone t nowMs).id = b
          · exact .inl (by simp [BlockMove.rowOf, Option.filter_some, here])
          · simpa [BlockMove.rowOf, Option.filter_some, here] using quiet
    · have notBlock : ∀ fb, e.event ≠ .block fb := fun fb isBlock => block ⟨fb, isBlock⟩
      obtain ⟨same, seen⟩ := blockMove_eq twin.stages notBlock
      rw [readBlock_step, readBlock_step, same]
      rcases related with equal | ⟨row, slot, found, open_, settled, final, now⟩
      · exact .inl (by rw [equal])
      · by_cases given : (blockMove alone e).discard = some b ∨
            ((blockMove alone e).settle.bind fun v => statusBy v.1 v.2 b) ≠ none
        · refine .inl ?_
          rw [now, found]
          exact rowOf_settled rfl seen given
        · obtain ⟨discard, settle⟩ := not_or.mp given
          rw [not_not] at settle
          have quiet := healedRow_quiet (twin.blocks b) discard settle
          rw [now, found] at quiet ⊢
          rw [rowOf_quiet discard settle seen, rowOf_quiet discard settle seen]
          exact quiet

end Writer

end MassaIndexer.Rest.SelfHeal
