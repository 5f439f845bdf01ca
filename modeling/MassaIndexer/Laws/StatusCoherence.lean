/-
# Laws.StatusCoherence -- the statuses of a settled slot's blocks

A settled slot's final block is `final` and its other candidates are `discarded`. The archive's patch
leaves statuses to whoever brings the exec output, so the law is about slots that have it, or that no
such patch was taken for; and a block has one status, so it is about slots whose blocks no event names
for another slot.

Each event settles the statuses of its slot by the row it leaves, or leaves verdict and statuses as
they were (`own_move`); of other slots it touches no block (`touched_named`).
-/
import MassaIndexer.Writer.RowBlocks
import MassaIndexer.Chain.Snapshot

namespace MassaIndexer.Laws.StatusCoherence

open MassaIndexer.Theory.Runs
open MassaIndexer.Data.Ids MassaIndexer.Data.Model MassaIndexer.Data.Proto MassaIndexer.Data.Codec
open MassaIndexer.Store.ColumnFamilies
open MassaIndexer.Writer MassaIndexer.Writer.NodeProto MassaIndexer.Writer.NodeDecode
open MassaIndexer.Writer.Shared MassaIndexer.Writer.Handlers MassaIndexer.Writer.Step
open MassaIndexer.Writer.Families MassaIndexer.Writer.Patches MassaIndexer.Writer.RowMoves
open MassaIndexer.Writer.BlockMoves MassaIndexer.Writer.RowBlocks
open MassaIndexer.Peer.Patch MassaIndexer.Peer.Arbiter MassaIndexer.Chain

set_option autoImplicit false

/-! ## Statuses and rows -/

/-- The stored blocks a row names have the statuses its verdict gives them. -/
structure Coherent (db : Db) (row : SlotState) : Prop where
  final : ∀ b block, row.finalBlockId = some b → db.readBlock b = some block → block.status = .final
  others : ∀ b ∈ row.candidateBlockIds, row.finalBlockId ≠ some b →
    ∀ block, db.readBlock b = some block → block.status = .discarded

theorem coherent_iff {db : Db} {row : SlotState} : Coherent db row ↔
    ∀ b block status, db.readBlock b = some block →
      statusBy row.finalBlockId row.candidateBlockIds b = some status → block.status = status := by
  constructor
  · intro coherent b block status found given
    unfold statusBy at given
    split at given
    · next final =>
        obtain rfl := Option.some.inj given
        exact coherent.final b block final found
    · next other =>
        split at given
        · next candidate =>
            obtain rfl := Option.some.inj given
            exact coherent.others b candidate other block found
        · cases given
  · intro follows
    constructor
    · intro b block final found
      exact follows b block .final found (if_pos final)
    · intro b candidate other block found
      exact follows b block .discarded found ((if_neg other).trans (if_pos candidate))

theorem mem_blocksOf_of_statusBy {row : SlotState} {b : BlockId} {status : BlockStatus}
    (given : statusBy row.finalBlockId row.candidateBlockIds b = some status) : b ∈ blocksOf row := by
  unfold statusBy at given
  split at given
  · next final => exact mem_blocksOf.mpr (.inl final)
  · split at given
    · next candidate => exact mem_blocksOf.mpr (.inr candidate)
    · cases given

theorem statusBy_ne_seen {final : Option BlockId} {candidates : List BlockId} {b : BlockId} :
    statusBy final candidates b ≠ some .seenCandidate := by
  unfold statusBy
  split
  · rintro ⟨⟩
  · split <;> rintro ⟨⟩

/-- A block no part of a move is about. -/
theorem rowOf_of_untouched {m : BlockMove} {b : BlockId} (discard : m.discard ≠ some b)
    (store : ∀ block, m.store = some block → block.id ≠ b)
    (seen : ∀ block, m.seen = some block → block.id ≠ b)
    (settle : ∀ v, m.settle = some v → statusBy v.1 v.2 b = none) (old : Option StoredBlock) :
    m.rowOf b old = old := by
  have absent : ∀ o : Option StoredBlock, (∀ block, o = some block → block.id ≠ b) →
      o.filter (·.id = b) = none := by
    intro o other
    rw [Option.filter_eq_none_iff]
    intro block found
    simpa using other block found
  have quiet : m.settle.bind (fun v => statusBy v.1 v.2 b) = none := by
    cases given : m.settle with
    | none => rfl
    | some v => exact settle v given
  unfold BlockMove.rowOf
  rw [if_neg discard, absent m.store store, absent m.seen seen, quiet]
  simp

theorem rowOf_seen (block : StoredBlock) (b : BlockId) (old : Option StoredBlock) :
    BlockMove.rowOf { seen := some block } b old = if block.id = b then some block else old := by
  by_cases here : block.id = b <;> simp [BlockMove.rowOf, Option.filter_some, here]

section Writers

variable [Bs58Check]

/-! ## One event and its slot -/

/-- The archive's patch for the slot, where it is taken. -/
def ArchiveTaken (s : Slot) (e : Timed) : Prop :=
  ∃ resp, e.event = .legacyPatch resp ∧ slotOf resp = some s ∧ resp.finalKnown = true

/-- The slot is settled and keeps its verdict; at most a block of the node comes in. -/
structure Stays (db : Db) (e : Timed) (m : RowMove) : Prop where
  settled : (rowAt db m.row.slot e.nowMs).status = .final
  verdict : m.row.finalBlockId = (rowAt db m.row.slot e.nowMs).finalBlockId
  exec : m.row.completeness.execOutputFinal =
    (rowAt db m.row.slot e.nowMs).completeness.execOutputFinal
  blocks : blockMove db e = {} ∧
      m.row.candidateBlockIds = (rowAt db m.row.slot e.nowMs).candidateBlockIds ∨
    ∃ b : TakenBlock, blockMove db e = { seen := some (seenRow db b e.nowMs) } ∧
      b.head.slot = m.row.slot ∧ Names e b.head.id m.row.slot ∧
      m.row.candidateBlockIds =
        ((rowAt db m.row.slot e.nowMs).addCandidate b.head.id).candidateBlockIds

theorem settle_eq {db : Db} {e : Timed} {m : RowMove} (moved : rowMove db e = some m)
    {v : Option BlockId × List BlockId} (settles : (blockMove db e).settle = some v) :
    v = (m.row.finalBlockId, m.row.candidateBlockIds) := by
  have move := rowStep_of_rowMove moved
  generalize blockMove db e = bm at move settles
  cases move with
  | block taken found => cases settles
  | candidate s exec read open_ => cases settles
  | final s exec read open_ => exact (Option.some.inj settles).symm
  | completed s exec read settled completes => exact (Option.some.inj settles).symm
  | transfers pb m about framed => cases settles
  | touched s out about known taken => cases settles
  | peer s p about known proceeds => exact (Option.some.inj settles).symm
  | legacy s about known =>
      dsimp only [legacyBlockMove] at settles
      split at settles
      · exact (Option.some.inj settles).symm
      · cases settles
  | forced s v about target => exact (Option.some.inj settles).symm

/-- **An event settles the statuses of its slot by the row it leaves, unless the slot is open, the
archive defers them, or verdict and statuses stay.** -/
theorem own_move {db : Db} {e : Timed} {m : RowMove} (moved : rowMove db e = some m)
    (unsettled : (rowAt db m.row.slot e.nowMs).status ≠ .final →
      (rowAt db m.row.slot e.nowMs).completeness.execOutputFinal = false) :
    (blockMove db e).settle = some (m.row.finalBlockId, m.row.candidateBlockIds) ∨
      m.row.status ≠ .final ∨
      (ArchiveTaken m.row.slot e ∧ m.row.completeness.execOutputFinal = false) ∨ Stays db e m := by
  have move := rowStep_of_rowMove moved
  generalize written : blockMove db e = bm at move
  cases move with
  | @block fb nowMs taken found =>
      have here : (bodySeen (rowAt db taken.head.slot nowMs) taken.head.id nowMs).slot =
          taken.head.slot := (slot_bodySeen _ _ _).trans (slot_rowAt _ _ _)
      by_cases settled : (rowAt db taken.head.slot nowMs).status = .final
      · refine .inr (.inr (.inr ⟨?_, ?_, ?_, .inr ⟨taken, written, here.symm, ?_, ?_⟩⟩))
        · rw [here]
          exact settled
        · rw [here, bodySeen_eq]
        · rw [here, bodySeen_eq]
        · rw [here]
          exact ⟨taken.head, decodeHead_of_takenBlock found, rfl, rfl⟩
        · rw [here, bodySeen_eq]
      · refine .inr (.inl ?_)
        dsimp only
        rw [bodySeen_eq]
        dsimp only
        split
        · decide
        · exact settled
  | candidate s exec read open_ => exact .inr (.inl fun settled => by cases settled)
  | final s exec read open_ => exact .inl rfl
  | completed s exec read settled completes => exact .inl rfl
  | @transfers resp nowMs pb m about framed =>
      unfold transfersMove at framed
      split at framed
      · cases framed
      · obtain rfl := Option.some.inj framed
        by_cases settled : (rowAt db (NodeDecode.slotFromPb pb) nowMs).status = .final
        · refine .inr (.inr (.inr ⟨?_, ?_, ?_, .inl ⟨written, ?_⟩⟩))
          all_goals rw [slot_rowAt]
          exact settled
        · exact .inr (.inl settled)
  | @touched resp nowMs s out about known taken =>
      refine .inr (.inr (.inr ⟨?_, ?_, ?_, .inl ⟨written, ?_⟩⟩))
      all_goals rw [slot_rowAt]
      exact settled_of_turnedAway taken
  | peer s p about known proceeds => exact .inl rfl
  | @legacy resp nowMs s about known =>
      have here : (legacyRow resp (legacyPromoted resp (rowAt db s nowMs))).slot = s :=
        (slot_legacyRow resp _).trans (slot_rowAt _ _ _)
      have row := legacyRow_eq resp (legacyPromoted resp (rowAt db s nowMs))
      have kept : (legacyRow resp (legacyPromoted resp (rowAt db s nowMs))).completeness.execOutputFinal =
          (rowAt db s nowMs).completeness.execOutputFinal := by
        rw [row]
        exact exec_legacyPromoted resp _
      cases exec : (rowAt db s nowMs).completeness.execOutputFinal with
      | false =>
          refine .inr (.inr (.inl ⟨?_, kept.trans exec⟩))
          rw [here]
          exact ⟨resp, rfl, about, known⟩
      | true =>
          have settled : (rowAt db s nowMs).status = .final := by
            by_contra open_
            rw [here] at unsettled
            exact absurd (exec.symm.trans (unsettled open_)) (by decide)
          have same : legacyPromoted resp (rowAt db s nowMs) = rowAt db s nowMs :=
            if_neg (not_not.mpr settled)
          rw [same] at here kept row ⊢
          cases body : (legacyRow resp (rowAt db s nowMs)).completeness.blockBodyStored with
          | true =>
              refine .inl ?_
              simp only [legacyBlockMove, same, kept.trans exec, body, Bool.and_self, if_true]
          | false =>
              have none : legacyBody resp (rowAt db s nowMs) = none := by
                rw [row] at body
                simp only [Bool.or_eq_false_iff] at body
                exact Option.isNone_iff_eq_none.mp (by simpa using body.1.2)
              refine .inr (.inr (.inr ⟨?_, ?_, ?_, .inl ⟨?_, ?_⟩⟩))
              · rw [here]
                exact settled
              · rw [here, row]
              · rw [here]
                exact kept
              · rw [written]
                simp [legacyBlockMove, same, body, none]
              · rw [here, row, none]
                rfl
  | forced s v about target => exact .inl rfl

/-! ## One event and the other slots -/

/-- A block some part of a move is about. -/
structure Touches (m : BlockMove) (b : BlockId) : Prop where
  part : m.discard = some b ∨ (∃ block, (m.store = some block ∨ m.seen = some block) ∧ block.id = b) ∨
    ∃ v status, m.settle = some v ∧ statusBy v.1 v.2 b = some status

omit [Bs58Check] in
theorem rowOf_of_not_touches {m : BlockMove} {b : BlockId} (untouched : ¬ Touches m b)
    (old : Option StoredBlock) : m.rowOf b old = old := by
  refine rowOf_of_untouched ?_ ?_ ?_ ?_ old
  · exact fun discard => untouched ⟨.inl discard⟩
  · exact fun block store here => untouched ⟨.inr (.inl ⟨block, .inl store, here⟩)⟩
  · exact fun block seen here => untouched ⟨.inr (.inl ⟨block, .inr seen, here⟩)⟩
  · intro v settles
    by_contra given
    obtain ⟨status, given⟩ := Option.ne_none_iff_exists'.mp given
    exact untouched ⟨.inr (.inr ⟨v, status, settles, given⟩)⟩

/-- **A block is touched only where its slot's row names it, before or after.** -/
theorem touched_named {db : Db} {e : Timed} {b : BlockId} (touches : Touches (blockMove db e) b) :
    ∃ m, rowMove db e = some m ∧
      (b ∈ blocksOf (rowAt db m.row.slot e.nowMs) ∨ b ∈ blocksOf m.row) := by
  cases moved : rowMove db e with
  | none =>
      rw [blockMove_of_unmoved moved] at touches
      rcases touches.part with discard | ⟨block, entered, -⟩ | ⟨v, status, settles, -⟩
      · cases discard
      · simp at entered
      · cases settles
  | some m =>
      refine ⟨m, rfl, ?_⟩
      rcases touches.part with discard | ⟨block, entered, rfl⟩ | ⟨v, status, settles, given⟩
      · have move := rowStep_of_rowMove moved
        generalize blockMove db e = bm at move discard
        cases move with
        | block taken found => cases discard
        | candidate s exec read open_ => cases discard
        | final s exec read open_ => cases discard
        | completed s exec read settled completes => cases discard
        | transfers pb m about framed => cases discard
        | touched s out about known taken => cases discard
        | @peer resp nowMs s p about known proceeds =>
            have here : (peerRow resp p.state).slot = s :=
              (slot_peerRow resp p.state).trans ((slot_proceeds proceeds).trans (slot_rowAt _ _ _))
            rw [here]
            dsimp only [peerBlockMove] at discard
            split at discard
            · exact .inl (mem_blocksOf.mpr (.inl discard))
            · cases discard
        | @legacy resp nowMs s about known => cases discard
        | @forced resp nowMs s v about target =>
            have here : (forcedRow (rowAt db s nowMs) resp).slot = s :=
              (slot_adoptedRow _ _ _ (peerTrail resp)).trans (slot_rowAt _ _ _)
            rw [here]
            exact .inl (mem_blocksOf.mpr (.inl discard))
      · exact .inr (mem_blocksOf.mpr (.inr (candidate_of_entered moved entered)))
      · rw [settle_eq moved settles] at given
        exact .inr (mem_blocksOf_of_statusBy given)

variable [DenunciationDigest]

/-! ## Over a run -/

/-- Some event names the block for the slot. -/
def NamedIn (events : List Timed) (b : BlockId) (t : Slot) : Prop := ∃ e ∈ events, Names e b t

/-- What a run upholds for slot `s`. -/
structure Upheld (s : Slot) (events : List Timed) (db : Db) : Prop where
  named : ∀ t row b, db.readSlot t = some row → b ∈ blocksOf row → NamedIn events b t
  held : ∀ b, (db.readBlock b).isSome → ∃ t row, db.readSlot t = some row ∧ b ∈ row.candidateBlockIds
  unsettled : ∀ t row, db.readSlot t = some row → row.status ≠ .final →
    row.completeness.execOutputFinal = false
  coherent : ∀ row, db.readSlot s = some row → row.status = .final →
    (row.completeness.execOutputFinal = true ∨ ∀ e ∈ events, ¬ ArchiveTaken s e) → Coherent db row

omit [Bs58Check] [DenunciationDigest] in
theorem readSlot_of_rowAt {db : Db} {t : Slot} {nowMs : Int} {b : BlockId}
    (named : b ∈ blocksOf (rowAt db t nowMs)) : db.readSlot t = some (rowAt db t nowMs) := by
  unfold rowAt at named ⊢
  cases found : db.readSlot t with
  | none =>
      rw [found] at named
      cases named
  | some row => rfl

section Step

variable {s : Slot} {before : List Timed} {db : Db} {e : Timed} (up : Upheld s before db)

include up

omit [DenunciationDigest] in
theorem Upheld.rowAt_unsettled (t : Slot) (open_ : (rowAt db t e.nowMs).status ≠ .final) :
    (rowAt db t e.nowMs).completeness.execOutputFinal = false := by
  unfold rowAt at open_ ⊢
  cases found : db.readSlot t with
  | none => rfl
  | some row =>
      rw [found] at open_
      exact up.unsettled t row found open_

omit [DenunciationDigest] in
theorem Upheld.named_of_move {m : RowMove} (moved : rowMove db e = some m) {b : BlockId}
    (named : b ∈ blocksOf (rowAt db m.row.slot e.nowMs) ∨ b ∈ blocksOf m.row) :
    NamedIn (before ++ [e]) b m.row.slot := by
  have earlier : ∀ {b t}, NamedIn before b t → NamedIn (before ++ [e]) b t := by
    rintro b t ⟨e', member, names⟩
    exact ⟨e', List.mem_append_left _ member, names⟩
  have old : b ∈ blocksOf (rowAt db m.row.slot e.nowMs) → NamedIn (before ++ [e]) b m.row.slot :=
    fun known => earlier (up.named _ _ b (readSlot_of_rowAt known) known)
  rcases named with known | new
  · exact old known
  · rcases named_move moved new with known | names
    · exact old known
    · exact ⟨e, List.mem_append_right _ (List.mem_singleton.mpr rfl), names⟩

theorem Upheld.named_step (t : Slot) (row : SlotState) (b : BlockId)
    (found : (step db e).readSlot t = some row) (named : b ∈ blocksOf row) :
    NamedIn (before ++ [e]) b t := by
  rcases row_after found with ⟨m, moved, rfl, rfl⟩ | ⟨old, -⟩ | rfl
  · exact up.named_of_move moved (.inr named)
  · obtain ⟨e', member, names⟩ := up.named t row b old named
    exact ⟨e', List.mem_append_left _ member, names⟩
  · cases named

theorem Upheld.held_step (b : BlockId) (held : ((step db e).readBlock b).isSome) :
    ∃ t row, (step db e).readSlot t = some row ∧ b ∈ row.candidateBlockIds := by
  have after : ∀ m, rowMove db e = some m →
      (step db e).readSlot m.row.slot = some (readBackSlotState m.row) := by
    intro m moved
    rw [readSlot_step, moved]
    exact if_pos rfl
  rcases RowBlocks.held_step held with before | ⟨m, moved, candidate⟩
  · obtain ⟨t, row, found, candidate⟩ := up.held b before
    by_cases here : ∃ m, rowMove db e = some m ∧ m.row.slot = t
    · obtain ⟨m, moved, rfl⟩ := here
      refine ⟨_, _, after m moved, candidates_move moved ?_⟩
      rw [rowAt, found]
      exact candidate
    · refine ⟨t, row, ?_, candidate⟩
      rw [readSlot_step, found]
      cases moved : rowMove db e with
      | none => rfl
      | some m =>
          have other : m.row.slot ≠ t := fun same => here ⟨m, moved, same⟩
          simp [other]
  · exact ⟨_, _, after m moved, candidate⟩

theorem Upheld.unsettled_step (t : Slot) (row : SlotState)
    (found : (step db e).readSlot t = some row) (open_ : row.status ≠ .final) :
    row.completeness.execOutputFinal = false := by
  rcases row_after found with ⟨m, moved, rfl, rfl⟩ | ⟨old, -⟩ | rfl
  · exact unsettled_move moved (up.rowAt_unsettled m.row.slot) open_
  · exact up.unsettled t row old open_
  · rfl

/-- The row and its statuses where another slot, or none, is written. -/
theorem Upheld.coherent_elsewhere
    (own : ∀ b t, NamedIn (before ++ [e]) b s → NamedIn (before ++ [e]) b t → t = s)
    {row : SlotState} (found : db.readSlot s = some row)
    (apart : ∀ m, rowMove db e = some m → m.row.slot ≠ s) (coherent : Coherent db row) :
    Coherent (step db e) row := by
  refine coherent_iff.mpr fun b block status stored given => ?_
  have named := mem_blocksOf_of_statusBy given
  have untouched : ¬ Touches (blockMove db e) b := by
    intro touches
    obtain ⟨m, moved, about⟩ := touched_named touches
    obtain ⟨e', member, names⟩ := up.named s row b found named
    exact apart m moved (own b _ ⟨e', List.mem_append_left _ member, names⟩
      (up.named_of_move moved about))
  rw [readBlock_step, rowOf_of_not_touches untouched] at stored
  exact coherent_iff.mp coherent b block status stored given

/-- A block of the node comes in after its slot is settled. -/
theorem Upheld.coherent_seen
    (own : ∀ b t, NamedIn (before ++ [e]) b s → NamedIn (before ++ [e]) b t → t = s)
    {b : TakenBlock} (here : b.head.slot = s) (names : Names e b.head.id s)
    (seen : blockMove db e = { seen := some (seenRow db b e.nowMs) })
    (settled : (rowAt db s e.nowMs).status = .final)
    (coherent : Coherent db (rowAt db s e.nowMs)) :
    Coherent (step db e) ((rowAt db s e.nowMs).addCandidate b.head.id) := by
  refine coherent_iff.mpr fun c block status stored given => ?_
  have follows := coherent_iff.mp coherent
  rw [SlotState.finalBlockId_addCandidate] at given
  rw [readBlock_step, seen, rowOf_seen, id_seenRow] at stored
  by_cases this : b.head.id = c
  · subst this
    rw [if_pos rfl] at stored
    rw [← Option.some.inj stored, seenRow, seenBlock]
    cases held : db.readBlock b.head.id with
    | none =>
        change initialBlockStatus (rowAt db b.head.slot e.nowMs) b.head.id = status
        rw [here]
        unfold initialBlockStatus
        rw [if_pos settled]
        unfold statusBy at given
        split at given
        · next final => exact (if_pos final).trans (Option.some.inj given)
        · next other =>
            rw [if_pos ((SlotState.mem_addCandidate _ _).mpr (.inl rfl))] at given
            exact (if_neg other).trans (Option.some.inj given)
    | some old =>
        -- a body held before is a candidate of its slot already
        obtain ⟨t, row, found, candidate⟩ := up.held b.head.id (by rw [held]; rfl)
        obtain ⟨e', member, names'⟩ := up.named t row _ found (mem_blocksOf.mpr (.inr candidate))
        obtain rfl := own b.head.id t ⟨e, by simp, names⟩ ⟨e', by simp [member], names'⟩
        have known : b.head.id ∈ (rowAt db t e.nowMs).candidateBlockIds := by
          rw [rowAt, found]
          exact candidate
        have given' : statusBy (rowAt db t e.nowMs).finalBlockId
            (rowAt db t e.nowMs).candidateBlockIds b.head.id = some status := by
          rw [← given]
          unfold statusBy
          rw [if_pos known, if_pos ((SlotState.mem_addCandidate _ _).mpr (.inl rfl))]
        have status' := follows b.head.id old status held given'
        have settledStatus : old.status ≠ .seenCandidate := by
          rw [status']
          rintro rfl
          exact statusBy_ne_seen given'
        exact (if_neg settledStatus).trans status'
  · rw [if_neg this] at stored
    refine follows c block status stored (Eq.trans ?_ given)
    unfold statusBy
    simp [SlotState.mem_addCandidate, Ne.symm this]

theorem Upheld.coherent_step
    (own : ∀ b t, NamedIn (before ++ [e]) b s → NamedIn (before ++ [e]) b t → t = s)
    (row : SlotState) (found : (step db e).readSlot s = some row) (final : row.status = .final)
    (brought : row.completeness.execOutputFinal = true ∨
      ∀ e' ∈ before ++ [e], ¬ ArchiveTaken s e') : Coherent (step db e) row := by
  have earlier : (∀ e' ∈ before ++ [e], ¬ ArchiveTaken s e') → ∀ e' ∈ before, ¬ ArchiveTaken s e' :=
    fun none e' member => none e' (List.mem_append_left _ member)
  rcases row_after found with ⟨m, moved, rfl, rfl⟩ | ⟨old, apart⟩ | rfl
  · rcases own_move moved (up.rowAt_unsettled m.row.slot) with
      settles | open_ | ⟨archive, unset⟩ | stays
    · refine coherent_iff.mpr fun b block status stored given => ?_
      rw [readBlock_step, BlockMove.rowOf, settles] at stored
      obtain ⟨before', -, rfl⟩ := Option.map_eq_some_iff.mp stored
      have given' : statusBy m.row.finalBlockId m.row.candidateBlockIds b = some status := given
      rw [Option.bind_some, given']
      rfl
    · exact absurd final open_
    · rcases brought with exec | none
      · exact absurd (exec.symm.trans unset) (by decide)
      · exact absurd archive (none e (by simp))
    · have present : db.readSlot m.row.slot = some (rowAt db m.row.slot e.nowMs) := by
        have settled := stays.settled
        unfold rowAt at settled ⊢
        cases found : db.readSlot m.row.slot with
        | none =>
            rw [found] at settled
            cases settled
        | some row => rfl
      have coherent := up.coherent _ present stays.settled
        (brought.imp (fun exec => stays.exec.symm.trans exec) earlier)
      -- the row written names the same final block, and the same candidates or one more
      have transfer : ∀ old : SlotState, old.finalBlockId = m.row.finalBlockId →
          old.candidateBlockIds = m.row.candidateBlockIds → Coherent (step db e) old →
          Coherent (step db e) (readBackSlotState m.row) := by
        intro old verdict candidates coherent
        refine ⟨fun b block named => coherent.final b block (verdict.trans named),
          fun b candidate other => coherent.others b (candidates ▸ candidate) ?_⟩
        rw [verdict]
        exact other
      rcases stays.blocks with ⟨unmoved, candidates⟩ | ⟨b, seen, here, names, candidates⟩
      · refine transfer _ stays.verdict.symm candidates.symm ?_
        refine coherent_iff.mpr fun b block status stored given => ?_
        rw [readBlock_step, unmoved] at stored
        have stored' : db.readBlock b = some block := by simpa [BlockMove.rowOf] using stored
        exact coherent_iff.mp coherent b block status stored' given
      · refine transfer ((rowAt db m.row.slot e.nowMs).addCandidate b.head.id) ?_ candidates.symm
          (up.coherent_seen own here names seen stays.settled coherent)
        rw [SlotState.finalBlockId_addCandidate]
        exact stays.verdict.symm
  · exact up.coherent_elsewhere own old apart (up.coherent row old final (brought.imp id earlier))
  · cases final

theorem Upheld.step (own : ∀ b t, NamedIn (before ++ [e]) b s → NamedIn (before ++ [e]) b t → t = s) :
    Upheld s (before ++ [e]) (Step.step db e) :=
  ⟨up.named_step, up.held_step, up.unsettled_step, up.coherent_step own⟩

end Step

theorem upheld_ingest {s : Slot} {events : List Timed}
    (own : ∀ b t, NamedIn events b s → NamedIn events b t → t = s) :
    Upheld s events (ingest events) := by
  induction events using List.reverseRecOn with
  | nil =>
      have none : ∀ t, Db.empty.readSlot t = none := fun t => by simp [Db.empty, Db.readSlot]
      refine ⟨fun t row b found => ?_, fun b held => ?_, fun t row found => ?_, fun row found => ?_⟩
      · cases (none t).symm.trans found
      · simp [ingest, Db.empty, Db.readBlock] at held
      · cases (none t).symm.trans found
      · cases (none s).symm.trans found
  | append_singleton before e ih =>
      have earlier : ∀ {b t}, NamedIn before b t → NamedIn (before ++ [e]) b t := by
        rintro b t ⟨e', member, names⟩
        exact ⟨e', List.mem_append_left _ member, names⟩
      have up := ih fun b t left right => own b t (earlier left) (earlier right)
      rw [ingest, run_append, run_cons, run_nil]
      exact up.step own

/-- **Statuses follow the verdict.** In every state of a run that names the blocks of slot `s` for `s`
alone: once `s` is FINAL, and has its exec output or had no patch of the archive, its final block is
`final` and its other candidates are `discarded`, as far as they are stored. -/
theorem statuses_coherent {events : List Timed} {s : Slot}
    (own : ∀ b t, NamedIn events b s → NamedIn events b t → t = s) :
    ∀ row, (ingest events).readSlot s = some row → row.status = .final →
      (row.completeness.execOutputFinal = true ∨ ∀ e ∈ events, ¬ ArchiveTaken s e) →
      Coherent (ingest events) row :=
  (upheld_ingest own).coherent

/-! ## The archive's patch, first of all -/

section First

variable {resp : FinalSlotResponse} {s : Slot} (nowMs : Int)

theorem archive_settles (about : slotOf resp = some s) (known : resp.finalKnown = true)
    (isMiss : resp.isMiss = false) {b : BlockId} (block : parseFinalBlockId resp = some b) :
    ∃ row, (ingest [⟨.legacyPatch resp, nowMs⟩]).readSlot s = some row ∧ row.status = .final ∧
      row.finalBlockId = some b := by
  have here : (legacyRow resp (legacyPromoted resp (rowAt Db.empty s nowMs))).slot = s :=
    (slot_legacyRow resp _).trans (slot_rowAt _ _ _)
  have moved : rowMove Db.empty ⟨.legacyPatch resp, nowMs⟩ =
      some ⟨{ legacyRow resp (legacyPromoted resp (rowAt Db.empty s nowMs)) with
        lastUpdatedTsMs := nowMs }, true⟩ := by simp [rowMove, about, known]
  have row := readSlot_step Db.empty ⟨.legacyPatch resp, nowMs⟩ s
  rw [moved] at row
  dsimp only at row
  rw [if_pos here] at row
  refine ⟨_, row, ?_, ?_⟩
  · change (legacyRow resp (legacyPromoted resp (rowAt Db.empty s nowMs))).status = _
    rw [legacyRow_eq]
    exact status_legacyPromoted resp _
  · change (legacyRow resp (legacyPromoted resp (rowAt Db.empty s nowMs))).finalBlockId = _
    have fresh : (rowAt Db.empty s nowMs).status ≠ .final := by
      simp [rowAt, Db.empty, Db.readSlot, SlotState.fresh]
    rw [legacyRow_eq]
    dsimp only
    rw [legacyPromoted, if_pos fresh, promote_eq, isMiss, block]
    rfl

theorem peer_settles (about : slotOf resp = some s) (known : resp.finalKnown = true) :
    ∃ row, (ingest [⟨.peerPatch resp, nowMs⟩]).readSlot s = some row ∧ row.status = .final := by
  have fresh : (rowAt Db.empty s nowMs).status ≠ .final := by
    simp [rowAt, Db.empty, Db.readSlot, SlotState.fresh]
  have taken := reconcileVerdict.eq_def Db.empty s (rowAt Db.empty s nowMs) resp
  rw [if_pos fresh] at taken
  obtain ⟨state, final, here, moved⟩ : ∃ state : SlotState, state.status = .final ∧ state.slot = s ∧
      rowMove Db.empty ⟨.peerPatch resp, nowMs⟩ =
        some ⟨{ peerRow resp state with lastUpdatedTsMs := nowMs }, true⟩ := by
    refine ⟨promote { rowAt Db.empty s nowMs with
        executionTrailHash := (peerTrail resp).or (rowAt Db.empty s nowMs).executionTrailHash }
      resp.isMiss (parseFinalBlockId resp), status_promote _ _ _,
      (slot_promote _ _ _).trans (slot_rowAt Db.empty s nowMs), ?_⟩
    simp only [rowMove, about, known, if_true, Option.map_some, taken]
    rfl
  have own : (peerRow resp state).slot = s := (slot_peerRow resp state).trans here
  have row := readSlot_step Db.empty ⟨.peerPatch resp, nowMs⟩ s
  rw [moved] at row
  dsimp only at row
  rw [if_pos own] at row
  refine ⟨_, row, ?_⟩
  change (peerRow resp state).status = .final
  rw [peerRow_eq]
  exact final

theorem archive_stores (about : slotOf resp = some s) (known : resp.finalKnown = true)
    (isMiss : resp.isMiss = false) {block : StoredBlock} (shipped : shippedBlock resp = some block) :
    (ingest [⟨.legacyPatch resp, nowMs⟩]).readBlock block.id = some block := by
  have fresh : (legacyPromoted resp (rowAt Db.empty s nowMs)).completeness = {} := by
    have empty : (rowAt Db.empty s nowMs).completeness = {} := by
      simp [rowAt, Db.empty, Db.readSlot, SlotState.fresh]
    unfold legacyPromoted
    split
    · rw [promote_eq]
      exact empty
    · exact empty
  have body : legacyBody resp (legacyPromoted resp (rowAt Db.empty s nowMs)) = some block := by
    rw [legacyBody, fresh]
    exact (if_neg (by decide)).trans ((if_neg (by simp [isMiss])).trans shipped)
  have move : blockMove Db.empty ⟨.legacyPatch resp, nowMs⟩ = { store := some block } := by
    simp only [blockMove, known, about, if_true, Option.elim_some, legacyBlockMove, body]
    rw [legacyRow_eq]
    simp [fresh]
  have none : Db.empty.readBlock block.id = none := by simp [Db.empty, Db.readBlock]
  rw [ingest, run_cons, run_nil, readBlock_step, move, none]
  simp [BlockMove.rowOf]

end First

end Writers

/-! ## A body of the archive -/

section Archive

attribute [local instance] Bs58Check.doubleSha noDenunciations

/-- Slot (10, 0), its block and the body of it. -/
def shippedAnswer : FinalSlotResponse :=
  answerOf ⟨10, 0⟩ (.block (blockNo 1)) (some (bareBlock (blockNo 1) ⟨10, 0⟩ []))

theorem names_shippedAnswer {b : BlockId} {t : Slot} (names : RespNames shippedAnswer b t) :
    t = ⟨10, 0⟩ := by
  have about : slotOf shippedAnswer = some ⟨10, 0⟩ := slotOf_answerOf _ _ _
  exact (Option.some.inj (about.symm.trans names.1)).symm

/-- A peer's answer settles its statuses. -/
theorem statuses_coherent_peer : ∃ row,
    (ingest [⟨.peerPatch shippedAnswer, 0⟩]).readSlot ⟨10, 0⟩ = some row ∧ row.status = .final ∧
      Coherent (ingest [⟨.peerPatch shippedAnswer, 0⟩]) row := by
  have about : slotOf shippedAnswer = some ⟨10, 0⟩ := slotOf_answerOf _ _ _
  obtain ⟨row, found, final⟩ := peer_settles 0 about rfl
  refine ⟨row, found, final, statuses_coherent (s := ⟨10, 0⟩) ?_ row found final (.inr ?_)⟩
  · rintro b t - ⟨e, member, names⟩
    obtain rfl := List.mem_singleton.mp member
    exact names_shippedAnswer names
  · rintro e member ⟨resp, same, -⟩
    obtain rfl := List.mem_singleton.mp member
    cases same

/-- **The archive leaves the final block a mere candidate.** -/
theorem archive_defers_statuses : ¬ ∀ (events : List Timed) (s : Slot) (row : SlotState),
    (ingest events).readSlot s = some row → row.status = .final → Coherent (ingest events) row := by
  intro coherent
  have about : slotOf shippedAnswer = some ⟨10, 0⟩ := slotOf_answerOf _ _ _
  have shipped : shippedBlock shippedAnswer = some (bareBlock (blockNo 1) ⟨10, 0⟩ []) :=
    shippedBlock_answerOf _ _ _
  have block : parseFinalBlockId shippedAnswer = some (blockNo 1) := parseFinalBlockId_answerOf _ _ _
  obtain ⟨row, found, final, named⟩ := archive_settles 0 about rfl rfl block
  have held := archive_stores 0 about rfl rfl shipped
  have status := (coherent [⟨.legacyPatch shippedAnswer, 0⟩] ⟨10, 0⟩ row found final).final
    (blockNo 1) _ named held
  exact absurd status (by decide)

end Archive

end MassaIndexer.Laws.StatusCoherence
