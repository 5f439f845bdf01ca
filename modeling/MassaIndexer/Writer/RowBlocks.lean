/-
# Writer.RowBlocks -- the blocks a slot row names

A row names its final block and its candidates. Candidates are never dropped, and every block a row
comes to name is one the event names for that slot (`named_step`). A body enters the store only
together with its place among the candidates (`held_step`).
-/
import MassaIndexer.Writer.BlockMoves

namespace MassaIndexer.Writer.RowBlocks

open MassaIndexer.Data.Ids MassaIndexer.Data.Model MassaIndexer.Data.Proto MassaIndexer.Data.Codec
open MassaIndexer.Store.ColumnFamilies MassaIndexer.Store.Footprint
open MassaIndexer.Writer.NodeProto MassaIndexer.Writer.NodeDecode
open MassaIndexer.Writer.Shared MassaIndexer.Writer.Handlers MassaIndexer.Writer.Step
open MassaIndexer.Writer.Families MassaIndexer.Writer.Patches
open MassaIndexer.Writer.RowMoves MassaIndexer.Writer.BlockMoves
open MassaIndexer.Peer.Patch MassaIndexer.Peer.Arbiter

set_option autoImplicit false

/-! ## The blocks of a slot row -/

/-- The blocks a row names. -/
def blocksOf (row : SlotState) : List BlockId := row.finalBlockId.toList ++ row.candidateBlockIds

theorem mem_blocksOf {row : SlotState} {b : BlockId} :
    b ∈ blocksOf row ↔ row.finalBlockId = some b ∨ b ∈ row.candidateBlockIds := by
  simp [blocksOf]

variable [Bs58Check]

theorem mem_candidates_peerRow {resp : FinalSlotResponse} {row : SlotState} {b : BlockId} :
    b ∈ (peerRow resp row).candidateBlockIds ↔
      b ∈ ((deliveredBlock resp).map (·.id)).toList ∨ b ∈ row.candidateBlockIds := by
  rw [peerRow_eq]
  cases deliveredBlock resp with
  | none => simp
  | some block => simp [SlotState.mem_addCandidate, eq_comm]

theorem mem_candidates_legacyRow {resp : FinalSlotResponse} {row : SlotState} {b : BlockId} :
    b ∈ (legacyRow resp row).candidateBlockIds ↔
      b ∈ ((legacyBody resp row).map (·.id)).toList ∨ b ∈ row.candidateBlockIds := by
  rw [legacyRow_eq]
  cases legacyBody resp row with
  | none => simp
  | some block => simp [SlotState.mem_addCandidate, eq_comm]

theorem mem_blocksOf_peerRow {resp : FinalSlotResponse} {row : SlotState} {b : BlockId} :
    b ∈ blocksOf (peerRow resp row) ↔
      b ∈ ((deliveredBlock resp).map (·.id)).toList ∨ b ∈ blocksOf row := by
  have final : (peerRow resp row).finalBlockId = row.finalBlockId := by rw [peerRow_eq]
  rw [mem_blocksOf, mem_blocksOf, final, mem_candidates_peerRow]
  exact or_left_comm

theorem mem_blocksOf_legacyRow {resp : FinalSlotResponse} {row : SlotState} {b : BlockId} :
    b ∈ blocksOf (legacyRow resp row) ↔
      b ∈ ((legacyBody resp row).map (·.id)).toList ∨ b ∈ blocksOf row := by
  have final : (legacyRow resp row).finalBlockId = row.finalBlockId := by rw [legacyRow_eq]
  rw [mem_blocksOf, mem_blocksOf, final, mem_candidates_legacyRow]
  exact or_left_comm

/-- The block a verdict names. -/
def verdictBlock (resp : FinalSlotResponse) : List BlockId :=
  if resp.isMiss then [] else (parseFinalBlockId resp).toList

theorem mem_blocksOf_promote {resp : FinalSlotResponse} {row : SlotState} {b : BlockId} :
    b ∈ blocksOf (promote row resp.isMiss (parseFinalBlockId resp)) ∧ b ∉ blocksOf row ↔
      b ∈ verdictBlock resp ∧ b ∉ blocksOf row := by
  unfold promote verdictBlock
  cases resp.isMiss with
  | true =>
      simp only [if_true, mem_blocksOf, List.not_mem_nil, false_and, iff_false]
      grind
  | false =>
      cases parseFinalBlockId resp with
      | none =>
          simp only [Bool.false_eq_true, if_false, mem_blocksOf, Option.toList_none,
            List.not_mem_nil, false_and, iff_false]
          grind
      | some c =>
          simp only [Bool.false_eq_true, if_false, mem_blocksOf, SlotState.mem_addCandidate,
            SlotState.finalBlockId_addCandidate, Option.mem_toList, Option.some.injEq]
          grind

theorem mem_blocksOf_adopted {resp : FinalSlotResponse} {row : SlotState} {trail : Option String}
    {b : BlockId} :
    b ∈ blocksOf (adoptedRow row resp (parseFinalBlockId resp) trail) ∧ b ∉ blocksOf row ↔
      b ∈ verdictBlock resp ∧ b ∉ blocksOf row := by
  unfold adoptedRow verdictBlock
  cases resp.isMiss with
  | true =>
      simp only [if_true, mem_blocksOf, List.not_mem_nil, false_and, iff_false]
      grind
  | false =>
      cases parseFinalBlockId resp with
      | none =>
          simp only [Bool.false_eq_true, if_false, Option.elim_none, mem_blocksOf,
            Option.toList_none, List.not_mem_nil, false_and, iff_false]
          grind
      | some c =>
          simp only [Bool.false_eq_true, if_false, Option.elim_some, mem_blocksOf, SlotState.mem_addCandidate,
            SlotState.finalBlockId_addCandidate, Option.mem_toList, Option.some.injEq]
          grind

/-! ## What a patch brings to its row -/

/-- The blocks an answer brings to the row: that of the verdict it settles or replaces, and the one it
ships. -/
def peerIncoming (resp : FinalSlotResponse) : Reconciled → List BlockId
  | .turnedAway _ => []
  | .proceed p =>
      (if p.out.becameFinal || p.out.divergenceRepaired then verdictBlock resp else []) ++
        ((deliveredBlock resp).map (·.id)).toList

def legacyIncoming (resp : FinalSlotResponse) (row : SlotState) : List BlockId :=
  (if row.status ≠ .final then verdictBlock resp else []) ++
    ((legacyBody resp row).map (·.id)).toList

theorem mem_blocksOf_peer {db : Db} {s : Slot} {row : SlotState} {resp : FinalSlotResponse}
    {p : Patching} (proceeds : Proceeds db s row resp p) (b : BlockId) :
    b ∈ blocksOf (peerRow resp p.state) ∧ b ∉ blocksOf row ↔
      b ∈ peerIncoming resp (.proceed p) ∧ b ∉ blocksOf row := by
  rw [mem_blocksOf_peerRow, peerIncoming, List.mem_append]
  cases proceeds with
  | promoted open_ =>
      have promoted := @mem_blocksOf_promote _ resp { row with
        executionTrailHash := (peerTrail resp).or row.executionTrailHash } b
      have same : blocksOf { row with executionTrailHash := (peerTrail resp).or row.executionTrailHash } =
          blocksOf row := rfl
      rw [same] at promoted
      simp only [Bool.true_or, if_true]
      tauto
  | agreed settled agree trails =>
      have same : blocksOf { row with executionTrailHash := row.executionTrailHash.or (peerTrail resp) } =
          blocksOf row := rfl
      simp only [same, Bool.or_false, Bool.false_eq_true, if_false, List.not_mem_nil, false_or]
      tauto
  | adopted settled l q held offered differ adopts =>
      have adopted := @mem_blocksOf_adopted _ resp row (peerTrail resp) b
      simp only [Bool.or_true, if_true, adoptPeerVerdict_row]
      tauto

theorem mem_blocksOf_legacy (resp : FinalSlotResponse) (row : SlotState) (b : BlockId) :
    b ∈ blocksOf (legacyRow resp (legacyPromoted resp row)) ∧ b ∉ blocksOf row ↔
      b ∈ legacyIncoming resp row ∧ b ∉ blocksOf row := by
  have body : legacyBody resp (legacyPromoted resp row) = legacyBody resp row := by
    have flags : (legacyPromoted resp row).completeness = row.completeness := by
      unfold legacyPromoted promote
      split
      · split
        · rfl
        · split
          · rfl
          · exact SlotState.completeness_addCandidate _ _
      · rfl
    unfold legacyBody
    rw [flags]
  have promoted := @mem_blocksOf_promote _ resp row b
  rw [mem_blocksOf_legacyRow, body, legacyIncoming, List.mem_append]
  unfold legacyPromoted
  split
  · tauto
  · simp only [List.not_mem_nil, false_or]
    tauto

/-! ## The blocks an event names -/

/-- A response names a block for the slot it is about: as its verdict's, or by shipping it. -/
def RespNames (resp : FinalSlotResponse) (b : BlockId) (s : Slot) : Prop :=
  slotOf resp = some s ∧
    (parseFinalBlockId resp = some b ∨ ∃ block, shippedBlock resp = some block ∧ block.id = b)

/-- The event names the block for the slot. -/
def Names (e : Timed) (b : BlockId) (s : Slot) : Prop :=
  match e.event with
  | .block fb => ∃ head, decodeHead fb = .ok head ∧ head.id = b ∧ head.slot = s
  | .exec out => ∃ exec, readFrame out = some (s, .final, exec) ∧ frameBlock exec = some b
  | .peerPatch resp => RespNames resp b s
  | .legacyPatch resp => RespNames resp b s
  | .forcedVerdict resp => RespNames resp b s
  | _ => False

theorem decodeHead_of_takenBlock {db : Db} {fb : FilledBlock} {nowMs : Int} {b : TakenBlock}
    (taken : takenBlock db fb nowMs = some b) : decodeHead fb = .ok b.head := by
  unfold takenBlock at taken
  cases decoded : decodeHead fb with
  | error err => simp [decoded] at taken
  | ok head =>
      rw [decoded] at taken
      dsimp only at taken
      split at taken
      · obtain rfl := Option.some.inj taken
        rfl
      · cases taken

theorem mem_verdictBlock {resp : FinalSlotResponse} {b : BlockId} (named : b ∈ verdictBlock resp) :
    parseFinalBlockId resp = some b := by
  unfold verdictBlock at named
  split at named
  · exact absurd named List.not_mem_nil
  · exact Option.mem_toList.mp named

theorem shipped_of_mem_delivered {resp : FinalSlotResponse} {b : BlockId}
    (shipped : b ∈ ((deliveredBlock resp).map (·.id)).toList) :
    ∃ block, shippedBlock resp = some block ∧ block.id = b := by
  obtain ⟨block, delivered, rfl⟩ := Option.map_eq_some_iff.mp (Option.mem_toList.mp shipped)
  unfold deliveredBlock at delivered
  split at delivered
  · cases delivered
  · exact ⟨block, delivered, rfl⟩

theorem delivered_of_mem_legacyBody {resp : FinalSlotResponse} {row : SlotState} {b : BlockId}
    (shipped : b ∈ ((legacyBody resp row).map (·.id)).toList) :
    b ∈ ((deliveredBlock resp).map (·.id)).toList := by
  unfold legacyBody at shipped
  split at shipped
  · exact absurd shipped List.not_mem_nil
  · exact shipped

/-- **A row comes to name only blocks the event names for its slot.** -/
theorem named_move {db : Db} {e : Timed} {m : RowMove} (moved : rowMove db e = some m) {b : BlockId}
    (named : b ∈ blocksOf m.row) :
    b ∈ blocksOf (rowAt db m.row.slot e.nowMs) ∨ Names e b m.row.slot := by
  have move := rowStep_of_rowMove moved
  generalize blockMove db e = bm at move
  cases move with
  | @block fb nowMs taken found =>
      have here : (bodySeen (rowAt db taken.head.slot nowMs) taken.head.id nowMs).slot =
          taken.head.slot := (slot_bodySeen _ _ _).trans (slot_rowAt _ _ _)
      rw [here]
      rcases mem_blocksOf.mp named with final | candidate
      · exact .inl (mem_blocksOf.mpr (.inl ((SlotState.finalBlockId_addCandidate _ _).symm.trans final)))
      · rcases (SlotState.mem_addCandidate _ _).mp candidate with rfl | known
        · exact .inr ⟨taken.head, decodeHead_of_takenBlock found, rfl, rfl⟩
        · exact .inl (mem_blocksOf.mpr (.inr known))
  | @candidate out nowMs s exec read open_ =>
      have here : (frameRow (rowAt db s nowMs) .candidate exec nowMs).slot = s :=
        (slot_frameRow _ _ _ _).trans (slot_rowAt _ _ _)
      rw [here]
      exact .inl named
  | @final out nowMs s exec read open_ =>
      have here : (frameRow (rowAt db s nowMs) .final exec nowMs).slot = s :=
        (slot_frameRow _ _ _ _).trans (slot_rowAt _ _ _)
      rw [here]
      rcases mem_blocksOf.mp named with final | candidate
      · rcases Option.or_eq_some_iff.mp final with framed | ⟨-, held⟩
        · exact .inr ⟨exec, read, framed⟩
        · exact .inl (mem_blocksOf.mpr (.inl held))
      · exact .inl (mem_blocksOf.mpr (.inr candidate))
  | @completed out nowMs s exec read settled completes =>
      have here : (completedRow (rowAt db s nowMs) exec nowMs).slot = s := slot_rowAt _ _ _
      rw [here]
      exact .inl named
  | @transfers resp nowMs pb m about framed =>
      unfold transfersMove at framed
      split at framed
      · cases framed
      · obtain rfl := Option.some.inj framed
        rw [slot_rowAt]
        exact .inl named
  | @touched resp nowMs s out about known taken =>
      rw [slot_rowAt]
      exact .inl named
  | @peer resp nowMs s p about known proceeds =>
      have here : (peerRow resp p.state).slot = s :=
        (slot_peerRow resp p.state).trans ((slot_proceeds proceeds).trans (slot_rowAt _ _ _))
      rw [here]
      by_cases old : b ∈ blocksOf (rowAt db s nowMs)
      · exact .inl old
      · have came := ((mem_blocksOf_peer proceeds b).mp ⟨named, old⟩).1
        refine .inr ⟨about, ?_⟩
        rcases List.mem_append.mp came with verdict | shipped
        · split at verdict
          · exact .inl (mem_verdictBlock verdict)
          · exact absurd verdict List.not_mem_nil
        · exact .inr (shipped_of_mem_delivered shipped)
  | @legacy resp nowMs s about known =>
      have here : (legacyRow resp (legacyPromoted resp (rowAt db s nowMs))).slot = s :=
        (slot_legacyRow resp _).trans (slot_rowAt _ _ _)
      rw [here]
      by_cases old : b ∈ blocksOf (rowAt db s nowMs)
      · exact .inl old
      · have came := ((mem_blocksOf_legacy resp _ b).mp ⟨named, old⟩).1
        refine .inr ⟨about, ?_⟩
        rcases List.mem_append.mp came with verdict | shipped
        · split at verdict
          · exact .inl (mem_verdictBlock verdict)
          · exact absurd verdict List.not_mem_nil
        · exact .inr (shipped_of_mem_delivered (delivered_of_mem_legacyBody shipped))
  | @forced resp nowMs s v about target =>
      have here : (forcedRow (rowAt db s nowMs) resp).slot = s :=
        (slot_adoptedRow _ _ _ (peerTrail resp)).trans (slot_rowAt _ _ _)
      rw [here]
      by_cases old : b ∈ blocksOf (rowAt db s nowMs)
      · exact .inl old
      · have came := (@mem_blocksOf_adopted _ resp (rowAt db s nowMs) (peerTrail resp) b).mp ⟨named, old⟩
        exact .inr ⟨about, .inl (mem_verdictBlock came.1)⟩

/-! ## Candidates stay, and bodies come with theirs -/

omit [Bs58Check] in
theorem candidates_promote {row : SlotState} {isMiss : Bool} {block : Option BlockId} {b : BlockId}
    (known : b ∈ row.candidateBlockIds) : b ∈ (promote row isMiss block).candidateBlockIds := by
  rw [promote_eq]
  cases isMiss with
  | true => exact known
  | false =>
      cases block with
      | none => exact known
      | some c => exact (SlotState.mem_addCandidate _ _).mpr (.inr known)

omit [Bs58Check] in
theorem candidates_adopted {row : SlotState} {resp : FinalSlotResponse} {block : Option BlockId}
    {trail : Option String} {b : BlockId} (known : b ∈ row.candidateBlockIds) :
    b ∈ (adoptedRow row resp block trail).candidateBlockIds := by
  rw [adoptedRow_eq]
  cases resp.isMiss with
  | true => exact known
  | false =>
      cases block with
      | none => exact known
      | some c => exact (SlotState.mem_addCandidate _ _).mpr (.inr known)

theorem candidates_proceeds {db : Db} {s : Slot} {row : SlotState} {resp : FinalSlotResponse}
    {p : Patching} (proceeds : Proceeds db s row resp p) {b : BlockId}
    (known : b ∈ row.candidateBlockIds) : b ∈ p.state.candidateBlockIds := by
  cases proceeds with
  | promoted open_ => exact candidates_promote known
  | agreed settled agree trails => exact known
  | adopted settled l q held offered differ adopts =>
      rw [adoptPeerVerdict_row]
      exact candidates_adopted known

theorem candidates_legacyPromoted {resp : FinalSlotResponse} {row : SlotState} {b : BlockId}
    (known : b ∈ row.candidateBlockIds) : b ∈ (legacyPromoted resp row).candidateBlockIds := by
  unfold legacyPromoted
  split
  · exact candidates_promote known
  · exact known

/-- **No candidate is dropped.** -/
theorem candidates_move {db : Db} {e : Timed} {m : RowMove} (moved : rowMove db e = some m)
    {b : BlockId} (known : b ∈ (rowAt db m.row.slot e.nowMs).candidateBlockIds) :
    b ∈ m.row.candidateBlockIds := by
  have move := rowStep_of_rowMove moved
  generalize blockMove db e = bm at move
  cases move with
  | @block fb nowMs taken found =>
      have here : (bodySeen (rowAt db taken.head.slot nowMs) taken.head.id nowMs).slot =
          taken.head.slot := (slot_bodySeen _ _ _).trans (slot_rowAt _ _ _)
      rw [here] at known
      exact (SlotState.mem_addCandidate _ _).mpr (.inr known)
  | @candidate out nowMs s exec read open_ =>
      rw [(slot_frameRow _ _ _ _).trans (slot_rowAt db s nowMs)] at known
      exact known
  | @final out nowMs s exec read open_ =>
      rw [(slot_frameRow _ _ _ _).trans (slot_rowAt db s nowMs)] at known
      exact known
  | @completed out nowMs s exec read settled completes =>
      have here : (completedRow (rowAt db s nowMs) exec nowMs).slot = s := slot_rowAt _ _ _
      rw [here] at known
      exact known
  | @transfers resp nowMs pb m about framed =>
      unfold transfersMove at framed
      split at framed
      · cases framed
      · obtain rfl := Option.some.inj framed
        rw [slot_rowAt] at known
        exact known
  | @touched resp nowMs s out about asked taken =>
      rw [slot_rowAt] at known
      exact known
  | @peer resp nowMs s p about asked proceeds =>
      have here : (peerRow resp p.state).slot = s :=
        (slot_peerRow resp p.state).trans ((slot_proceeds proceeds).trans (slot_rowAt _ _ _))
      rw [here] at known
      exact mem_candidates_peerRow.mpr (.inr (candidates_proceeds proceeds known))
  | @legacy resp nowMs s about asked =>
      have here : (legacyRow resp (legacyPromoted resp (rowAt db s nowMs))).slot = s :=
        (slot_legacyRow resp _).trans (slot_rowAt _ _ _)
      rw [here] at known
      exact mem_candidates_legacyRow.mpr (.inr (candidates_legacyPromoted known))
  | @forced resp nowMs s v about target =>
      have here : (forcedRow (rowAt db s nowMs) resp).slot = s :=
        (slot_adoptedRow _ _ _ (peerTrail resp)).trans (slot_rowAt _ _ _)
      rw [here] at known
      exact @candidates_adopted _ resp _ (peerTrail resp) b known

theorem id_seenRow (db : Db) (b : TakenBlock) (nowMs : Int) : (seenRow db b nowMs).id = b.head.id := by
  unfold seenRow seenBlock
  split
  · next old found =>
      have own : old.id = b.head.id := Db.id_of_readBlock found
      exact own
  · rfl

/-- A body that enters does so as a candidate of the row that is written. -/
theorem candidate_of_entered {db : Db} {e : Timed} {m : RowMove} (moved : rowMove db e = some m)
    {block : StoredBlock}
    (entered : (blockMove db e).store = some block ∨ (blockMove db e).seen = some block) :
    block.id ∈ m.row.candidateBlockIds := by
  have move := rowStep_of_rowMove moved
  generalize blockMove db e = bm at move entered
  cases move with
  | @block fb nowMs taken found =>
      rcases entered with stored | seen
      · cases stored
      · obtain rfl := Option.some.inj seen
        exact (SlotState.mem_addCandidate _ _).mpr (.inl (id_seenRow db taken nowMs))
  | @candidate out nowMs s exec read open_ => simp at entered
  | @final out nowMs s exec read open_ => simp at entered
  | @completed out nowMs s exec read settled completes => simp at entered
  | @transfers resp nowMs pb m about framed => simp at entered
  | @touched resp nowMs s out about asked taken => simp at entered
  | @peer resp nowMs s p about asked proceeds =>
      rcases entered with stored | seen
      · have delivered : deliveredBlock resp = some block := stored
        have listed : block.id ∈ ((deliveredBlock resp).map (·.id)).toList := by
          rw [delivered]
          exact List.mem_singleton.mpr rfl
        exact mem_candidates_peerRow.mpr (.inl listed)
      · cases seen
  | @legacy resp nowMs s about asked =>
      rcases entered with stored | seen
      · have delivered : legacyBody resp (legacyPromoted resp (rowAt db s nowMs)) = some block := stored
        have listed : block.id ∈
            ((legacyBody resp (legacyPromoted resp (rowAt db s nowMs))).map (·.id)).toList := by
          rw [delivered]
          exact List.mem_singleton.mpr rfl
        exact mem_candidates_legacyRow.mpr (.inl listed)
      · cases seen
  | @forced resp nowMs s v about target =>
      rcases entered with stored | seen
      · cases stored
      · cases seen

variable [DenunciationDigest]

/-- **A body is there already, or enters as a candidate.** -/
theorem held_step {db : Db} {e : Timed} {b : BlockId} (held : ((step db e).readBlock b).isSome) :
    (db.readBlock b).isSome ∨ ∃ m, rowMove db e = some m ∧ b ∈ m.row.candidateBlockIds := by
  rw [readBlock_step] at held
  by_cases old : (db.readBlock b).isSome
  · exact .inl old
  · cases moved : rowMove db e with
    | none =>
        rw [blockMove_of_unmoved moved] at held
        simp [BlockMove.rowOf, Option.not_isSome_iff_eq_none.mp old] at held
    | some m =>
        refine .inr ⟨m, rfl, ?_⟩
        have entered := @candidate_of_entered _ db e m moved
        simp only [BlockMove.rowOf, Option.not_isSome_iff_eq_none.mp old, Option.map_none,
          Option.none_or, Option.isSome_map, Option.isSome_or, Bool.or_eq_true] at held
        rcases held with seen | stored
        · obtain ⟨block, found⟩ := Option.isSome_iff_exists.mp seen
          obtain ⟨seen, here⟩ := Option.filter_eq_some_iff.mp found
          rw [← of_decide_eq_true here]
          exact entered (.inr seen)
        · obtain ⟨block, found⟩ := Option.isSome_iff_exists.mp stored
          obtain ⟨stored, here⟩ := Option.filter_eq_some_iff.mp found
          rw [← of_decide_eq_true here]
          exact entered (.inl stored)

end MassaIndexer.Writer.RowBlocks
