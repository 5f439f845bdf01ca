/-
# Laws.BlockRedelivery -- a block message taken twice

A message that was refused half way is refused again at the same place, and finds every row before it
settled; nothing is written (`written_again`). A message that was taken finds all its endorsements,
denunciations and operations settled too, and writes the block and its slot as they stand, but for the
clock (`timeless_seenBlock_again`, `bodySeen_again`).
-/
import MassaIndexer.Laws.BlockAtomicity
import MassaIndexer.Laws.LegacyDecoders
import MassaIndexer.Store.Timeless
import MassaIndexer.Writer.OperationSites
import MassaIndexer.Writer.RowMoves
import MassaIndexer.Writer.SecondDelivery

namespace MassaIndexer.Laws.BlockRedelivery

open MassaIndexer.Theory.Attempts MassaIndexer.Theory.Footprint
open MassaIndexer.Data.Ids MassaIndexer.Data.Model MassaIndexer.Data.Codec
open MassaIndexer.Store.ColumnFamilies MassaIndexer.Store.Footprint MassaIndexer.Store.Timeless
open MassaIndexer.Writer.NodeProto MassaIndexer.Writer.NodeDecode MassaIndexer.Writer.Shared
open MassaIndexer.Writer.Handlers MassaIndexer.Writer.Families MassaIndexer.Writer.BodyMoves
open MassaIndexer.Writer.OperationSites MassaIndexer.Writer.RowMoves
open MassaIndexer.Writer.SecondDelivery
open MassaIndexer.Laws.BlockAtomicity MassaIndexer.Laws.LegacyDecoders

set_option autoImplicit false

variable [Bs58Check]

/-! ## The same items at another time -/

def restamp (nowMs : Int) (e : SeenEndorsement) : SeenEndorsement := { e with firstSeenTsMs := nowMs }

def restampItem (nowMs : Int) : Item → Item
  | .endorsement e => .endorsement (restamp nowMs e)
  | item => item

theorem items_restamp (head : BlockHead) (ops : List FilledOperation) (firstMs againMs : Int) :
    (items head ops firstMs).map (restampItem againMs) = items head ops againMs := by
  unfold items
  rw [← endorsements_restamp head firstMs againMs]
  simp only [List.map_append, List.map_map]
  rfl

/-- Resolving the ids of an endorsement has nothing to do with its time. -/
theorem resolveEndorsement_restamp (e : SeenEndorsement) (nowMs : Int) :
    resolveEndorsement (restamp nowMs e) =
      (resolveEndorsement e).map fun row => { row with firstSeenTsMs := nowMs } := by
  unfold resolveEndorsement restamp
  simp only [bind, Except.bind, pure, Except.pure]
  cases EndorsementId.parse e.id with
  | error err => rfl
  | ok id =>
      cases BlockId.parse e.endorsedBlockId with
      | error err => rfl
      | ok endorsed => cases BlockId.parse e.includedBlockId <;> rfl

theorem mapM_resolve_restamp (l : List SeenEndorsement) (nowMs : Int) :
    (l.map (restamp nowMs)).mapM resolveEndorsement =
      (l.mapM resolveEndorsement).map (List.map fun row => { row with firstSeenTsMs := nowMs }) := by
  induction l with
  | nil => rfl
  | cons e rest ih =>
      rw [List.map_cons, List.mapM_cons, List.mapM_cons, ih, resolveEndorsement_restamp]
      cases resolveEndorsement e with
      | error err => rfl
      | ok row => cases rest.mapM resolveEndorsement <;> rfl

/-- What an endorsement is refused for is in its ids. -/
theorem writeSeenEndorsement_refused {db : Db} {e : SeenEndorsement} {err : String}
    (refused : db.writeSeenEndorsement e = .error err) (nowMs : Int) :
    db.writeSeenEndorsement (restamp nowMs e) = .error err := by
  unfold Db.writeSeenEndorsement at refused ⊢
  rw [resolveEndorsement_restamp]
  simp only [bind, Except.bind] at refused ⊢
  rw [show (restamp nowMs e).id = e.id from rfl]
  cases parsed : EndorsementId.parse e.id with
  | error e' =>
      rw [parsed] at refused
      exact refused
  | ok id =>
      rw [parsed] at refused
      dsimp only at refused ⊢
      split
      · next known =>
          rw [if_pos known] at refused
          cases refused
      · next unknown =>
          rw [if_neg unknown] at refused
          cases resolved : resolveEndorsement e with
          | error e' =>
              rw [resolved] at refused
              exact refused
          | ok row =>
              rw [resolved] at refused
              cases refused

theorem freshOperation_refused {signedOp : SignedOperation} {id : OperationId} {thread : UInt8}
    {nowMs : Int} {err : String} (refused : freshOperation signedOp id thread nowMs = .error err)
    (againMs : Int) : freshOperation signedOp id thread againMs = .error err := by
  unfold freshOperation at refused ⊢
  cases content : signedOp.content with
  | none =>
      rw [content] at refused
      exact refused
  | some content_ =>
      rw [content] at refused
      dsimp only at refused ⊢
      cases creator : Address.parse signedOp.contentCreatorAddress with
      | error e =>
          rw [creator] at refused
          exact refused
      | ok a =>
          rw [creator] at refused
          cases refused

variable [DenunciationDigest] {head : BlockHead}

/-- A settled item is left alone whenever it comes. -/
theorem idle_restamp {againMs : Int} {a : Item} {db : Db} (settled : Settled head a db) :
    attempt head againMs (restampItem againMs a) db = .ok db := by
  refine idle_of_settled ?_
  cases a with
  | endorsement e => exact settled
  | denunciation d => exact settled
  | operation filled => exact settled

/-- And one that is refused is refused whenever it comes. -/
theorem refused_restamp {firstMs againMs : Int} {a : Item} {db : Db} {err : String}
    (refused : attempt head firstMs a db = .error err) :
    ∃ err', attempt head againMs (restampItem againMs a) db = .error err' := by
  cases a with
  | endorsement e => exact ⟨err, writeSeenEndorsement_refused refused againMs⟩
  | denunciation d => cases refused
  | operation filled =>
      rw [attempt] at refused
      show ∃ err', (ingestOperation db head againMs filled).result.map _ = _
      rcases ingestOperation_cases db head firstMs filled with
        ⟨-, here⟩ | ⟨_, _, -, -, here⟩ | ⟨id, signedOp, e, filed, absent, carried, stopped, here⟩ |
          ⟨_, _, _, -, -, -, -, here⟩
      · rw [here] at refused
        cases refused
      · rw [here] at refused
        cases refused
      · have stops := freshOperation_refused stopped againMs
        rw [opIdOf, carried, Option.bind_some] at filed
        refine ⟨e, ?_⟩
        rw [ingestOperation, carried]
        dsimp only
        rw [filed]
        dsimp only
        rw [absent]
        dsimp only
        rw [stops]
        rfl
      · rw [here] at refused
        cases refused

/-- **The writes of a message stop again where they stopped, and change nothing.** -/
theorem written_again (ops : List FilledOperation) (firstMs againMs : Int) (db : Db) :
    (written head againMs (written head firstMs db ops).1 ops).1 = (written head firstMs db ops).1 ∧
      ((written head againMs (written head firstMs db ops).1 ops).2 = none ↔
        (written head firstMs db ops).2 = none) := by
  have rest : ∀ db, written head againMs db ops = attemptAll
      (fun a => attempt head againMs (restampItem againMs a)) (items head ops firstMs) db := by
    intro db
    rw [written, ← items_restamp head ops firstMs againMs, attemptAll_map]
  rw [rest]
  exact (settles head firstMs).attemptAll_again idle_restamp refused_restamp _ db

/-- A message that was taken writes nothing of its items again, whatever was written elsewhere since. -/
theorem written_taken {ops : List FilledOperation} {firstMs againMs : Int} {db db' : Db}
    (clean : (written head firstMs db ops).2 = none)
    (kept : ∀ a : Item, contents db' a.family = contents (written head firstMs db ops).1 a.family) :
    written head againMs db' ops = (db', none) := by
  have settled := (settles head firstMs).settled_of_clean (items head ops firstMs) clean
  rw [written, ← items_restamp head ops firstMs againMs, attemptAll_map]
  exact attemptAll_idle fun a member => idle_restamp ((settled a member).of_contents (kept a))

/-! ## A message that is taken -/

/-- The writes of a message that is taken, then the block and its slot. -/
theorem handleBlock_stored {fb : FilledBlock} {nowMs : Int} (decoded : decodeHead fb = .ok head) {db : Db}
    (clean : (written head nowMs db fb.operations).2 = none) {es : List StoredEndorsement}
    (resolved : (head.endorsements nowMs).mapM resolveEndorsement = .ok es) :
    (handleBlock db fb nowMs).db = Stage.runAll
      (storedBlockStages (rowAt (written head nowMs db fb.operations).1 head.slot nowMs) head es
        (fb.operations.filterMap opIdOf) nowMs) (written head nowMs db fb.operations).1 := by
  unfold written items at clean ⊢
  rw [handleBlock, decoded]
  dsimp only
  obtain ⟨first, ended⟩ := persistEndorsements_eq head nowMs (head.endorsements nowMs) db
  cases stopped : (attemptAll (attempt head nowMs) ((head.endorsements nowMs).map .endorsement) db).2 with
  | some e =>
      rw [attemptAll_append_of_refused _ stopped, stopped] at clean
      exact absurd clean (by simp)
  | none =>
      rw [attemptAll_append_of_clean _ stopped] at clean ⊢
      have ok := ended.mpr stopped
      generalize persistEndorsements db (head.endorsements nowMs) = persisted at first ok ⊢
      obtain ⟨db₁, result₁⟩ := persisted
      obtain rfl : db₁ = _ := first
      obtain rfl : result₁ = .ok () := ok
      have second := denunciations_eq head nowMs head.denunciations
        (attemptAll (attempt head nowMs) ((head.endorsements nowMs).map .endorsement) db).1
      rw [attemptAll_append_of_clean _ (by rw [second]), second] at clean ⊢
      dsimp only at clean ⊢
      generalize head.denunciations.foldl
        (fun db d => db.writeDenunciation (denunciationEntry head.id nowMs d))
        (attemptAll (attempt head nowMs) ((head.endorsements nowMs).map .endorsement) db).1 = db₂
        at clean ⊢
      obtain ⟨third, ended⟩ := ingestOperations_eq head nowMs fb.operations db₂
      obtain ⟨ids, ok⟩ := ended.mpr clean
      obtain rfl := returned_eq ok
      rw [← third]
      generalize ingestOperations db₂ head nowMs fb.operations = ingested at ok ⊢
      obtain ⟨db₃, result₃⟩ := ingested
      obtain rfl : result₃ = _ := ok
      rw [resolved]
      rfl

/-! ## The block and its slot -/

section Rows

omit [DenunciationDigest]

omit [Bs58Check] in
theorem bodySeen_again (row : SlotState) (id : BlockId) (firstMs againMs : Int) :
    timelessSlot (readBackSlotState (bodySeen (readBackSlotState (bodySeen row id firstMs)) id againMs)) =
      timelessSlot (readBackSlotState (bodySeen row id firstMs)) := by
  have known : id ∈ (readBackSlotState (bodySeen row id firstMs)).candidateBlockIds := by
    rw [bodySeen_eq]
    exact (SlotState.mem_addCandidate row id).mpr (.inl rfl)
  rw [bodySeen_eq (readBackSlotState _), candidates_addCandidate_of_mem known, bodySeen_eq]
  simp only [readBackSlotState, timelessSlot, readBackTrail_idem]
  congr 1
  cases row.status <;> rfl

omit [Bs58Check] in
/-- The verdict a block is filed under is not changed by its body. -/
theorem initialBlockStatus_again (row : SlotState) (id : BlockId) (firstMs : Int) :
    initialBlockStatus (readBackSlotState (bodySeen row id firstMs)) id = initialBlockStatus row id := by
  rw [bodySeen_eq]
  unfold initialBlockStatus
  simp only [readBackSlotState]
  cases row.status <;> rfl

theorem seenBlock_held {db : Db} {old : StoredBlock} (found : db.readBlock head.id = some old)
    (es : List StoredEndorsement) (ids : List OperationId) (initial : BlockStatus) (nowMs : Int) :
    seenBlock db head es ids initial nowMs = { old with
      operationIds := if old.operationIds.isEmpty then ids else old.operationIds
      endorsements := es
      endorsementIds := (head.endorsements nowMs).map (·.id)
      denunciations := head.denunciations
      status := if old.status = .seenCandidate then initial else old.status } := by
  rw [seenBlock, found]

theorem endorsementIds_again (firstMs againMs : Int) :
    (head.endorsements againMs).map (·.id) = (head.endorsements firstMs).map (·.id) := by
  rw [← endorsements_restamp head firstMs againMs, List.map_map]
  rfl

theorem id_seenBlock (db : Db) (es : List StoredEndorsement) (ids : List OperationId)
    (initial : BlockStatus) (nowMs : Int) : (seenBlock db head es ids initial nowMs).id = head.id := by
  unfold seenBlock
  cases found : db.readBlock head.id with
  | none => rfl
  | some old =>
      have own : old.id = head.id := Db.id_of_readBlock found
      exact own

/-- **A block that comes again is filed as it stands.** -/
theorem seenBlock_again {db db' : Db} {es es' : List StoredEndorsement} {ids : List OperationId}
    {initial : BlockStatus} {firstMs againMs : Int}
    (held : db'.readBlock head.id = some (seenBlock db head es ids initial firstMs))
    (same : es'.map timelessEndorsement = es.map timelessEndorsement) :
    timelessBlock (seenBlock db' head es' ids initial againMs) =
      timelessBlock (seenBlock db head es ids initial firstMs) := by
  have listed : ∀ known : List OperationId, (if (if known.isEmpty then ids else known).isEmpty then ids
      else if known.isEmpty then ids else known) = if known.isEmpty then ids else known := by
    intro known
    cases known with
    | nil => cases ids <;> rfl
    | cons id rest => rfl
  have settled : ∀ status : BlockStatus,
      (if (if status = .seenCandidate then initial else status) = .seenCandidate then initial
        else if status = .seenCandidate then initial else status) =
          if status = .seenCandidate then initial else status := by
    intro status
    by_cases open_ : status = .seenCandidate
    · rw [if_pos open_, ite_self]
    · rw [if_neg open_, if_neg open_]
  rw [seenBlock_held held, endorsementIds_again firstMs againMs]
  cases found : db.readBlock head.id with
  | none =>
      rw [seenBlock, found]
      simp only [timelessBlock, same, ite_self]
  | some old =>
      have first := seenBlock_held found es ids initial firstMs
      rw [first]
      simp only [timelessBlock, same, listed, settled]

end Rows

end MassaIndexer.Laws.BlockRedelivery
