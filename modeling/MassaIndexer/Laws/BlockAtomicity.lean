/-
# Laws.BlockAtomicity -- what a refused block leaves behind

The block handler writes endorsements, denunciations and operations one by one, each as soon as it is
checked, and the rows of the block and its slot last. A message refused on the way counts as dropped, but
what was written before stays. The store is as before exactly when nothing is refused, or when every row
ahead of the first one refused was there already, as the message would leave it
(`refused_block_leaves_nothing_iff`).
-/
import MassaIndexer.Theory.Attempts
import MassaIndexer.Laws.RepairAdditive
import MassaIndexer.Store.Indexes
import MassaIndexer.Writer.BodyMoves

namespace MassaIndexer.Laws.BlockAtomicity

open MassaIndexer.Theory.Attempts MassaIndexer.Theory.KeyedTable
open MassaIndexer.Data.Ids MassaIndexer.Data.Model MassaIndexer.Data.Codec
open MassaIndexer.Store.ColumnFamilies MassaIndexer.Store.Footprint MassaIndexer.Store.Indexes
open MassaIndexer.Writer.NodeProto MassaIndexer.Writer.NodeDecode MassaIndexer.Writer.Shared
open MassaIndexer.Writer.Handlers MassaIndexer.Writer.Effects MassaIndexer.Writer.Families
open MassaIndexer.Writer.BodyMoves
open MassaIndexer.Chain (blockNo)
open MassaIndexer.Laws.RepairAdditive (someAddress transferId callId)

set_option autoImplicit false

section Handler

variable [Bs58Check] [DenunciationDigest]

/-! ## A message as a list of writes -/

inductive Item where
  | endorsement (e : SeenEndorsement)
  | denunciation (d : StoredDenunciation)
  | operation (filled : FilledOperation)

def attempt (head : BlockHead) (nowMs : Int) : Item → Db → Except String Db
  | .endorsement e, db => db.writeSeenEndorsement e
  | .denunciation d, db => .ok (db.writeDenunciation (denunciationEntry head.id nowMs d))
  | .operation filled, db =>
      (ingestOperation db head nowMs filled).result.map fun _ => (ingestOperation db head nowMs filled).db

def items (head : BlockHead) (ops : List FilledOperation) (nowMs : Int) : List Item :=
  (head.endorsements nowMs).map .endorsement ++
    (head.denunciations.map .denunciation ++ ops.map .operation)

section Message

variable (head : BlockHead) (nowMs : Int)

theorem persistEndorsements_eq (l : List SeenEndorsement) (db : Db) :
    (persistEndorsements db l).db = (attemptAll (attempt head nowMs) (l.map .endorsement) db).1 ∧
      ((persistEndorsements db l).result = .ok () ↔
        (attemptAll (attempt head nowMs) (l.map .endorsement) db).2 = none) := by
  induction l generalizing db with
  | nil => exact ⟨rfl, iff_of_true rfl rfl⟩
  | cons e rest ih =>
      rw [List.map_cons, persistEndorsements]
      cases written : db.writeSeenEndorsement e with
      | error err =>
          rw [attemptAll_error (show attempt head nowMs (.endorsement e) db = .error err from written)]
          exact ⟨rfl, iff_of_false (by simp) (by simp)⟩
      | ok next =>
          rw [attemptAll_ok (show attempt head nowMs (.endorsement e) db = .ok next from written)]
          exact ih next

theorem denunciations_eq (l : List StoredDenunciation) (db : Db) :
    attemptAll (attempt head nowMs) (l.map .denunciation) db =
      (l.foldl (fun db d => db.writeDenunciation (denunciationEntry head.id nowMs d)) db, none) := by
  induction l generalizing db with
  | nil => rfl
  | cons d rest ih => exact ih (db.writeDenunciation (denunciationEntry head.id nowMs d))

omit [DenunciationDigest] in
/-- A refused operation writes nothing itself. -/
theorem unchanged_of_error {head : BlockHead} {nowMs : Int} {filled : FilledOperation}
    {db next : Db} {e : String}
    (refused : ingestOperation db head nowMs filled = ⟨next, .error e⟩) : next = db := by
  rcases ingestOperation_cases db head nowMs filled with
    ⟨-, skipped⟩ | ⟨_, _, -, -, kept⟩ | ⟨_, _, _, -, -, -, -, stopped⟩ | ⟨_, _, _, -, -, -, -, entered⟩
  · rw [skipped] at refused
    cases refused
  · rw [kept] at refused
    cases refused
  · rw [stopped] at refused
    cases refused
    rfl
  · rw [entered] at refused
    cases refused

theorem ingestOperations_eq (l : List FilledOperation) (db : Db) :
    (ingestOperations db head nowMs l).db = (attemptAll (attempt head nowMs) (l.map .operation) db).1 ∧
      ((∃ ids, (ingestOperations db head nowMs l).result = .ok ids) ↔
        (attemptAll (attempt head nowMs) (l.map .operation) db).2 = none) := by
  induction l generalizing db with
  | nil => exact ⟨rfl, iff_of_true ⟨[], rfl⟩ rfl⟩
  | cons filled rest ih =>
      rw [List.map_cons, ingestOperations]
      rcases taken : ingestOperation db head nowMs filled with ⟨next, result⟩
      have outcome : attempt head nowMs (.operation filled) db = result.map fun _ => next := by
        rw [attempt, taken]
      cases result with
      | error err =>
          obtain rfl := unchanged_of_error taken
          rw [attemptAll_error outcome]
          exact ⟨rfl, iff_of_false (by simp) (by simp)⟩
      | ok id =>
          rw [attemptAll_ok outcome]
          obtain ⟨left, ended⟩ := ih next
          refine ⟨left, Iff.trans ?_ ended⟩
          dsimp only
          cases (ingestOperations next head nowMs rest).result with
          | error err => simp [Except.map]
          | ok ids => simp [Except.map]

/-- The writes of a message until one is refused. -/
def written (db : Db) (ops : List FilledOperation) : Db × Option String :=
  attemptAll (attempt head nowMs) (items head ops nowMs) db

variable {head nowMs}

/-- **A message that is refused leaves what was written so far.** -/
theorem handleBlock_refused {fb : FilledBlock} (decoded : decodeHead fb = .ok head) (db : Db)
    (refused : ¬ ((written head nowMs db fb.operations).2 = none ∧
      ∃ es, (head.endorsements nowMs).mapM resolveEndorsement = .ok es)) :
    (handleBlock db fb nowMs).db = (written head nowMs db fb.operations).1 ∧
      ∃ e, (handleBlock db fb nowMs).result = .error e := by
  unfold written items at refused ⊢
  rw [handleBlock, decoded]
  dsimp only
  obtain ⟨first, clean⟩ := persistEndorsements_eq head nowMs (head.endorsements nowMs) db
  generalize persistEndorsements db (head.endorsements nowMs) = persisted at first clean ⊢
  obtain ⟨db₁, result₁⟩ := persisted
  obtain rfl : db₁ = _ := first
  cases result₁ with
  | error err =>
      cases ended : (attemptAll (attempt head nowMs)
        ((head.endorsements nowMs).map .endorsement) db).2 with
      | none => exact absurd (clean.mpr ended) (by simp)
      | some e =>
          rw [attemptAll_append_of_refused _ ended]
          exact ⟨rfl, err, rfl⟩
  | ok done =>
      have ended := clean.mp rfl
      rw [attemptAll_append_of_clean _ ended] at refused ⊢
      generalize (attemptAll (attempt head nowMs)
        ((head.endorsements nowMs).map .endorsement) db).1 = db₁ at refused ⊢
      have second := denunciations_eq head nowMs head.denunciations db₁
      rw [attemptAll_append_of_clean _ (by rw [second]), second] at refused ⊢
      dsimp only at refused ⊢
      generalize head.denunciations.foldl
        (fun db d => db.writeDenunciation (denunciationEntry head.id nowMs d)) db₁ = db₂ at refused ⊢
      obtain ⟨third, clean⟩ := ingestOperations_eq head nowMs fb.operations db₂
      generalize ingestOperations db₂ head nowMs fb.operations = ingested at third clean ⊢
      obtain ⟨db₃, result₃⟩ := ingested
      obtain rfl : db₃ = _ := third
      cases result₃ with
      | error err => exact ⟨rfl, err, rfl⟩
      | ok ids =>
          cases resolved : (head.endorsements nowMs).mapM resolveEndorsement with
          | error err => exact ⟨rfl, err, rfl⟩
          | ok es => exact absurd ⟨clean.mp ⟨ids, rfl⟩, es, resolved⟩ refused

/-- A message nothing of which is refused is taken. -/
theorem handleBlock_taken {fb : FilledBlock} (decoded : decodeHead fb = .ok head) {db : Db}
    (clean : (written head nowMs db fb.operations).2 = none)
    (resolved : ∃ es, (head.endorsements nowMs).mapM resolveEndorsement = .ok es) :
    (handleBlock db fb nowMs).result = .ok () := by
  unfold written items at clean
  rw [handleBlock, decoded]
  dsimp only
  obtain ⟨first, ended⟩ := persistEndorsements_eq head nowMs (head.endorsements nowMs) db
  cases stopped : (attemptAll (attempt head nowMs) ((head.endorsements nowMs).map .endorsement) db).2 with
  | some e =>
      rw [attemptAll_append_of_refused _ stopped, stopped] at clean
      exact absurd clean (by simp)
  | none =>
      rw [attemptAll_append_of_clean _ stopped] at clean
      have ok := ended.mpr stopped
      generalize persistEndorsements db (head.endorsements nowMs) = persisted at first ok ⊢
      obtain ⟨db₁, result₁⟩ := persisted
      obtain rfl : db₁ = _ := first
      obtain rfl : result₁ = .ok () := ok
      have second := denunciations_eq head nowMs head.denunciations
        (attemptAll (attempt head nowMs) ((head.endorsements nowMs).map .endorsement) db).1
      rw [attemptAll_append_of_clean _ (by rw [second]), second] at clean
      dsimp only at clean ⊢
      obtain ⟨third, ended⟩ := ingestOperations_eq head nowMs fb.operations (head.denunciations.foldl
        (fun db d => db.writeDenunciation (denunciationEntry head.id nowMs d))
        (attemptAll (attempt head nowMs) ((head.endorsements nowMs).map .endorsement) db).1)
      obtain ⟨ids, ok⟩ := ended.mpr clean
      generalize ingestOperations _ head nowMs fb.operations = ingested at ok ⊢
      obtain ⟨db₃, result₃⟩ := ingested
      obtain rfl : result₃ = .ok ids := ok
      obtain ⟨es, resolved⟩ := resolved
      rw [resolved]

end Message

/-! ## Settled items -/

/-- The row of an operation with its index entries. -/
structure Held (db : Db) (op : StoredOperation) : Prop where
  row : db.readOp op.id = some op
  creator : ∀ k ∈ opCreatorKeys op, k ∈ db.opByCreator
  target : ∀ k ∈ opTargetKeys op, k ∈ db.opByTarget

/-- The item is stored as the message would leave it: the endorsement by its id, the denunciation with an
including block, the operation with this thread and site and with its index entries. -/
def Settled (head : BlockHead) : Item → Db → Prop
  | .endorsement e, db =>
      ∃ id, EndorsementId.parse e.id = .ok id ∧ (db.readEndorsement id).isSome = true
  | .denunciation d, db =>
      ∃ prev, db.readDenunciation (denunciationHash d) = some prev ∧ prev.includedBlockId.isSome = true
  | .operation filled, db =>
      ∀ id, opIdOf filled = some id → ∃ op, op.id = id ∧ recordInclusion head op = op ∧ Held db op

omit [Bs58Check] [DenunciationDigest] in
theorem held_writeOp (db : Db) (op : StoredOperation) : Held (db.writeOp op) op where
  row := (Db.readOp_writeOp db op op.id).trans (if_pos rfl)
  creator _ member := Index.mem_insertAll.mpr (.inl member)
  target _ member := Index.mem_insertAll.mpr (.inl member)

omit [Bs58Check] [DenunciationDigest] in
theorem Held.writeOp_other {db : Db} {op other : StoredOperation} (held : Held db op)
    (apart : other.id ≠ op.id) :
    Held (db.writeOp other) op where
  row := (Db.readOp_writeOp db other op.id).trans ((if_neg apart).trans held.row)
  creator k member := Index.mem_insertAll.mpr (.inr (held.creator k member))
  target k member := Index.mem_insertAll.mpr (.inr (held.target k member))

omit [Bs58Check] [DenunciationDigest] in
/-- Writing a row that is held changes nothing. -/
theorem Held.writeOp_self {db : Db} {op : StoredOperation} (held : Held db op) : db.writeOp op = db := by
  show { db with ops := db.ops.put op, opByCreator := Index.insertAll db.opByCreator (opCreatorKeys op),
                 opByTarget := Index.insertAll db.opByTarget (opTargetKeys op) } = db
  rw [Table.put_of_get held.row, Index.insertAll_eq_self_iff.mpr held.creator,
    Index.insertAll_eq_self_iff.mpr held.target]

omit [Bs58Check] [DenunciationDigest] in
theorem Held.of_contents {db db' : Db} {op : StoredOperation} (held : Held db op)
    (same : contents db' .ops = contents db .ops) : Held db' op where
  row := (sameReadOp same op.id).trans held.row
  creator k member :=
    (congrArg (fun c => c.2.1) same : db'.opByCreator = db.opByCreator) ▸ held.creator k member
  target k member :=
    (congrArg (fun c => c.2.2) same : db'.opByTarget = db.opByTarget) ▸ held.target k member

/-! ### What an accepted item leaves -/

omit [Bs58Check] [DenunciationDigest] in
theorem readEndorsement_writeEndorsement (db : Db) (e : StoredEndorsement) :
    ((db.writeEndorsement e).readEndorsement e.id).isSome = true ∧
      ∀ id, (db.readEndorsement id).isSome = true →
        ((db.writeEndorsement e).readEndorsement id).isSome = true := by
  unfold Db.writeEndorsement
  split
  · next known => exact ⟨known, fun id here => here⟩
  · have read : ∀ id : EndorsementId, ((db.endorsements.put e).get id.bytes).isSome =
        if e.id.bytes = id.bytes then true else (db.endorsements.get id.bytes).isSome := by
      intro id
      rw [Table.get_put]
      show (if e.id.bytes = id.bytes then some e else _).isSome = _
      split <;> rfl
    refine ⟨(read e.id).trans (if_pos rfl), fun id here => (read id).trans ?_⟩
    split
    · rfl
    · exact here

omit [DenunciationDigest] in
/-- The endorsement is stored, and what was stored still is. -/
theorem endorsement_accepted {db next : Db} {e : SeenEndorsement}
    (taken : db.writeSeenEndorsement e = .ok next) :
    (∃ id, EndorsementId.parse e.id = .ok id ∧ (next.readEndorsement id).isSome = true) ∧
      ∀ id, (db.readEndorsement id).isSome = true → (next.readEndorsement id).isSome = true := by
  unfold Db.writeSeenEndorsement at taken
  cases parsed : EndorsementId.parse e.id with
  | error err => simp [parsed, bind, Except.bind] at taken
  | ok id =>
      by_cases known : (db.readEndorsement id).isSome
      · obtain rfl : db = next := by
          simpa [parsed, known, bind, Except.bind, pure, Except.pure] using taken
        exact ⟨⟨id, rfl, known⟩, fun _ here => here⟩
      · cases resolved : resolveEndorsement e with
        | error err => simp [parsed, known, resolved, bind, Except.bind] at taken
        | ok row =>
            obtain rfl : db.writeEndorsement row = next := by
              simpa [parsed, known, resolved, bind, Except.bind, pure, Except.pure] using taken
            obtain ⟨own, others⟩ := readEndorsement_writeEndorsement db row
            have same : row.id = id := by
              unfold resolveEndorsement at resolved
              simp only [parsed, bind, Except.bind] at resolved
              split at resolved
              · cases resolved
              · split at resolved
                · cases resolved
                · exact congrArg (·.id) (Except.ok.inj resolved).symm
            exact ⟨⟨id, rfl, same ▸ own⟩, others⟩

omit [Bs58Check] [DenunciationDigest] in
/-- The denunciation is stored with an including block, and what was stored so still is. -/
theorem denunciation_accepted (db : Db) (entry : StoredDenunciationEntry)
    (included : entry.includedBlockId.isSome = true) :
    (∃ prev, (db.writeDenunciation entry).readDenunciation entry.hash = some prev ∧
        prev.includedBlockId.isSome = true) ∧
      ∀ hash prev, db.readDenunciation hash = some prev → prev.includedBlockId.isSome = true →
        (db.writeDenunciation entry).readDenunciation hash = some prev := by
  unfold Db.writeDenunciation
  cases found : db.readDenunciation entry.hash with
  | none =>
      have read : ∀ hash, (db.denunciations.put entry).get hash =
          if entry.hash = hash then some entry else db.denunciations.get hash := fun hash =>
              Table.get_put ..
      refine ⟨⟨entry, (read entry.hash).trans (if_pos rfl), included⟩, fun hash prev here _ => ?_⟩
      refine (read hash).trans ((if_neg fun same => ?_).trans here)
      rw [same, here] at found
      cases found
  | some prev =>
      dsimp only
      split
      · next blank =>
          have key : prev.hash = entry.hash := Table.key_of_get found
          have read : ∀ hash, (db.denunciations.put
              { prev with includedBlockId := entry.includedBlockId, includedSlot :=
                  entry.includedSlot }).get hash =
              if prev.hash = hash then
                some { prev with includedBlockId := entry.includedBlockId, includedSlot :=
                    entry.includedSlot }
              else db.denunciations.get hash := fun hash => Table.get_put ..
          refine ⟨⟨_, (read entry.hash).trans (if_pos key), included⟩, fun hash old here some_ => ?_⟩
          refine (read hash).trans ((if_neg fun same => ?_).trans here)
          rw [← same, key, found] at here
          obtain rfl := Option.some.inj here
          rw [Bool.and_eq_true, Option.isNone_iff_eq_none] at blank
          rw [blank.1] at some_
          cases some_
      · next kept =>
          refine ⟨⟨prev, found, ?_⟩, fun hash old here _ => here⟩
          rw [included, Bool.and_true, Option.isNone_iff_eq_none] at kept
          exact Option.isSome_iff_ne_none.mpr kept

/-- The operation is stored with its site, and every other one is held as it was. -/
theorem operation_accepted {head : BlockHead} {nowMs : Int} {db next : Db} {filled : FilledOperation}
    {id? : Option OperationId} (taken : ingestOperation db head nowMs filled = ⟨next, .ok id?⟩) :
    Settled head (.operation filled) next ∧
      ∀ op, recordInclusion head op = op → Held db op → Held next op := by
  rcases ingestOperation_cases db head nowMs filled with
    ⟨skipped, here⟩ | ⟨id, old, filed, found, here⟩ | ⟨_, _, _, -, -, -, -, here⟩ |
      ⟨id, signedOp, fresh, filed, absent, -, made, here⟩
  · obtain rfl : db = next := congrArg Handled.db (here.symm.trans taken)
    refine ⟨fun id filed => ?_, fun op _ held => held⟩
    rw [skipped] at filed
    cases filed
  · obtain rfl : db.writeOp (recordInclusion head old) = next := congrArg Handled.db
      (here.symm.trans taken)
    have own : (recordInclusion head old).id = id := (id_recordInclusion head old).trans
        (Db.id_of_readOp found)
    refine ⟨fun id' filed' => ?_, fun op recorded held => ?_⟩
    · obtain rfl := Option.some.inj (filed.symm.trans filed')
      exact ⟨_, own, recordInclusion_idem head old, held_writeOp db _⟩
    · by_cases same : (recordInclusion head old).id = op.id
      · have row := held.row
        rw [← same, own, found] at row
        obtain rfl := Option.some.inj row
        rw [recorded, held.writeOp_self]
        exact held
      · exact held.writeOp_other same
  · rw [here] at taken
    cases taken
  · obtain rfl : db.writeOp (recordInclusion head fresh) = next := congrArg Handled.db
      (here.symm.trans taken)
    have own : (recordInclusion head fresh).id = id :=
      (id_recordInclusion head fresh).trans (id_freshOperation made).1
    refine ⟨fun id' filed' => ?_, fun op _ held => held.writeOp_other fun same => ?_⟩
    · obtain rfl := Option.some.inj (filed.symm.trans filed')
      exact ⟨_, own, recordInclusion_idem head fresh, held_writeOp db _⟩
    · have row := held.row
      rw [← same, own, absent] at row
      cases row

theorem idle_of_settled {head : BlockHead} {nowMs : Int} {a : Item} {db : Db}
    (settled : Settled head a db) :
    attempt head nowMs a db = .ok db := by
  cases a with
  | endorsement e =>
      obtain ⟨id, parsed, known⟩ := settled
      show db.writeSeenEndorsement e = _
      simp [Db.writeSeenEndorsement, parsed, known, bind, Except.bind, pure, Except.pure]
  | denunciation d =>
      obtain ⟨prev, found, included⟩ := settled
      show Except.ok (db.writeDenunciation (denunciationEntry head.id nowMs d)) = _
      have held : db.readDenunciation (denunciationEntry head.id nowMs d).hash = some prev := found
      obtain ⟨b, some_⟩ := Option.isSome_iff_exists.mp included
      simp [Db.writeDenunciation, held, some_]
  | operation filled =>
      show (ingestOperation db head nowMs filled).result.map _ = _
      rcases ingestOperation_cases db head nowMs filled with
        ⟨-, here⟩ | ⟨id, old, filed, found, here⟩ | ⟨id, _, _, filed, absent, -, -, -⟩ |
          ⟨id, _, _, filed, absent, -, -, -⟩
      · rw [here]
        rfl
      · obtain ⟨op, own, recorded, held⟩ := settled id filed
        have row := held.row
        rw [own, found] at row
        obtain rfl := Option.some.inj row
        rw [here, recorded, held.writeOp_self]
        rfl
      · obtain ⟨op, own, -, held⟩ := settled id filed
        exact absurd (own ▸ held.row) (by simp [absent])
      · obtain ⟨op, own, -, held⟩ := settled id filed
        exact absurd (own ▸ held.row) (by simp [absent])

/-! ### Families -/

def Item.family : Item → Family
  | .endorsement _ => .endorsements
  | .denunciation _ => .denunciations
  | .operation _ => .ops

omit [Bs58Check] [DenunciationDigest] in
theorem sameReadDenunciation {db db' : Db} (same : contents db .denunciations =
    contents db' .denunciations)
    (hash : Bytes) : db.readDenunciation hash = db'.readDenunciation hash :=
  congrArg (fun c : Contents .denunciations => c.1.get hash) same

theorem Settled.of_contents {head : BlockHead} {a : Item} {db db' : Db} (settled : Settled head a db)
    (same : contents db' a.family = contents db a.family) : Settled head a db' := by
  cases a with
  | endorsement e =>
      obtain ⟨id, parsed, known⟩ := settled
      exact ⟨id, parsed, sameReadEndorsement same id ▸ known⟩
  | denunciation d =>
      obtain ⟨prev, found, included⟩ := settled
      exact ⟨prev, (sameReadDenunciation same _).trans found, included⟩
  | operation filled =>
      intro id filed
      obtain ⟨op, own, recorded, held⟩ := settled id filed
      exact ⟨op, own, recorded, held.of_contents same⟩

theorem writes_attempt {head : BlockHead} {nowMs : Int} {b : Item} {db next : Db}
    (taken : attempt head nowMs b db = .ok next) : WritesTo [b.family] db next := by
  cases b with
  | endorsement e =>
      rcases writeSeenEndorsement_ok taken with rfl | ⟨row, rfl⟩
      · exact .none
      · exact .one (.endorsement row) rfl
  | denunciation d =>
      obtain rfl := Except.ok.inj taken
      exact .one (.denunciation _) rfl
  | operation filled =>
      have written := writes_ingestOperation db head nowMs filled
      rw [attempt] at taken
      cases ended : (ingestOperation db head nowMs filled).result with
      | error e =>
          rw [ended] at taken
          cases taken
      | ok id? =>
          rw [ended] at taken
          obtain rfl := Except.ok.inj taken
          exact written

/-- **Items settle.** -/
theorem settles (head : BlockHead) (nowMs : Int) : Settles (attempt head nowMs) (Settled head) where
  idle := idle_of_settled
  done := by
    intro a db next taken
    cases a with
    | endorsement e => exact (endorsement_accepted taken).1
    | denunciation d =>
        obtain rfl := Except.ok.inj taken
        exact (denunciation_accepted db (denunciationEntry head.id nowMs d) rfl).1
    | operation filled =>
        have written : (ingestOperation db head nowMs filled).result.map
            (fun _ => (ingestOperation db head nowMs filled).db) = .ok next := taken
        rcases whole : ingestOperation db head nowMs filled with ⟨left, result⟩
        rw [whole] at written
        cases result with
        | error e => cases written
        | ok id? =>
            obtain rfl := Except.ok.inj written
            exact (operation_accepted whole).1
  stays := by
    intro a b db next settled taken
    by_cases apart : a.family = b.family
    · cases b with
      | endorsement e =>
          cases a with
          | endorsement e' =>
              obtain ⟨id, parsed, known⟩ := settled
              exact ⟨id, parsed, (endorsement_accepted taken).2 id known⟩
          | denunciation d => cases apart
          | operation filled => cases apart
      | denunciation d =>
          cases a with
          | endorsement e => cases apart
          | denunciation d' =>
              obtain rfl := Except.ok.inj taken
              obtain ⟨prev, found, included⟩ := settled
              exact ⟨prev, (denunciation_accepted db (denunciationEntry head.id nowMs d) rfl).2
                _ prev found included, included⟩
          | operation filled => cases apart
      | operation filled =>
          cases a with
          | endorsement e => cases apart
          | denunciation d => cases apart
          | operation filled' =>
              intro id filed
              obtain ⟨op, own, recorded, held⟩ := settled id filed
              refine ⟨op, own, recorded, ?_⟩
              have written : (ingestOperation db head nowMs filled).result.map
                  (fun _ => (ingestOperation db head nowMs filled).db) = .ok next := taken
              rcases whole : ingestOperation db head nowMs filled with ⟨left, result⟩
              rw [whole] at written
              cases result with
              | error e => cases written
              | ok id? =>
                  obtain rfl := Except.ok.inj written
                  exact (operation_accepted whole).2 op recorded held
    · refine settled.of_contents ((writes_attempt taken).contents_eq a.family ?_)
      simpa using apart

/-! ## Refusals -/

/-- An operation is refused when it is new, to the store and to the message, and without a message or a
creator that parses. -/
def OperationsAccepted (db : Db) (head : BlockHead) (nowMs : Int) (ops : List FilledOperation) : Prop :=
  ∀ pre filled post, ops = pre ++ filled :: post →
    ∀ signedOp id, filled.operation = some signedOp → opIdOf filled = some id →
      db.readOp id = none → id ∉ pre.filterMap opIdOf →
        ∃ op, freshOperation signedOp id head.slot.thread nowMs = .ok op

/-- Nothing is refused: the ids of every endorsement parse, and every operation is accepted. -/
structure Faultless (db : Db) (head : BlockHead) (nowMs : Int) (ops : List FilledOperation) : Prop where
  endorsements : ∀ e ∈ head.endorsements nowMs, ∃ row, resolveEndorsement e = .ok row
  operations : OperationsAccepted db head nowMs ops

section Refusals

variable {head : BlockHead} {nowMs : Int}

omit [DenunciationDigest] in
theorem mapM_resolve_iff (l : List SeenEndorsement) :
    (∃ es, l.mapM resolveEndorsement = .ok es) ↔ ∀ e ∈ l, ∃ row, resolveEndorsement e = .ok row := by
  induction l with
  | nil => exact iff_of_true ⟨[], rfl⟩ (by simp)
  | cons e rest ih =>
      rw [List.forall_mem_cons, ← ih, List.mapM_cons]
      cases resolveEndorsement e with
      | error err => simp [bind, Except.bind]
      | ok row => cases rest.mapM resolveEndorsement <;> simp [bind, Except.bind, pure, Except.pure]

theorem clean_endorsements {l : List SeenEndorsement}
    (resolve : ∀ e ∈ l, ∃ row, resolveEndorsement e = .ok row)
    (db : Db) : (attemptAll (attempt head nowMs) (l.map .endorsement) db).2 = none := by
  induction l generalizing db with
  | nil => rfl
  | cons e rest ih =>
      obtain ⟨⟨row, resolved⟩, later⟩ := List.forall_mem_cons.mp resolve
      have accepted : ∃ next, db.writeSeenEndorsement e = .ok next := by
        unfold Db.writeSeenEndorsement
        cases parsed : EndorsementId.parse e.id with
        | error err => simp [resolveEndorsement, parsed, bind, Except.bind] at resolved
        | ok id =>
            by_cases known : (db.readEndorsement id).isSome <;>
              simp [known, resolved, bind, Except.bind, pure, Except.pure]
      obtain ⟨next, taken⟩ := accepted
      rw [List.map_cons, attemptAll_ok (show attempt head nowMs (.endorsement e) db =
          .ok next from taken)]
      exact ih later next

theorem accepted_iff (db : Db) (filled : FilledOperation) :
    (attempt head nowMs (.operation filled) db).isOk = true ↔
      ∀ signedOp id, filled.operation = some signedOp → opIdOf filled = some id → db.readOp id = none →
        ∃ op, freshOperation signedOp id head.slot.thread nowMs = .ok op := by
  rw [attempt]
  rcases ingestOperation_cases db head nowMs filled with
    ⟨skipped, here⟩ | ⟨id, old, filed, found, here⟩ | ⟨id, signedOp, e, filed, absent, carried,
        refused, here⟩ |
      ⟨id, signedOp, fresh, filed, absent, carried, made, here⟩
  · rw [here]
    refine iff_of_true rfl fun signedOp id _ filed => ?_
    rw [skipped] at filed
    cases filed
  · rw [here]
    refine iff_of_true rfl fun signedOp id' _ filed' absent => ?_
    obtain rfl := Option.some.inj (filed.symm.trans filed')
    rw [found] at absent
    cases absent
  · rw [here]
    refine iff_of_false (by simp [Except.map, Except.isOk, Except.toBool]) fun all => ?_
    obtain ⟨op, made⟩ := all signedOp id carried filed absent
    rw [refused] at made
    cases made
  · rw [here]
    refine iff_of_true rfl fun signedOp' id' carried' filed' _ => ?_
    obtain rfl := Option.some.inj (filed.symm.trans filed')
    obtain rfl := Option.some.inj (carried.symm.trans carried')
    exact ⟨fresh, made⟩

/-- An accepted operation has a row, the others keep theirs. -/
theorem readOp_accepted {db next : Db} {filled : FilledOperation}
    (taken : attempt head nowMs (.operation filled) db = .ok next) (id : OperationId) :
    next.readOp id = none ↔ db.readOp id = none ∧ opIdOf filled ≠ some id := by
  rw [attempt] at taken
  rcases ingestOperation_cases db head nowMs filled with
    ⟨skipped, here⟩ | ⟨own, old, filed, found, here⟩ | ⟨_, _, _, -, -, -, -, here⟩ |
      ⟨own, signedOp, fresh, filed, absent, -, made, here⟩
  · rw [here] at taken
    obtain rfl := Except.ok.inj taken
    simp [skipped]
  · rw [here] at taken
    obtain rfl := Except.ok.inj taken
    have key : (recordInclusion head old).id = own := (id_recordInclusion head old).trans
        (Db.id_of_readOp found)
    show (db.writeOp _).readOp id = none ↔ _
    rw [Db.readOp_writeOp, key, filed]
    by_cases same : own = id <;> simp [same]
  · rw [here] at taken
    cases taken
  · rw [here] at taken
    obtain rfl := Except.ok.inj taken
    have key : (recordInclusion head fresh).id = own :=
      (id_recordInclusion head fresh).trans (id_freshOperation made).1
    show (db.writeOp _).readOp id = none ↔ _
    rw [Db.readOp_writeOp, key, filed]
    by_cases same : own = id <;> simp [same]

theorem readOp_attempts {ops : List FilledOperation} {db : Db}
    (clean : (attemptAll (attempt head nowMs) (ops.map .operation) db).2 = none) (id : OperationId) :
    (attemptAll (attempt head nowMs) (ops.map .operation) db).1.readOp id = none ↔
      db.readOp id = none ∧ id ∉ ops.filterMap opIdOf := by
  induction ops generalizing db with
  | nil => simp [attemptAll]
  | cons filled rest ih =>
      rw [List.map_cons] at clean ⊢
      cases taken : attempt head nowMs (.operation filled) db with
      | error e =>
          rw [attemptAll_error taken] at clean
          exact absurd clean (by simp)
      | ok next =>
          rw [attemptAll_ok taken] at clean ⊢
          rw [ih clean, readOp_accepted taken, List.mem_filterMap, List.mem_filterMap]
          simp [and_assoc]

theorem clean_operations {ops : List FilledOperation} {db db' : Db}
    (same : ∀ id, db'.readOp id = db.readOp id) :
    (attemptAll (attempt head nowMs) (ops.map .operation) db').2 = none ↔
      OperationsAccepted db head nowMs ops := by
  induction ops using List.reverseRecOn with
  | nil => exact iff_of_true rfl fun pre filled post split => absurd split (by simp)
  | append_singleton ops filled ih =>
      rw [List.map_append, List.map_singleton, clean_concat, ih, accepted_iff]
      constructor
      · rintro ⟨before, last⟩ pre filled' post split
        rcases List.eq_nil_or_concat post with rfl | ⟨post, tail, rfl⟩
        · obtain ⟨rfl, one⟩ := List.append_inj' split rfl
          obtain rfl : filled = filled' := List.cons.inj one |>.1
          intro signedOp id carried filed absent unseen
          exact last signedOp id carried filed
            ((readOp_attempts (ih.mpr before) id).mpr ⟨(same id).trans absent, unseen⟩)
        · have split : ops ++ [filled] = (pre ++ filled' :: post) ++ [tail] := by
            simpa [List.concat_eq_append] using split
          exact before pre filled' post (List.append_inj' split rfl).1
      · intro all
        have before : OperationsAccepted db head nowMs ops := fun pre filled' post split =>
          all pre filled' (post ++ [filled]) (by rw [split]; simp)
        refine ⟨before, fun signedOp id carried filed absent => ?_⟩
        obtain ⟨new, unseen⟩ := (readOp_attempts (ih.mpr before) id).mp absent
        exact all ops filled [] rfl signedOp id carried filed ((same id).symm.trans new) unseen

/-- **Nothing of the message is refused exactly when it is faultless.** -/
theorem taken_iff_faultless (db : Db) (ops : List FilledOperation) :
    ((written head nowMs db ops).2 = none ∧ ∃ es, (head.endorsements nowMs).mapM
        resolveEndorsement = .ok es) ↔
      Faultless db head nowMs ops := by
  rw [mapM_resolve_iff]
  unfold written items
  have second := denunciations_eq head nowMs head.denunciations
  have sameOps : ∀ id, (head.denunciations.foldl
      (fun db d => db.writeDenunciation (denunciationEntry head.id nowMs d))
      (attemptAll (attempt head nowMs) ((head.endorsements nowMs).map .endorsement) db).1).readOp id =
        db.readOp id := by
    intro id
    have first := writes_persistEndorsements db (head.endorsements nowMs)
    rw [(persistEndorsements_eq head nowMs (head.endorsements nowMs) db).1] at first
    have frame := (confined_denunciations (denunciationEntry head.id nowMs)
      head.denunciations).frame (attemptAll (attempt head nowMs)
        ((head.endorsements nowMs).map .endorsement) db).1 .ops (by decide)
    exact sameReadOp (frame.trans (first.contents_eq .ops (by decide))) id
  constructor
  · rintro ⟨clean, resolve⟩
    rw [attemptAll_append_of_clean _ (clean_endorsements resolve db),
      attemptAll_append_of_clean _ (by rw [second]), second] at clean
    exact ⟨resolve, (clean_operations sameOps).mp clean⟩
  · rintro ⟨resolve, accepted⟩
    refine ⟨?_, resolve⟩
    rw [attemptAll_append_of_clean _ (clean_endorsements resolve db),
      attemptAll_append_of_clean _ (by rw [second]), second]
    exact (clean_operations sameOps).mpr accepted

end Refusals

/-! ## The law -/

/-- An error leaves the store as it was. -/
def AtomicOnError (db : Db) (fb : FilledBlock) (nowMs : Int) : Prop :=
  ∀ e, (handleBlock db fb nowMs).result = .error e → (handleBlock db fb nowMs).db = db

/-- Nothing new is ahead of the first refusal: the head of the message is refused, or nothing is, or
all the rows before are there. -/
def NothingAhead (db : Db) (fb : FilledBlock) (nowMs : Int) : Prop :=
  ∀ head, decodeHead fb = .ok head → Faultless db head nowMs fb.operations ∨
    ∀ a ∈ ahead (attempt head nowMs) (items head fb.operations nowMs) db, Settled head a db

/-- **A block that fails leaves the store as it was exactly when nothing new is ahead of its first
fault.** -/
theorem refused_block_leaves_nothing_iff (db : Db) (fb : FilledBlock) (nowMs : Int) :
    AtomicOnError db fb nowMs ↔ NothingAhead db fb nowMs := by
  unfold AtomicOnError NothingAhead
  cases decoded : decodeHead fb with
  | error err =>
      refine iff_of_true (fun e _ => ?_) (fun head other => by cases other)
      rw [handleBlock, decoded]
  | ok head =>
      have unchanged := (settles head nowMs).unchanged_iff (items head fb.operations nowMs) db
      constructor
      · intro atomic head' same
        obtain rfl := Except.ok.inj same
        by_cases faultless : Faultless db head nowMs fb.operations
        · exact .inl faultless
        · obtain ⟨left, e, failed⟩ := handleBlock_refused decoded db
            (fun taken => faultless ((taken_iff_faultless db _).mp taken))
          exact .inr (unchanged.mp (left.symm.trans (atomic e failed)))
      · intro quiet e failed
        rcases quiet head rfl with faultless | settled
        · obtain ⟨clean, resolved⟩ := (taken_iff_faultless db _).mpr faultless
          rw [handleBlock_taken decoded clean resolved] at failed
          cases failed
        · by_cases faultless : Faultless db head nowMs fb.operations
          · obtain ⟨clean, resolved⟩ := (taken_iff_faultless db _).mpr faultless
            rw [handleBlock_taken decoded clean resolved] at failed
            cases failed
          · have left := (handleBlock_refused decoded db
              (fun taken => faultless ((taken_iff_faultless db _).mp taken))).1
            exact left.trans (unchanged.mpr settled)

end Handler

/-! ## A refused block that leaves an operation -/

/-- A header whose texts are those of ids is decoded to them. -/
theorem decodeHead_named [Bs58Check] {fb : FilledBlock} {header : SignedBlockHeader} {content : BlockHeader}
    {id : BlockId} {slot : NodeSlot} {creator : Address} (here : fb.header = some header)
    (inside : header.content = some content) (hash : header.secureHash = id.text)
    (placed : content.slot = some slot) (author : Address.parse header.contentCreatorAddress = .ok creator) :
    decodeHead fb = .ok ⟨header, content, id, Writer.NodeDecode.slotFromPb slot, creator⟩ := by
  have parsed : BlockId.parse id.text = .ok id := FamilyId.parse_text id
  simp [decodeHead, here, inside, hash, placed, author, parsed]

section HalfBad

attribute [local instance] Bs58Check.doubleSha Chain.noDenunciations

def signedOf (content : Option OperationInput) : SignedOperation where
  content := content
  contentCreatorAddress := someAddress.text

def filledOf (id : OperationId) (content : Option OperationInput) : FilledOperation where
  operationId := id.text
  operation := some (signedOf content)

def headerContent : BlockHeader where
  slot := some { period := 10, thread := 0 }

def signedHeader : SignedBlockHeader where
  content := some headerContent
  contentCreatorAddress := someAddress.text
  secureHash := (blockNo 1).text

def blockHead : BlockHead where
  header := signedHeader
  content := headerContent
  id := blockNo 1
  slot := ⟨10, 0⟩
  creator := someAddress

/-- A block with an operation that is fine and one without a content. -/
def halfBad : FilledBlock where
  header := some signedHeader
  operations := [filledOf transferId (some {}), filledOf callId none]

theorem parse_someAddress : Address.parse someAddress.text = .ok someAddress := Address.parse_text
    (.inl rfl)

theorem secureHash_signedHeader : signedHeader.secureHash = (blockNo 1).text := by
  simp only [signedHeader]

theorem author_signedHeader : Address.parse signedHeader.contentCreatorAddress = .ok someAddress := by
  simp only [signedHeader, parse_someAddress]

theorem decodeHead_halfBad : decodeHead halfBad = .ok blockHead := by
  have slot : headerContent.slot = some { period := 10, thread := 0 } := rfl
  exact decodeHead_named rfl rfl secureHash_signedHeader slot author_signedHeader

theorem filledOpId_filledOf (id : OperationId) (content : Option OperationInput) :
    filledOpId (filledOf id content) (signedOf content) = some id := by
  have parsed : OperationId.parse id.text = .ok id := FamilyId.parse_text id
  simp [filledOpId, filledOf, parsed, Except.toOption]

theorem ingestOperation_filledOf {db : Db} {id : OperationId} (content : Option OperationInput)
    (absent : db.readOp id = none) :
    ingestOperation db blockHead 0 (filledOf id content) =
      match freshOperation (signedOf content) id 0 0 with
      | .error e => ⟨db, .error e⟩
      | .ok stored => ⟨db.writeOp (recordInclusion blockHead stored), .ok (some id)⟩ := by
  have carried : (filledOf id content).operation = some (signedOf content) := rfl
  rw [ingestOperation, carried]
  dsimp only
  rw [filledOpId_filledOf]
  dsimp only
  rw [absent]
  rfl

/-- **The handler is not atomic on error**: the first operation stays, with a site at a block that
has no row. -/
theorem refused_block_leaves_operation : ¬ ∀ db fb nowMs, AtomicOnError db fb nowMs := by
  intro atomic
  obtain ⟨op, made⟩ : ∃ op, freshOperation (signedOf (some {})) transferId 0 0 = .ok op := by
    simp [freshOperation, signedOf, parse_someAddress]
  have own : (recordInclusion blockHead op).id = transferId :=
    (id_recordInclusion blockHead op).trans (id_freshOperation made).1
  have read : ∀ id, (Db.empty.writeOp (recordInclusion blockHead op)).readOp id =
      if transferId = id then some (recordInclusion blockHead op) else none := by
    intro id
    rw [Db.readOp_writeOp, own]
    rfl
  have first : attempt blockHead 0 (.operation (filledOf transferId (some {}))) Db.empty =
      .ok (Db.empty.writeOp (recordInclusion blockHead op)) := by
    rw [attempt, ingestOperation_filledOf (some {}) rfl, made]
    rfl
  have second : attempt blockHead 0 (.operation (filledOf callId none))
      (Db.empty.writeOp (recordInclusion blockHead op)) = .error "op missing content" := by
    rw [attempt, ingestOperation_filledOf none ((read callId).trans (if_neg (by decide)))]
    rfl
  have stopped : written blockHead 0 Db.empty halfBad.operations =
      (Db.empty.writeOp (recordInclusion blockHead op), some "op missing content") := by
    show attemptAll (attempt blockHead 0) [.operation (filledOf transferId (some {})),
      .operation (filledOf callId none)] Db.empty = _
    rw [attemptAll_ok first, attemptAll_error second]
  obtain ⟨left, e, failed⟩ := handleBlock_refused decodeHead_halfBad Db.empty
    (fun taken => absurd taken.1 (by rw [stopped]; simp))
  rw [stopped, atomic Db.empty halfBad 0 e failed] at left
  have kept := congrArg (·.readOp transferId) left
  rw [read, if_pos rfl] at kept
  cases kept

end HalfBad

end MassaIndexer.Laws.BlockAtomicity
