/-
# Laws.LegacyDecoders -- the archive's decoders and ingest

The archive's decoders repeat those of ingest by hand. They agree on every operation type, endorsement and
denunciation (`classifyOpType_eq`, `decodeSignedEndorsement_eq`, `decodeDenunciation_eq`), and so a block
decoded from the archive is the row ingest makes of the same message on an empty store, but for the
statuses and the clock (`legacy_decoders_mirror_ingest`).
-/
import MassaIndexer.Repair.LegacyDecode
import MassaIndexer.Writer.OperationSites
import MassaIndexer.Writer.RowBlocks

namespace MassaIndexer.Laws.LegacyDecoders

open MassaIndexer.Theory.KeyedTable MassaIndexer.Theory.ByteText
open MassaIndexer.Data.Ids MassaIndexer.Data.Model MassaIndexer.Data.Codec
open MassaIndexer.Data.Storage hiding decodeEndorsement BlockRow
open MassaIndexer.Store.ColumnFamilies MassaIndexer.Store.Footprint
open MassaIndexer.Writer MassaIndexer.Writer.NodeProto MassaIndexer.Writer.NodeDecode
open MassaIndexer.Writer.Shared MassaIndexer.Writer.Handlers MassaIndexer.Writer.Step
open MassaIndexer.Writer.Families MassaIndexer.Writer.Patches MassaIndexer.Writer.RowMoves MassaIndexer.Writer.BlockMoves
open MassaIndexer.Writer.BodyMoves MassaIndexer.Writer.OperationSites
open MassaIndexer.Laws.BlockAtomicity MassaIndexer.Laws.RepairAdditive MassaIndexer.Repair.LegacyDecode

set_option autoImplicit false

/-! ## The decoders, written twice -/

theorem hexEncode_eq (bytes : Bytes) : hexEncode bytes = Hex.encode bytes := by
  have digits : ∀ n : Fin 16, hexDigit (UInt8.ofNat n.val) = Hex.digit n.val := by decide
  have high : ∀ b : UInt8, hexDigit (b >>> 4) = Hex.digit (b.toNat / 16) := by
    intro b
    have small : b.toNat / 16 < 16 := by
      have bound := b.toNat_lt
      omega
    rw [← digits ⟨b.toNat / 16, small⟩]
    congr 1
    apply UInt8.toNat.inj
    simp [Nat.shiftRight_eq_div_pow]
    omega
  have low : ∀ b : UInt8, hexDigit (b &&& 0x0f) = Hex.digit (b.toNat % 16) := by
    intro b
    rw [← digits ⟨b.toNat % 16, Nat.mod_lt _ (by decide)⟩]
    congr 1
    apply UInt8.toNat.inj
    have mask : b.toNat &&& 15 = b.toNat % 16 := Nat.and_two_pow_sub_one_eq_mod b.toNat 4
    simp only [UInt8.toNat_and, UInt8.toNat_ofNat', UInt8.reduceToNat, mask]
    omega
  have chars : (bytes.flatMap fun (b : UInt8) => [hexDigit (b >>> 4), hexDigit (b &&& 0x0f)]) =
      Hex.encodeChars bytes := by
    induction bytes with
    | nil => rfl
    | cons b rest ih =>
        rw [List.flatMap_cons, ih, high, low]
        rfl
  rw [hexEncode, chars, Hex.encode]

section Decoders

variable [Bs58Check]

theorem classifyOpType_eq (opType : Option (Option OperationType)) :
    classifyOpType opType = classifyOp opType := by
  have hex : hexEncode = Hex.encode := funext hexEncode_eq
  unfold classifyOp
  rw [hex]
  rcases opType with _ | _ | kind
  · rfl
  · rfl
  · cases kind <;> rfl

theorem decodeSignedEndorsement_eq (se : SignedEndorsement) (block : BlockId) (slot : Slot)
    (nowMs : Int) :
    decodeSignedEndorsement se block slot nowMs = NodeDecode.decodeEndorsement se block slot nowMs := by
  unfold decodeSignedEndorsement NodeDecode.decodeEndorsement
  cases se.content with
  | none => rfl
  | some content =>
      cases slotPb : content.slot with
      | none => simp [slotPb]
      | some slot =>
          cases Address.parse se.contentCreatorAddress <;> simp [slotPb, Except.toOption,
            NodeDecode.slotFromPb]

omit [Bs58Check] in
theorem slotOrZero_eq (slot : Option NodeSlot) : slotOrZero slot = denouncedSlot slot := by
  cases slot <;> rfl

omit [Bs58Check] in
theorem decodeDenunciation_eq (d : Option NodeDenunciation) :
    Repair.LegacyDecode.decodeDenunciation d = NodeDecode.decodeDenunciation d := by
  rcases d with _ | b | e | a <;>
    simp [Repair.LegacyDecode.decodeDenunciation, NodeDecode.decodeDenunciation, slotOrZero_eq]

end Decoders

/-! ## One block, archived and ingested -/

section Blocks

variable [Bs58Check]

/-- A message whose ids are well formed, with what the block handler reads of its header. -/
structure WellFormed (fb : FilledBlock) (head : BlockHead) : Prop where
  read : decodeHead fb = .ok head
  endorsements : ∀ se ∈ head.content.endorsements, (∃ id, EndorsementId.parse se.secureHash = .ok id) ∧
    ∀ content, se.content = some content → ∃ block, BlockId.parse content.endorsedBlock = .ok block
  operations : ∀ filled ∈ fb.operations, ∃ signedOp id content creator,
    filled.operation = some signedOp ∧ filledOpId filled signedOp = some id ∧
      signedOp.content = some content ∧ Address.parse signedOp.contentCreatorAddress = .ok creator

/-- The rows the archive has of the message: of the block, and of each operation. -/
structure Archived [Wrappers] (fb : FilledBlock) (head : BlockHead) (block : BlockRow)
    (ops : OperationId → OpRow) : Prop where
  hash : block.hash = head.header.secureHash
  raw : Wrappers.block block.raw = .ok ⟨some ⟨some head.header,
    (fb.operations.filterMap opIdOf).map (·.text)⟩⟩
  slot : block.slot = head.slot
  creator : block.creatorAddress = head.header.contentCreatorAddress
  operation : ∀ filled ∈ fb.operations, ∀ signedOp id, filled.operation = some signedOp →
    filledOpId filled signedOp = some id →
      (ops id).hash = id.text ∧ Wrappers.operation (ops id).raw = .ok ⟨some signedOp⟩ ∧
        (ops id).blockHash = head.header.secureHash ∧ (ops id).slot = head.slot

/-- The decoded row is the stored one, but for the status and the clock. -/
def SameBlock (decoded stored : Data.Storage.BlockRow) : Prop :=
  { decoded with
    endorsements := decoded.endorsements.map fun e => { e with firstSeenTsMs := stored.firstSeenTsMs }
    status := stored.status
    firstSeenTsMs := stored.firstSeenTsMs } = stored

def SameOperation (decoded stored : OperationRow) : Prop :=
  { decoded with
    candidateExecStatus := stored.candidateExecStatus
    finalExecStatus := stored.finalExecStatus
    firstSeenTsMs := stored.firstSeenTsMs } = stored

/-! ### What the header says -/

/-- The message a head was read from. -/
structure HeadOf (fb : FilledBlock) (head : BlockHead) : Prop where
  header : fb.header = some head.header
  content : head.header.content = some head.content
  id : BlockId.parse head.header.secureHash = .ok head.id
  creator : Address.parse head.header.contentCreatorAddress = .ok head.creator

theorem headOf_decodeHead {fb : FilledBlock} {head : BlockHead} (decoded : decodeHead fb = .ok head) :
    HeadOf fb head := by
  unfold decodeHead at decoded
  cases header : fb.header with
  | none => rw [header] at decoded; cases decoded
  | some hdr =>
      rw [header] at decoded
      dsimp only at decoded
      cases content : hdr.content with
      | none => rw [content] at decoded; cases decoded
      | some c =>
          rw [content] at decoded
          dsimp only at decoded
          split at decoded
          · cases decoded
          · cases id : BlockId.parse hdr.secureHash with
            | error e => rw [id] at decoded; cases decoded
            | ok b =>
                rw [id] at decoded
                dsimp only at decoded
                cases slot : c.slot with
                | none => rw [slot] at decoded; cases decoded
                | some s =>
                    rw [slot] at decoded
                    dsimp only at decoded
                    cases creator : Address.parse hdr.contentCreatorAddress with
                    | error e => rw [creator] at decoded; cases decoded
                    | ok a =>
                        rw [creator] at decoded
                        obtain rfl := Except.ok.inj decoded
                        exact ⟨header, content, id, creator⟩

variable {fb : FilledBlock} {head : BlockHead}

theorem parsedIds_endorsements (wellFormed : WellFormed fb head) (nowMs : Int) :
    ∀ e ∈ head.endorsements nowMs, ParsedIds e := by
  intro e member
  obtain ⟨se, listed, decoded⟩ := List.mem_filterMap.mp member
  obtain ⟨⟨id, parsed⟩, endorsed⟩ := wellFormed.endorsements se listed
  unfold NodeDecode.decodeEndorsement at decoded
  cases content : se.content with
  | none => simp [content] at decoded
  | some c =>
      cases slot : c.slot with
      | none => simp [content, slot] at decoded
      | some s =>
          cases creator : Address.parse se.contentCreatorAddress with
          | error err => simp [content, creator, Except.toOption] at decoded
          | ok a =>
              simp only [content, slot, creator, Except.toOption, Option.bind_eq_bind,
                Option.bind_some, Option.pure_def, Option.some.injEq] at decoded
              subst decoded
              exact ⟨⟨id, parsed⟩, endorsed c content, ⟨head.id, FamilyId.parse_text head.id⟩⟩

/-! ### What ingest leaves -/

/-- The row ingest makes of an operation that is new. -/
def NewRow (head : BlockHead) (nowMs : Int) (filled : FilledOperation) (id : OperationId)
    (row : StoredOperation) : Prop :=
  ∃ signedOp fresh, filled.operation = some signedOp ∧
    freshOperation signedOp id head.slot.thread nowMs = .ok fresh ∧ recordInclusion head fresh = row

/-- Operations that come with one message for each id are all taken, and their rows are made of it. -/
theorem readOp_ingested {rows : OperationId → StoredOperation} {nowMs : Int} {ops : List FilledOperation}
    (made : ∀ filled ∈ ops, ∀ id, opIdOf filled = some id → NewRow head nowMs filled id (rows id))
    {db : Db} (held : ∀ id op, db.readOp id = some op → op = rows id) :
    (∃ ids, (ingestOperations db head nowMs ops).result = .ok ids) ∧
      ∀ id op, (ingestOperations db head nowMs ops).db.readOp id = some op → op = rows id := by
  induction ops generalizing db with
  | nil => exact ⟨⟨[], rfl⟩, held⟩
  | cons filled rest ih =>
      obtain ⟨here, later⟩ := List.forall_mem_cons.mp made
      have entered : ∀ id, opIdOf filled = some id → ∀ other op,
          (db.writeOp (rows id)).readOp other = some op → (rows id).id = id → op = rows other := by
        intro id _ other op found own
        rw [Db.readOp_writeOp, own] at found
        split at found
        · next same => rw [← Option.some.inj found, same]
        · exact held other op found
      rw [ingestOperations]
      rcases ingestOperation_cases db head nowMs filled with
        ⟨-, taken⟩ | ⟨id, op, filed, found, taken⟩ | ⟨id, signedOp, e, filed, -, carried, refused, -⟩ |
          ⟨id, signedOp, fresh, filed, -, carried, accepted, taken⟩
      · rw [taken]
        obtain ⟨⟨ids, result⟩, after⟩ := ih later held
        exact ⟨⟨_, congrArg (Except.map _) result⟩, after⟩
      · obtain ⟨_, fresh, -, -, row⟩ := here id filed
        have same : recordInclusion head op = rows id := by
          rw [held id op found, ← row, recordInclusion_idem]
        have own : (rows id).id = id := by rw [← held id op found, Db.id_of_readOp found]
        rw [taken, same]
        obtain ⟨⟨ids, result⟩, after⟩ := ih later fun other op' found' =>
          entered id filed other op' found' own
        exact ⟨⟨_, congrArg (Except.map _) result⟩, after⟩
      · obtain ⟨signedOp', fresh, carried', accepted, -⟩ := here id filed
        obtain rfl := Option.some.inj (carried.symm.trans carried')
        rw [refused] at accepted
        cases accepted
      · obtain ⟨signedOp', fresh', carried', accepted', row⟩ := here id filed
        obtain rfl := Option.some.inj (carried.symm.trans carried')
        obtain rfl := Except.ok.inj (accepted.symm.trans accepted')
        have own : (rows id).id = id := by
          rw [← row, id_recordInclusion, (BodyMoves.id_freshOperation accepted).1]
        rw [taken, row]
        obtain ⟨⟨ids, result⟩, after⟩ := ih later fun other op' found' =>
          entered id filed other op' found' own
        exact ⟨⟨_, congrArg (Except.map _) result⟩, after⟩

variable [Wrappers] {block : BlockRow} {ops : OperationId → OpRow}

/-- The message of a listed operation, and the row it becomes. -/
theorem exists_newRow (wellFormed : WellFormed fb head) (archived : Archived fb head block ops)
    (nowMs : Int) : ∃ rows : OperationId → StoredOperation, ∀ filled ∈ fb.operations, ∀ id,
      opIdOf filled = some id → NewRow head nowMs filled id (rows id) := by
  have one : ∀ id, ∃ row, ∀ filled ∈ fb.operations, opIdOf filled = some id →
      NewRow head nowMs filled id row := by
    intro id
    by_cases listed : ∃ filled ∈ fb.operations, opIdOf filled = some id
    · obtain ⟨filled, member, filed⟩ := listed
      obtain ⟨signedOp, id', content, creator, carried, named, holds, parsed⟩ :=
        wellFormed.operations filled member
      have same : id' = id := by
        rw [opIdOf, carried, Option.bind_some, named] at filed
        exact Option.some.inj filed
      subst same
      have raw := (archived.operation filled member signedOp id' carried named).2.1
      obtain ⟨fresh, accepted⟩ : ∃ fresh,
          freshOperation signedOp id' head.slot.thread nowMs = .ok fresh := by
        unfold freshOperation
        rw [holds, parsed]
        exact ⟨_, rfl⟩
      refine ⟨recordInclusion head fresh, fun other member' filed' => ?_⟩
      -- the archive has one row for the id, so the messages listed under it are one
      obtain ⟨signedOp', id'', -, -, carried', named', -, -⟩ := wellFormed.operations other member'
      have same : id'' = id' := by
        rw [opIdOf, carried', Option.bind_some, named'] at filed'
        exact Option.some.inj filed'
      subst same
      have raw' := (archived.operation other member' signedOp' id'' carried' named').2.1
      have message : signedOp = signedOp' :=
        Option.some.inj (congrArg OperationWrapper.operation (Except.ok.inj (raw.symm.trans raw')))
      exact ⟨signedOp, fresh, message ▸ carried', accepted, rfl⟩
    · exact ⟨⟨id, ⟨List.replicate addrKeyLen 0, by simp⟩, none, .unknown, 0, 0, 0, [], none, none, {}, "", "",
        0, [], 0⟩, fun filled member filed => absurd ⟨filled, member, filed⟩ listed⟩
  exact ⟨fun id => (one id).choose, fun filled member id filed => (one id).choose_spec filled member filed⟩

variable [DenunciationDigest]

/-- **Ingest takes the message, and files its block and operations.** -/
theorem handleBlock_empty (wellFormed : WellFormed fb head) (archived : Archived fb head block ops)
    (nowMs : Int) : ∃ (endorsements : List StoredEndorsement) (rows : OperationId → StoredOperation),
      endorsements.map displayEndorsement = head.endorsements nowMs ∧
        (handleBlock Db.empty fb nowMs).db.readBlock head.id =
          some (seenRow Db.empty ⟨head, endorsements, fb.operations.filterMap opIdOf⟩ nowMs) ∧
        (∀ filled ∈ fb.operations, ∀ id, opIdOf filled = some id →
          NewRow head nowMs filled id (rows id) ∧
            (handleBlock Db.empty fb nowMs).db.readOp id = some (rows id)) := by
  obtain ⟨endorsements, resolved, shown⟩ := resolve_endorsements (parsedIds_endorsements wellFormed nowMs)
  have resolve := (mapM_resolve_iff (head.endorsements nowMs)).mp ⟨endorsements, resolved⟩
  have persisted : (persistEndorsements Db.empty (head.endorsements nowMs)).result = .ok () :=
    (persistEndorsements_eq head nowMs _ Db.empty).2.mpr (clean_endorsements resolve Db.empty)
  obtain ⟨rows, made⟩ := exists_newRow wellFormed archived nowMs
  have empty : ∀ id op, Db.empty.readOp id = some op → op = rows id := fun id op found => by cases found
  obtain ⟨⟨ids, taken⟩, after⟩ := readOp_ingested made empty
  have listed : ids = fb.operations.filterMap opIdOf := returned_eq taken
  have takes : takenBlock Db.empty fb nowMs = some ⟨head, endorsements, ids⟩ := by
    rw [takenBlock, wellFormed.read]
    dsimp only
    rw [persisted, taken, resolved]
  refine ⟨endorsements, rows, shown, ?_, fun filled member id filed =>
    ⟨made filled member id filed, ?_⟩⟩
  · have stored := readBlock_step Db.empty ⟨.block fb, nowMs⟩ head.id
    have move : blockMove Db.empty ⟨.block fb, nowMs⟩ =
        { seen := some (seenRow Db.empty ⟨head, endorsements, ids⟩ nowMs) } := by
      show ({ seen := (takenBlock Db.empty fb nowMs).map _ } : BlockMove) = _
      rw [takes]
      rfl
    have own : (seenRow Db.empty ⟨head, endorsements, ids⟩ nowMs).id = head.id :=
      RowBlocks.id_seenRow _ _ _
    rw [move] at stored
    show (step Db.empty ⟨.block fb, nowMs⟩).readBlock head.id = _
    rw [stored, ← listed]
    simp [BlockMove.rowOf, own, Option.filter_some]
  · have entered := body_step (.inl rfl) Db.empty ⟨.block fb, nowMs⟩ (f := .ops)
    rw [(body_of_taken rfl takes).1] at entered
    have rows_ := sameReadOp (entered.trans (ops_enter nowMs (.node head fb.operations) Db.empty)) id
    have clean := (ingestOperations_eq head nowMs fb.operations Db.empty).2.mp ⟨ids, taken⟩
    have present := readOp_attempts clean id
    rw [← (ingestOperations_eq head nowMs fb.operations Db.empty).1] at present
    show (step Db.empty ⟨.block fb, nowMs⟩).readOp id = _
    rw [rows_]
    show (ingestOperations Db.empty head nowMs fb.operations).db.readOp id = _
    cases found : (ingestOperations Db.empty head nowMs fb.operations).db.readOp id with
    | none => exact absurd (List.mem_filterMap.mpr ⟨filled, member, filed⟩) (present.mp found).2
    | some op => rw [after id op found]

omit [Wrappers] [DenunciationDigest]

/-! ### What the archive decodes to -/

/-- Endorsements decoded at another time. -/
theorem endorsements_restamp (head : BlockHead) (archiveMs nowMs : Int) :
    (head.endorsements archiveMs).map (fun e => { e with firstSeenTsMs := nowMs }) =
      head.endorsements nowMs := by
  unfold BlockHead.endorsements
  rw [List.map_filterMap]
  congr 1
  funext se
  unfold NodeDecode.decodeEndorsement
  cases se.content with
  | none => rfl
  | some content =>
      cases slot : content.slot with
      | none => simp [slot]
      | some s =>
          cases (Address.parse se.contentCreatorAddress).toOption <;> simp [slot]

theorem parse_texts (ids : List OperationId) :
    (ids.map (·.text)).filterMap (fun s => (OperationId.parse s).toOption) = ids := by
  induction ids with
  | nil => rfl
  | cons id rest ih =>
      have parsed : OperationId.parse id.text = .ok id := FamilyId.parse_text id
      rw [List.map_cons, List.filterMap_cons_some (b := id) (by rw [parsed]; rfl), ih]

variable [Wrappers]

theorem decodeBlockRow_archived (wellFormed : WellFormed fb head)
    (archived : Archived fb head block ops) (archiveMs : Int) :
    decodeBlockRow block archiveMs = .ok
      ({ id := head.id
         slot := head.slot
         creator := head.creator
         parents := head.parents
         operationIds := fb.operations.filterMap opIdOf
         endorsements := head.endorsements archiveMs
         endorsementIds := (head.endorsements archiveMs).map (·.id)
         denunciations := head.denunciations
         currentVersion := head.content.currentVersion
         announcedVersion := head.content.announcedVersion
         operationsHash := head.content.operationsHash
         signature := head.header.signature
         contentCreatorPubKey := head.header.contentCreatorPubKey
         serializedSize := head.header.serializedSize
         rawSignedHeaderB64 := Base64.encode head.header.encoded
         status := .final
         firstSeenTsMs := archiveMs },
        (fb.operations.filterMap opIdOf).map (·.text), head.endorsements archiveMs) := by
  have of := headOf_decodeHead wellFormed.read
  have endorsements : (head.content.endorsements.filterMap fun se =>
      decodeSignedEndorsement se head.id head.slot archiveMs) = head.endorsements archiveMs := by
    unfold BlockHead.endorsements
    congr 1
    funext se
    exact decodeSignedEndorsement_eq se _ _ _
  have denunciations : head.content.denunciations.map Repair.LegacyDecode.decodeDenunciation =
      head.denunciations := by
    unfold BlockHead.denunciations
    congr 1
    funext d
    exact decodeDenunciation_eq d
  unfold decodeBlockRow
  rw [archived.raw, archived.hash, archived.slot, archived.creator]
  simp only [Except.mapError, bind, Except.bind, field, of.content, of.id, of.creator, endorsements,
    denunciations, parse_texts]
  rfl

theorem decodeOpRow_archived {filled : FilledOperation} (wellFormed : WellFormed fb head)
    (archived : Archived fb head block ops) (member : filled ∈ fb.operations) {id : OperationId}
    (filed : opIdOf filled = some id) {nowMs : Int} {row : StoredOperation}
    (new : NewRow head nowMs filled id row) (archiveMs : Int) :
    ∃ decoded, decodeOpRow (ops id) archiveMs = .ok decoded ∧
      SameOperation decoded.stored (displayOperation row) := by
  obtain ⟨signedOp, fresh, carried, accepted, rfl⟩ := new
  have named : filledOpId filled signedOp = some id := by rwa [opIdOf, carried, Option.bind_some] at filed
  obtain ⟨hash, raw, blockHash, slot⟩ := archived.operation filled member signedOp id carried named
  have of := headOf_decodeHead wellFormed.read
  have parsed : OperationId.parse id.text = .ok id := FamilyId.parse_text id
  unfold freshOperation at accepted
  cases content : signedOp.content with
  | none => rw [content] at accepted; cases accepted
  | some c =>
      cases creator : Address.parse signedOp.contentCreatorAddress with
      | error e => simp [content, creator] at accepted
      | ok a =>
          simp only [content, creator] at accepted
          unfold decodeOpRow
          rw [raw, hash, blockHash, slot]
          simp only [Except.mapError, bind, Except.bind, field, content, parsed, of.id, creator,
            classifyOpType_eq]
          generalize classifyOp c.op = kinds at accepted ⊢
          obtain ⟨kind, target, details⟩ := kinds
          obtain rfl := Except.ok.inj accepted
          refine ⟨_, rfl, ?_⟩
          simp [SameOperation, displayOperation, recordInclusion, b64FromRaw_eq]

variable [DenunciationDigest]

/-- **The archive's decoders mirror ingest**: decoded from the archive, a block and its operations are the
rows the block handler writes for the same message into an empty store, but for the statuses and the
clocks. -/
theorem legacy_decoders_mirror_ingest (wellFormed : WellFormed fb head)
    (archived : Archived fb head block ops) (nowMs archiveMs : Int) :
    (∃ decoded listed live, decodeBlockRow block archiveMs = .ok (decoded, listed, decoded.endorsements) ∧
        (handleBlock Db.empty fb nowMs).db.readBlock head.id = some live ∧
        SameBlock decoded (displayBlock live)) ∧
      ∀ filled ∈ fb.operations, ∀ id, opIdOf filled = some id →
        ∃ decoded live, decodeOpRow (ops id) archiveMs = .ok decoded ∧
          (handleBlock Db.empty fb nowMs).db.readOp id = some live ∧
          SameOperation decoded.stored (displayOperation live) := by
  obtain ⟨endorsements, rows, shown, stored, operations⟩ := handleBlock_empty wellFormed archived nowMs
  refine ⟨⟨_, _, _, decodeBlockRow_archived wellFormed archived archiveMs, stored, ?_⟩, ?_⟩
  · have restamped := endorsements_restamp head archiveMs nowMs
    have ids : (head.endorsements archiveMs).map (·.id) = (head.endorsements nowMs).map (·.id) := by
      rw [← restamped, List.map_map]
      rfl
    have row : seenRow Db.empty ⟨head, endorsements, fb.operations.filterMap opIdOf⟩ nowMs =
        { id := head.id
          slot := head.slot
          creator := head.creator
          parents := head.parents
          operationIds := fb.operations.filterMap opIdOf
          endorsements := endorsements
          endorsementIds := (head.endorsements nowMs).map (·.id)
          denunciations := head.denunciations
          currentVersion := head.content.currentVersion
          announcedVersion := head.content.announcedVersion
          operationsHash := head.content.operationsHash
          signature := head.header.signature
          contentCreatorPubKey := head.header.contentCreatorPubKey
          serializedSize := head.header.serializedSize
          rawSignedHeader := head.header.encoded
          status := initialBlockStatus (rowAt Db.empty head.slot nowMs) head.id
          firstSeenTsMs := nowMs } := rfl
    rw [row]
    simp only [SameBlock, displayBlock, restamped, shown, ids, b64FromRaw_eq]
  · intro filled member id filed
    obtain ⟨new, found⟩ := operations filled member id filed
    obtain ⟨decoded, taken, same⟩ := decodeOpRow_archived wellFormed archived member filed new archiveMs
    exact ⟨decoded, rows id, taken, found, same⟩

end Blocks

/-! ## A block with one operation -/

section OneOperation

attribute [local instance] Bs58Check.doubleSha Chain.noDenunciations

def oneOperation : FilledBlock where
  header := some signedHeader
  operations := [filledOf transferId (some {})]

/-- An archive that holds it. -/
@[reducible] def archiveOfOne : Wrappers where
  block _ := .ok ⟨some ⟨some signedHeader, [transferId.text]⟩⟩
  operation _ := .ok ⟨some (signedOf (some {}))⟩

attribute [local instance] archiveOfOne

def archivedBlockRow : BlockRow where
  hash := (Chain.blockNo 1).text
  raw := []
  slot := ⟨10, 0⟩
  creatorAddress := someAddress.text

def archivedOpRow : OpRow where
  hash := transferId.text
  raw := []
  status := 1
  blockHash := (Chain.blockNo 1).text
  slot := ⟨10, 0⟩

theorem opIdOf_filledOf : opIdOf (filledOf transferId (some {})) = some transferId := by
  have carried : (filledOf transferId (some {})).operation = some (signedOf (some {})) := rfl
  rw [opIdOf, carried, Option.bind_some, filledOpId_filledOf]

theorem wellFormed_oneOperation : WellFormed oneOperation blockHead where
  read := by
    have slot : headerContent.slot = some { period := 10, thread := 0 } := rfl
    exact decodeHead_named rfl rfl secureHash_signedHeader slot author_signedHeader
  endorsements se listed := by cases listed
  operations filled member := by
    obtain rfl := List.mem_singleton.mp member
    exact ⟨_, transferId, {}, someAddress, rfl, filledOpId_filledOf _ _, rfl, parse_someAddress⟩

theorem archived_oneOperation :
    Archived oneOperation blockHead archivedBlockRow (fun _ => archivedOpRow) where
  hash := rfl
  raw := by
    have listed : oneOperation.operations.filterMap opIdOf = [transferId] := by
      rw [oneOperation, List.filterMap_cons_some opIdOf_filledOf]
      rfl
    rw [listed]
    rfl
  slot := rfl
  creator := rfl
  operation filled member signedOp id carried named := by
    obtain rfl := List.mem_singleton.mp member
    obtain rfl := Option.some.inj carried
    obtain rfl : transferId = id := Option.some.inj ((filledOpId_filledOf _ _).symm.trans named)
    exact ⟨rfl, rfl, rfl, rfl⟩

/-- The block and its operation, archived as executed. -/
theorem legacy_decoders_mirror_ingest_one :
    (∃ decoded listed live, decodeBlockRow archivedBlockRow 5 =
          .ok (decoded, listed, decoded.endorsements) ∧
        (handleBlock Db.empty oneOperation 3).db.readBlock blockHead.id = some live ∧
        SameBlock decoded (displayBlock live)) ∧
      ∀ filled ∈ oneOperation.operations, ∀ id, opIdOf filled = some id →
        ∃ decoded live, decodeOpRow archivedOpRow 5 = .ok decoded ∧
          (handleBlock Db.empty oneOperation 3).db.readOp id = some live ∧
          SameOperation decoded.stored (displayOperation live) :=
  legacy_decoders_mirror_ingest wellFormed_oneOperation archived_oneOperation 3 5

end OneOperation

end MassaIndexer.Laws.LegacyDecoders
