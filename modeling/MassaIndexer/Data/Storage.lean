/-
# Data.Storage -- rows as the store and the peers carry them

The functions of `codec.rs` as callers see them: a row goes to the bytes of one message and back.
Rows here are `model.rs`'s own, with endorsement ids in display form, a denunciation hash as
hexadecimal text and signed bodies as base64 text; encoding parses those texts and can fail, decoding
prints them again. `Data.Codec` and `Data.RowCodec` map the parsed rows to messages field by field.

`ProstMessage` is the protobuf library: what it writes it reads back. The peer codec of a block is a
second copy of the storage codec (`blockToPeer`, `blockFromPeer`); the other peer codecs go through
the storage bytes.
-/
import MassaIndexer.Theory.ByteText
import MassaIndexer.Data.RowCodec

namespace MassaIndexer.Data.Storage

open MassaIndexer.Theory.KeyedTable (Bytes)
open MassaIndexer.Theory.ByteText
open MassaIndexer.Data.Ids MassaIndexer.Data.Model MassaIndexer.Data.Proto
open MassaIndexer.Data.Codec hiding encodeSlotState decodeSlotState
open MassaIndexer.Data.RowCodec

set_option autoImplicit false

/-- `prost::Message`: `encode_to_vec` and `decode` of one message type. -/
class ProstMessage (M : Type) where
  encodeToVec : M → Bytes
  decode : Bytes → Except CodecError M
  decode_encodeToVec : ∀ m, decode (encodeToVec m) = .ok m

attribute [simp] ProstMessage.decode_encodeToVec

open ProstMessage (encodeToVec)

@[simp] theorem ok_bind {α β : Type} (x : α) (f : α → Except CodecError β) :
    (Except.ok x >>= f) = f x := rfl

/-- A step that only renames what it produces commutes with a list of steps. -/
theorem mapM_map {α β γ : Type} (step : α → Except CodecError β) (rename : β → γ) (xs : List α) :
    xs.mapM (fun x => (step x).map rename) = (xs.mapM step).map (List.map rename) := by
  induction xs with
  | nil => rfl
  | cons x xs ih =>
      rw [List.mapM_cons, List.mapM_cons, ih]
      cases step x with
      | error failure => rfl
      | ok y => cases xs.mapM step <;> rfl

/-! ## Texts inside rows -/

/-- A signed body: empty text is an empty body. The library's own wording of a failure is left out. -/
def rawFromB64 (field text : String) : Except CodecError Bytes :=
  if text.isEmpty then .ok []
  else (Base64.decode text).elim (.error (field ++ " b64")) Except.ok

def b64FromRaw (raw : Bytes) : String := if raw.isEmpty then "" else Base64.encode raw

theorem b64FromRaw_eq (raw : Bytes) : b64FromRaw raw = Base64.encode raw := by
  cases raw with
  | nil => rfl
  | cons _ _ => rfl

theorem rawFromB64_encode (field : String) (raw : Bytes) :
    rawFromB64 field (Base64.encode raw) = .ok raw := by
  unfold rawFromB64
  split
  · next blank =>
      have empty : Base64.encode raw = Base64.encode [] := by
        rw [String.isEmpty_iff.mp blank]
        rfl
      have same := congrArg Base64.decode empty
      rw [Base64.decode_encode, Base64.decode_encode] at same
      rw [Option.some.inj same]
  · rw [Base64.decode_encode]
    rfl

def hashFromHex (text : String) : Except CodecError Bytes :=
  (Hex.decode text).elim (.error "hex hash") Except.ok

theorem hashFromHex_encode (raw : Bytes) : hashFromHex (Hex.encode raw) = .ok raw := by
  rw [hashFromHex, Hex.decode_encode]
  rfl

/-- Text that the base64 encoder writes. -/
def IsBase64 (text : String) : Prop := ∃ raw, text = Base64.encode raw

/-- Text that the hexadecimal encoder writes. -/
def IsHex (text : String) : Prop := ∃ raw, text = Hex.encode raw

/-! ## Slot rows and the meta row -/

def encodeSlotState [ProstMessage SlotStatePb] (s : SlotState) : Bytes :=
  encodeToVec (Codec.encodeSlotState s)

def decodeSlotState [ProstMessage SlotStatePb] (bytes : Bytes) : Except CodecError SlotState := do
  Codec.decodeSlotState (← ProstMessage.decode bytes)

theorem decodeSlotState_encode [ProstMessage SlotStatePb] (s : SlotState) :
    decodeSlotState (encodeSlotState s) = .ok (readBackSlotState s) := by
  simp only [decodeSlotState, encodeSlotState, ProstMessage.decode_encodeToVec, ok_bind,
    decodeSlotState_encodeSlotState]

structure MetaRow where
  network : String
  genesisTimestampMs : Int
  t0Ms : Int
  threadCount : UInt8
  lastFinalSlot : Option Slot
  lastCandidateSlot : Option Slot
  buildVersion : String
  createdAtMs : Int
  updatedAtMs : Int

structure MetaRowPb where
  network : String := ""
  genesisTimestampMs : Int := 0
  t0Ms : Int := 0
  threadCount : UInt32 := 0
  lastFinalSlot : Option SlotPb := none
  hasLastFinalSlot : Bool := false
  lastCandidateSlot : Option SlotPb := none
  hasLastCandidateSlot : Bool := false
  buildVersion : String := ""
  createdAtMs : Int := 0
  updatedAtMs : Int := 0

def encodeMetaRow [ProstMessage MetaRowPb] (m : MetaRow) : Bytes :=
  encodeToVec
    { network := m.network
      genesisTimestampMs := m.genesisTimestampMs
      t0Ms := m.t0Ms
      threadCount := m.threadCount.toUInt32
      lastFinalSlot := m.lastFinalSlot.map slotToPb
      hasLastFinalSlot := m.lastFinalSlot.isSome
      lastCandidateSlot := m.lastCandidateSlot.map slotToPb
      hasLastCandidateSlot := m.lastCandidateSlot.isSome
      buildVersion := m.buildVersion
      createdAtMs := m.createdAtMs
      updatedAtMs := m.updatedAtMs : MetaRowPb }

/-- `u8::try_from` on the thread count, under its own message. -/
def threadCountFromPb (count : UInt32) : Except CodecError UInt8 :=
  (threadFromPb count).mapError fun _ => "thread_count > 255"

@[simp] theorem threadCountFromPb_toUInt32 (count : UInt8) :
    threadCountFromPb count.toUInt32 = .ok count := by
  simp [threadCountFromPb, Except.mapError]

def decodeMetaRow [ProstMessage MetaRowPb] (bytes : Bytes) : Except CodecError MetaRow := do
  let p : MetaRowPb ← ProstMessage.decode bytes
  let threadCount ← threadCountFromPb p.threadCount
  let lastFinalSlot ← decodeIf p.hasLastFinalSlot slotFromOpt p.lastFinalSlot
  let lastCandidateSlot ← decodeIf p.hasLastCandidateSlot slotFromOpt p.lastCandidateSlot
  return {
    network := p.network
    genesisTimestampMs := p.genesisTimestampMs
    t0Ms := p.t0Ms
    threadCount := threadCount
    lastFinalSlot := lastFinalSlot
    lastCandidateSlot := lastCandidateSlot
    buildVersion := p.buildVersion
    createdAtMs := p.createdAtMs
    updatedAtMs := p.updatedAtMs }

theorem decodeMetaRow_encode [ProstMessage MetaRowPb] (m : MetaRow) :
    decodeMetaRow (encodeMetaRow m) = .ok m := by
  simp only [decodeMetaRow, encodeMetaRow, ProstMessage.decode_encodeToVec, ok_bind,
    threadCountFromPb_toUInt32, decodeIf_slot]
  rfl

/-! ## Endorsements -/

section Endorsements
variable [Bs58Check]

/-- The display form of an endorsement row: ids printed. -/
def displayEndorsement (e : StoredEndorsement) : SeenEndorsement where
  id := e.id.text
  slot := e.slot
  index := e.index
  endorsedBlockId := e.endorsedBlockId.text
  contentCreatorPubKey := e.contentCreatorPubKey
  contentCreatorAddress := e.contentCreatorAddress
  signature := e.signature
  serializedSize := e.serializedSize
  includedBlockId := e.includedBlockId.text
  includedSlot := e.includedSlot
  firstSeenTsMs := e.firstSeenTsMs

/-- `endorsement_to_pb`: parse the ids, then map the fields. -/
def endorsementRowToPb (e : SeenEndorsement) : Except CodecError StoredEndorsementPb :=
  (resolveEndorsement e).map endorsementToPb

/-- `endorsement_from_pb`: map the fields, print the ids. -/
def endorsementRowFromPb (p : StoredEndorsementPb) : Except CodecError SeenEndorsement :=
  (endorsementFromPb p).map displayEndorsement

/-- The three ids of the row are texts that the parsers accept. -/
structure ParsedIds (e : SeenEndorsement) : Prop where
  id : ∃ id, EndorsementId.parse e.id = .ok id
  endorsed : ∃ block, BlockId.parse e.endorsedBlockId = .ok block
  included : ∃ block, BlockId.parse e.includedBlockId = .ok block

theorem resolveEndorsement_of_parsed {e : SeenEndorsement} (parsed : ParsedIds e) :
    ∃ row, resolveEndorsement e = .ok row ∧ displayEndorsement row = e := by
  obtain ⟨id, idParsed⟩ := parsed.id
  obtain ⟨endorsed, endorsedParsed⟩ := parsed.endorsed
  obtain ⟨included, includedParsed⟩ := parsed.included
  refine ⟨_, by simp only [resolveEndorsement, idParsed, endorsedParsed, includedParsed]; rfl, ?_⟩
  simp only [displayEndorsement, FamilyId.text_of_parse idParsed,
    FamilyId.text_of_parse endorsedParsed, FamilyId.text_of_parse includedParsed]

theorem endorsementRow_through_pb {e : SeenEndorsement} (parsed : ParsedIds e) :
    ∃ p, endorsementRowToPb e = .ok p ∧ endorsementRowFromPb p = .ok e := by
  obtain ⟨row, resolved, shown⟩ := resolveEndorsement_of_parsed parsed
  refine ⟨endorsementToPb row, by rw [endorsementRowToPb, resolved]; rfl, ?_⟩
  rw [endorsementRowFromPb, endorsementFromPb_toPb, Except.map, shown]

variable [ProstMessage StoredEndorsementPb]

def encodeEndorsement (e : SeenEndorsement) : Except CodecError Bytes :=
  (endorsementRowToPb e).map encodeToVec

def decodeEndorsement (bytes : Bytes) : Except CodecError SeenEndorsement := do
  endorsementRowFromPb (← ProstMessage.decode bytes)

theorem decodeEndorsement_encode {e : SeenEndorsement} (parsed : ParsedIds e) :
    (encodeEndorsement e >>= decodeEndorsement) = .ok e := by
  obtain ⟨p, written, read⟩ := endorsementRow_through_pb parsed
  rw [encodeEndorsement, written, Except.map, ok_bind, decodeEndorsement,
    ProstMessage.decode_encodeToVec, ok_bind, read]

def endorsementToPeer (e : SeenEndorsement) : Except CodecError StoredEndorsementPb :=
  endorsementRowToPb e

def endorsementFromPeer (p : StoredEndorsementPb) : Except CodecError SeenEndorsement :=
  endorsementRowFromPb p

theorem endorsement_peer_eq (e : SeenEndorsement) :
    (endorsementToPeer e >>= endorsementFromPeer) = (encodeEndorsement e >>= decodeEndorsement) := by
  rw [endorsementToPeer, encodeEndorsement]
  cases endorsementRowToPb e with
  | error failure => rfl
  | ok p => simp [Except.map, decodeEndorsement, endorsementFromPeer]

end Endorsements

/-! ## Denunciation entries -/

/-- `StoredDenunciationEntry` with its hash as text. -/
structure DenunciationRow where
  hash : String
  slot : Slot
  kind : String
  denouncedAddr : Option Address
  denunciation : StoredDenunciation
  includedBlockId : Option BlockId
  includedSlot : Option Slot
  firstSeenTsMs : Int
deriving DecidableEq

structure StoredDenunciationEntryPb where
  hash : Bytes := []
  slot : Option SlotPb := none
  kind : String := ""
  denouncedAddrKey : Bytes := []
  hasDenouncedAddr : Bool := false
  denunciation : Option StoredDenunciationPb := none
  includedBlockIdKey : Bytes := []
  hasIncludedBlockId : Bool := false
  includedSlot : Option SlotPb := none
  hasIncludedSlot : Bool := false
  firstSeenTsMs : Int := 0

section Denunciations
variable [ProstMessage StoredDenunciationEntryPb]

def encodeDenunciationEntry (d : DenunciationRow) : Except CodecError Bytes := do
  let hash ← hashFromHex d.hash
  return encodeToVec
    { hash := hash
      slot := some (slotToPb d.slot)
      kind := d.kind
      denouncedAddrKey := (d.denouncedAddr.map Address.bytes).getD []
      hasDenouncedAddr := d.denouncedAddr.isSome
      denunciation := some (denunciationToPb d.denunciation)
      includedBlockIdKey := (d.includedBlockId.map FamilyId.bytes).getD []
      hasIncludedBlockId := d.includedBlockId.isSome
      includedSlot := d.includedSlot.map slotToPb
      hasIncludedSlot := d.includedSlot.isSome
      firstSeenTsMs := d.firstSeenTsMs : StoredDenunciationEntryPb }

def denunciationFromOpt : Option StoredDenunciationPb → Except CodecError StoredDenunciation
  | none => .error "missing denunciation payload"
  | some p => denunciationFromPb p

def decodeDenunciationEntry (bytes : Bytes) : Except CodecError DenunciationRow := do
  let p : StoredDenunciationEntryPb ← ProstMessage.decode bytes
  let slot ← slotFromOpt p.slot
  let denouncedAddr ← decodeIf p.hasDenouncedAddr addrFromKey p.denouncedAddrKey
  let denunciation ← denunciationFromOpt p.denunciation
  let includedBlockId ← decodeIf p.hasIncludedBlockId blockIdFromKey p.includedBlockIdKey
  let includedSlot ← decodeIf p.hasIncludedSlot slotFromOpt p.includedSlot
  return {
    hash := Hex.encode p.hash
    slot := slot
    kind := p.kind
    denouncedAddr := denouncedAddr
    denunciation := denunciation
    includedBlockId := includedBlockId
    includedSlot := includedSlot
    firstSeenTsMs := p.firstSeenTsMs }

/-- Whatever hexadecimal spelling was stored, the encoder's own is read back. -/
theorem decodeDenunciationEntry_encode_of_hash {d : DenunciationRow} {hash : Bytes}
    (read : hashFromHex d.hash = .ok hash) :
    (encodeDenunciationEntry d >>= decodeDenunciationEntry) =
      .ok { d with hash := Hex.encode hash } := by
  simp only [encodeDenunciationEntry, read, ok_bind, pure_bind, decodeDenunciationEntry,
    ProstMessage.decode_encodeToVec, slotFromOpt_slotToPb, decodeIf_isSome addrFromKey_bytes,
    denunciationFromOpt, denunciationFromPb_toPb, decodeIf_isSome blockIdFromKey_bytes, decodeIf_slot]
  rfl

theorem decodeDenunciationEntry_encode {d : DenunciationRow} (hex : IsHex d.hash) :
    (encodeDenunciationEntry d >>= decodeDenunciationEntry) = .ok d := by
  obtain ⟨hash, spelled⟩ := hex
  have read : hashFromHex d.hash = .ok hash := by rw [spelled, hashFromHex_encode]
  rw [decodeDenunciationEntry_encode_of_hash read, ← spelled]

end Denunciations

/-! ## Blocks -/

/-- `StoredBlock` with its endorsements in display form and its signed header as text. -/
structure BlockRow where
  id : BlockId
  slot : Slot
  creator : Address
  parents : List BlockId
  operationIds : List OperationId
  endorsements : List SeenEndorsement
  endorsementIds : List String
  denunciations : List StoredDenunciation
  currentVersion : UInt32
  announcedVersion : Option UInt32
  operationsHash : String
  signature : String
  contentCreatorPubKey : String
  serializedSize : UInt64
  rawSignedHeaderB64 : String
  status : BlockStatus
  firstSeenTsMs : Int

section Blocks
variable [Bs58Check]

def encodeBlock [ProstMessage StoredBlockPb] (b : BlockRow) : Except CodecError Bytes := do
  let endorsements ← b.endorsements.mapM endorsementRowToPb
  let rawSignedHeader ← rawFromB64 "raw_signed_header" b.rawSignedHeaderB64
  return encodeToVec
    { idKey := b.id.bytes
      slot := some (slotToPb b.slot)
      creatorKey := b.creator.bytes
      parentKeys := b.parents.map FamilyId.bytes
      operationIdKeys := b.operationIds.map FamilyId.bytes
      endorsements := endorsements
      endorsementIds := b.endorsementIds
      denunciations := b.denunciations.map denunciationToPb
      currentVersion := b.currentVersion
      announcedVersion := b.announcedVersion.getD 0
      hasAnnouncedVersion := b.announcedVersion.isSome
      operationsHash := b.operationsHash
      signature := b.signature
      contentCreatorPubKey := b.contentCreatorPubKey
      serializedSize := b.serializedSize
      rawSignedHeader := rawSignedHeader
      status := blockStatusToPb b.status
      firstSeenTsMs := b.firstSeenTsMs : StoredBlockPb }

def decodeBlock [ProstMessage StoredBlockPb] (bytes : Bytes) : Except CodecError BlockRow := do
  let p : StoredBlockPb ← ProstMessage.decode bytes
  let id ← blockIdFromKey p.idKey
  let slot ← slotFromOpt p.slot
  let creator ← addrFromKey p.creatorKey
  let parents ← p.parentKeys.mapM blockIdFromKey
  let operationIds ← p.operationIdKeys.mapM opIdFromKey
  let endorsements ← p.endorsements.mapM endorsementRowFromPb
  let denunciations ← p.denunciations.mapM denunciationFromPb
  return {
    id := id
    slot := slot
    creator := creator
    parents := parents
    operationIds := operationIds
    endorsements := endorsements
    endorsementIds := p.endorsementIds
    denunciations := denunciations
    currentVersion := p.currentVersion
    announcedVersion := thenSome p.hasAnnouncedVersion p.announcedVersion
    operationsHash := p.operationsHash
    signature := p.signature
    contentCreatorPubKey := p.contentCreatorPubKey
    serializedSize := p.serializedSize
    rawSignedHeaderB64 := b64FromRaw p.rawSignedHeader
    status := blockStatusFromPb p.status
    firstSeenTsMs := p.firstSeenTsMs }

/-- The block with its texts parsed: the part of `block_to_peer_pb` that can fail. -/
def BlockRow.resolve (b : BlockRow) : Except CodecError StoredBlock := do
  let endorsements ← b.endorsements.mapM resolveEndorsement
  let rawSignedHeader ← rawFromB64 "raw_signed_header" b.rawSignedHeaderB64
  return {
    id := b.id
    slot := b.slot
    creator := b.creator
    parents := b.parents
    operationIds := b.operationIds
    endorsements := endorsements
    endorsementIds := b.endorsementIds
    denunciations := b.denunciations
    currentVersion := b.currentVersion
    announcedVersion := b.announcedVersion
    operationsHash := b.operationsHash
    signature := b.signature
    contentCreatorPubKey := b.contentCreatorPubKey
    serializedSize := b.serializedSize
    rawSignedHeader := rawSignedHeader
    status := b.status
    firstSeenTsMs := b.firstSeenTsMs }

/-- The block with its texts printed again. -/
def displayBlock (b : StoredBlock) : BlockRow where
  id := b.id
  slot := b.slot
  creator := b.creator
  parents := b.parents
  operationIds := b.operationIds
  endorsements := b.endorsements.map displayEndorsement
  endorsementIds := b.endorsementIds
  denunciations := b.denunciations
  currentVersion := b.currentVersion
  announcedVersion := b.announcedVersion
  operationsHash := b.operationsHash
  signature := b.signature
  contentCreatorPubKey := b.contentCreatorPubKey
  serializedSize := b.serializedSize
  rawSignedHeaderB64 := b64FromRaw b.rawSignedHeader
  status := b.status
  firstSeenTsMs := b.firstSeenTsMs

/-- `block_to_peer_pb`. -/
def blockToPeer (b : BlockRow) : Except CodecError StoredBlockPb := b.resolve.map blockToPeerPb

/-- `block_from_peer_pb`. -/
def blockFromPeer (p : StoredBlockPb) : Except CodecError BlockRow :=
  (blockFromPeerPb p).map displayBlock

/-- The two copies of the block encoder write the same message. -/
theorem encodeBlock_eq [ProstMessage StoredBlockPb] (b : BlockRow) :
    encodeBlock b = (blockToPeer b).map encodeToVec := by
  have endorsements : b.endorsements.mapM endorsementRowToPb =
      (b.endorsements.mapM resolveEndorsement).map (List.map endorsementToPb) :=
    mapM_map resolveEndorsement endorsementToPb b.endorsements
  rw [encodeBlock, blockToPeer, BlockRow.resolve, endorsements]
  cases b.endorsements.mapM resolveEndorsement with
  | error failure => rfl
  | ok rows => cases rawFromB64 "raw_signed_header" b.rawSignedHeaderB64 <;> rfl

/-- The two copies of the block decoder read the same row. -/
theorem decodeBlock_eq [ProstMessage StoredBlockPb] (bytes : Bytes) :
    decodeBlock bytes = (ProstMessage.decode bytes >>= blockFromPeer) := by
  unfold decodeBlock
  cases (ProstMessage.decode bytes : Except CodecError StoredBlockPb) with
  | error failure => rfl
  | ok p =>
      have endorsements : p.endorsements.mapM endorsementRowFromPb =
          (p.endorsements.mapM endorsementFromPb).map (List.map displayEndorsement) :=
        mapM_map endorsementFromPb displayEndorsement p.endorsements
      simp only [ok_bind, endorsements, blockFromPeer, blockFromPeerPb]
      cases blockIdFromKey p.idKey <;> [rfl; skip]
      cases slotFromOpt p.slot <;> [rfl; skip]
      cases addrFromKey p.creatorKey <;> [rfl; skip]
      cases p.parentKeys.mapM blockIdFromKey <;> [rfl; skip]
      cases p.operationIdKeys.mapM opIdFromKey <;> [rfl; skip]
      cases p.endorsements.mapM endorsementFromPb <;> [rfl; skip]
      cases p.denunciations.mapM denunciationFromPb <;> rfl

theorem block_peer_eq [ProstMessage StoredBlockPb] (b : BlockRow) :
    (blockToPeer b >>= blockFromPeer) = (encodeBlock b >>= decodeBlock) := by
  rw [encodeBlock_eq]
  cases blockToPeer b with
  | error failure => rfl
  | ok p => simp [Except.map, decodeBlock_eq]

/-- A block whose texts the parsers and the base64 encoder produced. -/
structure WrittenBlock where
  row : BlockRow
  endorsements : ∀ e ∈ row.endorsements, ParsedIds e
  header : IsBase64 row.rawSignedHeaderB64

theorem resolve_endorsements {es : List SeenEndorsement} (parsed : ∀ e ∈ es, ParsedIds e) :
    ∃ rows, es.mapM resolveEndorsement = .ok rows ∧ rows.map displayEndorsement = es := by
  induction es with
  | nil => exact ⟨[], rfl, rfl⟩
  | cons e es ih =>
      obtain ⟨row, resolved, shown⟩ := resolveEndorsement_of_parsed (parsed e (by simp))
      obtain ⟨rows, restResolved, restShown⟩ := ih fun e' found => parsed e' (by simp [found])
      refine ⟨row :: rows, by rw [List.mapM_cons, resolved, restResolved]; rfl, ?_⟩
      rw [List.map_cons, shown, restShown]

theorem decodeBlock_encode [ProstMessage StoredBlockPb] (b : WrittenBlock) :
    (encodeBlock b.row >>= decodeBlock) = .ok b.row := by
  obtain ⟨rows, resolved, shown⟩ := resolve_endorsements b.endorsements
  obtain ⟨raw, spelled⟩ := b.header
  have header : rawFromB64 "raw_signed_header" b.row.rawSignedHeaderB64 = .ok raw := by
    rw [spelled, rawFromB64_encode]
  rw [← block_peer_eq, blockToPeer, BlockRow.resolve, resolved, ok_bind, header, ok_bind]
  simp only [pure, Except.pure, Except.map, ok_bind, blockFromPeer, blockFromPeerPb_toPeerPb,
    displayBlock, shown, b64FromRaw_eq, ← spelled]

end Blocks

/-! ## Operations -/

/-- `StoredOperation` with its signed body as text. -/
structure OperationRow where
  id : OperationId
  creator : Address
  target : Option Address
  kind : OperationKind
  expirePeriod : UInt64
  feeNmas : UInt64
  thread : UInt8
  inclusions : List OperationInclusion
  candidateExecStatus : Option ExecStatus
  finalExecStatus : Option ExecStatus
  details : OperationDetails
  signature : String
  contentCreatorPubKey : String
  serializedSize : UInt64
  rawSignedOpB64 : String
  firstSeenTsMs : Int

/-- The row with its body decoded. -/
def OperationRow.withBody (o : OperationRow) (rawSignedOp : Bytes) : StoredOperation where
  id := o.id
  creator := o.creator
  target := o.target
  kind := o.kind
  expirePeriod := o.expirePeriod
  feeNmas := o.feeNmas
  thread := o.thread
  inclusions := o.inclusions
  candidateExecStatus := o.candidateExecStatus
  finalExecStatus := o.finalExecStatus
  details := o.details
  signature := o.signature
  contentCreatorPubKey := o.contentCreatorPubKey
  serializedSize := o.serializedSize
  rawSignedOp := rawSignedOp
  firstSeenTsMs := o.firstSeenTsMs

def displayOperation (o : StoredOperation) : OperationRow where
  id := o.id
  creator := o.creator
  target := o.target
  kind := o.kind
  expirePeriod := o.expirePeriod
  feeNmas := o.feeNmas
  thread := o.thread
  inclusions := o.inclusions
  candidateExecStatus := o.candidateExecStatus
  finalExecStatus := o.finalExecStatus
  details := o.details
  signature := o.signature
  contentCreatorPubKey := o.contentCreatorPubKey
  serializedSize := o.serializedSize
  rawSignedOpB64 := b64FromRaw o.rawSignedOp
  firstSeenTsMs := o.firstSeenTsMs

/-- An operation whose body the base64 encoder produced. -/
structure WrittenOperation where
  row : OperationRow
  body : IsBase64 row.rawSignedOpB64

section Operations
variable [ProstMessage StoredOperationPb]

def encodeOperation (o : OperationRow) : Except CodecError Bytes := do
  let rawSignedOp ← rawFromB64 "raw_signed_op" o.rawSignedOpB64
  return encodeToVec (operationToPeerPb (o.withBody rawSignedOp))

def decodeOperation (bytes : Bytes) : Except CodecError OperationRow := do
  return displayOperation (← operationFromPeerPb (← ProstMessage.decode bytes))

theorem decodeOperation_encode (o : WrittenOperation) :
    (encodeOperation o.row >>= decodeOperation) = .ok o.row := by
  obtain ⟨raw, spelled⟩ := o.body
  have body : rawFromB64 "raw_signed_op" o.row.rawSignedOpB64 = .ok raw := by
    rw [spelled, rawFromB64_encode]
  simp only [encodeOperation, body, ok_bind, pure_bind, decodeOperation,
    ProstMessage.decode_encodeToVec, operationFromPeerPb_toPeerPb, displayOperation,
    OperationRow.withBody, b64FromRaw_eq, ← spelled]
  rfl

/-- `operation_to_peer_pb` goes through the storage bytes. -/
def operationToPeer (o : OperationRow) : Except CodecError StoredOperationPb := do
  ProstMessage.decode (← encodeOperation o)

def operationFromPeer (p : StoredOperationPb) : Except CodecError OperationRow :=
  decodeOperation (encodeToVec p)

theorem operation_peer_eq (o : OperationRow) :
    (operationToPeer o >>= operationFromPeer) = (encodeOperation o >>= decodeOperation) := by
  rw [operationToPeer, encodeOperation]
  cases rawFromB64 "raw_signed_op" o.rawSignedOpB64 with
  | error failure => rfl
  | ok raw => simp [operationFromPeer]

end Operations

/-! ## Events, transfers, async messages, deferred calls -/

/-- A row whose encoder cannot fail, through the storage bytes and through the peer message: the two
ways of every row below. `to_peer_pb`'s `expect` is the failure of its decode. -/
theorem peer_eq_of_encode {R M : Type} [ProstMessage M] (toPb : R → M)
    (decodeRow : Bytes → Except CodecError R) (x : R) :
    ((ProstMessage.decode (encodeToVec (toPb x)) : Except CodecError M) >>=
      fun p => decodeRow (encodeToVec p)) = decodeRow (encodeToVec (toPb x)) := by
  rw [ProstMessage.decode_encodeToVec, ok_bind]

def encodeScEvent [ProstMessage StoredScEventPb] (e : StoredScEvent) : Except CodecError Bytes :=
  .ok (encodeToVec (scEventToPeerPb e))

def decodeScEvent [ProstMessage StoredScEventPb] (bytes : Bytes) :
    Except CodecError StoredScEvent := do
  scEventFromPeerPb (← ProstMessage.decode bytes)

def scEventToPeer [ProstMessage StoredScEventPb] (e : StoredScEvent) :
    Except CodecError StoredScEventPb := do
  ProstMessage.decode (← encodeScEvent e)

def scEventFromPeer [ProstMessage StoredScEventPb] (p : StoredScEventPb) :
    Except CodecError StoredScEvent :=
  decodeScEvent (encodeToVec p)

theorem decodeScEvent_encode [ProstMessage StoredScEventPb] (e : StoredScEvent) :
    (encodeScEvent e >>= decodeScEvent) = .ok e := by
  simp only [encodeScEvent, decodeScEvent, ok_bind, ProstMessage.decode_encodeToVec,
    scEventFromPeerPb_toPeerPb]

theorem scEvent_peer_eq [ProstMessage StoredScEventPb] (e : StoredScEvent) :
    (scEventToPeer e >>= scEventFromPeer) = (encodeScEvent e >>= decodeScEvent) :=
  peer_eq_of_encode scEventToPeerPb decodeScEvent e

def encodeTransfer [ProstMessage StoredTransferPb] (t : StoredTransfer) : Bytes :=
  encodeToVec (transferToPeerPb t)

def decodeTransfer [ProstMessage StoredTransferPb] (bytes : Bytes) :
    Except CodecError StoredTransfer := do
  transferFromPeerPb (← ProstMessage.decode bytes)

def transferToPeer [ProstMessage StoredTransferPb] (t : StoredTransfer) :
    Except CodecError StoredTransferPb :=
  ProstMessage.decode (encodeTransfer t)

def transferFromPeer [ProstMessage StoredTransferPb] (p : StoredTransferPb) :
    Except CodecError StoredTransfer :=
  decodeTransfer (encodeToVec p)

theorem decodeTransfer_encode [ProstMessage StoredTransferPb] (t : StoredTransfer) :
    decodeTransfer (encodeTransfer t) = .ok (readBackTransfer t) := by
  simp only [encodeTransfer, decodeTransfer, ProstMessage.decode_encodeToVec, ok_bind,
    transferFromPeerPb_toPeerPb]

theorem transfer_peer_eq [ProstMessage StoredTransferPb] (t : StoredTransfer) :
    (transferToPeer t >>= transferFromPeer) = decodeTransfer (encodeTransfer t) :=
  peer_eq_of_encode transferToPeerPb decodeTransfer t

def encodeAsyncMsg [ProstMessage StoredAsyncMsgPb] (m : StoredAsyncMsg) : Bytes :=
  encodeToVec (asyncMsgToPeerPb m)

def decodeAsyncMsg [ProstMessage StoredAsyncMsgPb] (bytes : Bytes) :
    Except CodecError StoredAsyncMsg := do
  asyncMsgFromPeerPb (← ProstMessage.decode bytes)

def asyncMsgToPeer [ProstMessage StoredAsyncMsgPb] (m : StoredAsyncMsg) :
    Except CodecError StoredAsyncMsgPb :=
  ProstMessage.decode (encodeAsyncMsg m)

def asyncMsgFromPeer [ProstMessage StoredAsyncMsgPb] (p : StoredAsyncMsgPb) :
    Except CodecError StoredAsyncMsg :=
  decodeAsyncMsg (encodeToVec p)

theorem decodeAsyncMsg_encode [ProstMessage StoredAsyncMsgPb] (m : StoredAsyncMsg) :
    decodeAsyncMsg (encodeAsyncMsg m) = .ok m := by
  simp only [encodeAsyncMsg, decodeAsyncMsg, ProstMessage.decode_encodeToVec, ok_bind,
    asyncMsgFromPeerPb_toPeerPb]

theorem asyncMsg_peer_eq [ProstMessage StoredAsyncMsgPb] (m : StoredAsyncMsg) :
    (asyncMsgToPeer m >>= asyncMsgFromPeer) = decodeAsyncMsg (encodeAsyncMsg m) :=
  peer_eq_of_encode asyncMsgToPeerPb decodeAsyncMsg m

def encodeDeferredCall [ProstMessage StoredDeferredCallPb] (d : StoredDeferredCall) : Bytes :=
  encodeToVec (deferredCallToPeerPb d)

def decodeDeferredCall [ProstMessage StoredDeferredCallPb] (bytes : Bytes) :
    Except CodecError StoredDeferredCall := do
  deferredCallFromPeerPb (← ProstMessage.decode bytes)

def deferredCallToPeer [ProstMessage StoredDeferredCallPb] (d : StoredDeferredCall) :
    Except CodecError StoredDeferredCallPb :=
  ProstMessage.decode (encodeDeferredCall d)

def deferredCallFromPeer [ProstMessage StoredDeferredCallPb] (p : StoredDeferredCallPb) :
    Except CodecError StoredDeferredCall :=
  decodeDeferredCall (encodeToVec p)

theorem decodeDeferredCall_encode [ProstMessage StoredDeferredCallPb] (d : StoredDeferredCall) :
    decodeDeferredCall (encodeDeferredCall d) = .ok d := by
  simp only [encodeDeferredCall, decodeDeferredCall, ProstMessage.decode_encodeToVec, ok_bind,
    deferredCallFromPeerPb_toPeerPb]

theorem deferredCall_peer_eq [ProstMessage StoredDeferredCallPb] (d : StoredDeferredCall) :
    (deferredCallToPeer d >>= deferredCallFromPeer) = decodeDeferredCall (encodeDeferredCall d) :=
  peer_eq_of_encode deferredCallToPeerPb decodeDeferredCall d

end MassaIndexer.Data.Storage
