/-
# Data.Codec -- rows to messages and back

The store keeps every row as an encoded message and peers ship the same messages. Encoding a row is
total; decoding fails on an id of the wrong length, a thread above 255 or a missing field. Bytes on
disk are the message itself here: the protobuf library writes and reads messages without loss.

For each row type `decode (encode row)` succeeds with the row in its read-back form (the theorems
`decode…_encode…`), and that form is the row itself but for two normalisations: an empty trail hash
reads back as none (`readBackSlotState`) and `other 0` as unspecified (`readBackTransfer`).
-/
import MassaIndexer.Data.Model
import MassaIndexer.Data.Proto

namespace MassaIndexer.Data.Codec

open MassaIndexer.Theory.KeyedTable (Bytes)
open MassaIndexer.Data.Ids MassaIndexer.Data.Model MassaIndexer.Data.Proto

set_option autoImplicit false

abbrev CodecError := String

/-! ## Ids and slots -/

def blockIdFromKey (bytes : Bytes) : Except CodecError BlockId :=
  ((FamilyId.fromKeyBytes bytes : Option BlockId).map Except.ok).getD
    (.error "invalid block id key bytes")

def opIdFromKey (bytes : Bytes) : Except CodecError OperationId :=
  ((FamilyId.fromKeyBytes bytes : Option OperationId).map Except.ok).getD
    (.error "invalid operation id key bytes")

def endoIdFromKey (bytes : Bytes) : Except CodecError EndorsementId :=
  ((FamilyId.fromKeyBytes bytes : Option EndorsementId).map Except.ok).getD
    (.error "invalid endorsement id key bytes")

def addrFromKey (bytes : Bytes) : Except CodecError Address :=
  ((Address.fromKeyBytes bytes).map Except.ok).getD (.error "invalid address key bytes")

@[simp] theorem blockIdFromKey_bytes (x : BlockId) : blockIdFromKey x.bytes = .ok x := by
  simp [blockIdFromKey]

@[simp] theorem opIdFromKey_bytes (x : OperationId) : opIdFromKey x.bytes = .ok x := by
  simp [opIdFromKey]

@[simp] theorem endoIdFromKey_bytes (x : EndorsementId) : endoIdFromKey x.bytes = .ok x := by
  simp [endoIdFromKey]

@[simp] theorem addrFromKey_bytes (x : Address) : addrFromKey x.bytes = .ok x := by
  simp [addrFromKey]

/-- `u8::try_from` on a thread number. -/
def threadFromPb (thread : UInt32) : Except CodecError UInt8 :=
  if thread.toNat < 256 then .ok thread.toUInt8 else .error "thread > 255"

@[simp] theorem threadFromPb_toUInt32 (thread : UInt8) :
    threadFromPb thread.toUInt32 = .ok thread := by
  have small : thread.toNat < 256 := thread.toNat_lt
  simp [threadFromPb, small]

def slotToPb (s : Slot) : SlotPb := { period := s.period, thread := s.thread.toUInt32 }

def slotFromPb (p : SlotPb) : Except CodecError Slot :=
  (threadFromPb p.thread).map fun thread => ⟨p.period, thread⟩

def slotFromOpt : Option SlotPb → Except CodecError Slot
  | none => .error "missing slot"
  | some p => slotFromPb p

@[simp] theorem slotFromOpt_slotToPb (s : Slot) : slotFromOpt (some (slotToPb s)) = .ok s := by
  simp [slotFromOpt, slotFromPb, slotToPb, Except.map]

/-- `if has { Some(decode(x)?) } else { None }`. -/
def decodeIf {α β : Type} (has : Bool) (decode : α → Except CodecError β) (x : α) :
    Except CodecError (Option β) :=
  if has then (decode x).map some else .ok none

/-- `has.then_some(x)`. -/
def thenSome {α : Type} (has : Bool) (x : α) : Option α := if has then some x else none

@[simp] theorem thenSome_isSome {α : Type} (o : Option α) (d : α) :
    thenSome o.isSome (o.getD d) = o := by cases o <;> simp [thenSome]

theorem decodeIf_isSome {α β : Type} {decode : α → Except CodecError β} {encode : β → α} {d : α}
    (back : ∀ x, decode (encode x) = .ok x) (o : Option β) :
    decodeIf o.isSome decode ((o.map encode).getD d) = .ok o := by
  cases o <;> simp [decodeIf, back, Except.map]

/-- Decoding a list of encoded rows gives the rows back. -/
theorem mapM_encoded_self {α β : Type} {decode : α → Except CodecError β} {encode : β → α}
    (back : ∀ x, decode (encode x) = .ok x) (rows : List β) :
    (rows.map encode).mapM decode = .ok rows := by
  induction rows with
  | nil => rfl
  | cons x rows ih =>
      rw [List.map_cons, List.mapM_cons, back, ih]
      rfl

@[simp] theorem mapM_blockIdFromKey (ids : List BlockId) :
    (ids.map FamilyId.bytes).mapM blockIdFromKey = .ok ids := mapM_encoded_self blockIdFromKey_bytes ids

@[simp] theorem mapM_opIdFromKey (ids : List OperationId) :
    (ids.map FamilyId.bytes).mapM opIdFromKey = .ok ids := mapM_encoded_self opIdFromKey_bytes ids

@[simp] theorem mapM_addrFromKey (addrs : List Address) :
    (addrs.map Address.bytes).mapM addrFromKey = .ok addrs := mapM_encoded_self addrFromKey_bytes addrs

/-! ## Enums -/

def slotStatusToPb : SlotStatus → Int
  | .unknown => 0
  | .candidate => 1
  | .final => 2

def slotStatusFromPb (i : Int) : SlotStatus :=
  if i = 1 then .candidate else if i = 2 then .final else .unknown

@[simp] theorem slotStatusFromPb_toPb (s : SlotStatus) : slotStatusFromPb (slotStatusToPb s) = s := by
  cases s <;> rfl

def execStatusToPb : ExecStatus → Int
  | .ok => 1
  | .failed => 2

def execStatusFromPb (i : Int) : Option ExecStatus :=
  if i = 1 then some .ok else if i = 2 then some .failed else none

def blockStatusToPb : BlockStatus → Int
  | .seenCandidate => 1
  | .final => 2
  | .discarded => 3

def blockStatusFromPb (i : Int) : BlockStatus :=
  if i = 2 then .final else if i = 3 then .discarded else .seenCandidate

@[simp] theorem blockStatusFromPb_toPb (s : BlockStatus) :
    blockStatusFromPb (blockStatusToPb s) = s := by cases s <;> rfl

def opKindToPb : OperationKind → Int
  | .transaction => 1
  | .rollBuy => 2
  | .rollSell => 3
  | .executeSc => 4
  | .callSc => 5
  | .unknown => 0

def opKindFromPb (i : Int) : OperationKind :=
  if i = 1 then .transaction else if i = 2 then .rollBuy else if i = 3 then .rollSell
  else if i = 4 then .executeSc else if i = 5 then .callSc else .unknown

@[simp] theorem opKindFromPb_toPb (k : OperationKind) : opKindFromPb (opKindToPb k) = k := by
  cases k <;> rfl

def asyncStateToPb : AsyncMsgState → Int
  | .pending => 0
  | .executed => 1
  | .cancelled => 2
  | .consumed => 3

/-- An unknown future variant counts as pending. -/
def asyncStateFromPb (i : Int) : AsyncMsgState :=
  if i = 1 then .executed else if i = 2 then .cancelled else if i = 3 then .consumed else .pending

@[simp] theorem asyncStateFromPb_toPb (s : AsyncMsgState) :
    asyncStateFromPb (asyncStateToPb s) = s := by cases s <;> rfl

def deferredStateToPb : DeferredCallState → Int
  | .registered => 0
  | .executed => 1
  | .failed => 2
  | .cancelled => 3

def deferredStateFromPb (i : Int) : DeferredCallState :=
  if i = 1 then .executed else if i = 2 then .failed else if i = 3 then .cancelled else .registered

@[simp] theorem deferredStateFromPb_toPb (s : DeferredCallState) :
    deferredStateFromPb (deferredStateToPb s) = s := by cases s <;> rfl

/-- The origins with a code of their own, in the order of the wire enum. -/
def knownOrigins : List CoinOrigin :=
  [.unspecified, .blockReward, .deferredCallFail, .deferredCallCancel, .deferredCallCoins,
   .deferredCallRegister, .deferredCallStorageRefund, .endorsementReward, .endorsedReward, .slash,
   .opRollBuy, .opRollSell, .opCallscCoins, .readOnlyFnCallFees, .readOnlyFnCallCoins,
   .readOnlyBytecodeExecFees, .setBytecodeStorage, .abiCallCoins, .abiTransferCoins,
   .abiTransferForCoins, .abiSendMsgCoins, .abiSendMsgFees, .opRollSellDeferredMas,
   .opExecutescFees, .opTransactionCoins, .opTransactionFees, .asyncMsgCoins, .asyncMsgCancel,
   .createScStorage, .datastoreStorage, .deferredCredit]

/-- An origin without a code of its own travels as unspecified with its number beside it. -/
def coinOriginToPb : CoinOrigin → CoinOriginPb
  | .other code => { kind := 0, otherCode := code }
  | o => { kind := knownOrigins.idxOf o, otherCode := 0 }

def coinOriginFromPb (p : CoinOriginPb) : CoinOrigin :=
  let k := if 0 ≤ p.kind then knownOrigins.getD p.kind.toNat .unspecified else .unspecified
  if k = .unspecified ∧ p.otherCode ≠ 0 then .other p.otherCode else k

def readBackOrigin : CoinOrigin → CoinOrigin
  | .other code => if code = 0 then .unspecified else .other code
  | o => o

theorem coinOriginFromPb_toPb (o : CoinOrigin) :
    coinOriginFromPb (coinOriginToPb o) = readBackOrigin o := by
  cases o with
  | other code =>
      by_cases zero : code = 0 <;>
        simp [coinOriginFromPb, coinOriginToPb, readBackOrigin, zero, knownOrigins]
  | _ => rfl

/-! ## Slot rows -/

def encodeSlotState (s : SlotState) : SlotStatePb where
  slot := some (slotToPb s.slot)
  status := slotStatusToPb s.status
  isMiss := s.isMiss
  finalBlockIdKey := (s.finalBlockId.map FamilyId.bytes).getD []
  candidateBlockIdKeys := s.candidateBlockIds.map FamilyId.bytes
  executionTrailHash := s.executionTrailHash.getD ""
  executedOpIdKeys := s.executedOpIds.map FamilyId.bytes
  scEventCount := s.scEventCount
  completeness := some
    { blockBodyStored := s.completeness.blockBodyStored
      execOutputFinal := s.completeness.execOutputFinal
      execOutputCandidate := s.completeness.execOutputCandidate
      transfersStored := s.completeness.transfersStored }
  firstSeenTsMs := s.firstSeenTsMs
  lastUpdatedTsMs := s.lastUpdatedTsMs

def completenessFromPb (p : Option SlotCompletenessPb) : SlotCompleteness :=
  let p := p.getD {}
  { blockBodyStored := p.blockBodyStored
    execOutputFinal := p.execOutputFinal
    execOutputCandidate := p.execOutputCandidate
    transfersStored := p.transfersStored }

def decodeSlotState (p : SlotStatePb) : Except CodecError SlotState := do
  let slot ← slotFromOpt p.slot
  let finalBlockId ← decodeIf (!p.finalBlockIdKey.isEmpty) blockIdFromKey p.finalBlockIdKey
  let candidateBlockIds ← p.candidateBlockIdKeys.mapM blockIdFromKey
  let executedOpIds ← p.executedOpIdKeys.mapM opIdFromKey
  return {
    slot := slot
    status := slotStatusFromPb p.status
    isMiss := p.isMiss
    finalBlockId := finalBlockId
    candidateBlockIds := candidateBlockIds
    executionTrailHash := thenSome (!p.executionTrailHash.isEmpty) p.executionTrailHash
    executedOpIds := executedOpIds
    scEventCount := p.scEventCount
    completeness := completenessFromPb p.completeness
    firstSeenTsMs := p.firstSeenTsMs
    lastUpdatedTsMs := p.lastUpdatedTsMs }

/-- An empty trail hash is no trail hash. -/
def readBackTrail (trail : Option String) : Option String := trail.filter fun t => !t.isEmpty

@[simp] theorem readBackTrail_idem (trail : Option String) :
    readBackTrail (readBackTrail trail) = readBackTrail trail := by simp [readBackTrail]

/-- The row as it is read back. -/
def readBackSlotState (s : SlotState) : SlotState :=
  { s with executionTrailHash := readBackTrail s.executionTrailHash }

theorem decodeSlotState_encodeSlotState (s : SlotState) :
    decodeSlotState (encodeSlotState s) = .ok (readBackSlotState s) := by
  have verdict : decodeIf (!((s.finalBlockId.map FamilyId.bytes).getD []).isEmpty) blockIdFromKey
      ((s.finalBlockId.map FamilyId.bytes).getD []) = .ok s.finalBlockId := by
    cases h : s.finalBlockId with
    | none => rfl
    | some b =>
        have nonempty : b.bytes ≠ [] := fun empty => by simpa [empty, idKeyLen] using b.width
        simp [decodeIf, nonempty, Except.map]
  have trail : thenSome (!(s.executionTrailHash.getD "").isEmpty) (s.executionTrailHash.getD "") =
      readBackTrail s.executionTrailHash := by
    cases h : s.executionTrailHash with
    | none => rfl
    | some t => cases e : t.isEmpty <;> simp [thenSome, readBackTrail, Option.filter, e]
  simp only [decodeSlotState, encodeSlotState, slotFromOpt_slotToPb, verdict, mapM_blockIdFromKey,
    mapM_opIdFromKey, trail, slotStatusFromPb_toPb]
  rfl

/-! ## Endorsements and denunciations -/

/-- `endorsement_to_pb` parses the ids first: the part of encoding that can fail. -/
def resolveEndorsement [Bs58Check] (e : SeenEndorsement) : Except CodecError StoredEndorsement := do
  let id ← EndorsementId.parse e.id
  let endorsedBlockId ← BlockId.parse e.endorsedBlockId
  let includedBlockId ← BlockId.parse e.includedBlockId
  return {
    id := id
    slot := e.slot
    index := e.index
    endorsedBlockId := endorsedBlockId
    contentCreatorPubKey := e.contentCreatorPubKey
    contentCreatorAddress := e.contentCreatorAddress
    signature := e.signature
    serializedSize := e.serializedSize
    includedBlockId := includedBlockId
    includedSlot := e.includedSlot
    firstSeenTsMs := e.firstSeenTsMs }

def endorsementToPb (e : StoredEndorsement) : StoredEndorsementPb where
  idKey := e.id.bytes
  slot := some (slotToPb e.slot)
  index := e.index
  endorsedBlockIdKey := e.endorsedBlockId.bytes
  contentCreatorPubKey := e.contentCreatorPubKey
  contentCreatorAddressKey := e.contentCreatorAddress.bytes
  signature := e.signature
  serializedSize := e.serializedSize
  includedBlockIdKey := e.includedBlockId.bytes
  includedSlot := some (slotToPb e.includedSlot)
  firstSeenTsMs := e.firstSeenTsMs

def endorsementFromPb (p : StoredEndorsementPb) : Except CodecError StoredEndorsement := do
  let id ← endoIdFromKey p.idKey
  let slot ← slotFromOpt p.slot
  let endorsedBlockId ← blockIdFromKey p.endorsedBlockIdKey
  let contentCreatorAddress ← addrFromKey p.contentCreatorAddressKey
  let includedBlockId ← blockIdFromKey p.includedBlockIdKey
  let includedSlot ← slotFromOpt p.includedSlot
  return {
    id := id
    slot := slot
    index := p.index
    endorsedBlockId := endorsedBlockId
    contentCreatorPubKey := p.contentCreatorPubKey
    contentCreatorAddress := contentCreatorAddress
    signature := p.signature
    serializedSize := p.serializedSize
    includedBlockId := includedBlockId
    includedSlot := includedSlot
    firstSeenTsMs := p.firstSeenTsMs }

theorem endorsementFromPb_toPb (e : StoredEndorsement) :
    endorsementFromPb (endorsementToPb e) = .ok e := by
  simp only [endorsementFromPb, endorsementToPb, endoIdFromKey_bytes, slotFromOpt_slotToPb,
    blockIdFromKey_bytes, addrFromKey_bytes]
  rfl

def denunciationToPb : StoredDenunciation → StoredDenunciationPb
  | .blockHeader publicKey slot hash1 hash2 signature1 signature2 =>
      .blockHeader { publicKey, slot := some (slotToPb slot), hash1, hash2, signature1, signature2 }
  | .endorsement publicKey slot index hash1 hash2 signature1 signature2 =>
      .endorsement
        { publicKey, slot := some (slotToPb slot), index, hash1, hash2, signature1, signature2 }
  | .address addressDenounced slot slashedNmas =>
      .address { addressDenounced, slot := some (slotToPb slot), slashedNmas }
  | .unknown => .unknown

def denunciationFromPb : StoredDenunciationPb → Except CodecError StoredDenunciation
  | .blockHeader x => do
      let slot ← slotFromOpt x.slot
      return .blockHeader x.publicKey slot x.hash1 x.hash2 x.signature1 x.signature2
  | .endorsement x => do
      let slot ← slotFromOpt x.slot
      return .endorsement x.publicKey slot x.index x.hash1 x.hash2 x.signature1 x.signature2
  | .address x => do
      let slot ← slotFromOpt x.slot
      return .address x.addressDenounced slot x.slashedNmas
  | .unknown => .ok .unknown
  | .unset => .ok .unknown

theorem denunciationFromPb_toPb (d : StoredDenunciation) :
    denunciationFromPb (denunciationToPb d) = .ok d := by
  cases d <;> simp only [denunciationFromPb, denunciationToPb, slotFromOpt_slotToPb] <;> rfl

/-! ## Blocks -/

def blockToPeerPb (b : StoredBlock) : StoredBlockPb where
  idKey := b.id.bytes
  slot := some (slotToPb b.slot)
  creatorKey := b.creator.bytes
  parentKeys := b.parents.map FamilyId.bytes
  operationIdKeys := b.operationIds.map FamilyId.bytes
  endorsements := b.endorsements.map endorsementToPb
  endorsementIds := b.endorsementIds
  denunciations := b.denunciations.map denunciationToPb
  currentVersion := b.currentVersion
  announcedVersion := b.announcedVersion.getD 0
  hasAnnouncedVersion := b.announcedVersion.isSome
  operationsHash := b.operationsHash
  signature := b.signature
  contentCreatorPubKey := b.contentCreatorPubKey
  serializedSize := b.serializedSize
  rawSignedHeader := b.rawSignedHeader
  status := blockStatusToPb b.status
  firstSeenTsMs := b.firstSeenTsMs

def blockFromPeerPb (p : StoredBlockPb) : Except CodecError StoredBlock := do
  let id ← blockIdFromKey p.idKey
  let slot ← slotFromOpt p.slot
  let creator ← addrFromKey p.creatorKey
  let parents ← p.parentKeys.mapM blockIdFromKey
  let operationIds ← p.operationIdKeys.mapM opIdFromKey
  let endorsements ← p.endorsements.mapM endorsementFromPb
  let denunciations ← p.denunciations.mapM denunciationFromPb
  return {
    id := id
    slot := slot
    creator := creator
    parents := parents
    operationIds := operationIds
    endorsements := endorsements
    endorsementIds := p.endorsementIds
    denunciations := denunciations
    currentVersion := p.currentVersion
    announcedVersion := thenSome p.hasAnnouncedVersion p.announcedVersion
    operationsHash := p.operationsHash
    signature := p.signature
    contentCreatorPubKey := p.contentCreatorPubKey
    serializedSize := p.serializedSize
    rawSignedHeader := p.rawSignedHeader
    status := blockStatusFromPb p.status
    firstSeenTsMs := p.firstSeenTsMs }

@[simp] theorem blockFromPeerPb_toPeerPb (b : StoredBlock) :
    blockFromPeerPb (blockToPeerPb b) = .ok b := by
  simp only [blockFromPeerPb, blockToPeerPb, blockIdFromKey_bytes, slotFromOpt_slotToPb,
    addrFromKey_bytes, mapM_blockIdFromKey, mapM_opIdFromKey,
    mapM_encoded_self endorsementFromPb_toPb, mapM_encoded_self denunciationFromPb_toPb,
    thenSome_isSome, blockStatusFromPb_toPb]
  rfl

end MassaIndexer.Data.Codec
