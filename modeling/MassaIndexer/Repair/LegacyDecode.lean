/-
# Repair.LegacyDecode -- rows of the archive

A row of the archive has flat columns and, in `Raw`, the node's message in a wrapper. `decodeBlockRow` and
`decodeOpRow` build from them what ingest would have stored; the decoders they go through are those of
`Writer.NodeDecode`, written out a second time. What differs is stamped: the archive only kept blocks of the
final chain, and has a column for how an operation ended.

Reading the wrappers out of their bytes is the node's own protobuf (`Wrappers`).
-/
import MassaIndexer.Data.Storage
import MassaIndexer.Writer.NodeProto

namespace MassaIndexer.Repair.LegacyDecode

open MassaIndexer.Theory.KeyedTable MassaIndexer.Theory.ByteText
open MassaIndexer.Data.Ids MassaIndexer.Data.Model MassaIndexer.Writer.NodeProto

set_option autoImplicit false

/-! ## Wrappers -/

/-- `Block`: the signed header and the ids of the operations. -/
structure NodeBlock where
  header : Option SignedBlockHeader := none
  operations : List String := []

structure BlockWrapper where
  block : Option NodeBlock := none

structure OperationWrapper where
  operation : Option SignedOperation := none

/-- What `prost` reads from the bytes of the `Raw` columns. -/
class Wrappers where
  block : Bytes → Except String BlockWrapper
  operation : Bytes → Except String OperationWrapper

inductive DecodeError where
  | missingField (field : String)
  | invalidId (message : String)
  | proto (message : String)
  | attr (message : String)
deriving DecidableEq

def field {α : Type} (name : String) : Option α → Except DecodeError α
  | some v => .ok v
  | none => .error (.missingField name)

/-! ## Decoders -/

section Decoders

variable [Bs58Check]

def classifyOpType (opType : Option (Option OperationType)) :
    OperationKind × Option Address × OperationDetails :=
  match opType with
  | none => (.unknown, none, {})
  | some none => (.unknown, none, {})
  | some (some (.transaction recipientAddress amount)) =>
      (.transaction, (Address.parse recipientAddress).toOption,
        { amountNmas := amount.map (·.mantissa), recipientAddress := some recipientAddress })
  | some (some (.rollBuy rollCount)) => (.rollBuy, none, { rollCount := some rollCount })
  | some (some (.rollSell rollCount)) => (.rollSell, none, { rollCount := some rollCount })
  | some (some (.executeSc data maxCoins maxGas datastore)) =>
      (.executeSc, none,
        { bytecodeHex := some (Hex.encode data)
          bytecodeSize := some (UInt64.ofNat data.length)
          maxCoinsNmas := some maxCoins
          maxGas := some maxGas
          datastoreKeys := some (UInt32.ofNat datastore.length)
          datastore := datastore.map fun entry => ⟨Hex.encode entry.key, Hex.encode entry.value⟩ })
  | some (some (.callSc targetAddress targetFunction parameter maxGas coins)) =>
      (.callSc, (Address.parse targetAddress).toOption,
        { targetAddress := some targetAddress
          targetFunction := some targetFunction
          parameterHex := some (Hex.encode parameter)
          parameterLen := some (UInt64.ofNat parameter.length)
          maxGas := some maxGas
          coinsNmas := coins.map (·.mantissa) })

/-- An endorsement without content, slot or creator is left out. -/
def decodeSignedEndorsement (se : SignedEndorsement) (includingBlock : BlockId) (includingSlot : Slot)
    (nowMs : Int) : Option SeenEndorsement :=
  match se.content with
  | none => none
  | some content =>
      match content.slot with
      | none => none
      | some slot =>
          match Address.parse se.contentCreatorAddress with
          | .error _ => none
          | .ok creator => some {
              id := se.secureHash
              slot := ⟨slot.period, slot.thread.toUInt8⟩
              index := content.index
              endorsedBlockId := content.endorsedBlock
              contentCreatorPubKey := se.contentCreatorPubKey
              contentCreatorAddress := creator
              signature := se.signature
              serializedSize := se.serializedSize
              includedBlockId := includingBlock.text
              includedSlot := includingSlot
              firstSeenTsMs := nowMs }

/-- A slot that may be missing. -/
def slotOrZero : Option NodeSlot → Slot
  | some s => ⟨s.period, s.thread.toUInt8⟩
  | none => ⟨0, 0⟩

def decodeDenunciation : Option NodeDenunciation → StoredDenunciation
  | some (.blockHeader b) =>
      .blockHeader b.publicKey (slotOrZero b.slot) b.hash1 b.hash2 b.signature1 b.signature2
  | some (.endorsement e) =>
      .endorsement e.publicKey (slotOrZero e.slot) e.index e.hash1 e.hash2 e.signature1 e.signature2
  | some (.address a) =>
      .address a.addressDenounced (slotOrZero a.slot) ((a.slashed.map (·.mantissa)).getD 0)
  | none => .unknown

end Decoders

/-! ## Rows -/

/-- What the block decoder needs of a row: its message and its flat columns. -/
structure BlockRow where
  hash : String
  raw : Bytes
  slot : Slot
  creatorAddress : String

structure OpRow where
  hash : String
  raw : Bytes
  /-- `0` unknown, `1` executed, `2` failed. -/
  status : Int
  blockHash : String
  slot : Slot

/-- A decoded operation, and whether it was executed successfully. -/
structure DecodedOp where
  stored : Data.Storage.OperationRow
  executed : Bool

/-- How the archive says an operation ended. -/
def archivedExecStatus (status : Int) : Option ExecStatus :=
  if status = 1 then some .ok else if status = 2 then some .failed else none

section Rows

variable [Bs58Check] [Wrappers]

/-- The block, the operation ids as the wrapper lists them, and the endorsements of the header. -/
def decodeBlockRow (row : BlockRow) (nowMs : Int) :
    Except DecodeError (Data.Storage.BlockRow × List String × List SeenEndorsement) := do
  let wrapper ← (Wrappers.block row.raw).mapError .proto
  let block ← field "block" wrapper.block
  let hdr ← field "block.header" block.header
  let blockHdr ← field "block.header.content" hdr.content
  let blockId ← (BlockId.parse row.hash).mapError fun e =>
    .invalidId ("block hash " ++ row.hash ++ ": " ++ e)
  let creator ← (Address.parse row.creatorAddress).mapError fun e =>
    .invalidId ("creator " ++ row.creatorAddress ++ ": " ++ e)
  let endorsements := blockHdr.endorsements.filterMap fun se =>
    decodeSignedEndorsement se blockId row.slot nowMs
  let stored : Data.Storage.BlockRow :=
    { id := blockId
      slot := row.slot
      creator := creator
      parents := blockHdr.parents.filterMap fun p => (BlockId.parse p).toOption
      operationIds := block.operations.filterMap fun s => (OperationId.parse s).toOption
      endorsements := endorsements
      endorsementIds := endorsements.map (·.id)
      denunciations := blockHdr.denunciations.map decodeDenunciation
      currentVersion := blockHdr.currentVersion
      announcedVersion := blockHdr.announcedVersion
      operationsHash := blockHdr.operationsHash
      signature := hdr.signature
      contentCreatorPubKey := hdr.contentCreatorPubKey
      serializedSize := hdr.serializedSize
      rawSignedHeaderB64 := Base64.encode hdr.encoded
      status := .final
      firstSeenTsMs := nowMs }
  return (stored, block.operations, endorsements)

def decodeOpRow (row : OpRow) (nowMs : Int) : Except DecodeError DecodedOp := do
  let wrapper ← (Wrappers.operation row.raw).mapError .proto
  let signed ← field "operation_wrapper.operation" wrapper.operation
  let content ← field "operation.content" signed.content
  let opId ← (OperationId.parse row.hash).mapError fun e =>
    .invalidId ("op id " ++ row.hash ++ ": " ++ e)
  let blockId ← (BlockId.parse row.blockHash).mapError fun e =>
    .invalidId ("block id " ++ row.blockHash ++ ": " ++ e)
  let creator ← (Address.parse signed.contentCreatorAddress).mapError fun e =>
    .invalidId ("op creator: " ++ e)
  let (kind, target, details) := classifyOpType content.op
  let stored : Data.Storage.OperationRow :=
    { id := opId
      creator := creator
      target := target
      kind := kind
      expirePeriod := content.expirePeriod
      feeNmas := (content.fee.map (·.mantissa)).getD 0
      thread := row.slot.thread
      inclusions := [⟨row.slot, blockId⟩]
      candidateExecStatus := none
      finalExecStatus := archivedExecStatus row.status
      details := details
      signature := signed.signature
      contentCreatorPubKey := signed.contentCreatorPubKey
      serializedSize := signed.serializedSize
      rawSignedOpB64 := Base64.encode signed.encoded
      firstSeenTsMs := nowMs }
  return { stored := stored, executed := row.status == 1 }

end Rows

end MassaIndexer.Repair.LegacyDecode
