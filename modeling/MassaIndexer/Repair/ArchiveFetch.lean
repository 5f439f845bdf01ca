/-
# Repair.ArchiveFetch -- one slot out of the archive

`fetchSlot` stitches its answer from three conversations with DynamoDB: a query for the block row, a paged
query for the rows of the slot, and batches of at most a hundred keys for the operations the block lists.
DynamoDB may answer a page short, and a batch without some of its rows: a short page says where the next
one starts, a short batch names the keys it left (`BatchAnswer.unprocessedKeys`).

`Dynamo` is what the tables hold and how DynamoDB answers, `Dynamo.Lawful` what its answers have to do with
the tables. The columns of a row are read already, as in `Repair.Producers`.
-/
import MassaIndexer.Data.Storage
import MassaIndexer.Repair.LegacyDecode
import MassaIndexer.Repair.Producers

namespace MassaIndexer.Repair.ArchiveFetch

open MassaIndexer.Theory.KeyedTable MassaIndexer.Theory.ByteText
open MassaIndexer.Data.Ids MassaIndexer.Data.Model MassaIndexer.Data.Proto MassaIndexer.Data.Codec
open MassaIndexer.Data.Storage hiding BlockRow
open MassaIndexer.Data.RowCodec MassaIndexer.Repair.Producers
open MassaIndexer.Repair.LegacyDecode hiding DecodedOp

set_option autoImplicit false

/-! ## Points in time -/

/-- Every step saturates. -/
def pointInTime (period : UInt64) (thread : UInt8) : UInt32 :=
  let combined := min (period.toNat * 100) (2 ^ 64 - 1) + thread.toNat
  UInt32.ofNat (2 ^ 32 - 1 - min (min combined (2 ^ 64 - 1)) (2 ^ 32 - 1))

def pointInTimeToSlot (pit : UInt32) : Slot :=
  let combined := 2 ^ 32 - 1 - pit.toNat
  ⟨UInt64.ofNat (combined / 100), UInt8.ofNat (combined % 100)⟩

/-! ## What DynamoDB holds and answers -/

/-- A row of `BlocksMainnet`. -/
structure BlocksItem where
  hash : Option String
  creatorAddress : Option String
  /-- `some none`: a column that is not binary. -/
  raw : Option (Option Bytes)
  /-- The number, or why it does not read. -/
  pointInTime : Except DecodeError UInt32

/-- A row of `OperationsMainnet` with its payload. -/
structure OperationsRow where
  hash : Option String
  blockHash : Option String
  status : Option Int
  raw : Option Bytes

/-- The attributes of a `LastEvaluatedKey`. -/
abbrev PageKey := List (String × String)

structure QueryPage where
  items : List OperationsItem
  lastEvaluatedKey : Option PageKey

/-- Where the next page starts: a blank key is none. -/
def QueryPage.next (page : QueryPage) : Option PageKey :=
  page.lastEvaluatedKey.filter fun key => !key.isEmpty

structure BatchAnswer where
  /-- The rows under the name of the table. -/
  responses : Option (List OperationsRow)
  unprocessedKeys : List String

def BatchAnswer.rows (answer : BatchAnswer) : List OperationsRow := answer.responses.getD []

/-- The tables, and the answers DynamoDB gives: to the n-th query or batch of a lookup as it likes. -/
structure Dynamo where
  slotRows : UInt32 → List OperationsItem
  operation : String → Option OperationsRow
  queryBlocks : UInt32 → Except String (List BlocksItem)
  getBlock : String → Except String (Option BlocksItem)
  queryOperations : Nat → UInt32 → Option PageKey → Except String QueryPage
  batchGet : Nat → List String → Except String BatchAnswer

/-- What holds of the answers about `OperationsMainnet`. -/
structure Dynamo.Lawful (env : Dynamo) : Prop where
  /-- Behind a key stand rows; a page is the first of them, and behind its own key stand the others. -/
  pages : ∀ pit, ∃ behind : Option PageKey → List OperationsItem, behind none = env.slotRows pit ∧
    ∀ call start page, env.queryOperations call pit start = .ok page →
      behind start = page.items ++ page.next.elim [] fun key => behind (some key)
  /-- A batch answers with every row it asked for or names its key. -/
  answered : ∀ call keys answer, env.batchGet call keys = .ok answer → ∀ hash ∈ keys,
    ∀ row, env.operation hash = some row → (row ∈ answer.rows ↔ hash ∉ answer.unprocessedKeys)
  requested : ∀ call keys answer, env.batchGet call keys = .ok answer → ∀ row ∈ answer.rows,
    ∃ hash ∈ keys, env.operation hash = some row
  keyed : ∀ hash row, env.operation hash = some row → row.hash = some hash

/-! ## Errors -/

inductive LegacyError where
  | ddb (message : String)
  | decode (cause : DecodeError)
  | other (message : String)
deriving DecidableEq

def LegacyError.vanished (hash : String) : LegacyError :=
  .other ("legacy: BlocksMainnet[" ++ hash ++ "] vanished between Query and GetItem")

def LegacyError.mismatch (slot : Slot) (period : UInt64) (thread : UInt8) : LegacyError :=
  .other ("legacy: row PIT decode Slot \x7b period: " ++ toString slot.period.toNat ++ ", thread: " ++
    toString slot.thread.toNat ++ " \x7d mismatches request (" ++ toString period.toNat ++ "," ++
    toString thread.toNat ++ ")")

def itemStr (name : String) (column : Option String) : Except LegacyError String :=
  (field name column).mapError .decode

def itemBytes (name : String) : Option (Option Bytes) → Except LegacyError Bytes
  | none => .error (.decode (.missingField name))
  | some none => .error (.decode (.attr "not B-encoded"))
  | some (some bytes) => .ok bytes

/-! ## The block -/

section Fetch

variable (env : Dynamo)

def findBlockRow (pit : UInt32) : Except LegacyError (Option BlocksItem) :=
  (env.queryBlocks pit).map (·.head?) |>.mapError .ddb

/-- The index may not carry the payload; then the row itself is read. -/
def withPayload (row : BlocksItem) : Except LegacyError BlocksItem :=
  if row.raw.isSome then .ok row
  else do
    let hash ← itemStr "Hash" row.hash
    let found ← (env.getBlock hash).mapError .ddb
    found.elim (.error (.vanished hash)) .ok

/-- A decoded block row: the hash of the row, the block, the operations it lists. -/
structure FoundBlock where
  hash : String
  row : Data.Storage.BlockRow
  opIds : List String

variable [Bs58Check] [Wrappers]

def readBlock (item : BlocksItem) (period : UInt64) (thread : UInt8) (nowMs : Int) :
    Except LegacyError FoundBlock := do
  let hash ← itemStr "Hash" item.hash
  let creatorAddress ← itemStr "CreatorAddress" item.creatorAddress
  let raw ← itemBytes "Raw" item.raw
  let pit ← item.pointInTime.mapError .decode
  let slot := pointInTimeToSlot pit
  if slot ≠ ⟨period, thread⟩ then .error (.mismatch slot period thread)
  else
    let decoded ← (decodeBlockRow { hash, raw, slot, creatorAddress } nowMs).mapError .decode
    return { hash, row := decoded.1, opIds := decoded.2.1 }

/-- The block of a slot, as far as the archive has one. -/
def blockAt (period : UInt64) (thread : UInt8) (nowMs : Int) :
    Except LegacyError (Option FoundBlock) := do
  match ← findBlockRow env (pointInTime period thread) with
  | none => return none
  | some row => return some (← readBlock (← withPayload env row) period thread nowMs)

/-! ## The rows of the slot -/

/-- The pages of a slot from `lastKey` on: `none` while `fuel` pages do not reach the end. -/
def listSlotRows (pit : UInt32) : Nat → Nat → Option PageKey →
    Option (Except LegacyError (List OperationsItem))
  | 0, _, _ => none
  | fuel + 1, call, lastKey =>
      match env.queryOperations call pit lastKey with
      | .error message => some (.error (.ddb message))
      | .ok page =>
          match page.next with
          | none => some (.ok page.items)
          | some key => (listSlotRows pit fuel (call + 1) (some key)).map (Except.map (page.items ++ ·))

/-! ## The operations -/

/-- `chunks`: pieces of `size` and a last one that may be shorter. -/
def chunks {α : Type} (size : Nat) : List α → List (List α)
  | [] => []
  | x :: xs => (x :: xs.take (size - 1)) :: chunks size (xs.drop (size - 1))
termination_by xs => xs.length
decreasing_by simp

/-- What a row of a batch decodes to. One without its hash or payload, or that does not decode, is left
out with a warning. -/
def decodedRow (found : FoundBlock) (slot : Slot) (nowMs : Int) (row : OperationsRow) :
    Option LegacyDecode.DecodedOp := do
  let hash ← row.hash
  let raw ← row.raw
  (decodeOpRow { hash, raw, status := row.status.getD 0, blockHash := row.blockHash.getD found.hash, slot }
    nowMs).toOption

/-- The batches. What an answer leaves unprocessed is not asked for again. -/
def fetchOperations (found : FoundBlock) (slot : Slot) (nowMs : Int) :
    Nat → List (List String) → Except LegacyError (List LegacyDecode.DecodedOp)
  | _, [] => .ok []
  | call, chunk :: rest => do
      let answer ← (env.batchGet call chunk).mapError .ddb
      let later ← fetchOperations found slot nowMs (call + 1) rest
      return answer.rows.filterMap (decodedRow found slot nowMs) ++ later

/-! ## The answer -/

/-- An operation with its body read back out of the text, as the peer message carries it. -/
def carried (d : LegacyDecode.DecodedOp) : Option Producers.DecodedOp :=
  (rawFromB64 "raw_signed_op" d.stored.rawSignedOpB64).toOption.map fun raw =>
    ⟨d.stored.withBody raw, d.executed⟩

def archived (found : FoundBlock) (ops : List LegacyDecode.DecodedOp) (items : List OperationsItem) :
    ArchivedSlot where
  blockHash := found.row.id
  block := found.row.resolve.toOption
  endorsements := found.row.endorsements.filterMap fun e => (resolveEndorsement e).toOption
  ops := ops.filterMap carried
  items := items

def withinWindow (maxPeriod : Option UInt64) (period : UInt64) : Bool :=
  maxPeriod.all fun max => decide (period ≤ max)

/-- `fetch_slot`: `none` while the pages do not end within `calls`. -/
def fetchSlot (maxPeriod : Option UInt64) (period : UInt64) (thread : UInt8) (nowMs : Int) (calls : Nat) :
    Option (Except LegacyError (Option FinalSlotResponse)) :=
  if withinWindow maxPeriod period then
    match blockAt env period thread nowMs with
    | .error failure => some (.error failure)
    | .ok none => some (.ok none)
    | .ok (some found) =>
        (listSlotRows env (pointInTime period thread) calls 0 none).map fun listed => do
          let items ← listed
          let ops ← fetchOperations env found ⟨period, thread⟩ nowMs 0 (chunks 100 found.opIds)
          return some (Producers.fetchSlot ⟨period, thread⟩ (archived found ops items) nowMs)
  else some (.ok none)

end Fetch

end MassaIndexer.Repair.ArchiveFetch
