/-
# Rest.BlockPages -- the pagers inside one block

Three handlers page over a list embedded in a block row: its operations, endorsements and denunciations.
The cursor is the next position as four little-endian bytes, whatever the client makes of them. A slice
out of range panics; of the three only the operations' is taken without a look at where it starts.
-/
import MassaIndexer.Store.ColumnFamilies
import MassaIndexer.Theory.BigEndian
import MassaIndexer.Theory.OffsetPages
import MassaIndexer.Writer.Shared

namespace MassaIndexer.Rest.BlockPages

open MassaIndexer.Theory MassaIndexer.Theory.KeyedTable MassaIndexer.Theory.Cursor
open MassaIndexer.Theory.OffsetPages
open MassaIndexer.Data.Ids MassaIndexer.Data.Model MassaIndexer.Store.ColumnFamilies
open MassaIndexer.Writer.Shared

set_option autoImplicit false

/-! ## Requests -/

/-- The `[rest]` section of the configuration. -/
structure RestConfig where
  defaultPageSize : Nat
  maxPageSize : Nat

/-- Query parameters, with the cursor out of its base 64. -/
structure PageQ where
  limit : Option Nat := none
  cursor : Option Bytes := none

inductive ApiErr where
  | notFound (what : String)
  | bad (message : String)

/-- What a handler ends with; `none` when it panics. -/
abbrev Answer (α : Type) := Option (Except ApiErr (Page Bytes α))

def hardMaxPageSize : Nat := 100

def clamp (x lo hi : Nat) : Nat := max lo (min x hi)

def effectiveMaxPageSize (cfg : RestConfig) : Nat := clamp cfg.maxPageSize 1 hardMaxPageSize

def PageQ.limitOf (q : PageQ) (cfg : RestConfig) : Nat :=
  clamp (q.limit.getD cfg.defaultPageSize) 1 (effectiveMaxPageSize cfg)

theorem limitOf_pos (q : PageQ) (cfg : RestConfig) : 0 < q.limitOf cfg := by
  unfold PageQ.limitOf clamp
  omega

def toLeBytes (n : UInt32) : Bytes := (BigEndian.bytes 4 n.toNat).reverse

def fromLeBytes (bytes : Bytes) : Nat := BigEndian.value bytes.reverse

theorem fromLeBytes_toLeBytes (n : UInt32) : fromLeBytes (toLeBytes n) = n.toNat := by
  rw [fromLeBytes, toLeBytes, List.reverse_reverse]
  exact BigEndian.value_bytes n.toNat_lt

/-- The position a cursor names. -/
def startIdx : Option Bytes → Except ApiErr Nat
  | none => .ok 0
  | some bytes => if bytes.length = 4 then .ok (fromLeBytes bytes) else .error (.bad "invalid cursor")

/-- `&list[start..stop]`. -/
def slice {ρ : Type} (list : List ρ) (start stop : Nat) : Option (List ρ) :=
  if start ≤ stop ∧ stop ≤ list.length then some ((list.drop start).take (stop - start)) else none

/-- The cursor of the page after one that stops at `stop`. -/
def nextIdx (stop total : Nat) : Option Bytes :=
  if stop < total then some (toLeBytes (UInt32.ofNat stop)) else none

/-! ## Handlers -/

section Handlers

variable [Bs58Check]

/-- What the handlers begin with: the page size, the position, and the row of the block. -/
def openBlock (db : Db) (cfg : RestConfig) (q : PageQ) (id : String) :
    Except ApiErr (Nat × Nat × StoredBlock) :=
  match startIdx q.cursor with
  | .error e => .error e
  | .ok start =>
      match BlockId.parse id with
      | .error e => .error (.bad e)
      | .ok bid =>
          match db.readBlock bid with
          | none => .error (.notFound "block")
          | some block => .ok (q.limitOf cfg, start, block)

/-- The slice is taken wherever it starts. -/
def blockOperations (db : Db) (cfg : RestConfig) (q : PageQ) (id : String) : Answer StoredOperation :=
  match openBlock db cfg q id with
  | .error e => some (.error e)
  | .ok (limit, start, block) =>
      let total := block.operationIds.length
      let stop := min (start + limit) total
      match slice block.operationIds start stop with
      | none => none
      | some part => some (.ok ⟨part.filterMap db.readOp, nextIdx stop total⟩)

def blockEndorsements (db : Db) (cfg : RestConfig) (q : PageQ) (id : String) :
    Answer StoredEndorsement :=
  match openBlock db cfg q id with
  | .error e => some (.error e)
  | .ok (limit, start, block) =>
      let total := block.endorsements.length
      let stop := min (start + limit) total
      if total ≤ start then some (.ok ⟨[], nextIdx stop total⟩)
      else
        match slice block.endorsements start stop with
        | none => none
        | some part => some (.ok ⟨part, nextIdx stop total⟩)

variable [DenunciationDigest]

/-- The rows of the denunciations whose hash has not been seen on the page. -/
def unseenRows (db : Db) : List Bytes → List StoredDenunciation → List StoredDenunciationEntry
  | _, [] => []
  | seen, d :: rest =>
      let hash := denunciationHash d
      if hash ∈ seen then unseenRows db seen rest
      else (db.readDenunciation hash).toList ++ unseenRows db (hash :: seen) rest

def blockDenunciations (db : Db) (cfg : RestConfig) (q : PageQ) (id : String) :
    Answer StoredDenunciationEntry :=
  match openBlock db cfg q id with
  | .error e => some (.error e)
  | .ok (limit, start, block) =>
      let total := block.denunciations.length
      let stop := min (start + limit) total
      if start < total then
        match slice block.denunciations start stop with
        | none => none
        | some part => some (.ok ⟨unseenRows db [] part, nextIdx stop total⟩)
      else some (.ok ⟨[], nextIdx stop total⟩)

end Handlers

end MassaIndexer.Rest.BlockPages
