/-
# Repair.Passes -- the repair passes beside the writer

The three producers run beside the single writer. Each looks at one slot at a time, reads the store as
it is then, and what it builds waits as a draft until the bulk lane takes it; the writer applies the
lane in order. Slots may be looked at in any order and any number of times, a crash loses the drafts
and the lane, and the store keeps every write. `seen` says which slots a pass has dealt with and not
lost since.

The archive is closed: what it holds for a slot does not change.
-/
import MassaIndexer.Repair.Applied

namespace MassaIndexer.Repair.Passes

open MassaIndexer.Data.Ids MassaIndexer.Data.Model MassaIndexer.Data.Proto
open MassaIndexer.Store.ColumnFamilies MassaIndexer.Writer.Shared
open MassaIndexer.Repair.Producers MassaIndexer.Repair.Numbering MassaIndexer.Repair.Applied

set_option autoImplicit false

inductive Pass where
  | reconstructTransfers
  | legacySubTransfers
  | oneShot
deriving DecidableEq

/-- The window of the one-shot importer, its head resolved. -/
structure OneShotConfig where
  floor : UInt64
  headPeriod : UInt64
  threadCount : UInt8

structure Archive where
  blockRow : Slot → Option ArchivedBlock
  items : Slot → List OperationsItem

def Archive.slot (archive : Archive) (s : Slot) : Option ArchivedSlot :=
  (archive.blockRow s).map fun b => { b with items := archive.items s }

structure Passes where
  archive : Archive
  reconstruct : ReconstructConfig
  subTransfers : LegacySubTransfersConfig
  oneShot : OneShotConfig

def Passes.covers (passes : Passes) : Pass → Slot → Bool
  | .reconstructTransfers => passes.reconstruct.covers
  | .legacySubTransfers => passes.subTransfers.timing.covers
  | .oneShot => fun s =>
      passes.oneShot.floor ≤ s.period && s.period ≤ passes.oneShot.headPeriod &&
        s.thread < passes.oneShot.threadCount

/-- A patch on its way, who built it and for which slot. -/
structure Queued where
  pass : Pass
  slot : Slot
  resp : FinalSlotResponse

/-- A patch that is built, or the archive's word that it has nothing. -/
inductive Draft where
  | patch (q : Queued)
  | empty (slot : Slot)

structure World where
  db : Db
  drafts : List Draft := []
  lane : List Queued := []
  seen : List (Pass × Slot) := []
  finished : Bool := false

def Draft.patch? : Draft → Option Queued
  | .patch q => some q
  | .empty _ => none

def Draft.mark : Draft → Pass × Slot
  | .patch q => (q.pass, q.slot)
  | .empty s => (.oneShot, s)

/-- The patches that are built and not applied. -/
def World.pending (w : World) : List Queued := w.drafts.filterMap Draft.patch? ++ w.lane

inductive Act where
  | reconstruct (s : Slot)
  | subTransfers (s : Slot)
  | lookUp (s : Slot) (nowMs : Int)
  | send (i : Nat)
  | apply (nowMs : Int)
  | crash
  | finish

section Steps

variable [Bs58Check]

/-- What a draft puts on the lane. Before an empty answer becomes a miss the row is read again. -/
def Draft.sent (db : Db) : Draft → Option Queued
  | .patch q => some q
  | .empty s =>
      if (db.readSlot s).any keepsBlock then none else some ⟨.oneShot, s, missPatch s⟩

/-- A pass is done with a slot, with this draft if there is something to ship. -/
def World.looked (w : World) (pass : Pass) (s : Slot) (draft : Option Draft) : World :=
  { w with drafts := w.drafts ++ draft.toList, seen := (pass, s) :: w.seen }

def builtBy (pass : Pass) (s : Slot) (resp : Option FinalSlotResponse) : Option Draft :=
  resp.map fun resp => .patch ⟨pass, s, resp⟩

/-- What the importer's look at a slot leads to. -/
def lookedUp (passes : Passes) (db : Db) (s : Slot) (nowMs : Int) : Option Draft :=
  if coveredAt db s then none
  else
    match passes.archive.slot s with
    | none => some (.empty s)
    | some a => some (.patch ⟨.oneShot, s, fetchSlot s a nowMs⟩)

variable [DenunciationDigest]

def World.next (passes : Passes) (w : World) : Act → World
  | .reconstruct s =>
      if passes.covers .reconstructTransfers s then
        w.looked .reconstructTransfers s
          (builtBy .reconstructTransfers s (reconstructSlot w.db passes.reconstruct s))
      else w
  | .subTransfers s =>
      if passes.covers .legacySubTransfers s then
        w.looked .legacySubTransfers s (builtBy .legacySubTransfers s
          (subTransfersPatch w.db passes.subTransfers s (passes.archive.items s)))
      else w
  | .lookUp s nowMs =>
      if passes.covers .oneShot s then w.looked .oneShot s (lookedUp passes w.db s nowMs) else w
  | .send i =>
      match w.drafts[i]? with
      | none => w
      | some draft =>
          { w with
            drafts := w.drafts.eraseIdx i
            lane := w.lane ++ (draft.sent w.db).toList }
  | .apply nowMs =>
      match w.lane with
      | [] => w
      | q :: lane => { w with db := applied w.db q.resp nowMs, lane := lane }
  | .crash =>
      let lost := w.drafts.map Draft.mark ++ w.lane.map fun q => (q.pass, q.slot)
      { w with drafts := [], lane := [], seen := w.seen.filter fun mark => mark ∉ lost }
  | .finish => if w.drafts.isEmpty && w.lane.isEmpty then { w with finished := true } else w

end Steps

end MassaIndexer.Repair.Passes
