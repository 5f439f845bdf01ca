/-
# Store.Footprint -- the primitive writes of the store

Every procedure of the writer is a sequence of these. A write belongs to the column family it is
filed in, its indexes included; what a procedure writes is said by listing families, and every other
family is then unchanged.
-/
import MassaIndexer.Store.ColumnFamilies
import MassaIndexer.Theory.Footprint

namespace MassaIndexer.Store.Footprint

open MassaIndexer.Theory.Footprint MassaIndexer.Theory.KeyedTable
open MassaIndexer.Data.Ids MassaIndexer.Data.Model MassaIndexer.Data.Keys
open MassaIndexer.Store.ColumnFamilies

set_option autoImplicit false

inductive Family where
  | slots
  | blocks
  | endorsements
  | ops
  | scEvents
  | denunciations
  | transfers
  | asyncMsgs
  | deferredCalls
  | heads
deriving DecidableEq

inductive Write where
  | slot (row : SlotState)
  | block (b : StoredBlock)
  | endorsement (e : StoredEndorsement)
  | op (op : StoredOperation)
  | scEvent (ev : StoredScEvent)
  | clearScEvents (s : Slot)
  | denunciation (d : StoredDenunciationEntry)
  | transfer (t : StoredTransfer)
  | clearTransfers (s : Slot)
  | asyncMsg (m : StoredAsyncMsg)
  | deferredCall (d : StoredDeferredCall)
  | lastFinalSlot (s : Slot)
  | lastCandidateSlot (s : Slot)

def Write.family : Write → Family
  | .slot _ => .slots
  | .block _ => .blocks
  | .endorsement _ => .endorsements
  | .op _ => .ops
  | .scEvent _ => .scEvents
  | .clearScEvents _ => .scEvents
  | .denunciation _ => .denunciations
  | .transfer _ => .transfers
  | .clearTransfers _ => .transfers
  | .asyncMsg _ => .asyncMsgs
  | .deferredCall _ => .deferredCalls
  | .lastFinalSlot _ => .heads
  | .lastCandidateSlot _ => .heads

variable [Bs58Check]

def apply (db : Db) : Write → Db
  | .slot row => db.writeSlot row
  | .block b => db.writeBlock b
  | .endorsement e => db.writeEndorsement e
  | .op op => db.writeOp op
  | .scEvent ev => db.writeScEvent ev
  | .clearScEvents s => db.clearScEventsForSlot s
  | .denunciation d => db.writeDenunciation d
  | .transfer t => db.writeTransfer t
  | .clearTransfers s => db.clearTransfersForSlot s
  | .asyncMsg m => db.writeAsyncMsg m
  | .deferredCall d => db.writeDeferredCall d
  | .lastFinalSlot s => db.updateLastFinalSlot s
  | .lastCandidateSlot s => db.updateLastCandidateSlot s

/-- `db'` is reached from `db` by writes to the listed families. -/
def WritesTo (fs : List Family) (db db' : Db) : Prop :=
  Writes apply (fun _ w => fs.contains w.family = true) db db'

namespace WritesTo

variable {fs gs : List Family} {db db₁ db' : Db}

theorem none : WritesTo fs db db := Writes.none

theorem one (w : Write) (listed : fs.contains w.family = true) : WritesTo fs db (apply db w) :=
  Writes.one listed

theorem trans (first : WritesTo fs db db₁) (second : WritesTo fs db₁ db') : WritesTo fs db db' :=
  Writes.trans first second

theorem weaken (writes : WritesTo fs db db') (sub : fs.all gs.contains = true) :
    WritesTo gs db db' :=
  Writes.weaken writes fun _ w listed =>
    List.all_eq_true.mp sub w.family (by simpa using listed)

theorem foldl {α : Type} {f : Db → α → Db} {l : List α}
    (each : ∀ db, ∀ a ∈ l, WritesTo fs db (f db a)) (db : Db) : WritesTo fs db (l.foldl f db) :=
  Writes.foldl each db

/-- A view that no write to the listed families moves. -/
theorem view {β : Type} (look : Db → β) (writes : WritesTo fs db db')
    (blind : ∀ db w, fs.contains w.family = true → look (apply db w) = look db) :
    look db' = look db := Writes.view look writes blind

end WritesTo

/-! ## The families a write leaves alone -/

/-- The rows and index entries of a family. -/
@[reducible] def Contents : Family → Type
  | .slots => Table SlotState
  | .blocks => Table StoredBlock × Index × Index
  | .endorsements => Table StoredEndorsement × Index
  | .ops => Table StoredOperation × Index × Index
  | .scEvents => Table StoredScEvent × Index × Index × Index
  | .denunciations => Table StoredDenunciationEntry × Index × Index
  | .transfers => Table StoredTransfer × Index × Index × Index
  | .asyncMsgs => Table StoredAsyncMsg × Index × Index × Index
  | .deferredCalls => Table StoredDeferredCall × Index × Index × Index
  | .heads => Option Slot × Option Slot

def contents (db : Db) : (f : Family) → Contents f
  | .slots => db.slots
  | .blocks => (db.blocks, db.blockByCreator, db.slotCandidateBlock)
  | .endorsements => (db.endorsements, db.endorsementByCreator)
  | .ops => (db.ops, db.opByCreator, db.opByTarget)
  | .scEvents => (db.scEvents, db.scEventByEmitter, db.scEventByCaller, db.scEventByOp)
  | .denunciations => (db.denunciations, db.denunciationByAddr, db.denunciationRecent)
  | .transfers => (db.transfers, db.transferByAddr, db.transferByOp, db.transferByBlock)
  | .asyncMsgs => (db.asyncMsgs, db.asyncBySender, db.asyncByDest, db.asyncByLastSlot)
  | .deferredCalls =>
      (db.deferredCalls, db.deferredBySender, db.deferredByTarget, db.deferredByLastSlot)
  | .heads => (db.lastFinalSlot, db.lastCandidateSlot)

omit [Bs58Check] in
/-- A store is its families. -/
theorem ext_contents {db db' : Db} (same : ∀ f, contents db f = contents db' f) : db = db' := by
  have slots := same .slots
  have blocks := same .blocks
  have endorsements := same .endorsements
  have ops := same .ops
  have scEvents := same .scEvents
  have denunciations := same .denunciations
  have transfers := same .transfers
  have asyncMsgs := same .asyncMsgs
  have deferredCalls := same .deferredCalls
  have heads := same .heads
  cases db
  cases db'
  simp only [contents, Prod.mk.injEq] at *
  simp_all

theorem contents_apply (db : Db) (w : Write) {f : Family} (other : w.family ≠ f) :
    contents (apply db w) f = contents db f := by
  cases w with
  | endorsement e =>
      simp only [apply, Db.writeEndorsement]
      split
      · rfl
      · cases f <;> first | exact absurd rfl other | rfl
  | denunciation d =>
      simp only [apply, Db.writeDenunciation]
      split
      · split
        · cases f <;> first | exact absurd rfl other | rfl
        · rfl
      · cases f <;> first | exact absurd rfl other | rfl
  | _ => cases f <;> first | exact absurd rfl other | rfl

theorem WritesTo.contents_eq {fs : List Family} {db db' : Db} (writes : WritesTo fs db db')
    (f : Family) (untouched : fs.contains f = false) : contents db' f = contents db f := by
  refine writes.view (contents · f) fun db w listed => contents_apply db w ?_
  rintro rfl
  rw [untouched] at listed
  exact absurd listed (by decide)

section SameReads

variable {db db' : Db}

omit [Bs58Check] in
theorem sameReadSlot (same : contents db .slots = contents db' .slots) (s : Slot) :
    db.readSlot s = db'.readSlot s :=
  congrArg (fun t : Contents .slots => t.get (slotKey s)) same

omit [Bs58Check] in
theorem sameReadBlock (same : contents db .blocks = contents db' .blocks) (b : BlockId) :
    db.readBlock b = db'.readBlock b :=
  congrArg (fun t : Contents .blocks => t.1.get b.bytes) same

omit [Bs58Check] in
theorem sameReadEndorsement (same : contents db .endorsements = contents db' .endorsements)
    (e : EndorsementId) : db.readEndorsement e = db'.readEndorsement e :=
  congrArg (fun t : Contents .endorsements => t.1.get e.bytes) same

omit [Bs58Check] in
theorem sameReadOp (same : contents db .ops = contents db' .ops) (o : OperationId) :
    db.readOp o = db'.readOp o :=
  congrArg (fun t : Contents .ops => t.1.get o.bytes) same

omit [Bs58Check] in
theorem sameScEvents (same : contents db .scEvents = contents db' .scEvents) (s : Slot) :
    db.scEventsOfSlot s = db'.scEventsOfSlot s :=
  congrArg (fun t : Contents .scEvents => t.1.under (slotKey s)) same

omit [Bs58Check] in
theorem sameTransfers (same : contents db .transfers = contents db' .transfers) (s : Slot) :
    db.transfersForSlot s = db'.transfersForSlot s :=
  congrArg (fun t : Contents .transfers => t.1.under (slotKey s)) same

omit [Bs58Check] in
theorem sameReadAsyncMsg (same : contents db .asyncMsgs = contents db' .asyncMsgs) (id : String) :
    db.readAsyncMsg id = db'.readAsyncMsg id :=
  congrArg (fun t : Contents .asyncMsgs => t.1.get (textBytes id)) same

omit [Bs58Check] in
theorem sameReadDeferredCall (same : contents db .deferredCalls = contents db' .deferredCalls)
    (id : String) : db.readDeferredCall id = db'.readDeferredCall id :=
  congrArg (fun t : Contents .deferredCalls => t.1.get (textBytes id)) same

end SameReads

section Reads

variable {fs : List Family} {db db' : Db} (writes : WritesTo fs db db')

include writes

theorem WritesTo.readSlot (untouched : fs.contains .slots = false) (s : Slot) :
    db'.readSlot s = db.readSlot s := sameReadSlot (writes.contents_eq .slots untouched) s

theorem WritesTo.readBlock (untouched : fs.contains .blocks = false) (b : BlockId) :
    db'.readBlock b = db.readBlock b := sameReadBlock (writes.contents_eq .blocks untouched) b

theorem WritesTo.readOp (untouched : fs.contains .ops = false) (o : OperationId) :
    db'.readOp o = db.readOp o := sameReadOp (writes.contents_eq .ops untouched) o

theorem WritesTo.scEventsOfSlot (untouched : fs.contains .scEvents = false) (s : Slot) :
    db'.scEventsOfSlot s = db.scEventsOfSlot s :=
  sameScEvents (writes.contents_eq .scEvents untouched) s

theorem WritesTo.transfersForSlot (untouched : fs.contains .transfers = false) (s : Slot) :
    db'.transfersForSlot s = db.transfersForSlot s :=
  sameTransfers (writes.contents_eq .transfers untouched) s

theorem WritesTo.readAsyncMsg (untouched : fs.contains .asyncMsgs = false) (id : String) :
    db'.readAsyncMsg id = db.readAsyncMsg id :=
  sameReadAsyncMsg (writes.contents_eq .asyncMsgs untouched) id

theorem WritesTo.readDeferredCall (untouched : fs.contains .deferredCalls = false) (id : String) :
    db'.readDeferredCall id = db.readDeferredCall id :=
  sameReadDeferredCall (writes.contents_eq .deferredCalls untouched) id

end Reads

/-! ## Procedures confined to one family -/

/-- A procedure that writes one family and goes by what that family holds. -/
abbrev ConfinedTo (f : Family) (P : Db → Db) : Prop := Confined contents f P

/-- From a footprint, and that the procedure goes by its family. -/
theorem confinedTo_of_writes {f : Family} {P : Db → Db} (writes : ∀ db, WritesTo [f] db (P db))
    (own : ∀ db db', contents db f = contents db' f → contents (P db) f = contents (P db') f) :
    ConfinedTo f P where
  frame db g other := (writes db).contents_eq g (by simpa using other)
  own := own

/-- Every primitive write is confined to its family. -/
theorem confinedTo_apply (w : Write) : ConfinedTo w.family (apply · w) where
  frame db f other := contents_apply db w (Ne.symm other)
  own db db' same := by
    cases w with
    | endorsement e =>
        simp only [Write.family, contents, apply, Prod.mk.injEq] at same ⊢
        obtain ⟨table, creators⟩ := same
        simp only [Db.writeEndorsement, Db.readEndorsement, table]
        by_cases known : (db'.endorsements.get e.id.bytes).isSome
        · simp only [known, if_true]
          exact ⟨table, creators⟩
        · simp only [known, creators]
          exact ⟨rfl, rfl⟩
    | denunciation d =>
        simp only [Write.family, contents, apply, Prod.mk.injEq] at same ⊢
        obtain ⟨table, addrs, recent⟩ := same
        simp only [Db.writeDenunciation, Db.readDenunciation, table]
        cases db'.denunciations.get d.hash with
        | none => simp only [addrs, recent, and_self]
        | some prev =>
            dsimp only
            by_cases gains : (prev.includedBlockId.isNone && d.includedBlockId.isSome) = true
            · simp only [gains, if_true]
              exact ⟨trivial, addrs, recent⟩
            · simp only [gains]
              exact ⟨table, addrs, recent⟩
    | lastFinalSlot s => simp_all [Write.family, contents, apply, Db.updateLastFinalSlot]
    | lastCandidateSlot s => simp_all [Write.family, contents, apply, Db.updateLastCandidateSlot]
    | slot row => simp_all [Write.family, contents, apply, Db.writeSlot]
    | block b => simp_all [Write.family, contents, apply, Db.writeBlock]
    | op op => simp_all [Write.family, contents, apply, Db.writeOp]
    | scEvent ev => simp_all [Write.family, contents, apply, Db.writeScEvent]
    | clearScEvents s =>
        simp_all [Write.family, contents, apply, Db.clearScEventsForSlot, Db.scEventsOfSlot]
    | transfer t => simp_all [Write.family, contents, apply, Db.writeTransfer]
    | clearTransfers s =>
        simp_all [Write.family, contents, apply, Db.clearTransfersForSlot, Db.transfersForSlot]
    | asyncMsg m =>
        simp_all [Write.family, contents, apply, Db.writeAsyncMsg, Db.readAsyncMsg]
    | deferredCall d =>
        simp_all [Write.family, contents, apply, Db.writeDeferredCall, Db.readDeferredCall]

end MassaIndexer.Store.Footprint
