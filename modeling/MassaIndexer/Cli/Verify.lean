/-
# Cli.Verify -- the orphan scan of the command line

`verify` walks every secondary index, reads from each key where its primary row is filed, and looks
the row up. The store here is what a raw scan sees of it: the keys of each family, whoever wrote
them (`RawDb`). Each family has an arm of its own in the source (`flaw`); the two indexes by last
slot have none and fall to the arm that takes everything as sound.
-/
import MassaIndexer.Data.KeyOrder
import MassaIndexer.Data.Storage

namespace MassaIndexer.Cli.Verify

open MassaIndexer.Theory.KeyedTable MassaIndexer.Theory.ByteText
open MassaIndexer.Data.Ids MassaIndexer.Data.Model MassaIndexer.Data.Keys MassaIndexer.Data.KeyOrder
open MassaIndexer.Data.Codec (CodecError)
open MassaIndexer.Data.Storage (MetaRow)

set_option autoImplicit false

/-! ## Raw families -/

inductive PrimaryCf where
  | block
  | op
  | scEvent
  | endorsement
  | transfer
  | denunciation
  | asyncMsg
  | deferredCall
deriving DecidableEq

inductive IndexCf where
  | blockByCreator
  | opByCreator
  | opByTarget
  | endorsementByCreator
  | transferByAddr
  | transferByOp
  | transferByBlock
  | denunciationByAddr
  | denunciationRecent
  | scEventByEmitter
  | scEventByCaller
  | scEventByOp
  | asyncBySender
  | asyncByDest
  | asyncByLastSlot
  | deferredBySender
  | deferredByTarget
  | deferredByLastSlot
deriving DecidableEq

def IndexCf.name : IndexCf → String
  | .blockByCreator => "idx_block_by_creator"
  | .opByCreator => "idx_op_by_creator"
  | .opByTarget => "idx_op_by_target"
  | .endorsementByCreator => "idx_endorsement_by_creator"
  | .transferByAddr => "idx_transfer_by_addr"
  | .transferByOp => "idx_transfer_by_op"
  | .transferByBlock => "idx_transfer_by_block"
  | .denunciationByAddr => "idx_denunciation_by_addr"
  | .denunciationRecent => "idx_denunciation_recent"
  | .scEventByEmitter => "idx_sc_event_by_emitter"
  | .scEventByCaller => "idx_sc_event_by_caller"
  | .scEventByOp => "idx_sc_event_by_op"
  | .asyncBySender => "idx_async_by_sender"
  | .asyncByDest => "idx_async_by_dest"
  | .asyncByLastSlot => "idx_async_by_last_slot"
  | .deferredBySender => "idx_deferred_by_sender"
  | .deferredByTarget => "idx_deferred_by_target"
  | .deferredByLastSlot => "idx_deferred_by_last_slot"

def secondaryIndexCfs : List IndexCf :=
  [.blockByCreator, .opByCreator, .opByTarget, .endorsementByCreator, .transferByAddr, .transferByOp,
    .transferByBlock, .denunciationByAddr, .denunciationRecent, .scEventByEmitter, .scEventByCaller,
    .scEventByOp, .asyncBySender, .asyncByDest, .asyncByLastSlot, .deferredBySender, .deferredByTarget,
    .deferredByLastSlot]

/-- The keys of the families, and what reading the meta row gives: it may be missing, or not decode. -/
structure RawDb where
  readMeta : Except CodecError (Option MetaRow)
  primary : PrimaryCf → Index
  index : IndexCf → Index

/-- `raw_get(cf, key)?.is_some()`. -/
def RawDb.has (db : RawDb) (cf : PrimaryCf) (key : Bytes) : Bool := (db.primary cf).contains key

/-! ## One entry -/

def splitAddrIdKey (k : Bytes) : Option (Bytes × Bytes) :=
  if k.length < addrKeyLen + 1 then none
  else if k.getD addrKeyLen 0 ≠ 0 then none
  else some (k.take addrKeyLen, k.drop (addrKeyLen + 1))

/-- An entry that does not parse, or whose primary row is missing. -/
def deref {α : Type} (malformed : String) (parsed : Option α) (present : α → Bool) : Option String :=
  match parsed with
  | none => some malformed
  | some x => if present x then none else some "primary row missing for index entry"

/-- What `verify` finds wrong with an entry. -/
def flaw (db : RawDb) (cf : IndexCf) (k : Bytes) : Option String :=
  match cf with
  | .blockByCreator => deref "key has wrong length for idx_block_by_creator" (parseIdxAddrSlotId k)
      fun x => db.has .block x.2
  | .opByCreator | .opByTarget => deref "key has wrong length for idx_op_by_*" (parseIdxAddrSlotId k)
      fun x => db.has .op x.2
  | .endorsementByCreator => deref "key has wrong length for idx_endorsement_by_creator"
      (parseIdxAddrSlotId k) fun x => db.has .endorsement x.2
  | .transferByAddr => deref "key has wrong length for idx_transfer_by_addr" (parseIdxTransferByAddr k)
      fun x => db.has .transfer (transferKey x.1 x.2.1)
  | .transferByOp | .transferByBlock => deref "key has wrong length for idx_transfer_by_\x7bop,block\x7d"
      (parseIdxIdSlotIndex k) fun x => db.has .transfer (transferKey x.1 x.2)
  | .denunciationByAddr => deref "key has wrong length for idx_denunciation_by_addr"
      (parseIdxDenunciationByAddr k) fun x => db.has .denunciation x.2
  | .denunciationRecent => deref "key has wrong length for idx_denunciation_recent"
      (parseIdxDenunciationRecent k) fun x => db.has .denunciation x.2
  | .scEventByEmitter | .scEventByCaller | .scEventByOp =>
      deref "key has wrong length for idx_sc_event_by_*" (parseIdxEvent k)
        fun x => db.has .scEvent (scEventKey x.1 x.2)
  | .asyncBySender | .asyncByDest => deref "key missing 0x00 separator" (splitAddrIdKey k)
      fun x => db.has .asyncMsg x.2
  | .deferredBySender | .deferredByTarget => deref "key missing 0x00 separator" (splitAddrIdKey k)
      fun x => db.has .deferredCall x.2
  -- `_ => true`: treated as ok
  | .asyncByLastSlot | .deferredByLastSlot => none

/-! ## The report -/

structure VerifyIssue where
  cf : String
  keyHex : String
  reason : String

structure VerifyReport where
  scanned : Nat := 0
  totalIssues : Nat := 0
  issues : List VerifyIssue := []
  perCfRows : Std.ExtTreeMap String Nat := ∅

def pushIssue (cap : Nat) (cf : String) (key : Bytes) (reason : String) (report : VerifyReport) :
    VerifyReport :=
  { report with
    totalIssues := report.totalIssues + 1
    issues := if report.issues.length < cap then report.issues ++ [⟨cf, Hex.encode key, reason⟩]
      else report.issues }

def verifyEntry (db : RawDb) (cap : Nat) (cf : IndexCf) (report : VerifyReport) (k : Bytes) :
    VerifyReport :=
  let report := { report with scanned := report.scanned + 1 }
  match flaw db cf k with
  | none => report
  | some reason => pushIssue cap cf.name k reason report

def verifyFamily (db : RawDb) (cap : Nat) (report : VerifyReport) (cf : IndexCf) : VerifyReport :=
  let keys := (db.index cf).toList
  let report := keys.foldl (verifyEntry db cap cf) report
  { report with perCfRows := report.perCfRows.insert cf.name keys.length }

def usizeMax : Nat := 2 ^ 64 - 1

def verify (db : RawDb) (maxIssues : Nat) : Except CodecError VerifyReport := do
  let cap := if maxIssues = 0 then usizeMax else maxIssues
  let row ← db.readMeta
  let report :=
    if row.isNone then
      pushIssue cap "cf_meta" (textBytes "row") "meta row missing — DB never finished its first boot?" {}
    else {}
  return secondaryIndexCfs.foldl (verifyFamily db cap) report

/-! ## The count of issues -/

/-- Every entry of the indexes, family by family. -/
def entries (db : RawDb) : List (IndexCf × Bytes) :=
  secondaryIndexCfs.flatMap fun cf => (db.index cf).toList.map fun k => (cf, k)

def flawed (db : RawDb) (entry : IndexCf × Bytes) : Bool := (flaw db entry.1 entry.2).isSome

section Count

variable (db : RawDb) (cap : Nat)

theorem totalIssues_verifyEntry (cf : IndexCf) (report : VerifyReport) (k : Bytes) :
    (verifyEntry db cap cf report k).totalIssues =
      report.totalIssues + if flawed db (cf, k) then 1 else 0 := by
  unfold verifyEntry flawed
  cases flaw db cf k with
  | none => rfl
  | some reason => rfl

theorem totalIssues_foldl_verifyEntry (cf : IndexCf) (keys : List Bytes) (report : VerifyReport) :
    (keys.foldl (verifyEntry db cap cf) report).totalIssues =
      report.totalIssues + (keys.map fun k => (cf, k)).countP (flawed db) := by
  induction keys generalizing report with
  | nil => rfl
  | cons k keys ih =>
      rw [List.foldl_cons, ih, totalIssues_verifyEntry, List.map_cons, List.countP_cons]
      omega

theorem totalIssues_foldl_verifyFamily (cfs : List IndexCf) (report : VerifyReport) :
    (cfs.foldl (verifyFamily db cap) report).totalIssues = report.totalIssues +
      (cfs.flatMap fun cf => (db.index cf).toList.map fun k => (cf, k)).countP (flawed db) := by
  induction cfs generalizing report with
  | nil => rfl
  | cons cf cfs ih =>
      have family : (verifyFamily db cap report cf).totalIssues =
          ((db.index cf).toList.foldl (verifyEntry db cap cf) report).totalIssues := rfl
      rw [List.foldl_cons, ih, family, totalIssues_foldl_verifyEntry, List.flatMap_cons,
        List.countP_append]
      omega

/-- One issue for the missing meta row and one for each flawed entry, whatever the cap is. -/
theorem verify_eq_ok {maxIssues : Nat} {report : VerifyReport}
    (verified : verify db maxIssues = .ok report) :
    ∃ row, db.readMeta = .ok row ∧
      report.totalIssues = (if row.isNone then 1 else 0) + (entries db).countP (flawed db) := by
  unfold verify at verified
  cases read : db.readMeta with
  | error e =>
      rw [read] at verified
      cases verified
  | ok row =>
      rw [read] at verified
      obtain rfl := Except.ok.inj verified
      refine ⟨row, rfl, ?_⟩
      rw [totalIssues_foldl_verifyFamily]
      cases row with
      | none => rfl
      | some m => rfl

end Count

theorem mem_secondaryIndexCfs (cf : IndexCf) : cf ∈ secondaryIndexCfs := by
  cases cf <;> decide

theorem mem_entries {db : RawDb} {cf : IndexCf} {k : Bytes} :
    (cf, k) ∈ entries db ↔ k ∈ db.index cf := by
  simp [entries, mem_secondaryIndexCfs]

end MassaIndexer.Cli.Verify
