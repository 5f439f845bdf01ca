/-
# Writer.Step -- the single writer

Every source of data reaches the store through one queue of events; `step` applies one event and a
run of the writer is the fold of `step`. A handler that fails is logged and dropped: the writes it
made before the error stay, and the next event is taken. The clock is read once for each event.

The live lane goes before the bulk lane, so not every order of events can occur; the results below
are about any order, and need none of this.
-/
import MassaIndexer.Writer.Handlers
import MassaIndexer.Peer.Patch
import MassaIndexer.Theory.Runs

namespace MassaIndexer.Writer.Step

open MassaIndexer.Data.Ids MassaIndexer.Data.Model MassaIndexer.Data.Proto
open MassaIndexer.Store.ColumnFamilies MassaIndexer.Theory.Runs
open MassaIndexer.Writer.NodeProto MassaIndexer.Writer.Shared MassaIndexer.Writer.Handlers
open MassaIndexer.Peer.Patch

set_option autoImplicit false

inductive Event where
  | block (fb : FilledBlock)
  | exec (out : SlotExecutionOutput)
  | transfers (resp : NewTransfersInfoServerResponse)
  | peerPatch (resp : FinalSlotResponse)
  | legacyPatch (resp : FinalSlotResponse)
  | forcedVerdict (resp : FinalSlotResponse)
  | tick

/-- An event and the wall clock when the writer takes it. -/
structure Timed where
  event : Event
  nowMs : Int

variable [Bs58Check] [DenunciationDigest]

/-- `Ingest::handle`. -/
def step (db : Db) (e : Timed) : Db :=
  match e.event with
  | .block fb => (handleBlock db fb e.nowMs).db
  | .exec out => (handleExec db out e.nowMs).db
  | .transfers resp => (handleTransfers db resp e.nowMs).db
  | .peerPatch resp => (applyPeerPatch db resp e.nowMs).1
  | .legacyPatch resp => (applyLegacyPatch db resp e.nowMs).1
  | .forcedVerdict resp =>
      match applyForcedVerdict db resp e.nowMs with
      | .ok (db, _) => db
      | .error _ => db
  | .tick => db

/-- The store after a run from a fresh one. -/
def ingest (events : List Timed) : Db := run step Db.empty events

end MassaIndexer.Writer.Step
