/-
# Peer.Network -- the mesh of indexers

Each indexer takes events from its node, its archive and its operator, answers requests for a slot
from its store, and applies the answers of others. Answers can be delivered in any order, more than
once, and long after they were built.
-/
import MassaIndexer.Theory.Network
import MassaIndexer.Peer.Service
import MassaIndexer.Writer.Step

namespace MassaIndexer.Peer.Network

open MassaIndexer.Data.Ids MassaIndexer.Data.Model MassaIndexer.Data.Proto
open MassaIndexer.Store.ColumnFamilies
open MassaIndexer.Theory.Network MassaIndexer.Writer.Shared MassaIndexer.Writer.Step
open MassaIndexer.Peer.Patch MassaIndexer.Peer.Service

set_option autoImplicit false

/-! ## Parts -/

/-- The two parts of a slot whose completeness travels with an answer. -/
inductive Part where
  | exec
  | transfers

namespace Part

def flag : Part → SlotCompleteness → Bool
  | .exec, c => c.execOutputFinal
  | .transfers, c => c.transfersStored

/-- The sender's flag, as echoed. -/
def echoed : Part → FinalSlotResponse → Bool
  | .exec, resp => resp.hasExecOutput
  | .transfers, resp => resp.hasTransfers

/-- Any payload of the part. -/
def present : Part → FinalSlotResponse → Bool
  | .exec, resp => execPartPresent resp
  | .transfers, resp => transfersPartPresent resp

/-- The echo of a part the sender says it honoured. -/
def asserted : Part → FinalSlotResponse → Bool
  | .exec, resp => execAsserted resp
  | .transfers, resp => transfersAsserted resp

end Part

/-- The part is flagged complete at the slot. -/
def flagAt (p : Part) (db : Db) (s : Slot) : Bool :=
  ((db.readSlot s).map fun row => p.flag row.completeness).getD false

/-! ## Indexers -/

variable [Bs58Check] [DenunciationDigest]

/-- One indexer of the mesh. Peers' answers reach it by delivery only. -/
def indexer : Machine Db Timed (Slot × FinalSlotParts) FinalSlotResponse Int where
  act db e :=
    match e.event with
    | .peerPatch _ => db
    | _ => step db e
  answer db request := buildFinalSlotResponse db request.1 request.2
  accept db resp nowMs := (applyPeerPatch db resp nowMs).1

end MassaIndexer.Peer.Network
