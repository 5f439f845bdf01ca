/-
# Rest.Exports -- the CSV exports of a period range

An export reads rows newest first up to its cap, and writes one record for each of them whose period
lies in the range. The slots come from one read; the transfers of an address are collected in
batches of 10,000 along the cursors. The text of the records is left out: an export is the list of
the rows it writes.
-/
import MassaIndexer.Rest.BlockPages
import MassaIndexer.Rest.Charts
import MassaIndexer.Store.TransferScan
import MassaIndexer.Theory.Batches

namespace MassaIndexer.Rest.Exports

open MassaIndexer.Theory.Batches
open MassaIndexer.Data.Ids MassaIndexer.Data.Model
open MassaIndexer.Store.ColumnFamilies MassaIndexer.Store.TransferScan
open MassaIndexer.Rest.BlockPages (ApiErr)
open MassaIndexer.Rest.Charts

set_option autoImplicit false

structure ExportRangeQ where
  fromPeriod : Option UInt64 := none
  toPeriod : Option UInt64 := none
  limit : Option Nat := none

/-- What the loops of both exports do not pass over. -/
def ExportRangeQ.takes (q : ExportRangeQ) (s : Slot) : Bool :=
  !(q.fromPeriod.any fun fp => s.period < fp) && !(q.toPeriod.any fun tp => tp < s.period)

def slotsCap (q : ExportRangeQ) : Nat := min (q.limit.getD 10000) 100000

def exportSlotsCsv (db : Db) (q : ExportRangeQ) : List SlotState :=
  (fetchRecentSlots db (slotsCap q)).filter fun row => q.takes row.slot

def transfersCap (q : ExportRangeQ) : Nat := min (q.limit.getD 100000) 500000

def batch : Nat := 10000

def exportAddrTransfersCsv [Bs58Check] (db : Db) (text : String) (q : ExportRangeQ) :
    Except ApiErr (List StoredTransfer) :=
  match Address.parse text with
  | .error e => .error (.bad e)
  | .ok a =>
      .ok ((collect (iterTransfersByAddr db a) batch none (transfersCap q)).filter fun t =>
          q.takes t.slot)

end MassaIndexer.Rest.Exports
