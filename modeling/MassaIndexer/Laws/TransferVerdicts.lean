/-
# Laws.TransferVerdicts -- the transfers of a slot and its verdict

The transfers filed under a FINAL slot should name the block it is FINAL with, or none. The transfer
stream, the archive and the rows a peer ships are filed without a look at the verdict; only the repair
of a divergence clears them. `RowsSuit` says of an event that the rows it files, and the rows it leaves
under a slot it settles, name the right block.
-/
import MassaIndexer.Writer.Moves
import MassaIndexer.Chain.Snapshot

namespace MassaIndexer.Laws.TransferVerdicts

open MassaIndexer.Theory.Runs
open MassaIndexer.Data.Ids MassaIndexer.Data.Model MassaIndexer.Data.Proto MassaIndexer.Data.RowCodec
open MassaIndexer.Store.ColumnFamilies MassaIndexer.Store.SlotRows
open MassaIndexer.Writer MassaIndexer.Writer.NodeProto MassaIndexer.Writer.NodeDecode
open MassaIndexer.Writer.Shared MassaIndexer.Writer.Handlers MassaIndexer.Writer.Step
open MassaIndexer.Writer.Families
open MassaIndexer.Writer.Patches MassaIndexer.Writer.Moves MassaIndexer.Peer.Patch
open MassaIndexer.Peer.Arbiter MassaIndexer.Chain

set_option autoImplicit false

section Writers

variable [Bs58Check]

/-- The transfer names no block, or this one. -/
def Fits (block : Option BlockId) (t : StoredTransfer) : Prop :=
  ∀ name, t.blockId = some name → block.map FamilyId.text = some name

/-- Under a FINAL slot whose transfers are stored, every transfer that names a block names the slot's;
under a miss none names any. -/
def TransfersMatch (db : Db) : Prop :=
  ∀ s row, db.readSlot s = some row → row.status = .final → row.completeness.transfersStored = true →
    ∀ t ∈ db.transfersForSlot s, ∀ name, t.blockId = some name →
      row.isMiss = false ∧ row.finalBlockId.map FamilyId.text = some name

/-- The same for a register and the rows under its slot. -/
def MatchAt (r : Register) (held : UInt32 → Option StoredTransfer) : Prop :=
  r.status = .final → r.completeness.transfersStored = true →
    ∀ index t, held index = some t → Fits r.finalBlockId t

theorem transfersMatch_iff {db : Db} (wf : (ledgerOf db).WellFormed) :
    TransfersMatch db ↔ ∀ s, MatchAt ((ledgerOf db).reg s) ((filedTransfers db).row s) := by
  constructor
  · intro matched s final stored index t found name named
    obtain ⟨row, here, reg⟩ := exists_row_of_final final
    rw [← reg] at final stored ⊢
    have filed : t.indexInSlot = index :=
      (Data.Keys.scEventKey_injective (Theory.KeyedTable.Table.key_of_get found)).2
    exact (matched s row here final stored t (mem_transfersForSlot_iff.mpr (filed ▸ found)) name
      named).2
  · intro matched s row here final stored t member name named
    have reg := registerOf_of_readSlot here
    have known := matched s
    rw [← reg] at known
    have block := known final stored t.indexInSlot t (mem_transfersForSlot_iff.mp member) name named
    refine ⟨?_, block⟩
    cases isMiss : row.isMiss with
    | false => rfl
    | true =>
        have none : row.finalBlockId = none := by
          have miss := (wf s).miss
          rw [← reg] at miss
          exact miss isMiss
        simp [registerOf, none] at block

/-! ## What an event may file -/

/-- The rows that stay of those filed under a slot. -/
def RowsFit (rows : List StoredTransfer) (u : Slot) (block : Option BlockId) : Prop :=
  ∀ index t, last transferFiling rows u index = some t → Fits block t

/-- The rows already there that no new row replaces. -/
def HeldFit (db : Db) (rows : List StoredTransfer) (u : Slot) (block : Option BlockId) : Prop :=
  ∀ index t, last transferFiling rows u index = none → (filedTransfers db).row u index = some t → Fits block t

/-- Rows that name another slot than the one the event is about. -/
def ForeignFit (db : Db) (rows : List StoredTransfer) (s : Slot) : Prop :=
  ∀ u, u ≠ s → ((ledgerOf db).reg u).status = .final →
    ((ledgerOf db).reg u).completeness.transfersStored = true →
      RowsFit rows u ((ledgerOf db).reg u).finalBlockId

theorem matchAt_move_iff (r : Register) (m : Move StoredTransfer) (db : Db) (u : Slot) :
    MatchAt r ((m.run transferFiling (filedTransfers db)).row u) ↔
      (r.status = .final → r.completeness.transfersStored = true →
        RowsFit m.rows u r.finalBlockId ∧
          (m.cleared ≠ some u → HeldFit db m.rows u r.finalBlockId)) := by
  refine forall_congr' fun final => forall_congr' fun stored => ?_
  simp only [row_run]
  constructor
  · intro fits
    refine ⟨fun index t last => ?_, fun kept index t none found => ?_⟩
    · exact fits index (readBackTransfer t) (by rw [last]; rfl)
    · exact fits index t (by rw [none, if_neg kept]; exact found)
  · rintro ⟨rows, held⟩ index t found
    cases last : last transferFiling m.rows u index with
    | some new =>
        rw [last] at found
        obtain rfl : readBackTransfer new = t := Option.some.inj found
        exact rows index new last
    | none =>
        rw [last] at found
        by_cases cleared : m.cleared = some u
        · rw [if_pos cleared] at found
          cases found
        · rw [if_neg cleared] at found
          exact held cleared index t last found

/-- The block an offer names. -/
def named (o : Offer) : Option BlockId := if o.isMiss then none else o.block

/-- The rows a peer's answer files name the block its slot is FINAL with afterwards; an open slot that
has its transfers already is settled with the block those name. -/
structure AnswerSuits (db : Db) (o : Offer) (rows : List StoredTransfer) : Prop where
  foreign : ForeignFit db rows o.slot
  settles : ((ledgerOf db).reg o.slot).status ≠ .final → RowsFit rows o.slot (named o) ∧
    (((ledgerOf db).reg o.slot).completeness.transfersStored = true →
      HeldFit db rows o.slot (named o))
  agrees : ((ledgerOf db).reg o.slot).status = .final → ¬ Disputed (ledgerOf db) o →
    RowsFit rows o.slot ((ledgerOf db).reg o.slot).finalBlockId
  replaces : ((ledgerOf db).reg o.slot).status = .final → Disputed (ledgerOf db) o →
    RowsFit rows o.slot (named o)

/-- The same for the archive, whose rows are filed in any case and replace no verdict. -/
structure ArchiveSuits (db : Db) (o : Offer) (rows : List StoredTransfer) : Prop where
  foreign : ForeignFit db rows o.slot
  settles : ((ledgerOf db).reg o.slot).status ≠ .final →
    ((ledgerOf db).reg o.slot).completeness.transfersStored = true →
      RowsFit rows o.slot (named o) ∧ HeldFit db rows o.slot (named o)
  agrees : ((ledgerOf db).reg o.slot).status = .final →
    ((ledgerOf db).reg o.slot).completeness.transfersStored = true →
      RowsFit rows o.slot ((ledgerOf db).reg o.slot).finalBlockId

theorem foreignFit_nil (db : Db) (s : Slot) : ForeignFit db [] s :=
  fun _ _ _ _ _ _ last => by cases last

theorem rowsFit_nil (s : Slot) (block : Option BlockId) : RowsFit [] s block :=
  fun _ _ last => by cases last

/-- Where no row is filed, a register that settles nothing new keeps matching. -/
theorem matchAt_of_kept {db : Db} {m : Move StoredTransfer} {u : Slot} {r r' : Register}
    (before : MatchAt r ((filedTransfers db).row u)) (files : m.rows = [])
    (kept : r'.status = .final → r'.completeness.transfersStored = true →
      m.cleared = some u ∨ r.status = .final ∧ r.completeness.transfersStored = true ∧
        r'.finalBlockId = r.finalBlockId) : MatchAt r' ((m.run transferFiling (filedTransfers db)).row u) := by
  rw [matchAt_move_iff, files]
  refine fun final stored => ⟨rowsFit_nil u _, fun notCleared index t _ found => ?_⟩
  obtain cleared | ⟨was, had, block⟩ := kept final stored
  · exact absurd cleared notCleared
  · rw [block]
    exact before was had index t found

section Step

variable [DenunciationDigest]

/-- An event leaves no transfer that names another block than its slot's. -/
def RowsSuit (db : Db) (e : Timed) : Prop :=
  match actOf db e with
  | .final s _ block _ => ((ledgerOf db).reg s).status ≠ .final →
      ((ledgerOf db).reg s).completeness.transfersStored = true → HeldFit db [] s block
  | .transfers s => ((ledgerOf db).reg s).status = .final →
      RowsFit (transferMove db e).rows s ((ledgerOf db).reg s).finalBlockId
  | .peer o => AnswerSuits db o (transferMove db e).rows
  | .legacy o => ArchiveSuits db o (transferMove db e).rows
  | _ => True

def AllMatch (db : Db) : Prop := ∀ s, MatchAt ((ledgerOf db).reg s) ((filedTransfers db).row s)

theorem matchAt_step_iff (db : Db) (e : Timed) (u : Slot) :
    MatchAt ((ledgerOf (step db e)).reg u) ((filedTransfers (step db e)).row u) ↔
      MatchAt (((ledgerOf db).step (actOf db e)).reg u) (((transferMove db e).run transferFiling (filedTransfers db)).row u) := by
  rw [ledgerOf_step, filedTransfers_step]

/-- An event that leaves the other registers alone, and clears no other slot. -/
theorem allMatch_step_iff {db : Db} {e : Timed} (before : AllMatch db) (s : Slot)
    (others : ∀ u, u ≠ s → ((ledgerOf db).step (actOf db e)).reg u = (ledgerOf db).reg u) :
    AllMatch (step db e) ↔ ForeignFit db (transferMove db e).rows s ∧
      MatchAt (((ledgerOf db).step (actOf db e)).reg s)
        (((transferMove db e).run transferFiling (filedTransfers db)).row s) := by
  simp only [AllMatch, matchAt_step_iff]
  constructor
  · refine fun all => ⟨fun u apart final stored => ?_, all s⟩
    have here := all u
    rw [others u apart, matchAt_move_iff] at here
    exact (here final stored).1
  · rintro ⟨foreign, own⟩ u
    by_cases same : u = s
    · rw [same]
      exact own
    · rw [others u same, matchAt_move_iff]
      refine fun final stored => ⟨foreign u same final stored, fun _ index t _ found => ?_⟩
      exact before u final stored index t found

theorem allMatch_of_body {db : Db} {e : Timed} (before : AllMatch db) {a : Act}
    (about : actOf db e = a) (quiet : transferMove db e = {})
    (idle : a = .idle ∨ (∃ shipped, a = .body shipped) ∨ ∃ s trail, a = .candidate s trail) :
    AllMatch (step db e) := by
  intro u
  rw [matchAt_step_iff, about, quiet]
  refine matchAt_of_kept (before u) rfl ?_
  have moved := regMove_step (ledgerOf db) a u
  generalize ((ledgerOf db).step a).reg u = r at moved ⊢
  cases moved with
  | same _ => exact fun final stored => .inr ⟨final, stored, rfl⟩
  | body shipped here =>
      intro final stored
      refine .inr ⟨?_, stored, rfl⟩
      unfold Register.sawBody at final
      dsimp only at final
      split at final
      · exact absurd final (by decide)
      · exact final
  | candidate trail =>
      unfold Register.sawCandidate
      split
      · exact fun final stored => .inr ⟨final, stored, rfl⟩
      · exact fun final => absurd final (by simp)
  | _ => simp at idle

omit [Bs58Check] [DenunciationDigest] in
/-- Reading a register's moves off an act that is about one slot. -/
theorem others_of_subject {L : Ledger} {a : Act} {s : Slot}
    (only : ∀ u r, RegMove L u a r → u = s ∨ r = L.reg u) (u : Slot) (apart : u ≠ s) :
    (L.step a).reg u = L.reg u := (only u _ (regMove_step L a u)).resolve_left apart

theorem allMatch_final_iff {db : Db} {e : Timed} (wf : (ledgerOf db).WellFormed)
    (before : AllMatch db) {s : Slot} {isMiss : Bool} {block : Option BlockId} {trail : Option String}
    (about : actOf db e = .final s isMiss block trail) (quiet : transferMove db e = {}) :
    AllMatch (step db e) ↔ RowsSuit db e := by
  have others := others_of_subject (L := ledgerOf db) (a := .final s isMiss block trail) (s := s)
    fun u r moved => by
      cases moved with
      | same _ => exact .inr rfl
      | final _ _ _ => exact .inl rfl
  rw [allMatch_step_iff before s (by rw [about]; exact others), RowsSuit, about, quiet]
  refine (and_iff_right (foreignFit_nil db s)).trans ?_
  have here : ((ledgerOf db).step (.final s isMiss block trail)).reg s =
      ((ledgerOf db).reg s).sawFinal isMiss block trail := by simp [Ledger.step]
  rw [here]
  unfold Register.sawFinal
  by_cases settled : ((ledgerOf db).reg s).status = .final
  · rw [if_pos settled]
    refine iff_of_true (matchAt_of_kept (before s) rfl ?_) fun open_ => absurd settled open_
    split <;> exact fun final stored => .inr ⟨final, stored, rfl⟩
  · rw [if_neg settled, matchAt_move_iff]
    have none := ((wf s).unsettled settled).2
    simp only [none, Option.or_none, true_implies, ne_eq, reduceCtorEq, not_false_eq_true]
    refine ⟨fun fits _ stored => (fits stored).2, fun fits stored => ⟨rowsFit_nil s _, fits settled stored⟩⟩

theorem allMatch_transfers_iff {db : Db} {e : Timed} (before : AllMatch db) {s : Slot}
    {rows : List StoredTransfer} (about : actOf db e = .transfers s)
    (move : transferMove db e = ⟨some s, rows⟩) (own : ∀ t ∈ rows, t.slot = s) :
    AllMatch (step db e) ↔ RowsSuit db e := by
  have others := others_of_subject (L := ledgerOf db) (a := .transfers s) (s := s)
    fun u r moved => by
      cases moved with
      | same _ => exact .inr rfl
      | transfers => exact .inl rfl
  have foreign : ForeignFit db rows s := by
    intro u apart _ _ index t last
    obtain ⟨member, there, -⟩ := mem_of_last last
    exact absurd (there.symm.trans (own t member)) apart
  rw [allMatch_step_iff before s (by rw [about]; exact others), RowsSuit, about, move]
  refine (and_iff_right foreign).trans ?_
  have here : ((ledgerOf db).step (.transfers s)).reg s = ((ledgerOf db).reg s).sawTransfers := by
    simp [Ledger.step]
  rw [here, matchAt_move_iff]
  refine ⟨fun fits final => (fits final rfl).1, fun fits final _ => ⟨fits final, ?_⟩⟩
  exact fun kept => absurd rfl kept

/-- How a peer's answer that is not turned away leaves the verdict, and whether it has cleared the
transfers. -/
inductive Answered (db : Db) (o : Offer) (r : Register) (repaired : Bool) : Prop where
  | settles : ((ledgerOf db).reg o.slot).status ≠ .final → r.finalBlockId = named o →
      r.completeness.transfersStored = ((ledgerOf db).reg o.slot).completeness.transfersStored →
      repaired = false → Answered db o r repaired
  | agrees : ((ledgerOf db).reg o.slot).status = .final → ¬ Disputed (ledgerOf db) o →
      r.finalBlockId = ((ledgerOf db).reg o.slot).finalBlockId →
      r.completeness.transfersStored = ((ledgerOf db).reg o.slot).completeness.transfersStored →
      repaired = false → Answered db o r repaired
  | replaces : ((ledgerOf db).reg o.slot).status = .final → Disputed (ledgerOf db) o →
      r.finalBlockId = named o → r.completeness.transfersStored = false →
      repaired = true → Answered db o r repaired

omit [DenunciationDigest] in
theorem answered_of_proceeds {db : Db} {s : Slot} {row : SlotState} {resp : FinalSlotResponse}
    {p : Patching} (wf : ((ledgerOf db).reg s).WellFormed)
    (held : registerOf row = (ledgerOf db).reg s) (proceeds : Proceeds db s row resp p) :
    (registerOf p.state).status = .final ∧
      Answered db (offerAt s resp) (registerOf p.state) p.out.divergenceRepaired := by
  have disputed : Disputes row resp ↔ Disputed (ledgerOf db) (offerAt s resp) := by
    unfold Disputes Disputed
    change _ ↔ ∃ l p, ((ledgerOf db).reg s).verdict = some l ∧ _
    rw [← held]
    rfl
  have block : row.finalBlockId = ((ledgerOf db).reg s).finalBlockId := congrArg Register.finalBlockId held
  have stored : row.completeness.transfersStored = ((ledgerOf db).reg s).completeness.transfersStored :=
    congrArg (fun r : Register => r.completeness.transfersStored) held
  cases proceeds with
  | promoted open_ =>
      have still : ((ledgerOf db).reg s).status ≠ .final := by rw [← held]; exact open_
      have none : row.finalBlockId = none := block.trans (wf.unsettled still).2
      dsimp only
      rw [registerOf_promote]
      refine ⟨rfl, .settles still ?_ stored rfl⟩
      simp only [Register.promoted, registerOf, none, Option.or_none]
      rfl
  | agreed settled agree trails =>
      have final : ((ledgerOf db).reg s).status = .final := by rw [← held]; exact settled
      exact ⟨settled, .agrees final (fun differ => agree (disputed.mpr differ))
        block stored rfl⟩
  | adopted settled l q known offered differ adopts =>
      have final : ((ledgerOf db).reg s).status = .final := by rw [← held]; exact settled
      have register := (patchingAt_adoptPeerVerdict (rfl : row.slot = row.slot) db resp (parseFinalBlockId resp)
        (peerTrail resp) {}).register
      dsimp only at register ⊢
      rw [register]
      exact ⟨settled, .replaces final (disputed.mp ⟨l, q, known, offered, differ⟩) rfl rfl rfl⟩

omit [DenunciationDigest] in
/-- What an answer has to keep to, when it is not turned away. -/
theorem answerSuits_iff {db : Db} {o : Offer} {r : Register} {repaired : Bool}
    (before : AllMatch db) (answered : Answered db o r repaired) (rows : List StoredTransfer)
    {m : Move StoredTransfer}
    (move : m = if o.settlesTransfers && !r.completeness.transfersStored then ⟨some o.slot, rows⟩
      else if repaired then ⟨some o.slot, []⟩ else {}) :
    (ForeignFit db m.rows o.slot ∧
      ((r.completeness.transfersStored || o.settlesTransfers) = true →
        RowsFit m.rows o.slot r.finalBlockId ∧
          (m.cleared ≠ some o.slot → HeldFit db m.rows o.slot r.finalBlockId))) ↔
      AnswerSuits db o m.rows := by
  cases takes : o.settlesTransfers && !r.completeness.transfersStored with
  | true =>
      rw [takes, if_pos rfl] at move
      subst move
      obtain ⟨settles, fresh⟩ : o.settlesTransfers = true ∧ r.completeness.transfersStored = false := by
        simpa using takes
      simp only [settles, Bool.or_true, true_implies, ne_eq, not_true_eq_false, false_implies, and_true]
      constructor
      · rintro ⟨foreign, own⟩
        cases answered with
        | settles open_ block stored _ =>
            refine ⟨foreign, fun _ => ⟨block ▸ own, fun had => ?_⟩, fun final => absurd final open_,
              fun final => absurd final open_⟩
            rw [← stored, fresh] at had
            cases had
        | agrees final agree block _ _ =>
            exact ⟨foreign, fun open_ => absurd final open_, fun _ _ => block ▸ own,
              fun _ differ => absurd differ agree⟩
        | replaces final differ block _ _ =>
            exact ⟨foreign, fun open_ => absurd final open_, fun _ agree => absurd differ agree,
              fun _ _ => block ▸ own⟩
      · intro suits
        refine ⟨suits.foreign, ?_⟩
        cases answered with
        | settles open_ block _ _ => exact block ▸ (suits.settles open_).1
        | agrees final agree block _ _ => exact block ▸ suits.agrees final agree
        | replaces final differ block _ _ => exact block ▸ suits.replaces final differ
  | false =>
      have files : m.rows = [] := by
        rw [move, takes]
        cases repaired <;> rfl
      have settled : o.settlesTransfers = true → r.completeness.transfersStored = true := by
        intro settles
        simpa [settles] using takes
      rw [files]
      refine (and_iff_right (foreignFit_nil db o.slot)).trans ?_
      cases answered with
      | settles open_ block stored notRepaired =>
          have kept : m.cleared ≠ some o.slot := by
            rw [move, takes, notRepaired]
            intro cleared
            cases cleared
          constructor
          · intro fits
            refine ⟨foreignFit_nil db o.slot, fun _ => ⟨rowsFit_nil _ _, fun had => ?_⟩,
              fun final => absurd final open_, fun final => absurd final open_⟩
            rw [← stored] at had
            exact block ▸ (fits (by rw [had]; rfl)).2 kept
          · intro suits had
            refine ⟨rowsFit_nil _ _, fun _ => block ▸ (suits.settles open_).2 ?_⟩
            rw [← stored]
            rcases Bool.or_eq_true _ _ ▸ had with had | settles
            · exact had
            · exact settled settles
      | agrees final agree block stored notRepaired =>
          refine iff_of_true (fun had => ⟨rowsFit_nil _ _, fun _ index t _ found => ?_⟩)
            ⟨foreignFit_nil db o.slot, fun open_ => absurd final open_, fun _ _ => rowsFit_nil _ _,
              fun _ _ => rowsFit_nil _ _⟩
          have flagged : r.completeness.transfersStored = true := by
            rcases Bool.or_eq_true _ _ ▸ had with had | settles
            · exact had
            · exact settled settles
          rw [block]
          exact before o.slot final (stored ▸ flagged) index t found
      | replaces final differ block stored isRepaired =>
          refine iff_of_true (fun had => ⟨rowsFit_nil _ _, fun kept => absurd ?_ kept⟩)
            ⟨foreignFit_nil db o.slot, fun open_ => absurd final open_, fun _ _ => rowsFit_nil _ _,
              fun _ _ => rowsFit_nil _ _⟩
          rw [move, takes, isRepaired]
          rfl

theorem allMatch_peer_iff {db : Db} {resp : FinalSlotResponse} {s : Slot} {nowMs : Int}
    (wf : (ledgerOf db).WellFormed) (before : AllMatch db) (slot : slotOf resp = some s)
    (known : resp.finalKnown = true) :
    AllMatch (step db ⟨.peerPatch resp, nowMs⟩) ↔ RowsSuit db ⟨.peerPatch resp, nowMs⟩ := by
  have about : actOf db ⟨.peerPatch resp, nowMs⟩ = .peer (offerAt s resp) := by
    simp [actOf, offerOf, slot, known]
  have move : transferMove db ⟨.peerPatch resp, nowMs⟩ =
      peerTransferMove s resp (reconcileVerdict db s (rowAt db s nowMs) resp) := by
    simp [transferMove, slot, known]
  have held : registerOf (rowAt db s nowMs) = (ledgerOf db).reg s := registerOf_getD db s nowMs
  have others := others_of_subject (L := ledgerOf db) (a := .peer (offerAt s resp)) (s := s)
    fun u r moved => by
      cases moved with
      | same _ => exact .inr rfl
      | peer _ _ here _ => exact .inl here.symm
  rw [allMatch_step_iff before s (by rw [about]; exact others), RowsSuit, about, move]
  have refined := reconcileVerdict_refines (slot_rowAt db s nowMs) held resp
  cases taken : reconcileVerdict db s (rowAt db s nowMs) resp with
  | turnedAway out =>
      rw [taken] at refined
      have final : ((ledgerOf db).reg s).status = .final := by rw [← held]; exact refined.1
      have quiet : ((ledgerOf db).step (.peer (offerAt s resp))).reg s = (ledgerOf db).reg s := by
        simp [Ledger.step, Ledger.peerOffer, refined.2]
      rw [quiet]
      refine iff_of_true ⟨foreignFit_nil db s, ?_⟩
        ⟨foreignFit_nil db s, fun open_ => absurd final open_, fun _ _ => rowsFit_nil s _,
          fun _ _ => rowsFit_nil s _⟩
      exact matchAt_of_kept (before s) rfl fun final stored => .inr ⟨final, stored, rfl⟩
  | proceed p =>
      rw [taken] at refined
      obtain ⟨r, settled, at_⟩ := refined
      obtain ⟨final, answered⟩ := answered_of_proceeds (wf s) held (proceeds_of_reconcileVerdict taken)
      rw [at_.register] at final answered
      have here : ((ledgerOf db).step (.peer (offerAt s resp))).reg s = r.settleParts
          ((offerAt s resp).isMiss || (offerAt s resp).shipped.isSome) (offerAt s resp).settlesExec
          (offerAt s resp).settlesTransfers := by
        simp only [Ledger.step, Ledger.peerOffer, settled, Ledger.reg_setReg]
        exact if_pos rfl
      have takes : takesTransfers resp p.state =
          ((offerAt s resp).settlesTransfers && !r.completeness.transfersStored) := by
        rw [← at_.register]
        rfl
      rw [here, matchAt_move_iff]
      refine Iff.trans (and_congr_right fun _ => ?_)
        (answerSuits_iff before answered (decodedTransfers resp) (by rw [peerTransferMove, takes]; rfl))
      exact forall_prop_of_true final

theorem allMatch_legacy_iff {db : Db} {resp : FinalSlotResponse} {s : Slot} {nowMs : Int}
    (wf : (ledgerOf db).WellFormed) (before : AllMatch db) (slot : slotOf resp = some s)
    (known : resp.finalKnown = true) :
    AllMatch (step db ⟨.legacyPatch resp, nowMs⟩) ↔ RowsSuit db ⟨.legacyPatch resp, nowMs⟩ := by
  have about : actOf db ⟨.legacyPatch resp, nowMs⟩ = .legacy (offerAt s resp) := by
    simp [actOf, offerOf, slot, known]
  have move : transferMove db ⟨.legacyPatch resp, nowMs⟩ = ⟨none, decodedTransfers resp⟩ := by
    simp [transferMove, slot, known]
  have others := others_of_subject (L := ledgerOf db) (a := .legacy (offerAt s resp)) (s := s)
    fun u r moved => by
      cases moved with
      | same _ => exact .inr rfl
      | legacy _ here => exact .inl here.symm
  rw [allMatch_step_iff before s (by rw [about]; exact others), RowsSuit, about, move]
  have here : ∃ body, ((ledgerOf db).step (.legacy (offerAt s resp))).reg s =
      ((ledgerOf db).legacyBase (offerAt s resp)).settleParts body false false := by
    simp only [Ledger.step, Ledger.legacyOffer, Ledger.reg_setReg, offerAt, if_true]
    exact ⟨_, rfl⟩
  obtain ⟨body, here⟩ := here
  rw [here, matchAt_move_iff]
  by_cases settled : ((ledgerOf db).reg s).status = .final
  · have base : (ledgerOf db).legacyBase (offerAt s resp) = (ledgerOf db).reg s := if_pos settled
    rw [base]
    constructor
    · rintro ⟨foreign, own⟩
      exact ⟨foreign, fun open_ => absurd settled open_,
        fun _ stored => (own settled ((Bool.or_false _).trans stored)).1⟩
    · intro suits
      refine ⟨suits.foreign, fun _ had => ?_⟩
      have stored : ((ledgerOf db).reg s).completeness.transfersStored = true :=
        (Bool.or_false _).symm.trans had
      exact ⟨suits.agrees settled stored, fun _ index t _ found => before s settled stored index t found⟩
  · have base : (ledgerOf db).legacyBase (offerAt s resp) =
        ((ledgerOf db).reg s).promoted (offerAt s resp).isMiss (offerAt s resp).block := if_neg settled
    rw [base]
    have none := ((wf s).unsettled settled).2
    have block : ((((ledgerOf db).reg s).promoted (offerAt s resp).isMiss (offerAt s resp).block).settleParts
        body false false).finalBlockId = named (offerAt s resp) := by
      simp only [Register.settleParts, Register.promoted, none, Option.or_none, named]
    constructor
    · rintro ⟨foreign, own⟩
      refine ⟨foreign, fun _ stored => ?_, fun final => absurd final settled⟩
      obtain ⟨rows, held⟩ := own rfl ((Bool.or_false _).trans stored)
      rw [block] at rows held
      exact ⟨rows, held (fun cleared => by cases cleared)⟩
    · intro suits
      refine ⟨suits.foreign, fun _ had => ?_⟩
      have stored : ((ledgerOf db).reg s).completeness.transfersStored = true :=
        (Bool.or_false _).symm.trans had
      obtain ⟨rows, held⟩ := suits.settles settled stored
      rw [block]
      exact ⟨rows, fun _ => held⟩

theorem allMatch_forced {db : Db} (before : AllMatch db) (resp : FinalSlotResponse) (nowMs : Int) :
    AllMatch (step db ⟨.forcedVerdict resp, nowMs⟩) := by
  have files : (transferMove db ⟨.forcedVerdict resp, nowMs⟩).rows = [] := by
    dsimp only [transferMove]
    split
    · split <;> rfl
    · rfl
  intro u
  rw [matchAt_step_iff]
  refine matchAt_of_kept (before u) files ?_
  have moved := regMove_step (ledgerOf db) (actOf db ⟨.forcedVerdict resp, nowMs⟩) u
  generalize ((ledgerOf db).step (actOf db ⟨.forcedVerdict resp, nowMs⟩)).reg u = r at moved ⊢
  have about : actOf db ⟨.forcedVerdict resp, nowMs⟩ = .idle ∨
      ∃ s v trail, actOf db ⟨.forcedVerdict resp, nowMs⟩ = .forced s v trail := by
    dsimp only [actOf, forcedAct]
    split
    · exact .inr ⟨_, _, _, rfl⟩
    · exact .inl rfl
  generalize actOf db ⟨.forcedVerdict resp, nowMs⟩ = a at about moved
  cases moved with
  | same _ => exact fun final stored => .inr ⟨final, stored, rfl⟩
  | forced v trail _ => cases v <;> exact fun _ stored => by cases stored
  | _ => simp at about

/-- **One step.** -/
theorem allMatch_step {db : Db} (wf : (ledgerOf db).WellFormed) (before : AllMatch db) (e : Timed) :
    AllMatch (step db e) ↔ RowsSuit db e := by
  obtain ⟨event, nowMs⟩ := e
  cases event with
  | block fb =>
      have about : actOf db ⟨.block fb, nowMs⟩ = .idle ∨
          ∃ shipped, actOf db ⟨.block fb, nowMs⟩ = .body shipped := by
        dsimp only [actOf]
        split
        · exact .inr ⟨_, rfl⟩
        · exact .inl rfl
      refine iff_of_true (allMatch_of_body before rfl rfl ?_) ?_
      · rcases about with idle | body
        · exact .inl idle
        · exact .inr (.inl body)
      · rcases about with idle | ⟨shipped, body⟩
        · rw [RowsSuit, idle]
          trivial
        · rw [RowsSuit, body]
          trivial
  | exec out =>
      cases about : actOf db ⟨.exec out, nowMs⟩ with
      | final s isMiss block trail => exact allMatch_final_iff wf before about rfl
      | idle =>
          refine iff_of_true (allMatch_of_body before about rfl (.inl rfl)) ?_
          rw [RowsSuit, about]
          trivial
      | candidate s trail =>
          refine iff_of_true (allMatch_of_body before about rfl (.inr (.inr ⟨s, trail, rfl⟩))) ?_
          rw [RowsSuit, about]
          trivial
      | _ =>
          dsimp only [actOf, execAct] at about
          split at about
          · cases about
          · split at about <;> cases about
  | transfers resp =>
      cases slot : resp.slot with
      | none =>
          have about : actOf db ⟨.transfers resp, nowMs⟩ = .idle := by simp [actOf, transfersAct, slot]
          refine iff_of_true (allMatch_of_body before about (by simp [transferMove, slot]) (.inl rfl)) ?_
          rw [RowsSuit, about]
          trivial
      | some pb =>
          have about : actOf db ⟨.transfers resp, nowMs⟩ = .transfers (NodeDecode.slotFromPb pb) := by
            simp [actOf, transfersAct, slot]
          have move : transferMove db ⟨.transfers resp, nowMs⟩ = ⟨some (NodeDecode.slotFromPb pb),
              decodeTransfers resp (NodeDecode.slotFromPb pb) nowMs⟩ := by
            simp [transferMove, slot]
          exact allMatch_transfers_iff before about move fun t => slot_of_mem_decodeTransfers
  | peerPatch resp =>
      cases slot : slotOf resp with
      | none =>
          have about : actOf db ⟨.peerPatch resp, nowMs⟩ = .idle := by simp [actOf, offerOf, slot]
          refine iff_of_true (allMatch_of_body before about (by simp [transferMove, slot]) (.inl rfl)) ?_
          rw [RowsSuit, about]
          trivial
      | some s =>
          cases known : resp.finalKnown with
          | false =>
              have about : actOf db ⟨.peerPatch resp, nowMs⟩ = .idle := by simp [actOf, offerOf, known]
              refine iff_of_true (allMatch_of_body before about (by simp [transferMove, known])
                (.inl rfl)) ?_
              rw [RowsSuit, about]
              trivial
          | true => exact allMatch_peer_iff wf before slot known
  | legacyPatch resp =>
      cases slot : slotOf resp with
      | none =>
          have about : actOf db ⟨.legacyPatch resp, nowMs⟩ = .idle := by simp [actOf, offerOf, slot]
          refine iff_of_true (allMatch_of_body before about (by simp [transferMove, slot]) (.inl rfl)) ?_
          rw [RowsSuit, about]
          trivial
      | some s =>
          cases known : resp.finalKnown with
          | false =>
              have about : actOf db ⟨.legacyPatch resp, nowMs⟩ = .idle := by simp [actOf, offerOf, known]
              refine iff_of_true (allMatch_of_body before about (by simp [transferMove, known])
                (.inl rfl)) ?_
              rw [RowsSuit, about]
              trivial
          | true => exact allMatch_legacy_iff wf before slot known
  | forcedVerdict resp =>
      refine iff_of_true (allMatch_forced before resp nowMs) ?_
      dsimp only [RowsSuit, actOf, forcedAct]
      split <;> first
        | trivial
        | (split at * <;> simp_all)
  | tick => exact iff_of_true (allMatch_of_body before rfl rfl (.inl rfl)) trivial

/-- **When transfers match the verdict.** In every state a run passes through the transfers of each
FINAL slot name its block or none -- exactly when no event of the run files, or leaves under a slot
that it settles, a transfer that names another. -/
theorem transfers_match_iff (events : List Timed) :
    (∀ db, Visits step Db.empty events db → TransfersMatch db) ↔
      Along step RowsSuit Db.empty events := by
  have along : (∀ db, Visits step Db.empty events db → (ledgerOf db).WellFormed ∧ AllMatch db) ↔
      Along step RowsSuit Db.empty events := forall_visits_iff_along
    (P := fun db => (ledgerOf db).WellFormed ∧ AllMatch db)
    (fun db e holds => by
      refine (and_iff_right ?_).trans (allMatch_step holds.1 holds.2 e)
      rw [ledgerOf_step]
      exact holds.1.step (normal_actOf db e))
    ⟨wellFormed_ingest [], fun s final => by
      rw [ledgerOf_empty] at final
      cases final⟩
  rw [← along]
  refine forall_congr' fun db => imp_congr_right fun visited => ?_
  obtain ⟨before, after, -, rfl⟩ := visited
  have wf := wellFormed_ingest before
  rw [ingest] at wf
  exact (transfersMatch_iff wf).trans (and_iff_right wf).symm

end Step

end Writers

/-! ## Transfers of another block -/

section Disagree

attribute [local instance] Bs58Check.doubleSha noDenunciations

/-- The node's transfers of slot (10, 0), with the node's block. -/
def blockTransfers : NewTransfersInfoServerResponse where
  slot := some ⟨10, 0⟩
  blockId := some (blockNo 1).text
  transfersInfo := [{ value := some (some (.coins ⟨1, 0⟩)) }]

/-- A peer has settled the slot as a miss. -/
def peerMiss : Timed := ⟨.peerPatch (answerOf ⟨10, 0⟩ .miss none), 0⟩

/-- **Transfers of a block under a miss.** -/
theorem transfers_not_matched : ¬ ∀ events, TransfersMatch (ingest events) := by
  intro matched
  have wf := wellFormed_ingest [peerMiss]
  have first := (transfersMatch_iff wf).mp (matched _)
  have second := (transfersMatch_iff (wellFormed_ingest [peerMiss, ⟨.transfers blockTransfers, 0⟩])).mp
    (matched _)
  have suits : RowsSuit (ingest [peerMiss]) ⟨.transfers blockTransfers, 0⟩ :=
    (allMatch_step wf first ⟨.transfers blockTransfers, 0⟩).mp second
  have settled : (ledgerOf (ingest [peerMiss])).reg ⟨10, 0⟩ =
      ((Ledger.blank).peerOffer (answerOffer ⟨10, 0⟩ .miss none)).reg ⟨10, 0⟩ := by
    rw [ingest, run_cons, run_nil, peerMiss, ledgerOf_step_peerPatch, ledgerOf_empty]
  have final : ((ledgerOf (ingest [peerMiss])).reg ⟨10, 0⟩).status = .final := by
    rw [settled]
    decide +kernel
  have noBlock : ((ledgerOf (ingest [peerMiss])).reg ⟨10, 0⟩).finalBlockId = none := by
    rw [settled]
    decide +kernel
  have rows : RowsFit (decodeTransfers blockTransfers ⟨10, 0⟩ 0) ⟨10, 0⟩
      ((ledgerOf (ingest [peerMiss])).reg ⟨10, 0⟩).finalBlockId := suits final
  rw [noBlock] at rows
  have last : last transferFiling (decodeTransfers blockTransfers ⟨10, 0⟩ 0) ⟨10, 0⟩ 0 =
      some (transferRow blockTransfers ⟨10, 0⟩ 0 0 (blockTransfers.transfersInfo.headD {})) := rfl
  cases rows 0 _ last (blockNo 1).text rfl

end Disagree

end MassaIndexer.Laws.TransferVerdicts
