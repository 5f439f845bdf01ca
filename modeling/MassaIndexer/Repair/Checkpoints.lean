/-
# Repair.Checkpoints -- the three checkpointed repair passes

`run_reconstruct_transfers` and `run_legacy_sub_transfers` walk their periods upwards and write the next
period every 64, `run_pull_parts` walks down in windows and writes the period below each. All three ship
their patches on the bulk lane and go on: what the writer has applied is not asked. Each is a pass of
`Theory.Checkpoint` over the slots; its world's mark is the text under the pass's key in `cf_meta`.

A channel that closes ends the pass like a crash does, and a pull without peers waits where it is.
-/
import MassaIndexer.Theory.Checkpoint
import MassaIndexer.Peer.Backfill
import MassaIndexer.Repair.Producers

namespace MassaIndexer.Repair.Checkpoints

open MassaIndexer.Theory.Checkpoint MassaIndexer.Theory.Sweep
open MassaIndexer.Data.Ids MassaIndexer.Data.Model MassaIndexer.Data.Proto
open MassaIndexer.Store.ColumnFamilies MassaIndexer.Writer.Shared MassaIndexer.Writer.Step
open MassaIndexer.Peer.Backfill
open MassaIndexer.Repair.Producers

set_option autoImplicit false

/-! ## The text of a mark -/

/-- A sign may stand before the digits. -/
def unsigned : List Char → List Char
  | '+' :: rest => rest
  | all => all

/-- `str::parse::<u64>`. -/
def parseU64 (text : String) : Option UInt64 :=
  let digits := unsigned text.toList
  let value := Nat.ofDigitChars 10 digits 0
  if digits ≠ [] ∧ digits.all Char.isDigit ∧ value < UInt64.size then some (UInt64.ofNat value)
  else none

/-- The text of a number below `2^64` reads back as that number. -/
theorem parseU64_repr {n : Nat} (fits : n < UInt64.size) :
    parseU64 n.repr = some (UInt64.ofNat n) := by
  have digits : ∀ c ∈ Nat.toDigits 10 n, c.isDigit = true := fun c member =>
    Nat.isDigit_of_mem_toDigits (by decide) (by decide) member
  have bare : unsigned (Nat.toDigits 10 n) = Nat.toDigits 10 n := by
    unfold unsigned
    split
    · next rest whole =>
        exact absurd (digits '+' (by rw [whole]; exact List.mem_cons_self)) (by decide)
    · rfl
  have some_ : Nat.toDigits 10 n ≠ [] := List.ne_nil_of_length_pos Nat.length_toDigits_pos
  have value : Nat.ofDigitChars 10 (Nat.toDigits 10 n) 0 = n := Nat.ofDigitChars_ten_toDigits
  simp only [parseU64, Nat.toList_repr, bare, value]
  exact if_pos ⟨some_, List.all_eq_true.mpr digits, fits⟩

/-! ## Upwards -/

/-- `CHECKPOINT_EVERY`. -/
def checkpointEvery : UInt64 := 64

/-- The slots of a period in the threads below `threadCount`. -/
def threadsAt (threadCount : UInt8) (period : UInt64) : List Slot :=
  (List.range threadCount.toNat).map fun t => ⟨period, UInt8.ofNat t⟩

theorem mem_threadsAt {threadCount : UInt8} {period : UInt64} {s : Slot} :
    s ∈ threadsAt threadCount period ↔ s.period = period ∧ s.thread < threadCount := by
  simp only [threadsAt, List.mem_map, List.mem_range]
  constructor
  · rintro ⟨t, inside, rfl⟩
    have thread : (UInt8.ofNat t).toNat = t :=
      UInt8.toNat_ofNat_of_lt' (Nat.lt_trans inside threadCount.toNat_lt)
    exact ⟨rfl, UInt8.lt_iff_toNat_lt.mpr (by rw [thread]; exact inside)⟩
  · rintro ⟨rfl, inside⟩
    exact ⟨s.thread.toNat, UInt8.lt_iff_toNat_lt.mp inside, by simp⟩

/-- Where an ascending pass begins. A mark that does not parse, or lies below the range, is none. -/
def startPeriod (range : ReconstructConfig) (mark : Option String) : Option UInt64 :=
  let start := max ((mark.bind parseU64).getD range.fromPeriod) range.fromPeriod
  if range.toPeriod < start then none else some start

/-- The next period, in wrapping arithmetic. -/
def nextPeriod (range : ReconstructConfig) (period : UInt64) : Option UInt64 :=
  if period + 1 ≤ range.toPeriod then some (period + 1) else none

def periodMark (period : UInt64) : Option String :=
  if period % checkpointEvery = 0 then some (period + 1).toNat.repr else none

/-- What an ascending pass has ahead of it. A range up to `u64::MAX` is walked round and round. -/
def AheadUp (range : ReconstructConfig) (period : UInt64) (s : Slot) : Prop :=
  range.covers s = true ∧ (period ≤ s.period ∨ range.toPeriod + 1 = 0)

theorem covers_iff {range : ReconstructConfig} {s : Slot} : range.covers s = true ↔
    range.fromPeriod ≤ s.period ∧ s.period ≤ range.toPeriod ∧ s.thread < range.threadCount := by
  simp [ReconstructConfig.covers, and_assoc]

theorem aheadUp_visits {range : ReconstructConfig} {period : UInt64} {s : Slot}
    (ahead : AheadUp range period s) : s ∈ threadsAt range.threadCount period ∨
      ∃ later, nextPeriod range period = some later ∧ AheadUp range later s := by
  obtain ⟨covered, later⟩ := ahead
  obtain ⟨-, below, thread⟩ := covers_iff.mp covered
  by_cases now : s.period = period
  · exact .inl (mem_threadsAt.mpr ⟨now, thread⟩)
  · have on : period + 1 ≤ range.toPeriod ∧ (period + 1 ≤ s.period ∨ range.toPeriod + 1 = 0) := by
      have one : (1 : UInt64).toNat = 1 := rfl
      have zero : (0 : UInt64).toNat = 0 := rfl
      have differ : s.period.toNat ≠ period.toNat := fun same => now (UInt64.toNat_inj.mp same)
      have bound := range.toPeriod.toNat_lt
      have bound' := period.toNat_lt
      simp only [UInt64.le_iff_toNat_le, ← UInt64.toNat_inj, UInt64.toNat_add, one, zero] at below later ⊢
      omega
    exact .inr ⟨period + 1, if_pos on.1, covered, on.2⟩

theorem aheadUp_resumes {range : ReconstructConfig} {period later : UInt64} {written : String} {s : Slot}
    (next : nextPeriod range period = some later) (mark : periodMark period = some written)
    (ahead : AheadUp range later s) :
    ∃ again, startPeriod range (some written) = some again ∧ AheadUp range again s := by
  obtain ⟨covered, onward⟩ := ahead
  obtain ⟨above, below, -⟩ := covers_iff.mp covered
  obtain ⟨-, rfl⟩ : period + 1 ≤ range.toPeriod ∧ period + 1 = later := by
    simpa [nextPeriod] using next
  obtain ⟨-, rfl⟩ : period % checkpointEvery = 0 ∧ (period + 1).toNat.repr = written := by
    simpa [periodMark] using mark
  have start : startPeriod range (some (period + 1).toNat.repr) =
      if range.toPeriod < max (period + 1) range.fromPeriod then none
      else some (max (period + 1) range.fromPeriod) := by
    unfold startPeriod
    rw [Option.bind_some, parseU64_repr (period + 1).toNat_lt_size, UInt64.ofNat_toNat]
    rfl
  have reached : ¬ range.toPeriod < max (period + 1) range.fromPeriod ∧
      (max (period + 1) range.fromPeriod ≤ s.period ∨ range.toPeriod + 1 = 0) := by
    rcases onward with onward | round
    · have bound : max (period + 1) range.fromPeriod ≤ s.period := by
        change (if _ then _ else _) ≤ _
        split
        · exact above
        · exact onward
      exact ⟨UInt64.not_lt.mpr (UInt64.le_trans bound below), .inl bound⟩
    · have last : range.toPeriod.toNat = UInt64.size - 1 := by
        have bound := range.toPeriod.toNat_lt
        have one : (1 : UInt64).toNat = 1 := rfl
        have zero : (0 : UInt64).toNat = 0 := rfl
        simp only [← UInt64.toNat_inj, UInt64.toNat_add, one, zero] at round
        simp only [UInt64.size]
        omega
      refine ⟨fun later => ?_, .inr round⟩
      have bound := (max (period + 1) range.fromPeriod).toNat_lt_size
      have after := UInt64.lt_iff_toNat_lt.mp later
      omega
  exact ⟨_, start.trans (if_neg reached.1), covered, reached.2⟩

/-- The walk of an ascending pass; `groups` says which slots of a period it looks at before it ships. -/
def ascending (range : ReconstructConfig) (groups : List Slot → List (List Slot))
    (whole : ∀ slots, (groups slots).flatten = slots) : Walk Slot UInt64 String where
  resume := startPeriod range
  groups := fun period => groups (threadsAt range.threadCount period)
  next := nextPeriod range
  mark := periodMark
  sealed := some (range.toPeriod + 1).toNat.repr
  ahead := AheadUp range
  visits := fun period s ahead => by
    rw [whole]
    exact aheadUp_visits ahead
  resumes := fun _ _ _ _ next mark ahead => aheadUp_resumes next mark ahead

/-- From its beginning an ascending pass comes by the whole range. -/
theorem aheadUp_start {range : ReconstructConfig} {s : Slot} (covered : range.covers s = true) :
    startPeriod range none = some range.fromPeriod ∧ AheadUp range range.fromPeriod s := by
  obtain ⟨above, below, -⟩ := covers_iff.mp covered
  refine ⟨?_, covered, .inl above⟩
  have low : max range.fromPeriod range.fromPeriod = range.fromPeriod := if_pos (UInt64.le_refl _)
  unfold startPeriod
  rw [Option.bind_none, Option.getD_none]
  simp only [low]
  exact if_neg (UInt64.not_lt.mpr (UInt64.le_trans above below))

/-! ## Downwards -/

/-- Tunables of `run_pull_parts`. -/
structure PullPartsConfig where
  fromPeriod : UInt64
  toPeriod : UInt64
  parts : FinalSlotParts
  threadCount : UInt8
  requireScOps : Bool

/-- The configuration the bulk path runs with. -/
def PullPartsConfig.backfill (cfg : PullPartsConfig) : BackfillConfig where
  parts := cfg.parts
  expectedStreams := {
    filledBlocks := cfg.parts.block
    slotExecutionOutputs := cfg.parts.execOutput
    transfers := cfg.parts.transfers }
  threadCount := cfg.threadCount

def PullPartsConfig.covers (cfg : PullPartsConfig) (s : Slot) : Bool :=
  cfg.fromPeriod ≤ s.period && s.period ≤ cfg.toPeriod && s.thread < cfg.threadCount

/-- Where a pull begins. A mark that does not parse, or lies above the range, is none. -/
def startHigh (cfg : PullPartsConfig) (mark : Option String) : Option Nat :=
  let startHi := min ((mark.bind parseU64).getD cfg.toPeriod) cfg.toPeriod
  if startHi < cfg.fromPeriod then none else some startHi.toNat

/-- The lowest period of the window below `hi`. -/
def windowLow (cfg : PullPartsConfig) (hi : Nat) : Nat :=
  max (hi - (cfg.backfill.rangePeriods - 1)) cfg.fromPeriod.toNat

def nextHigh (cfg : PullPartsConfig) (hi : Nat) : Option Nat :=
  let lo := windowLow cfg hi
  if lo ≤ cfg.fromPeriod.toNat ∨ lo = 0 then none else some (lo - 1)

def AheadDown (cfg : PullPartsConfig) (hi : Nat) (s : Slot) : Prop :=
  cfg.covers s = true ∧ s.period.toNat ≤ hi ∧ hi ≤ cfg.toPeriod.toNat

theorem pullCovers_iff {cfg : PullPartsConfig} {s : Slot} : cfg.covers s = true ↔
    cfg.fromPeriod ≤ s.period ∧ s.period ≤ cfg.toPeriod ∧ s.thread < cfg.threadCount := by
  simp [PullPartsConfig.covers, and_assoc]

theorem windowLow_le (cfg : PullPartsConfig) (hi : Nat) :
    windowLow cfg hi ≤ max hi cfg.fromPeriod.toNat :=
  max_le_max (Nat.sub_le _ _) (Nat.le_refl _)

theorem aheadDown_visits {cfg : PullPartsConfig} {hi : Nat} {s : Slot} (ahead : AheadDown cfg hi s) :
    s ∈ slotsOf cfg.backfill (windowLow cfg hi) hi ∨
      ∃ later, nextHigh cfg hi = some later ∧ AheadDown cfg later s := by
  obtain ⟨covered, below, inRange⟩ := ahead
  obtain ⟨above, -, thread⟩ := pullCovers_iff.mp covered
  rw [UInt64.le_iff_toNat_le] at above
  have fits : hi < UInt64.size := Nat.lt_of_le_of_lt inRange cfg.toPeriod.toNat_lt_size
  by_cases here : windowLow cfg hi ≤ s.period.toNat
  · exact .inl ((mem_slotsOf fits).mpr ⟨here, below, thread⟩)
  · have more : ¬ (windowLow cfg hi ≤ cfg.fromPeriod.toNat ∨ windowLow cfg hi = 0) := by omega
    have low := windowLow_le cfg hi
    exact .inr ⟨windowLow cfg hi - 1, if_neg more, covered, by omega, by omega⟩

/-- A pull begins at the period it reads back, as far as that lies in the range. -/
theorem startHigh_repr (cfg : PullPartsConfig) {n : Nat} (fits : n < UInt64.size) :
    startHigh cfg (some n.repr) =
      if min n cfg.toPeriod.toNat < cfg.fromPeriod.toNat then none
      else some (min n cfg.toPeriod.toNat) := by
  have value : (UInt64.ofNat n).toNat = n := UInt64.toNat_ofNat_of_lt' fits
  have low : (min (UInt64.ofNat n) cfg.toPeriod).toNat = min n cfg.toPeriod.toNat := by
    show (if UInt64.ofNat n ≤ cfg.toPeriod then _ else _ : UInt64).toNat = _
    split
    · next le =>
        rw [UInt64.le_iff_toNat_le, value] at le
        omega
    · next gt =>
        rw [UInt64.le_iff_toNat_le, value] at gt
        omega
  unfold startHigh
  rw [Option.bind_some, parseU64_repr fits, Option.getD_some]
  simp only [UInt64.lt_iff_toNat_lt, low]

/-- Below a window the next one begins. -/
theorem nextHigh_eq_some {cfg : PullPartsConfig} {hi later : Nat} :
    nextHigh cfg hi = some later ↔
      cfg.fromPeriod.toNat < windowLow cfg hi ∧ later = windowLow cfg hi - 1 := by
  unfold nextHigh
  dsimp only
  split
  · next last => exact ⟨fun no => absurd no (by simp), fun more => by omega⟩
  · next more =>
      rw [Option.some_inj]
      constructor
      · intro same
        exact ⟨by omega, same.symm⟩
      · intro both
        exact both.2.symm

theorem aheadDown_resumes {cfg : PullPartsConfig} {hi later : Nat} {s : Slot}
    (next : nextHigh cfg hi = some later) (ahead : AheadDown cfg later s) :
    ∃ again, startHigh cfg (some (windowLow cfg hi - 1).repr) = some again ∧ AheadDown cfg again s := by
  obtain ⟨covered, below, inRange⟩ := ahead
  obtain ⟨above, -, -⟩ := pullCovers_iff.mp covered
  rw [UInt64.le_iff_toNat_le] at above
  obtain ⟨more, rfl⟩ := nextHigh_eq_some.mp next
  have fits : windowLow cfg hi - 1 < UInt64.size :=
    Nat.lt_of_le_of_lt inRange cfg.toPeriod.toNat_lt_size
  have whole : min (windowLow cfg hi - 1) cfg.toPeriod.toNat = windowLow cfg hi - 1 :=
    Nat.min_eq_left inRange
  refine ⟨windowLow cfg hi - 1, ?_, covered, below, inRange⟩
  rw [startHigh_repr cfg fits, whole]
  exact if_neg (by omega)

theorem aheadDown_start {cfg : PullPartsConfig} {s : Slot} (covered : cfg.covers s = true) :
    startHigh cfg none = some cfg.toPeriod.toNat ∧ AheadDown cfg cfg.toPeriod.toNat s := by
  obtain ⟨above, below, -⟩ := pullCovers_iff.mp covered
  refine ⟨?_, covered, UInt64.le_iff_toNat_le.mp below, Nat.le_refl _⟩
  have high : min cfg.toPeriod cfg.toPeriod = cfg.toPeriod := if_pos (UInt64.le_refl _)
  unfold startHigh
  rw [Option.bind_none, Option.getD_none]
  simp only [high]
  exact if_neg (UInt64.not_lt.mpr (UInt64.le_trans above below))

def descending (cfg : PullPartsConfig) : Walk Slot Nat String where
  resume := startHigh cfg
  groups := fun hi => [slotsOf cfg.backfill (windowLow cfg hi) hi]
  next := nextHigh cfg
  mark := fun hi => some (windowLow cfg hi - 1).repr
  sealed := none
  ahead := AheadDown cfg
  visits := fun hi s ahead => by
    rw [List.flatten_singleton]
    exact aheadDown_visits ahead
  resumes := fun _ _ _ _ next mark ahead => by
    rw [← Option.some.inj mark]
    exact aheadDown_resumes next ahead

/-! ## The passes -/

section Passes

variable [Bs58Check]

/-- Does this settled slot lack one of the requested parts, and did it execute a call, if that is asked
for? -/
def slotLacksParts (db : Db) (slot : Slot) (parts : FinalSlotParts) (requireScOps : Bool) : Bool :=
  match db.readSlot slot with
  | none => false
  | some s =>
      if s.status ≠ .final then false
      else
        let c := s.completeness
        let lacking := parts.block && !s.isMiss && !c.blockBodyStored ||
          parts.execOutput && !c.execOutputFinal || parts.transfers && !c.transfersStored
        if !lacking then false
        else if requireScOps && !slotHasSuccessfulScOp db s then false
        else true

/-- The patch for a target of the sub-transfer pass, when the archive has these rows. -/
def subTransfersReply (cfg : LegacySubTransfersConfig) (slot : Slot) (target : SubTarget)
    (items : List OperationsItem) : Option FinalSlotResponse :=
  let rows := subTransferRows slot (some target.blockId.text) (slotTimestampMs cfg.timing slot)
    target.ids items target.nextIndex
  if rows = [] then none else some (transfersPatch slot target.blockId rows)

/-- What the messages of the range streams bring for a slot: the first that has something for it. -/
def partsReply (slot : Slot) (frames : List FinalSlotResponse) : Option FinalSlotResponse :=
  frames.find? fun resp => offered true resp = some slot

variable [DenunciationDigest]

/-- `run_reconstruct_transfers`: the store is the source, and each patch is shipped before the next
slot is looked at. -/
def runReconstructTransfers (cfg : ReconstructConfig) :
    Pass Db Slot FinalSlotResponse Unit FinalSlotResponse UInt64 String where
  toWalk := ascending cfg (List.map fun s => [s]) fun slots => by
    rw [← List.flatMap_def, List.flatMap_singleton']
  look := fun db slot => reconstructSlot db cfg slot
  blur := id
  reply := fun _ resp _ => some resp
  absorb := fun db resp nowMs => step db ⟨.legacyPatch resp, nowMs⟩

/-- `run_pull_parts`: the needy slots of a window, then the range streams of the peers, one after the
other. -/
def runPullParts (cfg : PullPartsConfig) :
    Pass Db Slot Unit (List FinalSlotResponse) FinalSlotResponse Nat String where
  toWalk := descending cfg
  look := fun db slot => if slotLacksParts db slot cfg.parts cfg.requireScOps then some () else none
  blur := id
  reply := fun slot _ frames => partsReply slot frames
  absorb := fun db resp nowMs => step db ⟨.peerPatch resp, nowMs⟩

/-- `run_legacy_sub_transfers`: the targets of a period, then the archive's rows for each, in any order. A
listing of the stored transfers that fails counts as empty. -/
def runLegacySubTransfers (cfg : LegacySubTransfersConfig) :
    Pass Db Slot SubTarget (List OperationsItem) FinalSlotResponse UInt64 String where
  toWalk := ascending cfg.timing (fun slots => [slots]) fun slots => by simp
  look := fun db slot => subTransfersTarget db slot
  blur := fun target => { target with ids := [], nextIndex := 0 }
  reply := subTransfersReply cfg
  absorb := fun db resp nowMs => step db ⟨.legacyPatch resp, nowMs⟩

/-! ## What they ship -/

omit [DenunciationDigest] in
/-- A target and its rows make the patch of the slot. -/
theorem subTransfersReply_target (cfg : LegacySubTransfersConfig) (db : Db) (slot : Slot)
    (items : List OperationsItem) :
    ((subTransfersTarget db slot).bind fun target => subTransfersReply cfg slot target items) =
      subTransfersPatch db cfg slot items := by
  unfold subTransfersPatch
  cases subTransfersTarget db slot <;> rfl

omit [Bs58Check] [DenunciationDigest] in
/-- The streams of a window ship for each needy slot what its reply is, and leave it needy when there is
none. -/
theorem rangeFillWindowOpts_parts (streams : List (Except String (List FinalSlotResponse)))
    {needy : List Slot} {slot : Slot} (needed : slot ∈ needy) :
    (rangeFillWindowOpts true streams needy).taken.filter (offered true · = some slot) =
        (partsReply slot (streams.flatMap framesOf)).toList ∧
      (slot ∈ (rangeFillWindowOpts true streams needy).remaining ↔
        partsReply slot (streams.flatMap framesOf) = none) := by
  rw [rangeFillWindowOpts_eq]
  constructor
  · rw [takenFor_fill, List.filter_nil, List.nil_append, if_pos needed]
    rfl
  · rw [remaining_fill]
    simp only [List.mem_filter, needed, true_and, decide_eq_true_eq, List.mem_map, not_exists, not_and,
      partsReply, List.find?_eq_none]

/-! ## Their ranges -/

theorem covers_reconstructTransfers {cfg : ReconstructConfig} {s : Slot}
    (covered : cfg.covers s = true) : (runReconstructTransfers cfg).Covers s :=
  ⟨cfg.fromPeriod, aheadUp_start covered⟩

theorem covers_pullParts {cfg : PullPartsConfig} {s : Slot} (covered : cfg.covers s = true) :
    (runPullParts cfg).Covers s :=
  ⟨cfg.toPeriod.toNat, aheadDown_start covered⟩

theorem covers_legacySubTransfers {cfg : LegacySubTransfersConfig} {s : Slot}
    (covered : cfg.timing.covers s = true) : (runLegacySubTransfers cfg).Covers s :=
  ⟨cfg.fromPeriod, aheadUp_start covered⟩

end Passes

end MassaIndexer.Repair.Checkpoints
