/-
# Laws.PullWindows -- the windows of a pull, interrupted and run again

`run_pull_parts` walks its range down in windows and writes the period below each one. Whatever fails
and wherever the pass is interrupted, a window that was not scanned whole lies on the way from the mark,
and a pass that comes to its end has looked at the whole range.

Its rerun is to scan nothing. Below the last window the mark is `from_period - 1`, saturating: that lies
outside the range, and says that nothing is left, only when the range does not begin at 0
(`pull_checkpointed_iff`). From 0 the mark says that the window of period 0 is left, and every rerun
scans and pulls it again (`range_from_zero_never_rests`).
-/
import MassaIndexer.Theory.Resumption
import MassaIndexer.Repair.Checkpoints
import MassaIndexer.Chain.Snapshot

namespace MassaIndexer.Laws.PullWindows

open MassaIndexer.Theory.Runs MassaIndexer.Theory.Checkpoint MassaIndexer.Theory.Resumption
open MassaIndexer.Data.Ids MassaIndexer.Data.Model MassaIndexer.Data.Proto
open MassaIndexer.Store.ColumnFamilies MassaIndexer.Writer.Shared MassaIndexer.Peer.Backfill
open MassaIndexer.Repair.Checkpoints

set_option autoImplicit false

/-! ## The windows of a range -/

/-- The windows of the range, each by its highest period. -/
def IsWindow (cfg : PullPartsConfig) (hi : Nat) : Prop := Route (descending cfg) none hi

def slotsOfWindow (cfg : PullPartsConfig) (hi : Nat) : List Slot :=
  slotsOf cfg.backfill (windowLow cfg hi) hi

theorem startHigh_le {cfg : PullPartsConfig} {mark : Option String} {start : Nat}
    (begins : startHigh cfg mark = some start) : start ≤ cfg.toPeriod.toNat := by
  unfold startHigh at begins
  dsimp only at begins
  split at begins
  · exact absurd begins (by simp)
  · obtain rfl := Option.some.inj begins
    exact UInt64.le_iff_toNat_le.mp (Std.min_le_right)

theorem nextHigh_lt {cfg : PullPartsConfig} {hi later : Nat}
    (next : nextHigh cfg hi = some later) : later < hi := by
  obtain ⟨more, rfl⟩ := nextHigh_eq_some.mp next
  have low := windowLow_le cfg hi
  omega

theorem aligned_descending (cfg : PullPartsConfig) :
    Aligned (descending cfg) (· ≤ cfg.toPeriod.toNat) where
  begins := fun _ _ begins => startHigh_le begins
  onward := fun hi later inRange next => by
    have less := nextHigh_lt next
    omega
  resumes := fun hi later written inRange next mark => by
    obtain rfl := Option.some.inj mark
    have less := nextHigh_lt next
    obtain ⟨more, rfl⟩ := nextHigh_eq_some.mp next
    have fits : windowLow cfg hi - 1 < UInt64.size := by
      have bound := cfg.toPeriod.toNat_lt_size
      omega
    show startHigh cfg (some (windowLow cfg hi - 1).repr) = _
    rw [startHigh_repr cfg fits, if_neg (by omega)]
    congr 1
    omega

/-- The windows from `hi` on hold the slots from there down. -/
theorem exists_window {cfg : PullPartsConfig} {s : Slot} (hi : Nat) (ahead : AheadDown cfg hi s) :
    ∃ hi', OnWay (descending cfg) hi hi' ∧ s ∈ slotsOfWindow cfg hi' := by
  induction hi using Nat.strong_induction_on with
  | _ hi ih =>
      rcases aheadDown_visits ahead with here | ⟨later, next, ahead⟩
      · exact ⟨hi, .refl, here⟩
      · obtain ⟨hi', way, member⟩ := ih later (nextHigh_lt next) ahead
        exact ⟨hi', .head next way, member⟩

theorem window_of_covered {cfg : PullPartsConfig} {s : Slot} (covered : cfg.covers s = true) :
    ∃ hi, IsWindow cfg hi ∧ s ∈ slotsOfWindow cfg hi := by
  obtain ⟨begins, ahead⟩ := aheadDown_start covered
  obtain ⟨hi, way, member⟩ := exists_window _ ahead
  exact ⟨hi, ⟨_, begins, way⟩, member⟩

/-! ## The mark behind the last window -/

/-- An empty range is through before it begins. -/
theorem startHigh_of_empty {cfg : PullPartsConfig} (empty : cfg.toPeriod < cfg.fromPeriod)
    (mark : Option String) : startHigh cfg mark = none := by
  unfold startHigh
  have low : min ((mark.bind parseU64).getD cfg.toPeriod) cfg.toPeriod ≤ cfg.toPeriod :=
    Std.min_le_right
  exact if_pos (UInt64.lt_of_le_of_lt low empty)

theorem startHigh_after_last {cfg : PullPartsConfig}
    (ends : 0 < cfg.fromPeriod ∨ cfg.toPeriod < cfg.fromPeriod) {hi : Nat}
    (last : nextHigh cfg hi = none) :
    startHigh cfg (some (windowLow cfg hi - 1).repr) = none := by
  rcases ends with positive | empty
  · have positive : 0 < cfg.fromPeriod.toNat := UInt64.lt_iff_toNat_lt.mp positive
    have low : windowLow cfg hi = cfg.fromPeriod.toNat := by
      have above : cfg.fromPeriod.toNat ≤ windowLow cfg hi := Nat.le_max_right _ _
      by_contra more
      have next := nextHigh_eq_some.mpr ⟨show cfg.fromPeriod.toNat < windowLow cfg hi by omega, rfl⟩
      exact absurd (last.symm.trans next) (by simp)
    have fits : windowLow cfg hi - 1 < UInt64.size := by
      have bound := cfg.fromPeriod.toNat_lt_size
      omega
    rw [startHigh_repr cfg fits, if_pos (by omega)]
  · exact startHigh_of_empty empty _

theorem startHigh_of_zero {cfg : PullPartsConfig} (zero : cfg.fromPeriod = 0)
    (mark : Option String) : startHigh cfg mark ≠ none := by
  unfold startHigh
  dsimp only
  rw [zero, if_neg (UInt64.not_lt.mpr (UInt64.zero_le))]
  exact Option.some_ne_none _

/-! ## The claim -/

section Claim

variable [Bs58Check] [DenunciationDigest]

/-- From a database without a mark the pass is as after these steps. -/
def after (cfg : PullPartsConfig) (db : Db) (acts : List (Act Db (List FinalSlotResponse))) :
    World Db Slot Unit FinalSlotResponse Nat String :=
  run (runPullParts cfg).step { store := db } acts

/-- What a checkpointed pass promises. At every point, and so wherever it is interrupted, a window that
was not scanned whole is scanned when it resumes; once through it has looked at the whole range; and
when its marks are read and written a rerun after that is at no window at any time, where alone slots
are scanned and requests sent. -/
structure Checkpointed (cfg : PullPartsConfig) (db : Db) : Prop where
  resumes : ∀ acts hi, IsWindow cfg hi →
    (∀ s ∈ slotsOfWindow cfg hi, s ∈ (after cfg db acts).reached) ∨
      Route (descending cfg) (after cfg db acts).mark hi
  completes : ∀ acts, Completed (after cfg db acts) →
    ∀ s, cfg.covers s = true → s ∈ (after cfg db acts).reached
  rests : ∀ acts rerun, (∀ act ∈ acts, Kept act) → (∀ act ∈ rerun, Kept act) →
    Completed (after cfg db acts) →
    Idle (run (runPullParts cfg).step ((runPullParts cfg).step (after cfg db acts) .crash) rerun)

theorem traced_after (cfg : PullPartsConfig) (db : Db)
    (acts : List (Act Db (List FinalSlotResponse))) :
    Traced (runPullParts cfg) (· ≤ cfg.toPeriod.toNat) (after cfg db acts) :=
  traced_run (runPullParts cfg) (aligned_descending cfg) db acts

omit [Bs58Check] [DenunciationDigest] in
theorem scanned_iff {cfg : PullPartsConfig} {reached : List Slot} {hi : Nat} :
    Scanned (descending cfg) reached hi ↔ ∀ s ∈ slotsOfWindow cfg hi, s ∈ reached := by
  show (∀ s ∈ ([slotsOfWindow cfg hi] : List (List Slot)).flatten, s ∈ reached) ↔ _
  rw [List.flatten_singleton]

/-- A range from 0 is never left alone. -/
theorem not_checkpointed_of_zero {cfg : PullPartsConfig} (zero : cfg.fromPeriod = 0) (db : Db) :
    ¬ Checkpointed cfg db := by
  intro checkpointed
  obtain ⟨acts, rerun, kept, kept', completed, scans⟩ := not_resting (runPullParts cfg)
    [] id (fun _ _ next => nextHigh_lt next) (startHigh_of_zero zero) db
  exact scans (checkpointed.rests acts rerun kept kept' completed)

/-- A pull keeps its promise exactly when its range does not begin at 0, or is empty. -/
theorem pull_checkpointed_iff (cfg : PullPartsConfig) (db : Db) :
    Checkpointed cfg db ↔ 0 < cfg.fromPeriod ∨ cfg.toPeriod < cfg.fromPeriod := by
  constructor
  · intro checkpointed
    by_contra other
    rw [not_or, UInt64.not_lt] at other
    have zero : cfg.fromPeriod = 0 := UInt64.le_zero_iff.mp other.1
    exact not_checkpointed_of_zero zero db checkpointed
  · intro ends
    constructor
    · intro acts hi window
      exact ((traced_after cfg db acts).back hi window).imp scanned_iff.mp id
    · intro acts completed s covered
      obtain ⟨hi, window, member⟩ := window_of_covered covered
      have front := (traced_after cfg db acts).front
      rcases completed with ended | finished
      · rw [ended] at front
        exact scanned_iff.mp (front hi window) s member
      · rw [finished] at front
        exact scanned_iff.mp (front hi window) s member
    · intro acts rerun kept kept' completed
      exact rests (runPullParts cfg) rfl
        (fun hi last => ⟨_, rfl, startHigh_after_last ends last⟩) db kept kept' completed

end Claim

section Zero

attribute [local instance] Bs58Check.doubleSha Chain.noDenunciations

/-- The range of period 0 alone, pulled for an empty database. -/
theorem range_from_zero_never_rests :
    ¬ Checkpointed ⟨0, 0, ⟨true, true, true⟩, 32, false⟩ Db.empty :=
  not_checkpointed_of_zero rfl Db.empty

end Zero

end MassaIndexer.Laws.PullWindows
