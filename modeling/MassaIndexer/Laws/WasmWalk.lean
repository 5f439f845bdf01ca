/-
# Laws.WasmWalk -- the analyzer recovers at the borders of sections

A binary behind its eight bytes of header is a row of sections and perhaps a rest. A section is an id, the
bytes of its length and a body of that length (`Laid`); the rest begins with a section whose length cannot
be read or is more than what is left (`Stuck`). `analyzer_recovers` says that this is what the analyzer
walks, for every file: it lists the sections, each of them, in order; what it reports is the fold over
their ids and bodies (`reportOf`), whatever a decoder throws; and `truncated` says whether there is a rest.

No decoder touches the ids and sizes of the list or the flag (`keeps_decodeSection`), so what is thrown half
way through a body cannot disturb the walk.
-/
import MassaIndexer.Explorer.WasmAnalyzer
import MassaIndexer.Explorer.WasmFormat

namespace MassaIndexer.Laws.WasmWalk

open MassaIndexer.Theory.Decoding MassaIndexer.Explorer.WasmReader MassaIndexer.Explorer.WasmAnalyzer
open MassaIndexer.Explorer.WasmFormat (Laid)

set_option autoImplicit false

/-! ## What no decoder touches -/

section Frame

variable {τ : Type} {view : WasmAnalysis → τ}

theorem keeps_pushEach {α : Type} {entry : Nat → Reading α} {push : Nat → α → WasmAnalysis → WasmAnalysis}
    (same : ∀ i a out, view (push i a out) = view out) (n : Nat) : Keeps view (pushEach entry push n) := by
  refine Keeps.each (fun i => ?_) n 0
  exact (Keeps.of (entry i)).bind fun a => Keeps.update (same i a)

theorem keeps_decodeEntries {α : Type} {entry : Nat → Reading α} {push : α → WasmAnalysis → WasmAnalysis}
    (same : ∀ a out, view (push a out) = view out) : Keeps view (decodeEntries entry push) :=
  (Keeps.of lebU32).bind fun n => keeps_pushEach (fun _ => same) n

theorem view_caught {d : Decoding Unit} (keeps : Keeps view d)
    (warned : ∀ out w, view (WasmAnalysis.warn out w) = view out) (body : List UInt8)
    (warning : String → String) (out : WasmAnalysis) : view (caught d body warning out) = view out := by
  have kept := keeps body out
  unfold caught
  generalize d body out = left at kept ⊢
  rcases left with ⟨outcome, out'⟩
  cases outcome with
  | error message => exact (warned out' _).trans kept
  | ok p => exact kept

end Frame

/-- What the walk itself reports: the ids and sizes, and whether it stopped early. -/
def tableOf (out : WasmAnalysis) : List (Nat × Nat) × Bool × Bool :=
  (out.sections.map fun s => (s.id, s.size), out.truncated, out.validMagic)

theorem map_modify_of_same {α β : Type} {f : α → α} {g : α → β} (same : ∀ a, g (f a) = g a) (l : List α)
    (i : Nat) : (l.modify i f).map g = l.map g := by
  induction l generalizing i with
  | nil => simp
  | cons a l ih =>
      cases i with
      | zero => simp [same]
      | succ i => simp [ih]

section Walk

variable [TextDecoder]

theorem keeps_decodeNameSubsection (sub : UInt8) : Keeps tableOf (decodeNameSubsection sub) := by
  unfold decodeNameSubsection
  split
  · exact (Keeps.of utf8).bind fun _ => Keeps.update fun _ => rfl
  · exact keeps_decodeEntries fun _ _ => rfl
  · exact keeps_decodeEntries fun _ _ => rfl
  · exact keeps_decodeEntries fun _ _ => rfl
  · exact Keeps.pure ()

theorem keeps_decodeNameSection : Keeps tableOf decodeNameSection := by
  intro body out
  induction body, out using decodeNameSection.induct with
  | case1 out => rw [decodeNameSection_nil]
  | case2 sub afterSub out message threw => rw [decodeNameSection_unreadable out threw]
  | case3 sub afterSub out size afterSize read short =>
      rw [decodeNameSection_overflow out read short]
      rfl
  | case4 sub afterSub out size afterSize read fits ih =>
      rw [decodeNameSection_subsection out read fits]
      exact ih.trans (view_caught (keeps_decodeNameSubsection sub) (fun _ _ => rfl) _ _ _)

theorem keeps_decodeCustom (stat : Nat) : Keeps tableOf (decodeCustom stat) := by
  refine (Keeps.of utf8).bind fun name => ?_
  refine Keeps.bind (Keeps.update fun out => ?_) fun _ => ?_
  · have kept : (out.sections.modify stat fun s => { s with name := "custom:" ++ name }).map
        (fun s => (s.id, s.size)) = out.sections.map fun s => (s.id, s.size) := by
      apply map_modify_of_same
      intro s
      rfl
    simp only [tableOf, kept]
  · split
    · exact keeps_decodeNameSection
    · exact Keeps.pure ()

theorem keeps_decodeSection (id : UInt8) (stat : Nat) : Keeps tableOf (decodeSection id stat) := by
  unfold decodeSection
  split
  · exact keeps_decodeCustom stat
  · exact keeps_decodeEntries fun _ _ => rfl
  · exact keeps_decodeEntries fun _ _ => rfl
  · exact (Keeps.of lebU32).bind fun _ => Keeps.update fun _ => rfl
  · exact keeps_decodeEntries fun _ _ => rfl
  · exact keeps_decodeEntries fun _ _ => rfl
  · exact keeps_decodeEntries fun _ _ => rfl
  · exact keeps_decodeEntries fun _ _ => rfl
  · exact (Keeps.of lebU32).bind fun _ => Keeps.update fun _ => rfl
  · refine (Keeps.of lebU32).bind fun n => Keeps.bind (Keeps.update ?_) fun _ => ?_
    · exact fun _ => rfl
    · exact keeps_pushEach (fun i seg out => (rfl : tableOf (pushSegment i seg out) = tableOf out)) n
  · exact Keeps.pure ()

/-- A section adds its id and size to the list. -/
theorem tableOf_visitSection (id : UInt8) (body : List UInt8) (out : WasmAnalysis) :
    tableOf (visitSection id body out) =
      ((tableOf out).1 ++ [(id.toNat, body.length)], (tableOf out).2) := by
  unfold visitSection
  rw [view_caught (keeps_decodeSection id _) fun _ _ => rfl]
  simp only [tableOf, List.map_append, List.map_cons, List.map_nil]

/-! ## Sections laid out -/

/-- The bytes of the length are read as the length. -/
def Measured (s : Laid) : Prop := Reads lebU32 s.length s.body.length

/-- A section whose length cannot be read, or is more than what follows. -/
def Stuck (bytes : List UInt8) : Prop :=
  ∃ id rest, bytes = id :: rest ∧ ((∃ message, lebU32 rest = .error message) ∨
    ∃ size after, lebU32 rest = .ok (size, after) ∧ after.length < size)

/-- What the sections add to a report, one after the other. -/
def reportOf (sections : List Laid) (out : WasmAnalysis) : WasmAnalysis :=
  sections.foldl (fun out s => visitSection s.id s.body out) out

theorem tableOf_reportOf (sections : List Laid) (out : WasmAnalysis) : tableOf (reportOf sections out) =
    ((tableOf out).1 ++ sections.map (fun s => (s.id.toNat, s.body.length)), (tableOf out).2) := by
  induction sections generalizing out with
  | nil => simp [reportOf]
  | cons s sections ih =>
      show tableOf (reportOf sections (visitSection s.id s.body out)) = _
      rw [ih, tableOf_visitSection, List.append_assoc]
      rfl

omit [TextDecoder] in
/-- What was read as a number is read as that number whatever follows it. -/
theorem reads_of_lebU32From (result : BitVec 32) (shift : Nat) {bytes rest : List UInt8} {v : Nat}
    (read : lebU32From result shift bytes = .ok (v, rest)) :
    ∃ code, bytes = code ++ rest ∧ ∀ rest', lebU32From result shift (code ++ rest') = .ok (v, rest') := by
  induction bytes generalizing result shift with
  | nil => exact absurd read (by simp [lebU32From])
  | cons b tail ih =>
      rw [lebU32From] at read
      by_cases last : b.toNat &&& 0x80 = 0
      · simp only [if_pos last] at read
        obtain ⟨rfl, rfl⟩ := Prod.mk.inj (Except.ok.inj read)
        refine ⟨[b], rfl, fun rest' => ?_⟩
        rw [List.singleton_append, lebU32From]
        simp only [if_pos last]
      · simp only [if_neg last] at read
        split at read
        · cases read
        · next room =>
            obtain ⟨code, rfl, again⟩ := ih _ _ read
            refine ⟨b :: code, rfl, fun rest' => ?_⟩
            rw [List.cons_append, lebU32From]
            simp only [if_neg last, if_neg room]
            exact again rest'

/-- Every string of bytes is a row of sections and a rest that is empty or stuck, and is walked as such. -/
theorem walk_eq (len : Nat) (bytes : List UInt8) (out : WasmAnalysis) : ∃ sections tail,
    bytes = sections.flatMap Laid.bytes ++ tail ∧ (∀ s ∈ sections, Measured s) ∧
      ((tail = [] ∧ walk len bytes out = reportOf sections out) ∨
        (Stuck tail ∧ ∃ warning,
          walk len bytes out = { (reportOf sections out).warn warning with truncated := true })) := by
  induction bytes, out using walk.induct len with
  | case1 out => exact ⟨[], [], rfl, by simp, .inl ⟨rfl, walk_nil out⟩⟩
  | case2 id afterId out message threw =>
      exact ⟨[], id :: afterId, rfl, by simp,
        .inr ⟨⟨id, afterId, rfl, .inl ⟨message, threw⟩⟩, _, walk_unreadable out threw⟩⟩
  | case3 id afterId out size afterSize read short =>
      exact ⟨[], id :: afterId, rfl, by simp,
        .inr ⟨⟨id, afterId, rfl, .inr ⟨size, afterSize, read, short⟩⟩, _, walk_overflow out read short⟩⟩
  | case4 id afterId out size afterSize read fits ih =>
      obtain ⟨sections, tail, laid, measured, walked⟩ := ih
      obtain ⟨code, rfl, reads⟩ := reads_of_lebU32From 0 0 read
      have whole : (afterSize.take size).length = size := by
        rw [List.length_take]
        omega
      refine ⟨⟨id, code, afterSize.take size⟩ :: sections, tail, ?_, ?_, ?_⟩
      · rw [List.flatMap_cons, List.append_assoc, ← laid]
        show id :: (code ++ afterSize) = id :: (code ++ afterSize.take size ++ afterSize.drop size)
        rw [List.append_assoc, List.take_append_drop]
      · intro s member
        rcases List.mem_cons.mp member with rfl | later
        · show Reads lebU32 code (afterSize.take size).length
          rw [whole]
          exact reads
        · exact measured s later
      · rw [walk_section out read fits]
        exact walked

/-- **For every file with the right magic: behind the header stands a row of sections, and the report is
what their bodies add to it, one by one; the list has each of them with its id and size; and the walk is
truncated exactly where a rest is left, a section with no readable length or one that the file is too
short for.** -/
theorem analyzer_recovers (bytes : List UInt8) (long : 8 ≤ bytes.length) (right : bytes.take 4 = magic) :
    ∃ sections : List Laid, ∃ tail warnings,
      bytes.drop 8 = sections.flatMap Laid.bytes ++ tail ∧ (∀ s ∈ sections, Measured s) ∧
      (analyzeWasm bytes).sections.map (fun s => (s.id, s.size)) =
        sections.map (fun s => (s.id.toNat, s.body.length)) ∧
      analyzeWasm bytes =
        { reportOf sections (headerReport bytes) with
          warnings := (reportOf sections (headerReport bytes)).warnings ++ warnings
          truncated := !tail.isEmpty
          ok := ((reportOf sections (headerReport bytes)).warnings ++ warnings).isEmpty } ∧
      (warnings = [] ↔ tail = []) ∧
      ((analyzeWasm bytes).truncated = true ↔ tail ≠ []) ∧ (tail ≠ [] → Stuck tail) := by
  obtain ⟨sections, tail, laid, measured, walked⟩ :=
    walk_eq bytes.length (bytes.drop 8) (headerReport bytes)
  have table := tableOf_reportOf sections (headerReport bytes)
  obtain ⟨listed, flags⟩ := Prod.mk.inj table
  obtain ⟨notYet, valid⟩ := Prod.mk.inj flags
  have analyzed : analyzeWasm bytes =
      { walk bytes.length (bytes.drop 8) (headerReport bytes) with
        ok := (walk bytes.length (bytes.drop 8) (headerReport bytes)).validMagic &&
          (walk bytes.length (bytes.drop 8) (headerReport bytes)).warnings.isEmpty } := by
    rw [analyzeWasm, if_neg (by omega), if_neg (not_not.mpr right)]
  rcases walked with ⟨rfl, walked⟩ | ⟨stuck, warning, walked⟩
  · have report : analyzeWasm bytes =
        { reportOf sections (headerReport bytes) with
          warnings := (reportOf sections (headerReport bytes)).warnings ++ []
          truncated := false
          ok := ((reportOf sections (headerReport bytes)).warnings ++ []).isEmpty } := by
      rw [analyzed, walked, List.append_nil]
      rw [show (reportOf sections (headerReport bytes)).validMagic = true from valid, Bool.true_and,
        ← show (reportOf sections (headerReport bytes)).truncated = false from notYet]
    refine ⟨sections, [], [], laid, measured, ?_, report, by simp, ?_, by simp⟩
    · rw [report]
      exact listed
    · rw [report]
      simp
  · have some : tail ≠ [] := by
      obtain ⟨id, rest, rfl, -⟩ := stuck
      exact List.cons_ne_nil _ _
    have report : analyzeWasm bytes =
        { reportOf sections (headerReport bytes) with
          warnings := (reportOf sections (headerReport bytes)).warnings ++ [warning]
          truncated := true
          ok := ((reportOf sections (headerReport bytes)).warnings ++ [warning]).isEmpty } := by
      rw [analyzed, walked]
      simp only [WasmAnalysis.warn]
      rw [show (reportOf sections (headerReport bytes)).validMagic = true from valid, Bool.true_and]
    have full : (!tail.isEmpty) = true := by simpa using some
    refine ⟨sections, tail, [warning], laid, measured, ?_, ?_, by simp [some], ?_, fun _ => stuck⟩
    · rw [report]
      exact listed
    · rw [report, full]
    · rw [report]
      exact iff_of_true rfl some

end Walk

/-! ## A file that breaks twice -/

/-- Latin letters only. -/
abbrev asciiDecoder : TextDecoder where
  decode bytes := String.ofList (bytes.map fun b => Char.ofNat b.toNat)

attribute [local instance] asciiDecoder

/-- A type section whose count does not end, a function section of two, and an id without a length. -/
def brokenFile : List UInt8 := magic ++ [1, 0, 0, 0] ++ [1, 1, 0xff] ++ [3, 1, 2] ++ [5]

theorem analyzer_recovers_broken : ∃ sections : List Laid, ∃ tail,
    [1, 1, 0xff, 3, 1, 2, 5] = sections.flatMap Laid.bytes ++ tail ∧ (∀ s ∈ sections, Measured s) ∧
      (analyzeWasm brokenFile).sections.map (fun s => (s.id, s.size)) =
        sections.map (fun s => (s.id.toNat, s.body.length)) ∧
      ((analyzeWasm brokenFile).truncated = true ↔ tail ≠ []) ∧ (tail ≠ [] → Stuck tail) := by
  obtain ⟨sections, tail, warnings, laid, measured, listed, -, -, truncated, stuck⟩ :=
    analyzer_recovers brokenFile (by decide) (by decide)
  exact ⟨sections, tail, laid, measured, listed, truncated, stuck⟩

example : (analyzeWasm brokenFile).sections.map (fun s => (s.id, s.size)) = [(1, 1), (3, 1)] ∧
    (analyzeWasm brokenFile).funcCount.declared = 2 ∧ (analyzeWasm brokenFile).truncated = true := by
  decide +kernel

end MassaIndexer.Laws.WasmWalk
