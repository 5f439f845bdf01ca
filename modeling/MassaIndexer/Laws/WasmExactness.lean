/-
# Laws.WasmExactness -- the analyzer is exact on the modules of version 1.0

For every module and every binary of it the analyzer reports the module: the sections as they stand in the
file, the fields that they fill, no warning. The bytes of a length or an index may be padded and custom
sections may stand anywhere. One thing is asked of these: a custom section with the name `name` is decoded,
and where it is no name section the report has a warning (`garbage_names_warned`), although to the format
such a section is as good as any other.

The sections are read one by one, so the invariant of the walk is about a part of the module: the report is
that of the module without the fields whose sections are still to come (`only`).
-/
import MassaIndexer.Explorer.WasmSections
import MassaIndexer.Laws.WasmWalk

namespace MassaIndexer.Laws.WasmExactness

open MassaIndexer.Theory.Leb128 MassaIndexer.Theory.Decoding
open MassaIndexer.Explorer.WasmReader MassaIndexer.Explorer.WasmAnalyzer MassaIndexer.Explorer.WasmFormat
open MassaIndexer.Explorer.WasmDecoding MassaIndexer.Explorer.WasmSections MassaIndexer.Laws.WasmWalk

set_option autoImplicit false

/-! ## The report of a module -/

/-- The fields of a report that the sections of a module fill. -/
structure Contents where
  types : List WasmFuncSignature
  imports : List WasmImport
  exports : List WasmExport
  funcCount : WasmFuncCount
  tables : List WasmTable
  memories : List WasmLimits
  globals : List WasmGlobal
  startFunction : Option Nat
  data : WasmData

def contentsOf (out : WasmAnalysis) : Contents :=
  ⟨out.types, out.imports, out.exports, out.funcCount, out.tables, out.memories, out.globals,
    out.startFunction, out.data⟩

def shownModule (m : Module) : Contents where
  types := m.types.map shownFuncType
  imports := m.imports.map shownImport
  exports := m.exports.map shownExport
  funcCount := ⟨m.imports.countP importsFunc, m.functions.length⟩
  tables := m.tables.map shownTable
  memories := m.memories.map shownLimits
  globals := m.globals.map fun g => shownGlobalType g.type
  startFunction := m.start
  data := ⟨m.data.length, dataBytes m.data, (stringsFrom 0 (m.data.map Segment.bytes)).take maxDataStrings⟩

/-- The part of the module that stands in the sections with these ids. -/
def only (m : Module) (ids : List Nat) : Module where
  types := if 1 ∈ ids then m.types else []
  imports := if 2 ∈ ids then m.imports else []
  functions := if 3 ∈ ids then m.functions else []
  tables := if 4 ∈ ids then m.tables else []
  memories := if 5 ∈ ids then m.memories else []
  globals := if 6 ∈ ids then m.globals else []
  exports := if 7 ∈ ids then m.exports else []
  start := if 8 ∈ ids then m.start else none
  data := if 11 ∈ ids then m.data else []
  functionNames := m.functionNames

theorem shownModule_none (m : Module) (byteSize : Nat) :
    contentsOf { byteSize := byteSize } = shownModule (only m []) := rfl

/-- A module has nothing beside what its sections hold. -/
theorem only_eq {m : Module} {ids : List Nat} (absent : ∀ id : UInt8, id.toNat ∉ ids → Lacks m id) :
    only m ids = m := by
  have field {α : Type} {x y : α} (id : UInt8) (lacks : Lacks m id → x = y) :
      (if id.toNat ∈ ids then x else y) = x := by
    by_cases present : id.toNat ∈ ids
    · rw [if_pos present]
    · rw [if_neg present, lacks (absent id present)]
  unfold only
  congr
  · exact field 1 id
  · exact field 2 id
  · exact field 3 id
  · exact field 4 id
  · exact field 5 id
  · exact field 6 id
  · exact field 7 id
  · exact field 8 id
  · exact field 11 id

theorem contentsOf_addSection {m : Module} {ids : List Nat} {id : UInt8} {out : WasmAnalysis}
    (same : contentsOf out = shownModule (only m ids)) (fresh : id.toNat ∉ ids) :
    contentsOf (addSection m id out) = shownModule (only m (ids ++ [id.toNat])) := by
  simp only [contentsOf, shownModule, only, Contents.mk.injEq, List.mem_append, List.mem_singleton] at same ⊢
  obtain ⟨types, imports, exports, funcCount, tables, memories, globals, start, data⟩ := same
  unfold addSection
  generalize id.toNat = n at *
  -- One case for each section with a field of its own; the other fields are read off `same`.
  split
  case h_10 => simp_all [eq_comm (b := n)]
  all_goals simp_all

/-! ## The walk over the sections of a module -/

/-- The report when the sections `seen` have been read. -/
structure Reported (m : Module) (seen : List Laid) (out : WasmAnalysis) : Prop where
  contents : contentsOf out = shownModule (only m (seen.map fun s => s.id.toNat))
  warnings : out.warnings = []
  functions : out.names.functions = (fun _ => none) ∨
    out.names.functions = naming m.functionNames fun _ => none
  named : ∀ s ∈ seen, s.id = 0 → (∃ contents, HoldsNames s.body contents) →
    out.names.functions = naming m.functionNames fun _ => none

theorem only_custom (m : Module) (ids : List Nat) : only m (ids ++ [0]) = only m ids := by
  simp [only]

section Run

variable [TextDecoder] (decodes : DecodesUtf8) {m : Module}

theorem walk_laid (len : Nat) {sections : List Laid} (sized : ∀ s ∈ sections, s.Sized)
    (out : WasmAnalysis) : walk len (sections.flatMap Laid.bytes) out = reportOf sections out := by
  induction sections generalizing out with
  | nil => exact walk_nil out
  | cons s sections ih =>
      have read := reads_lebU32 (sized s List.mem_cons_self) (s.body ++ sections.flatMap Laid.bytes)
      have fits : ¬ (s.body ++ sections.flatMap Laid.bytes).length < s.body.length := by
        rw [List.length_append]
        omega
      show walk len (s.id :: (s.length ++ s.body) ++ sections.flatMap Laid.bytes) out = _
      rw [List.cons_append, List.append_assoc, walk_section out read fits, List.take_left, List.drop_left]
      exact ih (fun s later => sized s (List.mem_cons_of_mem _ later)) _

include decodes

theorem reported_standard {seen : List Laid} {s : Laid} {out : WasmAnalysis} (reported : Reported m seen out)
    (standard : s.id ≠ 0) (fresh : ∀ s' ∈ seen, s'.id ≠ s.id) (isBody : IsBody m s.id s.body) :
    Reported m (seen ++ [s]) (visitSection s.id s.body out) := by
  let listed : WasmAnalysis :=
    { out with sections := out.sections ++ [⟨s.id.toNat, sectionName s.id, s.body.length⟩] }
  have same : contentsOf listed = shownModule (only m (seen.map fun s => s.id.toNat)) := reported.contents
  have few : listed.data.strings.length ≤ maxDataStrings := by
    rw [show listed.data = _ from (Contents.mk.inj same).2.2.2.2.2.2.2.2]
    exact List.length_take_le _ _
  have visited : visitSection s.id s.body out = addSection m s.id listed :=
    caught_decodeSection _ decodes isBody standard _ few
  have unseen : s.id.toNat ∉ seen.map fun s => s.id.toNat := by
    intro member
    obtain ⟨s', old, sameId⟩ := List.mem_map.mp member
    exact fresh s' old (UInt8.toNat_inj.mp sameId)
  rw [visited]
  refine ⟨?_, ?_, ?_, ?_⟩
  · rw [List.map_append, List.map_singleton]
    exact contentsOf_addSection same unseen
  · rw [addSection_warnings]
    exact reported.warnings
  · rw [addSection_names]
    exact reported.functions
  · intro s' member custom holds
    rw [addSection_names]
    rcases List.mem_append.mp member with old | new
    · exact reported.named s' old custom holds
    · rw [List.mem_singleton.mp new] at custom
      exact absurd custom standard

theorem reported_custom {seen : List Laid} {s : Laid} {out : WasmAnalysis} (reported : Reported m seen out)
    (custom : s.id = 0) {name : String} {contents : List UInt8} (isCustom : IsCustom s.body name contents)
    (wellFormed : ∀ contents, HoldsNames s.body contents →
      ∃ subs, IsNameSection contents m.functionNames subs) :
    Reported m (seen ++ [s]) (visitSection s.id s.body out) := by
  let listed : WasmAnalysis :=
    { out with sections := out.sections ++ [⟨s.id.toNat, sectionName s.id, s.body.length⟩] }
  obtain ⟨table, names, decoded, functions⟩ := caught_decodeCustom decodes out.sections.length isCustom
    (fun isNames => wellFormed contents ⟨name, isNames, isCustom⟩) (sectionError s.id) listed
  have visited : visitSection s.id s.body out = { listed with sections := table, names := names } := by
    have decoder : decodeSection s.id out.sections.length = decodeCustom out.sections.length := by
      rw [custom]
      rfl
    rw [visitSection, decoder]
    exact decoded
  have kept : (visitSection s.id s.body out).names.functions =
      if withoutMark name = "name" then naming m.functionNames out.names.functions
      else out.names.functions := by
    rw [visited]
    exact functions
  have filled : naming m.functionNames out.names.functions = naming m.functionNames fun _ => none := by
    rcases reported.functions with none | full
    · rw [none]
    · rw [full, naming_naming]
  refine ⟨?_, ?_, ?_, ?_⟩
  · rw [visited, List.map_append, List.map_singleton, custom]
    exact reported.contents.trans (congrArg shownModule (only_custom m _).symm)
  · rw [visited]
    exact reported.warnings
  · rw [kept]
    by_cases isNames : withoutMark name = "name"
    · rw [if_pos isNames]
      exact .inr filled
    · rw [if_neg isNames]
      exact reported.functions
  · intro s' member isCustom' holds
    rw [kept]
    rcases List.mem_append.mp member with old | new
    · rw [reported.named s' old isCustom' holds, naming_naming, ite_self]
    · rw [List.mem_singleton.mp new] at holds
      obtain ⟨contents', name', isNames, isCustom''⟩ := holds
      rw [if_pos ((custom_unique decodes isCustom isCustom'').1.trans isNames), filled]

theorem reported_reportOf {seen sections : List Laid} {out : WasmAnalysis} (reported : Reported m seen out)
    (ordered : ((seen ++ sections).filter fun s => s.id ≠ 0).Pairwise fun s s' => s.id < s'.id)
    (custom : ∀ s ∈ sections, s.id = 0 → ∃ name contents, IsCustom s.body name contents)
    (wellFormed : ∀ s ∈ sections, s.id = 0 → ∀ contents, HoldsNames s.body contents →
      ∃ subs, IsNameSection contents m.functionNames subs)
    (body : ∀ s ∈ sections, IsBody m s.id s.body) :
    Reported m (seen ++ sections) (reportOf sections out) := by
  induction sections generalizing seen out with
  | nil =>
      rw [List.append_nil]
      exact reported
  | cons s sections ih =>
      have step : Reported m (seen ++ [s]) (visitSection s.id s.body out) := by
        by_cases isCustom : s.id = 0
        · obtain ⟨name, contents, found⟩ := custom s List.mem_cons_self isCustom
          exact reported_custom decodes reported isCustom found (wellFormed s List.mem_cons_self isCustom)
        · refine reported_standard decodes reported isCustom (fun s' old same => ?_)
            (body s List.mem_cons_self)
          rw [List.filter_append, List.filter_cons_of_pos (by simpa using isCustom)] at ordered
          have standard' : s'.id ≠ 0 := same ▸ isCustom
          have listed : s' ∈ seen.filter fun s => s.id ≠ 0 :=
            List.mem_filter.mpr ⟨old, by simpa using standard'⟩
          have before : s'.id < s.id :=
            (List.pairwise_append.mp ordered).2.2 s' listed s List.mem_cons_self
          rw [same] at before
          exact absurd before (UInt8.lt_irrefl _)
      rw [List.append_cons] at ordered ⊢
      exact ih step ordered (fun s later => custom s (List.mem_cons_of_mem _ later))
        (fun s later => wellFormed s (List.mem_cons_of_mem _ later))
        (fun s later => body s (List.mem_cons_of_mem _ later))

omit decodes in
/-- The binary of a module is walked over its sections. -/
theorem analyzeWasm_module {bytes : List UInt8} {sections : List Laid} (isModule : IsModule m bytes sections) :
    ∃ ok, analyzeWasm bytes = { reportOf sections (headerReport bytes) with ok := ok } ∧
      ok = ((reportOf sections (headerReport bytes)).validMagic &&
        (reportOf sections (headerReport bytes)).warnings.isEmpty) := by
  have long : ¬ bytes.length < 8 := by
    rw [isModule.laid, List.length_append]
    simp only [header, List.length_cons, List.length_nil]
    omega
  have right : bytes.take 4 = magic := by
    rw [isModule.laid]
    rfl
  have behind : bytes.drop 8 = sections.flatMap Laid.bytes := by
    rw [isModule.laid]
    rfl
  refine ⟨_, ?_, rfl⟩
  rw [analyzeWasm, if_neg long, if_neg (not_not.mpr right), behind, walk_laid bytes.length isModule.sized]

/-- **For every module of version 1.0 and every binary of it, whose custom sections with the name `name` are
name sections: the report has no warning and is not truncated, it lists the sections with their ids and
sizes in order, and its fields and its function names are those of the module.** -/
theorem analyzer_exact {bytes : List UInt8} {sections : List Laid} (isModule : IsModule m bytes sections)
    (isNamed : IsNamed m sections) :
    (analyzeWasm bytes).warnings = [] ∧ (analyzeWasm bytes).truncated = false ∧
      (analyzeWasm bytes).ok = true ∧
      (analyzeWasm bytes).sections.map (fun s => (s.id, s.size)) =
        sections.map (fun s => (s.id.toNat, s.body.length)) ∧
      contentsOf (analyzeWasm bytes) = shownModule m ∧
      ∀ i s, (analyzeWasm bytes).names.functions i = some s ↔
        ∃ name, (i, name) ∈ m.functionNames ∧ withoutMark name = s := by
  have begun : Reported m [] (headerReport bytes) :=
    ⟨rfl, rfl, .inl rfl, fun s none => absurd none List.not_mem_nil⟩
  have reported : Reported m sections (reportOf sections (headerReport bytes)) :=
    reported_reportOf decodes begun isModule.ordered isModule.custom isNamed.wellFormed isModule.body
  obtain ⟨listed, notTruncated, valid⟩ : _ ∧ _ ∧ _ := by
    have table := tableOf_reportOf sections (headerReport bytes)
    simpa only [tableOf, Prod.mk.injEq] using table
  obtain ⟨ok, analyzed, isOk⟩ := analyzeWasm_module isModule
  rw [analyzed]
  refine ⟨reported.warnings, notTruncated, ?_, listed, ?_, fun i s => ?_⟩
  · rw [isOk, reported.warnings, valid]
    rfl
  · have whole : only m (sections.map fun s => s.id.toNat) = m :=
      only_eq fun id missing => isModule.absent id fun s member same =>
        missing (List.mem_map.mpr ⟨s, member, congrArg UInt8.toNat same⟩)
    exact reported.contents.trans (congrArg shownModule whole)
  · have named : (reportOf sections (headerReport bytes)).names.functions =
        naming m.functionNames fun _ => none := by
      rcases reported.functions with none | full
      · by_cases found : ∃ s ∈ sections, s.id = 0 ∧ ∃ contents, HoldsNames s.body contents
        · obtain ⟨s, member, custom, holds⟩ := found
          exact reported.named s member custom holds
        · have empty := isNamed.absent fun s member custom contents holds =>
            found ⟨s, member, custom, contents, holds⟩
          rw [none, empty]
          rfl
      · exact full
    show (reportOf sections (headerReport bytes)).names.functions i = some s ↔ _
    rw [named]
    exact naming_eq_some isNamed.increasing i s

end Run

/-! ## Two modules -/

/-- Bytes that are no text are one replacement character. -/
def decodeUtf8 (bytes : List UInt8) : String :=
  match bytes.toByteArray.utf8Decode? with
  | some chars => withoutMark (String.ofList chars.toList)
  | none => "\uFFFD"

abbrev utf8Decoder : TextDecoder := ⟨decodeUtf8⟩

attribute [local instance] utf8Decoder

theorem decodesUtf8 : DecodesUtf8 := by
  intro s
  have decoded : (utf8Bytes s).toByteArray.utf8Decode? = some s.toList.toArray :=
    List.utf8Decode?_utf8Encode
  show decodeUtf8 (utf8Bytes s) = withoutMark s
  simp [decodeUtf8, decoded]

/-- A custom section `name` whose contents are the byte 1. -/
def garbageNames : Laid := ⟨0, [6], [4, 0x6e, 0x61, 0x6d, 0x65, 1]⟩

/-- The empty module with it. -/
def garbageFile : List UInt8 := header ++ garbageNames.bytes

theorem isModule_garbageFile : IsModule {} garbageFile [garbageNames] where
  laid := rfl
  sized := by
    intro s member
    rw [List.mem_singleton.mp member]
    exact ⟨by decide, by decide, by decide, by decide⟩
  known := by decide
  ordered := by decide
  custom := by
    intro s member _
    rw [List.mem_singleton.mp member]
    exact ⟨"name", [1], [4, 0x6e, 0x61, 0x6d, 0x65], rfl, [4], by decide,
      by decide, by decide, by decide, by decide⟩
  body := by
    intro s member
    rw [List.mem_singleton.mp member]
    exact trivial
  absent := by
    intro id _
    unfold Lacks
    split <;> trivial

/-- A binary of a module may have a custom section `name` that is no name section. -/
theorem garbage_names_warned : DecodesUtf8 ∧ ∃ m bytes sections, IsModule m bytes sections ∧
    (analyzeWasm bytes).warnings ≠ [] := by
  have warned : (analyzeWasm garbageFile).warnings ≠ [] := by
    decide +kernel
  exact ⟨decodesUtf8, {}, garbageFile, [garbageNames], isModule_garbageFile, warned⟩

/-- One function of type `[] → [i32]` with the name `f`. -/
def namedModule : Module where
  types := [⟨[], [.i32]⟩]
  functions := [0]
  functionNames := [(0, "f")]

/-- The length is padded. -/
def typeSection : Laid := ⟨1, [0x85, 0], [1, 0x60, 0, 1, 0x7f]⟩

def functionSection : Laid := ⟨3, [2], [1, 0]⟩

def functionNameSubsection : Laid := ⟨1, [4], [1, 0, 1, 0x66]⟩

def nameSection : Laid := ⟨0, [11], [4, 0x6e, 0x61, 0x6d, 0x65] ++ functionNameSubsection.bytes⟩

/-- `i32.const 7`. -/
def codeSection : Laid := ⟨10, [6], [1, 4, 0, 0x41, 7, 0x0b]⟩

def namedSections : List Laid := [typeSection, functionSection, nameSection, codeSection]

def namedFile : List UInt8 := header ++ namedSections.flatMap Laid.bytes

theorem forall_namedSections {P : Laid → Prop} (type : P typeSection) (function : P functionSection)
    (name : P nameSection) (code : P codeSection) : ∀ s ∈ namedSections, P s := by
  simp [namedSections, type, function, name, code]

theorem isCustom_nameSection : IsCustom nameSection.body "name" functionNameSubsection.bytes :=
  ⟨[4, 0x6e, 0x61, 0x6d, 0x65], rfl, [4], by decide, by decide, by decide, by decide, by decide⟩

theorem isBody_typeSection : IsVec IsFuncType typeSection.body namedModule.types := by
  have noParams : IsVec IsValType [0] [] :=
    ⟨[0], [], rfl, ⟨by decide, by decide, by decide, by decide⟩, .nil⟩
  have i32 : IsValType [0x7f] .i32 := rfl
  have oneResult : IsVec IsValType [1, 0x7f] [.i32] :=
    ⟨[1], [0x7f], rfl, ⟨by decide, by decide, by decide, by decide⟩, .cons i32 .nil⟩
  have type : IsFuncType [0x60, 0, 1, 0x7f] ⟨[], [.i32]⟩ := ⟨[0], [1, 0x7f], rfl, noParams, oneResult⟩
  exact ⟨[1], [0x60, 0, 1, 0x7f], rfl, ⟨by decide, by decide, by decide, by decide⟩, .cons type .nil⟩

theorem isBody_functionSection : IsVec (IsUnsigned 32) functionSection.body namedModule.functions := by
  have zero : IsUnsigned 32 [0] 0 := ⟨by decide, by decide, by decide, by decide⟩
  exact ⟨[1], [0], rfl, ⟨by decide, by decide, by decide, by decide⟩, .cons zero .nil⟩

theorem isModule_namedFile : IsModule namedModule namedFile namedSections where
  laid := rfl
  sized := by
    have sizes : ∀ s ∈ namedSections, Terminated s.length ∧ s.length.length ≤ groups 32 ∧
        payload s.length = s.body.length ∧ s.body.length < 2 ^ 32 := by
      decide
    intro s member
    obtain ⟨terminated, short, value, fits⟩ := sizes s member
    exact ⟨terminated, short, value, fits⟩
  known := by decide
  ordered := by decide
  custom := forall_namedSections (fun custom => absurd custom (by decide))
    (fun custom => absurd custom (by decide)) (fun _ => ⟨"name", _, isCustom_nameSection⟩)
    (fun custom => absurd custom (by decide))
  body := forall_namedSections isBody_typeSection isBody_functionSection trivial trivial
  absent := by
    intro id absent
    have noType : id.toNat ≠ 1 := fun same =>
      absent typeSection (by simp [namedSections]) (UInt8.toNat_inj.mp same.symm)
    have noFunction : id.toNat ≠ 3 := fun same =>
      absent functionSection (by simp [namedSections]) (UInt8.toNat_inj.mp same.symm)
    unfold Lacks
    split <;> first | contradiction | trivial

theorem isNameSection_functionName :
    IsNameSection functionNameSubsection.bytes [(0, "f")] [functionNameSubsection] where
  laid := rfl
  sized := by
    intro s member
    rw [List.mem_singleton.mp member]
    exact ⟨by decide, by decide, by decide, by decide⟩
  known := by decide
  ordered := by decide
  ofModule := by
    intro s member isZero
    rw [List.mem_singleton.mp member] at isZero
    exact absurd isZero (by decide)
  functions := by
    intro s member _
    rw [List.mem_singleton.mp member]
    have name : IsName [1, 0x66] "f" := ⟨[1], by decide, by decide, by decide, by decide, by decide⟩
    have entry : IsNameAssoc [0, 1, 0x66] (0, "f") :=
      ⟨[0], [1, 0x66], rfl, ⟨by decide, by decide, by decide, by decide⟩, name⟩
    exact ⟨[1], [0, 1, 0x66], rfl, ⟨by decide, by decide, by decide, by decide⟩, .cons entry .nil⟩
  absent := fun none => absurd rfl (none functionNameSubsection List.mem_cons_self)

theorem isNamed_namedSections : IsNamed namedModule namedSections where
  wellFormed := by
    refine forall_namedSections (fun custom => absurd custom (by decide))
      (fun custom => absurd custom (by decide)) (fun _ contents holds => ?_)
      (fun custom => absurd custom (by decide))
    obtain ⟨name, -, isCustom⟩ := holds
    obtain ⟨-, rfl⟩ := custom_unique decodesUtf8 isCustom_nameSection isCustom
    exact ⟨[functionNameSubsection], isNameSection_functionName⟩
  increasing := List.pairwise_singleton _ _
  absent := fun none => absurd ⟨"name", rfl, isCustom_nameSection⟩
    (none nameSection (by simp [namedSections]) rfl functionNameSubsection.bytes)

theorem analyzer_exact_named :
    (analyzeWasm namedFile).warnings = [] ∧ (analyzeWasm namedFile).truncated = false ∧
      (analyzeWasm namedFile).ok = true ∧
      (analyzeWasm namedFile).sections.map (fun s => (s.id, s.size)) =
        namedSections.map (fun s => (s.id.toNat, s.body.length)) ∧
      contentsOf (analyzeWasm namedFile) = shownModule namedModule ∧
      ∀ i s, (analyzeWasm namedFile).names.functions i = some s ↔
        ∃ name, (i, name) ∈ namedModule.functionNames ∧ withoutMark name = s :=
  analyzer_exact decodesUtf8 isModule_namedFile isNamed_namedSections

end MassaIndexer.Laws.WasmExactness
