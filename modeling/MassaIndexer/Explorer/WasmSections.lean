/-
# Explorer.WasmSections -- what a well-formed section adds to the report

For each kind of section of version 1.0 the effect of its decoder on a body of the format: no warning, and
the field of the report that is its own. Strings of the data section are first described as runs of the
bytes between those that are not printable (`runsOf`); the scanner's run so far is the head of that list.
-/
import MassaIndexer.Explorer.WasmDecoding

namespace MassaIndexer.Explorer.WasmSections

open MassaIndexer.Theory.Leb128 MassaIndexer.Theory.Decoding
open MassaIndexer.Explorer.WasmReader MassaIndexer.Explorer.WasmAnalyzer MassaIndexer.Explorer.WasmFormat
open MassaIndexer.Explorer.WasmDecoding

set_option autoImplicit false

/-! ## Vectors of entries -/

section Entries

variable {α β : Type} {P : List UInt8 → α → Prop} {f : α → β} {entry : Nat → Reading β}

theorem decodes_pushEach {push : Nat → β → WasmAnalysis → WasmAnalysis}
    (reads : ∀ i code a, P code a → Reads (entry i) code (f a)) {code : List UInt8} {as : List α}
    (coded : Coded P code as) (out : WasmAnalysis) :
    Decodes (pushEach entry push as.length) code out ()
      (Decodes.eachPut (fun i a out => push i (f a) out) 0 as out) :=
  Decodes.each (fun i code a out isCode => Decodes.put (reads i code a isCode) (push i) out) coded 0 out

theorem eachPut_const {push : β → WasmAnalysis → WasmAnalysis} (i : Nat) (as : List α) (out : WasmAnalysis) :
    Decodes.eachPut (fun _ a out => push (f a) out) i as out =
      (as.map f).foldl (fun out b => push b out) out := by
  induction as generalizing i out with
  | nil => rfl
  | cons a as ih => exact ih (i + 1) _

theorem decodes_decodeEntries {push : β → WasmAnalysis → WasmAnalysis}
    (reads : ∀ i code a, P code a → Reads (entry i) code (f a)) {code : List UInt8} {as : List α}
    (encodes : IsVec P code as) (out : WasmAnalysis) :
    Decodes (decodeEntries entry push) code out () ((as.map f).foldl (fun out b => push b out) out) := by
  obtain ⟨count, items, rfl, counted, coded⟩ := encodes
  rw [← eachPut_const 0]
  exact (Decodes.of (reads_lebU32 counted) out).bind (decodes_pushEach reads coded out)

/-- A fold that an append describes. -/
theorem foldl_push {push : β → WasmAnalysis → WasmAnalysis}
    (appended : List β → WasmAnalysis → WasmAnalysis) (nil : ∀ out, appended [] out = out)
    (cons : ∀ b bs out, appended bs (push b out) = appended (b :: bs) out) (bs : List β)
    (out : WasmAnalysis) : bs.foldl (fun out b => push b out) out = appended bs out := by
  induction bs generalizing out with
  | nil => exact (nil out).symm
  | cons b bs ih => exact (ih (push b out)).trans (cons b bs out)

end Entries

/-- A body that is decoded to its end leaves what the decoder did. -/
theorem caught_of_decodes {d : Decoding Unit} {body : List UInt8} {out out' : WasmAnalysis} {u : Unit}
    (decodes : Decodes d body out u out') (warning : String → String) :
    caught d body warning out = out' := by
  rw [caught, decodes.all]

/-! ## Strings -/

/-- The maximal runs of printable bytes that are long enough. -/
def runsOf (seg : List UInt8) : List (List UInt8) :=
  (seg.splitOnP fun b => !printable b).filter fun run => minRun ≤ run.length

/-- The text of ASCII bytes. -/
def asciiText (bytes : List UInt8) : String := String.ofList (bytes.map fun b => Char.ofNat b.toNat)

def stringOf (segIdx : Nat) (run : List UInt8) : WasmDataString := ⟨asciiText (run.take maxLen), segIdx⟩

/-- The strings of all segments, in order. -/
def stringsFrom (i : Nat) : List (List UInt8) → List WasmDataString
  | [] => []
  | seg :: segs => (runsOf seg).map (stringOf i) ++ stringsFrom (i + 1) segs

@[simp] theorem stringsFrom_nil (i : Nat) : stringsFrom i [] = [] := rfl

theorem utf8Bytes_asciiText {bytes : List UInt8} (clean : ∀ b ∈ bytes, printable b = true) :
    utf8Bytes (asciiText bytes) = bytes := by
  rw [utf8Bytes, asciiText, String.toList_ofList]
  induction bytes with
  | nil => rfl
  | cons b bytes ih =>
      have plain := clean b List.mem_cons_self
      have single : String.utf8EncodeChar (Char.ofNat b.toNat) = [b] := by
        have all : ∀ n : Fin 256, printable (UInt8.ofNat n) = true →
            String.utf8EncodeChar (Char.ofNat n) = [UInt8.ofNat n] := by
          decide +kernel
        have found := all ⟨b.toNat, b.toNat_lt⟩
        rw [UInt8.ofNat_toNat] at found
        exact found plain
      rw [List.map_cons, List.flatMap_cons, single, ih fun b' later => clean b' (List.mem_cons_of_mem _ later)]
      rfl

/-- Printable bytes do not begin with a byte order mark. -/
theorem withoutMark_asciiText {bytes : List UInt8} (clean : ∀ b ∈ bytes, printable b = true) :
    withoutMark (asciiText bytes) = asciiText bytes := by
  cases bytes with
  | nil => rfl
  | cons b bytes =>
      have plain := clean b List.mem_cons_self
      have other : Char.ofNat b.toNat ≠ Char.ofNat 0xfeff := by
        have all : ∀ n : Fin 256, printable (UInt8.ofNat n) = true → Char.ofNat n ≠ Char.ofNat 0xfeff := by
          decide +kernel
        have found := all ⟨b.toNat, b.toNat_lt⟩
        rw [UInt8.ofNat_toNat] at found
        exact found plain
      unfold withoutMark asciiText
      rw [String.toList_ofList, List.map_cons]
      dsimp only
      rw [if_neg other]

/-- Cutting before an append changes nothing where the result is cut as well. -/
theorem take_take_append {α : Type} (n : Nat) (as bs : List α) :
    (as.take n ++ bs).take n = (as ++ bs).take n := by
  have room : n - (as.take n).length = n - as.length := by
    rw [List.length_take]
    omega
  rw [List.take_append, List.take_take, Nat.min_self, room, List.take_append]

section Texts

variable [TextDecoder] (decodes : DecodesUtf8)

include decodes

theorem decode_run {run : List UInt8} (clean : ∀ b ∈ run, printable b = true) (segIdx : Nat) :
    (⟨TextDecoder.decode (run.take maxLen), segIdx⟩ : WasmDataString) = stringOf segIdx run := by
  have kept : ∀ b ∈ run.take maxLen, printable b = true := fun b member =>
    clean b (List.mem_of_mem_take member)
  have text := decodes (asciiText (run.take maxLen))
  rw [utf8Bytes_asciiText kept, withoutMark_asciiText kept] at text
  rw [stringOf, text]

/-- The scanner with a run begun: the run is the front of the piece that comes next. -/
theorem extractFrom_eq (segIdx : Nat) (run rest : List UInt8) (acc : List WasmDataString)
    (clean : ∀ b ∈ run, printable b = true) (few : acc.length < maxDataStrings) :
    extractFrom segIdx run rest acc =
      (acc ++ ((rest.splitOnPPrepend (fun b => !printable b) run.reverse).filter
        fun run => minRun ≤ run.length).map (stringOf segIdx)).take maxDataStrings := by
  induction rest generalizing run acc with
  | nil =>
      rw [extractFrom, List.splitOnPPrepend_nil, List.reverse_reverse, decode_run decodes clean]
      by_cases long : minRun ≤ run.length
      · rw [if_pos long, List.filter_cons_of_pos (by simpa using long), List.filter_nil, List.map_singleton,
          List.take_of_length_le (by rw [List.length_append, List.length_singleton]; omega)]
      · rw [if_neg long, List.filter_cons_of_neg (by simpa using long), List.filter_nil, List.map_nil,
          List.append_nil, List.take_of_length_le (Nat.le_of_lt few)]
  | cons b rest ih =>
      rw [extractFrom]
      cases plain : printable b with
      | true =>
          have grown : ∀ b' ∈ run ++ [b], printable b' = true := by
            intro b' member
            rcases List.mem_append.mp member with old | new
            · exact clean b' old
            · rw [List.mem_singleton.mp new]
              exact plain
          rw [if_pos rfl, ih (run ++ [b]) acc grown few, List.splitOnPPrepend_cons_neg (by rw [plain]; rfl),
            List.reverse_append, List.reverse_singleton, List.singleton_append]
      | false =>
          rw [if_neg Bool.false_ne_true, List.splitOnPPrepend_cons_pos (by rw [plain]; rfl),
            List.reverse_reverse, decode_run decodes clean]
          have fresh : ∀ b' ∈ ([] : List UInt8), printable b' = true := fun b' none =>
            absurd none List.not_mem_nil
          by_cases long : minRun ≤ run.length
          · rw [if_pos long, List.filter_cons_of_pos (by simpa using long), List.map_cons]
            dsimp only
            have count : (acc ++ [stringOf segIdx run]).length = acc.length + 1 := by
              rw [List.length_append, List.length_singleton]
            refine Eq.trans ?_ (congrArg (List.take maxDataStrings) (List.append_cons acc _ _).symm)
            by_cases full : maxDataStrings ≤ (acc ++ [stringOf segIdx run]).length
            · rw [if_pos full, List.take_left' (by omega)]
            · rw [if_neg full, ih [] _ fresh (by omega)]
              rfl
          · rw [if_neg long, List.filter_cons_of_neg (by simpa using long), ih [] acc fresh few]
            rfl

theorem extractStrings_eq (seg : List UInt8) (segIdx : Nat) {acc : List WasmDataString}
    (few : acc.length < maxDataStrings) : extractStrings seg segIdx acc =
      (acc ++ (runsOf seg).map (stringOf segIdx)).take maxDataStrings :=
  extractFrom_eq decodes segIdx [] seg acc (fun _ none => absurd none List.not_mem_nil) few

/-- While the list is short the strings of a segment are added to it, up to the limit. -/
theorem pushSegment_eq (i : Nat) (seg : List UInt8) {out : WasmAnalysis}
    (few : out.data.strings.length ≤ maxDataStrings) : pushSegment i seg out =
      { out with data := ⟨out.data.segments, out.data.totalBytes + seg.length,
        (out.data.strings ++ (runsOf seg).map (stringOf i)).take maxDataStrings⟩ } := by
  unfold pushSegment
  by_cases room : out.data.strings.length < maxDataStrings
  · simp only [if_pos room, extractStrings_eq decodes seg i room]
  · simp only [if_neg room, List.take_left' (Nat.le_antisymm few (Nat.not_lt.mp room))]

theorem eachPut_pushSegment (i : Nat) (segs : List Segment) {out : WasmAnalysis}
    (few : out.data.strings.length ≤ maxDataStrings) :
    Decodes.eachPut (fun i d out => pushSegment i (Segment.bytes d) out) i segs out =
      { out with data := ⟨out.data.segments, out.data.totalBytes + (segs.map fun d => d.bytes.length).sum,
        (out.data.strings ++ stringsFrom i (segs.map Segment.bytes)).take maxDataStrings⟩ } := by
  induction segs generalizing i out with
  | nil =>
      have same : (out.data.strings ++ stringsFrom i (([] : List Segment).map Segment.bytes)).take
          maxDataStrings = out.data.strings := by
        rw [List.map_nil, stringsFrom, List.append_nil, List.take_of_length_le few]
      rw [same]
      rfl
  | cons d segs ih =>
      show Decodes.eachPut _ (i + 1) segs (pushSegment i d.bytes out) = _
      rw [pushSegment_eq decodes i d.bytes few, ih (i + 1) (List.length_take_le _ _)]
      have joined : ((out.data.strings ++ (runsOf d.bytes).map (stringOf i)).take maxDataStrings ++
          stringsFrom (i + 1) (segs.map Segment.bytes)).take maxDataStrings =
          (out.data.strings ++ stringsFrom i ((d :: segs).map Segment.bytes)).take maxDataStrings := by
        rw [take_take_append, List.append_assoc, List.map_cons, stringsFrom]
      simp only [joined, List.map_cons, List.sum_cons, Nat.add_assoc]

end Texts

/-! ## Function names -/

/-- The record of function names after a list of names: a later one replaces an earlier one. -/
def naming (entries : List (Nat × String)) (functions : Nat → Option String) : Nat → Option String :=
  entries.foldl (fun functions entry => setName entry.1 (withoutMark entry.2) functions) functions

theorem naming_apply (entries : List (Nat × String)) (functions : Nat → Option String) (i : Nat) :
    naming entries functions i = (naming entries (fun _ => none) i).or (functions i) := by
  induction entries generalizing functions with
  | nil => rfl
  | cons entry entries ih =>
      show naming entries (setName entry.1 _ functions) i =
        (naming entries (setName entry.1 _ fun _ => none) i).or (functions i)
      rw [ih, ih (setName entry.1 _ fun _ => none), Option.or_assoc]
      congr 1
      unfold setName
      by_cases named : i = entry.1
      · simp only [if_pos named, Option.some_or]
      · simp only [if_neg named, Option.none_or]

theorem naming_naming (entries : List (Nat × String)) (functions : Nat → Option String) :
    naming entries (naming entries functions) = naming entries functions := by
  funext i
  rw [naming_apply entries (naming entries functions), naming_apply entries functions, ← Option.or_assoc,
    Option.or_self]

/-- Where no index occurs twice every name is kept. -/
theorem naming_eq_some {entries : List (Nat × String)} (increasing : entries.Pairwise fun e e' => e.1 < e'.1)
    (i : Nat) (s : String) : naming entries (fun _ => none) i = some s ↔
      ∃ name, (i, name) ∈ entries ∧ withoutMark name = s := by
  induction entries generalizing s with
  | nil => simp [naming]
  | cons entry entries ih =>
      obtain ⟨first, later⟩ := List.pairwise_cons.mp increasing
      obtain ⟨idx, text⟩ := entry
      show naming entries (setName idx (withoutMark text) fun _ => none) i = some s ↔ _
      rw [naming_apply]
      by_cases named : i = idx
      · subst named
        have fresh : naming entries (fun _ => none) i = none := by
          refine Option.eq_none_iff_forall_ne_some.mpr fun s' found => ?_
          obtain ⟨name, member, -⟩ := (ih later s').mp found
          exact Nat.lt_irrefl i (first _ member)
        have only (name : String) : (i, name) ∈ (i, text) :: entries ↔ name = text := by
          refine ⟨fun member => ?_, fun same => same ▸ List.mem_cons_self⟩
          rcases List.mem_cons.mp member with same | old
          · exact (Prod.mk.inj same).2
          · exact absurd (first _ old) (Nat.lt_irrefl i)
        rw [fresh, Option.none_or]
        simp [setName, only]
      · have other (name : String) : (i, name) ∈ (idx, text) :: entries ↔ (i, name) ∈ entries := by
          simp [named]
        simp only [setName, if_neg named, Option.or_none, other]
        exact ih later s

theorem foldl_putFunctionName (entries : List (Nat × String)) (out : WasmAnalysis) :
    (entries.map fun entry => (entry.1, withoutMark entry.2)).foldl
        (fun out entry => { out with names := putFunctionName entry.1 entry.2 out.names }) out =
      { out with names := { out.names with functions := naming entries out.names.functions } } := by
  induction entries generalizing out with
  | nil => rfl
  | cons entry entries ih => exact ih _

section Names

variable [TextDecoder] (decodes : DecodesUtf8)

include decodes

theorem decodes_functionNames {body : List UInt8} {entries : List (Nat × String)}
    (encodes : IsVec IsNameAssoc body entries) (out : WasmAnalysis) :
    Decodes (readNameMap putFunctionName) body out ()
      { out with names := { out.names with functions := naming entries out.names.functions } } := by
  have put : Decodes (readNameMap putFunctionName) body out () _ :=
    decodes_decodeEntries (fun _ code entry isCode => reads_readNameAssoc decodes isCode) encodes out
  rwa [foldl_putFunctionName] at put

/-- A subsection of a name section changes the names alone. -/
theorem caught_decodeNameSubsection {entries : List (Nat × String)} {s : Laid} (known : s.id.toNat ≤ 2)
    (ofModule : s.id = 0 → ∃ name, IsName s.body name)
    (functions : s.id = 1 → IsVec IsNameAssoc s.body entries) (out : WasmAnalysis) :
    ∃ names, caught (decodeNameSubsection s.id) s.body (subsectionError s.id) out =
        { out with names := names } ∧
      names.functions = if s.id = 1 then naming entries out.names.functions else out.names.functions := by
  obtain ⟨id, length, body⟩ := s
  dsimp only at known ofModule functions ⊢
  have cases : id = 0 ∨ id = 1 ∨ id = 2 := by
    have all : ∀ n : Fin 256, (n : Nat) ≤ 2 → UInt8.ofNat n = 0 ∨ UInt8.ofNat n = 1 ∨ UInt8.ofNat n = 2 := by
      decide +kernel
    have found := all ⟨id.toNat, id.toNat_lt⟩ known
    rwa [UInt8.ofNat_toNat] at found
  rcases cases with rfl | rfl | rfl
  · obtain ⟨name, isName⟩ := ofModule rfl
    have put := Decodes.put (reads_utf8 decodes isName) (fun name (out : WasmAnalysis) =>
      { out with names := { out.names with ofModule := some name } }) out
    exact ⟨_, caught_of_decodes put _, rfl⟩
  · exact ⟨_, caught_of_decodes (decodes_functionNames decodes (functions rfl) out) _, rfl⟩
  · exact ⟨out.names, rfl, rfl⟩

theorem decodeNameSection_laid {entries : List (Nat × String)} {subs : List Laid}
    (sized : ∀ s ∈ subs, s.Sized) (known : ∀ s ∈ subs, s.id.toNat ≤ 2)
    (ofModule : ∀ s ∈ subs, s.id = 0 → ∃ name, IsName s.body name)
    (functions : ∀ s ∈ subs, s.id = 1 → IsVec IsNameAssoc s.body entries) (out : WasmAnalysis) :
    ∃ names, decodeNameSection (subs.flatMap Laid.bytes) out = (.ok ((), []), { out with names := names }) ∧
      names.functions = if ∃ s ∈ subs, s.id = 1 then naming entries out.names.functions
        else out.names.functions := by
  induction subs generalizing out with
  | nil => exact ⟨out.names, decodeNameSection_nil out, by simp⟩
  | cons s subs ih =>
      obtain ⟨first, put, named⟩ := caught_decodeNameSubsection decodes (known s List.mem_cons_self)
        (ofModule s List.mem_cons_self) (functions s List.mem_cons_self) out
      obtain ⟨names, rest, namedRest⟩ := ih (fun s later => sized s (List.mem_cons_of_mem _ later))
        (fun s later => known s (List.mem_cons_of_mem _ later))
        (fun s later => ofModule s (List.mem_cons_of_mem _ later))
        (fun s later => functions s (List.mem_cons_of_mem _ later)) { out with names := first }
      have read := reads_lebU32 (sized s List.mem_cons_self) (s.body ++ subs.flatMap Laid.bytes)
      have fits : ¬ (s.body ++ subs.flatMap Laid.bytes).length < s.body.length := by
        rw [List.length_append]
        omega
      refine ⟨names, ?_, ?_⟩
      · show decodeNameSection (s.id :: (s.length ++ s.body) ++ subs.flatMap Laid.bytes) out = _
        rw [List.cons_append, List.append_assoc, decodeNameSection_subsection out read fits, List.take_left,
          List.drop_left, put, rest]
      · rw [namedRest, named]
        by_cases here : s.id = 1
        · simp [here, naming_naming]
        · simp [here]

/-- A name section is decoded without a warning. -/
theorem decodeNameSection_named {contents : List UInt8} {entries : List (Nat × String)} {subs : List Laid}
    (isNames : IsNameSection contents entries subs) (out : WasmAnalysis) :
    ∃ names, decodeNameSection contents out = (.ok ((), []), { out with names := names }) ∧
      names.functions = naming entries out.names.functions := by
  obtain ⟨names, decoded, named⟩ := decodeNameSection_laid decodes isNames.sized isNames.known
    isNames.ofModule isNames.functions out
  rw [← isNames.laid] at decoded
  refine ⟨names, decoded, ?_⟩
  by_cases some : ∃ s ∈ subs, s.id = 1
  · rw [named, if_pos some]
  · have none := isNames.absent fun s member isOne => some ⟨s, member, isOne⟩
    rw [named, if_neg some, none]
    rfl

/-- The name of a custom section, as it is shown, and its contents are determined by the body. -/
theorem custom_unique {body contents contents' : List UInt8} {name name' : String}
    (isCustom : IsCustom body name contents) (isCustom' : IsCustom body name' contents') :
    withoutMark name = withoutMark name' ∧ contents = contents' := by
  obtain ⟨code, rfl, isName⟩ := isCustom
  obtain ⟨code', same, isName'⟩ := isCustom'
  have read := reads_utf8 decodes isName contents
  rw [same, reads_utf8 decodes isName' contents'] at read
  obtain ⟨shown, rest⟩ := Prod.mk.inj (Except.ok.inj read)
  exact ⟨shown.symm, rest.symm⟩

theorem caught_decodeCustom (stat : Nat) {body contents : List UInt8} {name : String}
    {entries : List (Nat × String)} (isCustom : IsCustom body name contents)
    (named : withoutMark name = "name" → ∃ subs, IsNameSection contents entries subs)
    (warning : String → String) (out : WasmAnalysis) :
    ∃ sections names, caught (decodeCustom stat) body warning out =
        { out with sections := sections, names := names } ∧
      names.functions = if withoutMark name = "name" then naming entries out.names.functions
        else out.names.functions := by
  obtain ⟨code, rfl, isName⟩ := isCustom
  let renamed : WasmAnalysis := { out with
    sections := out.sections.modify stat fun s => { s with name := "custom:" ++ withoutMark name } }
  have begun : decodeCustom stat (code ++ contents) out =
      (if withoutMark name = "name" then decodeNameSection else pure ()) contents renamed :=
    Decoder.bind_of_ok (Decodes.of (reads_utf8 decodes isName) out contents)
  unfold caught
  rw [begun]
  by_cases isNames : withoutMark name = "name"
  · obtain ⟨subs, wellFormed⟩ := named isNames
    obtain ⟨names, decoded, functions⟩ := decodeNameSection_named decodes wellFormed renamed
    rw [if_pos isNames, if_pos isNames, decoded]
    exact ⟨renamed.sections, names, rfl, functions⟩
  · rw [if_neg isNames, if_neg isNames]
    exact ⟨renamed.sections, out.names, rfl, rfl⟩

end Names

/-! ## Sections with a field of their own -/

def importsFunc (i : Import) : Bool :=
  match i.desc with
  | .func _ => true
  | _ => false

def dataBytes (segs : List Segment) : Nat := (segs.map fun d => d.bytes.length).sum

@[simp] theorem dataBytes_nil : dataBytes [] = 0 := rfl

/-- What a section of the module that is not a custom one adds to a report. -/
def addSection (m : Module) (id : UInt8) (out : WasmAnalysis) : WasmAnalysis :=
  match id.toNat with
  | 1 => { out with types := out.types ++ m.types.map shownFuncType }
  | 2 =>
      { out with
        imports := out.imports ++ m.imports.map shownImport
        funcCount := ⟨out.funcCount.imported + m.imports.countP importsFunc, out.funcCount.declared⟩ }
  | 3 => { out with funcCount := ⟨out.funcCount.imported, m.functions.length⟩ }
  | 4 => { out with tables := out.tables ++ m.tables.map shownTable }
  | 5 => { out with memories := out.memories ++ m.memories.map shownLimits }
  | 6 => { out with globals := out.globals ++ m.globals.map fun g => shownGlobalType g.type }
  | 7 => { out with exports := out.exports ++ m.exports.map shownExport }
  | 8 => { out with startFunction := m.start }
  | 11 =>
      { out with
        data := ⟨m.data.length, out.data.totalBytes + dataBytes m.data,
          (out.data.strings ++ stringsFrom 0 (m.data.map Segment.bytes)).take maxDataStrings⟩ }
  | _ => out

theorem addSection_warnings (m : Module) (id : UInt8) (out : WasmAnalysis) :
    (addSection m id out).warnings = out.warnings := by
  unfold addSection
  split <;> rfl

theorem addSection_names (m : Module) (id : UInt8) (out : WasmAnalysis) :
    (addSection m id out).names = out.names := by
  unfold addSection
  split <;> rfl

theorem foldl_pushImport (imports : List Import) (out : WasmAnalysis) :
    (imports.map shownImport).foldl (fun out i => pushImport i out) out =
      { out with
        imports := out.imports ++ imports.map shownImport
        funcCount := ⟨out.funcCount.imported + imports.countP importsFunc, out.funcCount.declared⟩ } := by
  induction imports generalizing out with
  | nil => simp
  | cons i imports ih =>
      show (imports.map shownImport).foldl _ (pushImport (shownImport i) out) = _
      rw [ih]
      obtain ⟨fromModule, name, desc⟩ := i
      cases desc with
      | func typeIndex =>
          simp [pushImport, shownImport, shownDesc, List.countP_cons, importsFunc, Nat.add_assoc,
            Nat.add_comm 1]
      | table limits => simp [pushImport, shownImport, shownDesc, importsFunc]
      | memory limits => simp [pushImport, shownImport, shownDesc, importsFunc]
      | global type => simp [pushImport, shownImport, shownDesc, importsFunc]

section Fields

variable {body : List UInt8} {out : WasmAnalysis} (warning : String → String)

theorem caught_decodeTypes {types : List FuncType} (encodes : IsVec IsFuncType body types) :
    caught decodeTypes body warning out =
      { out with types := out.types ++ types.map shownFuncType } := by
  have decoded : Decodes decodeTypes body out () _ :=
    decodes_decodeEntries (fun i _ _ isCode => reads_readType i isCode) encodes out
  rw [caught_of_decodes decoded]
  exact foldl_push (fun ts out => { out with types := out.types ++ ts }) (fun out => by simp)
    (fun t ts out => by simp [pushType]) _ out

/-- The indices behind the count are not looked at. -/
theorem caught_decodeFunctions {functions : List Nat} (encodes : IsVec (IsUnsigned 32) body functions) :
    caught decodeFunctions body warning out =
      { out with funcCount := ⟨out.funcCount.imported, functions.length⟩ } := by
  obtain ⟨count, items, rfl, counted, -⟩ := encodes
  have decoded := Decodes.put (reads_lebU32 counted)
    (fun n (out : WasmAnalysis) => { out with funcCount := { out.funcCount with declared := n } }) out items
  rw [caught, show decodeFunctions (count ++ items) out = _ from decoded]

theorem caught_decodeTables {tables : List Limits} (encodes : IsVec IsTable body tables) :
    caught decodeTables body warning out = { out with tables := out.tables ++ tables.map shownTable } := by
  have decoded : Decodes decodeTables body out () _ :=
    decodes_decodeEntries (fun _ _ _ isCode => reads_readTable isCode) encodes out
  rw [caught_of_decodes decoded]
  exact foldl_push (fun ts out => { out with tables := out.tables ++ ts }) (fun out => by simp)
    (fun t ts out => by simp [pushTable]) _ out

theorem caught_decodeMemories {memories : List Limits} (encodes : IsVec IsLimits body memories) :
    caught decodeMemories body warning out =
      { out with memories := out.memories ++ memories.map shownLimits } := by
  have decoded : Decodes decodeMemories body out () _ :=
    decodes_decodeEntries (fun _ _ _ isCode => reads_readLimits isCode) encodes out
  rw [caught_of_decodes decoded]
  exact foldl_push (fun ls out => { out with memories := out.memories ++ ls }) (fun out => by simp)
    (fun l ls out => by simp [pushMemory]) _ out

theorem caught_decodeGlobals {globals : List Global} (encodes : IsVec IsGlobal body globals) :
    caught decodeGlobals body warning out =
      { out with globals := out.globals ++ globals.map fun g => shownGlobalType g.type } := by
  have decoded : Decodes decodeGlobals body out () _ :=
    decodes_decodeEntries (fun _ _ _ isCode => reads_readGlobal isCode) encodes out
  rw [caught_of_decodes decoded]
  exact foldl_push (fun gs out => { out with globals := out.globals ++ gs }) (fun out => by simp)
    (fun g gs out => by simp [pushGlobal]) _ out

theorem caught_decodeStart {index : Nat} (encodes : IsUnsigned 32 body index) :
    caught decodeStart body warning out = { out with startFunction := some index } := by
  have decoded := Decodes.put (reads_lebU32 encodes)
    (fun index (out : WasmAnalysis) => { out with startFunction := some index }) out
  exact caught_of_decodes decoded _

variable [TextDecoder] (decodes : DecodesUtf8)

include decodes

theorem caught_decodeImports {imports : List Import} (encodes : IsVec IsImport body imports) :
    caught decodeImports body warning out =
      { out with
        imports := out.imports ++ imports.map shownImport
        funcCount := ⟨out.funcCount.imported + imports.countP importsFunc, out.funcCount.declared⟩ } := by
  have decoded : Decodes decodeImports body out () _ :=
    decodes_decodeEntries (fun i _ _ isCode => reads_readImport decodes i isCode) encodes out
  rw [caught_of_decodes decoded]
  exact foldl_pushImport imports out

theorem caught_decodeExports {exports : List Export} (encodes : IsVec IsExport body exports) :
    caught decodeExports body warning out =
      { out with exports := out.exports ++ exports.map shownExport } := by
  have decoded : Decodes decodeExports body out () _ :=
    decodes_decodeEntries (fun i _ _ isCode => reads_readExport decodes i isCode) encodes out
  rw [caught_of_decodes decoded]
  exact foldl_push (fun es out => { out with exports := out.exports ++ es }) (fun out => by simp)
    (fun e es out => by simp [pushExport]) _ out

theorem caught_decodeData {segs : List Segment} (encodes : IsVec IsSegment body segs)
    (few : out.data.strings.length ≤ maxDataStrings) : caught decodeData body warning out =
      { out with
        data := ⟨segs.length, out.data.totalBytes + dataBytes segs,
          (out.data.strings ++ stringsFrom 0 (segs.map Segment.bytes)).take maxDataStrings⟩ } := by
  obtain ⟨count, items, rfl, counted, coded⟩ := encodes
  let begun : WasmAnalysis := { out with data := { out.data with segments := segs.length } }
  have pushed : Decodes (pushEach (fun _ => readSegment) pushSegment segs.length) items begun () _ :=
    decodes_pushEach (fun _ _ _ isCode => reads_readSegment isCode) coded begun
  have decoded : Decodes decodeData (count ++ ([] ++ items)) out () _ :=
    (Decodes.of (reads_lebU32 counted) out).bind
      ((Decodes.update (fun out => { out with data := { out.data with segments := segs.length } }) out).bind
        pushed)
  rw [List.nil_append] at decoded
  rw [caught_of_decodes decoded]
  exact eachPut_pushSegment decodes 0 segs few

/-- The body of a section is decoded without a warning, and what it adds is the module's. -/
theorem caught_decodeSection {m : Module} {id : UInt8} (isBody : IsBody m id body) (standard : id ≠ 0)
    (stat : Nat) (few : out.data.strings.length ≤ maxDataStrings) :
    caught (decodeSection id stat) body warning out = addSection m id out := by
  have positive : id.toNat ≠ 0 := fun zero => standard (UInt8.toNat_inj.mp zero)
  unfold IsBody at isBody
  unfold decodeSection addSection
  generalize id.toNat = n at *
  split at isBody
  · exact caught_decodeTypes warning isBody
  · exact caught_decodeImports warning decodes isBody
  · exact caught_decodeFunctions warning isBody
  · exact caught_decodeTables warning isBody
  · exact caught_decodeMemories warning isBody
  · exact caught_decodeGlobals warning isBody
  · exact caught_decodeExports warning decodes isBody
  · obtain ⟨index, started, isIndex⟩ := isBody
    rw [started]
    exact caught_decodeStart warning isIndex
  · exact caught_decodeData warning decodes isBody few
  · split <;> first | contradiction | rfl | (split <;> first | contradiction | rfl)

end Fields

end MassaIndexer.Explorer.WasmSections
