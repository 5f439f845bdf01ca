/-
# Explorer.WasmAnalyzer -- the section table of a contract's bytecode

`analyzeWasm` walks the sections of a binary and has the ones it knows decoded into a report. A decoder gets
the bytes of its section's body alone. What it threw becomes a warning, what it had reported before stays,
and the walk goes on behind the body: it ends early only where a section has no readable length or one that
the file is too short for.

The text decoder of the browser is a parameter. A `Record` keyed by indices is a function of the index.
-/
import MassaIndexer.Explorer.WasmReader
import MassaIndexer.Theory.Decoding

namespace MassaIndexer.Explorer.WasmAnalyzer

open MassaIndexer.Explorer.WasmReader
open MassaIndexer.Theory.Decoding

set_option autoImplicit false

/-- `new TextDecoder("utf-8", { fatal: false })`: it replaces what it cannot decode. -/
class TextDecoder where
  decode : List UInt8 → String

/-! ## The report -/

inductive WasmValType
  | i32
  | i64
  | f32
  | f64
  | v128
  | funcref
  | externref
  /-- `??(0x…)` with the two digits of the byte. -/
  | other (b : UInt8)
  deriving DecidableEq

structure WasmFuncSignature where
  params : List WasmValType
  results : List WasmValType
  deriving DecidableEq

structure WasmLimits where
  min : Nat
  max : Option Nat
  deriving DecidableEq

structure WasmGlobal where
  valtype : WasmValType
  isMutable : Bool
  deriving DecidableEq

structure WasmTable where
  reftype : WasmValType
  limits : WasmLimits
  deriving DecidableEq

/-- The kind of an import with the one field of the record that is not null for it. -/
inductive WasmImportType
  | func (typeIndex : Nat)
  | table (tableType : WasmTable)
  | memory (memoryType : WasmLimits)
  | global (globalType : WasmGlobal)
  deriving DecidableEq

structure WasmImport where
  fromModule : String
  name : String
  type : WasmImportType
  deriving DecidableEq

inductive WasmExportKind
  | func
  | table
  | memory
  | global
  deriving DecidableEq

structure WasmExport where
  name : String
  kind : WasmExportKind
  index : Nat
  deriving DecidableEq

structure WasmSectionStat where
  id : Nat
  name : String
  size : Nat
  deriving DecidableEq

structure WasmDataString where
  value : String
  segment : Nat
  deriving DecidableEq

structure WasmFuncCount where
  imported : Nat := 0
  declared : Nat := 0
  deriving DecidableEq

structure WasmData where
  segments : Nat := 0
  totalBytes : Nat := 0
  strings : List WasmDataString := []
  deriving DecidableEq

structure WasmNames where
  ofModule : Option String := none
  functions : Nat → Option String := fun _ => none
  globals : Nat → Option String := fun _ => none
  types : Nat → Option String := fun _ => none

structure WasmAnalysis where
  ok : Bool := false
  validMagic : Bool := false
  version : Int := 0
  byteSize : Nat
  sha256 : String := ""
  sections : List WasmSectionStat := []
  types : List WasmFuncSignature := []
  imports : List WasmImport := []
  exports : List WasmExport := []
  funcCount : WasmFuncCount := {}
  memories : List WasmLimits := []
  tables : List WasmTable := []
  globals : List WasmGlobal := []
  startFunction : Option Nat := none
  data : WasmData := {}
  names : WasmNames := {}
  warnings : List String := []
  truncated : Bool := false

def WasmAnalysis.warn (out : WasmAnalysis) (warning : String) : WasmAnalysis :=
  { out with warnings := out.warnings ++ [warning] }

/-! ## Texts of bytes -/

/-- `b.toString(16)`. -/
def hex (b : UInt8) : String := String.ofList (Nat.toDigits 16 b.toNat)

/-- `b.toString(16).padStart(2, "0")`. -/
def hex2 (b : UInt8) : String := if b.toNat < 16 then "0" ++ hex b else hex b

def hex4 (bs : List UInt8) : String := String.join ((bs.take 4).map hex2)

/-! ## Readings -/

def readValType : Reading WasmValType := do
  let b ← u8
  match b.toNat with
  | 0x7f => pure .i32
  | 0x7e => pure .i64
  | 0x7d => pure .f32
  | 0x7c => pure .f64
  | 0x7b => pure .v128
  | 0x70 => pure .funcref
  | 0x6f => pure .externref
  | _ => pure (.other b)

def readValTypeVec : Reading (List WasmValType) := do
  let n ← lebU32
  readMany readValType n

def readLimits : Reading WasmLimits := do
  let flag ← u8
  let min ← lebU32
  if flag = 1 then
    let max ← lebU32
    pure ⟨min, some max⟩
  else pure ⟨min, none⟩

def readGlobalType : Reading WasmGlobal := do
  let valtype ← readValType
  let mutability ← u8
  pure ⟨valtype, mutability = 1⟩

def readTable : Reading WasmTable := do
  let reftype ← readValType
  let limits ← readLimits
  pure ⟨reftype, limits⟩

def skip {α : Type} (r : Reading α) : Reading Unit := do
  let _ ← r
  pure ()

/-- The immediates of the instructions that constant expressions are made of. -/
def skipImmediate (op : UInt8) : Reading Unit :=
  match op.toNat with
  | 0x41 => skip lebS32
  | 0x42 => skip lebS64
  | 0x43 => skip (bytesOf 4)
  | 0x44 => skip (bytesOf 8)
  | 0x23 => skip lebU32
  | 0xd0 => skip u8
  | 0xd2 => skip lebU32
  | _ => pure ()

/-- A reading never puts bytes back. -/
def Shrinks {α : Type} (r : Reading α) : Prop :=
  ∀ bytes a rest, r bytes = .ok (a, rest) → rest.length ≤ bytes.length

theorem shrinks_skip {α : Type} {r : Reading α} (shrinks : Shrinks r) : Shrinks (skip r) := by
  intro bytes u rest read
  obtain ⟨a, rest', read', done⟩ := bind_eq_ok.mp read
  rw [pure_apply] at done
  obtain ⟨-, rfl⟩ := Prod.mk.inj (Except.ok.inj done)
  exact shrinks bytes a _ read'

theorem length_of_lebU32 {bytes rest : List UInt8} {v : Nat} (read : lebU32 bytes = .ok (v, rest)) :
    rest.length < bytes.length := by
  obtain ⟨code, rfl, ends, -⟩ := code_of_lebU32From rest 0 0 (by omega) read
  have positive := ends.length_pos
  rw [List.length_append]
  omega

theorem shrinks_lebU32 : Shrinks lebU32 := fun _ _ _ read => Nat.le_of_lt (length_of_lebU32 read)

theorem shrinks_lebS32 : Shrinks lebS32 := by
  intro bytes v rest read
  obtain ⟨code, rfl, -⟩ := code_of_lebS32From rest _ _ read
  rw [List.length_append]
  omega

theorem shrinks_lebS64 : Shrinks lebS64 := by
  intro bytes v rest read
  obtain ⟨code, rfl, -⟩ := code_of_lebS64From rest _ _ read
  rw [List.length_append]
  omega

theorem shrinks_u8 : Shrinks u8 := by
  intro bytes b rest read
  cases bytes with
  | nil => cases read
  | cons b' tail =>
      obtain ⟨-, rfl⟩ := Prod.mk.inj (Except.ok.inj read)
      exact Nat.le_succ _

theorem shrinks_bytesOf (n : Nat) : Shrinks (bytesOf n) := by
  intro bytes taken rest read
  unfold bytesOf at read
  split at read
  · cases read
  · obtain ⟨-, rfl⟩ := Prod.mk.inj (Except.ok.inj read)
    rw [List.length_drop]
    omega

theorem shrinks_skipImmediate (op : UInt8) : Shrinks (skipImmediate op) := by
  unfold skipImmediate
  split
  · exact shrinks_skip shrinks_lebS32
  · exact shrinks_skip shrinks_lebS64
  · exact shrinks_skip (shrinks_bytesOf 4)
  · exact shrinks_skip (shrinks_bytesOf 8)
  · exact shrinks_skip shrinks_lebU32
  · exact shrinks_skip shrinks_u8
  · exact shrinks_skip shrinks_lebU32
  · intro bytes u rest read
    obtain ⟨-, rfl⟩ := Prod.mk.inj (Except.ok.inj read)
    exact Nat.le_refl _

/-- To the `end` of a constant expression, or to the end of the bytes. -/
def skipInitExpr : Reading Unit
  | [] => .ok ((), [])
  | op :: rest =>
      if op = 0x0b then .ok ((), rest)
      else
        match _read : skipImmediate op rest with
        | .error e => .error e
        | .ok (_, rest') => skipInitExpr rest'
termination_by bytes => bytes.length
decreasing_by
  have shorter := shrinks_skipImmediate op _ _ _ _read
  rw [List.length_cons]
  omega

@[simp] theorem skipInitExpr_nil : skipInitExpr [] = .ok ((), []) := by
  rw [skipInitExpr]

@[simp] theorem skipInitExpr_end (rest : List UInt8) : skipInitExpr (0x0b :: rest) = .ok ((), rest) := by
  rw [skipInitExpr, if_pos rfl]

theorem skipInitExpr_instr {op : UInt8} (more : op ≠ 0x0b) {bytes rest : List UInt8} {u : Unit}
    (read : skipImmediate op bytes = .ok (u, rest)) : skipInitExpr (op :: bytes) = skipInitExpr rest := by
  rw [skipInitExpr, if_neg more]
  split
  · next e threw => cases threw.symm.trans read
  · next u' rest' read' =>
      obtain ⟨-, rfl⟩ := Prod.mk.inj (Except.ok.inj (read'.symm.trans read))
      rfl

def throwing {α : Type} (e : String) : Reading α := fun _ => .error e

section Texts

variable [TextDecoder]

def utf8 : Reading String := do
  let len ← lebU32
  let buf ← bytesOf len
  pure (TextDecoder.decode buf)

/-! ## Entries of the sections -/

def readType (i : Nat) : Reading WasmFuncSignature := do
  let tag ← u8
  if tag ≠ 0x60 then
    throwing ("type #" ++ toString i ++ ": expected 0x60 (func), got 0x" ++ hex tag)
  else
    let params ← readValTypeVec
    let results ← readValTypeVec
    pure ⟨params, results⟩

def readImport (i : Nat) : Reading WasmImport := do
  let fromModule ← utf8
  let name ← utf8
  let kindByte ← u8
  match kindByte.toNat with
  | 0x00 =>
      let typeIndex ← lebU32
      pure ⟨fromModule, name, .func typeIndex⟩
  | 0x01 =>
      let tableType ← readTable
      pure ⟨fromModule, name, .table tableType⟩
  | 0x02 =>
      let memoryType ← readLimits
      pure ⟨fromModule, name, .memory memoryType⟩
  | 0x03 =>
      let globalType ← readGlobalType
      pure ⟨fromModule, name, .global globalType⟩
  | _ => throwing ("import #" ++ toString i ++ ": unknown kind 0x" ++ hex kindByte)

def readGlobal : Reading WasmGlobal := do
  let globalType ← readGlobalType
  skipInitExpr
  pure globalType

def readExport (i : Nat) : Reading WasmExport := do
  let name ← utf8
  let kindByte ← u8
  let index ← lebU32
  match kindByte.toNat with
  | 0x00 => pure ⟨name, .func, index⟩
  | 0x01 => pure ⟨name, .table, index⟩
  | 0x02 => pure ⟨name, .memory, index⟩
  | 0x03 => pure ⟨name, .global, index⟩
  | _ => throwing ("export #" ++ toString i ++ " '" ++ name ++ "': unknown kind 0x" ++ hex kindByte)

/-- `0` active in memory 0, `1` passive, `2` active in the memory that follows. -/
def readSegment : Reading (List UInt8) := do
  let flags ← lebU32
  if flags = 2 then skip lebU32 else pure ()
  if flags ≠ 1 then skipInitExpr else pure ()
  let len ← lebU32
  bytesOf len

/-! ## Strings of the data section -/

def minRun : Nat := 4

def maxLen : Nat := 256

def maxDataStrings : Nat := 256

/-- ASCII text and the tab. -/
def printable (b : UInt8) : Bool := (0x20 ≤ b && b < 0x7f) || b = 0x09

/-- `run` is what stands since `runStart`, empty where there is no run. -/
def extractFrom (segIdx : Nat) (run : List UInt8) :
    List UInt8 → List WasmDataString → List WasmDataString
  | [], acc =>
      if minRun ≤ run.length then acc ++ [⟨TextDecoder.decode (run.take maxLen), segIdx⟩] else acc
  | b :: rest, acc =>
      if printable b then extractFrom segIdx (run ++ [b]) rest acc
      else if minRun ≤ run.length then
        let acc := acc ++ [⟨TextDecoder.decode (run.take maxLen), segIdx⟩]
        if maxDataStrings ≤ acc.length then acc else extractFrom segIdx [] rest acc
      else extractFrom segIdx [] rest acc

def extractStrings (seg : List UInt8) (segIdx : Nat) (acc : List WasmDataString) : List WasmDataString :=
  extractFrom segIdx [] seg acc

end Texts

/-! ## Sections -/

abbrev Decoding := Decoder UInt8 String WasmAnalysis

/-- `for (let i = 0; i < n; i++)` over entries, each put into the report as soon as it is read. -/
def pushEach {α : Type} (entry : Nat → Reading α) (push : Nat → α → WasmAnalysis → WasmAnalysis)
    (n : Nat) : Decoding Unit :=
  .each (fun i => do
    let a ← Decoder.of (entry i)
    Decoder.update (push i a)) n 0

/-- A section that is a vector of entries. -/
def decodeEntries {α : Type} (entry : Nat → Reading α) (push : α → WasmAnalysis → WasmAnalysis) :
    Decoding Unit := do
  let n ← Decoder.of lebU32
  pushEach entry (fun _ => push) n

/-- What a decoder leaves, with a warning for what it threw. -/
def caught (d : Decoding Unit) (body : List UInt8) (warning : String → String) (out : WasmAnalysis) :
    WasmAnalysis :=
  match d body out with
  | (.ok _, out) => out
  | (.error message, out) => out.warn (warning message)

def setName (idx : Nat) (name : String) (names : Nat → Option String) : Nat → Option String :=
  fun i => if i = idx then some name else names i

section Sections

variable [TextDecoder]

def pushType (t : WasmFuncSignature) (out : WasmAnalysis) : WasmAnalysis :=
  { out with types := out.types ++ [t] }

def decodeTypes : Decoding Unit := decodeEntries readType pushType

/-- An imported function is counted. -/
def pushImport (imp : WasmImport) (out : WasmAnalysis) : WasmAnalysis :=
  let imported := match imp.type with
    | .func _ => out.funcCount.imported + 1
    | _ => out.funcCount.imported
  { out with
    imports := out.imports ++ [imp]
    funcCount := { out.funcCount with imported := imported } }

def decodeImports : Decoding Unit := decodeEntries readImport pushImport

/-- The count is all that is read of the function section. -/
def decodeFunctions : Decoding Unit := do
  let n ← Decoder.of lebU32
  Decoder.update fun out => { out with funcCount := { out.funcCount with declared := n } }

def pushTable (t : WasmTable) (out : WasmAnalysis) : WasmAnalysis :=
  { out with tables := out.tables ++ [t] }

def decodeTables : Decoding Unit := decodeEntries (fun _ => readTable) pushTable

def pushMemory (limits : WasmLimits) (out : WasmAnalysis) : WasmAnalysis :=
  { out with memories := out.memories ++ [limits] }

def decodeMemories : Decoding Unit := decodeEntries (fun _ => readLimits) pushMemory

def pushGlobal (g : WasmGlobal) (out : WasmAnalysis) : WasmAnalysis :=
  { out with globals := out.globals ++ [g] }

def decodeGlobals : Decoding Unit := decodeEntries (fun _ => readGlobal) pushGlobal

def pushExport (e : WasmExport) (out : WasmAnalysis) : WasmAnalysis :=
  { out with exports := out.exports ++ [e] }

def decodeExports : Decoding Unit := decodeEntries readExport pushExport

def decodeStart : Decoding Unit := do
  let index ← Decoder.of lebU32
  Decoder.update fun out => { out with startFunction := some index }

def pushSegment (segIdx : Nat) (seg : List UInt8) (out : WasmAnalysis) : WasmAnalysis :=
  let strings :=
    if out.data.strings.length < maxDataStrings then extractStrings seg segIdx out.data.strings
    else out.data.strings
  { out with
    data := { out.data with totalBytes := out.data.totalBytes + seg.length, strings := strings } }

def decodeData : Decoding Unit := do
  let n ← Decoder.of lebU32
  Decoder.update fun out => { out with data := { out.data with segments := n } }
  pushEach (fun _ => readSegment) pushSegment n

/-! ## The name section -/

def readNameAssoc : Reading (Nat × String) := do
  let idx ← lebU32
  let name ← utf8
  pure (idx, name)

/-- The names go into one of the records. -/
def readNameMap (put : Nat → String → WasmNames → WasmNames) : Decoding Unit :=
  decodeEntries (fun _ => readNameAssoc) fun entry out =>
    { out with names := put entry.1 entry.2 out.names }

def decodeModuleName : Decoding Unit := do
  let name ← Decoder.of utf8
  Decoder.update fun out => { out with names := { out.names with ofModule := some name } }

def putFunctionName (idx : Nat) (name : String) (names : WasmNames) : WasmNames :=
  { names with functions := setName idx name names.functions }

def putTypeName (idx : Nat) (name : String) (names : WasmNames) : WasmNames :=
  { names with types := setName idx name names.types }

def putGlobalName (idx : Nat) (name : String) (names : WasmNames) : WasmNames :=
  { names with globals := setName idx name names.globals }

def decodeNameSubsection (sub : UInt8) : Decoding Unit :=
  match sub.toNat with
  | 0 => decodeModuleName
  | 1 => readNameMap putFunctionName
  | 4 => readNameMap putTypeName
  | 7 => readNameMap putGlobalName
  | _ => pure ()

def subsectionError (sub : UInt8) (message : String) : String :=
  "name subsection " ++ toString sub.toNat ++ ": parse error — " ++ message

def decodeNameSection : Decoding Unit
  | [], out => (.ok ((), []), out)
  | sub :: afterSub, out =>
      match _read : lebU32 afterSub with
      | .error message => (.error message, out)
      | .ok (size, afterSize) =>
          if afterSize.length < size then
            (.ok ((), afterSize),
              out.warn ("name subsection " ++ toString sub.toNat ++ ": overflows section"))
          else
            decodeNameSection (afterSize.drop size)
              (caught (decodeNameSubsection sub) (afterSize.take size) (subsectionError sub) out)
termination_by bytes => bytes.length
decreasing_by
  have shorter := length_of_lebU32 _read
  rw [List.length_cons, List.length_drop]
  omega

section Subsections

variable {sub : UInt8} {afterSub afterSize : List UInt8} {size : Nat} (out : WasmAnalysis)

@[simp] theorem decodeNameSection_nil : decodeNameSection [] out = (.ok ((), []), out) := by
  rw [decodeNameSection]

theorem decodeNameSection_unreadable {message : String} (threw : lebU32 afterSub = .error message) :
    decodeNameSection (sub :: afterSub) out = (.error message, out) := by
  rw [decodeNameSection]
  split
  · next message' threw' =>
      obtain rfl := Except.error.inj (threw'.symm.trans threw)
      rfl
  · next size' afterSize' read => cases threw.symm.trans read

theorem decodeNameSection_overflow (read : lebU32 afterSub = .ok (size, afterSize))
    (short : afterSize.length < size) : decodeNameSection (sub :: afterSub) out =
      (.ok ((), afterSize),
        out.warn ("name subsection " ++ toString sub.toNat ++ ": overflows section")) := by
  rw [decodeNameSection]
  split
  · next message threw => cases threw.symm.trans read
  · next size' afterSize' read' =>
      obtain ⟨rfl, rfl⟩ := Prod.mk.inj (Except.ok.inj (read'.symm.trans read))
      rw [if_pos short]

theorem decodeNameSection_subsection (read : lebU32 afterSub = .ok (size, afterSize))
    (fits : ¬ afterSize.length < size) : decodeNameSection (sub :: afterSub) out =
      decodeNameSection (afterSize.drop size)
        (caught (decodeNameSubsection sub) (afterSize.take size) (subsectionError sub) out) := by
  rw [decodeNameSection]
  split
  · next message threw => cases threw.symm.trans read
  · next size' afterSize' read' =>
      obtain ⟨rfl, rfl⟩ := Prod.mk.inj (Except.ok.inj (read'.symm.trans read))
      rw [if_neg fits]

end Subsections

/-- `stat` is the index of the section's entry in the list of sections. -/
def decodeCustom (stat : Nat) : Decoding Unit := do
  let name ← Decoder.of utf8
  Decoder.update fun out =>
    { out with sections := out.sections.modify stat fun s => { s with name := "custom:" ++ name } }
  if name = "name" then decodeNameSection else pure ()

/-! ## The walk -/

def sectionName (id : UInt8) : String :=
  match id.toNat with
  | 0 => "custom"
  | 1 => "type"
  | 2 => "import"
  | 3 => "function"
  | 4 => "table"
  | 5 => "memory"
  | 6 => "global"
  | 7 => "export"
  | 8 => "start"
  | 9 => "element"
  | 10 => "code"
  | 11 => "data"
  | 12 => "data count"
  | n => "unknown(" ++ toString n ++ ")"

def decodeSection (id : UInt8) (stat : Nat) : Decoding Unit :=
  match id.toNat with
  | 0 => decodeCustom stat
  | 1 => decodeTypes
  | 2 => decodeImports
  | 3 => decodeFunctions
  | 4 => decodeTables
  | 5 => decodeMemories
  | 6 => decodeGlobals
  | 7 => decodeExports
  | 8 => decodeStart
  | 11 => decodeData
  | _ => pure ()

def sectionError (id : UInt8) (message : String) : String :=
  "section " ++ sectionName id ++ " (id=" ++ toString id.toNat ++ "): parse error — " ++ message

/-- List the section, decode its body, turn what was thrown into a warning. -/
def visitSection (id : UInt8) (body : List UInt8) (out : WasmAnalysis) : WasmAnalysis :=
  caught (decodeSection id out.sections.length) body (sectionError id)
    { out with sections := out.sections ++ [⟨id.toNat, sectionName id, body.length⟩] }

/-- `len` is the length of the file, of which the given bytes are still to be walked. -/
def walk (len : Nat) : List UInt8 → WasmAnalysis → WasmAnalysis
  | [], out => out
  | id :: afterId, out =>
      match _read : lebU32 afterId with
      | .error _ =>
          { out.warn ("section " ++ toString id.toNat ++ " at offset " ++
              toString (len - (afterId.length + 1)) ++ ": missing length") with truncated := true }
      | .ok (size, afterSize) =>
          if afterSize.length < size then
            { out.warn ("section " ++ toString id.toNat ++ " (size " ++ toString size ++
                ") overflows file by " ++ toString (size - afterSize.length) ++ " bytes") with
              truncated := true }
          else walk len (afterSize.drop size) (visitSection id (afterSize.take size) out)
termination_by bytes => bytes.length
decreasing_by
  have shorter := length_of_lebU32 _read
  rw [List.length_cons, List.length_drop]
  omega

section Borders

variable {len : Nat} {id : UInt8} {afterId afterSize : List UInt8} {size : Nat} (out : WasmAnalysis)

@[simp] theorem walk_nil : walk len [] out = out := by
  rw [walk]

theorem walk_unreadable {message : String} (threw : lebU32 afterId = .error message) :
    walk len (id :: afterId) out =
      { out.warn ("section " ++ toString id.toNat ++ " at offset " ++
          toString (len - (afterId.length + 1)) ++ ": missing length") with truncated := true } := by
  rw [walk]
  split
  · rfl
  · next size' afterSize' read => cases threw.symm.trans read

theorem walk_overflow (read : lebU32 afterId = .ok (size, afterSize)) (short : afterSize.length < size) :
    walk len (id :: afterId) out =
      { out.warn ("section " ++ toString id.toNat ++ " (size " ++ toString size ++
          ") overflows file by " ++ toString (size - afterSize.length) ++ " bytes") with
        truncated := true } := by
  rw [walk]
  split
  · next message threw => cases threw.symm.trans read
  · next size' afterSize' read' =>
      obtain ⟨rfl, rfl⟩ := Prod.mk.inj (Except.ok.inj (read'.symm.trans read))
      rw [if_pos short]

theorem walk_section (read : lebU32 afterId = .ok (size, afterSize)) (fits : ¬ afterSize.length < size) :
    walk len (id :: afterId) out =
      walk len (afterSize.drop size) (visitSection id (afterSize.take size) out) := by
  rw [walk]
  split
  · next message threw => cases threw.symm.trans read
  · next size' afterSize' read' =>
      obtain ⟨rfl, rfl⟩ := Prod.mk.inj (Except.ok.inj (read'.symm.trans read))
      rw [if_neg fits]

end Borders

def magic : List UInt8 := [0x00, 0x61, 0x73, 0x6d]

/-- `bytes[4] | (bytes[5] << 8) | (bytes[6] << 16) | (bytes[7] << 24)`, a signed word. -/
def versionOf (bytes : List UInt8) : Int :=
  let byte (i : Nat) : BitVec 32 := BitVec.ofNat 32 (bytes.getD i 0).toNat
  (byte 4 ||| byte 5 <<< 8 ||| byte 6 <<< 16 ||| byte 7 <<< 24).toInt

/-- The report before the walk. -/
def headerReport (bytes : List UInt8) : WasmAnalysis :=
  { byteSize := bytes.length, validMagic := true, version := versionOf bytes }

def analyzeWasm (bytes : List UInt8) : WasmAnalysis :=
  if bytes.length < 8 then
    ({ byteSize := bytes.length } : WasmAnalysis).warn "file too short to contain a WASM header"
  else if bytes.take 4 ≠ magic then
    ({ byteSize := bytes.length } : WasmAnalysis).warn ("bad magic: 0x" ++ hex4 bytes)
  else
    let out := walk bytes.length (bytes.drop 8) (headerReport bytes)
    { out with ok := out.validMagic && out.warnings.isEmpty }

end Sections

end MassaIndexer.Explorer.WasmAnalyzer
