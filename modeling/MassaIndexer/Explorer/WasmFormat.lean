/-
# Explorer.WasmFormat -- WebAssembly 1.0 modules and their binary encodings

The binary format of version 1.0 as relations between bytes and what they encode; no reader occurs here. An
integer has every code of its width (`IsUnsigned`, `IsSigned`), padded ones among them. A module's sections
stand in the order of their ids, each at most once, with custom sections anywhere between them.

Of a module this is what the analyzer reports, and what its encoding needs beside that: initialisers and
offsets are constant expressions, and the bodies of the element and the code section are any bytes. What
validation asks of a module beyond that (indices in range, one memory, matching types) is not asked here.
-/
import MassaIndexer.Theory.Decoding
import MassaIndexer.Theory.Leb128

namespace MassaIndexer.Explorer.WasmFormat

open MassaIndexer.Theory.Decoding MassaIndexer.Theory.Leb128

set_option autoImplicit false

/-! ## Modules -/

inductive ValType
  | i32
  | i64
  | f32
  | f64
deriving DecidableEq

structure FuncType where
  params : List ValType
  results : List ValType

structure Limits where
  min : Nat
  max : Option Nat

structure GlobalType where
  valtype : ValType
  isMutable : Bool

inductive ImportDesc
  | func (typeIndex : Nat)
  | table (limits : Limits)
  | memory (limits : Limits)
  | global (type : GlobalType)

structure Import where
  fromModule : String
  name : String
  desc : ImportDesc

inductive ExportKind
  | func
  | table
  | memory
  | global

structure Export where
  name : String
  kind : ExportKind
  index : Nat

inductive ConstInstr
  | i32Const (v : Int)
  | i64Const (v : Int)
  | f32Const (bytes : List UInt8)
  | f64Const (bytes : List UInt8)
  | globalGet (index : Nat)

structure Global where
  type : GlobalType
  init : List ConstInstr

/-- A segment of memory 0. -/
structure Segment where
  offset : List ConstInstr
  bytes : List UInt8

structure Module where
  types : List FuncType := []
  imports : List Import := []
  /-- The type indices of the functions. -/
  functions : List Nat := []
  tables : List Limits := []
  memories : List Limits := []
  globals : List Global := []
  exports : List Export := []
  start : Option Nat := none
  data : List Segment := []
  /-- What the name section says, by function index. -/
  functionNames : List (Nat × String) := []

/-! ## Codes of values -/

/-- The bytes of a text in UTF-8. -/
def utf8Bytes (s : String) : List UInt8 := s.toList.flatMap String.utf8EncodeChar

/-- A count and as many items. -/
def IsVec {α : Type} (P : List UInt8 → α → Prop) (code : List UInt8) (as : List α) : Prop :=
  ∃ count items, code = count ++ items ∧ IsUnsigned 32 count as.length ∧ Coded P items as

def IsBytes (code : List UInt8) (bytes : List UInt8) : Prop :=
  ∃ count, code = count ++ bytes ∧ IsUnsigned 32 count bytes.length

def IsName (code : List UInt8) (name : String) : Prop := IsBytes code (utf8Bytes name)

def ValType.byte : ValType → UInt8
  | .i32 => 0x7f
  | .i64 => 0x7e
  | .f32 => 0x7d
  | .f64 => 0x7c

def IsValType (code : List UInt8) (t : ValType) : Prop := code = [t.byte]

def IsFuncType (code : List UInt8) (t : FuncType) : Prop :=
  ∃ params results, code = 0x60 :: (params ++ results) ∧ IsVec IsValType params t.params ∧
    IsVec IsValType results t.results

inductive IsLimits : List UInt8 → Limits → Prop
  | atLeast {code : List UInt8} {min : Nat} (low : IsUnsigned 32 code min) :
      IsLimits (0x00 :: code) ⟨min, none⟩
  | between {code code' : List UInt8} {min max : Nat} (low : IsUnsigned 32 code min)
      (high : IsUnsigned 32 code' max) : IsLimits (0x01 :: (code ++ code')) ⟨min, some max⟩

/-- `funcref` and the limits. -/
def IsTable (code : List UInt8) (limits : Limits) : Prop :=
  ∃ rest, code = 0x70 :: rest ∧ IsLimits rest limits

def IsGlobalType (code : List UInt8) (t : GlobalType) : Prop :=
  code = [t.valtype.byte, if t.isMutable then 0x01 else 0x00]

inductive IsImportDesc : List UInt8 → ImportDesc → Prop
  | func {code : List UInt8} {typeIndex : Nat} (index : IsUnsigned 32 code typeIndex) :
      IsImportDesc (0x00 :: code) (.func typeIndex)
  | table {code : List UInt8} {limits : Limits} (type : IsTable code limits) :
      IsImportDesc (0x01 :: code) (.table limits)
  | memory {code : List UInt8} {limits : Limits} (type : IsLimits code limits) :
      IsImportDesc (0x02 :: code) (.memory limits)
  | global {code : List UInt8} {t : GlobalType} (type : IsGlobalType code t) :
      IsImportDesc (0x03 :: code) (.global t)

def IsImport (code : List UInt8) (i : Import) : Prop :=
  ∃ fromModule name desc, code = fromModule ++ (name ++ desc) ∧ IsName fromModule i.fromModule ∧
    IsName name i.name ∧ IsImportDesc desc i.desc

def ExportKind.byte : ExportKind → UInt8
  | .func => 0x00
  | .table => 0x01
  | .memory => 0x02
  | .global => 0x03

def IsExport (code : List UInt8) (e : Export) : Prop :=
  ∃ name index, code = name ++ e.kind.byte :: index ∧ IsName name e.name ∧ IsUnsigned 32 index e.index

inductive IsConstInstr : List UInt8 → ConstInstr → Prop
  | i32Const {code : List UInt8} {v : Int} (value : IsSigned 32 code v) :
      IsConstInstr (0x41 :: code) (.i32Const v)
  | i64Const {code : List UInt8} {v : Int} (value : IsSigned 64 code v) :
      IsConstInstr (0x42 :: code) (.i64Const v)
  | f32Const {bytes : List UInt8} (size : bytes.length = 4) : IsConstInstr (0x43 :: bytes) (.f32Const bytes)
  | f64Const {bytes : List UInt8} (size : bytes.length = 8) : IsConstInstr (0x44 :: bytes) (.f64Const bytes)
  | globalGet {code : List UInt8} {index : Nat} (value : IsUnsigned 32 code index) :
      IsConstInstr (0x23 :: code) (.globalGet index)

/-- The instructions and the `end`. -/
def IsConstExpr (code : List UInt8) (expr : List ConstInstr) : Prop :=
  ∃ instrs, code = instrs ++ [0x0b] ∧ Coded IsConstInstr instrs expr

def IsGlobal (code : List UInt8) (g : Global) : Prop :=
  ∃ type init, code = type ++ init ∧ IsGlobalType type g.type ∧ IsConstExpr init g.init

def IsSegment (code : List UInt8) (d : Segment) : Prop :=
  ∃ memory offset bytes, code = memory ++ (offset ++ bytes) ∧ IsUnsigned 32 memory 0 ∧
    IsConstExpr offset d.offset ∧ IsBytes bytes d.bytes

/-! ## Sections -/

/-- A section or a subsection: its id, the bytes of its length, its body. -/
structure Laid where
  id : UInt8
  /-- The bytes of the length. -/
  length : List UInt8
  body : List UInt8

def Laid.bytes (s : Laid) : List UInt8 := s.id :: (s.length ++ s.body)

/-- The length is the length of the body. -/
def Laid.Sized (s : Laid) : Prop := IsUnsigned 32 s.length s.body.length

/-- What the body of a section with this id encodes. The element and the code section may hold anything. -/
def IsBody (m : Module) (id : UInt8) (body : List UInt8) : Prop :=
  match id.toNat with
  | 1 => IsVec IsFuncType body m.types
  | 2 => IsVec IsImport body m.imports
  | 3 => IsVec (IsUnsigned 32) body m.functions
  | 4 => IsVec IsTable body m.tables
  | 5 => IsVec IsLimits body m.memories
  | 6 => IsVec IsGlobal body m.globals
  | 7 => IsVec IsExport body m.exports
  | 8 => ∃ index, m.start = some index ∧ IsUnsigned 32 body index
  | 11 => IsVec IsSegment body m.data
  | _ => True

/-- What a module without a section of this id lacks. -/
def Lacks (m : Module) (id : UInt8) : Prop :=
  match id.toNat with
  | 1 => m.types = []
  | 2 => m.imports = []
  | 3 => m.functions = []
  | 4 => m.tables = []
  | 5 => m.memories = []
  | 6 => m.globals = []
  | 7 => m.exports = []
  | 8 => m.start = none
  | 11 => m.data = []
  | _ => True

/-- A custom section begins with its name. -/
def IsCustom (body : List UInt8) (name : String) (contents : List UInt8) : Prop :=
  ∃ code, body = code ++ contents ∧ IsName code name

/-- `\0asm` and the version. -/
def header : List UInt8 := [0x00, 0x61, 0x73, 0x6d, 0x01, 0x00, 0x00, 0x00]

/-- `bytes` is a binary of the module, with these sections. -/
structure IsModule (m : Module) (bytes : List UInt8) (sections : List Laid) : Prop where
  laid : bytes = header ++ sections.flatMap Laid.bytes
  sized : ∀ s ∈ sections, s.Sized
  known : ∀ s ∈ sections, s.id.toNat ≤ 11
  ordered : (sections.filter fun s => s.id ≠ 0).Pairwise fun s s' => s.id < s'.id
  custom : ∀ s ∈ sections, s.id = 0 → ∃ name contents, IsCustom s.body name contents
  body : ∀ s ∈ sections, IsBody m s.id s.body
  absent : ∀ id, (∀ s ∈ sections, s.id ≠ id) → Lacks m id

/-! ## The name section -/

/-- An index and the name of what has it. -/
def IsNameAssoc (code : List UInt8) (entry : Nat × String) : Prop :=
  ∃ index name, code = index ++ name ∧ IsUnsigned 32 index entry.1 ∧ IsName name entry.2

/-- The names of the module, of functions and of locals, each at most once and in this order. The names of
locals may be anything. -/
structure IsNameSection (contents : List UInt8) (functionNames : List (Nat × String)) (subs : List Laid) :
    Prop where
  laid : contents = subs.flatMap Laid.bytes
  sized : ∀ s ∈ subs, s.Sized
  known : ∀ s ∈ subs, s.id.toNat ≤ 2
  ordered : subs.Pairwise fun s s' => s.id < s'.id
  ofModule : ∀ s ∈ subs, s.id = 0 → ∃ name, IsName s.body name
  functions : ∀ s ∈ subs, s.id = 1 → IsVec IsNameAssoc s.body functionNames
  absent : (∀ s ∈ subs, s.id ≠ 1) → functionNames = []

end MassaIndexer.Explorer.WasmFormat
