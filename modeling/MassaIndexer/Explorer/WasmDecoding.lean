/-
# Explorer.WasmDecoding -- the decoders on encodings of version 1.0

What the readings of the analyzer make of a code of the format: each consumes the code, whatever follows,
and returns what it encodes in the words of the report (`shown`). The constant expressions are skipped, of
whatever immediates: a byte `0x0b` inside one does not end the expression.
-/
import MassaIndexer.Explorer.WasmAnalyzer
import MassaIndexer.Explorer.WasmFormat

namespace MassaIndexer.Explorer.WasmDecoding

open MassaIndexer.Theory.Leb128 MassaIndexer.Theory.Decoding
open MassaIndexer.Explorer.WasmReader MassaIndexer.Explorer.WasmAnalyzer MassaIndexer.Explorer.WasmFormat

set_option autoImplicit false

/-! ## How the report shows a module's parts -/

def shownValType : ValType → WasmValType
  | .i32 => .i32
  | .i64 => .i64
  | .f32 => .f32
  | .f64 => .f64

def shownFuncType (t : FuncType) : WasmFuncSignature :=
  ⟨t.params.map shownValType, t.results.map shownValType⟩

def shownLimits (l : Limits) : WasmLimits := ⟨l.min, l.max⟩

/-- Tables of version 1.0 hold function references. -/
def shownTable (l : Limits) : WasmTable := ⟨.funcref, shownLimits l⟩

def shownGlobalType (t : GlobalType) : WasmGlobal := ⟨shownValType t.valtype, t.isMutable⟩

/-- A text as `TextDecoder` returns it: a byte order mark at its beginning is dropped. -/
def withoutMark (s : String) : String :=
  match s.toList with
  | [] => s
  | c :: rest => if c = Char.ofNat 0xfeff then String.ofList rest else s

def shownDesc : ImportDesc → WasmImportType
  | .func typeIndex => .func typeIndex
  | .table limits => .table (shownTable limits)
  | .memory limits => .memory (shownLimits limits)
  | .global type => .global (shownGlobalType type)

def shownImport (i : Import) : WasmImport :=
  ⟨withoutMark i.fromModule, withoutMark i.name, shownDesc i.desc⟩

def shownKind : ExportKind → WasmExportKind
  | .func => .func
  | .table => .table
  | .memory => .memory
  | .global => .global

def shownExport (e : Export) : WasmExport := ⟨withoutMark e.name, shownKind e.kind, e.index⟩

/-! ## Function names -/

/-- The contents of a custom section that the report shows with the name `name`. -/
def HoldsNames (body contents : List UInt8) : Prop :=
  ∃ name, withoutMark name = "name" ∧ IsCustom body name contents

/-- The custom sections with the name `name` are name sections, with the function names of the module by
increasing indices. -/
structure IsNamed (m : Module) (sections : List Laid) : Prop where
  wellFormed : ∀ s ∈ sections, s.id = 0 → ∀ contents, HoldsNames s.body contents →
    ∃ subs, IsNameSection contents m.functionNames subs
  increasing : m.functionNames.Pairwise fun e e' => e.1 < e'.1
  absent : (∀ s ∈ sections, s.id = 0 → ∀ contents, ¬ HoldsNames s.body contents) → m.functionNames = []

/-! ## Numbers and bytes -/

theorem reads_u8 (b : UInt8) : Reads u8 [b] b := fun _ => rfl

theorem reads_bytesOf (bytes : List UInt8) : Reads (bytesOf bytes.length) bytes bytes := by
  intro rest
  have fits : ¬ (bytes ++ rest).length < bytes.length := by
    rw [List.length_append]
    omega
  rw [bytesOf, if_neg fits, List.take_left, List.drop_left]

theorem reads_lebU32 {code : List UInt8} {v : Nat} (encodes : IsUnsigned 32 code v) :
    Reads lebU32 code v := by
  intro rest
  rw [lebU32_of_short rest encodes.terminated encodes.short, encodes.value,
    Nat.mod_eq_of_lt encodes.fits]

theorem reads_skip {α : Type} {r : Reading α} {code : List UInt8} {a : α} (reads : Reads r code a) :
    Reads (skip r) code () := reads.map fun _ => ()

/-- A signed code is skipped whole, whatever it is read as. -/
theorem reads_skip_lebS32 {code : List UInt8} (ends : Terminated code) : Reads (skip lebS32) code () := by
  intro rest
  obtain ⟨v, read⟩ := lebS32From_of_code rest 0 0 ends
  exact bind_of_ok read

theorem reads_skip_lebS64 {code : List UInt8} (ends : Terminated code) : Reads (skip lebS64) code () := by
  intro rest
  exact bind_of_ok (lebS64_of_code rest ends)

/-! ## Types -/

theorem reads_readValType {code : List UInt8} {t : ValType} (encodes : IsValType code t) :
    Reads readValType code (shownValType t) := by
  rw [IsValType] at encodes
  subst encodes
  intro rest
  cases t with
  | i32 => rfl
  | i64 => rfl
  | f32 => rfl
  | f64 => rfl

theorem reads_readValTypeVec {code : List UInt8} {ts : List ValType} (encodes : IsVec IsValType code ts) :
    Reads readValTypeVec code (ts.map shownValType) := by
  obtain ⟨count, items, rfl, counted, coded⟩ := encodes
  refine (reads_lebU32 counted).bind ?_
  exact reads_readMany (fun code t isCode => reads_readValType isCode) coded

theorem reads_readType (i : Nat) {code : List UInt8} {t : FuncType} (encodes : IsFuncType code t) :
    Reads (readType i) code (shownFuncType t) := by
  obtain ⟨params, results, rfl, isParams, isResults⟩ := encodes
  refine (reads_u8 0x60).bind ?_
  show Reads (do
    let params ← readValTypeVec
    let results ← readValTypeVec
    pure ⟨params, results⟩) (params ++ results) (shownFuncType t)
  refine (reads_readValTypeVec isParams).bind ?_
  exact (reads_readValTypeVec isResults).map fun results => WasmFuncSignature.mk _ results

theorem reads_readLimits {code : List UInt8} {l : Limits} (encodes : IsLimits code l) :
    Reads readLimits code (shownLimits l) := by
  cases encodes with
  | atLeast low =>
      refine (reads_u8 0x00).bind ?_
      exact (reads_lebU32 low).map fun min => WasmLimits.mk min none
  | between low high =>
      refine (reads_u8 0x01).bind ?_
      refine (reads_lebU32 low).bind ?_
      exact (reads_lebU32 high).map fun max => WasmLimits.mk _ (some max)

theorem reads_readTable {code : List UInt8} {l : Limits} (encodes : IsTable code l) :
    Reads readTable code (shownTable l) := by
  obtain ⟨rest, rfl, isLimits⟩ := encodes
  have funcref : Reads readValType [0x70] .funcref := fun _ => rfl
  refine funcref.bind ?_
  exact (reads_readLimits isLimits).map fun limits => WasmTable.mk _ limits

theorem reads_readGlobalType {code : List UInt8} {t : GlobalType} (encodes : IsGlobalType code t) :
    Reads readGlobalType code (shownGlobalType t) := by
  rw [IsGlobalType] at encodes
  subst encodes
  obtain ⟨valtype, isMutable⟩ := t
  refine (reads_readValType (rfl : IsValType [valtype.byte] valtype)).bind ?_
  cases isMutable with
  | false => exact (reads_u8 0x00).map fun b => WasmGlobal.mk (shownValType valtype) (b = 1)
  | true => exact (reads_u8 0x01).map fun b => WasmGlobal.mk (shownValType valtype) (b = 1)

/-! ## Constant expressions -/

theorem reads_skipImmediate {code : List UInt8} {c : ConstInstr} (encodes : IsConstInstr code c) :
    ∃ op rest, code = op :: rest ∧ op ≠ 0x0b ∧ Reads (skipImmediate op) rest () := by
  cases encodes with
  | i32Const value => exact ⟨_, _, rfl, by decide, reads_skip_lebS32 value.terminated⟩
  | i64Const value => exact ⟨_, _, rfl, by decide, reads_skip_lebS64 value.terminated⟩
  | f32Const size => exact ⟨_, _, rfl, by decide, reads_skip (size ▸ reads_bytesOf _)⟩
  | f64Const size => exact ⟨_, _, rfl, by decide, reads_skip (size ▸ reads_bytesOf _)⟩
  | globalGet value => exact ⟨_, _, rfl, by decide, reads_skip (reads_lebU32 value)⟩

theorem reads_skipInitExpr {code : List UInt8} {expr : List ConstInstr} (encodes : IsConstExpr code expr) :
    Reads skipInitExpr code () := by
  obtain ⟨instrs, rfl, coded⟩ := encodes
  intro rest
  induction coded with
  | nil => exact skipInitExpr_end rest
  | cons head tail ih =>
      obtain ⟨op, immediate, rfl, more, reads⟩ := reads_skipImmediate head
      rw [List.append_assoc, List.append_assoc, List.cons_append,
        skipInitExpr_instr more (reads _), ← List.append_assoc]
      exact ih

theorem reads_readGlobal {code : List UInt8} {g : Global} (encodes : IsGlobal code g) :
    Reads readGlobal code (shownGlobalType g.type) := by
  obtain ⟨type, init, rfl, isType, isInit⟩ := encodes
  refine (reads_readGlobalType isType).bind ?_
  exact (reads_skipInitExpr isInit).map fun _ => shownGlobalType g.type

theorem reads_bytesOf_counted {code bytes : List UInt8} (encodes : IsBytes code bytes) :
    Reads (do
      let len ← lebU32
      bytesOf len) code bytes := by
  obtain ⟨count, rfl, counted⟩ := encodes
  exact (reads_lebU32 counted).bind (reads_bytesOf bytes)

theorem reads_readSegment {code : List UInt8} {d : Segment} (encodes : IsSegment code d) :
    Reads readSegment code d.bytes := by
  obtain ⟨memory, offset, bytes, rfl, isMemory, isOffset, isBytes⟩ := encodes
  refine (reads_lebU32 isMemory).bind ?_
  have rest : Reads (do
      skipInitExpr
      let len ← lebU32
      bytesOf len) (offset ++ bytes) d.bytes :=
    (reads_skipInitExpr isOffset).bind (reads_bytesOf_counted isBytes)
  exact rest

/-! ## Texts -/

section Texts

variable [TextDecoder]

/-- What is asked of the text decoder: it decodes UTF-8. -/
def DecodesUtf8 : Prop := ∀ s, TextDecoder.decode (utf8Bytes s) = withoutMark s

variable (decodes : DecodesUtf8)

include decodes

theorem reads_utf8 {code : List UInt8} {name : String} (encodes : IsName code name) :
    Reads utf8 code (withoutMark name) := by
  obtain ⟨count, rfl, counted⟩ := encodes
  refine (reads_lebU32 counted).bind ?_
  have text := (reads_bytesOf (utf8Bytes name)).map (ε := String) TextDecoder.decode
  rwa [decodes name] at text

theorem reads_readImport (i : Nat) {code : List UInt8} {x : Import} (encodes : IsImport code x) :
    Reads (readImport i) code (shownImport x) := by
  obtain ⟨fromModule, name, desc, rfl, isFrom, isName, isDesc⟩ := encodes
  obtain ⟨fromText, nameText, d⟩ := x
  refine (reads_utf8 decodes isFrom).bind ((reads_utf8 decodes isName).bind ?_)
  cases isDesc with
  | func index =>
      refine (reads_u8 0x00).bind ?_
      exact (reads_lebU32 index).map fun v =>
        WasmImport.mk (withoutMark fromText) (withoutMark nameText) (.func v)
  | table type =>
      refine (reads_u8 0x01).bind ?_
      exact (reads_readTable type).map fun v =>
        WasmImport.mk (withoutMark fromText) (withoutMark nameText) (.table v)
  | memory type =>
      refine (reads_u8 0x02).bind ?_
      exact (reads_readLimits type).map fun v =>
        WasmImport.mk (withoutMark fromText) (withoutMark nameText) (.memory v)
  | global type =>
      refine (reads_u8 0x03).bind ?_
      exact (reads_readGlobalType type).map fun v =>
        WasmImport.mk (withoutMark fromText) (withoutMark nameText) (.global v)

theorem reads_readExport (i : Nat) {code : List UInt8} {e : Export} (encodes : IsExport code e) :
    Reads (readExport i) code (shownExport e) := by
  obtain ⟨name, index, rfl, isName, isIndex⟩ := encodes
  obtain ⟨text, kind, v⟩ := e
  refine (reads_utf8 decodes isName).bind ?_
  refine (reads_u8 kind.byte).bind ?_
  cases kind with
  | func => exact (reads_lebU32 isIndex).map fun v => WasmExport.mk (withoutMark text) .func v
  | table => exact (reads_lebU32 isIndex).map fun v => WasmExport.mk (withoutMark text) .table v
  | memory => exact (reads_lebU32 isIndex).map fun v => WasmExport.mk (withoutMark text) .memory v
  | global => exact (reads_lebU32 isIndex).map fun v => WasmExport.mk (withoutMark text) .global v

theorem reads_readNameAssoc {code : List UInt8} {entry : Nat × String} (encodes : IsNameAssoc code entry) :
    Reads readNameAssoc code (entry.1, withoutMark entry.2) := by
  obtain ⟨index, name, rfl, isIndex, isName⟩ := encodes
  refine (reads_lebU32 isIndex).bind ?_
  exact (reads_utf8 decodes isName).map fun name => (entry.1, name)

end Texts

end MassaIndexer.Explorer.WasmDecoding
