/-
# Data.Ids -- block, operation, endorsement and address ids

An id is displayed as a family letter (two for addresses) in front of a base58-check payload and
keyed by its raw bytes. The base58 codec is a crate of its own, so it is a parameter here,
`Bs58Check`, with the two laws the indexer relies on: what was encoded decodes, and a text that
decodes is the one spelling of its bytes. An id is therefore its key bytes alone; its text is
computed (`text`), and parsing and printing are inverse (`parse_text`, `text_of_parse`).
-/
import MassaIndexer.Theory.Base58
import MassaIndexer.Theory.KeyedTable

namespace MassaIndexer.Data.Ids

open MassaIndexer.Theory
open MassaIndexer.Theory.KeyedTable (Bytes)

set_option autoImplicit false

/-- The base58-check coder and decoder. -/
class Bs58Check where
  encode : Bytes → String
  decode : String → Option Bytes
  decode_encode : ∀ bytes, decode (encode bytes) = some bytes
  encode_of_decode : ∀ text bytes, decode text = some bytes → encode bytes = text

/-- The coding the crate documents: base 58 with the first four bytes of a doubled SHA-256. -/
@[reducible] def Bs58Check.doubleSha : Bs58Check where
  encode := Base58.encodeCheck Base58.doubleSha
  decode := Base58.decodeCheck Base58.doubleSha
  decode_encode := Base58.decodeCheck_encodeCheck Base58.length_doubleSha
  encode_of_decode := fun _ _ => Base58.encodeCheck_of_decodeCheck

inductive IdError where
  | badPrefix
  | badBase58
  | badLength (n : Nat)
  | badVersion (v : UInt8)
  | badCategory (c : Char)
deriving DecidableEq

def IdError.message : IdError → String
  | badPrefix => "missing family prefix"
  | badBase58 => "invalid base58-check payload"
  | badLength n => s!"unexpected payload length ({n} bytes)"
  | badVersion v => s!"unsupported id version {v}"
  | badCategory c => s!"unknown address category '{c}'"

def idKeyLen : Nat := 33

def addrKeyLen : Nat := 34

/-! ## Single-family ids -/

/-- `version_byte(1) ‖ hash(32)`, tagged with the letter its display form starts with. -/
structure FamilyId (letter : Char) where
  bytes : Bytes
  width : bytes.length = idKeyLen
deriving DecidableEq

namespace FamilyId

variable {letter : Char}

@[ext] theorem ext {x y : FamilyId letter} (same : x.bytes = y.bytes) : x = y := by
  cases x
  cases y
  congr

/-- Rebuild an id from raw key bytes; `none` when the length is wrong. -/
def fromKeyBytes (bytes : Bytes) : Option (FamilyId letter) :=
  if width : bytes.length = idKeyLen then some ⟨bytes, width⟩ else none

@[simp] theorem fromKeyBytes_bytes (x : FamilyId letter) : fromKeyBytes x.bytes = some x := by
  simp [fromKeyBytes, x.width]

theorem bytes_of_fromKeyBytes {bytes : Bytes} {x : FamilyId letter}
    (built : fromKeyBytes bytes = some x) : x.bytes = bytes := by
  unfold fromKeyBytes at built
  split at built
  · exact congrArg FamilyId.bytes (Option.some.inj built).symm
  · exact absurd built (by simp)

variable [Bs58Check]

/-- Decode a `<letter><bs58check>` id into its raw key bytes. -/
def decodeSingleFamily (letter : Char) (s : String) : Except IdError (FamilyId letter) :=
  match s.toList with
  | [] => .error .badPrefix
  | c :: payload =>
      if c ≠ letter then .error .badPrefix
      else match Bs58Check.decode (String.ofList payload) with
        | none => .error .badBase58
        | some raw =>
            if width : raw.length = idKeyLen then .ok ⟨raw, width⟩
            else .error (.badLength raw.length)

/-- `encode_single_family`: the display form. -/
def text (x : FamilyId letter) : String :=
  String.ofList (letter :: (Bs58Check.encode x.bytes).toList)

/-- Parsing reports its failures as text. -/
def parse (s : String) : Except String (FamilyId letter) :=
  (decodeSingleFamily letter s).mapError IdError.message

@[simp] theorem parse_text (x : FamilyId letter) : parse x.text = .ok x := by
  simp [parse, decodeSingleFamily, text, Bs58Check.decode_encode, x.width, Except.mapError]

theorem text_of_parse {s : String} {x : FamilyId letter} (parsed : parse s = .ok x) :
    x.text = s := by
  unfold parse decodeSingleFamily at parsed
  split at parsed
  · exact absurd parsed (by simp [Except.mapError])
  · next c payload chars =>
      split at parsed
      · exact absurd parsed (by simp [Except.mapError])
      · next sameLetter =>
          split at parsed
          · exact absurd parsed (by simp [Except.mapError])
          · next raw decoded =>
              split at parsed
              · next width =>
                  obtain rfl : (⟨raw, width⟩ : FamilyId letter) = x := by
                    simpa [Except.mapError] using parsed
                  rw [text, Bs58Check.encode_of_decode _ _ decoded, ← not_not.mp sameLetter,
                    String.toList_ofList, ← chars, String.ofList_toList]
              · exact absurd parsed (by simp [Except.mapError])

theorem text_injective {x y : FamilyId letter} (same : x.text = y.text) : x = y :=
  Except.ok.inj ((parse_text x).symm.trans ((congrArg parse same).trans (parse_text y)))

@[simp] theorem text_ne_empty (x : FamilyId letter) : x.text ≠ "" := by
  intro blank
  have := congrArg String.toList blank
  simp [text] at this

end FamilyId

abbrev BlockId := FamilyId 'B'
abbrev OperationId := FamilyId 'O'
abbrev EndorsementId := FamilyId 'E'

instance : LawfulBEq BlockId := inferInstance

def BlockId.parse [Bs58Check] (s : String) : Except String BlockId := FamilyId.parse s
def OperationId.parse [Bs58Check] (s : String) : Except String OperationId := FamilyId.parse s
def EndorsementId.parse [Bs58Check] (s : String) : Except String EndorsementId := FamilyId.parse s

/-! ## Addresses -/

/-- `category(1) ‖ version(1) ‖ hash(32)`; category 0 is a user address, 1 a contract. -/
structure Address where
  bytes : Bytes
  width : bytes.length = addrKeyLen
deriving DecidableEq

namespace Address

@[ext] theorem ext {x y : Address} (same : x.bytes = y.bytes) : x = y := by
  cases x
  cases y
  congr

theorem width_zeros : (List.replicate addrKeyLen (0 : UInt8)).length = addrKeyLen :=
  List.length_replicate

def categoryUser : UInt8 := 0
def categorySc : UInt8 := 1

def fromKeyBytes (bytes : Bytes) : Option Address :=
  if width : bytes.length = addrKeyLen then some ⟨bytes, width⟩ else none

@[simp] theorem fromKeyBytes_bytes (a : Address) : fromKeyBytes a.bytes = some a := by
  simp [fromKeyBytes, a.width]

variable [Bs58Check]

def decodeAddress (s : String) : Except IdError Address :=
  match s.toList with
  | 'A' :: second :: payload =>
      let category : Except IdError UInt8 :=
        if second = 'U' then .ok categoryUser
        else if second = 'S' then .ok categorySc
        else .error (.badCategory second)
      match category with
      | .error e => .error e
      | .ok cat =>
          match Bs58Check.decode (String.ofList payload) with
          | none => .error .badBase58
          | some raw =>
              -- the payload is a one-byte version and the hash, one byte short of the key
              if width : raw.length = 33 then
                .ok ⟨cat :: raw, by simp [width, addrKeyLen]⟩
              else .error (.badLength raw.length)
  | _ => .error .badPrefix

/-- `encode_address`: any category other than a contract prints as a user. -/
def text (a : Address) : String :=
  let letter := if a.bytes.head? = some categorySc then 'S' else 'U'
  String.ofList ('A' :: letter :: (Bs58Check.encode a.bytes.tail).toList)

def parse (s : String) : Except String Address := (decodeAddress s).mapError IdError.message

/-- The addresses a text can name: the others exist only as hand-made keys. -/
def Named (a : Address) : Prop := a.bytes.head? = some categoryUser ∨ a.bytes.head? = some categorySc

theorem parse_text {a : Address} (named : a.Named) : parse a.text = .ok a := by
  obtain ⟨bytes, width⟩ := a
  cases bytes with
  | nil => exact absurd width (by decide)
  | cons cat raw =>
      have rawWidth : raw.length = 33 := by simpa [addrKeyLen] using width
      rcases named with user | sc
      · obtain rfl : cat = categoryUser := by simpa using user
        simp [parse, decodeAddress, text, categoryUser, categorySc, Bs58Check.decode_encode, rawWidth,
          Except.mapError]
      · obtain rfl : cat = categorySc := by simpa using sc
        simp [parse, decodeAddress, text, categorySc, Bs58Check.decode_encode, rawWidth,
          Except.mapError]

end Address

end MassaIndexer.Data.Ids
