/-
# Rest.NameService -- names that a contract on the chain resolves

A name is resolved by a read-only call of the name contract of the node's chain. Parameter and result
are strings as contracts pass them, a length in four little-endian bytes and the UTF-8 text; a result
of another make is read as plain text. A call that fails is a name that is not registered: only a node
that cannot be reached is an error.
-/
import MassaIndexer.Rest.BlockPages
import MassaIndexer.Rest.Search
import MassaIndexer.Writer.NodeDecode

namespace MassaIndexer.Rest.NameService

open MassaIndexer.Theory.KeyedTable
open MassaIndexer.Data.Keys MassaIndexer.Rest.BlockPages MassaIndexer.Rest.Search
open MassaIndexer.Writer.NodeDecode

set_option autoImplicit false

/-! ## Strings of contracts -/

/-- `Args::addString`. -/
def argsString (s : String) : Bytes := toLeBytes (UInt32.ofNat (textBytes s).length) ++ textBytes s

/-- The length of a string fits in front of it. -/
def Passes (s : String) : Prop := (textBytes s).length < UInt32.size

def decodeScString (bytes : Bytes) : Option String :=
  if bytes.length < 4 then none
  else
    let len := fromLeBytes (bytes.take 4)
    let payload := bytes.drop 4
    if payload.length < len then none else String.fromUTF8? (payload.take len).toByteArray

theorem length_toLeBytes (n : UInt32) : (toLeBytes n).length = 4 := by
  rw [toLeBytes, List.length_reverse, MassaIndexer.Theory.BigEndian.length_bytes]

theorem fromUTF8_textBytes (s : String) : String.fromUTF8? (textBytes s).toByteArray = some s := by
  have same : (textBytes s).toByteArray = s.toByteArray := by
    rw [textBytes]
    exact ByteArray.ext (by simp)
  rw [same]
  exact dif_pos s.isValidUTF8

/-- **A string passed to or from a contract is read back.** -/
theorem decodeScString_argsString {s : String} (fits : Passes s) :
    decodeScString (argsString s) = some s := by
  have front : (argsString s).take 4 = toLeBytes (UInt32.ofNat (textBytes s).length) :=
    List.take_left' (length_toLeBytes _)
  have back : (argsString s).drop 4 = textBytes s := List.drop_left' (length_toLeBytes _)
  have long : ¬ (argsString s).length < 4 := by
    rw [argsString, List.length_append, length_toLeBytes]
    omega
  rw [decodeScString, if_neg long]
  dsimp only
  rw [front, back, fromLeBytes_toLeBytes, UInt32.toNat_ofNat_of_lt' fits,
    if_neg (Nat.lt_irrefl _), List.take_length, fromUTF8_textBytes]

/-! ## Resolving -/

def mnsMainnet : String := "AS1q5hUfxLXNXLKsYQVXZLK7MPUZcWaNZZsK7e9QzqhGdAgLpUGT"

def mnsBuildnet : String := "AS12qKAVjU1nr66JSkQ6N4Lqu4iwuVc6rAbRTrxFoynPrPdP1sj3G"

def mnsContractForChain (chainId : UInt64) : Option String :=
  if chainId = 77658377 then some mnsMainnet
  else if chainId = 77658366 then some mnsBuildnet
  else none

/-- What the node answers: to connecting, with its chain id if it has a status, and to a read-only
call of a function of a contract, where `none` is a call that failed. -/
structure Node where
  connect : Except String Unit
  getStatus : Except String (Option UInt64)
  executeReadOnlyCall : String → String → Bytes → Option (Option Bytes)

/-- The name a result gives: not the empty one. -/
def resultName (callResult : Bytes) : Option String :=
  if callResult = [] then none
  else
    let decoded := (decodeScString callResult).getD (trimmed (stringifyBytes callResult))
    if decoded = "" then none else some decoded

def mnsResolve (node : Node) (name : String) : Except String (Option String) :=
  if name = "" then .ok none
  else
    match node.connect with
    | .error e => .error e
    | .ok () =>
        match node.getStatus with
        | .error e => .error s!"get_status: {e}"
        | .ok none => .ok none
        | .ok (some chainId) =>
            match mnsContractForChain chainId with
            | none => .ok none
            | some contract =>
                match node.executeReadOnlyCall contract "dnsResolve" (argsString name) with
                | some (some callResult) => .ok (resultName callResult)
                | _ => .ok none

/-- A node of a known chain, whose name contract keeps a table of names: it answers with the text
under a name, and aborts at a name it does not have. -/
structure Keeps (node : Node) (table : String → Option String) : Prop where
  connects : node.connect = .ok ()
  serves : ∃ chainId contract, node.getStatus = .ok (some chainId) ∧
    mnsContractForChain chainId = some contract ∧ ∀ name, Passes name →
      node.executeReadOnlyCall contract "dnsResolve" (argsString name) =
        (table name).map fun text => some (argsString text)

theorem resultName_argsString {text : String} (some_ : text ≠ "") (fits : Passes text) :
    resultName (argsString text) = some text := by
  have nonempty : argsString text ≠ [] := by
    refine List.ne_nil_of_length_pos ?_
    rw [argsString, List.length_append, length_toLeBytes]
    omega
  rw [resultName, if_neg nonempty]
  dsimp only
  rw [decodeScString_argsString fits, Option.getD_some, if_neg some_]

/-- **A name resolves to what the contract has under it.** -/
theorem mnsResolve_of_keeps {node : Node} {table : String → Option String} (keeps : Keeps node table)
    {name : String} (named : name ≠ "") (passes : Passes name)
    (fits : ∀ text, table name = some text → text ≠ "" ∧ Passes text) :
    mnsResolve node name = .ok (table name) := by
  obtain ⟨chainId, contract, status, known, answers⟩ := keeps.serves
  unfold mnsResolve
  rw [if_neg named, keeps.connects]
  dsimp only
  rw [status]
  dsimp only
  rw [known]
  dsimp only
  rw [answers name passes]
  cases entry : table name with
  | none => rfl
  | some text =>
      obtain ⟨some_, short⟩ := fits text entry
      dsimp only [Option.map_some]
      rw [resultName_argsString some_ short]

end MassaIndexer.Rest.NameService
