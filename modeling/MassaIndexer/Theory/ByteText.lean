/-
# Theory.ByteText -- bytes spelled as hexadecimal and as base64 text

Both codings cut the bits into digits of one alphabet. Hexadecimal writes two lower-case digits a
byte and reads either case; base64 writes four digits for three bytes, pads the last group with
`=` and, read strictly, refuses a padded group whose spare bits are set. What an encoder wrote its
decoder reads back (`Hex.decode_encode`, `Base64.decode_encode`); the converse fails for hexadecimal,
where upper-case text is read and never written.
-/
import MassaIndexer.Theory.KeyedTable

namespace MassaIndexer.Theory.ByteText

open MassaIndexer.Theory.KeyedTable (Bytes)

set_option autoImplicit false

/-- The digit a character stands for in an alphabet. -/
def digitValue (alphabet : List Char) (c : Char) : Option Nat :=
  if alphabet.idxOf c < alphabet.length then some (alphabet.idxOf c) else none

/-- The character of a digit. -/
def digitChar (alphabet : List Char) (n : Nat) : Char := alphabet.getD n '0'

theorem digitValue_digitChar {alphabet : List Char} (distinct : alphabet.Nodup) {n : Nat}
    (small : n < alphabet.length) : digitValue alphabet (digitChar alphabet n) = some n := by
  have place : alphabet.idxOf (digitChar alphabet n) = n := by
    rw [digitChar, List.getD_eq_getElem?_getD, List.getElem?_eq_getElem small, Option.getD_some]
    exact distinct.idxOf_getElem n small
  rw [digitValue, place, if_pos small]

/-- A byte is rebuilt from any natural number it is equal to. -/
theorem ofNat_of_eq {b : UInt8} {n : Nat} (same : n = b.toNat) : UInt8.ofNat n = b := by
  rw [same, UInt8.ofNat_toNat]

/-! ## Hexadecimal -/

namespace Hex

def alphabet : List Char :=
  ['0', '1', '2', '3', '4', '5', '6', '7', '8', '9', 'a', 'b', 'c', 'd', 'e', 'f']

def digit (n : Nat) : Char := digitChar alphabet n

/-- Either case is read. -/
def value (c : Char) : Option Nat := digitValue alphabet c.toLower

theorem value_digit {n : Nat} (small : n < 16) : value (digit n) = some n := by
  have lower : ∀ m : Fin 16, (digit m.val).toLower = digit m.val := by decide
  rw [value, lower ⟨n, small⟩]
  exact digitValue_digitChar (by decide) small

def encodeChars : Bytes → List Char
  | [] => []
  | b :: rest => digit (b.toNat / 16) :: digit (b.toNat % 16) :: encodeChars rest

def decodeChars : List Char → Option Bytes
  | [] => some []
  | [_] => none
  | high :: low :: rest => do
      let h ← value high
      let l ← value low
      let bytes ← decodeChars rest
      return UInt8.ofNat (16 * h + l) :: bytes

def encode (bytes : Bytes) : String := String.ofList (encodeChars bytes)

def decode (text : String) : Option Bytes := decodeChars text.toList

theorem decodeChars_encodeChars (bytes : Bytes) : decodeChars (encodeChars bytes) = some bytes := by
  induction bytes with
  | nil => rfl
  | cons b rest ih =>
      have bound : b.toNat < 256 := b.toNat_lt
      have byte : UInt8.ofNat (16 * (b.toNat / 16) + b.toNat % 16) = b := ofNat_of_eq (by omega)
      rw [encodeChars, decodeChars, value_digit (by omega), value_digit (by omega), ih]
      exact congrArg (fun b => some (b :: rest)) byte

/-- **What was written in hexadecimal is read back.** -/
@[simp] theorem decode_encode (bytes : Bytes) : decode (encode bytes) = some bytes := by
  rw [decode, encode, String.toList_ofList, decodeChars_encodeChars]

end Hex

/-! ## Base64 -/

namespace Base64

def alphabet : List Char :=
  "ABCDEFGHIJKLMNOPQRSTUVWXYZabcdefghijklmnopqrstuvwxyz0123456789+/".toList

def digit (n : Nat) : Char := digitChar alphabet n

def value (c : Char) : Option Nat := digitValue alphabet c

theorem length_alphabet : alphabet.length = 64 := by decide +kernel

theorem value_digit {n : Nat} (small : n < 64) : value (digit n) = some n :=
  digitValue_digitChar (by decide +kernel) (length_alphabet.symm ▸ small)

theorem digit_ne_pad {n : Nat} (small : n < 64) : digit n ≠ '=' := by
  intro pad
  have unread : value '=' = none := by decide +kernel
  have read := value_digit small
  rw [pad, unread] at read
  cases read

def encodeChars : Bytes → List Char
  | [] => []
  | [a] => [digit (a.toNat / 4), digit (a.toNat % 4 * 16), '=', '=']
  | [a, b] =>
      [digit (a.toNat / 4), digit (a.toNat % 4 * 16 + b.toNat / 16), digit (b.toNat % 16 * 4), '=']
  | a :: b :: c :: rest =>
      digit (a.toNat / 4) :: digit (a.toNat % 4 * 16 + b.toNat / 16) ::
        digit (b.toNat % 16 * 4 + c.toNat / 64) :: digit (c.toNat % 64) :: encodeChars rest

/-- One whole group of four digits. -/
def group (w x y z : Nat) : Bytes :=
  [UInt8.ofNat (w * 4 + x / 16), UInt8.ofNat (x % 16 * 16 + y / 4), UInt8.ofNat (y % 4 * 64 + z)]

/-- Padding ends the text, and the bits it stands for are zero. -/
def decodeChars : List Char → Option Bytes
  | [] => some []
  | w :: x :: y :: z :: rest =>
      if z ≠ '=' then do
        let bytes := group (← value w) (← value x) (← value y) (← value z)
        return bytes ++ (← decodeChars rest)
      else if rest ≠ [] then none
      else if y ≠ '=' then do
        let bytes := group (← value w) (← value x) (← value y) 0
        if bytes.drop 2 = [0] then some (bytes.take 2) else none
      else do
        let bytes := group (← value w) (← value x) 0 0
        if bytes.drop 1 = [0, 0] then some (bytes.take 1) else none
  | _ => none

def encode (bytes : Bytes) : String := String.ofList (encodeChars bytes)

def decode (text : String) : Option Bytes := decodeChars text.toList

/-- The four digits of three bytes spell them. -/
theorem group_digits (a b c : UInt8) :
    group (a.toNat / 4) (a.toNat % 4 * 16 + b.toNat / 16) (b.toNat % 16 * 4 + c.toNat / 64)
      (c.toNat % 64) = [a, b, c] := by
  have boundA : a.toNat < 256 := a.toNat_lt
  have boundB : b.toNat < 256 := b.toNat_lt
  have boundC : c.toNat < 256 := c.toNat_lt
  have first : UInt8.ofNat (a.toNat / 4 * 4 + (a.toNat % 4 * 16 + b.toNat / 16) / 16) = a :=
    ofNat_of_eq (by omega)
  have second : UInt8.ofNat ((a.toNat % 4 * 16 + b.toNat / 16) % 16 * 16 +
      (b.toNat % 16 * 4 + c.toNat / 64) / 4) = b := ofNat_of_eq (by omega)
  have third : UInt8.ofNat ((b.toNat % 16 * 4 + c.toNat / 64) % 4 * 64 + c.toNat % 64) = c :=
    ofNat_of_eq (by omega)
  rw [group, first, second, third]

theorem decodeChars_encodeChars (bytes : Bytes) : decodeChars (encodeChars bytes) = some bytes := by
  induction bytes using encodeChars.induct with
  | case1 => rfl
  | case2 a =>
      have bound : a.toNat < 256 := a.toNat_lt
      have spelled : group (a.toNat / 4) (a.toNat % 4 * 16) 0 0 = [a, 0, 0] := group_digits a 0 0
      simp [encodeChars, decodeChars, value_digit (show a.toNat / 4 < 64 by omega),
        value_digit (show a.toNat % 4 * 16 < 64 by omega), spelled]
  | case3 a b =>
      have boundA : a.toNat < 256 := a.toNat_lt
      have boundB : b.toNat < 256 := b.toNat_lt
      have spelled : group (a.toNat / 4) (a.toNat % 4 * 16 + b.toNat / 16) (b.toNat % 16 * 4) 0 =
          [a, b, 0] := group_digits a b 0
      have digits : b.toNat % 16 * 4 < 64 := by omega
      simp [encodeChars, decodeChars, value_digit (show a.toNat / 4 < 64 by omega),
        value_digit (show a.toNat % 4 * 16 + b.toNat / 16 < 64 by omega),
        value_digit digits, digit_ne_pad digits, spelled]
  | case4 a b c rest ih =>
      have boundA : a.toNat < 256 := a.toNat_lt
      have boundB : b.toNat < 256 := b.toNat_lt
      have boundC : c.toNat < 256 := c.toNat_lt
      have last : c.toNat % 64 < 64 := by omega
      simp [encodeChars, decodeChars, value_digit (show a.toNat / 4 < 64 by omega),
        value_digit (show a.toNat % 4 * 16 + b.toNat / 16 < 64 by omega),
        value_digit (show b.toNat % 16 * 4 + c.toNat / 64 < 64 by omega),
        value_digit last, digit_ne_pad last, group_digits, ih]

/-- **What was written in base64 is read back.** -/
@[simp] theorem decode_encode (bytes : Bytes) : decode (encode bytes) = some bytes := by
  rw [decode, encode, String.toList_ofList, decodeChars_encodeChars]

end Base64

end MassaIndexer.Theory.ByteText
