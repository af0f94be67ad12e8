import SqlStore.Json.Basic

/-!
# Byte strings

Byte strings are ordered byte by byte and written as pairs of hexadecimal digits in lower case.
Reading takes digits of either case, two for each byte.
-/

namespace SqlStore

/-- What is wrong with hexadecimal text. -/
inductive HexFault where
  | oddLength
  | badDigit (code : Nat) (position : Nat)
deriving Repr, DecidableEq

namespace Bytes

/-- The hexadecimal digits of bytes. -/
def hex (bytes : List UInt8) : List Char :=
  bytes.flatMap fun b => [hexDigit (b.toNat / 16), hexDigit (b.toNat % 16)]

/-- The bytes of a text in its encoding. -/
def ofString (s : String) : List UInt8 := s.toUTF8.toList

/-- The value of a byte that is a hexadecimal digit. -/
def digit? (b : UInt8) : Option Nat :=
  let n := b.toNat
  if 48 ≤ n && n ≤ 57 then some (n - 48)
  else if 97 ≤ n && n ≤ 102 then some (n - 87)
  else if 65 ≤ n && n ≤ 70 then some (n - 55)
  else none

/-- Reads pairs of digits, the first of which stands at `position`. -/
def readPairs (position : Nat) : List UInt8 → Except HexFault (List UInt8)
  | a :: b :: rest => match digit? a, digit? b with
    | some x, some y => (readPairs (position + 2) rest).map (UInt8.ofNat (x * 16 + y) :: ·)
    | none, _ => .error (.badDigit a.toNat position)
    | _, none => .error (.badDigit b.toNat (position + 1))
  | _ => .ok []

/-- Reads hexadecimal digits, two for each byte. -/
def ofHex (s : String) : Except HexFault (List UInt8) :=
  let bytes := ofString s
  if bytes.length % 2 == 1 then .error .oddLength else readPairs 0 bytes

/-- The order of byte strings: by the first byte that differs, else the shorter one first. -/
def compareBytes : List UInt8 → List UInt8 → Ordering
  | [], [] => .eq
  | [], _ => .lt
  | _, [] => .gt
  | a :: as, b :: bs => (compare a.toNat b.toNat).then (compareBytes as bs)

end Bytes

/-- A Latin character in single quotes, escaped where it is not printable. -/
def quotedChar (code : Nat) : String :=
  let body :=
    if code == 0 then ['\\', '0']
    else if code == 9 then ['\\', 't']
    else if code == 10 then ['\\', 'n']
    else if code == 13 then ['\\', 'r']
    else if code == 39 || code == 92 then ['\\', Char.ofNat code]
    else if code < 32 || (127 ≤ code && code ≤ 160) || code == 173 then
      let digits :=
        if code < 16 then [hexDigit code] else [hexDigit (code / 16), hexDigit (code % 16)]
      '\\' :: 'u' :: Char.ofNat 123 :: (digits ++ [Char.ofNat 125])
    else [Char.ofNat code]
  String.ofList (Char.ofNat 39 :: (body ++ [Char.ofNat 39]))

/-- The wording of a fault. -/
def HexFault.message : HexFault → String
  | oddLength => "Odd number of digits"
  | badDigit code position =>
    "Invalid character " ++ quotedChar code ++ " at position " ++ Text.showInt position

end SqlStore
