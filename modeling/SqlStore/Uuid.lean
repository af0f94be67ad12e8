import SqlStore.Bytes
import SqlStore.Json.Reading

/-!
# Universally unique identifiers

An identifier has 128 bits. It is written as five groups of hexadecimal digits in lower case, and
read with or without the hyphens; with hyphens it may also stand in braces or behind `urn:uuid:`.
-/

namespace SqlStore

/-- An identifier of 128 bits. -/
structure Uuid where
  bits : BitVec 128
deriving Repr, DecidableEq

/-- What is wrong with the text or the bytes of an identifier. -/
inductive UuidFault where
  | badCharacter (c : Char) (position : Nat)
  | simpleLength (length : Nat)
  | groupCount (count : Nat)
  | groupLength (group length : Nat)
  | byteLength (length : Nat)
deriving Repr, DecidableEq

/-- The number of digits of each group. -/
def uuidGroups : List Nat := [8, 4, 4, 4, 12]

/-- The wording of a fault. -/
def UuidFault.message : UuidFault → String
  | badCharacter c position =>
    let accent := String.ofList [Char.ofNat 96]
    "invalid character: found " ++ accent ++ String.ofList [c] ++ accent ++ " at " ++
      Text.showInt position
  | simpleLength n =>
    "invalid length: expected length 32 for simple format, found " ++ Text.showInt n
  | groupCount n => "invalid group count: expected 5, found " ++ Text.showInt n
  | groupLength group n =>
    "invalid group length in group " ++ Text.showInt group ++ ": expected " ++
      Text.showInt (uuidGroups.getD group 0) ++ ", found " ++ Text.showInt n
  | byteLength n => "invalid length: expected 16 bytes, found " ++ Text.showInt n

namespace Uuid

/-- The number that big-endian bytes spell. -/
def natOfBytes (bytes : List UInt8) : Nat := bytes.foldl (fun n b => n * 256 + b.toNat) 0

/-- The sixteen bytes, most significant first. -/
def toBytes (u : Uuid) : List UInt8 :=
  (List.range 16).map fun i => UInt8.ofNat (u.bits.toNat / pow2 (8 * (15 - i)))

/-- The identifier of sixteen bytes. -/
def ofBytes (bytes : List UInt8) : Except UuidFault Uuid :=
  if bytes.length == 16 then .ok ⟨BitVec.ofNat 128 (natOfBytes bytes)⟩
  else .error (.byteLength bytes.length)

/-- Identifiers are ordered as their bytes are. -/
def compareUuid (a b : Uuid) : Ordering := compare a.bits.toNat b.bits.toNat

/-- The text in five groups. -/
def text (u : Uuid) : String :=
  let ds := Bytes.hex u.toBytes
  let part := fun (start width : Nat) => (ds.drop start).take width
  String.ofList (part 0 8 ++ '-' :: part 8 4 ++ '-' :: part 12 4 ++ '-' :: part 16 4 ++
    '-' :: part 20 12)

/-- The identifier of 32 hexadecimal digits. -/
def ofDigits? (cs : List Char) : Option Uuid := do
  let values ← cs.mapM Json.hexValue?
  if values.length == 32 then
    some ⟨BitVec.ofNat 128 (values.foldl (fun n d => n * 16 + d) 0)⟩
  else none

/-- The identifier of five groups of digits with hyphens between them. -/
def ofGroups? (cs : List Char) : Option Uuid :=
  let groups := Text.split '-' cs
  if groups.map List.length == uuidGroups then ofDigits? groups.flatten else none

/-- Takes off the braces or the mark in front; tells how much was taken off in front, and whether
nothing was. -/
def unwrap (cs : List Char) : List Char × Nat × Bool :=
  let urn := "urn:uuid:".toList
  match cs with
  | open_ :: rest =>
    if open_.toNat == 123 && rest.getLast?.any (·.toNat == 125) then (rest.dropLast, 1, false)
    else if urn.isPrefixOf cs then (cs.drop urn.length, urn.length, false)
    else (cs, 0, true)
  | [] => ([], 0, true)

/-- The first group but the last whose length is wrong, else the last one. -/
def wrongGroup : Nat → List Nat → List Nat → Nat × Nat
  | i, length :: lengths, width :: widths =>
    if lengths.isEmpty || length != width then (i, length) else wrongGroup (i + 1) lengths widths
  | i, _, _ => (i, 0)

/-- What is wrong with a text that is no identifier. -/
def diagnose (s : String) : UuidFault :=
  let (cs, offset, simple) := unwrap s.toList
  match cs.findIdx? fun c => c != '-' && (Json.hexValue? c).isNone with
  | some i => .badCharacter (cs.getD i '-') ((String.ofList (cs.take i)).utf8ByteSize + offset)
  | none =>
    let groups := Text.split '-' cs
    if groups.length == 1 && simple then .simpleLength s.utf8ByteSize
    else if groups.length != 5 then .groupCount groups.length
    else
      let (group, length) := wrongGroup 0 (groups.map List.length) uuidGroups
      .groupLength group (if group == 4 then s.utf8ByteSize - 24 else length)

/-- Reads an identifier without surrounding blanks. -/
def parse (s : String) : Except UuidFault Uuid :=
  let (cs, _, simple) := unwrap s.toList
  let plain := if simple then ofDigits? cs else none
  match plain.orElse fun _ => ofGroups? cs with
  | some u => .ok u
  | none => .error (diagnose s)

/-- A random-style identifier (version 4) made from a serial number. -/
def version4 (serial : Nat) : Uuid :=
  let noise := (serial + 1) * 0x9E3779B97F4A7C15F39CC0605CEDC835 % pow2 128
  let high := noise / pow2 80
  let middle := noise / pow2 64 % pow2 12
  let low := noise % pow2 62
  ⟨BitVec.ofNat 128 (high * pow2 80 + 4 * pow2 76 + middle * pow2 64 + 2 * pow2 62 + low)⟩

/-- A time-ordered identifier (version 7) made from a number of milliseconds and a serial
number. -/
def version7 (millis serial : Nat) : Uuid :=
  let middle := serial / pow2 62 % pow2 12
  let low := serial % pow2 62
  ⟨BitVec.ofNat 128 (millis % pow2 48 * pow2 80 + 7 * pow2 76 + middle * pow2 64 +
    2 * pow2 62 + low)⟩

end Uuid

end SqlStore
