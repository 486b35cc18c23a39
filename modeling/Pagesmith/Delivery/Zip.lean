import Pagesmith.Deflate.Block
import Pagesmith.Delivery.Archive

/-!
Archives as octets: a record for each item with its compressed octets, a list of the records, and
an end that says where the list is. Numbers are written with their lowest octet first.
-/

namespace Pagesmith.Delivery

/-- A number as some octets, the lowest one first. -/
def littleEndian : (count : Nat) → Nat → List UInt8
  | 0, _ => []
  | count + 1, n => UInt8.ofNat (n % 256) :: littleEndian count (n / 256)

/-- The number that octets write, the lowest one first. -/
def ofLittleEndian : List UInt8 → Nat
  | [] => 0
  | b :: r => b.toNat + 256 * ofLittleEndian r

/-- What stands at the start of the record of an item. -/
def recordMark : List UInt8 := [0x50, 0x4b, 0x03, 0x04]

/-- What stands at the start of an item in the list of records. -/
def listMark : List UInt8 := [0x50, 0x4b, 0x01, 0x02]

/-- What stands at the start of the end. -/
def endMark : List UInt8 := [0x50, 0x4b, 0x05, 0x06]

/-- The version of the format that a reader needs. -/
def zipVersion : Nat := 20

/-- The number of the system whose rights an item has. -/
def zipSystem : Nat := 3

/-- The number of the method by which octets are compressed. -/
def zipMethod : Nat := 8

/-- The earliest date: the first day of the first month of the first year. -/
def zipDate : Nat := 1 * 32 + 1

/-- The mark of a name that is not plain. -/
def zipFlags (i : Item) : Nat := if i.isWide then 0x800 else 0

/-- An item with what its record needs. -/
structure Packed where
  item : Item
  name : List UInt8
  octets : List UInt8

/-- Compress an item. -/
def pack (i : Item) : Packed := ⟨i, Text.octets i.name, deflate i.octets⟩

namespace Packed

/-- What the record of an item and the list of records say about it. -/
def facts (p : Packed) : List UInt8 :=
  littleEndian 2 zipVersion ++ littleEndian 2 (zipFlags p.item) ++ littleEndian 2 zipMethod ++
    littleEndian 2 0 ++ littleEndian 2 zipDate ++ littleEndian 4 (crc p.item.octets).toNat ++
    littleEndian 4 p.octets.length ++ littleEndian 4 p.item.octets.length ++
    littleEndian 2 p.name.length ++ littleEndian 2 0

/-- The record of an item. -/
def record (p : Packed) : List UInt8 :=
  recordMark ++ p.facts ++ p.name ++ p.octets

/-- An item in the list of records, whose own record starts at a place. -/
def listed (p : Packed) (place : Nat) : List UInt8 :=
  listMark ++ [UInt8.ofNat zipVersion, UInt8.ofNat zipSystem] ++ p.facts ++ littleEndian 2 0 ++
    littleEndian 2 0 ++ littleEndian 2 0 ++ littleEndian 4 itemRights ++ littleEndian 4 place ++
    p.name

end Packed

/-- The list of records, the first of which starts at a place. -/
def listedFrom : (place : Nat) → List Packed → List UInt8
  | _, [] => []
  | place, p :: r => p.listed place ++ listedFrom (place + p.record.length) r

/-- The end of an archive: how many items it has, and the length and the place of the list. -/
def zipEnd (count length place : Nat) : List UInt8 :=
  endMark ++ littleEndian 2 0 ++ littleEndian 2 0 ++ littleEndian 2 count ++
    littleEndian 2 count ++ littleEndian 4 length ++ littleEndian 4 place ++ littleEndian 2 0

/-- An archive as octets. -/
def zip (items : List Item) : List UInt8 :=
  let packed := items.map pack
  let records := packed.flatMap Packed.record
  let listing := listedFrom 0 packed
  records ++ listing ++ zipEnd packed.length listing.length records.length

/-- How long the facts about an item are. -/
def factsLength : Nat := 26

/-- The names in an archive, read from the records at its start. -/
def namesFrom : (fuel : Nat) → List UInt8 → List String
  | 0, _ => []
  | fuel + 1, octets =>
    if !recordMark.isPrefixOf octets then []
    else
      let facts := octets.drop recordMark.length
      let size := ofLittleEndian ((facts.drop 14).take 4)
      let nameLength := ofLittleEndian ((facts.drop 22).take 2)
      let rest := facts.drop factsLength
      let name := match Text.ofOctets? (rest.take nameLength) with
        | .ok s => s
        | .error _ => ""
      name :: namesFrom fuel (rest.drop (nameLength + size))

/-- The names in an archive. -/
def zipNames (octets : List UInt8) : List String := namesFrom octets.length octets

end Pagesmith.Delivery
