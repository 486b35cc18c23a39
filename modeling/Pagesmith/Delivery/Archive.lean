import Pagesmith.Delivery.Path
import Pagesmith.File
import Pagesmith.Text.Utf8

/-!
Archives: the files of a project in a row, each under its path in the project's folder, with a cyclic redundancy
check of 32 bits over the reflected polynomial `0xEDB88320`. All entries have the earliest date an archive can hold
and the rights of a plain file, so that equal files give equal archives.
-/

namespace Pagesmith.Delivery
open Text (Letter Loose)

/-- One bit of the remainder. -/
def crcBit (r : UInt32) : UInt32 :=
  if r &&& 1 == 1 then (r >>> 1) ^^^ 0xedb88320 else r >>> 1

/-- The remainder after one more octet. -/
def crcOctet (r : UInt32) (b : UInt8) : UInt32 :=
  crcBit (crcBit (crcBit (crcBit (crcBit (crcBit (crcBit (crcBit (r ^^^ b.toUInt32))))))))

/-- The check of a sequence of octets. -/
def crc (octets : List UInt8) : UInt32 :=
  octets.foldl crcOctet 0xffffffff ^^^ 0xffffffff

/-- What is delivered of a file. -/
structure Consignment where
  path : Loose
  content : Loose
deriving DecidableEq

/-- A generated file as it is delivered. -/
def consigned (f : OutputFile) : Consignment := ⟨f.path, f.content⟩

instance : Coe OutputFile Consignment := ⟨consigned⟩

/-- A file in an archive. -/
structure Item where
  name : String
  octets : List UInt8
deriving DecidableEq

/-- The name ends before its first character with number zero. -/
def itemName (name : Loose) : Loose :=
  name.takeWhile (· != .char (Char.ofNat 0))

/-- The most octets that a name in an archive can have. -/
def itemNameLimit : Nat := 65535

/-- The rights of a plain file, as an archive holds them. -/
def itemRights : Nat := 0o100644 * Nat.pow 2 16

/-- The name has characters that are marked as such in an archive. -/
def Item.isWide (i : Item) : Bool := i.name.toList.any (0x80 ≤ ·.toNat)

/-- The octets of a loose text, or the fault that it has none. -/
def encoded (t : Loose) : Except Fault (List UInt8) := t.octets?.mapError .unencodable

/-- A file as an item of the archive of a project. -/
def item (name : Loose) (f : Consignment) : Except Fault Item := do
  let parts ← checkedPath f.path
  let octets ← encoded f.content
  let path := itemName (name ++ .char '/' :: joinParts parts)
  let pathOctets ← encoded path
  if itemNameLimit < pathOctets.length then .error .longItemName
  else .ok ⟨path.text, octets⟩

def items (name : Loose) : List Consignment → Except Fault (List Item)
  | [] => .ok []
  | f :: r => do
    let first ← item name f
    let rest ← items name r
    pure (first :: rest)

/-- The archive of a project. -/
def archive (files : List Consignment) (name : Loose) : Except Fault (List Item) := do
  items (← checkedName name) files

end Pagesmith.Delivery
