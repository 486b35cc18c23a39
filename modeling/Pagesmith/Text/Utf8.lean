import Pagesmith.Text.Digit

/-!
Texts as octets. Decoding refuses the first octet sequence that is no character, and says where it
is and what is wrong with it.
-/

namespace Pagesmith.Text

def octets (s : String) : List UInt8 :=
  s.toList.flatMap String.utf8EncodeChar

/-- What is wrong with a sequence of octets. -/
inductive OctetFault where
  | start | continuation | truncated
deriving DecidableEq

/-- A sequence of octets that is no character: its place, its length and its first octet. -/
structure DecodeFault where
  position : Nat
  length : Nat
  octet : UInt8
  cause : OctetFault
deriving DecidableEq

def DecodeFault.message (f : DecodeFault) : String :=
  let cause := match f.cause with
    | .start => "invalid start byte"
    | .continuation => "invalid continuation byte"
    | .truncated => "unexpected end of data"
  let place :=
    if f.length == 1 then
      "byte 0x" ++ String.ofList (hexDigits 2 f.octet.toNat) ++ " in position " ++
        toString f.position
    else
      "bytes in position " ++ toString f.position ++ "-" ++ toString (f.position + f.length - 1)
  "'utf-8' codec can't decode " ++ place ++ ": " ++ cause

/-- How many octets follow a first octet. -/
def followers? (b : UInt8) : Option Nat :=
  if b < 0x80 then some 0
  else if b < 0xc2 then none
  else if b < 0xe0 then some 1
  else if b < 0xf0 then some 2
  else if b < 0xf5 then some 3
  else none

/-- An octet may follow as the first one after `b`; some first octets leave less room. -/
def followsFirst (b c : UInt8) : Bool :=
  let low : UInt8 := if b == 0xe0 then 0xa0 else if b == 0xf0 then 0x90 else 0x80
  let high : UInt8 := if b == 0xed then 0x9f else if b == 0xf4 then 0x8f else 0xbf
  low ≤ c && c ≤ high

/-- The octets that follow a first octet, as far as they fit: their number and their value. -/
def follow (b : UInt8) : (need : Nat) → (done : Nat) → (value : Nat) → List UInt8 →
    Except (Nat × OctetFault) (Nat × List UInt8)
  | 0, _, value, rest => .ok (value, rest)
  | _ + 1, done, _, [] => .error (done, .truncated)
  | need + 1, done, value, c :: rest =>
    if (if done == 1 then followsFirst b c else 0x80 ≤ c && c ≤ 0xbf) then
      follow b need (done + 1) (value * 64 + (c.toNat - 0x80)) rest
    else .error (done, .continuation)

/-- The value bits of a first octet with so many followers. -/
def leadBits (b : UInt8) : Nat → Nat
  | 0 => b.toNat
  | 1 => b.toNat - 0xc0
  | 2 => b.toNat - 0xe0
  | _ => b.toNat - 0xf0

/-- The characters of a sequence of octets that starts at `position`. -/
def decodeFrom : (fuel : Nat) → (position : Nat) → List UInt8 → Except DecodeFault (List Char)
  | 0, _, _ => .ok []
  | _ + 1, _, [] => .ok []
  | fuel + 1, position, b :: rest =>
    match followers? b with
    | none => .error ⟨position, 1, b, .start⟩
    | some n =>
      match follow b n 1 (leadBits b n) rest with
      | .error (done, cause) => .error ⟨position, done, b, cause⟩
      | .ok (value, rest) => (decodeFrom fuel (position + n + 1) rest).map (Char.ofNat value :: ·)

def ofOctets? (bs : List UInt8) : Except DecodeFault String :=
  (decodeFrom bs.length 0 bs).map String.ofList

end Pagesmith.Text
