/-!
Tokens of compressed data, and the search for copies. A token is an octet as it is, or a copy of octets that came
shortly before; the length and the distance of a copy are each written as a symbol for a range of numbers, and some
bits that tell the number within the range. Places where the same three octets stand are chained, the latest first.
At each place the longest copy is looked for; it is only used if there is none that is longer one octet further on.
-/

namespace Pagesmith.Deflate

/-- A part of the data. -/
inductive Token where
  | octet (b : UInt8)
  | copy (length distance : Nat)
deriving DecidableEq

/-- How many octets a token stands for. -/
def Token.size : Token → Nat
  | octet _ => 1
  | copy length _ => length

/-- The shortest copy. -/
def minCopy : Nat := 3

/-- The longest copy. -/
def maxCopy : Nat := 258

/-- A number as the place of its range, and its distance from the start of the range in bits of a
width. -/
structure Placed where
  place : Nat
  extra : Nat
  width : Nat
deriving DecidableEq

/-- The last range that does not start above a number, of ranges with these starts and widths. -/
def placedFrom (n : Nat) : (place : Nat) → List (Nat × Nat) → Placed
  | place, [] => ⟨place, 0, 0⟩
  | place, [(start, width)] => ⟨place, n - start, width⟩
  | place, (start, width) :: (next, nextWidth) :: r =>
    if n < next then ⟨place, n - start, width⟩
    else placedFrom n (place + 1) ((next, nextWidth) :: r)

def lengthRanges : List (Nat × Nat) := [
  (3, 0), (4, 0), (5, 0), (6, 0), (7, 0), (8, 0), (9, 0), (10, 0), (11, 1), (13, 1), (15, 1),
  (17, 1), (19, 2), (23, 2), (27, 2), (31, 2), (35, 3), (43, 3), (51, 3), (59, 3), (67, 4),
  (83, 4), (99, 4), (115, 4), (131, 5), (163, 5), (195, 5), (227, 5), (258, 0)]

def distanceRanges : List (Nat × Nat) := [
  (1, 0), (2, 0), (3, 0), (4, 0), (5, 1), (7, 1), (9, 2), (13, 2), (17, 3), (25, 3), (33, 4),
  (49, 4), (65, 5), (97, 5), (129, 6), (193, 6), (257, 7), (385, 7), (513, 8), (769, 8),
  (1025, 9), (1537, 9), (2049, 10), (3073, 10), (4097, 11), (6145, 11), (8193, 12), (12289, 12),
  (16385, 13), (24577, 13)]

def endSymbol : Nat := 256

def lengthPlaced (length : Nat) : Placed := placedFrom length (endSymbol + 1) lengthRanges

def distancePlaced (distance : Nat) : Placed := placedFrom distance 0 distanceRanges

/-- How far back a copy may reach. -/
def maxDistance : Nat := 32506

/-- A copy of the shortest length is not worth a greater distance than this. -/
def maxShortDistance : Nat := 4096

/-- How many places of a chain are tried. -/
def chainLimit : Nat := 4096

/-- A copy of this length is good enough to try fewer places for a longer one. -/
def goodCopy : Nat := 32

/-- How many classes of three octets there are. -/
def classCount : Nat := 32768

def octetClass (a b c : UInt8) : Nat :=
  ((a.toNat <<< 10) ^^^ (b.toNat <<< 5) ^^^ c.toNat) % classCount

/-- The places seen so far: the latest one of each class, and for each place the one of its class
before it. The first place of the data counts as none. -/
structure Seen where
  latest : Array Nat
  before : Array Nat

/-- Nothing has been seen. -/
def Seen.start (size : Nat) : Seen := ⟨Array.replicate classCount 0, Array.replicate size 0⟩

/-- See a place, if three octets stand there: the places seen, and the latest of its class. -/
def Seen.add (data : Array UInt8) (s : Seen) (place : Nat) : Seen × Nat :=
  if place + minCopy ≤ data.size then
    let c := octetClass (data.getD place 0) (data.getD (place + 1) 0) (data.getD (place + 2) 0)
    let latest := s.latest.getD c 0
    (⟨s.latest.setIfInBounds c place, s.before.setIfInBounds place latest⟩, latest)
  else (s, 0)

def Seen.addRow (data : Array UInt8) : (count : Nat) → Seen → (place : Nat) → Seen
  | 0, s, _ => s
  | count + 1, s, place => addRow data count (s.add data place).1 (place + 1)

/-- How many octets at two places are equal, up to a limit. -/
def common (data : Array UInt8) : (limit : Nat) → (a b : Nat) → Nat
  | 0, _, _ => 0
  | limit + 1, a, b =>
    if data.getD a 0 == data.getD b 0 then common data limit (a + 1) (b + 1) + 1 else 0

/-- A copy that was found: its length, and the place it is taken from. -/
structure Found where
  length : Nat
  source : Nat

/-- The copy after a candidate has been tried. -/
def Found.better (data : Array UInt8) (limit place source : Nat) (best : Found) : Found :=
  let last := best.length
  if data.getD (source + last) 0 != data.getD (place + last) 0 then best
  else
    let length := common data limit source place
    if best.length < length then ⟨length, source⟩ else best

/-- Try the places of a chain, until a copy is as long as it can be. -/
def follow (data : Array UInt8) (before : Array Nat) (limit place : Nat) :
    (tries : Nat) → (source : Nat) → Found → Found
  | 0, _, best => best
  | tries + 1, source, best =>
    let best := best.better data limit place source
    if limit ≤ best.length then best
    else
      let next := before.getD source 0
      if next ≤ place - maxDistance then best
      else follow data before limit place tries next best

/-- The longest copy for a place that is longer than one of `least` octets. -/
def longest? (data : Array UInt8) (before : Array Nat) (place source least : Nat) :
    Option Found :=
  let limit := min maxCopy (data.size - place)
  let tries := if goodCopy ≤ least then chainLimit / 4 else chainLimit
  if source == 0 || maxDistance < place - source || maxCopy ≤ least || limit ≤ least then none
  else
    let best := follow data before limit place tries source ⟨least, place⟩
    if best.length ≤ least then none
    else if best.length == minCopy && maxShortDistance < place - best.source then none
    else some best

/-- What is still open about the octet before a place. -/
inductive Held where
  /-- It has been dealt with. -/
  | nothing
  | octet
  /-- A copy for it and what follows has been found. -/
  | copy (f : Found)

/-- The length that a copy has to exceed. -/
def Held.length : Held → Nat
  | copy f => f.length
  | _ => minCopy - 1

/-- What is open one place further on. -/
def Held.next : Option Found → Held
  | some f => copy f
  | none => octet

/-- The tokens from a place on, behind those before it. -/
def tokensFrom (data : Array UInt8) (place : Nat) (s : Seen) (held : Held)
    (tokens : Array Token) : Array Token :=
  let previous := Token.octet (data.getD (place - 1) 0)
  if place < data.size then
    let (s, source) := s.add data place
    let found := longest? data s.before place source held.length
    match held, found with
    | .nothing, _ => tokensFrom data (place + 1) s (.next found) tokens
    | .copy f, none =>
      let skipped := f.length - 2
      tokensFrom data (place + 1 + skipped) (s.addRow data skipped (place + 1)) .nothing
        (tokens.push (.copy f.length (place - 1 - f.source)))
    | _, _ => tokensFrom data (place + 1) s (.next found) (tokens.push previous)
  else match held with
    | .nothing => tokens
    | _ => tokens.push previous
termination_by data.size - place

def tokens (data : Array UInt8) : Array Token :=
  tokensFrom data 0 (.start data.size) .nothing #[]

end Pagesmith.Deflate
