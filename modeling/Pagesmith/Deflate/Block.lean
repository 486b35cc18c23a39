import Pagesmith.Deflate.Code
import Pagesmith.Deflate.Search

/-!
Blocks of compressed data, as rows of bits, packed into octets from the lowest bit on. A block holds its octets
as they are, or its tokens under fixed codes or under codes of its own, whichever is shortest; codes of its own are
described at its start by their lengths, which are themselves coded.
-/

namespace Pagesmith.Deflate

/-- A row of bits: the full octets, and the bits behind them as a number of a width below eight. -/
structure Bits where
  octets : Array UInt8
  rest : Nat
  width : Nat

namespace Bits

def empty : Bits := ⟨#[], 0, 0⟩

/-- Move octets from the low end of a number to the end of a row. -/
def pour : (count : Nat) → Array UInt8 → Nat → Array UInt8 × Nat
  | 0, octets, n => (octets, n)
  | count + 1, octets, n => pour count (octets.push (UInt8.ofNat (n % 256))) (n / 256)

def add (b : Bits) (n width : Nat) : Bits :=
  let total := b.width + width
  let (octets, rest) := pour (total / 8) b.octets (b.rest + n * Nat.pow 2 b.width)
  ⟨octets, rest, total % 8⟩

/-- Fill the last octet with zeros. -/
def align (b : Bits) : Bits :=
  if b.width == 0 then b else ⟨b.octets.push (UInt8.ofNat b.rest), 0, 0⟩

/-- Add octets at the end of the last full one. -/
def addOctets (b : Bits) (octets : List UInt8) : Bits :=
  { b.align with octets := b.align.octets.appendList octets }

end Bits

end Pagesmith.Deflate

namespace Pagesmith.Deflate

/-- How many symbols there are for octets, the end of a block and lengths. -/
def symbolCount : Nat := 286

/-- How many symbols there are for distances. -/
def distanceCount : Nat := 30

/-- How many symbols there are in the description of codes. -/
def lengthSymbolCount : Nat := 19

/-- The most tokens in a block. -/
def blockLimit : Nat := 16383

/-- How often each symbol is used by tokens and the end behind them. -/
def symbolWeights (tokens : List Token) : Array Nat :=
  let start := (Array.replicate symbolCount 0).setIfInBounds endSymbol 1
  tokens.foldl (fun a t => a.modify (match t with
    | .octet b => b.toNat
    | .copy length _ => (lengthPlaced length).place) (· + 1)) start

/-- How often each distance symbol is used by tokens. -/
def distanceWeights (tokens : List Token) : Array Nat :=
  tokens.foldl (fun a t => match t with
    | .octet _ => a
    | .copy _ distance => a.modify (distancePlaced distance).place (· + 1))
    (Array.replicate distanceCount 0)

/-- How many bits tokens need beside their codes. -/
def extraWidth (tokens : List Token) : Nat :=
  tokens.foldl (fun n t => match t with
    | .octet _ => n
    | .copy length distance =>
      n + (lengthPlaced length).width + (distancePlaced distance).width) 0

/-- How many bits symbols of these weights need under codes of these lengths. -/
def codedWidth (weights lengths : Array Nat) : Nat :=
  (weights.toList.zip lengths.toList).foldl (fun n e => n + e.1 * e.2) 0

/-- The lengths of the fixed codes for symbols. Two of them have no symbol. -/
def fixedLengths : Array Nat :=
  (List.replicate 144 8 ++ List.replicate 112 9 ++ List.replicate 24 7 ++
    List.replicate 8 8).toArray

/-- The lengths of the fixed codes for distances. -/
def fixedDistances : Array Nat := Array.replicate distanceCount 5

/-- A code in the description of codes: a symbol, and a number of a width behind it. -/
structure Mark where
  symbol : Nat
  extra : Nat
  width : Nat

/-- How many bits stand behind a symbol in the description of codes. -/
def markWidth (symbol : Nat) : Nat :=
  if symbol == 16 then 2 else if symbol == 17 then 3 else if symbol == 18 then 7 else 0

/-- A symbol for a run, with how much longer it is than the shortest one. -/
def runMark (symbol count shortest : Nat) : Mark := ⟨symbol, count - shortest, markWidth symbol⟩

/-- A length by itself. -/
def plainMark (length : Nat) : Mark := ⟨length, 0, 0⟩

/-- The longest run that is written at once. -/
def runLimit (previous : Option Nat) (length : Nat) : Nat :=
  if length == 0 then 138 else if previous == some length then 6 else 7

def marksOfRun (previous : Option Nat) (length count : Nat) : List Mark :=
  if length == 0 then
    if count < 3 then List.replicate count (plainMark 0)
    else if count ≤ 10 then [runMark 17 count 3]
    else [runMark 18 count 11]
  else if previous == some length then
    if count < 3 then List.replicate count (plainMark length) else [runMark 16 count 3]
  else if count < 4 then List.replicate count (plainMark length)
  else [plainMark length, runMark 16 (count - 1) 3]

/-- The description of codes of these lengths. -/
def marksFrom : (fuel : Nat) → (previous : Option Nat) → List Nat → List Mark
  | 0, _, _ => []
  | _, _, [] => []
  | fuel + 1, previous, length :: r =>
    let more := (r.take (runLimit previous length - 1)).takeWhile (· == length)
    marksOfRun previous length (more.length + 1) ++
      marksFrom fuel (some length) (r.drop more.length)

/-- Lengths without the zeros at the end. -/
def usedLengths (lengths : Array Nat) : List Nat :=
  (lengths.toList.reverse.dropWhile (· == 0)).reverse

/-- The description of codes of these lengths. -/
def marksOf (lengths : List Nat) : List Mark := marksFrom lengths.length none lengths

/-- The order in which the lengths of the codes for lengths are written. -/
def lengthOrder : List Nat :=
  [16, 17, 18, 0, 8, 7, 9, 6, 10, 5, 11, 4, 12, 3, 13, 2, 14, 1, 15]

/-- The codes of a block, and their description. -/
structure Plan where
  symbols : Array Nat
  distances : Array Nat
  marks : List Mark
  /-- The lengths of the codes in the description. -/
  markLengths : Array Nat
  written : List Nat

/-- The codes that fit symbols of these weights. -/
def planOf (weights distances : Array Nat) : Plan :=
  let symbols := codeLengths 15 weights
  let distances := codeLengths 15 distances
  let marks := marksOf (usedLengths symbols) ++ marksOf (usedLengths distances)
  let markLengths := codeLengths 7 (marks.foldl (fun a m => a.modify m.symbol (· + 1))
    (Array.replicate lengthSymbolCount 0))
  let ordered := lengthOrder.map fun s => markLengths.getD s 0
  let written := ordered.take (max 4 (usedLengths ordered.toArray).length)
  ⟨symbols, distances, marks, markLengths, written⟩

/-- How many bits the description of codes needs. -/
def Plan.width (p : Plan) : Nat :=
  p.marks.foldl (fun n m => n + p.markLengths.getD m.symbol 0 + m.width) 0 +
    3 * p.written.length + 14

/-- How many octets a block of this many bits fills, with its start. -/
def octetCount (bits : Nat) : Nat := (bits + 3 + 7) / 8

namespace Bits

def addCode (b : Bits) (codes : Array Code) (symbol : Nat) : Bits :=
  let c := codes.getD symbol default
  b.add c.bits c.width

/-- Add a number as the symbol of its range. -/
def addPlaced (b : Bits) (codes : Array Code) (p : Placed) : Bits :=
  (b.addCode codes p.place).add p.extra p.width

def addToken (symbols distances : Array Code) (b : Bits) : Token → Bits
  | .octet o => b.addCode symbols o.toNat
  | .copy length distance =>
    (b.addPlaced symbols (lengthPlaced length)).addPlaced distances (distancePlaced distance)

/-- Add tokens and the end of a block, under codes of these lengths. -/
def addTokens (b : Bits) (symbols distances : Array Nat) (tokens : List Token) : Bits :=
  let symbols := codesOf symbols
  let distances := codesOf distances
  (tokens.foldl (addToken symbols distances) b).addCode symbols endSymbol

/-- Add a number of sixteen bits as two octets. -/
def addShort (b : Bits) (n : Nat) : Bits := b.add n 16

/-- Add octets as they are. -/
def addStored (b : Bits) (octets : List UInt8) : Bits :=
  let n := octets.length
  ((b.align.addShort n).addShort (0xffff - n)).addOctets octets

/-- Add the description of codes. -/
def addPlan (b : Bits) (p : Plan) : Bits :=
  let b := b.add ((usedLengths p.symbols).length - 257) 5
  let b := b.add ((usedLengths p.distances).length - 1) 5
  let b := b.add (p.written.length - 4) 4
  let b := p.written.foldl (fun b n => b.add n 3) b
  let codes := codesOf p.markLengths
  p.marks.foldl (fun b m => (b.addCode codes m.symbol).add m.extra m.width) b

/-- Add the start of a block: whether it is the last one, and its form. -/
def addStart (b : Bits) (isLast : Bool) (form : Nat) : Bits :=
  b.add ((if isLast then 1 else 0) + 2 * form) 3

def addBlock (b : Bits) (isLast : Bool) (octets : List UInt8) (tokens : List Token) : Bits :=
  let weights := symbolWeights tokens
  let distances := distanceWeights tokens
  let plan := planOf weights distances
  let extra := extraWidth tokens
  let planned := octetCount (codedWidth weights plan.symbols +
    codedWidth distances plan.distances + extra + plan.width)
  let fixed := octetCount (codedWidth weights fixedLengths +
    codedWidth distances fixedDistances + extra)
  if octets.length + 4 ≤ min planned fixed then (b.addStart isLast 0).addStored octets
  else if fixed ≤ planned then
    (b.addStart isLast 1).addTokens fixedLengths fixedDistances tokens
  else ((b.addStart isLast 2).addPlan plan).addTokens plan.symbols plan.distances tokens

/-- Add blocks until there are no tokens left. A full block that ends in a copy is never the last
one. -/
def addBlocks (b : Bits) : (fuel : Nat) → List UInt8 → List Token → Bits
  | 0, _, _ => b
  | fuel + 1, octets, tokens =>
    let block := tokens.take blockLimit
    let endsInCopy := match block.getLast? with
      | some (.copy ..) => true
      | _ => false
    let isFull := block.length == blockLimit
    let rest := tokens.drop blockLimit
    if rest.isEmpty && !(isFull && endsInCopy) then b.addBlock true octets block
    else
      let n := block.foldl (fun n t => n + t.size) 0
      addBlocks (b.addBlock false (octets.take n) block) fuel (octets.drop n) rest

end Bits

end Pagesmith.Deflate

namespace Pagesmith

/-- Compress data. -/
def deflate (octets : List UInt8) : List UInt8 :=
  let tokens := (Deflate.tokens octets.toArray).toList
  (Deflate.Bits.empty.addBlocks (tokens.length / Deflate.blockLimit + 2) octets tokens).align
    |>.octets.toList

end Pagesmith
