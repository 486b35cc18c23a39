/-!
Codes for symbols: the more often a symbol is used, the fewer bits it has. The two lightest trees
are joined until there is one; of trees of one weight the lower one counts as lighter. Where a
code would be longer than allowed, the lengths are moved as little as possible, and the longest
ones go to the symbols that were joined first.
-/

namespace Pagesmith.Deflate

/-- A tree over symbols, with how often they are used. -/
inductive Tree where
  | leaf (weight symbol : Nat)
  | fork (weight height : Nat) (left right : Tree)
deriving Inhabited

namespace Tree

/-- How often the symbols of a tree are used. -/
def weight : Tree → Nat
  | leaf w _ => w
  | fork w _ _ _ => w

def height : Tree → Nat
  | leaf .. => 0
  | fork _ h _ _ => h

/-- A tree is not behind another one in the order of joining. -/
def isLighter (a b : Tree) : Bool :=
  a.weight < b.weight || (a.weight == b.weight && a.height ≤ b.height)

def join (a b : Tree) : Tree :=
  fork (a.weight + b.weight) (max a.height b.height + 1) a b

/-- The symbol of a leaf. -/
def symbols : Tree → List Nat
  | leaf _ s => [s]
  | fork .. => []

/-- The symbols with their depths. -/
def depths : (depth : Nat) → Tree → List (Nat × Nat)
  | depth, leaf _ s => [(s, depth)]
  | depth, fork _ _ a b => depths (depth + 1) a ++ depths (depth + 1) b

/-- How many trees in a tree are deeper than a limit. -/
def tooDeep (limit : Nat) : (depth : Nat) → Tree → Nat
  | depth, leaf .. => if limit < depth then 1 else 0
  | depth, fork _ _ a b =>
    (if limit < depth then 1 else 0) + tooDeep limit (depth + 1) a + tooDeep limit (depth + 1) b

end Tree

/-- The place of the lighter one of the trees below a place of a heap. -/
def lighterBelow (heap : Array Tree) (place : Nat) : Nat :=
  let left := 2 * place + 1
  let right := left + 1
  if right < heap.size && (heap.getD right default).isLighter (heap.getD left default) then right
  else left

theorem lt_lighterBelow (heap : Array Tree) (place : Nat) : place < lighterBelow heap place := by
  simp only [lighterBelow]
  split <;> omega

/-- Put a tree into a heap at a place, or below it where it is not lighter than what is there. -/
def sink (heap : Array Tree) (place : Nat) (t : Tree) : Array Tree :=
  let child := lighterBelow heap place
  if child < heap.size then
    let below := heap.getD child default
    if t.isLighter below then heap.setIfInBounds place t
    else sink (heap.setIfInBounds place below) child t
  else heap.setIfInBounds place t
termination_by heap.size - place
decreasing_by
  have := lt_lighterBelow heap place
  simp only [Array.size_setIfInBounds]
  omega

def heapOf (trees : Array Tree) : Array Tree :=
  (List.range (trees.size / 2)).reverse.foldl (fun h k => sink h k (h.getD k default)) trees

/-- Take the lightest tree out of a heap. -/
def pop (heap : Array Tree) : Tree × Array Tree :=
  (heap.getD 0 default, sink heap.pop 0 (heap.getD (heap.size - 1) default))

/-- Join the two lightest trees of a heap some times: what is left, and the symbols behind `taken`
in the order in which they were taken. -/
def joinTimes : (count : Nat) → Array Tree → (taken : List Nat) → Tree × List Nat
  | 0, heap, taken => (heap.getD 0 default, taken)
  | count + 1, heap, taken =>
    let (a, heap) := pop heap
    let b := heap.getD 0 default
    joinTimes count (sink heap 0 (a.join b)) (taken ++ a.symbols ++ b.symbols)

/-- The symbols that are used. There are always two of them. -/
def leaves (weights : Array Nat) : Array Tree :=
  let used := (List.range weights.size).filterMap fun s =>
    let w := weights.getD s 0
    if w == 0 then none else some (s, w)
  let used := match used with
    | [] => [(0, 1), (1, 1)]
    | [(s, w)] => [(s, w), (if s < 2 then s + 1 else 0, 1)]
    | used => used
  (used.map fun u => Tree.leaf u.2 u.1).toArray

/-- How many codes there are of each length. -/
def countsOf (limit : Nat) (lengths : List Nat) : Array Nat :=
  lengths.foldl (fun counts n => counts.modify (min n limit) (· + 1))
    (Array.replicate (limit + 1) 0)

/-- The greatest length up to one that there are codes of. -/
def lengthBelow (counts : Array Nat) : Nat → Nat
  | 0 => 0
  | n + 1 => if counts.getD (n + 1) 0 == 0 then lengthBelow counts n else n + 1

/-- Move a code below a shorter one, which makes room for it and one of the longest. -/
def moveDown (limit : Nat) (counts : Array Nat) : Array Nat :=
  let n := lengthBelow counts (limit - 1)
  ((counts.modify n (· - 1)).modify (n + 1) (· + 2)).modify limit (· - 1)

/-- The lengths that there are codes of, the longest first. -/
def lengthsDown (counts : Array Nat) : Nat → List Nat
  | 0 => []
  | n + 1 => List.replicate (counts.getD (n + 1) 0) (n + 1) ++ lengthsDown counts n

/-- The lengths of the codes for symbols of these weights; zero for those that are not used. -/
def codeLengths (limit : Nat) (weights : Array Nat) : Array Nat :=
  let trees := leaves weights
  let (tree, taken) := joinTimes (trees.size - 1) (heapOf trees) []
  let depths := tree.depths 0
  let excess := tree.tooDeep limit 0
  let lengths :=
    if excess == 0 then depths
    else
      let counts := Nat.repeat (moveDown limit) ((excess + 1) / 2)
        (countsOf limit (depths.map (·.2)))
      taken.zip (lengthsDown counts limit)
  lengths.foldl (fun a e => a.setIfInBounds e.1 e.2) (Array.replicate weights.size 0)

/-- A code: its bits, the first one lowest, and how many they are. -/
structure Code where
  bits : Nat
  width : Nat
deriving Inhabited

/-- The bits of a number in reverse order. -/
def reversedBits : (width : Nat) → Nat → Nat
  | 0, _ => 0
  | width + 1, n => n % 2 * Nat.pow 2 width + reversedBits width (n / 2)

/-- The first code of each length, from a length on. -/
def firstCodes (counts : Array Nat) : (count : Nat) → (length first : Nat) → List Nat
  | 0, _, _ => []
  | count + 1, length, first =>
    first :: firstCodes counts count (length + 1) ((first + counts.getD length 0) * 2)

/-- Codes of these lengths: the shorter ones first, those of one length in the order of their
symbols. -/
def codesOf (lengths : Array Nat) : Array Code :=
  let longest := lengths.foldl max 0
  let counts := (countsOf longest lengths.toList).setIfInBounds 0 0
  let first := (firstCodes counts (longest + 1) 0 0).toArray
  (lengths.foldl (fun (codes, next) n =>
    if n == 0 then (codes.push ⟨0, 0⟩, next)
    else (codes.push ⟨reversedBits n (next.getD n 0), n⟩, next.modify n (· + 1)))
    ((#[] : Array Code), first)).1

end Pagesmith.Deflate
