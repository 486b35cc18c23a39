import Pagesmith.Proofs.Reading.Inside
import Pagesmith.Proofs.Table
import Pagesmith.Proofs.Text.Character
import Pagesmith.Proofs.Text.Line

/-!
The ways to the nodes inside a node of a schema, and how they are spelled in identifiers: as a row of
numbers and names of properties with an underscore between them. Different ways can be spelled alike,
since a name may hold underscores and digits itself. They are told apart if no name of a slot goes on as a
child of its node is spelled, or as what is in another slot of its node.
-/

namespace Pagesmith
open Text

/-- One step down from a node of a schema: to the child at a place, or to the node at a place of the
slot that a property is. -/
inductive Branch where
  | child (index : Nat)
  | slot (key : String) (index : Nat)
deriving DecidableEq

namespace Branch

/-- How a step is spelled in an identifier. -/
def segments : Branch → List String
  | child index => [toString index]
  | slot key index => [key, toString index]

/-- The identifier that is made for the node behind these steps from a place. -/
def spelled (path : List String) (way : List Branch) : String :=
  "node_" ++ String.intercalate "_" (path ++ way.flatMap segments)

theorem spelled_cons (path : List String) (b : Branch) (way : List Branch) :
    spelled path (b :: way) = spelled (path ++ b.segments) way := by
  rw [spelled, spelled, List.flatMap_cons, List.append_assoc]

end Branch

namespace EditorNode

/-- The node that a step leads to. -/
def next? (n : EditorNode) : Branch → Option EditorNode
  | .child index => (n.children.getD [])[index]?
  | .slot key index => (n.props.lookup key).bind fun p => p.nodes[index]?

/-- The node that a way leads to. -/
def at? (n : EditorNode) : List Branch → Option EditorNode
  | [] => some n
  | b :: r => (n.next? b).bind (·.at? r)

/-- A way leads on over its first step. -/
theorem at?_cons {n : EditorNode} {b : Branch} {r : List Branch} :
    (n.at? (b :: r)).isSome ↔ ∃ n', n.next? b = some n' ∧ (n'.at? r).isSome := by
  simp only [at?, Option.isSome_iff_exists, Option.bind_eq_some_iff]
  constructor
  · rintro ⟨m, n', next, there⟩
    exact ⟨n', next, m, there⟩
  · rintro ⟨n', next, m, there⟩
    exact ⟨m, n', next, there⟩

theorem Everywhere.next {P : EditorNode → Prop} {n n' : EditorNode} (h : n.Everywhere P) {b : Branch}
    (next : n.next? b = some n') : n'.Everywhere P := by
  refine h.inside n' ?_
  cases b with
  | child index => exact List.mem_append_right _ (List.mem_of_getElem? next)
  | slot key index =>
    obtain ⟨p, found, there⟩ := Option.bind_eq_some_iff.1 next
    have carried : n' ∈ p.nodes := List.mem_of_getElem? there
    exact List.mem_append_left _ (List.mem_flatMap.2 ⟨_, Table.mem_of_lookup found, carried⟩)

/-- The names of the properties of a node that are slots with nodes in them. -/
def slotKeys (n : EditorNode) : List String :=
  (n.props.filter fun e => !e.2.nodes.isEmpty).map (·.1)

/-- The name has a number, between underscores or at its end, behind this beginning. -/
def GoesOn (key : String) (before : List (List Char)) : Prop :=
  ∃ (index : Nat) (rest : List (List Char)),
    pieces '_' key.toList = before ++ (toString index).toList :: rest

/-- No slot of the node has a name that starts with a number, or that goes on with one behind the name of
another slot. -/
structure Clear (n : EditorNode) : Prop where
  start : ∀ key ∈ n.slotKeys, ¬ GoesOn key []
  behind : ∀ key ∈ n.slotKeys, ∀ key' ∈ n.slotKeys, ¬ GoesOn key' (pieces '_' key.toList)

end EditorNode

section Spelling

/-- The pieces between the underscores of what steps are spelled as. -/
def spelledPieces (segments : List String) : List (List Char) :=
  segments.flatMap fun s => pieces '_' s.toList

theorem pieces_segments (segments : List String) :
    pieces '_' (segments.flatMap fun s => '_' :: s.toList) = [] :: spelledPieces segments := by
  induction segments with
  | nil => rfl
  | cons s r ih =>
    have first : pieces '_' ('_' :: (s.toList ++ r.flatMap fun s => '_' :: s.toList)) =
        [] :: pieces '_' (s.toList ++ r.flatMap fun s => '_' :: s.toList) := rfl
    rw [List.flatMap_cons, List.cons_append, first]
    cases r with
    | nil => simp [spelledPieces]
    | cons t r =>
      rw [List.flatMap_cons, List.cons_append] at ih ⊢
      have more := List.cons.inj ih
      rw [pieces_append]
      exact congrArg _ (congrArg _ more.2)

theorem toList_intercalate (s : String) (r : List String) :
    (String.intercalate "_" (s :: r)).toList = s.toList ++ r.flatMap fun t => '_' :: t.toList := by
  induction r generalizing s with
  | nil => simp
  | cons t r ih =>
    rw [String.intercalate_cons_cons, String.toList_append, String.toList_append, ih]
    simp

theorem toList_spelled (index : Nat) (way : List Branch) :
    (Branch.spelled [toString index] way).toList = "node_".toList ++ ((toString index).toList ++
      (way.flatMap Branch.segments).flatMap fun s => '_' :: s.toList) := by
  rw [Branch.spelled, String.toList_append, List.singleton_append, toList_intercalate]

theorem pieces_number (n : Nat) : pieces '_' (toString n).toList = [(toString n).toList] :=
  pieces_whole fun mem => absurd (isDigit_toString n _ mem) (by decide)

theorem spelledPieces_child (index : Nat) (way : List Branch) :
    spelledPieces ((.child index :: way).flatMap Branch.segments) =
      (toString index).toList :: spelledPieces (way.flatMap Branch.segments) := by
  simp only [spelledPieces, List.flatMap_cons, Branch.segments, List.flatMap_append, List.flatMap_nil,
    List.append_nil, pieces_number]
  rfl

theorem spelledPieces_slot (key : String) (index : Nat) (way : List Branch) :
    spelledPieces ((.slot key index :: way).flatMap Branch.segments) =
      pieces '_' key.toList ++ (toString index).toList ::
        spelledPieces (way.flatMap Branch.segments) := by
  simp only [spelledPieces, List.flatMap_cons, Branch.segments, List.flatMap_append, List.flatMap_nil,
    List.append_nil, pieces_number, List.append_assoc]
  rfl

theorem spelledPieces_cons_ne_nil (b : Branch) (way : List Branch) :
    spelledPieces ((b :: way).flatMap Branch.segments) ≠ [] := by
  cases b with
  | child index =>
    rw [spelledPieces_child]
    exact List.cons_ne_nil _ _
  | slot key index =>
    rw [spelledPieces_slot]
    simp

/-- The pieces of an identifier tell what it spells, up to where the names of properties end. -/
theorem spelledPieces_of_spelled {index : Nat} {way way' : List Branch}
    (same : Branch.spelled [toString index] way = Branch.spelled [toString index] way') :
    spelledPieces (way.flatMap Branch.segments) = spelledPieces (way'.flatMap Branch.segments) := by
  have texts := congrArg String.toList same
  rw [toList_spelled, toList_spelled] at texts
  have behind := List.append_cancel_left (List.append_cancel_left texts)
  have cut := congrArg (pieces '_') behind
  rw [pieces_segments, pieces_segments] at cut
  exact (List.cons.inj cut).2

end Spelling

namespace EditorNode

variable {n : EditorNode}

theorem mem_slotKeys {key : String} {index : Nat} {n' : EditorNode}
    (next : n.next? (.slot key index) = some n') : key ∈ n.slotKeys := by
  obtain ⟨p, found, there⟩ := Option.bind_eq_some_iff.1 next
  refine List.mem_map.2 ⟨(key, p), List.mem_filter.2 ⟨Table.mem_of_lookup found, ?_⟩, rfl⟩
  have carried : p.nodes ≠ [] := List.ne_nil_of_mem (List.mem_of_getElem? there)
  simpa using carried

/-- What slots are spelled as does not end before a number, if one is spelled like another further on. -/
theorem Clear.slot_eq (clear : n.Clear) {key key' : String} (mem : key ∈ n.slotKeys)
    (mem' : key' ∈ n.slotKeys) {index index' : Nat} {rest rest' : List (List Char)}
    (same : pieces '_' key.toList ++ (toString index).toList :: rest =
      pieces '_' key'.toList ++ (toString index').toList :: rest') :
    key = key' ∧ index = index' ∧ rest = rest' := by
  obtain ⟨more, longer, left⟩ | ⟨more, longer, left⟩ := List.append_eq_append_iff.1 same
  · cases more with
    | nil =>
      have keys : key = key' := String.toList_inj.1 (pieces_inj (by simpa using longer.symm))
      obtain ⟨digits, others⟩ := List.cons.inj left
      exact ⟨keys, toString_inj digits, others⟩
    | cons piece more =>
      obtain ⟨rfl, -⟩ := List.cons.inj left
      exact absurd ⟨index, more, longer⟩ (clear.behind key mem key' mem')
  · cases more with
    | nil =>
      have keys : key = key' := String.toList_inj.1 (pieces_inj (by simpa using longer))
      obtain ⟨digits, others⟩ := List.cons.inj left
      exact ⟨keys, toString_inj digits.symm, others.symm⟩
    | cons piece more =>
      obtain ⟨rfl, -⟩ := List.cons.inj left
      exact absurd ⟨index', more, longer⟩ (clear.behind key' mem' key mem)

/-- A slot is not spelled as a child is. -/
theorem Clear.child_ne (clear : n.Clear) {key : String} (mem : key ∈ n.slotKeys) {index : Nat}
    {rest rest' : List (List Char)}
    (same : (toString index).toList :: rest = pieces '_' key.toList ++ rest') : False := by
  obtain ⟨first, more, found⟩ := List.exists_cons_of_ne_nil (pieces_ne_nil '_' key.toList)
  rw [found, List.cons_append] at same
  obtain ⟨rfl, -⟩ := List.cons.inj same
  exact clear.start key mem ⟨index, more, found⟩

/-- Different ways through a node whose slots are clear everywhere are spelled differently. -/
theorem Everywhere.way_eq (clear : n.Everywhere Clear) {way way' : List Branch}
    (there : (n.at? way).isSome) (there' : (n.at? way').isSome)
    (same : spelledPieces (way.flatMap Branch.segments) =
      spelledPieces (way'.flatMap Branch.segments)) : way = way' := by
  induction way generalizing n way' with
  | nil =>
    cases way' with
    | nil => rfl
    | cons b r => exact absurd same.symm (spelledPieces_cons_ne_nil b r)
  | cons b r ih =>
    cases way' with
    | nil => exact absurd same (spelledPieces_cons_ne_nil b r)
    | cons b' r' =>
      obtain ⟨n₁, next, there⟩ := at?_cons.1 there
      obtain ⟨n₂, next', there'⟩ := at?_cons.1 there'
      suffices first : b = b' ∧ spelledPieces (r.flatMap Branch.segments) =
          spelledPieces (r'.flatMap Branch.segments) by
        obtain ⟨rfl, rest⟩ := first
        obtain rfl := Option.some.inj (next.symm.trans next')
        rw [ih (clear.next next) there there' rest]
      cases b with
      | child index =>
        cases b' with
        | child index' =>
          rw [spelledPieces_child, spelledPieces_child] at same
          obtain ⟨digits, rest⟩ := List.cons.inj same
          exact ⟨congrArg _ (toString_inj digits), rest⟩
        | slot key' index' =>
          rw [spelledPieces_child, spelledPieces_slot] at same
          exact (clear.here.child_ne (mem_slotKeys next') same).elim
      | slot key index =>
        cases b' with
        | child index' =>
          rw [spelledPieces_child, spelledPieces_slot] at same
          exact (clear.here.child_ne (mem_slotKeys next) same.symm).elim
        | slot key' index' =>
          rw [spelledPieces_slot, spelledPieces_slot] at same
          obtain ⟨rfl, rfl, rest⟩ :=
            clear.here.slot_eq (mem_slotKeys next) (mem_slotKeys next') same
          exact ⟨rfl, rest⟩

end EditorNode

end Pagesmith
