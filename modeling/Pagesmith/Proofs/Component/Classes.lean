import Pagesmith.Component.Styles
import Pagesmith.Module.Text
import Pagesmith.Proofs.Module.Building
import Pagesmith.Proofs.Page.Walk
import Pagesmith.Proofs.Table
import Pagesmith.Proofs.Text.Name

/-!
The style sheet of a page. Every styled node gets a class, but the class is named after the node's
identifier as it reads in a name, so nodes whose identifiers read alike share one rule, and the last
of them in the walk writes it.
-/

namespace Pagesmith

namespace Node

/-- The style entries of a node. -/
def styling (n : Node) : List (String × Value) := n.layer.styles.getD []

/-- The nodes of a tree that have styles. -/
def styled (root : Node) : List Node := root.walk.filter fun n => !n.styling.isEmpty

/-- The last styled node of a tree whose class has this name. -/
def lastStyled? (root : Node) (className : String) : Option Node :=
  (root.styled.filter fun n => Text.className n.layer.id == className).getLast?

end Node

namespace Module

/-- The rules of the style sheet: each class with its declarations. -/
def rules (m : Module) : List (String × List String) :=
  Table.mapValues Style.declarations m.classes

/-- A style sheet of these rules, one after the other. -/
def sheetText (rules : List (String × List String)) : String :=
  if rules.isEmpty then ""
  else String.intercalate "\n\n"
    (rules.map fun r => "." ++ r.1 ++ " \x7b\n" ++ Text.unlines r.2 ++ "\n\x7d") ++ "\n"

theorem stylesheetText_eq (m : Module) : m.stylesheetText = sheetText m.rules := by
  simp only [stylesheetText, sheetText, rules, Table.mapValues, List.isEmpty_map, List.map_map]
  rfl

/-- Every styled node has a class, its rule says what the node's styles say, and no other styled
node has it. -/
structure KeepsStyles (m : Module) (root : Node) : Prop where
  own : ∀ n ∈ root.styled, ∃ c, m.nodeClasses.lookup n.layer.id = some c ∧
    m.rules.lookup c = some (Style.declarations n.styling)
  apart : ∀ n ∈ root.styled, ∀ n' ∈ root.styled, n.layer.id ≠ n'.layer.id →
    m.nodeClasses.lookup n.layer.id ≠ m.nodeClasses.lookup n'.layer.id

end Module

namespace Component
open Pagesmith.Module Text

theorem styledNodes_eq (root : Node) :
    styledNodes root = root.styled.map fun n => (n.layer.id, n.styling) := by
  rw [styledNodes, Node.styled]
  induction root.walk with
  | nil => rfl
  | cons n r ih =>
    rw [List.filterMap_cons, List.filter_cons, ih]
    cases styles : n.layer.styles with
    | none => simp [Node.styling, styles]
    | some entries => cases entries <;> simp [Node.styling, styles]

/-- The class entries of a tree, in the order of the walk. -/
def classEntries (root : Node) : List (String × List (String × Value)) :=
  root.styled.map fun n => (className n.layer.id, n.styling)

/-- The styled nodes of a tree with the names of their classes. -/
def classNames (root : Node) : List (String × String) :=
  root.styled.map fun n => (n.layer.id, className n.layer.id)

/-- The module with a class for each of these nodes. -/
theorem foldl_addClass (ns : List Node) (m : Module) :
    ((ns.map fun n => (n.layer.id, n.styling)).foldl
      (fun m s => m.addClass (className s.1) s.2 (some s.1)) m) =
    { m with
      classes := Table.insertAll m.classes (ns.map fun n => (className n.layer.id, n.styling))
      nodeClasses :=
        Table.insertAll m.nodeClasses (ns.map fun n => (n.layer.id, className n.layer.id)) } := by
  induction ns generalizing m with
  | nil => rfl
  | cons n r ih =>
    rw [List.map_cons, List.foldl_cons, ih]
    rfl

theorem addStyles_tables (root : Node) (m : Module) :
    (addStyles root m).classes = Table.insertAll m.classes (classEntries root) ∧
      (addStyles root m).nodeClasses = Table.insertAll m.nodeClasses (classNames root) := by
  simp only [addStyles, styledNodes_eq, foldl_addClass, classEntries, classNames]
  split <;> exact ⟨rfl, rfl⟩

theorem lookup_classNames {root n : Node} (mem : n ∈ root.styled) :
    (Table.insertAll [] (classNames root)).lookup n.layer.id = some (className n.layer.id) := by
  rw [Table.lookup_insertAll, classNames, ← List.map_reverse, Table.lookup_map, List.lookup_nil,
    Option.or_none, Option.map_eq_some_iff]
  -- A node behind `n` may have written the entry, but only one with the same identifier, and so with
  -- the same class.
  have found : n ∈ root.styled.reverse.filter fun x => x.layer.id == n.layer.id :=
    List.mem_filter.2 ⟨List.mem_reverse.2 mem, beq_self_eq_true _⟩
  obtain ⟨x, r, same⟩ := List.exists_cons_of_ne_nil (List.ne_nil_of_mem found)
  have first : x ∈ root.styled.reverse.filter fun x => x.layer.id == n.layer.id := by simp [same]
  refine ⟨x, by rw [same, List.head?_cons], ?_⟩
  rw [eq_of_beq (List.mem_filter.1 first).2]

theorem lookup_classEntries (root : Node) (name : String) :
    (Table.insertAll [] (classEntries root)).lookup name =
      (root.lastStyled? name).map Node.styling := by
  rw [Table.lookup_insertAll, classEntries, ← List.map_reverse, Table.lookup_map, List.lookup_nil,
    List.filter_reverse, List.head?_reverse, Option.or_none]
  rfl

/-- The styled nodes whose identifiers read alike are one and the same. -/
def ReadsApart (root : Node) : Prop :=
  ∀ n ∈ root.styled, ∀ n' ∈ root.styled, ReadsAlike n.layer.id n'.layer.id →
    n.layer.id = n'.layer.id

theorem lastStyled?_of_readsApart {root n : Node} (distinct : root.DistinctIds)
    (apart : ReadsApart root) (mem : n ∈ root.styled) :
    root.lastStyled? (className n.layer.id) = some n := by
  have alone : ∀ n' ∈ root.styled.filter fun n' => className n'.layer.id == className n.layer.id,
      n' = n := by
    intro n' found
    obtain ⟨mem', same⟩ := List.mem_filter.1 found
    have id := apart n' mem' n mem (className_inj.1 (eq_of_beq same))
    exact List.inj_on_of_nodup_map distinct (List.mem_of_mem_filter mem')
      (List.mem_of_mem_filter mem) id
  have found : n ∈ root.styled.filter fun n' => className n'.layer.id == className n.layer.id :=
    List.mem_filter.2 ⟨mem, beq_self_eq_true _⟩
  rw [Node.lastStyled?, List.getLast?_eq_some_getLast (List.ne_nil_of_mem found)]
  exact congrArg some (alone _ (List.getLast_mem _))

/-- What is left of the styles of a page in its module. -/
structure Sheet (root : Node) (m : Module) : Prop where
  text : m.stylesheetText = sheetText m.rules
  once : (m.rules.map (·.1)).Nodup
  node : ∀ n ∈ root.styled, m.nodeClasses.lookup n.layer.id = some (className n.layer.id)
  rule : ∀ name, m.rules.lookup name =
    (root.lastStyled? name).map fun n => Style.declarations n.styling

theorem addStyles_sheet (root : Node) (name : String) :
    Sheet root (addStyles root (new name)) := by
  obtain ⟨classes, nodeClasses⟩ := addStyles_tables root (new name)
  refine ⟨stylesheetText_eq _, ?_, ?_, ?_⟩
  · have none : Table.Keyed (fun _ => True) ([] : List (String × List (String × Value))) :=
      ⟨List.nodup_nil, fun _ _ => trivial⟩
    have keyed := Table.keyed_insertAll none (classEntries root) fun _ _ => trivial
    rw [rules, classes, Table.mapValues, List.map_map]
    exact keyed.1
  · intro n mem
    rw [nodeClasses]
    exact lookup_classNames mem
  · intro name
    rw [rules, Table.lookup_mapValues, classes]
    change ((Table.insertAll [] (classEntries root)).lookup name).map _ = _
    rw [lookup_classEntries, Option.map_map]
    rfl

theorem Sheet.keepsStyles_iff {root : Node} {m : Module} (h : Sheet root m)
    (distinct : root.DistinctIds) : m.KeepsStyles root ↔ ReadsApart root := by
  constructor
  · intro kept n mem n' mem' alike
    by_contra other
    refine kept.apart n mem n' mem' other ?_
    rw [h.node n mem, h.node n' mem', className_inj.2 alike]
  · intro apart
    refine ⟨fun n mem => ⟨className n.layer.id, h.node n mem, ?_⟩, ?_⟩
    · rw [h.rule, lastStyled?_of_readsApart distinct apart mem]
      rfl
    · intro n mem n' mem' other
      rw [h.node n mem, h.node n' mem']
      exact fun same => other (apart n mem n' mem' (className_inj.1 (Option.some.inj same)))

/-- For every page whose nodes have distinct identifiers: the style sheet gives each styled node a
class, each class once, with the declarations of the last styled node that has it. Every styled node
has a rule of its own, with its own declarations, exactly if no two styled nodes have identifiers
that read alike. -/
theorem writeStyles_keeps_iff (p : Page) (distinct : p.root.DistinctIds) (name : String)
    (log : List Notice) : ∃ m said, writeStyles p (new name) log = ((.ok (), m), said) ∧
      Sheet p.root m ∧ (m.KeepsStyles p.root ↔ ReadsApart p.root) := by
  have sheet := addStyles_sheet p.root name
  have keeps := sheet.keepsStyles_iff distinct
  by_cases none : (styledNodes p.root).length != 0
  · refine ⟨_, log ++ [stylesNotice (styledNodes p.root).length p.fileName], ?_, sheet, keeps⟩
    simp only [writeStyles, none, if_true]
    rfl
  · refine ⟨_, log, ?_, sheet, keeps⟩
    simp only [writeStyles, none]
    rfl

/-- A card in one color. -/
def colored (id color : String) : Node :=
  .mk ⟨id, "Card", Dependency.none, [], "Card", none, some [("color", .str color)], none⟩

/-- A page of two cards whose identifiers differ in a character that no name can hold. -/
def twinCards : Page :=
  { id := "1", fileName := "index"
    root := .mk ⟨"1", "Page", Dependency.none, [], "Page",
      some [colored "a-b" "red", colored "a_b" "blue"], none, none⟩
    dependencies := [], states := [], methods := [], title := none }

/-- The two cards share a rule, and the first is blue. -/
theorem twinCards_share_rule : twinCards.root.DistinctIds ∧
    ∃ m said, writeStyles twinCards (new "Index") [] = ((.ok (), m), said) ∧
      m.nodeClasses.lookup "a-b" = some "node_a_b" ∧
      m.rules.lookup "node_a_b" = some ["  color: blue;"] ∧ ¬ m.KeepsStyles twinCards.root := by
  have distinct : twinCards.root.DistinctIds := by
    rw [Node.DistinctIds]
    decide
  obtain ⟨m, said, run, sheet, keeps⟩ := writeStyles_keeps_iff twinCards distinct "Index" []
  have first : colored "a-b" "red" ∈ twinCards.root.styled := .head _
  have second : colored "a_b" "blue" ∈ twinCards.root.styled := .tail _ (.head _)
  have last : twinCards.root.lastStyled? "node_a_b" = some (colored "a_b" "blue") := by rfl
  refine ⟨distinct, m, said, run, ?_, ?_, ?_⟩
  · exact sheet.node _ first
  · rw [sheet.rule, last]
    rfl
  · rw [keeps]
    exact fun apart => absurd (apart _ first _ second (by decide)) (by decide)

end Component
end Pagesmith
