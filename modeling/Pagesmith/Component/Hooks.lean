import Pagesmith.Component.Element
import Pagesmith.Page.Sheet

/-!
Components with hooks of their own. A hook is a program that is given the properties of a node and the node: one
finds the tag, one the properties that are written, and one may write into the module and give further properties.
Hooks may bring in nodes that were never read, so a page is written down to a depth only.
-/

namespace Pagesmith.Component

/-- What lies before the hooks of a component, each of which may change all of it. -/
structure Desk where
  /-- The properties that the hooks are given. -/
  props : List (String × PropOf Node)
  /-- The properties that are written. -/
  written : List (String × PropOf Node)
  node : NodeOf Node

/-- The hooks of a component. -/
structure Hooks where
  tag : StateT Desk Job String
  props : StateT Desk Job (List (String × PropOf Node))
  /-- Write into the module, and give properties that take the places of others. -/
  logic : StateT Desk Build (Option (List (String × PropOf Node)))

namespace Hooks

/-- A rule of the catalogue as hooks. -/
def ofRendering (rule : Rendering) : Hooks where
  tag desk := do
    let tag ← Catalogue.tag rule.tag desk.props
    pure (tag, desk)
  props desk := pure (Catalogue.written Node.shown rule.steps desk.node.id desk.props, desk)
  logic desk := do
    match rowsAddress rule desk.node with
    | some url =>
      let state ← loadRows desk.node.id url
      pure (some [("dataSource", .reference state)], desk)
    | none => pure (none, desk)

/-- Call the hooks for a node, one after the other: the tag, and what lies before them in the end. -/
def call (h : Hooks) (node : NodeOf Node) : Build (String × Desk) := do
  let (tag, desk) ← Build.ofJob (h.tag ⟨node.props, [], node⟩)
  let (written, desk) ← Build.ofJob (h.props desk)
  let (more, desk) ← h.logic { desk with written := written }
  pure (tag, { desk with written := Table.insertAll desk.written (more.getD []) })

end Hooks

/-- The hooks for a node: those of its component, if it has any, or else the rule of the catalogue. -/
def Writer.hooks (w : Writer) (own : List (String × Hooks)) (node : NodeOf Node) : Hooks :=
  match own.lookup (if node.schemaName == "" then node.component else node.schemaName) with
  | some h => h
  | none => .ofRendering (w.rule node)

/-- The element of a node, with elements inside it down to a depth. -/
def hookedElement (w : Writer) (own : List (String × Hooks)) : (depth : Nat) → Node → Build Markup
  | 0, _ => Build.ofJob (Job.fail .endlessSlot)
  | depth + 1, n => do
    let (tag, desk) ← (w.hooks own n.layer).call n.layer
    let part (n : Node) : Part := ⟨fun _ => n.shown, hookedElement w own depth n⟩
    elementAs w tag (desk.node.map part) (desk.written.map fun e => (e.1, e.2.map part))

/-- Write the states, functions and markup of a page whose components may have hooks. -/
def writeHooked (w : Writer) (own : List (String × Hooks)) (depth : Nat) (p : Page) : Build Unit :=
  writePage w p (hookedElement w own depth p.root)

end Pagesmith.Component
