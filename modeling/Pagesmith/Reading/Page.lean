import Pagesmith.Reading.Node
import Pagesmith.Schema

/-!
Pages of a schema: one for each top-level node that is a page, or one for the first node if none
is. The first page is the index; every other page is called by its file name or title, with a
number behind it if its component name is taken.
-/

namespace Pagesmith.Reading

/-- The component that makes a page of a top-level node. -/
def pageComponent : String := "Page"

/-- The file name of the first page. -/
def indexPage : String := "index"

/-- A text property that is not empty as a slug. -/
def slugProp? (n : EditorNode) (key : String) : Option String :=
  match n.prop? key with
  | some (.str s) => givenText (some (Text.slug s))
  | _ => none

/-- What a page is called if the name is free. -/
def pageBase (n : EditorNode) (index : Nat) : String :=
  if index == 0 then indexPage
  else match slugProp? n "fileName" with
    | some s => s
    | none => (slugProp? n "title").getD ("page_" ++ toString index)

/-- The first numbered name from `counter` on whose component name is free. -/
def numberedName (used : List String) (base : String) : (more : Nat) → (counter : Nat) → String
  | 0, counter => base ++ "_" ++ toString counter
  | more + 1, counter =>
    let name := base ++ "_" ++ toString counter
    if used.contains (Text.pascalCase name) then numberedName used base more (counter + 1)
    else name

/-- The file name of a page. Different numbers give different component names, so one of the
first `used.length + 1` is free. -/
def pageFileName (used : List String) (base : String) : String :=
  if used.contains (Text.pascalCase base) then numberedName used base used.length 2 else base

def pageTitle (n : EditorNode) : Option String :=
  (n.prop? "title").bind Value.str?

/-- Pages for top-level nodes, counted from `index` on; `used` are the component names taken. -/
def pages (c : Catalogue) (used : List String) (index : Nat) : List EditorNode → Job (List Page)
  | [] => pure []
  | n :: r => do
    let (root, dependencies) ← (node c [toString index] n).run []
    let fileName := pageFileName used (pageBase n index)
    let page : Page :=
      { id := root.layer.id, fileName := fileName, root := root, dependencies := dependencies
        states := [], methods := [], title := pageTitle n }
    let rest ← pages c (Text.pascalCase fileName :: used) (index + 1) r
    pure (page :: rest)

/-- The schema has no node. -/
def emptyNotice : Notice := .plain channel .warning "Schema is empty; no pages generated"

/-- The schema has no page. -/
def rootlessNotice (name : String) : Notice :=
  .plain channel .warning
    ("No Page root in schema; using the first node " ++ Text.quoted name)

def project (c : Catalogue) (schema : Value) : Job Project := do
  let nodes ← Job.ofExcept (Schema.read schema)
  match nodes with
  | [] => do
    Job.note emptyNotice
    pure ⟨[], c.packages⟩
  | first :: _ => do
    let roots := nodes.filter (·.name == pageComponent)
    let roots ← if roots.isEmpty then do
        Job.note (rootlessNotice first.name)
        pure [first]
      else pure roots
    return ⟨← pages c [] 0 roots, c.packages⟩

end Pagesmith.Reading
