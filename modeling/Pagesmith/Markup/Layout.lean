import Pagesmith.Markup.Basic
import Pagesmith.Script.Statement

/-!
Layout of markup on lines. An opening tag stays on one line while it fits the width, and has each
attribute on a line of its own otherwise; a lone text or code child stays between its tags if the
whole fits.
-/

namespace Pagesmith.Markup

/-- An opening tag on one line, without indentation. -/
def openingLine (tag : String) (attributes : List String) (ending : String) : String :=
  "<" ++ tag ++ String.join (attributes.map (" " ++ ·)) ++ ending

def opening (width : Nat) (indent tag : String) (attributes : List Attribute) (selfClosing : Bool) :
    List String :=
  let texts := attributes.map Attribute.render
  let single := openingLine tag texts (if selfClosing then " />" else ">")
  if indent.length + single.length ≤ width && !single.toList.contains '\n' then [indent ++ single]
  else
    (indent ++ "<" ++ tag) ::
      (texts.flatMap Text.lines).map (indent ++ Script.indentStep ++ ·) ++
      [indent ++ (if selfClosing then "/>" else ">")]

/-- A text or code child between its tags. -/
def inlineText? : Markup → Option String
  | element .. => none
  | text t => some t
  | code c => some ("\x7b" ++ c ++ "\x7d")

/-- The whole element on one line, if it has one inline child and fits. -/
def compact? (width : Nat) (start : List String) (tag : String) (children : List Markup) :
    Option String :=
  match start, children with
  | [line], [child] =>
    (child.inlineText?).bind fun inline =>
      let whole := line ++ inline ++ "</" ++ tag ++ ">"
      if whole.length ≤ width then some whole else none
  | _, _ => none

mutual

/-- The lines of a markup tree. -/
def layout (width : Nat) (indent : String) : Markup → List String
  | text t => [indent ++ t]
  | code c => [indent ++ "\x7b" ++ c ++ "\x7d"]
  | element tag attributes [] => opening width indent tag attributes true
  | element tag attributes (child :: children) =>
    let start := opening width indent tag attributes false
    match compact? width start tag (child :: children) with
    | some line => [line]
    | none =>
      start ++ layouts width (indent ++ Script.indentStep) (child :: children) ++
        [indent ++ "</" ++ tag ++ ">"]

/-- The lines of several markup trees, one after the other. -/
def layouts (width : Nat) (indent : String) : List Markup → List String
  | [] => []
  | m :: r => layout width indent m ++ layouts width indent r

end

/-- The text of a markup tree, indented by `depth` steps. -/
def render (width depth : Nat) (m : Markup) : String :=
  Text.unlines (layout width (Script.indentation depth) m)

/-- The text of a markup tree, indented by `depth` steps, if they can be made. -/
def render? (width : Nat) (depth : Int) (m : Markup) : Except Fault String := do
  Text.checkCopies Script.indentStep.length depth
  pure (render width depth.toNat m)

end Pagesmith.Markup
