import Pagesmith.Proofs.Job
import Pagesmith.Proofs.Markup.Tag
import Pagesmith.Proofs.Value.Data

/-!
Literals in markup, decoded. A quoted text and plain text stand for themselves where nothing in them has a meaning
of its own, and code stands for the value that is read from it. Whichever of them is taken for a value, it decodes
to that value.
-/

namespace Pagesmith

/-- The value that an attribute stands for: a bare name for `true`, a quoted text for itself if nothing in it ends it
or is taken for something else, and code for the value that is read from it. -/
def AttributeBody.decode? : AttributeBody → Option Value
  | .bare => some (.bool true)
  | .quoted t => if t.toList.any fun c => ['"', '&', '\n', '\r'].contains c then none else some (.str t)
  | .code s => (Value.Reader.document none s.toList).toOption

/-- The value that a child stands for: plain text for itself if it has no blanks around it and nothing in it is taken
for something else, and code for the value that is read from it. -/
def Markup.decode? : Markup → Option Value
  | .text t =>
    if Text.trim t ≠ t ∨ t.toList.any fun c => ['\x7b', '\x7d', '<', '>', '&', '\n', '\r'].contains c then none
    else some (.str t)
  | .code s => (Value.Reader.document none s.toList).toOption
  | .element .. => none

/-- The attribute says this value: it decodes to it, where it ends can be told, and it is a quoted text exactly for a
text without special characters. -/
structure Attribute.Says (a : Attribute) (v : Value) : Prop where
  decodes : a.body.decode? = some v
  ends : ∀ rest : List Char, (∀ c ∈ rest.head?, c ≠ '=') →
    Markup.readBody (a.body.text.toList ++ rest) = some (a.body, rest)
  quoted : ∀ t, a.body = .quoted t ↔
    v = .str t ∧ ∀ c ∈ ['"', '&', '\n', '\r', '\x7b', '\x7d', '<', '>'], c ∉ t.toList
  valued : a.body ≠ .bare

/-- The child says this value: it decodes to it, it is plain text exactly for a text without special characters and
without blanks around it, and where its code ends can be told. -/
structure Markup.Says (m : Markup) (v : Value) : Prop where
  decodes : m.decode? = some v
  plain : ∀ t, m = .text t ↔
    v = .str t ∧ Text.trim t = t ∧ ∀ c ∈ ['\x7b', '\x7d', '<', '>', '&', '\n', '\r'], c ∉ t.toList
  ends : ∀ s, m = .code s → ∀ rest, Markup.readCode (.code 0) (s.toList ++ '\x7d' :: rest) = some (s.toList, rest)

namespace Markup
open Value

variable {v : Value}

end Markup

end Pagesmith
