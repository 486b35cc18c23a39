import Pagesmith.Proofs.Component.Styled
import Pagesmith.Proofs.Component.Success
import Pagesmith.Proofs.Component.Unbroken
import Pagesmith.Proofs.Markup.Tag
import Pagesmith.Proofs.Scaffold.Router

/-!
Attributes of elements, read back. A node whose properties are texts has one attribute for each property that is
written, with the name of the property as it is and a value that says the text. So its opening tag gives them back
exactly if the names are names of attributes, and if no value is taken for the end of a line where the tag goes over
several lines.
-/

namespace Pagesmith

/-- The text that an attribute says: a quoted text, or that of the string that its code is. -/
def AttributeBody.value? : AttributeBody → Option String
  | .bare => none
  | .quoted t => some t
  | .code c => Scaffold.readString c.toList

namespace PropOf

variable {ν μ : Type}

/-- A literal, or a name: of properties that are texts, the rules make nothing else. -/
def IsSettled : PropOf ν → Prop
  | .literal _ => True
  | .reference name => Text.IsName name
  | _ => False

theorem isSettled_map (f : ν → μ) (p : PropOf ν) : (p.map f).IsSettled ↔ p.IsSettled := by
  cases p <;> exact Iff.rfl

theorem isKept_settled (showNode : ν → String) :
    Catalogue.IsKept showNode (IsSettled : PropOf ν → Prop) where
  whole _ _ := trivial
  classify p h := by
    cases p with
    | literal | reference => exact h
    | _ => exact h.elim
  listed _ _ := trivial

/-- The attribute of a property: its name is that of the property, and it says a text as it is. Every other literal
is code, and so is a name. -/
inductive HasAttribute : String × PropOf ν → Attribute → Prop
  | text {key s : String} {body : AttributeBody} (said : body.value? = some s) :
    HasAttribute (key, .literal (.str s)) ⟨key, body⟩
  | literal {key : String} {v : Value} (other : ∀ s, v ≠ .str s) :
    HasAttribute (key, .literal v) ⟨key, .code (Script.literalText v)⟩
  | reference {key name : String} : HasAttribute (key, .reference name) ⟨key, .code name⟩

theorem HasAttribute.name_eq {e : String × PropOf ν} {a : Attribute} (h : HasAttribute e a) : a.name = e.1 := by
  cases h <;> rfl

theorem HasAttribute.of_map {f : ν → μ} {key : String} {p : PropOf ν} {a : Attribute}
    (h : HasAttribute (key, p.map f) a) : HasAttribute (key, p) a := by
  cases p with
  | literal v =>
    cases h with
    | text said => exact .text said
    | literal other => exact .literal other
  | reference name =>
    cases h
    exact .reference
  | _ => cases h

end PropOf

namespace Component
open Build PropOf Script Pagesmith.Module

section Attributes

variable {ν : Type} {I : Module → Prop} {w : Writer}

/-- The attribute of a property, fit to stand in a tag. -/
structure Stands (e : String × PropOf ν) (a : Attribute) : Prop where
  own : HasAttribute e a
  fits : a.Fits

theorem fits_code {name c : String} (closed : Markup.IsClosed c) (feedless : '\n' ∉ c.toList) :
    Attribute.Fits ⟨name, .code c⟩ :=
  ⟨closed, by simpa [AttributeBody.text] using feedless⟩

theorem stands_text (key s : String) :
    Stands ((key, .literal (.str s)) : String × PropOf ν) (Markup.textAttribute key s) := by
  rw [Markup.textAttribute]
  split
  · exact ⟨.text (Scaffold.readString_written s), fits_code (Markup.isClosed_stringLiteral s) (whole_stringLiteral s)⟩
  · next inert =>
    simp only [List.any_eq_true, not_exists, not_and, Bool.not_eq_true] at inert
    have other {c : Char} (ends : Markup.endsQuoted c = true) : c ∉ s.toList := fun mem => by
      simp [inert c mem] at ends
    refine ⟨.text rfl, other (by decide), ?_⟩
    simpa [AttributeBody.text] using other (c := '\n') (by decide)

theorem literal_text (v : Value) : (Script.literal v).Yields (· = literalText v) := by
  intro log t ok
  rw [literal_outcome] at ok
  split at ok
  · cases ok
  · exact (Except.ok.inj ok).symm

theorem stands_literal (key : String) (v : Value) :
    (Markup.literalAttribute key v).Yields (Stands ((key, .literal v) : String × PropOf ν)) := by
  have whole : '\n' ∉ (literalText v).toList := fun mem =>
    absurd (isInert_codeText (Value.shown_json v) _ mem) (by decide)
  have code (other : ∀ s, v ≠ .str s) :
      (do return (⟨key, .code (← Script.literal v)⟩ : Attribute) : Job Attribute).Yields
        (Stands ((key, .literal v) : String × PropOf ν)) := by
    refine .bind (literal_text v) fun t same => .pure ?_
    subst same
    exact ⟨.literal other, fits_code (Markup.isClosed_literalText v) whole⟩
  cases v with
  | str s => exact .pure (stands_text key s)
  | _ => exact code fun _ same => nomatch same

theorem stands_reference {key name : String} (isName : Text.IsName name) :
    Stands ((key, .reference name) : String × PropOf ν) ⟨key, .code name⟩ :=
  ⟨.reference, fits_code (Markup.isClosed_name isName) (whole_name isName)⟩

/-- The attributes of settled properties, one by one. -/
theorem propAttributes_stand (id : String) {props : List (String × PropOf Part)}
    (settled : ∀ e ∈ props, e.2.IsSettled) :
    Delivers I (propAttributes w id props) (List.Forall₂ Stands props) := by
  induction props with
  | nil => exact .pure .nil
  | cons e r ih =>
    obtain ⟨own, others⟩ := List.forall_mem_cons.1 settled
    obtain ⟨key, p⟩ := e
    have first : Delivers I (propAttribute w id key p) fun a => ∃ b, a = some b ∧ Stands (key, p) b := by
      cases p with
      | literal v => exact .bind (.ofJob (stands_literal key v)) fun a stands => .pure ⟨a, rfl, stands⟩
      | reference name => exact .pure ⟨_, rfl, stands_reference own⟩
      | _ => exact own.elim
    refine .bind first ?_
    rintro _ ⟨a, rfl, stands⟩
    exact .bind (ih others) fun as more => .pure (.cons stands more)

end Attributes

section Class

variable {ν μ : Type} {w : Writer} {m₀ : Module} {p : Option (PropOf Part)}

/-- The properties with an attribute of their own. The class name has none beside a class. -/
def attributed (cssClass : Option String) (written : List (String × PropOf ν)) : List (String × PropOf ν) :=
  attributeProps written ++
    if cssClass.isSome then [] else (givenProp "className" written).toList.map ("className", ·)

theorem attributed_map (f : ν → μ) (cssClass : Option String) (written : List (String × PropOf ν)) :
    attributed cssClass (Table.mapValues (PropOf.map f) written) =
      Table.mapValues (PropOf.map f) (attributed cssClass written) := by
  rw [attributed, attributed, attributeProps_map, givenProp_map]
  cases cssClass <;> cases givenProp "className" written <;> simp [Table.mapValues]

theorem StandsBeside.closed {g : String} (h : StandsBeside p g) (settled : ∀ q ∈ p, q.IsSettled) :
    Markup.IsClosed g ∧ '\n' ∉ g.toList := by
  cases h with
  | @literal v => exact ⟨Markup.isClosed_stringLiteral v.text, whole_stringLiteral v.text⟩
  | reference =>
    have isName : Text.IsName g := settled _ rfl
    exact ⟨Markup.isClosed_name isName, whole_name isName⟩
  | expression => exact (settled _ rfl).elim

theorem fits_styledClassName {c : String} (closed : Markup.IsClosed c) (feedless : '\n' ∉ c.toList)
    (settled : ∀ q ∈ p, q.IsSettled) {a : Attribute} (written : styledClassName c p = .ok a) : a.Fits := by
  have own : Markup.IsClosed ("styles." ++ c) := (Markup.isClosed_plain (Text.forall_chars (by decide))).append closed
  have whole : '\n' ∉ ("styles." ++ c).toList := by simp [feedless]
  have joined : Markup.IsClosed "].join(\" \")" := by
    have parts : "].join(\" \")" = "].join(" ++ stringLiteral " " ++ ")" := by decide +kernel
    rw [parts]
    exact ((Markup.isClosed_plain (Text.forall_chars (by decide))).append (Markup.isClosed_stringLiteral " ")).append
      (Markup.isClosed_plain (Text.forall_chars (by decide)))
  have among {g : String} (closed : Markup.IsClosed g) (feedless : '\n' ∉ g.toList) :
      Attribute.Fits ⟨"className", .code ("[" ++ g ++ ", " ++ ("styles." ++ c) ++ "].join(\" \")")⟩ := by
    refine fits_code ?_ (by simp_all)
    have bracket : Markup.IsClosed "[" := Markup.isClosed_plain (Text.forall_chars (by decide))
    have comma : Markup.IsClosed ", " := Markup.isClosed_plain (Text.forall_chars (by decide))
    exact (((bracket.append closed).append comma).append own).append joined
  obtain rfl | ⟨g, beside, rfl⟩ := styledClassName_cases written
  · exact fits_code own whole
  · obtain ⟨closed, feedless⟩ := beside.closed settled
    exact among closed feedless

/-- The attributes for the class name of a node: one for the name that is given, unless there is a class. -/
theorem classNameOf_stands {layer : NodeOf Part} (settled : ∀ q ∈ p, q.IsSettled) :
    Delivers (SameSheet m₀) (classNameOf layer p) fun a => ∃ plain,
      a.toList = plain ++ ((nodeClass m₀ layer).bind fun c => (styledClassName c p).toOption).toList ∧
      List.Forall₂ Stands (if (nodeClass m₀ layer).isSome then [] else p.toList.map ("className", ·)) plain := by
  refine (classNameOf_named layer p).mono fun a named => ?_
  generalize nodeClass m₀ layer = own at named ⊢
  cases own with
  | some c =>
    cases named with
    | styled written =>
      rw [Option.bind_some, written]
      exact ⟨[], rfl, .nil⟩
  | none =>
    cases named with
    | none missing =>
      rw [missing]
      exact ⟨[], rfl, .nil⟩
    | @plain q _ said alone written =>
      have given : (plainClassName q).Yields fun a => ∃ b, a = some b ∧ Stands ("className", q) b := by
        cases q with
        | literal v => exact .bind (stands_literal "className" v) fun a stands => .pure ⟨a, rfl, stands⟩
        | reference name => exact .pure ⟨_, rfl, stands_reference (settled _ alone)⟩
        | _ => exact (settled _ alone).elim
      obtain ⟨b, rfl, stands⟩ := given said a written
      rw [alone]
      exact ⟨[b], rfl, .cons stands .nil⟩

end Class

section Elements

variable {w : Writer} {m : Module} {n : Node}

/-- The attribute for the class of a node in a module, with the class name that is given. -/
def classAttribute (w : Writer) (m : Module) (n : Node) : List Attribute :=
  ((nodeClass m n.layer).bind fun c => (styledClassName c (givenClass w n)).toOption).toList

theorem renderedProps_settled (settled : ∀ e ∈ n.layer.props, e.2.IsSettled) :
    Catalogue.AllProps IsSettled
      (renderedProps w (fun p : Part => p.shown ()) (n.layer.map (partOf w))) := by
  refine renderedProps_allProps w (isKept_settled _) (Text.isName_toIdentifier _) fun e mem => ?_
  obtain ⟨e, there, rfl⟩ := NodeOf.mem_props_map.1 mem
  exact (isSettled_map _ _).2 (settled e there)

/-- The attributes of a node whose properties are settled: those of the properties, which are fit to stand in a tag,
and then the one for its class. -/
theorem element_attributes (settled : ∀ e ∈ n.layer.props, e.2.IsSettled) :
    Delivers (SameSheet m) (element w n) fun x => ∃ tag plain children,
      x = .element tag (plain ++ classAttribute w m n) children ∧
      List.Forall₂ HasAttribute (attributed (nodeClass m n.layer) (renderedProps w Node.shown n.layer)) plain ∧
      (∀ a ∈ plain, a.Fits) ∧ ∀ q ∈ givenClass w n, q.IsSettled := by
  have lasts : OutlastsCode (SameSheet m) := outlastsCode_sameSheet
  have events := lasts.eventFunction (addImport_sameSheet Handlers.messageImport) w
  have below : ∀ part ∈ (n.layer.map (partOf w)).below, Keeps (SameSheet m) part.write := by
    intro part mem
    rw [NodeOf.below_map] at mem
    obtain ⟨n', -, rfl⟩ := List.mem_map.1 mem
    exact element_keeps addImport_sameSheet events lasts.loadRows n'
  let layer := n.layer.map (partOf w)
  let rendered := renderedProps w (fun p : Part => p.shown ()) layer
  have all : Catalogue.AllProps IsSettled rendered := renderedProps_settled settled
  have className : ∀ q ∈ givenClass w n, q.IsSettled := fun q mem => all _ (givenProp_mem mem)
  have parts : Catalogue.AllNodes (fun part => Keeps (SameSheet m) part.write) rendered :=
    renderedProps_allNodes w _ (allNodes_below below)
  have rows : Keeps (SameSheet m) (writtenProps (w.rule layer) layer) :=
    writtenProps_keeps fun url _ => lasts.loadRows n.layer.id url
  rw [element_eq]
  refine .bind (.ofJob (.any _)) fun tag _ => ?_
  refine .bind (rows.delivers_value (writtenProps_value w layer)) ?_
  rintro _ rfl
  refine .bind (importedTag_keeps (addImport_sameSheet _) tag).delivers fun tag _ => ?_
  refine .bind (propAttributes_stand layer.id fun e mem => all e (mem_attributeProps mem)) fun plain stand => ?_
  refine .bind (classNameOf_stands className) fun a own => ?_
  have children : Keeps (SameSheet m) (elementChildren layer rendered) :=
    elementChildren_keeps (fun part mem => below part (List.mem_append_right _ mem)) parts
  refine .bind children.delivers fun ms _ => .pure ?_
  obtain ⟨more, listed, stand'⟩ := own
  have each : List.Forall₂ Stands (attributed (nodeClass m layer) rendered) (plain ++ more) :=
    List.rel_append stand stand'
  refine ⟨tag, plain ++ more, ms, ?_, ?_, ?_, className⟩
  · rw [listed, ← List.append_assoc]
    rfl
  · have same : attributed (nodeClass m layer) rendered = Table.mapValues (PropOf.map (partOf w))
        (attributed (nodeClass m n.layer) (renderedProps w Node.shown n.layer)) := by
      have parts : rendered = Table.mapValues (PropOf.map (partOf w)) (renderedProps w Node.shown n.layer) :=
        renderedProps_map w (partOf w) (fun _ => rfl) n.layer
      rw [← attributed_map, ← parts]
      rfl
    rw [same, Table.mapValues, List.forall₂_map_left_iff] at each
    exact each.imp fun e a stands => stands.own.of_map
  · have fits : List.Forall₂ (fun a e => a.Fits ∧ HasAttribute e a) (plain ++ more) _ :=
      each.flip.imp fun a e stands => ⟨stands.fits, stands.own⟩
    exact ((List.forall₂_and_left _ _).1 fits).1

/-- The element of a node whose properties are texts, in a module where its class leaves nothing open in code. It is
written if the nodes below it can be, it has one attribute for each property with an attribute of its own, and its
opening tag gives the attributes back exactly if each of them has a name of attributes and the tag either stands on
one line or holds nothing that is taken for the end of one. -/
theorem element_readsBack_iff (isName : String → Bool) (w : Writer) {m : Module} {n : Node}
    (texts : ∀ e ∈ n.layer.props, ∃ s, e.2 = .literal (.str s))
    (sound : ∀ c ∈ nodeClass m n.layer, Markup.IsClosed c ∧ '\n' ∉ c.toList) :
    (element w n).Ensures m fun r _ => match r with
      | .error _ => ¬ n.Everywhere fun layer => ∀ e ∈ layer.props, e.2.IsWhole ∅
      | .ok x => ∃ tag own children,
        let attributes := own ++ classAttribute w m n
        x = .element tag attributes children ∧
        List.Forall₂ HasAttribute (attributed (nodeClass m n.layer) (renderedProps w Node.shown n.layer)) own ∧
        ∀ width depth, Markup.ReadsBack isName width depth tag attributes children ↔
          (∀ a ∈ attributes, Markup.IsAttributeName isName a.name) ∧
            ((Markup.opening width (indentation depth) tag attributes children.isEmpty).length = 1 ∨
              ∀ a ∈ attributes, a.IsUnbroken) := by
  have settled : ∀ e ∈ n.layer.props, e.2.IsSettled := by
    intro e mem
    obtain ⟨s, text⟩ := texts e mem
    rw [text]
    trivial
  have completes : (element w n).Ensures m fun r _ =>
      n.Everywhere (fun layer => ∀ e ∈ layer.props, e.2.IsWhole ∅) → Job.Meets ∅ (fun _ => True) r :=
    fun log whole => element_completes whole m log
  have same : SameSheet m m := ⟨rfl, rfl, rfl, rfl⟩
  refine (completes.and (element_attributes settled m same)).mono ?_
  rintro r m' ⟨completes, -, written⟩
  cases r with
  | error f => exact completes
  | ok x =>
    obtain ⟨tag, own, children, rfl, each, fits, given⟩ := written x rfl
    refine ⟨tag, own, children, rfl, each, fun width depth => Markup.readsBack_iff ?_ width depth children⟩
    refine List.forall_mem_append.2 ⟨fits, fun a mem => ?_⟩
    rw [classAttribute, Option.mem_toList, Option.bind_eq_some_iff] at mem
    obtain ⟨c, known, mem⟩ := mem
    obtain ⟨closed, feedless⟩ := sound c known
    cases written : styledClassName c (givenClass w n) with
    | error f =>
      rw [written] at mem
      cases mem
    | ok b =>
      rw [written] at mem
      obtain rfl := Option.some.inj mem
      exact fits_styledClassName closed feedless given written

/-- A page with a property whose name ends the tag and opens another one. -/
def openingNode : Node :=
  .mk ⟨"node_0", "Page", ⟨"@/components/Page", none, none, false, none⟩,
    [("a /><b c", .literal (.str "x"))], "Page", none, none, none⟩

theorem openingNode_misread :
    (∃ tag attributes children,
      (element defaultWriter openingNode (Module.new "Index") []).1.1 =
        .ok (.element tag attributes children) ∧
      Markup.render 76 0 (.element tag attributes children) = "<Page a /><b c=\"x\" />" ∧
      ∀ width depth, ¬ Markup.ReadsBack (fun _ => true) width depth tag attributes children) ∧
    Markup.readTag (fun _ => true) "Page" "<Page a /><b c=\"x\" />".toList =
      some ([⟨"a", .bare⟩], true, "<b c=\"x\" />".toList) := by
  have texts : ∀ e ∈ openingNode.layer.props, ∃ s, e.2 = .literal (.str s) := by simp [openingNode, Node.layer]
  have unclassed : nodeClass (Module.new "Index") openingNode.layer = none := rfl
  have named : (attributed (nodeClass (Module.new "Index") openingNode.layer)
      (renderedProps defaultWriter Node.shown openingNode.layer)).map (·.1) = ["a /><b c"] := by decide +kernel
  have misread : (element defaultWriter openingNode).Ensures (Module.new "Index") fun r _ =>
      r.map (Markup.render 76 0) = .ok "<Page a /><b c=\"x\" />" → ∃ tag attributes children,
        r = .ok (.element tag attributes children) ∧
        Markup.render 76 0 (.element tag attributes children) = "<Page a /><b c=\"x\" />" ∧
        ∀ width depth, ¬ Markup.ReadsBack (fun _ => true) width depth tag attributes children := by
    have exact_iff := element_readsBack_iff (m := new "Index") (fun _ => true) defaultWriter texts (by simp [unclassed])
    refine exact_iff.mono fun r _ exactly shown => ?_
    cases r with
    | error f => cases shown
    | ok x =>
      obtain ⟨tag, own, children, rfl, each, reads⟩ := exactly
      refine ⟨tag, _, children, rfl, Except.ok.inj shown, fun width depth back => ?_⟩
      obtain ⟨names, -⟩ := (reads width depth).1 back
      obtain ⟨⟨key, p⟩, written, rfl⟩ := List.map_eq_singleton_iff.1 named
      rw [written] at each
      obtain ⟨a, r, own, -, rfl⟩ := List.forall₂_cons_left_iff.1 each
      have name : a.name = "a /><b c" := own.name_eq
      have whole := (names a (by simp)).whole
      rw [name] at whole
      exact absurd (whole ' ' (by decide)) (by decide)
  refine ⟨misread [] (by decide +kernel), ?_⟩
  have fits : Attribute.Fits ⟨"a", .bare⟩ := ⟨trivial, by decide⟩
  have name : Markup.IsAttributeName (fun _ => true) "a" := ⟨by decide, rfl, Text.forall_chars (by decide)⟩
  have front : "<Page a /><b c=\"x\" />".toList =
      (Text.unlines (Markup.opening 76 "" "Page" [⟨"a", .bare⟩] true)).toList ++ "<b c=\"x\" />".toList := by
    decide +kernel
  rw [front, Markup.readTag_opening_iff (by simp [fits]) (by simp)]
  exact ⟨by simp [name], .inl (by decide +kernel)⟩

end Elements

end Component
end Pagesmith
