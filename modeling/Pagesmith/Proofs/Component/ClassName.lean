import Pagesmith.Proofs.Component.Attributes

/-!
The class name that is given to a node, beside the class of its styles. A node without a class has the given name
alone, and a node with one the list of both, joined by blanks. The two are written by rules of their own, and only
the rule for the name alone knows of functions: beside a class the name that a function gives is lost.
-/

namespace Pagesmith

namespace Catalogue

/-- The rules of the components do not touch a class name. -/
theorem default_spares_className (name : String) (nodeTag : Option String) :
    (default.rendering name nodeTag).steps.all (spares "className") = true := by
  rw [rendering]
  split
  · next rule found =>
    have each : ∀ e ∈ defaultRenderings, e.2.steps.all (spares "className") = true := by decide +kernel
    exact each _ (Table.mem_of_lookup found)
  · have usual : standardSteps.all (spares "className") = true := by decide
    exact usual

end Catalogue

/-- What an attribute says is what the code stands for: the code itself, or a string with the text of it. -/
def AttributeBody.Matches (body : AttributeBody) (code : String) : Prop :=
  body = .code code ∨ ∃ s, body.value? = some s ∧ (AttributeBody.code code).value? = some s

namespace Component
open Build PropOf Pagesmith.Module

section Ladders

variable {ν : Type}

/-- A value that gives a class name: a text that is not empty, a name, or code. -/
inductive NamesClass : PropOf ν → Prop
  | text {s : String} (given : s ≠ "") : NamesClass (.literal (.str s))
  | reference {name : String} : NamesClass (.reference name)
  | expression {t : String} : NamesClass (.expression t)
  | function {t : String} : NamesClass (.function t)

theorem joinedClass_ne_ownClass (given cssClass : String) : joinedClass given cssClass ≠ ownClass cssClass := by
  intro same
  have first := congrArg (fun s : String => s.toList.head?) (AttributeBody.code.inj same)
  simp [String.toList_append] at first

theorem textAttribute_value (key s : String) :
    ∃ body, Markup.textAttribute key s = ⟨key, body⟩ ∧ body.value? = some s := by
  rw [Markup.textAttribute]
  split
  · exact ⟨_, rfl, Scaffold.readString_written s⟩
  · exact ⟨_, rfl, rfl⟩

/-- The two rules for a class name: alone it says something, and beside a class the same stands in the list of both,
unless it is a function, which leaves the class alone. -/
theorem classNames_agree_iff {p : PropOf ν} (names : NamesClass p) (f : ν → Part) : ∃ content,
    (∀ said, (plainClassName (p.map f) said).1 = .ok (some ⟨"className", content⟩)) ∧
    ∀ c, ∃ body, styledClassName c (some (p.map f)) = .ok ⟨"className", body⟩ ∧
      ((∃ code, content.Matches code ∧ body = joinedClass code c) ↔ ∀ t, p ≠ .function t) ∧
      (body = ownClass c ↔ ∃ t, p = .function t) := by
  have kept {code c : String} (other : ∀ t, p ≠ .function t) : joinedClass code c = ownClass c ↔ ∃ t, p = .function t :=
    iff_of_false (joinedClass_ne_ownClass code c) fun ⟨t, same⟩ => other t same
  cases names with
  | @text s given =>
    have other : ∀ t, (literal (.str s) : PropOf ν) ≠ .function t := by simp
    have own (c : String) : styledClassName c (some (.literal (.str s))) =
        .ok ⟨"className", joinedClass (Script.stringLiteral s) c⟩ := by
      rw [styledClassName, if_neg (by simpa [Value.isBlank] using given)]
      rfl
    obtain ⟨body, written, value⟩ := textAttribute_value "className" s
    refine ⟨body, fun said => ?_, fun c => ⟨_, own c, iff_of_true ⟨_, .inr ⟨s, value, ?_⟩, rfl⟩ other, kept other⟩⟩
    · rw [← written]
      rfl
    · exact Scaffold.readString_written s
  | @reference name =>
    have other : ∀ t, (reference name : PropOf ν) ≠ .function t := by simp
    exact ⟨.code name, fun _ => rfl, fun c => ⟨_, rfl, iff_of_true ⟨name, .inl rfl, rfl⟩ other, kept other⟩⟩
  | @expression text =>
    have other : ∀ t, (expression text : PropOf ν) ≠ .function t := by simp
    exact ⟨.code (Text.trim text), fun _ => rfl, fun c => ⟨_, rfl, iff_of_true ⟨_, .inl rfl, rfl⟩ other, kept other⟩⟩
  | @function t =>
    refine ⟨.code (Text.trim t), fun _ => rfl, fun c => ⟨ownClass c, rfl, ?_, iff_of_true rfl ⟨t, rfl⟩⟩⟩
    refine iff_of_false ?_ fun other => other t rfl
    rintro ⟨code, -, same⟩
    exact joinedClass_ne_ownClass code c same.symm

/-- What is written without a class and lost beside one: functions, and values that are blank. -/
theorem className_dropped_iff {q : PropOf Part} (c : String) :
    ((∃ a said, (plainClassName q said).1 = .ok (some a)) ∧
      styledClassName c (some q) = .ok ⟨"className", ownClass c⟩) ↔
      (∃ t, q = .function t) ∨ ∃ v, q = .literal v ∧ v.isBlank = true := by
  have kept (given : String) : (⟨"className", joinedClass given c⟩ : Attribute) ≠ ⟨"className", ownClass c⟩ :=
    fun same => joinedClass_ne_ownClass given c (Attribute.mk.inj same).2
  constructor
  · rintro ⟨⟨a, said, written⟩, dropped⟩
    cases q with
    | literal v =>
      refine .inr ⟨v, rfl, ?_⟩
      by_contra shown
      rw [styledClassName, if_neg shown, Value.text?] at dropped
      split at dropped
      · cases dropped
      · exact kept _ (Except.ok.inj dropped)
    | reference name => exact absurd (Except.ok.inj dropped) (kept name)
    | expression t => exact absurd (Except.ok.inj dropped) (kept _)
    | function t => exact .inl ⟨t, rfl⟩
    | action | node | many | raw => cases written
  · rintro (⟨t, rfl⟩ | ⟨v, rfl, blank⟩)
    · exact ⟨⟨_, [], rfl⟩, rfl⟩
    · refine ⟨?_, ?_⟩
      · cases v with
        | null => exact ⟨⟨"className", .code "null"⟩, [], rfl⟩
        | str s => exact ⟨_, [], rfl⟩
        | _ => cases blank
      · rw [styledClassName, if_pos blank]

end Ladders

section Elements

variable {w : Writer} {m : Module}

theorem element_isElement (n : Node) : Delivers (SameSheet m) (element w n) fun x => x.isElement = true := by
  induction n using Node.induction with
  | step n ih =>
    have inside : ∀ x ∈ n.layer.inside, Written w (SameSheet m) (fun _ x => x.isElement = true) x :=
      fun x mem => ih x (n.layer.inside_subset_below mem)
    refine (element_made (fun _ _ same => same) inside (classNameOf_named _ _)).mono ?_
    rintro _ ⟨tag, plain, className, children, slots, rfl, -⟩
    rfl

theorem styledClassName_name {c : String} {p : Option (PropOf Part)} {a : Attribute}
    (written : styledClassName c p = .ok a) : a.name = "className" := by
  obtain rfl | ⟨g, -, rfl⟩ := styledClassName_cases written
  · rfl
  · rfl

/-- An element has one attribute for a class name that is given: the one beside its class, or else the one for the
name alone. -/
theorem element_className {n : Node} {q : PropOf Part} {content : AttributeBody} (own : givenClass w n = some q)
    (alone : ∀ said, (plainClassName q said).1 = .ok (some ⟨"className", content⟩)) :
    Delivers (SameSheet m) (element w n) fun x => ∃ tag attributes children, x = .element tag attributes children ∧
      attributes.filter (·.name == "className") =
        [((nodeClass m n.layer).bind fun c => (styledClassName c (some q)).toOption).getD ⟨"className", content⟩] := by
  have inside : ∀ x ∈ n.layer.inside, Written w (SameSheet m) (fun _ x => x.isElement = true) x :=
    fun x _ => element_isElement x
  refine (element_made (fun _ _ same => same) inside (classNameOf_named _ _)).mono ?_
  rintro _ ⟨tag, plain, className, children, slots, rfl, apart, named, -⟩
  refine ⟨tag, _, children, rfl, ?_⟩
  have none : plain.filter (·.name == "className") = [] :=
    List.filter_eq_nil_iff.2 fun a mem => by simpa using apart a mem
  rw [List.filter_append, none, List.nil_append]
  have unchanged : nodeClass m (n.layer.map (partOf w)) = nodeClass m n.layer := rfl
  rw [own, unchanged] at named
  generalize nodeClass m n.layer = cssClass at named ⊢
  cases cssClass with
  | some c =>
    cases named with
    | styled written =>
      rw [Option.bind_some, written]
      simp [Except.toOption, styledClassName_name written]
  | none =>
    cases named with
    | @plain _ _ said given written =>
      cases given
      obtain rfl := Except.ok.inj ((alone said).symm.trans written)
      rfl
    | none missing => cases missing

/-- A class name for nodes with the default components is written as it is given. -/
theorem givenProp_className (usual : w.catalogue = .default) {layer : NodeOf Node} {p : PropOf Node}
    (names : NamesClass p) (given : layer.props.lookup "className" = some p) :
    givenProp "className" (renderedProps w Node.shown layer) = some p := by
  have settled : Catalogue.classify Node.shown p = p := by cases names <;> rfl
  have written :
      (Catalogue.written Node.shown (w.rule layer).steps layer.id layer.props).lookup "className" = some p := by
    refine Catalogue.written_lookup ?_ settled layer.id given
    rw [Writer.rule, usual]
    exact Catalogue.default_spares_className _ _
  have rendered : (renderedProps w Node.shown layer).lookup "className" = some p := by
    rw [renderedProps]
    split
    · rw [Table.lookup_insert, if_neg (by decide), written]
    · exact written
  rw [givenProp, rendered]
  cases names <;> rfl

/-- The class name of a node: the rules of the components leave it as it is given. What its attribute says on a node
without a class stands beside the class of a node with one, exactly if it is no function; if it is, the class is
there alone. Besides functions only blank values are written without a class and not beside one. -/
theorem className_beside_class (w : Writer) (layer : NodeOf Node) {p : PropOf Node} (names : NamesClass p) :
    (w.catalogue = .default → layer.props.lookup "className" = some p →
      givenProp "className" (renderedProps w Node.shown layer) = some p) ∧
    (givenProp "className" (renderedProps w Node.shown layer) = some p → ∃ content, ∀ cssClass m,
      (element w (.mk { layer with cssClass })).Ensures m fun r _ => match r with
        | .error _ => ¬ (Node.mk layer).Everywhere fun layer => ∀ e ∈ layer.props, e.2.IsWhole ∅
        | .ok x => ∃ tag attributes children body, x = .element tag attributes children ∧
          attributes.filter (·.name == "className") = [⟨"className", body⟩] ∧
          match nodeClass m { layer with cssClass } with
          | none => body = content
          | some c => ((∃ code, content.Matches code ∧ body = joinedClass code c) ↔ ∀ t, p ≠ .function t) ∧
            (body = ownClass c ↔ ∃ t, p = .function t)) ∧
    ∀ (q : PropOf Part) (c : String), (∃ a said, (plainClassName q said).1 = .ok (some a)) ∧
        styledClassName c (some q) = .ok ⟨"className", ownClass c⟩ ↔
      (∃ t, q = .function t) ∨ ∃ v, q = .literal v ∧ v.isBlank = true := by
  refine ⟨fun usual given => givenProp_className usual names given, fun given => ?_, fun q => className_dropped_iff⟩
  obtain ⟨content, alone, beside⟩ := classNames_agree_iff names (partOf w)
  refine ⟨content, fun cssClass m => ?_⟩
  let n : Node := .mk { layer with cssClass }
  have own : givenClass w n = some (p.map (partOf w)) := by
    have rendered : renderedProps w (fun p : Part => p.shown ()) (n.layer.map (partOf w)) =
        Table.mapValues (PropOf.map (partOf w)) (renderedProps w Node.shown layer) :=
      renderedProps_map w (partOf w) (fun _ => rfl) n.layer
    rw [givenClass, rendered, givenProp_map, given, Option.map_some]
  have completes : (element w n).Ensures m fun r _ =>
      n.Everywhere (fun layer => ∀ e ∈ layer.props, e.2.IsWhole ∅) → Job.Meets ∅ (fun _ => True) r :=
    fun log whole => element_completes whole m log
  have same : SameSheet m m := ⟨rfl, rfl, rfl, rfl⟩
  refine (completes.and (element_className own alone m same)).mono ?_
  rintro r m' ⟨completes, -, written⟩
  cases r with
  | error f =>
    rintro ⟨here, below⟩
    exact completes (.mk here below)
  | ok x =>
    obtain ⟨tag, attributes, children, rfl, only⟩ := written x rfl
    have unchanged : nodeClass m n.layer = nodeClass m { layer with cssClass } := rfl
    rw [unchanged] at only
    cases known : nodeClass m { layer with cssClass } with
    | some c =>
      obtain ⟨body, joined, exactly⟩ := beside c
      rw [known, Option.bind_some, joined] at only
      exact ⟨tag, attributes, children, body, rfl, only, exactly⟩
    | none =>
      rw [known] at only
      exact ⟨tag, attributes, children, content, rfl, only, rfl⟩

/-- A card whose class name is given by a function. -/
def namedCard : NodeOf Node :=
  ⟨"node_2", "Card", Catalogue.libraryImport (some "Card") none, [("className", .function "() => \"hero\"")], "Card",
    none, none, none⟩

theorem namedCard_drops : ∃ content,
    (∃ tag attributes children,
      (element defaultWriter (.mk { namedCard with cssClass := none }) (new "Index") []).1.1 =
        .ok (.element tag attributes children) ∧
      attributes.filter (·.name == "className") = [⟨"className", content⟩]) ∧
    ∃ tag attributes children body,
      (element defaultWriter (.mk { namedCard with cssClass := some "node_2" }) (new "Index") []).1.1 =
        .ok (.element tag attributes children) ∧
      attributes.filter (·.name == "className") = [⟨"className", body⟩] ∧
      body = ownClass "node_2" ∧ ¬ ∃ code, content.Matches code ∧ body = joinedClass code "node_2" := by
  obtain ⟨spared, agree, -⟩ :=
    className_beside_class defaultWriter namedCard (p := .function "() => \"hero\"") .function
  obtain ⟨content, each⟩ := agree (spared rfl rfl)
  refine ⟨content, ?_, ?_⟩
  · have alone : (element defaultWriter (.mk { namedCard with cssClass := none })).Ensures (new "Index") fun r _ =>
        r.toBool = true → ∃ tag attributes children, r = .ok (.element tag attributes children) ∧
          attributes.filter (·.name == "className") = [⟨"className", content⟩] := by
      refine (each none (new "Index")).mono fun r _ plain completes => ?_
      cases r with
      | error f => cases completes
      | ok x =>
        obtain ⟨tag, attributes, children, body, rfl, only, rfl⟩ := plain
        exact ⟨tag, attributes, children, rfl, only⟩
    exact alone [] (by decide +kernel)
  · have classed : (element defaultWriter (.mk { namedCard with cssClass := some "node_2" })).Ensures (new "Index")
        fun r _ => r.toBool = true → ∃ tag attributes children body, r = .ok (.element tag attributes children) ∧
          attributes.filter (·.name == "className") = [⟨"className", body⟩] ∧
          body = ownClass "node_2" ∧ ¬ ∃ code, content.Matches code ∧ body = joinedClass code "node_2" := by
      refine (each (some "node_2") (new "Index")).mono fun r _ styled completes => ?_
      cases r with
      | error f => cases completes
      | ok x =>
        obtain ⟨tag, attributes, children, body, rfl, only, joins, alone⟩ := styled
        exact ⟨tag, attributes, children, body, rfl, only, alone.2 ⟨_, rfl⟩, fun joined => joins.1 joined _ rfl⟩
    exact classed [] (by decide +kernel)

end Elements

end Component
end Pagesmith
