import Pagesmith.Proofs.Module.Imports
import Mathlib.Logic.Relation

/-!
The modules that writing comes to: from a new one, step by step, in any order. What holds of all of them is that
every name is taken, that the import lines agree with the bindings, and that what is imported has an identifier
for its name. A step that only imports leaves everything else as it was, earlier bindings too.
-/

namespace Pagesmith.Module
open Build Text

/-- One step of writing, from a module to the module that it leaves, also when it fails. -/
inductive Operation (m : Module) : Module → Prop
  | addImport (d : Dependency) (wish : Option String) (log : List Notice) : Operation m (addImport d wish m log).1.2
  | uniqueName (base : String) (log : List Notice) : Operation m (uniqueName base m log).1.2
  | addState (name : String) (initial : Value) (log : List Notice) : Operation m (addState name initial m log).1.2
  | addMethod (name code : String) : Operation m (m.addMethod name code)
  | addEffect (code : String) : Operation m (m.addEffect code)
  | addClass (className : String) (styles : List (String × Value)) (nodeId : Option String) :
    Operation m (m.addClass className styles nodeId)
  | setStylesheet (stylesheet : Option String) : Operation m { m with stylesheet := stylesheet }
  | setMarkup (markup : String) : Operation m { m with markup := markup }

/-- The modules that the steps of writing come to. -/
inductive Reachable : Module → Prop
  | new (name : String) : Reachable (new name)
  | step {m m' : Module} (h : Reachable m) (operation : Operation m m') : Reachable m'

/-- What holds of a module lasts while it is written. -/
def Lasts (I : Module → Prop) : Prop := ∀ m m', Operation m m' → I m → I m'

theorem lasts_reachable : Lasts Reachable := fun _ _ operation h => h.step operation

/-- A program that does nothing to a module but write it, step by step. -/
def Operates {α : Type} (b : Build α) : Prop := ∀ m, b.Ensures m fun _ m' => Relation.ReflTransGen Operation m m'

section Operates

variable {α : Type} {b : Build α}

theorem Operates.keeps (h : Operates b) {I : Module → Prop} (lasts : Lasts I) : Keeps I b := by
  refine fun m holds => (h m).mono fun _ m' steps => ?_
  induction steps with
  | refl => exact holds
  | tail _ operation ih => exact lasts _ _ operation ih

theorem operates_of_keeps (h : ∀ I, Lasts I → Keeps I b) : Operates b :=
  fun m => h _ (fun _ _ operation steps => steps.tail operation) m .refl

end Operates

/-- The names of the module are taken, its import lines and bindings agree, and each import has an identifier. -/
structure InOrder (m : Module) : Prop where
  sound : Sound m
  linked : Linked m
  names : ∀ b ∈ m.bound, IsName b.2

section InOrder

variable {m : Module}

theorem inOrder_new (name : String) : InOrder (new name) where
  sound := sound_new name
  linked := linked_new name
  names := by simp [new]

theorem InOrder.reserve (h : InOrder m) (names : List String) : InOrder (m.reserve names) where
  sound := h.sound.reserve names
  linked := h.linked.of_eq rfl rfl
  names := h.names

theorem InOrder.addImport (h : InOrder m) (d : Dependency) (wish : Option String) :
    (addImport d wish).Ensures m fun _ m' => InOrder m' := by
  refine (addImport_ensures d wish m).mono ?_
  rintro _ m' ⟨name, -, ⟨-, -, rfl⟩ | ⟨-, -, rfl⟩ | ⟨-, new, first, rfl⟩⟩
  · exact h
  · exact h
  · refine ⟨h.sound.bind d _ first.free, h.linked.bind d wish name new, fun b mem => ?_⟩
    obtain mem | mem := List.mem_append.1 mem
    · exact h.names b mem
    · obtain rfl := List.mem_singleton.1 mem
      exact first.isName (isName_desiredName d wish)

theorem InOrder.addImport_name (h : InOrder m) (d : Dependency) (wish : Option String) :
    (Module.addImport d wish).Ensures m fun r _ => ∃ name, r = .ok name ∧ IsName name := by
  refine (addImport_ensures d wish m).mono ?_
  rintro _ m' ⟨name, rfl, ⟨-, rfl, -⟩ | ⟨-, found, -⟩ | ⟨-, -, first, -⟩⟩
  · exact ⟨_, rfl, isName_desiredName d wish⟩
  · exact ⟨name, rfl, h.names _ (Table.mem_of_lookup found)⟩
  · exact ⟨name, rfl, first.isName (isName_desiredName d wish)⟩

theorem InOrder.addState (h : InOrder m) (name : String) (initial : Value) :
    (addState name initial).Ensures m fun _ m' => InOrder m' := by
  refine (addState_ensures name initial m).mono ?_
  rintro _ m' (⟨-, -, rfl⟩ | ⟨-, -, -, rfl⟩ | ⟨-, -, -, rfl⟩)
  · exact h
  · exact h.reserve _
  · exact ⟨h.sound.declare name initial, h.linked.of_eq rfl rfl, h.names⟩

theorem InOrder.addMethod (h : InOrder m) (name code : String) : InOrder (m.addMethod name code) := by
  refine ⟨h.sound.addMethod name code, ?_, ?_⟩
  all_goals rw [Module.addMethod]; split
  · exact h.linked
  · exact h.linked.of_eq rfl rfl
  · exact h.names
  · exact h.names

theorem InOrder.withRest (h : InOrder m) (effects : List String)
    (classes : List (String × List (String × Value))) (nodeClasses : List (String × String)) (markup : String)
    (stylesheet : Option String) : InOrder { m with
      effects := effects, classes := classes, nodeClasses := nodeClasses, markup := markup
      stylesheet := stylesheet } where
  sound := h.sound.withRest effects classes nodeClasses markup stylesheet
  linked := h.linked.of_eq rfl rfl
  names := h.names

theorem lasts_inOrder : Lasts InOrder := by
  intro m m' operation h
  cases operation with
  | addImport d wish log => exact h.addImport d wish log
  | uniqueName base log => exact h.reserve _
  | addState name initial log => exact h.addState name initial log
  | addMethod name code => exact h.addMethod name code
  | addEffect code =>
    rw [Module.addEffect]
    split
    · exact h
    · exact h.withRest _ m.classes m.nodeClasses m.markup m.stylesheet
  | addClass className styles nodeId => exact h.withRest m.effects _ _ m.markup m.stylesheet
  | setStylesheet stylesheet => exact h.withRest m.effects m.classes m.nodeClasses m.markup _
  | setMarkup markup => exact h.withRest m.effects m.classes m.nodeClasses _ m.stylesheet

theorem Reachable.inOrder (h : Reachable m) : InOrder m := by
  induction h with
  | new name => exact inOrder_new name
  | step _ operation ih => exact lasts_inOrder _ _ operation ih

end InOrder

/-- What is bound stays bound. -/
theorem operation_bound {m m' : Module} (h : Operation m m') : m.bound <+: m'.bound := by
  cases h with
  | addImport d wish log =>
    have bound : (addImport d wish).Ensures m fun _ m' => m.bound <+: m'.bound := by
      refine (addImport_ensures d wish m).mono ?_
      rintro _ m' ⟨name, -, ⟨-, -, rfl⟩ | ⟨-, -, rfl⟩ | ⟨-, -, -, rfl⟩⟩
      · exact List.prefix_refl _
      · exact List.prefix_refl _
      · exact List.prefix_append _ _
    exact bound log
  | addState name initial log =>
    have bound : (addState name initial).Ensures m fun _ m' => m.bound <+: m'.bound := by
      refine (addState_ensures name initial m).mono ?_
      rintro _ m' (⟨-, -, rfl⟩ | ⟨-, -, -, rfl⟩ | ⟨-, -, -, rfl⟩) <;> exact List.prefix_refl _
    exact bound log
  | addMethod name code =>
    rw [Module.addMethod]
    split <;> exact List.prefix_refl _
  | addEffect code =>
    rw [Module.addEffect]
    split <;> exact List.prefix_refl _
  | uniqueName | addClass | setStylesheet | setMarkup => exact List.prefix_refl _

/-- The module apart from its imports and the names that are taken. -/
def withoutImports (m : Module) : Module := { m with imports := [], bound := [], reserved := [] }

/-- The second module is the first one with more imports: what was bound is bound as before, in its line, and what
is new has a name that was not taken. -/
structure GainsImports (m m' : Module) : Prop where
  rest : m'.withoutImports = m.withoutImports
  taken : m.reserved ⊆ m'.reserved
  bound : m.bound <+: m'.bound
  fresh : ∀ b ∈ m'.bound, b ∈ m.bound ∨ b.2 ∉ m.reserved
  lines : ∀ s, (m.entryOf s).bindings ⊆ (m'.entryOf s).bindings

theorem GainsImports.refl (m : Module) : GainsImports m m where
  rest := rfl
  taken := List.Subset.refl _
  bound := List.prefix_refl _
  fresh := fun _ => .inl
  lines := fun _ => List.Subset.refl _

theorem GainsImports.trans {m m' m'' : Module} (h : GainsImports m m') (h' : GainsImports m' m'') :
    GainsImports m m'' where
  rest := h'.rest.trans h.rest
  taken := List.Subset.trans h.taken h'.taken
  bound := h.bound.trans h'.bound
  fresh b mem := by
    obtain mem | free := h'.fresh b mem
    · exact h.fresh b mem
    · exact .inr fun taken => free (h.taken taken)
  lines s := List.Subset.trans (h.lines s) (h'.lines s)

theorem gainsImports_reserve (names : List String) (m : Module) : GainsImports m (m.reserve names) where
  rest := rfl
  taken := reserve_subset names m
  bound := List.prefix_refl _
  fresh := fun _ => .inl
  lines := fun _ => List.Subset.refl _

theorem addImport_gains (d : Dependency) (wish : Option String) {m : Module} (h : InOrder m) :
    (addImport d wish).Ensures m fun _ m' => GainsImports m m' := by
  refine (addImport_ensures d wish m).mono ?_
  rintro _ m' ⟨name, -, ⟨-, -, rfl⟩ | ⟨-, -, rfl⟩ | ⟨-, new, first, rfl⟩⟩
  · exact .refl m'
  · exact .refl m'
  · refine ⟨rfl, reserve_subset [name] m, List.prefix_append _ _, fun b mem => ?_, fun s => ?_⟩
    · obtain mem | mem := List.mem_append.1 mem
      · exact .inl mem
      · obtain rfl := List.mem_singleton.1 mem
        exact .inr first.free
    · obtain ⟨named, main⟩ := h.linked.absent new
      rw [entryOf_bind]
      split
      · next same =>
        subst same
        exact fun x mem => (bindings_add name named main).mem_iff.2 (List.mem_append_left _ mem)
      · exact List.Subset.refl _

end Pagesmith.Module
