import Pagesmith.Proofs.Lifting.Tree
import Pagesmith.Proofs.Page.Reference

/-!
Lifting leaves no dangling reference. On a page as it is read, every name that the lifted tree refers
to is that of a state or a function of the page, every function sets a state that is there, and every
call that stands in the place of a component method is of a function that is there.
-/

namespace Pagesmith.Lifting

variable {c : Catalogue} {s : Sheet} {d : Draft} {p : Page}

/-- What may stand in the place of an action: the action itself, or in place of a component method a
call of one of these functions. -/
inductive Rewritten (functions : List String) (a : Action) : Action → Prop
  | same : Rewritten functions a a
  | called {handler : String} (kind : a.kind = componentMethod) (known : handler ∈ functions) :
    Rewritten functions a (call handler)

theorem rewritten_lifted {as : List Action} (served : Serves c s d as) :
    List.Forall₂ (Rewritten (d.methods.map (·.1))) as (as.map (lifted c s)) := by
  rw [List.forall₂_map_right_iff]
  refine List.forall₂_same.2 fun a mem => ?_
  cases found : target? c s a with
  | none =>
    rw [lifted_other found]
    exact .same
  | some t =>
    rw [lifted_target found]
    exact .called (kind_of_target found) (served a mem t found)

/-- What a property of the lifted tree is: a reference, or what the given one was with some of its
actions rewritten. -/
theorem reference_or_rewritten {n n' : Node}
    (alike : Sheet.Alike (Redrawn c s d) n n') {key : String} {v' : PropOf Node}
    (mem : (key, v') ∈ n'.layer.props) : (∃ name, v' = .reference name) ∨
      ∃ v, (key, v) ∈ n.layer.props ∧
        List.Forall₂ (Rewritten (d.methods.map (·.1))) v.actions v'.actions ∧
        (v'.actions = [] → v'.slotNodes = [] → v' = v) := by
  cases fate_of_alike (fun _ _ h => h) alike mem with
  | @given v ρ ρ' given same =>
    refine .inr ⟨_, given, ?_, fun _ slotless => same ?_⟩
    · rw [PropOf.actions_map, PropOf.actions_map]
      exact List.forall₂_same.2 fun a _ => .same
    · rwa [PropOf.slotNodes_map, List.map_eq_nil_iff] at slotless
  | lifted given asking served =>
    refine .inr ⟨_, given, ?_, fun none => ?_⟩
    · rw [PropOf.actions_map, actions_ofActions]
      exact rewritten_lifted served
    · rw [PropOf.actions_map, actions_ofActions, List.map_eq_nil_iff] at none
      exact absurd none (actions_of_asks asking)
  | bound => exact .inl ⟨_, rfl⟩

section References

theorem references_ofActions (as : List Action) :
    (ofActions as).references = [] ∧ (ofActions as).nodes = [] := by
  match as with
  | [] => exact ⟨rfl, rfl⟩
  | [a] => exact ⟨rfl, rfl⟩
  | a :: b :: r => exact PropOf.carried_actions (a :: b :: r)

/-- The layer refers to states and functions of the page only. -/
def Knowing (d : Draft) (layer : NodeOf Node) : Prop := ∀ name ∈ layer.references, d.Knows name

/-- What an entry of a lifted sheet refers to is known, and what trees it keeps are plain. -/
theorem Redrawn.knowing {l l' : NodeOf Ref} {ρ : Ref → Node} (h : Redrawn c s d l l')
    (resolves : Sheet.Resolves ρ) (plain : (Node.mk (l.map ρ)).Plain) :
    (∀ name ∈ l'.references, d.Knows name) ∧ ∀ n, .kept n ∈ l'.below → n.Plain := by
  have given : ∀ e ∈ l.props, e.2.references = [] ∧ ∀ n, .kept n ∈ e.2.nodes → n.Plain := by
    intro e mem
    obtain ⟨none, below⟩ := (Node.plain_iff.1 plain).1 _ (NodeOf.mem_props_map.2 ⟨e, mem, rfl⟩)
    rw [PropOf.references_map] at none
    refine ⟨none, fun n kept => below n ?_⟩
    rw [PropOf.nodes_map]
    have mapped := List.mem_map_of_mem (f := ρ) kept
    rwa [resolves] at mapped
  have fresh : ∀ e ∈ l'.props, (∀ name ∈ e.2.references, d.Knows name) ∧
      ∀ n, .kept n ∈ e.2.nodes → n.Plain := by
    intro e mem
    -- A property was there before, holds lifted actions, or is bound: only the last kind refers to
    -- names.
    cases h.origin e mem with
    | given mem =>
      obtain ⟨none, kept⟩ := given e mem
      rw [none]
      exact ⟨fun name mem => (nomatch mem), kept⟩
    | @lifted key v mem =>
      obtain ⟨references, nodes⟩ := references_ofActions (v.actions.map (lifted c s))
      dsimp only
      rw [references, nodes]
      exact ⟨fun name mem => (nomatch mem), fun n mem => (nomatch mem)⟩
    | bound bound known =>
      refine ⟨fun name mem => ?_, fun n mem => (nomatch mem)⟩
      obtain rfl := List.mem_singleton.1 mem
      exact known
  constructor
  · intro name mem
    obtain ⟨e, there, mem⟩ := List.mem_flatMap.1 mem
    exact (fresh e there).1 name mem
  · intro n mem
    obtain mem | mem := List.mem_append.1 mem
    · obtain ⟨e, there, mem⟩ := List.mem_flatMap.1 mem
      exact (fresh e there).2 n mem
    · rw [(NodeOf.bare_inj h.bare).2.2] at mem
      refine (Node.plain_iff.1 plain).2 n ?_
      have mapped := List.mem_map_of_mem (f := ρ) mem
      rw [resolves] at mapped
      change n ∈ (l.map ρ).childNodes
      rwa [NodeOf.childNodes_map]

/-- Wherever a lifted page refers to a name, it is that of a state or a function of the page. -/
theorem outcome_knowing (c : Catalogue) (plain : p.root.Plain) :
    (outcome c p).root.Everywhere (Knowing (finished c p)) := by
  have weaker : ∀ layer : NodeOf Node, layer.references = [] → Knowing (finished c p) layer := by
    intro layer none name mem
    rw [none] at mem
    cases mem
  have entries : ∀ l ∈ (finished c p).sheet, (∀ name ∈ l.references, (finished c p).Knows name) ∧
      ∀ n, .kept n ∈ l.below → n.Plain := by
    intro l' mem
    obtain ⟨index, there⟩ := List.mem_iff_getElem?.1 mem
    obtain ⟨l, found, redrawn⟩ := forall₂_at (follows_finished c p).sheet there
    obtain ⟨ρ, resolves, walked⟩ := Sheet.mem_ofNode (List.mem_of_getElem? found)
    exact redrawn.knowing resolves (plain.walk _ walked)
  have blank : Node.blank.Everywhere (Knowing (finished c p)) :=
    .mk (weaker _ rfl) fun n mem => nomatch mem
  have all := Sheet.everywhere_grow blank (fun l mem ρ name => by
    rw [NodeOf.references_map]
    exact (entries l mem).1 name) (fun l mem n kept => ((entries l mem).2 n kept).mono weaker) 0
  rw [outcome]
  cases grown : Sheet.grow 0 (finished c p).sheet with
  | nil => exact plain.mono weaker
  | cons root r => exact all root (by rw [grown]; exact List.mem_cons_self)

end References

end Pagesmith.Lifting
