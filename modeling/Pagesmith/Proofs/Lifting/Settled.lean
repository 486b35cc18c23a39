import Pagesmith.Proofs.Lifting.Origin
import Pagesmith.Proofs.Page.Place

/-!
What is left to do. A property is settled when none of its actions can be lifted. The turn of a node
settles its properties, nothing unsettles them again, and lifting leaves a settled page as it is.
-/

namespace Pagesmith

namespace Table

variable {κ α : Type} {key : κ} {value value' : α} {es : List (κ × α)}

/-- Under different keys an entry is known by its key. -/
theorem eq_of_mem (distinct : (es.map (·.1)).Nodup) (h : (key, value) ∈ es)
    (h' : (key, value') ∈ es) : value = value' :=
  (Prod.mk.inj (List.inj_on_of_nodup_map distinct h h' rfl)).2

variable [BEq κ] [LawfulBEq κ]

theorem mem_insert_other (distinct : (es.map (·.1)).Nodup) {e : κ × α}
    (h : e ∈ insert key value es) : e = (key, value) ∨ e ∈ es ∧ e.1 ≠ key := by
  induction es with
  | nil => exact .inl (List.mem_singleton.1 h)
  | cons x r ih =>
    rw [List.map_cons, List.nodup_cons] at distinct
    rw [insert] at h
    split at h
    · next same =>
      have same := eq_of_beq same
      obtain rfl | mem := List.mem_cons.1 h
      · exact .inl (Prod.ext same rfl)
      · refine .inr ⟨List.mem_cons_of_mem x mem, fun again => distinct.1 ?_⟩
        rw [same, ← again]
        exact List.mem_map_of_mem mem
    · next other =>
      obtain rfl | mem := List.mem_cons.1 h
      · exact .inr ⟨List.mem_cons_self, by simpa using other⟩
      · exact (ih distinct.2 mem).imp_right fun h => ⟨List.mem_cons_of_mem x h.1, h.2⟩

end Table

namespace Sheet

/-- No entry has two properties of the same name. -/
def DistinctKeys (s : Sheet) : Prop := ∀ l ∈ s, (l.props.map (·.1)).Nodup

variable {s : Sheet} {index i : Nat} {key : String} {p : PropOf Ref}

theorem mem_props_iff {e : String × PropOf Ref} :
    e ∈ s.props i ↔ ∃ l, s[i]? = some l ∧ e ∈ l.props := by
  rw [props]
  cases s[i]? <;> simp

theorem DistinctKeys.props (h : DistinctKeys s) (i : Nat) : ((s.props i).map (·.1)).Nodup := by
  rw [Sheet.props]
  cases there : s[i]? with
  | none => exact .nil
  | some l => exact h l (List.mem_of_getElem? there)

theorem DistinctKeys.setProp (h : DistinctKeys s) : DistinctKeys (s.setProp index key p) := by
  intro l mem
  obtain mem | ⟨l', mem', rfl⟩ := mem_setProp mem
  · exact h l mem
  · exact Table.nodup_insert (h l' mem') _ _

theorem props_setProp_other (other : i ≠ index) : (s.setProp index key p).props i = s.props i := by
  rw [props, setProp, List.getElem?_modify, props]
  simp only [if_neg (Ne.symm other)]
  cases s[i]? <;> rfl

theorem props_setProp_self (bound : index < s.length) :
    (s.setProp index key p).props index = Table.insert key p (s.props index) := by
  rw [props, setProp, List.getElem?_modify, props, List.getElem?_eq_getElem bound]
  simp only [if_true]
  rfl

theorem mem_props_setProp {e : String × PropOf Ref} (h : e ∈ (s.setProp index key p).props i) :
    e = (key, p) ∨ e ∈ s.props i := by
  by_cases same : i = index
  · subst same
    obtain ⟨l, there, -⟩ := mem_props_iff.1 h
    have bound := (List.getElem?_eq_some_iff.1 there).1
    rw [setProp, List.length_modify] at bound
    rw [props_setProp_self bound] at h
    exact Table.eq_or_mem_of_mem_insert h
  · rw [props_setProp_other same] at h
    exact .inr h

theorem setProp_same (distinct : DistinctKeys s) (h : (key, p) ∈ s.props index) :
    s.setProp index key p = s := by
  obtain ⟨l, there, mem⟩ := mem_props_iff.1 h
  rw [setProp]
  refine List.ext_getElem? fun i => ?_
  rw [List.getElem?_modify]
  by_cases same : index = i
  · rw [← same, there]
    simp only [if_true, Option.map_eq_map, Option.map_some,
      Table.insert_same (distinct l (List.mem_of_getElem? there)) mem]
  · simp only [if_neg same]
    cases s[i]? <;> rfl

theorem distinctKeys_ofNode {n : Node} (h : n.DistinctProps) : DistinctKeys (ofNode 0 n) := by
  intro l mem
  obtain ⟨ρ, -, there⟩ := mem_ofNode mem
  have keys := h _ there
  change ((l.map ρ).props.map (·.1)).Nodup at keys
  rwa [NodeOf.map, List.map_map] at keys

end Sheet

namespace PropOf

variable {ν μ : Type}

/-- The value is a list of one item. -/
def isSingle : PropOf ν → Bool
  | many [_] => true
  | _ => false

theorem isSingle_map (f : ν → μ) (p : PropOf ν) : (p.map f).isSingle = p.isSingle := by
  match p with
  | .many [] | .many [_] | .many (_ :: _ :: _) => rfl
  | .literal _ | .reference _ | .expression _ | .function _ | .action _ | .node _ | .raw _ => rfl

end PropOf

namespace Lifting

variable {c : Catalogue} {s : Sheet} {d : Draft} {a : Action}

/-- No action of the value can be lifted, and the actions are not a list of one. -/
structure IsSettled {ν : Type} (c : Catalogue) (s : Sheet) (p : PropOf ν) : Prop where
  targets : ∀ a ∈ p.actions, target? c s a = none
  single : asks p = true → p.isSingle = false

theorem isSettled_reference {ν : Type} (name : String) :
    IsSettled c s (.reference name : PropOf ν) where
  targets _ mem := nomatch mem
  single _ := rfl

theorem isSettled_quiet {ν : Type} {p : PropOf ν} (quiet : asks p = false) : IsSettled c s p where
  targets a mem := by
    cases found : target? c s a with
    | none => rfl
    | some t =>
      have asking := List.any_eq_false.1 quiet a mem
      rw [kind_of_target found] at asking
      cases asking rfl
  single asking := by
    rw [quiet] at asking
    cases asking

theorem isSettled_ofActions (as : List Action) : IsSettled c s (ofActions (as.map (lifted c s))) where
  targets a mem := by
    rw [actions_ofActions] at mem
    obtain ⟨b, -, rfl⟩ := List.mem_map.1 mem
    exact target?_lifted b
  single asking := by
    match as with
    | [] => rfl
    | [a] => rfl
    | a :: b :: r => rfl

theorem lifted_settled {ν : Type} {p : PropOf ν} (h : IsSettled c s p) :
    p.actions.map (lifted c s) = p.actions := map_lifted_idle h.targets

/-- A list of actions is what its actions make, unless it is a list of one. -/
theorem ofActions_actions {p : PropOf Ref} (given : p.actions ≠ []) (many : p.isSingle = false) :
    ofActions p.actions = p := by
  cases p with
  | action a => rfl
  | many items =>
    rw [PropOf.actions] at given ⊢
    split at given
    · next all =>
      rw [if_pos all]
      have actions : (items.filterMap PropOf.action?).map .action = items := by
        clear given many
        induction items with
        | nil => rfl
        | cons p r ih =>
          rw [List.all_cons, Bool.and_eq_true] at all
          cases p with
          | action a =>
            simp only [List.filterMap_cons, PropOf.action?, List.map_cons]
            rw [ih all.2]
          | _ => cases all.1
      generalize items.filterMap PropOf.action? = as at actions
      subst actions
      cases as with
      | nil => rfl
      | cons a r =>
        cases r with
        | nil => cases many
        | cons b r => rfl
    · exact absurd rfl given
  | _ => exact absurd rfl given

theorem actions_of_asks {ν : Type} {p : PropOf ν} (asking : asks p = true) : p.actions ≠ [] := by
  intro none
  rw [asks, none] at asking
  cases asking

section Turns

variable {index i : Nat}

theorem apply_distinct (t : Target) (h : d.sheet.DistinctKeys) :
    (apply t d).1.sheet.DistinctKeys :=
  @Target.apply_induction (fun d => d.sheet.DistinctKeys) t d h.setProp
    fun _ _ _ _ _ h => h.setProp

theorem effects_distinct (as : List Action) (h : d.sheet.DistinctKeys) :
    (as.foldl (effect c) d).sheet.DistinctKeys := by
  induction as generalizing d with
  | nil => exact h
  | cons a r ih =>
    refine ih ?_
    rw [effect]
    split
    · exact apply_distinct _ h
    · exact h

theorem turn_distinct {ps : List (String × PropOf Ref)} (h : d.sheet.DistinctKeys) :
    (turn c index ps d).sheet.DistinctKeys := by
  induction ps generalizing d with
  | nil => exact h
  | cons e r ih =>
    obtain ⟨key, p⟩ := e
    rw [turn]
    split
    · exact ih (effects_distinct p.actions h).setProp
    · exact ih h

theorem turns_distinct {indices : List Nat} (h : d.sheet.DistinctKeys) :
    (turns c indices d).sheet.DistinctKeys := by
  induction indices generalizing d with
  | nil => exact h
  | cons index r ih => exact ih (turn_distinct h)

/-- Lifting an action adds references only. -/
theorem mem_effect {e : String × PropOf Ref} (h : e ∈ (effect c d a).sheet.props i) :
    e ∈ d.sheet.props i ∨ ∃ name, e.2 = .reference name := by
  rw [effect] at h
  split at h
  · next t _ =>
    revert h
    refine @Target.apply_induction (fun d' => e ∈ d'.sheet.props i → _) t d ?_ ?_
    · intro h
      obtain rfl | mem := Sheet.mem_props_setProp h
      · exact .inr ⟨_, rfl⟩
      · exact .inl mem
    · intro m _ event _ d' ih h
      obtain rfl | mem := Sheet.mem_props_setProp h
      · exact .inr ⟨_, rfl⟩
      · exact ih mem
  · exact .inl h

theorem mem_effects {as : List Action} {e : String × PropOf Ref}
    (h : e ∈ (as.foldl (effect c) d).sheet.props i) :
    e ∈ d.sheet.props i ∨ ∃ name, e.2 = .reference name := by
  induction as generalizing d with
  | nil => exact .inl h
  | cons a r ih =>
    obtain mem | reference := ih h
    · exact mem_effect mem
    · exact .inr reference

/-- After the turn of a node its properties are settled, and so are those of other nodes that were
settled before. -/
theorem turn_settles {ps : List (String × PropOf Ref)} (distinct : d.sheet.DistinctKeys)
    (bare : d.sheet.map NodeOf.bare = s.map NodeOf.bare) (inside : index < d.sheet.length)
    (h : ∀ e ∈ d.sheet.props i, IsSettled c s e.2 ∨ i = index ∧ e ∈ ps) :
    ∀ e ∈ (turn c index ps d).sheet.props i, IsSettled c s e.2 := by
  induction ps generalizing d with
  | nil =>
    intro e mem
    exact (h e mem).resolve_right fun rest => List.not_mem_nil rest.2
  | cons e r ih =>
    obtain ⟨key, p⟩ := e
    rw [turn]
    split
    · have after : ∀ e ∈ (p.actions.foldl (effect c) d).sheet.props i,
          IsSettled c s e.2 ∨ i = index ∧ e ∈ (key, p) :: r := by
        intro e mem
        obtain mem | ⟨name, same⟩ := mem_effects mem
        · exact h e mem
        · rw [same]
          exact .inl (isSettled_reference name)
      have bare' := (effects_bare (c := c) p.actions d).trans bare
      have inside' : index < (p.actions.foldl (effect c) d).sheet.length := by
        rwa [Sheet.length_bare (effects_bare p.actions d)]
      have distinct' : (p.actions.foldl (effect c) d).sheet.DistinctKeys :=
        effects_distinct p.actions distinct
      refine ih distinct'.setProp ((Sheet.bare_setProp ..).trans bare') ?_ ?_
      · rw [Sheet.setProp, List.length_modify]
        exact inside'
      -- The property just settled is the only one that leaves the rest. The others of this node are
      -- still to come, and those of other nodes do not change with it.
      · intro e mem
        by_cases same : i = index
        · subst same
          rw [Sheet.props_setProp_self inside'] at mem
          obtain rfl | ⟨mem, other⟩ := Table.mem_insert_other (distinct'.props i) mem
          · rw [lifted_bare bare]
            exact .inl (isSettled_ofActions p.actions)
          · refine (after e mem).imp_right fun rest => ⟨rest.1, ?_⟩
            exact (List.mem_cons.1 rest.2).resolve_left fun first => other (congrArg Prod.fst first)
        · rw [Sheet.props_setProp_other same] at mem
          exact .inl ((after e mem).resolve_right fun rest => same rest.1)
    · next quiet =>
      refine ih distinct bare inside fun e mem => ?_
      obtain settled | ⟨same, rest⟩ := h e mem
      · exact .inl settled
      · obtain rfl | rest := List.mem_cons.1 rest
        · exact .inl (isSettled_quiet (by simpa using quiet))
        · exact .inr ⟨same, rest⟩

theorem turns_settle {indices : List Nat} (distinct : d.sheet.DistinctKeys)
    (bare : d.sheet.map NodeOf.bare = s.map NodeOf.bare)
    (inside : ∀ index ∈ indices, index < d.sheet.length)
    (h : (∀ e ∈ d.sheet.props i, IsSettled c s e.2) ∨ i ∈ indices) :
    ∀ e ∈ (turns c indices d).sheet.props i, IsSettled c s e.2 := by
  induction indices generalizing d with
  | nil => exact h.resolve_right fun mem => nomatch mem
  | cons index r ih =>
    rw [List.forall_mem_cons] at inside
    have bare' := turn_bare (c := c) index (d.sheet.props index) d
    refine ih (turn_distinct distinct) (bare'.trans bare) ?_ ?_
    · intro j mem
      rw [Sheet.length_bare bare']
      exact inside.2 j mem
    · obtain settled | mem := h
      · exact .inl (turn_settles distinct bare inside.1 fun e mem => .inl (settled e mem))
      · obtain rfl | mem := List.mem_cons.1 mem
        · exact .inl (turn_settles distinct bare inside.1 fun e mem => .inr ⟨rfl, mem⟩)
        · exact .inr mem

/-- After all turns every property is settled. -/
theorem finished_settled {p : Page} (distinct : p.root.DistinctProps) (i : Nat) :
    ∀ e ∈ (finished c p).sheet.props i, IsSettled c (draft p).sheet e.2 := by
  by_cases inside : i < (draft p).sheet.length
  · exact turns_settle (Sheet.distinctKeys_ofNode distinct) rfl (fun _ mem => List.mem_range.1 mem)
      (.inr (List.mem_range.2 inside))
  · intro e mem
    obtain ⟨l, there, -⟩ := Sheet.mem_props_iff.1 mem
    have bound := (List.getElem?_eq_some_iff.1 there).1
    rw [finished, Sheet.length_bare (turns_bare _ _)] at bound
    exact absurd bound inside

/-- Lifting leaves settled properties as they are. -/
theorem effects_idle {as : List Action} (h : ∀ a ∈ as, target? c d.sheet a = none) :
    as.foldl (effect c) d = d := by
  induction as with
  | nil => rfl
  | cons a r ih =>
    rw [List.forall_mem_cons] at h
    rw [List.foldl_cons, effect, h.1]
    exact ih h.2

theorem turn_idle {ps : List (String × PropOf Ref)} (distinct : d.sheet.DistinctKeys)
    (given : ps ⊆ d.sheet.props index) (settled : ∀ e ∈ ps, IsSettled c d.sheet e.2) :
    turn c index ps d = d := by
  induction ps with
  | nil => rfl
  | cons e r ih =>
    obtain ⟨key, p⟩ := e
    rw [List.forall_mem_cons] at settled
    rw [List.cons_subset] at given
    rw [turn]
    split
    · next asking =>
      have same : ofActions p.actions = p :=
        ofActions_actions (actions_of_asks asking) (settled.1.single asking)
      dsimp only
      rw [effects_idle settled.1.targets, lifted_settled settled.1, same,
        Sheet.setProp_same distinct given.1]
      exact ih given.2 settled.2
    · exact ih given.2 settled.2

theorem turns_idle {indices : List Nat} (distinct : d.sheet.DistinctKeys)
    (settled : ∀ i, ∀ e ∈ d.sheet.props i, IsSettled c d.sheet e.2) : turns c indices d = d := by
  induction indices with
  | nil => rfl
  | cons index r ih =>
    rw [turns, turn_idle distinct (List.Subset.refl _) (settled index)]
    exact ih

end Turns

end Lifting

end Pagesmith
