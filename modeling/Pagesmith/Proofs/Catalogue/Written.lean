import Pagesmith.Catalogue.Rendering
import Pagesmith.Proofs.Page.Uniform
import Pagesmith.Proofs.Table

/-!
The properties that are written for a node. The rules of the catalogue bring in literals that are
whole and no node that the properties did not carry, and they look at nodes from outside only:
properties over other nodes with the same texts give the same result over those nodes.
-/

namespace Pagesmith

namespace PropOf

variable {ν μ : Type} (f : ν → μ) {showNode : ν → String} {showImage : μ → String}

mutual

theorem shown_map (same : ∀ n, showImage (f n) = showNode n) (p : PropOf ν) :
    (p.map f).shown showImage = p.shown showNode := by
  match p with
  | .node n => exact same n
  | .many items => simp only [map, shown, shownAll_map same items]
  | .literal _ | .reference _ | .expression _ | .function _ | .action _ | .raw _ => rfl

theorem shownAll_map (same : ∀ n, showImage (f n) = showNode n) (items : List (PropOf ν)) :
    shownAll showImage (mapAll f items) = shownAll showNode items := by
  match items with
  | [] => rfl
  | p :: r => simp only [mapAll, shownAll, shown_map same p, shownAll_map same r]

end

mutual

theorem asValue_map (same : ∀ n, showImage (f n) = showNode n) (p : PropOf ν) :
    (p.map f).asValue showImage = p.asValue showNode := by
  have text := shown_map f same p
  match p with
  | .many items => simp only [map, asValue, asValues_map same items]
  | .raw _ => rfl
  | .node _ | .literal _ | .reference _ | .expression _ | .function _ | .action _ =>
    simp only [map] at text
    simp only [map, asValue, text]
    rfl

theorem asValues_map (same : ∀ n, showImage (f n) = showNode n) (items : List (PropOf ν)) :
    asValues showImage (mapAll f items) = asValues showNode items := by
  match items with
  | [] => rfl
  | p :: r => simp only [mapAll, asValues, asValue_map same p, asValues_map same r]

end

end PropOf

namespace Catalogue

open PropOf Table

variable {ν μ : Type}

/-- A value is left as it is, or taken for a literal. -/
theorem classify_cases (showNode : ν → String) (p : PropOf ν) :
    classify showNode p = p ∨ ∃ v, classify showNode p = .literal v := by
  cases p with
  | many items =>
    rw [classify]
    split
    · exact .inl rfl
    · exact .inr ⟨_, rfl⟩
  | raw v => exact .inr ⟨_, rfl⟩
  | _ => exact .inl rfl

theorem classify_nodes (showNode : ν → String) (p : PropOf ν) :
    (classify showNode p).nodes ⊆ p.nodes := by
  obtain same | ⟨v, literal⟩ := classify_cases showNode p
  · rw [same]
    exact List.Subset.refl _
  · rw [literal]
    exact List.nil_subset _

theorem classify_slotNodes (showNode : ν → String) (p : PropOf ν) :
    (classify showNode p).slotNodes ⊆ p.slotNodes := by
  obtain same | ⟨v, literal⟩ := classify_cases showNode p
  · rw [same]
    exact List.Subset.refl _
  · rw [literal]
    exact List.nil_subset _

/-- Every property value has this property. -/
def AllProps (Q : PropOf ν → Prop) (props : List (String × PropOf ν)) : Prop := ∀ e ∈ props, Q e.2

/-- Properties that carry only nodes with this property. -/
def AllNodes (P : ν → Prop) (props : List (String × PropOf ν)) : Prop :=
  ∀ e ∈ props, ∀ n ∈ e.2.nodes, P n

section Kept

variable {Q : PropOf ν → Prop} {given props : List (String × PropOf ν)} {p : PropOf ν}
  {showNode : ν → String}

theorem AllProps.insert (h : AllProps Q props) (key : String) (own : Q p) :
    AllProps Q (Table.insert key p props) := by
  intro e mem
  obtain same | mem := mem_insert mem
  · rwa [same]
  · exact h e mem

theorem AllProps.append (h : AllProps Q props) (key : String) (own : Q p) :
    AllProps Q (props ++ [(key, p)]) := by
  intro e mem
  obtain mem | mem := List.mem_append.1 mem
  · exact h e mem
  · obtain rfl := List.mem_singleton.1 mem
    exact own

theorem AllProps.insertNew (h : AllProps Q props) (key : String) (own : Q p) :
    AllProps Q (Table.insertNew key p props) := by
  obtain ⟨-, same⟩ | ⟨-, more⟩ := insertNew_cases key p props
  · rwa [same]
  · rw [more]
    exact h.append key own

/-- A property of values that no step breaks: literals of the catalogue's own have it, and what the
steps make of a value that has it. -/
structure IsKept (showNode : ν → String) (Q : PropOf ν → Prop) : Prop where
  whole : ∀ v : Value, v.IsWhole ∅ → Q (.literal v)
  classify : ∀ p, Q p → Q (Catalogue.classify showNode p)
  listed : ∀ v, Q (.literal v) → Q (.literal (.list [v]))

theorem isWhole_row {row : List (String × Value)} (texts : ∀ e ∈ row, ∃ s, e.2 = .str s) :
    (Value.list [.dict row]).IsWhole ∅ := by
  have clean : Value.obstaclesOfEntries row = [] := by
    induction row with
    | nil => rfl
    | cons e r ih =>
      obtain ⟨⟨s, text⟩, rest⟩ := List.forall_mem_cons.1 texts
      rw [Value.obstaclesOfEntries, text, ih rest]
      rfl
  refine Value.isWhole_of_clean ?_
  rw [Value.obstacles, Value.obstaclesOfItems, Value.obstacles, clean, Value.obstaclesOfItems, List.append_nil]

theorem isWhole_sampleRows (columns : List Value) : (sampleRows columns).IsWhole ∅ := by
  rw [sampleRows]
  suffices texts : ∀ row : List (String × Value), (∀ e ∈ row, ∃ s, e.2 = .str s) →
      (Value.list [.dict (columns.foldl _ row)]).IsWhole ∅ from texts _ (by simp)
  induction columns with
  | nil => exact fun row h => isWhole_row h
  | cons column r ih =>
    refine fun row h => ih _ ?_
    dsimp only
    split
    · exact h
    · exact h
    · intro e mem
      obtain same | mem := mem_insert mem
      · exact ⟨sampleCell, same⟩
      · exact h e mem

theorem step_allProps (kept : IsKept showNode Q) (before : AllProps Q given) (h : AllProps Q props)
    (nodeId : String) (s : PropStep) : AllProps Q (step showNode given nodeId props s) := by
  cases s with
  | strip names => exact fun e mem => h e (List.mem_of_mem_filter mem)
  | classify =>
    intro e mem
    obtain ⟨e, found, rfl⟩ := List.mem_map.1 mem
    exact kept.classify e.2 (h e found)
  | promote name =>
    simp only [step, promote]
    split
    · exact h
    · next p found =>
      have rest : AllProps Q (erase name props) := fun e mem => h e (List.mem_of_mem_filter mem)
      split
      · exact rest
      · exact rest.append _ (h (name, p) (mem_of_lookup found))
  | keyed => exact h.insertNew _ (kept.whole _ (Value.isWhole_of_clean rfl))
  | fieldName =>
    -- A bare value of the field is written as the literal that it would be classified as.
    have bare {v : Value} (found : given.lookup "name" = some (.raw v)) : Q (.literal v) :=
      kept.classify _ (before ("name", .raw v) (mem_of_lookup found))
    simp only [step]
    split
    · exact h
    · next found => exact h.insert _ (bare found)
    · next found => exact h.insert _ (bare found)
    · next found => exact h.insert _ (bare found)
    · next found => exact h.insert _ (bare found)
    · next p _ _ _ _ found => exact h.insert _ (before ("name", p) (mem_of_lookup found))
  | listed name =>
    simp only [step]
    split
    · exact h
    · next v _ found =>
      split
      · exact h
      · exact h.insert _ (kept.listed v (h (name, _) (mem_of_lookup found)))
    · exact h
  | sampleRows =>
    simp only [step]
    split
    · split
      · exact h.insertNew _ (kept.whole _ (isWhole_sampleRows _))
      · exact h
    · exact h

theorem written_allProps (kept : IsKept showNode Q) (steps : List PropStep) (nodeId : String)
    (h : AllProps Q props) : AllProps Q (written showNode steps nodeId props) := by
  suffices all : ∀ found, AllProps Q found →
      AllProps Q (steps.foldl (step showNode props nodeId) found) from all props h
  induction steps with
  | nil => exact fun _ found => found
  | cons s r ih => exact fun found all => ih _ (step_allProps kept h all nodeId s)

/-- The names of the properties that the steps add. -/
def addedKeys : List String := ["children", "key", "dataSource"]

theorem step_keys {nodeId : String} {s : PropStep} {e : String × PropOf ν}
    (mem : e ∈ step showNode given nodeId props s) :
    e.1 ∈ given.map (·.1) ∨ e.1 ∈ props.map (·.1) ∨ e.1 ∈ addedKeys := by
  have own {key : String} {es : List (String × PropOf ν)} {v p : PropOf ν}
      (found : es.lookup key = some v) (h : e ∈ Table.insert key p props) :
      e.1 ∈ es.map (·.1) ∨ e.1 ∈ props.map (·.1) := by
    obtain rfl | h := eq_or_mem_of_mem_insert h
    · exact .inl (List.mem_map.2 ⟨_, mem_of_lookup found, rfl⟩)
    · exact .inr (List.mem_map_of_mem h)
  have added {key : String} (listed : key ∈ addedKeys) {p : PropOf ν} (h : e ∈ Table.insertNew key p props) :
      e.1 ∈ props.map (·.1) ∨ e.1 ∈ addedKeys := by
    obtain rfl | h := mem_of_mem_insertNew h
    · exact .inr listed
    · exact .inl (List.mem_map_of_mem h)
  cases s with
  | strip names => exact .inr (.inl (List.mem_map_of_mem (List.mem_of_mem_filter mem)))
  | classify =>
    obtain ⟨e, found, rfl⟩ := List.mem_map.1 mem
    exact .inr (.inl (List.mem_map.2 ⟨e, found, rfl⟩))
  | promote name =>
    refine .inr ?_
    simp only [step, promote] at mem
    split at mem
    · exact .inl (List.mem_map_of_mem mem)
    · next p found =>
      split at mem
      · exact .inl (List.mem_map_of_mem (List.mem_of_mem_filter mem))
      · obtain mem | mem := List.mem_append.1 mem
        · exact .inl (List.mem_map_of_mem (List.mem_of_mem_filter mem))
        · obtain rfl := List.mem_singleton.1 mem
          exact .inr (by decide : "children" ∈ addedKeys)
  | keyed => exact .inr (added (by decide) mem)
  | fieldName =>
    simp only [step] at mem
    split at mem
    · exact .inr (.inl (List.mem_map_of_mem mem))
    all_goals exact (own ‹_› mem).imp_right .inl
  | listed name =>
    simp only [step] at mem
    split at mem
    · exact .inr (.inl (List.mem_map_of_mem mem))
    · next found =>
      split at mem
      · exact .inr (.inl (List.mem_map_of_mem mem))
      · exact .inr (.inl ((own found mem).elim id id))
    · exact .inr (.inl (List.mem_map_of_mem mem))
  | sampleRows =>
    simp only [step] at mem
    split at mem
    · split at mem
      · exact .inr (added (by decide) mem)
      · exact .inr (.inl (List.mem_map_of_mem mem))
    · exact .inr (.inl (List.mem_map_of_mem mem))

/-- A property that is written has the name of a given one, or one that the steps add. -/
theorem written_keys (steps : List PropStep) (nodeId : String) :
    ∀ e ∈ written showNode steps nodeId props, e.1 ∈ props.map (·.1) ∨ e.1 ∈ addedKeys := by
  suffices all : ∀ found, (∀ e ∈ found, e.1 ∈ props.map (·.1) ∨ e.1 ∈ addedKeys) →
      ∀ e ∈ steps.foldl (step showNode props nodeId) found, e.1 ∈ props.map (·.1) ∨ e.1 ∈ addedKeys from
    all props fun e mem => .inl (List.mem_map_of_mem mem)
  induction steps with
  | nil => exact fun _ h => h
  | cons s r ih =>
    refine fun found h => ih _ fun e mem => ?_
    obtain given | found | added := step_keys mem
    · exact .inl given
    · obtain ⟨e', there, same⟩ := List.mem_map.1 found
      exact same ▸ h e' there
    · exact .inr added

end Kept

section Spared

variable {showNode : ν → String} {given props : List (String × PropOf ν)} {key : String} {p : PropOf ν}

/-- The step leaves a property of this name as it is, if its value is a property value. -/
def spares (key : String) : PropStep → Bool
  | .strip names => !editorOnly.contains key && !names.contains key
  | .promote name | .listed name => key != name
  | .fieldName => key != "name"
  | .classify | .keyed | .sampleRows => true

theorem step_lookup {s : PropStep} (spared : spares key s = true) (settled : classify showNode p = p)
    (nodeId : String) (found : props.lookup key = some p) :
    (step showNode given nodeId props s).lookup key = some p := by
  have inserted {name : String} (other : (key != name) = true) (q : PropOf ν) :
      (Table.insert name q props).lookup key = some p := by
    rw [lookup_insert, if_neg (by simpa using other), found]
  have beside {name : String} {q : PropOf ν} : (Table.insertNew name q props).lookup key = some p := by
    obtain ⟨-, same⟩ | ⟨-, more⟩ := insertNew_cases name q props
    · rw [same, found]
    · rw [more, List.lookup_append, found, Option.some_or]
  cases s with
  | strip names =>
    exact (lookup_filter_keys (fun k => !editorOnly.contains k && !names.contains k) spared props).trans found
  | classify =>
    have image := lookup_mapValues (classify showNode) key props
    rw [found, Option.map_some, settled] at image
    exact image
  | promote name =>
    have rest : (erase name props).lookup key = some p :=
      (lookup_filter_keys (· != name) spared props).trans found
    simp only [step, promote]
    split
    · exact found
    · split
      · exact rest
      · rw [List.lookup_append, rest, Option.some_or]
  | keyed => exact beside
  | fieldName =>
    simp only [step]
    split
    · exact found
    all_goals exact inserted spared _
  | listed name =>
    simp only [step]
    split
    · exact found
    · split
      · exact found
      · exact inserted spared _
    · exact found
  | sampleRows =>
    simp only [step]
    split
    · split
      · exact beside
      · exact found
    · exact found

/-- A property value that all steps spare is written as it is given. -/
theorem written_lookup {steps : List PropStep} (spared : steps.all (spares key) = true)
    (settled : classify showNode p = p) (nodeId : String) (found : props.lookup key = some p) :
    (written showNode steps nodeId props).lookup key = some p := by
  suffices all : ∀ es : List (String × PropOf ν), es.lookup key = some p →
      (steps.foldl (step showNode props nodeId) es).lookup key = some p from all props found
  induction steps with
  | nil => exact fun _ found => found
  | cons s r ih =>
    rw [List.all_cons, Bool.and_eq_true] at spared
    exact fun es found => ih spared.2 _ (step_lookup spared.1 settled nodeId found)

end Spared

theorem isKept_nodes (showNode : ν → String) (P : ν → Prop) :
    IsKept showNode fun p => ∀ n ∈ p.nodes, P n where
  whole _ _ := fun _ mem => nomatch mem
  classify p h := fun n mem => h n (classify_nodes showNode p mem)
  listed _ _ := fun _ mem => nomatch mem

theorem isKept_slots (showNode : ν → String) (P : ν → Prop) :
    IsKept showNode fun p => ∀ n ∈ p.slotNodes, P n where
  whole _ _ := fun _ mem => nomatch mem
  classify p h := fun n mem => h n (classify_slotNodes showNode p mem)
  listed _ _ := fun _ mem => nomatch mem

theorem isKept_whole (showNode : ν → String) (excused : Set Fault) :
    IsKept showNode (PropOf.IsWhole excused) where
  whole _ h := h.mono (Set.empty_subset _)
  classify p h := by
    cases p with
    | many items =>
      rw [classify]
      split
      · exact h
      · next mixed =>
        have uniform := h.uniform
        cases items with
        | nil => exact Value.isWhole_of_clean rfl
        | cons p r => exact absurd uniform mixed
    | _ => exact h
  listed v h := by
    have same : (Value.list [v]).obstacles = v.obstacles := by
      rw [Value.obstacles, Value.obstaclesOfItems, Value.obstaclesOfItems, List.append_nil]
    have alike : (Value.list [v]).holdsLongNumber = v.holdsLongNumber := by
      rw [Value.holdsLongNumber, Value.itemsHoldLongNumber, Value.itemsHoldLongNumber, Bool.or_false]
    obtain ⟨acyclic, short⟩ := h
    exact ⟨same ▸ acyclic, alike ▸ short⟩

section Naturality

variable (f : ν → μ) {showNode : ν → String} {showImage : μ → String}

theorem classify_map (same : ∀ n, showImage (f n) = showNode n) (p : PropOf ν) :
    classify showImage (p.map f) = (classify showNode p).map f := by
  cases p with
  | many items =>
    have actions := isActionList_map f (.many items)
    have slots := isSlotList_map f (.many items)
    simp only [PropOf.map] at actions slots
    simp only [PropOf.map, classify, actions, slots, asValues_map f same]
    split <;> rfl
  | _ => rfl

theorem promote_map (name : String) (props : List (String × PropOf ν)) :
    promote name (mapValues (PropOf.map f) props) =
      mapValues (PropOf.map f) (promote name props) := by
  simp only [promote, lookup_mapValues, erase_mapValues, has_mapValues]
  cases props.lookup name with
  | none => rfl
  | some p =>
    simp only [Option.map_some, isBlankLiteral_map]
    split
    · rfl
    · simp [mapValues]

theorem step_map (same : ∀ n, showImage (f n) = showNode n) (given props : List (String × PropOf ν))
    (nodeId : String) (s : PropStep) :
    step showImage (mapValues (PropOf.map f) given) nodeId (mapValues (PropOf.map f) props) s =
      mapValues (PropOf.map f) (step showNode given nodeId props s) := by
  have inserted (key : String) (v : Value) :=
    insert_mapValues (PropOf.map f) key (.literal v) props
  have insertedNew (key : String) (v : Value) :=
    insertNew_mapValues (PropOf.map f) key (.literal v) props
  have placed (key : String) (p : PropOf ν) := insert_mapValues (PropOf.map f) key p props
  cases s with
  | strip names =>
    simp only [step, mapValues, List.filter_map]
    rfl
  | classify =>
    simp only [step, mapValues, List.map_map, Function.comp_def, classify_map f same]
  | promote name => exact promote_map f name props
  | keyed => exact insertedNew _ _
  | fieldName =>
    simp only [step, lookup_mapValues]
    cases given.lookup "name" with
    | none => rfl
    | some p =>
      simp only [Option.map_some]
      -- Only a plain raw value is read as a name; anything else is put back as it stands.
      cases p with
      | raw v =>
        cases v with
        | str | int | float | bool => exact inserted _ _
        | _ =>
          simp only [PropOf.map]
          exact placed "name" (.raw _)
      | literal v => exact placed "name" (.literal v)
      | reference x => exact placed "name" (.reference x)
      | expression t => exact placed "name" (.expression t)
      | function t => exact placed "name" (.function t)
      | action a => exact placed "name" (.action a)
      | node n => exact placed "name" (.node n)
      | many items => exact placed "name" (.many items)
  | listed name =>
    simp only [step, lookup_mapValues]
    cases props.lookup name with
    | none => rfl
    | some p =>
      cases p with
      | literal v =>
        cases v with
        | null => rfl
        | _ =>
          simp only [Option.map_some, PropOf.map]
          split
          · rfl
          · exact inserted _ _
      | _ => rfl
  | sampleRows =>
    simp only [step, lookup_mapValues]
    cases props.lookup "columns" with
    | none => rfl
    | some p =>
      cases p with
      | literal v =>
        simp only [Option.map_some, PropOf.map]
        cases v.items? with
        | none => rfl
        | some columns => exact insertedNew _ _
      | _ => rfl

theorem written_map (same : ∀ n, showImage (f n) = showNode n) (steps : List PropStep)
    (nodeId : String) (props : List (String × PropOf ν)) :
    written showImage steps nodeId (mapValues (PropOf.map f) props) =
      mapValues (PropOf.map f) (written showNode steps nodeId props) := by
  suffices all : ∀ found,
      steps.foldl (step showImage (mapValues (PropOf.map f) props) nodeId)
        (mapValues (PropOf.map f) found) =
      mapValues (PropOf.map f) (steps.foldl (step showNode props nodeId) found) from all props
  induction steps with
  | nil => exact fun _ => rfl
  | cons s r ih =>
    intro found
    rw [List.foldl_cons, List.foldl_cons, step_map f same, ih]

end Naturality

end Catalogue

end Pagesmith
