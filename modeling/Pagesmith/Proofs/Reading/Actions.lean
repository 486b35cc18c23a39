import Pagesmith.Proofs.Reading.Plain

/-!
Action lists, read. Of a list under the key for actions the valid entries are taken, in their order, and the others
are left out; what is read are the actions of those entries and nothing else.
-/

namespace Pagesmith.Reading

/-- The entry is this action: it has a kind that is not the empty text, and settings of which it has a copy. -/
inductive IsAction (a : Action) : Value → Prop
  | mk {entry config : Value} {entries : List (String × Value)} (object : entry.entries? = some entries)
    (kind : (entries.lookup "type").bind Value.str? = some a.kind) (given : a.kind ≠ "")
    (settings : actionConfig? entries = some config) (copied : config.copy = .ok a.config) : IsAction a entry

/-- The actions of a list of entries, without the entries that are none. -/
inductive Chosen : List Value → List Action → Prop
  | nil : Chosen [] []
  | take {entry : Value} {r : List Value} {a : Action} {as : List Action} (valid : IsAction a entry)
    (rest : Chosen r as) : Chosen (entry :: r) (a :: as)
  | skip {entry : Value} {r : List Value} {as : List Action} (invalid : ∀ a, ¬ IsAction a entry)
    (rest : Chosen r as) : Chosen (entry :: r) as

section Reading

variable {key : String} {owner : Owner} {entry : Value} {entries : List Value} {as : List Action}

theorem action?_valid {a : Action} (h : IsAction a entry) : (action? key owner entry).Ends (some a) := by
  obtain ⟨object, kind, given, settings, copied⟩ := h
  rw [action?, object]
  simp only [kind, settings, copied, beq_iff_eq, if_neg given]
  exact .pure _

theorem action?_invalid (h : ∀ a, ¬ IsAction a entry) : (action? key owner entry).Ends none := by
  rw [action?]
  split
  · exact .pure _
  · next object =>
    split
    · next kind config found settings =>
      split
      · exact .pure _
      · next given =>
        split
        · next copy copied => exact absurd (.mk object found (by simpa using given) settings copied) (h ⟨kind, copy⟩)
        · exact .bind (.note _) (.pure _)
    · exact .pure _

theorem actionsOf_chosen (h : Chosen entries as) : (actionsOf key owner entries).Ends as := by
  induction h with
  | nil => exact .pure _
  | take valid _ ih => exact .bind (action?_valid valid) (.bind ih (.pure _))
  | skip invalid _ ih => exact .bind (action?_invalid invalid) (.bind ih (.pure _))

theorem actionProp_chosen (h : Chosen entries as) (given : as ≠ []) (key : String) (owner : Owner) :
    ∃ p : PropOf Node, (actionProp key owner entries).Ends p ∧ p.actions = as := by
  obtain ⟨a, more, rfl⟩ := List.exists_cons_of_ne_nil given
  refine ⟨if more.isEmpty then .action a else .many ((a :: more).map .action), ?_, ?_⟩
  · refine .bind (actionsOf_chosen h) ?_
    dsimp only
    split
    · exact .bind (.note _) (.pure _)
    · exact .pure _
  · cases more with
    | nil => rfl
    | cons b r => exact PropOf.actions_many (a :: b :: r)

/-- The settings that are taken are whole. -/
theorem Chosen.whole {excused : Set Fault} (h : Chosen entries as) : ∀ a ∈ as, a.config.IsWhole excused :=
  actionsOf_whole "" ⟨"", .null⟩ entries [] as (actionsOf_chosen h [])

/-- The readings of the default catalogue leave everything but numbers. -/
theorem special_default {c : Catalogue} (usual : c.ReadsAsDefault) {v : Value} {es : List (String × Value)}
    (object : v.entries? = some es) (key : String) (owner : Owner) :
    (special? (c.propReadings.lookup owner.name) key v owner).Ends none := by
  have leaves (prop : String) : (Catalogue.numberAsText prop key v owner).Ends none := by
    rw [Catalogue.numberAsText.eq_def]
    split
    · cases v with
      | dict => exact .pure _
      | _ => cases object
    · exact .pure _
  cases found : c.propReadings.lookup owner.name with
  | none => exact .pure _
  | some reading =>
    obtain ⟨prop, rfl, -⟩ := usual.reading_eq found
    exact leaves prop

/-- Of a property with a list of actions the valid ones are read, unless a reading comes before. -/
theorem propValue_chosen {c : Catalogue} {v : Value} {es : List (String × Value)} (object : v.entries? = some es)
    (listed : (es.lookup "actions").bind Value.items? = some entries) (h : Chosen entries as) (given : as ≠ [])
    {owner : Owner} {key : String} (left : (special? (c.propReadings.lookup owner.name) key v owner).Ends none)
    (path : List String) (slot : Slot) :
    ∃ p : PropOf Node, Settles (propValue c owner path key (.mk v slot)) p ∧ p.actions = as := by
  obtain ⟨p, ends, actions⟩ := actionProp_chosen h given key owner
  refine ⟨p, ?_, actions⟩
  rw [propValue.eq_def]
  refine .bind (.lift left) ?_
  simp only [object, Option.getD_some, listed]
  exact .lift ends

end Reading

end Pagesmith.Reading
