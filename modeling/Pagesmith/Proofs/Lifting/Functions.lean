import Pagesmith.Proofs.Lifting.Names
import Pagesmith.Proofs.Lifting.Trace
import Pagesmith.Proofs.Text.Name

/-!
The names that lifting gives to states and functions under the default catalogue. A name says which
method of a component it is for, and how the identifier of the component reads in a name.
-/

namespace Pagesmith.Lifting
open Text

/-- The beginning of the name of the page function for a component method. -/
def functionHead (method : String) : String :=
  (if hasStart "handle" method then method else "handle" ++ upperFirst method) ++ "_"

/-- The method that a closing event is named after. -/
def closingName (m : ComponentMethod) (event : String) : String :=
  if m.passesValue then
    if dropChars 2 event == "" then m.name else dropChars 2 event
  else m.name

/-- The beginnings of the names of page functions under the default catalogue. -/
def functionHeads : List String := ["handleOpen_", "handleClose_", "handleOk_", "handleOpenChange_"]

theorem closingMethod_name (m : ComponentMethod) (event id state : String) :
    (closingMethod m event id state).1 = methodName (closingName m event) id := by
  simp only [closingMethod, closingName]
  cases m.passesValue with
  | true => simp only [if_true]
  | false => simp only [Bool.false_eq_true, if_false]

theorem functionHead_default : ∀ e ∈ Catalogue.default.materials, ∀ m ∈ e.2.methods,
    functionHead m.name ∈ functionHeads ∧
      ∀ event ∈ m.event, functionHead (closingName m event) ∈ functionHeads := by
  have all : (Catalogue.default.materials.all fun e => e.2.methods.all fun m =>
      functionHeads.contains (functionHead m.name) &&
        m.event.all fun event => functionHeads.contains (functionHead (closingName m event))) =
      true := by
    decide +kernel
  simpa only [List.all_eq_true, Bool.and_eq_true, List.contains_iff_mem, Option.all_eq_true, Option.mem_def]
    using all

theorem functionHeads_apart : ∀ h ∈ functionHeads, ∀ h' ∈ functionHeads,
    h.toList <+: h'.toList → h = h' := by
  decide

theorem isName_functionHeads : ∀ h ∈ functionHeads, IsName h := by
  decide

/-- Functions with the same name have the same beginning of it, and belong to components whose
identifiers read alike. -/
theorem function_inj {h h' id id' : String} (mem : h ∈ functionHeads) (mem' : h' ∈ functionHeads)
    (same : toIdentifier (h ++ id) = toIdentifier (h' ++ id')) : h = h' ∧ ReadsAlike id id' := by
  have name := isName_functionHeads h mem
  have name' := isName_functionHeads h' mem'
  -- No beginning of a name begins another one, so names that are equal have the same beginning.
  obtain rfl : h = h' := by
    obtain before | before := prefix_of_toIdentifier_append name name' same
    · exact functionHeads_apart h mem h' mem' before
    · exact (functionHeads_apart h' mem' h mem before).symm
  exact ⟨rfl, (toIdentifier_append_inj name).1 same⟩

theorem methodName_eq (method id : String) :
    methodName method id = toIdentifier (functionHead method ++ id) := rfl

theorem eventOf_closing {prop event : String} {m : ComponentMethod}
    (h : closingEvent? prop m = some event) : event ∈ m.event := by
  rw [closingEvent?.eq_def] at h
  split at h
  · next event' _ given =>
    split at h
    · obtain rfl := Option.some.inj h
      exact given
    · cases h
  · cases h

theorem openState_inj {id id' : String} : stateName "open" id = stateName "open" id' ↔ ReadsAlike id id' := by
  have head : stateName "open" = fun id => toIdentifier ("open_" ++ id) := rfl
  rw [head]
  exact toIdentifier_append_inj (by decide)

variable {p : Page} {t : Target} {name : String}

/-- With the default catalogue every lifted state says whether its component is open. -/
theorem state_of_lifted (mem : t ∈ liftedTargets .default p) : t.state = stateName "open" t.id := by
  obtain ⟨a, n, resolves, -⟩ := liftedTargets_resolve mem
  have method := List.mem_of_find?_eq_some resolves.found
  rw [Target.state, drives_default _ (Table.mem_of_lookup resolves.known) _ method _ resolves.binding]

theorem function_of_lifted (mem : t ∈ liftedTargets .default p) (function : t.Function name) :
    ∃ h ∈ functionHeads, name = toIdentifier (h ++ t.id) := by
  obtain ⟨a, n, resolves, -⟩ := liftedTargets_resolve mem
  have heads := functionHead_default _ (Table.mem_of_lookup resolves.known)
  cases function with
  | method => exact ⟨_, (heads _ (List.mem_of_find?_eq_some resolves.found)).1, rfl⟩
  | @closing m event method closes =>
    refine ⟨_, (heads m method).2 event (eventOf_closing closes), ?_⟩
    rw [closingMethod_name, methodName_eq]

end Pagesmith.Lifting
