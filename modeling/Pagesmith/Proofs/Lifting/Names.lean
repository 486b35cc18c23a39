import Pagesmith.Catalogue.Default
import Pagesmith.Lifting.Basic
import Pagesmith.Proofs.Reading.Roots
import Pagesmith.Proofs.Table
import Pagesmith.Proofs.Text.Name

/-!
The names that lifting gives to the states and functions of a page. With the default catalogue every
lifted state says whether something is open, so the first letter of a name tells states and
functions apart.
-/

namespace Pagesmith.Lifting
open Text

variable {α β : Type}

/-- A step that keeps a property of the page so far, unless it fails. -/
def Keeps (I : Draft → Prop) (x : Lift α) : Prop := ∀ d, I d → (x d).Yields fun r => I r.2

section Keeps

variable {I : Draft → Prop}

theorem Keeps.pure (a : α) : Keeps I (Pure.pure a) := fun _ h => .pure h

theorem Keeps.bind {x : Lift α} {next : α → Lift β} (first : Keeps I x)
    (rest : ∀ a, Keeps I (next a)) : Keeps I (x >>= next) :=
  fun d h => .bind (first d h) fun r h' => rest r.1 r.2 h'

theorem Keeps.get {next : Draft → Lift β} (h : ∀ d, I d → (next d d).Yields fun r => I r.2) :
    Keeps I (MonadState.get >>= next) := fun d holds => h d holds

theorem Keeps.set {next : PUnit → Lift β} (rest : Keeps I (next ⟨⟩)) {d' : Draft} (h : I d')
    (d : Draft) : ((MonadState.set d' >>= next) d).Yields fun r => I r.2 := rest d' h

theorem Keeps.modify {f : Draft → Draft} (h : ∀ d, I d → I (f d)) :
    Keeps I (modify f : Lift PUnit) := fun d holds => .pure (h d holds)

theorem Keeps.lift (job : Job α) : Keeps I (liftM job) := fun _ h =>
  .bind (.any job) fun _ _ => .pure h

theorem Keeps.mapM {f : α → Lift β} (h : ∀ a, Keeps I (f a)) (as : List α) : Keeps I (as.mapM f) := by
  induction as with
  | nil => exact .pure []
  | cons a r ih =>
    rw [List.mapM_cons]
    exact .bind (h a) fun b => .bind ih fun bs => .pure _

end Keeps

/-- The states and functions of a page have names of their own, which differ from each other. -/
def Named (d : Draft) : Prop :=
  Table.Keyed (HasHead 'o') d.states ∧ Table.Keyed (HasHead 'h') d.methods

/-- Every method of a catalogue that drives a property drives one of this name. -/
def Drives (c : Catalogue) (prop : String) : Prop :=
  ∀ e ∈ c.materials, ∀ m ∈ e.2.methods, ∀ b ∈ m.binding, b.prop = prop

theorem drives_default : Drives .default "open" := by
  have all : (Catalogue.default.materials.all fun e => e.2.methods.all fun m =>
      m.binding.all (·.prop == "open")) = true := by
    decide
  simpa [Drives, Option.all_eq_true] using all

theorem resolve_drives {c : Catalogue} {prop : String} (drives : Drives c prop) {sheet : Sheet}
    {a : Action} {t : Target} (h : resolve c sheet a = .ok t) : t.binding.prop = prop := by
  simp only [resolve] at h
  split at h
  · contradiction
  split at h
  · contradiction
  split at h
  · contradiction
  split at h
  · contradiction
  next material found =>
  split at h
  · contradiction
  next m named =>
  split at h
  · contradiction
  next binding bound =>
  obtain rfl := Except.ok.inj h
  exact drives _ (Table.mem_of_lookup found) m (List.mem_of_find?_eq_some named) binding bound

theorem hasHead_closingMethod (m : ComponentMethod) (event id state : String) :
    HasHead 'h' (closingMethod m event id state).1 := by
  simp only [closingMethod]
  split
  · dsimp only
    exact hasHead_methodName _ _
  · dsimp only
    exact hasHead_methodName _ _

theorem bindClosingEvents_named {d : Draft} (h : Named d) (t : Target) (state : String) :
    Named (bindClosingEvents t state d) := by
  rw [bindClosingEvents]
  induction t.material.methods generalizing d with
  | nil => exact h
  | cons m r ih =>
    rw [List.foldl_cons]
    refine ih ?_
    split
    · exact h
    · next event closing =>
      have head := hasHead_closingMethod m event t.id state
      generalize closingMethod m event t.id state = named at head
      obtain ⟨name, method⟩ := named
      exact ⟨h.1, h.2.insertNew head method⟩

theorem apply_named {d : Draft} (h : Named d) {t : Target} (prop : t.binding.prop = "open") :
    Named (apply t d).1 := by
  have letter : HasHead 'o' t.binding.prop := by
    rw [prop]
    rfl
  have state := hasHead_stateName letter rfl t.id
  rw [apply]
  exact bindClosingEvents_named
    ⟨h.1.insertNew state _, h.2.insert (hasHead_methodName _ _) _⟩ t _

theorem action_keeps {c : Catalogue} (drives : Drives c "open") (a : Action) :
    Keeps Named (action c a) := by
  rw [action]
  split
  · exact .pure a
  · refine .get fun d h => ?_
    refine Keeps.bind (.lift _) (fun _ => ?_) d h
    cases found : resolve c d.sheet a with
    | error cause => exact .bind (.lift _) fun _ => .pure a
    | ok t =>
      have named := apply_named h (resolve_drives drives found)
      dsimp only
      generalize apply t d = applied at named
      obtain ⟨d', handler⟩ := applied
      exact fun d _ => Keeps.set (.bind (.lift _) fun _ => .pure _) named d

theorem props_keeps {c : Catalogue} (drives : Drives c "open") (index : Nat)
    (ps : List (String × PropOf Ref)) : Keeps Named (props c index ps) := by
  induction ps with
  | nil => exact .pure _
  | cons e r ih =>
    obtain ⟨key, p⟩ := e
    rw [props]
    split
    · exact .bind (.mapM (action_keeps drives) _) fun lifted => .bind (.modify fun d h => h) fun _ => ih
    · exact ih

theorem nodes_keeps {c : Catalogue} (drives : Drives c "open") (indices : List Nat) :
    Keeps Named (nodes c indices) := by
  induction indices with
  | nil => exact .pure _
  | cons index r ih =>
    refine .get fun d h => ?_
    exact Keeps.bind (props_keeps drives index _) (fun _ => ih) d h

/-- A page whose states and functions have names of their own. -/
def IsNamed (p : Page) : Prop :=
  Table.Keyed (HasHead 'o') p.states ∧ Table.Keyed (HasHead 'h') p.methods

theorem page_named {c : Catalogue} (drives : Drives c "open") {p : Page} (h : IsNamed p) :
    (page c p).Yields IsNamed := by
  rw [page]
  exact .bind (nodes_keeps drives _ ⟨_, p.states, p.methods⟩ h) fun r named => .pure named

theorem pages_named {c : Catalogue} (drives : Drives c "open") {ps : List Page}
    (h : ∀ p ∈ ps, IsNamed p) : (pages c ps).Yields fun found => ∀ p ∈ found, IsNamed p := by
  induction ps with
  | nil => exact .pure (by simp)
  | cons p r ih =>
    refine .bind (page_named drives (h p (by simp))) fun first named => ?_
    refine .bind (ih fun q mem => h q (by simp [mem])) fun rest more => .pure ?_
    simp only [List.forall_mem_cons]
    exact ⟨named, more⟩

theorem project_named {c : Catalogue} (drives : Drives c "open") {p : Project}
    (h : ∀ q ∈ p.pages, IsNamed q) : (project c p).Yields fun lifted => ∀ q ∈ lifted.pages, IsNamed q :=
  .bind (.any _) fun _ _ => .bind (pages_named drives h) fun _ named => .pure named

end Pagesmith.Lifting

namespace Pagesmith.Reading

theorem pages_named (c : Catalogue) (ns : List EditorNode) (used : List String) (index : Nat) :
    (pages c used index ns).Yields fun found => ∀ p ∈ found, Lifting.IsNamed p := by
  induction ns generalizing used index with
  | nil => exact .pure (by simp)
  | cons n r ih =>
    refine .bind (.any _) fun found _ => ?_
    refine .bind (ih _ _) fun rest more => .pure ?_
    simp only [List.forall_mem_cons]
    exact ⟨⟨⟨.nil, by simp⟩, .nil, by simp⟩, more⟩

/-- The pages of a schema have no states and functions yet. -/
theorem project_named (c : Catalogue) (schema : Value) :
    (project c schema).Yields fun p => ∀ q ∈ p.pages, Lifting.IsNamed q := by
  intro log p ok
  obtain ⟨-, -, named⟩ := project_yields (fun roots => pages_named c roots [] 0) log p ok
  exact named

end Pagesmith.Reading
