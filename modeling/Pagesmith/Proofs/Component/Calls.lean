import Pagesmith.Component.Handler
import Pagesmith.Proofs.Component.Walk
import Pagesmith.Proofs.Lifting.Closed
import Pagesmith.Proofs.Lifting.Target
import Pagesmith.Proofs.Reading.Plain
import Pagesmith.Proofs.Text.Line

/-!
Calls of page functions. What lifting puts in the place of a component method is written as the call
of a function, and the module of the page declares that function.
-/

namespace Pagesmith

namespace Component
open Build Pagesmith.Module Text

/-- The default handler writes a call of a page function as such, and leaves the module as it is. -/
theorem statement_call {handler : String} (name : IsName handler) (m : Module) (log : List Notice) :
    Handlers.statement (Handlers.default.get (Lifting.call handler).kind) (Lifting.call handler) m log =
      ((.ok (handler ++ "();"), m), log) := by
  have target : Handlers.callTarget ((Lifting.call handler).setting "methodName") =
      .str handler := by
    change Handlers.callTarget (.str (Lifting.methodMark ++ handler)) = _
    rw [Handlers.callTarget]
    change (if hasStart Lifting.methodMark (Lifting.methodMark ++ handler) = true then
      Value.str (dropChars Lifting.methodMark.length (Lifting.methodMark ++ handler)) else _) = _
    rw [if_pos (hasStart_append _ _), dropChars_append]
  change Build.ofJob (Handlers.callStatement
    (Handlers.callTarget ((Lifting.call handler).setting "methodName"))) m log = _
  rw [target, Handlers.callStatement]
  simp only [name.isIdentifier, if_true]
  rfl

section Declared

variable {fs : List String}

/-- The module declares these functions. -/
def Declares (fs : List String) (m : Module) : Prop := fs ⊆ m.methods.map (·.1)

theorem addImport_declares (d : Dependency) (wish : Option String) :
    Keeps (Declares fs) (addImport d wish) := by
  refine fun m h => (addImport_ensures d wish m).mono ?_
  rintro r m' ⟨name, -, ⟨-, -, rfl⟩ | ⟨-, -, rfl⟩ | ⟨-, -, -, rfl⟩⟩
  · exact h
  · exact h
  · exact h

theorem addState_declares (name : String) (initial : Value) :
    Keeps (Declares fs) (addState name initial) := by
  refine fun m h => (addState_ensures name initial m).mono ?_
  rintro r m' (⟨-, -, rfl⟩ | ⟨-, -, -, rfl⟩ | ⟨-, -, -, rfl⟩)
  · exact h
  · exact h
  · exact h

theorem addMethod_methods (name code : String) (m : Module) :
    m.methods.map (·.1) ⊆ (addMethod name code m).methods.map (·.1) ∧
      name ∈ (addMethod name code m).methods.map (·.1) := by
  rw [addMethod]
  split
  · next known => exact ⟨List.Subset.refl _, Table.has_iff.1 known⟩
  · simp only [List.map_append, List.map_cons, List.map_nil]
    exact ⟨List.subset_append_left _ _, List.mem_append_right _ (List.mem_singleton.2 rfl)⟩

theorem eventFunction_declares (w : Writer) (key id : String) (actions : List Action) :
    Keeps (Declares fs) (eventFunction w key id actions) := by
  refine .bind (fun m h => (uniqueName_ensures _ m).mono ?_) fun name =>
    .bind (statements_keeps (addImport_declares _) _ _) fun statements =>
      .bind (.modify fun m h => List.Subset.trans h (addMethod_methods _ _ m).1) fun _ => .pure _
  rintro r m' ⟨name, -, -, rfl⟩
  exact h

theorem loadRows_declares (id url : String) : Keeps (Declares fs) (loadRows id url) := by
  refine .bind (addState_declares _ _) fun _ => .bind (.modify fun m h => ?_) fun _ => .pure _
  rw [Declares, addEffect]
  split
  · exact h
  · exact h

theorem element_declares (w : Writer) (n : Node) : Keeps (Declares fs) (element w n) :=
  element_keeps addImport_declares (eventFunction_declares w) loadRows_declares n

/-- States whose first values are the Boolean `false` are declared without fail. -/
theorem writeStates_false {states : List (String × Value)} (h : ∀ s ∈ states, s.2 = .bool false)
    (m : Module) : (writeStates states).Ensures m fun r _ => r = .ok () := by
  induction states generalizing m with
  | nil => exact .pure rfl
  | cons s r ih =>
    rw [List.forall_mem_cons] at h
    obtain ⟨name, initial⟩ := s
    obtain ⟨rfl, rest⟩ := h
    refine .bind ((addState_ensures name (.bool false) m).mono ?_)
    rintro _ m' (⟨-, rfl, -⟩ | ⟨-, ⟨f, stops, -⟩, -⟩ | ⟨-, -, rfl, -⟩)
    · exact ih rest m'
    · cases stops
    · exact ih rest m'

/-- Some function assigns a value whose literal fails over this. -/
def Assigns (stop : Fault) (methods : List (String × PageMethod)) : Prop :=
  ∃ f ∈ methods, ∃ state value, f.2 = .setter state value false ∧ Script.literalFault? value = some stop

theorem Assigns.cons {stop : Fault} {methods : List (String × PageMethod)} (h : Assigns stop methods)
    (f : String × PageMethod) : Assigns stop (f :: methods) := by
  obtain ⟨g, mem, assigns⟩ := h
  exact ⟨g, List.mem_cons_of_mem _ mem, assigns⟩

theorem pageMethod_outcome (name : String) (method : PageMethod) (log : List Notice) :
    (∃ code, (pageMethod name method log).1 = .ok code) ∨
      ∃ stop, (pageMethod name method log).1 = .error stop ∧
        ∃ state value, method = .setter state value false ∧ Script.literalFault? value = some stop := by
  match method with
  | .function _ | .setter _ _ true => exact .inl ⟨_, rfl⟩
  | .setter state value false =>
    have outcome := Script.literal_outcome value log
    simp only [pageMethod, Bind.bind, ExceptT.bind, ExceptT.mk, StateT.bind]
    rcases result : Script.literal value log with ⟨r, log'⟩
    rw [result] at outcome
    obtain rfl : r = _ := outcome
    cases stops : Script.literalFault? value with
    | some stop => exact .inr ⟨stop, rfl, state, value, rfl, stops⟩
    | none => exact .inl ⟨_, rfl⟩

/-- The functions of a page are declared, unless one of them assigns a value that has no literal. -/
theorem writeMethods_declares (methods : List (String × PageMethod)) {m : Module}
    (h : Declares fs m) : (writeMethods methods).Ensures m fun r m' =>
      (r = .ok () ∧ Declares (fs ++ methods.map (·.1)) m') ∨
        ∃ stop, r = .error stop ∧ Assigns stop methods := by
  induction methods generalizing m fs with
  | nil => exact .pure (.inl ⟨rfl, by simpa using h⟩)
  | cons f r ih =>
    obtain ⟨name, method⟩ := f
    refine .bind (.ofJob fun log => ?_)
    obtain ⟨code, written⟩ | ⟨stop, failed, assigns⟩ := pageMethod_outcome name method log
    · rw [written]
      obtain ⟨grown, known⟩ := addMethod_methods name code m
      have declared : Declares (fs ++ [name]) (addMethod name code m) := by
        refine List.append_subset.2 ⟨List.Subset.trans h grown, fun _ mem => ?_⟩
        obtain rfl := List.mem_singleton.1 mem
        exact known
      refine .bind (.modify ((ih declared).mono ?_))
      rintro result m' (⟨rfl, more⟩ | ⟨stop, rfl, assigns⟩)
      · exact .inl ⟨rfl, by simpa using more⟩
      · exact .inr ⟨stop, rfl, assigns.cons _⟩
    · rw [failed]
      obtain ⟨state, value, setter, stops⟩ := assigns
      exact .inr ⟨stop, rfl, _, List.mem_cons_self, state, value, setter, stops⟩

/-- Whatever comes of writing a page whose states are `false` at first, its functions are declared,
unless one of them assigns a value that has no literal. -/
theorem writeMarkup_declares (w : Writer) (p : Page) (states : ∀ s ∈ p.states, s.2 = .bool false)
    (m : Module) : (writeMarkup w p).Ensures m fun r m' =>
      Declares (p.methods.map (·.1)) m' ∨ ∃ stop, r = .error stop ∧ Assigns stop p.methods := by
  refine .bind ((writeStates_false states m).mono ?_)
  rintro _ m₁ rfl
  have none : Declares [] m₁ := List.nil_subset _
  refine .bind ((writeMethods_declares p.methods none).mono ?_)
  rintro _ m₂ (⟨rfl, declared⟩ | ⟨stop, rfl, assigns⟩)
  · rw [List.nil_append] at declared
    have kept : (element w p.root >>= fun root => modify fun m => { m with markup := w.text root } :
        Build Unit).Ensures m₂ fun _ m' => Declares (p.methods.map (·.1)) m' :=
      (element_declares w p.root m₂ declared).seq (fun _ h => h) fun root m₃ h => .modify h
    exact kept.mono fun _ _ h => .inl h
  · exact .inr ⟨stop, rfl, assigns⟩

end Declared

/-- What a page has become has no dangling reference: every function sets a state that is there,
every name that is referred to is that of a state or a function, and every call that stands in the
place of a component method is of a function; it is written as the call of that function, which the
module of the page declares unless some function assigns a value that has no literal. -/
structure Closed (p q : Page) : Prop where
  setters : ∀ f ∈ q.methods, ∃ state value fromEvent,
    f.2 = .setter state value fromEvent ∧ state ∈ q.states.map (·.1)
  references : q.root.Everywhere fun layer => ∀ name ∈ layer.references,
    name ∈ q.states.map (·.1) ∨ name ∈ q.methods.map (·.1)
  calls : ∀ n' ∈ q.root.walk, ∃ n, Node.SamePlace p.root q.root n n' ∧
    ∀ key v', (key, v') ∈ n'.layer.props → (∃ name, v' = .reference name) ∨
      ∃ v, (key, v) ∈ n.layer.props ∧
        List.Forall₂ (Lifting.Rewritten (q.methods.map (·.1))) v.actions v'.actions ∧
        (v'.actions = [] → v'.slotNodes = [] → v' = v)
  statements : ∀ handler ∈ q.methods.map (·.1), ∀ m log,
    Handlers.statement (Handlers.default.get (Lifting.call handler).kind) (Lifting.call handler)
      m log = ((.ok (handler ++ "();"), m), log)
  declared : ∀ w m log, Declares (q.methods.map (·.1)) (writeMarkup w q m log).1.2 ∨
    ∃ stop, (writeMarkup w q m log).1.1 = .error stop ∧ Assigns stop q.methods

/-- Lifting a page without states, functions and references closes it. -/
theorem closed_outcome (c : Catalogue) {p : Page} (states : p.states = []) (methods : p.methods = [])
    (plain : p.root.Plain) : Closed p (Lifting.outcome c p) := by
  have follows := Lifting.follows_finished c p
  have functions : ∀ f ∈ (Lifting.outcome c p).methods, Lifting.IsSetter (Lifting.finished c p) f := by
    intro f mem
    refine (follows.methods f mem).resolve_left fun given => ?_
    change f ∈ p.methods at given
    rw [methods] at given
    cases given
  have first : ∀ s ∈ (Lifting.outcome c p).states, s.2 = .bool false := by
    intro s mem
    refine (follows.states s mem).resolve_left fun given => ?_
    change s ∈ p.states at given
    rw [states] at given
    cases given
  constructor
  case setters => exact fun f mem => (functions f mem).2
  case references => exact Lifting.outcome_knowing c plain
  case calls =>
    intro n' mem
    obtain ⟨n, place, alike⟩ :=
      (Lifting.outcome_alike c p).places Lifting.narrows_redrawn n' mem
    exact ⟨n, place, fun key v' there => Lifting.reference_or_rewritten alike there⟩
  case statements =>
    intro handler known m log
    obtain ⟨f, mem, rfl⟩ := List.mem_map.1 known
    exact statement_call (functions f mem).1 m log
  case declared => exact fun w m log => writeMarkup_declares w _ first m log

/-- With every catalogue whose rules bring in no others, the pages of a schema have no states, no functions, no
references, and no settings of actions without a text, which alone could keep a page from being lifted. With every
catalogue at all, lifting a page without states, functions and references closes it. -/
theorem read_pages_close (c : Catalogue) :
    (c.Keeps Reading.IsPlain → ∀ schema log project, (Reading.project c schema log).1 = .ok project →
      ∀ p ∈ project.pages, p.states = [] ∧ p.methods = [] ∧ p.root.Plain ∧ Lifting.faults p = ∅) ∧
    ∀ p : Page, p.states = [] → p.methods = [] → p.root.Plain → ∀ log,
      Job.Meets (Lifting.faults p) (Closed p) (Lifting.page c p log).1 := by
  constructor
  · intro keeps schema log project read p page
    obtain ⟨states, methods, plain, short⟩ := Reading.project_plain keeps schema log project read p page
    exact ⟨states, methods, plain, Lifting.faults_eq_empty short⟩
  · intro p states methods plain log
    refine (Lifting.page_ends c p log).mono ?_ (Set.Subset.refl _)
    rintro _ rfl
    exact closed_outcome c states methods plain

theorem dialogPage_closes : Lifting.dialogPage.states = [] ∧ Lifting.dialogPage.methods = [] ∧
    Lifting.dialogPage.root.Plain ∧
    ∃ q, (Lifting.page .default Lifting.dialogPage []).1 = .ok q ∧ Closed Lifting.dialogPage q := by
  have plain : Lifting.dialogPage.root.Plain := by
    refine Node.everywhere_of_walk ?_ ?_
    · unfold Node.Uniform
      decide
    · decide
  have closed := (read_pages_close .default).2 Lifting.dialogPage rfl rfl plain []
  rw [Lifting.dialogPage_ends] at closed
  exact ⟨rfl, rfl, plain, _, Lifting.dialogPage_ends, closed⟩

end Component

end Pagesmith
