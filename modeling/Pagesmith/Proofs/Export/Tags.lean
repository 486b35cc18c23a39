import Pagesmith.Proofs.Component.Tags
import Pagesmith.Proofs.Export.Closed
import Pagesmith.Proofs.Export.Generation
import Pagesmith.Proofs.Reading.Identifiers

/-!
Tags in generated modules. Where a schema holds no code, and no name of a property holds an opening angle
bracket, each of these in a module opens a tag that the generator writes, whatever the texts of the schema are.
-/

namespace Pagesmith

open Text

/-- No property of the node is code, and no name of one holds an opening angle bracket. -/
def EditorNode.IsLiteral (n : EditorNode) : Prop :=
  ∀ e ∈ n.props, angles e.1 = 0 ∧ e.2.value.isCode = false

instance (n : EditorNode) : Decidable n.IsLiteral :=
  inferInstanceAs (Decidable (∀ e ∈ n.props, angles e.1 = 0 ∧ e.2.value.isCode = false))

theorem Handlers.default_unmarked (kind : String) : (Handlers.default.get kind).IsUnmarked := by
  have all : ∀ e ∈ Handlers.default, e.2.IsUnmarked := by
    simp [Handlers.default, Handler.IsUnmarked]
  rw [Handlers.get]
  cases found : Handlers.default.lookup kind with
  | none => exact trivial
  | some h => exact all _ (Table.mem_of_lookup found)

namespace Catalogue

theorem renderings_unmarked : ∀ e ∈ default.renderings, e.2.tag.IsUnmarked := by decide +kernel

theorem components_unmarked : ∀ e ∈ default.materials, e.2.component ≠ "" ∧ angles e.2.component = 0 := by
  decide +kernel

/-- Under a tag without an opening angle bracket every component is written under such a tag. -/
theorem rendering_unmarked (name : String) {tag : String} (given : tag ≠ "") (free : angles tag = 0) :
    (default.rendering name (some tag)).tag.IsUnmarked := by
  have fixed {tag : String} (given : tag ≠ "") (free : angles tag = 0) :
      (TagRule.fixed ((givenText (some tag)).getD name)).IsUnmarked := by
    have same : givenText (some tag) = some tag := by simp [givenText, given]
    rw [same]
    exact free
  rw [rendering]
  split
  · next found => exact renderings_unmarked _ (Table.mem_of_lookup found)
  · cases found : default.material? name with
    | none => exact fixed given free
    | some m =>
      obtain ⟨given, free⟩ := components_unmarked _ (Table.mem_of_lookup found)
      exact fixed given free

end Catalogue

open Component

namespace Reading

variable {R : List String → EditorNode → Node → Prop} {path : List String} {n : EditorNode} {layer : NodeOf Node}

theorem Provided.unmarked {name component : String} {d : Dependency} (h : Provided .default name component d) :
    component ≠ "" ∧ angles component = 0 := by
  cases h with
  | unknown => decide
  | known found => exact Catalogue.components_unmarked _ (Table.mem_of_lookup found)
  | icon v =>
    have identifier := Catalogue.iconName_isIdentifier v
    refine ⟨fun none => ?_, angles_isIdentifier identifier⟩
    rw [none] at identifier
    cases identifier

theorem ValueOf.unmarked {p : EditorProp} {v : PropOf Node} (h : ValueOf R path p v)
    (literal : p.value.isCode = false) : v.IsUnmarked := by
  cases h with
  | expression isCode | function isCode => exact absurd (isCode.symm.trans literal) (by decide)
  | _ => exact trivial

/-- What is read of a node of literals brings no opening angle bracket of its own. -/
theorem LayerOf.unmarked (handlers : Handlers) (width : Nat) (h : LayerOf .default R path n layer)
    (literal : n.IsLiteral) : UnmarkedLayer ⟨.default, handlers, width⟩ layer where
  tag := by
    obtain ⟨given, free⟩ := h.provided.unmarked
    exact Catalogue.rendering_unmarked _ given free
  supplied := h.provided.supplied
  unstyled := h.plain
  entries e mem := by
    have known : ∀ key ∈ ruleKeys, angles key = 0 := by decide
    obtain ⟨rule, v, same⟩ | ⟨g, given, key, value⟩ := h.entry mem
    · exact ⟨known _ rule, by rw [same]; trivial⟩
    · obtain ⟨free, noCode⟩ := literal g given
      refine ⟨?_, value.unmarked noCode⟩
      obtain same | same := key
      · rwa [same]
      · exact known _ (by rw [same]; decide)

end Reading

namespace Lifting

variable {c : Catalogue} {p : Page}

theorem Target.Function.isName {t : Target} {name : String} (h : t.Function name) : IsName name := by
  cases h with
  | method => exact isName_methodName _ _
  | closing =>
    simp only [closingMethod]
    split
    · dsimp only
      exact isName_methodName _ _
    · dsimp only
      exact isName_methodName _ _

theorem isName_state (t : Target) : IsName t.state := isName_toIdentifier _

namespace Owns

variable {ts : List Target} {d : Draft} (h : Owns ts d)
include h

theorem isName_known {name : String} (known : d.Knows name) : IsName name := by
  obtain state | function := known
  · obtain ⟨t, -, rfl⟩ := (h.states name).1 state
    exact isName_state t
  · obtain ⟨t, -, names⟩ := (h.functions name).1 function
    exact names.isName

theorem setsNamed {f : String × PageMethod} (mem : f ∈ d.methods) : SetsNamed f := by
  obtain ⟨t, -, function, value, fromEvent, setter, -⟩ := h.setters f mem
  exact ⟨function.isName, t.state, value, fromEvent, setter, isName_state t⟩

end Owns

/-- The properties that methods drive and the events that close have names without opening angle brackets. -/
theorem methods_unmarked : ∀ e ∈ Catalogue.default.materials, ∀ m ∈ e.2.methods,
    (∀ b ∈ m.binding, angles b.prop = 0) ∧ ∀ event ∈ m.event, angles event = 0 := by
  have all : (Catalogue.default.materials.all fun e => e.2.methods.all fun m =>
      (m.binding.all fun b => angles b.prop == 0) && m.event.all fun event => angles event == 0) = true := by
    decide +kernel
  intro e mem m method
  have both := List.all_eq_true.1 (List.all_eq_true.1 all e mem) m method
  simpa [Option.all_eq_true] using both

theorem bound_unmarked {root : Node} {id key : String} (h : Bound .default (Sheet.ofNode 0 root) id key) :
    angles key = 0 := by
  obtain ⟨a, t, -, found, -, binds⟩ := h
  obtain ⟨n, resolves, -⟩ := target?_resolves found
  have names := methods_unmarked _ (Table.mem_of_lookup resolves.known)
  cases binds with
  | drive =>
    have method := List.mem_of_find?_eq_some resolves.found
    exact (names _ method).1 _ resolves.binding
  | close method closing =>
    refine (names _ method).2 _ ?_
    rw [closingEvent?] at closing
    split at closing
    · next event =>
      split at closing
      · rw [event, Option.some.inj closing]
        rfl
      · cases closing
    · cases closing

theorem isUnmarked_ofActions (as : List Action) : (ofActions as).IsUnmarked := by
  match as with
  | [] | [a] | a :: b :: r => exact trivial

variable {w : Writer}

/-- On a page as it is read lifting brings in no opening angle bracket. -/
theorem outcome_unmarked (states : p.states = []) (methods : p.methods = []) (plain : p.root.Plain)
    (uniform : p.root.Uniform) (h : p.root.Everywhere (UnmarkedLayer w)) :
    UnmarkedPage w (outcome .default p) := by
  have owns := finished_owns .default states methods plain
  refine ⟨fun s mem => ?_, fun f mem => owns.setsNamed mem, ?_⟩
  · exact owns.isName_known (.inl (List.mem_map_of_mem mem))
  refine Node.everywhere_of_walk (outcome_uniform .default uniform) fun n' mem => ?_
  obtain ⟨n, walked, face, fates⟩ := outcome_walk .default p n' mem
  obtain ⟨here, -⟩ := h.walk n walked
  have own : UnmarkedLayer w n'.layer.face := by
    rw [face]
    exact ⟨here.tag, here.supplied, here.unstyled, fun e mem => nomatch mem⟩
  refine ⟨own.tag, own.supplied, own.unstyled, fun e there => ?_⟩
  obtain ⟨key, v⟩ := e
  cases fates _ there with
  | @given v ρ ρ' given =>
    obtain ⟨free, plain⟩ := here.entries _ given
    exact ⟨free, (PropOf.isUnmarked_map ρ' v).2 ((PropOf.isUnmarked_map ρ v).1 plain)⟩
  | lifted given =>
    exact ⟨(here.entries _ given).1, (PropOf.isUnmarked_map _ _).2 (isUnmarked_ofActions _)⟩
  | bound bound known => exact ⟨bound_unmarked bound, (owns.isName_known known).angles⟩

end Lifting

namespace Component

theorem pageModule_tags {w : Writer} (unmarked : ∀ kind, (w.handlers.get kind).IsUnmarked) {p : Page}
    (h : UnmarkedPage w p) (name : String) :
    (pageModule w name p).Yields fun m => ∀ called, angles (m.text called) = tags w p.root := by
  have written := (writeAll_tags unmarked h name).runOn
  refine .bind written.yields fun r counted => ?_
  obtain ⟨outcome, m⟩ := r
  cases outcome with
  | error f => exact .bind (P := fun _ => False) (fun _ _ ok => nomatch ok) fun _ none => none.elim
  | ok => exact .bind (.any _) fun _ _ => .pure (counted rfl)

/-- Literal values cannot open markup: where no node of a schema has code, and no name of a property holds an
opening angle bracket, every page has its module, unless the page nodes bring in a fault, and under whatever name the
text of the module has as many of them as tags are written for the lifted page. -/
theorem generate_tags {schema : Value} {ns : List EditorNode} (read : Schema.read schema = .ok ns)
    (literal : ∀ n ∈ Reading.pageRoots ns, n.Everywhere EditorNode.IsLiteral) (width : Nat)
    (called : Page → String) (log : List Notice) :
    let w : Writer := ⟨.default, Handlers.default, width⟩
    Job.Meets (faultsOf (Reading.pageRoots ns)) (fun project =>
        Reading.PagesMirror 0 (Reading.pageRoots ns) project.pages ∧
        Job.Meets (allFaultsOf (Reading.pageRoots ns)) (List.Forall₂ (fun p t => angles t.1 = tags w p.root)
          (project.pages.map (Lifting.outcome .default))) (generate w called schema log).1 ∧
        ∀ p ∈ project.pages.map (Lifting.outcome .default), ∀ name said,
          Job.Meets (allFaultsOf (Reading.pageRoots ns)) (fun m => ∀ title, angles (m.text title) = tags w p.root)
            (pageModule w name p said).1)
      (Reading.project .default schema log).1 := by
  intro w
  have usual := Catalogue.default_readsAsDefault
  have mirrors := Reading.project_mirrors usual schema log
  rw [read] at mirrors
  cases ok : (Reading.project .default schema log).1 with
  | error f =>
    rw [ok] at mirrors
    exact mirrors
  | ok project =>
    rw [ok] at mirrors
    have given := Reading.project_everywhere (Q := UnmarkedLayer w) usual
      (fun _ _ _ _ h literal => h.unmarked _ _ literal) read literal log project ok
    have unmarked : ∀ p ∈ project.pages.map (Lifting.outcome .default), UnmarkedPage w p := by
      refine List.forall_mem_map.2 fun p mem => ?_
      obtain ⟨states, methods, plain, -⟩ :=
        Reading.project_plain (Reading.plain_of_readsAsDefault usual) schema log project ok p mem
      have uniform := Reading.project_uniform usual schema log project ok p mem
      exact Lifting.outcome_unmarked states methods plain uniform (given p mem)
    have counted {p : Page} (h : UnmarkedPage w p) (name : String) :=
      pageModule_tags (w := w) Handlers.default_unmarked h name
    refine ⟨mirrors, ?_, fun p mem name said => ?_⟩
    · refine (generate_meets Handlers.default width called read log).mono ?_ (Set.Subset.refl _)
      rintro texts ⟨project', ok', -, are⟩
      cases ok.symm.trans ok'
      refine ((List.forall₂_and_left _ _).2 ⟨unmarked, are⟩).imp ?_
      rintro p _ ⟨own, said, m, written, rfl⟩
      exact counted own _ said m written none
    · have whole := Export.lifted_whole read ok p mem
      have written := (pageModule_completes w name whole).and (counted (unmarked p mem) name)
      exact (written said).mono (fun m holds => holds.2) (Set.Subset.refl _)

section Brackets

/-- What asks a page to go to an address that closes a tag. -/
def bracketAction : Value :=
  .dict [("actions", .list [.dict [("type", .str "goToLink"), ("config", .dict [("url", .str "</a>")])]])]

/-- A page whose texts look like tags: its identifier, the name of a component in a slot, a text and an
address. -/
def bracketPage : Value :=
  .list [.dict [("id", .str "<main>"), ("name", .str "Page"),
    ("props", .dict [("title", .str "</title>"),
      ("extra", Reading.slotValue (.dict [("name", .str "<script>")]))]),
    ("children", .list [.dict [("name", .str "Button"),
      ("props", .dict [("text", .str "<b>"), ("onClick", bracketAction)])]])]]

/-- The button of the page. -/
def bracketButton : EditorNode :=
  .mk .null "Button" [("text", .mk (.str "<b>") .none), ("onClick", .mk bracketAction .none)] none none []

theorem bracketPage_read : ∃ page, Schema.read bracketPage = .ok [page] ∧
    Reading.pageRoots [page] = [page] ∧ page.Everywhere fun n => n.IsLiteral ∧ n.isFaultless = true := by
  obtain ⟨page, read, roots, inside, literal⟩ : ∃ page, Schema.read bracketPage = .ok [page] ∧
      Reading.pageRoots [page] = [page] ∧
      page.inside = [Reading.bareNode "<script>", bracketButton] ∧ page.IsLiteral ∧ page.isFaultless = true :=
    ⟨_, rfl, rfl, rfl, by decide, rfl⟩
  refine ⟨page, read, roots, .mk literal ?_⟩
  rw [inside]
  have unknown : (Reading.bareNode "<script>").Everywhere fun n => n.IsLiteral ∧ n.isFaultless = true :=
    .mk ⟨by decide, rfl⟩ fun _ mem => nomatch mem
  have button : bracketButton.Everywhere fun n => n.IsLiteral ∧ n.isFaultless = true :=
    .mk ⟨by decide, rfl⟩ fun _ mem => nomatch mem
  simp only [List.forall_mem_cons]
  exact ⟨unknown, button, by simp⟩

/-- However its texts look, the module of the page has an opening angle bracket for each tag and no more. -/
theorem bracketPage_tags : ∃ page texts project, Schema.read bracketPage = .ok [page] ∧
    page.Everywhere EditorNode.IsLiteral ∧
    (Reading.project .default bracketPage []).1 = .ok project ∧ project.pages.length = 1 ∧
    (generate ⟨.default, Handlers.default, 80⟩ Page.fileName bracketPage []).1 = .ok texts ∧
    List.Forall₂ (fun p t => angles t.1 = tags ⟨.default, Handlers.default, 80⟩ p.root)
      (project.pages.map (Lifting.outcome .default)) texts := by
  obtain ⟨page, read, roots, both⟩ := bracketPage_read
  have literal : page.Everywhere EditorNode.IsLiteral := both.mono fun _ h => h.1
  have faultless : allFaultsOf (Reading.pageRoots [page]) = ∅ := by
    rw [roots]
    exact allFaultsOf_eq_empty (List.forall_mem_singleton.2 (both.mono fun _ h => h.2))
  have none : faultsOf (Reading.pageRoots [page]) = ∅ := Set.subset_eq_empty (faultsOf_subset _) faultless
  -- That the page can be read is all that matters from here on; its value would only be evaluated.
  generalize bracketPage = schema at read ⊢
  have holds := generate_tags read (by simpa [roots] using literal) 80 Page.fileName []
  simp only [faultless, none] at holds
  obtain ⟨project, ok, mirror, counted, -⟩ := holds.ok
  obtain ⟨texts, done, counted⟩ := counted.ok
  have one := mirror.count
  rw [roots] at one
  exact ⟨page, texts, project, read, literal, ok, one, done, counted⟩

end Brackets

end Component

end Pagesmith
