import Pagesmith.Proofs.Component.Bindings
import Pagesmith.Proofs.Component.Elements

/-!
Literals in the module of a page. What is written for a literal passes through the layout of the
markup and through every indentation of statements and markup, and each of them cuts the text into
lines. It comes through in one piece exactly if nothing in it is taken for the end of a line.
-/

namespace Pagesmith.Component
open Build Pagesmith.Module Text

section Walk

variable {classes : List (String × String)} {e : Emission} (piece : Piece e.text.toList)

theorem pageMethod_completes (name : String) (method : PageMethod) :
    (pageMethod name method).Completes Script.literalFaults fun _ => True := by
  match method with
  | .function _ | .setter _ _ true => exact .pure trivial
  | .setter _ value false => exact value.isWhole_literalFaults.literal.bind fun _ _ => .pure trivial

theorem writeMethods_gives (methods : List (String × PageMethod)) :
    Gives classes e.text.toList (writeMethods methods) False fun _ => False := by
  induction methods with
  | nil => exact .pure id
  | cons f r ih =>
    exact .after (.quiet (pageMethod_completes _ _)) fun code => (addMethod_gives _ _).after fun _ => ih

/-- Every state of a page is declared with its own first value. -/
theorem writeStates_declares (states : List (String × Value)) {m : Module}
    (ready : Ready classes m) : (writeStates states).Ensures m fun r m' => match r with
      | .ok _ => Ready classes m' ∧ m.states ⊆ m'.states ∧ ∀ name initial,
          states.lookup name = some initial → name ∉ m.states.map (·.1) →
          (name, Script.stateHook name (Script.literalText initial)) ∈ m'.states
      | .error f => f ∈ Script.literalFaults := by
  induction states generalizing m with
  | nil => exact .pure ⟨ready, List.Subset.refl _, by simp⟩
  | cons s r ih =>
    obtain ⟨key, first⟩ := s
    have sound := ready.sound.addState key first
    refine .bind (((addState_ensures key first m).and sound).mono ?_)
    -- The name is declared already, its value cannot be written, or it is declared now.
    rintro _ m' ⟨⟨known, rfl, rfl⟩ | ⟨-, ⟨f, stops, rfl⟩, rfl⟩ | ⟨new, -, rfl, rfl⟩, sound⟩
    · refine (ih ready).mono ?_
      rintro r m' result
      cases r with
      | error f => exact result
      | ok _ =>
        refine ⟨result.1, result.2.1, fun name initial given free => ?_⟩
        have other : name ≠ key := by
          rintro rfl
          exact free known
        rw [List.lookup_cons, beq_false_of_ne other] at given
        exact result.2.2 name initial given free
    · exact Script.mem_literalFaults stops
    · refine (ih ⟨sound, ready.classes⟩).mono ?_
      rintro r m' result
      cases r with
      | error f => exact result
      | ok _ =>
        obtain ⟨ready, grown, declared⟩ := result
        refine ⟨ready, fun s mem => grown (List.mem_append_left _ mem), ?_⟩
        intro name initial given free
        by_cases same : name = key
        · subst same
          simp only [List.lookup_cons_self, Option.some.injEq] at given
          subst given
          exact grown (List.mem_append_right _ (List.mem_singleton.2 rfl))
        · rw [List.lookup_cons, beq_false_of_ne same] at given
          refine declared name initial given ?_
          simp only [Module.declare, List.map_append, List.mem_append, not_or]
          exact ⟨free, by simpa using same⟩

include piece in
/-- What is carried by a page stands in a statement of its module or in its markup. -/
theorem writeMarkup_shows (w : Writer) (p : Page) {m : Module} (ready : Ready classes m)
    (fresh : m.states = []) : (writeMarkup w p).Ensures m fun r m' => match r with
      | .ok _ => m'.nodeClasses = classes ∧
          (Carries w classes p e → m'.Shows e.text.toList ∨ Holds m'.markup e.text.toList)
      | .error f => f ∈ Script.literalFaults := by
  refine .bind ((writeStates_declares p.states ready).mono ?_)
  rintro r m₁ result
  cases r with
  | error f => exact result
  | ok _ =>
    obtain ⟨ready, -, declared⟩ := result
    have carried : Carries w classes p e → Emits w classes p.root e ∨ m₁.Shows e.text.toList := by
      intro carries
      cases carries with
      | node emits => exact .inl emits
      | @state name s initial given mem =>
        have hook := declared name initial given (by simp [fresh])
        exact .inr (.inl ⟨_, hook, Script.holds_stateHook (Script.holds_literalText mem) name⟩)
    refine .bind ((writeMethods_gives (e := e) p.methods m₁ ready).mono ?_)
    rintro r m₂ result
    cases r with
    | error f => exact result
    | ok _ =>
      obtain ⟨ready, kept⟩ := result
      refine .bind ((element_gives piece w p.root m₂ ready).mono ?_)
      rintro r m₃ result
      cases r with
      | error f => exact result
      | ok root =>
        obtain ⟨ready, shows⟩ := result
        refine .modify ⟨ready.classes, fun carries => ?_⟩
        have before := (carried carries).imp_right fun shown => (kept (.inr shown)).resolve_left id
        obtain shown | shown := shows before
        · exact .inr (shown.render piece _ _)
        · exact .inl shown

end Walk

/-- What comes of a page's styles and markup: a failure if there is one, and the module as far as it
is written. -/
def writtenPage (w : Writer) (p : Page) (name : String) (log : List Notice) :
    Except Fault Unit × Module :=
  (PagePart.writeAll w.catalogue w.handlers p [.styles, .markup w.width] (new name) log).1

theorem writtenPage_shows {e : Emission} (piece : Piece e.text.toList) (w : Writer) (p : Page)
    (name : String) (log : List Notice) : match writtenPage w p name log with
      | (.ok _, m) => Carries w m.nodeClasses p e →
          m.Shows e.text.toList ∨ Holds m.markup e.text.toList
      | (.error f, _) => f ∈ Script.literalFaults := by
  obtain ⟨classes, nodeClasses, stylesheet, same⟩ := addStyles_eq p.root (new name)
  have ready : Ready nodeClasses (addStyles p.root (new name)) := by
    rw [same]
    exact ⟨(sound_new name).withRest _ _ _ _ _, rfl⟩
  have fresh : (addStyles p.root (new name)).states = [] := by
    rw [same]
    rfl
  suffices written : (PagePart.writeAll w.catalogue w.handlers p [.styles, .markup w.width]).Ensures
      (new name) fun r m => match (r, m) with
        | (.ok _, m) => Carries w m.nodeClasses p e →
            m.Shows e.text.toList ∨ Holds m.markup e.text.toList
        | (.error f, _) => f ∈ Script.literalFaults from written log
  refine .bind ((writeStyles_ensures p (new name)).mono ?_)
  rintro _ _ ⟨rfl, rfl⟩
  refine .bind ((writeMarkup_shows piece w p ready fresh).mono ?_)
  rintro r m result
  cases r with
  | error f => exact result
  | ok _ =>
    obtain ⟨rfl, shows⟩ := result
    exact .pure shows

/-- Writing a page fails only over a value that holds itself or a whole number with too many digits. What is written
for one of its literals stands in the component in one piece exactly if nothing in it is taken for the end of a line;
where something is, only an import line can hold the text. -/
theorem literals_unbroken_iff (w : Writer) (p : Page) (name : String) (log : List Notice) :
    (∀ f, (writtenPage w p name log).1 = .error f → f = .circular ∨ f = .longNumber) ∧
    ∀ m, writtenPage w p name log = (.ok (), m) → ∀ e, Carries w m.nodeClasses p e →
      (Holds m.componentText e.text.toList ↔ e.IsWhole) ∧
      (Holds (m.text none) e.text.toList ↔ e.IsWhole ∨ Holds m.header e.text.toList) := by
  constructor
  · intro f failed
    have quotes : Piece (Emission.code "").text.toList :=
      ⟨by decide, (Emission.isWhole_iff _).1 List.not_mem_nil⟩
    have shows := writtenPage_shows quotes w p name log
    rcases result : writtenPage w p name log with ⟨r, m⟩
    rw [result] at shows failed
    obtain rfl : r = .error f := failed
    exact shows
  · intro m written e carries
    have component : Holds m.componentText e.text.toList ↔ e.IsWhole := by
      constructor
      · intro held
        rw [e.isWhole_iff]
        intro c mem
        by_contra ends
        have feed := feeds_componentText m c (held.subset mem) (by simpa using ends)
        exact e.feed_notMem (feed ▸ mem)
      · intro whole
        by_cases empty : e.text.toList = []
        · rw [Holds, empty]
          exact List.nil_infix
        · have piece : Piece e.text.toList := ⟨empty, e.isWhole_iff.1 whole⟩
          have shows := writtenPage_shows piece w p name log
          rw [written] at shows
          exact holds_componentText piece (shows carries)
    refine ⟨component, ?_⟩
    rw [holds_text e.feed_notMem, component]
    exact Or.comm

/-- The default way to write pages. -/
def defaultWriter : Writer := ⟨.default, Handlers.default, 80⟩

/-- A page with a state whose first value holds a next line character. -/
def nextLinePage : Page where
  id := "p"
  fileName := "index"
  root := .mk { Node.blank.layer with id := "1", component := "div" }
  dependencies := []
  states := [("name", .str "a\u0085b")]
  methods := []
  title := none

theorem nextLine_cut : ∃ m, writtenPage defaultWriter nextLinePage "Index" [] = (.ok (), m) ∧
    Carries defaultWriter m.nodeClasses nextLinePage (.code "a\u0085b") ∧
    ¬ Holds (m.text none) (Script.stringLiteral "a\u0085b").toList := by
  have given : nextLinePage.states.lookup "name" = some (.str "a\u0085b") := rfl
  have cut : ¬ (Emission.code "a\u0085b").IsWhole := by
    simp only [Emission.IsWhole]
    decide
  have completes : (writtenPage defaultWriter nextLinePage "Index" []).1.toBool = true := by
    decide +kernel
  have header : ¬ Holds (writtenPage defaultWriter nextLinePage "Index" []).2.header
      (Script.stringLiteral "a\u0085b").toList := by
    simp only [Holds]
    decide +kernel
  obtain ⟨-, exactly⟩ := literals_unbroken_iff defaultWriter nextLinePage "Index" []
  rcases written : writtenPage defaultWriter nextLinePage "Index" [] with ⟨r, m⟩
  rw [written] at completes header
  cases r with
  | error f => cases completes
  | ok _ =>
    have carries : Carries defaultWriter m.nodeClasses nextLinePage (.code "a\u0085b") :=
      .state given (List.mem_singleton.2 rfl)
    refine ⟨m, rfl, carries, fun held => ?_⟩
    exact ((exactly m written _ carries).2.1 held).elim cut header

end Pagesmith.Component