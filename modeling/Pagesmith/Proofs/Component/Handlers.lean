import Pagesmith.Proofs.Component.Bindings
import Pagesmith.Proofs.Component.Success
import Pagesmith.Proofs.Component.Unbroken
import Pagesmith.Proofs.Lifting.Closed
import Pagesmith.Proofs.Module.Reachable
import Pagesmith.Proofs.Reading.Actions
import Pagesmith.Proofs.Reading.Below

/-!
Event functions, from the schema to the module. The actions that are read of a property become one function of the
module, under a name that was free; its body is the statements of their handlers, and nothing else of the module
changes, but for an import that a statement may need.
-/

namespace Pagesmith

namespace Handlers
open Build Pagesmith.Module Script Text

/-- What the handlers write for actions, one after the other: a statement for each, and the module in the end. -/
inductive Wrote (hs : Handlers) : Module → List Action → List String → Module → Prop
  | nil {m : Module} : Wrote hs m [] [] m
  | cons {m m' m'' : Module} {a : Action} {as : List Action} {t : String} {ts : List String} {log : List Notice}
    (first : (statement (hs.get a.kind) a m log).1 = (.ok t, m')) (rest : Wrote hs m' as ts m'') :
    Wrote hs m (a :: as) (t :: ts) m''

theorem Wrote.length {hs : Handlers} {m m' : Module} {as : List Action} {ts : List String}
    (h : Wrote hs m as ts m') : ts.length = as.length := by
  induction h with
  | nil => rfl
  | cons _ _ ih => rw [List.length_cons, List.length_cons, ih]

/-- The statement of an action under a comment with its kind. -/
def commented (e : Action × String) : String := "// " ++ toIdentifier e.1.kind ++ "\n" ++ e.2

/-- The statements of several actions stand under comments, that of a single one stands alone. -/
def listing (as : List Action) (ts : List String) : List String :=
  (as.zip ts).map fun e => if as.length = 1 then e.2 else commented e

section Statements

variable {m : Module}

theorem get_default (kind f : String) : default.get kind ≠ .call f := by
  intro same
  rw [get] at same
  cases found : default.lookup kind with
  | none =>
    rw [found] at same
    cases same
  | some h =>
    rw [found, Option.getD_some] at same
    subst same
    simpa [default] using Table.mem_of_lookup found

/-- What a handler that calls no function of its own writes is a statement, and all that it does to a module is to
import. -/
theorem statement_writes {h : Handler} (own : ∀ f, h ≠ .call f) {a : Action} (whole : a.config.IsWhole ∅)
    (order : InOrder m) : (statement h a).Ensures m fun r m' =>
      ∃ t, r = .ok t ∧ IsStatement t ∧ InOrder m' ∧ GainsImports m m' := by
  have written (key : String) :
      Job.Gives (textSetting a key) (· = stringLiteral (Component.Emission.settingText a key)) :=
    Job.Completes.gives (.ofExcept (Component.textSetting_meets whole key))
  have shown (key : String) : Job.Gives (a.setting key).text? (· = (a.setting key).text) :=
    Job.Completes.gives (.ofExcept (Component.setting_meets whole key))
  cases h with
  | openLink =>
    refine .bindJob (written "url") ?_
    rintro _ rfl
    exact .pure ⟨_, rfl, isStatement_around (by decide) (isTame_stringLiteral _) (by decide) (by decide), order,
      .refl m⟩
  | showMessage =>
    have imported := ((order.addImport_name messageImport (some "message")).and
      (order.addImport messageImport (some "message"))).and (addImport_gains messageImport (some "message") order)
    refine .bind (imported.mono ?_)
    rintro _ m' ⟨⟨⟨name, rfl, isName⟩, order'⟩, gains⟩
    refine .bindJob (Component.messageLevel_gives (a.setting "type")) fun level known => ?_
    refine .bindJob (written "text") ?_
    rintro _ rfl
    have levels : ∀ l ∈ messageLevels, IsUnbroken l := by decide
    have left : IsUnbroken (name ++ "." ++ level ++ "(") :=
      (((isUnbroken_name isName).append (by decide)).append (levels level known)).append (by decide)
    exact .pure ⟨_, rfl, isStatement_around left (isTame_stringLiteral _) (by decide) (by decide), order', gains⟩
  | callMethod =>
    refine .ofJob fun log => ?_
    obtain ⟨t, same, statement⟩ :=
      (Component.callStatement_completes (Component.callTarget_short whole "methodName")).gives log
    exact ⟨t, same, statement, order, .refl m⟩
  | unresolved =>
    refine .bindJob (shown "componentId") fun target _ => .bindJob (shown "method") fun method _ => ?_
    exact .pure ⟨_, rfl, isStatement_around (by decide) (isTame_stringLiteral _) (by decide) (by decide), order,
      .refl m⟩
  | log =>
    refine .bindJob whole.literal.gives ?_
    rintro _ rfl
    have left : IsTame ("console.log(" ++ stringLiteral ("Action triggered: " ++ a.kind) ++ ", ") :=
      ((isTame_unbroken (by decide)).append (isTame_stringLiteral _)).append (isTame_unbroken (by decide))
    exact .pure ⟨_, rfl, isStatement_line (by simp) ((left.append (isTame_literalText _)).append
      (isTame_unbroken (by decide))), order, .refl m⟩
  | call f => exact absurd rfl (own f)

/-- The statements of actions, as the default handlers write them on a module. -/
structure Writes (m m' : Module) (as : List Action) (ts : List String) : Prop where
  wrote : Wrote default m as ts m'
  each : ∀ t ∈ ts, IsStatement t
  order : InOrder m'
  gains : GainsImports m m'

theorem Writes.cons {m' m'' : Module} {a : Action} {as : List Action} {t : String} {ts : List String}
    {log : List Notice} (first : (statement (default.get a.kind) a m log).1 = (.ok t, m')) (one : IsStatement t)
    (gains : GainsImports m m') (rest : Writes m' m'' as ts) : Writes m m'' (a :: as) (t :: ts) where
  wrote := .cons first rest.wrote
  each := List.forall_mem_cons.2 ⟨one, rest.each⟩
  order := rest.order
  gains := gains.trans rest.gains

theorem labelled_writes {as : List Action} (whole : ∀ a ∈ as, a.config.IsWhole ∅) (order : InOrder m) :
    (labelled default as).Ensures m fun r m' =>
      ∃ ts, r = .ok ((as.zip ts).map commented) ∧ Writes m m' as ts := by
  induction as generalizing m with
  | nil => exact .pure ⟨[], rfl, .nil, by simp, order, .refl m⟩
  | cons a as ih =>
    obtain ⟨own, others⟩ := List.forall_mem_cons.1 whole
    refine .bind (((statement_writes (get_default a.kind) own order).and (.ran _ m)).mono ?_)
    rintro _ m' ⟨⟨t, rfl, one, order', gains⟩, log, ran⟩
    refine .bind ((ih others order').mono ?_)
    rintro _ m'' ⟨ts, rfl, rest⟩
    exact .pure ⟨t :: ts, rfl, rest.cons ran one gains⟩

theorem statements_writes {as : List Action} (whole : ∀ a ∈ as, a.config.IsWhole ∅) (order : InOrder m) :
    (statements default as).Ensures m fun r m' => ∃ ts, r = .ok (listing as ts) ∧ Writes m m' as ts := by
  match as with
  | [a] =>
    have own := whole a List.mem_cons_self
    refine .bind (((statement_writes (get_default a.kind) own order).and (.ran _ m)).mono ?_)
    rintro _ m' ⟨⟨t, rfl, one, order', gains⟩, log, ran⟩
    have last : Writes m' m' [] [] := ⟨.nil, by simp, order', .refl m'⟩
    exact .pure ⟨[t], rfl, last.cons ran one gains⟩
  | [] => exact labelled_writes whole order
  | a :: b :: r =>
    have several (ts : List String) : listing (a :: b :: r) ts = ((a :: b :: r).zip ts).map commented := by
      simp [listing]
    simp only [several]
    exact labelled_writes whole order

section Listing

variable {as : List Action} {ts : List String}

theorem isStatement_commented (a : Action) {t : String} (h : IsStatement t) : IsStatement (commented (a, t)) := by
  refine h.under ?_ ((isTame_unbroken (by decide)).append
    (isTame_unbroken (isUnbroken_name (isName_toIdentifier a.kind))))
  rw [Ne, ← String.toList_inj, String.toList_append]
  simp

theorem nextLine_commented (a : Action) (t : String) :
    nextLine ∈ (commented (a, t)).toList ↔ nextLine ∈ t.toList := by
  have label : nextLine ∉ (toIdentifier a.kind).toList := fun mem =>
    absurd (isUnbroken_name (isName_toIdentifier a.kind) _ mem) (by decide)
  have frame : nextLine ∉ "// ".toList ∧ nextLine ∉ "\n".toList := by decide
  simp only [commented, String.toList_append, List.mem_append, label, frame, false_or]

theorem isStatement_listing (each : ∀ t ∈ ts, IsStatement t) : ∀ s ∈ listing as ts, IsStatement s := by
  intro s mem
  obtain ⟨⟨a, t⟩, there, rfl⟩ := List.mem_map.1 mem
  have statement := each t (List.of_mem_zip there).2
  dsimp only
  split
  · exact statement
  · exact isStatement_commented a statement

/-- A comment brings no next line character. -/
theorem nextLine_listing (length : ts.length = as.length) :
    (∀ s ∈ listing as ts, nextLine ∉ s.toList) ↔ ∀ t ∈ ts, nextLine ∉ t.toList := by
  have texts : ts = (as.zip ts).map Prod.snd := (List.map_snd_zip length.le).symm
  conv_rhs => rw [texts]
  rw [listing, List.forall_mem_map, List.forall_mem_map]
  refine forall₂_congr fun e _ => ?_
  split
  · rfl
  · exact not_congr (nextLine_commented e.1 e.2)

theorem listing_given (given : as ≠ []) (length : ts.length = as.length) : listing as ts ≠ [] := by
  intro empty
  have count := congrArg List.length empty
  simp only [listing, List.length_map, List.length_zip, length, min_self, List.length_nil,
    List.length_eq_zero_iff] at count
  exact given count

end Listing

end Statements

end Handlers

namespace Component
open Build Pagesmith.Module Handlers Script Text

/-- The second module is the first one with one more function, under a name that nothing has, and with imports that
its body needs, under names that nothing else has. Whatever was there is there as it was. -/
structure AddsFunction (m m' : Module) (name code : String) : Prop where
  free : name ∉ m.reserved ∧ name ∉ m.boundNames
  rest : m'.withoutImports = { m.withoutImports with methods := m.methods ++ [(name, code)] }
  bound : m.bound <+: m'.bound
  lines : ∀ s, (m.entryOf s).bindings ⊆ (m'.entryOf s).bindings
  apart : ∀ b ∈ m'.bound, b ∈ m.bound ∨ b.2 ≠ name ∧ b.2 ∉ m.boundNames

/-- Whatever the module binds is taken. -/
theorem boundNames_taken {m : Module} (order : InOrder m) : m.boundNames ⊆ m.reserved := by
  obtain ⟨sound, linked, -⟩ := order
  intro n mem
  simp only [boundNames, List.mem_append] at mem
  obtain fixed | imported | state | function := mem
  · refine sound.own n ?_
    obtain rfl | rfl | rfl | rfl := mem_fixedNames fixed <;> simp [ownNames]
  · obtain ⟨b, there, rfl⟩ := List.mem_map.1 (linked.locals.mem_iff.1 imported)
    exact sound.bound b there
  · obtain ⟨s, there, own⟩ := List.mem_flatMap.1 state
    simp only [List.mem_cons, List.not_mem_nil, or_false] at own
    obtain rfl | rfl := own
    · exact (sound.states s there).1
    · exact (sound.states s there).2
  · obtain ⟨f, there, rfl⟩ := List.mem_map.1 function
    exact sound.methods f there

/-- Into a module to which only imports were added since the name was taken, the function goes as a new one. -/
theorem addMethod_adds {m last : Module} {name : String} (order : InOrder m) (free : name ∉ m.reserved)
    (gains : GainsImports (m.reserve [name]) last) (code : String) :
    AddsFunction m (addMethod name code last) name code := by
  have grown := (gainsImports_reserve [name] m).trans gains
  have same := congrArg Module.methods grown.rest
  have methods : last.methods = m.methods := same
  have absent : Table.has name last.methods = false := by
    rw [Bool.eq_false_iff, Ne, Table.has_iff, methods]
    intro mem
    obtain ⟨f, there, rfl⟩ := List.mem_map.1 mem
    exact free (order.sound.methods f there)
  have added : addMethod name code last =
      { last.reserve [name] with methods := m.methods ++ [(name, code)] } := by
    rw [addMethod, absent, methods]
    rfl
  rw [added]
  refine ⟨⟨free, fun mem => free (boundNames_taken order mem)⟩, ?_, grown.bound, grown.lines, fun b mem => ?_⟩
  · exact congrArg (fun other : Module => { other with methods := m.methods ++ [(name, code)] }) grown.rest
  · refine (gains.fresh b mem).imp_right fun new => ?_
    rw [mem_reserve] at new
    simp only [List.mem_singleton, not_or] at new
    exact ⟨new.2, fun there => new.1 (boundNames_taken order there)⟩

/-- What an event function does to a module: one new function, and it says the statements of the default handlers
exactly if none of them holds the next line character. -/
theorem eventFunction_adds {w : Writer} (handlers : w.handlers = Handlers.default) (key id : String)
    {as : List Action} (given : as ≠ []) (whole : ∀ a ∈ as, a.config.IsWhole ∅) {m : Module} (order : InOrder m) :
    (eventFunction w key id as).Ensures m fun r m' => ∃ name ts code, r = .ok name ∧
      AddsFunction m m' name code ∧ (∃ last, Wrote Handlers.default (m.reserve [name]) as ts last) ∧
      (Says code name (listing as ts) ↔ ∀ t ∈ ts, nextLine ∉ t.toList) := by
  refine .bind ((uniqueName_ensures _ m).mono ?_)
  rintro _ _ ⟨name, rfl, first, rfl⟩
  rw [handlers]
  refine .bind ((statements_writes whole (order.reserve [name])).mono ?_)
  rintro _ last ⟨ts, rfl, wrote, each, -, gains⟩
  refine .bind (.modify (.pure ⟨name, ts, _, rfl, addMethod_adds order first.free gains _, ⟨last, wrote⟩, ?_⟩))
  rw [arrowFunction_says_iff (listing_given given wrote.length) (isStatement_listing each),
    nextLine_listing wrote.length]

/-- The attribute of a property with actions is the name of an event function. -/
theorem propAttribute_actions (w : Writer) (id key : String) {p : PropOf Part} (given : p.actions ≠ []) :
    propAttribute w id key p = do return some ⟨key, .code (← eventFunction w key id p.actions)⟩ := by
  cases p with
  | action a => rfl
  | many items =>
    have listed : (PropOf.many items).isActionList = true := by
      rw [PropOf.actions] at given
      split at given
      · next all =>
        have some : items ≠ [] := by
          rintro rfl
          exact given rfl
        simp [PropOf.isActionList, all, some]
      · exact absurd rfl given
    rw [propAttribute, if_pos listed]
  | _ => exact absurd rfl given

section Reachable

theorem addStyles_reachable (root : Node) {m : Module} (h : Reachable m) : Reachable (addStyles root m) := by
  have classes (styled : List (String × List (String × Value))) {m : Module} (h : Reachable m) :
      Reachable (styled.foldl (fun m s => m.addClass (Text.className s.1) s.2 (some s.1)) m) := by
    induction styled generalizing m with
    | nil => exact h
    | cons s r ih => exact ih (h.step (.addClass _ _ _))
  rw [addStyles]
  split
  · exact classes _ h
  · exact (classes _ h).step (.setStylesheet _)

/-- Whatever parts of pages are written on it, a module stays among those that writing comes to. -/
theorem writeAll_reachable (c : Catalogue) (hs : Handlers) (p : Page) (parts : List PagePart) :
    Keeps Reachable (PagePart.writeAll c hs p parts) := by
  induction parts with
  | nil => exact .pure _
  | cons part r ih =>
    refine .bind ?_ fun _ => ih
    cases part with
    | styles =>
      refine .bind (.modify fun _ => addStyles_reachable p.root) fun _ => ?_
      dsimp only
      split
      · exact .note _
      · exact .pure _
    | markup width => exact writeMarkup_lasts lasts_reachable ⟨c, hs, width⟩ p

end Reachable

/-- Of a property with a list of actions the valid ones are read, if no reading of the catalogue comes before. Written
as an attribute, also after lifting has rewritten some of them, they become one new function of whatever module
writing has come to: the attribute is its name, which was free, there is a statement of its handler for each of them in
their order, and what was in the module stays as it was. The function says the statements, each under a comment if
there are several, exactly if none of them holds the next line character. -/
theorem actions_said_iff {v : Value} {es : List (String × Value)} {entries : List Value} {as : List Action}
    (object : v.entries? = some es) (listed : (es.lookup "actions").bind Value.items? = some entries)
    (chosen : Reading.Chosen entries as) (given : as ≠ []) {c : Catalogue} {owner : Reading.Owner} {key : String}
    (left : (Reading.special? (c.propReadings.lookup owner.name) key v owner).Ends none) (path : List String)
    (slot : Slot) : ∃ p : PropOf Node,
      Reading.Settles (Reading.propValue c owner path key (.mk v slot)) p ∧ p.actions = as ∧
      ∀ (p' : PropOf Node) (fs : List String), List.Forall₂ (Lifting.Rewritten fs) as p'.actions →
      ∀ w : Writer, w.handlers = Handlers.default → ∀ (id key' : String) (m : Module), Reachable m → ∀ log,
      ∃ name ts code m' log',
        propAttribute w id key' (partOfProp w p') m log = ((.ok (some ⟨key', .code name⟩), m'), log') ∧
        AddsFunction m m' name code ∧ ts.length = as.length ∧
        (∃ last, Wrote Handlers.default (m.reserve [name]) p'.actions ts last) ∧
        (Says code name (listing p'.actions ts) ↔ ∀ t ∈ ts, nextLine ∉ t.toList) := by
  obtain ⟨p, settles, actions⟩ := Reading.propValue_chosen object listed chosen given left path slot
  refine ⟨p, settles, actions, fun p' fs rewritten w handlers id key' m reachable log => ?_⟩
  have given' : p'.actions ≠ [] := by
    intro empty
    rw [empty, List.forall₂_nil_right_iff] at rewritten
    exact given rewritten
  have whole : ∀ a ∈ p'.actions, a.config.IsWhole ∅ := by
    intro a' mem
    obtain ⟨a, there, same | -⟩ := Reading.forall₂_mem_right rewritten mem
    · exact chosen.whole _ there
    · exact Value.isWhole_of_clean rfl
  have parts : (partOfProp w p').actions = p'.actions := by rw [partOfProp_eq, PropOf.actions_map]
  have written := eventFunction_adds handlers key' id given' whole reachable.inOrder log
  rw [propAttribute_actions w id key' (by rwa [parts]), parts]
  rcases ran : eventFunction w key' id p'.actions m log with ⟨⟨r, m'⟩, log'⟩
  rw [ran] at written
  obtain ⟨name, ts, code, rfl, adds, ⟨last, wrote⟩, exactly⟩ := written
  refine ⟨name, ts, code, m', log', run_bind_ok ran _, adds, ?_, ⟨last, wrote⟩, exactly⟩
  rw [wrote.length, rewritten.length_eq]

/-- A property that opens an address with a next line character in it, and has an entry that is no action. -/
def nextLineLink : List Value :=
  [.dict [("type", .str "goToLink"), ("config", .dict [("url", .str "a\u0085b")])], .int 5]

/-- The function of that property is added, and it does not say the one statement that is written for it. -/
theorem nextLineLink_cut : ∃ p : PropOf Node,
    Reading.Settles (Reading.propValue .default ⟨"Button", .int 2⟩ [] "onClick"
      (.mk (.dict [("actions", .list nextLineLink)]) .none)) p ∧
    ∃ name code m' log',
      propAttribute defaultWriter "2" "onClick" (partOfProp defaultWriter p) (new "Index") [] =
        ((.ok (some ⟨"onClick", .code name⟩), m'), log') ∧
      AddsFunction (new "Index") m' name code ∧
      ¬ Says code name ["window.open(\"a\u0085b\", \"_blank\");"] := by
  have valid : Reading.IsAction ⟨"goToLink", .dict [("url", .str "a\u0085b")]⟩ (nextLineLink.head (by decide)) :=
    .mk rfl rfl (by decide) rfl rfl
  have chosen : Reading.Chosen nextLineLink [⟨"goToLink", .dict [("url", .str "a\u0085b")]⟩] := by
    refine .take valid (.skip (fun a other => ?_) .nil)
    obtain ⟨object⟩ := other
    cases object
  let owner : Reading.Owner := ⟨"Button", .int 2⟩
  have left : (Reading.special? (Catalogue.default.propReadings.lookup owner.name) "onClick"
      (.dict [("actions", .list nextLineLink)]) owner).Ends none := .pure _
  obtain ⟨p, settles, actions, writes⟩ := actions_said_iff (v := .dict [("actions", .list nextLineLink)]) rfl rfl
    chosen (by simp) left [] .none
  have same : List.Forall₂ (Lifting.Rewritten []) [⟨"goToLink", .dict [("url", .str "a\u0085b")]⟩] p.actions := by
    rw [actions]
    exact .cons .same .nil
  obtain ⟨name, ts, code, m', log', written, adds, -, ⟨last, wrote⟩, exactly⟩ :=
    writes p [] same defaultWriter rfl "2" "onClick" (new "Index") (.new "Index") []
  refine ⟨p, settles, name, code, m', log', written, adds, ?_⟩
  rw [actions] at wrote exactly
  obtain _ | ⟨first, rest⟩ := wrote
  cases rest
  cases first
  change Says code name ["window.open(\"a\u0085b\", \"_blank\");"] ↔ _ at exactly
  rw [exactly]
  decide

end Component

end Pagesmith
