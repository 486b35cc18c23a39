import Pagesmith.Proofs.Component.Emission
import Pagesmith.Proofs.Markup.Layout
import Pagesmith.Proofs.Script.Body

/-!
What is written for a literal stands in the attribute, the class name or the child that is made of
it, and what is written for an address in the statement that opens it. Making them fails over none but the faults
that the values have.
-/

namespace Pagesmith

open Text

section Values

variable {faults : Set Fault} {v : Value}

theorem Value.IsWhole.literalFault (h : v.IsWhole faults) {f : Fault} (stops : Script.literalFault? v = some f) :
    f ∈ faults := by
  obtain ⟨rfl, circular⟩ | ⟨rfl, long⟩ := Script.of_literalFault? stops
  · exact h.acyclic circular
  · exact h.short (Value.holdsLongNumber_of_mem long)

theorem Value.IsWhole.literal (h : v.IsWhole faults) :
    (Script.literal v).Completes faults (· = Script.literalText v) :=
  Script.literal_completes fun _ => h.literalFault

/-- Whatever a value is like, writing it fails over none but the faults of literals. -/
theorem Value.isWhole_literalFaults (v : Value) : v.IsWhole Script.literalFaults := by
  simp [isWhole_iff, Script.literalFaults]

end Values

namespace Component
open PropOf

variable {faults : Set Fault} {v : Value}

theorem codeAttribute_completes (whole : v.IsWhole faults) (name : String) :
    Job.Completes (do return (⟨name, .code (← Script.literal v)⟩ : Attribute)) faults fun a =>
      ∀ e ∈ v.strings.map Emission.code, Holds a.render e.text.toList := by
  refine whole.literal.bind ?_
  rintro _ rfl
  refine .pure fun e mem => ?_
  obtain ⟨s, carried, rfl⟩ := List.mem_map.1 mem
  exact ((Script.holds_literalText carried).append_left _).append_right _

theorem holds_textAttribute (name s : String) :
    ∀ e ∈ Emission.ofAttribute (.str s), Holds (Markup.textAttribute name s).render e.text.toList := by
  intro e mem
  rw [Emission.ofAttribute] at mem
  rw [Markup.textAttribute]
  split at mem
  · next inert =>
    obtain rfl := List.mem_singleton.1 mem
    rw [if_neg (by simp [inert])]
    refine ⟨(name ++ "=").toList, [], ?_⟩
    simp [Attribute.render, Emission.text]
  · next marked =>
    obtain rfl := List.mem_singleton.1 mem
    rw [if_pos (by simpa using marked)]
    have literal : Holds (Script.stringLiteral s) (Script.stringLiteral s).toList :=
      List.infix_refl _
    exact (literal.append_left _).append_right _

theorem literalAttribute_completes (whole : v.IsWhole faults) (name : String) :
    (Markup.literalAttribute name v).Completes faults fun a =>
      ∀ e ∈ Emission.ofAttribute v, Holds a.render e.text.toList := by
  cases v with
  | str s => exact .pure (holds_textAttribute name s)
  | _ => exact codeAttribute_completes whole name

theorem textChild_shows {s : String} (given : s ≠ "") :
    ∀ e ∈ Emission.ofChild (.str s), (Markup.textChild s).Shows e.text.toList := by
  intro e mem
  rw [Emission.ofChild, if_neg (by simpa using given)] at mem
  rw [Markup.textChild]
  split at mem
  · next inert =>
    obtain rfl := List.mem_singleton.1 mem
    rw [if_pos (by simp [inert.1, inert.2])]
    exact .text (List.infix_refl _)
  · next marked =>
    obtain rfl := List.mem_singleton.1 mem
    rw [if_neg (by simpa using marked)]
    exact .code (List.infix_refl _)

theorem codeChild_completes (whole : v.IsWhole faults) :
    Job.Completes (do return some (Markup.code (← Script.literal v))) faults fun c =>
      ∀ e ∈ v.strings.map Emission.code, ∃ m ∈ c.toList, m.Shows e.text.toList := by
  refine whole.literal.bind ?_
  rintro _ rfl
  refine .pure fun e mem => ⟨_, List.mem_singleton.2 rfl, .code ?_⟩
  obtain ⟨s, carried, rfl⟩ := List.mem_map.1 mem
  exact Script.holds_literalText carried

theorem literalChild_completes (whole : v.IsWhole faults) :
    (Markup.literalChild v).Completes faults fun c =>
      ∀ e ∈ Emission.ofChild v, ∃ m ∈ c.toList, m.Shows e.text.toList := by
  cases v with
  | null => exact .pure (by simp [Emission.ofChild, Value.strings])
  | str s =>
    rw [Markup.literalChild]
    refine .pure ?_
    by_cases empty : s = ""
    · simp [empty, Emission.ofChild]
    · rw [if_neg (by simpa using empty)]
      exact fun e mem => ⟨_, List.mem_singleton.2 rfl, textChild_shows empty e mem⟩
  | _ => exact codeChild_completes whole

section ClassNames

variable {p : PropOf Part}

theorem plainClassName_completes (whole : ∀ v ∈ p.literal?, v.IsWhole faults) :
    (plainClassName p).Completes faults fun a =>
      ∀ e ∈ Emission.ofClass false (some p), ∃ x ∈ a.toList, Holds x.render e.text.toList := by
  cases p with
  | literal v =>
    refine (literalAttribute_completes (whole v rfl) "className").bind fun a shows => .pure ?_
    exact fun e mem => ⟨a, List.mem_singleton.2 rfl, shows e mem⟩
  | _ => exact .pure (by simp [Emission.ofClass])

theorem styledClassName_meets (cssClass : String) {given : Option (PropOf Part)}
    (whole : ∀ v ∈ given.bind literal?, v.IsWhole faults) : Job.Meets faults (fun a =>
      ∀ e ∈ Emission.ofClass true given, Holds a.render e.text.toList) (styledClassName cssClass given) := by
  match given with
  | some (.literal v) =>
    rw [styledClassName]
    split
    · next blank => exact fun e mem => by simp [Emission.ofClass, blank] at mem
    · next given =>
      refine (Value.text?_meets (whole v rfl).short).bind ?_
      rintro _ rfl e mem
      rw [Emission.ofClass, if_pos rfl, if_neg given] at mem
      obtain rfl := List.mem_singleton.1 mem
      have literal : Holds (Script.stringLiteral v.text) _ := List.infix_refl _
      have joined := ((literal.append_left "[").append_right ", ").append_right ("styles." ++ cssClass)
      exact ((joined.append_right "].join(\" \")").append_left _).append_right _
  | none | some (.reference _) | some (.expression _) | some (.function _) | some (.action _)
  | some (.node _) | some (.many _) | some (.raw _) => exact fun e mem => nomatch mem

/-- A text that stands beside a class in the attribute for the class name. -/
inductive StandsBeside : Option (PropOf Part) → String → Prop
  | literal {v : Value} (shown : v.isBlank = false) (written : v.text? = .ok v.text) :
    StandsBeside (some (.literal v)) (Script.stringLiteral v.text)
  | reference (name : String) : StandsBeside (some (.reference name)) name
  | expression (t : String) : StandsBeside (some (.expression t)) (Text.trim t)

/-- The attribute for a class refers to the class alone, or to the list of what is given and the class. -/
theorem styledClassName_cases {c : String} {given : Option (PropOf Part)} {a : Attribute}
    (written : styledClassName c given = .ok a) :
    a = ⟨"className", ownClass c⟩ ∨ ∃ g, StandsBeside given g ∧ a = ⟨"className", joinedClass g c⟩ := by
  match given with
  | some (.literal v) =>
    rw [styledClassName] at written
    split at written
    · exact .inl (Except.ok.inj written).symm
    · next given =>
      rw [Value.text?] at written
      split at written
      · cases written
      · next short =>
        have text : v.text? = .ok v.text := if_neg short
        exact .inr ⟨_, .literal (by simpa using given) text, (Except.ok.inj written).symm⟩
  | some (.reference name) => exact .inr ⟨name, .reference name, (Except.ok.inj written).symm⟩
  | some (.expression t) => exact .inr ⟨_, .expression t, (Except.ok.inj written).symm⟩
  | none | some (.function _) | some (.action _) | some (.node _) | some (.many _) | some (.raw _) =>
    exact .inl (Except.ok.inj written).symm

end ClassNames

section Actions

variable {a : Action}

theorem setting_meets (whole : a.config.IsWhole faults) (key : String) :
    Job.Meets faults (· = (a.setting key).text) (a.setting key).text? :=
  Value.text?_meets (a.setting_short whole key)

theorem textSetting_meets (whole : a.config.IsWhole faults) (key : String) :
    Job.Meets faults (· = Script.stringLiteral (Emission.settingText a key)) (Handlers.textSetting a key) := by
  rw [Handlers.textSetting, Emission.settingText]
  dsimp only
  by_cases given : (a.setting key).isTruthy = true
  · rw [if_pos given, if_pos given]
    refine (setting_meets whole key).bind ?_
    rintro _ rfl
    exact rfl
  · rw [if_neg given, if_neg given]
    exact rfl

theorem textSetting_ok {a : Action} {key s : String} (written : Handlers.textSetting a key = .ok s) :
    s = Script.stringLiteral (Emission.settingText a key) := by
  have outcome := textSetting_meets a.config.isWhole_literalFaults key
  rw [written] at outcome
  exact outcome

theorem messageLevel_gives (v : Value) : (Handlers.messageLevel v).Gives (· ∈ Handlers.messageLevels) := by
  have info : "info" ∈ Handlers.messageLevels := by decide
  have replaced : (do Job.note (Handlers.levelNotice v); pure "info" : Job String).Gives
      (· ∈ Handlers.messageLevels) := .bind (.note _) fun _ _ => .pure info
  cases v with
  | null => exact .pure info
  | str s =>
    rw [Handlers.messageLevel]
    split
    · next known => exact .pure (List.contains_iff_mem.1 known)
    · exact replaced
  | _ => exact replaced

theorem isStatement_warning (text : String) : Script.IsStatement (Handlers.warning text) :=
  Script.isStatement_around (by decide) (Script.isTame_stringLiteral text) (by decide) (by decide)

/-- A call is a statement, of a function or of a warning; what passes for an identifier may end in a line feed, and
the call is then on two lines. -/
theorem callStatement_completes {target : Value} (short : target.holdsLongNumber = true → .longNumber ∈ faults) :
    (Handlers.callStatement target).Completes faults Script.IsStatement := by
  have warned : Job.Completes (do
      Job.note (Handlers.targetNotice target)
      let shown ← target.text?
      pure (Handlers.warning ("Invalid method reference: " ++ shown))) faults Script.IsStatement := by
    refine (Job.Completes.note _).bind fun _ _ => .bind (.ofExcept (Value.text?_meets short)) fun shown _ => ?_
    exact .pure (isStatement_warning _)
  cases target with
  | str s =>
    dsimp only [Handlers.callStatement]
    split
    · next reads =>
      refine .pure ?_
      obtain name | ⟨t, name, rfl⟩ := Text.isIdentifier_cases reads
      · refine Script.isStatement_line (by simp) ?_
        exact Script.isTame_unbroken ((Script.isUnbroken_name name).append (by decide))
      · have call : Script.IsStatement "();" :=
          Script.isStatement_line (by decide) (Script.isTame_unbroken (by decide))
        refine call.under ?_ (Script.isTame_unbroken (Script.isUnbroken_name name))
        rintro rfl
        exact absurd name (by decide)
    · exact warned
  | _ => exact warned

theorem callTarget_short (whole : a.config.IsWhole faults) (key : String)
    (long : (Handlers.callTarget (a.setting key)).holdsLongNumber = true) : .longNumber ∈ faults := by
  rw [Handlers.callTarget.eq_def] at long
  split at long
  · dsimp only at long
    split at long <;> cases long
  · exact a.setting_short whole key long

end Actions

/-- A rule gives one tag, whatever notices were given before. -/
theorem tag_ends {ν : Type} (rule : TagRule) (props : List (String × PropOf ν)) :
    ∃ tag, (Catalogue.tag rule props).Ends tag := by
  have noted {n : Notice} {tag : String} : (do Job.note n; pure tag : Job String).Ends tag :=
    .bind (.note _) (.pure tag)
  cases rule with
  | fixed | icon => exact ⟨_, .pure _⟩
  | typography =>
    rw [Catalogue.tag, Catalogue.typographyTag.eq_def]
    split
    · exact ⟨_, .pure _⟩
    · exact ⟨_, .pure _⟩
    · exact ⟨_, .pure _⟩
    · exact ⟨_, .pure _⟩
    · exact ⟨_, noted⟩
    · exact ⟨_, noted⟩

theorem tag_gives {ν : Type} (rule : TagRule) (props : List (String × PropOf ν)) :
    (Catalogue.tag rule props).Gives fun _ => True := by
  obtain ⟨tag, ends⟩ := tag_ends rule props
  exact ends.gives.mono fun _ _ => trivial

end Component

end Pagesmith
