import Mathlib.Data.List.Basic
import Pagesmith.Proofs.Delivery.Archive
import Pagesmith.Settings

/-!
Settings that are refused, and settings over which reading breaks down. A file that can be read either gives
settings, in which the numbers of the form of files are the whole numbers that it says, or it is refused with a fault
about settings; but there are a few values for which neither is so, and they are told here one by one.
-/

namespace Pagesmith

namespace Value

mutual

/-- How many values lie one inside the other, the value itself included. What lies in a checked node does not count. -/
def height : Value → Nat
  | list xs | tuple xs => itemsHeight xs + 1
  | dict es => entriesHeight es + 1
  | null | bool _ | int _ | float _ | str _ | torn _ | bytes _ | function | node _ | back _ | foreign .. => 1

def itemsHeight : List Value → Nat
  | [] => 0
  | x :: r => max x.height (itemsHeight r)

def entriesHeight : List (String × Value) → Nat
  | [] => 0
  | (_, x) :: r => max x.height (entriesHeight r)

end

/-- The value cannot be written down with so much room: it is too high, or it holds a number too long for a text. -/
def Hinders (room : Nat) (v : Value) : Prop := v.holdsLongNumber = true ∨ room < v.height

section Hindrance

mutual

theorem hindrance?_isSome (room : Nat) (v : Value) : (v.hindrance? room).isSome = true ↔ v.Hinders room := by
  rw [Hinders]
  cases v with
  | int n => cases room <;> cases long : isLongNumber n <;> simp [hindrance?, holdsLongNumber, height, long]
  | node n => cases room <;> cases long : nodeHoldsLongNumber n <;> simp [hindrance?, holdsLongNumber, height, long]
  | list xs | tuple xs =>
    cases room with
    | zero => simp [hindrance?, height]
    | succ room => simp [hindrance?, holdsLongNumber, height, itemsHindrance?_isSome room xs]
  | dict es =>
    cases room with
    | zero => simp [hindrance?, height]
    | succ room => simp [hindrance?, holdsLongNumber, height, entriesHindrance?_isSome room es]
  | null | bool _ | float _ | str _ | torn _ | bytes _ | function | back _ | «foreign» _ _ _ =>
    cases room <;> simp [hindrance?, holdsLongNumber, height]

theorem itemsHindrance?_isSome (room : Nat) (xs : List Value) :
    (itemsHindrance? room xs).isSome = true ↔ itemsHoldLongNumber xs = true ∨ room < itemsHeight xs := by
  cases xs with
  | nil => simp [itemsHindrance?, itemsHoldLongNumber, itemsHeight]
  | cons x r =>
    have first := hindrance?_isSome room x
    have rest := itemsHindrance?_isSome room r
    rw [Hinders] at first
    simp only [itemsHindrance?, Option.isSome_or, Bool.or_eq_true, first, rest, itemsHoldLongNumber, itemsHeight]
    exact or_or_or_comm.trans (or_congr_right (by omega))

theorem entriesHindrance?_isSome (room : Nat) (es : List (String × Value)) :
    (entriesHindrance? room es).isSome = true ↔ entriesHoldLongNumber es = true ∨ room < entriesHeight es := by
  cases es with
  | nil => simp [entriesHindrance?, entriesHoldLongNumber, entriesHeight]
  | cons e r =>
    have first := hindrance?_isSome room e.2
    have rest := entriesHindrance?_isSome room r
    rw [Hinders] at first
    simp only [entriesHindrance?, Option.isSome_or, Bool.or_eq_true, first, rest, entriesHoldLongNumber, entriesHeight]
    exact or_or_or_comm.trans (or_congr_right (by omega))

end

end Hindrance

end Value

namespace Settings
open Text (Letter Loose)

variable {α β : Type}

/-- The fault is that the settings are refused. -/
def IsRefusal (f : Fault) : Prop := f.code = some "CONFIG_INVALID"

/-- It fails, and not because the settings are refused. -/
def BreaksDown (x : Except Fault α) : Prop := ∃ f, x = .error f ∧ ¬ IsRefusal f

section Steps

variable {x : Except Fault α} {next : α → Except Fault β}

theorem bind_eq_ok {b : β} : (x >>= next) = .ok b ↔ ∃ a, x = .ok a ∧ next a = .ok b := by
  cases x with
  | error f => simp [bind, Except.bind]
  | ok a => simp [bind, Except.bind]

theorem breaksDown_ok (a : α) : ¬ BreaksDown (Except.ok a : Except Fault α) := by
  rintro ⟨_, ⟨⟩, -⟩

theorem breaksDown_error {f : Fault} : BreaksDown (Except.error f : Except Fault α) ↔ ¬ IsRefusal f := by
  constructor
  · rintro ⟨_, ⟨⟩, other⟩
    exact other
  · exact fun other => ⟨f, rfl, other⟩

theorem breaksDown_bind : BreaksDown (x >>= next) ↔ BreaksDown x ∨ ∃ a, x = .ok a ∧ BreaksDown (next a) := by
  cases x with
  | error f =>
    change BreaksDown (Except.error f) ↔ _
    simp [breaksDown_error]
  | ok a =>
    change BreaksDown (next a) ↔ _
    simp [breaksDown_ok]

/-- A step that is never refused, before others that do not look at what it gives. -/
theorem breaksDown_seq {S P : Prop} (first : (∃ a, x = .ok a) ∧ ¬ S ∨ BreaksDown x ∧ S)
    (rest : ∀ a, BreaksDown (next a) ↔ P) : BreaksDown (x >>= next) ↔ S ∨ P := by
  obtain ⟨⟨a, rfl⟩, fine⟩ | ⟨broken, spoilt⟩ := first
  · exact (rest a).trans (or_iff_right fine).symm
  · exact iff_of_true (breaksDown_bind.2 (.inl broken)) (.inl spoilt)

/-- A refusal breaks down only where what it says cannot be told. -/
theorem breaksDown_refusing {cause : α → Fault} (refusal : ∀ a, IsRefusal (cause a)) :
    BreaksDown (do throw (cause (← x)) : Except Fault β) ↔ BreaksDown x := by
  rw [breaksDown_bind, or_iff_left]
  rintro ⟨a, -, broken⟩
  exact breaksDown_error.1 broken (refusal a)

end Steps

section Values

/-- The letter cannot stand in a path that a disk is asked for. -/
def IsBarred : Letter → Prop
  | .char c => c = Char.ofNat 0
  | .half n => Loose.nameOctet? n = none

instance : (x : Letter) → Decidable (IsBarred x)
  | .char c => inferInstanceAs (Decidable (c = Char.ofNat 0))
  | .half n => inferInstanceAs (Decidable (Loose.nameOctet? n = none))

/-- A path seen from the workspace that a disk cannot be asked for. -/
def IsBarredPath (path : Loose) : Prop := path.head? ≠ some (.char '/') ∧ ∃ x ∈ path, IsBarred x

/-- No path can be made of the value, or it is one seen from the workspace that a disk cannot be asked for. -/
def SpoilsFolder (v : Value) : Prop :=
  match v.letters? with
  | some path => IsBarredPath path
  | none => v.isTruthy = true

/-- The value counts as given and cannot be written down. -/
def SpoilsText (v : Value) : Prop := v.isTruthy = true ∧ v.Hinders textRoom

/-- The value is infinite; or it is refused as negative or as no number, but cannot be written down for that. -/
def SpoilsNumber (v : Value) : Prop :=
  match v.whole with
  | .ok n => n < 0 ∧ Value.isLongNumber n = true
  | .error f => f = .infiniteInteger ∨ v.Hinders shownRoom

theorem hindrance_other (h : Value.Hindrance) : ¬ IsRefusal h.fault := by
  cases h <;> simp [IsRefusal, Fault.code, Value.Hindrance.fault]

theorem breaksDown_shown {room : Nat} {v : Value} : BreaksDown (v.shownWithin? room) ↔ v.Hinders room := by
  rw [Value.shownWithin?, ← Value.hindrance?_isSome]
  cases v.hindrance? room with
  | none => exact iff_of_false (breaksDown_ok _) (by simp)
  | some h => exact iff_of_true ⟨_, rfl, hindrance_other h⟩ rfl

theorem breaksDown_long {long : Bool} {s : String} :
    BreaksDown (if long then .error .longNumber else .ok s) ↔ long = true := by
  cases long
  · exact iff_of_false (breaksDown_ok s) (by simp)
  · exact iff_of_true (breaksDown_error.2 (by simp [IsRefusal, Fault.code])) rfl

end Values

section Reading

variable {data fields : List (String × Value)} {name key : String}

/-- The section of this name has these fields. One that is not there, or does not count as given, has none. -/
def Section (data : List (String × Value)) (name : String) (fields : List (String × Value)) : Prop :=
  data.lookup name = some (.dict fields) ∨ fields = [] ∧ ∀ v ∈ data.lookup name, v.isTruthy = false

theorem section?_eq_ok : section? data name = .ok fields ↔ Section data name fields := by
  rw [section?, Section]
  cases found : data.lookup name with
  | none => simp [Value.isTruthy, @eq_comm _ []]
  | some v =>
    rw [Option.getD_some]
    split
    · next es =>
      simp only [Except.ok.injEq, Option.some.injEq, Value.dict.injEq, Option.mem_def, forall_eq', Value.isTruthy]
      constructor
      · exact .inl
      · rintro (same | ⟨rfl, none⟩)
        · exact same
        · simpa using none
    · next other =>
      have noTable : ∀ es, v ≠ .dict es := other
      split
      · next given => simp [noTable, given]
      · next missing => simp [noTable, missing, @eq_comm _ []]

/-- A section that is no table is refused. -/
theorem section?_refused : ¬ BreaksDown (section? data name) := by
  rw [section?]
  split
  · exact breaksDown_ok _
  · split
    · exact fun broken => breaksDown_error.1 broken rfl
    · exact breaksDown_ok _

theorem breaksDown_section {next : List (String × Value) → Except Fault β} :
    BreaksDown (section? data name >>= next) ↔ ∃ fields, Section data name fields ∧ BreaksDown (next fields) := by
  simp only [breaksDown_bind, section?_refused, false_or, section?_eq_ok]

/-- Segments with one more have octets together exactly if no half in that one is barred. -/
theorem nameOctets?_ok_iff {here : List Loose} (usual : ∀ s ∈ here, ∀ n, .half n ∈ s → ¬ IsBarred (.half n))
    (s : Loose) : (∃ bs, Loose.nameOctets? (.char '/' :: Delivery.joinParts (here ++ [s])) = .ok bs) ↔
      ∀ n, .half n ∈ s → ¬ IsBarred (.half n) := by
  have noSlash (n : Fin 0x800) : Letter.half n ≠ .char '/' := Letter.noConfusion
  have known (n : Fin 0x800) : (Loose.nameOctet? n).isSome = true ↔ ¬ IsBarred (.half n) :=
    Option.isSome_iff_ne_none
  simp only [Loose.nameOctets?, Loose.encodeFrom_ok_iff, known]
  constructor
  · intro fine n mem
    exact fine n (List.mem_cons_of_mem _ ((Delivery.mem_joinParts (noSlash n)).2 ⟨s, by simp, mem⟩))
  · intro fine n mem
    have mem := (List.mem_cons.1 mem).resolve_left (noSlash n)
    obtain ⟨t, there, inside⟩ := (Delivery.mem_joinParts (noSlash n)).1 mem
    obtain there | there := List.mem_append.1 there
    · exact usual t there n inside
    · exact fine n (List.mem_singleton.1 there ▸ inside)

/-- A disk cannot be asked for a path exactly if a letter in it is barred. -/
theorem askFault?_cases {here : List Loose} (usual : ∀ s ∈ here, ∀ n, .half n ∈ s → ¬ IsBarred (.half n))
    (ps : List Loose) :
    Delivery.askFault? here ps = none ∧ (∀ s ∈ ps, ∀ x ∈ s, ¬ IsBarred x) ∨
      ∃ f, Delivery.askFault? here ps = some f ∧ ¬ IsRefusal f ∧ ∃ s ∈ ps, ∃ x ∈ s, IsBarred x := by
  -- On the segments still to go: those before them are in `here`, and none of their halves was barred.
  induction ps generalizing here with
  | nil => exact .inl ⟨rfl, by simp⟩
  | cons s r ih =>
    have rest {at_ : List Loose} (usual : ∀ t ∈ at_, ∀ n, .half n ∈ t → ¬ IsBarred (.half n))
        (fine : ∀ x ∈ s, ¬ IsBarred x) :
        Delivery.askFault? at_ r = none ∧ (∀ t ∈ s :: r, ∀ x ∈ t, ¬ IsBarred x) ∨
          ∃ f, Delivery.askFault? at_ r = some f ∧ ¬ IsRefusal f ∧ ∃ t ∈ s :: r, ∃ x ∈ t, IsBarred x := by
      obtain ⟨asked, all⟩ | ⟨f, failed, other, t, mem, x, barred⟩ := ih usual
      · exact .inl ⟨asked, List.forall_mem_cons.2 ⟨fine, all⟩⟩
      · exact .inr ⟨f, failed, other, t, List.mem_cons_of_mem s mem, x, barred⟩
    rw [Delivery.askFault?]
    by_cases up : s = Loose.ofString ".."
    · rw [if_pos (beq_iff_eq.2 up)]
      refine rest (fun t mem => usual t (List.mem_of_mem_dropLast mem)) ?_
      rw [up]
      decide
    rw [if_neg (by simpa using up)]
    have octets_iff := nameOctets?_ok_iff usual s
    cases encoded : Loose.nameOctets? (.char '/' :: Delivery.joinParts (here ++ [s])) with
    | error cause =>
      rw [encoded] at octets_iff
      obtain ⟨n, mem, barred⟩ : ∃ n, .half n ∈ s ∧ IsBarred (.half n) := by simpa using octets_iff
      exact .inr ⟨_, rfl, by simp [IsRefusal, Fault.code], s, List.mem_cons_self, _, mem, barred⟩
    | ok bs =>
      have halves := octets_iff.1 ⟨bs, encoded⟩
      dsimp only
      split
      · next nul =>
        refine .inr ⟨_, rfl, by simp [IsRefusal, Fault.code], s, List.mem_cons_self, .char (Char.ofNat 0), ?_, rfl⟩
        simpa using nul
      · next free =>
        refine rest (fun t mem => ?_) fun x mem => ?_
        · obtain mem | mem := List.mem_append.1 mem
          · exact usual t mem
          · exact List.mem_singleton.1 mem ▸ halves
        · cases x with
          | half n => exact halves n mem
          | char c =>
            rintro rfl
            exact free (by simpa using mem)

theorem folderAt_cases (root : List String) (path : Loose) :
    (∃ s, folderAt root path = .ok s) ∧ ¬ IsBarredPath path ∨ BreaksDown (folderAt root path) ∧ IsBarredPath path := by
  rw [folderAt, IsBarredPath]
  by_cases whole : path.head? = some (.char '/')
  · rw [if_pos (beq_iff_eq.2 whole)]
    exact .inl ⟨⟨_, rfl⟩, fun spoils => spoils.1 whole⟩
  rw [if_neg (by simpa using whole)]
  have usual : ∀ s ∈ root.map Loose.ofString, ∀ n, .half n ∈ s → ¬ IsBarred (.half n) := by
    intro s mem n half
    obtain ⟨s, -, rfl⟩ := List.mem_map.1 mem
    exact absurd half (Loose.isBroken_eq_false.1 (Loose.isBroken_ofString s) n)
  obtain ⟨asked, fine⟩ | ⟨f, failed, other, s, there, x, mem, barred⟩ := askFault?_cases usual (Delivery.parts path)
  · rw [asked]
    refine .inl ⟨⟨_, rfl⟩, ?_⟩
    rintro ⟨-, x, mem, barred⟩
    have other (c : Char) (plain : c ≠ Char.ofNat 0) : x ≠ .char c := by
      rintro rfl
      exact plain barred
    obtain ⟨s, there, inside⟩ := Delivery.exists_parts (other '/' (by decide)) (other '.' (by decide)) mem
    exact fine s there x inside barred
  · rw [failed]
    exact .inr ⟨⟨_, rfl, other⟩, whole, x, (Delivery.mem_parts there).2.2 mem, barred⟩

theorem outDirOf_cases (root : List String) (fields : List (String × Value)) :
    (∃ s, outDirOf root fields = .ok s) ∧ ¬ SpoilsFolder ((fields.lookup "out_dir").getD .null) ∨
      BreaksDown (outDirOf root fields) ∧ SpoilsFolder ((fields.lookup "out_dir").getD .null) := by
  rw [outDirOf]
  generalize (fields.lookup "out_dir").getD .null = v
  by_cases given : v.isTruthy = true
  · rw [if_pos given, SpoilsFolder]
    cases v.letters? with
    | none => exact .inr ⟨⟨_, rfl, by simp [IsRefusal, Fault.code]⟩, given⟩
    | some path => exact folderAt_cases root path
  · rw [if_neg given]
    have usual : ¬ IsBarredPath defaultOutDir := fun barred => absurd barred.2 (by decide)
    refine .inl ⟨((folderAt_cases root defaultOutDir).resolve_right fun broken => usual broken.2).1, fun spoils => ?_⟩
    rw [SpoilsFolder] at spoils
    cases v with
    | str path =>
      have empty : path = "" := by simpa [Value.isTruthy] using given
      rw [empty] at spoils
      obtain ⟨-, x, mem, -⟩ := spoils
      cases mem
    | torn t => exact given rfl
    | _ => exact given spoils

theorem given?_cases (fields : List (String × Value)) (key : String) :
    (∃ s, given? fields key = .ok s) ∧ ¬ (∃ v ∈ fields.lookup key, SpoilsText v) ∨
      BreaksDown (given? fields key) ∧ ∃ v ∈ fields.lookup key, SpoilsText v := by
  rw [given?]
  cases fields.lookup key with
  | none => exact .inl ⟨⟨_, rfl⟩, by simp⟩
  | some v =>
    dsimp only
    split
    case isFalse missing => exact .inl ⟨⟨_, rfl⟩, by simp [SpoilsText, missing]⟩
    case isTrue given =>
      have hinders := Value.hindrance?_isSome textRoom v
      rw [Value.textWithin?]
      cases found : v.hindrance? textRoom with
      | some h =>
        rw [found] at hinders
        exact .inr ⟨⟨_, rfl, hindrance_other h⟩, v, rfl, given, hinders.1 rfl⟩
      | none =>
        rw [found] at hinders
        have free : ¬ v.Hinders textRoom := fun spoils => Bool.false_ne_true (hinders.2 spoils)
        exact .inl ⟨⟨_, rfl⟩, by simp [SpoilsText, free]⟩

/-- The number that the fields say under the key, or the usual one if they say nothing. -/
def Counts (fields : List (String × Value)) (key : String) (usual n : Nat) : Prop :=
  match fields.lookup key with
  | none => n = usual
  | some v => v.whole = .ok n

theorem number_eq_ok {usual n : Nat} : number fields key usual = .ok n ↔ Counts fields key usual n := by
  rw [number, Counts]
  cases fields.lookup key with
  | none => simp [@eq_comm _ usual]
  | some v =>
    dsimp only
    split
    · next k whole =>
      simp only [whole, Except.ok.injEq]
      exact Int.ofNat_inj.symm
    · next k negative whole =>
      have other : k ≠ n := negative n
      rw [bind_eq_ok, whole]
      simp [other, throw, throwThe, MonadExceptOf.throw]
    · next whole => simp [whole]
    · next f infinite whole =>
      rw [bind_eq_ok, whole]
      simp [throw, throwThe, MonadExceptOf.throw]

theorem breaksDown_number {usual : Nat} :
    BreaksDown (number fields key usual) ↔ ∃ v ∈ fields.lookup key, SpoilsNumber v := by
  rw [number]
  cases fields.lookup key with
  | none => simp [breaksDown_ok]
  | some v =>
    simp only [Option.mem_def, Option.some.injEq, exists_eq_left', SpoilsNumber]
    split
    · next k whole =>
      rw [whole]
      exact iff_of_false (breaksDown_ok k) fun spoils => absurd spoils.1 (by simp)
    · next k negative whole =>
      have below : k < 0 := by
        by_contra up
        exact negative k.toNat (by simp; omega)
      have refusal (_ : String) : IsRefusal (.settingsNegative key k) := rfl
      rw [whole]
      refine (breaksDown_refusing refusal).trans (breaksDown_long.trans ?_)
      rw [Value.holdsLongNumber]
      exact (and_iff_right below).symm
    · next whole =>
      rw [whole]
      exact iff_of_true ⟨_, rfl, by simp [IsRefusal, Fault.code]⟩ (.inl rfl)
    · next f infinite whole =>
      have other : f ≠ .infiniteInteger := infinite
      have refusal (shown : String) : IsRefusal (.settingsNumber key shown) := rfl
      rw [whole]
      refine (breaksDown_refusing refusal).trans (breaksDown_shown.trans ?_)
      simp [other]

end Reading

/-- The texts among the settings. -/
def textKeys : List String := ["solution", "project_name", "publish", "log_level"]

/-- The numbers of the form of files, in the order in which they are read, with the usual ones. -/
def numberKeys : List (String × Nat) :=
  [("indent_size", Format.Options.default.indent), ("max_line_length", Format.Options.default.lineWidth),
    ("max_empty_lines", Format.Options.default.blankLines)]

/-- A number spoils the reading, and those that are read before it do not stop it. -/
def SpoiltNumbers (form : List (String × Value)) : List (String × Nat) → Prop
  | [] => False
  | k :: r => (∃ v ∈ form.lookup k.1, SpoilsNumber v) ∨ (∃ n, Counts form k.1 k.2 n) ∧ SpoiltNumbers form r

/-- Settings over which reading breaks down. A refusal on the way, of a section or of a number that is read before,
keeps it from coming to a value that spoils it. -/
inductive Spoilt (data : List (String × Value)) : Prop
  | folder {defaults : List (String × Value)} (told : Section data "defaults" defaults)
    (spoils : SpoilsFolder ((defaults.lookup "out_dir").getD .null))
  | text {defaults : List (String × Value)} {key : String} {v : Value} (told : Section data "defaults" defaults)
    (known : key ∈ textKeys) (there : v ∈ defaults.lookup key) (spoils : SpoilsText v)
  | number {defaults form : List (String × Value)} (told : Section data "defaults" defaults)
    (asked : Section data "formatting" form) (spoils : SpoiltNumbers form numberKeys)

section Table

variable {data fields : List (String × Value)} {key : String}

theorem breaksDown_numbers {usual : Nat} {r : List (String × Nat)} {next : Nat → Except Fault β}
    (rest : ∀ n, BreaksDown (next n) ↔ SpoiltNumbers fields r) :
    BreaksDown (number fields key usual >>= next) ↔ SpoiltNumbers fields ((key, usual) :: r) := by
  simp only [breaksDown_bind, breaksDown_number, number_eq_ok, rest, exists_and_right, SpoiltNumbers]

theorem ofTable_breaksDown_iff {root : List String} {path : Option (List String)} :
    BreaksDown (ofTable root path data) ↔ Spoilt data := by
  have steps : BreaksDown (ofTable root path data) ↔ ∃ defaults, Section data "defaults" defaults ∧
      (SpoilsFolder ((defaults.lookup "out_dir").getD .null) ∨
        (∃ v ∈ defaults.lookup "solution", SpoilsText v) ∨ (∃ v ∈ defaults.lookup "project_name", SpoilsText v) ∨
        (∃ v ∈ defaults.lookup "publish", SpoilsText v) ∨ (∃ v ∈ defaults.lookup "log_level", SpoilsText v) ∨
        ∃ form, Section data "formatting" form ∧ SpoiltNumbers form numberKeys) := by
    rw [ofTable, breaksDown_section]
    refine exists_congr fun defaults => and_congr_right fun _ => ?_
    refine breaksDown_seq (outDirOf_cases root defaults) fun _ => ?_
    refine breaksDown_seq (given?_cases defaults "solution") fun _ => ?_
    refine breaksDown_seq (given?_cases defaults "project_name") fun _ => ?_
    refine breaksDown_seq (given?_cases defaults "publish") fun _ => ?_
    refine breaksDown_seq (given?_cases defaults "log_level") fun _ => ?_
    refine breaksDown_section.trans (exists_congr fun form => and_congr_right fun _ => ?_)
    dsimp only [numberKeys]
    refine breaksDown_numbers fun _ => breaksDown_numbers fun _ => breaksDown_numbers fun _ => ?_
    exact iff_false_intro (breaksDown_ok _)
  rw [steps]
  constructor
  · rintro ⟨defaults, told, spoils | ⟨v, found⟩ | ⟨v, found⟩ | ⟨v, found⟩ | ⟨v, found⟩ | ⟨form, asked, spoils⟩⟩
    · exact .folder told spoils
    · exact .text told (by simp [textKeys]) found.1 found.2
    · exact .text told (by simp [textKeys]) found.1 found.2
    · exact .text told (by simp [textKeys]) found.1 found.2
    · exact .text told (by simp [textKeys]) found.1 found.2
    · exact .number told asked spoils
  · rintro (⟨told, spoils⟩ | ⟨told, known, there, spoils⟩ | ⟨told, asked, spoils⟩)
    · exact ⟨_, told, .inl spoils⟩
    · refine ⟨_, told, .inr ?_⟩
      simp only [textKeys, List.mem_cons, List.not_mem_nil, or_false] at known
      obtain rfl | rfl | rfl | rfl := known
      · exact .inl ⟨_, there, spoils⟩
      · exact .inr (.inl ⟨_, there, spoils⟩)
      · exact .inr (.inr (.inl ⟨_, there, spoils⟩))
      · exact .inr (.inr (.inr (.inl ⟨_, there, spoils⟩)))
    · exact ⟨_, told, .inr (.inr (.inr (.inr (.inr ⟨_, asked, spoils⟩))))⟩

/-- The numbers of the settings are those that the file says, or the usual ones. -/
def Counted (s : Settings) (data : List (String × Value)) : Prop :=
  ∃ form, Section data "formatting" form ∧
    Counts form "indent_size" Format.Options.default.indent s.indent ∧
    Counts form "max_line_length" Format.Options.default.lineWidth s.lineWidth ∧
    Counts form "max_empty_lines" Format.Options.default.blankLines s.blankLines

theorem ofTable_counted {root : List String} {path : Option (List String)} {s : Settings}
    (done : ofTable root path data = .ok s) : s.Counted data := by
  simp only [ofTable, bind_eq_ok, section?_eq_ok, number_eq_ok] at done
  obtain ⟨_, -, _, -, _, -, _, -, _, -, _, -, form, asked, indent, first, width, second, blank, third, made⟩ := done
  cases made
  exact ⟨form, asked, first, second, third⟩

end Table

section Load

variable {l : Delivery.Limits} {d : Delivery.Disk l} {root path : List String} {asked : Option (List String)}

theorem load_located (located : locate d root asked = .ok (some path)) : load d root asked =
    match readFile d path with
    | .error cause => .error (if cause.isDepth then cause else .settingsUnreadable (fileName path) cause.message)
    | .ok (.dict data) => ofTable root (some path) data
    | .ok _ => .error (.settingsShape (fileName path)) := by
  rw [load, located]
  cases asked <;> rfl

theorem load_noTable {v : Value} (located : locate d root asked = .ok (some path)) (read : readFile d path = .ok v)
    (other : ∀ data, v ≠ .dict data) : load d root asked = .error (.settingsShape (fileName path)) := by
  rw [load_located located, read]
  cases v with
  | dict data => exact absurd rfl (other data)
  | _ => rfl

end Load

/-- Settings from a file that can be read. They are there, with the whole numbers that the file says or the usual
ones, or they are refused, unless the file holds a table that spoils the reading. -/
theorem load_answers_iff {l : Delivery.Limits} {d : Delivery.Disk l} {root path : List String}
    {asked : Option (List String)} {v : Value}
    (located : locate d root asked = .ok (some path)) (read : readFile d path = .ok v) :
    ((∃ s data, load d root asked = .ok s ∧ v = .dict data ∧ s.Counted data) ∨
        ∃ f, load d root asked = .error f ∧ f.code = some "CONFIG_INVALID") ↔
      ∀ data, v = .dict data → ¬ Spoilt data := by
  by_cases table : ∃ data, v = .dict data
  case neg =>
    have other : ∀ data, v ≠ .dict data := fun data same => table ⟨data, same⟩
    rw [load_noTable located read other]
    exact iff_of_true (.inr ⟨_, rfl, rfl⟩) fun data same => absurd same (other data)
  obtain ⟨data, rfl⟩ := table
  rw [load_located located, read]
  have spoilt := @ofTable_breaksDown_iff data root (some path)
  simp only [Value.dict.injEq, forall_eq', ← spoilt]
  cases made : ofTable root (some path) data with
  | ok s => exact iff_of_true (.inl ⟨s, data, rfl, rfl, ofTable_counted made⟩) (breaksDown_ok s)
  | error f => simp [breaksDown_error, IsRefusal]

/-- A workspace whose settings ask for an endless indentation. -/
def endlessIndent : Delivery.Disk .usual :=
  ⟨[(["ws"], .folder), (["ws", "pagegen.toml"], .file (Text.octets "[formatting]\nindent_size = inf\n"))]⟩

/-- The table asks for an endless indentation, and for nothing else. -/
def asksEndless : Value → Bool
  | .dict [(part, .dict [(key, .float (.infinite false))])] => part == "formatting" && key == "indent_size"
  | _ => false

theorem eq_of_asksEndless {v : Value} (asks : asksEndless v = true) :
    v = .dict [("formatting", .dict [("indent_size", .float (.infinite false))])] := by
  rw [asksEndless.eq_def] at asks
  split at asks
  · obtain ⟨part, key⟩ := Bool.and_eq_true_iff.1 asks
    rw [eq_of_beq part, eq_of_beq key]
  · cases asks

/-- Nothing comes of them, and they are not refused either. -/
theorem endlessIndent_unanswered : ∃ v, locate endlessIndent ["ws"] none = .ok (some ["ws", "pagegen.toml"]) ∧
    readFile endlessIndent ["ws", "pagegen.toml"] = .ok v ∧
    ¬ ((∃ s data, load endlessIndent ["ws"] none = .ok s ∧ v = .dict data ∧ s.Counted data) ∨
      ∃ f, load endlessIndent ["ws"] none = .error f ∧ f.code = some "CONFIG_INVALID") := by
  have located : locate endlessIndent ["ws"] none = .ok (some ["ws", "pagegen.toml"]) := rfl
  have read : readFile endlessIndent ["ws", "pagegen.toml"] =
      .ok (.dict [("formatting", .dict [("indent_size", .float (.infinite false))])]) := by
    have found : (readFile endlessIndent ["ws", "pagegen.toml"]).toOption.any asksEndless = true := by decide +kernel
    rcases read : readFile endlessIndent ["ws", "pagegen.toml"] with f | v
    · rw [read] at found
      cases found
    · rw [read] at found
      exact congrArg Except.ok (eq_of_asksEndless found)
  refine ⟨_, located, read, fun answered => ?_⟩
  have spared := (load_answers_iff located read).1 answered _ rfl
  refine spared (.number (.inr ⟨rfl, ?_⟩) (.inl rfl) (.inl ⟨_, rfl, .inl rfl⟩))
  simp [List.lookup_cons, List.lookup_nil]

end Settings
end Pagesmith
