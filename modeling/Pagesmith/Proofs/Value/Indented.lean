import Pagesmith.Proofs.Value.Grammar
import Pagesmith.Value.Json

/-!
Indented JSON text. The breaks between items are white space, so an indented text writes the same value as
one on a single line, whatever the indentation.
-/

namespace Pagesmith.Value
open Reader

theorem spells_jsonChar (c : Char) : Spells (jsonChar c) (.char c) := by
  unfold jsonChar
  split_ifs with quote backslash feed ret tab back form control
  · exact eq_of_beq quote ▸ .short '"' '"' rfl
  · exact eq_of_beq backslash ▸ .short '\\' '\\' rfl
  · exact eq_of_beq feed ▸ .short 'n' '\n' rfl
  · exact eq_of_beq ret ▸ .short 'r' '\r' rfl
  · exact eq_of_beq tab ▸ .short 't' '\t' rfl
  · have code : Char.ofNat 8 = c := by rw [← eq_of_beq back, Char.ofNat_toNat]
    exact code ▸ .short 'b' _ rfl
  · have code : Char.ofNat 12 = c := by rw [← eq_of_beq form, Char.ofNat_toNat]
    exact code ▸ .short 'f' _ rfl
  · exact .code c (by omega)
  · exact .plain c (by simpa using quote) (by simpa using backslash) (by omega)

theorem spells_jsonLetter (x : Text.Letter) : Spells (jsonLetter x) x := by
  cases x with
  | char c => exact spells_jsonChar c
  | half n => exact .half n

theorem spellsAll_json (s : String) : SpellsAll (s.toList.flatMap jsonChar) (Text.Loose.ofString s) :=
  .ofString spells_jsonChar s

theorem toList_jsonString (s : String) :
    (jsonString s).toList = '"' :: (s.toList.flatMap jsonChar ++ ['"']) := by
  rw [jsonString, String.toList_ofList]
  rfl

theorem writes_jsonString (limit : Option Nat) (s : String) :
    Writes limit (.str s) (jsonString s).toList := by
  rw [toList_jsonString]
  exact .str (spellsAll_json s)

theorem writes_jsonTorn (limit : Option Nat) (t : Text.Torn) : Writes limit (.torn t) (jsonTorn t).toList := by
  rw [jsonTorn, String.toList_ofList]
  exact .torn (.flatMap spells_jsonLetter t.letters)

theorem isSpace_newline (n : Nat) : IsSpace (newline n).toList := by
  intro c mem
  rw [newline, String.toList_ofList] at mem
  obtain rfl | mem := List.mem_cons.1 mem
  · decide
  · rw [List.eq_of_mem_replicate mem]
    decide

section Containers

variable {limit : Option Nat} {step depth : Nat}

theorem indentedItems_eq (xs : List Value) : indentedItems step depth xs = xs.map (indented step depth) := by
  induction xs with
  | nil => rfl
  | cons x r ih => rw [indentedItems, ih, List.map_cons]

theorem indentedEntries_eq (es : List (String × Value)) : indentedEntries step depth es =
    es.map fun e => jsonString e.1 ++ ": " ++ indented step depth e.2 := by
  induction es with
  | nil => rfl
  | cons e r ih =>
    obtain ⟨k, v⟩ := e
    rw [indentedEntries, ih, List.map_cons]

/-- Items on lines of their own, up to the bracket behind them. -/
theorem writes_indentedItems {between closing : String} (space : IsSpace between.toList)
    (space' : IsSpace closing.toList) {xs : List Value} (given : xs ≠ [])
    (items : ∀ x ∈ xs, Writes limit x (indented step depth x).toList) :
    WritesItems limit xs ((String.intercalate ("," ++ between) (indentedItems step depth xs)).toList ++
      (closing.toList ++ [']'])) := by
  rw [indentedItems_eq]
  induction xs with
  | nil => contradiction
  | cons x r ih =>
    obtain ⟨first, rest⟩ := List.forall_mem_cons.1 items
    cases r with
    | nil => simpa using WritesItems.last first space'
    | cons x' r =>
      have more := WritesItems.more first isSpace_nil space (ih (List.cons_ne_nil _ _) rest)
      rw [List.map_cons, List.map_cons, String.intercalate_cons_cons]
      rw [List.map_cons] at more
      simpa using more

/-- Entries on lines of their own, up to the brace behind them. -/
theorem writes_indentedEntries {between closing : String} (space : IsSpace between.toList)
    (space' : IsSpace closing.toList) {es : List (String × Value)} (given : es ≠ [])
    (values : ∀ e ∈ es, Writes limit e.2 (indented step depth e.2).toList) :
    WritesEntries limit es ((String.intercalate ("," ++ between) (indentedEntries step depth es)).toList ++
      (closing.toList ++ ['\x7d'])) := by
  have one : IsSpace [' '] := by simp [IsSpace, isSpace]
  induction es with
  | nil => contradiction
  | cons e r ih =>
    obtain ⟨k, v⟩ := e
    obtain ⟨first, rest⟩ := List.forall_mem_cons.1 values
    cases r with
    | nil =>
      have last := WritesEntries.last (spellsAll_json k) isSpace_nil one first space'
      simpa [indentedEntries, toList_jsonString] using last
    | cons e' r =>
      have more := WritesEntries.more (spellsAll_json k) isSpace_nil one first isSpace_nil space
        (ih (List.cons_ne_nil _ _) rest)
      rw [indentedEntries_eq, List.map_cons, List.map_cons, String.intercalate_cons_cons]
      rw [indentedEntries_eq, List.map_cons] at more
      simpa [toList_jsonString] using more

theorem writes_indented_list {xs : List Value}
    (items : ∀ x ∈ xs, Writes limit x (indented step (depth + step) x).toList) :
    Writes limit (.list xs) (indented step depth (.list xs)).toList := by
  rw [indented, bracketed]
  cases xs with
  | nil =>
    have empty : Writes limit (.list []) ('[' :: ([] ++ [']'])) := .noItems isSpace_nil
    simpa [indentedItems] using empty
  | cons x r =>
    have all := writes_indentedItems (isSpace_newline (depth + step)) (isSpace_newline depth)
      (List.cons_ne_nil x r) items
    have given : (indentedItems step (depth + step) (x :: r)).isEmpty = false := by
      rw [indentedItems_eq]
      rfl
    rw [given]
    simpa using Writes.list (isSpace_newline (depth + step)) all

theorem writes_indented_dict {es : List (String × Value)} (distinct : (es.map (·.1)).Nodup)
    (values : ∀ e ∈ es, Writes limit e.2 (indented step (depth + step) e.2).toList) :
    Writes limit (.dict es) (indented step depth (.dict es)).toList := by
  rw [indented, bracketed]
  cases es with
  | nil =>
    have empty : Writes limit (.dict []) ('\x7b' :: ([] ++ ['\x7d'])) := .noEntries isSpace_nil
    simpa [indentedEntries] using empty
  | cons e r =>
    have entries := writes_indentedEntries (isSpace_newline (depth + step)) (isSpace_newline depth)
      (List.cons_ne_nil e r) values
    have given : (indentedEntries step (depth + step) (e :: r)).isEmpty = false := by
      rw [indentedEntries_eq]
      rfl
    rw [given]
    simpa using Writes.dict (isSpace_newline (depth + step)) entries distinct

theorem writes_indented_token {v : Value} (h : IsToken limit v) : Writes limit v (indented step depth v).toList := by
  refine .scalar ?_
  cases h with
  | null =>
    rw [indented]
    rfl
  | bool b =>
    rw [indented]
    cases b <;> rfl
  | int fits =>
    rw [indented]
    exact scalar_int limit _ fits
  | float canonical =>
    rw [indented]
    exact scalar_float limit canonical

theorem writes_indented_text (s : List Text.Letter) (step depth : Nat) :
    Writes limit (ofLetters s) ((ofLetters s).indented step depth).toList := by
  unfold ofLetters
  dsimp only
  split
  · rw [indented]
    exact writes_jsonTorn limit _
  · rw [indented]
    exact writes_jsonString limit _

end Containers

namespace Reader

mutual

/-- The indented text of a value that was read writes the value. -/
theorem ReadsAs.writes_indented {limit : Option Nat} {n : Nat} {v : Value} {t : List Char}
    (h : ReadsAs limit n v t) (step depth : Nat) : Writes limit v (v.indented step depth).toList := by
  match h with
  | .scalar read => exact writes_indented_token (scalar_token read)
  | .text _ => exact writes_indented_text _ step depth
  | .noItems _ => exact writes_indented_list fun x mem => absurd mem List.not_mem_nil
  | .list _ items => exact writes_indented_list fun x mem => items.writes_indented x mem step (depth + step)
  | .noEntries _ => exact writes_indented_dict .nil fun e mem => absurd mem List.not_mem_nil
  | .dict _ entries merges =>
    obtain rfl := merges.eq
    refine writes_indented_dict (Table.nodup_insertAll _) fun e mem => ?_
    exact entries.writes_indented e ((Table.mem_insertAll mem).resolve_left List.not_mem_nil) step (depth + step)

theorem ReadsAsItems.writes_indented {limit : Option Nat} {n : Nat} {vs : List Value} {t : List Char}
    (h : ReadsAsItems limit n vs t) :
    ∀ v ∈ vs, ∀ step depth, Writes limit v (v.indented step depth).toList := by
  match h with
  | .last value _ => exact List.forall_mem_singleton.2 value.writes_indented
  | .more value _ _ items => exact List.forall_mem_cons.2 ⟨value.writes_indented, items.writes_indented⟩

theorem ReadsAsEntries.writes_indented {limit : Option Nat} {n : Nat} {es : List (String × Value)} {t : List Char}
    (h : ReadsAsEntries limit n es t) :
    ∀ e ∈ es, ∀ step depth, Writes limit e.2 (e.2.indented step depth).toList := by
  match h with
  | .last _ _ _ value _ => exact List.forall_mem_singleton.2 value.writes_indented
  | .more _ _ _ value _ _ entries => exact List.forall_mem_cons.2 ⟨value.writes_indented, entries.writes_indented⟩

end

end Reader

end Pagesmith.Value
