import Mathlib.Data.List.Basic
import Pagesmith.Proofs.Job
import Pagesmith.Value.Json
import Pagesmith.Value.Text

/-!
Values in which no container lies in itself: nothing in them leads back, so what a container holds is what it is
written with. In any container, what it holds has no number too long for a text unless the container has one.
-/

namespace Pagesmith.Value

variable {self : Nat → Value}

mutual

theorem refold_eq {v : Value} (free : .circular ∉ v.obstacles) (level : Nat) : refold self level v = v := by
  match v with
  | list xs | tuple xs =>
    rw [obstacles] at free
    rw [refold, refoldItems_eq free]
  | dict es =>
    rw [obstacles] at free
    rw [refold, refoldEntries_eq free]
  | back l => exact absurd (by simp [obstacles]) free
  | null | bool _ | int _ | float _ | str _ | torn _ | bytes _ | function | node _ | foreign .. => simp [refold]

theorem refoldItems_eq {xs : List Value} (free : .circular ∉ obstaclesOfItems xs) (level : Nat) :
    refoldItems self level xs = xs := by
  match xs with
  | [] => rfl
  | x :: r =>
    rw [obstaclesOfItems, List.mem_append, not_or] at free
    rw [refoldItems, refold_eq free.1, refoldItems_eq free.2]

theorem refoldEntries_eq {es : List (String × Value)} (free : .circular ∉ obstaclesOfEntries es) (level : Nat) :
    refoldEntries self level es = es := by
  match es with
  | [] => rfl
  | (k, x) :: r =>
    rw [obstaclesOfEntries, List.mem_append, not_or] at free
    rw [refoldEntries, refold_eq free.1, refoldEntries_eq free.2]

end

theorem mem_obstaclesOfItems {o : Obstacle} {xs : List Value} :
    o ∈ obstaclesOfItems xs ↔ ∃ x ∈ xs, o ∈ x.obstacles := by
  induction xs with
  | nil => simp [obstaclesOfItems]
  | cons x r ih => simp [obstaclesOfItems, ih]

theorem mem_obstaclesOfEntries {o : Obstacle} {es : List (String × Value)} :
    o ∈ obstaclesOfEntries es ↔ ∃ e ∈ es, o ∈ e.2.obstacles := by
  induction es with
  | nil => simp [obstaclesOfEntries]
  | cons e r ih => simp [obstaclesOfEntries, ih]

theorem itemsOf_eq {sequence : List Value → Value} {xs : List Value} (free : .circular ∉ obstaclesOfItems xs) :
    itemsOf sequence xs = xs := by
  refine List.ext_getElem (by simp [itemsOf]) fun i _ inside => ?_
  simp only [itemsOf, List.getElem_mapIdx]
  exact refold_eq (fun circular => free (mem_obstaclesOfItems.2 ⟨_, List.getElem_mem inside, circular⟩)) 0

theorem entriesOf_eq {es : List (String × Value)} (free : .circular ∉ obstaclesOfEntries es) : entriesOf es = es := by
  refine List.ext_getElem (by simp [entriesOf]) fun i _ inside => ?_
  simp only [entriesOf, List.getElem_mapIdx]
  rw [refold_eq fun circular => free (mem_obstaclesOfEntries.2 ⟨_, List.getElem_mem inside, circular⟩)]

theorem entries?_dict {es : List (String × Value)} (free : .circular ∉ obstaclesOfEntries es) :
    entries? (dict es) = some es := by
  rw [entries?, entriesOf_eq free]

section LongNumbers

mutual

/-- What literals and manifests fail over is a number too long for any text. -/
theorem holdsLongNumber_of_mem {v : Value} (h : .long ∈ v.obstacles) : v.holdsLongNumber = true := by
  match v with
  | int n =>
    rw [obstacles] at h
    split at h
    · next long => exact long
    · cases h
  | float x =>
    rw [obstacles] at h
    split at h <;> simp at h
  | list xs | tuple xs => exact itemsHoldLongNumber_of_mem (by simpa only [obstacles] using h)
  | dict es => exact entriesHoldLongNumber_of_mem (by simpa only [obstacles] using h)
  | null | bool _ | str _ | torn _ | bytes _ | function | node _ | back _ | foreign .. => simp [obstacles] at h

theorem itemsHoldLongNumber_of_mem {xs : List Value} (h : .long ∈ obstaclesOfItems xs) :
    itemsHoldLongNumber xs = true := by
  match xs with
  | [] => cases h
  | x :: r =>
    rw [itemsHoldLongNumber, Bool.or_eq_true]
    exact (List.mem_append.1 h).imp holdsLongNumber_of_mem itemsHoldLongNumber_of_mem

theorem entriesHoldLongNumber_of_mem {es : List (String × Value)} (h : .long ∈ obstaclesOfEntries es) :
    entriesHoldLongNumber es = true := by
  match es with
  | [] => cases h
  | (k, x) :: r =>
    rw [entriesHoldLongNumber, Bool.or_eq_true]
    exact (List.mem_append.1 h).imp holdsLongNumber_of_mem entriesHoldLongNumber_of_mem

end

mutual

/-- JSON data has no number too long for a text. -/
theorem holdsLongNumber_of_clean {v : Value} (clean : v.obstacles = []) : v.holdsLongNumber = false := by
  match v with
  | int n =>
    rw [obstacles] at clean
    split at clean
    · cases clean
    · next short => exact Bool.not_eq_true _ ▸ short
  | list xs | tuple xs => exact itemsHoldLongNumber_of_clean (by simpa only [obstacles] using clean)
  | dict es => exact entriesHoldLongNumber_of_clean (by simpa only [obstacles] using clean)
  | node n => simp [obstacles] at clean
  | null | bool _ | float _ | str _ | torn _ | bytes _ | function | back _ | foreign .. => rfl

theorem itemsHoldLongNumber_of_clean {xs : List Value} (clean : obstaclesOfItems xs = []) :
    itemsHoldLongNumber xs = false := by
  match xs with
  | [] => rfl
  | x :: r =>
    obtain ⟨first, rest⟩ := List.append_eq_nil_iff.1 clean
    rw [itemsHoldLongNumber, holdsLongNumber_of_clean first, itemsHoldLongNumber_of_clean rest]
    rfl

theorem entriesHoldLongNumber_of_clean {es : List (String × Value)} (clean : obstaclesOfEntries es = []) :
    entriesHoldLongNumber es = false := by
  match es with
  | [] => rfl
  | (_, x) :: r =>
    obtain ⟨first, rest⟩ := List.append_eq_nil_iff.1 clean
    rw [entriesHoldLongNumber, holdsLongNumber_of_clean first, entriesHoldLongNumber_of_clean rest]
    rfl

end

mutual

theorem holdsLongNumber_refold {v : Value} {level : Nat} (h : (refold self level v).holdsLongNumber = true) :
    v.holdsLongNumber = true ∨ ∃ l, (self l).holdsLongNumber = true := by
  match v with
  | list xs | tuple xs => exact itemsHoldLongNumber_refold (by simpa only [refold, holdsLongNumber] using h)
  | dict es => exact entriesHoldLongNumber_refold (by simpa only [refold, holdsLongNumber] using h)
  | back l =>
    rw [refold] at h
    split at h
    · exact .inr ⟨level, h⟩
    · cases h
  | null | bool _ | int _ | float _ | str _ | torn _ | bytes _ | function | node _ | foreign .. => exact .inl h

theorem itemsHoldLongNumber_refold {xs : List Value} {level : Nat}
    (h : itemsHoldLongNumber (refoldItems self level xs) = true) :
    itemsHoldLongNumber xs = true ∨ ∃ l, (self l).holdsLongNumber = true := by
  match xs with
  | [] => cases h
  | x :: r =>
    rw [refoldItems, itemsHoldLongNumber, Bool.or_eq_true] at h
    rw [itemsHoldLongNumber, Bool.or_eq_true, or_assoc]
    obtain first | more := h
    · exact (holdsLongNumber_refold first).imp_right .inr
    · exact .inr (itemsHoldLongNumber_refold more)

theorem entriesHoldLongNumber_refold {es : List (String × Value)} {level : Nat}
    (h : entriesHoldLongNumber (refoldEntries self level es) = true) :
    entriesHoldLongNumber es = true ∨ ∃ l, (self l).holdsLongNumber = true := by
  match es with
  | [] => cases h
  | (k, x) :: r =>
    rw [refoldEntries, entriesHoldLongNumber, Bool.or_eq_true] at h
    rw [entriesHoldLongNumber, Bool.or_eq_true, or_assoc]
    obtain first | more := h
    · exact (holdsLongNumber_refold first).imp_right .inr
    · exact .inr (entriesHoldLongNumber_refold more)

end

theorem entriesHoldLongNumber_iff {es : List (String × Value)} :
    entriesHoldLongNumber es = true ↔ ∃ e ∈ es, e.2.holdsLongNumber = true := by
  induction es with
  | nil => simp [entriesHoldLongNumber]
  | cons e r ih => simp [entriesHoldLongNumber, ih]

/-- A value that a mapping holds has no number too long for a text unless the mapping has one. -/
theorem holdsLongNumber_entriesOf {es : List (String × Value)} {e : String × Value} (mem : e ∈ entriesOf es)
    (long : e.2.holdsLongNumber = true) : entriesHoldLongNumber es = true := by
  obtain ⟨i, inside, rfl⟩ := List.mem_mapIdx.1 mem
  rw [entriesHoldLongNumber_iff]
  obtain here | ⟨level, around⟩ := holdsLongNumber_refold long
  · exact ⟨_, List.getElem_mem inside, here⟩
  · rw [holdsLongNumber, entriesHoldLongNumber_iff] at around
    obtain ⟨e, mem, long⟩ := around
    obtain mem | rfl := List.mem_or_eq_of_mem_set mem
    · exact ⟨e, mem, long⟩
    · cases long

/-- The text of a value is written, unless it is excused that the value holds a number too long for one. -/
theorem text?_meets {faults : Set Fault} {v : Value} (short : v.holdsLongNumber = true → .longNumber ∈ faults) :
    Job.Meets faults (· = v.text) v.text? := by
  rw [text?]
  split
  · next long => exact short long
  · exact rfl

end LongNumbers

end Pagesmith.Value
