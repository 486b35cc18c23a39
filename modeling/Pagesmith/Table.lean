/-!
Ordered tables: lists of pairs in which a key stands at most once and keeps the place it was first
given. A look-up is `List.lookup`.
-/

namespace Pagesmith.Table

variable {κ α : Type} [BEq κ]

/-- Give a key a value; a key that is there keeps its place. -/
def insert (key : κ) (value : α) : List (κ × α) → List (κ × α)
  | [] => [(key, value)]
  | (k, v) :: r => if k == key then (k, value) :: r else (k, v) :: insert key value r

/-- Give a key a value unless it has one. -/
def insertNew (key : κ) (value : α) (entries : List (κ × α)) : List (κ × α) :=
  if (entries.lookup key).isSome then entries else entries ++ [(key, value)]

/-- Drop a key. -/
def erase (key : κ) (entries : List (κ × α)) : List (κ × α) :=
  entries.filter (·.1 != key)

/-- Insert several entries, one after the other. -/
def insertAll (entries more : List (κ × α)) : List (κ × α) :=
  more.foldl (fun es e => insert e.1 e.2 es) entries

def has (key : κ) (entries : List (κ × α)) : Bool :=
  entries.any (·.1 == key)

/-- Put an entry before the first one with a greater key. -/
def insertSorted (entry : String × α) : List (String × α) → List (String × α)
  | [] => [entry]
  | e :: r => if entry.1 < e.1 then entry :: e :: r else e :: insertSorted entry r

/-- The entries in the order of their keys, by code points. -/
def sorted : List (String × α) → List (String × α)
  | entries => entries.foldl (fun es e => insertSorted e es) []

/-- Inserting brings no key but the given one. -/
theorem mem_keys_insert {key k : κ} {value : α} {es : List (κ × α)}
    (h : k ∈ (insert key value es).map (·.1)) : k = key ∨ k ∈ es.map (·.1) := by
  induction es with
  | nil => exact .inl (List.mem_singleton.1 h)
  | cons e r ih =>
    rw [insert] at h
    split at h
    · exact .inr h
    · obtain rfl | h := List.mem_cons.1 h
      · exact .inr List.mem_cons_self
      · exact (ih h).imp_right (List.mem_cons_of_mem _)

variable [LawfulBEq κ]

theorem lookup_insert (key k : κ) (value : α) (es : List (κ × α)) :
    (insert key value es).lookup k = if k == key then some value else es.lookup k := by
  induction es with
  | nil =>
    rw [insert, List.lookup_cons, List.lookup_nil]
    cases k == key <;> rfl
  | cons e r ih =>
    obtain ⟨k', v'⟩ := e
    rw [insert]
    split
    · next hk =>
      rw [eq_of_beq hk, List.lookup_cons, List.lookup_cons]
      cases k == key <;> rfl
    · next hk =>
      rw [List.lookup_cons, List.lookup_cons, ih]
      cases h : k == k' with
      | false => rfl
      | true =>
        have : (k == key) = false := by
          rw [eq_of_beq h]
          simpa using hk
        simp [this]

/-- Different keys stay different. -/
theorem nodup_insert {es : List (κ × α)} (once : (es.map (·.1)).Nodup) (key : κ) (value : α) :
    ((insert key value es).map (·.1)).Nodup := by
  induction es with
  | nil => simp [insert]
  | cons e r ih =>
    rw [insert]
    split
    · exact once
    · next other =>
      obtain ⟨new, once⟩ := List.nodup_cons.1 once
      refine List.nodup_cons.2 ⟨fun mem => ?_, ih once⟩
      obtain same | mem := mem_keys_insert mem
      · exact other (beq_iff_eq.2 same)
      · exact new mem

end Pagesmith.Table
