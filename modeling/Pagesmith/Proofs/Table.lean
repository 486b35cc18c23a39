import Pagesmith.Table
import Mathlib.Data.List.Induction
import Mathlib.Data.List.Nodup
import Mathlib.Data.String.Basic

/-!
Ordered tables by their keys: what an insertion does to them, and when it only appends. Sorted by its keys a table
has the same entries, each key before the greater ones.
-/

namespace Pagesmith.Table

variable {κ α : Type}

/-- The keys differ from each other and have this property. -/
def Keyed (P : κ → Prop) (es : List (κ × α)) : Prop :=
  (es.map (·.1)).Nodup ∧ ∀ k ∈ es.map (·.1), P k

theorem Keyed.append {P : κ → Prop} {es : List (κ × α)} {key : κ} (h : Keyed P es)
    (new : key ∉ es.map (·.1)) (holds : P key) (value : α) : Keyed P (es ++ [(key, value)]) := by
  obtain ⟨distinct, all⟩ := h
  rw [Keyed, List.map_append, List.nodup_append]
  refine ⟨⟨distinct, by simp, ?_⟩, ?_⟩
  · rintro k mem k' new' rfl
    obtain rfl := List.mem_singleton.1 new'
    exact new mem
  · intro k mem
    obtain mem | mem := List.mem_append.1 mem
    · exact all k mem
    · obtain rfl := List.mem_singleton.1 mem
      exact holds

variable [BEq κ]

theorem mem_insert {key : κ} {value : α} {es : List (κ × α)} {e : κ × α}
    (h : e ∈ insert key value es) : e.2 = value ∨ e ∈ es := by
  induction es with
  | nil =>
    obtain rfl := List.mem_singleton.1 h
    exact .inl rfl
  | cons x r ih =>
    rw [insert] at h
    split at h
    · obtain rfl | h := List.mem_cons.1 h
      · exact .inl rfl
      · exact .inr (List.mem_cons_of_mem x h)
    · obtain rfl | h := List.mem_cons.1 h
      · exact .inr (by simp)
      · exact (ih h).imp_right (List.mem_cons_of_mem x)

section Values

variable {β : Type} (f : α → β)

/-- The table with its values changed. -/
def mapValues (es : List (κ × α)) : List (κ × β) := es.map fun e => (e.1, f e.2)

theorem lookup_mapValues (key : κ) (es : List (κ × α)) :
    (mapValues f es).lookup key = (es.lookup key).map f := by
  induction es with
  | nil => rfl
  | cons e r ih =>
    obtain ⟨k, v⟩ := e
    have ih : (r.map fun e => (e.1, f e.2)).lookup key = (r.lookup key).map f := ih
    simp only [mapValues, List.map_cons, List.lookup_cons, ih]
    cases key == k <;> rfl

theorem has_mapValues (key : κ) (es : List (κ × α)) : has key (mapValues f es) = has key es := by
  simp only [has, mapValues, List.any_map]
  rfl

theorem erase_mapValues (key : κ) (es : List (κ × α)) :
    erase key (mapValues f es) = mapValues f (erase key es) := by
  simp only [erase, mapValues, List.filter_map]
  rfl

theorem insert_mapValues (key : κ) (value : α) (es : List (κ × α)) :
    insert key (f value) (mapValues f es) = mapValues f (insert key value es) := by
  induction es with
  | nil => rfl
  | cons e r ih =>
    have ih : insert key (f value) (r.map fun e => (e.1, f e.2)) = mapValues f (insert key value r) :=
      ih
    simp only [mapValues, List.map_cons, insert, ih]
    split <;> rfl

theorem insertNew_mapValues (key : κ) (value : α) (es : List (κ × α)) :
    insertNew key (f value) (mapValues f es) = mapValues f (insertNew key value es) := by
  simp only [insertNew, lookup_mapValues, Option.isSome_map]
  split
  · rfl
  · simp [mapValues]

end Values

variable [LawfulBEq κ]

theorem has_iff {key : κ} {es : List (κ × α)} : has key es = true ↔ key ∈ es.map (·.1) := by
  simp only [has, List.any_eq_true, List.mem_map, beq_iff_eq]

/-- A choice among the keys that takes this one leaves what stands there. -/
theorem lookup_filter_keys (choose : κ → Bool) {key : κ} (chosen : choose key = true) (es : List (κ × α)) :
    (es.filter fun e => choose e.1).lookup key = es.lookup key := by
  induction es with
  | nil => rfl
  | cons e r ih =>
    obtain ⟨k, v⟩ := e
    rw [List.filter_cons, List.lookup_cons]
    split
    · rw [List.lookup_cons, ih]
    · next left =>
      have other : (key == k) = false := by
        rw [beq_eq_false_iff_ne]
        rintro rfl
        exact left chosen
      rw [ih, other]

theorem mem_of_lookup {key : κ} {value : α} {es : List (κ × α)} (h : es.lookup key = some value) :
    (key, value) ∈ es := by
  obtain ⟨before, after, rfl, -⟩ := List.lookup_eq_some_iff.1 h
  simp

theorem lookup_of_mem {key : κ} {value : α} {es : List (κ × α)} (once : (es.map (·.1)).Nodup)
    (mem : (key, value) ∈ es) : es.lookup key = some value := by
  obtain ⟨before, after, rfl⟩ := List.append_of_mem mem
  rw [List.map_append, List.map_cons, List.nodup_append] at once
  refine List.lookup_eq_some_iff.2 ⟨before, after, rfl, fun e there => ?_⟩
  have apart := once.2.2 e.1 (List.mem_map_of_mem there) key List.mem_cons_self
  simpa using Ne.symm apart

/-- Entries with other keys are passed over. -/
theorem insert_append {key : κ} {es : List (κ × α)} (h : key ∉ es.map (·.1)) (value : α)
    (more : List (κ × α)) : insert key value (es ++ more) = es ++ insert key value more := by
  induction es with
  | nil => rfl
  | cons e r ih =>
    obtain ⟨k, v⟩ := e
    simp only [List.map_cons, List.mem_cons, not_or] at h
    have other : (k == key) = false := by simpa using Ne.symm h.1
    rw [List.cons_append, insert, other, ih h.2]
    rfl

theorem insert_new {key : κ} {es : List (κ × α)} (h : key ∉ es.map (·.1)) (value : α) :
    insert key value es = es ++ [(key, value)] := by
  simpa [insert] using insert_append h value []

/-- Giving a key the value that it has changes nothing. -/
theorem insert_same {key : κ} {value : α} {es : List (κ × α)} (distinct : (es.map (·.1)).Nodup)
    (h : (key, value) ∈ es) : insert key value es = es := by
  induction es with
  | nil => cases h
  | cons x r ih =>
    rw [List.map_cons, List.nodup_cons] at distinct
    rw [insert]
    obtain rfl | mem := List.mem_cons.1 h
    · rw [if_pos (beq_self_eq_true key)]
    · have other : x.1 ≠ key := fun same => distinct.1 (same ▸ List.mem_map_of_mem mem)
      rw [if_neg (by simpa using other), ih distinct.2 mem]

theorem insertAll_append {found es : List (κ × α)} (h : ((found ++ es).map (·.1)).Nodup) :
    insertAll found es = found ++ es := by
  induction es generalizing found with
  | nil => simp [insertAll]
  | cons e r ih =>
    obtain ⟨k, v⟩ := e
    have new : k ∉ found.map (·.1) := by
      simp only [List.map_append, List.map_cons, List.nodup_append] at h
      exact fun mem => h.2.2 k mem k (by simp) rfl
    have step : insertAll found ((k, v) :: r) = insertAll (insert k v found) r := rfl
    rw [step, insert_new new, ih (by simpa using h)]
    simp

theorem insertAll_nil {es : List (κ × α)} (h : (es.map (·.1)).Nodup) : insertAll [] es = es :=
  insertAll_append h

theorem lookup_map {β : Type} (f : β → κ) (g : β → α) (key : κ) (xs : List β) :
    (xs.map fun x => (f x, g x)).lookup key = (xs.filter fun x => f x == key).head?.map g := by
  induction xs with
  | nil => rfl
  | cons x r ih =>
    rw [List.map_cons, List.lookup_cons, List.filter_cons, ih, Bool.beq_comm]
    cases f x == key <;> rfl

/-- Of several entries for one key the last counts, and then what was there before. -/
theorem lookup_insertAll (key : κ) (es more : List (κ × α)) :
    (insertAll es more).lookup key = (more.reverse.lookup key).or (es.lookup key) := by
  induction more generalizing es with
  | nil => rfl
  | cons e r ih =>
    obtain ⟨k, v⟩ := e
    have step : insertAll es ((k, v) :: r) = insertAll (insert k v es) r := rfl
    rw [step, ih, lookup_insert, List.reverse_cons, List.lookup_append, List.lookup_cons,
      List.lookup_nil, Option.or_assoc]
    cases key == k <;> rfl

theorem keys_insert {key : κ} {value : α} {es : List (κ × α)} (h : key ∈ es.map (·.1)) :
    (insert key value es).map (·.1) = es.map (·.1) := by
  induction es with
  | nil => cases h
  | cons x r ih =>
    rw [insert]
    split
    · rfl
    · next other =>
      have other : x.1 ≠ key := by simpa using other
      simp only [List.map_cons, List.mem_cons] at h ⊢
      rw [ih (h.resolve_left (Ne.symm other))]

theorem lookup_eq_none {key : κ} {es : List (κ × α)} : es.lookup key = none ↔ key ∉ es.map (·.1) := by
  rw [List.lookup_eq_none_iff, List.mem_map, not_exists]
  refine forall_congr' fun e => ?_
  rw [not_and, bne_iff_ne]
  exact imp_congr_right fun _ => ne_comm

theorem insertNew_cases (key : κ) (value : α) (es : List (κ × α)) :
    key ∈ es.map (·.1) ∧ insertNew key value es = es ∨
      key ∉ es.map (·.1) ∧ insertNew key value es = es ++ [(key, value)] := by
  have known : (es.lookup key).isSome = true ↔ key ∈ es.map (·.1) := by
    rw [List.lookup_isSome_iff, List.mem_map]
    constructor
    · rintro ⟨e, mem, same⟩
      exact ⟨e, mem, (eq_of_beq same).symm⟩
    · rintro ⟨e, mem, rfl⟩
      exact ⟨e, mem, beq_self_eq_true e.1⟩
  rw [insertNew]
  split
  · next h => exact .inl ⟨known.1 h, rfl⟩
  · next h => exact .inr ⟨fun mem => h (known.2 mem), rfl⟩

variable {P : κ → Prop} {es : List (κ × α)} {key : κ}

theorem Keyed.insertNew (h : Keyed P es) (holds : P key) (value : α) :
    Keyed P (insertNew key value es) := by
  obtain ⟨-, same⟩ | ⟨new, more⟩ := insertNew_cases key value es
  · rwa [same]
  · rw [more]
    exact h.append new holds value

theorem Keyed.insert (h : Keyed P es) (holds : P key) (value : α) :
    Keyed P (insert key value es) := by
  by_cases known : key ∈ es.map (·.1)
  · rwa [Keyed, keys_insert known]
  · rw [insert_new known]
    exact h.append known holds value

theorem keyed_insertAll (h : Keyed P es) (more : List (κ × α)) (holds : ∀ e ∈ more, P e.1) :
    Keyed P (insertAll es more) := by
  induction more generalizing es with
  | nil => exact h
  | cons e r ih =>
    exact ih (h.insert (holds e (by simp)) e.2) fun x mem => holds x (by simp [mem])

section Insert

variable {value : α}

theorem eq_or_mem_of_mem_insert {e : κ × α} (h : e ∈ insert key value es) :
    e = (key, value) ∨ e ∈ es := by
  induction es with
  | nil => exact .inl (List.mem_singleton.1 h)
  | cons x r ih =>
    rw [insert] at h
    split at h
    · next same =>
      rw [eq_of_beq same] at h
      exact (List.mem_cons.1 h).imp_right (List.mem_cons_of_mem x)
    · obtain rfl | h := List.mem_cons.1 h
      · exact .inr List.mem_cons_self
      · exact (ih h).imp_right (List.mem_cons_of_mem x)

theorem keys_subset_insert : es.map (·.1) ⊆ (insert key value es).map (·.1) := by
  by_cases known : key ∈ es.map (·.1)
  · rw [keys_insert known]
    exact List.Subset.refl _
  · rw [insert_new known, List.map_append]
    exact List.subset_append_left _ _

theorem mem_keys_insert_self : key ∈ (insert key value es).map (·.1) := by
  by_cases known : key ∈ es.map (·.1)
  · exact keys_subset_insert known
  · rw [insert_new known]
    simp

theorem mem_keys_insert_iff {k : κ} :
    k ∈ (insert key value es).map (·.1) ↔ k = key ∨ k ∈ es.map (·.1) := by
  refine ⟨mem_keys_insert, ?_⟩
  rintro (rfl | there)
  · exact mem_keys_insert_self
  · exact keys_subset_insert there

theorem has_insert_of_ne {k : κ} (other : k ≠ key) :
    has k (insert key value es) = has k es := by
  rw [Bool.eq_iff_iff, has_iff, has_iff, mem_keys_insert_iff, or_iff_right other]

theorem mem_insertAll {es more : List (κ × α)} {e : κ × α} (h : e ∈ insertAll es more) : e ∈ es ∨ e ∈ more := by
  induction more generalizing es with
  | nil => exact .inl h
  | cons x r ih =>
    obtain mem | mem := ih h
    · obtain rfl | mem := eq_or_mem_of_mem_insert mem
      · exact .inr List.mem_cons_self
      · exact .inl mem
    · exact .inr (List.mem_cons_of_mem x mem)

theorem mem_keys_insertAll {es more : List (κ × α)} {k : κ} :
    k ∈ (insertAll es more).map (·.1) ↔ k ∈ es.map (·.1) ∨ k ∈ more.map (·.1) := by
  induction more generalizing es with
  | nil => simp [insertAll]
  | cons e r ih =>
    have step : insertAll es (e :: r) = insertAll (Table.insert e.1 e.2 es) r := rfl
    rw [step, ih, List.map_cons, List.mem_cons, ← or_assoc, mem_keys_insert_iff,
      or_comm (a := k = e.1)]

theorem keys_subset_insertNew : es.map (·.1) ⊆ (insertNew key value es).map (·.1) := by
  obtain ⟨-, same⟩ | ⟨-, more⟩ := insertNew_cases key value es
  · rw [same]
    exact List.Subset.refl _
  · rw [more, List.map_append]
    exact List.subset_append_left _ _

theorem mem_keys_insertNew_self : key ∈ (insertNew key value es).map (·.1) := by
  obtain ⟨known, same⟩ | ⟨-, more⟩ := insertNew_cases key value es
  · rwa [same]
  · rw [more]
    simp

theorem mem_keys_insertNew {k : κ} :
    k ∈ (insertNew key value es).map (·.1) ↔ k ∈ es.map (·.1) ∨ k = key := by
  obtain ⟨known, same⟩ | ⟨-, more⟩ := insertNew_cases key value es
  · rw [same]
    exact ⟨.inl, fun h => h.elim id fun same => same ▸ known⟩
  · rw [more, List.map_append, List.mem_append, List.map_singleton, List.mem_singleton]

theorem mem_of_mem_insertNew {e : κ × α} (h : e ∈ insertNew key value es) :
    e = (key, value) ∨ e ∈ es := by
  obtain ⟨-, same⟩ | ⟨-, more⟩ := insertNew_cases key value es
  · exact .inr (same ▸ h)
  · rw [more, List.mem_append, List.mem_singleton] at h
    exact h.symm

end Insert

section Merged

theorem eq_of_lookup {es es' : List (κ × α)} (once : (es.map (·.1)).Nodup) (keys : es.map (·.1) = es'.map (·.1))
    (same : ∀ key, es.lookup key = es'.lookup key) : es = es' := by
  have length : es.length = es'.length := by simpa using congrArg List.length keys
  refine List.ext_getElem length fun i there there' => ?_
  have key : es[i].1 = es'[i].1 := by
    have entry := List.getElem_of_eq keys (by simpa using there)
    rwa [List.getElem_map, List.getElem_map] at entry
  have found : es.lookup es[i].1 = some es[i].2 := lookup_of_mem once (List.getElem_mem there)
  have found' : es'.lookup es'[i].1 = some es'[i].2 := lookup_of_mem (keys ▸ once) (List.getElem_mem there')
  rw [same, key, found'] at found
  exact Prod.ext key (Option.some.inj found).symm

/-- The table of entries among which keys may come again: each key at its first place, with its last value. -/
structure Merges (es merged : List (κ × α)) : Prop where
  keys : merged.map (·.1) = (es.map (·.1)).eraseDups
  last : ∀ key, merged.lookup key = es.reverse.lookup key

theorem nodup_insertAll (es : List (κ × α)) : ((insertAll [] es).map (·.1)).Nodup := by
  have none : Keyed (fun _ => True) ([] : List (κ × α)) := ⟨.nil, fun _ _ => trivial⟩
  exact (keyed_insertAll none es fun _ _ => trivial).1

theorem merges_insertAll (es : List (κ × α)) : Merges es (insertAll [] es) where
  keys := by
    induction es using List.reverseRecOn with
    | nil => rfl
    | append_singleton es e ih =>
      have step : insertAll [] (es ++ [e]) = insert e.1 e.2 (insertAll [] es) := by
        rw [insertAll, List.foldl_append]
        rfl
      have keys : ∀ k, k ∈ (insertAll [] es).map (·.1) ↔ k ∈ es.map (·.1) := fun k => by rw [ih, List.mem_eraseDups]
      rw [step, List.map_append, List.eraseDups_append, ← ih]
      by_cases known : e.1 ∈ es.map (·.1)
      · rw [keys_insert ((keys _).2 known)]
        simp [List.removeAll, known]
      · rw [insert_new (mt (keys _).1 known), List.map_append]
        simp [List.removeAll, known, List.eraseDups_cons]
  last key := by simp [lookup_insertAll]

theorem Merges.eq {es merged : List (κ × α)} (h : Merges es merged) : merged = insertAll [] es := by
  have all := merges_insertAll es
  exact (eq_of_lookup (nodup_insertAll es) (all.keys.trans h.keys.symm)
    fun key => (all.last key).trans (h.last key).symm).symm

end Merged

section First

variable {β : Type} (key : β → κ) (value : β → α) (xs : List β)

theorem lookup_insertNew (k key : κ) (value : α) (es : List (κ × α)) :
    (insertNew key value es).lookup k =
      (es.lookup k).or (if k == key then some value else none) := by
  rw [insertNew]
  split
  · next known =>
    cases same : k == key with
    | false => simp
    | true =>
      obtain ⟨v, found⟩ := Option.isSome_iff_exists.1 known
      rw [eq_of_beq same, found]
      rfl
  · rw [List.lookup_append, List.lookup_cons, List.lookup_nil]
    cases k == key <;> rfl

/-- A table that takes an entry only while its key is new holds for each key the first one. -/
theorem lookup_foldl_insertNew (k : κ) :
    (xs.foldl (fun found x => insertNew (key x) (value x) found) []).lookup k =
      (xs.find? (key · == k)).map value := by
  induction xs using List.reverseRecOn with
  | nil => rfl
  | append_singleton xs x ih =>
    rw [List.foldl_append, List.foldl_cons, List.foldl_nil, lookup_insertNew, ih,
      List.find?_append, List.find?_cons, List.find?_nil, Option.map_or, Bool.beq_comm]
    cases key x == k <;> rfl

theorem nodup_foldl_insertNew :
    ((xs.foldl (fun found x => insertNew (key x) (value x) found) []).map (·.1)).Nodup := by
  suffices Keyed (fun _ => True) (xs.foldl (fun found x => insertNew (key x) (value x) found) []) from
    this.1
  induction xs using List.reverseRecOn with
  | nil => exact ⟨List.nodup_nil, fun _ _ => trivial⟩
  | append_singleton xs x ih =>
    rw [List.foldl_append, List.foldl_cons, List.foldl_nil]
    exact ih.insertNew trivial (value x)

end First

section Sorted

theorem insertSorted_perm (entry : String × α) (es : List (String × α)) :
    (insertSorted entry es).Perm (entry :: es) := by
  induction es with
  | nil => exact .refl _
  | cons e r ih =>
    rw [insertSorted]
    split
    · exact .refl _
    · exact (ih.cons e).trans (.swap entry e r)

theorem sorted_perm (es : List (String × α)) : (sorted es).Perm es := by
  have fold (es found : List (String × α)) :
      (es.foldl (fun es e => insertSorted e es) found).Perm (es ++ found) := by
    induction es generalizing found with
    | nil => exact .refl _
    | cons e r ih =>
      refine (ih (insertSorted e found)).trans ?_
      exact ((insertSorted_perm e found).append_left r).trans List.perm_middle
  exact (fold es []).trans (by rw [List.append_nil])

theorem insertSorted_ascending {entry : String × α} {es : List (String × α)}
    (h : es.Pairwise (·.1 < ·.1)) (new : entry.1 ∉ es.map (·.1)) :
    (insertSorted entry es).Pairwise (·.1 < ·.1) := by
  induction es with
  | nil => simp [insertSorted]
  | cons e r ih =>
    obtain ⟨first, rest⟩ := List.pairwise_cons.1 h
    simp only [List.map_cons, List.mem_cons, not_or] at new
    rw [insertSorted]
    split
    · next less =>
      refine List.pairwise_cons.2 ⟨?_, h⟩
      rintro e' mem
      obtain rfl | mem := List.mem_cons.1 mem
      · exact less
      · exact less.trans (first e' mem)
    · next notLess =>
      refine List.pairwise_cons.2 ⟨?_, ih rest new.2⟩
      intro e' mem
      obtain rfl | mem := List.mem_cons.1 ((insertSorted_perm entry r).mem_iff.1 mem)
      · exact lt_of_le_of_ne (not_lt.1 notLess) (Ne.symm new.1)
      · exact first e' mem

/-- Entries under different keys are brought into ascending order. -/
theorem sorted_ascending {es : List (String × α)} (h : (es.map (·.1)).Nodup) :
    (sorted es).Pairwise (·.1 < ·.1) := by
  have fold (es found : List (String × α)) (distinct : ((es ++ found).map (·.1)).Nodup)
      (ascending : found.Pairwise (·.1 < ·.1)) :
      (es.foldl (fun es e => insertSorted e es) found).Pairwise (·.1 < ·.1) := by
    induction es generalizing found with
    | nil => exact ascending
    | cons e r ih =>
      have moved : (e :: (r ++ found)).Perm (r ++ insertSorted e found) :=
        (List.perm_middle.symm.trans ((insertSorted_perm e found).symm.append_left r))
      have new : e.1 ∉ found.map (·.1) := by
        simp only [List.cons_append, List.map_cons, List.nodup_cons, List.map_append,
          List.mem_append, not_or] at distinct
        exact distinct.1.2
      exact ih _ ((moved.map (·.1)).nodup_iff.1 distinct) (insertSorted_ascending ascending new)
  exact fold es [] (by simpa using h) .nil

end Sorted

end Pagesmith.Table
