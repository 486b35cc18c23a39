import Pagesmith.Value.Copy
import Mathlib.Data.List.Perm.Subperm

/-!
Copies of values in memory. A walk ends in the containers it started in, however it ends, so a container is refused
only if it lies in itself. `Erased m d v` says that `v` is what is left of `d` without functions; a value has such a
rest exactly if no container in it lies in itself, and then it has one only.
-/

namespace Pagesmith.Value

namespace Walk

variable {α β : Type} {walk : Walk α} {next : α → Walk β} {active : List Nat} {e : Fault}

/-- However the walk ends, it is in the containers that it was in before. -/
def Restores (walk : Walk α) : Prop := ∀ active, (walk active).2 = active

theorem Restores.pure (a : α) : Restores (Pure.pure a) := fun _ => rfl

theorem Restores.throw (e : Fault) : Restores (MonadExcept.throw e : Walk α) := fun _ => rfl

theorem bind_error (err : (walk active).1 = .error e) (h : walk.Restores) :
    (walk >>= next) active = (.error e, active) := by
  change ExceptT.bindCont next (walk active).1 (walk active).2 = _
  rw [err, h]
  rfl

theorem bind_ok {a : α} (ok : (walk active).1 = .ok a) (h : walk.Restores) :
    (walk >>= next) active = next a active := by
  change ExceptT.bindCont next (walk active).1 (walk active).2 = _
  rw [ok, h]
  rfl

theorem Restores.bind (h : walk.Restores) (rest : ∀ a, (next a).Restores) : (walk >>= next).Restores := by
  intro active
  cases outcome : (walk active).1 with
  | error e => rw [bind_error outcome h]
  | ok a => rw [bind_ok outcome h, rest a]

theorem bind_eq_ok {b : β} (h : walk.Restores) (ok : ((walk >>= next) active).1 = .ok b) :
    ∃ a, (walk active).1 = .ok a ∧ (next a active).1 = .ok b := by
  cases outcome : (walk active).1 with
  | error e =>
    rw [bind_error outcome h] at ok
    cases ok
  | ok a =>
    rw [bind_ok outcome h] at ok
    exact ⟨a, rfl, ok⟩

theorem bind_eq_error (h : walk.Restores) (err : ((walk >>= next) active).1 = .error e) :
    (walk active).1 = .error e ∨ ∃ a, (walk active).1 = .ok a ∧ (next a active).1 = .error e := by
  cases outcome : (walk active).1 with
  | error e' =>
    rw [bind_error outcome h] at err
    exact .inl (congrArg Except.error (Except.error.inj err))
  | ok a =>
    rw [bind_ok outcome h] at err
    exact .inr ⟨a, rfl, err⟩

theorem within_again {a : Nat} (again : a ∈ active) (walk : Walk α) :
    within a walk active = (.error .circular, active) := by
  rw [within, if_pos again]

theorem within_new {a : Nat} (new : a ∉ active) (h : walk.Restores) :
    within a walk active = ((walk (a :: active)).1, active) := by
  rw [within, if_neg new]
  refine Prod.ext rfl ?_
  change (walk (a :: active)).2.erase a = active
  rw [h, List.erase_cons_head]

theorem Restores.within (h : walk.Restores) (a : Nat) : (within a walk).Restores := by
  intro active
  by_cases again : a ∈ active
  · rw [within_again again]
  · rw [within_new again h]

variable {visit : Datum → Walk Value} (restores : ∀ d, (visit d).Restores)

include restores

theorem Restores.item (d : Datum) : (item visit d).Restores := by
  rw [Walk.item]
  split
  · exact .pure _
  · exact restores d

theorem Restores.items (ds : List Datum) : (items visit ds).Restores := by
  induction ds with
  | nil => exact .pure _
  | cons d r ih =>
    refine .bind (.item restores d) fun v => .bind ih fun vs => .pure _

theorem Restores.entries (es : List (String × Datum)) : (entries visit es).Restores := by
  induction es with
  | nil => exact .pure _
  | cons e r ih =>
    rw [Walk.entries]
    split
    · exact ih
    · exact .bind (restores e.2) fun v => .bind ih fun vs => .pure _

theorem Restores.contents (c : Cell) : (contents visit c).Restores := by
  cases c with
  | list ds | tuple ds => exact .bind (.items restores ds) fun _ => .pure _
  | dict es => exact .bind (.entries restores es) fun _ => .pure _

omit restores in
theorem restores_strip (m : Memory) (depth : Nat) (d : Datum) : (strip m depth d).Restores := by
  induction depth generalizing d with
  | zero =>
    cases d with
    | leaf l => exact .pure _
    | container a => exact .throw _
  | succ depth ih =>
    cases d with
    | leaf l => exact .pure _
    | container a => exact .within (.contents ih _) a

end Walk

/-- What a container holds. -/
def Cell.data : Cell → List Datum
  | list ds | tuple ds => ds
  | dict es => es.map (·.2)

/-- What a container holds apart from functions. -/
def Cell.kept (c : Cell) : List Datum := c.data.filter fun d => !d.isFunction

/-- The second value is the first one or lies in it, however deep; a function only counts by itself. -/
inductive Inside (m : Memory) : Datum → Datum → Prop where
  | self (d : Datum) : Inside m d d
  | item {a : Nat} {x y : Datum} : x ∈ (m.cell a).kept → Inside m x y → Inside m (.container a) y

/-- There is a container in the value that lies in itself. -/
def Cyclic (m : Memory) (d : Datum) : Prop :=
  ∃ a, Inside m d (.container a) ∧ ∃ x ∈ (m.cell a).kept, Inside m x (.container a)

mutual

/-- What is left of the value without functions, with lists for fixed sequences. -/
inductive Erased (m : Memory) : Datum → Value → Prop where
  | leaf (l : Leaf) : Erased m (.leaf l) l.value
  | list {a : Nat} {ds : List Datum} {vs : List Value} :
      m.cell a = .list ds → ErasedItems m ds vs → Erased m (.container a) (.list vs)
  | tuple {a : Nat} {ds : List Datum} {vs : List Value} :
      m.cell a = .tuple ds → ErasedItems m ds vs → Erased m (.container a) (.list vs)
  | dict {a : Nat} {es : List (String × Datum)} {fs : List (String × Value)} :
      m.cell a = .dict es → ErasedEntries m es fs → Erased m (.container a) (.dict fs)

/-- What is left of the items of a sequence: `null` of a function. -/
inductive ErasedItems (m : Memory) : List Datum → List Value → Prop where
  | nil : ErasedItems m [] []
  | function {ds : List Datum} {vs : List Value} :
      ErasedItems m ds vs → ErasedItems m (.leaf .function :: ds) (.null :: vs)
  | item {d : Datum} {v : Value} {ds : List Datum} {vs : List Value} :
      d ≠ .leaf .function → Erased m d v → ErasedItems m ds vs → ErasedItems m (d :: ds) (v :: vs)

/-- What is left of the entries of a mapping, in their order: nothing of a function. -/
inductive ErasedEntries (m : Memory) : List (String × Datum) → List (String × Value) → Prop where
  | nil : ErasedEntries m [] []
  | function {key : String} {es : List (String × Datum)} {fs : List (String × Value)} :
      ErasedEntries m es fs → ErasedEntries m ((key, .leaf .function) :: es) fs
  | entry {key : String} {d : Datum} {v : Value} {es : List (String × Datum)} {fs : List (String × Value)} :
      d ≠ .leaf .function → Erased m d v → ErasedEntries m es fs →
      ErasedEntries m ((key, d) :: es) ((key, v) :: fs)

end

theorem isFunction_iff {d : Datum} : d.isFunction = true ↔ d = .leaf .function := by
  constructor
  · intro h
    match d with
    | .leaf .function => rfl
  · rintro rfl
    rfl

theorem isFunction_false {d : Datum} : d.isFunction = false ↔ d ≠ .leaf .function := by
  rw [← Bool.not_eq_true, Ne, isFunction_iff]

section Strip

open Walk

variable {m : Memory} {visit : Datum → Walk Value} {active : List Nat}

section Contents

variable (restores : ∀ d, (visit d).Restores)

include restores

theorem items_ok (visits : ∀ d v, (visit d active).1 = .ok v → Erased m d v) {ds : List Datum} {vs : List Value}
    (ok : (items visit ds active).1 = .ok vs) : ErasedItems m ds vs := by
  induction ds generalizing vs with
  | nil =>
    cases ok
    exact .nil
  | cons d r ih =>
    obtain ⟨v, first, ok⟩ := bind_eq_ok (.item restores d) ok
    obtain ⟨vs, rest, ok⟩ := bind_eq_ok (.items restores r) ok
    cases ok
    rw [Walk.item] at first
    split at first
    · next function =>
      cases first
      rw [isFunction_iff.1 function]
      exact .function (ih rest)
    · next other => exact .item (mt isFunction_iff.2 other) (visits d v first) (ih rest)

theorem entries_ok (visits : ∀ d v, (visit d active).1 = .ok v → Erased m d v) {es : List (String × Datum)}
    {fs : List (String × Value)} (ok : (entries visit es active).1 = .ok fs) : ErasedEntries m es fs := by
  induction es generalizing fs with
  | nil =>
    cases ok
    exact .nil
  | cons e r ih =>
    obtain ⟨key, d⟩ := e
    rw [Walk.entries] at ok
    split at ok
    · next function =>
      rw [isFunction_iff.1 function]
      exact .function (ih ok)
    · next other =>
      obtain ⟨v, first, ok⟩ := bind_eq_ok (restores d) ok
      obtain ⟨fs, rest, ok⟩ := bind_eq_ok (.entries restores r) ok
      cases ok
      exact .entry (mt isFunction_iff.2 other) (visits d v first) (ih rest)

theorem contents_ok (visits : ∀ d v, (visit d active).1 = .ok v → Erased m d v) {a : Nat} {v : Value}
    (ok : (contents visit (m.cell a) active).1 = .ok v) : Erased m (.container a) v := by
  cases cell : m.cell a with
  | list ds | tuple ds =>
    rw [cell] at ok
    obtain ⟨vs, all, ok⟩ := bind_eq_ok (.items restores ds) ok
    cases ok
    first
    | exact .list cell (items_ok restores visits all)
    | exact .tuple cell (items_ok restores visits all)
  | dict es =>
    rw [cell] at ok
    obtain ⟨fs, all, ok⟩ := bind_eq_ok (.entries restores es) ok
    cases ok
    exact .dict cell (entries_ok restores visits all)

theorem items_error {e : Fault} {ds : List Datum} (err : (items visit ds active).1 = .error e) :
    ∃ d ∈ ds, d.isFunction = false ∧ (visit d active).1 = .error e := by
  induction ds with
  | nil => cases err
  | cons d r ih =>
    obtain first | ⟨v, -, err⟩ := bind_eq_error (.item restores d) err
    · rw [Walk.item] at first
      split at first
      · cases first
      · next other => exact ⟨d, List.mem_cons_self, Bool.not_eq_true _ ▸ other, first⟩
    · obtain rest | ⟨vs, -, err⟩ := bind_eq_error (.items restores r) err
      · obtain ⟨d', mem, err⟩ := ih rest
        exact ⟨d', List.mem_cons_of_mem d mem, err⟩
      · cases err

theorem entries_error {e : Fault} {es : List (String × Datum)} (err : (entries visit es active).1 = .error e) :
    ∃ d ∈ es.map (·.2), d.isFunction = false ∧ (visit d active).1 = .error e := by
  induction es with
  | nil => cases err
  | cons entry r ih =>
    have later : (entries visit r active).1 = .error e →
        ∃ d ∈ (entry :: r).map (·.2), d.isFunction = false ∧ (visit d active).1 = .error e := by
      intro err
      obtain ⟨d, mem, err⟩ := ih err
      exact ⟨d, List.mem_cons_of_mem _ mem, err⟩
    rw [Walk.entries] at err
    split at err
    · exact later err
    · next other =>
      obtain first | ⟨v, -, err⟩ := bind_eq_error (restores entry.2) err
      · exact ⟨entry.2, List.mem_cons_self, Bool.not_eq_true _ ▸ other, first⟩
      · obtain rest | ⟨fs, -, err⟩ := bind_eq_error (.entries restores r) err
        · exact later rest
        · cases err

/-- A walk fails in a container only over something the container holds. -/
theorem contents_error {e : Fault} {c : Cell} (err : (contents visit c active).1 = .error e) :
    ∃ d ∈ c.kept, (visit d active).1 = .error e := by
  suffices found : ∃ d ∈ c.data, d.isFunction = false ∧ (visit d active).1 = .error e by
    obtain ⟨d, mem, other, err⟩ := found
    exact ⟨d, List.mem_filter.2 ⟨mem, by rw [other]; rfl⟩, err⟩
  cases c with
  | list ds | tuple ds =>
    obtain err | ⟨vs, -, err⟩ := bind_eq_error (.items restores ds) err
    · exact items_error restores err
    · cases err
  | dict es =>
    obtain err | ⟨fs, -, err⟩ := bind_eq_error (.entries restores es) err
    · exact entries_error restores err
    · cases err

end Contents

/-- What a walk yields is what is left of the value. -/
theorem strip_ok {depth : Nat} {d : Datum} {v : Value} (ok : (strip m depth d active).1 = .ok v) : Erased m d v := by
  induction depth generalizing d v active with
  | zero =>
    cases d with
    | leaf l =>
      cases ok
      exact .leaf l
    | container a => cases ok
  | succ depth ih =>
    cases d with
    | leaf l =>
      cases ok
      exact .leaf l
    | container a =>
      have restores := restores_strip m depth
      rw [strip] at ok
      by_cases again : a ∈ active
      · rw [within_again again] at ok
        cases ok
      · rw [within_new again (.contents restores _)] at ok
        exact contents_ok restores (fun _ _ => ih) ok

/-- The containers a walk is in are different ones of the memory, and it may still go into all others. -/
structure Room (m : Memory) (active : List Nat) (depth : Nat) : Prop where
  distinct : active.Nodup
  known : ∀ a ∈ active, a < m.size
  enough : m.size < depth + active.length

theorem Room.some (h : Room m active 0) : False := by
  have within : active ⊆ List.range m.size := fun a mem => List.mem_range.2 (h.known a mem)
  have most := (h.distinct.subperm within).length_le
  have enough := h.enough
  rw [List.length_range] at most
  omega

theorem Room.enter {depth a : Nat} (h : Room m active (depth + 1)) (new : a ∉ active) (known : a < m.size) :
    Room m (a :: active) depth where
  distinct := List.nodup_cons.2 ⟨new, h.distinct⟩
  known := List.forall_mem_cons.2 ⟨known, h.known⟩
  enough := by
    have enough := h.enough
    rw [List.length_cons]
    omega

theorem known_of_kept {a : Nat} {d : Datum} (mem : d ∈ (m.cell a).kept) : a < m.size := by
  by_contra outside
  have empty : m.cell a = .list [] := Array.getD_eq_getD_getElem? .. |>.trans (by simp [Nat.not_lt.1 outside])
  rw [empty] at mem
  cases mem

/-- A walk fails only if a container lies in itself, or the value holds a container that the walk is in. -/
theorem strip_error {depth : Nat} {d : Datum} {e : Fault} (room : Room m active depth)
    (err : (strip m depth d active).1 = .error e) :
    e = .circular ∧ (Cyclic m d ∨ ∃ a ∈ active, Inside m d (.container a)) := by
  induction depth generalizing d active with
  | zero => exact room.some.elim
  | succ depth ih =>
    cases d with
    | leaf l => cases err
    | container a =>
      have restores := restores_strip m depth
      rw [strip] at err
      by_cases again : a ∈ active
      · rw [within_again again] at err
        cases err
        exact ⟨rfl, .inr ⟨a, again, .self _⟩⟩
      · rw [within_new again (.contents restores _)] at err
        obtain ⟨x, kept, err⟩ := contents_error restores err
        obtain ⟨rfl, ⟨b, inside, back⟩ | ⟨b, mem, inside⟩⟩ := ih (room.enter again (known_of_kept kept)) err
        · exact ⟨rfl, .inl ⟨b, .item kept inside, back⟩⟩
        · obtain rfl | mem := List.mem_cons.1 mem
          · exact ⟨rfl, .inl ⟨b, .self _, x, kept, inside⟩⟩
          · exact ⟨rfl, .inr ⟨b, mem, .item kept inside⟩⟩

end Strip

section Erased

variable {m : Memory}

theorem mem_kept {c : Cell} {d : Datum} : d ∈ c.kept ↔ d ∈ c.data ∧ d.isFunction = false := by
  rw [Cell.kept, List.mem_filter, Bool.not_eq_true']

mutual

theorem Erased.unique {d : Datum} {v w : Value} (h : Erased m d v) (h' : Erased m d w) : v = w := by
  match h with
  | .leaf l =>
    cases h'
    rfl
  | .list cell items =>
    cases h' with
    | list cell' items' =>
      cases cell.symm.trans cell'
      rw [items.unique items']
    | tuple cell' | dict cell' => cases cell.symm.trans cell'
  | .tuple cell items =>
    cases h' with
    | tuple cell' items' =>
      cases cell.symm.trans cell'
      rw [items.unique items']
    | list cell' | dict cell' => cases cell.symm.trans cell'
  | .dict cell entries =>
    cases h' with
    | list cell' | tuple cell' => cases cell.symm.trans cell'
    | dict cell' entries' =>
      cases cell.symm.trans cell'
      rw [entries.unique entries']

theorem ErasedItems.unique {ds : List Datum} {vs ws : List Value} (h : ErasedItems m ds vs)
    (h' : ErasedItems m ds ws) : vs = ws := by
  match h with
  | .nil =>
    cases h'
    rfl
  | .function rest =>
    cases h' with
    | function rest' => rw [rest.unique rest']
    | item other => exact absurd rfl other
  | .item other first rest =>
    cases h' with
    | function => exact absurd rfl other
    | item _ first' rest' => rw [first.unique first', rest.unique rest']

theorem ErasedEntries.unique {es : List (String × Datum)} {fs gs : List (String × Value)}
    (h : ErasedEntries m es fs) (h' : ErasedEntries m es gs) : fs = gs := by
  match h with
  | .nil =>
    cases h'
    rfl
  | .function rest =>
    cases h' with
    | function rest' => exact rest.unique rest'
    | entry other => exact absurd rfl other
  | .entry other first rest =>
    cases h' with
    | function => exact absurd rfl other
    | entry _ first' rest' => rw [first.unique first', rest.unique rest']

end

theorem ErasedItems.mem {ds : List Datum} {vs : List Value} (h : ErasedItems m ds vs) {d : Datum} (mem : d ∈ ds)
    (other : d.isFunction = false) : ∃ v ∈ vs, Erased m d v := by
  induction ds generalizing vs with
  | nil => cases mem
  | cons d' r ih =>
    cases h with
    | function rest =>
      obtain rfl | mem := List.mem_cons.1 mem
      · cases other
      · obtain ⟨v, there, erased⟩ := ih rest mem
        exact ⟨v, List.mem_cons_of_mem _ there, erased⟩
    | item _ first rest =>
      obtain rfl | mem := List.mem_cons.1 mem
      · exact ⟨_, List.mem_cons_self, first⟩
      · obtain ⟨v, there, erased⟩ := ih rest mem
        exact ⟨v, List.mem_cons_of_mem _ there, erased⟩

theorem ErasedEntries.mem {es : List (String × Datum)} {fs : List (String × Value)} (h : ErasedEntries m es fs)
    {d : Datum} (mem : d ∈ es.map (·.2)) (other : d.isFunction = false) : ∃ f ∈ fs, Erased m d f.2 := by
  induction es generalizing fs with
  | nil => cases mem
  | cons e r ih =>
    cases h with
    | function rest =>
      obtain rfl | mem := List.mem_cons.1 mem
      · cases other
      · exact ih rest mem
    | entry _ first rest =>
      obtain rfl | mem := List.mem_cons.1 mem
      · exact ⟨_, List.mem_cons_self, first⟩
      · obtain ⟨f, there, erased⟩ := ih rest mem
        exact ⟨f, List.mem_cons_of_mem _ there, erased⟩

theorem ErasedEntries.keys {es : List (String × Datum)} {fs : List (String × Value)} (h : ErasedEntries m es fs) :
    (fs.map (·.1)).Sublist (es.map (·.1)) := by
  induction es generalizing fs with
  | nil =>
    cases h
    exact .slnil
  | cons e r ih =>
    cases h with
    | function rest => exact (ih rest).cons _
    | entry _ _ rest => exact (ih rest).cons_cons _

/-- What is left of something that a container holds is smaller than what is left of the container. -/
theorem Erased.item {a : Nat} {v : Value} (h : Erased m (.container a) v) {d : Datum} (kept : d ∈ (m.cell a).kept) :
    ∃ w, Erased m d w ∧ sizeOf w < sizeOf v := by
  obtain ⟨mem, other⟩ := mem_kept.1 kept
  cases h with
  | list cell items | tuple cell items =>
    rw [cell] at mem
    obtain ⟨w, there, erased⟩ := items.mem mem other
    have smaller := List.sizeOf_lt_of_mem there
    exact ⟨w, erased, by rw [Value.list.sizeOf_spec]; omega⟩
  | dict cell entries =>
    rw [cell] at mem
    obtain ⟨⟨key, w⟩, there, erased⟩ := entries.mem mem other
    have smaller := List.sizeOf_lt_of_mem there
    rw [Prod.mk.sizeOf_spec] at smaller
    exact ⟨w, erased, by rw [Value.dict.sizeOf_spec]; omega⟩

theorem Erased.inside {d x : Datum} {v : Value} (h : Erased m d v) (there : Inside m d x) :
    ∃ w, Erased m x w ∧ sizeOf w ≤ sizeOf v := by
  induction there generalizing v with
  | self => exact ⟨v, h, Nat.le_refl _⟩
  | item kept _ ih =>
    obtain ⟨u, erased, smaller⟩ := h.item kept
    obtain ⟨w, erased, less⟩ := ih erased
    exact ⟨w, erased, by omega⟩

/-- Something is left of a value only if no container in it lies in itself. -/
theorem Erased.acyclic {d : Datum} {v : Value} (h : Erased m d v) : ¬ Cyclic m d := by
  rintro ⟨a, there, x, kept, back⟩
  obtain ⟨u, outer, -⟩ := h.inside there
  obtain ⟨w, inner, smaller⟩ := outer.item kept
  obtain ⟨u', again, less⟩ := inner.inside back
  rw [outer.unique again] at smaller
  omega

/-- The value without functions inside is found if no container in it lies in itself. -/
theorem strip_whole (m : Memory) (d : Datum) :
    (∃ v, (Walk.strip m (m.size + 1) d []).1 = .ok v ∧ Erased m d v) ∨
      (Walk.strip m (m.size + 1) d []).1 = .error .circular ∧ Cyclic m d := by
  cases outcome : (Walk.strip m (m.size + 1) d []).1 with
  | ok v => exact .inl ⟨v, rfl, strip_ok outcome⟩
  | error e =>
    have room : Room m [] (m.size + 1) := ⟨.nil, by simp, by simp⟩
    obtain ⟨rfl, cyclic | ⟨a, mem, -⟩⟩ := strip_error room outcome
    · exact .inr ⟨rfl, cyclic⟩
    · cases mem

theorem checked_eq_ok {v w : Value} : checked v = .ok w ↔ v = w ∧ w.obstacles = [] := by
  rw [checked]
  constructor
  · intro ok
    split at ok
    · next clean =>
      cases ok
      exact ⟨rfl, clean⟩
    · cases ok
  · rintro ⟨rfl, clean⟩
    rw [clean]

/-- A value has a copy exactly if something is left of it without functions, and JSON has a form for that. -/
theorem copy_ok_iff {d : Datum} {v : Value} : Memory.copy m d = .ok v ↔ Erased m d v ∧ v.obstacles = [] := by
  obtain ⟨w, outcome, erased⟩ | ⟨outcome, cyclic⟩ := strip_whole m d
  · have result : Memory.copy m d = checked w := by
      rw [Memory.copy, outcome]
      rfl
    rw [result, checked_eq_ok]
    constructor
    · rintro ⟨rfl, clean⟩
      exact ⟨erased, clean⟩
    · rintro ⟨erased', clean⟩
      exact ⟨erased.unique erased', clean⟩
  · have result : Memory.copy m d = .error .circular := by
      rw [Memory.copy, outcome]
      rfl
    rw [result]
    constructor
    · intro ok
      cases ok
    · rintro ⟨erased, -⟩
      exact absurd cyclic erased.acyclic

/-- JSON has a form for the leaf. -/
def Leaf.IsPlain : Leaf → Prop
  | null | bool _ | str _ | torn _ => True
  | int n => isLongNumber n = false
  | float x => x.isFinite = true
  | bytes _ | function | node _ | foreign .. => False

theorem Leaf.obstacles_value (l : Leaf) : l.value.obstacles = [] ↔ l.IsPlain := by
  cases l with
  | int n => simp [Leaf.value, Leaf.IsPlain, obstacles]
  | float x => simp [Leaf.value, Leaf.IsPlain, obstacles]
  | null | bool | str | torn | bytes | function | node | «foreign» =>
    simp [Leaf.value, Leaf.IsPlain, obstacles]

theorem inside_leaf {l l' : Leaf} : Inside m (.leaf l) (.leaf l') ↔ l' = l := by
  constructor
  · rintro ⟨⟩
    rfl
  · rintro rfl
    exact .self _

/-- The leaves in a container are those in what it holds apart from functions. -/
theorem leaves_container {a : Nat} {P : Leaf → Prop} : (∀ l, Inside m (.container a) (.leaf l) → P l) ↔
    ∀ x ∈ (m.cell a).data, x.isFunction = false → ∀ l, Inside m x (.leaf l) → P l := by
  constructor
  · exact fun all x mem other l there => all l (.item (mem_kept.2 ⟨mem, other⟩) there)
  · rintro all l (_ | ⟨kept, there⟩)
    obtain ⟨mem, other⟩ := mem_kept.1 kept
    exact all _ mem other l there

mutual

/-- JSON has a form for what is left of a value exactly if it has one for all leaves in the value. -/
theorem Erased.clean_iff {d : Datum} {v : Value} (h : Erased m d v) :
    v.obstacles = [] ↔ ∀ l, Inside m d (.leaf l) → l.IsPlain := by
  match h with
  | .leaf l => simp only [inside_leaf, forall_eq, Leaf.obstacles_value]
  | .list cell items | .tuple cell items =>
    rw [obstacles, leaves_container, cell]
    exact items.clean_iff
  | .dict cell entries =>
    rw [obstacles, leaves_container, cell]
    exact entries.clean_iff

theorem ErasedItems.clean_iff {ds : List Datum} {vs : List Value} (h : ErasedItems m ds vs) :
    obstaclesOfItems vs = [] ↔ ∀ x ∈ ds, x.isFunction = false → ∀ l, Inside m x (.leaf l) → l.IsPlain := by
  match h with
  | .nil => simp [obstaclesOfItems]
  | .function rest =>
    rw [obstaclesOfItems, obstacles, List.nil_append, rest.clean_iff, List.forall_mem_cons]
    exact (and_iff_right fun other => by cases other).symm
  | .item other first rest =>
    rw [obstaclesOfItems, List.append_eq_nil_iff, first.clean_iff, rest.clean_iff, List.forall_mem_cons]
    exact and_congr_left' (by rw [isFunction_false.2 other]; simp)

theorem ErasedEntries.clean_iff {es : List (String × Datum)} {fs : List (String × Value)}
    (h : ErasedEntries m es fs) : obstaclesOfEntries fs = [] ↔
      ∀ x ∈ es.map (·.2), x.isFunction = false → ∀ l, Inside m x (.leaf l) → l.IsPlain := by
  match h with
  | .nil => simp [obstaclesOfEntries]
  | .function rest =>
    rw [rest.clean_iff, List.map_cons, List.forall_mem_cons]
    exact (and_iff_right fun other => by cases other).symm
  | .entry other first rest =>
    rw [obstaclesOfEntries, List.append_eq_nil_iff, first.clean_iff, rest.clean_iff, List.map_cons,
      List.forall_mem_cons]
    exact and_congr_left' (by rw [isFunction_false.2 other]; simp)

end

end Erased

section Trees

def isFunction : Value → Bool
  | function => true
  | _ => false

mutual

/-- The value without functions inside and with lists for fixed sequences. -/
def erased : Value → Value
  | list xs | tuple xs => list (erasedItems xs)
  | dict es => dict (erasedEntries es)
  | v => v

/-- The items of a sequence, erased; a function becomes `null`. -/
def erasedItems : List Value → List Value
  | [] => []
  | x :: r => (if x.isFunction then null else erased x) :: erasedItems r

/-- The entries of a mapping, erased; a function is left out with its key. -/
def erasedEntries : List (String × Value) → List (String × Value)
  | [] => []
  | (k, v) :: r => if v.isFunction then erasedEntries r else (k, erased v) :: erasedEntries r

end

mutual

/-- The value lies in memory as this, with its own containers from the address `low` on; `around` are the addresses of
those around it. -/
inductive Stores (m : Memory) : (low : Nat) → (around : List Nat) → Value → Datum → Prop where
  | leaf {low : Nat} {around : List Nat} (l : Leaf) : Stores m low around l.value (.leaf l)
  | list {low a : Nat} {around : List Nat} {xs : List Value} {ds : List Datum} : low ≤ a → m[a]? = some (.list ds) →
      StoresItems m (a + 1) (a :: around) xs ds → Stores m low around (.list xs) (.container a)
  | tuple {low a : Nat} {around : List Nat} {xs : List Value} {ds : List Datum} : low ≤ a → m[a]? = some (.tuple ds) →
      StoresItems m (a + 1) (a :: around) xs ds → Stores m low around (.tuple xs) (.container a)
  | dict {low a : Nat} {around : List Nat} {es : List (String × Value)} {ds : List (String × Datum)} : low ≤ a →
      m[a]? = some (.dict ds) → StoresEntries m (a + 1) (a :: around) es ds →
      Stores m low around (.dict es) (.container a)
  | back {low a level : Nat} {around : List Nat} : around[level]? = some a →
      Stores m low around (.back level) (.container a)
  | astray {low a level : Nat} {around : List Nat} : low ≤ a → m[a]? = some (.list [.container a]) →
      Stores m low around (.back level) (.container a)

/-- The items of a sequence lie in memory as these. -/
inductive StoresItems (m : Memory) : (low : Nat) → (around : List Nat) → List Value → List Datum → Prop where
  | nil {low : Nat} {around : List Nat} : StoresItems m low around [] []
  | cons {low : Nat} {around : List Nat} {x : Value} {d : Datum} {xs : List Value} {ds : List Datum} :
      Stores m low around x d → StoresItems m low around xs ds → StoresItems m low around (x :: xs) (d :: ds)

/-- The entries of a mapping lie in memory as these. -/
inductive StoresEntries (m : Memory) :
    (low : Nat) → (around : List Nat) → List (String × Value) → List (String × Datum) → Prop where
  | nil {low : Nat} {around : List Nat} : StoresEntries m low around [] []
  | cons {low : Nat} {around : List Nat} {key : String} {x : Value} {d : Datum} {es : List (String × Value)}
      {ds : List (String × Datum)} : Stores m low around x d → StoresEntries m low around es ds →
      StoresEntries m low around ((key, x) :: es) ((key, d) :: ds)

end

/-- The containers of the first memory from the address `low` on are those of the second one, too. -/
def Extends (low : Nat) (m m' : Memory) : Prop := ∀ (a : Nat) (c : Cell), low ≤ a → m[a]? = some c → m'[a]? = some c

theorem Extends.refl (low : Nat) (m : Memory) : Extends low m m := fun _ _ _ there => there

theorem Extends.trans {low : Nat} {m m' m'' : Memory} (h : Extends low m m') (h' : Extends low m' m'') :
    Extends low m m'' :=
  fun a c from_ there => h' a c from_ (h a c from_ there)

theorem Extends.later {low low' : Nat} {m m' : Memory} (h : Extends low m m') (later : low ≤ low') :
    Extends low' m m' :=
  fun a c from_ there => h a c (Nat.le_trans later from_) there

theorem Extends.size {m m' : Memory} (h : Extends 0 m m') : m.size ≤ m'.size := by
  cases size : m.size with
  | zero => exact Nat.zero_le _
  | succ last =>
    have there := h last _ (Nat.zero_le _) (Array.getElem?_eq_getElem (by omega))
    exact (Array.getElem?_eq_some_iff.1 there).1

mutual

theorem Stores.mono {m m' : Memory} {low low' : Nat} {around : List Nat} {v : Value} {d : Datum}
    (h : Stores m low around v d) (more : Extends low m m') (earlier : low' ≤ low) : Stores m' low' around v d := by
  match h with
  | .leaf l => exact .leaf l
  | .list from_ there items =>
    have inside := items.mono (more.later (by omega)) (Nat.le_refl _)
    exact .list (Nat.le_trans earlier from_) (more _ _ from_ there) inside
  | .tuple from_ there items =>
    have inside := items.mono (more.later (by omega)) (Nat.le_refl _)
    exact .tuple (Nat.le_trans earlier from_) (more _ _ from_ there) inside
  | .dict from_ there entries =>
    have inside := entries.mono (more.later (by omega)) (Nat.le_refl _)
    exact .dict (Nat.le_trans earlier from_) (more _ _ from_ there) inside
  | .back known => exact .back known
  | .astray from_ there => exact .astray (Nat.le_trans earlier from_) (more _ _ from_ there)

theorem StoresItems.mono {m m' : Memory} {low low' : Nat} {around : List Nat} {xs : List Value} {ds : List Datum}
    (h : StoresItems m low around xs ds) (more : Extends low m m') (earlier : low' ≤ low) :
    StoresItems m' low' around xs ds := by
  match h with
  | .nil => exact .nil
  | .cons first rest => exact .cons (first.mono more earlier) (rest.mono more earlier)

theorem StoresEntries.mono {m m' : Memory} {low low' : Nat} {around : List Nat} {es : List (String × Value)}
    {ds : List (String × Datum)} (h : StoresEntries m low around es ds) (more : Extends low m m')
    (earlier : low' ≤ low) : StoresEntries m' low' around es ds := by
  match h with
  | .nil => exact .nil
  | .cons first rest => exact .cons (first.mono more earlier) (rest.mono more earlier)

end

/-- A container is put behind the others, and what its contents put behind it stays. -/
theorem place_spec (m : Memory) (contents : Nat → StateM Memory Cell)
    (more : Extends 0 (m.push (.list [])) (contents m.size (m.push (.list []))).2) :
    Extends 0 m (place contents m).2 ∧
      (place contents m).2[m.size]? = some (contents m.size (m.push (.list []))).1 ∧
      Extends (m.size + 1) (contents m.size (m.push (.list []))).2 (place contents m).2 := by
  have size := more.size
  rw [Array.size_push] at size
  rw [place]
  generalize contents m.size (m.push (.list [])) = filled at more size
  refine ⟨fun a c _ there => ?_, ?_, fun a c from_ there => ?_⟩
  · have low : a < m.size := (Array.getElem?_eq_some_iff.1 there).1
    rw [Array.getElem?_setIfInBounds_ne (by omega)]
    refine more a c (Nat.zero_le _) ?_
    rw [Array.getElem?_push_lt low, ← Array.getElem?_eq_getElem low, there]
  · exact Array.getElem?_setIfInBounds_self_of_lt (by omega)
  · rw [Array.getElem?_setIfInBounds_ne (by omega)]
    exact there

mutual

theorem stored_spec (around : List Nat) (v : Value) (m : Memory) :
    Extends 0 m (stored around v m).2 ∧
      Stores (stored around v m).2 m.size around v (stored around v m).1 := by
  match v with
  | .null => exact ⟨.refl 0 m, .leaf .null⟩
  | .bool b => exact ⟨.refl 0 m, .leaf (.bool b)⟩
  | .int n => exact ⟨.refl 0 m, .leaf (.int n)⟩
  | .float x => exact ⟨.refl 0 m, .leaf (.float x)⟩
  | .str s => exact ⟨.refl 0 m, .leaf (.str s)⟩
  | .torn t => exact ⟨.refl 0 m, .leaf (.torn t)⟩
  | .bytes octets => exact ⟨.refl 0 m, .leaf (.bytes octets)⟩
  | .function => exact ⟨.refl 0 m, .leaf .function⟩
  | .node n => exact ⟨.refl 0 m, .leaf (.node n)⟩
  | .foreign typeName shown text => exact ⟨.refl 0 m, .leaf (.foreign typeName shown text)⟩
  | .list xs =>
    obtain ⟨more, items⟩ := storedItems_spec (m.size :: around) xs (m.push (.list []))
    rw [Array.size_push] at items
    obtain ⟨kept, there, later⟩ :=
      place_spec m (fun a => return .list (← storedItems (a :: around) xs)) more
    exact ⟨kept, .list (Nat.le_refl _) there (items.mono later (Nat.le_refl _))⟩
  | .tuple xs =>
    obtain ⟨more, items⟩ := storedItems_spec (m.size :: around) xs (m.push (.list []))
    rw [Array.size_push] at items
    obtain ⟨kept, there, later⟩ :=
      place_spec m (fun a => return .tuple (← storedItems (a :: around) xs)) more
    exact ⟨kept, .tuple (Nat.le_refl _) there (items.mono later (Nat.le_refl _))⟩
  | .dict es =>
    obtain ⟨more, entries⟩ := storedEntries_spec (m.size :: around) es (m.push (.list []))
    rw [Array.size_push] at entries
    obtain ⟨kept, there, later⟩ :=
      place_spec m (fun a => return .dict (← storedEntries (a :: around) es)) more
    exact ⟨kept, .dict (Nat.le_refl _) there (entries.mono later (Nat.le_refl _))⟩
  | .back level =>
    rw [stored]
    cases known : around[level]? with
    | some a => exact ⟨.refl 0 m, .back known⟩
    | none =>
      obtain ⟨kept, there, -⟩ := place_spec m (fun a => pure (.list [.container a])) (.refl 0 _)
      exact ⟨kept, .astray (Nat.le_refl _) there⟩

theorem storedItems_spec (around : List Nat) (xs : List Value) (m : Memory) :
    Extends 0 m (storedItems around xs m).2 ∧
      StoresItems (storedItems around xs m).2 m.size around xs (storedItems around xs m).1 := by
  match xs with
  | [] => exact ⟨.refl 0 m, .nil⟩
  | x :: r =>
    obtain ⟨more, first⟩ := stored_spec around x m
    obtain ⟨more', rest⟩ := storedItems_spec around r (stored around x m).2
    exact ⟨more.trans more',
      .cons (first.mono (more'.later (Nat.zero_le _)) (Nat.le_refl _)) (rest.mono (.refl _ _) more.size)⟩

theorem storedEntries_spec (around : List Nat) (es : List (String × Value)) (m : Memory) :
    Extends 0 m (storedEntries around es m).2 ∧
      StoresEntries (storedEntries around es m).2 m.size around es (storedEntries around es m).1 := by
  match es with
  | [] => exact ⟨.refl 0 m, .nil⟩
  | (key, x) :: r =>
    obtain ⟨more, first⟩ := stored_spec around x m
    obtain ⟨more', rest⟩ := storedEntries_spec around r (stored around x m).2
    exact ⟨more.trans more',
      .cons (first.mono (more'.later (Nat.zero_le _)) (Nat.le_refl _)) (rest.mono (.refl _ _) more.size)⟩

end

variable {m : Memory}

theorem cell_of_getElem? {a : Nat} {c : Cell} (there : m[a]? = some c) : m.cell a = c := by
  rw [Memory.cell, Array.getD_eq_getD_getElem?, there]
  rfl

theorem Inside.isFunction {d : Datum} {a : Nat} (h : Inside m d (.container a)) : d.isFunction = false := by
  cases h with
  | self | item => rfl

/-- Somewhere below the value lies a container that lies in itself, or one of those around it. -/
def Leads (m : Memory) (around : List Nat) (d : Datum) : Prop :=
  Cyclic m d ∨ ∃ a ∈ around, Inside m d (.container a)

theorem Leads.isFunction {around : List Nat} {d : Datum} (h : Leads m around d) : d.isFunction = false := by
  obtain ⟨a, inside, -⟩ | ⟨a, -, inside⟩ := h
  all_goals exact inside.isFunction

theorem Leads.item {around : List Nat} {a : Nat} {c : Cell} {d : Datum} (there : m[a]? = some c) (mem : d ∈ c.data)
    (h : Leads m (a :: around) d) : Leads m around (.container a) := by
  have kept : d ∈ (m.cell a).kept := mem_kept.2 ⟨by rwa [cell_of_getElem? there], h.isFunction⟩
  obtain ⟨b, inside, back⟩ | ⟨b, known, inside⟩ := h
  · exact .inl ⟨b, .item kept inside, back⟩
  · obtain rfl | known := List.mem_cons.1 known
    · exact .inl ⟨b, .self _, d, kept, inside⟩
    · exact .inr ⟨b, known, .item kept inside⟩

theorem Stores.isFunction {low : Nat} {around : List Nat} {v : Value} {d : Datum} (h : Stores m low around v d) :
    v.isFunction = d.isFunction := by
  cases h with
  | leaf l => cases l <;> rfl
  | list | tuple | dict | back | astray => rfl

theorem erased_leaf (l : Leaf) : l.value.erased = l.value := by
  cases l <;> rfl

mutual

/-- A value that holds itself somewhere, or leads out of itself, does so in memory, and of any other value in memory
there is left what is left of it. -/
theorem Stores.settles {low : Nat} {around : List Nat} {v : Value} {d : Datum} (h : Stores m low around v d) :
    (.circular ∈ v.obstacles → Leads m around d) ∧ (.circular ∉ v.obstacles → Erased m d v.erased) := by
  match h with
  | .leaf l =>
    refine ⟨fun circular => ?_, fun _ => ?_⟩
    · cases l <;> simp [Leaf.value, obstacles] at circular
    · rw [erased_leaf]
      exact .leaf l
  | .list _ there items =>
    rw [obstacles, erased]
    refine ⟨fun circular => ?_, fun free => .list (cell_of_getElem? there) (items.settles.2 free)⟩
    obtain ⟨d, mem, leads⟩ := items.settles.1 circular
    exact leads.item there mem
  | .tuple _ there items =>
    rw [obstacles, erased]
    refine ⟨fun circular => ?_, fun free => .tuple (cell_of_getElem? there) (items.settles.2 free)⟩
    obtain ⟨d, mem, leads⟩ := items.settles.1 circular
    exact leads.item there mem
  | .dict _ there entries =>
    rw [obstacles, erased]
    refine ⟨fun circular => ?_, fun free => .dict (cell_of_getElem? there) (entries.settles.2 free)⟩
    obtain ⟨d, mem, leads⟩ := entries.settles.1 circular
    exact leads.item there mem
  | .back known =>
    refine ⟨fun _ => .inr ⟨_, List.mem_of_getElem? known, .self _⟩, fun free => absurd (by simp [obstacles]) free⟩
  | .astray _ there =>
    have leads : Leads m around (.container _) :=
      Leads.item there (by simp [Cell.data]) (.inr ⟨_, List.mem_cons_self, .self _⟩)
    exact ⟨fun _ => leads, fun free => absurd (by simp [obstacles]) free⟩

theorem StoresItems.settles {low : Nat} {around : List Nat} {xs : List Value} {ds : List Datum}
    (h : StoresItems m low around xs ds) :
    (.circular ∈ obstaclesOfItems xs → ∃ d ∈ ds, Leads m around d) ∧
      (.circular ∉ obstaclesOfItems xs → ErasedItems m ds (erasedItems xs)) := by
  match h with
  | .nil => exact ⟨fun circular => absurd circular List.not_mem_nil, fun _ => .nil⟩
  | .cons first rest =>
    rw [obstaclesOfItems, List.mem_append, not_or]
    refine ⟨?_, fun ⟨free, frees⟩ => ?_⟩
    · rintro (circular | circular)
      · exact ⟨_, List.mem_cons_self, first.settles.1 circular⟩
      · obtain ⟨d, mem, leads⟩ := rest.settles.1 circular
        exact ⟨d, List.mem_cons_of_mem _ mem, leads⟩
    · rw [erasedItems, first.isFunction]
      split
      · next function =>
        rw [isFunction_iff.1 function]
        exact .function (rest.settles.2 frees)
      · next other => exact .item (mt isFunction_iff.2 other) (first.settles.2 free) (rest.settles.2 frees)

theorem StoresEntries.settles {low : Nat} {around : List Nat} {es : List (String × Value)}
    {ds : List (String × Datum)} (h : StoresEntries m low around es ds) :
    (.circular ∈ obstaclesOfEntries es → ∃ d ∈ ds.map (·.2), Leads m around d) ∧
      (.circular ∉ obstaclesOfEntries es → ErasedEntries m ds (erasedEntries es)) := by
  match h with
  | .nil => exact ⟨fun circular => absurd circular List.not_mem_nil, fun _ => .nil⟩
  | .cons first rest =>
    rw [obstaclesOfEntries, List.mem_append, not_or]
    refine ⟨?_, fun ⟨free, frees⟩ => ?_⟩
    · rintro (circular | circular)
      · exact ⟨_, List.mem_cons_self, first.settles.1 circular⟩
      · obtain ⟨d, mem, leads⟩ := rest.settles.1 circular
        exact ⟨d, List.mem_cons_of_mem _ mem, leads⟩
    · rw [erasedEntries, first.isFunction]
      split
      · next function =>
        rw [isFunction_iff.1 function]
        exact .function (rest.settles.2 frees)
      · next other => exact .entry (mt isFunction_iff.2 other) (first.settles.2 free) (rest.settles.2 frees)

end

/-- A value has a copy if it does not hold itself and JSON has a form for what is left of it without functions. -/
theorem copy_eq_ok {v w : Value} : v.copy = .ok w ↔ .circular ∉ v.obstacles ∧ w = v.erased ∧ w.obstacles = [] := by
  obtain ⟨leads, rest⟩ := (stored_spec [] v #[]).2.settles
  have result : v.copy = Memory.copy (stored [] v #[]).2 (stored [] v #[]).1 := rfl
  rw [result, copy_ok_iff]
  by_cases circular : .circular ∈ v.obstacles
  · obtain cyclic | ⟨_, known, -⟩ := leads circular
    · exact ⟨fun ⟨erased, _⟩ => absurd cyclic erased.acyclic, fun ⟨free, _⟩ => absurd circular free⟩
    · exact absurd known List.not_mem_nil
  · have erased := rest circular
    constructor
    · rintro ⟨erased', clean⟩
      exact ⟨circular, erased'.unique erased, clean⟩
    · rintro ⟨-, rfl, clean⟩
      exact ⟨erased, clean⟩

theorem Erased.isFunction {d : Datum} {v : Value} (h : Erased m d v) : v.isFunction = d.isFunction := by
  cases h with
  | leaf l => cases l <;> rfl
  | list | tuple | dict => rfl

mutual

/-- Nothing more is left out of what is left of a value. -/
theorem Erased.erased_eq {d : Datum} {v : Value} (h : Erased m d v) : v.erased = v := by
  match h with
  | .leaf l => exact erased_leaf l
  | .list _ items | .tuple _ items => rw [erased, items.erased_eq]
  | .dict _ entries => rw [erased, entries.erased_eq]

theorem ErasedItems.erased_eq {ds : List Datum} {vs : List Value} (h : ErasedItems m ds vs) :
    erasedItems vs = vs := by
  match h with
  | .nil => rfl
  | .function rest =>
    rw [erasedItems, rest.erased_eq]
    rfl
  | .item other first rest =>
    rw [erasedItems, first.isFunction, isFunction_false.2 other, first.erased_eq, rest.erased_eq]
    rfl

theorem ErasedEntries.erased_eq {es : List (String × Datum)} {fs : List (String × Value)}
    (h : ErasedEntries m es fs) : erasedEntries fs = fs := by
  match h with
  | .nil => rfl
  | .function rest => exact rest.erased_eq
  | .entry other first rest =>
    rw [erasedEntries, first.isFunction, isFunction_false.2 other, first.erased_eq, rest.erased_eq]
    rfl

end

end Trees

end Pagesmith.Value
