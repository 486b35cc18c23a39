import Pagesmith.Proofs.Script.Literal
import Pagesmith.Proofs.Value.Copy
import Pagesmith.Proofs.Value.Decimal
import Pagesmith.Proofs.Value.Indented

/-!
JSON data. It can always be copied, the copy is the value itself, and so is what is read from its JSON text, for a
finite number too: of all its decimals the text has one that is nearer to it than to any other number.
-/

namespace Pagesmith.Value

mutual

/-- JSON data: its numbers have a text, are finite and in their one form, and no object has a key twice. -/
def IsData : Value → Prop
  | null | bool _ | str _ | torn _ => True
  | int n => isLongNumber n = false
  | float x => x.isFinite = true ∧ x.IsCanonical
  | list xs => AllData xs
  | dict es => (es.map (·.1)).Nodup ∧ AllEntriesData es
  | _ => False

/-- All items are JSON data. -/
def AllData : List Value → Prop
  | [] => True
  | x :: r => IsData x ∧ AllData r

/-- The values of all entries are JSON data. -/
def AllEntriesData : List (String × Value) → Prop
  | [] => True
  | (_, x) :: r => IsData x ∧ AllEntriesData r

end

theorem AllEntriesData.lookup {es : List (String × Value)} (h : AllEntriesData es) {key : String} {v : Value}
    (found : es.lookup key = some v) : v.IsData := by
  induction es with
  | nil => cases found
  | cons e r ih =>
    obtain ⟨k, x⟩ := e
    rw [List.lookup_cons] at found
    split at found
    · obtain rfl := Option.some.inj found
      exact h.1
    · exact ih h.2 found

mutual

/-- JSON data has a form in JSON, nothing stands in the way of it, and nothing of it is left out in a copy. -/
theorem IsData.copies {v : Value} (h : v.IsData) : Script.IsJson v ∧ v.obstacles = [] ∧ v.erased = v := by
  match v with
  | null | bool _ | str _ | torn _ => exact ⟨trivial, rfl, rfl⟩
  | int n =>
    have short : isLongNumber n = false := h
    refine ⟨trivial, ?_, rfl⟩
    rw [obstacles, short]
    rfl
  | float x =>
    obtain ⟨finite, canonical⟩ := h
    refine ⟨?_, ?_, rfl⟩
    · cases x with
      | nan | infinite => cases finite
      | finite negative m e => exact Reader.scalar_finite none canonical
    · rw [obstacles, if_pos finite]
  | list xs =>
    have all : AllData xs := by simpa only [IsData] using h
    obtain ⟨json, clean, same⟩ := all.copies
    exact ⟨by simpa only [Script.IsJson] using json, clean, congrArg list same⟩
  | dict es =>
    simp only [IsData] at h
    obtain ⟨json, clean, same⟩ := AllEntriesData.copies h.2
    exact ⟨by simpa only [Script.IsJson] using ⟨h.1, json⟩, clean, congrArg dict same⟩

theorem AllData.copies {xs : List Value} (h : AllData xs) :
    Script.AllJson xs ∧ obstaclesOfItems xs = [] ∧ erasedItems xs = xs := by
  match xs with
  | [] => exact ⟨trivial, rfl, rfl⟩
  | x :: r =>
    obtain ⟨json, clean, same⟩ := h.1.copies
    obtain ⟨jsons, cleans, sames⟩ := AllData.copies h.2
    have given : x.isFunction = false := by
      cases x with
      | function => cases h.1
      | _ => rfl
    refine ⟨⟨json, jsons⟩, by rw [obstaclesOfItems, clean, cleans]; rfl, ?_⟩
    rw [erasedItems, given, same, sames]
    rfl

theorem AllEntriesData.copies {es : List (String × Value)} (h : AllEntriesData es) :
    Script.AllEntriesJson es ∧ obstaclesOfEntries es = [] ∧ erasedEntries es = es := by
  match es with
  | [] => exact ⟨trivial, rfl, rfl⟩
  | (k, x) :: r =>
    obtain ⟨json, clean, same⟩ := h.1.copies
    obtain ⟨jsons, cleans, sames⟩ := AllEntriesData.copies h.2
    have given : x.isFunction = false := by
      cases x with
      | function => cases h.1
      | _ => rfl
    refine ⟨⟨json, jsons⟩, by rw [obstaclesOfEntries, clean, cleans]; rfl, ?_⟩
    rw [erasedEntries, given, same, sames]
    rfl

end

theorem IsData.copy {v : Value} (h : v.IsData) : v.copy = .ok v := by
  obtain ⟨-, clean, same⟩ := h.copies
  exact copy_eq_ok.2 ⟨by simp [clean], same.symm, clean⟩

/-- JSON text itself, where each character is written as it is. -/
theorem isEncoding_plain : Script.IsEncoding fun c => [c] where
  word _ _ := rfl
  mark _ _ := rfl
  spells c := by
    rw [List.flatMap_singleton']
    exact spells_jsonChar c

/-- The JSON text of data is read back as the data. -/
theorem IsData.reads {v : Value} (h : v.IsData) : Reader.document none v.json.toList = .ok v := by
  have written := Script.writes_encoded isEncoding_plain h.copies.1
  rw [List.flatMap_singleton'] at written
  exact Reader.document_writes written

/-- The literal of data is made without a notice and is read back as the data. -/
theorem IsData.literal {v : Value} (h : v.IsData) (log : List Notice) :
    Script.literal v log = (.ok (Script.literalText v), log) ∧
      Reader.document none (Script.literalText v).toList = .ok v := by
  obtain ⟨json, clean, -⟩ := h.copies
  refine ⟨Script.literal_clean clean log, Reader.document_writes ?_⟩
  rw [Script.literalText, Script.toList_codeText]
  exact Script.writes_json json

section Memory

variable {m : Memory} {d : Datum} {v : Value}

/-- No mapping in memory has a key twice. -/
def Memory.IsKeyed (m : Memory) : Prop := ∀ a es, m.cell a = .dict es → (es.map (·.1)).Nodup

theorem Leaf.isData {l : Leaf} (plain : l.IsPlain) (canonical : ∀ x, l = .float x → x.IsCanonical) :
    l.value.IsData := by
  cases l with
  | null | bool | str | torn => trivial
  | int n => exact plain
  | float x => exact ⟨plain, canonical x rfl⟩
  | bytes | function | node | «foreign» => cases plain

mutual

/-- What is left of a value is JSON data if its leaves are and no mapping has a key twice. -/
theorem Erased.isData {m : Memory} {d : Datum} {v : Value} (h : Erased m d v) (keyed : m.IsKeyed)
    (leaves : ∀ l, Inside m d (.leaf l) → l.value.IsData) : v.IsData := by
  match h with
  | .leaf l => exact leaves l (.self _)
  | .list cell items | .tuple cell items =>
    rw [leaves_container, cell] at leaves
    rw [IsData]
    exact items.isData keyed leaves
  | .dict cell entries =>
    rw [leaves_container, cell] at leaves
    rw [IsData]
    exact ⟨(keyed _ _ cell).sublist entries.keys, entries.isData keyed leaves⟩

theorem ErasedItems.isData {m : Memory} {ds : List Datum} {vs : List Value} (h : ErasedItems m ds vs)
    (keyed : m.IsKeyed) (leaves : ∀ d ∈ ds, d.isFunction = false → ∀ l, Inside m d (.leaf l) → l.value.IsData) :
    AllData vs := by
  match h with
  | .nil => trivial
  | .function rest => exact ⟨trivial, rest.isData keyed (List.forall_mem_cons.1 leaves).2⟩
  | .item other first rest =>
    obtain ⟨here, later⟩ := List.forall_mem_cons.1 leaves
    exact ⟨first.isData keyed (here (isFunction_false.2 other)), rest.isData keyed later⟩

theorem ErasedEntries.isData {m : Memory} {es : List (String × Datum)} {fs : List (String × Value)}
    (h : ErasedEntries m es fs) (keyed : m.IsKeyed)
    (leaves : ∀ d ∈ es.map (·.2), d.isFunction = false → ∀ l, Inside m d (.leaf l) → l.value.IsData) :
    AllEntriesData fs := by
  match h with
  | .nil => trivial
  | .function rest => exact rest.isData keyed (List.forall_mem_cons.1 leaves).2
  | .entry other first rest =>
    obtain ⟨here, later⟩ := List.forall_mem_cons.1 leaves
    exact ⟨first.isData keyed (here (isFunction_false.2 other)), rest.isData keyed later⟩

end

/-- A value has a copy exactly if it is no function, no container in it lies in itself, and JSON has a form for its
leaves. -/
theorem copies_iff : (∃ v, Memory.copy m d = .ok v) ↔
    d ≠ .leaf .function ∧ ¬ Cyclic m d ∧ ∀ l, Inside m d (.leaf l) → l.IsPlain := by
  constructor
  · rintro ⟨v, copied⟩
    obtain ⟨erased, clean⟩ := copy_ok_iff.1 copied
    have plain := erased.clean_iff.1 clean
    exact ⟨by rintro rfl; exact plain _ (.self _), erased.acyclic, plain⟩
  · rintro ⟨-, acyclic, plain⟩
    obtain ⟨v, -, erased⟩ | ⟨-, cyclic⟩ := strip_whole m d
    · exact ⟨v, copy_ok_iff.2 ⟨erased, erased.clean_iff.2 plain⟩⟩
    · exact absurd cyclic acyclic

/-- The copy is a value by itself, which is its own copy. -/
theorem copy_copied (copied : Memory.copy m d = .ok v) : v.copy = .ok v := by
  obtain ⟨erased, clean⟩ := copy_ok_iff.1 copied
  exact copy_eq_ok.2 ⟨by simp [clean], erased.erased_eq.symm, clean⟩

/-- What a list holds twice is copied twice. -/
theorem copy_shared (copied : Memory.copy m d = .ok v) {a : Nat} (twice : m.cell a = .list [d, d]) :
    Memory.copy m (.container a) = .ok (.list [v, v]) := by
  obtain ⟨erased, clean⟩ := copy_ok_iff.1 copied
  obtain ⟨other, -, -⟩ := copies_iff.1 ⟨v, copied⟩
  refine copy_ok_iff.2 ⟨.list twice (.item other erased (.item other erased .nil)), ?_⟩
  simp [obstacles, obstaclesOfItems, clean]

/-- The copy is what its own JSON text is read as. -/
theorem copy_reads (copied : Memory.copy m d = .ok v) (keyed : m.IsKeyed)
    (canonical : ∀ x, Inside m d (.leaf (.float x)) → x.IsCanonical) :
    Reader.document none v.json.toList = .ok v := by
  obtain ⟨erased, clean⟩ := copy_ok_iff.1 copied
  have plain := erased.clean_iff.1 clean
  have data := erased.isData keyed fun l there => Leaf.isData (plain l there) (by rintro x rfl; exact canonical x there)
  exact data.reads

/-- A value in memory is copied exactly if it is no function itself and, apart from the functions in its containers,
it holds neither a container that lies in itself, nor a whole number too long for a text, nor anything else JSON has
no form for. The copy is what is left of the value without these functions; it is what its JSON text is read as, it is
its own copy, and it does not matter whether a container is held once or several times. -/
theorem copy_settles (m : Memory) (d : Datum) :
    ((∃ v, Memory.copy m d = .ok v) ↔
      d ≠ .leaf .function ∧ ¬ Cyclic m d ∧ ∀ l, Inside m d (.leaf l) → l.IsPlain) ∧
    (∀ v, Memory.copy m d = .ok v → Erased m d v ∧ v.copy = .ok v ∧
      (∀ a, m.cell a = .list [d, d] → Memory.copy m (.container a) = .ok (.list [v, v])) ∧
      (m.IsKeyed → (∀ x, Inside m d (.leaf (.float x)) → x.IsCanonical) →
        Reader.document none v.json.toList = .ok v)) := by
  refine ⟨copies_iff, fun v copied => ⟨(copy_ok_iff.1 copied).1, copy_copied copied, fun a => copy_shared copied, ?_⟩⟩
  exact copy_reads copied

/-- A mapping with a function, a list that holds it twice, and a list and a fixed sequence that hold each other. -/
def sharingMemory : Memory :=
  #[.dict [("x", .leaf (.float (.finite false (2 ^ 52) (-53)))), ("f", .leaf .function)],
    .list [.container 0, .container 0], .list [.container 3, .leaf .function], .tuple [.container 2]]

theorem sharingMemory_settles :
    Memory.copy sharingMemory (.container 0) = .ok (.dict [("x", .float (.finite false (2 ^ 52) (-53)))]) ∧
    sharingMemory.IsKeyed ∧
    Reader.document none "\x7b\"x\": 0.5\x7d".toList = .ok (.dict [("x", .float (.finite false (2 ^ 52) (-53)))]) ∧
    Memory.copy sharingMemory (.container 1) = .ok (.list [.dict [("x", .float (.finite false (2 ^ 52) (-53)))],
      .dict [("x", .float (.finite false (2 ^ 52) (-53)))]]) ∧
    ¬ ∃ v, Memory.copy sharingMemory (.container 2) = .ok v := by
  have copied : Memory.copy sharingMemory (.container 0) =
      .ok (.dict [("x", .float (.finite false (2 ^ 52) (-53)))]) := by rfl
  have keyed : sharingMemory.IsKeyed := by
    intro a es cell
    match a with
    | 0 =>
      cases cell
      decide
    | 1 | 2 | 3 | n + 4 => cases cell
  have canonical : ∀ x, Inside sharingMemory (.container 0) (.leaf (.float x)) → x.IsCanonical := by
    intro x there
    have kept : (sharingMemory.cell 0).kept = [.leaf (.float (.finite false (2 ^ 52) (-53)))] := rfl
    obtain _ | ⟨mem, there⟩ := there
    rw [kept, List.mem_singleton] at mem
    subst mem
    cases inside_leaf.1 there
    exact ⟨by decide, by decide, by decide, .inl (by decide)⟩
  have text : (Value.dict [("x", .float (.finite false (2 ^ 52) (-53)))]).json = "\x7b\"x\": 0.5\x7d" := by
    decide +kernel
  obtain ⟨-, settled⟩ := copy_settles sharingMemory (.container 0)
  obtain ⟨refused, -⟩ := copy_settles sharingMemory (.container 2)
  obtain ⟨-, -, shared, reads⟩ := settled _ copied
  refine ⟨copied, keyed, text ▸ reads keyed canonical, shared 1 rfl, ?_⟩
  rw [refused]
  rintro ⟨-, acyclic, -⟩
  have kept : (sharingMemory.cell 2).kept = [.container 3] := rfl
  have kept' : (sharingMemory.cell 3).kept = [.container 2] := rfl
  have back : Inside sharingMemory (.container 3) (.container 2) := .item (by simp [kept']) (.self _)
  exact acyclic ⟨2, .self _, .container 3, by simp [kept], back⟩

/-- A whole number that is too long for a text is not copied, though it is no function and no container. -/
theorem longLeaf_refused : Memory.copy #[] (.leaf (.int longNumber)) = .error .longNumber ∧
    ¬ Cyclic #[] (.leaf (.int longNumber)) ∧
    ∀ l, Inside #[] (.leaf (.int longNumber)) (.leaf l) ↔ l = .int longNumber := by
  have stored : Memory.copy #[] (.leaf (.int longNumber)) = checked (.int longNumber) := rfl
  refine ⟨?_, ?_, fun l => inside_leaf⟩
  · rw [stored, checked, obstacles, if_pos isLongNumber_longNumber]
    rfl
  · rintro ⟨a, inside, -⟩
    cases inside

end Memory

end Pagesmith.Value
