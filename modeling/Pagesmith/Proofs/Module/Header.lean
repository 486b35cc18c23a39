import Pagesmith.Module.Text
import Pagesmith.Proofs.Module.Imports
import Pagesmith.Proofs.Script.Header
import Pagesmith.Proofs.Table
import Mathlib.Data.List.Perm.Basic

/-!
The import header of a module. The entries of its sources hold exactly its bindings, each once, and
the header has one line for each entry. Read back, the lines are the entries, in the order of their
groups and sources.
-/

namespace Pagesmith

/-- The bindings that a line makes, with their source. -/
def Script.ImportLine.bindings (l : ImportLine) : List ((String × String) × String) :=
  l.main.toList.map ((l.source, Module.defaultExport), ·) ++
    l.named.map fun s => ((l.source, s.exportName), s.localName)

/-- The entry takes the export, between braces or as a whole. -/
def ImportEntry.Takes (e : ImportEntry) (braces : Bool) (x : String) : Prop :=
  if braces then x ∈ e.named.map (·.1) else e.main.isSome ∧ x = Module.defaultExport

namespace Module
open Script Text

/-- The bindings in the entries of a module, with their sources. -/
def entryBindings (m : Module) : List ((String × String) × String) :=
  m.imports.flatMap fun e => e.2.bindings.map fun b => ((e.1, b.1), b.2)

/-- One more binding takes its export in its own way. -/
theorem takes_add {e : ImportEntry} {d : Dependency} {x name y : String} {braces : Bool}
    (main : d.destructured = false → x = defaultExport)
    (h : (ImportEntry.add e d x name).Takes braces y) :
    e.Takes braces y ∨ d.destructured = braces ∧ x = y := by
  rw [ImportEntry.add] at h
  cases braces with
  | true =>
    split at h
    · next named => exact (Table.mem_keys_insert h).symm.imp_right fun same => ⟨named, same.symm⟩
    · exact .inl h
  | false =>
    split at h
    · exact .inl h
    · next whole =>
      have whole : d.destructured = false := by simpa using whole
      exact .inr ⟨whole, (main whole).trans h.2.symm⟩

/-- An entry of the module takes the export of the source, between braces or as a whole. -/
def Takes (m : Module) (braces : Bool) (key : String × String) : Prop :=
  ∃ e ∈ m.imports, e.1 = key.1 ∧ e.2.Takes braces key.2

theorem Takes.of_bind {m : Module} {d : Dependency} {wish : Option String} {name : String}
    {braces : Bool} {key : String × String}
    (h : (m.bind d (bindingKey d wish) name).Takes braces key) :
    m.Takes braces key ∨ d.destructured = braces ∧ bindingKey d wish = key := by
  obtain ⟨e, mem, source, takes⟩ := h
  obtain rfl | mem := Table.eq_or_mem_of_mem_insert mem
  · obtain before | ⟨same, x⟩ :=
      takes_add (fun main => congrArg Prod.snd (bindingKey_main wish main)) takes
    · cases found : m.imports.lookup d.source with
      | none =>
        rw [found] at before
        cases braces <;> simp [ImportEntry.Takes] at before
      | some e =>
        rw [found] at before
        exact .inl ⟨_, Table.mem_of_lookup found, source, before⟩
    · exact .inr ⟨same, Prod.ext source x⟩
  · exact .inl ⟨e, mem, source, takes⟩

/-- The entries of a module are its bindings: each stands in the entry of its source, and nothing
else does. All their exports and names are identifiers. -/
structure Tied (m : Module) : Prop where
  linked : Linked m
  sources : Table.Keyed (· ≠ "") m.imports
  given : ∀ e ∈ m.imports, e.2.bindings ≠ []
  keys : (m.bound.map (·.1)).Nodup
  bindings : m.entryBindings.Perm m.bound
  names : ∀ b ∈ m.bound, NamesOnly (b.1.2, b.2)

theorem tied_new (name : String) : Tied (new name) where
  linked := linked_new name
  sources := ⟨.nil, by simp [new]⟩
  given := by simp [new]
  keys := .nil
  bindings := .refl _
  names := by simp [new]

/-- Only the entries and the bindings of a module matter. -/
theorem Tied.of_eq {m m' : Module} (h : Tied m) (imports : m'.imports = m.imports)
    (bound : m'.bound = m.bound) : Tied m' where
  linked := h.linked.of_eq imports bound
  sources := imports ▸ h.sources
  given := imports ▸ h.given
  keys := bound ▸ h.keys
  bindings := by
    rw [entryBindings, imports, bound]
    exact h.bindings
  names := bound ▸ h.names

/-- A new binding stands in the entries beside the others. -/
theorem entryBindings_bind {m : Module} (h : Linked m) {d : Dependency} {wish : Option String} {name : String}
    (new : m.bound.lookup (bindingKey d wish) = none) :
    (m.bind d (bindingKey d wish) name).entryBindings.Perm (m.entryBindings ++ [(bindingKey d wish, name)]) := by
  obtain ⟨named, main⟩ := h.absent new
  have placed := (bindings_add name named main).map fun b => ((d.source, b.1), b.2)
  rw [List.map_append] at placed
  exact flatMap_insert_perm (fun s e => e.bindings.map fun b => ((s, b.1), b.2)) m.imports rfl placed

theorem Tied.bind {m : Module} (h : Tied m) {d : Dependency} (source : d.source ≠ "")
    {wish : Option String} {name : String} (new : m.bound.lookup (bindingKey d wish) = none)
    (names : NamesOnly ((bindingKey d wish).2, name)) :
    Tied (m.bind d (bindingKey d wish) name) := by
  obtain ⟨named, main⟩ := h.linked.absent new
  have added := bindings_add name named main
  refine ⟨h.linked.bind d wish name new, h.sources.insert source _, ?_, ?_, ?_, ?_⟩
  · intro e mem
    obtain rfl | mem := Table.eq_or_mem_of_mem_insert mem
    · exact List.ne_nil_of_mem (added.mem_iff.2 (List.mem_append_right _ List.mem_cons_self))
    · exact h.given e mem
  · simp only [Module.bind, List.map_append]
    refine List.nodup_append.2 ⟨h.keys, by simp, ?_⟩
    rintro k mem k' mem' rfl
    obtain rfl := List.mem_singleton.1 mem'
    exact not_bound new mem
  · exact (entryBindings_bind h.linked new).trans (h.bindings.append_right _)
  · simp only [Module.bind, List.mem_append, List.mem_singleton]
    rintro b (mem | rfl)
    · exact h.names b mem
    · exact names

/-- A source and what is taken from it, in the order of a line. -/
abbrev Entry := String × ImportEntry

namespace Entry

/-- The line of an entry. -/
def line (e : Entry) : String := importLine e.1 e.2.main e.2.named

/-- What the line of an entry says. -/
def said (e : Entry) : ImportLine := ⟨e.1, e.2.main, e.2.named.map specifier⟩

/-- The entry with its exports in order. -/
def ordered (e : Entry) : Entry := (e.1, ⟨e.2.main, Table.sorted e.2.named⟩)

/-- All exports and names of an entry are identifiers. -/
structure Named (e : Entry) : Prop where
  main : ∀ d ∈ e.2.main, IsName d
  named : ∀ b ∈ e.2.named, NamesOnly b

theorem Named.ordered {e : Entry} (h : Named e) : Named e.ordered where
  main := h.main
  named := fun b mem => h.named b ((Table.sorted_perm _).mem_iff.1 mem)

theorem isPrefix_line {e : Entry} (h : Named e) : "import".toList.isPrefixOf e.line.toList = true := by
  rw [line, importLine_eq e.1 (given_of_names h.main)]
  simp

theorem readImport_lines {es : List Entry} (h : ∀ e ∈ es, Named e) :
    ((es.map line).map String.toList).mapM readImport = some (es.map said) := by
  induction es with
  | nil => rfl
  | cons e r ih =>
    obtain ⟨⟨main, named⟩, rest⟩ := List.forall_mem_cons.1 h
    have read : readImport e.line.toList = some e.said := readImport_importLine main named e.1
    simp only [List.map_cons, List.mapM_cons, read, ih rest]
    rfl

theorem readImports_lines {es : List Entry} (h : ∀ e ∈ es, Named e) :
    ((es.map line).flatMap importTexts).mapM readImport = some (es.map said) := by
  have texts : (es.map line).flatMap importTexts = (es.map line).map String.toList := by
    rw [List.flatMap_map, List.map_map, List.map_eq_flatMap]
    exact List.flatMap_congr fun e mem => importTexts_importLine (h e mem).main (h e mem).named e.1
  rw [texts, readImport_lines h]

/-- The bindings of an entry, with its source. -/
def bindings (e : Entry) : List ((String × String) × String) := e.2.bindings.map fun b => ((e.1, b.1), b.2)

theorem said_bindings (e : Entry) : e.said.bindings = e.bindings := by
  have same (b : String × String) :
      ((e.1, (specifier b).exportName), (specifier b).localName) = ((e.1, b.1), b.2) := by
    rw [specifier_localName]
    rfl
  simp only [ImportLine.bindings, said, bindings, ImportEntry.bindings, List.map_append, List.map_map,
    Function.comp_def, same]

theorem ordered_bindings (e : Entry) : e.ordered.bindings.Perm e.bindings :=
  (((Table.sorted_perm e.2.named)).append_left _).map _

end Entry

/-- The entry of the view library, with the hooks the module uses. -/
def libraryEntry (m : Module) : Entry :=
  ("react", ⟨some "React", (if m.states.isEmpty then [] else [("useState", "useState")]) ++
    (if m.effects.isEmpty then [] else [("useEffect", "useEffect")])⟩)

/-- The entries of a group in the order of their sources. -/
def groupEntries (m : Module) (group : Nat) : List Entry :=
  ((Table.sorted m.imports).filter fun e => importGroup e.1 == group).map Entry.ordered

/-- The entries of a module in the order of their lines. -/
def lineEntries (m : Module) : List Entry :=
  m.groupEntries 0 ++ (m.groupEntries 1 ++ m.groupEntries 2)

/-- The entry of the style sheet, if there is one. -/
def stylesheetEntries (m : Module) : List Entry :=
  (givenText m.stylesheet).toList.map fun s => (s, ⟨some "styles", []⟩)

theorem importBlocks_flatten (m : Module) :
    m.importBlocks.flatten =
      (m.libraryEntry :: (m.lineEntries ++ m.stylesheetEntries)).map Entry.line := by
  have group (n : Nat) : m.importLines n = (m.groupEntries n).map Entry.line := by
    rw [importLines, groupEntries, List.map_map]
    rfl
  have sheet : m.stylesheetLines = m.stylesheetEntries.map Entry.line := by
    rw [stylesheetLines, stylesheetEntries]
    cases givenText m.stylesheet <;> rfl
  have library : m.libraryLine = m.libraryEntry.line := rfl
  rw [importBlocks, List.flatten_cons, List.flatten_filter_not_isEmpty]
  simp [group, sheet, library, lineEntries]

theorem importTexts_header (m : Module) :
    importTexts m.header = m.importBlocks.flatten.flatMap importTexts := by
  rw [header, importTexts_intercalate importTexts_blankLine, List.flatMap_map]
  simp only [importTexts_unlines]
  rw [List.flatten_eq_flatMap, List.flatMap_assoc]
  rfl

theorem named_libraryEntry (m : Module) : m.libraryEntry.Named where
  main := by
    rintro d ⟨⟩
    exact (by decide : IsName "React")
  named := by
    have state : NamesOnly ("useState", "useState") := ⟨by decide, by decide⟩
    have effect : NamesOnly ("useEffect", "useEffect") := ⟨by decide, by decide⟩
    intro b mem
    obtain mem | mem := List.mem_append.1 mem
    · split at mem
      · cases mem
      · exact List.mem_singleton.1 mem ▸ state
    · split at mem
      · cases mem
      · exact List.mem_singleton.1 mem ▸ effect

theorem named_stylesheetEntries (m : Module) : ∀ e ∈ m.stylesheetEntries, e.Named := by
  intro e mem
  obtain ⟨s, -, rfl⟩ := List.mem_map.1 mem
  refine ⟨?_, fun b mem => (nomatch mem)⟩
  rintro d ⟨⟩
  exact (by decide : IsName "styles")

/-- The three groups are all there are. -/
theorem groups_perm (es : List Entry) :
    (es.filter (fun e => importGroup e.1 == 0) ++ (es.filter (fun e => importGroup e.1 == 1) ++
      es.filter fun e => importGroup e.1 == 2)).Perm es := by
  induction es with
  | nil => exact .refl _
  | cons e r ih =>
    have groups : importGroup e.1 = 0 ∨ importGroup e.1 = 1 ∨ importGroup e.1 = 2 := by
      rw [importGroup]
      split
      · exact .inr (.inr rfl)
      · split
        · exact .inr (.inl rfl)
        · exact .inl rfl
    obtain group | group | group := groups
    · simpa [group] using ih
    · simp only [List.filter_cons, group, Nat.reduceBEq, Bool.false_eq_true, if_false, if_true]
      exact List.perm_middle.trans (ih.cons e)
    · simp only [List.filter_cons, group, Nat.reduceBEq, Bool.false_eq_true, if_false, if_true]
      rw [← List.append_assoc] at ih ⊢
      exact List.perm_middle.trans (ih.cons e)

/-- Every entry has one line, with its exports in order. -/
theorem lineEntries_perm (m : Module) : m.lineEntries.Perm (m.imports.map Entry.ordered) := by
  rw [lineEntries, groupEntries, groupEntries, groupEntries, ← List.map_append, ← List.map_append]
  exact ((groups_perm _).trans (Table.sorted_perm m.imports)).map _

theorem entry_of_line {m : Module} {l : ImportLine} (mem : l ∈ m.lineEntries.map Entry.said) :
    ∃ e ∈ m.imports, l = (Entry.ordered e).said := by
  obtain ⟨e, line, rfl⟩ := List.mem_map.1 mem
  obtain ⟨e', found, rfl⟩ := List.mem_map.1 ((lineEntries_perm m).mem_iff.1 line)
  exact ⟨e', found, rfl⟩

/-- One source is written before another: in an earlier group, or earlier in the same one. -/
def Before (s t : String) : Prop :=
  importGroup s < importGroup t ∨ importGroup s = importGroup t ∧ s < t

theorem mem_groupEntries {m : Module} {group : Nat} {e : Entry} (mem : e ∈ m.groupEntries group) :
    importGroup e.1 = group := by
  obtain ⟨e', found, rfl⟩ := List.mem_map.1 mem
  exact eq_of_beq (List.mem_filter.1 found).2

/-- The lines stand in the order of their groups and sources. -/
theorem lineEntries_before {m : Module} (distinct : (m.imports.map (·.1)).Nodup) :
    m.lineEntries.Pairwise fun e f => Before e.1 f.1 := by
  have inside (group : Nat) : (m.groupEntries group).Pairwise fun e f => Before e.1 f.1 := by
    have ascending : (m.groupEntries group).Pairwise fun e f => e.1 < f.1 :=
      List.pairwise_map.2 ((Table.sorted_ascending distinct).filter _)
    refine ascending.imp_of_mem fun e f less => .inr ⟨?_, less⟩
    rw [mem_groupEntries e, mem_groupEntries f]
  have across {e f : Entry} {group later : Nat} (less : group < later)
      (first : e ∈ m.groupEntries group) (second : f ∈ m.groupEntries later) : Before e.1 f.1 := by
    refine .inl ?_
    rwa [mem_groupEntries first, mem_groupEntries second]
  refine List.pairwise_append.2 ⟨inside 0, List.pairwise_append.2 ⟨inside 1, inside 2, ?_⟩, ?_⟩
  · exact fun e first f second => across (by decide) first second
  · intro e first f later
    obtain second | third := List.mem_append.1 later
    · exact across (by decide) first second
    · exact across (by decide) first third

/-- The lines of a module are read as its entries. -/
theorem readImports_text {m : Module} (h : ∀ e : Entry, e ∈ m.imports → e.Named)
    (name : Option String) :
    readImports (m.text name) =
      some ((m.libraryEntry :: (m.lineEntries ++ m.stylesheetEntries)).map Entry.said) := by
  have named : ∀ e ∈ m.libraryEntry :: (m.lineEntries ++ m.stylesheetEntries), e.Named := by
    intro e mem
    obtain rfl | mem := List.mem_cons.1 mem
    · exact named_libraryEntry m
    · obtain line | sheet := List.mem_append.1 mem
      · obtain ⟨e', found, rfl⟩ := List.mem_map.1 ((lineEntries_perm m).mem_iff.1 line)
        exact (h e' found).ordered
      · exact named_stylesheetEntries m e sheet
  have texts : importTexts (m.text name) = m.importBlocks.flatten.flatMap importTexts := by
    rw [text, importTexts_blankLine, importTexts_functionComponent (isName_toIdentifier _),
      List.append_nil, importTexts_header]
  rw [readImports, texts, importBlocks_flatten]
  exact Entry.readImports_lines named

/-- Where all bindings are by identifiers, the entries that hold them are. -/
theorem named_of_bound {m : Module} (bindings : m.entryBindings ⊆ m.bound)
    (names : ∀ b ∈ m.bound, NamesOnly (b.1.2, b.2)) {e : Entry} (mem : e ∈ m.imports) : e.Named := by
  have bound {b : String × String} (inside : b ∈ e.2.bindings) : NamesOnly b :=
    names ((e.1, b.1), b.2) (bindings (List.mem_flatMap.2 ⟨e, mem, List.mem_map_of_mem inside⟩))
  constructor
  · intro d main
    exact (@bound (defaultExport, d) (by simp [ImportEntry.bindings, Option.mem_def.1 main])).2
  · intro b named
    exact bound (by simp [ImportEntry.bindings, named])

namespace Tied

variable {m : Module} (h : Tied m)
include h

/-- The lines make exactly the bindings of the module, each once. -/
theorem lines_bindings :
    ((m.lineEntries.map Entry.said).flatMap ImportLine.bindings).Perm m.bound := by
  rw [List.flatMap_map]
  refine ((lineEntries_perm m).flatMap_right _).trans ?_
  rw [List.flatMap_map]
  refine (List.Perm.flatMap_left m.imports fun e _ => ?_).trans h.bindings
  rw [Entry.said_bindings]
  exact Entry.ordered_bindings e

theorem mem_bound {b : (String × String) × String} :
    b ∈ m.bound ↔ ∃ e ∈ m.imports, e.1 = b.1.1 ∧ (b.1.2, b.2) ∈ e.2.bindings := by
  rw [← h.bindings.mem_iff, entryBindings, List.mem_flatMap]
  refine exists_congr fun e => and_congr_right fun _ => ?_
  rw [List.mem_map]
  constructor
  · rintro ⟨x, mem, rfl⟩
    exact ⟨rfl, mem⟩
  · rintro ⟨source, mem⟩
    exact ⟨_, mem, by rw [source]⟩

/-- There is a line for each source that something is bound from. -/
theorem mem_lines {s : String} :
    s ∈ (m.lineEntries.map Entry.said).map (·.source) ↔ ∃ b ∈ m.bound, b.1.1 = s := by
  have sources : ((m.lineEntries.map Entry.said).map (·.source)).Perm (m.imports.map (·.1)) := by
    rw [List.map_map]
    refine ((lineEntries_perm m).map _).trans ?_
    rw [List.map_map]
    exact .refl _
  rw [sources.mem_iff, List.mem_map]
  constructor
  · rintro ⟨e, mem, rfl⟩
    obtain ⟨b, inside⟩ := List.exists_mem_of_ne_nil _ (h.given e mem)
    exact ⟨((e.1, b.1), b.2), h.mem_bound.2 ⟨e, mem, rfl, inside⟩, rfl⟩
  · rintro ⟨b, mem, rfl⟩
    obtain ⟨e, found, source, -⟩ := h.mem_bound.1 mem
    exact ⟨e, found, source⟩

theorem named (e : Entry) (mem : e ∈ m.imports) : e.Named :=
  named_of_bound (fun _ => h.bindings.mem_iff.1) h.names mem

end Tied

end Module

end Pagesmith
