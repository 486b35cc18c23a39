import Mathlib.Data.List.Forall2
import Mathlib.Data.List.TakeWhile
import Pagesmith.Delivery.Archive
import Pagesmith.Proofs.Text.Line

/-!
Paths that are delivered stay inside the project. A path is divided at its slashes, where empty pieces and
single dots do not count; it is accepted by what is left, and what an archive holds lies below the folder of
the project.
-/

namespace Pagesmith.Delivery
open Text

/-- A piece of a path, as far as it counts: an empty one and a single dot do not. -/
def counted (piece : Loose) : List Loose :=
  if piece = [] ∨ piece = "." then [] else [piece]

/-- The parts of a path: those of its pieces between slashes that count. -/
inductive Divides : Loose → List Loose → Prop
  | last {s : Loose} (whole : .char '/' ∉ s) : Divides s (counted s)
  | more {s r : Loose} {parts : List Loose} (whole : .char '/' ∉ s) (rest : Divides r parts) :
      Divides (s ++ .char '/' :: r) (counted s ++ parts)

/-- The text is the name of one folder or file inside another. -/
structure IsInner (s : Loose) : Prop where
  whole : .char '/' ∉ s
  counts : s ≠ [] ∧ s ≠ "."
  down : s ≠ ".."

section Parts

theorem parts_eq (path : Loose) : parts path = (pieces (.char '/') path).flatMap counted := by
  rw [parts]
  induction pieces (Letter.char '/') path with
  | nil => rfl
  | cons piece r ih =>
    rw [List.filter_cons, ih, List.flatMap_cons, counted]
    by_cases none : piece = [] ∨ piece = Loose.ofString "."
    · rw [if_pos none, if_neg (by rcases none with rfl | rfl <;> decide)]
      rfl
    · rw [if_neg none, if_pos (by simpa using none)]
      rfl

theorem divides_pieces {ls : List Loose} (given : ls ≠ []) (whole : ∀ l ∈ ls, .char '/' ∉ l) :
    Divides (joinParts ls) (ls.flatMap counted) := by
  rw [joinParts]
  induction ls with
  | nil => exact absurd rfl given
  | cons l r ih =>
    obtain ⟨first, rest⟩ := List.forall_mem_cons.1 whole
    cases r with
    | nil => simpa using Divides.last first
    | cons l' r =>
      have more := Divides.more first (ih (by simp) rest)
      simpa [List.intercalate_cons_cons] using more

/-- A path has one division into parts. -/
theorem divides_iff {path : Loose} {given : List Loose} : Divides path given ↔ parts path = given := by
  rw [parts_eq]
  constructor
  · intro divides
    induction divides with
    | last whole => simp [pieces_whole whole]
    | more whole _ ih => rw [pieces_append, pieces_whole whole, List.flatMap_append, ih, List.flatMap_singleton]
  · rintro rfl
    have divides := divides_pieces (pieces_ne_nil (.char '/') path) fun l mem => (mem_pieces mem).1
    rwa [joinParts, intercalate_pieces] at divides

theorem mem_parts {path s : Loose} (mem : s ∈ parts path) : .char '/' ∉ s ∧ (s ≠ [] ∧ s ≠ ".") ∧ s ⊆ path := by
  obtain ⟨there, counts⟩ := List.mem_filter.1 mem
  obtain ⟨whole, inside⟩ := mem_pieces there
  exact ⟨whole, by simpa using counts, inside⟩

/-- Every letter that is no slash and no dot stands in one of the parts. -/
theorem exists_parts {path : Loose} {x : Letter} (noSlash : x ≠ .char '/') (noDot : x ≠ .char '.') (mem : x ∈ path) :
    ∃ s ∈ parts path, x ∈ s := by
  rw [← intercalate_pieces (.char '/') path] at mem
  obtain same | ⟨piece, there, inside⟩ := mem_joined mem
  · exact absurd same noSlash
  · refine ⟨piece, List.mem_filter.2 ⟨there, ?_⟩, inside⟩
    have given : piece ≠ [] := List.ne_nil_of_mem inside
    have single : piece ≠ Loose.ofString "." := by
      rintro rfl
      exact noDot (List.mem_singleton.1 inside)
    simpa using ⟨given, single⟩

theorem mem_joinParts {x : Letter} (noSlash : x ≠ .char '/') {ps : List Loose} :
    x ∈ joinParts ps ↔ ∃ s ∈ ps, x ∈ s := by
  refine ⟨fun mem => (mem_joined mem).resolve_left noSlash, ?_⟩
  rintro ⟨s, there, mem⟩
  rw [joinParts]
  induction ps with
  | nil => cases there
  | cons p r ih =>
    cases r with
    | nil =>
      obtain rfl := List.mem_singleton.1 there
      simpa using mem
    | cons p' r =>
      rw [List.intercalate_cons_cons]
      obtain rfl | there := List.mem_cons.1 there
      · exact List.mem_append_left _ (List.mem_append_left _ mem)
      · exact List.mem_append_right _ (ih there)

/-- Parts that count, put together, are divided where they were. -/
theorem parts_join {ps : List Loose} (given : ps ≠ []) (inner : ∀ s ∈ ps, .char '/' ∉ s ∧ s ≠ [] ∧ s ≠ ".") :
    pieces (.char '/') (joinParts ps) = ps ∧ parts (joinParts ps) = ps := by
  have cut : pieces (.char '/') (joinParts ps) = ps := pieces_intercalate given fun l mem => (inner l mem).1
  refine ⟨cut, ?_⟩
  rw [parts, cut, List.filter_eq_self]
  exact fun s mem => by simpa using (inner s mem).2

end Parts

section Segments

theorem mem_ofString {c : Char} {s : String} : .char c ∈ Loose.ofString s ↔ c ∈ s.toList := by
  simp [Loose.ofString]

theorem ofString_injective : Function.Injective Loose.ofString := fun s s' same => by
  rw [← Loose.text_ofString s, same, Loose.text_ofString]

/-- The segments of a path are its parts. -/
theorem parts_ofString (path : String) : parts path = (segments path).map Loose.ofString := by
  have spelled : Loose.ofString ∘ String.ofList = List.map Letter.char :=
    funext fun cs => by simp [Loose.ofString]
  have letters : Loose.ofString path = path.toList.map .char := rfl
  rw [parts, letters, pieces_map Letter.char_injective, segments, List.filter_map, List.filter_map, List.map_map, spelled]
  refine congrArg (List.map _) (List.filter_congr fun cs _ => ?_)
  rw [Bool.eq_iff_iff]
  simp [← String.toList_inj, Loose.ofString, Letter.char_injective.eq_iff]

theorem text_parts (path : String) : (parts path).map Loose.text = segments path := by
  simp [parts_ofString, Function.comp_def]

theorem mem_segments {path s : String} (mem : s ∈ segments path) : s.toList ⊆ path.toList := by
  have there : Loose.ofString s ∈ parts path := by
    rw [parts_ofString]
    exact List.mem_map_of_mem mem
  intro c inside
  exact mem_ofString.1 ((mem_parts there).2.2 (mem_ofString.2 inside))

theorem joinParts_ofString (ps : List String) : joinParts (ps.map Loose.ofString) = joinSegments ps := by
  rw [joinParts, joinSegments]
  induction ps with
  | nil => rfl
  | cons s r ih =>
    cases r with
    | nil => simp
    | cons s' r =>
      rw [List.map_cons, List.map_cons, List.intercalate_cons_cons, ← List.map_cons, ih, String.intercalate_cons_cons]
      simp [Loose.ofString]

end Segments

section Checked

variable {path : Loose} {given : List Loose}

theorem checkedPath_eq_ok : checkedPath path = .ok given ↔
    path.head? ≠ some (.char '/') ∧ parts path = given ∧ Loose.ofString ".." ∉ given ∧ given ≠ [] := by
  rw [checkedPath]
  split
  · next bad =>
    constructor
    · rintro ⟨⟩
    · rintro ⟨relative, rfl, down, some⟩
      simp [relative, down, some] at bad
  · next good =>
    have good : path.head? ≠ some (.char '/') ∧ Loose.ofString ".." ∉ parts path ∧ parts path ≠ [] := by
      simpa [and_assoc] using good
    constructor
    · rintro ⟨⟩
      exact ⟨good.1, rfl, good.2⟩
    · rintro ⟨-, rfl, -⟩
      rfl

theorem isInner_checked (ok : checkedPath path = .ok given) : ∀ s ∈ given, IsInner s := by
  obtain ⟨-, rfl, down, -⟩ := checkedPath_eq_ok.1 ok
  intro s mem
  obtain ⟨whole, counts, -⟩ := mem_parts mem
  exact ⟨whole, counts, fun same => down (same ▸ mem)⟩

/-- Parts one inside the other are a path that is accepted. -/
theorem checkedPath_join (some : given ≠ []) (inner : ∀ s ∈ given, IsInner s) :
    checkedPath (joinParts given) = .ok given := by
  obtain ⟨cut, same⟩ := parts_join some fun s mem => ⟨(inner s mem).whole, (inner s mem).counts⟩
  refine checkedPath_eq_ok.2 ⟨?_, same, fun mem => (inner _ mem).down rfl, some⟩
  intro start
  obtain ⟨s, r, rfl⟩ := List.exists_cons_of_ne_nil some
  obtain ⟨text, behind⟩ := List.head?_eq_some_iff.1 start
  -- A slash in front would be behind an empty piece, but the first part is not empty.
  rw [behind, pieces, if_pos (by rfl)] at cut
  have empty := (List.cons.inj cut).1
  exact (inner s List.mem_cons_self).counts.1 empty.symm

theorem checkedName_eq_ok {name given : Loose} : checkedName name = .ok given ↔
    given = name ∧ IsInner name ∧ .char '\\' ∉ name := by
  rw [checkedName]
  split
  · next bad =>
    constructor
    · rintro ⟨⟩
    · rintro ⟨rfl, ⟨whole, counts, down⟩, plain⟩
      simp [counts, down, whole, plain] at bad
  · next good =>
    have good : ((name ≠ [] ∧ name ≠ Loose.ofString "." ∧ name ≠ Loose.ofString "..") ∧ .char '/' ∉ name) ∧
        .char '\\' ∉ name := by
      simpa [and_assoc] using good
    constructor
    · rintro ⟨⟩
      obtain ⟨⟨⟨some, single, down⟩, whole⟩, plain⟩ := good
      exact ⟨rfl, ⟨whole, ⟨some, single⟩, down⟩, plain⟩
    · rintro ⟨rfl, -⟩
      rfl

end Checked

section Octets

theorem length_octets (s : String) : (octets s).length = s.utf8ByteSize := by
  rw [← String.size_toByteArray, ← String.utf8Encode_toList, List.utf8Encode, List.size_toByteArray, octets]

end Octets

/-- The text has no character with number zero. -/
def NulFree (t : Loose) : Prop := .char (Char.ofNat 0) ∉ t

instance (t : Loose) : Decidable (NulFree t) := inferInstanceAs (Decidable (_ ∉ _))

theorem nulFree_segments {path s : String} (free : NulFree path) (mem : s ∈ segments path) : NulFree s :=
  fun nul => free (mem_ofString.2 (mem_segments mem (mem_ofString.1 nul)))

/-- The path of a file stays inside the project. -/
def Accepted (f : Consignment) : Prop := checkedPath f.path = .ok (parts f.path)

instance (f : Consignment) : Decidable (Accepted f) := inferInstanceAs (Decidable (_ = _))

/-- Where a file is in the archive of a project: under its path in the folder of the project. -/
def entryName (name : Loose) (f : Consignment) : Loose := name ++ .char '/' :: joinParts (parts f.path)

/-- A file in the archive of a project. -/
def entry (name : Loose) (f : Consignment) : Item := ⟨(entryName name f).text, octets f.content.text⟩

/-- The name of a file is too long for an archive. -/
def Overlong (name : Loose) (f : Consignment) : Prop :=
  itemNameLimit < (octets (entryName name f).text).length

/-- The archive of a project cannot hold the file under its name: a half of a character stands alone in its content
or in the name, or the name is too long. -/
def Unpackable (name : Loose) (f : Consignment) : Prop :=
  f.content.isBroken = true ∨ (entryName name f).isBroken = true ∨ Overlong name f

instance (name : Loose) (f : Consignment) : Decidable (Overlong name f) := inferInstanceAs (Decidable (_ < _))

instance (name : Loose) (f : Consignment) : Decidable (Unpackable name f) := inferInstanceAs (Decidable (_ ∨ _))

section Items

variable {name : Loose} {f : Consignment}

/-- A path is accepted, or it is a fault of the delivery. -/
theorem accepted_or (f : Consignment) : Accepted f ∨ checkedPath f.path = .error (.outsideProject f.path) := by
  rw [Accepted, checkedPath]
  split
  · exact .inr rfl
  · exact .inl rfl

theorem Accepted.given (accepted : Accepted f) : parts f.path ≠ [] := (checkedPath_eq_ok.1 accepted).2.2.2

theorem Accepted.name_eq (accepted : Accepted f) (name : Loose) :
    entryName name f = joinParts (name :: parts f.path) := by
  obtain ⟨s, r, same⟩ := List.exists_cons_of_ne_nil accepted.given
  rw [entryName, joinParts, joinParts, same, List.intercalate_cons_cons, List.append_assoc, List.singleton_append]

/-- What an archive holds is in the folder of the project, however deep. -/
theorem Accepted.pieces_name (accepted : Accepted f) (inner : IsInner name) :
    pieces (.char '/') (entryName name f) = name :: parts f.path ∧
      parts (entryName name f) = name :: parts f.path := by
  rw [accepted.name_eq]
  refine parts_join (by simp) (List.forall_mem_cons.2 ⟨⟨inner.whole, inner.counts⟩, fun s mem => ?_⟩)
  have holds := isInner_checked accepted s mem
  exact ⟨holds.whole, holds.counts⟩

theorem nulFree_entry (nameFree : NulFree name) (pathFree : NulFree f.path) : NulFree (entryName name f) := by
  intro mem
  obtain mem | mem := List.mem_append.1 mem
  · exact nameFree mem
  obtain same | mem := List.mem_cons.1 mem
  · exact absurd same (by decide)
  obtain ⟨s, there, mem⟩ := (mem_joinParts (by decide)).1 mem
  exact pathFree ((mem_parts there).2.2 mem)

/-- A file whose path is accepted is taken under its name in the project's folder, or it cannot be in an archive. -/
theorem item_cases (nameFree : NulFree name) (pathFree : NulFree f.path) (accepted : Accepted f) :
    item name f = .ok (entry name f) ∧ ¬ Unpackable name f ∨
      ∃ e, item name f = .error e ∧ e.code = none ∧ Unpackable name f := by
  have uncut : itemName (name ++ .char '/' :: joinParts (parts f.path)) = entryName name f := by
    refine List.takeWhile_eq_self_iff.2 fun x mem => bne_iff_ne.2 fun same => ?_
    exact nulFree_entry nameFree pathFree (same ▸ mem)
  have encodes (t : Loose) : encoded t = .ok (octets t.text) ∧ t.isBroken = false ∨
      ∃ cause, encoded t = .error (.unencodable cause) ∧ t.isBroken = true := by
    rw [encoded]
    cases whole : t.isBroken with
    | false =>
      rw [Loose.octets?_eq_ok.2 ⟨whole, rfl⟩]
      exact .inl ⟨rfl, rfl⟩
    | true =>
      cases failed : t.octets? with
      | error cause => exact .inr ⟨cause, rfl, rfl⟩
      | ok bs => cases whole.symm.trans (Loose.octets?_eq_ok.1 failed).1
  have steps : item name f = encoded f.content >>= fun octets => encoded (entryName name f) >>= fun pathOctets =>
      if itemNameLimit < pathOctets.length then .error .longItemName else .ok ⟨(entryName name f).text, octets⟩ := by
    rw [item, accepted, ← uncut]
    rfl
  rw [steps]
  obtain ⟨content, whole⟩ | ⟨cause, content, broken⟩ := encodes f.content
  case inr =>
    rw [content]
    exact .inr ⟨_, rfl, rfl, .inl broken⟩
  obtain ⟨path, whole'⟩ | ⟨cause, path, broken⟩ := encodes (entryName name f)
  case inr =>
    rw [content, path]
    exact .inr ⟨_, rfl, rfl, .inr (.inl broken)⟩
  have sized : (encoded f.content >>= fun octets => encoded (entryName name f) >>= fun pathOctets =>
      if itemNameLimit < pathOctets.length then .error .longItemName else .ok ⟨(entryName name f).text, octets⟩) =
        if Overlong name f then .error .longItemName else .ok (entry name f) := by
    rw [content, path]
    rfl
  rw [sized]
  by_cases long : Overlong name f
  · rw [if_pos long]
    exact .inr ⟨.longItemName, rfl, rfl, .inr (.inr long)⟩
  · rw [if_neg long]
    exact .inl ⟨rfl, by simp [Unpackable, whole, whole', long]⟩

/-- The first file keeps an archive from being made if no archive can hold it. -/
theorem archive_unpackable (nameFree : NulFree name) (pathFree : NulFree f.path) (named : checkedName name = .ok name)
    (accepted : Accepted f) (unpackable : Unpackable name f) (r : List Consignment) :
    ∃ e, archive (f :: r) name = .error e ∧ e.code = none := by
  obtain ⟨-, packable⟩ | ⟨e, failed, uncoded, -⟩ := item_cases nameFree pathFree accepted
  · exact absurd unpackable packable
  · refine ⟨e, ?_, uncoded⟩
    rw [archive, named]
    change items name (f :: r) = _
    rw [items, failed]
    rfl

/-- What becomes of the files of an archive: all of them are taken, or the first that is not gives the
reason. -/
theorem items_cases {files : List Consignment} (nameFree : NulFree name) (filesFree : ∀ f ∈ files, NulFree f.path) :
    (items name files = .ok (files.map (entry name)) ∧ ∀ f ∈ files, Accepted f ∧ ¬ Unpackable name f) ∨
    ∃ e before f after, items name files = .error e ∧ files = before ++ f :: after ∧
      (∀ g ∈ before, Accepted g ∧ ¬ Unpackable name g) ∧
      (e = .outsideProject f.path ∧ ¬ Accepted f ∨ e.code = none ∧ Accepted f ∧ Unpackable name f) := by
  induction files with
  | nil => exact .inl ⟨rfl, by simp⟩
  | cons f r ih =>
    obtain ⟨here, others⟩ := List.forall_mem_cons.1 filesFree
    rw [items]
    obtain accepted | rejected := accepted_or f
    · obtain ⟨taken, packable⟩ | ⟨e, failed, uncoded, unpackable⟩ := item_cases nameFree here accepted
      · rw [taken]
        obtain ⟨taken, all⟩ | ⟨e, before, g, after, failed, rfl, taken, reason⟩ := ih others
        · rw [taken]
          exact .inl ⟨rfl, List.forall_mem_cons.2 ⟨⟨accepted, packable⟩, all⟩⟩
        · rw [failed]
          have taken' := List.forall_mem_cons.2 ⟨⟨accepted, packable⟩, taken⟩
          exact .inr ⟨e, f :: before, g, after, rfl, rfl, taken', reason⟩
      · rw [failed]
        exact .inr ⟨e, [], f, r, rfl, rfl, by simp, .inr ⟨uncoded, accepted, unpackable⟩⟩
    · rw [item, rejected]
      refine .inr ⟨_, [], f, r, rfl, rfl, by simp, .inl ⟨rfl, fun accepted => ?_⟩⟩
      cases accepted.symm.trans rejected

end Items

/-- What becomes of an archive: it holds all files under their names, or there is none, for the project name
or for the first file that cannot be taken. -/
theorem archive_cases {name : Loose} {files : List Consignment} (nameFree : NulFree name)
    (filesFree : ∀ f ∈ files, NulFree f.path) :
    (archive files name = .ok (files.map (entry name)) ∧ checkedName name = .ok name ∧
      ∀ f ∈ files, Accepted f ∧ ¬ Unpackable name f) ∨
    (archive files name = .error (.projectName name) ∧ checkedName name ≠ .ok name) ∨
    checkedName name = .ok name ∧
      ∃ e before f after, archive files name = .error e ∧ files = before ++ f :: after ∧
        (∀ g ∈ before, Accepted g ∧ ¬ Unpackable name g) ∧
        (e = .outsideProject f.path ∧ ¬ Accepted f ∨ e.code = none ∧ Accepted f ∧ Unpackable name f) := by
  rw [archive, checkedName]
  split
  · exact .inr (.inl ⟨rfl, fun failed => (nomatch failed)⟩)
  · obtain ⟨taken, all⟩ | failed := items_cases nameFree filesFree
    · exact .inl ⟨taken, rfl, all⟩
    · exact .inr (.inr ⟨rfl, failed⟩)

/-- There is an archive if its name and all paths are accepted and it can hold all files. -/
theorem archive_eq_ok {name : Loose} {files : List Consignment} {is : List Item} (nameFree : NulFree name)
    (filesFree : ∀ f ∈ files, NulFree f.path) : archive files name = .ok is ↔
      is = files.map (entry name) ∧ checkedName name = .ok name ∧
        ∀ f ∈ files, Accepted f ∧ ¬ Unpackable name f := by
  obtain ⟨made, named, all⟩ | ⟨failed, rejected⟩ | ⟨-, e, before, f, after, failed, rfl, -, reason⟩ :=
    archive_cases nameFree filesFree
  · rw [made]
    constructor
    · rintro ⟨⟩
      exact ⟨rfl, named, all⟩
    · rintro ⟨rfl, -⟩
      rfl
  · rw [failed]
    refine ⟨fun ok => (nomatch ok), ?_⟩
    rintro ⟨-, named, -⟩
    exact absurd named rejected
  · rw [failed]
    refine ⟨fun ok => (nomatch ok), ?_⟩
    rintro ⟨-, -, all⟩
    obtain ⟨accepted, packable⟩ := all f (by simp)
    obtain ⟨-, rejected⟩ | ⟨-, -, unpackable⟩ := reason
    · exact absurd accepted rejected
    · exact absurd unpackable packable

/-- A path is accepted by what it is divided into, and what is accepted stands for itself. -/
theorem checkedPath_divides (path : Loose) : ∃ parts, Divides path parts ∧
    ((∃ given, checkedPath path = .ok given) ↔
      path.head? ≠ some (.char '/') ∧ parts ≠ [] ∧ Loose.ofString ".." ∉ parts) ∧
    ∀ given, checkedPath path = .ok given → given = parts ∧
      (∀ l ∈ pieces (.char '/') (joinParts given), l ≠ [] ∧ l ≠ "." ∧ l ≠ "..") ∧
      checkedPath (joinParts given) = .ok given := by
  refine ⟨parts path, divides_iff.2 rfl, ?_, fun given ok => ?_⟩
  · constructor
    · rintro ⟨given, ok⟩
      obtain ⟨relative, rfl, down, some⟩ := checkedPath_eq_ok.1 ok
      exact ⟨relative, some, down⟩
    · rintro ⟨relative, some, down⟩
      exact ⟨_, checkedPath_eq_ok.2 ⟨relative, rfl, down, some⟩⟩
  · have inner := isInner_checked ok
    obtain ⟨-, rfl, -, some⟩ := checkedPath_eq_ok.1 ok
    refine ⟨rfl, ?_, checkedPath_join some inner⟩
    rw [(parts_join some fun s mem => ⟨(inner s mem).whole, (inner s mem).counts⟩).1]
    intro s there
    obtain ⟨-, ⟨given, single⟩, down⟩ := inner s there
    exact ⟨given, single, down⟩

/-- Paths that are delivered stay inside the project. A path is accepted exactly if it does not start at the
root and has parts, none of which leads upwards; it is then given by parts that stand for themselves. An archive
holds each file below the folder of the project, and if the name or a path is rejected, there is none; the fault is
one of the delivery, unless a file that no archive can hold comes first. -/
theorem archive_stays_inside {name : Loose} {files : List Consignment} (nameFree : NulFree name)
    (filesFree : ∀ f ∈ files, NulFree f.path) :
    (∀ path : Loose, ∃ parts, Divides path parts ∧
      ((∃ given, checkedPath path = .ok given) ↔
        path.head? ≠ some (.char '/') ∧ parts ≠ [] ∧ Loose.ofString ".." ∉ parts) ∧
      ∀ given, checkedPath path = .ok given → given = parts ∧
        (∀ l ∈ pieces (.char '/') (joinParts given), l ≠ [] ∧ l ≠ "." ∧ l ≠ "..") ∧
        checkedPath (joinParts given) = .ok given) ∧
    (∀ is, archive files name = .ok is ↔ is = files.map (entry name) ∧ checkedName name = .ok name ∧
      ∀ f ∈ files, Accepted f ∧ ¬ Unpackable name f) ∧
    (checkedName name = .ok name → ∀ f ∈ files, ∀ i, item name f = .ok i →
      pieces (.char '/') i.name = name :: parts f.path ∧ Loose.ofString ".." ∉ pieces (.char '/') i.name) ∧
    (checkedName name ≠ .ok name ∨ (∃ f ∈ files, ¬ Accepted f) → ∃ e, archive files name = .error e ∧
      (e.code = some "PUBLISH_FAILED" ∨ checkedName name = .ok name ∧
        ∃ before f after, files = before ++ f :: after ∧ (∀ g ∈ before, Accepted g) ∧ Accepted f ∧
          Unpackable name f)) := by
  refine ⟨checkedPath_divides, fun is => archive_eq_ok nameFree filesFree, fun named f mem i taken => ?_,
    fun rejected => ?_⟩
  · obtain ⟨-, inner, -⟩ := checkedName_eq_ok.1 named
    obtain accepted | rejected := accepted_or f
    case inr =>
      rw [item, rejected] at taken
      cases taken
    obtain ⟨same, packable⟩ | ⟨e, failed, -⟩ := item_cases nameFree (filesFree f mem) accepted
    case inr => cases failed.symm.trans taken
    cases same.symm.trans taken
    have whole : (entryName name f).isBroken = false := by
      rw [← Bool.not_eq_true]
      exact fun broken => packable (.inr (.inl broken))
    rw [entry, Loose.ofString_text whole, (accepted.pieces_name inner).1]
    refine ⟨rfl, fun upwards => ?_⟩
    have isInner : IsInner ".." := by
      obtain same | there := List.mem_cons.1 upwards
      · exact same ▸ inner
      · exact isInner_checked accepted _ there
    exact isInner.down rfl
  · obtain ⟨-, named, all⟩ | ⟨failed, -⟩ | ⟨named, e, before, f, after, failed, rfl, taken, reason⟩ :=
      archive_cases nameFree filesFree
    · obtain other | ⟨f, mem, other⟩ := rejected
      · exact absurd named other
      · exact absurd (all f mem).1 other
    · exact ⟨_, failed, .inl rfl⟩
    · refine ⟨e, failed, ?_⟩
      obtain ⟨rfl, -⟩ | ⟨-, accepted, unpackable⟩ := reason
      · exact .inl rfl
      · exact .inr ⟨named, before, f, after, rfl, fun g mem => (taken g mem).1, accepted, unpackable⟩

/-- Files whose paths hold what does not count, and dots that do. -/
def dottedFiles : List Consignment := [⟨"src//./main.tsx", ""⟩, ⟨"./.../..a", ""⟩]

theorem dottedFiles_archived : NulFree "app" ∧ (∀ f ∈ dottedFiles, NulFree f.path) ∧
    archive dottedFiles "app" = .ok (dottedFiles.map (entry "app")) ∧
    (dottedFiles.map (entry "app")).map Item.name = ["app/src/main.tsx", "app/.../..a"] := by
  have nameFree : NulFree "app" := by decide
  have filesFree : ∀ f ∈ dottedFiles, NulFree f.path := by decide
  have taken : ∀ f ∈ dottedFiles, Accepted f ∧ ¬ Unpackable "app" f := by decide
  obtain ⟨-, holds, -, -⟩ := archive_stays_inside nameFree filesFree
  exact ⟨nameFree, filesFree, (holds _).2 ⟨rfl, by decide, taken⟩, by decide⟩

/-- A name of one letter, so many times. -/
def longName (length : Nat) : String := String.ofList (List.replicate length 'a')

section Long

variable {n : Nat}

theorem mem_longName {c : Char} (mem : c ∈ (longName n).toList) : c = 'a' := by
  rw [longName, String.toList_ofList] at mem
  exact (List.mem_replicate.1 mem).2

theorem size_longName (n : Nat) : (longName n).utf8ByteSize = n := by
  rw [← length_octets, octets, longName, String.toList_ofList, List.length_flatMap, List.map_replicate,
    List.sum_replicate_nat]
  exact Nat.mul_one n

theorem nulFree_longName (n : Nat) : NulFree (longName n) :=
  fun mem => absurd (mem_longName (mem_ofString.1 mem)) (by decide)

theorem isInner_longName (long : 2 < n) : IsInner (longName n) := by
  have length : (Loose.ofString (longName n)).length = n := by
    rw [Loose.ofString, List.length_map, longName, String.toList_ofList, List.length_replicate]
  have other {s : Loose} (short : s.length ≤ 2) : Loose.ofString (longName n) ≠ s := by
    rintro rfl
    exact absurd (length ▸ short) (Nat.not_le.2 long)
  exact ⟨fun mem => absurd (mem_longName (mem_ofString.1 mem)) (by decide), ⟨other (by decide), other (by decide)⟩,
    other (by decide)⟩

theorem checkedPath_longName (long : 2 < n) : checkedPath (longName n) = .ok [Loose.ofString (longName n)] := by
  have single : ∀ s ∈ [Loose.ofString (longName n)], IsInner s := by simpa using isInner_longName long
  simpa [joinParts] using checkedPath_join (by simp) single

theorem parts_longName (long : 2 < n) : parts (longName n) = [Loose.ofString (longName n)] :=
  (checkedPath_eq_ok.1 (checkedPath_longName long)).2.1

theorem accepted_longName (long : 2 < n) (content : Loose) : Accepted ⟨longName n, content⟩ :=
  (checkedPath_longName long).trans (congrArg Except.ok (parts_longName long).symm)

theorem entryName_longName (long : 2 < n) (content : Loose) :
    entryName "app" ⟨longName n, content⟩ = Loose.ofString ("app" ++ "/" ++ longName n) := by
  rw [entryName, parts_longName long, joinParts, List.intercalate_singleton]
  simp [Loose.ofString]

theorem overlong_longName (long : 2 < n) (content : Loose) :
    Overlong "app" ⟨longName n, content⟩ ↔ itemNameLimit < n + 4 := by
  have folder : ("app" ++ "/").utf8ByteSize = 4 := by decide
  rw [Overlong, entryName_longName long, Loose.text_ofString, length_octets, String.utf8ByteSize_append, folder,
    size_longName, Nat.add_comm]

theorem archive_longName (long : itemNameLimit < n) (content : Loose) (r : List Consignment) :
    ∃ e, archive (⟨longName n, content⟩ :: r) "app" = .error e ∧ e.code = none := by
  have some : 2 < n := Nat.lt_trans (by decide) long
  refine archive_unpackable (by decide) (nulFree_longName n) (by decide) (accepted_longName some content) ?_ r
  exact .inr (.inr ((overlong_longName some content).2 (Nat.lt_add_right 4 long)))

end Long

/-- A file behind one that no archive can hold is rejected, but that is not the fault. The other one has too long a
name, or half of a character for its content. -/
theorem longName_before_rejected : NulFree "app" ∧ checkedName "app" = .ok "app" ∧ NulFree (longName 65536) ∧
    NulFree "a.txt" ∧ NulFree "../x" ∧ ¬ Accepted ⟨"../x", ""⟩ ∧
    (∃ e, archive [⟨longName 65536, ""⟩, ⟨"../x", ""⟩] "app" = .error e ∧ e.code = none) ∧
    ∃ e, archive [⟨"a.txt", [.half 0]⟩, ⟨"../x", ""⟩] "app" = .error e ∧ e.code = none :=
  ⟨by decide, by decide, nulFree_longName _, by decide, by decide, by decide, archive_longName (by decide) _ _,
    archive_unpackable (by decide) (by decide) (by decide) (by decide) (.inl (by decide)) _⟩

end Pagesmith.Delivery
