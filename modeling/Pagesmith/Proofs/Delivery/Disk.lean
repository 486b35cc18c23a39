import Mathlib.Algebra.GroupWithZero.Nat
import Pagesmith.Delivery.Publish
import Pagesmith.Proofs.Delivery.Archive
import Pagesmith.Proofs.Table

/-!
Files on a disk. Where a path leads down through folders, an operation on the disk does what its name says and
leaves everything else alone. From this it follows what is there after the files of a project have been written
one by one, and that it is what their archive holds.
-/

namespace Pagesmith.Delivery
open Text

variable {l : Limits}

namespace Disk

/-- The path only leads down, and its segments are not too long. -/
def Straight (l : Limits) (path : List String) : Prop := ∀ s ∈ path, s ≠ ".." ∧ l.isTooLong s = false

/-- The disk can have something at this path. -/
structure Fits (l : Limits) (path : List String) : Prop where
  straight : Straight l path
  short : l.isTooLongPath (pathText path) = false

/-- There are folders all the way down a path. -/
def Folders (d : Disk l) (path : List String) : Prop := ∀ p, p <+: path → d.entry? p = some .folder

/-- There are folders down a path, or they can be made. -/
def Clear (d : Disk l) (path : List String) : Prop :=
  ∀ p, p <+: path → d.entry? p = some .folder ∨ d.entry? p = none

/-- On the second disk there are also the folders down a path. -/
structure Makes (d d' : Disk l) (path : List String) : Prop where
  made : d'.Folders path
  rest : ∀ p, ¬ p <+: path → d'.entry? p = d.entry? p

variable {d : Disk l} {path here parent : List String} {s : String}

section Paths

theorem straight_cons {r : List String} :
    Straight l (s :: r) ↔ (s ≠ ".." ∧ l.isTooLong s = false) ∧ Straight l r := List.forall_mem_cons

theorem Straight.sub {p : List String} (straight : Straight l path) (sub : p <+: path) : Straight l p :=
  fun s mem => straight s (sub.subset mem)

/-- A path that leads nowhere upwards leads to itself. -/
theorem place_down (down : ∀ s ∈ path, s ≠ "..") : place path = path := by
  have step (at_ : List String) : path.foldl (fun at_ s => if s == ".." then at_.dropLast else at_ ++ [s]) at_ =
      at_ ++ path := by
    induction path generalizing at_ with
    | nil => simp
    | cons s r ih =>
      obtain ⟨first, rest⟩ := List.forall_mem_cons.1 down
      rw [List.foldl_cons, if_neg (by simpa using first), ih rest, List.append_assoc, List.singleton_append]
  exact step []

theorem place_straight (straight : Straight l path) : place path = path :=
  place_down fun s mem => (straight s mem).1

theorem size_joinSegments (path : List String) :
    (joinSegments path).utf8ByteSize = (path.map fun s => s.utf8ByteSize + 1).sum - 1 := by
  induction path with
  | nil => rfl
  | cons s r ih =>
    cases r with
    | nil => simp [joinSegments]
    | cons s' r =>
      have slash : "/".utf8ByteSize = 1 := by decide
      rw [joinSegments] at ih
      rw [joinSegments, String.intercalate_cons_cons, String.utf8ByteSize_append, String.utf8ByteSize_append,
        ih]
      simp only [List.map_cons, List.sum_cons]
      omega

theorem size_pathText (path : List String) :
    (octets (pathText path)).length = (joinSegments path).utf8ByteSize + 1 := by
  have slash : "/".utf8ByteSize = 1 := by decide
  rw [length_octets, pathText, String.utf8ByteSize_append, slash, Nat.add_comm]

theorem Fits.sub {p : List String} (fits : Fits l path) (sub : p <+: path) : Fits l p := by
  refine ⟨fits.straight.sub sub, ?_⟩
  obtain ⟨r, rfl⟩ := sub
  have short := fits.short
  rw [Limits.isTooLongPath] at short ⊢
  cases known : l.path with
  | none => rfl
  | some limit =>
    simp only [known, Option.any_some, size_pathText, size_joinSegments, List.map_append, List.sum_append,
      decide_eq_false_iff_not] at short ⊢
    omega

theorem prefix_snoc {p : List String} : p <+: path ++ [s] ↔ p = path ++ [s] ∨ p <+: path :=
  List.prefix_concat_iff

theorem folders_nil (d : Disk l) : d.Folders [] := by
  intro p sub
  obtain rfl := List.prefix_nil.1 sub
  rfl

theorem Folders.snoc (folders : d.Folders path) (last : d.entry? (path ++ [s]) = some .folder) :
    d.Folders (path ++ [s]) := by
  intro p sub
  obtain rfl | sub := prefix_snoc.1 sub
  · exact last
  · exact folders p sub

theorem Clear.sub {p : List String} (clear : d.Clear path) (sub : p <+: path) : d.Clear p :=
  fun q down => clear q (down.trans sub)

theorem Makes.clear {d' : Disk l} {p : List String} (makes : Makes d d' path) (clear : d.Clear p) :
    d'.Clear p := by
  intro q sub
  by_cases down : q <+: path
  · exact .inl (makes.made q down)
  · rw [makes.rest q down]
    exact clear q sub

/-- Folders farther down on the way are made after those above them. -/
theorem Makes.trans {d' d'' : Disk l} {p : List String} (makes : Makes d d' path) (sub : path <+: p)
    (more : Makes d' d'' p) : Makes d d'' p :=
  ⟨more.made, fun q other => (more.rest q other).trans (makes.rest q fun down => other (down.trans sub))⟩

theorem Folders.clear (folders : d.Folders path) : d.Clear path := fun p sub => .inl (folders p sub)

end Paths

section Find

theorem entry?_put (d : Disk l) (parent : List String) (s : String) (e : Entry) (q : List String) :
    Disk.entry? (d.put (parent ++ [s]) e) q = if q = parent ++ [s] then some e else d.entry? q := by
  cases q with
  | nil =>
    rw [if_neg (by simp)]
    rfl
  | cons s' r =>
    change (Table.insert (parent ++ [s]) e d.entries).lookup (s' :: r) = _
    rw [Table.lookup_insert]
    simp only [beq_iff_eq]
    rfl

/-- A path is walked down through the folders that are there. -/
theorem findFrom_append (here r : List String) (straight : Straight l path) (folders : d.Folders (here ++ path)) :
    d.findFrom here (path ++ r) = d.findFrom (here ++ path) r := by
  induction path generalizing here with
  | nil => rw [List.nil_append, List.append_nil]
  | cons s p ih =>
    obtain ⟨⟨down, short⟩, rest⟩ := straight_cons.1 straight
    rw [List.append_cons] at folders ⊢
    have there := folders (here ++ [s]) (List.prefix_append _ p)
    rw [List.cons_append, findFrom, if_neg (by simpa using down), short, there]
    exact ih (here ++ [s]) rest folders

/-- A path down to a folder, over folders that are there or missing: it is found, or one is missing. -/
theorem findFrom_clear (straight : Straight l path) (folders : d.Folders here) (clear : d.Clear (here ++ path)) :
    d.findFrom here path = .ok .folder ∧ d.Folders (here ++ path) ∨
      d.findFrom here path = .error .missing ∧ ¬ d.Folders (here ++ path) := by
  induction path generalizing here with
  | nil => exact .inl ⟨rfl, by rwa [List.append_nil]⟩
  | cons s r ih =>
    obtain ⟨⟨down, short⟩, rest⟩ := straight_cons.1 straight
    rw [List.append_cons] at clear ⊢
    have first : here ++ [s] <+: here ++ [s] ++ r := List.prefix_append _ r
    rw [findFrom, if_neg (by simpa using down), short]
    obtain there | missing := clear _ first
    · rw [there]
      exact ih rest (folders.snoc there) clear
    · rw [missing]
      refine .inr ⟨rfl, fun all => ?_⟩
      cases missing.symm.trans (all _ first)

theorem find_clear (fits : Fits l path) (clear : d.Clear path) :
    d.find path = .ok .folder ∧ d.Folders path ∨
      d.find path = .error ⟨.missing, path⟩ ∧ ¬ d.Folders path := by
  rw [find, fits.short]
  obtain ⟨found, all⟩ | ⟨missing, some⟩ := findFrom_clear fits.straight (folders_nil d) clear
  · rw [found]
    exact .inl ⟨rfl, all⟩
  · rw [missing]
    exact .inr ⟨rfl, some⟩

theorem hasFolder_iff (fits : Fits l path) (clear : d.Clear path) : d.hasFolder path = true ↔ d.Folders path := by
  rw [hasFolder]
  obtain ⟨found, all⟩ | ⟨missing, some⟩ := find_clear fits clear
  · rw [found]
    exact iff_of_true rfl all
  · rw [missing]
    exact iff_of_false (by simp) some

end Find

section Make

/-- Put at the end of a path, a folder is there beside those above it. -/
theorem put_makes (folders : d.Folders parent) :
    Makes d (d.put (parent ++ [s]) .folder) (parent ++ [s]) := by
  have puts := entry?_put d parent s .folder
  constructor
  · intro p sub
    rw [puts]
    split
    · rfl
    · next other => exact folders p ((prefix_snoc.1 sub).resolve_left other)
  · intro p other
    rw [puts, if_neg]
    rintro rfl
    exact other List.prefix_rfl

theorem makeMissing_makes {before : List String} (straight : Straight l path) (folders : d.Folders here)
    (clear : d.Clear (here ++ path)) :
    ∃ d', d.makeMissing here before path = (d', none) ∧ Makes d d' (here ++ path) := by
  -- On the segments still to go: down to `here` all folders are there, those made on the way included.
  induction path generalizing d here before with
  | nil => exact ⟨d, rfl, by rwa [List.append_nil], fun _ _ => rfl⟩
  | cons s r ih =>
    obtain ⟨⟨down, short⟩, rest⟩ := straight_cons.1 straight
    rw [List.append_cons] at clear ⊢
    have first : here ++ [s] <+: here ++ [s] ++ r := List.prefix_append _ r
    rw [makeMissing, if_neg (by simpa using down), short]
    obtain there | missing := clear _ first
    · rw [there]
      exact ih rest (folders.snoc there) clear
    · rw [missing]
      have next : Makes d (d.put (here ++ [s]) .folder) (here ++ [s]) := put_makes folders
      obtain ⟨d', run, all⟩ := ih rest next.made (next.clear clear)
      exact ⟨d', run, next.trans first all⟩

theorem makeFolders_makes (fits : Fits l path) (clear : d.Clear path) :
    ∃ d', d.makeFolders path = (d', none) ∧ Makes d d' path := by
  rw [makeFolders, makeFolder]
  obtain ⟨found, all⟩ | ⟨missing, some⟩ := find_clear fits clear
  · rw [found]
    dsimp only
    rw [(hasFolder_iff fits clear).2 all]
    exact ⟨d, rfl, all, fun _ _ => rfl⟩
  rw [missing]
  dsimp only
  obtain rfl | ⟨parent, s, rfl⟩ := List.eq_nil_or_concat' path
  · exact absurd (folders_nil d) some
  rw [List.dropLast_concat]
  have sub : parent <+: parent ++ [s] := List.prefix_append _ _
  cases above : d.hasFolder parent with
  | false => exact makeMissing_makes fits.straight (folders_nil d) clear
  | true =>
    rw [place_straight fits.straight]
    exact ⟨_, rfl, put_makes ((hasFolder_iff (fits.sub sub) (clear.sub sub)).1 above)⟩

/-- A file is written at a path whose folders are there, unless there is a folder in its place. -/
theorem write_puts (fits : Fits l (parent ++ [s])) (folders : d.Folders parent)
    (free : d.entry? (parent ++ [s]) ≠ some .folder) (octets : List UInt8) :
    d.write (parent ++ [s]) octets = .ok (d.put (parent ++ [s]) (.file octets)) := by
  have sub : parent <+: parent ++ [s] := List.prefix_append _ _
  have above := (hasFolder_iff (fits.sub sub) folders.clear).2 folders
  have last : s ≠ ".." ∧ l.isTooLong s = false := fits.straight s (by simp)
  have walk := findFrom_append [] [s] (fits.sub sub).straight folders
  rw [List.nil_append, findFrom, if_neg (by simpa using last.1), last.2] at walk
  rw [write, find, fits.short, place_straight fits.straight, List.dropLast_concat, above]
  cases there : d.entry? (parent ++ [s]) with
  | none =>
    rw [there] at walk
    rw [walk]
    rfl
  | some e =>
    cases e with
    | folder => exact absurd there free
    | file old =>
      rw [there] at walk
      rw [walk]
      rfl

/-- All but so many folders of a path are there, so that the others can be made. -/
def Near (d : Disk l) (path : List String) : Prop :=
  ∀ limit ∈ l.folders, d.hasFolder (path.take (path.length - limit)) = true

theorem lacksTooMany_eq_false (near : d.Near path) : d.lacksTooMany path = false := by
  rw [lacksTooMany]
  cases known : l.folders with
  | none => rfl
  | some limit =>
    rw [Option.any_some, near limit known]
    cases d.makeFolder path <;> simp

end Make

end Disk

open Disk

namespace Errand

variable {α β : Type} {d d' : Disk l} {log log' : List Notice}

theorem bind_run {errand : Errand l α} {a : α} (h : errand d log = ((.ok a, d'), log')) (next : α → Errand l β) :
    (errand >>= next) d log = next a d' log' := by
  change (ExceptT.bindCont next (errand d log).1.1 (errand d log).1.2) (errand d log).2 = _
  rw [h]
  rfl

theorem bind_fail {errand : Errand l α} {f : Fault} (h : errand d log = ((.error f, d'), log'))
    (next : α → Errand l β) : (errand >>= next) d log = ((.error f, d'), log') := by
  change (ExceptT.bindCont next (errand d log).1.1 (errand d log).1.2) (errand d log).2 = _
  rw [h]
  rfl

theorem checkPath_eq (names : List String) : checkPath names d log =
    ((if names.any (·.toList.contains (Char.ofNat 0)) then .error .nulInPath else .ok (), d), log) := by
  rw [checkPath]
  split <;> rfl

/-- What comes of making folders: unless the path could not be one, it is what comes of it on the disk. -/
theorem makeFolders_eq (cause : DiskFault → Fault) (path : List String) : makeFolders cause path d log =
    ((if path.any (·.toList.contains (Char.ofNat 0)) then (.error .nulInPath, d)
      else if d.lacksTooMany path then (.error .foldersTooDeep, d)
      else match d.makeFolders path with
        | (d', none) => (.ok (), d')
        | (d', some f) => (.error (cause f), d')), log) := by
  have checked := @checkPath_eq l d log path
  rw [makeFolders]
  split at checked
  · next nul => rw [bind_fail checked, if_pos nul]
  · next free =>
    rw [bind_run checked, if_neg free, bind_run (a := d) rfl]
    split
    · rfl
    · dsimp only
      rw [bind_run (a := d) rfl]
      rcases d.makeFolders path with ⟨d', _ | f⟩ <;> rfl

theorem write_eq (cause : DiskFault → Fault) (path : List String) (octets : List UInt8) :
    write cause path octets d log =
      ((if path.any (·.toList.contains (Char.ofNat 0)) then (.error .nulInPath, d)
        else match d.write path octets with
          | .ok d' => (.ok (), d')
          | .error f => (.error (cause f), d)), log) := by
  have checked := @checkPath_eq l d log path
  rw [write]
  split at checked
  · next nul => rw [bind_fail checked, if_pos nul]
  · next free =>
    rw [bind_run checked, if_neg free, bind_run (a := d) rfl]
    cases d.write path octets <;> rfl

theorem no_nul {names : List String} (free : ∀ s ∈ names, NulFree s) :
    ¬ names.any (·.toList.contains (Char.ofNat 0)) = true := by
  simpa [NulFree, mem_ofString] using free

theorem checkPath_run {names : List String} (free : ∀ s ∈ names, NulFree s) :
    checkPath names d log = ((.ok (), d), log) := by
  rw [checkPath_eq, if_neg (no_nul free)]

variable {path parent : List String} {s : String}

theorem makeFolders_run (cause : DiskFault → Fault) (log : List Notice) (free : ∀ s ∈ path, NulFree s)
    (fits : Fits l path) (clear : d.Clear path) (near : d.Near path) :
    ∃ d', makeFolders cause path d log = ((.ok (), d'), log) ∧ Makes d d' path := by
  obtain ⟨d', made, makes⟩ := makeFolders_makes fits clear
  refine ⟨d', ?_, makes⟩
  rw [makeFolders_eq, if_neg (no_nul free), lacksTooMany_eq_false near, if_neg Bool.false_ne_true, made]

theorem write_run (cause : DiskFault → Fault) (free : ∀ x ∈ parent ++ [s], NulFree x)
    (fits : Fits l (parent ++ [s])) (folders : d.Folders parent)
    (noFolder : d.entry? (parent ++ [s]) ≠ some .folder) (octets : List UInt8) :
    write cause (parent ++ [s]) octets d log =
      ((.ok (), d.put (parent ++ [s]) (.file octets)), log) := by
  rw [write_eq, if_neg (no_nul free), write_puts fits folders noFolder]

end Errand

/-- A file with the path at which it is written. -/
def target (root : List String) (f : OutputFile) : List String × List UInt8 :=
  (root ++ segments f.path, octets f.content)

/-- After files have been written at these paths, one after the other, there is at each of them what was written
last, there are the folders above them, and nothing else has changed. -/
structure Written (d d' : Disk l) (ts : List (List String × List UInt8)) : Prop where
  file : ∀ p octets, ts.reverse.lookup p = some octets → d'.entry? p = some (.file octets)
  folder : ∀ p, ts.reverse.lookup p = none → (∃ t ∈ ts, p <+: t.1) → d'.entry? p = some .folder
  rest : ∀ p, (∀ t ∈ ts, ¬ p <+: t.1) → d'.entry? p = d.entry? p

/-- A path does not lead to one of these or the other way round. -/
def Apart (path : List String) (ts : List (List String × List UInt8)) : Prop :=
  ∀ t ∈ ts, t.1 <+: path ∨ path <+: t.1 → t.1 = path

section Written

variable {d d' : Disk l} {ts : List (List String × List UInt8)} {parent p : List String} {s : String}

theorem mem_of_lookup_reverse {octets : List UInt8} (found : ts.reverse.lookup p = some octets) :
    (p, octets) ∈ ts := List.mem_reverse.1 (Table.mem_of_lookup found)

theorem Apart.lookup (apart : Apart (parent ++ [s]) ts) (sub : p <+: parent) : ts.reverse.lookup p = none := by
  cases found : ts.reverse.lookup p with
  | none => rfl
  | some octets =>
    have same := apart _ (mem_of_lookup_reverse found) (.inl (sub.trans (List.prefix_append _ _)))
    have length := sub.length_le
    rw [show p = parent ++ [s] from same, List.length_append, List.length_singleton] at length
    omega

/-- The folders above the next file stay as they were before, or have been made. -/
theorem Written.entry (written : Written d d' ts) (apart : Apart (parent ++ [s]) ts) (sub : p <+: parent) :
    d'.entry? p = some .folder ∨ d'.entry? p = d.entry? p := by
  by_cases above : ∃ t ∈ ts, p <+: t.1
  · exact .inl (written.folder p (apart.lookup sub) above)
  · exact .inr (written.rest p fun t mem down => above ⟨t, mem, down⟩)

theorem Written.clear (written : Written d d' ts) (apart : Apart (parent ++ [s]) ts) (clear : d.Clear parent) :
    d'.Clear parent := by
  intro p sub
  obtain made | same := written.entry apart sub
  · exact .inl made
  · rw [same]
    exact clear p sub

theorem Written.folders (written : Written d d' ts) (apart : Apart (parent ++ [s]) ts) {q : List String}
    (sub : q <+: parent) (folders : d.Folders q) : d'.Folders q := by
  intro p down
  obtain made | same := written.entry apart (down.trans sub)
  · exact made
  · rw [same]
    exact folders p down

theorem Written.near (written : Written d d' ts) (apart : Apart (parent ++ [s]) ts)
    (fits : Fits l (parent ++ [s])) (clear : d.Clear parent) (near : d.Near parent) : d'.Near parent := by
  intro limit known
  have up : parent.take (parent.length - limit) <+: parent := List.take_prefix _ _
  have fits' := fits.sub (up.trans (List.prefix_append _ _))
  have there := (hasFolder_iff fits' (clear.sub up)).1 (near limit known)
  exact (hasFolder_iff fits' ((written.clear apart clear).sub up)).2 (written.folders apart up there)

/-- In the place of the next file there is a file, or what was there before. -/
theorem Written.free (written : Written d d' ts) (apart : Apart (parent ++ [s]) ts)
    (empty : d.entry? (parent ++ [s]) = none) : d'.entry? (parent ++ [s]) ≠ some .folder := by
  cases found : ts.reverse.lookup (parent ++ [s]) with
  | some octets =>
    rw [written.file _ octets found]
    exact fun same => (nomatch same)
  | none =>
    have other : ∀ t ∈ ts, ¬ parent ++ [s] <+: t.1 := by
      intro t mem down
      have same := apart t mem (.inr down)
      have noFile := List.lookup_eq_none_iff.1 found t (List.mem_reverse.2 mem)
      simp [same] at noFile
    rw [written.rest _ other, empty]
    exact fun same => (nomatch same)

theorem Written.file_iff (written : Written d d' ts) (noFile : ∀ content, d.entry? p ≠ some (.file content))
    (content : List UInt8) : d'.entry? p = some (.file content) ↔ ts.reverse.lookup p = some content := by
  refine ⟨fun there => ?_, written.file p content⟩
  cases found : ts.reverse.lookup p with
  | some content' =>
    rw [written.file p _ found] at there
    cases there
    rfl
  | none =>
    by_cases above : ∃ t ∈ ts, p <+: t.1
    · cases (written.folder p found above).symm.trans there
    · rw [written.rest p fun t mem sub => above ⟨t, mem, sub⟩] at there
      exact absurd there (noFile content)

theorem Written.folder_iff (written : Written d d' ts) (empty : d.entry? p = none) :
    d'.entry? p = some .folder ↔ ts.reverse.lookup p = none ∧ ∃ t ∈ ts, p <+: t.1 := by
  refine ⟨fun there => ?_, fun ⟨noFile, above⟩ => written.folder p noFile above⟩
  cases found : ts.reverse.lookup p with
  | some content => cases (written.file p content found).symm.trans there
  | none =>
    refine ⟨rfl, of_not_not fun none => ?_⟩
    rw [written.rest p fun t mem sub => none ⟨t, mem, sub⟩, empty] at there
    cases there

/-- One file more, after the folders above it. -/
theorem Written.put (written : Written d d' ts) (apart : Apart (parent ++ [s]) ts) {d₁ : Disk l}
    (makes : Makes d' d₁ parent) (octets : List UInt8) :
    Written d (d₁.put (parent ++ [s]) (.file octets)) (ts ++ [(parent ++ [s], octets)]) := by
  have puts := entry?_put d₁ parent s (.file octets)
  have looks (p : List String) : (ts ++ [(parent ++ [s], octets)]).reverse.lookup p =
      if p = parent ++ [s] then some octets else ts.reverse.lookup p := by
    rw [List.reverse_append, List.reverse_singleton, List.singleton_append, List.lookup_cons]
    cases same : p == parent ++ [s] <;> simp_all
  -- The folders that were made are not in the place of a file: no file is above the new one.
  constructor
  · intro p octets' found
    rw [looks] at found
    rw [puts]
    split at found
    · next same =>
      obtain rfl := Option.some.inj found
      rw [if_pos same]
    · next other =>
      have below : ¬ p <+: parent := by
        intro sub
        cases (apart.lookup sub).symm.trans found
      rw [if_neg other, makes.rest p below, written.file p octets' found]
  · rintro p noFile ⟨t, mem, sub⟩
    rw [looks] at noFile
    rw [puts]
    split at noFile
    · cases noFile
    · next other =>
      rw [if_neg other]
      by_cases above : p <+: parent
      · exact makes.made p above
      · rw [makes.rest p above]
        obtain old | new := List.mem_append.1 mem
        · exact written.folder p noFile ⟨t, old, sub⟩
        · obtain rfl := List.mem_singleton.1 new
          exact absurd sub fun down => (prefix_snoc.1 down).elim other above
  · intro p none
    have here := none (parent ++ [s], octets) (by simp)
    have other : p ≠ parent ++ [s] := by
      rintro rfl
      exact here List.prefix_rfl
    have below : ¬ p <+: parent := fun sub => here (sub.trans (List.prefix_append _ _))
    rw [puts, if_neg other, makes.rest p below]
    exact written.rest p fun t mem => none t (by simp [mem])

/-- A file can be written at this path, and the folders above it can be made. -/
structure Ready (d : Disk l) (path : List String) : Prop where
  fits : Fits l path
  free : ∀ s ∈ path, NulFree s
  clear : d.Clear path.dropLast
  near : d.Near path.dropLast
  empty : d.entry? path = none

variable {log : List Notice} {root : List String} {files : List OutputFile}

theorem Accepted.segments_given {f : OutputFile} (accepted : Accepted f) : segments f.path ≠ [] := by
  have given : parts f.path ≠ [] := accepted.given
  rw [parts_ofString] at given
  exact fun none => given (by rw [none]; rfl)

theorem Accepted.inner {f : OutputFile} (accepted : Accepted f) : ∀ s ∈ segments f.path, IsInner s := by
  intro s mem
  refine isInner_checked accepted _ ?_
  change Loose.ofString s ∈ parts f.path
  rw [parts_ofString]
  exact List.mem_map_of_mem mem

theorem IsInner.ne_up {s : String} (inner : IsInner s) : s ≠ ".." := fun same => inner.down (congrArg _ same)

theorem checkedPath_run {f : OutputFile} (accepted : Accepted f) :
    Errand.ofJob (Job.ofExcept (checkedPath f.path)) d log = ((.ok (parts f.path), d), log) := by
  have checked : checkedPath f.path = .ok (parts f.path) := accepted
  rw [checked]
  rfl

/-- The folders above a file are made, and then it is written. -/
theorem writeFile_makes {f : OutputFile} (log : List Notice) (accepted : Accepted f)
    (same : root ++ segments f.path = parent ++ [s]) (fits : Fits l parent)
    (free : ∀ x ∈ parent ++ [s], NulFree x) (clear : d.Clear parent) (near : d.Near parent) :
    ∃ d₁, Makes d d₁ parent ∧ writeFile root f d log =
      Errand.write (fun e => .unwritable (pathText root) e.message) (parent ++ [s]) (octets f.content)
        d₁ log := by
  let cause := fun e : DiskFault => Fault.unwritable (pathText root) e.message
  obtain ⟨d₁, made, makes⟩ := Errand.makeFolders_run cause log
    (fun x mem => free x (List.mem_append_left _ mem)) fits clear near
  refine ⟨d₁, makes, ?_⟩
  rw [writeFile, Errand.bind_run (checkedPath_run accepted), text_parts, same, List.dropLast_concat,
    Errand.bind_run made]

theorem writeFile_run {f : OutputFile} (accepted : Accepted f) (ready : Ready d (root ++ segments f.path))
    (written : Written d d' ts) (apart : Apart (root ++ segments f.path) ts) :
    ∃ d'', writeFile root f d' log = ((.ok (), d''), log) ∧ Written d d'' (ts ++ [target root f]) := by
  obtain ⟨parent, s, same⟩ : ∃ parent s, root ++ segments f.path = parent ++ [s] :=
    (List.eq_nil_or_concat' _).resolve_left fun none => accepted.segments_given (List.append_eq_nil_iff.1 none).2
  rw [same] at ready apart
  obtain ⟨fits, free, clear, near, empty⟩ := ready
  rw [List.dropLast_concat] at clear near
  have up : parent <+: parent ++ [s] := List.prefix_append _ _
  obtain ⟨d₁, makes, ran⟩ := writeFile_makes log accepted same (fits.sub up) free
    (written.clear apart clear) (written.near apart fits clear near)
  have noFolder : d₁.entry? (parent ++ [s]) ≠ some .folder := by
    rw [makes.rest _ fun down => by simpa using down.length_le]
    exact written.free apart empty
  refine ⟨d₁.put (parent ++ [s]) (.file (octets f.content)), ?_, ?_⟩
  · rw [ran]
    exact Errand.write_run _ free fits makes.made noFolder _
  · rw [target, same]
    exact written.put apart makes _

theorem writeFiles_run (log : List Notice) (accepted : ∀ f ∈ files, Accepted f)
    (ready : ∀ f ∈ files, Ready d (root ++ segments f.path)) (written : Written d d' ts)
    (apart : ∀ f ∈ files, Apart (root ++ segments f.path) (ts ++ files.map (target root))) :
    ∃ d'', writeFiles root files d' log = ((.ok (), d''), log) ∧
      Written d d'' (ts ++ files.map (target root)) := by
  -- The files written so far are `ts`. None of them is above a file to come, so that its folders can be made.
  induction files generalizing ts d' log with
  | nil => exact ⟨d', rfl, by simpa using written⟩
  | cons f r ih =>
    obtain ⟨accepted, accepted'⟩ := List.forall_mem_cons.1 accepted
    obtain ⟨ready, ready'⟩ := List.forall_mem_cons.1 ready
    obtain ⟨apart, apart'⟩ := List.forall_mem_cons.1 apart
    rw [List.map_cons, List.append_cons] at apart' ⊢
    obtain ⟨d₁, ran, written'⟩ := writeFile_run accepted ready written fun t mem => apart t (by simp [mem])
    obtain ⟨d₂, more, all⟩ := ih log accepted' ready' written' apart'
    refine ⟨d₂, ?_, all⟩
    rw [writeFiles, Errand.bind_run ran]
    exact more

end Written

/-- What comes out of an archive: for each path the octets stored last. -/
def extract (items : List Item) : List (List String × List UInt8) :=
  Table.insertAll [] (items.map fun i => (segments i.name, i.octets))

namespace Disk

/-- There is nothing in the folder at this path, which is there or can be made. -/
structure Vacant (d : Disk l) (path : List String) : Prop where
  clear : d.Clear path
  empty : ∀ p, path <+: p → p ≠ path → d.entry? p = none

theorem Vacant.noFile {d : Disk l} {path p : List String} (vacant : d.Vacant path) (below : path <+: p)
    (content : List UInt8) : d.entry? p ≠ some (.file content) := by
  by_cases same : p = path
  · obtain there | missing := vacant.clear p (same ▸ List.prefix_rfl)
    · simp [there]
    · simp [missing]
  · simp [vacant.empty p below same]

/-- A path is within the limits of a disk: its segments and its text are not too long, and there are not too
many folders to be made. -/
structure Takes (d : Disk l) (path : List String) : Prop where
  names : ∀ s ∈ path, l.isTooLong s = false
  text : l.isTooLongPath (pathText path) = false
  near : d.Near path.dropLast

end Disk

section Agree

variable {d d' : Disk l} {base at_ : List String} {out name : String} {files : List OutputFile}

theorem mem_place {path : List String} {s : String} (mem : s ∈ place path) : s ∈ path ∧ s ≠ ".." := by
  have step (path at_ : List String) (mem : s ∈ path.foldl
      (fun at_ s => if s == ".." then at_.dropLast else at_ ++ [s]) at_) : s ∈ at_ ∨ s ∈ path ∧ s ≠ ".." := by
    induction path generalizing at_ with
    | nil => exact .inl mem
    | cons s' r ih =>
      obtain mem | ⟨mem, down⟩ := ih _ mem
      · dsimp only at mem
        split at mem
        · exact .inl (List.mem_of_mem_dropLast mem)
        · next other =>
          obtain mem | mem := List.mem_append.1 mem
          · exact .inl mem
          · obtain rfl := List.mem_singleton.1 mem
            exact .inr ⟨List.mem_cons_self, by simpa using other⟩
      · exact .inr ⟨List.mem_cons_of_mem _ mem, down⟩
  exact (step path [] mem).resolve_left List.not_mem_nil

theorem mem_resolve {s : String} (baseFree : ∀ s ∈ base, NulFree s) (outFree : NulFree out)
    (mem : s ∈ resolve base out) : NulFree s ∧ s ≠ ".." := by
  obtain ⟨mem, down⟩ := mem_place mem
  refine ⟨?_, down⟩
  obtain mem | mem := List.mem_append.1 mem
  · split at mem
    · cases mem
    · exact baseFree s mem
  · exact nulFree_segments outFree mem

/-- The octets of the last file that lies at a path in the folder of the project. -/
def lastAt (name : String) (files : List OutputFile) (path : List String) : Option (List UInt8) :=
  (files.reverse.find? fun f => name :: segments f.path == path).map fun f => octets f.content

/-- The last file with a key. -/
theorem lookup_last (key : OutputFile → List String) (path : List String) :
    (files.map fun f => (key f, octets f.content)).reverse.lookup path =
      (files.reverse.find? fun f => key f == path).map fun f => octets f.content := by
  rw [← List.map_reverse, Table.lookup_map, List.head?_filter]

/-- The entry of a generated file lies in the folder of the project. -/
theorem segments_entry {f : OutputFile} (inner : IsInner name) (accepted : Accepted f) :
    segments (entry name f).name = name :: segments f.path := by
  have text : entryName name f = Loose.ofString (name ++ "/" ++ joinSegments (segments f.path)) := by
    rw [entryName, show (consigned f).path = f.path from rfl, parts_ofString, joinParts_ofString]
    simp [Loose.ofString]
  have apart := (accepted.pieces_name inner).2
  rw [show (consigned f).path = f.path from rfl, parts_ofString, text, parts_ofString, ← List.map_cons] at apart
  rw [entry, text, Loose.text_ofString]
  exact (List.map_injective_iff.2 ofString_injective) apart

theorem lookup_extract (inner : IsInner name) (accepted : ∀ f ∈ files, Accepted f) (path : List String) :
    (extract ((files.map consigned).map (entry name))).lookup path = lastAt name files path := by
  have paths : ((files.map consigned).map (entry name)).map (fun i => (segments i.name, i.octets)) =
      files.map fun f => (name :: segments f.path, octets f.content) := by
    rw [List.map_map, List.map_map]
    refine List.map_congr_left fun f mem => ?_
    have content : (entry name f).octets = octets f.content := by
      rw [entry, show (consigned f).content = f.content from rfl, Loose.text_ofString]
    change (segments (entry name f).name, (entry name f).octets) = _
    rw [segments_entry inner (accepted f mem), content]
  rw [extract, Table.lookup_insertAll, paths, lookup_last, List.lookup_nil, Option.or_none, lastAt]

theorem lookup_targets (at_ path : List String) :
    (files.map (target (at_ ++ [name]))).reverse.lookup (at_ ++ path) = lastAt name files path := by
  have keys : files.map (target (at_ ++ [name])) =
      files.map fun f => (at_ ++ name :: segments f.path, octets f.content) := by
    refine List.map_congr_left fun f _ => ?_
    rw [target, List.append_assoc, List.singleton_append]
  rw [keys, lookup_last, lastAt]
  congr 2
  funext f
  rw [Bool.eq_iff_iff, beq_iff_eq, beq_iff_eq, List.append_cancel_left_eq]

/-- The texts of a generated file are whole, so that an archive can hold it unless its name is too long. -/
theorem unpackable_iff {f : OutputFile} : Unpackable name f ↔ Overlong name f := by
  have whole : (entryName name f).isBroken = false := by
    rw [entryName, show (consigned f).path = f.path from rfl, parts_ofString, joinParts_ofString]
    exact Loose.isBroken_ofString (name ++ "/" ++ joinSegments (segments f.path)) ▸ by simp [Loose.ofString]
  rw [Unpackable, whole, show (consigned f).content = f.content from rfl, Loose.isBroken_ofString]
  simp

theorem ready_target {f : OutputFile} (baseFree : ∀ s ∈ base, NulFree s) (outFree : NulFree out)
    (nameFree : NulFree name) (fileFree : NulFree f.path) (inner : IsInner name) (accepted : Accepted f)
    (vacant : d.Vacant (resolve base out)) (takes : d.Takes (resolve base out ++ name :: segments f.path)) :
    Ready d (resolve base out ++ [name] ++ segments f.path) := by
  rw [List.append_assoc, List.singleton_append]
  have below : resolve base out <+: resolve base out ++ name :: segments f.path := List.prefix_append _ _
  have all : ∀ s ∈ resolve base out ++ name :: segments f.path, NulFree s ∧ s ≠ ".." := by
    intro s mem
    obtain mem | mem := List.mem_append.1 mem
    · exact mem_resolve baseFree outFree mem
    obtain rfl | mem := List.mem_cons.1 mem
    · exact ⟨nameFree, inner.ne_up⟩
    · exact ⟨nulFree_segments fileFree mem, (accepted.inner s mem).ne_up⟩
  refine ⟨⟨fun s mem => ⟨(all s mem).2, takes.names s mem⟩, takes.text⟩, fun s mem => (all s mem).1, ?_,
    takes.near, vacant.empty _ below fun same => ?_⟩
  · intro p sub
    obtain up | down := List.prefix_or_prefix_of_prefix (sub.trans (List.dropLast_prefix _)) below
    · exact vacant.clear p up
    · by_cases same : p = resolve base out
      · exact vacant.clear p (same ▸ List.prefix_rfl)
      · exact .inr (vacant.empty p down same)
  · simpa using congrArg List.length same

/-- A project name that is accepted is the folder into which the files are written. -/
theorem deliver_folder (outFree : NulFree out) (nameFree : NulFree name) (named : checkedName name = .ok name) :
    (deliver base (.folder out) name files).run d =
      (writeFiles (resolve base out ++ [name]) files >>= fun _ => do
        Errand.note (writtenNotice files.length (resolve base out ++ [name]))
        pure (.folder (resolve base out ++ [name]))) d [] := by
  have first : Errand.ofJob (Job.ofExcept (checkedName name)) d [] = ((.ok (Loose.ofString name), d), []) := by
    rw [named]
    rfl
  have free : ∀ s ∈ [out, name], NulFree s := by simpa using ⟨outFree, nameFree⟩
  rw [Errand.run, deliver, Errand.bind_run first, Errand.bind_run (Errand.checkPath_run free)]

/-- What becomes of files that go into a folder in which nothing is, if the disk takes all paths. -/
theorem deliver_written (baseFree : ∀ s ∈ base, NulFree s) (outFree : NulFree out) (nameFree : NulFree name)
    (filesFree : ∀ f ∈ files, NulFree f.path) (named : checkedName name = .ok name)
    (accepted : ∀ f ∈ files, Accepted f)
    (apart : ∀ f ∈ files, ∀ g ∈ files, segments f.path <+: segments g.path → segments f.path = segments g.path)
    (vacant : d.Vacant (resolve base out))
    (takes : ∀ f ∈ files, d.Takes (resolve base out ++ name :: segments f.path)) :
    ∃ d', (deliver base (.folder out) name files).run d =
        ((.ok (.folder (resolve base out ++ [name])), d'),
          [writtenNotice files.length (resolve base out ++ [name])]) ∧
      Written d d' (files.map (target (resolve base out ++ [name]))) := by
  have none : Written d d [] :=
    ⟨fun _ _ found => (nomatch found), fun _ _ some => by simp at some, fun _ _ => rfl⟩
  have inner := (checkedName_eq_ok.1 named).2.1
  have ready (f) (mem : f ∈ files) :=
    ready_target baseFree outFree nameFree (filesFree f mem) inner (accepted f mem) vacant (takes f mem)
  have others (f) (mem : f ∈ files) :
      Apart (resolve base out ++ [name] ++ segments f.path)
        ([] ++ files.map (target (resolve base out ++ [name]))) := by
    intro t mem'
    obtain ⟨g, there, rfl⟩ := List.mem_map.1 mem'
    rw [target, List.prefix_append_right_inj, List.prefix_append_right_inj, List.append_cancel_left_eq]
    rintro (down | up)
    · exact apart g there f mem down
    · exact (apart f mem g there up).symm
  obtain ⟨d', ran, written⟩ := writeFiles_run [] accepted ready none others
  refine ⟨d', ?_, written⟩
  rw [deliver_folder outFree nameFree named, Errand.bind_run ran]
  rfl

/-- The tree that has been written: at each path the last file that lies there, folders above the files, and nothing
else. -/
theorem Written.tree (vacant : d.Vacant (resolve base out))
    (apart : ∀ f ∈ files, ∀ g ∈ files, segments f.path <+: segments g.path → segments f.path = segments g.path)
    (written : Written d d' (files.map (target (resolve base out ++ [name])))) :
    (∀ path content, d'.entry? (resolve base out ++ path) = some (.file content) ↔
        lastAt name files path = some content) ∧
      (∀ path, path ≠ [] → ((∃ f ∈ files, path <+: name :: segments f.path ∧ path ≠ name :: segments f.path) ↔
        d'.entry? (resolve base out ++ path) = some .folder)) ∧
      ∀ path, ¬ path <+: resolve base out → ¬ resolve base out <+: path → d'.entry? path = d.entry? path := by
  refine ⟨?_, ?_, ?_⟩
  · intro path content
    rw [← lookup_targets (resolve base out)]
    exact written.file_iff (vacant.noFile (List.prefix_append _ _)) content
  · intro path given
    rw [written.folder_iff (vacant.empty _ (List.prefix_append _ _) (by simpa using given)), lookup_targets,
      lastAt, Option.map_eq_none_iff, List.find?_eq_none]
    constructor
    · rintro ⟨f, mem, sub, other⟩
      refine ⟨fun g there same => other ?_, target _ f, List.mem_map_of_mem mem, ?_⟩
      · rw [← eq_of_beq same] at sub ⊢
        rw [apart g (List.mem_reverse.1 there) f mem (List.cons_prefix_cons.1 sub).2]
      · rwa [target, List.append_assoc, List.prefix_append_right_inj]
    · rintro ⟨noFile, t, there, sub⟩
      obtain ⟨f, mem, rfl⟩ := List.mem_map.1 there
      rw [target, List.append_assoc, List.prefix_append_right_inj] at sub
      refine ⟨f, mem, sub, fun same => noFile f (List.mem_reverse.2 mem) ?_⟩
      rw [beq_iff_eq, same]
  · intro path up down
    refine written.rest path fun t mem sub => ?_
    obtain ⟨f, -, rfl⟩ := List.mem_map.1 mem
    rw [target, List.append_assoc] at sub
    exact (List.prefix_or_prefix_of_prefix sub (List.prefix_append _ _)).elim up down

/-- A disk that is a map, and nothing more, takes every path. -/
theorem takes_unbounded (d : Disk .unbounded) (path : List String) : d.Takes path :=
  ⟨fun _ _ => rfl, rfl, fun _ known => (nomatch known)⟩

/-- Files on a disk and files in an archive are the same. Where no path leads to another, files are written into a
folder of an unbounded disk in which nothing is, and their archive is made unless one of their names is too long for
it: on the disk and in the archive each path has the content of the last file with its segments, and nothing else is
there but the folders above. -/
theorem deliver_agrees {d : Disk .unbounded} (baseFree : ∀ s ∈ base, NulFree s) (outFree : NulFree out)
    (nameFree : NulFree name) (filesFree : ∀ f ∈ files, NulFree f.path) (named : checkedName name = .ok name)
    (accepted : ∀ f ∈ files, Accepted f)
    (apart : ∀ f ∈ files, ∀ g ∈ files, segments f.path <+: segments g.path → segments f.path = segments g.path)
    (vacant : d.Vacant (resolve base out)) :
    ∃ d' log,
      (deliver base (.folder out) name files).run d = ((.ok (.folder (resolve base out ++ [name])), d'), log) ∧
      (∀ path content, d'.entry? (resolve base out ++ path) = some (.file content) ↔
        lastAt name files path = some content) ∧
      (∀ path, path ≠ [] → ((∃ f ∈ files, path <+: name :: segments f.path ∧ path ≠ name :: segments f.path) ↔
        d'.entry? (resolve base out ++ path) = some .folder)) ∧
      (∀ path, ¬ path <+: resolve base out → ¬ resolve base out <+: path → d'.entry? path = d.entry? path) ∧
      ((∃ is, archive (files.map consigned) name = .ok is) ↔ ∀ f ∈ files, ¬ Overlong name f) ∧
      ∀ is, archive (files.map consigned) name = .ok is →
        ∀ path, (extract is).lookup path = lastAt name files path := by
  obtain ⟨d', ran, written⟩ := deliver_written baseFree outFree nameFree filesFree named accepted apart vacant
    fun f _ => takes_unbounded d _
  obtain ⟨same, folders, rest⟩ := written.tree vacant apart
  have inner := (checkedName_eq_ok.1 named).2.1
  have free : ∀ f ∈ files.map consigned, NulFree f.path := List.forall_mem_map.2 filesFree
  have packed (is : List Item) := @archive_eq_ok name (files.map consigned) is nameFree free
  refine ⟨d', _, ran, same, folders, rest, ?_, fun is made => ?_⟩
  · constructor
    · rintro ⟨is, made⟩ f mem long
      exact (((packed is).1 made).2.2 f (List.mem_map_of_mem mem)).2 (unpackable_iff.2 long)
    · intro short
      refine ⟨_, (packed _).2 ⟨rfl, named, List.forall_mem_map.2 fun f mem => ⟨accepted f mem, ?_⟩⟩⟩
      exact fun unpackable => short f mem (unpackable_iff.1 unpackable)
  · rw [((packed is).1 made).1]
    exact lookup_extract inner accepted

end Agree

/-- A disk with an empty folder. -/
def emptyFolder (l : Limits) : Disk l := ⟨[(["out"], .folder)]⟩

theorem emptyFolder_vacant : (emptyFolder l).Vacant (resolve [] "out") := by
  have place : resolve [] "out" = ["out"] := by decide
  rw [place]
  refine ⟨fun p sub => .inl ?_, fun p below other => ?_⟩
  · obtain rfl | sub := prefix_snoc.1 (show p <+: [] ++ ["out"] from sub)
    · rfl
    · rw [List.prefix_nil.1 sub]
      rfl
  · obtain ⟨r, rfl⟩ := below
    rw [List.singleton_append] at other ⊢
    change [(["out"], Entry.folder)].lookup ("out" :: r) = none
    rw [List.lookup_cons, List.lookup_nil, beq_eq_false_iff_ne.2 other]

/-- Two of the files are the same, written in different ways. -/
def repeatedFiles : List OutputFile :=
  [.ofPath "src//main.tsx" "old" .tsx, .ofPath "package.json" "{}" .json, .ofPath "./src/main.tsx" "new" .tsx]

theorem repeatedFiles_agree : ∃ d' log is, archive (repeatedFiles.map consigned) "app" = .ok is ∧
    (deliver [] (.folder "out") "app" repeatedFiles).run (emptyFolder .unbounded) =
      ((.ok (.folder ["out", "app"]), d'), log) ∧
    (extract is).lookup ["app", "src", "main.tsx"] = some (octets "new") ∧
    d'.entry? ["out", "app", "src", "main.tsx"] = some (.file (octets "new")) := by
  have filesFree : ∀ f ∈ repeatedFiles, NulFree f.path := by decide
  have accepted : ∀ f ∈ repeatedFiles, Accepted f := by decide
  have apart : ∀ f ∈ repeatedFiles, ∀ g ∈ repeatedFiles, segments f.path <+: segments g.path →
      segments f.path = segments g.path := by decide
  have short : ∀ f ∈ repeatedFiles, ¬ Overlong "app" f := by decide
  have named : checkedName "app" = .ok "app" := by decide
  have nameFree : NulFree "app" := by decide
  have outFree : NulFree "out" := by decide
  obtain ⟨d', log, ran, same, -, -, packed, last⟩ := deliver_agrees (List.forall_mem_nil _) outFree nameFree
    filesFree named accepted apart emptyFolder_vacant
  obtain ⟨is, made⟩ := packed.2 short
  have found : lastAt "app" repeatedFiles ["app", "src", "main.tsx"] = some (octets "new") := by decide
  exact ⟨d', log, is, made, ran, (last is made _).trans found, (same _ _).2 found⟩

/-- A file with a long name. -/
def longFile (length : Nat) : OutputFile := .ofPath (longName length) "x" .other

/-- An archive cannot hold what an unbounded disk takes, where the name is too long; and it cannot hold a file in
whose content half of a character stands alone. -/
theorem longNames_disagree : checkedName "app" = .ok "app" ∧ NulFree "app" ∧ NulFree (longName 65536) ∧
    Accepted (longFile 65536) ∧ (emptyFolder .unbounded).Vacant (resolve [] "out") ∧
    (∃ parcel d' log,
      (deliver [] (.folder "out") "app" [longFile 65536]).run (emptyFolder .unbounded) = ((.ok parcel, d'), log)) ∧
    (¬ ∃ is, archive ([longFile 65536].map consigned) "app" = .ok is) ∧
    NulFree "a.txt" ∧ Accepted ⟨"a.txt", [.half 0]⟩ ∧ ¬ ∃ is, archive [⟨"a.txt", [.half 0]⟩] "app" = .ok is := by
  have accepted : Accepted (longFile 65536) := accepted_longName (by decide) _
  have free : NulFree (longName 65536) := nulFree_longName _
  have takes : ∀ f ∈ [longFile 65536], (emptyFolder .unbounded).Takes (resolve [] "out" ++ "app" :: segments f.path) :=
    fun f _ => takes_unbounded _ _
  have pathsFree : ∀ f ∈ [longFile 65536], NulFree f.path := List.forall_mem_singleton.2 free
  obtain ⟨d', ran, -⟩ := deliver_written (List.forall_mem_nil _) (by decide) (by decide) pathsFree (by decide)
    (by simpa using accepted) (by simp) emptyFolder_vacant takes
  refine ⟨by decide, by decide, free, accepted, emptyFolder_vacant, ⟨_, d', _, ran⟩, ?_, by decide, by decide, ?_⟩
  · rintro ⟨is, made⟩
    obtain ⟨e, failed, -⟩ := archive_longName (n := 65536) (by decide) "x" []
    cases failed.symm.trans made
  · rintro ⟨is, made⟩
    have named : checkedName "app" = .ok "app" := by decide
    have torn : Unpackable "app" ⟨"a.txt", [.half 0]⟩ := .inl (by decide)
    obtain ⟨e, failed, -⟩ := archive_unpackable (by decide) (by decide) named (by decide) torn []
    cases failed.symm.trans made

end Pagesmith.Delivery
