import Pagesmith.Proofs.Delivery.Disk

/-!
Deliveries that are rejected. Files are checked and written one after the other, so a path that leads out of the
project is met when the files before it are on the disk already. What the disk has then is read off the success of
those writes: where folders could be made and a file could be written, nothing else stood in their places.
-/

namespace Pagesmith.Delivery
open Text

variable {l : Limits}

namespace Disk

variable {d d' : Disk l} {path here parent : List String} {s : String}

section Find

/-- What is at the end of a path of folders is found there, unless a name on the way is too long. -/
theorem findFrom_there {e : Entry} (down : ∀ x ∈ parent ++ [s], x ≠ "..") (folders : d.Folders (here ++ parent))
    (there : d.entry? (here ++ parent ++ [s]) = some e) :
    d.findFrom here (parent ++ [s]) = .ok e ∨ d.findFrom here (parent ++ [s]) = .error .nameTooLong := by
  induction parent generalizing here with
  | nil =>
    rw [List.append_nil] at there
    rw [List.nil_append, findFrom, if_neg (by simpa using down), there]
    split
    · exact .inr rfl
    · cases e <;> exact .inl rfl
  | cons x r ih =>
    obtain ⟨first, rest⟩ := List.forall_mem_cons.1 down
    rw [List.append_cons here x r] at folders there
    have passed := folders (here ++ [x]) (List.prefix_append _ r)
    rw [List.cons_append, findFrom, if_neg (by simpa using first), passed]
    split
    · exact .inr rfl
    · exact ih rest folders there

theorem find_there {e : Entry} (down : ∀ x ∈ parent ++ [s], x ≠ "..") (folders : d.Folders parent)
    (there : d.entry? (parent ++ [s]) = some e) :
    d.find (parent ++ [s]) = .ok e ∨ d.find (parent ++ [s]) = .error ⟨.nameTooLong, parent ++ [s]⟩ := by
  rw [find]
  split
  · exact .inr rfl
  · obtain found | long := @findFrom_there l d [] parent s e down folders there
    · rw [found]
      exact .inl rfl
    · rw [long]
      exact .inr rfl

/-- A folder that is found stands under folders. -/
theorem folders_of_findFrom (down : ∀ x ∈ path, x ≠ "..") (folders : d.Folders here)
    (found : d.findFrom here path = .ok .folder) : d.Folders (here ++ path) := by
  induction path generalizing here with
  | nil => rwa [List.append_nil]
  | cons x r ih =>
    obtain ⟨first, rest⟩ := List.forall_mem_cons.1 down
    rw [findFrom, if_neg (by simpa using first)] at found
    split at found
    · cases found
    split at found
    · cases found
    · split at found <;> cases found
    · next there =>
      rw [List.append_cons]
      exact ih rest (folders.snoc there) found

theorem folders_of_hasFolder (down : ∀ x ∈ path, x ≠ "..") (there : d.hasFolder path = true) : d.Folders path := by
  rw [hasFolder, find] at there
  split at there
  · next found =>
    split at found
    · cases found
    split at found
    · next found' =>
      cases found
      exact folders_of_findFrom down (folders_nil d) found'
    · cases found
  · cases there

end Find

section Done

/-- Folders that were made on the way down: none of them stood in the place of a file. -/
theorem makeMissing_done {before : List String} (down : ∀ x ∈ path, x ≠ "..") (folders : d.Folders here)
    (done : d.makeMissing here before path = (d', none)) : Makes d d' (here ++ path) ∧ d.Clear (here ++ path) := by
  induction path generalizing d here before with
  | nil =>
    cases done
    rw [List.append_nil]
    exact ⟨⟨folders, fun _ _ => rfl⟩, folders.clear⟩
  | cons x r ih =>
    obtain ⟨first, rest⟩ := List.forall_mem_cons.1 down
    rw [makeMissing, if_neg (by simpa using first)] at done
    rw [List.append_cons]
    split at done
    · cases done
    split at done
    · next missing =>
      have next : Makes d (d.put (here ++ [x]) .folder) (here ++ [x]) := put_makes folders
      obtain ⟨makes, clear⟩ := ih rest next.made done
      refine ⟨next.trans (List.prefix_append _ r) makes, fun p sub => ?_⟩
      by_cases up : p <+: here ++ [x]
      · obtain rfl | up := prefix_snoc.1 up
        · exact .inr missing
        · exact .inl (folders p up)
      · rw [← next.rest p up]
        exact clear p sub
    · next there => exact ih rest (folders.snoc there) done
    · cases done

theorem makeFolder_done (down : ∀ x ∈ path, x ≠ "..") (done : d.makeFolder path = .ok d') :
    Makes d d' path ∧ d.Clear path := by
  rw [makeFolder] at done
  split at done
  · cases done
  · next missing =>
    split at done
    case isFalse => cases done
    case isTrue why =>
      obtain ⟨cause, above⟩ := Bool.and_eq_true_iff.1 why
      obtain rfl | ⟨parent, s, rfl⟩ := List.eq_nil_or_concat' path
      · rw [find] at missing
        split at missing
        · cases missing
          cases cause
        · cases missing
      rw [List.dropLast_concat] at above
      rw [place_down down] at done
      cases done
      have folders := folders_of_hasFolder (fun x mem => down x (List.mem_append_left _ mem)) above
      refine ⟨put_makes folders, fun p sub => ?_⟩
      obtain rfl | up := prefix_snoc.1 sub
      · refine .inr (Option.eq_none_iff_forall_ne_some.2 fun e there => ?_)
        obtain found | long := find_there down folders there
        · cases found.symm.trans missing
        · cases long.symm.trans missing
          cases cause
      · exact .inl (folders p up)

theorem makeFolders_done (down : ∀ x ∈ path, x ≠ "..") (done : d.makeFolders path = (d', none)) :
    Makes d d' path ∧ d.Clear path := by
  rw [makeFolders] at done
  split at done
  · next made =>
    cases done
    exact makeFolder_done down made
  split at done
  · exact makeMissing_done down (folders_nil d) done
  split at done
  · next found =>
    cases done
    have all := folders_of_hasFolder down found
    exact ⟨⟨all, fun _ _ => rfl⟩, all.clear⟩
  · cases done

/-- A file that was written under folders did not stand in the place of another one. -/
theorem write_done {octets : List UInt8} (down : ∀ x ∈ parent ++ [s], x ≠ "..") (folders : d.Folders parent)
    (done : d.write (parent ++ [s]) octets = .ok d') :
    d.entry? (parent ++ [s]) ≠ some .folder ∧ d' = d.put (parent ++ [s]) (.file octets) := by
  rw [write, place_down down] at done
  constructor
  · intro there
    obtain found | long := find_there down folders there
    · rw [found] at done
      cases done
    · rw [long] at done
      cases done
  · split at done
    · cases done
    · cases done
      rfl
    · split at done
      · cases done
        rfl
      · cases done

end Done

end Disk

open Disk

namespace Errand

variable {α β : Type} {d : Disk l} {log : List Notice}

theorem makeFolders_ok {cause : DiskFault → Fault} {path : List String} {d' : Disk l} {log' : List Notice}
    (done : makeFolders cause path d log = ((.ok (), d'), log')) : d.makeFolders path = (d', none) := by
  rw [makeFolders_eq] at done
  split at done
  · cases done
  split at done
  · cases done
  split at done
  · next made =>
    cases done
    exact made
  · cases done

theorem write_ok {cause : DiskFault → Fault} {path : List String} {octets : List UInt8} {d' : Disk l}
    {log' : List Notice} (done : write cause path octets d log = ((.ok (), d'), log')) :
    d.write path octets = .ok d' := by
  rw [write_eq] at done
  split at done
  · cases done
  split at done
  · next written =>
    cases done
    exact written
  · cases done

theorem bind_cases {errand : Errand l α} {next : α → Errand l β} {r : Except Fault β} {d' : Disk l} {log' : List Notice}
    (h : (errand >>= next) d log = ((r, d'), log')) :
    (∃ f, r = .error f ∧ errand d log = ((.error f, d'), log')) ∨
      ∃ a d₁ log₁, errand d log = ((.ok a, d₁), log₁) ∧ next a d₁ log₁ = ((r, d'), log') := by
  rcases first : errand d log with ⟨⟨_ | a, d₁⟩, log₁⟩
  · rw [bind_fail first] at h
    cases h
    exact .inl ⟨_, rfl, rfl⟩
  · rw [bind_run first] at h
    exact .inr ⟨a, d₁, log₁, rfl, h⟩

/-- The errand does not fail because a path leads out of the project. -/
def Admits (errand : Errand l α) : Prop :=
  ∀ d log path, (errand d log).1.1 ≠ .error (.outsideProject path)

theorem Admits.bind {errand : Errand l α} {next : α → Errand l β} (first : Admits errand)
    (rest : ∀ a, Admits (next a)) : Admits (errand >>= next) := by
  intro d log path failed
  rcases ran : (errand >>= next) d log with ⟨⟨r, d'⟩, log'⟩
  rw [ran] at failed
  obtain ⟨f, rfl, early⟩ | ⟨a, d₁, log₁, -, late⟩ := bind_cases ran
  · cases failed
    exact first d log path (congrArg (·.1.1) early)
  · exact rest a d₁ log₁ path ((congrArg (·.1.1) late).trans failed)

theorem admits_makeFolders {cause : DiskFault → Fault} (other : ∀ f path, cause f ≠ .outsideProject path)
    (path : List String) : Admits (makeFolders (l := l) cause path) := by
  intro d log given failed
  rw [makeFolders_eq] at failed
  split at failed
  · cases failed
  split at failed
  · cases failed
  split at failed
  · cases failed
  · next f _ => exact other f given (Except.error.inj failed)

theorem admits_write {cause : DiskFault → Fault} (other : ∀ f path, cause f ≠ .outsideProject path)
    (path : List String) (octets : List UInt8) : Admits (write (l := l) cause path octets) := by
  intro d log given failed
  rw [write_eq] at failed
  split at failed
  · cases failed
  split at failed
  · cases failed
  · next f _ => exact other f given (Except.error.inj failed)

end Errand

section Run

variable {d d' : Disk l} {root : List String} {files : List OutputFile} {f : OutputFile} {log log' : List Notice}

theorem down_target (down : ∀ x ∈ root, x ≠ "..") (accepted : Accepted f) :
    ∀ x ∈ root ++ segments f.path, x ≠ ".." := by
  intro x mem
  obtain mem | mem := List.mem_append.1 mem
  · exact down x mem
  · exact (accepted.inner x mem).ne_up

theorem writeFile_rejected (rejected : ¬ Accepted f) :
    writeFile root f d log = ((.error (.outsideProject f.path), d), log) := by
  have failed : Errand.ofJob (Job.ofExcept (checkedPath f.path)) d log =
      ((.error (.outsideProject f.path), d), log) := by
    have failed : checkedPath f.path = .error (.outsideProject f.path) := (accepted_or f).resolve_left rejected
    rw [failed]
    rfl
  rw [writeFile, Errand.bind_fail failed]

theorem writeFile_admits (accepted : Accepted f) (path : Loose) :
    (writeFile root f d log).1.1 ≠ .error (.outsideProject path) := by
  have other (e : DiskFault) (path : Loose) : Fault.unwritable (pathText root) e.message ≠ .outsideProject path :=
    fun same => nomatch same
  rw [writeFile, Errand.bind_run (checkedPath_run accepted)]
  exact (Errand.admits_makeFolders other _).bind (fun _ => Errand.admits_write other _ _) d log path

/-- A file that was written: nothing but folders stood above it and no folder in its place. -/
theorem writeFile_done (down : ∀ x ∈ root, x ≠ "..") (done : writeFile root f d log = ((.ok (), d'), log')) :
    Accepted f ∧ ∃ parent s d₁, root ++ segments f.path = parent ++ [s] ∧ Makes d d₁ parent ∧ d.Clear parent ∧
      d.entry? (parent ++ [s]) ≠ some .folder ∧ d' = d₁.put (parent ++ [s]) (.file (octets f.content)) := by
  by_cases accepted : Accepted f
  case neg =>
    rw [writeFile_rejected accepted] at done
    cases done
  have down := down_target down accepted
  obtain ⟨parent, s, same⟩ : ∃ parent s, root ++ segments f.path = parent ++ [s] :=
    (List.eq_nil_or_concat' _).resolve_left fun none => accepted.segments_given (List.append_eq_nil_iff.1 none).2
  refine ⟨accepted, parent, s, ?_⟩
  rw [writeFile, Errand.bind_run (checkedPath_run accepted), text_parts] at done
  rw [same, List.dropLast_concat] at done
  rw [same] at down
  obtain ⟨_, failed, -⟩ | ⟨_, d₁, log₁, made, written⟩ := Errand.bind_cases done
  · cases failed
  obtain ⟨makes, clear⟩ := makeFolders_done (fun x mem => down x (List.mem_append_left _ mem))
    (Errand.makeFolders_ok made)
  obtain ⟨free, rfl⟩ := write_done down makes.made (Errand.write_ok written)
  rw [makes.rest _ fun sub => by simpa using sub.length_le] at free
  exact ⟨d₁, same, makes, clear, free, rfl⟩

end Run

section Settled

variable {d d' : Disk l} {ts : List (List String × List UInt8)} {parent : List String} {s : String}

theorem exists_lookup_reverse {t : List String × List UInt8} (mem : t ∈ ts) :
    ∃ octets, ts.reverse.lookup t.1 = some octets := by
  refine Option.isSome_iff_exists.1 (List.lookup_isSome_iff.2 ⟨t, List.mem_reverse.2 mem, ?_⟩)
  exact beq_self_eq_true t.1

/-- Files have been written at these paths, one after the other, and all of them lie in folders. -/
structure Settled (d d' : Disk l) (ts : List (List String × List UInt8)) : Prop where
  written : Written d d' ts
  above : ∀ t ∈ ts, d'.Folders t.1.dropLast

/-- Where a file is written next, no other file is above it and none below. -/
theorem Settled.apart (settled : Settled d d' ts) (clear : d'.Clear parent)
    (free : d'.entry? (parent ++ [s]) ≠ some .folder) : Apart (parent ++ [s]) ts := by
  rintro t mem (up | below)
  · refine (prefix_snoc.1 up).resolve_right fun up => ?_
    obtain ⟨octets, last⟩ := exists_lookup_reverse mem
    have file := settled.written.file t.1 octets last
    obtain folder | none := clear t.1 up
    · cases file.symm.trans folder
    · cases file.symm.trans none
  · obtain none | ⟨q, x, path⟩ := List.eq_nil_or_concat' t.1
    · rw [none] at below
      simpa using below.length_le
    · have folders := settled.above t mem
      rw [path, List.dropLast_concat] at folders
      rw [path] at below ⊢
      exact ((prefix_snoc.1 below).resolve_right fun below => free (folders _ below)).symm

theorem Settled.put (settled : Settled d d' ts) {d₁ : Disk l} (makes : Makes d' d₁ parent) (clear : d'.Clear parent)
    (free : d'.entry? (parent ++ [s]) ≠ some .folder) (octets : List UInt8) :
    Settled d (d₁.put (parent ++ [s]) (.file octets)) (ts ++ [(parent ++ [s], octets)]) := by
  have puts := entry?_put d₁ parent s (.file octets)
  refine ⟨settled.written.put (settled.apart clear free) makes octets, fun t mem p sub => ?_⟩
  have other : p ≠ parent ++ [s] := by
    rintro rfl
    obtain old | new := List.mem_append.1 mem
    · exact free (settled.above t old _ sub)
    · obtain rfl := List.mem_singleton.1 new
      rw [List.dropLast_concat] at sub
      simpa using sub.length_le
  rw [puts, if_neg other]
  by_cases up : p <+: parent
  · exact makes.made p up
  · rw [makes.rest p up]
    obtain old | new := List.mem_append.1 mem
    · exact settled.above t old p sub
    · obtain rfl := List.mem_singleton.1 new
      rw [List.dropLast_concat] at sub
      exact absurd sub up

/-- All this is on the disk already: at each path what is to be written there last, in folders. -/
def Present (d : Disk l) (ts : List (List String × List UInt8)) : Prop :=
  ∀ p octets, ts.reverse.lookup p = some octets → d.Folders p.dropLast ∧ d.entry? p = some (.file octets)

theorem Settled.unchanged_iff (settled : Settled d d' ts) :
    (∀ p, d'.entry? p = d.entry? p) ↔ Present d ts := by
  constructor
  · intro same p octets last
    have folders := settled.above _ (mem_of_lookup_reverse last)
    exact ⟨fun q sub => (same q).symm.trans (folders q sub),
      (same p).symm.trans (settled.written.file p octets last)⟩
  · intro present p
    cases last : ts.reverse.lookup p with
    | some octets => exact (settled.written.file p octets last).trans (present p octets last).2.symm
    | none =>
      by_cases above : ∃ t ∈ ts, p <+: t.1
      · refine (settled.written.folder p last above).trans (Eq.symm ?_)
        obtain ⟨t, mem, sub⟩ := above
        obtain ⟨octets, found⟩ := exists_lookup_reverse mem
        have folders := (present t.1 octets found).1
        obtain none | ⟨q, x, path⟩ := List.eq_nil_or_concat' t.1
        · rw [none, List.prefix_nil] at sub
          rw [sub]
          rfl
        · rw [path, List.dropLast_concat] at folders
          rw [path] at sub
          refine folders p ((prefix_snoc.1 sub).resolve_left ?_)
          rintro rfl
          rw [path] at found
          cases found.symm.trans last
      · exact settled.written.rest p fun t mem sub => above ⟨t, mem, sub⟩

end Settled

section Deliver

variable {d d' : Disk l} {root base : List String} {out name : String} {files : List OutputFile}
  {log log' : List Notice}

theorem writeFiles_settled (down : ∀ x ∈ root, x ≠ "..") {d₀ : Disk l} {ts : List (List String × List UInt8)}
    (settled : Settled d₀ d ts) (done : writeFiles root files d log = ((.ok (), d'), log')) :
    Settled d₀ d' (ts ++ files.map (target root)) := by
  induction files generalizing d log ts with
  | nil =>
    cases done
    simpa using settled
  | cons f r ih =>
    rw [writeFiles] at done
    obtain ⟨_, failed, -⟩ | ⟨_, d₁, log₁, first, rest⟩ := Errand.bind_cases done
    · cases failed
    obtain ⟨-, parent, s, d₂, same, makes, clear, free, rfl⟩ := writeFile_done down first
    rw [List.map_cons, List.append_cons, target, same]
    exact ih (settled.put makes clear free _) rest

/-- Writing stops at the first file that is rejected, and what was before it has been written. -/
theorem writeFiles_rejects_iff {path : Loose} :
    (writeFiles root files d log).1 = (.error (.outsideProject path), d') ↔
      ∃ (before : List OutputFile) (f : OutputFile) (after : List OutputFile),
        files = before ++ f :: after ∧ f.path = path ∧ ¬ Accepted f ∧
        (writeFiles root before d log).1 = (.ok (), d') := by
  induction files generalizing d log with
  | nil =>
    constructor
    · rintro ⟨⟩
    · rintro ⟨_, _, _, split, -⟩
      simp at split
  | cons f r ih =>
    -- What is split off starts with `f`, or `f` is what was rejected.
    have splits (before : List OutputFile) (g : OutputFile) (after : List OutputFile)
        (split : f :: r = before ++ g :: after) : before = [] ∧ f = g ∧ r = after ∨
          ∃ b, before = f :: b ∧ r = b ++ g :: after := by
      cases before with
      | nil => exact .inl ⟨rfl, List.cons.inj split⟩
      | cons h b =>
        obtain ⟨rfl, rest⟩ := List.cons.inj split
        exact .inr ⟨b, rfl, rest⟩
    by_cases accepted : Accepted f
    case neg =>
      have failed (r : List OutputFile) : writeFiles root (f :: r) d log =
          ((.error (.outsideProject f.path), d), log) := by
        rw [writeFiles, Errand.bind_fail (writeFile_rejected accepted)]
      rw [failed]
      constructor
      · rintro ⟨⟩
        exact ⟨[], f, r, rfl, rfl, accepted, rfl⟩
      · rintro ⟨before, g, after, split, rfl, -, done⟩
        obtain ⟨rfl, rfl, rfl⟩ | ⟨b, rfl, -⟩ := splits before g after split
        · cases done
          rfl
        · rw [failed] at done
          cases done
    rcases first : writeFile root f d log with ⟨⟨e | _, d₁⟩, log₁⟩
    · have failed (r : List OutputFile) : writeFiles root (f :: r) d log = ((.error e, d₁), log₁) := by
        rw [writeFiles, Errand.bind_fail first]
      rw [failed]
      constructor
      · rintro ⟨⟩
        exact absurd (congrArg (·.1.1) first) (writeFile_admits accepted path)
      · rintro ⟨before, g, after, split, rfl, bad, done⟩
        obtain ⟨rfl, rfl, rfl⟩ | ⟨b, rfl, -⟩ := splits before g after split
        · exact absurd accepted bad
        · rw [failed] at done
          cases done
    · have written (r : List OutputFile) : writeFiles root (f :: r) d log = writeFiles root r d₁ log₁ := by
        rw [writeFiles, Errand.bind_run first]
      rw [written, ih]
      constructor
      · rintro ⟨before, g, after, rfl, same, bad, done⟩
        exact ⟨f :: before, g, after, rfl, same, bad, written before ▸ done⟩
      · rintro ⟨before, g, after, split, same, bad, done⟩
        obtain ⟨rfl, rfl, rfl⟩ | ⟨b, rfl, rest⟩ := splits before g after split
        · exact absurd accepted bad
        · exact ⟨b, g, after, rest, same, bad, written b ▸ done⟩

theorem checkedName_or (name : String) :
    checkedName name = .ok name ∨ checkedName name = .error (.projectName name) := by
  rw [checkedName]
  split
  · exact .inr rfl
  · exact .inl rfl

/-- The folder of a project, as it is named: the name is accepted, and a disk could have it. -/
structure Named (out name : String) : Prop where
  accepted : checkedName name = .ok name
  outFree : NulFree out
  nameFree : NulFree name

/-- The outcome of a delivery into a folder and the disk afterwards. The name of the project is looked at before
anything is written. -/
theorem deliver_cases : Named out name ∧ ((deliver base (.folder out) name files).run d).1 =
      ((writeFiles (resolve base out ++ [name]) files d []).1.1.map fun _ => .folder (resolve base out ++ [name]),
        (writeFiles (resolve base out ++ [name]) files d []).1.2) ∨
    ¬ Named out name ∧ ((deliver base (.folder out) name files).run d).1 =
      (.error (if checkedName name = .ok name then .nulInPath else .projectName name), d) := by
  obtain named | bad := checkedName_or name
  · have first : Errand.ofJob (Job.ofExcept (checkedName name)) d [] = ((.ok name, d), []) := by
      rw [named]
      rfl
    by_cases free : NulFree out ∧ NulFree name
    · refine .inl ⟨⟨named, free.1, free.2⟩, ?_⟩
      rw [deliver_folder free.1 free.2 named]
      rcases ran : writeFiles (resolve base out ++ [name]) files d [] with ⟨⟨e | _, d₁⟩, log₁⟩
      · rw [Errand.bind_fail ran]
        rfl
      · rw [Errand.bind_run ran]
        rfl
    · refine .inr ⟨fun all => free ⟨all.outFree, all.nameFree⟩, ?_⟩
      have checked := @Errand.checkPath_eq l d [] [out, name]
      rw [if_pos (by simpa [NulFree, mem_ofString, or_iff_not_imp_left] using free)] at checked
      rw [if_pos named, Errand.run, deliver, Errand.bind_run first, Errand.bind_fail checked]
  · have first : Errand.ofJob (Job.ofExcept (checkedName name)) d [] = ((.error (.projectName name), d), []) := by
      rw [bad]
      rfl
    refine .inr ⟨fun all => (by cases bad.symm.trans all.accepted), ?_⟩
    rw [if_neg (by simp [bad]), Errand.run, deliver, Errand.bind_fail first]

theorem deliver_ok_iff : (∃ parcel, ((deliver base (.folder out) name files).run d).1 = (.ok parcel, d')) ↔
    Named out name ∧ (writeFiles (resolve base out ++ [name]) files d []).1 = (.ok (), d') := by
  obtain ⟨named, ran⟩ | ⟨bad, ran⟩ := @deliver_cases l d base out name files
  · rw [ran, and_iff_right named]
    rcases writeFiles (resolve base out ++ [name]) files d [] with ⟨⟨e | _, d₁⟩, log₁⟩ <;> simp [Except.map]
  · rw [ran]
    simp [bad]

theorem deliver_outside_iff {path : Loose} :
    ((deliver base (.folder out) name files).run d).1 = (.error (.outsideProject path), d') ↔ Named out name ∧
      (writeFiles (resolve base out ++ [name]) files d []).1 = (.error (.outsideProject path), d') := by
  obtain ⟨named, ran⟩ | ⟨bad, ran⟩ := @deliver_cases l d base out name files
  · rw [ran, and_iff_right named]
    rcases writeFiles (resolve base out ++ [name]) files d [] with ⟨⟨e | _, d₁⟩, log₁⟩ <;> simp [Except.map]
  · rw [ran, iff_false_right fun named => bad named.1]
    intro same
    split at same <;> cases same

theorem down_root (named : Named out name) : ∀ x ∈ resolve base out ++ [name], x ≠ ".." := by
  intro x mem
  obtain mem | mem := List.mem_append.1 mem
  · exact (mem_place mem).2
  · obtain rfl := List.mem_singleton.1 mem
    exact (checkedName_eq_ok.1 named.accepted).2.1.ne_up

theorem settled_nil (d : Disk l) : Settled d d [] where
  written := ⟨fun _ _ found => (nomatch found), fun _ _ some => by simp at some, fun _ _ => rfl⟩
  above := by simp

/-- A delivery that comes to an end has settled its files. -/
theorem deliver_settled {parcel : Parcel}
    (done : ((deliver base (.folder out) name files).run d).1 = (.ok parcel, d')) :
    Settled d d' (files.map (target (resolve base out ++ [name]))) := by
  obtain ⟨named, ran⟩ := deliver_ok_iff.1 ⟨parcel, done⟩
  exact writeFiles_settled (down_root named) (settled_nil d) (Prod.ext ran rfl)

end Deliver

/-- A delivery into a folder that is rejected. If the name of the project is, nothing is written. If the path of a
file is, the disk is afterwards as if the files before it had been delivered alone, and so it is as it was exactly
if all that they say was there already. -/
theorem rejected_delivery (base : List String) (out name : String) (files : List OutputFile) (d : Disk l) :
    (checkedName name ≠ .ok name →
      ((deliver base (.folder out) name files).run d).1 = (.error (.projectName name), d)) ∧
    (∀ path d', ((deliver base (.folder out) name files).run d).1 = (.error (.outsideProject path), d') →
      ∃ (before : List OutputFile) (f : OutputFile) (after : List OutputFile) (parcel : Parcel),
        files = before ++ f :: after ∧ f.path = path ∧ ¬ Accepted f ∧
        ((deliver base (.folder out) name before).run d).1 = (.ok parcel, d') ∧
        ((∀ p, d'.entry? p = d.entry? p) ↔ Present d (before.map (target (resolve base out ++ [name]))))) ∧
    ∀ (before : List OutputFile) (f : OutputFile) (after : List OutputFile) (parcel : Parcel) (d' : Disk l),
      files = before ++ f :: after → ¬ Accepted f →
      ((deliver base (.folder out) name before).run d).1 = (.ok parcel, d') →
      ((deliver base (.folder out) name files).run d).1 = (.error (.outsideProject f.path), d') := by
  refine ⟨fun bad => ?_, fun path d' rejected => ?_, fun before f after parcel d' split bad done => ?_⟩
  · obtain ⟨named, -⟩ | ⟨-, ran⟩ := @deliver_cases l d base out name files
    · exact absurd named.accepted bad
    · rw [ran, if_neg bad]
  · obtain ⟨named, written⟩ := deliver_outside_iff.1 rejected
    obtain ⟨before, f, after, split, same, bad, ran⟩ := writeFiles_rejects_iff.1 written
    obtain ⟨parcel, done⟩ := deliver_ok_iff.2 ⟨named, ran⟩
    exact ⟨before, f, after, parcel, split, same, bad, done, (deliver_settled done).unchanged_iff⟩
  · obtain ⟨named, ran⟩ := deliver_ok_iff.1 ⟨parcel, done⟩
    exact deliver_outside_iff.2 ⟨named, writeFiles_rejects_iff.2 ⟨before, f, after, split, rfl, bad, ran⟩⟩

/-- Two files, the second of which would lie beside the project. -/
def straying : List OutputFile := [.ofPath "a.txt" "x" .other, .ofPath "../b.txt" "y" .other]

/-- The second file is rejected, and the first one stays on the disk. -/
theorem straying_leaves_first : checkedName "demo" = .ok "demo" ∧
    ∃ d', ((deliver [] (.folder "out") "demo" straying).run (emptyFolder .usual)).1 =
        (.error (.outsideProject "../b.txt"), d') ∧ ¬ ∀ p, d'.entry? p = Disk.entry? (emptyFolder .usual) p := by
  refine ⟨by decide, ?_⟩
  obtain ⟨-, changed, rejects⟩ := rejected_delivery [] "out" "demo" straying (emptyFolder .usual)
  have completes : ((deliver [] (.folder "out") "demo"
      [.ofPath "a.txt" "x" .other]).run (emptyFolder .usual)).1.1.toBool = true := by decide +kernel
  rcases ran : ((deliver [] (.folder "out") "demo"
    [.ofPath "a.txt" "x" .other]).run (emptyFolder .usual)).1 with ⟨r, d'⟩
  rw [ran] at completes
  cases r with
  | error f => cases completes
  | ok parcel =>
    have failed := rejects [.ofPath "a.txt" "x" .other] (.ofPath "../b.txt" "y" .other) [] parcel d' rfl
      (by decide) ran
    refine ⟨d', failed, fun same => ?_⟩
    obtain ⟨before, f, after, -, split, path, -, -, unchanged⟩ := changed _ d' failed
    obtain _ | ⟨first, _ | ⟨second, rest⟩⟩ := before
    · cases split
      exact absurd path (by decide)
    · cases split
      have there := (unchanged.1 same ["out", "demo", "a.txt"] (octets "x") (by decide)).2
      exact absurd there (by decide)
    · simp [straying] at split

end Pagesmith.Delivery
