import Pagesmith.Proofs.Format.Lines
import Pagesmith.Proofs.Value.Document
import Pagesmith.Proofs.Value.Indented

/-!
Manifests in form. A manifest is read and written anew, and still writes the same value; one that cannot
be brought into form stays as it is.
-/

namespace Pagesmith.Format
open Value

/-- The value is written by its indented texts, however deep the steps are. -/
def IsWritten (v : Value) : Prop :=
  ∀ indent, Reader.Writes (some digitLimit) v (v.indented indent 0).toList

theorem ofJson?_manifestText {v : Value} (h : IsWritten v) (indent : Nat) :
    ofJson? (manifestText indent v) = .ok v := by
  have feed : Reader.IsSpace "\n".toList := by simp [Reader.IsSpace, Reader.isSpace]
  rw [ofJson?, manifestText, String.toList_append, Reader.document_writes_space (h indent) feed]

/-- A manifest that is brought into form is written anew. -/
theorem manifest_rewrites {o : Options} {s t : String} (h : manifest o s = .ok t) :
    ∃ v, ofJson? s = .ok v ∧ t = manifestText o.indent v := by
  rw [manifest] at h
  split at h
  · next u read => exact ⟨_, ofJson?_of_ofDocument? read, (Except.ok.inj h).symm⟩
  · next v _ read =>
    cases step : checkStep o with
    | error cause =>
      rw [step] at h
      cases h
    | ok _ =>
      rw [step] at h
      exact ⟨v, ofJson?_of_ofDocument? read, (Except.ok.inj h).symm⟩
  · cases h

theorem ofJson?_formed {f : OutputFile} {v : Value} (kind : f.kind.category = .manifest)
    {indent : Nat} (text : f.content = manifestText indent v) (h : IsWritten v) (o : Options) :
    ofJson? (formed o f).content = .ok v := by
  have given : ofJson? f.content = .ok v := by rw [text, ofJson?_manifestText h]
  rw [formed, kind]
  cases form : content o .manifest f.content with
  | error _ => exact given
  | ok t =>
    obtain ⟨w, read, rfl⟩ := manifest_rewrites form
    obtain rfl : w = v := Except.ok.inj (read.symm.trans given)
    exact ofJson?_manifestText h o.indent

/-- The manifest of a value that was read is a document of the value, too. -/
theorem ofDocument?_manifestText {s : String} {v : Value} (read : ofDocument? s = .ok v) (indent : Nat) :
    ofDocument? (manifestText indent v) = .ok v := by
  obtain ⟨n, fits, _, t, _, -, -, -, reads⟩ := ofDocument?_ok_iff.1 read
  have feed : Reader.IsSpace ['\n'] := by simp [Reader.IsSpace, Reader.isSpace]
  have written := (reads.writes_indented indent 0).reads
  refine ofDocument?_ok_iff.2 ⟨_, reads.nesting_le.trans fits, [], _, _, ?_, Reader.isSpace_nil, feed, written⟩
  rw [manifestText, String.toList_append]
  rfl

/-- The outcome of a manifest hangs on the value it writes only. -/
theorem manifest_congr {o : Options} {s s' : String} {v : Value} (read : ofDocument? s = .ok v)
    (read' : ofDocument? s' = .ok v) : manifest o s = manifest o s' := by
  rw [manifest, manifest, read, read']

theorem manifest_ok {o : Options} (small : o.indent < Text.memoryLimit) {s : String} {v : Value}
    (read : ofDocument? s = .ok v) : manifest o s = .ok (manifestText o.indent v) := by
  rw [manifest, read, checkStep_ok small]
  cases v <;> rfl

theorem manifest_error {o : Options} {s : String} {cause : Fault} (refused : ofDocument? s = .error cause) :
    manifest o s = .error cause := by
  rw [manifest, refused]

/-- A manifest that can be read is written anew so that it is read as before, and once written it stays as it is; one
that cannot be read is left alone, with a notice. -/
theorem manifest_settles (o : Options) (s : String) :
    (∀ v, ofDocument? s = .ok v ↔ IsDocument v s) ∧
    (∀ v, ofDocument? s = .ok v →
      ofDocument? (manifestText o.indent v) = .ok v ∧ manifest o (manifestText o.indent v) = manifest o s ∧
      (o.indent < Text.memoryLimit → manifest o s = .ok (manifestText o.indent v))) ∧
    (∀ cause, ofDocument? s = .error cause → ∀ f : OutputFile, f.kind.category = .manifest → f.content = s →
      ∀ log, file o f log = (.ok f, log ++ [.about .plugin "pagegen.postprocessors.formatter" .warning
        ("Could not format " ++ f.path ++ ": " ++ cause.message)])) := by
  refine ⟨fun v => ofDocument?_ok_iff, fun v read => ?_, fun cause refused f kind text log => ?_⟩
  · have again := ofDocument?_manifestText read o.indent
    exact ⟨again, manifest_congr again read, fun small => manifest_ok small read⟩
  · have form : content o f.kind.category f.content = .error cause := by
      rw [kind, text, content, manifest_error refused]
    rw [file, form]
    rfl

/-- A manifest on one line, with a key that comes twice, a decimal and a number that is none. -/
def looseManifest : String := "\x7b\"b\": 1, \"a\": [1.0, NaN], \"b\": \x7b\x7d\x7d"

/-- A manifest with an item too few. -/
def brokenManifest : OutputFile := .ofPath "package.json" "[1,]" .json

theorem looseManifest_settles :
    (∃ v, ofDocument? looseManifest = .ok v ∧ Options.default.indent < Text.memoryLimit ∧
      manifest .default looseManifest =
        .ok "\x7b\n  \"b\": \x7b\x7d,\n  \"a\": [\n    1.0,\n    NaN\n  ]\n\x7d\n" ∧
      ofDocument? "\x7b\n  \"b\": \x7b\x7d,\n  \"a\": [\n    1.0,\n    NaN\n  ]\n\x7d\n" = .ok v) ∧
    ∃ cause, ofDocument? "[1,]" = .error cause ∧ ∀ log, file .default brokenManifest log =
      (.ok brokenManifest, log ++ [.about .plugin "pagegen.postprocessors.formatter" .warning
        "Could not format package.json: Expecting value: line 1 column 4 (char 3)"]) := by
  obtain ⟨-, accepted, -⟩ := manifest_settles .default looseManifest
  obtain ⟨-, -, refused⟩ := manifest_settles .default "[1,]"
  constructor
  · have small : Options.default.indent < Text.memoryLimit := by decide
    have text : (ofDocument? looseManifest).toOption.map (manifestText Options.default.indent) =
        some "\x7b\n  \"b\": \x7b\x7d,\n  \"a\": [\n    1.0,\n    NaN\n  ]\n\x7d\n" := by decide +kernel
    cases read : ofDocument? looseManifest with
    | error cause =>
      rw [read] at text
      cases text
    | ok v =>
      rw [read] at text
      obtain ⟨again, -, written⟩ := accepted v read
      rw [Option.some.inj text] at again written
      exact ⟨v, rfl, small, written small, again⟩
  · have message : (match ofDocument? "[1,]" with | .error cause => cause.message | .ok _ => "") =
        "Expecting value: line 1 column 4 (char 3)" := by decide +kernel
    cases read : ofDocument? "[1,]" with
    | ok v =>
      rw [read] at message
      have said : "" = "Expecting value: line 1 column 4 (char 3)" := message
      exact absurd said (by decide)
    | error cause =>
      rw [read] at message
      have said : cause.message = "Expecting value: line 1 column 4 (char 3)" := message
      refine ⟨cause, rfl, fun log => ?_⟩
      rw [refused cause read brokenManifest rfl rfl log, said]
      rfl

end Pagesmith.Format
