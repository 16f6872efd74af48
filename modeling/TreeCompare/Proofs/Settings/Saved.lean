import TreeCompare.Proofs.Settings.RoundTrip
import TreeCompare.Proofs.Text.Utf8
import TreeCompare.Proofs.Trees.Parents
import TreeCompare.Proofs.Trees.Writing
import TreeCompare.Settings.Store
/-!
# Settings that were saved are found again

Saving settings makes the directories that lead to their file and writes their
text to it. The text stands for the settings (`ofText?_toText`), its bytes are
read back as the text, and the file is read back as the bytes: so the settings
are found again (`ofFile_of_writeTo`). Making directories can change where a path
through `..` leads, though, and not every file that can be written can be read;
then they are lost (`ofFile_writeTo_lost`).
-/

namespace TreeCompare

namespace Settings

variable {settings : Settings} {t t' : FileTree} {path : Path}

/-- The tree with the directories that lead to a file. -/
def prepare (t : FileTree) (path : Path) : Except IoError FileTree :=
  match path.parent? with
  | some dir => t.makeDirectories dir
  | none => .ok t

/-- Saving settings is making the directories and writing their text. -/
theorem writeTo_eq (t : FileTree) (path : Path) (settings : Settings) :
    writeTo t path settings =
      ((prepare t path).bind (·.setBytes path (Utf8.encode settings.toText))).mapError .io := by
  rw [writeTo, prepare]
  cases path.parent? with
  | none =>
    simp only [Except.bind]
    cases t.setBytes path (Utf8.encode settings.toText) <;> rfl
  | some dir =>
    simp only
    cases t.makeDirectories dir with
    | error e => rfl
    | ok t =>
      simp only [Except.bind]
      cases t.setBytes path (Utf8.encode settings.toText) <;> rfl

/-- Settings that are saved are written once the directories are made. -/
theorem writeTo_eq_ok (h : writeTo t path settings = .ok t') :
    ∃ prepared, prepare t path = .ok prepared ∧
      prepared.setBytes path (Utf8.encode settings.toText) = .ok t' := by
  rw [writeTo_eq] at h
  cases hprepared : prepare t path with
  | error e =>
    rw [hprepared] at h
    cases h
  | ok prepared =>
    rw [hprepared, Except.bind] at h
    refine ⟨prepared, rfl, ?_⟩
    cases hset : prepared.setBytes path (Utf8.encode settings.toText) with
    | error e =>
      rw [hset] at h
      cases h
    | ok t'' =>
      rw [hset] at h
      exact congrArg Except.ok (Except.ok.inj h)

/-- **What a path can hold** it still can once the directories that lead there have
been made, unless it goes back up. -/
theorem canHold_prepare {prepared : FileTree} {length : Nat} (hold : t.CanHold path length)
    (hup : .parent ∉ path.components) (h : prepare t path = .ok prepared) :
    prepared.CanHold path length := by
  unfold prepare at h
  split at h
  · next hparent =>
    by_cases hthere : ∃ i, t.find path true = .ok i
    · obtain ⟨i, hi⟩ := hthere
      cases (FileTree.makeDirectories_parent hi (hold.not_isDirectory hi) hparent).symm.trans h
      exact hold
    · intro i hi
      have hnothing : ∀ j, t.find path true ≠ .ok j := fun j hj => hthere ⟨j, hj⟩
      exact absurd hi (FileTree.not_found_of_makeDirectories hnothing hup hparent h i)
  · cases h
    exact hold

/-- **Settings that were saved are found again**, whatever their exclusion lines
are, if the path leads to nothing or to a regular file that can hold their text. A
path that goes back up has to do so once the directories that lead there have been
made. -/
theorem ofFile_of_writeTo (hold : t.CanHold path (Utf8.encode settings.toText).length)
    (hup : .parent ∈ path.components → ∀ prepared, prepare t path = .ok prepared →
      prepared.CanHold path (Utf8.encode settings.toText).length)
    (h : writeTo t path settings = .ok t') :
    ofFile t'.fileSystem path = .ok ⟨settings, path, true, settings.portableMode⟩ := by
  obtain ⟨prepared, hprepared, hset⟩ := writeTo_eq_ok h
  have hhold : prepared.CanHold path (Utf8.encode settings.toText).length := by
    by_cases hparent : .parent ∈ path.components
    · exact hup hparent prepared hprepared
    · exact canHold_prepare hold hparent hprepared
  obtain ⟨hexists, hbytes⟩ := FileTree.bytesAt_of_setBytes hset hhold
  simp only [ofFile, hexists, if_true, hbytes, Utf8.decode?_encode, ofText?_toText]

/-- Settings with all that there is to quote: nothing, marks of both kinds at the
ends, lines that begin and end the text, and characters that are escaped. -/
def quotedSample : Settings where
  ignorePatterns := ["", "it's", "\"q\"", "'''\"\"\"", "\\", "\na\r\n", "\t\u0001\u007f é"]
  recursive := true
  portableMode := true

/-- A new file in a new directory. -/
theorem ofFile_of_writeTo_quotedSample :
    let path := Path.ofString "conf/dirpair.toml"
    ∃ t', writeTo .empty path quotedSample = .ok t' ∧
      ofFile t'.fileSystem path = .ok ⟨quotedSample, path, true, true⟩ := by
  intro path
  have hnothing : FileTree.empty.find path true = .error .notFound := by
    decide +kernel
  have hdown : Path.Component.parent ∉ path.components := by
    decide +kernel
  have hwritten : (writeTo .empty path quotedSample).isOk = true := by
    decide +kernel
  cases h : writeTo .empty path quotedSample with
  | error e =>
    rw [h] at hwritten
    cases hwritten
  | ok t' =>
    refine ⟨t', rfl, ofFile_of_writeTo (fun i hi => ?_) (fun hup => absurd hup hdown) h⟩
    cases hi.symm.trans hnothing

/-- A link to the device that keeps nothing. -/
def linkedTree : FileTree where
  objects := [
    { content := .directory 0 [(.ofString "n", 1), (.ofString "dev", 2)] none },
    { content := .symlink (.ofString "/dev/null") },
    { content := .directory 0 [(.ofString "null", 3)] none },
    { content := .device .charDevice 0x103 }]
  root := 0
  current := 0

/-- A file that cannot be read. -/
def faultyTree : FileTree where
  objects := [
    { content := .directory 0 [(.ofString "n", 1)] none },
    { content := .regular [], faults := { failAt := some 0 } }]
  root := 0
  current := 0

/-- **Settings that are saved and lost.** The path `new/../n` leads to nothing as
long as there is no `new`; saving makes it, and the settings go to the device. In
a regular file that cannot be read they are not found either. -/
theorem ofFile_writeTo_lost :
    let settings : Settings := { ignorePatterns := ["*.o"], recursive := true }
    let around := Path.ofString "new/../n"
    let straight := Path.ofString "n"
    (linkedTree.fileSystem.pathExists around = false ∧
      (writeTo linkedTree around settings).map (fun t => ofFile t.fileSystem around) =
        .ok (.ok ⟨{}, around, true, false⟩)) ∧
      (faultyTree.fileSystem.stat straight true).map (·.kind) = .ok .regular ∧
      (writeTo faultyTree straight settings).map (fun t => ofFile t.fileSystem straight) =
        .ok (.error (.io .inputOutput)) := by
  decide +kernel

end Settings

end TreeCompare
