import TreeCompare.Proofs.Trees.Together
import TreeCompare.Proofs.Trees.Turned
/-!
# The order of enumeration

The order in which directories yield their entries, and entries that are left
out, show nowhere in a comparison of two directories: the names that are kept
decide on every level how they are sorted and whether the order is given up
(`compareTrees_of_readsAlike`).
-/

namespace TreeCompare

variable {σ : Type} {answer : Name → Except KeyError SortKey}

/-- The file system whose directories yield their entries the other way round,
with one more name in front. -/
def FileSystem.shuffled (fs : FileSystem) (extra : Name) : FileSystem :=
  { fs with
    enumerate := fun path => (fs.enumerate path).map fun entries =>
      ⟨extra :: entries.names.reverse, entries.failure⟩ }

/-- It reads alike if that name is left out. -/
theorem Comparison.readsAlike_shuffled {c : Comparison σ} {extra : Name}
    (hextra : c.excluded extra = true) (fs : FileSystem) : c.ReadsAlike fs (fs.shuffled extra) := by
  refine ⟨fun _ _ => rfl, fun _ => rfl, fun _ => rfl, fun path => ?_⟩
  simp only [FileSystem.shuffled]
  cases fs.enumerate path with
  | error e => exact .none
  | ok entries =>
    simp only [Except.map, keptOf?, List.filter_cons, hextra, Bool.not_true, Bool.false_eq_true,
      if_false]
    split
    · exact .none
    · exact .some ((List.reverse_perm entries.names).symm.filter _)

namespace TreeComparison

variable {t : TreeComparison σ} {fs : FileSystem}

/-- What is done with a pairing is a matter of objects, files and links. -/
theorem visit_of_readsAlike (h : t.comparison.ReadsAlike t.files fs) (descend : Descent σ)
    (pair : DirectoryPair) (p : Pairing) :
    { t with files := fs }.visit descend pair p = t.visit descend pair p := by
  have hlook : ∀ path s found next, { t with files := fs }.lookAt path s found next =
      t.lookAt path s found next := fun path s found next => by
    simp only [lookAt, h.stat]
  have hobjects : ∀ descend left right, { t with files := fs }.compareObjects descend left right =
      t.compareObjects descend left right := fun descend left right => by
    funext s found
    simp only [compareObjects, compareFiles, FileSystem.sameContents, h.openFile, compareLinks,
      h.readLink]
    rfl
  funext s found
  simp only [visit, visitLone, hlook, hobjects]
  rfl

/-- So a comparison over file systems that read alike is the same. -/
theorem turnsInto_of_readsAlike (h : t.comparison.ReadsAlike t.files fs) :
    TurnsInto answer .left (fun _ _ => True) Eq t { t with files := fs } := by
  refine ⟨rfl, h, fun h => congrArg _ h.symm, fun {pair p} _ _ => ?_⟩
  rcases t.goes_or_comesTo pair p with ⟨left, right, -, -, hg⟩ | ⟨reported, hc, -⟩
  · refine .goes trivial hg fun descend s found => ?_
    rw [DirectoryPair.turned, Pairing.turned, visit_of_readsAlike h]
    exact hg descend s found
  · have hsame : Option.Rel Eq reported reported := by
      cases reported with
      | none => exact .none
      | some f => exact .some rfl
    refine .settles hsame hc fun descend s found => ?_
    rw [DirectoryPair.turned, Pairing.turned, visit_of_readsAlike h]
    exact hc descend s found

/-- **The order of enumeration and entries that are left out do not matter.**
Two directories are compared with the same status and the same findings in the
same order, and leave names ordered by the same, on any two file systems that
tell the same of objects, files and links and whose directories, one by one,
cannot be enumerated in both or yield the same names in some order, those that
are left out not counted. This holds for every collator whose answer to a name,
a key or a failure, depends on the name alone, if there is no starting file. -/
theorem compareTrees_of_readsAlike {left right : Path} {leftStat rightStat : ObjectStat}
    (ha : t.comparison.collator.AnswersBy answer)
    (hstart : t.comparison.options.startingFile = none)
    (hfs : t.comparison.ReadsAlike t.files fs)
    (hl : t.files.stat left t.comparison.options.followLinks = .ok leftStat)
    (hr : t.files.stat right t.comparison.options.followLinks = .ok rightStat)
    (hkl : leftStat.kind = .directory) (hkr : rightStat.kind = .directory) (s s' : RunState σ) :
    let step := t.compareTrees left right s
    let step' := { t with files := fs }.compareTrees left right s'
    step'.status = step.status ∧ step'.result = step.result ∧
      step'.run.basis = step.run.basis := by
  have hagree := t.compareTrees_agrees { t with files := fs } hl hr hkl hkr
    ((hfs.stat left _).trans hl) ((hfs.stat right _).trans hr) hkl hkr
    (fun depth _ _ hs => compareWithin_turned (turnsInto_of_readsAlike hfs) ha hstart depth
      trivial hs .nil) s s'
  exact ⟨hagree.status, (List.forall₂_eq_eq_eq ▸ hagree.result).symm, hagree.basis⟩

/-- A comparison of `sampleTree` with a collator that fails on the name in the
subdirectories, where dumps are left out. -/
def sampleByName : TreeComparison Unit where
  comparison := ⟨{ ignoreCase := true }, .failingOnName .foldAscii (.ofString "m"),
    fun name => name = .ofString "core"⟩
  options := { recursive := true }
  files := sampleTree.fileSystem

/-- The order is given up within the subdirectory, in whatever order the
entries come. -/
theorem compareTrees_of_readsAlike_sample :
    let left := Path.ofString "l"
    let right := Path.ofString "r"
    let shuffled : TreeComparison Unit :=
      { sampleByName with files := sampleTree.fileSystem.shuffled (.ofString "core") }
    let step := sampleByName.compareTrees left right (.start ())
    let step' := shuffled.compareTrees left right (.start ())
    step'.status = step.status ∧ step'.result = step.result ∧
      step'.run.basis = step.run.basis := by
  have hl : sampleTree.fileSystem.stat (.ofString "l") false =
      .ok ⟨.inode 1 1 none, .directory, 0⟩ := by rfl
  have hr : sampleTree.fileSystem.stat (.ofString "r") false =
      .ok ⟨.inode 1 2 none, .directory, 0⟩ := by rfl
  have hfs : sampleByName.comparison.ReadsAlike sampleTree.fileSystem
      (sampleTree.fileSystem.shuffled (.ofString "core")) :=
    Comparison.readsAlike_shuffled (by decide) _
  exact compareTrees_of_readsAlike (Collator.answersBy_ofKey _) rfl hfs hl hr rfl rfl _ _

example : (sampleByName.compareTrees (.ofString "l") (.ofString "r") (.start ())).run.basis =
    .bytewise := by decide +kernel

end TreeComparison

end TreeCompare
