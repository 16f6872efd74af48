import Mathlib.Data.List.TakeWhile
import TreeCompare.Proofs.Operations.StartFilter
import TreeCompare.Proofs.Trees.Together
/-!
# A merge that starts at a name

Both directories of the pair that a comparison starts with go through the
start filter, the left one first, and share one order of names on the way. A
name of both should pass on both sides or on neither. `keptAlike_iff` says
when it does: unless a comparison fails between the two places where the
name is met, and its key and its bytes stand on different sides of the start
name (`Merge.JudgedApart`).
-/

namespace TreeCompare

variable {σ : Type} {t : TreeComparison σ} {answer : Name → Except KeyError SortKey}
  {m : Merge σ} {pair : DirectoryPair} {s : RunState σ} {found : TreeComparison.Findings}
  {depth : Nat} {start name : Name}

open Comparison

/-- The start filter goes by the key of `name` on the left and by its bytes
on the right, and the two disagree. `s` is the state of the run before
either directory is read. -/
structure Merge.JudgedApart (t : TreeComparison σ) (answer : Name → Except KeyError SortKey)
    (start : Name) (s : RunState σ) (m : Merge σ) (name : Name) : Prop where
  collates : t.comparison.order.usesKeys s = true
  /-- No name on the left up to this one fails to be compared. -/
  left : name ∈ (entryNames t.files m.pair.left).takeWhile (comparable answer · start)
  /-- Some name on the left, or one on the right up to this one, does. -/
  right : ¬ ((entryNames t.files m.pair.left).all (comparable answer · start) = true ∧
    name ∈ (entryNames t.files m.pair.right).takeWhile (comparable answer · start))
  disagree : judged answer name start = .lt ↔ name.bytewise start ≠ .lt

namespace TreeComparison

/-- The tables of a merge that starts at a name are what the filter keeps of
the two directories, the left one first. -/
theorem kept_of_merge? (ha : t.comparison.order.collator.AnswersBy answer)
    (hstart : t.comparison.options.startingFile = some start) (hroot : pair.isRoot = true)
    (h : t.merge? depth pair s found = some m) :
    let names side := entryNames t.files (m.pair.side side)
    m.left.names.Perm (t.comparison.kept (some start) false (names .left) s).1 ∧
      ∃ u, t.comparison.order.usesKeys u =
          t.comparison.order.usesKeys (t.comparison.kept (some start) false (names .left) s).2 ∧
        m.right.names.Perm (t.comparison.kept (some start) false (names .right) u).1 := by
  obtain ⟨-, -, u, hl, hr⟩ := reads_of_merge? h
  rw [hroot, if_pos rfl, hstart] at hl hr
  obtain ⟨hpl, hul⟩ := namesIn_start ha hl
  exact ⟨hpl, u, hul, (namesIn_start ha hr).1⟩

/-- **When the start filter treats both sides alike.** A name that both
directories have, and that is not left out, is kept on both sides or on
neither, unless it is judged by its key on the left and by its bytes on the
right and the two disagree. -/
theorem keptAlike_iff (ha : t.comparison.order.collator.AnswersBy answer)
    (hfs : t.files.ListsOnce) (hstart : t.comparison.options.startingFile = some start)
    (hroot : pair.isRoot = true) (h : t.merge? depth pair s found = some m)
    (hl : name ∈ m.names t .left) (hr : name ∈ m.names t .right) :
    (name ∈ m.left.names ↔ name ∈ m.right.names) ↔ ¬ m.JudgedApart t answer start s name := by
  obtain ⟨hpl, u, hu, hpr⟩ := kept_of_merge? ha hstart hroot h
  rw [Merge.names, keptNames_eq, List.mem_filter, Bool.not_eq_true'] at hl hr
  rw [hpl.mem_iff, hpr.mem_iff, mem_kept_iff ha (nodup_entryNames hfs _) hl.1 hl.2,
    mem_kept_iff ha (nodup_entryNames hfs _) hr.1 hr.2, passes_false_iff, passes_false_iff, hu]
  by_cases hs : t.comparison.order.usesKeys s = true
  · rw [(kept_eq ha hs _ _ _).2]
    simp only [hs, true_and]
    by_cases hleft : name ∈
        (entryNames t.files (m.pair.side .left)).takeWhile (comparable answer · start)
    · by_cases hright :
          (entryNames t.files (m.pair.side .left)).all (comparable answer · start) = true ∧
            name ∈ (entryNames t.files (m.pair.side .right)).takeWhile (comparable answer · start)
      · rw [if_pos hleft, if_pos hright]
        exact iff_of_true Iff.rfl fun ha => ha.right hright
      · rw [if_pos hleft, if_neg hright]
        have hiff : m.JudgedApart t answer start s name ↔
            (judged answer name start = .lt ↔ name.bytewise start ≠ .lt) :=
          ⟨fun ha => ha.disagree, fun hd => ⟨hs, hleft, hright, hd⟩⟩
        rw [hiff]
        exact not_iff.symm
    · -- a name that fails on the left, or stands behind one that does, is met by bytes on the right
      have hright :
          ¬ ((entryNames t.files (m.pair.side .left)).all (comparable answer · start) = true ∧
            name ∈ (entryNames t.files (m.pair.side .right)).takeWhile
              (comparable answer · start)) := by
        rintro ⟨hall, -⟩
        refine hleft ?_
        rw [List.takeWhile_eq_self_iff.2 (List.all_eq_true.1 hall)]
        exact hl.1
      rw [if_neg hleft, if_neg hright]
      exact iff_of_true Iff.rfl fun ha => hleft ha.left
  · rw [kept_of_not_usesKeys hs, if_neg fun h => hs h.1, if_neg fun h => hs h.1]
    exact iff_of_true Iff.rfl fun ha => hs ha.collates

/-- Two directories `l` and `r` with the same two files, one of which has a
name that is no text. -/
def startedTree : FileTree where
  objects := [
    { content := .directory 0 [(.ofString "l", 1), (.ofString "r", 2)] none },
    { content := .directory 0 [(.ofString "a", 3), (⟨[0xFF]⟩, 3)] none },
    { content := .directory 0 [(.ofString "a", 3), (⟨[0xFF]⟩, 3)] none },
    { content := .regular [] }]
  root := 0
  current := 0

/-- A comparison of `startedTree` that ignores case and starts at `B`. -/
def started : TreeComparison Unit where
  comparison := ⟨{ ignoreCase := true, startingFile := some (.ofString "B") }, .scalarValues,
    fun _ => false⟩
  options := {}
  files := startedTree.fileSystem

/-- The file `a` of both directories, which comes before `B` by its key and
behind it by its bytes. -/
theorem keptAlike_iff_started :
    let operand path : Operand := .known (.ofString path) ⟨.inode 1 0 none, .directory, 0⟩
    let m := (started.merge? 0 (.root (operand "l") (operand "r")) (.start ()) []).get
      (by decide +kernel)
    (Name.ofString "a" ∈ m.left.names ↔ Name.ofString "a" ∈ m.right.names) ↔
      ¬ m.JudgedApart started (Collator.scalarKey · true) (.ofString "B") (.start ())
        (.ofString "a") := by
  intro operand m
  have hd : startedTree.Distinct := by
    unfold FileTree.Distinct
    decide
  exact keptAlike_iff (fun _ _ => rfl) hd.listsOnce rfl rfl (Option.some_get _).symm
    (by decide +kernel) (by decide +kernel)

-- the two directories hold the same, and `a` is reported as missing on the left
example : (started.compareTrees (.ofString "l") (.ofString "r") (.start ())).result =
    [.onlyIn (.ofString "r") (.ofString "a")] := by decide +kernel

end TreeComparison

end TreeCompare
