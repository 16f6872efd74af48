import TreeCompare.Proofs.Pairing.LostStep
import TreeCompare.Proofs.Trees.Listing
import TreeCompare.Proofs.Trees.Merges
/-!
# What stays together in a comparison of trees

A name of both directories should be handed on with itself. All merges of a
run share one order of names, and a collation that fails further down gives
it up for the merges around as well, whose names then stay in the order of
the keys (`Merge.LosesStep`). `mergedIn_together_iff` says that this is the
only way in which a name is torn apart, whatever the file system, the
options and the collator are. It does not happen where names are not folded
(`together_of_caseSensitive`) or the collator never fails
(`together_of_gives`).
-/

namespace TreeCompare

variable {σ : Type} {t : TreeComparison σ} {key : Keying} {m : Merge σ} {left right dir : Path}
  {name : Name} {s : RunState σ} {side : Side}

namespace Merge

/-- The names of a merge on a side: those in the directory that are not
left out. -/
def names (t : TreeComparison σ) (m : Merge σ) (side : Side) : List Name :=
  t.comparison.keptNames t.files (m.pair.side side)

/-- Every name that both directories have is handed on once, with
itself. -/
def Together (t : TreeComparison σ) (m : Merge σ) : Prop :=
  ∀ x, x ∈ m.names t .left → x ∈ m.names t .right → Pairing.HandedOnce x (Visit.handed (t.visits m))

/-- The order was given up within a visit, and the names left were out of
step. -/
def LosesStep (t : TreeComparison σ) (key : Keying) (m : Merge σ) : Prop :=
  Visit.LosesStep (t.comparison.order.keying key .collated) (t.visits m)

/-- A merge keeps its names together exactly if it does not lose the
step. -/
theorem Sound.together_iff (hm : m.Sound t key) (hk : t.comparison.order.collator.KeyedBy key) :
    m.Together t ↔ ¬ m.LosesStep t key := by
  have hcommon : ∀ x, Common m.left.names m.right.names x ↔
      x ∈ m.names t .left ∧ x ∈ m.names t .right :=
    fun x => and_congr hm.left_perm.mem_iff hm.right_perm.mem_iff
  have hv := t.visitor_law t.comparison.order.stepLaw_onward (fun _ _ _ => Or.inl rfl) m.depth
    m.pair
  have h : (∀ x, Common m.left.names m.right.names x →
      Pairing.HandedOnce x (Visit.handed (t.visits m))) ↔ ¬ m.LosesStep t key :=
    Comparison.common_handedOnce_iff hk hm.left_nodup hm.right_nodup hm.left_true hm.right_true hv
  simp only [hcommon, and_imp] at h
  exact h

/-- What is handed on of a side is a name of that side. -/
theorem Sound.mem_names (hm : m.Sound t key) {v : Visit σ TreeComparison.Findings}
    (hv : v ∈ t.visits m) (hname : v.pairing.get side = some name) : name ∈ m.names t side := by
  have hmem := TreeComparison.mem_table_of_visits hv hname
  cases side with
  | left => exact hm.left_perm.mem_iff.1 hmem
  | right => exact hm.right_perm.mem_iff.1 hmem

/-- Where names stay together, a name that is handed on alone is not one of
the other side. -/
theorem Sound.not_mem_other (hm : m.Sound t key) (htogether : m.Together t)
    {v : Visit σ TreeComparison.Findings} (hv : v ∈ t.visits m)
    (hside : v.pairing.loneSide = some side) (hname : v.pairing.get side = some name) :
    name ∉ m.names t side.other := by
  intro hother
  have hmem := hm.mem_names hv hname
  have honce : Pairing.HandedOnce name (Visit.handed (t.visits m)) := by
    cases side with
    | left => exact htogether name hmem hother
    | right => exact htogether name hother hmem
  have hp : v.pairing ∈ Visit.handed (t.visits m) := List.mem_map_of_mem hv
  have hmentions : v.pairing.Mentions name := by
    cases side with
    | left => exact Or.inl hname
    | right => exact Or.inr hname
  have hfilter : v.pairing ∈ (Visit.handed (t.visits m)).filter (·.Mentions name) :=
    List.mem_filter.2 ⟨hp, decide_eq_true hmentions⟩
  rw [honce, List.mem_singleton] at hfilter
  rw [hfilter] at hside
  cases hside

end Merge

namespace TreeComparison

/-- Every merge of a comparison is of the names of its two directories. -/
theorem MergedIn.sound (hm : t.MergedIn left right s m)
    (hk : t.comparison.order.collator.KeyedBy key)
    (hstart : t.comparison.options.startingFile = none) (hfs : t.files.ListsOnce) :
    m.Sound t key := by
  obtain ⟨_, _, _, _, _, _, hm⟩ := hm
  obtain ⟨_, _, _, _, h⟩ := hm.exists_merge?
  exact sound_of_merge? hk hstart hfs h

/-- A comparison that keeps the names of all its merges together reports no
name of both sides as one-sided. -/
theorem onlyIn_of_together (hk : t.comparison.order.collator.KeyedBy key)
    (hstart : t.comparison.options.startingFile = none) (hfs : t.files.ListsOnce)
    (h : .onlyIn dir name ∈ (t.compareTrees left right s).result) :
    ∃ m side, t.MergedIn left right s m ∧ dir = (m.pair.side side).path ∧ name ∈ m.names t side ∧
      (name ∉ m.names t side.other ∨ ¬ m.Together t) := by
  obtain ⟨m, v, side, hm, hv, hside, hname, hdir⟩ := onlyIn_of_compareTrees h
  have hsound := hm.sound hk hstart hfs
  refine ⟨m, side, hm, hdir, hsound.mem_names hv hname, ?_⟩
  by_cases htogether : m.Together t
  · exact Or.inl (hsound.not_mem_other htogether hv hside hname)
  · exact Or.inr htogether

/-- Where case matters the names of every merge stay together. -/
theorem together_of_caseSensitive (hcase : t.comparison.options.ignoreCase = false)
    (hk : t.comparison.order.collator.KeyedBy key)
    (hstart : t.comparison.options.startingFile = none) (hfs : t.files.ListsOnce)
    (hm : t.MergedIn left right s m) : m.Together t := by
  refine ((hm.sound hk hstart hfs).together_iff hk).2 ?_
  have hbytes : t.comparison.order.keying key .collated = .bytes :=
    if_neg (by simp [Comparison.order, hcase])
  rw [Merge.LosesStep, hbytes]
  rintro ⟨before, call, after, -, -, -, x, c, -, -, hxc, hcx, -⟩
  rw [← Keying.sorting_bytes] at hcx
  exact Keying.sorting_asymm hxc hcx

/-- The names of every merge stay together if the collator never fails. -/
theorem together_of_gives (hg : t.comparison.order.collator.Gives key)
    (hstart : t.comparison.options.startingFile = none) (hfs : t.files.ListsOnce)
    (hm : t.MergedIn left right s m) : m.Together t := by
  refine ((hm.sound hg.keyedBy hstart hfs).together_iff hg.keyedBy).2 ?_
  rintro ⟨before, call, after, he, hrun, hstep, -⟩
  have hcall : call ∈ t.visits m := by
    rw [he]
    exact List.mem_append_right _ (List.mem_cons_self ..)
  rw [visits, Comparison.visits_eq_visitsOn] at hcall
  -- what a visit goes into does not give the order up either
  have hv := t.visitor_law (t.comparison.order.stepLaw_collated hg) (fun _ _ _ => id) m.depth m.pair
  have hkept := hv call.pairing call.run call.result hrun
  rw [← (Comparison.visitsOn_visit hcall).2, hstep] at hkept
  cases hkept

/-- **When a comparison of trees keeps names together.** A name that both
directories of a merge have is handed on once, with itself, unless the order
was given up within a visit of that merge and the names left were out of
step; and only then is a name of both sides reported as one-sided. -/
theorem mergedIn_together_iff (hk : t.comparison.order.collator.KeyedBy key)
    (hstart : t.comparison.options.startingFile = none) (hfs : t.files.ListsOnce) :
    (∀ m, t.MergedIn left right s m → (m.Together t ↔ ¬ m.LosesStep t key)) ∧
      ∀ dir name, .onlyIn dir name ∈ (t.compareTrees left right s).result →
        ∃ m side, t.MergedIn left right s m ∧ dir = (m.pair.side side).path ∧
          name ∈ m.names t side ∧ (name ∉ m.names t side.other ∨ m.LosesStep t key) := by
  have hall : ∀ m, t.MergedIn left right s m → (m.Together t ↔ ¬ m.LosesStep t key) :=
    fun m hm => (hm.sound hk hstart hfs).together_iff hk
  refine ⟨hall, fun dir name h => ?_⟩
  obtain ⟨m, side, hm, hdir, hname, hother⟩ := onlyIn_of_together hk hstart hfs h
  refine ⟨m, side, hm, hdir, hname, hother.imp id fun hnot => ?_⟩
  by_contra hstep
  exact hnot ((hall m hm).2 hstep)

/-- Two directories `l` and `r` with a subdirectory `a` and a file `C` in
both, and a file `b` in `l` alone. -/
def sampleTree : FileTree where
  objects := [
    { content := .directory 0 [(.ofString "l", 1), (.ofString "r", 2)] none },
    { content := .directory 0 [(.ofString "a", 3), (.ofString "b", 5), (.ofString "C", 5)] none },
    { content := .directory 0 [(.ofString "a", 4), (.ofString "C", 5)] none },
    { content := .directory 1 [(.ofString "m", 5)] none },
    { content := .directory 2 [(.ofString "m", 5)] none },
    { content := .regular [] }]
  root := 0
  current := 0

/-- A comparison of `sampleTree` with a collator that fails on one call. -/
def sample (call : Nat) : TreeComparison Nat where
  comparison := ⟨{ ignoreCase := true }, .failingOnCall .foldAscii call, fun _ => false⟩
  options := { recursive := true }
  files := sampleTree.fileSystem

/-- A collator that fails within the subdirectory. -/
theorem mergedIn_together_iff_sample :
    let t := sample 7
    let left := Path.ofString "l"
    let right := Path.ofString "r"
    let s := RunState.start 0
    (∀ m, t.MergedIn left right s m → (m.Together t ↔ ¬ m.LosesStep t .foldAscii)) ∧
      ∀ dir name, .onlyIn dir name ∈ (t.compareTrees left right s).result →
        ∃ m side, t.MergedIn left right s m ∧ dir = (m.pair.side side).path ∧
          name ∈ m.names t side ∧ (name ∉ m.names t side.other ∨ m.LosesStep t .foldAscii) := by
  intro t left right s
  have hd : sampleTree.Distinct := by
    unfold FileTree.Distinct
    decide
  exact mergedIn_together_iff (Collator.keyedBy_failingOnCall _ _) rfl hd.listsOnce

-- the run reports `C` as missing on both sides, though both have it
example : ((sample 7).compareTrees (.ofString "l") (.ofString "r") (.start 0)).result =
    [.onlyIn (.ofString "l") (.ofString "C"), .onlyIn (.ofString "l") (.ofString "b"),
      .onlyIn (.ofString "r") (.ofString "C")] := by decide +kernel

end TreeComparison

end TreeCompare
