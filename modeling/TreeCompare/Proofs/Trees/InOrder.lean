import TreeCompare.FileTree
import TreeCompare.Proofs.Pairing.CaseSensitive
import TreeCompare.Proofs.Trees.Chains
import TreeCompare.Proofs.Trees.Listing
import TreeCompare.Proofs.Trees.Merges
/-!
# The order of what is reported

`FoundAlong` follows a finding from the pair of directories that a comparison
begins with through the merges that lead to it, and gives the names on the way.
Where case counts, the visits of a merge have names in the order of bytes, and
what a visit finds further down is found before the next one. So every level
finds what it finds in the order of the chains that lead to it
(`inOrder_compareWithin`), and a run reports it in that order
(`reported_inOrder`).
-/

namespace TreeCompare

variable {σ : Type}

namespace TreeComparison

variable {t : TreeComparison σ} {pair : DirectoryPair} {m : Merge σ} {v : Visit σ Findings}
  {depth : Nat} {s : RunState σ} {found : Findings} {f : Finding} {chain : List Name} {name : Name}

/-- A comparison of a pair of directories finds something along a chain of
names: a pairing of that name comes down to it, or leads to directories in which
it is found along the rest of the chain. -/
inductive FoundAlong (t : TreeComparison σ) :
    Nat → DirectoryPair → RunState σ → Findings → List Name → Finding → Prop where
  | here {depth : Nat} {pair : DirectoryPair} {s : RunState σ} {found : Findings} {m : Merge σ}
      {v : Visit σ Findings} {f : Finding}
      (hm : t.merge? depth pair (s.note (.directories pair.left.path pair.right.path pair.depth))
        found = some m)
      (hv : v ∈ t.visits m) (hc : t.ComesTo m.pair v.pairing (some f)) :
      FoundAlong t (depth + 1) pair s found [v.pairing.name] f
  | within {depth : Nat} {pair : DirectoryPair} {s : RunState σ} {found : Findings} {m : Merge σ}
      {v : Visit σ Findings} {left right : Operand} {chain : List Name} {f : Finding}
      (hm : t.merge? depth pair (s.note (.directories pair.left.path pair.right.path pair.depth))
        found = some m)
      (hv : v ∈ t.visits m) (hg : t.Goes m.pair v.pairing left right)
      (hf : FoundAlong t depth (m.pair.below left right) v.run v.result chain f) :
      FoundAlong t (depth + 1) pair s found (v.pairing.name :: chain) f

/-- A comparison of two operands that are directories reports something along
a chain of names. -/
def ReportsAlong (t : TreeComparison σ) (left right : Path) (s : RunState σ) (chain : List Name)
    (f : Finding) : Prop :=
  ∃ leftStat rightStat,
    t.files.stat left t.comparison.options.followLinks = .ok leftStat ∧
    t.files.stat right t.comparison.options.followLinks = .ok rightStat ∧
    leftStat.kind = .directory ∧ rightStat.kind = .directory ∧
    t.FoundAlong t.depthBound (.root (.known left leftStat) (.known right rightStat))
      (s.reset.note (.comparing left right)) [] chain f

/-- What a visit of a merge finds, with the names that follow its own. -/
def FoundBy (t : TreeComparison σ) (m : Merge σ) (v : Visit σ Findings) (rest : List Name)
    (f : Finding) : Prop :=
  rest = [] ∧ t.ComesTo m.pair v.pairing (some f) ∨
    ∃ left right, t.Goes m.pair v.pairing left right ∧
      t.FoundAlong m.depth (m.pair.below left right) v.run v.result rest f

/-- What is found along a chain is found by a visit of its first name. -/
theorem foundAlong_iff
    (hm : t.merge? depth pair (s.note (.directories pair.left.path pair.right.path pair.depth))
      found = some m) :
    t.FoundAlong (depth + 1) pair s found chain f ↔
      ∃ v ∈ t.visits m, ∃ rest, chain = v.pairing.name :: rest ∧ t.FoundBy m v rest f := by
  obtain rfl := depth_of_merge? hm
  constructor
  · intro h
    cases h with
    | here hm' hv hc =>
      obtain rfl := Option.some.inj (hm'.symm.trans hm)
      exact ⟨_, hv, [], rfl, Or.inl ⟨rfl, hc⟩⟩
    | within hm' hv hg hf =>
      obtain rfl := Option.some.inj (hm'.symm.trans hm)
      exact ⟨_, hv, _, rfl, Or.inr ⟨_, _, hg, hf⟩⟩
  · rintro ⟨v, hv, rest, rfl, ⟨rfl, hc⟩ | ⟨left, right, hg, hf⟩⟩
    · exact .here hm hv hc
    · exact .within hm hv hg hf

/-! ## In the order of chains -/

/-- What a merge hands on where case counts is the outer join of its
tables. -/
theorem handed_of_merge? (hcase : t.comparison.options.ignoreCase = false)
    (hfs : t.files.ListsOnce) (hm : t.merge? depth pair s found = some m) :
    Visit.handed (t.visits m) = outerJoin m.left.names m.right.names ∧ m.right.names.Nodup := by
  obtain ⟨-, -, s₁, hl, hr⟩ := reads_of_merge? hm
  have hleft := Comparison.sorted_of_namesIn hcase hfs hl
  have hright := Comparison.sorted_of_namesIn hcase hfs hr
  exact ⟨Comparison.handed_of_caseSensitive hcase hleft hright .., hright.nodup⟩

/-- So the names of what it hands on are one name. -/
theorem eq_name_of_visits (hcase : t.comparison.options.ignoreCase = false)
    (hfs : t.files.ListsOnce) (hm : t.merge? depth pair s found = some m) (hv : v ∈ t.visits m)
    (side : Side) (x : Name) (hx : v.pairing.get side = some x) : x = v.pairing.name := by
  have hp : v.pairing ∈ Visit.handed (t.visits m) := List.mem_map_of_mem hv
  rw [(handed_of_merge? hcase hfs hm).1] at hp
  exact eq_name_of_mem_outerJoin hp hx

/-- **A visit finds in order**, if the level below does. -/
theorem inOrder_visit (hv : v ∈ t.visits m)
    (h : ∀ pair s found, InOrder (t.FoundAlong m.depth pair s found) found
      (t.compareWithin m.depth pair s found).result) :
    InOrder (t.FoundBy m v) v.result v.step.result := by
  rw [step_of_visits hv, visitor]
  rcases t.goes_or_comesTo m.pair v.pairing with ⟨left, right, -, -, hg⟩ | ⟨reported, hc⟩
  · rw [hg]
    refine (h (m.pair.below left right) v.run v.result).congr fun rest f => ?_
    constructor
    · exact fun hf => Or.inr ⟨left, right, hg, hf⟩
    · rintro (⟨-, hc⟩ | ⟨left', right', hg', hf⟩)
      · exact absurd hc (hg.not_comesTo v.run)
      · obtain ⟨rfl, rfl⟩ := hg.unique hg' v.run
        exact hf
  · rw [hc.visit]
    refine (InOrder.settle [] reported v.result).congr fun rest f => ?_
    constructor
    · rintro ⟨rfl, rfl⟩
      exact Or.inl ⟨rfl, hc⟩
    · rintro (⟨rfl, hc'⟩ | ⟨left', right', hg', -⟩)
      · exact ⟨rfl, (hc.unique hc' v.run).symm⟩
      · exact absurd hc (hg'.not_comesTo v.run)

/-- **Visits find in order**, if each does and their names ascend. -/
theorem inOrder_visitsOn {c : Comparison σ} {visitor : Visitor σ Findings}
    {P : Visit σ Findings → List Name → Finding → Prop} {left right : List Name}
    (hvisit : ∀ v ∈ c.visitsOn visitor left right s found, InOrder (P v) v.result v.step.result)
    (hnames : Keying.bytes.Sorted
      ((Visit.handed (c.visitsOn visitor left right s found)).map (·.name))) :
    InOrder
      (fun chain f => ∃ v ∈ c.visitsOn visitor left right s found, ∃ rest,
        chain = v.pairing.name :: rest ∧ P v rest f)
      found (Visit.leftBehind s found (c.visitsOn visitor left right s found)).2 := by
  induction left, right, s, found using Comparison.visitsOn.induct c visitor with
  | case1 left right s found hne tails step ih =>
    simp only [Comparison.visitsOn_cons hne] at hvisit hnames ⊢
    obtain ⟨hfirst, hrest⟩ := List.forall_mem_cons.1 hvisit
    obtain ⟨hlt, hsorted⟩ := List.pairwise_cons.1 hnames
    refine ((hfirst.below tails.pairing.name).append (ih hrest hsorted) ?_).congr fun chain f => ?_
    · rintro _ f _ f' ⟨rest, rfl, -⟩ ⟨v, hv, rest', rfl, -⟩
      have hname := hlt v.pairing.name
        (List.mem_map_of_mem (f := (·.name)) (List.mem_map_of_mem (f := (·.pairing)) hv))
      exact List.Lex.rel (Keying.sorting_bytes ▸ hname)
    · simp only [List.mem_cons, exists_eq_or_imp]
      rfl
  | case2 left right s found hne =>
    have hnil : left = [] ∧ right = [] := by simpa using hne
    rw [hnil.1, hnil.2, Comparison.visitsOn_nil]
    exact .nil (by simp) found

/-- **Every level finds what it finds in the order of chains.** -/
theorem inOrder_compareWithin (hcase : t.comparison.options.ignoreCase = false)
    (hfs : t.files.ListsOnce) (depth : Nat) (pair : DirectoryPair) (s : RunState σ)
    (found : Findings) :
    InOrder (t.FoundAlong depth pair s found) found
      (t.compareWithin depth pair s found).result := by
  induction depth generalizing pair s found with
  | zero => exact .nil (fun _ _ h => by cases h) found
  | succ depth ih =>
    change InOrder _ found (t.comparison.pairDirectories t.files pair (t.visitor depth)
      (s.note (.directories pair.left.path pair.right.path pair.depth)) found).result
    rcases t.pairDirectories_eq depth pair
      (s.note (.directories pair.left.path pair.right.path pair.depth)) found with
      ⟨m, hm, rfl, rfl, he⟩ | ⟨hnone, paired, -, hr, he⟩
    · obtain ⟨hhanded, hnodup⟩ := handed_of_merge? hcase hfs hm
      have hnames : Keying.bytes.Sorted ((Visit.handed (t.visits m)).map (·.name)) := by
        rw [hhanded]
        exact ascending_outerJoin hnodup
      have hvisit := fun v (hv : v ∈ t.visits m) => inOrder_visit hv ih
      rw [he, Comparison.pairTables_eq_of_visits]
      simp only [visits, Comparison.visits_eq_visitsOn] at hnames hvisit ⊢
      refine (inOrder_visitsOn hvisit hnames).congr fun chain f => ?_
      rw [foundAlong_iff hm, visits, Comparison.visits_eq_visitsOn]
    · rw [he, hr]
      refine .nil (fun chain f h => ?_) found
      cases h with
      | here hm => rw [hnone] at hm; cases hm
      | within hm => rw [hnone] at hm; cases hm

/-! ## Where chains lead -/

/-- The way down that leaves a mark of the two paths it leads to. -/
def mark : Descent σ := fun left right s found =>
  ⟨.same, s, .commonSubdirectories left.path right.path :: found⟩

theorem at_of_verdict {left right : Path} {same : Bool}
    (hf : f ∈ (t.verdict left right same s []).result) : f.At left right [] := by
  unfold verdict at hf
  cases same with
  | false =>
    obtain rfl := List.mem_singleton.1 hf
    exact ⟨rfl, rfl⟩
  | true =>
    cases hr : t.options.reportIdentical with
    | false => simp [hr] at hf
    | true =>
      simp only [hr, if_true, List.mem_singleton] at hf
      subst hf
      exact ⟨rfl, rfl⟩

theorem at_of_failed {left right : Path} {e : IoError} (side : Side)
    (hf : f ∈ (failed (side.place left right).1 e s []).result) : f.At left right [] := by
  obtain rfl := List.mem_singleton.1 hf
  exact ⟨side, rfl⟩

/-- What two objects come to is about the two of them. -/
theorem at_of_compareObjects {l r : Located}
    (hf : f ∈ (t.compareObjects (some mark) l r s []).result) : f.At l.path r.path [] := by
  rcases t.compareObjects_some l r with ⟨-, -, hgo⟩ | hstay
  · rw [hgo] at hf
    obtain rfl := List.mem_singleton.1 hf
    exact ⟨rfl, rfl⟩
  · rw [hstay] at hf
    unfold compareObjects at hf
    split at hf
    · obtain rfl := List.mem_singleton.1 hf
      exact ⟨rfl, rfl⟩
    cases hkind : l.stat.kind with
    | directory =>
      simp only [hkind] at hf
      obtain rfl := List.mem_singleton.1 hf
      exact ⟨rfl, rfl⟩
    | regular =>
      simp only [hkind, compareFiles] at hf
      split at hf
      · exact at_of_verdict hf
      · split at hf
        · exact at_of_verdict hf
        · exact at_of_failed .left hf
    | symlink =>
      simp only [hkind, compareLinks] at hf
      split at hf
      · exact at_of_verdict hf
      · exact at_of_failed .left hf
      · exact at_of_failed .right hf
    | _ =>
      simp only [hkind] at hf
      exact at_of_verdict hf

/-- The same of an object and the nothing it is compared with. -/
theorem at_of_compareWithNothing {side : Side} {present : Located} {absent : Path}
    (hf : f ∈ (t.compareWithNothing mark side present absent s []).result) :
    f.At (side.place present.path absent).1 (side.place present.path absent).2 [] := by
  unfold compareWithNothing at hf
  cases hkind : present.stat.kind with
  | directory =>
    simp only [hkind] at hf
    split at hf
    · obtain rfl := List.mem_singleton.1 hf
      cases side <;> exact ⟨rfl, rfl⟩
    · obtain rfl := List.mem_singleton.1 hf
      exact ⟨rfl, rfl⟩
  | _ =>
    simp only [hkind] at hf
    exact at_of_verdict hf

/-- **What a pairing comes to is at its name**, and so is what it leads to. -/
theorem at_of_visit {p : Pairing} (hname : ∀ side x, p.get side = some x → x = name)
    (hf : f ∈ (t.visit mark pair p s []).result) :
    f.At pair.left.path pair.right.path [name] := by
  have hlone : ∀ side, f ∈ (t.visitLone mark pair side name s []).result →
      f.At pair.left.path pair.right.path [name] := by
    intro side hf
    simp only [visitLone, lookAt] at hf
    split at hf
    · split at hf
      · refine Finding.At.below ?_
        cases side with
        | left => exact at_of_compareWithNothing hf
        | right => exact at_of_compareWithNothing hf
      · refine Finding.At.below ?_
        cases side with
        | left => exact at_of_failed .left hf
        | right => exact at_of_failed .right hf
    · obtain rfl := List.mem_singleton.1 hf
      exact ⟨side, [], rfl, by cases side <;> rfl⟩
  rcases p with ⟨_ | a, _ | b⟩
  · cases hf
  · obtain rfl := hname .right b rfl
    exact hlone .right hf
  · obtain rfl := hname .left a rfl
    exact hlone .left hf
  · obtain rfl := hname .left a rfl
    obtain rfl := hname .right b rfl
    refine Finding.At.below ?_
    simp only [visit, lookAt] at hf
    split at hf
    · split at hf
      · exact at_of_compareObjects hf
      · exact at_of_failed .right hf
    · exact at_of_failed .left hf

/-- A merge is of the directories that were to be compared. -/
theorem paths_of_merge? (hm : t.merge? depth pair s found = some m) :
    m.pair.left.path = pair.left.path ∧ m.pair.right.path = pair.right.path :=
  ⟨(entries_of_merge? hm .left).1.path, (entries_of_merge? hm .right).1.path⟩

/-- **A chain leads to what is found along it.** -/
theorem FoundAlong.leads (hcase : t.comparison.options.ignoreCase = false) (hfs : t.files.ListsOnce)
    (h : t.FoundAlong depth pair s found chain f) :
    f.At pair.left.path pair.right.path chain := by
  induction h with
  | @here depth pair s found m v f hm hv hc =>
    obtain ⟨hleft, hright⟩ := paths_of_merge? hm
    rw [← hleft, ← hright]
    refine at_of_visit (t := t) (s := v.run) (eq_name_of_visits hcase hfs hm hv) ?_
    rw [hc.visit, settle_some]
    exact List.mem_singleton.2 rfl
  | @within depth pair s found m v left right chain f hm hv hg _ ih =>
    have hmark : Finding.At m.pair.left.path m.pair.right.path [v.pairing.name]
        (.commonSubdirectories left.path right.path) := by
      refine at_of_visit (t := t) (s := v.run) (eq_name_of_visits hcase hfs hm hv) ?_
      rw [hg]
      exact List.mem_singleton.2 rfl
    obtain ⟨hleft, hright⟩ := paths_of_merge? hm
    obtain ⟨hbelow, hbelow'⟩ := hmark
    rw [hleft] at hbelow
    rw [hright] at hbelow'
    refine Finding.At.below ?_
    change f.At left.path right.path chain at ih
    rw [hbelow, hbelow'] at ih
    exact ih

/-! ## A run -/

/-- **Reports come in the order of their chains, at most once per entry.**
Where case counts, the findings of two directories are about entries that chains
of names lead to, the chains along which the comparison finds them. In the order
in which they are reported the chains ascend strictly, name by name: no entry is
reported twice, and nothing else is reported between two entries of a
directory. -/
theorem reported_inOrder (hcase : t.comparison.options.ignoreCase = false)
    (hfs : t.files.ListsOnce) {left right : Path}
    (hl : t.files.DirectoryAt t.comparison.options.followLinks left)
    (hr : t.files.DirectoryAt t.comparison.options.followLinks right) (s : RunState σ) :
    ∃ reports : List (List Name × Finding),
      reports.map (·.2) = (t.compareTrees left right s).result.reverse ∧
      (∀ chain f, (chain, f) ∈ reports ↔ t.ReportsAlong left right s chain f) ∧
      (∀ r ∈ reports, r.2.At left right r.1) ∧
      reports.Pairwise (fun a b => Before a.1 b.1) ∧
      (reports.map (·.1)).Nodup ∧
      ∀ a b c, [a, b, c].Sublist reports →
        ∀ dir, dir <+: a.1 → dir <+: c.1 → dir <+: b.1 := by
  obtain ⟨leftStat, hl, hkl⟩ := hl
  obtain ⟨rightStat, hr, hkr⟩ := hr
  have hreports : ∀ chain f, t.ReportsAlong left right s chain f ↔
      t.FoundAlong t.depthBound (.root (.known left leftStat) (.known right rightStat))
        (s.reset.note (.comparing left right)) [] chain f := by
    intro chain f
    constructor
    · rintro ⟨_, _, hl', hr', -, -, hf⟩
      obtain rfl := Except.ok.inj (hl'.symm.trans hl)
      obtain rfl := Except.ok.inj (hr'.symm.trans hr)
      exact hf
    · exact fun hf => ⟨leftStat, rightStat, hl, hr, hkl, hkr, hf⟩
  obtain ⟨reports, hresult, hmem, hsorted⟩ := inOrder_compareWithin hcase hfs t.depthBound
    (.root (.known left leftStat) (.known right rightStat)) (s.reset.note (.comparing left right))
    []
  refine ⟨reports, ?_, ?_, ?_, hsorted, ?_, ?_⟩
  · have hrun : (t.compareTrees left right s).result = (reports.map (·.2)).reverse ++ [] := by
      rw [← hresult]
      simp only [compareTrees, lookAt, hl, hr, hkl, hkr]
      rfl
    rw [hrun, List.append_nil, List.reverse_reverse]
  · exact fun chain f => (hmem chain f).trans (hreports chain f).symm
  · exact fun r hr => ((hmem r.1 r.2).1 hr).leads hcase hfs
  · refine List.pairwise_map.2 (hsorted.imp fun {a b} hab he => ?_)
    rw [he] at hab
    exact Before.irrefl hab
  · intro a b c hsub dir ha hc
    have habc := hsorted.sublist hsub
    simp only [List.pairwise_cons, List.mem_cons, List.not_mem_nil, or_false, forall_eq_or_imp,
      forall_eq] at habc
    exact Before.prefix_of_between habc.1.1 habc.2.1 ha hc

/-- Two directories `l` and `r` with a subdirectory `a` and, in `l` only, a file
`a-b`. In the order of bytes the path `l/a-b` is before `l/a/z`. -/
def siblingTree : FileTree where
  objects := [
    { content := .directory 0 [(.ofString "l", 1), (.ofString "r", 2)] none },
    { content := .directory 0 [(.ofString "a-b", 5), (.ofString "a", 3)] none },
    { content := .directory 0 [(.ofString "a", 4)] none },
    { content := .directory 1 [(.ofString "z", 5)] none },
    { content := .directory 2 [(.ofString "z", 6)] none },
    { content := .regular [0x78] },
    { content := .regular [0x79] }]
  root := 0
  current := 0

/-- A comparison of `siblingTree`. -/
def siblings : TreeComparison Unit where
  comparison := ⟨{}, .scalarValues, fun _ => false⟩
  options := { recursive := true }
  files := siblingTree.fileSystem

/-- What is in the subdirectory is reported before its sibling. -/
theorem reported_inOrder_siblings :
    ∃ reports : List (List Name × Finding),
      reports.map (·.2) = [.differ (.ofString "l/a/z") (.ofString "r/a/z"),
        .onlyIn (.ofString "l") (.ofString "a-b")] ∧
      (∀ r ∈ reports, r.2.At (.ofString "l") (.ofString "r") r.1) ∧
      reports.Pairwise (fun a b => Before a.1 b.1) := by
  have hfs : siblings.files.ListsOnce := by
    refine FileTree.Distinct.listsOnce (t := siblingTree) ?_
    unfold FileTree.Distinct
    decide
  have hl : siblings.files.DirectoryAt false (.ofString "l") := ⟨_, rfl, rfl⟩
  have hr : siblings.files.DirectoryAt false (.ofString "r") := ⟨_, rfl, rfl⟩
  obtain ⟨reports, hresult, -, hat, hsorted, -⟩ :=
    reported_inOrder (t := siblings) rfl hfs hl hr (.start ())
  refine ⟨reports, hresult.trans ?_, hat, hsorted⟩
  decide +kernel

end TreeComparison

end TreeCompare
