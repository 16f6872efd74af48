import TreeCompare.Proofs.Operations.Laws
import TreeCompare.Proofs.Operations.Reading
import TreeCompare.Proofs.Pairing.Conservation
import TreeCompare.Proofs.Trees.Visiting
/-!
# The merges of a tree comparison

A comparison of two trees merges one pair of directories, and on the way
each pair that a pairing leads to, and so on. `Merge` is one of them, with
the two tables that were read and the state of the run when they had been;
`MergedIn` says that it belongs to a run. What is found in two directories is
what the pairings of these merges come down to (`mem_compareWithin`). So every
one-sided entry that a run reports is a name that one of its merges handed on
alone (`onlyIn_of_compareTrees`).
-/

namespace TreeCompare

variable {σ : Type}

/-- A pair of directories that were both read, and the state of the run and
what was found by then. `depth` is how much deeper the comparison may
go. -/
structure Merge (σ : Type) where
  pair : DirectoryPair
  left : NameTable
  right : NameTable
  run : RunState σ
  found : TreeComparison.Findings
  depth : Nat

/-- The table that was read on a side. -/
def Merge.table (m : Merge σ) : Side → NameTable
  | .left => m.left
  | .right => m.right

/-- Both sides lead back. -/
def DirectoryPair.IsLoop (pair : DirectoryPair) : Prop :=
  pair.leadsBack .left ∧ pair.leadsBack .right

instance (pair : DirectoryPair) : Decidable pair.IsLoop := inferInstanceAs (Decidable (_ ∧ _))

namespace TreeComparison

/-- What a comparison that may go `depth` pairs deeper does with the
pairings of `pair`. -/
def visitor (t : TreeComparison σ) (depth : Nat) (pair : DirectoryPair) : Visitor σ Findings :=
  t.visit (fun left right s found => (t.compareWithin depth (pair.below left right) s found).toStep)
    pair

/-- The visits that a merge makes. -/
def visits (t : TreeComparison σ) (m : Merge σ) : List (Visit σ Findings) :=
  t.comparison.visits (t.visitor m.depth m.pair) m.left m.right m.run m.found

/-- The merge of a pair of directories, unless both sides lead back or one
of them cannot be read. -/
def merge? (t : TreeComparison σ) (depth : Nat) (pair : DirectoryPair) (s : RunState σ)
    (found : Findings) : Option (Merge σ) :=
  if pair.leadsBack .left && pair.leadsBack .right then none
  else
    let start := if pair.isRoot then t.comparison.options.startingFile else none
    let (leftAnswer, leftOperand, s) := t.comparison.namesIn t.files pair.left start false s
    let s := Comparison.reportRead leftAnswer s
    let (rightAnswer, rightOperand, s) := t.comparison.namesIn t.files pair.right start false s
    let s := Comparison.reportRead rightAnswer s
    match leftAnswer, rightAnswer with
    | .ok left, .ok right =>
      some ⟨{ pair with left := leftOperand, right := rightOperand }, left, right, s, found, depth⟩
    | _, _ => none

/-- The merges that comparing a pair of directories makes: its own, and
those of the pairs that its visits go into. -/
inductive MergeOf (t : TreeComparison σ) :
    Nat → DirectoryPair → RunState σ → Findings → Merge σ → Prop where
  | here {depth : Nat} {pair : DirectoryPair} {s : RunState σ} {found : Findings} {m : Merge σ}
      (h : t.merge? depth pair (s.note (.directories pair.left.path pair.right.path pair.depth))
        found = some m) :
      MergeOf t (depth + 1) pair s found m
  | within {depth : Nat} {pair : DirectoryPair} {s : RunState σ} {found : Findings} {m m' : Merge σ}
      {v : Visit σ Findings} {left right : Operand}
      (h : t.merge? depth pair (s.note (.directories pair.left.path pair.right.path pair.depth))
        found = some m)
      (hv : v ∈ t.visits m) (hg : t.Goes m.pair v.pairing left right)
      (hm : MergeOf t depth (m.pair.below left right) v.run v.result m') :
      MergeOf t (depth + 1) pair s found m'

/-- The merges that a comparison of two operands makes. -/
def MergedIn (t : TreeComparison σ) (left right : Path) (s : RunState σ) (m : Merge σ) : Prop :=
  ∃ leftStat rightStat,
    t.files.stat left t.comparison.options.followLinks = .ok leftStat ∧
    t.files.stat right t.comparison.options.followLinks = .ok rightStat ∧
    leftStat.kind = .directory ∧ rightStat.kind = .directory ∧
    t.MergeOf t.depthBound (.root (.known left leftStat) (.known right rightStat))
      (s.reset.note (.comparing left right)) [] m

variable {t : TreeComparison σ} {key : Keying} {m : Merge σ} {pair : DirectoryPair}
  {s : RunState σ} {found : Findings} {depth : Nat}

/-! ## The order of names through a whole comparison -/

/-- What a visitor keeps, going deeper keeps. -/
theorem compareWithin_law {R : RunState σ → RunState σ → Prop}
    (h : t.comparison.order.StepLaw R) (hreport : RunState.ReportLaw R) (depth : Nat)
    (pair : DirectoryPair) (s : RunState σ) (found : Findings) :
    R s (t.compareWithin depth pair s found).run := by
  -- what a visitor goes into is one level less deep
  induction depth generalizing pair s found with
  | zero => exact hreport _ _ (by simp)
  | succ depth ih =>
    refine h.trans (h.note (.directories pair.left.path pair.right.path pair.depth) s rfl) ?_
    refine Comparison.pairDirectories_law h hreport t.files pair (fun pair p s found => ?_) _ _
    rcases t.goes_or_settles pair p with ⟨left, right, hg⟩ | hs
    · rw [hg]
      exact ih _ _ _
    · rcases hs _ s found with hq | ⟨side, name, -, -, he⟩
      · rw [hq.run]
        exact h.refl s
      · rw [he]
        exact h.refl s

/-- A visit keeps within every law of a step. -/
theorem visitor_law {R : RunState σ → RunState σ → Prop} (h : t.comparison.order.StepLaw R)
    (hreport : RunState.ReportLaw R) (depth : Nat) (pair : DirectoryPair) :
    Visitor.Keeps R (t.visitor depth pair) := by
  intro p s found
  rcases t.goes_or_settles pair p with ⟨left, right, hg⟩ | hs
  · rw [visitor, hg]
    exact compareWithin_law h hreport depth _ s found
  · rcases hs _ s found with hq | ⟨side, name, -, -, he⟩
    · rw [visitor, hq.run]
      exact h.refl s
    · rw [visitor, he]
      exact h.refl s

/-- What `merge?` gives is what is paired, whoever visits; without it nothing
is, and there is trouble. -/
theorem pairDirectories_eq (t : TreeComparison σ) (depth : Nat) (pair : DirectoryPair)
    (s : RunState σ) (found : Findings) :
    (∃ m, t.merge? depth pair s found = some m ∧ m.found = found ∧ m.depth = depth ∧
        ∀ visitor, t.comparison.pairDirectories t.files pair visitor s found =
          ⟨t.comparison.pairTables (visitor m.pair) m.left m.right m.run m.found, m.pair⟩) ∨
      t.merge? depth pair s found = none ∧
        ∃ paired : Comparison.Paired σ Findings, paired.status = .trouble ∧
          paired.result = found ∧
            ∀ visitor, t.comparison.pairDirectories t.files pair visitor s found = paired := by
  unfold merge? Comparison.pairDirectories
  split
  · exact Or.inr ⟨rfl, _, rfl, rfl, fun _ => rfl⟩
  · simp only
    generalize t.comparison.namesIn t.files pair.left _ false s = l
    generalize t.comparison.namesIn t.files pair.right _ false _ = r
    rcases l with ⟨_ | left, leftOperand, s₁⟩
    · exact Or.inr ⟨rfl, _, rfl, rfl, fun _ => rfl⟩
    rcases r with ⟨_ | right, rightOperand, s₂⟩
    · exact Or.inr ⟨rfl, _, rfl, rfl, fun _ => rfl⟩
    · exact Or.inl ⟨_, rfl, rfl, rfl, fun _ => rfl⟩

/-- **What a merge reads**: both sides of a pair that does not lead back, the
left one first. -/
theorem reads_of_merge? (h : t.merge? depth pair s found = some m) :
    ¬ pair.IsLoop ∧ m.pair.ancestors = pair.ancestors ∧ ∃ s₁,
      t.comparison.namesIn t.files pair.left
          (if pair.isRoot then t.comparison.options.startingFile else none) false s =
        (.ok m.left, m.pair.left, s₁) ∧
      t.comparison.namesIn t.files pair.right
          (if pair.isRoot then t.comparison.options.startingFile else none) false s₁ =
        (.ok m.right, m.pair.right, m.run) := by
  unfold merge? at h
  split at h
  · cases h
  · next hloop =>
    simp only at h
    rcases hl : t.comparison.namesIn t.files pair.left
      (if pair.isRoot then t.comparison.options.startingFile else none) false s with
      ⟨_ | left, lo, s₁⟩
    · simp only [hl] at h
      cases h
    rw [hl] at h
    simp only at h
    rcases hr : t.comparison.namesIn t.files pair.right
      (if pair.isRoot then t.comparison.options.startingFile else none) false
      (Comparison.reportRead (.ok left) s₁) with ⟨_ | right, ro, s₂⟩
    · simp only [hr] at h
      cases h
    rw [hr] at h
    cases h
    exact ⟨by simpa [DirectoryPair.IsLoop] using hloop, rfl, s₁, rfl, hr⟩

end TreeComparison

/-- The two tables of a merge hold the names of the two directories that
are not left out, each once, and are sorted by what they say. -/
structure Merge.Sound (t : TreeComparison σ) (key : Keying) (m : Merge σ) : Prop where
  left_perm : m.left.names.Perm (t.comparison.keptNames t.files m.pair.left)
  right_perm : m.right.names.Perm (t.comparison.keptNames t.files m.pair.right)
  left_nodup : m.left.names.Nodup
  right_nodup : m.right.names.Nodup
  left_true : m.left.TrueTo t.comparison.order key
  right_true : m.right.TrueTo t.comparison.order key

namespace TreeComparison

variable {t : TreeComparison σ} {key : Keying} {m : Merge σ} {pair : DirectoryPair}
  {s : RunState σ} {found : Findings} {depth : Nat}

/-- **Every merge is of the names of its two directories**, if there is no
starting file. -/
theorem sound_of_merge? (hk : t.comparison.order.collator.KeyedBy key)
    (hstart : t.comparison.options.startingFile = none) (hfs : t.files.ListsOnce)
    (h : t.merge? depth pair s found = some m) : m.Sound t key := by
  obtain ⟨-, -, s₁, hl, hr⟩ := reads_of_merge? h
  rw [hstart, ite_self] at hl hr
  obtain ⟨hpl, hdl⟩ := Comparison.perm_of_namesIn hfs hl
  obtain ⟨hpr, hdr⟩ := Comparison.perm_of_namesIn hfs hr
  exact ⟨hpl, hpr, hdl, hdr, Comparison.trueTo_of_namesIn hk hfs hl,
    Comparison.trueTo_of_namesIn hk hfs hr⟩

/-- What is in the table of a side is an entry of the operand there, which
may have been opened meanwhile. -/
theorem entries_of_merge? (h : t.merge? depth pair s found = some m) (side : Side) :
    (pair.side side).Becomes (m.pair.side side) ∧
      ∀ name ∈ (m.table side).names, (pair.side side).isNonexistent = false ∧
        ∃ entries, t.files.enumerate (pair.side side).path = .ok entries ∧
          name ∈ entries.names := by
  obtain ⟨-, -, s₁, hl, hr⟩ := reads_of_merge? h
  cases side with
  | left => exact Comparison.entries_of_namesIn hl
  | right => exact Comparison.entries_of_namesIn hr

/-- A name that a merge hands on is in the table of its side. -/
theorem mem_table_of_visits {answered : Visitor σ Findings} {v : Visit σ Findings} {side : Side}
    {name : Name} (hv : v ∈ t.comparison.visits answered m.left m.right m.run m.found)
    (hname : v.pairing.get side = some name) : name ∈ (m.table side).names := by
  obtain ⟨hl, hr⟩ := t.comparison.perm_visits answered m.left m.right m.run m.found
  have hp := List.mem_map_of_mem (f := (·.pairing)) hv
  cases side with
  | left => exact hl.mem_iff.1 (Pairing.mem_lefts.2 ⟨_, hp, hname⟩)
  | right => exact hr.mem_iff.1 (Pairing.mem_rights.2 ⟨_, hp, hname⟩)

/-- Every merge of a comparison is one that `merge?` gives. -/
theorem MergeOf.exists_merge? (h : t.MergeOf depth pair s found m) :
    ∃ depth pair s found, t.merge? depth pair s found = some m := by
  induction h with
  | here h => exact ⟨_, _, _, _, h⟩
  | within _ _ _ _ ih => exact ih

/-! ## Where a finding comes from -/

/-- A merge knows how much deeper the comparison may go. -/
theorem depth_of_merge? (h : t.merge? depth pair s found = some m) : m.depth = depth := by
  rcases t.pairDirectories_eq depth pair s found with ⟨m', hm, -, hd, -⟩ | ⟨hnone, -⟩
  · rw [← Option.some.inj (hm.symm.trans h), hd]
  · exact nomatch hnone.symm.trans h

/-- What a visit answers is what the visitor does. -/
theorem step_of_visits {v : Visit σ Findings} (hv : v ∈ t.visits m) :
    v.step = t.visitor m.depth m.pair v.pairing v.run v.result := by
  rw [visits, Comparison.visits_eq_visitsOn] at hv
  exact (Comparison.visitsOn_visit hv).2

/-- What is found further down is added to what was found before. -/
theorem subset_compareWithin (t : TreeComparison σ) (depth : Nat) (pair : DirectoryPair)
    (s : RunState σ) (found : Findings) :
    found ⊆ (t.compareWithin depth pair s found).result ∧
      ∀ below m v, depth = below + 1 →
        t.merge? below pair (s.note (.directories pair.left.path pair.right.path pair.depth))
          found = some m → v ∈ t.visits m →
        v.step.result ⊆ (t.compareWithin depth pair s found).result := by
  induction depth generalizing pair s found with
  | zero => exact ⟨fun _ hf => hf, fun _ _ _ h => nomatch h⟩
  | succ depth ih =>
    have hgathers : ∀ pair, Visitor.Gathers (t.visitor depth pair) := by
      intro pair p s found f hf
      rcases t.goes_or_comesTo pair p with ⟨left, right, -, -, hg⟩ | ⟨reported, hc, -⟩
      · rw [visitor, hg]
        exact (ih _ _ _).1 hf
      · rw [visitor, hc]
        exact List.mem_append_right _ hf
    change found ⊆ (t.comparison.pairDirectories t.files pair (t.visitor depth) _ found).result ∧
      ∀ below m (v : Visit σ Findings), _ → _ → _ →
        v.step.result ⊆ (t.comparison.pairDirectories t.files pair (t.visitor depth) _ found).result
    rcases t.pairDirectories_eq depth pair
      (s.note (.directories pair.left.path pair.right.path pair.depth)) found with
      ⟨m, hm, rfl, rfl, he⟩ | ⟨hnone, paired, -, hr, he⟩
    · have hkept := Comparison.subset_leftBehind (c := t.comparison) (hgathers m.pair)
        (t.comparison.sortBoth m.left m.right m.run).1.names
        (t.comparison.sortBoth m.left m.right m.run).2.1.names
        (t.comparison.sortBoth m.left m.right m.run).2.2 m.found
      rw [← Comparison.visits_eq_visitsOn] at hkept
      rw [he, Comparison.pairTables_eq_of_visits]
      refine ⟨hkept.1, fun below m' v hbelow hm' hv => ?_⟩
      cases hbelow
      obtain rfl := Option.some.inj (hm.symm.trans hm')
      exact hkept.2 v hv
    · rw [he, hr]
      refine ⟨fun _ hf => hf, fun below m v hbelow hm => ?_⟩
      cases hbelow
      exact nomatch hnone.symm.trans hm

/-- **What a comparison of two directories finds** is what some pairing of
one of its merges comes down to. -/
theorem mem_compareWithin {f : Finding} :
    f ∈ (t.compareWithin depth pair s found).result ↔
      f ∈ found ∨ ∃ m v, t.MergeOf depth pair s found m ∧ v ∈ t.visits m ∧
        t.ComesTo m.pair v.pairing (some f) := by
  constructor
  · intro h
    induction depth generalizing pair s found with
    | zero => exact Or.inl h
    | succ depth ih =>
      change f ∈ (t.comparison.pairDirectories t.files pair (t.visitor depth)
        (s.note (.directories pair.left.path pair.right.path pair.depth)) found).result at h
      rcases t.pairDirectories_eq depth pair
        (s.note (.directories pair.left.path pair.right.path pair.depth)) found with
        ⟨m, hm, rfl, rfl, he⟩ | ⟨-, paired, -, hr, he⟩
      · rw [he, Comparison.pairTables_eq_of_visits, Comparison.visits_eq_visitsOn] at h
        rcases Comparison.mem_leftBehind h with hf | ⟨v, hv, hstep, hn⟩
        · exact Or.inl hf
        rw [← Comparison.visits_eq_visitsOn] at hv
        rw [step_of_visits hv] at hstep
        refine Or.inr ?_
        rcases t.goes_or_comesTo m.pair v.pairing with
          ⟨left, right, -, -, hg⟩ | ⟨reported, hc, honly⟩
        · -- what a visit finds further down, some merge further down comes to
          rw [visitor, hg] at hstep
          obtain ⟨m', v', hm', hv', hc⟩ := (ih hstep).resolve_left hn
          exact ⟨m', v', .within hm hv hg hm', hv', hc⟩
        · rw [visitor, hc] at hstep
          obtain rfl := Option.mem_toList.1 ((List.mem_append.1 hstep).resolve_right hn)
          exact ⟨m, v, .here hm, hv, hc, honly⟩
      · rw [he, hr] at h
        exact Or.inl h
  · rintro (hf | ⟨m, v, hm, hv, hc⟩)
    · exact (t.subset_compareWithin depth pair s found).1 hf
    induction hm with
    | here hm =>
      refine (t.subset_compareWithin _ _ _ _).2 _ _ _ rfl hm hv ?_
      rw [step_of_visits hv, visitor, hc.visit]
      exact List.mem_append_left _ (Option.mem_toList.2 rfl)
    | within hm hv' hg _ ih =>
      refine (t.subset_compareWithin _ _ _ _).2 _ _ _ rfl hm hv' ?_
      rw [step_of_visits hv', visitor, hg, depth_of_merge? hm]
      exact ih hv hc

/-! ## One-sided entries -/

/-- A path that cannot be looked at is reported as trouble. -/
theorem onlyIn_of_lookAt {path dir : Path} {name : Name} {next : Located → Step σ Findings}
    (h : .onlyIn dir name ∈ (t.lookAt path s found next).result) :
    .onlyIn dir name ∈ found ∨
      ∃ stat, t.files.stat path t.comparison.options.followLinks = .ok stat ∧
        .onlyIn dir name ∈ (next ⟨path, stat⟩).result := by
  unfold lookAt at h
  split at h
  · next stat he => exact Or.inr ⟨stat, he, h⟩
  · next e he => exact Or.inl (((isReport_failed path e).quiet s found).onlyIn dir name h)

/-- A directory and a file are compared without reporting an entry as
one-sided. -/
theorem onlyIn_of_compareAcross {side : Side} {dir file : Located} {path : Path} {name : Name}
    (h : .onlyIn path name ∈ (t.compareAcross side dir file s found).result) :
    .onlyIn path name ∈ found := by
  unfold compareAcross at h
  split at h
  · exact ((isReport_cons (f := .trouble _ _) (by simp)).quiet s found).onlyIn path name h
  · rcases onlyIn_of_lookAt h with hf | ⟨stat, -, h⟩
    · exact hf
    · exact ((isReport_compareObjects _ _).quiet _ found).onlyIn path name h

/-- **A one-sided entry that a comparison reports is a name that one of its
merges handed on alone.** -/
theorem onlyIn_of_compareTrees {left right dir : Path} {name : Name}
    (h : .onlyIn dir name ∈ (t.compareTrees left right s).result) :
    ∃ m v side, t.MergedIn left right s m ∧ v ∈ t.visits m ∧ v.pairing.loneSide = some side ∧
      v.pairing.get side = some name ∧ dir = (m.pair.side side).path := by
  obtain ⟨leftStat, hl, h⟩ := (onlyIn_of_lookAt h).resolve_left List.not_mem_nil
  obtain ⟨rightStat, hr, h⟩ := (onlyIn_of_lookAt h).resolve_left List.not_mem_nil
  simp only at h
  split at h
  · next hkl hkr =>
    obtain ⟨m, v, hm, hv, hc⟩ := (mem_compareWithin.1 h).resolve_left List.not_mem_nil
    obtain ⟨side, hrest⟩ := hc.onlyIn dir name rfl
    exact ⟨m, v, side, ⟨leftStat, rightStat, hl, hr, eq_of_beq hkl, eq_of_beq hkr, hm⟩, hv, hrest⟩
  · exact absurd (onlyIn_of_compareAcross h) List.not_mem_nil
  · exact absurd (onlyIn_of_compareAcross h) List.not_mem_nil
  · exact absurd (((isReport_compareObjects _ _).quiet _ []).onlyIn dir name h) List.not_mem_nil

end TreeComparison

end TreeCompare
