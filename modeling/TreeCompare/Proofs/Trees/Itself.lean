import TreeCompare.Proofs.Pairing.Twins
import TreeCompare.Proofs.Trees.Merges
import TreeCompare.Proofs.Trees.Reports
import TreeCompare.Proofs.Trees.Together
/-!
# A path compared with itself

A path never differs from itself, whatever fails on the way
(`compareTrees_self`). Every merge of such a comparison has one path on both
sides, and hands on every name with itself (`MergeOf.isTwin`); and an object
that is compared with itself is found to be the same, or cannot be read
(`unopposed_compareObjects`).
-/

namespace TreeCompare

variable {σ : Type} {key : Keying}

/-- One directory that exists, on both sides. -/
structure DirectoryPair.IsTwin (pair : DirectoryPair) : Prop where
  path : pair.right.path = pair.left.path
  exists_left : pair.left.isNonexistent = false
  exists_right : pair.right.isNonexistent = false

namespace TreeComparison

variable {t : TreeComparison σ} {m : Merge σ} {pair : DirectoryPair} {s : RunState σ}
  {found : Findings} {depth : Nat}

/-! ## Merges -/

theorem isTwin_of_merge? (hp : pair.IsTwin) (h : t.merge? depth pair s found = some m) :
    m.pair.IsTwin := by
  have hl := (entries_of_merge? h .left).1
  have hr := (entries_of_merge? h .right).1
  exact ⟨hr.path.trans (hp.path.trans hl.path.symm), hl.isNonexistent.trans hp.exists_left,
    hr.isNonexistent.trans hp.exists_right⟩

/-- A merge of one directory with itself hands on every name with itself. -/
theorem isTwin_of_visits (hk : t.comparison.order.collator.KeyedBy key)
    (hstart : t.comparison.options.startingFile = none) (hp : pair.IsTwin)
    (h : t.merge? depth pair s found = some m) {v : Visit σ Findings} (hv : v ∈ t.visits m) :
    v.pairing.IsTwin := by
  obtain ⟨-, -, s₁, hl, hr⟩ := reads_of_merge? h
  rw [hstart, ite_self] at hl hr
  obtain ⟨hperm, hal, har⟩ :=
    Comparison.twins_of_namesIn hk hp.path hp.exists_left hp.exists_right hl hr
  exact Comparison.isTwin_of_visits hk hperm hal har hv

/-- What is gone into from there is one directory on both sides again. -/
theorem Goes.isTwin {p : Pairing} {left right : Operand} (h : t.Goes pair p left right)
    (hp : pair.IsTwin) (htwin : p.IsTwin) (s : RunState σ) : (pair.below left right).IsTwin := by
  obtain ⟨name, rfl⟩ := htwin
  obtain ⟨hl, hr⟩ := h.leads s
  cases hl with
  | nothing hname => cases hname
  | directory hname _ _ =>
    cases hname
    cases hr with
    | nothing hname => cases hname
    | directory hname _ _ =>
      cases hname
      exact ⟨congrArg (·.join name) hp.path, rfl, rfl⟩

/-- **Every merge is of one directory with itself**, and hands on every name
with itself, if the comparison starts like that. -/
theorem MergeOf.isTwin (hk : t.comparison.order.collator.KeyedBy key)
    (hstart : t.comparison.options.startingFile = none) (hp : pair.IsTwin)
    (hm : t.MergeOf depth pair s found m) :
    m.pair.IsTwin ∧ ∀ v ∈ t.visits m, v.pairing.IsTwin := by
  induction hm with
  | here h => exact ⟨isTwin_of_merge? hp h, fun v hv => isTwin_of_visits hk hstart hp h hv⟩
  | @within _ _ _ _ _ _ v _ _ h hv hg _ ih =>
    exact ih (hg.isTwin (isTwin_of_merge? hp h) (isTwin_of_visits hk hstart hp h hv) v.run)

/-! ## Objects -/

/-- What is done comes down to one finding or to none, and to no
difference. -/
def Unopposed (f : RunState σ → Findings → Step σ Findings) : Prop :=
  ∃ reported : Option Finding, (∀ finding ∈ reported, finding.severity ≠ .different) ∧
    ∀ s found, f s found = settle reported s found

theorem unopposed_cons {f : Finding} (hf : f.severity ≠ .different) :
    Unopposed fun (s : RunState σ) found => ⟨f.severity, s, f :: found⟩ :=
  ⟨some f, fun _ h => Option.mem_some.1 h ▸ hf, fun s found => (settle_some f s found).symm⟩

theorem unopposed_failed (path : Path) (e : IoError) :
    Unopposed (failed path e : RunState σ → Findings → Step σ Findings) :=
  unopposed_cons (f := .trouble path e.message) (by simp [Finding.severity])

theorem unopposed_same (left right : Path) : Unopposed (t.verdict left right true) := by
  unfold verdict
  cases t.options.reportIdentical with
  | false => exact ⟨none, by simp, fun _ _ => rfl⟩
  | true => exact unopposed_cons (f := .identical left right) (by simp [Finding.severity])

/-- **An object is the same as itself**, unless it is a link that cannot be
read. -/
theorem unopposed_compareObjects (object : Located) :
    Unopposed (t.compareObjects none object object) := by
  have hself : object.stat.sameObject object.stat = true := object.stat.sameObject_self
  unfold compareObjects
  simp only [ne_eq, not_true_eq_false, if_false]
  cases object.stat.kind with
  | directory =>
    exact unopposed_cons (f := .commonSubdirectories object.path object.path)
      (by simp [Finding.severity])
  | regular =>
    simp only [compareFiles, hself, if_true]
    exact unopposed_same ..
  | symlink =>
    simp only [compareLinks]
    cases t.files.readLink object.path with
    | error e => exact unopposed_failed ..
    | ok target =>
      simp only [Path.sameAs, decide_true]
      exact unopposed_same ..
  | _ =>
    simp only [hself]
    exact unopposed_same ..

/-- A name of one directory that is handed on with itself comes to no
difference. -/
theorem ComesTo.not_different {p : Pairing} {f : Finding} (h : t.ComesTo pair p (some f))
    (hp : pair.IsTwin) (htwin : p.IsTwin) (s : RunState σ) : f.severity ≠ .different := by
  obtain ⟨name, rfl⟩ := htwin
  -- whatever is done further down, this is all that is found
  have hvisit : ∀ descend, (t.visit descend pair ⟨some name, some name⟩ s []).result = [f] := by
    intro descend
    rw [h.visit, settle_some]
  have hone : ∀ {g : RunState σ → Findings → Step σ Findings}, Unopposed g →
      (g s []).result = [f] → f.severity ≠ .different := by
    rintro g ⟨reported, hreported, hg⟩ hresult
    rw [hg] at hresult
    have hmem : f ∈ (settle reported s []).result := hresult ▸ List.mem_singleton.2 rfl
    exact hreported f (Option.mem_toList.1 ((List.mem_append.1 hmem).resolve_right
      List.not_mem_nil))
  have hlook : ∀ descend, t.visit descend pair ⟨some name, some name⟩ s [] =
      t.lookAt (pair.left.path.join name) s [] fun left =>
        t.lookAt (pair.right.path.join name) s [] fun right =>
          t.compareObjects (some descend) left right s [] := fun _ => rfl
  simp only [hlook, lookAt, hp.path] at hvisit
  cases hstat : t.files.stat (pair.left.path.join name) t.comparison.options.followLinks with
  | error e =>
    simp only [hstat] at hvisit
    exact hone (unopposed_failed _ e) (hvisit fun _ _ s found => ⟨.same, s, found⟩)
  | ok stat =>
    simp only [hstat] at hvisit
    let object : Located := ⟨pair.left.path.join name, stat⟩
    have hnothing := hvisit fun _ _ s found => ⟨.same, s, found⟩
    rcases t.compareObjects_some object object with ⟨-, -, hgo⟩ | hstay
    · rw [hgo] at hnothing
      cases hnothing
    · rw [hstay] at hnothing
      exact hone (unopposed_compareObjects (t := t) object) hnothing

/-! ## A path -/

/-- **What is found is no difference**, only sameness and trouble. -/
theorem compareTrees_self_severity (hk : t.comparison.order.collator.KeyedBy key)
    (hstart : t.comparison.options.startingFile = none) (path : Path) (s : RunState σ)
    {f : Finding} (hf : f ∈ (t.compareTrees path path s).result) : f.severity ≠ .different := by
  unfold compareTrees at hf
  simp only [lookAt] at hf
  cases hstat : t.files.stat path t.comparison.options.followLinks with
  | error e =>
    simp only [hstat, failed, List.mem_singleton] at hf
    rw [hf]
    simp [Finding.severity]
  | ok stat =>
    simp only [hstat] at hf
    cases hdir : stat.kind.isDirectory with
    | true =>
      simp only [hdir] at hf
      obtain ⟨m, v, hm, hv, hc⟩ := (mem_compareWithin.1 hf).resolve_left List.not_mem_nil
      obtain ⟨hp, htwins⟩ := hm.isTwin hk hstart ⟨rfl, rfl, rfl⟩
      exact hc.not_different hp (htwins v hv) v.run
    | false =>
      simp only [hdir] at hf
      obtain ⟨reported, hreported, hg⟩ := unopposed_compareObjects (t := t) ⟨path, stat⟩
      rw [hg, settle, List.append_nil] at hf
      exact hreported f (Option.mem_toList.1 hf)

/-- **A path never differs from itself.** -/
theorem compareTrees_self (hk : t.comparison.order.collator.KeyedBy key)
    (hstart : t.comparison.options.startingFile = none) (path : Path) (s : RunState σ) :
    let step := t.compareTrees path path s
    (step.status = .same ∨ step.status = .trouble) ∧
      (∀ dir name, .onlyIn dir name ∉ step.result) ∧
      (∀ left right, .differ left right ∉ step.result) ∧
      ∀ left leftKind right rightKind,
        .kindMismatch left leftKind right rightKind ∉ step.result := by
  intro step
  have hfound : ∀ f ∈ step.result, f.severity ≠ .different := fun f hf =>
    compareTrees_self_severity hk hstart path s hf
  refine ⟨?_, fun dir name h => hfound _ h rfl, fun left right h => hfound _ h rfl,
    fun left leftKind right rightKind h => hfound _ h rfl⟩
  obtain ⟨added, noted, hadded, ⟨notes, -, rfl⟩, hstatus⟩ := t.accounts_compareTrees path path s
  have hnone : step.status ≠ .different := by
    rw [hstatus, ← Status.worstOf_append]
    refine Status.worstOf_ne_different fun status h => ?_
    rcases List.mem_append.1 h with h | h
    · obtain ⟨f, hf, rfl⟩ := List.mem_map.1 h
      exact hfound f (hadded ▸ List.mem_append_left _ hf)
    · obtain ⟨n, -, rfl⟩ := List.mem_map.1 h
      exact n.severity_ne_different
  cases h : step.status with
  | same => exact Or.inl rfl
  | different => exact absurd h hnone
  | trouble => exact Or.inr rfl

/-- The collator fails while `l` is read for the right side. -/
theorem compareTrees_self_sample :
    let step := (sample 4).compareTrees (.ofString "l") (.ofString "l") (.start 0)
    (step.status = .same ∨ step.status = .trouble) ∧
      (∀ dir name, .onlyIn dir name ∉ step.result) ∧
      (∀ left right, .differ left right ∉ step.result) ∧
      ∀ left leftKind right rightKind,
        .kindMismatch left leftKind right rightKind ∉ step.result :=
  compareTrees_self (t := sample 4) (Collator.keyedBy_failingOnCall .foldAscii 4) rfl
    (.ofString "l") (.start 0)

-- the left table is sorted once more, and the two agree
example :
    let step := (sample 4).compareTrees (.ofString "l") (.ofString "l") (.start 0)
    step.run.basis = .bytewise ∧ step.status = .same ∧ step.result = [] := by decide +kernel

end TreeComparison

end TreeCompare
