import TreeCompare.Proofs.Trees.Severity
import TreeCompare.TreeComparison
/-!
# What a tree comparison does with a pairing

A pairing is either gone into as a pair of directories, with nothing else
done about it (`TreeComparison.Goes`), or settled on the spot: then the
state of the run stays what it was, and the only entry that may be reported
as one-sided is a name handed on alone (`TreeComparison.Settles`). Which of
the two it is depends on the file system and not on the run: a pairing that
is settled comes down to one finding, or to none, and its status is how bad
that is (`ComesTo`, `goes_or_comesTo`).
-/

namespace TreeCompare

namespace TreeComparison

variable {σ : Type} {t : TreeComparison σ} {pair : DirectoryPair} {s : RunState σ}
  {found : Findings}

/-- The pairing is gone into as these two directories. -/
def Goes (t : TreeComparison σ) (pair : DirectoryPair) (p : Pairing) (left right : Operand) :
    Prop :=
  ∀ descend s found, t.visit descend pair p s found = descend left right s found

/-- A step that leaves the run alone and reports no entry as one-sided. -/
structure Quiet (s : RunState σ) (found : Findings) (step : Step σ Findings) : Prop where
  run : step.run = s
  onlyIn : ∀ dir name, .onlyIn dir name ∈ step.result → .onlyIn dir name ∈ found

/-- The pairing is settled without going anywhere. -/
def Settles (t : TreeComparison σ) (pair : DirectoryPair) (p : Pairing) : Prop :=
  ∀ descend s found,
    Quiet s found (t.visit descend pair p s found) ∨
      ∃ side name, p.loneSide = some side ∧ p.get side = some name ∧
        t.visit descend pair p s found =
          ⟨.different, s, .onlyIn (pair.side side).path name :: found⟩

/-- The operand that a pairing is gone into as on a side: the directory that
its name leads to, or nothing where it has no name. -/
inductive Leads (t : TreeComparison σ) (pair : DirectoryPair) (p : Pairing) (side : Side) :
    Operand → Prop where
  | directory {name : Name} {stat : ObjectStat} (hname : p.get side = some name)
      (hstat : t.files.stat ((pair.side side).path.join name) t.comparison.options.followLinks =
        .ok stat)
      (hkind : stat.kind = .directory) :
      Leads t pair p side (.known ((pair.side side).path.join name) stat)
  | nothing {path : Path} (hname : p.get side = none) : Leads t pair p side (.nonexistent path)

/-- What is there where a comparison has looked. -/
def Located.Seen (t : TreeComparison σ) (located : Located) : Prop :=
  t.files.stat located.path t.comparison.options.followLinks = .ok located.stat

/-! ## Steps that report one thing at most -/

/-- The step that leaves the run alone and comes down to one finding, or to
none. -/
def settle (reported : Option Finding) (s : RunState σ) (found : Findings) : Step σ Findings :=
  ⟨Status.worstOf (reported.toList.map (·.severity)), s, reported.toList ++ found⟩

/-- What is done comes down to one finding or to none, and to no entry that
is one-sided. -/
def IsReport (f : RunState σ → Findings → Step σ Findings) : Prop :=
  ∃ reported, (∀ dir name, reported ≠ some (.onlyIn dir name)) ∧
    ∀ s found, f s found = settle reported s found

theorem IsReport.quiet {f : RunState σ → Findings → Step σ Findings} (h : IsReport f)
    (s : RunState σ) (found : Findings) : Quiet s found (f s found) := by
  obtain ⟨reported, hreported, h⟩ := h
  rw [h]
  refine ⟨rfl, fun dir name hmem => (List.mem_append.1 hmem).resolve_left fun hmem => ?_⟩
  exact hreported dir name (Option.mem_toList.1 hmem)

theorem settle_some (f : Finding) (s : RunState σ) (found : Findings) :
    settle (some f) s found = ⟨f.severity, s, f :: found⟩ := by
  simp only [settle, Option.toList_some, List.map_cons, List.map_nil, Status.worstOf_cons,
    Status.worstOf_nil, Status.worse_same, List.singleton_append]

/-- One finding that is not a one-sided entry. -/
theorem isReport_cons {f : Finding} (hf : ∀ dir name, f ≠ .onlyIn dir name) :
    IsReport fun (s : RunState σ) found => ⟨f.severity, s, f :: found⟩ :=
  ⟨some f, fun dir name h => hf dir name (Option.some.inj h),
    fun s found => (settle_some f s found).symm⟩

theorem isReport_same : IsReport fun (s : RunState σ) found => ⟨.same, s, found⟩ :=
  ⟨none, by simp, fun _ _ => rfl⟩

theorem isReport_failed (path : Path) (e : IoError) :
    IsReport (failed path e : RunState σ → Findings → Step σ Findings) :=
  isReport_cons (f := .trouble path e.message) (by simp)

theorem isReport_verdict (left right : Path) (same : Bool) :
    IsReport (t.verdict left right same) := by
  unfold verdict
  cases same with
  | false => exact isReport_cons (f := .differ left right) (by simp)
  | true =>
    cases t.options.reportIdentical with
    | false => exact isReport_same
    | true => exact isReport_cons (f := .identical left right) (by simp)

theorem isReport_compareFiles (left right : Located) :
    IsReport (t.compareFiles left right) := by
  unfold compareFiles
  split
  · exact isReport_verdict ..
  · split
    · exact isReport_verdict ..
    · exact isReport_failed ..

theorem isReport_compareLinks (left right : Path) : IsReport (t.compareLinks left right) := by
  unfold compareLinks
  split
  · exact isReport_verdict ..
  · exact isReport_failed ..
  · exact isReport_failed ..

/-- Without a way down every comparison of two objects is a report. -/
theorem isReport_compareObjects (left right : Located) :
    IsReport (t.compareObjects none left right) := by
  unfold compareObjects
  split
  · exact isReport_cons (f := .kindMismatch _ _ _ _) (by simp)
  · split
    · exact isReport_cons (f := .commonSubdirectories _ _) (by simp)
    · exact isReport_compareFiles ..
    · exact isReport_compareLinks ..
    · exact isReport_verdict ..

/-! ## With a way down -/

/-- Two directories are gone into in a recursive comparison. -/
theorem compareObjects_goes {left right : Located} (hl : left.stat.kind = .directory)
    (hr : right.stat.kind = .directory) (hrec : t.options.recursive = true)
    (descend : Descent σ) :
    t.compareObjects (some descend) left right = descend left.operand right.operand := by
  funext s found
  simp only [compareObjects, hl, hr, hrec, ne_eq, not_true_eq_false, if_false]

/-- With any other two objects the way down is of no account. -/
theorem compareObjects_stays {left right : Located}
    (h : ¬ (left.stat.kind = .directory ∧ right.stat.kind = .directory ∧
      t.options.recursive = true)) (descend : Descent σ) :
    t.compareObjects (some descend) left right = t.compareObjects none left right := by
  funext s found
  unfold compareObjects
  by_cases hk : left.stat.kind = right.stat.kind
  · simp only [hk, ne_eq, not_true_eq_false, if_false]
    cases hright : right.stat.kind with
    | directory =>
      have hrec : t.options.recursive = false :=
        Bool.eq_false_iff.2 fun hrec => h ⟨hk.trans hright, hright, hrec⟩
      simp only [hrec]
    | _ => rfl
  · simp only [if_pos hk]

/-- Two objects are two directories that are gone into, or the way down is
of no account. -/
theorem compareObjects_some (t : TreeComparison σ) (left right : Located) :
    (left.stat.kind = .directory ∧ right.stat.kind = .directory ∧
        ∀ descend, t.compareObjects (some descend) left right =
          descend left.operand right.operand) ∨
      ∀ descend, t.compareObjects (some descend) left right = t.compareObjects none left right := by
  by_cases hgo : left.stat.kind = .directory ∧ right.stat.kind = .directory ∧
      t.options.recursive = true
  · exact Or.inl ⟨hgo.1, hgo.2.1, compareObjects_goes hgo.1 hgo.2.1 hgo.2.2⟩
  · exact Or.inr (compareObjects_stays hgo)

/-- The same of an object that is compared with nothing. -/
theorem compareWithNothing_cases (t : TreeComparison σ) (side : Side) (present : Located)
    (absent : Path) :
    (present.stat.kind = .directory ∧ ∀ descend,
        t.compareWithNothing descend side present absent =
          descend (side.place present.operand (.nonexistent absent)).1
            (side.place present.operand (.nonexistent absent)).2) ∨
      ∃ f, IsReport f ∧ ∀ descend, t.compareWithNothing descend side present absent = f := by
  unfold compareWithNothing
  cases present.stat.kind with
  | directory =>
    cases t.options.recursive with
    | true => exact Or.inl ⟨rfl, fun _ => rfl⟩
    | false => exact Or.inr ⟨_, isReport_cons (f := .commonSubdirectories _ _) (by simp),
        fun _ => rfl⟩
  | _ => exact Or.inr ⟨_, isReport_verdict .., fun _ => rfl⟩

/-! ## A pairing -/

/-- What a look at a path goes on with, or the report that there is
nothing to look at. -/
theorem lookAt_cases (t : TreeComparison σ) (path : Path) :
    (∃ stat, t.files.stat path t.comparison.options.followLinks = .ok stat ∧
        ∀ s found next, t.lookAt path s found next = next ⟨path, stat⟩) ∨
      ∃ f, IsReport f ∧ ∀ s found next, t.lookAt path s found next = f s found := by
  unfold lookAt
  cases t.files.stat path t.comparison.options.followLinks with
  | ok stat => exact Or.inl ⟨stat, rfl, fun _ _ _ => rfl⟩
  | error e => exact Or.inr ⟨_, isReport_failed path e, fun _ _ _ => rfl⟩

/-- What is done with a name that one side has alone. -/
theorem visitLone_cases (t : TreeComparison σ) (pair : DirectoryPair) {p : Pairing} {side : Side}
    {name : Name} (hname : p.get side = some name) (hnone : p.get side.other = none) :
    (∃ left right, t.Leads pair p .left left ∧ t.Leads pair p .right right ∧
        ∀ descend, t.visitLone descend pair side name = descend left right) ∨
      (∃ f, IsReport f ∧ ∀ descend, t.visitLone descend pair side name = f) ∨
      ∀ descend, t.visitLone descend pair side name =
        settle (some (.onlyIn (pair.side side).path name)) := by
  unfold visitLone
  cases t.options.newFile with
  | false => exact Or.inr (Or.inr fun _ => rfl)
  | true =>
    rcases t.lookAt_cases ((pair.side side).path.join name) with ⟨stat, hstat, hl⟩ | ⟨f, hf, hl⟩
    · simp only [hl, if_true]
      rcases t.compareWithNothing_cases side ⟨(pair.side side).path.join name, stat⟩
        ((pair.side side.other).path.join name) with ⟨hk, h⟩ | ⟨f, hf, h⟩
      · refine Or.inl ⟨_, _, ?_, ?_, h⟩
        · cases side with
          | left => exact .directory hname hstat hk
          | right => exact .nothing hnone
        · cases side with
          | left => exact .nothing hnone
          | right => exact .directory hname hstat hk
      · exact Or.inr (Or.inl ⟨f, hf, h⟩)
    · simp only [hl, if_true]
      exact Or.inr (Or.inl ⟨f, hf, fun _ => rfl⟩)

/-- The pairing comes down to one finding, or to none, whatever the run has
come to. Only a name that is handed on alone is reported as one-sided. -/
structure ComesTo (t : TreeComparison σ) (pair : DirectoryPair) (p : Pairing)
    (reported : Option Finding) : Prop where
  visit : ∀ descend s found, t.visit descend pair p s found = settle reported s found
  onlyIn : ∀ dir name, reported = some (.onlyIn dir name) →
    ∃ side, p.loneSide = some side ∧ p.get side = some name ∧ dir = (pair.side side).path

theorem IsReport.comesTo {p : Pairing} {f : RunState σ → Findings → Step σ Findings}
    (hf : IsReport f) (h : ∀ descend s found, t.visit descend pair p s found = f s found) :
    ∃ reported, t.ComesTo pair p reported := by
  obtain ⟨reported, hreported, hf⟩ := hf
  exact ⟨reported, fun descend s found => by rw [h, hf],
    fun dir name he => absurd he (hreported dir name)⟩

/-- **A pairing is gone into, or comes down to one finding or to none.** -/
theorem goes_or_comesTo (t : TreeComparison σ) (pair : DirectoryPair) (p : Pairing) :
    (∃ left right, t.Leads pair p .left left ∧ t.Leads pair p .right right ∧
        t.Goes pair p left right) ∨ ∃ reported, t.ComesTo pair p reported := by
  have hlone : ∀ side {name}, p.loneSide = some side → p.get side = some name →
      p.get side.other = none →
      (∀ descend s found, t.visit descend pair p s found =
        t.visitLone descend pair side name s found) →
      (∃ left right, t.Leads pair p .left left ∧ t.Leads pair p .right right ∧
        t.Goes pair p left right) ∨ ∃ reported, t.ComesTo pair p reported := by
    intro side name hside hname hnone hv
    rcases t.visitLone_cases pair hname hnone with ⟨left, right, hl, hr, h⟩ | ⟨f, hf, h⟩ | h
    · exact Or.inl ⟨left, right, hl, hr, fun descend s found => by rw [hv, h]⟩
    · exact Or.inr (hf.comesTo fun descend s found => by rw [hv, h])
    · refine Or.inr ⟨_, fun descend s found => by rw [hv, h], fun dir name' he => ?_⟩
      cases he
      exact ⟨side, hside, hname, rfl⟩
  rcases p with ⟨_ | a, _ | b⟩
  · exact Or.inr (isReport_same.comesTo fun _ _ _ => rfl)
  · exact hlone .right rfl rfl rfl fun _ _ _ => rfl
  · exact hlone .left rfl rfl rfl fun _ _ _ => rfl
  · have hv : ∀ descend s found, t.visit descend pair ⟨some a, some b⟩ s found =
        t.lookAt (pair.left.path.join a) s found fun left =>
          t.lookAt (pair.right.path.join b) s found fun right =>
            t.compareObjects (some descend) left right s found := fun _ _ _ => rfl
    rcases t.lookAt_cases (pair.left.path.join a) with ⟨left, hleft, hl⟩ | ⟨f, hf, hl⟩
    · rcases t.lookAt_cases (pair.right.path.join b) with ⟨right, hright, hr⟩ | ⟨f, hf, hr⟩
      · rcases t.compareObjects_some ⟨pair.left.path.join a, left⟩
          ⟨pair.right.path.join b, right⟩ with ⟨hkl, hkr, h⟩ | h
        · exact Or.inl ⟨_, _, .directory rfl hleft hkl, .directory rfl hright hkr,
            fun descend s found => by rw [hv, hl, hr, h]; rfl⟩
        · exact Or.inr ((isReport_compareObjects _ _).comesTo
            fun descend s found => by rw [hv, hl, hr, h])
      · exact Or.inr (hf.comesTo fun descend s found => by rw [hv, hl, hr])
    · exact Or.inr (hf.comesTo fun descend s found => by rw [hv, hl])

/-- A pairing is gone into as one pair of directories only. -/
theorem Goes.unique {p : Pairing} {left right left' right' : Operand}
    (h : t.Goes pair p left right) (h' : t.Goes pair p left' right') (s : RunState σ) :
    left' = left ∧ right' = right := by
  -- what is done further down tells the two operands from all others
  have he := (h (fun l r s found => ⟨if l = left ∧ r = right then .same else .trouble, s, found⟩)
    s []).symm.trans (h' _ s [])
  by_contra hne
  simp [hne] at he

/-- What is gone into is not settled. -/
theorem Goes.not_comesTo {p : Pairing} {left right : Operand} {reported : Option Finding}
    (h : t.Goes pair p left right) (s : RunState σ) : ¬ t.ComesTo pair p reported := by
  intro hc
  -- it would come down to the same whatever is done further down
  have hstep := fun descend => (h descend s []).symm.trans (hc.visit descend s [])
  have hsame := (hstep fun _ _ s found => ⟨.same, s, found⟩).trans
    (hstep fun _ _ s found => ⟨.trouble, s, found⟩).symm
  cases hsame

/-- What a pairing comes down to is one thing only. -/
theorem ComesTo.unique {p : Pairing} {reported reported' : Option Finding}
    (h : t.ComesTo pair p reported) (h' : t.ComesTo pair p reported') (s : RunState σ) :
    reported' = reported := by
  have he := (h'.visit (fun _ _ s found => ⟨.same, s, found⟩) s []).symm.trans (h.visit _ s [])
  have hlist : reported'.toList = reported.toList := by simpa [settle] using congrArg (·.result) he
  cases reported <;> cases reported' <;> simp_all

/-- What is gone into is the pair of directories that the two names lead
to. -/
theorem Goes.leads {p : Pairing} {left right : Operand} (h : t.Goes pair p left right)
    (s : RunState σ) : t.Leads pair p .left left ∧ t.Leads pair p .right right := by
  rcases t.goes_or_comesTo pair p with ⟨left', right', hl, hr, h'⟩ | ⟨reported, hc⟩
  · obtain ⟨hleft, hright⟩ := h.unique h' s
    rw [← hleft, ← hright]
    exact ⟨hl, hr⟩
  · exact absurd hc (h.not_comesTo s)

/-- **A pairing is gone into or settled**, whatever the run has come to. -/
theorem goes_or_settles (t : TreeComparison σ) (pair : DirectoryPair) (p : Pairing) :
    (∃ left right, t.Goes pair p left right) ∨ t.Settles pair p := by
  rcases t.goes_or_comesTo pair p with ⟨left, right, -, -, h⟩ | ⟨reported, h, honly⟩
  · exact Or.inl ⟨left, right, h⟩
  · refine Or.inr fun descend s found => ?_
    rw [h]
    by_cases hr : ∃ dir name, reported = some (.onlyIn dir name)
    · obtain ⟨dir, name, rfl⟩ := hr
      obtain ⟨side, hside, hname, rfl⟩ := honly dir name rfl
      exact Or.inr ⟨side, name, hside, hname, rfl⟩
    · exact Or.inl (IsReport.quiet ⟨reported, fun dir name he => hr ⟨dir, name, he⟩,
        fun _ _ => rfl⟩ s found)

end TreeComparison

end TreeCompare
