import TreeCompare.FileTree
import TreeCompare.Proofs.Trees.Levels
import TreeCompare.Proofs.Trees.Reachable
/-!
# A comparison of trees ends

Every call that a comparison makes is for operands that do not exist or are
directories which the two operands of the comparison lead to, and none of
the pairs on the way to it led back (`Call.Descends`). A chain of calls that
do not lead back either is then no longer than the directories to be reached
on the left and on the right together, and with a bound beyond that the
levels come to an end by themselves (`ends_bounded`). So the bound that the
comparison is made with is of no account (`compareTrees_finishes`).
-/

namespace TreeCompare

variable {σ : Type}

/-- The operand is a directory that `root` leads to, unless it does not
exist. -/
def Operand.LiesUnder (fs : FileSystem) (follow : Bool) (root : Path) (operand : Operand) : Prop :=
  operand.isNonexistent = false →
    ∃ stat, operand.stat = some stat ∧ fs.Reaches follow root operand.path stat

theorem Operand.Becomes.liesUnder {fs : FileSystem} {follow : Bool} {root : Path}
    {operand opened : Operand} (hb : operand.Becomes opened)
    (h : operand.LiesUnder fs follow root) : opened.LiesUnder fs follow root := by
  intro hn
  obtain ⟨stat, hstat, hreach⟩ := h (hb.isNonexistent.symm.trans hn)
  exact ⟨stat, hb.stat hstat, hb.path ▸ hreach⟩

/-- A call that a comparison of the operands at `roots` comes to. -/
structure Call.Descends (t : TreeComparison σ) (roots : Side → Path) (call : Call σ) : Prop where
  passed : DirectoryPair.Passed call.pair.ancestors
  lies (side : Side) : ∀ operand ∈ call.pair.side side :: call.pair.ancestorsOn side,
    operand.LiesUnder t.files t.comparison.options.followLinks (roots side)

namespace TreeComparison

variable {t : TreeComparison σ} {answers : Answers σ} {call below : Call σ} {roots : Side → Path}

/-- Opening its operands does not make a pair lead back. -/
theorem leadsBack_of_becomes {pair opened : DirectoryPair} {side : Side}
    (ha : opened.ancestors = pair.ancestors)
    (hb : (pair.side side).Becomes (opened.side side))
    (hknown : (pair.side side).isNonexistent = false →
      ∃ stat, (pair.side side).stat = some stat)
    (h : opened.leadsBack side = true) : pair.leadsBack side = true := by
  cases hn : (pair.side side).isNonexistent with
  | true => rw [DirectoryPair.leadsBack, hn, Bool.true_or]
  | false =>
    obtain ⟨stat, hstat⟩ := hknown hn
    have haside : opened.ancestorsOn side = pair.ancestorsOn side := by
      cases side <;> simp only [DirectoryPair.ancestorsOn, ha]
    simpa only [DirectoryPair.leadsBack, DirectoryPair.isRepeated, Operand.sameObject, haside,
      hb.isNonexistent, hstat, hb.stat hstat] using h

/-- A directory that a name of a merge leads to lies where its own directory
does. -/
theorem Leads.liesUnder {m : Merge σ} {v : Visit σ Findings} {side : Side} {operand : Operand}
    (hm : t.mergeOf? call = some m)
    (hv : v ∈ t.comparison.visits (t.visitorBy answers m.pair) m.left m.right m.run m.found)
    (hl : t.Leads m.pair v.pairing side operand)
    (h : (call.pair.side side).LiesUnder t.files t.comparison.options.followLinks (roots side)) :
    operand.LiesUnder t.files t.comparison.options.followLinks (roots side) := by
  intro hn
  cases hl with
  | directory hname hstat hkind =>
    obtain ⟨hbecomes, hentries⟩ := entries_of_merge? hm side
    obtain ⟨hexists, entries, henum, hmem⟩ := hentries _ (mem_table_of_visits hv hname)
    obtain ⟨_, -, hreach⟩ := h hexists
    rw [hbecomes.path] at hstat ⊢
    exact ⟨_, rfl, .entry hreach henum hmem hstat hkind⟩
  | nothing hname => cases hn

/-- **What a call goes into it has come to**, one level further down. -/
theorem Calls.descends (hc : t.Calls answers call below) (h : call.Descends t roots) :
    ¬ call.pair.IsLoop ∧ below.Descends t roots ∧
      below.pair.depth = call.pair.depth + 1 := by
  obtain ⟨hm, hv, hleft, hright, -⟩ := hc
  next m v left right =>
  obtain ⟨hloop, hancestors, -⟩ := reads_of_merge? hm
  have hread := entries_of_merge? hm
  refine ⟨hloop, ⟨⟨fun hback => hloop ?_, ?_⟩, fun side operand hmem => ?_⟩, ?_⟩
  · have hback' : ∀ side, m.pair.leadsBack side = true → call.pair.leadsBack side = true :=
      fun side hs => leadsBack_of_becomes hancestors (hread side).1
        (fun hn => (h.lies side _ (List.mem_cons_self ..) hn).imp fun _ hs => hs.1) hs
    exact ⟨hback' .left hback.1, hback' .right hback.2⟩
  · rw [hancestors]
    exact h.passed
  · have habove : (m.pair.below left right).ancestorsOn side =
        m.pair.side side :: call.pair.ancestorsOn side := by
      cases side <;> simp only [DirectoryPair.ancestorsOn, DirectoryPair.below, hancestors,
        DirectoryPair.side, List.map_cons]
    have hhere := h.lies side _ (List.mem_cons_self ..)
    rw [habove] at hmem
    rcases List.mem_cons.1 hmem with rfl | hmem
    · cases side with
      | left => exact hleft.liesUnder hm hv hhere
      | right => exact hright.liesUnder hm hv hhere
    · rcases List.mem_cons.1 hmem with rfl | hmem
      · exact (hread side).1.liesUnder hhere
      · exact h.lies side operand (List.mem_cons_of_mem _ hmem)
  · change m.pair.ancestors.length + 1 = call.pair.ancestors.length + 1
    rw [hancestors]

/-- How many directories there are to be reached on both sides. -/
noncomputable def reachable (t : TreeComparison σ) (roots : Side → Path) : Nat :=
  (t.files.directoriesFrom t.comparison.options.followLinks (roots .left)).ncard +
    (t.files.directoriesFrom t.comparison.options.followLinks (roots .right)).ncard

theorem reachable_lt_depthBound (t : TreeComparison σ) (roots : Side → Path) :
    t.reachable roots < t.depthBound := by
  have hl := t.files.ncard_directoriesFrom_le t.comparison.options.followLinks (roots .left)
  have hr := t.files.ncard_directoriesFrom_le t.comparison.options.followLinks (roots .right)
  rw [reachable, depthBound]
  omega

/-- **A way that has passed is no longer than there are directories on both
sides.** -/
theorem length_le_reachable {way : List (Operand × Operand)} (hp : DirectoryPair.Passed way)
    (hlies : ∀ side, ∀ operand ∈ DirectoryPair.along way side,
      operand.LiesUnder t.files t.comparison.options.followLinks (roots side)) :
    way.length ≤ t.reachable roots := by
  have hcard : ∀ side, (DirectoryPair.places (DirectoryPair.along way side)).card ≤
      (t.files.directoriesFrom t.comparison.options.followLinks (roots side)).ncard := by
    intro side
    rw [← Set.ncard_coe_finset]
    refine Set.ncard_le_ncard (fun place hplace => ?_) (t.files.finite_directoriesFrom _ _)
    obtain ⟨operand, hmem, hexists, stat, hstat, rfl⟩ :=
      DirectoryPair.mem_places.1 (Finset.mem_coe.1 hplace)
    obtain ⟨stat', hstat', hreach⟩ := hlies side operand hmem hexists
    rw [hstat] at hstat'
    cases hstat'
    exact ⟨operand.path, stat, hreach, rfl⟩
  have hlength := DirectoryPair.length_le_of_passed hp fun side operand hmem hexists =>
    (hlies side operand hmem hexists).imp fun _ h => h.1
  exact hlength.trans (Nat.add_le_add (hcard .left) (hcard .right))

/-- A call that a comparison comes to is not deeper than that, and not as
deep if its pair does not lead back. -/
theorem depth_le_reachable (h : call.Descends t roots) :
    call.pair.depth ≤ t.reachable roots ∧
      (¬ call.pair.IsLoop → call.pair.depth + 1 ≤ t.reachable roots) := by
  constructor
  · refine length_le_reachable h.passed fun side operand hmem => h.lies side operand ?_
    cases side <;> exact List.mem_cons_of_mem _ hmem
  · intro hloop
    have hpassed : DirectoryPair.Passed
        ((call.pair.left, call.pair.right) :: call.pair.ancestors) := ⟨hloop, h.passed⟩
    refine length_le_reachable hpassed fun side operand hmem => h.lies side operand ?_
    cases side <;> exact hmem

/-- **With a bound beyond that the levels end by themselves.** -/
theorem ends_bounded (h : call.Descends t roots) {depth : Nat}
    (hdepth : t.reachable roots < call.pair.depth + depth) :
    t.Ends call (t.bounded depth call) := by
  induction depth generalizing call with
  | zero =>
    have := (depth_le_reachable h).1
    omega
  | succ depth ih =>
    rw [bounded_succ]
    refine .level (t.bounded depth) fun below hc => ?_
    obtain ⟨-, hbelow, hd⟩ := hc.descends h
    exact ih hbelow (by omega)

/-- The two operands of a comparison by their sides. -/
def operandsAt (left right : Path) : Side → Path
  | .left => left
  | .right => right

/-- The call that a comparison begins with is for directories. -/
theorem descends_firstCall {left right : Path} {s : RunState σ}
    (h : t.firstCall? left right s = some call) : call.Descends t (operandsAt left right) := by
  unfold firstCall? at h
  cases hl : t.files.stat left t.comparison.options.followLinks with
  | error e => simp only [hl, reduceCtorEq] at h
  | ok leftStat =>
    cases hr : t.files.stat right t.comparison.options.followLinks with
    | error e => simp only [hl, hr, reduceCtorEq] at h
    | ok rightStat =>
      simp only [hl, hr, Option.ite_none_right_eq_some, Bool.and_eq_true] at h
      obtain ⟨⟨hkl, hkr⟩, he⟩ := h
      cases he
      refine ⟨trivial, fun side operand hmem _ => ?_⟩
      cases side with
      | left =>
        rw [List.mem_singleton.1 hmem]
        exact ⟨leftStat, rfl, .root hl (eq_of_beq hkl)⟩
      | right =>
        rw [List.mem_singleton.1 hmem]
        exact ⟨rightStat, rfl, .root hr (eq_of_beq hkr)⟩

/-- Calls within each other, the outermost first, none of which is for a
pair that leads back. -/
structure Nested (t : TreeComparison σ) (answers : Answers σ) (left right : Path)
    (s : RunState σ) (calls : List (Call σ)) : Prop where
  first : calls.head? = t.firstCall? left right s
  chain : calls.IsChain (t.Calls answers)
  passes : ∀ call ∈ calls, ¬ call.pair.IsLoop

/-- Calls within each other are one level deeper each. -/
theorem length_le_of_isChain {calls : List (Call σ)} (h : call.Descends t roots)
    (hchain : (call :: calls).IsChain (t.Calls answers))
    (hpasses : ∀ c ∈ call :: calls, ¬ c.pair.IsLoop) :
    call.pair.depth + (call :: calls).length ≤ t.reachable roots := by
  induction calls generalizing call with
  | nil => exact (depth_le_reachable h).2 (hpasses call (List.mem_cons_self ..))
  | cons below calls ih =>
    obtain ⟨hc, hchain⟩ := List.isChain_cons_cons.1 hchain
    obtain ⟨-, hbelow, hd⟩ := hc.descends h
    have := ih hbelow hchain fun c hmem => hpasses c (List.mem_cons_of_mem _ hmem)
    simp only [List.length_cons] at this ⊢
    omega

/-- **A comparison of trees ends**, whatever the file system is, cycles of
links included: without any bound on its depth it finishes, in one way, and
that is what the bounded one comes to. No chain of calls within each other
that pass the check for loops is longer than the directories to be reached
on the left and those to be reached on the right together. -/
theorem compareTrees_finishes (t : TreeComparison σ) (left right : Path) (s : RunState σ) :
    (∀ step, t.Finishes left right s step ↔ step = t.compareTrees left right s) ∧
      ∀ answers calls, t.Nested answers left right s calls →
        calls.length ≤
          (t.files.directoriesFrom t.comparison.options.followLinks left).ncard +
            (t.files.directoriesFrom t.comparison.options.followLinks right).ncard := by
  have hfinishes : t.Finishes left right s (t.compareTrees left right s) := by
    rw [compareTrees_eq_compareTreesBy]
    refine .of (t.bounded t.depthBound) fun call hcall => ends_bounded (descends_firstCall hcall) ?_
    exact Nat.lt_add_left _ (t.reachable_lt_depthBound _)
  refine ⟨fun step => ⟨fun h => h.unique hfinishes, fun h => h ▸ hfinishes⟩, ?_⟩
  rintro answers calls ⟨hfirst, hchain, hpasses⟩
  cases calls with
  | nil => exact Nat.zero_le _
  | cons call calls =>
    have := length_le_of_isChain (descends_firstCall hfirst.symm) hchain hpasses
    exact (Nat.le_add_left _ _).trans this

/-- Two directories `l` and `r` in which `a` leads back, on the left at once
and on the right through one more directory. -/
def circlingTree : FileTree where
  objects := [
    { content := .directory 0 [(.ofString "l", 1), (.ofString "r", 2)] none },
    { content := .directory 0 [(.ofString "a", 3)] none },
    { content := .directory 0 [(.ofString "a", 4)] none },
    { content := .symlink (.ofString ".") },
    { content := .directory 2 [(.ofString "a", 5)] none },
    { content := .symlink (.ofString "..") }]
  root := 0
  current := 0

/-- A comparison of `circlingTree` through its links. -/
def circling : TreeComparison Unit where
  comparison := ⟨{ followLinks := true }, .scalarValues, fun _ => false⟩
  options := { recursive := true }
  files := circlingTree.fileSystem

/-- The call for `l` and `r`. -/
def outerCall : Call Unit :=
  (circling.firstCall? (.ofString "l") (.ofString "r") (.start ())).get (by decide +kernel)

/-- Its merge. -/
def outerMerge : Merge Unit := (circling.mergeOf? outerCall).get (by decide +kernel)

/-- The visit of its only pairing. -/
def outerVisit : Visit Unit Findings :=
  (circling.comparison.visits (circling.visitorBy (circling.bounded 9) outerMerge.pair)
    outerMerge.left outerMerge.right outerMerge.run outerMerge.found).head (by decide +kernel)

/-- The call for `l/a`, which is `l` again, and `r/a`. -/
def innerCall : Call Unit :=
  ⟨outerMerge.pair.below (.known (.ofString "l/a") ⟨.inode 1 1 none, .directory, 0⟩)
    (.known (.ofString "r/a") ⟨.inode 1 4 none, .directory, 0⟩), outerVisit.run, outerVisit.result⟩

theorem calls_innerCall : circling.Calls (circling.bounded 9) outerCall innerCall := by
  have hp : outerVisit.pairing = ⟨some (.ofString "a"), some (.ofString "a")⟩ := by decide +kernel
  refine .visit (m := outerMerge) (v := outerVisit) (Option.some_get _).symm
    (List.head_mem _) ?_ ?_ ?_
  · have hname : outerVisit.pairing.get .left = some (.ofString "a") := by rw [hp]; rfl
    exact .directory hname (by rfl) rfl
  · have hname : outerVisit.pairing.get .right = some (.ofString "a") := by rw [hp]; rfl
    exact .directory hname (by rfl) rfl
  · intro descend s found
    rw [hp]
    rfl

/-- The two calls within each other, on circles of different lengths. -/
theorem compareTrees_finishes_circling :
    let left := Path.ofString "l"
    let right := Path.ofString "r"
    circling.Finishes left right (.start ()) (circling.compareTrees left right (.start ())) ∧
      circling.Nested (circling.bounded 9) left right (.start ()) [outerCall, innerCall] ∧
      [outerCall, innerCall].length ≤ (circling.files.directoriesFrom true left).ncard +
        (circling.files.directoriesFrom true right).ncard := by
  intro left right
  have hnested : circling.Nested (circling.bounded 9) left right (.start ())
      [outerCall, innerCall] :=
    ⟨Option.some_get _, List.isChain_pair.2 calls_innerCall, by decide +kernel⟩
  have h := compareTrees_finishes circling left right (.start ())
  exact ⟨(h.1 _).2 rfl, hnested, h.2 _ _ hnested⟩

-- one level further down both sides lead back
example :
    (circling.compareTrees (.ofString "l") (.ofString "r") (.start ())).status = .trouble := by
  decide +kernel

end TreeComparison

end TreeCompare
