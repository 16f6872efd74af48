import TreeCompare.Proofs.Trees.Merges
/-!
# A comparison level by level

One level of a comparison of directories hands the pairs that it goes into
to the levels below (`TreeComparison.level`). Put on each other as often as
a bound says, the levels make up a comparison (`bounded_succ`). Without a
bound a call has an answer only if it comes to one after finitely many
levels, which is what `TreeComparison.Ends` says; it has one answer at most
(`Ends.unique`).
-/

namespace TreeCompare

variable {σ : Type}

namespace Comparison

variable {α : Type} {c : Comparison σ} {visitor visitor' : Visitor σ α}

/-- Two visitors that answer alike whatever both are handed make the same
visits. -/
theorem visitsOn_congr {left right : List Name} {s : RunState σ} {result : α}
    (h : ∀ v ∈ c.visitsOn visitor left right s result,
      ∀ v' ∈ c.visitsOn visitor' left right s result,
        v.pairing = v'.pairing → v.run = v'.run → v.result = v'.result →
          visitor v.pairing v.run v.result = visitor' v.pairing v.run v.result) :
    c.visitsOn visitor left right s result = c.visitsOn visitor' left right s result := by
  induction left, right, s, result using visitsOn.induct c visitor with
  | case1 left right s result hne tails step ih =>
    rw [visitsOn_cons hne, visitsOn_cons hne] at h ⊢
    -- the first visit is handed the same, so it leaves the same behind
    have hfirst := h _ (List.mem_cons_self ..) _ (List.mem_cons_self ..) rfl rfl rfl
    simp only at hfirst h ⊢
    rw [← hfirst] at h ⊢
    congr 1
    exact ih fun v hv v' hv' => h v (List.mem_cons_of_mem _ hv) v' (List.mem_cons_of_mem _ hv')
  | case2 left right s result hne =>
    have hnil : left = [] ∧ right = [] := by simpa using hne
    rw [hnil.1, hnil.2, visitsOn_nil, visitsOn_nil]

end Comparison

/-- A comparison of a pair of directories that is asked for: the pair, the
state of the run and what was found by then. -/
structure Call (σ : Type) where
  pair : DirectoryPair
  run : RunState σ
  found : TreeComparison.Findings

namespace TreeComparison

/-- What becomes of every call. -/
abbrev Answers (σ : Type) := Call σ → Comparison.Paired σ Findings

/-- What a level does with the pairings of `pair`, if the levels below give
these answers. -/
def visitorBy (t : TreeComparison σ) (answers : Answers σ) (pair : DirectoryPair) :
    Visitor σ Findings :=
  t.visit (fun left right s found => (answers ⟨pair.below left right, s, found⟩).toStep) pair

/-- One level of a comparison: the pair of the call is gone through, and
`answers` stands for the levels below. -/
def level (t : TreeComparison σ) (answers : Answers σ) : Answers σ := fun call =>
  t.comparison.pairDirectories t.files call.pair (t.visitorBy answers)
    (call.run.note (.directories call.pair.left.path call.pair.right.path call.pair.depth))
    call.found

/-- The comparison that goes no more than `depth` levels deep. -/
def bounded (t : TreeComparison σ) (depth : Nat) : Answers σ := fun call =>
  t.compareWithin depth call.pair call.run call.found

/-- A comparison is one level on top of a shallower one. -/
theorem bounded_succ (t : TreeComparison σ) (depth : Nat) :
    t.bounded (depth + 1) = t.level (t.bounded depth) := rfl

/-- The merge that a call begins with, unless its pair leads back or cannot
be read. How deep the comparison may go is of no account to it. -/
def mergeOf? (t : TreeComparison σ) (call : Call σ) : Option (Merge σ) :=
  t.merge? 0 call.pair
    (call.run.note (.directories call.pair.left.path call.pair.right.path call.pair.depth))
    call.found

/-- The calls that one level makes on its way through the pair of `call`,
each with the state that the run has come to by the answers before. -/
inductive Calls (t : TreeComparison σ) (answers : Answers σ) (call : Call σ) : Call σ → Prop where
  | visit {m : Merge σ} {v : Visit σ Findings} {left right : Operand}
      (hm : t.mergeOf? call = some m)
      (hv : v ∈ t.comparison.visits (t.visitorBy answers m.pair) m.left m.right m.run m.found)
      (hleft : t.Leads m.pair v.pairing .left left)
      (hright : t.Leads m.pair v.pairing .right right)
      (hg : t.Goes m.pair v.pairing left right) :
      Calls t answers call ⟨m.pair.below left right, v.run, v.result⟩

/-- **A call comes to an answer**, with nothing to bound how deep it goes:
one level gives the answer, out of answers that the calls of that level come
to themselves. -/
inductive Ends (t : TreeComparison σ) : Call σ → Comparison.Paired σ Findings → Prop where
  | level (answers : Answers σ) {call : Call σ}
      (h : ∀ below, t.Calls answers call below → Ends t below (answers below)) :
      Ends t call (t.level answers call)

variable {t : TreeComparison σ} {answers answers' : Answers σ} {call : Call σ}

/-- A level depends on the answers to its own calls alone. -/
theorem level_congr (h : ∀ below, t.Calls answers call below → t.Calls answers' call below →
      answers below = answers' below) :
    t.level answers call = t.level answers' call := by
  rcases t.pairDirectories_eq 0 call.pair
    (call.run.note (.directories call.pair.left.path call.pair.right.path call.pair.depth))
    call.found with ⟨m, hm, -, -, he⟩ | ⟨-, _, -, -, he⟩
  · simp only [level, he]
    rw [Comparison.pairTables_eq_of_visits, Comparison.pairTables_eq_of_visits,
      Comparison.visits_eq_visitsOn, Comparison.visits_eq_visitsOn, Comparison.visitsOn_congr]
    intro v hv v' hv' hp hs hr
    rcases t.goes_or_comesTo m.pair v.pairing with ⟨left, right, hl, hri, hg⟩ | ⟨reported, hc, -⟩
    · rw [← Comparison.visits_eq_visitsOn] at hv hv'
      have hbelow := Calls.visit hm hv hl hri hg
      have hbelow' : t.Calls answers' call ⟨m.pair.below left right, v.run, v.result⟩ := by
        rw [hs, hr]
        exact .visit hm hv' (hp ▸ hl) (hp ▸ hri) (hp ▸ hg)
      simp only [visitorBy, hg _, h _ hbelow hbelow']
    · simp only [visitorBy, hc]
  · simp only [level, he]

/-- A call comes to one answer at most. -/
theorem Ends.unique {answer answer' : Comparison.Paired σ Findings} (h : t.Ends call answer)
    (h' : t.Ends call answer') : answer = answer' := by
  induction h generalizing answer' with
  | level answers h ih =>
    cases h' with
    | level answers' h' => exact level_congr fun below hb hb' => ih below hb (h' below hb')

/-! ## The comparison of two operands -/

/-- The call that a comparison of two operands makes, if both are
directories. -/
def firstCall? (t : TreeComparison σ) (left right : Path) (s : RunState σ) : Option (Call σ) :=
  match t.files.stat left t.comparison.options.followLinks,
    t.files.stat right t.comparison.options.followLinks with
  | .ok leftStat, .ok rightStat =>
    if leftStat.kind.isDirectory && rightStat.kind.isDirectory then
      some ⟨.root (.known left leftStat) (.known right rightStat),
        s.reset.note (.comparing left right), []⟩
    else none
  | _, _ => none

/-- The comparison of two operands, with `answers` taking the place of the
comparison of directories. -/
def compareTreesBy (t : TreeComparison σ) (answers : Answers σ) (left right : Path)
    (s : RunState σ) : Step σ Findings :=
  let s := s.reset.note (.comparing left right)
  t.lookAt left s [] fun left =>
    t.lookAt right s [] fun right =>
      match left.stat.kind.isDirectory, right.stat.kind.isDirectory with
      | true, true => (answers ⟨.root left.operand right.operand, s, []⟩).toStep
      | true, false => t.compareAcross .left left right s []
      | false, true => t.compareAcross .right right left s []
      | false, false => t.compareObjects none left right s []

/-- The comparison that the program makes is bounded. -/
theorem compareTrees_eq_compareTreesBy (t : TreeComparison σ) (left right : Path)
    (s : RunState σ) :
    t.compareTrees left right s = t.compareTreesBy (t.bounded t.depthBound) left right s := rfl

/-- It depends on the answer to its first call alone. -/
theorem compareTreesBy_congr {left right : Path} {s : RunState σ}
    (h : ∀ call, t.firstCall? left right s = some call → answers call = answers' call) :
    t.compareTreesBy answers left right s = t.compareTreesBy answers' left right s := by
  unfold compareTreesBy lookAt
  unfold firstCall? at h
  cases hl : t.files.stat left t.comparison.options.followLinks with
  | error e => rfl
  | ok leftStat =>
    cases hr : t.files.stat right t.comparison.options.followLinks with
    | error e => rfl
    | ok rightStat =>
      simp only [hl, hr] at h ⊢
      split
      · next hkl hkr =>
        rw [hkl, hkr] at h
        exact congrArg _ (h _ rfl)
      · rfl
      · rfl
      · rfl

/-- **A comparison of two operands finishes**, with nothing to bound how
deep it goes. -/
inductive Finishes (t : TreeComparison σ) (left right : Path) (s : RunState σ) :
    Step σ Findings → Prop where
  | of (answers : Answers σ)
      (h : ∀ call, t.firstCall? left right s = some call → t.Ends call (answers call)) :
      Finishes t left right s (t.compareTreesBy answers left right s)

/-- It finishes in one way at most. -/
theorem Finishes.unique {left right : Path} {s : RunState σ} {step step' : Step σ Findings}
    (h : t.Finishes left right s step) (h' : t.Finishes left right s step') : step = step' := by
  cases h with
  | of answers h =>
    cases h' with
    | of answers' h' =>
      exact compareTreesBy_congr fun call hcall => (h call hcall).unique (h' call hcall)

end TreeComparison

end TreeCompare
