import TreeCompare.Proofs.Operations.Alike
import TreeCompare.Proofs.Trees.Nesting
/-!
# Comparisons that turn

Two comparisons turn into each other if what one does with a pairing the other
does with it turned, and what they report goes together
(`TreeComparison.TurnsInto`): the findings may be the same, or the same seen
from the other side. Then every level of the one turns into that level of the
other, whatever is below (`compareWithin_turned`). How deep the levels may go at
most is of no account to a comparison as a whole (`compareTrees_eq_bounded`), so
that two of them can be gone through with one bound (`compareTrees_agrees`).
-/

namespace TreeCompare

variable {σ : Type} {answer : Name → Except KeyError SortKey} {side : Side}
  {met : Path → Path → Prop} {R : Finding → Finding → Prop}

namespace TreeComparison

/-- What two comparisons do with a pairing of `pair` turns: both go into it as
the same directories, which are again among those that are `met`, or both settle
it, with findings that go together. -/
inductive VisitTurns (side : Side) (met : Path → Path → Prop) (R : Finding → Finding → Prop)
    (t t' : TreeComparison σ) (pair : DirectoryPair) (p : Pairing) : Prop where
  | goes {left right : Operand} (hmet : met left.path right.path) (h : t.Goes pair p left right)
      (h' : t'.Goes (pair.turned side) (p.turned side) (side.place left right).1
        (side.place left right).2)
  | settles {reported reported' : Option Finding} (hr : Option.Rel R reported reported')
      (h : ∀ descend s found, t.visit descend pair p s found = settle reported s found)
      (h' : ∀ descend s found, t'.visit descend (pair.turned side) (p.turned side) s found =
        settle reported' s found)

/-- One comparison turns into the other: they are configured alike, their file
systems read alike, and in directories that are `met` what they do with a
pairing of names that match turns. -/
structure TurnsInto (answer : Name → Except KeyError SortKey) (side : Side)
    (met : Path → Path → Prop) (R : Finding → Finding → Prop) (t t' : TreeComparison σ) :
    Prop where
  comparison : t'.comparison = t.comparison
  reads : t.comparison.ReadsAlike t.files t'.files
  severity : ∀ {f f'}, R f f' → f'.severity = f.severity
  visits : ∀ {pair : DirectoryPair} {p : Pairing}, met pair.left.path pair.right.path →
    p.Matched t.comparison.order answer → VisitTurns side met R t t' pair p

variable {t t' : TreeComparison σ} {s s' : RunState σ} {found found' : Findings}

/-- What two steps come down to goes together if what they report does. -/
theorem agrees_settle (hseverity : ∀ {f f'}, R f f' → f'.severity = f.severity)
    {reported reported' : Option Finding} (hr : Option.Rel R reported reported')
    (hs : s'.basis = s.basis) (hfound : List.Forall₂ R found found') :
    (settle reported s found).Agrees (List.Forall₂ R) (settle reported' s' found') := by
  cases hr with
  | none => exact ⟨rfl, hs, hfound⟩
  | some h =>
    refine ⟨?_, hs, .cons h hfound⟩
    simp only [settle, Option.toList_some, List.map_cons, List.map_nil, hseverity h]

/-- **Every level of a comparison turns**, if what is done with each pairing
does. -/
theorem compareWithin_turned (ht : TurnsInto answer side met R t t')
    (ha : t.comparison.collator.AnswersBy answer)
    (hstart : t.comparison.options.startingFile = none) (depth : Nat) {pair : DirectoryPair}
    (hmet : met pair.left.path pair.right.path) (hs : s'.basis = s.basis)
    (hfound : List.Forall₂ R found found') :
    (t.compareWithin depth pair s found).toStep.Agrees (List.Forall₂ R)
      (t'.compareWithin depth (pair.turned side) s' found').toStep := by
  induction depth generalizing pair s s' found found' with
  | zero => exact ⟨rfl, hs, hfound⟩
  | succ depth ih =>
    have hv : ∀ opened : DirectoryPair, opened.left.path = pair.left.path →
        opened.right.path = pair.right.path →
        Visitor.Agrees t.comparison.order answer side (List.Forall₂ R)
          (t.visitor depth opened) (t'.visitor depth (opened.turned side)) := by
      intro opened hl hr p s s' found found' hp hs hfound
      rw [← hl, ← hr] at hmet
      cases ht.visits hmet hp with
      | goes hbelow h h' =>
        rw [visitor, visitor, h, h', opened.below_turned]
        exact ih hbelow hs hfound
      | settles hr h h' =>
        rw [visitor, visitor, h, h']
        exact agrees_settle ht.severity hr hs hfound
    have hnoted : ∀ n n' : Note, (s'.note n').basis = (s.note n).basis := fun _ _ => hs
    change Step.Agrees _
      (t.comparison.pairDirectories t.files pair (t.visitor depth) (s.note _) found).toStep
      (t'.comparison.pairDirectories t'.files (pair.turned side) (t'.visitor depth)
        (s'.note _) found').toStep
    rw [ht.comparison]
    exact Comparison.pairDirectories_turned ha hstart ht.reads hv (hnoted _ _) hfound

/-- **A larger bound changes nothing.** -/
theorem compareTrees_eq_bounded (t : TreeComparison σ) {depth : Nat} (hdepth : t.depthBound ≤ depth)
    (left right : Path) (s : RunState σ) :
    t.compareTreesBy (t.bounded depth) left right s = t.compareTrees left right s := by
  rw [compareTrees_eq_compareTreesBy]
  refine compareTreesBy_congr fun call hcall => ?_
  have hdescends := descends_firstCall hcall
  have hlt := t.reachable_lt_depthBound (operandsAt left right)
  exact (ends_bounded hdescends (by omega)).unique (ends_bounded hdescends (by omega))

/-- Two directories are gone through with any bound that is large enough. -/
theorem compareTrees_directories (t : TreeComparison σ) {depth : Nat}
    (hdepth : t.depthBound ≤ depth) {left right : Path} {leftStat rightStat : ObjectStat}
    (hl : t.files.stat left t.comparison.options.followLinks = .ok leftStat)
    (hr : t.files.stat right t.comparison.options.followLinks = .ok rightStat)
    (hkl : leftStat.kind = .directory) (hkr : rightStat.kind = .directory) (s : RunState σ) :
    t.compareTrees left right s =
      (t.compareWithin depth (.root (.known left leftStat) (.known right rightStat))
        (s.reset.note (.comparing left right)) []).toStep := by
  rw [← t.compareTrees_eq_bounded hdepth]
  simp only [compareTreesBy, lookAt, hl, hr, hkl, hkr]
  rfl

/-- **Two comparisons of two directories agree** if their first levels do,
with whatever bound. -/
theorem compareTrees_agrees (t t' : TreeComparison σ) {R : Findings → Findings → Prop}
    {left right : Path}
    {leftStat rightStat leftStat' rightStat' : ObjectStat}
    (hl : t.files.stat left t.comparison.options.followLinks = .ok leftStat)
    (hr : t.files.stat right t.comparison.options.followLinks = .ok rightStat)
    (hkl : leftStat.kind = .directory) (hkr : rightStat.kind = .directory)
    (hl' : t'.files.stat left t'.comparison.options.followLinks = .ok leftStat')
    (hr' : t'.files.stat right t'.comparison.options.followLinks = .ok rightStat')
    (hkl' : leftStat'.kind = .directory) (hkr' : rightStat'.kind = .directory)
    (h : ∀ depth {s s' : RunState σ}, s'.basis = s.basis →
      (t.compareWithin depth (.root (.known left leftStat) (.known right rightStat))
        s []).toStep.Agrees R
      (t'.compareWithin depth (.root (.known left leftStat') (.known right rightStat'))
        s' []).toStep) (s s' : RunState σ) :
    (t.compareTrees left right s).Agrees R (t'.compareTrees left right s') := by
  rw [t.compareTrees_directories (Nat.le_max_left t.depthBound t'.depthBound) hl hr hkl hkr,
    t'.compareTrees_directories (Nat.le_max_right t.depthBound t'.depthBound) hl' hr' hkl' hkr']
  -- both runs begin collated
  exact h _ rfl

end TreeComparison

end TreeCompare
