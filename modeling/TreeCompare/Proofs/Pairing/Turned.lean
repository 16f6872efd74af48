import TreeCompare.Proofs.Ordering.ByName
import TreeCompare.Proofs.Pairing.Visits
/-!
# Pairings from either side

With a collator that answers by the names alone, a pairing of two lists of
names depends on the lists and on the basis of the run, and exchanging the two
lists exchanges the sides of every pairing and nothing else. Both are said at
once: what is `turned` to the left stays as it is, and turned to the right it
has its sides exchanged. So an alignment turns with its two tails
(`alignTails_turned`), and so does a whole pairing, if what its visitor does
with the turned pairings agrees with what it did before
(`visitsOn_turned`). Only pairings matter in which names match, since no others
are handed on (`matched_alignTails`).
-/

namespace TreeCompare

variable {σ α β : Type} {answer : Name → Except KeyError SortKey}

/-- The pairing as it is, or with its sides exchanged. -/
def Pairing.turned (side : Side) (p : Pairing) : Pairing :=
  match side with
  | .left => p
  | .right => ⟨p.right, p.left⟩

/-- The two names of a pairing match, if there are two. -/
def Pairing.Matched (order : NameOrdering σ) (answer : Name → Except KeyError SortKey)
    (p : Pairing) : Prop :=
  ∀ a b, p.left = some a → p.right = some b → order.Matched answer a b

/-- Two tails as they are, or with their sides exchanged. -/
def Facing.turned (side : Side) (f : Facing) : Facing :=
  match side with
  | .left => f
  | .right => ⟨f.order.swap, f.right, f.left⟩

namespace Facing

/-- The pairing turns with the tails. -/
theorem pairing_turned (side : Side) (f : Facing) :
    (f.turned side).pairing = f.pairing.turned side := by
  obtain ⟨o, left, right⟩ := f
  cases side with
  | left => rfl
  | right => cases o <;> rfl

/-- So do the rests. -/
theorem rest_turned (side : Side) (f : Facing) :
    ((f.turned side).restLeft, (f.turned side).restRight) =
      side.place f.restLeft f.restRight := by
  obtain ⟨o, left, right⟩ := f
  cases side with
  | left => rfl
  | right => cases o <;> rfl

/-- Two names are handed on together if neither comes first. -/
theorem heads_of_pairing {f : Facing} {a b : Name} (hl : f.pairing.left = some a)
    (hr : f.pairing.right = some b) :
    f.order = .eq ∧ f.left.head? = some a ∧ f.right.head? = some b := by
  obtain ⟨o, left, right⟩ := f
  cases o with
  | lt => cases hr
  | eq => exact ⟨rfl, hl, hr⟩
  | gt => cases hl

end Facing

namespace Comparison

/-- Two alignments are the same but for being turned, and so is the basis
that they leave behind. -/
structure Tails.Turned (side : Side) (t t' : Tails σ) : Prop where
  facing : t'.toFacing = t.toFacing.turned side
  basis : t'.run.basis = t.run.basis

variable {c : Comparison σ} {s s' : RunState σ}

/-! ## An alignment -/

/-- What a search finds depends on the names it goes through. -/
theorem searchExact_congr (ha : c.collator.AnswersBy answer) (exact : Name) (names : List Name)
    (hs : s'.basis = s.basis) :
    (c.searchExact exact names s').1 = (c.searchExact exact names s).1 ∧
      (c.searchExact exact names s').2.basis = (c.searchExact exact names s).2.basis := by
  induction names generalizing s s' with
  | nil => exact ⟨rfl, hs⟩
  | cons name names ih =>
    obtain ⟨ho, hb⟩ := c.order.matchingOrder_congr ha name exact hs
    unfold searchExact
    generalize c.order.matchingOrder name exact s' = m' at ho hb
    generalize c.order.matchingOrder name exact s = m at ho hb
    obtain ⟨o, u⟩ := m
    obtain ⟨o', u'⟩ := m'
    obtain rfl : o' = o := ho
    change u'.basis = u.basis at hb
    cases o' with
    | eq =>
      cases name.bytewise exact with
      | lt =>
        obtain ⟨hfound, hbasis⟩ := ih hb
        exact ⟨congrArg (Option.map (· + 1)) hfound, hbasis⟩
      | eq => exact ⟨rfl, hb⟩
      | gt => exact ⟨rfl, hb⟩
    | lt => exact ⟨rfl, hb⟩
    | gt => exact ⟨rfl, hb⟩

theorem fetchTail_congr (ha : c.collator.AnswersBy answer) (exact a : Name) (as : List Name)
    (hs : s'.basis = s.basis) :
    (c.fetchTail exact a as s').1 = (c.fetchTail exact a as s).1 ∧
      (c.fetchTail exact a as s').2.basis = (c.fetchTail exact a as s).2.basis := by
  obtain ⟨hfound, hb⟩ := searchExact_congr ha exact as hs
  unfold fetchTail
  generalize c.searchExact exact as s' = found' at hfound hb
  generalize c.searchExact exact as s = found at hfound hb
  obtain ⟨place, u⟩ := found
  obtain ⟨place', u'⟩ := found'
  obtain rfl : place' = place := hfound
  cases place' <;> exact ⟨rfl, hb⟩

/-- The side that is searched for an exact match is the one whose head sorts
first, wherever it stands. -/
theorem favourTails_swap (ha : c.collator.AnswersBy answer) (a : Name) (as : List Name) (b : Name)
    (bs : List Name) (hs : s'.basis = s.basis) :
    (c.favourTails b bs a as s').1 = (c.favourTails a as b bs s).2.1 ∧
      (c.favourTails b bs a as s').2.1 = (c.favourTails a as b bs s).1 ∧
      (c.favourTails b bs a as s').2.2.basis = (c.favourTails a as b bs s).2.2.basis := by
  unfold favourTails
  rw [← Name.bytewise_swap a b]
  cases a.bytewise b with
  | eq => exact ⟨rfl, rfl, hs⟩
  | lt =>
    obtain ⟨htail, hb⟩ := fetchTail_congr ha b a as hs
    exact ⟨rfl, htail, hb⟩
  | gt =>
    obtain ⟨htail, hb⟩ := fetchTail_congr ha a b bs hs
    exact ⟨htail, rfl, hb⟩

theorem compareHeads_swap (ha : c.collator.AnswersBy answer) (a : Name) (as : List Name) (b : Name)
    (bs : List Name) (hs : s'.basis = s.basis) :
    (c.compareHeads a as b bs s).Turned .right (c.compareHeads b bs a as s') := by
  obtain ⟨ho, hb⟩ := c.order.matchingOrder_swap ha a b hs
  unfold compareHeads
  generalize c.order.matchingOrder b a s' = m' at ho hb
  generalize c.order.matchingOrder a b s = m at ho hb
  obtain ⟨o, u⟩ := m
  obtain ⟨o', u'⟩ := m'
  obtain rfl : o' = o.swap := ho
  change u'.basis = u.basis at hb
  have heq : o.swap = .eq ↔ o = .eq := by cases o <;> decide
  simp only [heq]
  split
  · obtain ⟨hl, hr, hbasis⟩ := favourTails_swap ha a as b bs hb
    exact ⟨by simp only [Facing.turned, hl, hr], hbasis⟩
  · exact ⟨rfl, hb⟩

/-- **An alignment of the tails the other way round** is the same with the
sides exchanged. -/
theorem alignTails_swap (ha : c.collator.AnswersBy answer) {left right : List Name}
    (hne : left ≠ [] ∨ right ≠ []) (hs : s'.basis = s.basis) :
    (c.alignTails left right s).Turned .right (c.alignTails right left s') := by
  rcases left with - | ⟨a, as⟩
  · rcases right with - | ⟨b, bs⟩
    · exact absurd hne (by simp)
    · exact ⟨rfl, hs⟩
  rcases right with - | ⟨b, bs⟩
  · exact ⟨rfl, hs⟩
  obtain ⟨hfacing, hb⟩ := compareHeads_swap ha a as b bs hs
  unfold alignTails
  simp only [hs, hb]
  split
  · exact ⟨hfacing, hb⟩
  · next hgiven =>
    generalize c.compareHeads b bs a as s' = t' at hfacing hb
    have honward := compareHeads_law c.order.stepLaw_onward a as b bs s
    generalize c.compareHeads a as b bs s = t at hfacing hb honward hgiven
    have hleft : t'.left = t.right := congrArg Facing.left hfacing
    have hright : t'.right = t.left := congrArg Facing.right hfacing
    have hbytes : t.run.basis = .bytewise := honward.resolve_left hgiven
    -- by now both tails are sorted by bytes, whichever comes first
    have hsort : ∀ names (u : RunState σ), u.basis = .bytewise →
        c.order.sort id names u = (NameOrdering.sortBytewise id names, u) := fun names u hu => by
      rw [NameOrdering.sort, if_neg (NameOrdering.not_usesKeys_of_bytewise hu)]
    have hnote : ∀ u : RunState σ, (u.note .resorted).basis = u.basis := fun _ => rfl
    have hu : (t.run.note .resorted).basis = .bytewise := (hnote _).trans hbytes
    have hu' : (t'.run.note .resorted).basis = .bytewise := (hnote _).trans (hb.trans hbytes)
    simp only [hsort _ _ hu, hsort _ _ hu', hleft, hright]
    refine ⟨?_, hb⟩
    simp only [Facing.turned, Name.bytewise_swap]

/-- **An alignment turns with its two tails.** -/
theorem alignTails_turned (ha : c.collator.AnswersBy answer) (side : Side) {left right : List Name}
    (hne : left ≠ [] ∨ right ≠ []) (hs : s'.basis = s.basis) :
    (c.alignTails left right s).Turned side
      (c.alignTails (side.place left right).1 (side.place left right).2 s') := by
  have hswap := alignTails_swap ha hne hs
  cases side with
  | right => exact hswap
  | left =>
    -- turned twice, everything is where it was
    have hthere := alignTails_swap ha hne (rfl : s.basis = s.basis)
    have hback := alignTails_swap ha hne.symm hs
    refine ⟨?_, hback.basis.trans hthere.basis⟩
    rw [Side.place, hback.facing, hthere.facing]
    simp only [Facing.turned, Ordering.swap_swap]

/-! ## What is handed on together -/

theorem head?_fetchTail (c : Comparison σ) (exact a : Name) (as : List Name) (s : RunState σ) :
    (c.fetchTail exact a as s).1.head? = some a ∨
      (c.fetchTail exact a as s).1.head? = some exact := by
  unfold fetchTail
  split
  · exact Or.inr rfl
  · exact Or.inl rfl

/-- An exact match that takes the place of a head is the head that it faces. -/
theorem matched_favourTails {a b x y : Name} {as bs : List Name}
    (h : c.order.Matched answer a b) (hx : (c.favourTails a as b bs s).1.head? = some x)
    (hy : (c.favourTails a as b bs s).2.1.head? = some y) : c.order.Matched answer x y := by
  unfold favourTails at hx hy
  cases hab : a.bytewise b with
  | eq =>
    simp only [hab, List.head?_cons, Option.some.injEq] at hx hy
    rwa [← hx, ← hy]
  | lt =>
    simp only [hab, List.head?_cons, Option.some.injEq] at hx hy
    rw [← hy]
    rcases head?_fetchTail c b a as s with hhead | hhead
    · rwa [← Option.some.inj (hhead.symm.trans hx)]
    · exact Or.inl (Option.some.inj (hx.symm.trans hhead))
  | gt =>
    simp only [hab, List.head?_cons, Option.some.injEq] at hx hy
    rw [← hx]
    rcases head?_fetchTail c a b bs s with hhead | hhead
    · rwa [← Option.some.inj (hhead.symm.trans hy)]
    · exact Or.inl (Option.some.inj (hhead.symm.trans hy))

theorem matched_compareHeads (ha : c.collator.AnswersBy answer) (a : Name) (as : List Name)
    (b : Name) (bs : List Name) (s : RunState σ) :
    (c.compareHeads a as b bs s).pairing.Matched c.order answer := by
  intro x y hx hy
  obtain ⟨ho, hl, hr⟩ := Facing.heads_of_pairing hx hy
  have hmatch : (c.order.matchingOrder a b s).1 = .eq → c.order.Matched answer a b :=
    NameOrdering.matched_of_matchingOrder ha
  unfold compareHeads at ho hl hr
  generalize c.order.matchingOrder a b s = m at hmatch ho hl hr
  obtain ⟨o, u⟩ := m
  by_cases hfavour : o = .eq ∧ c.options.ignoreCase = true
  · simp only [if_pos hfavour] at hl hr
    exact matched_favourTails (hmatch hfavour.1) hl hr
  · simp only [if_neg hfavour, List.head?_cons, Option.some.injEq] at ho hl hr
    rw [← hl, ← hr]
    exact hmatch ho

/-- **Names that are handed on together match**, whatever happens to the order
meanwhile. -/
theorem matched_alignTails (ha : c.collator.AnswersBy answer) (left right : List Name)
    (s : RunState σ) : (c.alignTails left right s).pairing.Matched c.order answer := by
  rcases left with - | ⟨a, as⟩
  · intro x y hx
    cases hx
  rcases right with - | ⟨b, bs⟩
  · intro x y _ hy
    cases hy
  unfold alignTails
  simp only
  split
  · exact matched_compareHeads ha a as b bs s
  · intro x y hx hy
    -- the new heads are compared by bytes
    obtain ⟨ho, hl, hr⟩ := Facing.heads_of_pairing hx hy
    simp only at ho hl hr
    rw [hl, hr] at ho
    exact Or.inl (Name.bytewise_eq_eq.1 ho)

end Comparison

/-! ## A pairing -/

/-- Two steps come to the same status and the same basis, and to results that
go together. -/
structure Step.Agrees (R : α → β → Prop) (step : Step σ α) (step' : Step σ β) : Prop where
  status : step'.status = step.status
  basis : step'.run.basis = step.run.basis
  result : R step.result step'.result

/-- What one visitor does with a pairing, of names that match if it holds two,
agrees with what the other does with it turned, from the same basis and results
that go together. -/
def Visitor.Agrees (order : NameOrdering σ) (answer : Name → Except KeyError SortKey) (side : Side)
    (R : α → β → Prop) (visitor : Visitor σ α) (visitor' : Visitor σ β) : Prop :=
  ∀ p {s s' result result'}, p.Matched order answer → s'.basis = s.basis → R result result' →
    (visitor p s result).Agrees R (visitor' (p.turned side) s' result')

namespace Comparison

variable {c : Comparison σ} {visitor : Visitor σ α} {visitor' : Visitor σ β} {R : α → β → Prop}
  {side : Side}

/-- **A pairing turns with its two lists of names**, whatever the results
are. -/
theorem visitsOn_turned (ha : c.collator.AnswersBy answer)
    (hv : Visitor.Agrees c.order answer side R visitor visitor')
    (left right : List Name) {s s' : RunState σ} {result : α} {result' : β} (status : Status)
    (hs : s'.basis = s.basis) (hr : R result result') :
    let visits := c.visitsOn visitor left right s result
    let final := Visit.leftBehind s result visits
    let visits' :=
      c.visitsOn visitor' (side.place left right).1 (side.place left right).2 s' result'
    let final' := Visit.leftBehind s' result' visits'
    Step.Agrees R ⟨Visit.worst status visits, final.1, final.2⟩
      ⟨Visit.worst status visits', final'.1, final'.2⟩ := by
  induction left, right, s, result using visitsOn.induct c visitor
    generalizing s' result' status with
  | case1 left right s result hne tails =>
    rename_i step ih
    have hne' : (side.place left right).1 ≠ [] ∨ (side.place left right).2 ≠ [] := by
      cases side with
      | left => exact hne
      | right => exact hne.symm
    have hturned := alignTails_turned ha side hne hs
    rw [visitsOn_cons hne, visitsOn_cons hne']
    generalize c.alignTails (side.place left right).1 (side.place left right).2 s' = tails'
      at hturned
    have hpairing : tails'.pairing = tails.pairing.turned side := by
      rw [hturned.facing, Facing.pairing_turned]
    have hrest : (tails'.restLeft, tails'.restRight) =
        side.place tails.restLeft tails.restRight := by
      rw [hturned.facing, Facing.rest_turned]
    have hstep : step.Agrees R (visitor' tails'.pairing tails'.run result') := by
      rw [hpairing]
      exact hv tails.pairing (matched_alignTails ha left right s) hturned.basis hr
    have hafter := ih (status.worse step.status) hstep.basis hstep.result
    simp only [← hrest] at hafter
    simp only [Visit.worst, Visit.leftBehind, List.foldl_cons, hstep.status]
    exact hafter
  | case2 left right s result hne =>
    have hnil : left = [] ∧ right = [] := by simpa using hne
    obtain ⟨rfl, rfl⟩ := hnil
    have hplace : side.place ([] : List Name) [] = ([], []) := by cases side <;> rfl
    rw [hplace, visitsOn_nil, visitsOn_nil]
    exact ⟨rfl, hs, hr⟩

end Comparison

end TreeCompare
