import TreeCompare.Proofs.Ordering.Tables
import TreeCompare.Proofs.Pairing.Facing
/-!
# Aligning what is left of two lists of names

A pairing of two tables only ever looks at the names from its two
positions on. `Comparison.alignTails` is the alignment of two tables
(`Comparison.align`) read as a function of these two tails, and
`align_eq` says that it is. Whatever the collator answers, an alignment
permutes each tail (`perm_alignTails`), and the heads it is about to hand
on are there (`ready_alignTails`).
-/

namespace TreeCompare

namespace Comparison

/-- Two tails facing each other, and the state of the run. -/
structure Tails (σ : Type) extends Facing where
  run : RunState σ

variable {σ : Type}

/-- The tail `a :: as` with `exact` in front, if it is found behind the
head. -/
def fetchTail (c : Comparison σ) (exact a : Name) (as : List Name) (s : RunState σ) :
    List Name × RunState σ :=
  match c.searchExact exact as s with
  | (some place, s) => (exact :: a :: as.eraseIdx place, s)
  | (none, s) => (a :: as, s)

/-- The tails with an exact match for one of the heads moved to the other
head's place, if there is one on the side whose head sorts first. -/
def favourTails (c : Comparison σ) (a : Name) (as : List Name) (b : Name) (bs : List Name)
    (s : RunState σ) : List Name × List Name × RunState σ :=
  match a.bytewise b with
  | .eq => (a :: as, b :: bs, s)
  | .lt =>
    let (left, s) := c.fetchTail b a as s
    (left, b :: bs, s)
  | .gt =>
    let (right, s) := c.fetchTail a b bs s
    (a :: as, right, s)

/-- Compares the heads, and puts an exact match in place if they match. -/
def compareHeads (c : Comparison σ) (a : Name) (as : List Name) (b : Name) (bs : List Name)
    (s : RunState σ) : Tails σ :=
  let (o, s) := c.order.matchingOrder a b s
  if o = .eq ∧ c.options.ignoreCase then
    let (left, right, s) := c.favourTails a as b bs s
    ⟨⟨o, left, right⟩, s⟩
  else ⟨⟨o, a :: as, b :: bs⟩, s⟩

/-- The heads compared. If collation fails meanwhile, both tails are sorted
again and the new heads compared by bytes. -/
def alignTails (c : Comparison σ) (left right : List Name) (s : RunState σ) : Tails σ :=
  match left, right with
  | [], right => ⟨⟨.gt, [], right⟩, s⟩
  | a :: as, [] => ⟨⟨.lt, a :: as, []⟩, s⟩
  | a :: as, b :: bs =>
    let t := c.compareHeads a as b bs s
    if t.run.basis = s.basis then t
    else
      let (left, s) := c.order.sort id t.left (t.run.note .resorted)
      let (right, s) := c.order.sort id t.right s
      ⟨⟨(left.head?.getD a).bytewise (right.head?.getD b), left, right⟩, s⟩

variable {c : Comparison σ} {s : RunState σ}

/-! ## Tables and tails -/

/-- What a search finds is the name it looks for. -/
theorem getElem?_of_searchExact {exact : Name} {names : List Name} {place : Nat}
    (h : (c.searchExact exact names s).1 = some place) : names[place]? = some exact := by
  induction names generalizing s place with
  | nil => simp [searchExact] at h
  | cons name names ih =>
    simp only [searchExact] at h
    split at h
    · next t _ =>
      split at h
      · simp only [Option.map_eq_some_iff] at h
        obtain ⟨p, hp, rfl⟩ := h
        rw [List.getElem?_cons_succ]
        exact ih hp
      · next hbytes =>
        simp only [Option.some.injEq] at h
        rw [← h, List.getElem?_cons_zero, Name.bytewise_eq_eq.1 hbytes]
      · simp at h
    · simp at h

/-- Bringing an exact match to the front of a table brings it to the front
of the tail. -/
theorem fetchExact_eq {t : NameTable} {i : Nat} {a : Name} {as : List Name}
    (ht : t.names.drop i = a :: as) (exact : Name) :
    (c.fetchExact t i exact s).1.names.drop i = (c.fetchTail exact a as s).1 ∧
      (c.fetchExact t i exact s).2 = (c.fetchTail exact a as s).2 := by
  have has : t.names.drop (i + 1) = as := by rw [← List.drop_drop, ht]; rfl
  simp only [fetchExact, fetchTail, has]
  rcases hs : c.searchExact exact as s with ⟨_ | place, u⟩
  · exact ⟨ht, rfl⟩
  · exact ⟨NameTable.drop_names_bringForward ht (getElem?_of_searchExact (congrArg Prod.fst hs)),
      rfl⟩

theorem favourExact_eq {left right : NameTable} {i j : Nat} {a b : Name} {as bs : List Name}
    (hl : left.names.drop i = a :: as) (hr : right.names.drop j = b :: bs) :
    (c.favourExact left i a right j b s).1.names.drop i = (c.favourTails a as b bs s).1 ∧
      (c.favourExact left i a right j b s).2.1.names.drop j = (c.favourTails a as b bs s).2.1 ∧
      (c.favourExact left i a right j b s).2.2 = (c.favourTails a as b bs s).2.2 := by
  simp only [favourExact, favourTails]
  cases a.bytewise b with
  | eq => exact ⟨hl, hr, rfl⟩
  | lt => exact ⟨(fetchExact_eq hl b).1, hr, (fetchExact_eq hl b).2⟩
  | gt => exact ⟨hl, (fetchExact_eq hr a).1, (fetchExact_eq hr a).2⟩

/-- The name at a position is the head of what is left from there on. -/
theorem get?_eq_head? (t : NameTable) (i : Nat) : t.get? i = (t.names.drop i).head? := by
  rw [List.head?_drop, NameTable.getElem?_names]

theorem drop_names_sortTail {t : NameTable} {i : Nat} {a : Name} {as : List Name}
    (ht : t.names.drop i = a :: as) (s : RunState σ) :
    (t.sortTail i c.order s).1.names.drop i = (c.order.sort id (a :: as) s).1 := by
  have hi : (t.names.take i).length = i := by
    have := congrArg List.length ht
    simp only [List.length_drop, List.length_cons] at this
    rw [List.length_take]
    omega
  rw [NameTable.names_sortTail, List.drop_left' hi, ht]

/-! ## An alignment keeps within the laws of a step -/

section Laws

variable {R : RunState σ → RunState σ → Prop}

theorem searchExact_law (h : c.order.StepLaw R) (exact : Name) (names : List Name)
    (s : RunState σ) : R s (c.searchExact exact names s).2 := by
  induction names generalizing s with
  | nil => exact h.refl s
  | cons name names ih =>
    have hm := h.matchingOrder name exact s
    simp only [searchExact]
    split
    · next t heq =>
      rw [heq] at hm
      split
      · exact h.trans hm (ih t)
      · exact hm
      · exact hm
    · next heq =>
      rwa [heq] at hm

theorem run_fetchTail (exact a : Name) (as : List Name) (s : RunState σ) :
    (c.fetchTail exact a as s).2 = (c.searchExact exact as s).2 := by
  unfold fetchTail
  split <;> next heq => rw [heq]

theorem favourTails_law (h : c.order.StepLaw R) (a : Name) (as : List Name) (b : Name)
    (bs : List Name) (s : RunState σ) : R s (c.favourTails a as b bs s).2.2 := by
  unfold favourTails
  split
  · exact h.refl s
  · simp only [run_fetchTail]
    exact searchExact_law h b as s
  · simp only [run_fetchTail]
    exact searchExact_law h a bs s

theorem compareHeads_law (h : c.order.StepLaw R) (a : Name) (as : List Name) (b : Name)
    (bs : List Name) (s : RunState σ) : R s (c.compareHeads a as b bs s).run := by
  have hm := h.matchingOrder a b s
  simp only [compareHeads]
  split
  · exact h.trans hm (favourTails_law h a as b bs _)
  · exact hm

theorem alignTails_law (h : c.order.StepLaw R) (left right : List Name) (s : RunState σ) :
    R s (c.alignTails left right s).run := by
  rcases left with - | ⟨a, as⟩
  · exact h.refl s
  rcases right with - | ⟨b, bs⟩
  · exact h.refl s
  have hc := compareHeads_law h a as b bs s
  simp only [alignTails]
  split
  · exact hc
  · refine h.trans hc (h.trans ?_ (h.trans (h.sort id _ _) (h.sort id _ _)))
    exact h.note _ _ rfl

end Laws

/-! ## An alignment permutes -/

theorem perm_fetchTail (exact a : Name) (as : List Name) (s : RunState σ) :
    (c.fetchTail exact a as s).1.Perm (a :: as) := by
  unfold fetchTail
  rcases h : c.searchExact exact as s with ⟨_ | place, u⟩
  · exact List.Perm.refl _
  · obtain ⟨hlt, hx⟩ := List.getElem?_eq_some_iff.1 (getElem?_of_searchExact (congrArg Prod.fst h))
    refine (List.Perm.swap a exact _).trans (List.Perm.cons a ?_)
    rw [← hx]
    exact List.getElem_cons_eraseIdx_perm hlt

theorem perm_compareHeads (a : Name) (as : List Name) (b : Name) (bs : List Name)
    (s : RunState σ) :
    (c.compareHeads a as b bs s).left.Perm (a :: as) ∧
      (c.compareHeads a as b bs s).right.Perm (b :: bs) := by
  have hf : ∀ u, (c.favourTails a as b bs u).1.Perm (a :: as) ∧
      (c.favourTails a as b bs u).2.1.Perm (b :: bs) := by
    intro u
    unfold favourTails
    cases a.bytewise b with
    | eq => exact ⟨List.Perm.refl _, List.Perm.refl _⟩
    | lt => exact ⟨perm_fetchTail b a as u, List.Perm.refl _⟩
    | gt => exact ⟨List.Perm.refl _, perm_fetchTail a b bs u⟩
  simp only [compareHeads]
  split
  · exact hf _
  · exact ⟨List.Perm.refl _, List.Perm.refl _⟩

/-- **Whatever the collator answers, an alignment permutes each tail.** -/
theorem perm_alignTails (c : Comparison σ) (left right : List Name) (s : RunState σ) :
    (c.alignTails left right s).left.Perm left ∧
      (c.alignTails left right s).right.Perm right := by
  rcases left with - | ⟨a, as⟩
  · exact ⟨List.Perm.refl _, List.Perm.refl _⟩
  rcases right with - | ⟨b, bs⟩
  · exact ⟨List.Perm.refl _, List.Perm.refl _⟩
  obtain ⟨hl, hr⟩ := perm_compareHeads (c := c) a as b bs s
  simp only [alignTails]
  split
  · exact ⟨hl, hr⟩
  · exact ⟨(c.order.sort_perm _ _ _).trans hl, (c.order.sort_perm _ _ _).trans hr⟩

/-- Two tails that are not both empty have a pairing to hand on. -/
theorem ready_alignTails {left right : List Name} (h : left ≠ [] ∨ right ≠ []) :
    (c.alignTails left right s).Ready := by
  obtain ⟨hl, hr⟩ := perm_alignTails c left right s
  rcases left with - | ⟨a, as⟩
  · exact ⟨fun ho => absurd rfl ho, fun _ => h.resolve_left fun h => h rfl⟩
  rcases right with - | ⟨b, bs⟩
  · exact ⟨fun _ => by simp [alignTails], fun ho => absurd rfl ho⟩
  · exact ⟨fun _ he => by simp [he] at hl, fun _ he => by simp [he] at hr⟩

/-! ## Tables and tails, aligned -/

/-- **Aligning two tables is aligning what is left of them.** -/
theorem align_eq (c : Comparison σ) (left : NameTable) (i : Nat) (right : NameTable) (j : Nat)
    (s : RunState σ) :
    (c.align left i right j s).order =
        (c.alignTails (left.names.drop i) (right.names.drop j) s).order ∧
      (c.align left i right j s).left.names.drop i =
        (c.alignTails (left.names.drop i) (right.names.drop j) s).left ∧
      (c.align left i right j s).right.names.drop j =
        (c.alignTails (left.names.drop i) (right.names.drop j) s).right ∧
      (c.align left i right j s).run =
        (c.alignTails (left.names.drop i) (right.names.drop j) s).run := by
  unfold align
  rw [get?_eq_head?, get?_eq_head?]
  rcases hl : left.names.drop i with - | ⟨a, as⟩
  · exact ⟨rfl, hl, rfl, rfl⟩
  rcases hr : right.names.drop j with - | ⟨b, bs⟩
  · exact ⟨rfl, hl, hr, rfl⟩
  simp only [List.head?_cons, alignHeads, alignTails]
  -- the two tables, and the two tails, before collation may be found to have failed
  generalize ht : (if (c.order.matchingOrder a b s).1 = .eq ∧ c.options.ignoreCase = true then
    c.favourExact left i a right j b (c.order.matchingOrder a b s).2
    else (left, right, (c.order.matchingOrder a b s).2)) = t
  obtain ⟨hheads, htl, htr, hts⟩ : (c.compareHeads a as b bs s).order =
      (c.order.matchingOrder a b s).1 ∧
      t.1.names.drop i = (c.compareHeads a as b bs s).left ∧
      t.2.1.names.drop j = (c.compareHeads a as b bs s).right ∧
      t.2.2 = (c.compareHeads a as b bs s).run := by
    rw [← ht]
    simp only [compareHeads]
    split
    · exact ⟨rfl, favourExact_eq hl hr⟩
    · exact ⟨rfl, hl, hr, rfl⟩
  obtain ⟨hpl, hpr⟩ := perm_compareHeads (c := c) a as b bs s
  obtain ⟨x, xs, hx⟩ : ∃ x xs, (c.compareHeads a as b bs s).left = x :: xs :=
    List.exists_cons_of_ne_nil fun h => by simp [h] at hpl
  obtain ⟨y, ys, hy⟩ : ∃ y ys, (c.compareHeads a as b bs s).right = y :: ys :=
    List.exists_cons_of_ne_nil fun h => by simp [h] at hpr
  rw [hts]
  split
  · exact ⟨hheads.symm, htl, htr, rfl⟩
  · rw [hx] at htl
    rw [hy] at htr
    simp only [get?_eq_head?, NameTable.run_sortTail, drop_names_sortTail htl,
      drop_names_sortTail htr, htl, htr, hx, hy, and_self]

end Comparison

end TreeCompare
