import TreeCompare.Proofs.Ordering.Answers
/-!
# Sorting and the two orders

Names are ordered in three places: two names are compared to pair them, two
names are compared to sort them, and items are sorted by keys that are asked
for up front. While keys are given by the names alone (`NameOrdering.Keyed`)
the three agree: the order that pairs is a preorder, the order that sorts is a
total order that refines it (`NameOrdering.Consistent`), and a sort gives the
one stable arrangement by the latter (`StablySorted`). Where a key is missing
it is the one by bytes, of the items as they came (`sort_stable`).
-/

namespace TreeCompare

variable {σ α : Type}

/-! ## Stable arrangements -/

/-- The items arranged by an order of their names; items that are equal stay in
the order in which they came. -/
structure StablySorted (cmp : Name → Name → Ordering) (nameOf : α → Name)
    (items sorted : List α) : Prop where
  perm : sorted.Perm items
  ascending : sorted.Pairwise fun a b => (cmp (nameOf a) (nameOf b)).isLE
  stable : ∀ name, sorted.filter (fun a => cmp (nameOf a) name == .eq) =
    items.filter fun a => cmp (nameOf a) name == .eq

section StablySorted

variable {cmp : Name → Name → Ordering} [Std.TransCmp cmp] {nameOf : α → Name}

/-- Two ascending lists of the same items are the same if they agree on what is
equal. -/
theorem eq_of_filters {l l' : List α} (hp : l.Perm l')
    (hl : l.Pairwise fun a b => (cmp (nameOf a) (nameOf b)).isLE)
    (hl' : l'.Pairwise fun a b => (cmp (nameOf a) (nameOf b)).isLE)
    (hf : ∀ name, l.filter (fun a => cmp (nameOf a) name == .eq) =
      l'.filter fun a => cmp (nameOf a) name == .eq) : l = l' := by
  induction l generalizing l' with
  | nil => exact (List.nil_perm.1 hp).symm
  | cons a l ih =>
    cases l' with
    | nil => exact absurd (List.perm_nil.1 hp) (List.cons_ne_nil a l)
    | cons b l' =>
      have hsame : ∀ x : Name, cmp x x = .eq := fun x => Std.ReflCmp.compare_self
      have hself : ∀ x : Name, (cmp x x).isLE := fun x => by
        rw [hsame]
        rfl
      have hab : (cmp (nameOf a) (nameOf b)).isLE := by
        rcases List.mem_cons.1 (hp.mem_iff.2 (List.mem_cons_self ..)) with heq | hb
        · exact heq ▸ hself _
        · exact List.rel_of_pairwise_cons hl hb
      have hba : (cmp (nameOf b) (nameOf a)).isLE := by
        rcases List.mem_cons.1 (hp.mem_iff.1 (List.mem_cons_self ..)) with heq | ha
        · exact heq ▸ hself _
        · exact List.rel_of_pairwise_cons hl' ha
      -- both heads are the first of those that are equal to them
      have hheads : a = b := by
        have heq : cmp (nameOf b) (nameOf a) = .eq := Std.OrientedCmp.isLE_antisymm hba hab
        have hfilter := hf (nameOf a)
        rw [List.filter_cons_of_pos (by rw [hsame]; rfl),
          List.filter_cons_of_pos (by rw [heq]; rfl)] at hfilter
        exact (List.cons.inj hfilter).1
      subst hheads
      rw [ih (List.perm_cons a |>.1 hp) hl.tail hl'.tail fun name => ?_]
      have hfilter := hf name
      rw [List.filter_cons, List.filter_cons] at hfilter
      split at hfilter
      · exact (List.cons.inj hfilter).2
      · exact hfilter

/-- **There is one stable arrangement.** -/
theorem StablySorted.unique {items sorted sorted' : List α}
    (h : StablySorted cmp nameOf items sorted) (h' : StablySorted cmp nameOf items sorted') :
    sorted = sorted' :=
  eq_of_filters (h.perm.trans h'.perm.symm) h.ascending h'.ascending fun name =>
    (h.stable name).trans (h'.stable name).symm

/-- **The sort by an order of names is stable.** -/
theorem StableSort.stablySorted (cmp : Name → Name → Ordering) [Std.TransCmp cmp]
    (nameOf : α → Name) (items : List α) : StablySorted cmp nameOf items
      (StableSort.sort (fun a b => (cmp (nameOf a) (nameOf b)).isLE) items) where
  perm := StableSort.sort_perm _ items
  ascending := StableSort.pairwise_sort cmp nameOf items
  stable := by
    intro name
    have htrans : ∀ a b c : α, (cmp (nameOf a) (nameOf b)).isLE → (cmp (nameOf b) (nameOf c)).isLE →
        (cmp (nameOf a) (nameOf c)).isLE := fun a b c => Std.TransCmp.isLE_trans
    have htotal : ∀ a b : α, (cmp (nameOf a) (nameOf b)).isLE ||
        (cmp (nameOf b) (nameOf a)).isLE := fun a b => by
      rw [show cmp (nameOf b) (nameOf a) = (cmp (nameOf a) (nameOf b)).swap from
        Std.OrientedCmp.eq_swap]
      cases cmp (nameOf a) (nameOf b) <;> rfl
    have hequal : (items.filter fun a => cmp (nameOf a) name == .eq).Pairwise
        fun a b => (cmp (nameOf a) (nameOf b)).isLE := by
      refine List.pairwise_of_forall_mem_list fun a ha b hb => ?_
      have hname : cmp (nameOf a) name = .eq := eq_of_beq (List.mem_filter.1 ha).2
      have hname' : cmp (nameOf b) name = .eq := eq_of_beq (List.mem_filter.1 hb).2
      rw [Std.TransCmp.congr_left hname, Std.OrientedCmp.eq_symm hname']
      rfl
    have hsublist := (List.sublist_mergeSort htrans htotal hequal List.filter_sublist).filter
      fun a => cmp (nameOf a) name == .eq
    rw [List.filter_filter] at hsublist
    simp only [Bool.and_self] at hsublist
    rw [StableSort.sort_eq_mergeSort]
    refine (hsublist.eq_of_length ?_).symm
    exact ((List.mergeSort_perm items _).filter _).length_eq.symm

end StablySorted

/-! ## Keys by the names alone -/

/-- The diagnostics of a run so far, the latest first. -/
def RunState.diagnostics (s : RunState σ) : List Diagnostic :=
  s.journal.filterMap Note.diagnostic?

namespace NameOrdering

variable {order : NameOrdering σ} {key : Keying} {s t u : RunState σ}

/-- Where names are collated at all, the collator gives the keys of `key` and
never fails. -/
def Keyed (order : NameOrdering σ) (key : Keying) : Prop :=
  order.ignoreCase = true → order.collator.Gives key

theorem Keyed.gives (h : order.Keyed key) (hu : order.usesKeys s = true) :
    order.collator.Gives key := h (usesKeys_iff.1 hu).1

/-- **A run whose keys are all given** keeps its basis and has nothing to
report of its order. -/
theorem Keyed.stepLaw (h : order.Keyed key) :
    order.StepLaw fun s t => t.basis = s.basis ∧ t.diagnostics = s.diagnostics where
  refl _ := ⟨rfl, rfl⟩
  trans h h' := ⟨h'.1.trans h.1, h'.2.trans h.2⟩
  ask _ _ := ⟨rfl, rfl⟩
  drop _ _ hu he := absurd he (key_ne_error (h.gives hu) hu)
  note _ _ hn := ⟨rfl, List.filterMap_cons_none hn⟩

theorem Keyed.stepLaw_basis (h : order.Keyed key) :
    order.StepLaw fun s t => t.basis = s.basis where
  refl _ := rfl
  trans h h' := h'.trans h
  ask _ _ := rfl
  drop _ _ hu he := absurd he (key_ne_error (h.gives hu) hu)
  note _ _ _ := rfl

/-- The order that sorts is the one that pairs, with ties broken by bytes. -/
theorem sortingOrder_eq (a b : Name) (s : RunState σ) :
    order.sortingOrder a b s =
      ((order.matchingOrder a b s).1.then (a.bytewise b), (order.matchingOrder a b s).2) := by
  unfold sortingOrder matchingOrder
  rcases order.compareKeys a b s with ⟨_ | o, t⟩
  · cases a.bytewise b <;> rfl
  · rfl

theorem Keyed.matchingOrder (h : order.Keyed key) (a b : Name) (s : RunState σ) :
    (order.matchingOrder a b s).1 = (order.keying key s.basis).matching a b := by
  by_cases hu : order.usesKeys s = true
  · exact matchingOrder_eq (h.gives hu).keyedBy (h.stepLaw.matchingOrder a b s).1
  · rw [keying_of_not_usesKeys hu, matchingOrder_of_not_usesKeys hu, Keying.matching_bytes]

theorem Keyed.sortingOrder (h : order.Keyed key) (a b : Name) (s : RunState σ) :
    (order.sortingOrder a b s).1 = (order.keying key s.basis).sorting a b := by
  rw [sortingOrder_eq, h.matchingOrder, Keying.sorting]

theorem Keyed.sort (h : order.Keyed key) (nameOf : α → Name) (items : List α) (s : RunState σ) :
    (order.sort nameOf items s).1 = StableSort.sort (fun a b =>
      ((order.keying key s.basis).sorting (nameOf a) (nameOf b)).isLE) items := by
  by_cases hu : order.usesKeys s = true
  · rw [sort_eq (h.gives hu).keyedBy, (h.stepLaw.sort nameOf items s).1]
  · simp only [NameOrdering.sort, if_neg hu, sortBytewise, keying_of_not_usesKeys hu,
      Keying.sorting_bytes]

/-- What the orders of two names have to do with each other while names are
ordered on a basis: they are orders of the names alone, the one that pairs is a
total preorder, and the one that sorts refines it and tells all names apart. -/
structure Consistent (order : NameOrdering σ) (basis : Basis) : Prop where
  keeps : ∀ a b s, s.basis = basis →
    (order.matchingOrder a b s).2.basis = basis ∧ (order.sortingOrder a b s).2.basis = basis
  alike : ∀ a b s s', s.basis = basis → s'.basis = basis →
    (order.matchingOrder a b s').1 = (order.matchingOrder a b s).1 ∧
      (order.sortingOrder a b s').1 = (order.sortingOrder a b s).1
  swap : ∀ a b s, s.basis = basis →
    (order.matchingOrder b a s).1 = (order.matchingOrder a b s).1.swap
  trans : ∀ a b c s, s.basis = basis → (order.matchingOrder a b s).1.isLE →
    (order.matchingOrder b c s).1.isLE → (order.matchingOrder a c s).1.isLE
  refines : ∀ a b s, s.basis = basis → (order.matchingOrder a b s).1 = .lt →
    (order.sortingOrder a b s).1 = .lt
  sorting_eq : ∀ a b s, s.basis = basis → ((order.sortingOrder a b s).1 = .eq ↔ a = b)

theorem Keyed.consistent (h : order.Keyed key) (basis : Basis) : order.Consistent basis where
  keeps a b s hs := by
    rw [sortingOrder_eq, (h.stepLaw.matchingOrder a b s).1]
    exact ⟨hs, hs⟩
  alike a b s s' hs hs' := by
    simp only [h.matchingOrder, h.sortingOrder, hs, hs', and_self]
  swap a b s _ := by
    rw [h.matchingOrder, h.matchingOrder]
    exact Std.OrientedCmp.eq_swap
  trans a b c s _ hab hbc := by
    rw [h.matchingOrder] at *
    exact Std.TransCmp.isLE_trans hab hbc
  refines a b s _ hab := by
    rw [h.matchingOrder] at hab
    rw [h.sortingOrder]
    exact Keying.sorting_lt.2 (Or.inl hab)
  sorting_eq a b s _ := by
    rw [h.sortingOrder]
    exact Keying.sorting_eq

/-- What is sorted ascends in the order that pairs as well. -/
theorem matching_isLE_of_sorting {a b : Name} (h : (key.sorting a b).isLE) :
    (key.matching a b).isLE := by
  unfold Keying.sorting at h
  cases hm : key.matching a b with
  | lt => rfl
  | eq => rfl
  | gt =>
    rw [hm] at h
    cases h

/-! ## A key that is missing -/

/-- From `s` to `t` the keys of all names are asked for, one after the other,
and given. -/
inductive Given (order : NameOrdering σ) : List Name → RunState σ → RunState σ → Prop where
  | nil (s : RunState σ) : Given order [] s s
  | cons {name : Name} {names : List Name} {k : SortKey} {s t u : RunState σ}
      (h : order.key name s = (.ok k, t)) (hr : Given order names t u) :
      Given order (name :: names) s u

theorem Given.keysOf {names : List Name} (h : order.Given names s t) :
    ∃ keys, order.keysOf names s = (.ok keys, t) := by
  induction h with
  | nil s => exact ⟨[], rfl⟩
  | @cons _ _ k _ _ _ h _ ih =>
    obtain ⟨keys, hkeys⟩ := ih
    refine ⟨k :: keys, ?_⟩
    simp only [NameOrdering.keysOf, h, hkeys]

/-- The keys are asked for up to the first that is missing. -/
theorem Given.keysOf_append {before after : List Name} {failing : Name} {e : KeyError}
    (h : order.Given before s t) (hf : order.key failing t = (.error e, u)) :
    order.keysOf (before ++ failing :: after) s = (.error (failing, e), u) := by
  induction h with
  | nil s => rw [List.nil_append, NameOrdering.keysOf, hf]
  | cons h _ ih => simp only [List.cons_append, NameOrdering.keysOf, h, ih hf]

theorem Given.journal {names : List Name} (h : order.Given names s t) : t.journal = s.journal := by
  induction h with
  | nil s => rfl
  | cons h _ ih => exact ih.trans (congrArg (fun answer => answer.2.journal) h).symm

/-- The keys of names are all given, or one is the first that is missing. -/
theorem given_or_missing (order : NameOrdering σ) (names : List Name) (s : RunState σ) :
    (∃ t, order.Given names s t) ∨ ∃ before failing after t e u,
      names = before ++ failing :: after ∧ order.Given before s t ∧
        order.key failing t = (.error e, u) := by
  induction names generalizing s with
  | nil => exact Or.inl ⟨s, .nil s⟩
  | cons name names ih =>
    rcases hk : order.key name s with ⟨e | k, t⟩
    · exact Or.inr ⟨[], name, names, s, e, t, rfl, .nil s, hk⟩
    · rcases ih t with ⟨u, hg⟩ | ⟨before, failing, after, v, e, u, rfl, hg, hf⟩
      · exact Or.inl ⟨u, .cons hk hg⟩
      · exact Or.inr ⟨name :: before, failing, after, v, e, u, rfl, .cons hk hg, hf⟩

/-- **A sort that a key is missing for** sorts the items as they came by their
bytes, and the run drops to bytes with the name that failed. -/
theorem sort_of_missing {nameOf : α → Name} {items : List α} {before after : List Name}
    {failing : Name} {e : KeyError} (hu : order.usesKeys s = true)
    (hnames : items.map nameOf = before ++ failing :: after) (hg : order.Given before s t)
    (hf : order.key failing t = (.error e, u)) :
    order.sort nameOf items s = (sortBytewise nameOf items, u.dropToBytes failing none e) := by
  rw [NameOrdering.sort, if_pos hu, hnames, hg.keysOf_append hf]

/-- An arrangement is what a sort by an order of names gives exactly if it is
the stable one. -/
theorem eq_sort_iff {cmp : Name → Name → Ordering} [Std.TransCmp cmp] {nameOf : α → Name}
    {items sorted : List α} :
    sorted = StableSort.sort (fun a b => (cmp (nameOf a) (nameOf b)).isLE) items ↔
      StablySorted cmp nameOf items sorted := by
  constructor
  · rintro rfl
    exact StableSort.stablySorted cmp nameOf items
  · intro h
    exact h.unique (StableSort.stablySorted cmp nameOf items)

/-- **Sorting agrees with the two orders.** Where keys are given by the names
alone, the orders are consistent, a sort is the one stable arrangement by the
order that sorts, and what it gives ascends in the order that pairs. Where a
key is missing for a sort, it is the one stable arrangement by bytes of the
items as they came; the first name without a key is reported, and no key is
asked for after it. -/
theorem sort_stable (order : NameOrdering σ) (nameOf : α → Name) (items : List α)
    (s : RunState σ) :
    (∀ key, order.Keyed key →
      order.Consistent s.basis ∧
      (∀ sorted, sorted = (order.sort nameOf items s).1 ↔
        StablySorted (fun a b => (order.sortingOrder a b s).1) nameOf items sorted) ∧
      (∀ s', s'.basis = s.basis → (order.sort nameOf items s).1.Pairwise
        fun a b => (order.matchingOrder (nameOf a) (nameOf b) s').1.isLE) ∧
      (order.sort nameOf items s).2.basis = s.basis ∧
      (order.sort nameOf items s).2.diagnostics = s.diagnostics) ∧
    (order.usesKeys s = true → (¬ ∃ t, order.Given (items.map nameOf) s t) →
      ∃ before failing after t e u, items.map nameOf = before ++ failing :: after ∧
        order.Given before s t ∧ order.key failing t = (.error e, u) ∧
        (∀ sorted, sorted = (order.sort nameOf items s).1 ↔
          StablySorted Name.bytewise nameOf items sorted) ∧
        (order.sort nameOf items s).2 = ⟨.bytewise, u.memory,
          .diagnostic (.collationFallback failing none e.message) :: .orderDropped ::
            s.journal⟩) := by
  constructor
  · intro key h
    refine ⟨h.consistent s.basis, fun sorted => ?_, fun s' hs' => ?_, h.stepLaw.sort nameOf items s⟩
    · simp only [h.sortingOrder, h.sort]
      exact eq_sort_iff
    · simp only [h.matchingOrder, h.sort, hs']
      exact (StableSort.pairwise_sort _ nameOf items).imp matching_isLE_of_sorting
  · intro hu hmissing
    obtain hg | ⟨before, failing, after, t, e, u, hnames, hg, hf⟩ :=
      order.given_or_missing (items.map nameOf) s
    · exact absurd hg hmissing
    · have hjournal : u.journal = s.journal :=
        (congrArg (fun answer => answer.2.journal) hf).symm.trans hg.journal
      rw [sort_of_missing hu hnames hg hf]
      refine ⟨before, failing, after, t, e, u, hnames, hg, hf, fun sorted => eq_sort_iff, ?_⟩
      rw [← hjournal]
      rfl

/-- Two names that match and one that matches neither, one of them twice. -/
def sampleItems : List (Name × Nat) :=
  [(.ofString "b", 0), (.ofString "a", 1), (.ofString "B", 2), (.ofString "b", 3)]

/-- By keys the capital comes in front of what it matches. If the second key is
missing it comes in front of all. -/
theorem sort_stable_sample :
    let folding : NameOrdering Nat := ⟨.ofKeying .foldAscii, true⟩
    let failing : NameOrdering Nat := ⟨.failingOnCall .foldAscii 1, true⟩
    StablySorted (fun a b => (folding.sortingOrder a b (.start 0)).1) Prod.fst sampleItems
        [(.ofString "a", 1), (.ofString "B", 2), (.ofString "b", 0), (.ofString "b", 3)] ∧
      StablySorted Name.bytewise Prod.fst sampleItems
        [(.ofString "B", 2), (.ofString "a", 1), (.ofString "b", 0), (.ofString "b", 3)] ∧
      (failing.sort Prod.fst sampleItems (.start 0)).2.diagnostics =
        [.collationFallback (.ofString "a") none "collation unavailable: no rules"] := by
  intro folding failing
  have hmissing : ¬ ∃ t, failing.Given (sampleItems.map Prod.fst) (.start 0) t := by
    rintro ⟨t, h⟩
    obtain ⟨keys, hkeys⟩ := h.keysOf
    have hfails : (failing.keysOf (sampleItems.map Prod.fst) (.start 0)).1.isOk = false := by
      decide +kernel
    rw [hkeys] at hfails
    cases hfails
  refine ⟨?_, ?_, by decide +kernel⟩
  · exact (((sort_stable folding Prod.fst sampleItems (.start 0)).1 .foldAscii
      fun _ => Collator.gives_ofKeying).2.1 _).1 (by decide +kernel)
  · obtain ⟨before, name, after, t, e, u, -, -, -, hsorted, -⟩ :=
      (sort_stable failing Prod.fst sampleItems (.start 0)).2 rfl hmissing
    exact (hsorted _).1 (by decide +kernel)

end NameOrdering

end TreeCompare
