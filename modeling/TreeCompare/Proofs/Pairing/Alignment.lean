import Mathlib.Data.List.Nodup
import TreeCompare.Proofs.Joining.Face
import TreeCompare.Proofs.Pairing.Tails
/-!
# Aligning sorted tails

An alignment that does not give the order up does what the keying of the
run says (`Keying.face`): its search for an exact match looks at one side
only and stops early, and all the same misses none, because the tails are
sorted. An alignment that gives the order up leaves two tails sorted by
bytes, aligned by bytes. `alignTails_spec` is the two together.
-/

namespace TreeCompare

namespace Comparison

variable {σ : Type} {c : Comparison σ} {key : Keying} {s : RunState σ} {a b exact : Name}
  {as bs left right names : List Name}

/-! ## By bytes -/

/-- **Names that are not collated are aligned by bytes**, in whatever order
they are. -/
theorem alignTails_of_not_usesKeys (hu : ¬ c.order.usesKeys s = true) (hl : left.Nodup)
    (hr : right.Nodup) :
    c.alignTails left right s = ⟨Keying.bytes.face left right, s⟩ := by
  rcases left with - | ⟨a, as⟩
  · rfl
  rcases right with - | ⟨b, bs⟩
  · rfl
  have hc : c.compareHeads a as b bs s = ⟨⟨a.bytewise b, a :: as, b :: bs⟩, s⟩ := by
    simp only [compareHeads, NameOrdering.matchingOrder_of_not_usesKeys hu]
    by_cases ho : a.bytewise b = .eq
    · simp only [ho, favourTails]
      split <;> rfl
    · simp only [ho, false_and, if_false]
  rw [Keying.face_bytes hl hr]
  simp only [alignTails, hc, if_true]

/-! ## By keys -/

/-- **The search misses nothing** on a sorted list whose names come no
earlier than the one looked for, keys compared. -/
theorem exists_searchExact (hk : c.order.collator.KeyedBy key)
    (hs : (c.order.keying key s.basis).Sorted names)
    (hle : ∀ x ∈ names, (c.order.keying key s.basis).matching x exact ≠ .lt)
    (hb : (c.searchExact exact names s).2.basis = s.basis) (hmem : exact ∈ names) :
    ∃ place, (c.searchExact exact names s).1 = some place := by
  induction names generalizing s with
  | nil => cases hmem
  | cons x names ih =>
    have hon := c.order.stepLaw_onward.matchingOrder x exact s
    rcases hm : c.order.matchingOrder x exact s with ⟨o, t⟩
    rw [hm] at hon
    -- the comparison did not give the order up, because the search did not
    have ht : t.basis = s.basis := by
      refine hon.between ?_ hb
      simp only [searchExact, hm]
      split
      · next heq =>
        cases heq
        split
        · exact searchExact_law c.order.stepLaw_onward exact names _
        · exact Or.inl rfl
        · exact Or.inl rfl
      · next heq =>
        cases heq
        exact Or.inl rfl
    have ho : o = (c.order.keying key s.basis).matching x exact := by
      have := NameOrdering.matchingOrder_eq hk (a := x) (b := exact) (s := s) (by rw [hm]; exact ht)
      rw [hm] at this
      exact this
    have hne := hle x (List.mem_cons_self ..)
    rcases List.mem_cons.1 hmem with rfl | hmem
    · refine ⟨0, ?_⟩
      rw [Keying.matching_self] at ho
      simp only [searchExact, hm, ho, Name.bytewise_eq_eq.2 rfl]
    · -- a name in front of the one looked for has its key, and fewer bytes
      obtain ⟨heq, hbytes⟩ : (c.order.keying key s.basis).matching x exact = .eq ∧
          x.bytewise exact = .lt := by
        rcases Keying.sorting_lt.1 (hs.head_lt hmem) with h | h
        · exact absurd h hne
        · exact h
      rw [heq] at ho
      simp only [searchExact, hm, ho, hbytes] at hb ⊢
      obtain ⟨place, hp⟩ := ih (s := t) (by rw [ht]; exact hs.tail)
        (by rw [ht]; exact fun y hy => hle y (List.mem_cons_of_mem _ hy))
        (by rw [ht]; exact hb) hmem
      exact ⟨place + 1, by rw [hp]; rfl⟩

/-- Fetching an exact match puts it in front, if there is one. -/
theorem fetchTail_eq (hk : c.order.collator.KeyedBy key)
    (hs : (c.order.keying key s.basis).Sorted as)
    (hle : ∀ x ∈ as, (c.order.keying key s.basis).matching x exact ≠ .lt)
    (hb : (c.fetchTail exact a as s).2.basis = s.basis) :
    (c.fetchTail exact a as s).1 =
      if exact ∈ as then exact :: a :: as.erase exact else a :: as := by
  rw [run_fetchTail] at hb
  unfold fetchTail
  rcases hf : c.searchExact exact as s with ⟨_ | place, t⟩
  · rw [if_neg]
    intro hmem
    obtain ⟨place, hp⟩ := exists_searchExact hk hs hle hb hmem
    rw [hf] at hp
    cases hp
  · obtain ⟨hlt, hx⟩ := List.getElem?_eq_some_iff.1 (getElem?_of_searchExact (congrArg Prod.fst hf))
    have hmem : exact ∈ as := hx ▸ List.getElem_mem hlt
    have herase : as.erase exact = as.eraseIdx place := by
      rw [← hx]
      exact List.Nodup.erase_getElem hs.nodup place hlt
    rw [if_pos hmem, herase]

/-- The names behind a head come no earlier than what has its key. -/
theorem not_lt_of_head (hxy : key.matching a b = .eq) (hs : key.Sorted (b :: bs)) :
    ∀ x ∈ bs, key.matching x a ≠ .lt := by
  intro x hx hlt
  rw [← Std.OrientedCmp.gt_iff_lt, Keying.matching_congr hxy] at hlt
  exact hs.head_ne_gt (List.mem_cons_of_mem _ hx) hlt

/-- A name with the key of a head, and more bytes, is not behind it. -/
theorem not_mem_of_head (hab : key.matching a b = .eq) (hbytes : a.bytewise b = .lt)
    (hs : key.Sorted (b :: bs)) : a ∉ bs := by
  intro hmem
  have hba := hs.head_lt hmem
  rw [Keying.sorting_of_matching (Std.OrientedCmp.eq_symm hab), ← Std.OrientedCmp.gt_iff_lt,
    hbytes] at hba
  cases hba

/-- **Of two heads with one key, one gives way to an exact match** for the
other, wherever there is one, if the search does not give the order up. -/
theorem favourTails_eq (hk : c.order.collator.KeyedBy key)
    (hkey : c.order.keying key s.basis = key) (hl : key.Sorted (a :: as))
    (hr : key.Sorted (b :: bs)) (hab : key.matching a b = .eq)
    (hb : (c.favourTails a as b bs s).2.2.basis = s.basis) :
    (⟨.eq, (c.favourTails a as b bs s).1, (c.favourTails a as b bs s).2.1⟩ : Facing) =
      key.face (a :: as) (b :: bs) := by
  have hba : key.matching b a = .eq := Std.OrientedCmp.eq_symm hab
  rw [Keying.face, if_pos hab]
  -- only the side whose head has fewer bytes can hold the head of the other
  simp only [favourTails] at hb ⊢
  cases hbytes : a.bytewise b with
  | eq =>
    obtain rfl := Name.bytewise_eq_eq.1 hbytes
    rw [if_neg (List.nodup_cons.1 hl.nodup).1, if_neg (List.nodup_cons.1 hr.nodup).1]
  | lt =>
    simp only [hbytes] at hb ⊢
    rw [fetchTail_eq hk (hkey.symm ▸ hl.tail) (hkey.symm ▸ not_lt_of_head hba hl) hb,
      if_neg (not_mem_of_head hab hbytes hr)]
    split <;> rfl
  | gt =>
    simp only [hbytes] at hb ⊢
    rw [fetchTail_eq hk (hkey.symm ▸ hr.tail) (hkey.symm ▸ not_lt_of_head hab hr) hb,
      if_neg (not_mem_of_head hba (Std.OrientedCmp.gt_iff_lt.1 hbytes) hl)]
    split <;> rfl

/-- Two heads compared, without the order being given up, face each other
as the keying says. -/
theorem compareHeads_eq (hk : c.order.collator.KeyedBy key) (hu : c.order.usesKeys s = true)
    (hl : key.Sorted (a :: as)) (hr : key.Sorted (b :: bs))
    (hb : (c.compareHeads a as b bs s).run.basis = s.basis) :
    (c.compareHeads a as b bs s).toFacing = key.face (a :: as) (b :: bs) := by
  have hkey : c.order.keying key s.basis = key := NameOrdering.keying_of_usesKeys hu
  have hcase : c.options.ignoreCase = true := (NameOrdering.usesKeys_iff.1 hu).1
  have hon := c.order.stepLaw_onward.matchingOrder a b s
  have heq := NameOrdering.matchingOrder_eq hk (a := a) (b := b) (s := s)
  rcases hm : c.order.matchingOrder a b s with ⟨o, t⟩
  rw [hm] at hon heq
  have ht : t.basis = s.basis := by
    refine hon.between ?_ hb
    simp only [compareHeads, hm]
    split
    · exact favourTails_law c.order.stepLaw_onward a as b bs t
    · exact Or.inl rfl
  have ho : o = key.matching a b := by
    rw [← hkey]
    exact heq ht
  subst ho
  simp only [compareHeads, hm, hcase, and_true] at hb ⊢
  by_cases hab : key.matching a b = .eq
  · rw [if_pos hab] at hb ⊢
    rw [← ht] at hb
    have hkt : c.order.keying key t.basis = key := by rw [ht, hkey]
    have hfavour := favourTails_eq hk hkt hl hr hab hb
    rw [← hfavour, hab]
  · rw [if_neg hab, Keying.face, if_neg hab]

/-! ## What an alignment does -/

/-- What an alignment leaves of two tails: they face each other as the
keying says, or by bytes, sorted again, if the order was given up. -/
inductive AlignedBy (k : Keying) (left right : List Name) (s : RunState σ) (t : Tails σ) :
    Prop where
  | kept (hb : t.run.basis = s.basis) (hf : t.toFacing = k.face left right)
  | dropped (hs : s.basis = .collated) (hb : t.run.basis = .bytewise) (left' right' : List Name)
      (hl : left'.Perm left) (hr : right'.Perm right) (hsl : Keying.bytes.Sorted left')
      (hsr : Keying.bytes.Sorted right') (hf : t.toFacing = Keying.bytes.face left' right')

/-- **An alignment of sorted tails** does what the keying says, or gives
the order up. -/
theorem alignTails_spec (hk : c.order.collator.KeyedBy key)
    (hl : (c.order.keying key s.basis).Sorted left)
    (hr : (c.order.keying key s.basis).Sorted right) :
    AlignedBy (c.order.keying key s.basis) left right s (c.alignTails left right s) := by
  by_cases hu : c.order.usesKeys s = true
  · rw [NameOrdering.keying_of_usesKeys hu] at hl hr ⊢
    rcases left with - | ⟨a, as⟩
    · exact .kept rfl rfl
    rcases right with - | ⟨b, bs⟩
    · exact .kept rfl rfl
    have hcs := (NameOrdering.usesKeys_iff.1 hu).2
    have hon := compareHeads_law c.order.stepLaw_onward a as b bs s
    have heq := compareHeads_eq hk hu hl hr
    obtain ⟨hpl, hpr⟩ := perm_compareHeads (c := c) a as b bs s
    simp only [alignTails]
    generalize c.compareHeads a as b bs s = t at *
    by_cases hb : t.run.basis = s.basis
    · rw [if_pos hb]
      exact .kept hb (heq hb)
    · rw [if_neg hb]
      have hbytes : (t.run.note .resorted).basis = .bytewise := hon.resolve_left hb
      have hnot : ¬ c.order.usesKeys (t.run.note .resorted) = true :=
        NameOrdering.not_usesKeys_of_bytewise hbytes
      obtain ⟨hs₁, hrun₁⟩ :=
        NameOrdering.sort_of_not_usesKeys (hpl.nodup_iff.2 hl.nodup) hnot
      obtain ⟨hs₂, hrun₂⟩ :=
        NameOrdering.sort_of_not_usesKeys (hpr.nodup_iff.2 hr.nodup) hnot
      have hp₁ := (c.order.sort_perm id t.left (t.run.note .resorted)).trans hpl
      have hp₂ := (c.order.sort_perm id t.right (t.run.note .resorted)).trans hpr
      rw [hrun₁, hrun₂]
      refine .dropped hcs hbytes _ _ hp₁ hp₂ hs₁ hs₂ ?_
      generalize (c.order.sort id t.left (t.run.note .resorted)).1 = left' at *
      generalize (c.order.sort id t.right (t.run.note .resorted)).1 = right' at *
      obtain ⟨x, xs, rfl⟩ : ∃ x xs, left' = x :: xs :=
        List.exists_cons_of_ne_nil fun h => by simp [h] at hp₁
      obtain ⟨y, ys, rfl⟩ : ∃ y ys, right' = y :: ys :=
        List.exists_cons_of_ne_nil fun h => by simp [h] at hp₂
      rw [Keying.face_bytes hs₁.nodup hs₂.nodup]
      rfl
  · rw [NameOrdering.keying_of_not_usesKeys hu] at hl hr ⊢
    rw [alignTails_of_not_usesKeys hu hl.nodup hr.nodup]
    exact .kept rfl rfl

end Comparison

end TreeCompare
