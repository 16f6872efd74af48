import TreeCompare.Proofs.Ordering.Stable
import TreeCompare.Proofs.Pairing.Conservation
/-!
# Cutting a pairing in two

Where keys are given by the names alone, a pairing of two lists depends on the
lists (`handed_visitsOn_congr`). If all names of one pair of lists are ordered
before all names of another, pairing the two pairs of lists one behind the other
is pairing the first and then the second (`visitsOn_cut`): no search for an
exact match goes beyond the names that match, and those are all on one side of
the cut.
-/

namespace TreeCompare

variable {σ α β : Type}

/-- Two tails with more names behind them. -/
def Facing.append (f : Facing) (left right : List Name) : Facing :=
  ⟨f.order, f.left ++ left, f.right ++ right⟩

@[simp] theorem Facing.append_nil (f : Facing) : f.append [] [] = f := by
  simp only [append, List.append_nil]

/-- What is behind two tails is not handed on as long as they have something to
hand on. -/
theorem Facing.Ready.append {f : Facing} (h : f.Ready) (left right : List Name) :
    (f.append left right).pairing = f.pairing ∧
      (f.append left right).restLeft = f.restLeft ++ left ∧
      (f.append left right).restRight = f.restRight ++ right := by
  obtain ⟨o, fl, fr⟩ := f
  have hl : o ≠ .gt → ∃ a as, fl = a :: as := fun ho => List.exists_cons_of_ne_nil (h.left ho)
  have hr : o ≠ .lt → ∃ b bs, fr = b :: bs := fun ho => List.exists_cons_of_ne_nil (h.right ho)
  cases o with
  | lt =>
    obtain ⟨a, as, rfl⟩ := hl (by decide)
    exact ⟨rfl, rfl, rfl⟩
  | eq =>
    obtain ⟨a, as, rfl⟩ := hl (by decide)
    obtain ⟨b, bs, rfl⟩ := hr (by decide)
    exact ⟨rfl, rfl, rfl⟩
  | gt =>
    obtain ⟨b, bs, rfl⟩ := hr (by decide)
    exact ⟨rfl, rfl, rfl⟩

/-- Where keys are given by the names alone, two names are compared by the keying
of the basis, which is kept, whatever the run has come to. -/
theorem NameOrdering.Keyed.answers {order order' : NameOrdering σ} {key : Keying} {basis : Basis}
    {s s' : RunState σ} (h : order.Keyed key) (ho : order' = order) (hs : s.basis = basis)
    (hs' : s'.basis = basis) (a b : Name) :
    ∃ t t', t.basis = basis ∧ t'.basis = basis ∧
      order.matchingOrder a b s = ((order.keying key basis).matching a b, t) ∧
      order'.matchingOrder a b s' = ((order.keying key basis).matching a b, t') := by
  subst ho
  have hanswer : ∀ {u : RunState σ}, u.basis = basis → order'.matchingOrder a b u =
      ((order'.keying key basis).matching a b, (order'.matchingOrder a b u).2) := fun hu => by
    rw [← hu, ← h.matchingOrder]
  exact ⟨_, _, (h.stepLaw.matchingOrder a b s).1.trans hs,
    (h.stepLaw.matchingOrder a b s').1.trans hs', hanswer hs, hanswer hs'⟩

namespace Comparison

variable {c c' : Comparison σ} {key : Keying} {basis : Basis} {s s' : RunState σ}
  {left right more : List Name}

/-! ## Two comparisons with one order of names -/

section

variable (h : c.order.Keyed key) (hc : c'.order = c.order) (hs : s.basis = basis)
  (hs' : s'.basis = basis)
include h hc hs hs'

/-- A search does not go on to names that do not match. -/
theorem searchExact_append {exact : Name} (names : List Name)
    (hmore : ∀ x ∈ more, (c.order.keying key basis).matching x exact ≠ .eq) :
    (c.searchExact exact (names ++ more) s).1 = (c'.searchExact exact names s').1 := by
  induction names generalizing s s' with
  | nil =>
    cases more with
    | nil => rfl
    | cons x more =>
      obtain ⟨t, -, -, -, hm, -⟩ := h.answers hc hs hs' x exact
      rw [List.nil_append, searchExact, searchExact, hm]
      split
      · next heq => exact absurd (congrArg Prod.fst heq) (hmore x (List.mem_cons_self ..))
      · rfl
  | cons name names ih =>
    obtain ⟨t, t', ht, ht', hm, hm'⟩ := h.answers hc hs hs' name exact
    rw [List.cons_append, searchExact, searchExact, hm, hm']
    cases (c.order.keying key basis).matching name exact with
    | eq =>
      cases name.bytewise exact with
      | lt => exact congrArg (Option.map (· + 1)) (ih ht ht')
      | eq => rfl
      | gt => rfl
    | lt => rfl
    | gt => rfl

theorem fetchTail_append {exact : Name} (a : Name) (as : List Name)
    (hmore : ∀ x ∈ more, (c.order.keying key basis).matching x exact ≠ .eq) :
    (c.fetchTail exact a (as ++ more) s).1 = (c'.fetchTail exact a as s').1 ++ more := by
  have hfound := searchExact_append h hc hs hs' as hmore
  rw [fetchTail, fetchTail]
  rcases hf : c.searchExact exact (as ++ more) s with ⟨place, t⟩
  rcases hf' : c'.searchExact exact as s' with ⟨place', t'⟩
  rw [hf, hf'] at hfound
  obtain rfl : place = place' := hfound
  cases place with
  | none => rfl
  | some place =>
    have hlt := searchExact_lt (congrArg Prod.fst hf')
    simp only [List.eraseIdx_append_of_lt_length hlt, List.cons_append]

theorem favourTails_append {a b : Name} (as bs : List Name)
    (hl : ∀ x ∈ left, (c.order.keying key basis).matching x b ≠ .eq)
    (hr : ∀ y ∈ right, (c.order.keying key basis).matching y a ≠ .eq) :
    (c.favourTails a (as ++ left) b (bs ++ right) s).1 =
        (c'.favourTails a as b bs s').1 ++ left ∧
      (c.favourTails a (as ++ left) b (bs ++ right) s).2.1 =
        (c'.favourTails a as b bs s').2.1 ++ right := by
  rw [favourTails, favourTails]
  cases a.bytewise b with
  | eq => exact ⟨rfl, rfl⟩
  | lt => exact ⟨fetchTail_append h hc hs hs' a as hl, rfl⟩
  | gt => exact ⟨rfl, fetchTail_append h hc hs hs' b bs hr⟩

theorem compareHeads_append {a b : Name} (as bs : List Name)
    (hl : ∀ x ∈ left, (c.order.keying key basis).matching x b ≠ .eq)
    (hr : ∀ y ∈ right, (c.order.keying key basis).matching y a ≠ .eq) :
    (c.compareHeads a (as ++ left) b (bs ++ right) s).toFacing =
      (c'.compareHeads a as b bs s').toFacing.append left right := by
  obtain ⟨t, t', ht, ht', hm, hm'⟩ := h.answers hc hs hs' a b
  have hcase : c'.options.ignoreCase = c.options.ignoreCase :=
    congrArg NameOrdering.ignoreCase hc
  rw [compareHeads, compareHeads, hcase, hm, hm']
  simp only
  split
  · obtain ⟨hleft, hright⟩ := favourTails_append h hc ht ht' as bs hl hr
    simp only [Facing.append, hleft, hright]
  · rfl

/-- **An alignment does not look beyond a cut**: with names behind the two tails
that come after all of theirs, the tails are aligned as they are alone. -/
theorem alignTails_append {left' right' : List Name} (hne : left ≠ [] ∨ right ≠ [])
    (hcut : ∀ x ∈ left ++ right, ∀ y ∈ left' ++ right',
      (c.order.keying key basis).matching x y = .lt) :
    (c.alignTails (left ++ left') (right ++ right') s).toFacing =
      (c'.alignTails left right s').toFacing.append left' right' := by
  have hkept : ∀ {d : Comparison σ} {u : RunState σ} a as b bs, d.order = c.order →
      (d.compareHeads a as b bs u).run.basis = u.basis := fun a as b bs hd => by
    have hlaw := h.stepLaw
    rw [← hd] at hlaw
    exact (compareHeads_law hlaw a as b bs _).1
  rcases left with - | ⟨a, as⟩
  · obtain ⟨b, bs, rfl⟩ := List.exists_cons_of_ne_nil (hne.resolve_left fun h => h rfl)
    cases left' with
    | nil => rfl
    | cons x left' =>
      -- the head behind the cut comes after the one before it
      have hgt : (c.order.keying key basis).matching x b = .gt :=
        Std.OrientedCmp.gt_iff_lt.2 (hcut b (List.mem_cons_self ..) x (List.mem_cons_self ..))
      obtain ⟨t, -, -, -, hm, -⟩ := h.answers hc hs hs' x b
      simp only [List.nil_append, List.cons_append, alignTails, hkept _ _ _ _ rfl, if_true]
      rw [compareHeads, hm, hgt]
      rfl
  rcases right with - | ⟨b, bs⟩
  · cases right' with
    | nil => rfl
    | cons y right' =>
      have hlt : (c.order.keying key basis).matching a y = .lt :=
        hcut a (by simp) y (by simp)
      obtain ⟨t, -, -, -, hm, -⟩ := h.answers hc hs hs' a y
      simp only [List.nil_append, List.cons_append, alignTails, hkept _ _ _ _ rfl, if_true]
      rw [compareHeads, hm, hlt]
      rfl
  · simp only [List.cons_append, alignTails, hkept _ _ _ _ rfl, hkept _ _ _ _ hc, if_true]
    refine compareHeads_append h hc hs hs' as bs (fun x hx => ?_) fun y hy => ?_
    · rw [Std.OrientedCmp.gt_iff_lt.2 (hcut b (by simp) x (by simp [hx]))]
      decide
    · rw [Std.OrientedCmp.gt_iff_lt.2 (hcut a (by simp) y (by simp [hy]))]
      decide

/-- Two tails are aligned by what they hold. -/
theorem alignTails_congr (left right : List Name) :
    (c'.alignTails left right s').toFacing = (c.alignTails left right s).toFacing := by
  by_cases hne : left ≠ [] ∨ right ≠ []
  · have happend : (c.alignTails (left ++ []) (right ++ []) s).toFacing =
        (c'.alignTails left right s').toFacing.append [] [] :=
      alignTails_append h hc hs hs' hne (by simp)
    rw [List.append_nil, List.append_nil, Facing.append_nil] at happend
    exact happend.symm
  · have hnil : left = [] ∧ right = [] := by simpa using hne
    rw [hnil.1, hnil.2]
    rfl

end

/-! ## Pairings -/

/-- The basis through the visits of two lists. -/
theorem basis_alignTails (h : c.order.Keyed key) (left right : List Name) (s : RunState σ) :
    (c.alignTails left right s).run.basis = s.basis :=
  (alignTails_law h.stepLaw left right s).1

/-- **The pairings of two lists** are given by the lists, whatever is done with
them and whatever the run has come to. -/
theorem handed_visitsOn_congr (h : c.order.Keyed key) (hc : c'.order = c.order)
    (hs : s'.basis = s.basis) {visitor : Visitor σ α} {visitor' : Visitor σ β}
    (hv : Visitor.Keeps (fun s t => t.basis = s.basis) visitor)
    (hv' : Visitor.Keeps (fun s t => t.basis = s.basis) visitor') (left right : List Name)
    (result : α) (result' : β) :
    Visit.handed (c'.visitsOn visitor' left right s' result') =
      Visit.handed (c.visitsOn visitor left right s result) := by
  induction left, right, s, result using visitsOn.induct c visitor generalizing s' result' with
  | case1 left right s result hne t =>
    rename_i step ih
    have hfacing : (c'.alignTails left right s').toFacing = (c.alignTails left right s).toFacing :=
      alignTails_congr h hc rfl hs left right
    have hkeyed : c'.order.Keyed key := hc ▸ h
    rw [visitsOn_cons hne, visitsOn_cons hne]
    simp only [Visit.handed_cons, hfacing]
    congr 1
    refine ih ?_ _
    rw [hv, hv', basis_alignTails h, basis_alignTails hkeyed, hs]
  | case2 left right s result hne =>
    have hnil : left = [] ∧ right = [] := by simpa using hne
    rw [hnil.1, hnil.2, visitsOn_nil, visitsOn_nil]
    rfl

/-- What an alignment hands on and what it leaves are names of the two
tails. -/
theorem mem_of_alignTails (hne : left ≠ [] ∨ right ≠ []) (s : RunState σ) {x : Name}
    (hx : (c.alignTails left right s).pairing.Mentions x ∨
      x ∈ (c.alignTails left right s).restLeft ++ (c.alignTails left right s).restRight) :
    x ∈ left ++ right := by
  have hready : (c.alignTails left right s).Ready := ready_alignTails hne
  obtain ⟨hl, hr⟩ := perm_alignTails c left right s
  rw [hready.left_eq] at hl
  rw [hready.right_eq] at hr
  simp only [List.mem_append] at hx ⊢
  rcases hx with (hx | hx) | (hx | hx)
  · exact Or.inl (hl.mem_iff.1 (List.mem_append_left _ (Option.mem_toList.2 hx)))
  · exact Or.inr (hr.mem_iff.1 (List.mem_append_left _ (Option.mem_toList.2 hx)))
  · exact Or.inl (hl.mem_iff.1 (List.mem_append_right _ hx))
  · exact Or.inr (hr.mem_iff.1 (List.mem_append_right _ hx))

/-- **A pairing with a cut** goes through the names before the cut and then
through those behind it. -/
theorem visitsOn_cut (h : c.order.Keyed key) {visitor : Visitor σ α}
    (hv : Visitor.Keeps (fun s t => t.basis = s.basis) visitor) {left' right' : List Name}
    (hcut : ∀ x ∈ left ++ right, ∀ y ∈ left' ++ right',
      (c.order.keying key s.basis).matching x y = .lt) (result : α) :
    ∃ skipped u result', u.basis = s.basis ∧
      c.visitsOn visitor (left ++ left') (right ++ right') s result =
        skipped ++ c.visitsOn visitor left' right' u result' ∧
      ∀ v ∈ skipped, ∀ x, v.pairing.Mentions x → x ∈ left ++ right := by
  generalize hn : left.length + right.length = n
  induction n using Nat.strongRecOn generalizing left right s result with
  | ind n ih =>
    by_cases hne : left ≠ [] ∨ right ≠ []
    · have hne' : left ++ left' ≠ [] ∨ right ++ right' ≠ [] := by
        simp only [ne_eq, List.append_eq_nil_iff, not_and]
        exact hne.imp (fun hl hn => absurd hn hl) fun hr hn => absurd hn hr
      have happend : (c.alignTails (left ++ left') (right ++ right') s).toFacing =
          (c.alignTails left right s).toFacing.append left' right' :=
        alignTails_append h rfl rfl rfl hne hcut
      have hready : (c.alignTails left right s).Ready := ready_alignTails hne
      obtain ⟨hpairing, hleft, hright⟩ := hready.append left' right'
      rw [← happend] at hpairing hleft hright
      have hshorter := hready.rest_lt
      obtain ⟨hl, hr⟩ := perm_alignTails c left right s
      rw [hl.length_eq, hr.length_eq, hn] at hshorter
      rw [visitsOn_cons hne']
      simp only [hpairing, hleft, hright]
      generalize hstep : visitor (c.alignTails left right s).pairing
        (c.alignTails (left ++ left') (right ++ right') s).run result = step
      have hsame : step.run.basis = s.basis := by
        rw [← hstep, hv, basis_alignTails h]
      -- what is left behind the first pairing has the same cut
      obtain ⟨skipped, u, result', hu, hvisits, hmentions⟩ := ih _ hshorter (s := step.run)
        (fun x hx y hy => by rw [hsame]; exact hcut x (mem_of_alignTails hne s (Or.inr hx)) y hy)
        step.result rfl
      refine ⟨_ :: skipped, u, result', hu.trans hsame, by rw [hvisits, List.cons_append], ?_⟩
      intro v hmem x hx
      rcases List.mem_cons.1 hmem with rfl | hmem
      · exact mem_of_alignTails hne s (Or.inl hx)
      · exact mem_of_alignTails hne s (Or.inr (hmentions v hmem x hx))
    · have hnil : left = [] ∧ right = [] := by simpa using hne
      rw [hnil.1, hnil.2]
      exact ⟨[], s, result, rfl, rfl, fun v hv => absurd hv List.not_mem_nil⟩

end Comparison

end TreeCompare
