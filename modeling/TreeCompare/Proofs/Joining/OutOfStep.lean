import TreeCompare.Proofs.Joining.Join
/-!
# Two lists out of step

Two lists sorted by keys may still be joined by bytes: a name of both is
then handed on with itself only if both sides reach it at the same time.
`OutOfStep` says when they do not, in terms of the names alone: some name
of one side stands in front of a name of both, with no other name of both
between them, and has more bytes. `faithful_iff_not_outOfStep` says that this
is exactly when a name of both sides is torn apart.
-/

namespace TreeCompare

/-- The name is in one of the lists and not in the other. -/
def Lone (left right : List Name) (x : Name) : Prop :=
  x ∈ left ∧ x ∉ right ∨ x ∉ left ∧ x ∈ right

/-- The name is in both lists. -/
def Common (left right : List Name) (x : Name) : Prop := x ∈ left ∧ x ∈ right

/-- Every name of both lists is handed on with itself. -/
def Faithful (left right : List Name) (handed : List Pairing) : Prop :=
  ∀ x, Common left right x → ⟨some x, some x⟩ ∈ handed

/-- A name of one list alone stands before the next name of both in the
order of the keys, and behind it in the order of bytes. -/
def OutOfStep (k : Keying) (left right : List Name) : Prop :=
  ∃ x c, Lone left right x ∧ Common left right c ∧ k.sorting x c = .lt ∧ c.bytewise x = .lt ∧
    ∀ y, Common left right y → ¬ (k.sorting x y = .lt ∧ k.sorting y c = .lt)

variable {k : Keying} {left right left' right' as bs : List Name} {a b x : Name}

theorem Lone.symm (h : Lone left right x) : Lone right left x :=
  h.elim (fun h => Or.inr ⟨h.2, h.1⟩) (fun h => Or.inl ⟨h.2, h.1⟩)

theorem Common.symm (h : Common left right x) : Common right left x := ⟨h.2, h.1⟩

theorem OutOfStep.symm (h : OutOfStep k left right) : OutOfStep k right left := by
  obtain ⟨x, c, hx, hc, hxc, hcx, hno⟩ := h
  exact ⟨x, c, hx.symm, hc.symm, hxc, hcx, fun y hy => hno y hy.symm⟩

theorem outOfStep_comm : OutOfStep k left right ↔ OutOfStep k right left := ⟨.symm, .symm⟩

theorem faithful_comm {handed : List Pairing} :
    Faithful left right handed ↔ Faithful right left handed :=
  ⟨fun h x hx => h x hx.symm, fun h x hx => h x hx.symm⟩

/-- Being out of step does not depend on the order of the lists. -/
theorem OutOfStep.congr (h : OutOfStep k left right) (hl : ∀ x, x ∈ left ↔ x ∈ left')
    (hr : ∀ x, x ∈ right ↔ x ∈ right') : OutOfStep k left' right' := by
  obtain ⟨x, c, hx, hc, hxc, hcx, hno⟩ := h
  refine ⟨x, c, ?_, ⟨(hl c).1 hc.1, (hr c).1 hc.2⟩, hxc, hcx, fun y hy => hno y ?_⟩
  · rwa [Lone, ← hl, ← hr]
  · exact ⟨(hl y).2 hy.1, (hr y).2 hy.2⟩

namespace Keying

/-! ## The head of a list, taken -/

/-- A head that both lists share is in nobody's way. -/
theorem outOfStep_same_head (hl : k.Sorted (a :: as)) (hr : k.Sorted (a :: bs)) :
    OutOfStep k (a :: as) (a :: bs) ↔ OutOfStep k as bs := by
  have hal : a ∉ as := (List.nodup_cons.1 hl.nodup).1
  have har : a ∉ bs := (List.nodup_cons.1 hr.nodup).1
  have hlone : ∀ x, Lone as bs x ↔ Lone (a :: as) (a :: bs) x := by
    intro x
    by_cases hxa : x = a
    · subst hxa
      simp [Lone, hal, har]
    · simp [Lone, hxa]
  constructor
  · rintro ⟨x, c, hx, hc, hxc, hcx, hno⟩
    have hx' := (hlone x).2 hx
    have hca : c ≠ a := by
      rintro rfl
      refine sorting_asymm hxc ?_
      rcases hx' with h | h
      · exact hl.head_lt h.1
      · exact hr.head_lt h.2
    refine ⟨x, c, hx', ⟨?_, ?_⟩, hxc, hcx, fun y hy => hno y ?_⟩
    · exact (List.mem_cons.1 hc.1).resolve_left hca
    · exact (List.mem_cons.1 hc.2).resolve_left hca
    · exact ⟨List.mem_cons_of_mem _ hy.1, List.mem_cons_of_mem _ hy.2⟩
  · rintro ⟨x, c, hx, hc, hxc, hcx, hno⟩
    refine ⟨x, c, (hlone x).1 hx, ⟨List.mem_cons_of_mem _ hc.1, List.mem_cons_of_mem _ hc.2⟩,
      hxc, hcx, ?_⟩
    rintro y ⟨hyl, hyr⟩ ⟨hxy, hyc⟩
    by_cases hya : y = a
    · subst hya
      refine sorting_asymm hxy ?_
      rcases hx with h | h
      · exact hl.head_lt h.1
      · exact hr.head_lt h.2
    · exact hno y ⟨(List.mem_cons.1 hyl).resolve_left hya, (List.mem_cons.1 hyr).resolve_left hya⟩
        ⟨hxy, hyc⟩

/-- A head with fewer bytes than the other, which the other list holds
further on, is torn apart. -/
theorem outOfStep_of_mem (hl : k.Sorted (a :: as)) (hr : k.Sorted (b :: bs))
    (hab : a.bytewise b = .lt) (ha : a ∈ bs) : OutOfStep k (a :: as) (b :: bs) := by
  have hba := hr.head_lt ha
  have hbl : b ∉ a :: as := by
    intro hb
    rcases List.mem_cons.1 hb with rfl | hb
    · exact sorting_irrefl hba
    · exact sorting_asymm hba (hl.head_lt hb)
  refine ⟨b, a, Or.inr ⟨hbl, List.mem_cons_self ..⟩,
    ⟨List.mem_cons_self .., List.mem_cons_of_mem _ ha⟩, hba, hab, ?_⟩
  rintro y ⟨hyl, -⟩ ⟨-, hya⟩
  rcases List.mem_cons.1 hyl with rfl | hyl
  · exact sorting_irrefl hya
  · exact sorting_asymm hya (hl.head_lt hyl)

/-- A head with fewer bytes than the other, which the other list does not
hold, is in nobody's way: if it stands behind a name of both in the order
of bytes, then so does the other head. -/
theorem outOfStep_lone_head (hl : k.Sorted (a :: as)) (hr : k.Sorted (b :: bs))
    (hab : a.bytewise b = .lt) (ha : a ∉ b :: bs) :
    OutOfStep k (a :: as) (b :: bs) ↔ OutOfStep k as (b :: bs) := by
  have hal : a ∉ as := (List.nodup_cons.1 hl.nodup).1
  have hcommon : ∀ y, Common (a :: as) (b :: bs) y ↔ Common as (b :: bs) y := by
    intro y
    refine ⟨fun ⟨hyl, hyr⟩ => ⟨?_, hyr⟩, fun ⟨hyl, hyr⟩ => ⟨List.mem_cons_of_mem _ hyl, hyr⟩⟩
    rcases List.mem_cons.1 hyl with rfl | hyl
    · exact absurd hyr ha
    · exact hyl
  constructor
  · rintro ⟨x, c, hx, hc, hxc, hcx, hno⟩
    have hc' := (hcommon c).1 hc
    by_cases hxa : x = a
    · -- what the head was in the way of, the other head is in the way of
      subst hxa
      have hcb : c.bytewise b = .lt := Std.TransCmp.lt_trans hcx hab
      have hbc : k.sorting b c = .lt := by
        rcases List.mem_cons.1 hc.2 with rfl | hcr
        · simp at hcb
        · exact hr.head_lt hcr
      have hbl : b ∉ as := by
        intro hb
        exact hno b ⟨List.mem_cons_of_mem _ hb, List.mem_cons_self ..⟩ ⟨hl.head_lt hb, hbc⟩
      refine ⟨b, c, Or.inr ⟨hbl, List.mem_cons_self ..⟩, hc', hbc, hcb, ?_⟩
      rintro y hy ⟨-, hyc⟩
      exact hno y ((hcommon y).2 hy) ⟨hl.head_lt hy.1, hyc⟩
    · refine ⟨x, c, ?_, hc', hxc, hcx, fun y hy => hno y ((hcommon y).2 hy)⟩
      simpa [Lone, hxa] using hx
  · rintro ⟨x, c, hx, hc, hxc, hcx, hno⟩
    refine ⟨x, c, ?_, (hcommon c).2 hc, hxc, hcx, fun y hy => hno y ((hcommon y).1 hy)⟩
    have hxa : x ≠ a := by
      rintro rfl
      rcases hx with h | h
      · exact hal h.1
      · exact ha h.2
    simpa [Lone, hxa] using hx

/-! ## The whole join -/

/-- A name that was not handed on comes later or not at all. -/
theorem mem_cons_pairing {p : Pairing} {handed : List Pairing} (hp : p ≠ ⟨some x, some x⟩) :
    ⟨some x, some x⟩ ∈ p :: handed ↔ ⟨some x, some x⟩ ∈ handed := by
  rw [List.mem_cons]
  exact or_iff_right fun h => hp h.symm

/-- Taking a lone name loses no name of both. -/
theorem faithful_lone_head {p : Pairing} {handed : List Pairing} (hp : p.isComplete = false)
    (hsame : ∀ x, Common left right x ↔ Common left' right' x) :
    Faithful left right (p :: handed) ↔ Faithful left' right' handed := by
  have hne : ∀ x : Name, p ≠ ⟨some x, some x⟩ := by
    rintro x rfl
    simp [Pairing.isComplete] at hp
  simp only [Faithful, mem_cons_pairing (hne _), hsame]

/-- A name that is taken alone is not handed on with itself any more. -/
theorem not_exact_of_lone {p : Pairing} (hp : p.isComplete = false)
    (hx : x ∉ left' ∨ x ∉ right') :
    ⟨some x, some x⟩ ∉ p :: Keying.bytes.join left' right' := by
  have hne : p ≠ ⟨some x, some x⟩ := by
    rintro rfl
    simp [Pairing.isComplete] at hp
  rw [mem_cons_pairing hne]
  intro hmem
  obtain ⟨hl, hr⟩ := Keying.bytes.perm_join left' right'
  rcases hx with hx | hx
  · exact hx (hl.mem_iff.1 (Pairing.mem_lefts.2 ⟨_, hmem, rfl⟩))
  · exact hx (hr.mem_iff.1 (Pairing.mem_rights.2 ⟨_, hmem, rfl⟩))

/-- The head with fewer bytes is handed on alone. If the other list holds
it the lists were out of step, and otherwise it is in nobody's way. -/
theorem faithful_iff_of_smaller {p : Pairing} {handed : List Pairing} (hl : k.Sorted (a :: as))
    (hr : k.Sorted (b :: bs)) (hab : a.bytewise b = .lt) (hp : p.isComplete = false)
    (hnot : ⟨some a, some a⟩ ∉ p :: handed)
    (ih : Faithful as (b :: bs) handed ↔ ¬ OutOfStep k as (b :: bs)) :
    Faithful (a :: as) (b :: bs) (p :: handed) ↔ ¬ OutOfStep k (a :: as) (b :: bs) := by
  by_cases ha : a ∈ b :: bs
  · have hne : a ≠ b := fun hc => by simp [hc] at hab
    refine iff_of_false (fun hall => ?_) (fun hno => ?_)
    · exact hnot (hall a ⟨List.mem_cons_self .., ha⟩)
    · exact hno (outOfStep_of_mem hl hr hab ((List.mem_cons.1 ha).resolve_left hne))
  · rw [outOfStep_lone_head hl hr hab ha, ← ih]
    refine faithful_lone_head hp fun x => ⟨fun ⟨hxl, hxr⟩ => ⟨?_, hxr⟩, fun ⟨hxl, hxr⟩ => ?_⟩
    · exact (List.mem_cons.1 hxl).resolve_left fun hc => ha (hc ▸ hxr)
    · exact ⟨List.mem_cons_of_mem _ hxl, hxr⟩

/-- A head of both lists is handed on with itself. -/
theorem faithful_same_head {handed : List Pairing} (hal : a ∉ as) :
    Faithful (a :: as) (a :: bs) (⟨some a, some a⟩ :: handed) ↔ Faithful as bs handed := by
  constructor
  · intro hall x hx
    have hxa : x ≠ a := fun hc => hal (hc ▸ hx.1)
    have hmem := hall x ⟨List.mem_cons_of_mem _ hx.1, List.mem_cons_of_mem _ hx.2⟩
    exact (mem_cons_pairing (by simpa using hxa.symm)).1 hmem
  · intro hall x hx
    by_cases hxa : x = a
    · rw [hxa]
      exact List.mem_cons_self ..
    · exact List.mem_cons_of_mem _ (hall x ⟨(List.mem_cons.1 hx.1).resolve_left hxa,
        (List.mem_cons.1 hx.2).resolve_left hxa⟩)

/-- **A join by bytes of two lists sorted by keys** hands on every name of
both with itself exactly if the lists are not out of step. -/
theorem faithful_iff_not_outOfStep (hl : k.Sorted left) (hr : k.Sorted right) :
    Faithful left right (Keying.bytes.join left right) ↔ ¬ OutOfStep k left right := by
  -- along the join, because bytes decide which head goes and not the keys
  induction left, right using join.induct Keying.bytes with
  | case2 left right h =>
    have hnil : left = [] ∧ right = [] := by simpa using h
    obtain ⟨rfl, rfl⟩ := hnil
    simp [OutOfStep, Faithful, Common]
  | case1 left right h f ih =>
    rcases left with - | ⟨a, as⟩
    · simp [OutOfStep, Faithful, Common]
    rcases right with - | ⟨b, bs⟩
    · simp [OutOfStep, Faithful, Common]
    have hal : a ∉ as := (List.nodup_cons.1 hl.nodup).1
    have hbr : b ∉ bs := (List.nodup_cons.1 hr.nodup).1
    have hface : f = ⟨a.bytewise b, a :: as, b :: bs⟩ := face_bytes hl.nodup hr.nodup
    have hjoin : Keying.bytes.join (a :: as) (b :: bs) =
        f.pairing :: Keying.bytes.join f.restLeft f.restRight := join_cons h
    rw [hface] at ih hjoin
    rw [hjoin]
    cases hab : a.bytewise b with
    | lt =>
      rw [hab] at ih
      have ih : Faithful as (b :: bs) (Keying.bytes.join as (b :: bs)) ↔
          ¬ OutOfStep k as (b :: bs) := ih hl.tail hr
      exact faithful_iff_of_smaller hl hr hab rfl (not_exact_of_lone rfl (Or.inl hal)) ih
    | eq =>
      obtain rfl : a = b := Name.bytewise_eq_eq.1 hab
      rw [hab] at ih
      have ih : Faithful as bs (Keying.bytes.join as bs) ↔ ¬ OutOfStep k as bs :=
        ih hl.tail hr.tail
      rw [outOfStep_same_head hl hr, ← ih]
      exact faithful_same_head hal
    | gt =>
      have hba : b.bytewise a = .lt := Std.OrientedCmp.gt_iff_lt.1 hab
      rw [hab] at ih
      have ih : Faithful (a :: as) bs (Keying.bytes.join (a :: as) bs) ↔
          ¬ OutOfStep k (a :: as) bs := ih hl hr.tail
      rw [faithful_comm, outOfStep_comm] at ih ⊢
      exact faithful_iff_of_smaller hr hl hba rfl (not_exact_of_lone rfl (Or.inr hbr)) ih

end Keying

end TreeCompare
