import TreeCompare.Proofs.Ordering.Keying
import TreeCompare.Proofs.Pairing.Facing
/-!
# Two lists facing each other under a keying

What the pairing of two lists hands on first when names are compared by a
keying that never fails (`Keying.face`), and what it leaves. `Keying.Takes`
says it without a recursion or a search: a name that sorts before the whole
other list is handed on alone, a name that both lists hold is handed on with
itself, and two names that match are handed on together if neither list
holds both. On two sorted lists it is what happens (`takes_face`).
-/

namespace TreeCompare

namespace Keying

/-- Two lists facing each other: of two heads that match, one gives way to
an exact match for the other. -/
def face (k : Keying) : List Name → List Name → Facing
  | [], right => ⟨.gt, [], right⟩
  | a :: as, [] => ⟨.lt, a :: as, []⟩
  | a :: as, b :: bs =>
    if k.matching a b = .eq then
      if b ∈ as then ⟨.eq, b :: a :: as.erase b, b :: bs⟩
      else if a ∈ bs then ⟨.eq, a :: as, a :: b :: bs.erase a⟩
      else ⟨.eq, a :: as, b :: bs⟩
    else ⟨k.matching a b, a :: as, b :: bs⟩

/-- What is taken of two lists first, and what is left of them. -/
inductive Takes (k : Keying) :
    List Name → List Name → Pairing → List Name → List Name → Prop where
  /-- A name on the left that sorts before the right list. -/
  | left {x : Name} {as right : List Name} (h : ∀ y ∈ right, k.matching x y = .lt) :
      Takes k (x :: as) right ⟨some x, none⟩ as right
  /-- A name on the right that sorts before the left list. -/
  | right {y : Name} {left bs : List Name} (h : ∀ x ∈ left, k.matching y x = .lt) :
      Takes k left (y :: bs) ⟨none, some y⟩ left bs
  /-- A name of both lists, among those that match the heads. -/
  | both {x : Name} {left right : List Name} (hl : x ∈ left) (hr : x ∈ right)
      (h : ∀ z, z ∈ left ∨ z ∈ right → k.matching x z ≠ .gt) :
      Takes k left right ⟨some x, some x⟩ (left.erase x) (right.erase x)
  /-- Two heads that match, each in its own list only. -/
  | alike {x y : Name} {as bs : List Name} (h : k.matching x y = .eq)
      (hx : x ∉ y :: bs) (hy : y ∉ x :: as) :
      Takes k (x :: as) (y :: bs) ⟨some x, some y⟩ as bs

variable {k : Keying} {left right : List Name} {a b x y : Name}

/-! ## What is faced is there -/

theorem ready_face (h : left ≠ [] ∨ right ≠ []) : (k.face left right).Ready := by
  rcases left with - | ⟨a, as⟩
  · exact ⟨fun ho => absurd rfl ho, fun _ => h.resolve_left fun h => h rfl⟩
  rcases right with - | ⟨b, bs⟩
  · exact ⟨fun _ => by simp [face], fun ho => absurd rfl ho⟩
  simp only [face]
  split
  · split
    · exact ⟨fun _ => by simp, fun _ => by simp⟩
    · split
      · exact ⟨fun _ => by simp, fun _ => by simp⟩
      · exact ⟨fun _ => by simp, fun _ => by simp⟩
  · exact ⟨fun _ => by simp, fun _ => by simp⟩

/-- Putting an exact match in front permutes a list. -/
theorem perm_front {as : List Name} (h : b ∈ as) : (b :: a :: as.erase b).Perm (a :: as) :=
  (List.Perm.swap a b _).trans ((List.perm_cons_erase h).symm.cons a)

theorem perm_face (k : Keying) (left right : List Name) :
    (k.face left right).left.Perm left ∧ (k.face left right).right.Perm right := by
  rcases left with - | ⟨a, as⟩
  · exact ⟨List.Perm.refl _, List.Perm.refl _⟩
  rcases right with - | ⟨b, bs⟩
  · exact ⟨List.Perm.refl _, List.Perm.refl _⟩
  simp only [face]
  split
  · split
    · next h => exact ⟨perm_front h, List.Perm.refl _⟩
    · split
      · next h => exact ⟨List.Perm.refl _, perm_front h⟩
      · exact ⟨List.Perm.refl _, List.Perm.refl _⟩
  · exact ⟨List.Perm.refl _, List.Perm.refl _⟩

/-- What is left of two lists keeps its order. -/
theorem sublist_face (k : Keying) (left right : List Name) :
    (k.face left right).restLeft.Sublist left ∧ (k.face left right).restRight.Sublist right := by
  rcases left with - | ⟨a, as⟩
  · exact ⟨List.Sublist.refl _, List.tail_sublist _⟩
  rcases right with - | ⟨b, bs⟩
  · exact ⟨List.sublist_cons_self .., List.Sublist.refl _⟩
  simp only [face]
  split
  · split
    · exact ⟨List.erase_sublist.cons_cons a, List.sublist_cons_self ..⟩
    · split
      · exact ⟨List.sublist_cons_self .., List.erase_sublist.cons_cons b⟩
      · exact ⟨List.sublist_cons_self .., List.sublist_cons_self ..⟩
  · next h =>
    cases ho : k.matching a b with
    | lt => exact ⟨List.sublist_cons_self .., List.Sublist.refl _⟩
    | eq => exact absurd ho h
    | gt => exact ⟨List.Sublist.refl _, List.sublist_cons_self ..⟩

/-- Without repetitions, two heads face each other by bytes as they are. -/
theorem face_bytes {as bs : List Name} (hl : (a :: as).Nodup) (hr : (b :: bs).Nodup) :
    Keying.bytes.face (a :: as) (b :: bs) = ⟨a.bytewise b, a :: as, b :: bs⟩ := by
  rw [← matching_bytes, face]
  by_cases ho : Keying.bytes.matching a b = .eq
  · obtain rfl : a = b := Name.bytewise_eq_eq.1 ho
    rw [if_pos ho, if_neg (List.nodup_cons.1 hl).1, if_neg (List.nodup_cons.1 hr).1, ho]
  · rw [if_neg ho]

/-! ## What is taken of two sorted lists -/

/-- The head of a sorted list matches nothing that comes before it. -/
theorem Sorted.head_ne_gt {as : List Name} (h : k.Sorted (a :: as)) (hx : x ∈ a :: as) :
    k.matching a x ≠ .gt := by
  rcases List.mem_cons.1 hx with rfl | hx
  · simp
  · exact matching_ne_gt_of_sorting (h.head_lt hx)

/-- Names that match are compared alike. -/
theorem matching_congr (h : k.matching a b = .eq) (x : Name) :
    k.matching a x = k.matching b x := by
  rw [matching, matching_eq.1 h, matching]

/-- A name that comes before the head of a sorted list comes before all of
it. -/
theorem Sorted.lt_of_head {bs : List Name} (h : k.Sorted (b :: bs))
    (hab : k.matching a b = .lt) (hy : y ∈ b :: bs) : k.matching a y = .lt := by
  have hle := h.head_ne_gt hy
  cases hby : k.matching b y with
  | lt => exact Std.TransCmp.lt_trans hab hby
  | eq => exact Std.TransCmp.lt_of_lt_of_eq hab hby
  | gt => exact absurd hby hle

/-- **What faces each other first in two sorted lists.** -/
theorem takes_face (hl : k.Sorted left) (hr : k.Sorted right) (h : left ≠ [] ∨ right ≠ []) :
    k.Takes left right (k.face left right).pairing (k.face left right).restLeft
      (k.face left right).restRight := by
  rcases left with - | ⟨a, as⟩
  · obtain ⟨b, bs, rfl⟩ := List.exists_cons_of_ne_nil (h.resolve_left fun h => h rfl)
    exact .right (by simp)
  rcases right with - | ⟨b, bs⟩
  · exact .left (by simp)
  have hnotin : ∀ {c : Name} {cs : List Name}, k.Sorted (c :: cs) → c ∉ cs := by
    intro c cs hs hc
    exact sorting_irrefl (hs.head_lt hc)
  cases ho : k.matching a b with
  | lt =>
    simp only [face, ho, reduceCtorEq, if_false]
    exact .left fun y hy => hr.lt_of_head ho hy
  | gt =>
    simp only [face, ho, reduceCtorEq, if_false]
    exact .right fun x hx => hl.lt_of_head (Std.OrientedCmp.gt_iff_lt.1 ho) hx
  | eq =>
    -- whichever name is taken has the key of both heads
    have hfirst : ∀ z, z ∈ a :: as ∨ z ∈ b :: bs → k.matching a z ≠ .gt := by
      rintro z (hz | hz)
      · exact hl.head_ne_gt hz
      · rw [matching_congr ho]
        exact hr.head_ne_gt hz
    simp only [face, ho, if_true]
    by_cases hb : b ∈ as
    · rw [if_pos hb]
      have hne : a ≠ b := fun hab => hnotin hl (hab ▸ hb)
      have htake : k.Takes (a :: as) (b :: bs) ⟨some b, some b⟩ ((a :: as).erase b)
          ((b :: bs).erase b) := by
        refine .both (List.mem_cons_of_mem _ hb) (List.mem_cons_self ..) fun z hz => ?_
        rw [← matching_congr ho]
        exact hfirst z hz
      rwa [List.erase_cons_tail (by simpa using hne), List.erase_cons_head] at htake
    · rw [if_neg hb]
      by_cases ha : a ∈ bs
      · rw [if_pos ha]
        have hne : b ≠ a := fun hba => hnotin hr (hba ▸ ha)
        have htake : k.Takes (a :: as) (b :: bs) ⟨some a, some a⟩ ((a :: as).erase a)
            ((b :: bs).erase a) :=
          .both (List.mem_cons_self ..) (List.mem_cons_of_mem _ ha) hfirst
        rwa [List.erase_cons_head, List.erase_cons_tail (by simpa using hne)] at htake
      · rw [if_neg ha]
        by_cases hab : a = b
        · subst hab
          have htake : k.Takes (a :: as) (a :: bs) ⟨some a, some a⟩ ((a :: as).erase a)
              ((a :: bs).erase a) :=
            .both (List.mem_cons_self ..) (List.mem_cons_self ..) hfirst
          rwa [List.erase_cons_head, List.erase_cons_head] at htake
        · refine .alike ho ?_ ?_
          · simp [hab, ha]
          · simp [Ne.symm hab, hb]

/-! ## What taking does to the lists -/

section Takes

variable {p : Pairing} {left' right' : List Name}

theorem Takes.perm (h : k.Takes left right p left' right') :
    left.Perm (p.left.toList ++ left') ∧ right.Perm (p.right.toList ++ right') := by
  cases h with
  | left _ => exact ⟨List.Perm.refl _, List.Perm.refl _⟩
  | right _ => exact ⟨List.Perm.refl _, List.Perm.refl _⟩
  | both hl hr _ => exact ⟨List.perm_cons_erase hl, List.perm_cons_erase hr⟩
  | alike _ _ _ => exact ⟨List.Perm.refl _, List.Perm.refl _⟩

theorem Takes.sublist (h : k.Takes left right p left' right') :
    left'.Sublist left ∧ right'.Sublist right := by
  cases h with
  | left _ => exact ⟨List.sublist_cons_self .., List.Sublist.refl _⟩
  | right _ => exact ⟨List.Sublist.refl _, List.sublist_cons_self ..⟩
  | both _ _ _ => exact ⟨List.erase_sublist, List.erase_sublist⟩
  | alike _ _ _ => exact ⟨List.sublist_cons_self .., List.sublist_cons_self ..⟩

/-- **A name is never handed on without its exact match.** -/
theorem Takes.exact (h : k.Takes left right p left' right') :
    (p.left = some x → x ∈ right → p.right = some x) ∧
      (p.right = some x → x ∈ left → p.left = some x) := by
  cases h with
  | left h =>
    refine ⟨fun hx hr => ?_, by simp⟩
    cases hx
    exact absurd (h x hr) (by simp)
  | right h =>
    refine ⟨by simp, fun hy hl => ?_⟩
    cases hy
    exact absurd (h x hl) (by simp)
  | both _ _ _ => exact ⟨fun hx _ => hx, fun hx _ => hx⟩
  | alike _ hx hy =>
    refine ⟨fun he hr => ?_, fun he hl => ?_⟩
    · cases he
      exact absurd hr hx
    · cases he
      exact absurd hl hy

/-- What is taken first comes before what is left, keys compared. -/
theorem Takes.ne_gt (h : k.Takes left right p left' right') (hl : k.Sorted left)
    (hr : k.Sorted right) (hx : p.Mentions x) (hy : y ∈ left' ∨ y ∈ right') :
    k.matching x y ≠ .gt := by
  cases h with
  | left h =>
    rw [Pairing.mentions_left.1 hx]
    rcases hy with hy | hy
    · exact hl.head_ne_gt (List.mem_cons_of_mem _ hy)
    · rw [h y hy]
      simp
  | right h =>
    rw [Pairing.mentions_right.1 hx]
    rcases hy with hy | hy
    · rw [h y hy]
      simp
    · exact hr.head_ne_gt (List.mem_cons_of_mem _ hy)
  | both _ _ h =>
    rw [(or_self_iff.1 (Pairing.mentions_both.1 hx))]
    exact h y (hy.imp List.mem_of_mem_erase List.mem_of_mem_erase)
  | @alike a b as bs h _ _ =>
    have ha : k.matching x y = k.matching a y := by
      rcases Pairing.mentions_both.1 hx with rfl | rfl
      · rfl
      · exact (matching_congr h y).symm
    rw [ha]
    rcases hy with hy | hy
    · exact hl.head_ne_gt (List.mem_cons_of_mem _ hy)
    · rw [matching_congr h]
      exact hr.head_ne_gt (List.mem_cons_of_mem _ hy)

/-- Two names that are handed on together match. -/
theorem Takes.matched (h : k.Takes left right p left' right') (hx : p.left = some x)
    (hy : p.right = some y) : k.matching x y = .eq := by
  cases h with
  | left _ => cases hy
  | right _ => cases hx
  | both _ _ _ =>
    cases hx
    cases hy
    exact matching_self
  | alike h _ _ =>
    cases hx
    cases hy
    exact h

/-- A name handed on alone sorts before the rest of its own side, and no
name left on the other side matches it. -/
theorem Takes.lone_left (h : k.Takes left right ⟨some x, none⟩ left' right')
    (hl : k.Sorted left) :
    (∀ y ∈ left', k.sorting x y = .lt) ∧ ∀ y ∈ right', k.matching x y = .lt := by
  cases h with
  | left h => exact ⟨fun y hy => hl.head_lt hy, h⟩

theorem Takes.lone_right (h : k.Takes left right ⟨none, some x⟩ left' right')
    (hr : k.Sorted right) :
    (∀ y ∈ right', k.sorting x y = .lt) ∧ ∀ y ∈ left', k.matching x y = .lt := by
  cases h with
  | right h => exact ⟨fun y hy => hr.head_lt hy, h⟩

end Takes

end Keying

end TreeCompare
