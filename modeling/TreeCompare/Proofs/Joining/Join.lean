import TreeCompare.Proofs.Joining.Face
/-!
# The join of two lists of names

`Keying.join` hands on all of two lists, what faces each other first and
then the rest. On two sorted lists it is a sequence of takings
(`joins_join`), and everything about it follows by induction on that
sequence: it loses nothing, it hands on names of both lists with themselves
(`Joins.exact`), its keys ascend, and behind a name that is handed on alone
come only such names of the same key, on the same side and in the order of
bytes (`Joins.lone`).
-/

namespace TreeCompare

namespace Keying

/-- The pairings of two lists of names, in the order in which they are
handed on. -/
def join (k : Keying) (left right : List Name) : List Pairing :=
  if _h : left ≠ [] ∨ right ≠ [] then
    let f := k.face left right
    f.pairing :: k.join f.restLeft f.restRight
  else []
termination_by left.length + right.length
decreasing_by
  obtain ⟨hl, hr⟩ := k.perm_face left right
  have := (ready_face (k := k) _h).rest_lt
  rw [← hl.length_eq, ← hr.length_eq]
  exact this

/-- Pairings that are taken of two lists one after the other, until nothing
is left. -/
inductive Joins (k : Keying) : List Name → List Name → List Pairing → Prop where
  | nil : Joins k [] [] []
  | cons {left right left' right' : List Name} {p : Pairing} {handed : List Pairing}
      (h : k.Takes left right p left' right') (hj : Joins k left' right' handed) :
      Joins k left right (p :: handed)

variable {k : Keying} {left right : List Name} {handed : List Pairing} {x y : Name}

@[simp] theorem join_nil : k.join [] [] = [] := by
  rw [join]
  simp

theorem join_cons (h : left ≠ [] ∨ right ≠ []) :
    k.join left right = (k.face left right).pairing ::
      k.join (k.face left right).restLeft (k.face left right).restRight := by
  rw [join, dif_pos h]

/-- **The join of two sorted lists is a sequence of takings.** -/
theorem joins_join (hl : k.Sorted left) (hr : k.Sorted right) :
    k.Joins left right (k.join left right) := by
  induction left, right using join.induct k with
  | case1 left right h f ih =>
    have ht := takes_face hl hr h
    obtain ⟨hsl, hsr⟩ := ht.sublist
    rw [join_cons h]
    exact .cons ht (ih (hl.sublist hsl) (hr.sublist hsr))
  | case2 left right h =>
    have hnil : left = [] ∧ right = [] := by simpa using h
    rw [hnil.1, hnil.2, join_nil]
    exact .nil

/-- Every join hands on all of its two lists, in whatever order they
are. -/
theorem perm_join (k : Keying) (left right : List Name) :
    (Pairing.lefts (k.join left right)).Perm left ∧
      (Pairing.rights (k.join left right)).Perm right := by
  induction left, right using join.induct k with
  | case1 left right h f ih =>
    obtain ⟨hl, hr⟩ := k.perm_face left right
    obtain ⟨hpl, hpr⟩ := (ready_face (k := k) h).perm_cons (u := []) (v := [])
      (by simpa using ih.1) (by simpa using ih.2)
    rw [List.append_nil] at hpl hpr
    rw [join_cons h]
    exact ⟨hpl.trans hl, hpr.trans hr⟩
  | case2 left right h =>
    have hnil : left = [] ∧ right = [] := by simpa using h
    rw [hnil.1, hnil.2, join_nil]
    exact ⟨List.Perm.refl _, List.Perm.refl _⟩

namespace Joins

theorem perm (h : k.Joins left right handed) :
    (Pairing.lefts handed).Perm left ∧ (Pairing.rights handed).Perm right := by
  induction h with
  | nil => exact ⟨List.Perm.refl _, List.Perm.refl _⟩
  | cons ht _ ih =>
    rw [Pairing.lefts_cons, Pairing.rights_cons]
    exact ⟨(ih.1.append_left _).trans ht.perm.1.symm, (ih.2.append_left _).trans ht.perm.2.symm⟩

theorem mem_left (h : k.Joins left right handed) {p : Pairing} (hp : p ∈ handed)
    (hx : p.left = some x) : x ∈ left :=
  h.perm.1.mem_iff.1 (Pairing.mem_lefts.2 ⟨p, hp, hx⟩)

theorem mem_right (h : k.Joins left right handed) {p : Pairing} (hp : p ∈ handed)
    (hx : p.right = some x) : x ∈ right :=
  h.perm.2.mem_iff.1 (Pairing.mem_rights.2 ⟨p, hp, hx⟩)

/-- What a join mentions is in one of its lists. -/
theorem mem_of_mentions (h : k.Joins left right handed) {p : Pairing} (hp : p ∈ handed)
    (hx : p.Mentions x) : x ∈ left ∨ x ∈ right :=
  hx.imp (h.mem_left hp) (h.mem_right hp)

/-- **A name of both lists is handed on with itself.** -/
theorem exact (h : k.Joins left right handed) (hl : x ∈ left) (hr : x ∈ right) :
    ⟨some x, some x⟩ ∈ handed := by
  induction h with
  | nil => cases hl
  | @cons left right left' right' p handed ht _ ih =>
    obtain ⟨hexl, hexr⟩ := ht.exact (x := x)
    -- the first pairing is that of the name with itself, or leaves it on both sides
    by_cases hpl : p.left = some x
    · have hpr := hexl hpl hr
      obtain ⟨a, b⟩ := p
      cases hpl
      cases hpr
      exact List.mem_cons_self ..
    by_cases hpr : p.right = some x
    · exact absurd (hexr hpr hl) hpl
    · refine List.mem_cons_of_mem _ (ih ?_ ?_)
      · have := ht.perm.1.mem_iff.1 hl
        simpa [Option.mem_toList, hpl] using this
      · have := ht.perm.2.mem_iff.1 hr
        simpa [Option.mem_toList, hpr] using this

theorem ne_none (h : k.Joins left right handed) : ∀ p ∈ handed, p ≠ ⟨none, none⟩ := by
  induction h with
  | nil => simp
  | cons ht _ ih =>
    intro p hp
    rcases List.mem_cons.1 hp with rfl | hp
    · cases ht <;> simp
    · exact ih p hp

/-- Names that are handed on together match. -/
theorem matched (h : k.Joins left right handed) {p : Pairing} (hp : p ∈ handed)
    (hx : p.left = some x) (hy : p.right = some y) : k.matching x y = .eq := by
  induction h with
  | nil => cases hp
  | cons ht _ ih =>
    rcases List.mem_cons.1 hp with rfl | hp
    · exact ht.matched hx hy
    · exact ih hp

/-- **Keys ascend** from pairing to pairing. -/
theorem ascending (h : k.Joins left right handed) (hl : k.Sorted left) (hr : k.Sorted right) :
    handed.Pairwise fun p q => ∀ x y, p.Mentions x → q.Mentions y → k.matching x y ≠ .gt := by
  induction h with
  | nil => exact List.Pairwise.nil
  | cons ht hj ih =>
    obtain ⟨hsl, hsr⟩ := ht.sublist
    refine List.Pairwise.cons ?_ (ih (hl.sublist hsl) (hr.sublist hsr))
    intro q hq x y hx hy
    exact ht.ne_gt hl hr hx (hj.mem_of_mentions hq hy)

/-- **Behind a name that is handed on alone** come only such names of its
key, from the same side and in the order of bytes. -/
theorem lone (h : k.Joins left right handed) (hl : k.Sorted left) (hr : k.Sorted right) :
    handed.Pairwise fun p q => p.isComplete = false → k.matching p.name q.name = .eq →
      q.loneSide = p.loneSide ∧ p.name.bytewise q.name = .lt := by
  induction h with
  | nil => exact List.Pairwise.nil
  | @cons left right left' right' p handed ht hj ih =>
    obtain ⟨hsl, hsr⟩ := ht.sublist
    refine List.Pairwise.cons ?_ (ih (hl.sublist hsl) (hr.sublist hsr))
    intro q hq hp hkey
    have hne := hj.ne_none q hq
    rcases p with ⟨_ | a, _ | b⟩
    · cases ht
    · obtain ⟨hsame, hother⟩ := ht.lone_right hr
      change k.matching b q.name = .eq at hkey
      rcases q with ⟨_ | x, _ | y⟩
      · exact absurd rfl hne
      · refine ⟨rfl, ?_⟩
        rw [← hsame y (hj.mem_right hq rfl)]
        exact (sorting_of_matching hkey).symm
      · exact nomatch (hother x (hj.mem_left hq rfl)).symm.trans hkey
      · exact nomatch (hother x (hj.mem_left hq rfl)).symm.trans hkey
    · obtain ⟨hsame, hother⟩ := ht.lone_left hl
      change k.matching a q.name = .eq at hkey
      rcases q with ⟨_ | x, _ | y⟩
      · exact absurd rfl hne
      · exact nomatch (hother y (hj.mem_right hq rfl)).symm.trans hkey
      · refine ⟨rfl, ?_⟩
        rw [← hsame x (hj.mem_left hq rfl)]
        exact (sorting_of_matching hkey).symm
      · have hxy := hj.matched hq rfl rfl
        rw [← matching_congr (show k.matching a x = .eq from hkey), hother y (hj.mem_right hq rfl)]
          at hxy
        cases hxy
    · simp [Pairing.isComplete] at hp

end Joins

end Keying

end TreeCompare
