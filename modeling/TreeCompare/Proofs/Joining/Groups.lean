import TreeCompare.Proofs.Joining.Outer
/-!
# The groups of a join

Names that have the same key form a group. `IsGroup` says how the names of
one group are handed on: in pairs as long as both sides have names, a name
of both sides with itself, and then what is left of the longer side in the
order of bytes. A join under a keying of two sorted lists hands on one
group after the other, in the order of their keys (`Joins.isGroupedJoin`).
-/

namespace TreeCompare

/-- The side that has more names. -/
def longerSide (left right : List Name) : Side :=
  if left.length < right.length then .right else .left

/-- The pairings of one group, in which every name matches every other. -/
structure IsGroup (left right : List Name) (handed : List Pairing) : Prop where
  /-- Every name on the left is handed on once. -/
  lefts : (Pairing.lefts handed).Perm left
  /-- Every name on the right is handed on once. -/
  rights : (Pairing.rights handed).Perm right
  /-- Pairs of two names come first, as many as there can be, and then the
  names left of the side with more of them, in the order of bytes. -/
  split : ∃ pairs lone, handed = pairs ++ lone ∧
    pairs.length = min left.length right.length ∧
    (∀ p ∈ pairs, p.isComplete = true) ∧
    (∀ p ∈ lone, p.loneSide = some (longerSide left right)) ∧
    lone.Pairwise fun p q => p.name.bytewise q.name = .lt
  /-- A name of both sides is handed on with itself. -/
  exact : ∀ x, x ∈ left → x ∈ right → ⟨some x, some x⟩ ∈ handed

/-- The names of two lists by groups, in the order of their keys. -/
structure IsGroupedJoin (key : Keying) (left right : List Name) (handed : List Pairing) :
    Prop where
  /-- Keys ascend. -/
  ascending : handed.Pairwise fun p q => key.matching p.name q.name ≠ .gt
  /-- Names that are handed on together are of one group. -/
  together : ∀ p ∈ handed, ∀ x y, p.left = some x → p.right = some y → key x = key y
  /-- Each group is handed on as one. -/
  group : ∀ k : SortKey, IsGroup (left.filter (key · = k)) (right.filter (key · = k))
    (handed.filter (key ·.name = k))

namespace Pairing

variable {handed : List Pairing} {p : Pairing}

theorem length_lefts_of_complete (h : ∀ p ∈ handed, p.isComplete = true) :
    (lefts handed).length = handed.length ∧ (rights handed).length = handed.length := by
  induction handed with
  | nil => exact ⟨rfl, rfl⟩
  | cons p handed ih =>
    obtain ⟨hl, hr⟩ := ih fun q hq => h q (List.mem_cons_of_mem _ hq)
    have hp := h p (List.mem_cons_self ..)
    rw [lefts_cons, rights_cons, List.length_append, List.length_append, hl, hr]
    rcases p with ⟨_ | x, _ | y⟩
    · simp [isComplete] at hp
    · simp [isComplete] at hp
    · simp [isComplete] at hp
    · exact ⟨Nat.add_comm .., Nat.add_comm ..⟩

theorem length_lefts_of_lone {side : Side} (h : ∀ p ∈ handed, p.loneSide = some side) :
    (lefts handed).length = (if side = .left then handed.length else 0) ∧
      (rights handed).length = (if side = .left then 0 else handed.length) := by
  induction handed with
  | nil => cases side <;> exact ⟨rfl, rfl⟩
  | cons p handed ih =>
    obtain ⟨hl, hr⟩ := ih fun q hq => h q (List.mem_cons_of_mem _ hq)
    have hp := h p (List.mem_cons_self ..)
    rw [lefts_cons, rights_cons, List.length_append, List.length_append, hl, hr]
    rcases p with ⟨_ | x, _ | y⟩
    · simp [loneSide] at hp
    · obtain rfl : side = .right := by simpa [loneSide] using hp.symm
      exact ⟨rfl, by simp [Nat.add_comm]⟩
    · obtain rfl : side = .left := by simpa [loneSide] using hp.symm
      exact ⟨by simp [Nat.add_comm], rfl⟩
    · simp [loneSide] at hp

/-- Pairs and then lone names of one side: there are as many pairs as the
shorter side has names, and the lone ones are of the longer side. -/
theorem length_of_split {left right : List Name} {pairs lone : List Pairing} {side : Side}
    (hpairs : ∀ p ∈ pairs, p.isComplete = true) (hlone : ∀ p ∈ lone, p.loneSide = some side)
    (hl : (lefts (pairs ++ lone)).length = left.length)
    (hr : (rights (pairs ++ lone)).length = right.length) :
    pairs.length = min left.length right.length ∧
      ∀ p ∈ lone, p.loneSide = some (longerSide left right) := by
  obtain ⟨hpl, hpr⟩ := length_lefts_of_complete hpairs
  obtain ⟨hll, hlr⟩ := length_lefts_of_lone hlone
  rw [lefts_append, List.length_append, hpl, hll] at hl
  rw [rights_append, List.length_append, hpr, hlr] at hr
  refine ⟨?_, fun p hp => ?_⟩
  · cases side with
    | left => simp only [if_true] at hl hr; omega
    | right => simp only [if_false, reduceCtorEq] at hl hr; omega
  · have hpos := List.length_pos_of_mem hp
    rw [hlone p hp, longerSide]
    cases side with
    | left =>
      simp only [if_true] at hl hr
      rw [if_neg (by omega)]
    | right =>
      simp only [if_false, reduceCtorEq] at hl hr
      rw [if_pos (by omega)]

/-- Pairings in which none but lone names of one side follow a lone name
are pairs of two names and then those. -/
theorem exists_split (hne : ∀ p ∈ handed, p ≠ ⟨none, none⟩)
    (h : handed.Pairwise fun p q => p.isComplete = false →
      q.loneSide = p.loneSide ∧ p.name.bytewise q.name = .lt) :
    ∃ pairs lone side, handed = pairs ++ lone ∧ (∀ p ∈ pairs, p.isComplete = true) ∧
      (∀ p ∈ lone, p.loneSide = some side) ∧
      lone.Pairwise fun p q => p.name.bytewise q.name = .lt := by
  induction handed with
  | nil => exact ⟨[], [], .left, rfl, by simp, by simp, List.Pairwise.nil⟩
  | cons p handed ih =>
    obtain ⟨hp, hrest⟩ := List.pairwise_cons.1 h
    -- pairs go by until a lone name comes, and what follows that is lone as well
    by_cases hc : p.isComplete = true
    · obtain ⟨pairs, lone, side, he, hpairs, hlone, hsorted⟩ :=
        ih (fun q hq => hne q (List.mem_cons_of_mem _ hq)) hrest
      refine ⟨p :: pairs, lone, side, by rw [he, List.cons_append], ?_, hlone, hsorted⟩
      intro q hq
      rcases List.mem_cons.1 hq with rfl | hq
      · exact hc
      · exact hpairs q hq
    · have hc : p.isComplete = false := by simpa using hc
      obtain ⟨side, hside⟩ : ∃ side, p.loneSide = some side := by
        have := hne p (List.mem_cons_self ..)
        rcases p with ⟨_ | x, _ | y⟩
        · exact absurd rfl this
        · exact ⟨.right, rfl⟩
        · exact ⟨.left, rfl⟩
        · simp [isComplete] at hc
      have hall : ∀ q ∈ handed, q.loneSide = some side := fun q hq => (hp q hq hc).1.trans hside
      have hopen : ∀ q ∈ handed, q.isComplete = false := by
        intro q hq
        have := hall q hq
        rcases q with ⟨_ | x, _ | y⟩
        · rfl
        · rfl
        · rfl
        · simp [loneSide] at this
      refine ⟨[], p :: handed, side, rfl, by simp, ?_, ?_⟩
      · intro q hq
        rcases List.mem_cons.1 hq with rfl | hq
        · exact hside
        · exact hall q hq
      · refine List.Pairwise.cons (fun q hq => (hp q hq hc).2) ?_
        exact hrest.imp_of_mem fun hq _ hqr => (hqr (hopen _ hq)).2

end Pairing

namespace Keying

variable {key : Keying} {left right : List Name} {handed : List Pairing}

/-- The names of one group among those handed on are those handed on in
the pairings of the group. -/
theorem filterMap_group {f : Pairing → Option Name} {k : SortKey}
    (h : ∀ p ∈ handed, ∀ x, f p = some x → key p.name = key x) :
    (handed.filter (key ·.name = k)).filterMap f = (handed.filterMap f).filter (key · = k) := by
  induction handed with
  | nil => rfl
  | cons p handed ih =>
    have ih := ih fun q hq => h q (List.mem_cons_of_mem _ hq)
    have hp := h p (List.mem_cons_self ..)
    cases hf : f p with
    | none =>
      rw [List.filterMap_cons_none hf, ← ih, List.filter_cons]
      split
      · rw [List.filterMap_cons_none hf]
      · rfl
    | some x =>
      rw [List.filterMap_cons_some hf, List.filter_cons, List.filter_cons, ← ih, hp x hf]
      split
      · rw [List.filterMap_cons_some hf]
      · rfl

/-- The names of a group are handed on in the pairings of the group. -/
theorem Joins.perm_group (h : key.Joins left right handed) (k : SortKey) :
    (Pairing.lefts (handed.filter (key ·.name = k))).Perm (left.filter (key · = k)) ∧
      (Pairing.rights (handed.filter (key ·.name = k))).Perm (right.filter (key · = k)) := by
  constructor
  · rw [Pairing.lefts, filterMap_group fun p hp x hx => by simp [Pairing.name, hx]]
    exact h.perm.1.filter _
  · rw [Pairing.rights, filterMap_group]
    · exact h.perm.2.filter _
    · intro p hp y hy
      cases hx : p.left with
      | none => simp [Pairing.name, hx, hy]
      | some x =>
        rw [← matching_eq.1 (h.matched hp hx hy)]
        simp [Pairing.name, hx]

/-- **A join hands on each group as one.** -/
theorem Joins.isGroup (h : key.Joins left right handed) (hl : key.Sorted left)
    (hr : key.Sorted right) (k : SortKey) :
    IsGroup (left.filter (key · = k)) (right.filter (key · = k))
      (handed.filter (key ·.name = k)) := by
  obtain ⟨hlefts, hrights⟩ := h.perm_group k
  refine ⟨hlefts, hrights, ?_, fun x hxl hxr => ?_⟩
  · have hne : ∀ p ∈ handed.filter (key ·.name = k), p ≠ ⟨none, none⟩ :=
      fun p hp => h.ne_none p (List.mem_of_mem_filter hp)
    obtain ⟨pairs, lone, side, he, hpairs, hlone, hsorted⟩ := Pairing.exists_split hne
      (((h.lone hl hr).filter _).imp_of_mem fun {p q} hp hq hpq hc => hpq hc (by
        rw [matching_eq, of_decide_eq_true (List.mem_filter.1 hp).2,
          of_decide_eq_true (List.mem_filter.1 hq).2]))
    have hleft := hlefts.length_eq
    have hright := hrights.length_eq
    rw [he] at hleft hright
    obtain ⟨hlen, hside⟩ := Pairing.length_of_split hpairs hlone hleft hright
    exact ⟨pairs, lone, he, hlen, hpairs, hside, hsorted⟩
  · have hx := (List.mem_filter.1 hxl).2
    exact List.mem_filter.2 ⟨h.exact (List.mem_of_mem_filter hxl) (List.mem_of_mem_filter hxr), hx⟩

/-- **The join of two sorted lists goes by groups.** -/
theorem Joins.isGroupedJoin (h : key.Joins left right handed) (hl : key.Sorted left)
    (hr : key.Sorted right) : IsGroupedJoin key left right handed where
  ascending := (h.ascending hl hr).imp_of_mem fun hp hq hpq =>
    hpq _ _ (Pairing.mentions_name (h.ne_none _ hp)) (Pairing.mentions_name (h.ne_none _ hq))
  together _ hp _ _ hx hy := matching_eq.1 (h.matched hp hx hy)
  group := h.isGroup hl hr

end Keying

/-- What is said of two lists by groups does not depend on their order. -/
theorem IsGroupedJoin.congr {key : Keying} {left right left' right' : List Name}
    {handed : List Pairing} (h : IsGroupedJoin key left right handed) (hl : left.Perm left')
    (hr : right.Perm right') : IsGroupedJoin key left' right' handed := by
  refine ⟨h.ascending, h.together, fun k => ?_⟩
  obtain ⟨hlefts, hrights, hsplit, hexact⟩ := h.group k
  have hfl := hl.filter (key · = k)
  have hfr := hr.filter (key · = k)
  refine ⟨hlefts.trans hfl, hrights.trans hfr, ?_, fun x hx hy => ?_⟩
  · rwa [longerSide, hfl.length_eq, hfr.length_eq] at hsplit
  · exact hexact x (hfl.mem_iff.2 hx) (hfr.mem_iff.2 hy)

end TreeCompare
