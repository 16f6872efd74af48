import TreeCompare.Proofs.Ordering.Stable
import TreeCompare.Proofs.Pairing.Alignment
/-!
# What putting an exact match in place does to two tables

Where two heads match, one of them gives way to an exact match for the other
(`Comparison.favourExact`). Whatever the collator answers, that leaves what is in
front of the two positions alone and permutes the rest (`Stays`). On tails that
ascend no exact match is missed, one table at most is touched, and the one name
that is moved (`Fetched`) leaves the others in their order: so the tails can be
paired on (`favourExact_minimal`).
-/

namespace TreeCompare

variable {σ : Type} {key : Keying} {t t' : NameTable} {i : Nat} {exact : Name}

/-- What stands before a position is untouched, and what stands from it on is
permuted. -/
structure NameTable.Stays (t t' : NameTable) (i : Nat) : Prop where
  before : t'.names.take i = t.names.take i
  behind : (t'.names.drop i).Perm (t.names.drop i)

theorem NameTable.Stays.refl (t : NameTable) (i : Nat) : t.Stays t i := ⟨rfl, List.Perm.refl _⟩

/-- A table before and after an exact match was looked for from a position on: if
there is one it comes to the position, and the other names keep their order. -/
inductive NameTable.Fetched (t : NameTable) (i : Nat) (exact : Name) : NameTable → Prop where
  | absent (h : exact ∉ t.names.drop i) : Fetched t i exact t
  | moved {t' : NameTable} (h : exact ∈ t.names.drop i)
      (hd : t'.names.drop i = exact :: (t.names.drop i).erase exact) : Fetched t i exact t'

namespace NameTable.Fetched

theorem get? (h : t.Fetched i exact t') (hmem : exact ∈ t.names.drop i) :
    t'.get? i = some exact := by
  cases h with
  | absent habsent => exact absurd hmem habsent
  | moved _ hd => rw [Comparison.get?_eq_head?, hd, List.head?_cons]

theorem eq_self (h : t.Fetched i exact t') (hnot : exact ∉ t.names.drop i) : t' = t := by
  cases h with
  | absent _ => rfl
  | moved hmem _ => exact absurd hmem hnot

/-- What is left behind the position is in the order it was in. -/
theorem sublist (h : t.Fetched i exact t') : (t'.names.drop (i + 1)).Sublist (t.names.drop i) := by
  rw [← List.drop_drop]
  cases h with
  | absent _ => exact List.drop_sublist ..
  | moved _ hd =>
    rw [hd, List.drop_succ_cons, List.drop_zero]
    exact List.erase_sublist

end NameTable.Fetched

namespace Comparison

variable {c : Comparison σ} {left right : NameTable} {j : Nat} {a b : Name} {as bs : List Name}
  {s : RunState σ}

/-! ## Whatever the collator answers -/

theorem stays_fetchExact (ht : t.names.drop i = a :: as) (exact : Name) (s : RunState σ) :
    t.Stays (c.fetchExact t i exact s).1 i where
  before := by
    have hi : i ≤ t.names.length := by
      have := congrArg List.length ht
      simp only [List.length_drop, List.length_cons] at this
      omega
    unfold fetchExact
    split
    · rw [NameTable.names_bringForward, List.append_assoc, List.append_assoc,
        List.take_left' (List.length_take_of_le hi)]
    · rfl
  behind := by
    rw [(fetchExact_eq ht exact).1, ht]
    exact perm_fetchTail exact a as s

/-- **Nothing is lost and nothing before the heads is touched**, whatever the
collator answers. -/
theorem stays_favourExact (ha : left.names.drop i = a :: as) (hb : right.names.drop j = b :: bs)
    (s : RunState σ) :
    left.Stays (c.favourExact left i a right j b s).1 i ∧
      right.Stays (c.favourExact left i a right j b s).2.1 j := by
  unfold favourExact
  cases a.bytewise b with
  | eq => exact ⟨.refl left i, .refl right j⟩
  | lt => exact ⟨stays_fetchExact ha b s, .refl right j⟩
  | gt => exact ⟨.refl left i, stays_fetchExact hb a s⟩

/-! ## On tails that ascend -/

/-- A search that finds nothing leaves the table as it is. -/
theorem fetchExact_eq_self (h : exact ∉ t.names.drop (i + 1)) (s : RunState σ) :
    (c.fetchExact t i exact s).1 = t := by
  unfold fetchExact
  split
  · next place _ heq =>
    exact absurd (List.mem_of_getElem? (getElem?_of_searchExact (congrArg Prod.fst heq))) h
  · rfl

/-- What is fetched for a name that matches the head of a tail that ascends, and
is not the head itself. -/
theorem fetched_fetchExact (hg : c.order.collator.Gives key)
    (hkey : c.order.keying key s.basis = key) (ht : t.names.drop i = a :: as)
    (hs : key.Sorted (a :: as)) (hm : key.matching exact a = .eq) (hne : a ≠ exact) :
    t.Fetched i exact (c.fetchExact t i exact s).1 := by
  have hbasis : (c.fetchTail exact a as s).2.basis = s.basis := by
    rw [run_fetchTail]
    exact searchExact_law (NameOrdering.stepLaw_basis hg) exact as s
  have hfetch := fetchTail_eq hg.keyedBy (hkey.symm ▸ hs.tail)
    (hkey.symm ▸ not_lt_of_head hm hs) hbasis
  have hmem : exact ∈ t.names.drop i ↔ exact ∈ as := by
    rw [ht, List.mem_cons, or_iff_right hne.symm]
  by_cases h : exact ∈ as
  · refine .moved (hmem.2 h) ?_
    rw [(fetchExact_eq ht exact).1, hfetch, if_pos h, ht, List.erase_cons_tail (by simpa using hne)]
  · have hdrop : t.names.drop (i + 1) = as := by
      rw [← List.drop_drop, ht]
      rfl
    rw [fetchExact_eq_self (hdrop ▸ h) s]
    exact .absent (mt hmem.1 h)

/-- Of two different heads that match one gives way at most, and the name that
is looked for is then not on the other side of it. -/
theorem fetched_favourExact (hg : c.order.collator.Gives key)
    (hkey : c.order.keying key s.basis = key) (hl : left.names.drop i = a :: as)
    (hr : right.names.drop j = b :: bs) (hsl : key.Sorted (a :: as)) (hsr : key.Sorted (b :: bs))
    (hm : key.matching a b = .eq) (hne : a ≠ b) :
    let favoured := c.favourExact left i a right j b s
    a ∉ right.names.drop j ∧ favoured.2.1 = right ∧ left.Fetched i b favoured.1 ∨
      b ∉ left.names.drop i ∧ favoured.1 = left ∧ right.Fetched j a favoured.2.1 := by
  have hm' : key.matching b a = .eq := Std.OrientedCmp.eq_symm hm
  simp only [favourExact, hl, hr, List.mem_cons, not_or]
  cases hbytes : a.bytewise b with
  | eq => exact absurd (Name.bytewise_eq_eq.1 hbytes) hne
  | lt =>
    exact Or.inl ⟨⟨hne, not_mem_of_head hm hbytes hsr⟩, rfl,
      fetched_fetchExact hg hkey hl hsl hm' hne⟩
  | gt =>
    exact Or.inr ⟨⟨hne.symm, not_mem_of_head hm' (Std.OrientedCmp.gt_iff_lt.1 hbytes) hsl⟩, rfl,
      fetched_fetchExact hg hkey hr hsr hm hne.symm⟩

/-- Two heads that are the same stay where they are. -/
theorem favourExact_self (left : NameTable) (i : Nat) (a : Name) (right : NameTable) (j : Nat)
    (s : RunState σ) : c.favourExact left i a right j a s = (left, right, s) := by
  simp only [favourExact, Name.bytewise_self]

/-- The names ascend strictly in the order that sorts one side, as the run
answers now. -/
def Ascends (c : Comparison σ) (names : List Name) (s : RunState σ) : Prop :=
  names.Pairwise fun a b => (c.order.sortingOrder a b s).1 = .lt

theorem ascends_iff (h : c.order.Keyed key) {names : List Name} :
    c.Ascends names s ↔ (c.order.keying key s.basis).Sorted names := by
  simp only [Ascends, Keying.Sorted, h.sortingOrder]

/-- **An exact match is put in place, and the tails can be paired on.** Whatever
the collator answers, nothing before the two heads is touched and nothing is lost
from them on. Where keys are given by the names alone, the tails ascend and the
heads match, the heads are the same afterwards if one of them stood on the other
side as well, and otherwise nothing is changed; one table at most is changed, by
moving one name to the front; and behind the heads the tails ascend as before. -/
theorem favourExact_minimal (c : Comparison σ) (ha : left.get? i = some a)
    (hb : right.get? j = some b) (s : RunState σ) :
    let favoured := c.favourExact left i a right j b s
    (left.Stays favoured.1 i ∧ right.Stays favoured.2.1 j) ∧
    ∀ key, c.collator.Gives key → c.options.ignoreCase = true → s.basis = .collated →
      c.Ascends (left.names.drop i) s → c.Ascends (right.names.drop j) s →
      (c.order.matchingOrder a b s).1 = .eq →
      (b ∈ left.names.drop i ∨ a ∈ right.names.drop j →
        ∃ x, favoured.1.get? i = some x ∧ favoured.2.1.get? j = some x) ∧
      (b ∉ left.names.drop i → a ∉ right.names.drop j →
        favoured.1 = left ∧ favoured.2.1 = right) ∧
      (favoured.2.1 = right ∧ left.Fetched i b favoured.1 ∨
        favoured.1 = left ∧ right.Fetched j a favoured.2.1) ∧
      c.Ascends (favoured.1.names.drop (i + 1)) favoured.2.2 ∧
      c.Ascends (favoured.2.1.names.drop (j + 1)) favoured.2.2 := by
  obtain ⟨as, hl⟩ := List.head?_eq_some_iff.1 (get?_eq_head? left i ▸ ha)
  obtain ⟨bs, hr⟩ := List.head?_eq_some_iff.1 (get?_eq_head? right j ▸ hb)
  refine ⟨stays_favourExact hl hr s, fun key hg hcase hs hsl hsr hm => ?_⟩
  have hkeyed : c.order.Keyed key := fun _ => hg
  have hkey : c.order.keying key s.basis = key :=
    NameOrdering.keying_of_usesKeys (NameOrdering.usesKeys_iff.2 ⟨hcase, hs⟩)
  have hbasis : (c.favourExact left i a right j b s).2.2.basis = s.basis := by
    rw [(favourExact_eq hl hr).2.2]
    exact favourTails_law hkeyed.stepLaw_basis a as b bs s
  simp only [ascends_iff hkeyed, hbasis, hkey] at hsl hsr ⊢
  rw [hkeyed.matchingOrder, hkey] at hm
  -- what is behind the heads was behind or at them before
  have hrest : ∀ {t t' : NameTable} {n : Nat} {x : Name}, key.Sorted (t.names.drop n) →
      t.Fetched n x t' → key.Sorted (t'.names.drop (n + 1)) :=
    fun hsorted h => hsorted.sublist h.sublist
  have hself : ∀ {t : NameTable} {n : Nat}, key.Sorted (t.names.drop n) →
      key.Sorted (t.names.drop (n + 1)) := by
    intro t n hsorted
    rw [← List.drop_drop]
    exact hsorted.sublist (List.drop_sublist ..)
  by_cases hne : a = b
  · subst hne
    rw [favourExact_self]
    refine ⟨fun _ => ⟨a, ha, hb⟩, fun _ _ => ⟨rfl, rfl⟩, Or.inl ⟨rfl, .moved ?_ ?_⟩, hself hsl,
      hself hsr⟩
    · exact hl ▸ List.mem_cons_self ..
    · rw [hl, List.erase_cons_head]
  rcases fetched_favourExact hg hkey hl hr (hl ▸ hsl) (hr ▸ hsr) hm hne with
    ⟨hnot, hright, hf⟩ | ⟨hnot, hleft, hf⟩
  · refine ⟨fun h => ⟨b, hf.get? (h.resolve_right hnot), ?_⟩, fun h _ => ⟨hf.eq_self h, hright⟩,
      Or.inl ⟨hright, hf⟩, hrest hsl hf, ?_⟩
    · rw [hright, hb]
    · rw [hright]
      exact hself hsr
  · refine ⟨fun h => ⟨a, ?_, hf.get? (h.resolve_left hnot)⟩, fun _ h => ⟨hleft, hf.eq_self h⟩,
      Or.inr ⟨hleft, hf⟩, ?_, hrest hsr hf⟩
    · rw [hleft, ha]
    · rw [hleft]
      exact hself hsl

/-- A head that gives way to the second of the spellings behind it. -/
theorem favourExact_minimal_spellings :
    let c : Comparison Unit := ⟨{ ignoreCase := true }, .ofKeying .foldAscii, fun _ => false⟩
    let left := NameTable.ofList (["a", "NOTES", "NOtes", "Notes", "notes"].map Name.ofString)
    let right := NameTable.ofList (["Notes", "z"].map Name.ofString)
    let favoured := c.favourExact left 1 (.ofString "NOTES") right 0 (.ofString "Notes") (.start ())
    favoured.1.names = ["a", "Notes", "NOTES", "NOtes", "notes"].map Name.ofString ∧
      (∃ x, favoured.1.get? 1 = some x ∧ favoured.2.1.get? 0 = some x) ∧
      c.Ascends (favoured.1.names.drop 2) favoured.2.2 := by
  intro c left right favoured
  have ha : left.get? 1 = some (.ofString "NOTES") := by decide +kernel
  have hb : right.get? 0 = some (.ofString "Notes") := by decide +kernel
  obtain ⟨-, hminimal⟩ := favourExact_minimal c ha hb (.start ())
  have hleft : c.Ascends (left.names.drop 1) (.start ()) := by
    unfold Ascends
    decide +kernel
  have hright : c.Ascends (right.names.drop 0) (.start ()) := by
    unfold Ascends
    decide +kernel
  obtain ⟨hheads, -, -, hl, -⟩ := hminimal .foldAscii Collator.gives_ofKeying rfl rfl hleft hright
    (by decide +kernel)
  exact ⟨by decide +kernel, hheads (Or.inl (by decide +kernel)), hl⟩

end Comparison

end TreeCompare
