import TreeCompare.Proofs.Ordering.Keying
/-!
# What the ordering of names answers

The operations of `NameOrdering` read and change the state of the run, and
a collator may fail on any call. While the keys it does give are those of
a keying (`Collator.KeyedBy`), every answer is that of a keying too: the
given one while the run is collated, the order of bytes otherwise
(`NameOrdering.keying`). `matchingOrder_eq` and `sort_eq` say so.

What an operation does to the state is said once, as a law: `StepLaw` is
what a relation between states has to satisfy for every operation to stay
within it.
-/

namespace TreeCompare

variable {σ α : Type} {order : NameOrdering σ} {key : Keying}

/-- Every key the collator gives is that of `key`. It may fail, on any
name and any call. -/
def Collator.KeyedBy (collator : Collator σ) (key : Keying) : Prop :=
  ∀ name memory k, (collator.key name true memory).1 = .ok k → k = key name

/-- The collator never fails, and gives the keys of `key`. -/
def Collator.Gives (collator : Collator σ) (key : Keying) : Prop :=
  ∀ name memory, (collator.key name true memory).1 = .ok (key name)

theorem Collator.Gives.keyedBy {collator : Collator σ} (h : collator.Gives key) :
    collator.KeyedBy key := by
  intro name memory k hk
  rw [h name memory] at hk
  cases hk
  rfl

/-- The collator that gives the keys of `key` and remembers nothing. -/
def Collator.ofKeying (key : Keying) : Collator σ := .ofKey fun name _ => .ok (key name)

theorem Collator.gives_ofKeying : (Collator.ofKeying key : Collator σ).Gives key :=
  fun _ _ => rfl

/-- The collator that gives the keys of `key`, but fails on its call number
`call`. -/
def Collator.failingOnCall (key : Keying) (call : Nat) : Collator Nat where
  key name _ calls :=
    (if calls = call then .error (.unavailable "no rules") else .ok (key name), calls + 1)

theorem Collator.keyedBy_failingOnCall (key : Keying) (call : Nat) :
    (Collator.failingOnCall key call).KeyedBy key := by
  intro name calls k h
  simp only [failingOnCall] at h
  split at h
  · cases h
  · cases h
    rfl

/-- Names are ordered as before, or by bytes from now on. -/
def RunState.Onward (s t : RunState σ) : Prop := t.basis = s.basis ∨ t.basis = .bytewise

/-- Names ordered by bytes stay so. -/
theorem RunState.Onward.bytewise {s t : RunState σ} (h : s.Onward t) (hs : s.basis = .bytewise) :
    t.basis = .bytewise := h.elim (fun h => h.trans hs) id

/-- What is collated behind a step was collated before it. -/
theorem RunState.Onward.collated {s t : RunState σ} (h : s.Onward t) (ht : t.basis = .collated) :
    s.basis = .collated := by
  rcases h with h | h
  · rw [← h, ht]
  · rw [h] at ht
    cases ht

/-- What is the same behind two steps was the same between them. -/
theorem RunState.Onward.between {s t u : RunState σ} (h : s.Onward t) (h' : t.Onward u)
    (hu : u.basis = s.basis) : t.basis = s.basis := by
  rcases h with h | h
  · exact h
  · rw [h, ← hu, h'.bytewise h]

namespace NameOrdering

/-- The keying that answers on a basis, where the collator does not fail. -/
def keying (order : NameOrdering σ) (key : Keying) (basis : Basis) : Keying :=
  if order.ignoreCase && basis == .collated then key else .bytes

theorem keying_bytewise : order.keying key .bytewise = .bytes := by simp [keying]

theorem keying_of_usesKeys {s : RunState σ} (h : order.usesKeys s = true) :
    order.keying key s.basis = key := if_pos h

theorem keying_of_not_usesKeys {s : RunState σ} (h : ¬ order.usesKeys s = true) :
    order.keying key s.basis = .bytes := if_neg h

theorem usesKeys_iff {s : RunState σ} :
    order.usesKeys s = true ↔ order.ignoreCase = true ∧ s.basis = .collated := by
  simp [usesKeys]

/-! ## Laws of a step -/

/-- What a relation between the states of a run has to satisfy for every
operation on names to stay within it. Keys are asked for while the run is
collated only, and a failure is answered by the drop that reports it. -/
structure StepLaw (order : NameOrdering σ) (R : RunState σ → RunState σ → Prop) : Prop where
  refl : ∀ s, R s s
  trans : ∀ {s t u}, R s t → R t u → R s u
  ask : ∀ {s} name, order.usesKeys s = true → R s (order.key name s).2
  drop : ∀ {s t name e} first other, order.usesKeys s = true →
    order.key name s = (.error e, t) → R t (t.dropToBytes first other e)
  note : ∀ n s, n.diagnostic? = none → R s (s.note n)

@[simp] theorem basis_key (name : Name) (s : RunState σ) : (order.key name s).2.basis = s.basis :=
  rfl

@[simp] theorem usesKeys_key (name : Name) (s : RunState σ) :
    order.usesKeys (order.key name s).2 = order.usesKeys s := rfl

namespace StepLaw

variable {R : RunState σ → RunState σ → Prop}

theorem compareKeys (h : order.StepLaw R) (a b : Name) (s : RunState σ) :
    R s (order.compareKeys a b s).2 := by
  unfold NameOrdering.compareKeys
  by_cases hu : order.usesKeys s = true
  · rw [if_pos hu]
    have ha := h.ask a hu
    split
    · next e t heq =>
      rw [heq] at ha
      exact h.trans ha (h.drop _ _ hu heq)
    · next ka t heq =>
      have hut : order.usesKeys t = true := by rw [← hu, ← usesKeys_key a s, heq]
      rw [heq] at ha
      have hb := h.ask b hut
      split
      · next e u heq' =>
        rw [heq'] at hb
        exact h.trans ha (h.trans hb (h.drop _ _ hut heq'))
      · next kb u heq' =>
        rw [heq'] at hb
        exact h.trans ha hb
  · rw [if_neg hu]
    exact h.refl s

theorem matchingOrder (h : order.StepLaw R) (a b : Name) (s : RunState σ) :
    R s (order.matchingOrder a b s).2 := by
  have hc := h.compareKeys a b s
  unfold NameOrdering.matchingOrder
  split <;> next heq => simpa only [heq] using hc

/-- Asking for keys one after the other, and the drop if one is missing. -/
theorem keysOf (h : order.StepLaw R) (names : List Name) {s : RunState σ}
    (hu : order.usesKeys s = true) :
    R s (order.keysOf names s).2 ∧ (order.keysOf names s).2.basis = s.basis ∧
      ∀ name e, (order.keysOf names s).1 = .error (name, e) →
        R (order.keysOf names s).2 ((order.keysOf names s).2.dropToBytes name none e) := by
  induction names generalizing s with
  | nil => exact ⟨h.refl s, rfl, by simp [NameOrdering.keysOf]⟩
  | cons name names ih =>
    have ha := h.ask name hu
    unfold NameOrdering.keysOf
    split
    · next e t heq =>
      rw [heq] at ha
      refine ⟨ha, by rw [← basis_key name s, heq], fun name' e' hn => ?_⟩
      cases hn
      exact h.drop _ _ hu heq
    · next k t heq =>
      have hut : order.usesKeys t = true := by rw [← hu, ← usesKeys_key name s, heq]
      have hbt : t.basis = s.basis := by rw [← basis_key name s, heq]
      rw [heq] at ha
      obtain ⟨hr, hb, hd⟩ := ih hut
      split
      · next e u heq' =>
        rw [heq'] at hr hb hd
        exact ⟨h.trans ha hr, hb.trans hbt, hd⟩
      · next ks u heq' =>
        rw [heq'] at hr hb
        exact ⟨h.trans ha hr, hb.trans hbt, by simp⟩

theorem sort (h : order.StepLaw R) (nameOf : α → Name) (items : List α) (s : RunState σ) :
    R s (order.sort nameOf items s).2 := by
  unfold NameOrdering.sort
  by_cases hu : order.usesKeys s = true
  · rw [if_pos hu]
    obtain ⟨hr, -, hd⟩ := h.keysOf (items.map nameOf) hu
    split
    · next heq => rwa [heq] at hr
    · next heq =>
      rw [heq] at hr hd
      exact h.trans hr (hd _ _ rfl)
  · rw [if_neg hu]
    exact h.refl s

end StepLaw

/-- **The order is given up at most once**: no operation of a run
enables collation again. -/
theorem stepLaw_onward (order : NameOrdering σ) : order.StepLaw RunState.Onward where
  refl _ := Or.inl rfl
  trans := by
    rintro s t u (h | h) (h' | h')
    · exact Or.inl (h'.trans h)
    · exact Or.inr h'
    · exact Or.inr (h'.trans h)
    · exact Or.inr h'
  ask _ _ := Or.inl rfl
  drop _ _ _ _ := Or.inr rfl
  note _ _ _ := Or.inl rfl

/-- A collator that never fails never gives a failure. -/
theorem key_ne_error (h : order.collator.Gives key) {s t : RunState σ} {name : Name}
    {e : KeyError} (hu : order.usesKeys s = true) : order.key name s ≠ (.error e, t) := by
  intro he
  have hg := h name s.memory
  rw [← (usesKeys_iff.1 hu).1] at hg
  simp only [NameOrdering.key, Prod.mk.injEq, hg] at he
  exact absurd he.1 (by simp)

/-- A collator that never fails leaves the order alone. -/
theorem stepLaw_basis (h : order.collator.Gives key) :
    order.StepLaw fun s t => t.basis = s.basis where
  refl _ := rfl
  trans h h' := h'.trans h
  ask _ _ := rfl
  drop _ _ hu he := absurd he (key_ne_error h hu)
  note _ _ _ := rfl

/-- With a collator that never fails, a run that is collated stays so. -/
theorem stepLaw_collated (h : order.collator.Gives key) :
    order.StepLaw fun s t => s.basis = .collated → t.basis = .collated where
  refl _ := id
  trans h h' := fun hs => h' (h hs)
  ask _ _ := id
  drop _ _ hu he := absurd he (key_ne_error h hu)
  note _ _ _ := id

/-! ## The answers -/

/-- Names that are not being collated are compared by their bytes. -/
theorem matchingOrder_of_not_usesKeys {s : RunState σ} (h : ¬ order.usesKeys s = true)
    (a b : Name) : order.matchingOrder a b s = (a.bytewise b, s) := by
  simp only [matchingOrder, compareKeys, if_neg h]

theorem not_usesKeys_of_caseSensitive (h : order.ignoreCase = false) (s : RunState σ) :
    ¬ order.usesKeys s = true := by
  simp [usesKeys, h]

theorem not_usesKeys_of_bytewise {s : RunState σ} (h : s.basis = .bytewise) :
    ¬ order.usesKeys s = true := by
  simp [usesKeys, h]

/-- A key that is given is the keying's. -/
theorem key_eq (hk : order.collator.KeyedBy key) {s t : RunState σ} {name : Name} {k : SortKey}
    (hu : order.usesKeys s = true) (h : order.key name s = (.ok k, t)) : k = key name := by
  refine hk name s.memory k ?_
  rw [← (usesKeys_iff.1 hu).1]
  exact congrArg Prod.fst h

/-- **A comparison that does not fail is the keying's.** -/
theorem matchingOrder_eq (hk : order.collator.KeyedBy key) {a b : Name} {s : RunState σ}
    (hs : (order.matchingOrder a b s).2.basis = s.basis) :
    (order.matchingOrder a b s).1 = (order.keying key s.basis).matching a b := by
  by_cases hu : order.usesKeys s = true
  · have hsb := (usesKeys_iff.1 hu).2
    -- the state after a failure is not the one the comparison began with
    have hdrop : ∀ (t : RunState σ) e, (t.dropToBytes a (some b) e).basis ≠ s.basis := by
      intro t e
      rw [hsb]
      exact Basis.noConfusion
    rw [keying_of_usesKeys hu]
    simp only [matchingOrder, compareKeys, if_pos hu] at hs ⊢
    rcases ha : order.key a s with ⟨_ | ka, t⟩
    · simp only [ha] at hs
      exact absurd hs (hdrop t _)
    · have hut : order.usesKeys t = true := by rw [← hu, ← usesKeys_key a s, ha]
      simp only [ha] at hs ⊢
      rcases hb : order.key b t with ⟨_ | kb, u⟩
      · simp only [hb] at hs
        exact absurd hs (hdrop u _)
      · simp only [Keying.matching, key_eq hk hu ha, key_eq hk hut hb]
  · rw [keying_of_not_usesKeys hu, matchingOrder_of_not_usesKeys hu, Keying.matching_bytes]

/-- A name matches itself, whatever the collator answers. -/
theorem matchingOrder_self (hk : order.collator.KeyedBy key) (a : Name) (s : RunState σ) :
    (order.matchingOrder a a s).1 = .eq := by
  by_cases hu : order.usesKeys s = true
  · simp only [matchingOrder, compareKeys, if_pos hu]
    rcases hfirst : order.key a s with ⟨_ | k, u⟩
    · exact Name.bytewise_self a
    have huu : order.usesKeys u = true := by rw [← hu, ← usesKeys_key a s, hfirst]
    simp only
    rcases hsecond : order.key a u with ⟨_ | k', v⟩
    · exact Name.bytewise_self a
    · simp only [key_eq hk hu hfirst, key_eq hk huu hsecond]
      exact Keying.matching_self
  · rw [matchingOrder_of_not_usesKeys hu, Name.bytewise_self]

/-- The keys asked for in one go are the keying's. -/
theorem keysOf_eq (hk : order.collator.KeyedBy key) {names : List Name} {s t : RunState σ}
    {keys : List SortKey} (hu : order.usesKeys s = true)
    (h : order.keysOf names s = (.ok keys, t)) : keys = names.map key := by
  induction names generalizing s keys with
  | nil =>
    simp only [keysOf, Prod.mk.injEq, Except.ok.injEq] at h
    exact h.1.symm
  | cons name names ih =>
    simp only [keysOf] at h
    rcases hn : order.key name s with ⟨_ | k, u⟩
    · simp [hn] at h
    · have hut : order.usesKeys u = true := by rw [← hu, ← usesKeys_key name s, hn]
      simp only [hn] at h
      rcases hr : order.keysOf names u with ⟨_ | ks, v⟩
      · simp [hr] at h
      · simp only [hr, Prod.mk.injEq, Except.ok.injEq] at h
        rw [h.2] at hr
        rw [← h.1, ih hut hr, key_eq hk hu hn, List.map_cons]

/-- Sorting items paired with their keys is sorting the items. -/
theorem sortKeyed_map (nameOf : α → Name) (items : List α) :
    sortKeyed nameOf (items.map fun item => (key (nameOf item), item)) =
      StableSort.sort (fun a b => (key.sorting (nameOf a) (nameOf b)).isLE) items := by
  rw [sortKeyed, StableSort.sort_eq_mergeSort, StableSort.sort_eq_mergeSort,
    ← List.map_mergeSort (r := fun a b => (key.sorting (nameOf a) (nameOf b)).isLE),
    List.map_map]
  · exact List.map_id _
  · intro a _ b _
    rfl

/-- **A sort is the keying's**, that of the basis it leaves behind: if a
key is missing, the items are sorted by bytes as they came. -/
theorem sort_eq (hk : order.collator.KeyedBy key) (nameOf : α → Name) (items : List α)
    (s : RunState σ) :
    (order.sort nameOf items s).1 =
      StableSort.sort (fun a b => ((order.keying key (order.sort nameOf items s).2.basis).sorting
        (nameOf a) (nameOf b)).isLE) items := by
  have hbytes : ∀ t : RunState σ, t.basis = .bytewise ∨ ¬ order.usesKeys t = true →
      sortBytewise nameOf items = StableSort.sort (fun a b =>
        ((order.keying key t.basis).sorting (nameOf a) (nameOf b)).isLE) items := by
    rintro t (ht | ht)
    · simp only [ht, keying_bytewise, Keying.sorting_bytes, sortBytewise]
    · simp only [keying_of_not_usesKeys ht, Keying.sorting_bytes, sortBytewise]
  unfold sort
  by_cases hu : order.usesKeys s = true
  · rw [if_pos hu]
    have hb := (order.stepLaw_onward.keysOf (items.map nameOf) hu).2.1
    split
    · next keys t heq =>
      rw [heq] at hb
      have hzip : keys.zip items = items.map fun item => (key (nameOf item), item) := by
        rw [keysOf_eq hk hu heq, List.map_map]
        exact List.map_prod_right_eq_zip.symm
      change t.basis = s.basis at hb
      rw [hzip, sortKeyed_map, hb, keying_of_usesKeys hu]
    · exact hbytes _ (Or.inl rfl)
  · rw [if_neg hu]
    exact hbytes s (Or.inr hu)

/-- **Names come out of a sort ascending**, by the keying that answers on the
basis it leaves behind. -/
theorem ascending_of_keyedBy (hk : order.collator.KeyedBy key) (names : List Name)
    (s : RunState σ) :
    (order.keying key (order.sort id names s).2.basis).Ascending (order.sort id names s).1 := by
  rw [Keying.Ascending, sort_eq hk]
  exact StableSort.pairwise_sort (Keying.sorting _) id names

/-- Names without repetitions come out of a sort strictly ascending. -/
theorem sorted_sort (hk : order.collator.KeyedBy key) {names : List Name} (hd : names.Nodup)
    (s : RunState σ) :
    (order.keying key (order.sort id names s).2.basis).Sorted (order.sort id names s).1 :=
  Keying.sorted_of_isLE (ascending_of_keyedBy hk names s)
    ((order.sort_perm id names s).nodup_iff.2 hd)

/-- Names that are not being collated are sorted by their bytes. -/
theorem sort_of_not_usesKeys {names : List Name} (hd : names.Nodup) {s : RunState σ}
    (hu : ¬ order.usesKeys s = true) :
    Keying.bytes.Sorted (order.sort id names s).1 ∧ (order.sort id names s).2 = s := by
  simp only [sort, if_neg hu, and_true]
  exact Keying.sorted_sortBytewise hd

/-- **Sorting items sorts their names.** -/
theorem map_sort (order : NameOrdering σ) (nameOf : α → Name) (items : List α) (s : RunState σ) :
    (order.sort nameOf items s).1.map nameOf = (order.sort id (items.map nameOf) s).1 ∧
      (order.sort nameOf items s).2 = (order.sort id (items.map nameOf) s).2 := by
  have hbytes : (sortBytewise nameOf items).map nameOf = sortBytewise id (items.map nameOf) := by
    rw [sortBytewise, sortBytewise, StableSort.sort_eq_mergeSort, StableSort.sort_eq_mergeSort]
    exact List.map_mergeSort fun _ _ _ _ => rfl
  have hkeyed : ∀ keys : List SortKey, (sortKeyed nameOf (keys.zip items)).map nameOf =
      sortKeyed id (keys.zip (items.map nameOf)) := by
    intro keys
    rw [sortKeyed, sortKeyed, StableSort.sort_eq_mergeSort, StableSort.sort_eq_mergeSort,
      List.zip_map_right, List.map_map,
      ← List.map_mergeSort (r := fun a b : SortKey × α =>
        ((a.1.order b.1).then ((nameOf a.2).bytewise (nameOf b.2))).isLE), List.map_map]
    · rfl
    · intro a _ b _
      rfl
  unfold sort
  rw [List.map_id]
  split
  · split
    · exact ⟨hkeyed _, rfl⟩
    · exact ⟨hbytes, rfl⟩
  · exact ⟨hbytes, rfl⟩

end NameOrdering

end TreeCompare
