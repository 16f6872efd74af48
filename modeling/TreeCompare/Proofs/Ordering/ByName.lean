import TreeCompare.Proofs.Ordering.Answers
/-!
# Answers that depend on the names alone

A collator may give the key of a name, or fail on it, by the name alone
(`Collator.AnswersBy`). Then every operation is answered by the names and the
basis of the run, whatever has been asked before: names that all have keys
leave the basis alone, and others give the order up
(`NameOrdering.basisAfter`). An answer is that of the keying on the basis the
operation leaves behind, so that the order in which names are compared or come
to be sorted is of no account (`matchingOrder_swap`, `sort_perm_eq`).
-/

namespace TreeCompare

variable {σ : Type} {answer : Name → Except KeyError SortKey}

/-- The collator's answer to a name, a key or a failure, is that of
`answer`, whatever it has been asked before. -/
def Collator.AnswersBy (collator : Collator σ) (answer : Name → Except KeyError SortKey) : Prop :=
  ∀ name memory, (collator.key name true memory).1 = answer name

theorem Collator.answersBy_ofKey (key : Name → Bool → Except KeyError SortKey) :
    (Collator.ofKey key : Collator σ).AnswersBy fun name => key name true := fun _ _ => rfl

/-- The collator that gives the keys of `key`, but fails on one name. -/
def Collator.failingOnName (key : Keying) (failing : Name) : Collator σ :=
  .ofKey fun name _ => if name = failing then .error (.unavailable "no rules") else .ok (key name)

/-- How two names are ordered by their keys, if both have one. -/
def keyOrder (answer : Name → Except KeyError SortKey) (a b : Name) : Option Ordering :=
  match answer a, answer b with
  | .ok k, .ok k' => some (k.order k')
  | _, _ => none

/-- How two names are ordered by their keys, or by their bytes where a key
is missing. -/
def judged (answer : Name → Except KeyError SortKey) (a b : Name) : Ordering :=
  (keyOrder answer a b).getD (a.bytewise b)

/-- Both names have a key. -/
def comparable (answer : Name → Except KeyError SortKey) (a b : Name) : Bool :=
  (keyOrder answer a b).isSome

/-- The name has a key. -/
def hasKey (answer : Name → Except KeyError SortKey) (name : Name) : Bool := (answer name).isOk

theorem hasKey_iff {name : Name} : hasKey answer name = true ↔ ∃ k, answer name = .ok k := by
  unfold hasKey
  cases answer name <;> simp [Except.isOk, Except.toBool]

/-- The keying of the keys that are answered. Where there is none, any key
will do. -/
def Keying.ofAnswers (answer : Name → Except KeyError SortKey) : Keying := fun name =>
  match answer name with
  | .ok k => k
  | .error _ => ⟨[]⟩

theorem Collator.AnswersBy.keyedBy {collator : Collator σ} (ha : collator.AnswersBy answer) :
    collator.KeyedBy (.ofAnswers answer) := by
  intro name memory k hk
  rw [ha] at hk
  simp only [Keying.ofAnswers, hk]

/-- Two names with keys are ordered by those. -/
theorem keyOrder_eq (answer : Name → Except KeyError SortKey) (a b : Name) :
    keyOrder answer a b = if hasKey answer a && hasKey answer b
      then some ((Keying.ofAnswers answer).matching a b) else none := by
  unfold keyOrder hasKey Keying.matching Keying.ofAnswers
  cases answer a <;> cases answer b <;> rfl

theorem comparable_eq (answer : Name → Except KeyError SortKey) (a b : Name) :
    comparable answer a b = (hasKey answer a && hasKey answer b) := by
  rw [comparable, keyOrder_eq]
  split <;> next h => simp [h]

theorem exists_key_of_comparable {a b : Name} (h : comparable answer a b = true) :
    ∃ k, answer a = .ok k := by
  unfold comparable keyOrder at h
  split at h
  · next k _ hk _ => exact ⟨k, hk⟩
  · cases h

@[simp] theorem judged_self (answer : Name → Except KeyError SortKey) (a : Name) :
    judged answer a a = .eq := by
  rw [judged, keyOrder_eq]
  split
  · exact Keying.matching_self
  · exact Name.bytewise_self a

/-- Both names have a key, and it is the same. -/
def SameKey (answer : Name → Except KeyError SortKey) (a b : Name) : Prop :=
  ∃ k, answer a = .ok k ∧ answer b = .ok k

theorem sameKey_iff {a b : Name} :
    SameKey answer a b ↔ comparable answer a b = true ∧ judged answer a b = .eq := by
  unfold SameKey comparable judged keyOrder
  cases ha : answer a with
  | error e => simp
  | ok k =>
    cases hb : answer b with
    | error e => simp
    | ok k' =>
      have horder : k.order k' = .eq ↔ k' = k := by
        obtain ⟨bytes⟩ := k
        obtain ⟨bytes'⟩ := k'
        rw [SortKey.order, Std.compare_eq_iff_eq, SortKey.mk.injEq, eq_comm]
      simp [horder]

namespace NameOrdering

variable {order : NameOrdering σ} {s : RunState σ}

theorem key_of_answersBy (ha : order.collator.AnswersBy answer) (hu : order.usesKeys s = true)
    (name : Name) : (order.key name s).1 = answer name := by
  simp only [NameOrdering.key, (usesKeys_iff.1 hu).1]
  exact ha name s.memory

/-- A comparison is by keys where both names have one; where one has not,
it is by bytes, and so are those after it. -/
theorem matchingOrder_of_answersBy (ha : order.collator.AnswersBy answer)
    (hu : order.usesKeys s = true) (a b : Name) :
    (order.matchingOrder a b s).1 = judged answer a b ∧
      order.usesKeys (order.matchingOrder a b s).2 = comparable answer a b := by
  have hdrop : ∀ (u : RunState σ) e, order.usesKeys (u.dropToBytes a (some b) e) = false := by
    intro u e
    simp [usesKeys, RunState.dropToBytes, RunState.report, RunState.note]
  have hka := key_of_answersBy ha hu a
  simp only [matchingOrder, compareKeys, if_pos hu, judged, comparable, keyOrder]
  rcases hkey : order.key a s with ⟨e | k, u⟩
  · rw [hkey] at hka
    simp only [← hka]
    exact ⟨rfl, hdrop u e⟩
  · have hut : order.usesKeys u = true := by rw [← hu, ← usesKeys_key a s, hkey]
    have hkb := key_of_answersBy ha hut b
    rw [hkey] at hka
    simp only [← hka]
    rcases hkey' : order.key b u with ⟨e | k', v⟩
    · rw [hkey'] at hkb
      simp only [← hkb]
      exact ⟨rfl, hdrop v e⟩
    · rw [hkey'] at hkb
      simp only [← hkb]
      refine ⟨rfl, ?_⟩
      rw [Option.isSome_some, ← hut, ← usesKeys_key b u, hkey']

/-- Two names match: they are the same, or, where case is ignored, have the same
key. -/
def Matched (order : NameOrdering σ) (answer : Name → Except KeyError SortKey) (a b : Name) :
    Prop :=
  a = b ∨ order.ignoreCase = true ∧ SameKey answer a b

/-- Names that are found to match do, also when the order is given up over
them. -/
theorem matched_of_matchingOrder (ha : order.collator.AnswersBy answer) {a b : Name}
    (h : (order.matchingOrder a b s).1 = .eq) : order.Matched answer a b := by
  by_cases hu : order.usesKeys s = true
  · obtain ⟨hjudged, -⟩ := matchingOrder_of_answersBy ha hu a b
    rw [h] at hjudged
    cases hc : comparable answer a b with
    | true => exact Or.inr ⟨(usesKeys_iff.1 hu).1, sameKey_iff.2 ⟨hc, hjudged.symm⟩⟩
    | false =>
      -- a key is missing, and the bytes have decided
      have hnone : keyOrder answer a b = none := by simpa [comparable] using hc
      rw [judged, hnone] at hjudged
      exact Or.inl (Name.bytewise_eq_eq.1 hjudged.symm)
  · rw [matchingOrder_of_not_usesKeys hu] at h
    exact Or.inl (Name.bytewise_eq_eq.1 h)

/-! ## The basis that an operation leaves behind -/

/-- The basis after the keys of some names were asked for on a basis. -/
def basisAfter (order : NameOrdering σ) (answer : Name → Except KeyError SortKey)
    (names : List Name) (basis : Basis) : Basis :=
  if order.ignoreCase && !names.all (hasKey answer) then .bytewise else basis

variable {names names' : List Name} {basis : Basis}

theorem basisAfter_of_hasKey (h : ∀ name ∈ names, hasKey answer name = true) :
    order.basisAfter answer names basis = basis := by
  rw [basisAfter, List.all_eq_true.2 h, Bool.not_true, Bool.and_false, if_neg Bool.false_ne_true]

@[simp] theorem basisAfter_nil : order.basisAfter answer [] basis = basis :=
  basisAfter_of_hasKey fun _ h => absurd h List.not_mem_nil

/-- Names that are asked for one after the other are asked for together. -/
theorem basisAfter_append (names names' : List Name) (basis : Basis) :
    order.basisAfter answer (names ++ names') basis =
      order.basisAfter answer names' (order.basisAfter answer names basis) := by
  simp only [basisAfter, List.all_append]
  cases order.ignoreCase <;> cases names.all (hasKey answer) <;>
    cases names'.all (hasKey answer) <;> rfl

/-- In which order they are asked for is of no account. -/
theorem basisAfter_perm (h : names.Perm names') (basis : Basis) :
    order.basisAfter answer names basis = order.basisAfter answer names' basis := by
  rw [basisAfter, basisAfter, h.all_eq]

/-- What names have left behind once they leave alone, whatever was asked for
meanwhile. -/
theorem basisAfter_again (names between : List Name) (basis : Basis) :
    order.basisAfter answer names
        (order.basisAfter answer between (order.basisAfter answer names basis)) =
      order.basisAfter answer between (order.basisAfter answer names basis) := by
  simp only [basisAfter]
  cases order.ignoreCase <;> cases names.all (hasKey answer) <;>
    cases between.all (hasKey answer) <;> rfl

/-- Names that are not collated are not asked for. -/
theorem basisAfter_of_not_usesKeys (hu : ¬ order.usesKeys s = true) :
    order.basisAfter answer names s.basis = s.basis := by
  have hcases : order.ignoreCase = false ∨ s.basis = .bytewise := by
    by_contra h
    rw [not_or, Bool.not_eq_false] at h
    refine hu (usesKeys_iff.2 ⟨h.1, ?_⟩)
    cases hb : s.basis with
    | collated => rfl
    | bytewise => exact absurd hb h.2
  rcases hcases with h | h
  · rw [basisAfter, h, Bool.false_and, if_neg Bool.false_ne_true]
  · rw [basisAfter, h, ite_self]

theorem basisAfter_of_usesKeys (hu : order.usesKeys s = true) :
    order.basisAfter answer names s.basis =
      if names.all (hasKey answer) then .collated else .bytewise := by
  obtain ⟨hc, hb⟩ := usesKeys_iff.1 hu
  rw [basisAfter, hc, hb, Bool.true_and]
  cases names.all (hasKey answer) <;> rfl

/-! ## Two names -/

/-- **Two names are compared** by the keying on the basis that the
comparison leaves behind, which depends on the two names. -/
theorem matchingOrder_byName (ha : order.collator.AnswersBy answer) (a b : Name)
    (s : RunState σ) :
    (order.matchingOrder a b s).2.basis = order.basisAfter answer [a, b] s.basis ∧
      (order.matchingOrder a b s).1 =
        (order.keying (.ofAnswers answer)
          (order.basisAfter answer [a, b] s.basis)).matching a b := by
  by_cases hu : order.usesKeys s = true
  · obtain ⟨hc, -⟩ := usesKeys_iff.1 hu
    obtain ⟨ho, hafter⟩ := matchingOrder_of_answersBy ha hu a b
    have hall : [a, b].all (hasKey answer) = comparable answer a b := by
      rw [comparable_eq, List.all_cons, List.all_cons, List.all_nil, Bool.and_true]
    rw [basisAfter_of_usesKeys hu, hall, ho]
    rw [usesKeys, hc, Bool.true_and] at hafter
    generalize (order.matchingOrder a b s).2.basis = after at hafter
    cases hcomp : comparable answer a b with
    | true =>
      rw [hcomp] at hafter
      have hkey : keyOrder answer a b = some ((Keying.ofAnswers answer).matching a b) := by
        rw [keyOrder_eq, ← comparable_eq, hcomp, if_pos rfl]
      have hkeying : order.keying (.ofAnswers answer) .collated = .ofAnswers answer := by
        rw [keying, hc]
        rfl
      exact ⟨eq_of_beq hafter, by rw [judged, hkey, if_pos rfl, hkeying]; rfl⟩
    | false =>
      rw [hcomp] at hafter
      have hkey : keyOrder answer a b = none := by
        rw [keyOrder_eq, ← comparable_eq, hcomp, if_neg Bool.false_ne_true]
      refine ⟨?_, by rw [judged, hkey, if_neg Bool.false_ne_true, keying_bytewise]; rfl⟩
      cases after with
      | collated => cases hafter
      | bytewise => rfl
  · rw [matchingOrder_of_not_usesKeys hu, basisAfter_of_not_usesKeys hu]
    exact ⟨rfl, by rw [keying_of_not_usesKeys hu, Keying.matching_bytes]⟩

/-- **Compared the other way round**, two names are in the opposite order,
and the basis comes to the same. -/
theorem matchingOrder_swap (ha : order.collator.AnswersBy answer) (a b : Name)
    {s s' : RunState σ} (hs : s'.basis = s.basis) :
    (order.matchingOrder b a s').1 = (order.matchingOrder a b s).1.swap ∧
      (order.matchingOrder b a s').2.basis = (order.matchingOrder a b s).2.basis := by
  obtain ⟨hb, ho⟩ := matchingOrder_byName ha a b s
  obtain ⟨hb', ho'⟩ := matchingOrder_byName ha b a s'
  have hbasis : order.basisAfter answer [b, a] s'.basis =
      order.basisAfter answer [a, b] s.basis := by
    rw [hs, basisAfter_perm (List.Perm.swap a b [])]
  rw [hb, hb', ho, ho', hbasis]
  exact ⟨Std.OrientedCmp.eq_swap, rfl⟩

/-- The answer depends on the two names and the basis. -/
theorem matchingOrder_congr (ha : order.collator.AnswersBy answer) (a b : Name)
    {s s' : RunState σ} (hs : s'.basis = s.basis) :
    (order.matchingOrder a b s').1 = (order.matchingOrder a b s).1 ∧
      (order.matchingOrder a b s').2.basis = (order.matchingOrder a b s).2.basis := by
  obtain ⟨ho, hb⟩ := matchingOrder_swap ha b a (s := s) rfl
  obtain ⟨ho', hb'⟩ := matchingOrder_swap ha b a hs
  exact ⟨ho'.trans ho.symm, hb'.trans hb.symm⟩

/-! ## Sorting -/

/-- Keys are all given if all names have one. -/
theorem isOk_keysOf (ha : order.collator.AnswersBy answer) (names : List Name) {s : RunState σ}
    (hu : order.usesKeys s = true) :
    (order.keysOf names s).1.isOk = names.all (hasKey answer) := by
  induction names generalizing s with
  | nil => rfl
  | cons name names ih =>
    have hkey := key_of_answersBy ha hu name
    unfold keysOf
    rcases hn : order.key name s with ⟨e | k, u⟩
    · rw [hn] at hkey
      simp only [List.all_cons, hasKey, ← hkey]
      rfl
    · have hut : order.usesKeys u = true := by rw [← hu, ← usesKeys_key name s, hn]
      rw [hn] at hkey
      rw [List.all_cons, ← ih hut, hasKey, ← hkey]
      simp only
      rcases order.keysOf names u with ⟨e | ks, v⟩ <;> rfl

/-- **What a sort leaves behind** depends on the names. -/
theorem basis_sort (ha : order.collator.AnswersBy answer) (names : List Name) (s : RunState σ) :
    (order.sort id names s).2.basis = order.basisAfter answer names s.basis := by
  unfold sort
  by_cases hu : order.usesKeys s = true
  · have hok := isOk_keysOf ha names hu
    have hb := (order.stepLaw_onward.keysOf names hu).2.1
    rw [if_pos hu, List.map_id, basisAfter_of_usesKeys hu, ← hok]
    rcases hk : order.keysOf names s with ⟨⟨name, e⟩ | keys, u⟩
    · rfl
    · rw [hk] at hb
      exact hb.trans (usesKeys_iff.1 hu).2
  · rw [if_neg hu, basisAfter_of_not_usesKeys hu]

/-- Names that all have a key are sorted without a failure. -/
theorem usesKeys_sort (ha : order.collator.AnswersBy answer) {names : List Name}
    (hnames : order.usesKeys s = true → ∀ x ∈ names, ∃ k, answer x = .ok k) :
    order.usesKeys (order.sort id names s).2 = order.usesKeys s := by
  by_cases hu : order.usesKeys s = true
  · rw [usesKeys, basis_sort ha, basisAfter_of_hasKey fun x hx => hasKey_iff.2 (hnames hu x hx)]
    rfl
  · rw [sort, if_neg hu]

/-- Weakly ascending, with repetitions where there are any. -/
def Ascending (order : NameOrdering σ) (answer : Name → Except KeyError SortKey) (basis : Basis)
    (names : List Name) : Prop :=
  names.Pairwise fun a b => ((order.keying (.ofAnswers answer) basis).sorting a b).isLE

/-- Ascending names are determined by which they are. -/
theorem Ascending.eq_of_perm (h : order.Ascending answer basis names)
    (h' : order.Ascending answer basis names') (hp : names.Perm names') : names = names' :=
  Keying.Ascending.eq_of_perm h h' hp

theorem ascending_sort (ha : order.collator.AnswersBy answer) (names : List Name)
    (s : RunState σ) :
    order.Ascending answer (order.basisAfter answer names s.basis) (order.sort id names s).1 := by
  rw [Ascending, ← basis_sort ha]
  exact ascending_of_keyedBy ha.keyedBy names s

/-- **What a sort gives** depends on which names it is given. -/
theorem sort_perm_eq (order : NameOrdering σ) (ha : order.collator.AnswersBy answer)
    (hp : names.Perm names') {s s' : RunState σ} (hs : s'.basis = s.basis) :
    (order.sort id names' s').1 = (order.sort id names s).1 ∧
      (order.sort id names' s').2.basis = (order.sort id names s).2.basis := by
  have hbasis : order.basisAfter answer names' s'.basis =
      order.basisAfter answer names s.basis := by
    rw [hs, basisAfter_perm hp.symm]
  refine ⟨?_, by rw [basis_sort ha, basis_sort ha, hbasis]⟩
  have hperm := (order.sort_perm id names' s').trans
    (hp.symm.trans (order.sort_perm id names s).symm)
  exact (hbasis ▸ ascending_sort ha names' s').eq_of_perm (ascending_sort ha names s) hperm

end NameOrdering

end TreeCompare
