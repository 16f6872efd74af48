import TreeCompare.Proofs.Operations.Laws
import TreeCompare.Proofs.Operations.StartFilter
import TreeCompare.Proofs.Ordering.Stable
/-!
# Reading where keys are given by the names alone

Where keys are given by the names alone, what a directory is read as does not
depend on what the run has come to (`Comparison.listing`, `namesIn_eq_listing`).
A start name takes away the names that are ordered before it, and does so as if
they were taken away from the sorted names (`listing_start`), which fall in two
at the start name (`before_append_from`).
-/

namespace TreeCompare

variable {σ : Type}

/-- The name is not ordered before the start name, if there is one. -/
def Keying.isFrom (k : Keying) (start : Option Name) (name : Name) : Bool :=
  start.all fun start => k.matching name start != .lt

namespace Keying

variable {k : Keying} {start : Name} {names : List Name}

theorem isFrom_some {name : Name} :
    k.isFrom (some start) name = true ↔ k.matching name start ≠ .lt := by
  simp [isFrom]

/-- Behind a name that is not ordered before the start name there is none that
is. -/
theorem isFrom_of_sorting {a b : Name} (hab : (k.sorting a b).isLE)
    (ha : k.isFrom (some start) a = true) : k.isFrom (some start) b = true := by
  rw [isFrom_some] at ha ⊢
  intro hb
  exact ha (Std.TransCmp.lt_of_isLE_of_lt (NameOrdering.matching_isLE_of_sorting hab) hb)

/-- Names that are ordered before the start name come before those that are
not. -/
theorem matching_lt_of_isFrom {a b : Name} (ha : k.isFrom (some start) a = false)
    (hb : k.isFrom (some start) b = true) : k.matching a b = .lt := by
  rw [← Bool.not_eq_true, isFrom_some, not_not] at ha
  have hle : (k.matching start b).isLE := by
    have hswap : k.matching start b = (k.matching b start).swap := Std.OrientedCmp.eq_swap
    rw [hswap, Ordering.isLE_swap, ← Ordering.ne_lt_iff_isGE]
    exact isFrom_some.1 hb
  exact Std.TransCmp.lt_of_lt_of_isLE ha hle

/-- **Ascending names fall in two** at a start name. -/
theorem before_append_from (h : k.Ascending names) :
    names.filter (fun x => !k.isFrom (some start) x) ++ names.filter (k.isFrom (some start)) =
      names := by
  induction names with
  | nil => rfl
  | cons a names ih =>
    cases ha : k.isFrom (some start) a with
    | false =>
      rw [List.filter_cons_of_pos (by simp [ha]), List.filter_cons_of_neg (by simp [ha]),
        List.cons_append, ih h.tail]
    | true =>
      -- all that follow are from the start name on
      have hall : ∀ b ∈ a :: names, k.isFrom (some start) b = true := fun b hb => by
        rcases List.mem_cons.1 hb with rfl | hb
        · exact ha
        · exact isFrom_of_sorting (List.rel_of_pairwise_cons h hb) ha
      rw [List.filter_eq_nil_iff.2 fun b hb => by simp [hall b hb], List.nil_append,
        List.filter_eq_self.2 hall]

/-- Names are ordered the same way whether some are taken away before or
after. -/
theorem filter_sort (k : Keying) (p : Name → Bool) (names : List Name) :
    StableSort.sort (fun a b => (k.sorting a b).isLE) (names.filter p) =
      (StableSort.sort (fun a b => (k.sorting a b).isLE) names).filter p := by
  have hsorted : ∀ names : List Name,
      k.Ascending (StableSort.sort (fun a b => (k.sorting a b).isLE) names) := fun names =>
    StableSort.pairwise_sort k.sorting id names
  refine Ascending.eq_of_perm (hsorted _) ((hsorted names).sublist List.filter_sublist) ?_
  exact (StableSort.sort_perm _ _).trans ((StableSort.sort_perm _ _).filter p).symm

end Keying

namespace Comparison

variable {c : Comparison σ} {fs : FileSystem} {key : Keying} {basis : Basis} {s : RunState σ}
  {start : Option Name}

/-- The comparison with another start name, or with none. -/
def startingAt (c : Comparison σ) (start : Option Name) : Comparison σ :=
  { c with options := { c.options with startingFile := start } }

@[simp] theorem order_startingAt (c : Comparison σ) (start : Option Name) :
    (c.startingAt start).order = c.order := rfl

/-- What an operand is read as by a keying, with the operand afterwards. -/
def listing (c : Comparison σ) (fs : FileSystem) (k : Keying) (start : Option Name)
    (operand : Operand) : Except DirectoryError (List Name) × Operand :=
  if operand.isNonexistent then (.ok [], operand)
  else match c.openDirectory fs operand with
    | .error e => (.error e, operand)
    | .ok (entries, operand) =>
      match entries.failure with
      | some e => (.error (.read operand.path e), operand)
      | none =>
        let kept := entries.names.filter fun x => k.isFrom start x && !c.excluded x
        (.ok (StableSort.sort (fun a b => (k.sorting a b).isLE) kept), operand)

/-- The names that are kept of an enumeration. -/
theorem kept_of_keyed (h : c.order.Keyed key) (hs : s.basis = basis) (start : Option Name)
    (names : List Name) :
    (c.kept start false names s).1 =
        names.filter (fun x => (c.order.keying key basis).isFrom start x && !c.excluded x) ∧
      (c.kept start false names s).2.basis = basis := by
  induction names generalizing s with
  | nil => exact ⟨rfl, hs⟩
  | cons name names ih =>
    have hpasses : (c.isFromStart start false name s).1 =
          (c.order.keying key basis).isFrom start name ∧
        (c.isFromStart start false name s).2.basis = basis := by
      cases start with
      | none => exact ⟨rfl, hs⟩
      | some start =>
        have hpass : ∀ o : Ordering, passes false o = (o != .lt) := by decide
        rw [isFromStart_some, h.matchingOrder, (h.stepLaw.matchingOrder name start s).1, hs, hpass]
        exact ⟨rfl, rfl⟩
    obtain ⟨hrest, hb⟩ := ih hpasses.2
    simp only [kept, hpasses.1, hrest, hb, List.filter_cons, and_true]

/-- **What is read does not depend on the run**: an operand is read as its
listing, in a table that says it is sorted on the basis of the run. -/
theorem namesIn_eq_listing (h : c.order.Keyed key) (hs : s.basis = basis) (fs : FileSystem)
    (start : Option Name) (operand : Operand) :
    let answer := c.namesIn fs operand start false s
    let listed := c.listing fs (c.order.keying key basis) start operand
    answer.1.map NameTable.names = listed.1 ∧ answer.2.1 = listed.2 ∧
      (∀ table, answer.1 = .ok table → table.sortedBy = some basis) ∧
      answer.2.2.basis = basis ∧ answer.2.2.diagnostics = s.diagnostics := by
  intro answer listed
  obtain ⟨hbasis, hdiagnostics⟩ := namesIn_law h.stepLaw fs operand start false s
  refine and_assoc.1 (and_assoc.1 ⟨?_, hbasis.trans hs, hdiagnostics⟩)
  simp only [answer, listed, namesIn, listing]
  cases operand.isNonexistent with
  | true =>
    refine ⟨⟨rfl, rfl⟩, fun table ht => ?_⟩
    cases ht
    rw [hs]
  | false =>
    cases c.openDirectory fs operand with
    | error e =>
      refine ⟨⟨rfl, rfl⟩, fun table ht => ?_⟩
      cases ht
    | ok opened =>
      obtain ⟨entries, operand'⟩ := opened
      obtain ⟨hkept, hb⟩ := kept_of_keyed h hs start entries.names
      simp only [Bool.false_eq_true, if_false]
      cases entries.failure with
      | some e =>
        refine ⟨⟨rfl, rfl⟩, fun table ht => ?_⟩
        cases ht
      | none =>
        refine ⟨⟨?_, rfl⟩, fun table ht => ?_⟩
        · simp only [Except.map, NameTable.names_sortTail, List.take_zero, List.nil_append,
            NameTable.names_ofList, List.drop_zero, h.sort, hkept, hb]
          rfl
        · cases ht
          rw [NameTable.sortedBy_sortTail, (h.stepLaw.sort ..).1, hb]

/-- **A start name** takes away the names that are ordered before it. -/
theorem listing_start (c : Comparison σ) (fs : FileSystem) (k : Keying) (start : Option Name)
    (operand : Operand) :
    c.listing fs k start operand =
      ((c.listing fs k none operand).1.map (·.filter (k.isFrom start)),
        (c.listing fs k none operand).2) := by
  simp only [listing]
  cases operand.isNonexistent with
  | true => rfl
  | false =>
    cases c.openDirectory fs operand with
    | error e => rfl
    | ok opened =>
      obtain ⟨entries, operand'⟩ := opened
      simp only [Bool.false_eq_true, if_false]
      cases entries.failure with
      | some e => rfl
      | none =>
        simp only [Except.map, ← Keying.filter_sort, List.filter_filter]
        rfl

/-- Names are listed ascending. -/
theorem ascending_listing {k : Keying} {operand : Operand} {names : List Name}
    (h : (c.listing fs k start operand).1 = .ok names) : k.Ascending names := by
  unfold listing at h
  split at h
  · cases h
    exact List.Pairwise.nil
  · split at h
    · cases h
    · simp only at h
      split at h
      · cases h
      · cases h
        exact StableSort.pairwise_sort k.sorting id _

end Comparison

end TreeCompare
