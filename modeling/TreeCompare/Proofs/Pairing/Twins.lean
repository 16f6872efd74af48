import TreeCompare.Proofs.Operations.Reading
import TreeCompare.Proofs.Pairing.Visits
/-!
# Two tables of the same names

When one directory is read twice, collation may fail between the two reads or
within either of them, and the tables may come out in different orders. Once
the pairing has sorted both on the basis of the run they are the same
(`names_sortBoth`), and an alignment of a list of names with itself pairs the
head with itself, even where the order is given up meanwhile
(`alignTails_self`). So every name is handed on with itself
(`isTwin_of_visits`).
-/

namespace TreeCompare

variable {σ α : Type} {key : Keying}

/-- The names of the table ascend, with repetitions where there are any, on
the basis that the table says it was sorted on. -/
def NameTable.AscendsBy (order : NameOrdering σ) (key : Keying) (t : NameTable) : Prop :=
  ∀ basis, t.sortedBy = some basis → (order.keying key basis).Ascending t.names

/-- A table just sorted ascends. -/
theorem NameTable.ascendsBy_sortTail {order : NameOrdering σ}
    (hk : order.collator.KeyedBy key) (t : NameTable) (s : RunState σ) :
    (t.sortTail 0 order s).1.AscendsBy order key := by
  intro basis hb
  rw [sortedBy_sortTail] at hb
  cases hb
  rw [names_sortTail, List.take_zero, List.nil_append, List.drop_zero]
  exact NameOrdering.ascending_of_keyedBy hk t.names s

/-- The pairing is of a name with itself. -/
def Pairing.IsTwin (p : Pairing) : Prop := ∃ name, p = ⟨some name, some name⟩

namespace Comparison

variable {c : Comparison σ} {left right : NameTable} {s s' : RunState σ}

/-! ## Before the first visit -/

theorem ascendsBy_ensureSorted (hk : c.order.collator.KeyedBy key) {t : NameTable}
    (ht : t.AscendsBy c.order key) (s : RunState σ) :
    (c.ensureSorted t s).1.AscendsBy c.order key := by
  unfold ensureSorted
  split
  · exact ht
  · exact t.ascendsBy_sortTail hk s

/-- **Two tables of the same names are the same** when the first pairing is
made. -/
theorem names_sortBoth (hk : c.order.collator.KeyedBy key)
    (hp : left.names.Perm right.names) (hl : left.AscendsBy c.order key)
    (hr : right.AscendsBy c.order key) (s : RunState σ) :
    (c.sortBoth left right s).1.names = (c.sortBoth left right s).2.1.names := by
  obtain ⟨hbyl, hbyr⟩ := c.sortedBy_sortBoth left right s
  obtain ⟨hpl, hpr⟩ := c.perm_sortBoth left right s
  have hfirst := ascendsBy_ensureSorted hk hl s
  have hleft := ascendsBy_ensureSorted hk hfirst (c.ensureSorted right (c.ensureSorted left s).2).2
  have hright := ascendsBy_ensureSorted hk hr (c.ensureSorted left s).2
  exact (hleft _ hbyl).eq_of_perm (hright _ hbyr) (hpl.trans (hp.trans hpr.symm))

/-- One directory that is read twice gives two tables of the same names, if
there is no start name. -/
theorem twins_of_namesIn {fs : FileSystem} (hk : c.order.collator.KeyedBy key)
    {operand operand' opened opened' : Operand} (hpath : operand'.path = operand.path)
    (hexists : operand.isNonexistent = false) (hexists' : operand'.isNonexistent = false)
    {u u' : RunState σ}
    (hl : c.namesIn fs operand none false s = (.ok left, opened, u))
    (hr : c.namesIn fs operand' none false s' = (.ok right, opened', u')) :
    left.names.Perm right.names ∧ left.AscendsBy c.order key ∧ right.AscendsBy c.order key := by
  cases reads_of_namesIn hl with
  | nothing hn => rw [hexists] at hn; cases hn
  | @directory entries _ _ _ henum _ =>
    cases reads_of_namesIn hr with
    | nothing hn => rw [hexists'] at hn; cases hn
    | @directory entries' _ _ _ henum' _ =>
      obtain rfl : entries = entries' := by
        rw [hpath, henum] at henum'
        exact Except.ok.inj henum'
      have hpl := c.perm_keptTable none false entries.names s
      have hpr := c.perm_keptTable none false entries.names s'
      rw [kept_none] at hpl hpr
      exact ⟨hpl.trans hpr.symm, NameTable.ascendsBy_sortTail hk _ _,
        NameTable.ascendsBy_sortTail hk _ _⟩

/-! ## Visits -/

theorem compareHeads_self (hk : c.order.collator.KeyedBy key) (a : Name) (as : List Name)
    (s : RunState σ) :
    (c.compareHeads a as a as s).toFacing = ⟨.eq, a :: as, a :: as⟩ := by
  have ho := NameOrdering.matchingOrder_self hk a s
  simp only [compareHeads, ho, favourTails, Name.bytewise_self]
  split <;> rfl

/-- **An alignment of names with themselves pairs the head with itself**, and
leaves the same names on both sides, even where the order is given up. -/
theorem alignTails_self (hk : c.order.collator.KeyedBy key) {names : List Name}
    (hne : names ≠ []) (s : RunState σ) :
    (c.alignTails names names s).pairing.IsTwin ∧
      (c.alignTails names names s).restLeft = (c.alignTails names names s).restRight := by
  -- what faces itself, and whose heads are found equal, is all that matters
  suffices h : ∃ a as, (c.alignTails names names s).toFacing = ⟨.eq, a :: as, a :: as⟩ by
    obtain ⟨a, as, h⟩ := h
    rw [h]
    exact ⟨⟨a, rfl⟩, rfl⟩
  obtain ⟨a, as, rfl⟩ := List.exists_cons_of_ne_nil hne
  have hheads := compareHeads_self hk a as s
  have honward := compareHeads_law c.order.stepLaw_onward a as a as s
  simp only [alignTails]
  split
  · exact ⟨a, as, hheads⟩
  · next hgiven =>
    generalize c.compareHeads a as a as s = t at hheads honward hgiven
    have hbytes : (t.run.note .resorted).basis = .bytewise := honward.resolve_left hgiven
    have hu : ¬ c.order.usesKeys (t.run.note .resorted) = true :=
      NameOrdering.not_usesKeys_of_bytewise hbytes
    have hl : t.left = a :: as := congrArg Facing.left hheads
    have hr : t.right = a :: as := congrArg Facing.right hheads
    simp only [hl, hr, NameOrdering.sort, if_neg hu]
    have hperm : (NameOrdering.sortBytewise id (a :: as)).Perm (a :: as) :=
      StableSort.sort_perm _ _
    obtain ⟨b, bs, hb⟩ : ∃ b bs, NameOrdering.sortBytewise id (a :: as) = b :: bs :=
      List.exists_cons_of_ne_nil fun hnil => by simp [hnil] at hperm
    exact ⟨b, bs, by simp only [hb, List.head?_cons, Option.getD_some, Name.bytewise_self]⟩

/-- Every name is handed on with itself where two lists of names are the
same. -/
theorem isTwin_of_visitsOn (hk : c.order.collator.KeyedBy key) {visitor : Visitor σ α}
    {left right : List Name} (he : left = right) {result : α} {v : Visit σ α}
    (hv : v ∈ c.visitsOn visitor left right s result) : v.pairing.IsTwin := by
  induction left, right, s, result using visitsOn.induct c visitor with
  | case1 left right s result hne tails step ih =>
    subst he
    obtain ⟨htwin, hrest⟩ := alignTails_self hk (or_self_iff.1 hne) s
    rw [visitsOn_cons hne] at hv
    rcases List.mem_cons.1 hv with rfl | hv
    · exact htwin
    · exact ih hrest hv
  | case2 left right s result hne =>
    have hnil : left = [] ∧ right = [] := by simpa using hne
    rw [hnil.1, hnil.2, visitsOn_nil] at hv
    cases hv

/-- **Every name is handed on with itself** where two tables are of the same
names, whatever the visitor does to the run. -/
theorem isTwin_of_visits (hk : c.order.collator.KeyedBy key) {visitor : Visitor σ α}
    (hp : left.names.Perm right.names) (hl : left.AscendsBy c.order key)
    (hr : right.AscendsBy c.order key) {result : α} {v : Visit σ α}
    (hv : v ∈ c.visits visitor left right s result) : v.pairing.IsTwin := by
  rw [visits_eq_visitsOn] at hv
  exact isTwin_of_visitsOn hk (names_sortBoth hk hp hl hr s) hv

end Comparison

end TreeCompare
