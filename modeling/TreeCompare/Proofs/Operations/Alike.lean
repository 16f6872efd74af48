import TreeCompare.Lookup
import TreeCompare.Proofs.Operations.StartFilter
import TreeCompare.Proofs.Pairing.Turned
/-!
# Directories that read alike

Without a start name, what is read of a directory are the names that are not
left out (`Comparison.listing?`). For a collator that answers by the names
alone, the order in which the directory yields them is of no account, nor is
which of two directories is read first: two file systems that read alike
(`Comparison.ReadsAlike`) lead to the same pairing of the same names, from
either side (`pairDirectories_turned`).
-/

namespace TreeCompare

variable {σ α β : Type} {answer : Name → Except KeyError SortKey}

/-- The pair as it is, or with its sides exchanged all the way up. -/
def DirectoryPair.turned (side : Side) (pair : DirectoryPair) : DirectoryPair :=
  match side with
  | .left => pair
  | .right => ⟨pair.right, pair.left, pair.ancestors.map Prod.swap⟩

namespace DirectoryPair

/-- Turning leaves the loops where they are. -/
theorem leadsBack_turned (side : Side) (pair : DirectoryPair) :
    ((pair.turned side).leadsBack .left && (pair.turned side).leadsBack .right) =
      (pair.leadsBack .left && pair.leadsBack .right) := by
  cases side with
  | left => rfl
  | right =>
    have hl : (pair.turned .right).leadsBack .left = pair.leadsBack .right := by
      simp only [leadsBack, isRepeated, ancestorsOn, turned, List.map_map]
      rfl
    have hr : (pair.turned .right).leadsBack .right = pair.leadsBack .left := by
      simp only [leadsBack, isRepeated, ancestorsOn, turned, List.map_map]
      rfl
    rw [hl, hr, Bool.and_comm]

theorem below_turned (side : Side) (pair : DirectoryPair) (left right : Operand) :
    (pair.turned side).below (side.place left right).1 (side.place left right).2 =
      (pair.below left right).turned side := by
  cases side <;> rfl

end DirectoryPair

/-- A table that says on what basis it was sorted is ascending on it, and its
names leave that basis alone. -/
def NameTable.Settled (order : NameOrdering σ) (answer : Name → Except KeyError SortKey)
    (t : NameTable) : Prop :=
  ∀ basis, t.sortedBy = some basis →
    order.Ascending answer basis t.names ∧ order.basisAfter answer t.names basis = basis

/-- A table just sorted is settled. -/
theorem NameTable.settled_sortTail {order : NameOrdering σ} (ha : order.collator.AnswersBy answer)
    (t : NameTable) (s : RunState σ) : (t.sortTail 0 order s).1.Settled order answer := by
  intro basis hb
  have hperm := t.perm_sortTail order s
  rw [NameTable.sortedBy_sortTail, List.drop_zero, NameOrdering.basis_sort ha] at hb
  obtain rfl := Option.some.inj hb
  rw [NameOrdering.basisAfter_perm hperm]
  have hsorted := NameOrdering.ascending_sort ha t.names s
  rw [NameTable.names_sortTail, List.take_zero, List.nil_append, List.drop_zero]
  exact ⟨hsorted, by simpa using NameOrdering.basisAfter_again t.names [] s.basis⟩

namespace Comparison

variable {c : Comparison σ} {fs fs' : FileSystem} {operand : Operand} {s s' : RunState σ}
  {left right left' right' : NameTable} {side : Side}

/-! ## Tables that are sorted -/

/-- Sorting a table settles it, and leaves behind what its names do. -/
theorem ensureSorted_byName (ha : c.collator.AnswersBy answer) {t : NameTable}
    (ht : t.Settled c.order answer) (s : RunState σ) :
    (c.ensureSorted t s).1.Settled c.order answer ∧
      (c.ensureSorted t s).2.basis = c.order.basisAfter answer t.names s.basis := by
  unfold ensureSorted
  split
  · next hsorted => exact ⟨ht, (ht _ hsorted).2.symm⟩
  · rw [NameTable.run_sortTail, List.drop_zero, NameOrdering.basis_sort ha]
    exact ⟨NameTable.settled_sortTail ha t s, rfl⟩

/-- **As a pairing begins**, both tables are ascending on a basis that
depends on their names. -/
theorem sortBoth_byName (ha : c.collator.AnswersBy answer) (hl : left.Settled c.order answer)
    (hr : right.Settled c.order answer) (s : RunState σ) :
    let begun := c.sortBoth left right s
    begun.2.2.basis = c.order.basisAfter answer (left.names ++ right.names) s.basis ∧
      c.order.Ascending answer begun.2.2.basis begun.1.names ∧
      c.order.Ascending answer begun.2.2.basis begun.2.1.names := by
  simp only [sortBoth]
  obtain ⟨hl₁, hb₁⟩ := ensureSorted_byName ha hl s
  have hp₁ := perm_ensureSorted (c := c) left s
  generalize c.ensureSorted left s = first at hl₁ hb₁ hp₁
  obtain ⟨hr₂, hb₂⟩ := ensureSorted_byName ha hr first.2
  have hs₂ := sortedBy_ensureSorted (c := c) right first.2
  generalize c.ensureSorted right first.2 = second at hr₂ hb₂ hs₂
  obtain ⟨hl₃, hb₃⟩ := ensureSorted_byName ha hl₁ second.2
  have hs₃ := sortedBy_ensureSorted (c := c) first.1 second.2
  generalize c.ensureSorted first.1 second.2 = third at hl₃ hb₃ hs₃
  -- what the left names leave behind they have left behind already
  have hkept : third.2.basis = second.2.basis := by
    rw [hb₃, hb₂, hb₁, NameOrdering.basisAfter_perm hp₁, NameOrdering.basisAfter_again]
  refine ⟨?_, (hl₃ _ hs₃).1, ?_⟩
  · rw [hkept, hb₂, hb₁, NameOrdering.basisAfter_append]
  · rw [hkept]
    exact (hr₂ _ hs₂).1

/-- **Which table is which, and how their names came in,** is of no account
to a pairing that begins. -/
theorem sortBoth_turned (ha : c.collator.AnswersBy answer) (hl : left.Settled c.order answer)
    (hr : right.Settled c.order answer) (hl' : left'.Settled c.order answer)
    (hr' : right'.Settled c.order answer)
    (hpl : left'.names.Perm (side.place left.names right.names).1)
    (hpr : right'.names.Perm (side.place left.names right.names).2) (hs : s'.basis = s.basis) :
    let begun := c.sortBoth left right s
    let begun' := c.sortBoth left' right' s'
    (begun'.1.names, begun'.2.1.names) = side.place begun.1.names begun.2.1.names ∧
      begun'.2.2.basis = begun.2.2.basis := by
  intro begun begun'
  obtain ⟨hb, hal, har⟩ := sortBoth_byName ha hl hr s
  obtain ⟨hb', hal', har'⟩ := sortBoth_byName ha hl' hr' s'
  obtain ⟨hbl, hbr⟩ := c.perm_sortBoth left right s
  obtain ⟨hbl', hbr'⟩ := c.perm_sortBoth left' right' s'
  have hall : (left'.names ++ right'.names).Perm (left.names ++ right.names) := by
    refine (hpl.append hpr).trans ?_
    cases side with
    | left => exact List.Perm.refl _
    | right => exact List.perm_append_comm
  have hbasis : begun'.2.2.basis = begun.2.2.basis := by
    rw [hb, hb', hs, NameOrdering.basisAfter_perm hall]
  rw [hbasis] at hal' har'
  refine ⟨?_, hbasis⟩
  cases side with
  | left =>
    have hleft := hal'.eq_of_perm hal (hbl'.trans (hpl.trans hbl.symm))
    have hright := har'.eq_of_perm har (hbr'.trans (hpr.trans hbr.symm))
    exact Prod.ext hleft hright
  | right =>
    have hleft := hal'.eq_of_perm har (hbl'.trans (hpl.trans hbr.symm))
    have hright := har'.eq_of_perm hal (hbr'.trans (hpr.trans hbl.symm))
    exact Prod.ext hleft hright

/-- So a pairing of two tables turns. -/
theorem pairTables_turned (ha : c.collator.AnswersBy answer) {R : α → β → Prop}
    {visitor : Visitor σ α} {visitor' : Visitor σ β}
    (hv : Visitor.Agrees c.order answer side R visitor visitor') (hl : left.Settled c.order answer)
    (hr : right.Settled c.order answer) (hl' : left'.Settled c.order answer)
    (hr' : right'.Settled c.order answer)
    (hpl : left'.names.Perm (side.place left.names right.names).1)
    (hpr : right'.names.Perm (side.place left.names right.names).2) (hs : s'.basis = s.basis)
    {result : α} {result' : β} (hresult : R result result') :
    (c.pairTables visitor left right s result).Agrees R
      (c.pairTables visitor' left' right' s' result') := by
  obtain ⟨hnames, hbasis⟩ := sortBoth_turned ha hl hr hl' hr' hpl hpr hs
  have h := visitsOn_turned ha hv (c.sortBoth left right s).1.names
    (c.sortBoth left right s).2.1.names .same hbasis hresult
  rw [← hnames] at h
  rw [pairTables_eq_of_visits, pairTables_eq_of_visits, visits_eq_visitsOn, visits_eq_visitsOn]
  exact h

/-! ## Reading -/

/-- The names that are kept of an enumeration, unless it fails. -/
def keptOf? (c : Comparison σ) : Except IoError Enumeration → Option (List Name)
  | .ok entries =>
    if entries.failure.isSome then none else some (entries.names.filter (!c.excluded ·))
  | .error _ => none

/-- The names that are kept of an operand's directory, unless it cannot be
read. -/
def listing? (c : Comparison σ) (fs : FileSystem) (operand : Operand) : Option (List Name) :=
  if operand.isNonexistent then some []
  else match fs.stat operand.path c.options.followLinks with
    | .ok stat => if stat.kind = .directory then c.keptOf? (fs.enumerate operand.path) else none
    | .error _ => none

/-- The operand after its directory has been read. -/
def openedAs (c : Comparison σ) (fs : FileSystem) (operand : Operand) : Operand :=
  if operand.isNonexistent then operand
  else match fs.stat operand.path c.options.followLinks with
    | .ok stat => { operand with opening := .opened, stat := some (operand.stat.getD stat) }
    | .error _ => operand

theorem path_openedAs (c : Comparison σ) (fs : FileSystem) (operand : Operand) :
    (c.openedAs fs operand).path = operand.path := by
  unfold openedAs
  split
  · rfl
  · split <;> rfl

/-- What reading an operand answers, and what it leaves behind, where these
names are to be read or none. -/
inductive Answered (c : Comparison σ) (answer : Name → Except KeyError SortKey) (fs : FileSystem)
    (operand : Operand) (s : RunState σ) :
    Option (List Name) → Except DirectoryError NameTable × Operand × RunState σ → Prop where
  | failed {e : DirectoryError} {operand' : Operand} : Answered c answer fs operand s none
      (.error e, operand', s)
  | read {names : List Name} {table : NameTable} {s' : RunState σ}
      (hp : table.names.Perm names) (ht : table.Settled c.order answer)
      (hs : s'.basis = c.order.basisAfter answer names s.basis) :
      Answered c answer fs operand s (some names) (.ok table, c.openedAs fs operand, s')

/-- The names that are kept, sorted. -/
theorem keptTable_byName (ha : c.collator.AnswersBy answer) (startOnly : Bool) (names : List Name)
    (s : RunState σ) :
    let kept := names.filter (!c.excluded ·)
    let table := c.keptTable none startOnly names s
    table.1.names.Perm kept ∧ table.1.Settled c.order answer ∧
      table.2.basis = c.order.basisAfter answer kept s.basis := by
  intro kept table
  have hp := c.perm_keptTable none startOnly names s
  rw [kept_none] at hp
  have hkept : table = (NameTable.ofList kept).sortTail 0 c.order s := by
    simp only [table, keptTable, kept_none, kept]
  have ht : table.1.Settled c.order answer := by
    rw [hkept]
    exact NameTable.settled_sortTail ha _ s
  refine ⟨hp, ht, ?_⟩
  rw [hkept, NameTable.run_sortTail, List.drop_zero, NameTable.names_ofList]
  exact NameOrdering.basis_sort ha kept s

/-- **What is read without a start name.** -/
theorem answered_namesIn (ha : c.collator.AnswersBy answer) (fs : FileSystem) (operand : Operand)
    (startOnly : Bool) (s : RunState σ) :
    c.Answered answer fs operand s (c.listing? fs operand)
      (c.namesIn fs operand none startOnly s) := by
  unfold namesIn listing? openDirectory
  cases hn : operand.isNonexistent with
  | true =>
    have hopened : c.openedAs fs operand = operand := by rw [openedAs, if_pos hn]
    have hsettled : NameTable.Settled c.order answer
        { NameTable.empty with sortedBy := some s.basis } :=
      fun _ _ => ⟨List.Pairwise.nil, NameOrdering.basisAfter_nil⟩
    have hread : c.Answered answer fs operand s (some [])
        (.ok { NameTable.empty with sortedBy := some s.basis }, c.openedAs fs operand, s) :=
      .read (List.Perm.refl []) hsettled NameOrdering.basisAfter_nil.symm
    rw [hopened] at hread
    exact hread
  | false =>
    cases hstat : fs.stat operand.path c.options.followLinks with
    | error e => exact .failed
    | ok stat =>
      have hopened : c.openedAs fs operand =
          { operand with opening := .opened, stat := some (operand.stat.getD stat) } := by
        rw [openedAs, hn, hstat]
        rfl
      simp only [Bool.false_eq_true, if_false]
      by_cases hk : stat.kind = .directory
      · simp only [hk, reduceCtorEq, if_true, if_false]
        cases fs.enumerate operand.path with
        | error e => exact .failed
        | ok entries =>
          obtain ⟨hp, ht, hb⟩ := keptTable_byName ha startOnly entries.names s
          simp only [keptTable, kept_none] at hp ht hb
          simp only [kept_none, keptOf?, ← hopened]
          cases entries.failure with
          | some e => exact .failed
          | none => exact .read hp ht hb
      · by_cases hl : stat.kind = .symlink
        · simp only [hl, if_true, reduceCtorEq, if_false]
          exact .failed
        · simp only [hk, hl, if_false]
          exact .failed

/-- Two file systems tell the same of all objects, files and links, and each
directory either cannot be enumerated in both, or yields the same names in
some order, those that are left out not counted. -/
structure ReadsAlike (c : Comparison σ) (fs fs' : FileSystem) : Prop where
  stat : ∀ path follow, fs'.stat path follow = fs.stat path follow
  openFile : ∀ path, fs'.openFile path = fs.openFile path
  readLink : ∀ path, fs'.readLink path = fs.readLink path
  enumerate : ∀ path, Option.Rel List.Perm (c.keptOf? (fs.enumerate path))
    (c.keptOf? (fs'.enumerate path))

namespace ReadsAlike

theorem refl (c : Comparison σ) (fs : FileSystem) : c.ReadsAlike fs fs := by
  refine ⟨fun _ _ => rfl, fun _ => rfl, fun _ => rfl, fun path => ?_⟩
  cases c.keptOf? (fs.enumerate path) with
  | none => exact .none
  | some names => exact .some (List.Perm.refl names)

theorem listing (h : c.ReadsAlike fs fs') (operand : Operand) :
    Option.Rel List.Perm (c.listing? fs operand) (c.listing? fs' operand) := by
  unfold listing?
  rw [h.stat]
  cases operand.isNonexistent with
  | true => exact .some (List.Perm.refl [])
  | false =>
    cases fs.stat operand.path c.options.followLinks with
    | error e => exact .none
    | ok stat =>
      simp only [Bool.false_eq_true, if_false]
      split
      · exact h.enumerate operand.path
      · exact .none

/-- From either side, one directory reads like its counterpart. -/
theorem listing_turned (h : c.ReadsAlike fs fs') (side : Side) (pair : DirectoryPair) :
    Option.Rel List.Perm
        (side.place (c.listing? fs pair.left) (c.listing? fs pair.right)).1
        (c.listing? fs' (pair.turned side).left) ∧
      Option.Rel List.Perm
        (side.place (c.listing? fs pair.left) (c.listing? fs pair.right)).2
        (c.listing? fs' (pair.turned side).right) := by
  cases side with
  | left => exact ⟨h.listing pair.left, h.listing pair.right⟩
  | right => exact ⟨h.listing pair.right, h.listing pair.left⟩

theorem openedAs (h : c.ReadsAlike fs fs') (operand : Operand) :
    c.openedAs fs' operand = c.openedAs fs operand := by
  unfold Comparison.openedAs
  rw [h.stat]

/-- A pair is opened alike from either side. -/
theorem openedAs_turned (h : c.ReadsAlike fs fs') (side : Side) (pair : DirectoryPair) :
    ({ pair.turned side with
        left := c.openedAs fs' (pair.turned side).left
        right := c.openedAs fs' (pair.turned side).right } : DirectoryPair) =
      DirectoryPair.turned side
        { pair with left := c.openedAs fs pair.left, right := c.openedAs fs pair.right } := by
  rw [h.openedAs, h.openedAs]
  cases side <;> rfl

end ReadsAlike

/-- Names that are the same in some order are so where there are none. -/
theorem perm_getD {names names' : Option (List Name)} (h : Option.Rel List.Perm names names') :
    (names.getD []).Perm (names'.getD []) := by
  cases h with
  | some h => exact h
  | none => exact List.Perm.refl []

/-- What reading an operand leaves behind, with a report if it failed. -/
theorem Answered.basis {names : Option (List Name)}
    {read : Except DirectoryError NameTable × Operand × RunState σ}
    (h : c.Answered answer fs operand s names read) :
    (reportRead read.1 read.2.2).basis = c.order.basisAfter answer (names.getD []) s.basis := by
  cases h with
  | failed => exact NameOrdering.basisAfter_nil.symm
  | read hp ht hs => exact hs

/-- What reading two operands leaves behind. -/
theorem Answered.basis_both {other : Operand} {names names' : Option (List Name)}
    {read read' : Except DirectoryError NameTable × Operand × RunState σ}
    (h : c.Answered answer fs operand s names read)
    (h' : c.Answered answer fs other (reportRead read.1 read.2.2) names' read') :
    (reportRead read'.1 read'.2.2).basis =
      c.order.basisAfter answer (names.getD [] ++ names'.getD []) s.basis := by
  rw [h'.basis, h.basis, NameOrdering.basisAfter_append]

/-- Two readings failed both, or read the same names in some order. -/
inductive AnsweredAlike (c : Comparison σ) (answer : Name → Except KeyError SortKey)
    (fs fs' : FileSystem) (operand operand' : Operand) :
    Except DirectoryError NameTable × Operand × RunState σ →
    Except DirectoryError NameTable × Operand × RunState σ → Prop where
  | failed {e e' : DirectoryError} {opened opened' : Operand} {s s' : RunState σ} :
      AnsweredAlike c answer fs fs' operand operand' (.error e, opened, s) (.error e', opened', s')
  | read {table table' : NameTable} {s s' : RunState σ} (hp : table'.names.Perm table.names)
      (ht : table.Settled c.order answer) (ht' : table'.Settled c.order answer) :
      AnsweredAlike c answer fs fs' operand operand' (.ok table, c.openedAs fs operand, s)
        (.ok table', c.openedAs fs' operand', s')

theorem Answered.alike {operand' : Operand} {names names' : Option (List Name)}
    {read read' : Except DirectoryError NameTable × Operand × RunState σ}
    (h : c.Answered answer fs operand s names read)
    (h' : c.Answered answer fs' operand' s' names' read') (hn : Option.Rel List.Perm names names') :
    c.AnsweredAlike answer fs fs' operand operand' read read' := by
  cases h with
  | failed =>
    cases hn
    cases h'
    exact .failed
  | read hp ht hs =>
    obtain hn | - := hn
    obtain - | ⟨hp', ht', hs'⟩ := h'
    exact .read (hp'.trans (hn.symm.trans hp.symm)) ht ht'

/-- **Two directories are paired alike from either side**, whatever the order
in which they yield their names. -/
theorem pairDirectories_turned (ha : c.collator.AnswersBy answer)
    (hstart : c.options.startingFile = none) (hfs : c.ReadsAlike fs fs') {R : α → β → Prop}
    {visitor : DirectoryPair → Visitor σ α} {visitor' : DirectoryPair → Visitor σ β}
    {pair : DirectoryPair}
    (hv : ∀ opened : DirectoryPair, opened.left.path = pair.left.path →
      opened.right.path = pair.right.path →
      Visitor.Agrees c.order answer side R (visitor opened) (visitor' (opened.turned side)))
    (hs : s'.basis = s.basis) {result : α} {result' : β}
    (hresult : R result result') :
    (c.pairDirectories fs pair visitor s result).toStep.Agrees R
      (c.pairDirectories fs' (pair.turned side) visitor' s' result').toStep := by
  unfold pairDirectories
  rw [pair.leadsBack_turned side]
  split
  · exact ⟨rfl, hs, hresult⟩
  simp only [hstart, ite_self]
  -- both read both sides, each in its own order
  have hl := answered_namesIn ha fs pair.left false s
  generalize c.namesIn fs pair.left none false s = l at hl
  have hr := answered_namesIn ha fs pair.right false (reportRead l.1 l.2.2)
  generalize c.namesIn fs pair.right none false (reportRead l.1 l.2.2) = r at hr
  have hl' := answered_namesIn ha fs' (pair.turned side).left false s'
  generalize c.namesIn fs' (pair.turned side).left none false s' = l' at hl'
  have hr' := answered_namesIn ha fs' (pair.turned side).right false (reportRead l'.1 l'.2.2)
  generalize c.namesIn fs' (pair.turned side).right none false (reportRead l'.1 l'.2.2) = r' at hr'
  have hnames := hfs.listing_turned side pair
  have hopened := hfs.openedAs_turned side pair
  have hvisits := hv { pair with
    left := c.openedAs fs pair.left
    right := c.openedAs fs pair.right } (path_openedAs ..) (path_openedAs ..)
  have hbr := hl.basis_both hr
  have hbr' := hl'.basis_both hr'
  generalize c.listing? fs pair.left = left at hl hr hnames hbr
  generalize c.listing? fs pair.right = right at hr hnames hbr
  generalize c.listing? fs' (pair.turned side).left = left' at hl' hr' hnames hbr'
  generalize c.listing? fs' (pair.turned side).right = right' at hr' hnames hbr'
  obtain ⟨hfirst, hsecond⟩ := hnames
  have hall : (left'.getD [] ++ right'.getD []).Perm (left.getD [] ++ right.getD []) := by
    have hperm := (perm_getD hfirst).symm.append (perm_getD hsecond).symm
    cases side with
    | left => exact hperm
    | right => exact hperm.trans List.perm_append_comm
  have hbasis : (reportRead r'.1 r'.2.2).basis = (reportRead r.1 r.2.2).basis := by
    rw [hbr, hbr', hs, NameOrdering.basisAfter_perm hall]
  cases side with
  | left =>
    cases hl.alike hl' hfirst with
    | failed => exact ⟨rfl, hbasis, hresult⟩
    | read hpl htl htl' =>
      cases hr.alike hr' hsecond with
      | failed => exact ⟨rfl, hbasis, hresult⟩
      | read hpr htr htr' =>
        simp only [hopened]
        exact pairTables_turned ha hvisits htl htr htl' htr' hpl hpr hbasis hresult
  | right =>
    -- what is read first in one run is read second in the other
    cases hl.alike hr' hsecond with
    | failed => cases hr.alike hl' hfirst <;> exact ⟨rfl, hbasis, hresult⟩
    | read hpl htl htr' =>
      cases hr.alike hl' hfirst with
      | failed => exact ⟨rfl, hbasis, hresult⟩
      | read hpr htr htl' =>
        simp only [hopened]
        exact pairTables_turned ha hvisits htl htr htl' htr' hpr hpl hbasis hresult

/-! ## With a start name -/

/-- What the start filter keeps depends on the basis it begins with. -/
theorem kept_congr (ha : c.collator.AnswersBy answer) (start : Option Name) (startOnly : Bool)
    (names : List Name) (hs : s'.basis = s.basis) :
    (c.kept start startOnly names s').1 = (c.kept start startOnly names s).1 ∧
      (c.kept start startOnly names s').2.basis = (c.kept start startOnly names s).2.basis := by
  induction names generalizing s s' with
  | nil => exact ⟨rfl, hs⟩
  | cons name names ih =>
    have hpass : (c.isFromStart start startOnly name s').1 =
          (c.isFromStart start startOnly name s).1 ∧
        (c.isFromStart start startOnly name s').2.basis =
          (c.isFromStart start startOnly name s).2.basis := by
      cases start with
      | none => exact ⟨rfl, hs⟩
      | some start =>
        obtain ⟨ho, hb⟩ := c.order.matchingOrder_congr ha name start hs
        simp only [isFromStart_some, ho, true_and]
        exact hb
    obtain ⟨hfirst, hbasis⟩ := hpass
    obtain ⟨hrest, hbasis⟩ := ih hbasis
    simp only [kept, hfirst, hrest, true_and]
    exact hbasis

/-- So does what is read. -/
theorem namesIn_congr (ha : c.collator.AnswersBy answer) (fs : FileSystem) (operand : Operand)
    (start : Option Name) (startOnly : Bool) (hs : s'.basis = s.basis) :
    let read := c.namesIn fs operand start startOnly s
    let read' := c.namesIn fs operand start startOnly s'
    read'.1.map NameTable.names = read.1.map NameTable.names ∧ read'.2.1 = read.2.1 ∧
      read'.2.2.basis = read.2.2.basis := by
  unfold namesIn
  cases operand.isNonexistent with
  | true => exact ⟨rfl, rfl, hs⟩
  | false =>
    rcases c.openDirectory fs operand with e | ⟨entries, opened⟩
    · exact ⟨rfl, rfl, hs⟩
    · obtain ⟨hkept, hbasis⟩ := kept_congr ha start startOnly entries.names hs
      simp only [Bool.false_eq_true, if_false]
      cases entries.failure with
      | some e => exact ⟨rfl, rfl, hbasis⟩
      | none =>
        obtain ⟨hsorted, hafter⟩ := c.order.sort_perm_eq ha
          (List.Perm.refl (c.kept start startOnly entries.names s).1) hbasis
        have hnames : ∀ (names : List Name) (u : RunState σ),
            ((NameTable.ofList names).sortTail 0 c.order u).1.names = (c.order.sort id names u).1 :=
          fun names u => by
            rw [NameTable.names_sortTail, List.take_zero, List.nil_append, List.drop_zero,
              NameTable.names_ofList]
        have hrun : ∀ (names : List Name) (u : RunState σ),
            ((NameTable.ofList names).sortTail 0 c.order u).2 = (c.order.sort id names u).2 :=
          fun names u => by rw [NameTable.run_sortTail, List.drop_zero, NameTable.names_ofList]
        simp only [Except.map, hkept, hnames, hrun, hsorted, true_and]
        exact hafter

/-- The entry that a name means depends on the basis alone, too. -/
theorem lookUp_congr (ha : c.collator.AnswersBy answer) (fs : FileSystem) (dir : Operand)
    (name : Name) (hs : s'.basis = s.basis) :
    (c.lookUp fs dir name s').1 = (c.lookUp fs dir name s).1 ∧
      (c.lookUp fs dir name s').2.2.basis = (c.lookUp fs dir name s).2.2.basis := by
  unfold lookUp
  split
  · obtain ⟨hnames, hdir, hbasis⟩ := namesIn_congr ha fs dir (some name) true hs
    generalize c.namesIn fs dir (some name) true s' = read' at hnames hdir hbasis
    generalize c.namesIn fs dir (some name) true s = read at hnames hdir hbasis
    obtain ⟨_ | table, dir, u⟩ := read
    · obtain ⟨_ | table', dir', u'⟩ := read'
      · obtain rfl : dir' = dir := hdir
        exact ⟨rfl, hbasis⟩
      · cases hnames
    · obtain ⟨_ | table', dir', u'⟩ := read'
      · cases hnames
      · obtain rfl : dir' = dir := hdir
        have hnames : table'.names = table.names := Except.ok.inj hnames
        simp only [hnames, true_and]
        exact hbasis
  · exact ⟨rfl, hs⟩

end Comparison

end TreeCompare
