import TreeCompare.Lookup
import TreeCompare.Proofs.Pairing.Sorted
import TreeCompare.Proofs.Pairing.Visits
/-!
# The operations of a comparison keep within the laws of a step

Reading a directory, looking a name up, pairing two tables and pairing two
directories are made of steps of the ordering, of notes in the journal and
of what a visitor does. So whatever relation the steps and the visitor keep
within, the operations keep within (`StepLaw`). Pairing two directories also
reports those that cannot be read, which a relation has to allow
(`ReportLaw`).
-/

namespace TreeCompare

/-- What a relation between the states of a run has to satisfy for every
report but that of a failed collation to stay within it. -/
def RunState.ReportLaw {σ : Type} (R : RunState σ → RunState σ → Prop) : Prop :=
  ∀ d s, (∀ first other reason, d ≠ .collationFallback first other reason) → R s (s.report d)

namespace Comparison

variable {σ α : Type} {c : Comparison σ} {R : RunState σ → RunState σ → Prop}

theorem isFromStart_law (h : c.order.StepLaw R) (start : Option Name) (startOnly : Bool)
    (name : Name) (s : RunState σ) : R s (c.isFromStart start startOnly name s).2 := by
  rcases start with - | start
  · exact h.refl s
  · have hm := h.matchingOrder name start s
    simp only [isFromStart]
    split <;> next heq => rwa [heq] at hm

theorem kept_law (h : c.order.StepLaw R) (start : Option Name) (startOnly : Bool)
    (names : List Name) (s : RunState σ) : R s (c.kept start startOnly names s).2 := by
  induction names generalizing s with
  | nil => exact h.refl s
  | cons name names ih => exact h.trans (isFromStart_law h start startOnly name s) (ih _)

/-- Reading a directory. -/
theorem namesIn_law (h : c.order.StepLaw R) (fs : FileSystem) (operand : Operand)
    (start : Option Name) (startOnly : Bool) (s : RunState σ) :
    R s (c.namesIn fs operand start startOnly s).2.2 := by
  unfold namesIn
  split
  · exact h.refl s
  · split
    · exact h.refl s
    · next entries _ _ =>
      have hk := kept_law h start startOnly entries.names s
      simp only
      split
      · exact hk
      · refine h.trans hk ?_
        rw [NameTable.run_sortTail]
        exact h.trans (h.sort id _ _) (h.note _ _ rfl)

/-- Looking a name up. -/
theorem lookUp_law (h : c.order.StepLaw R) (fs : FileSystem) (dir : Operand) (name : Name)
    (s : RunState σ) : R s (c.lookUp fs dir name s).2.2 := by
  have hn := namesIn_law h fs dir (some name) true s
  unfold lookUp
  split
  · split
    · next heq => rwa [heq] at hn
    · next heq =>
      rw [heq] at hn
      exact h.trans hn (h.note _ _ rfl)
  · exact h.refl s

/-- What the visits of two tails leave behind. -/
theorem leftBehind_law (h : c.order.StepLaw R) {visitor : Visitor σ α}
    (hv : Visitor.Keeps R visitor) (left right : List Name) (s : RunState σ) (result : α) :
    R s (Visit.leftBehind s result (c.visitsOn visitor left right s result)).1 := by
  induction left, right, s, result using visitsOn.induct c visitor with
  | case1 left right s result hne t step ih =>
    rw [visitsOn_cons hne]
    exact h.trans (alignTails_law h left right s) (h.trans (hv _ _ _) ih)
  | case2 left right s result hne =>
    have hnil : left = [] ∧ right = [] := by simpa using hne
    rw [hnil.1, hnil.2, visitsOn_nil]
    exact h.refl s

/-- Pairing two tables. -/
theorem pairTables_law (h : c.order.StepLaw R) {visitor : Visitor σ α}
    (hv : Visitor.Keeps R visitor) (left right : NameTable) (s : RunState σ) (result : α) :
    R s (c.pairTables visitor left right s result).run := by
  have hrun := congrArg Step.run (c.pairTables_eq_of_visits visitor left right s result)
  simp only at hrun
  rw [hrun, visits_eq_visitsOn]
  exact h.trans (sortBoth_law h left right s) (leftBehind_law h hv _ _ _ _)

theorem reportRead_law (h : c.order.StepLaw R) (hreport : RunState.ReportLaw R)
    (answer : Except DirectoryError NameTable) (s : RunState σ) : R s (reportRead answer s) := by
  unfold reportRead
  split
  · exact h.refl s
  · exact hreport _ _ (by simp)

/-- **Pairing two directories.** -/
theorem pairDirectories_law (h : c.order.StepLaw R) (hreport : RunState.ReportLaw R)
    (fs : FileSystem) (pair : DirectoryPair) {visitor : DirectoryPair → Visitor σ α}
    (hv : ∀ pair, Visitor.Keeps R (visitor pair)) (s : RunState σ) (result : α) :
    R s (c.pairDirectories fs pair visitor s result).run := by
  unfold pairDirectories
  split
  · exact hreport _ _ (by simp)
  · have hl := namesIn_law h fs pair.left (if pair.isRoot then c.options.startingFile else none)
      false s
    simp only
    generalize c.namesIn fs pair.left _ false s = l at *
    have hlr := reportRead_law h hreport l.1 l.2.2
    have hr := namesIn_law h fs pair.right (if pair.isRoot then c.options.startingFile else none)
      false (reportRead l.1 l.2.2)
    generalize c.namesIn fs pair.right _ false (reportRead l.1 l.2.2) = r at *
    have hrr := reportRead_law h hreport r.1 r.2.2
    have hread := h.trans hl (h.trans hlr (h.trans hr hrr))
    split
    · exact h.trans hread (pairTables_law h (hv _) _ _ _ _)
    · exact hread

end Comparison

end TreeCompare
