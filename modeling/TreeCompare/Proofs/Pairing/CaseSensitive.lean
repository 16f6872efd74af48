import TreeCompare.Proofs.Joining.Outer
import TreeCompare.Proofs.Operations.Reading
import TreeCompare.Proofs.Pairing.Course
import TreeCompare.Proofs.Pairing.Sorted
/-!
# Pairings where case counts

A run that does not fold case never asks the collator. So it does not matter
which collator it has and what a visitor does to the run: tables that are
read in such a run are sorted by bytes, and what the pairing of two of them
hands on is their outer join (`handed_of_caseSensitive`).
-/

namespace TreeCompare

namespace Comparison

variable {σ α : Type} {c : Comparison σ} {fs : FileSystem} {left right table : NameTable}
  {operand operand' : Operand} {s s' : RunState σ}

/-- **A directory is read as a table sorted by bytes**, whatever the start
name is. -/
theorem sorted_of_namesIn (hcase : c.options.ignoreCase = false) (hfs : fs.ListsOnce)
    {start : Option Name} {startOnly : Bool}
    (h : c.namesIn fs operand start startOnly s = (.ok table, operand', s')) :
    Keying.bytes.Sorted table.names := by
  cases reads_of_namesIn h with
  | nothing hn => exact List.Pairwise.nil
  | @directory entries _ _ hn henum hopened =>
    rw [keptTable, NameTable.names_sortTail, List.take_zero, List.nil_append, List.drop_zero,
      NameTable.names_ofList]
    exact (NameOrdering.sort_of_not_usesKeys ((c.sublist_kept ..).nodup (hfs _ _ henum))
      (NameOrdering.not_usesKeys_of_caseSensitive hcase _)).1

/-- Sorting a table once more changes nothing. -/
theorem ensureSorted_of_caseSensitive (hcase : c.options.ignoreCase = false)
    (h : Keying.bytes.Sorted table.names) (s : RunState σ) :
    (c.ensureSorted table s).1.names = table.names ∧ (c.ensureSorted table s).2 = s := by
  have hbytes : ¬ c.order.usesKeys s = true :=
    NameOrdering.not_usesKeys_of_caseSensitive hcase s
  obtain ⟨hsorted, hrun⟩ := NameOrdering.sort_of_not_usesKeys h.nodup hbytes
  unfold ensureSorted
  split
  · exact ⟨rfl, rfl⟩
  · rw [NameTable.names_sortTail, NameTable.run_sortTail, List.take_zero, List.nil_append,
      List.drop_zero]
    exact ⟨hsorted.eq_of_perm h (c.order.sort_perm id _ s), hrun⟩

/-- So a pairing begins with the tables as they were read. -/
theorem sortBoth_of_caseSensitive (hcase : c.options.ignoreCase = false)
    (hl : Keying.bytes.Sorted left.names) (hr : Keying.bytes.Sorted right.names)
    (s : RunState σ) :
    (c.sortBoth left right s).1.names = left.names ∧
      (c.sortBoth left right s).2.1.names = right.names ∧ (c.sortBoth left right s).2.2 = s := by
  obtain ⟨hfirst, hrun⟩ := ensureSorted_of_caseSensitive hcase hl s
  obtain ⟨hsecond, hrun'⟩ := ensureSorted_of_caseSensitive hcase hr (c.ensureSorted left s).2
  obtain ⟨hthird, hrun''⟩ := ensureSorted_of_caseSensitive hcase (hfirst ▸ hl)
    (c.ensureSorted right (c.ensureSorted left s).2).2
  exact ⟨hthird.trans hfirst, hsecond, hrun''.trans (hrun'.trans hrun)⟩

/-- **What a pairing hands on where case counts** are the names of the two
tables in the order of bytes, each with the sides that hold it. -/
theorem handed_of_caseSensitive (hcase : c.options.ignoreCase = false)
    (hl : Keying.bytes.Sorted left.names) (hr : Keying.bytes.Sorted right.names)
    (visitor : Visitor σ α) (s : RunState σ) (result : α) :
    Visit.handed (c.visits visitor left right s result) =
      outerJoin left.names right.names := by
  obtain ⟨hnl, hnr, -⟩ := sortBoth_of_caseSensitive hcase hl hr s
  have hjoin : Visit.handed (c.visits visitor left right s result) =
      Keying.bytes.join left.names right.names := by
    rw [visits_eq_visitsOn, hnl, hnr]
    refine visitsOn_join (P := fun _ => True) (Q := List.Nodup) (fun _ _ _ _ => trivial)
      (fun _ _ _ _ => trivial) (fun h hs => hs.nodup h) (fun left right s _ hl hr => ?_) trivial
      hl.nodup hr.nodup
    rw [alignTails_of_not_usesKeys (NameOrdering.not_usesKeys_of_caseSensitive hcase s) hl hr]
  rw [hjoin]
  exact (Keying.joins_join hl hr).eq_outerJoin hl hr hr.nodup (fun _ => Iff.rfl) (fun _ => Iff.rfl)

end Comparison

end TreeCompare
