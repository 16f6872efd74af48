import TreeCompare.Pairing
import TreeCompare.Proofs.Ordering.Tables
/-!
# How a pairing begins

A pairing sorts both tables on the basis of the run, and the left one once
more if the right one gave the order up (`Comparison.sortBoth`). Behind
that both are sorted by one keying, whatever happened meanwhile, provided
that a table which says what it was sorted by says so truly
(`sorted_sortBoth`).
-/

namespace TreeCompare

namespace Comparison

variable {σ : Type} {c : Comparison σ} {key : Keying} {left right : NameTable} {s : RunState σ}

/-- Both tables sorted on the basis of the run, as the pairing begins. -/
def sortBoth (c : Comparison σ) (left right : NameTable) (s : RunState σ) :
    NameTable × NameTable × RunState σ :=
  let (left, s) := c.ensureSorted left s
  let (right, s) := c.ensureSorted right s
  let (left, s) := c.ensureSorted left s
  (left, right, s)

theorem perm_ensureSorted (t : NameTable) (s : RunState σ) :
    (c.ensureSorted t s).1.names.Perm t.names := by
  unfold ensureSorted
  split
  · exact List.Perm.refl _
  · exact t.perm_sortTail c.order s

/-- Sorting a table keeps within every law of a step. -/
theorem ensureSorted_law {R : RunState σ → RunState σ → Prop} (h : c.order.StepLaw R)
    (t : NameTable) (s : RunState σ) : R s (c.ensureSorted t s).2 := by
  unfold ensureSorted
  split
  · exact h.refl s
  · rw [NameTable.run_sortTail]
    exact h.sort id _ s

/-- A table says afterwards that it is sorted on the basis of the run. -/
theorem sortedBy_ensureSorted (t : NameTable) (s : RunState σ) :
    (c.ensureSorted t s).1.sortedBy = some (c.ensureSorted t s).2.basis := by
  unfold ensureSorted
  split
  · assumption
  · rw [NameTable.run_sortTail, NameTable.sortedBy_sortTail]

/-- It is true to what it says, if it was before. -/
theorem trueTo_ensureSorted (hk : c.order.collator.KeyedBy key) {t : NameTable}
    (hd : t.names.Nodup) (ht : t.TrueTo c.order key) (s : RunState σ) :
    (c.ensureSorted t s).1.TrueTo c.order key := by
  unfold ensureSorted
  split
  · exact ht
  · exact NameTable.trueTo_sortTail hk hd s

/-- Nothing is lost before the first visit, whatever the collator
answers. -/
theorem perm_sortBoth (c : Comparison σ) (left right : NameTable) (s : RunState σ) :
    (c.sortBoth left right s).1.names.Perm left.names ∧
      (c.sortBoth left right s).2.1.names.Perm right.names :=
  ⟨(perm_ensureSorted _ _).trans (perm_ensureSorted _ _), perm_ensureSorted _ _⟩

theorem sortBoth_law {R : RunState σ → RunState σ → Prop} (h : c.order.StepLaw R)
    (left right : NameTable) (s : RunState σ) : R s (c.sortBoth left right s).2.2 :=
  h.trans (ensureSorted_law h left s)
    (h.trans (ensureSorted_law h right _) (ensureSorted_law h _ _))

/-- Both tables say that they are sorted on the basis of the run. -/
theorem sortedBy_sortBoth (c : Comparison σ) (left right : NameTable) (s : RunState σ) :
    let begun := c.sortBoth left right s
    begun.1.sortedBy = some begun.2.2.basis ∧ begun.2.1.sortedBy = some begun.2.2.basis := by
  rcases hls : c.ensureSorted left s with ⟨left₁, s₁⟩
  rcases hrs : c.ensureSorted right s₁ with ⟨right₂, s₂⟩
  rcases hls' : c.ensureSorted left₁ s₂ with ⟨left₃, s₃⟩
  have hby := sortedBy_ensureSorted (c := c) left s
  rw [hls] at hby
  have hbyR := sortedBy_ensureSorted (c := c) right s₁
  rw [hrs] at hbyR
  have hby' := sortedBy_ensureSorted (c := c) left₁ s₂
  rw [hls'] at hby'
  -- the last sort is a sort by bytes, and not the one that gives the order up
  have hbasis : s₃.basis = s₂.basis := by
    have honR := ensureSorted_law c.order.stepLaw_onward right s₁
    have honL := ensureSorted_law c.order.stepLaw_onward left₁ s₂
    rw [hrs] at honR
    rw [hls'] at honL
    rcases honR with h | h
    · unfold ensureSorted at hls'
      rw [if_pos (by rw [hby, h])] at hls'
      cases hls'
      rfl
    · rcases honL with h' | h'
      · exact h'
      · rw [h, h']
  simp only [sortBoth, hls, hrs, hls']
  exact ⟨hby', by rw [hbyR, hbasis]⟩

/-- **Both sides are sorted by one keying** when the first pairing is made,
even where sorting one of them gave the order up. -/
theorem sorted_sortBoth (hk : c.order.collator.KeyedBy key) (hl : left.names.Nodup)
    (hr : right.names.Nodup) (htl : left.TrueTo c.order key) (htr : right.TrueTo c.order key)
    (s : RunState σ) :
    let begun := c.sortBoth left right s
    (c.order.keying key begun.2.2.basis).Sorted begun.1.names ∧
      (c.order.keying key begun.2.2.basis).Sorted begun.2.1.names := by
  intro begun
  obtain ⟨hby, hbyR⟩ := c.sortedBy_sortBoth left right s
  have hd := ((perm_ensureSorted (c := c) left s).nodup_iff).2 hl
  have htrue := trueTo_ensureSorted hk hd (trueTo_ensureSorted hk hl htl s)
    (c.ensureSorted right (c.ensureSorted left s).2).2
  exact ⟨htrue _ hby, trueTo_ensureSorted hk hr htr (c.ensureSorted left s).2 _ hbyR⟩

end Comparison

end TreeCompare
