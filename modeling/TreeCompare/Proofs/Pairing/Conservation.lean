import TreeCompare.Proofs.Pairing.Turns
/-!
# A pairing loses nothing and makes nothing up

Whatever the collator answers and whatever a visitor does to the run, the
names handed on are the names of the two tables, each as often as it is
there, and the status is the worst of what the visitor answered.
-/

namespace TreeCompare

variable {σ α : Type}

namespace Visit

variable {status : Status} {visits : List (Visit σ α)}

/-- The worst status is as severe as any, and one of them. -/
theorem worst_spec (status : Status) (visits : List (Visit σ α)) :
    status.exitCode ≤ (worst status visits).exitCode ∧
      (∀ visit ∈ visits, visit.step.status.exitCode ≤ (worst status visits).exitCode) ∧
      (worst status visits = status ∨
        ∃ visit ∈ visits, visit.step.status = worst status visits) := by
  induction visits generalizing status with
  | nil => exact ⟨Nat.le_refl _, by simp, Or.inl rfl⟩
  | cons visit visits ih =>
    obtain ⟨hle, hall, hone⟩ := ih (status.worse visit.step.status)
    change _ ≤ (worst status (visit :: visits)).exitCode at hle
    rw [Status.exitCode_worse] at hle
    refine ⟨by omega, ?_, ?_⟩
    · rintro v hv
      rcases List.mem_cons.1 hv with rfl | hv
      · omega
      · exact hall v hv
    · rcases hone with hone | ⟨v, hv, he⟩
      · have hw : worst status (visit :: visits) = status.worse visit.step.status := hone
        rw [hw, Status.worse]
        split
        · exact Or.inr ⟨visit, List.mem_cons_self .., rfl⟩
        · exact Or.inl rfl
      · exact Or.inr ⟨v, List.mem_cons_of_mem _ hv, he⟩

end Visit

namespace Comparison

variable {c : Comparison σ} {visitor : Visitor σ α}

/-- A pairing of two tails hands on each of their names once. -/
theorem perm_visitsOn (c : Comparison σ) (visitor : Visitor σ α) (left right : List Name)
    (s : RunState σ) (result : α) :
    (Pairing.lefts (Visit.handed (c.visitsOn visitor left right s result))).Perm left ∧
      (Pairing.rights (Visit.handed (c.visitsOn visitor left right s result))).Perm right := by
  induction left, right, s, result using visitsOn.induct c visitor with
  | case1 left right s result h t step ih =>
    obtain ⟨hl, hr⟩ := c.perm_alignTails left right s
    obtain ⟨hpl, hpr⟩ := (ready_alignTails (c := c) (s := s) h).perm_cons (u := []) (v := [])
      (by simpa using ih.1) (by simpa using ih.2)
    rw [List.append_nil] at hpl hpr
    rw [visitsOn_cons h, Visit.handed_cons]
    exact ⟨hpl.trans hl, hpr.trans hr⟩
  | case2 left right s result h =>
    have hnil : left = [] ∧ right = [] := by simpa using h
    rw [hnil.1, hnil.2, visitsOn_nil]
    exact ⟨List.Perm.refl _, List.Perm.refl _⟩

/-- What the visitor is handed holds a name, and what it answers is what
is written down. -/
theorem visitsOn_visit {left right : List Name} {s : RunState σ} {result : α} {v : Visit σ α}
    (hv : v ∈ c.visitsOn visitor left right s result) :
    v.pairing ≠ ⟨none, none⟩ ∧ v.step = visitor v.pairing v.run v.result := by
  induction left, right, s, result using visitsOn.induct c visitor with
  | case1 left right s result h t step ih =>
    rw [visitsOn_cons h] at hv
    rcases List.mem_cons.1 hv with rfl | hv
    · exact ⟨(ready_alignTails h).pairing_ne, rfl⟩
    · exact ih hv
  | case2 left right s result h =>
    have hnil : left = [] ∧ right = [] := by simpa using h
    rw [hnil.1, hnil.2, visitsOn_nil] at hv
    cases hv

/-- The names handed on are those of the two tables. -/
theorem perm_visits (c : Comparison σ) (visitor : Visitor σ α) (left right : NameTable)
    (s : RunState σ) (result : α) :
    (Pairing.lefts (Visit.handed (c.visits visitor left right s result))).Perm left.names ∧
      (Pairing.rights (Visit.handed (c.visits visitor left right s result))).Perm right.names := by
  obtain ⟨hl, hr⟩ := c.perm_sortBoth left right s
  rw [visits_eq_visitsOn]
  obtain ⟨hlefts, hrights⟩ := c.perm_visitsOn visitor
    (c.sortBoth left right s).1.names (c.sortBoth left right s).2.1.names
    (c.sortBoth left right s).2.2 result
  exact ⟨hlefts.trans hl, hrights.trans hr⟩

/-- **A pairing loses nothing, makes nothing up and ends**, whatever the
collator answers and whatever the visitor does to the run. The loop ends
within two turns for each name and stays in range; the names handed on are
those of the two tables; no pairing is empty; and the status is the worst
of `same` and what the visitor answered to every one of them. -/
theorem pairTables_conserves (c : Comparison σ) (visitor : Visitor σ α) (left right : NameTable)
    (s : RunState σ) (result : α) :
    let visits := c.visits visitor left right s result
    let merged := c.pairTables visitor left right s result
    (∃ final, c.turns visitor (2 * (left.size + right.size)) (c.opening left right s result) =
        some final ∧ ¬ final.IsOpen ∧ final.step = merged) ∧
      (Pairing.lefts (Visit.handed visits)).Perm left.names ∧
      (Pairing.rights (Visit.handed visits)).Perm right.names ∧
      (∀ v ∈ visits, v.pairing ≠ ⟨none, none⟩ ∧ v.step = visitor v.pairing v.run v.result) ∧
      (∀ v ∈ visits, v.step.status.exitCode ≤ merged.status.exitCode) ∧
      (merged.status = .same ∨ ∃ v ∈ visits, v.step.status = merged.status) := by
  intro visits merged
  obtain ⟨hlefts, hrights⟩ := c.perm_visits visitor left right s result
  have hstatus : merged.status = Visit.worst .same visits :=
    congrArg Step.status (c.pairTables_eq_of_visits visitor left right s result)
  obtain ⟨-, hall, hone⟩ := Visit.worst_spec .same visits
  rw [← hstatus] at hall hone
  refine ⟨c.turns_pairTables visitor left right s result (Nat.le_refl _), hlefts, hrights, ?_,
    hall, hone⟩
  intro v hv
  rw [show visits = _ from c.visits_eq_visitsOn visitor left right s result] at hv
  exact visitsOn_visit hv

end Comparison

end TreeCompare
