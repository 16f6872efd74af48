import TreeCompare.Proofs.Joining.OutOfStep
import TreeCompare.Proofs.Pairing.Conservation
import TreeCompare.Proofs.Pairing.Course
import TreeCompare.Proofs.Pairing.Sorted
/-!
# A pairing whose visitor gives the order up

A visitor may use the run that it is handed, and the collator may fail it
there. Names are ordered by bytes when it returns, but what is left of the
two tables is still in the order of the keys, and it is not sorted again.
`Visit.LosesStep` says that this happened and that the names left were out
of step. A pairing hands every name of both tables on with itself, and in
no other pairing, exactly if it did not (`common_handedOnce_iff`).
-/

namespace TreeCompare

variable {σ α : Type}

/-- The order was given up within one of the visits, and the names handed
on after it were out of step. -/
def Visit.LosesStep (k : Keying) (visits : List (Visit σ α)) : Prop :=
  ∃ before call after, visits = before ++ call :: after ∧ call.run.basis = .collated ∧
    call.step.run.basis = .bytewise ∧
    OutOfStep k (Pairing.lefts (Visit.handed after)) (Pairing.rights (Visit.handed after))

namespace Comparison

variable {c : Comparison σ} {visitor : Visitor σ α} {key k : Keying}
  {left right restLeft restRight : List Name} {before after : List (Visit σ α)}

/-- Where what is left was sorted again, no step is lost. -/
theorem Course.not_losesStep (hc : Course k left right before after restLeft restRight)
    (hall : ∀ v ∈ before, v.step.run.basis = .collated) (k' : Keying) :
    ¬ Visit.LosesStep k' (before ++ after) := by
  rintro ⟨before', call, after', he, hrun, hstep, -⟩
  have hmem : call ∈ before ++ after := by
    rw [he]
    exact List.mem_append_right _ (List.mem_cons_self ..)
  rcases List.mem_append.1 hmem with hmem | hmem
  · rw [hall call hmem] at hstep
    cases hstep
  · rw [(hc.after_basis call hmem).1] at hrun
    cases hrun

/-- Where the last visit before gave the order up, a step is lost exactly
if what is left is out of step. -/
theorem Course.losesStep_iff (hc : Course k left right before after restLeft restRight)
    {earlier : List (Visit σ α)} {call : Visit σ α} (hb : before = earlier ++ [call])
    (hcall : call.step.run.basis = .bytewise)
    (hall : ∀ v ∈ earlier, v.step.run.basis = .collated) :
    Visit.LosesStep k (before ++ after) ↔ OutOfStep k restLeft restRight := by
  have hsplit : before ++ after = earlier ++ call :: after := by rw [hb, List.append_assoc]; rfl
  obtain ⟨hpl, hpr⟩ := Keying.bytes.perm_join restLeft restRight
  rw [← hc.after_eq] at hpl hpr
  constructor
  · rintro ⟨before', call', after', he, hrun, hstep, hout⟩
    rw [hsplit] at he
    have hnot : call' ∉ earlier := by
      intro hmem
      rw [hall call' hmem] at hstep
      cases hstep
    have hnot' : call' ∉ after := by
      intro hmem
      rw [(hc.after_basis call' hmem).1] at hrun
      cases hrun
    obtain ⟨-, -, rfl⟩ := (List.append_cons_inj_of_notMem hnot hnot').1 he
    exact hout.congr (fun _ => hpl.mem_iff) (fun _ => hpr.mem_iff)
  · intro hout
    refine ⟨earlier, call, after, hsplit, ?_, hcall, ?_⟩
    · exact hc.before_basis call (by simp [hb])
    · exact hout.congr (fun _ => hpl.mem_iff.symm) (fun _ => hpr.mem_iff.symm)

/-- A course keeps its names together exactly if what is left does. -/
theorem Course.faithful_iff (hc : Course k left right before after restLeft restRight)
    (hl : k.Sorted left) (hr : k.Sorted right) :
    Faithful left right (Visit.handed (before ++ after)) ↔
      Faithful restLeft restRight (Keying.bytes.join restLeft restRight) := by
  rw [Visit.handed_append, hc.after_eq]
  constructor
  · rintro hall x ⟨hxl, hxr⟩
    have hleft := hc.left_perm.mem_iff.1 (List.mem_append_right _ hxl)
    have hright := hc.right_perm.mem_iff.1 (List.mem_append_right _ hxr)
    refine (List.mem_append.1 (hall x ⟨hleft, hright⟩)).resolve_left fun hmem => ?_
    have hd := (List.nodup_append.1 (hc.left_perm.nodup_iff.2 hl.nodup)).2.2
    exact hd x (Pairing.mem_lefts.2 ⟨_, hmem, rfl⟩) x hxl rfl
  · rintro hall x ⟨hxl, hxr⟩
    rcases hc.exact_or hl hr hxl hxr with hmem | hrest
    · exact List.mem_append_left _ hmem
    · exact List.mem_append_right _ (hall x hrest)

/-- **Every name of two sorted lists stays together unless a visitor loses
the step.** -/
theorem faithful_iff_not_losesStep {s : RunState σ} {result : α}
    (hk : c.order.collator.KeyedBy key) (hv : Visitor.Keeps RunState.Onward visitor)
    (hl : (c.order.keying key s.basis).Sorted left)
    (hr : (c.order.keying key s.basis).Sorted right) :
    let visits := c.visitsOn visitor left right s result
    Faithful left right (Visit.handed visits) ↔
      ¬ Visit.LosesStep (c.order.keying key .collated) visits := by
  intro visits
  obtain ⟨before, after, restLeft, restRight, he, hc⟩ :=
    visitsOn_course hk hv hl hr result
  have hvisits : visits = before ++ after := he
  rw [hvisits, hc.faithful_iff hl hr]
  -- sorted again, what is left keeps its names together in any case
  rcases hc.cause with ⟨hsl, hsr, hall⟩ | ⟨hsl, hsr, earlier, call, hb, hcall, hall⟩
  · exact iff_of_true (fun x hx => (Keying.joins_join hsl hsr).exact hx.1 hx.2)
      (hc.not_losesStep hall _)
  · have hcs := hc.collated hv he (v := call) (by simp [hb])
    rw [hcs] at hc hl hr
    rw [hc.losesStep_iff hb hcall hall]
    exact Keying.faithful_iff_not_outOfStep (hl.sublist hsl) (hr.sublist hsr)

/-- **When a pairing keeps the names of both tables together.** Every such
name is handed on with itself and in no other pairing, unless the order was
given up within a visit and the names left were out of step. -/
theorem common_handedOnce_iff {left right : NameTable} {s : RunState σ} {result : α}
    (hk : c.order.collator.KeyedBy key) (hl : left.names.Nodup) (hr : right.names.Nodup)
    (htl : left.TrueTo c.order key) (htr : right.TrueTo c.order key)
    (hv : Visitor.Keeps RunState.Onward visitor) :
    let visits := c.visits visitor left right s result
    (∀ x, Common left.names right.names x → Pairing.HandedOnce x (Visit.handed visits)) ↔
      ¬ Visit.LosesStep (c.order.keying key .collated) visits := by
  intro visits
  obtain ⟨hbl, hbr⟩ := sorted_sortBoth hk hl hr htl htr s
  obtain ⟨hpl, hpr⟩ := c.perm_sortBoth left right s
  obtain ⟨hlefts, hrights⟩ := c.perm_visits visitor left right s result
  have honce : ∀ x, Pairing.HandedOnce x (Visit.handed visits) ↔
      ⟨some x, some x⟩ ∈ Visit.handed visits := fun x =>
    Pairing.handedOnce_iff (hlefts.nodup_iff.2 hl) (hrights.nodup_iff.2 hr)
  have hvisits : visits = _ := c.visits_eq_visitsOn visitor left right s result
  have hcommon : ∀ x, Common left.names right.names x ↔
      Common (c.sortBoth left right s).1.names (c.sortBoth left right s).2.1.names x :=
    fun x => and_congr hpl.mem_iff.symm hpr.mem_iff.symm
  simp only [honce, hcommon]
  rw [hvisits]
  exact faithful_iff_not_losesStep hk hv hbl hbr

end Comparison

end TreeCompare
