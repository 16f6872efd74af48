import TreeCompare.Proofs.Pairing.Course
import TreeCompare.Proofs.Pairing.Conservation
import TreeCompare.Proofs.Pairing.Sorted
/-!
# A pairing on which collation fails

A collator may fail on any name and any call, while a table is sorted,
while two heads are compared or on the way through a search for an exact
match. Wherever it does, the pairing goes on as if nothing had happened:
what it has handed on is the beginning of what it would have handed on, and
the rest is the outer join by bytes of the names not yet handed on.
-/

namespace TreeCompare

namespace Comparison

variable {σ α : Type} {c : Comparison σ} {visitor : Visitor σ α} {key : Keying}
  {left right : NameTable} {s : RunState σ} {result : α}

/-- The comparison with a collator that gives the same keys and never
fails. -/
def unfailing (c : Comparison σ) (key : Keying) : Comparison σ :=
  { c with collator := .ofKeying key }

/-- **A pairing on which nothing fails** is the join of its two tables
under the keying of the run, if the visitor leaves the order alone. -/
theorem handed_unfailing (hl : left.names.Nodup) (hr : right.names.Nodup)
    (htl : left.TrueTo c.order key) (htr : right.TrueTo c.order key)
    (hv : Visitor.Keeps (fun s t => t.basis = s.basis) visitor) {left' right' : List Name}
    (hl' : left'.Perm left.names) (hr' : right'.Perm right.names)
    (hsl : (c.order.keying key s.basis).Sorted left')
    (hsr : (c.order.keying key s.basis).Sorted right') :
    Visit.handed ((c.unfailing key).visits visitor left right s result) =
      (c.order.keying key s.basis).join left' right' := by
  have hgives : (c.unfailing key).order.collator.Gives key := Collator.gives_ofKeying
  have hlaw := NameOrdering.stepLaw_basis hgives
  have hbegun : ((c.unfailing key).sortBoth left right s).2.2.basis = s.basis :=
    sortBoth_law hlaw left right s
  obtain ⟨hbl, hbr⟩ := sorted_sortBoth hgives.keyedBy hl hr htl htr s
  obtain ⟨hpl, hpr⟩ := (c.unfailing key).perm_sortBoth left right s
  change (c.order.keying key _).Sorted _ at hbl hbr
  rw [hbegun] at hbl hbr
  rw [visits_eq_visitsOn, hsl.eq_of_perm hbl (hl'.trans hpl.symm),
    hsr.eq_of_perm hbr (hr'.trans hpr.symm)]
  refine visitsOn_join (P := fun t => t.basis = s.basis)
    (Q := (c.order.keying key s.basis).Sorted) ?_ ?_ (fun h hs => h.sublist hs) ?_ hbegun hbl hbr
  · intro left right t ht
    exact (alignTails_law hlaw left right t).trans ht
  · intro p t result ht
    exact (hv p t result).trans ht
  · intro left right t ht hl hr
    rw [← ht] at hl hr ⊢
    rcases alignTails_spec (c := c.unfailing key) hgives.keyedBy hl hr with
      ⟨-, hf⟩ | ⟨hcs, hb, _⟩
    · exact hf
    · rw [alignTails_law hlaw left right t, hcs] at hb
      cases hb

/-- What is left of a side are the names not handed on. -/
theorem mem_rest {names handed rest all : List Name} (hp : (handed ++ rest).Perm names)
    (hd : names.Nodup) (ha : names.Perm all) (x : Name) :
    x ∈ rest ↔ x ∈ all.filter (· ∉ handed) := by
  have hdis := (List.nodup_append.1 (hp.nodup_iff.2 hd)).2.2
  rw [List.mem_filter, decide_eq_true_iff, ← ha.mem_iff, ← hp.mem_iff, List.mem_append]
  constructor
  · intro hx
    exact ⟨Or.inr hx, fun hc => hdis x hc x hx rfl⟩
  · rintro ⟨hx, hn⟩
    exact hx.resolve_left hn

/-! ## The course of a pairing whose visitor leaves the order alone -/

section Course

variable {k : Keying} {left' right' restLeft restRight : List Name}
  {before after : List (Visit σ α)}

/-- What the visitor leaves alone is, before the failure, what it was when
the pairing began. -/
theorem Course.basis_eq (hc : Course k left' right' before after restLeft restRight)
    (hon : Visitor.Keeps RunState.Onward visitor)
    (he : c.visitsOn visitor left' right' (c.sortBoth left right s).2.2 result = before ++ after)
    {v : Visit σ α} (hv : v ∈ before) :
    (c.sortBoth left right s).2.2.basis = s.basis ∧ v.run.basis = s.basis := by
  have hbegun := sortBoth_law c.order.stepLaw_onward left right s
  have hcs := hc.collated hon he hv
  rw [hbegun.collated hcs]
  exact ⟨hcs, hc.before_basis v hv⟩

/-- What is left is handed on as the outer join by bytes of the names not
handed on before. -/
theorem Course.after_eq_outerJoin (hc : Course k left' right' before after restLeft restRight)
    (hsl : Keying.bytes.Sorted restLeft) (hsr : Keying.bytes.Sorted restRight)
    (hl : left.names.Nodup) (hr : right.names.Nodup) (hpl : left'.Perm left.names)
    (hpr : right'.Perm right.names) :
    Visit.handed after =
      outerJoin (left.names.filter (· ∉ Pairing.lefts (Visit.handed before)))
        (right.names.filter (· ∉ Pairing.rights (Visit.handed before))) := by
  rw [hc.after_eq]
  exact (Keying.joins_join hsl hsr).eq_outerJoin hsl hsr (hr.filter _)
    (mem_rest hc.left_perm (hpl.nodup_iff.2 hl) hpl)
    (mem_rest hc.right_perm (hpr.nodup_iff.2 hr) hpr)

/-- Where what is left was sorted again, a name of both sides is handed on
with itself. -/
theorem Course.exact (hc : Course k left' right' before after restLeft restRight)
    (hsl : Keying.bytes.Sorted restLeft) (hsr : Keying.bytes.Sorted restRight)
    (hl : k.Sorted left') (hr : k.Sorted right') {x : Name} (hxl : x ∈ left') (hxr : x ∈ right') :
    ⟨some x, some x⟩ ∈ Visit.handed (before ++ after) := by
  rw [Visit.handed_append, hc.after_eq]
  rcases hc.exact_or hl hr hxl hxr with hx | ⟨hxl, hxr⟩
  · exact List.mem_append_left _ hx
  · exact List.mem_append_right _ ((Keying.joins_join hsl hsr).exact hxl hxr)

end Course

/-- **A failure of collation is seamless.** Names are handed on as they
would be if the collator never failed, until it fails, and from then on the
names not yet handed on are handed on as their outer join by bytes. Nothing
precedes the failure if a table was being sorted. Wherever the collator
fails, a name of both tables is handed on with itself and in no other
pairing. -/
theorem handed_seamless (hk : c.collator.KeyedBy key) (hl : left.names.Nodup)
    (hr : right.names.Nodup) (htl : left.TrueTo c.order key) (htr : right.TrueTo c.order key)
    (hv : Visitor.Keeps (fun s t => t.basis = s.basis) visitor) :
    let visits := c.visits visitor left right s result
    let full := Visit.handed ((c.unfailing key).visits visitor left right s result)
    (∃ n,
      (∀ v ∈ visits.take n, v.run.basis = s.basis) ∧
      (∀ v ∈ visits.drop n, v.run.basis = .bytewise) ∧
      Visit.handed visits = full.take n ++
        outerJoin (left.names.filter (· ∉ Pairing.lefts (full.take n)))
          (right.names.filter (· ∉ Pairing.rights (full.take n))) ∧
      ((c.sortBoth left right s).2.2.basis ≠ s.basis → n = 0)) ∧
    ∀ x ∈ left.names, x ∈ right.names → Pairing.HandedOnce x (Visit.handed visits) := by
  intro visits full
  have hon : Visitor.Keeps RunState.Onward visitor := fun p t result => Or.inl (hv p t result)
  obtain ⟨hbl, hbr⟩ := sorted_sortBoth hk hl hr htl htr s
  obtain ⟨hpl, hpr⟩ := c.perm_sortBoth left right s
  have hvisits : visits = _ := c.visits_eq_visitsOn visitor left right s result
  obtain ⟨before, after, restLeft, restRight, he, hc⟩ := visitsOn_course hk hon hbl hbr result
  have hbasis := fun v => hc.basis_eq (v := v) hon he
  obtain ⟨hsl, hsr⟩ := hc.sorted_rest fun v hmem => by
    have hvisit := List.mem_append_left after hmem
    rw [← he] at hvisit
    rw [(visitsOn_visit hvisit).2]
    exact hv _ _ _
  rw [he] at hvisits
  -- where anything precedes the failure, the tables were sorted by their keys
  have htake : full.take before.length = Visit.handed before := by
    rcases hb : before with - | ⟨v, before'⟩
    · rfl
    · have hsame := (hbasis v (by rw [hb]; exact List.mem_cons_self ..)).1
      rw [hsame] at hbl hbr
      have hfull : full = _ := handed_unfailing hl hr htl htr hv hpl hpr hbl hbr
      rw [hfull, ← hb, hc.before_eq, hsame]
  refine ⟨⟨before.length, ?_, ?_, ?_, ?_⟩, fun x hxl hxr => ?_⟩
  · rw [hvisits, List.take_left]
    exact fun v hmem => (hbasis v hmem).2
  · rw [hvisits, List.drop_left]
    exact fun v hmem => (hc.after_basis v hmem).1
  · rw [htake, hvisits, Visit.handed_append, hc.after_eq_outerJoin hsl hsr hl hr hpl hpr]
  · intro hne
    rcases hb : before with - | ⟨v, before'⟩
    · rfl
    · exact absurd (hbasis v (by rw [hb]; exact List.mem_cons_self ..)).1 hne
  · obtain ⟨hlefts, hrights⟩ := c.perm_visits visitor left right s result
    rw [Pairing.handedOnce_iff (hlefts.nodup_iff.2 hl) (hrights.nodup_iff.2 hr)]
    change _ ∈ Visit.handed visits
    rw [hvisits]
    exact hc.exact hsl hsr hbl hbr (hpl.mem_iff.2 hxl) (hpr.mem_iff.2 hxr)

/-- A collator that fails in the middle of a pairing, while two heads are
compared. -/
theorem handed_seamless_foldAscii :
    let c : Comparison Nat := ⟨{ ignoreCase := true }, .failingOnCall .foldAscii 9, fun _ => false⟩
    let left := NameTable.ofList (["a", "b", "B"].map Name.ofString)
    let right := NameTable.ofList (["A", "a", "B", "c"].map Name.ofString)
    let visitor : Visitor Nat Unit := fun _ s _ => ⟨.same, s, ()⟩
    let visits := c.visits visitor left right (.start 0) ()
    let full := Visit.handed ((c.unfailing .foldAscii).visits visitor left right (.start 0) ())
    (∃ n,
      (∀ v ∈ visits.take n, v.run.basis = .collated) ∧
      (∀ v ∈ visits.drop n, v.run.basis = .bytewise) ∧
      Visit.handed visits = full.take n ++
        outerJoin (left.names.filter (· ∉ Pairing.lefts (full.take n)))
          (right.names.filter (· ∉ Pairing.rights (full.take n))) ∧
      ((c.sortBoth left right (.start 0)).2.2.basis ≠ .collated → n = 0)) ∧
    ∀ x ∈ left.names, x ∈ right.names → Pairing.HandedOnce x (Visit.handed visits) := by
  intro c left right visitor
  have hl : left.names.Nodup := by
    rw [NameTable.names_ofList]
    decide
  have hr : right.names.Nodup := by
    rw [NameTable.names_ofList]
    decide
  exact handed_seamless (c := c) (s := .start 0) (Collator.keyedBy_failingOnCall _ _) hl hr
    (NameTable.trueTo_of_unsorted rfl) (NameTable.trueTo_of_unsorted rfl) fun _ _ _ => rfl

end Comparison

end TreeCompare
