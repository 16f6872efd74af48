import TreeCompare.Proofs.Joining.Outer
import TreeCompare.Proofs.Pairing.Alignment
import TreeCompare.Proofs.Pairing.Visits
/-!
# The course of a pairing

A pairing begins as the join of its two sorted lists under the keying of
the run. It goes on so until the order is given up, if it ever is, and from
then on it is the join by bytes of what is left. What is left is sorted
by bytes if the collator failed the pairing itself; if it failed the
visitor, it is what the join had left, in the order of the keys. `Course`
says this, and `visitsOn_course` that it is so.
-/

namespace TreeCompare

namespace Comparison

variable {σ α : Type} {c : Comparison σ} {visitor : Visitor σ α} {key k : Keying}
  {left right : List Name} {s : RunState σ} {result : α}

/-! ## What every visit keeps -/

/-- What every alignment keeps and every answer of the visitor keeps holds
of the run at every visit. -/
theorem visitsOn_invariant {P : RunState σ → Prop}
    (hal : ∀ left right s, P s → P (c.alignTails left right s).run)
    (hv : ∀ p s result, P s → P (visitor p s result).run) (hs : P s) :
    ∀ v ∈ c.visitsOn visitor left right s result, P v.run ∧ P v.step.run := by
  induction left, right, s, result using visitsOn.induct c visitor with
  | case1 left right s result h t step ih =>
    have ht := hal left right s hs
    have hstep := hv t.pairing t.run result ht
    intro v hmem
    rw [visitsOn_cons h] at hmem
    rcases List.mem_cons.1 hmem with rfl | hmem
    · exact ⟨ht, hstep⟩
    · exact ih hstep v hmem
  | case2 left right s result h =>
    have hnil : left = [] ∧ right = [] := by simpa using h
    rw [hnil.1, hnil.2, visitsOn_nil]
    simp

/-- A pairing whose alignments follow a keying is its join. -/
theorem visitsOn_join {P : RunState σ → Prop} {Q : List Name → Prop}
    (hal : ∀ left right s, P s → P (c.alignTails left right s).run)
    (hv : ∀ p s result, P s → P (visitor p s result).run)
    (hsub : ∀ {shorter longer : List Name}, Q longer → shorter.Sublist longer → Q shorter)
    (hface : ∀ left right s, P s → Q left → Q right →
      (c.alignTails left right s).toFacing = k.face left right)
    (hs : P s) (hl : Q left) (hr : Q right) :
    Visit.handed (c.visitsOn visitor left right s result) = k.join left right := by
  induction left, right, s, result using visitsOn.induct c visitor with
  | case1 left right s result h t step ih =>
    have hf := hface left right s hs hl hr
    obtain ⟨hsl, hsr⟩ := k.sublist_face left right
    rw [← hf] at hsl hsr
    rw [visitsOn_cons h, Visit.handed_cons, Keying.join_cons h, ← hf]
    rw [ih (hv _ _ _ (hal left right s hs)) (hsub hl hsl) (hsub hr hsr)]
  | case2 left right s result h =>
    have hnil : left = [] ∧ right = [] := by simpa using h
    rw [hnil.1, hnil.2, visitsOn_nil, Keying.join_nil]
    rfl

/-- The run orders names by bytes at every visit, once it does. -/
theorem visitsOn_bytewise (hv : Visitor.Keeps RunState.Onward visitor)
    (hs : s.basis = .bytewise) :
    ∀ v ∈ c.visitsOn visitor left right s result,
      v.run.basis = .bytewise ∧ v.step.run.basis = .bytewise :=
  visitsOn_invariant (fun left right s h =>
      (alignTails_law c.order.stepLaw_onward left right s).bytewise h)
    (fun p s result h => (hv p s result).bytewise h) hs

/-- **A pairing by bytes** is the join by bytes, in whatever order the
names are. -/
theorem visitsOn_eq_join_bytes (hv : Visitor.Keeps RunState.Onward visitor)
    (hs : s.basis = .bytewise) (hl : left.Nodup) (hr : right.Nodup) :
    Visit.handed (c.visitsOn visitor left right s result) = Keying.bytes.join left right :=
  visitsOn_join (P := fun s => s.basis = .bytewise) (Q := List.Nodup)
    (fun left right s h => (alignTails_law c.order.stepLaw_onward left right s).bytewise h)
    (fun p s result h => (hv p s result).bytewise h) (fun h hs => hs.nodup h)
    (fun left right s h hl hr => by
      rw [alignTails_of_not_usesKeys (NameOrdering.not_usesKeys_of_bytewise h) hl hr])
    hs hl hr

/-! ## The course -/

/-- How a pairing of two lists goes: the visits before the order is given
up and those after, with the names that the latter are about. -/
structure Course (k : Keying) (left right : List Name) (before after : List (Visit σ α))
    (restLeft restRight : List Name) : Prop where
  /-- It begins as the join under the keying. -/
  before_eq : Visit.handed before = (k.join left right).take before.length
  /-- It ends as the join by bytes of what is left. -/
  after_eq : Visit.handed after = Keying.bytes.join restLeft restRight
  left_perm : (Pairing.lefts (Visit.handed before) ++ restLeft).Perm left
  right_perm : (Pairing.rights (Visit.handed before) ++ restRight).Perm right
  before_basis : ∀ v ∈ before, v.run.basis = .collated
  after_basis : ∀ v ∈ after, v.run.basis = .bytewise ∧ v.step.run.basis = .bytewise
  /-- What is left was sorted again, or the order was given up within the
  last visit before and what is left is as it was. -/
  cause :
    (Keying.bytes.Sorted restLeft ∧ Keying.bytes.Sorted restRight ∧
      ∀ v ∈ before, v.step.run.basis = .collated) ∨
    (restLeft.Sublist left ∧ restRight.Sublist right ∧
      ∃ earlier call, before = earlier ++ [call] ∧ call.step.run.basis = .bytewise ∧
        ∀ v ∈ earlier, v.step.run.basis = .collated)

/-- One more pairing in front of a course. -/
theorem Course.cons {before after : List (Visit σ α)} {restLeft restRight : List Name}
    (h : left ≠ [] ∨ right ≠ [])
    (hc : Course k (k.face left right).restLeft (k.face left right).restRight before after
      restLeft restRight) (v : Visit σ α) (hp : v.pairing = (k.face left right).pairing)
    (hb : v.run.basis = .collated) (hb' : v.step.run.basis = .collated) :
    Course k left right (v :: before) after restLeft restRight := by
  obtain ⟨hl, hr⟩ := k.perm_face left right
  obtain ⟨hsl, hsr⟩ := k.sublist_face left right
  obtain ⟨hpl, hpr⟩ := (Keying.ready_face (k := k) h).perm_cons hc.left_perm hc.right_perm
  rw [← hp] at hpl hpr
  refine ⟨?_, hc.after_eq, hpl.trans hl, hpr.trans hr, ?_, hc.after_basis, ?_⟩
  · rw [Visit.handed_cons, hp, hc.before_eq, Keying.join_cons h]
    rfl
  · intro w hw
    rcases List.mem_cons.1 hw with rfl | hw
    · exact hb
    · exact hc.before_basis w hw
  · rcases hc.cause with ⟨hcl, hcr, hall⟩ | ⟨hcl, hcr, earlier, call, he, hcall, hall⟩
    · refine Or.inl ⟨hcl, hcr, fun w hw => ?_⟩
      rcases List.mem_cons.1 hw with rfl | hw
      · exact hb'
      · exact hall w hw
    · refine Or.inr ⟨hcl.trans hsl, hcr.trans hsr, v :: earlier, call, by rw [he]; rfl, hcall,
        fun w hw => ?_⟩
      rcases List.mem_cons.1 hw with rfl | hw
      · exact hb'
      · exact hall w hw

/-- Only a run that is collated has something to give up. -/
theorem Course.collated {before after : List (Visit σ α)} {restLeft restRight : List Name}
    (hc : Course k left right before after restLeft restRight)
    (hv : Visitor.Keeps RunState.Onward visitor)
    (he : c.visitsOn visitor left right s result = before ++ after) {v : Visit σ α}
    (hmem : v ∈ before) : s.basis = .collated := by
  cases hs : s.basis with
  | collated => rfl
  | bytewise =>
    have hvisit : v ∈ c.visitsOn visitor left right s result := by
      rw [he]
      exact List.mem_append_left _ hmem
    have hb := (visitsOn_bytewise hv hs v hvisit).1
    rw [hc.before_basis v hmem] at hb
    cases hb

/-- If the visitor leaves the order alone, what is left was sorted again. -/
theorem Course.sorted_rest {before after : List (Visit σ α)} {restLeft restRight : List Name}
    (hc : Course k left right before after restLeft restRight)
    (hkeep : ∀ v ∈ before, v.step.run.basis = v.run.basis) :
    Keying.bytes.Sorted restLeft ∧ Keying.bytes.Sorted restRight := by
  rcases hc.cause with ⟨hl, hr, -⟩ | ⟨-, -, earlier, call, hb, hcall, -⟩
  · exact ⟨hl, hr⟩
  · have hmem : call ∈ before := by simp [hb]
    rw [hkeep call hmem, hc.before_basis call hmem] at hcall
    cases hcall

/-- What was handed on before is what the join hands on. -/
theorem Course.mem_join {before after : List (Visit σ α)} {restLeft restRight : List Name}
    (hc : Course k left right before after restLeft restRight) {p : Pairing}
    (hp : p ∈ Visit.handed before) : p ∈ k.join left right := by
  rw [hc.before_eq] at hp
  exact List.mem_of_mem_take hp

/-- **A name of both sides is handed on with itself before the order is
given up, or both sides still have it.** -/
theorem Course.exact_or {before after : List (Visit σ α)} {restLeft restRight : List Name}
    (hc : Course k left right before after restLeft restRight) (hl : k.Sorted left)
    (hr : k.Sorted right) {x : Name} (hxl : x ∈ left) (hxr : x ∈ right) :
    ⟨some x, some x⟩ ∈ Visit.handed before ∨ x ∈ restLeft ∧ x ∈ restRight := by
  have hj := Keying.joins_join hl hr
  have honly : ∀ p ∈ Visit.handed before, p.Mentions x → p = ⟨some x, some x⟩ :=
    fun p hp => hj.eq_of_mentions hl.nodup hr.nodup hxl hxr (hc.mem_join hp)
  rcases List.mem_append.1 (hc.left_perm.mem_iff.2 hxl) with hb | hrl
  · obtain ⟨p, hp, hpx⟩ := Pairing.mem_lefts.1 hb
    exact Or.inl (honly p hp (Or.inl hpx) ▸ hp)
  rcases List.mem_append.1 (hc.right_perm.mem_iff.2 hxr) with hb | hrr
  · obtain ⟨p, hp, hpx⟩ := Pairing.mem_rights.1 hb
    exact Or.inl (honly p hp (Or.inr hpx) ▸ hp)
  · exact Or.inr ⟨hrl, hrr⟩

/-- The order given up within a first visit. -/
theorem Course.single {after : List (Visit σ α)} (h : left ≠ [] ∨ right ≠ []) (v : Visit σ α)
    (hp : v.pairing = (k.face left right).pairing) (hb : v.run.basis = .collated)
    (hb' : v.step.run.basis = .bytewise)
    (he : Visit.handed after =
      Keying.bytes.join (k.face left right).restLeft (k.face left right).restRight)
    (ha : ∀ v ∈ after, v.run.basis = .bytewise ∧ v.step.run.basis = .bytewise) :
    Course k left right [v] after (k.face left right).restLeft (k.face left right).restRight := by
  obtain ⟨hl, hr⟩ := k.perm_face left right
  obtain ⟨hsl, hsr⟩ := k.sublist_face left right
  obtain ⟨hpl, hpr⟩ := (Keying.ready_face (k := k) h).perm_cons
    (List.Perm.refl (Pairing.lefts [] ++ (k.face left right).restLeft))
    (List.Perm.refl (Pairing.rights [] ++ (k.face left right).restRight))
  rw [← hp] at hpl hpr
  refine ⟨?_, he, hpl.trans hl, hpr.trans hr, by simpa using hb, ha,
    Or.inr ⟨hsl, hsr, [], v, rfl, hb', by simp⟩⟩
  rw [Visit.handed_cons, hp, Keying.join_cons h]
  rfl

/-- The order given up on the way to the first pairing. -/
theorem Course.dropped (h : left ≠ [] ∨ right ≠ []) (hv : Visitor.Keeps RunState.Onward visitor)
    {left' right' : List Name} (hpl : left'.Perm left) (hpr : right'.Perm right)
    (hsl : Keying.bytes.Sorted left') (hsr : Keying.bytes.Sorted right')
    (hf : (c.alignTails left right s).toFacing = Keying.bytes.face left' right')
    (hb : (c.alignTails left right s).run.basis = .bytewise) :
    Course k left right [] (c.visitsOn visitor left right s result) left' right' := by
  have hne : left' ≠ [] ∨ right' ≠ [] := by
    refine h.imp (fun h hn => h ?_) (fun h hn => h ?_)
    · exact List.nil_perm.1 (hn ▸ hpl)
    · exact List.nil_perm.1 (hn ▸ hpr)
  obtain ⟨hsubl, hsubr⟩ := Keying.bytes.sublist_face left' right'
  rw [← hf] at hsubl hsubr
  have hsb := (hv (c.alignTails left right s).pairing _ result).bytewise hb
  refine ⟨rfl, ?_, hpl, hpr, by simp, ?_, Or.inl ⟨hsl, hsr, by simp⟩⟩
  · rw [visitsOn_cons h, Visit.handed_cons, Keying.join_cons hne, ← hf]
    congr 1
    exact visitsOn_eq_join_bytes hv hsb (hsubl.nodup hsl.nodup) (hsubr.nodup hsr.nodup)
  · intro v hmem
    rw [visitsOn_cons h] at hmem
    rcases List.mem_cons.1 hmem with rfl | hmem
    · exact ⟨hb, hsb⟩
    · exact visitsOn_bytewise hv hsb v hmem

/-- The order kept up to the first pairing: what follows goes a course of
its own, or the visitor gave the order up. -/
theorem Course.exists_kept (h : left ≠ [] ∨ right ≠ [])
    (hv : Visitor.Keeps RunState.Onward visitor) (hl : k.Sorted left) (hr : k.Sorted right)
    (hf : (c.alignTails left right s).toFacing = k.face left right)
    (hb : (c.alignTails left right s).run.basis = .collated)
    (hrest : let t := c.alignTails left right s
      let step := visitor t.pairing t.run result
      step.run.basis = .collated → ∃ before after restLeft restRight,
        c.visitsOn visitor t.restLeft t.restRight step.run step.result = before ++ after ∧
          Course k t.restLeft t.restRight before after restLeft restRight) :
    ∃ before after restLeft restRight,
      c.visitsOn visitor left right s result = before ++ after ∧
        Course k left right before after restLeft restRight := by
  obtain ⟨hsubl, hsubr⟩ := k.sublist_face left right
  rw [visitsOn_cons h]
  generalize c.alignTails left right s = t at *
  simp only at hrest ⊢
  generalize hstep : visitor t.pairing t.run result = step at *
  rw [hf] at hrest ⊢
  -- the visitor may have given the order up within the first visit
  cases hsb : step.run.basis with
  | bytewise =>
    refine ⟨[_], _, _, _, rfl, Course.single h _ rfl hb hsb ?_ (visitsOn_bytewise hv hsb)⟩
    exact visitsOn_eq_join_bytes hv hsb (hsubl.nodup hl.nodup) (hsubr.nodup hr.nodup)
  | collated =>
    obtain ⟨before, after, restLeft, restRight, he, hc⟩ := hrest hsb
    refine ⟨_ :: before, after, restLeft, restRight, ?_,
      hc.cons h ⟨(k.face left right).pairing, t.run, result, step⟩ rfl hb hsb⟩
    rw [List.cons_append, ← he]

/-- **How every pairing of two sorted lists goes**, if the visitor does not
enable collation again. -/
theorem visitsOn_course (hk : c.order.collator.KeyedBy key)
    (hv : Visitor.Keeps RunState.Onward visitor)
    (hl : (c.order.keying key s.basis).Sorted left)
    (hr : (c.order.keying key s.basis).Sorted right) (result : α) :
    ∃ before after restLeft restRight,
      c.visitsOn visitor left right s result = before ++ after ∧
        Course (c.order.keying key s.basis) left right before after restLeft restRight := by
  by_cases hs : s.basis = .bytewise
  · -- there is nothing to give up
    rw [hs, NameOrdering.keying_bytewise] at hl hr ⊢
    refine ⟨[], _, left, right, rfl, rfl, visitsOn_eq_join_bytes hv hs hl.nodup hr.nodup,
      List.Perm.refl _, List.Perm.refl _, by simp, visitsOn_bytewise hv hs,
      Or.inl ⟨hl, hr, by simp⟩⟩
  have hs : s.basis = .collated := by cases h : s.basis <;> simp_all
  -- the first visit that leaves the run by bytes, if there is one, ends the induction
  induction left, right, s, result using visitsOn.induct c visitor with
  | case1 left right s result h t step ih =>
    obtain ⟨hsubl, hsubr⟩ := (c.order.keying key s.basis).sublist_face left right
    rcases alignTails_spec hk hl hr with ⟨hb, hf⟩ | ⟨-, hb, left', right', hpl, hpr, hsl, hsr, hf⟩
    · refine Course.exists_kept h hv hl hr hf (hb.trans hs) fun hsb => ?_
      rw [← hf] at hsubl hsubr
      have hsame : step.run.basis = s.basis := Eq.trans hsb hs.symm
      rw [← hsame] at hl hr ⊢
      exact ih (hl.sublist hsubl) (hr.sublist hsubr) (by rw [hsb]; simp) hsb
    · exact ⟨[], _, left', right', rfl, Course.dropped h hv hpl hpr hsl hsr hf hb⟩
  | case2 left right s result h =>
    have hnil : left = [] ∧ right = [] := by simpa using h
    obtain ⟨rfl, rfl⟩ := hnil
    rw [visitsOn_nil]
    refine ⟨[], [], [], [], rfl, by simp, ?_, List.Perm.refl _, List.Perm.refl _, by simp, by simp,
      Or.inl ⟨List.Pairwise.nil, List.Pairwise.nil, by simp⟩⟩
    rw [Keying.join_nil]
    rfl

end Comparison

end TreeCompare
