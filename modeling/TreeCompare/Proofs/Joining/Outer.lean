import Mathlib.Data.List.Nodup
import TreeCompare.Proofs.Joining.Join
/-!
# The outer join by bytes

The outer join of two lists of names hands on every name that either holds,
in the order of bytes, with the sides that hold it (`outerJoin`). A join by
bytes of two sorted lists is their outer join (`Joins.eq_outerJoin`).
-/

namespace TreeCompare

/-- A name with the sides that hold it. -/
def Pairing.ofName (left right : List Name) (name : Name) : Pairing :=
  ⟨if name ∈ left then some name else none, if name ∈ right then some name else none⟩

/-- A name of two lists is on both sides, or on one side alone. -/
theorem Pairing.ofName_cases {left right : List Name} {name : Name}
    (h : name ∈ left ∨ name ∈ right) :
    (name ∈ left ∧ name ∈ right ∧ ofName left right name = ⟨some name, some name⟩) ∨
      (¬ (name ∈ left ∧ name ∈ right) ∧
        ∃ side, (ofName left right name).loneSide = some side) := by
  by_cases hl : name ∈ left
  · by_cases hr : name ∈ right
    · exact Or.inl ⟨hl, hr, by simp [ofName, hl, hr]⟩
    · exact Or.inr ⟨fun h => hr h.2, .left, by simp [ofName, hl, hr, loneSide]⟩
  · have hr := h.resolve_left hl
    exact Or.inr ⟨fun h => hl h.1, .right, by simp [ofName, hl, hr, loneSide]⟩

/-- Every name of two lists in the order of bytes, with the sides that hold
it. -/
def outerJoin (left right : List Name) : List Pairing :=
  (NameOrdering.sortBytewise id (left ∪ right)).map (Pairing.ofName left right)

theorem mem_sortBytewise_union {left right : List Name} {name : Name} :
    name ∈ NameOrdering.sortBytewise id (left ∪ right) ↔ name ∈ left ∨ name ∈ right := by
  rw [NameOrdering.sortBytewise, (StableSort.sort_perm _ _).mem_iff, List.mem_union_iff]

/-- What the outer join hands on is a name of one of the lists, with the
sides that hold it. -/
theorem mem_outerJoin {left right : List Name} {p : Pairing} :
    p ∈ outerJoin left right ↔
      ∃ name, (name ∈ left ∨ name ∈ right) ∧ Pairing.ofName left right name = p := by
  rw [outerJoin, List.mem_map]
  exact exists_congr fun name => and_congr_left fun _ => mem_sortBytewise_union

/-- The name of a pairing that shows a name of two lists is that name. -/
theorem Pairing.name_ofName {left right : List Name} {name : Name}
    (h : name ∈ left ∨ name ∈ right) : (ofName left right name).name = name := by
  by_cases hl : name ∈ left
  · simp [ofName, Pairing.name, hl]
  · simp [ofName, Pairing.name, hl, h.resolve_left hl]

/-- On each side an outer join hands on that name or none. -/
theorem eq_name_of_mem_outerJoin {left right : List Name} {p : Pairing} {side : Side} {x : Name}
    (hp : p ∈ outerJoin left right) (hx : p.get side = some x) : x = p.name := by
  obtain ⟨name, hname, rfl⟩ := mem_outerJoin.1 hp
  rw [Pairing.name_ofName hname]
  cases side with
  | left => exact (Option.some.inj (Option.ite_none_right_eq_some.1 hx).2).symm
  | right => exact (Option.some.inj (Option.ite_none_right_eq_some.1 hx).2).symm

/-- **The outer join hands on names in the order of bytes**, none of them
twice. -/
theorem ascending_outerJoin {left right : List Name} (hr : right.Nodup) :
    Keying.bytes.Sorted ((outerJoin left right).map (·.name)) := by
  have hnames : (outerJoin left right).map (·.name) =
      NameOrdering.sortBytewise id (left ∪ right) := by
    rw [outerJoin, List.map_map]
    refine (List.map_congr_left fun name h => ?_).trans (List.map_id _)
    exact Pairing.name_ofName (mem_sortBytewise_union.1 h)
  rw [hnames]
  exact Keying.sorted_sortBytewise (hr.union left)

/-- Lists that hold the same names together have their names in the same
order. -/
theorem sortBytewise_union_eq {left right left' right' : List Name} (hr : right.Nodup)
    (hr' : right'.Nodup)
    (h : ∀ name, name ∈ left ∨ name ∈ right ↔ name ∈ left' ∨ name ∈ right') :
    NameOrdering.sortBytewise id (left ∪ right) =
      NameOrdering.sortBytewise id (left' ∪ right') := by
  have hsorted := Keying.sorted_sortBytewise (hr.union left)
  have hsorted' := Keying.sorted_sortBytewise (hr'.union left')
  refine hsorted.eq_of_perm hsorted'
    ((List.perm_ext_iff_of_nodup hsorted.nodup hsorted'.nodup).2 fun name => ?_)
  rw [mem_sortBytewise_union, mem_sortBytewise_union, h]

/-- The outer join hands on nothing but names of both lists, and `P` holds of
them, exactly if the lists have the same members and it holds of those. -/
theorem forall_outerJoin_iff {left right : List Name} {P : Name → Prop} :
    (∀ p ∈ outerJoin left right, ∃ name, p = ⟨some name, some name⟩ ∧ P name) ↔
      (∀ name, name ∈ left ↔ name ∈ right) ∧ ∀ name ∈ left, P name := by
  constructor
  · intro h
    have hname : ∀ name, name ∈ left ∨ name ∈ right →
        (name ∈ left ∧ name ∈ right) ∧ P name := by
      intro name hmem
      obtain ⟨other, he, hP⟩ := h _ (mem_outerJoin.2 ⟨name, hmem, rfl⟩)
      rcases Pairing.ofName_cases hmem with ⟨hl, hr, hboth⟩ | ⟨-, side, hlone⟩
      · rw [hboth] at he
        cases he
        exact ⟨⟨hl, hr⟩, hP⟩
      · rw [he] at hlone
        cases hlone
    exact ⟨fun name => ⟨fun h => (hname name (Or.inl h)).1.2, fun h => (hname name (Or.inr h)).1.1⟩,
      fun name h => (hname name (Or.inl h)).2⟩
  · rintro ⟨hsides, hP⟩ p hp
    obtain ⟨name, hmem, rfl⟩ := mem_outerJoin.1 hp
    have hl : name ∈ left := hmem.elim id (hsides name).2
    rcases Pairing.ofName_cases hmem with ⟨-, -, hboth⟩ | ⟨hnot, -⟩
    · exact ⟨name, hboth, hP name hl⟩
    · exact absurd ⟨hl, (hsides name).1 hl⟩ hnot

namespace Keying

variable {k : Keying} {left right : List Name} {handed : List Pairing} {p : Pairing} {x : Name}

/-- A name of both sides that is handed on is handed on with itself. -/
theorem Joins.eq_of_mentions (h : k.Joins left right handed) (hl : left.Nodup) (hr : right.Nodup)
    (hxl : x ∈ left) (hxr : x ∈ right) (hp : p ∈ handed) (hx : p.Mentions x) :
    p = ⟨some x, some x⟩ :=
  Pairing.eq_of_mentions (h.perm.1.nodup_iff.2 hl) (h.perm.2.nodup_iff.2 hr) (h.exact hxl hxr)
    hp hx

/-- Different pairings have different names. -/
theorem Joins.name_ne (h : k.Joins left right handed) (hl : left.Nodup) (hr : right.Nodup) :
    handed.Pairwise fun p q => p.name ≠ q.name := by
  have hpl := List.pairwise_filterMap.1 (h.perm.1.nodup_iff.2 hl)
  have hpr := List.pairwise_filterMap.1 (h.perm.2.nodup_iff.2 hr)
  refine (hpl.and hpr).imp_of_mem ?_
  rintro p q hp hq ⟨hleft, hright⟩ hname
  have hpm := Pairing.mentions_name (h.ne_none p hp)
  have hqm := Pairing.mentions_name (h.ne_none q hq)
  rw [← hname] at hqm
  -- if the name is on both sides, both pairings are that of the name with itself
  by_cases hboth : p.name ∈ left ∧ p.name ∈ right
  · have hpe := h.eq_of_mentions hl hr hboth.1 hboth.2 hp hpm
    have hqe := h.eq_of_mentions hl hr hboth.1 hboth.2 hq hqm
    exact hleft p.name (by rw [hpe]; rfl) p.name (by rw [hqe]) rfl
  · rcases hpm with hpm | hpm <;> rcases hqm with hqm | hqm
    · exact hleft _ hpm _ hqm rfl
    · exact hboth ⟨h.mem_left hp hpm, h.mem_right hq hqm⟩
    · exact hboth ⟨h.mem_left hq hqm, h.mem_right hp hpm⟩
    · exact hright _ hpm _ hqm rfl

/-- Each pairing of a join by bytes is a name with the sides that hold
it. -/
theorem Joins.eq_ofName (h : Keying.bytes.Joins left right handed) (hl : left.Nodup)
    (hr : right.Nodup) (hp : p ∈ handed) : p = Pairing.ofName left right p.name := by
  have hboth : ∀ x, p.Mentions x → x ∈ left → x ∈ right → p = ⟨some x, some x⟩ :=
    fun x hx hxl hxr => h.eq_of_mentions hl hr hxl hxr hp hx
  have hmem := fun x => h.mem_left (x := x) hp
  have hmem' := fun x => h.mem_right (x := x) hp
  rcases hpe : p with ⟨_ | a, _ | b⟩ <;> subst hpe
  · exact absurd rfl (h.ne_none _ hp)
  · have hb := hmem' b rfl
    have hnb : b ∉ left := fun hc => by simpa using hboth b (Or.inr rfl) hc hb
    simp [Pairing.ofName, Pairing.name, hb, hnb]
  · have ha := hmem a rfl
    have hna : a ∉ right := fun hc => by simpa using hboth a (Or.inl rfl) ha hc
    simp [Pairing.ofName, Pairing.name, ha, hna]
  · have hab : a = b := Name.bytewise_eq_eq.1 (h.matched hp rfl rfl)
    subst hab
    simp [Pairing.ofName, Pairing.name, hmem a rfl, hmem' a rfl]

/-- Every name of the two lists is the name of a pairing. -/
theorem Joins.exists_name (h : Keying.bytes.Joins left right handed) :
    x ∈ left ∨ x ∈ right → ∃ p ∈ handed, p.name = x := by
  rintro (hx | hx)
  · obtain ⟨p, hp, hpx⟩ := Pairing.mem_lefts.1 (h.perm.1.mem_iff.2 hx)
    exact ⟨p, hp, by simp [Pairing.name, hpx]⟩
  · obtain ⟨p, hp, hpx⟩ := Pairing.mem_rights.1 (h.perm.2.mem_iff.2 hx)
    refine ⟨p, hp, ?_⟩
    cases hpl : p.left with
    | none => simp [Pairing.name, hpl, hpx]
    | some y =>
      have hyx : y = x := Name.bytewise_eq_eq.1 (h.matched hp hpl hpx)
      simp [Pairing.name, hpl, hyx]

/-- **A join by bytes is the outer join**, of any two lists that hold the
same names. -/
theorem Joins.eq_outerJoin (h : Keying.bytes.Joins left right handed)
    (hl : Keying.bytes.Sorted left) (hr : Keying.bytes.Sorted right) {left' right' : List Name}
    (hd : right'.Nodup) (hl' : ∀ x, x ∈ left ↔ x ∈ left') (hr' : ∀ x, x ∈ right ↔ x ∈ right') :
    handed = outerJoin left' right' := by
  have hof : ∀ p ∈ handed, Pairing.ofName left' right' p.name = p := by
    intro p hp
    have heq : Pairing.ofName left right = Pairing.ofName left' right' := by
      funext x
      simp only [Pairing.ofName, hl', hr']
    rw [← heq]
    exact (h.eq_ofName hl.nodup hr.nodup hp).symm
  -- both lists of names are sorted, and hold the same names
  have hnames : handed.map Pairing.name = NameOrdering.sortBytewise id (left' ∪ right') := by
    have hsorted : Keying.bytes.Sorted (handed.map Pairing.name) := by
      rw [Sorted, List.pairwise_map]
      refine ((h.ascending hl hr).and (h.name_ne hl.nodup hr.nodup)).imp_of_mem ?_
      rintro p q hp hq ⟨hle, hne⟩
      have hgt := hle _ _ (Pairing.mentions_name (h.ne_none p hp))
        (Pairing.mentions_name (h.ne_none q hq))
      rcases sorting_total (k := Keying.bytes) hne with hlt | hlt
      · exact hlt
      · rw [sorting_bytes] at hlt
        exact absurd (Std.OrientedCmp.gt_iff_lt.2 hlt) hgt
    have hsorted' : Keying.bytes.Sorted (NameOrdering.sortBytewise id (left' ∪ right')) :=
      sorted_sortBytewise (hd.union _)
    refine hsorted.eq_of_perm hsorted'
      ((List.perm_ext_iff_of_nodup hsorted.nodup hsorted'.nodup).2 fun x => ?_)
    rw [mem_sortBytewise_union, ← hl', ← hr', List.mem_map]
    constructor
    · rintro ⟨p, hp, rfl⟩
      exact h.mem_of_mentions hp (Pairing.mentions_name (h.ne_none p hp))
    · exact h.exists_name
  rw [outerJoin, ← hnames, List.map_map]
  exact (List.map_congr_left hof |>.trans (List.map_id _)).symm

end Keying

end TreeCompare
