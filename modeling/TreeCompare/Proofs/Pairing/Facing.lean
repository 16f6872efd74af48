import Mathlib.Data.List.Pairwise
import TreeCompare.Pairing
/-!
# Two lists facing each other

What a pairing takes of two lists of names, and what it leaves. A `Facing`
is two lists whose heads have been compared: the pairing to hand on and the
rests are read off it, and together they are the two lists again
(`Facing.Ready.left_eq`, `Facing.Ready.right_eq`). `Pairing.lefts` and
`Pairing.rights` are the names of the two sides in a list of pairings.
-/

namespace TreeCompare

namespace Pairing

/-- The names of the left side, in the order in which they were handed
on. -/
def lefts (handed : List Pairing) : List Name := handed.filterMap (·.left)

/-- The names of the right side, in the order in which they were handed
on. -/
def rights (handed : List Pairing) : List Name := handed.filterMap (·.right)

variable {p : Pairing} {handed : List Pairing} {x : Name}

@[simp] theorem lefts_nil : lefts [] = [] := rfl

@[simp] theorem rights_nil : rights [] = [] := rfl

theorem lefts_cons : lefts (p :: handed) = p.left.toList ++ lefts handed := by
  unfold lefts
  cases h : p.left <;> simp [h]

theorem rights_cons : rights (p :: handed) = p.right.toList ++ rights handed := by
  unfold rights
  cases h : p.right <;> simp [h]

theorem lefts_append (before after : List Pairing) :
    lefts (before ++ after) = lefts before ++ lefts after := List.filterMap_append

theorem rights_append (before after : List Pairing) :
    rights (before ++ after) = rights before ++ rights after := List.filterMap_append

theorem mem_lefts : x ∈ lefts handed ↔ ∃ p ∈ handed, p.left = some x := List.mem_filterMap

theorem mem_rights : x ∈ rights handed ↔ ∃ p ∈ handed, p.right = some x := List.mem_filterMap

/-- One side of the pairing is the name. -/
def Mentions (p : Pairing) (x : Name) : Prop := p.left = some x ∨ p.right = some x

theorem mentions_left {a : Name} : (⟨some a, none⟩ : Pairing).Mentions x ↔ x = a := by
  simp [Mentions, eq_comm]

theorem mentions_right {b : Name} : (⟨none, some b⟩ : Pairing).Mentions x ↔ x = b := by
  simp [Mentions, eq_comm]

theorem mentions_both {a b : Name} : (⟨some a, some b⟩ : Pairing).Mentions x ↔ x = a ∨ x = b := by
  simp [Mentions, eq_comm]

/-- The name of a pairing is one that it mentions. -/
theorem mentions_name (h : p ≠ ⟨none, none⟩) : p.Mentions p.name := by
  rcases p with ⟨_ | x, _ | y⟩
  · exact absurd rfl h
  · exact Or.inr rfl
  · exact Or.inl rfl
  · exact Or.inl rfl

/-! ## Names that are handed on once -/

/-- Of names that are handed on once, only one pairing holds a given
one. -/
theorem eq_of_nodup {f : Pairing → Option Name} {q : Pairing} (h : (handed.filterMap f).Nodup)
    (hp : p ∈ handed) (hq : q ∈ handed) (hpx : f p = some x) (hqx : f q = some x) : p = q := by
  by_contra hne
  have : Std.Symm fun p q => ∀ a, f p = some a → ∀ b, f q = some b → a ≠ b :=
    ⟨fun p q h a ha b hb => (h b hb a ha).symm⟩
  exact (List.pairwise_filterMap.1 h).forall hp hq hne x hpx x hqx rfl

/-- A name that is handed on with itself is handed on in no other
pairing. -/
theorem eq_of_mentions (hl : (lefts handed).Nodup) (hr : (rights handed).Nodup)
    (hx : ⟨some x, some x⟩ ∈ handed) (hp : p ∈ handed) (h : p.Mentions x) :
    p = ⟨some x, some x⟩ :=
  h.elim (fun h => eq_of_nodup hl hp hx h rfl) (fun h => eq_of_nodup hr hp hx h rfl)

instance : Decidable (p.Mentions x) := inferInstanceAs (Decidable (_ ∨ _))

/-- The one pairing that mentions the name is that with itself. -/
def HandedOnce (x : Name) (handed : List Pairing) : Prop :=
  handed.filter (·.Mentions x) = [⟨some x, some x⟩]

/-- Of names that are handed on once each, one is handed on with itself as
soon as that pairing is there. -/
theorem handedOnce_iff (hl : (lefts handed).Nodup) (hr : (rights handed).Nodup) :
    HandedOnce x handed ↔ ⟨some x, some x⟩ ∈ handed := by
  constructor
  · intro h
    have hmem : ⟨some x, some x⟩ ∈ handed.filter (·.Mentions x) := by
      rw [h]
      exact List.mem_singleton.2 rfl
    exact (List.mem_filter.1 hmem).1
  · intro h
    have hall : ∀ p ∈ handed.filter (·.Mentions x), p = ⟨some x, some x⟩ := by
      intro p hp
      obtain ⟨hp, hm⟩ := List.mem_filter.1 hp
      exact eq_of_mentions hl hr h hp (of_decide_eq_true hm)
    have hrep := List.eq_replicate_of_mem hall
    have hmem : ⟨some x, some x⟩ ∈ handed.filter (·.Mentions x) :=
      List.mem_filter.2 ⟨h, decide_eq_true (Or.inl rfl)⟩
    have hnd : (lefts (handed.filter (·.Mentions x))).Nodup :=
      hl.sublist (List.filter_sublist.filterMap _)
    rw [HandedOnce]
    generalize handed.filter (·.Mentions x) = found at *
    rcases found with - | ⟨p, - | ⟨q, found⟩⟩
    · cases hmem
    · rw [hall p (List.mem_singleton.2 rfl)]
    · rw [hrep] at hnd
      simp [lefts, List.replicate_succ] at hnd

end Pairing

namespace Comparison

/-- What is left of a side behind a pairing: its tail if its head was
handed on. -/
def beyond (o : Ordering) (side : Side) (names : List Name) : List Name :=
  match o, side with
  | .gt, .left | .lt, .right => names
  | _, _ => names.tail

end Comparison

/-- Two tails about to hand on their heads, and which head comes first. -/
structure Facing where
  order : Ordering
  left : List Name
  right : List Name

namespace Facing

/-- The pairing that the heads make. -/
def pairing (f : Facing) : Pairing := Comparison.pairing f.order f.left.head? f.right.head?

/-- What is left of the left side behind the pairing. -/
def restLeft (f : Facing) : List Name := Comparison.beyond f.order .left f.left

/-- What is left of the right side behind the pairing. -/
def restRight (f : Facing) : List Name := Comparison.beyond f.order .right f.right

/-- A head that is about to be handed on is there. -/
structure Ready (f : Facing) : Prop where
  left : f.order ≠ .gt → f.left ≠ []
  right : f.order ≠ .lt → f.right ≠ []

/-- What is handed on of the left side, and what is left of it. -/
theorem Ready.left_eq {f : Facing} (h : f.Ready) :
    f.left = f.pairing.left.toList ++ f.restLeft := by
  obtain ⟨o, left, right⟩ := f
  cases o with
  | gt => rfl
  | lt =>
    obtain ⟨a, as, rfl⟩ := List.exists_cons_of_ne_nil (h.left (by simp))
    rfl
  | eq =>
    obtain ⟨a, as, rfl⟩ := List.exists_cons_of_ne_nil (h.left (by simp))
    rfl

/-- What is handed on of the right side, and what is left of it. -/
theorem Ready.right_eq {f : Facing} (h : f.Ready) :
    f.right = f.pairing.right.toList ++ f.restRight := by
  obtain ⟨o, left, right⟩ := f
  cases o with
  | lt => rfl
  | gt =>
    obtain ⟨b, bs, rfl⟩ := List.exists_cons_of_ne_nil (h.right (by simp))
    rfl
  | eq =>
    obtain ⟨b, bs, rfl⟩ := List.exists_cons_of_ne_nil (h.right (by simp))
    rfl

/-- With what a facing hands on in front, what is handed on of its rests,
and what is then still left, is all of its two lists. -/
theorem Ready.perm_cons {f : Facing} (h : f.Ready) {handed : List Pairing} {u v : List Name}
    (hl : (Pairing.lefts handed ++ u).Perm f.restLeft)
    (hr : (Pairing.rights handed ++ v).Perm f.restRight) :
    (Pairing.lefts (f.pairing :: handed) ++ u).Perm f.left ∧
      (Pairing.rights (f.pairing :: handed) ++ v).Perm f.right := by
  rw [Pairing.lefts_cons, Pairing.rights_cons, List.append_assoc, List.append_assoc]
  constructor
  · rw [h.left_eq]
    exact hl.append_left _
  · rw [h.right_eq]
    exact hr.append_left _

/-- A pairing handed on holds a name. -/
theorem Ready.pairing_ne {f : Facing} (h : f.Ready) : f.pairing ≠ ⟨none, none⟩ := by
  obtain ⟨o, left, right⟩ := f
  cases o with
  | gt =>
    obtain ⟨b, bs, rfl⟩ := List.exists_cons_of_ne_nil (h.right (by simp))
    simp [pairing, Comparison.pairing]
  | lt =>
    obtain ⟨a, as, rfl⟩ := List.exists_cons_of_ne_nil (h.left (by simp))
    simp [pairing, Comparison.pairing]
  | eq =>
    obtain ⟨a, as, rfl⟩ := List.exists_cons_of_ne_nil (h.left (by simp))
    simp [pairing, Comparison.pairing]

/-- A pairing handed on makes what is left shorter. -/
theorem Ready.rest_lt {f : Facing} (h : f.Ready) :
    f.restLeft.length + f.restRight.length < f.left.length + f.right.length := by
  have hl := congrArg List.length h.left_eq
  have hr := congrArg List.length h.right_eq
  have hne := h.pairing_ne
  rw [List.length_append] at hl hr
  rcases hp : f.pairing with ⟨_ | x, _ | y⟩
  · exact absurd hp hne
  all_goals
    simp only [hp, Option.toList_none, Option.toList_some, List.length_nil,
      List.length_singleton] at hl hr
    omega

end Facing

end TreeCompare
