import TreeCompare.Proofs.Trees.Resolution
/-!
# Paths in a tree with one object more

An object is entered into a directory under a name that was vacant there. Unless
the object is a link, everything leads where it led, and what led to the vacant
name leads to the object (`way_enter`, `Leads.enter`).
-/

namespace TreeCompare

namespace FileTree

variable {t : FileTree} {dir here links : Nat} {name : Name} {part : List UInt8} {o : Object}
  {parts rest : List (List UInt8)} {follow directory : Bool} {target : Path}

/-! ## Objects and entries -/

theorem object_enter (t : FileTree) (dir : Nat) (name : Name) (o : Object) :
    (t.enter dir name o).objects[t.objects.length]? = some o := by
  simp [enter]

/-- What the objects are when one more is entered into a directory. -/
theorem content?_enter (i : Nat) :
    (t.enter dir name o).content? i =
      if i = t.objects.length then some o.content
      else match t.content? i with
        | some (.directory parent entries failAfter) =>
          some (.directory parent
            (if i = dir then entries ++ [(name, t.objects.length)] else entries) failAfter)
        | c => c := by
  unfold content? enter
  simp only
  split
  · next hi => rw [hi, List.getElem?_append_right (by simp)]; simp
  · next hi =>
    rcases Nat.lt_or_ge i t.objects.length with hlt | hge
    · rw [List.getElem?_append_left (by simpa using hlt), List.getElem?_modify]
      rw [List.getElem?_eq_getElem hlt]
      simp only [Option.map_eq_map, Option.map_some]
      by_cases hdir : dir = i
      · subst hdir
        simp only [if_true]
        split <;> simp_all
      · simp only [if_neg hdir, if_neg (Ne.symm hdir)]
        split <;> simp_all
    · have hlen : t.objects.length + 1 ≤ i := by omega
      rw [List.getElem?_eq_none (by simpa using hlen), List.getElem?_eq_none hge]
      rfl

/-- What a name leads to is not changed by an entry behind it. -/
theorem lookup_append {entries : List (Name × Nat)} {name name' : Name} {i j : Nat}
    (h : lookup name entries = some i) : lookup name (entries ++ [(name', j)]) = some i := by
  simp only [lookup, Option.map_eq_some_iff, List.find?_append] at h ⊢
  obtain ⟨entry, hentry, hi⟩ := h
  exact ⟨entry, by rw [hentry, Option.some_or], hi⟩

/-- A name that no entry has leads to one behind them all, if that has it. -/
theorem lookup_append_of_none {entries : List (Name × Nat)} {name name' : Name} {i : Nat}
    (h : lookup name entries = none) :
    lookup name (entries ++ [(name', i)]) = if name' = name then some i else none := by
  simp only [lookup, Option.map_eq_none_iff] at h ⊢
  rw [List.find?_append, h, Option.none_or, List.find?_singleton]
  by_cases hname : name' = name
  · simp [hname]
  · simp [hname]

theorem content?_length (t : FileTree) : t.content? t.objects.length = none := by
  rw [content?, List.getElem?_eq_none (Nat.le_refl _)]
  rfl

theorem IsDirectory.ne_length {i : Nat} (h : t.IsDirectory i) : i ≠ t.objects.length := by
  rintro rfl
  obtain ⟨parent, entries, failAfter, hc⟩ := h
  rw [content?_length] at hc
  cases hc

/-! ## Ways -/

/-- An entry leads where it led, if what is new is no link. -/
theorem wayTo_enter (ho : o.kind ≠ .symlink) (i : Nat) :
    (t.enter dir name o).wayTo i = t.wayTo i := by
  rw [wayTo, wayTo, content?_enter]
  by_cases hi : i = t.objects.length
  · rw [if_pos hi, hi, content?_length]
    rw [Object.kind] at ho
    cases hc : o.content <;> simp_all
  · rw [if_neg hi]
    cases t.content? i with
    | none => rfl
    | some c => cases c <;> rfl

/-- Where a part leads when the object is entered that its name was vacant for. -/
def Way.entered (dir : Nat) (name : Name) (object : Nat) (here : Nat) (part : List UInt8) :
    Way → Way
  | .vacant => if here = dir ∧ name = ⟨part⟩ then .entry object else .vacant
  | way => way

theorem entered_wayTo (object i : Nat) :
    (t.wayTo i).entered dir name object here part = t.wayTo i := by
  rw [wayTo]
  split <;> rfl

/-- **Where parts lead when an object is entered**: to the object if its name was
vacant, and where they led if not. -/
theorem way_enter (ho : o.kind ≠ .symlink) (hhere : t.IsDirectory here) (part : List UInt8) :
    (t.enter dir name o).way here part =
      (t.way here part).entered dir name t.objects.length here part := by
  have hnew : (t.enter dir name o).wayTo t.objects.length = .entry t.objects.length := by
    rw [wayTo_enter ho, wayTo, content?_length]
  have hne := hhere.ne_length
  obtain ⟨parent, entries, failAfter, hc⟩ := hhere
  unfold way
  rw [content?_enter, if_neg hne, hc]
  simp only
  split
  · rfl
  split
  · rfl
  split
  · rfl
  cases hlookup : lookup ⟨part⟩ entries with
  | none =>
    rw [apply_ite (lookup ⟨part⟩), lookup_append_of_none hlookup, hlookup, Way.entered]
    by_cases hdir : here = dir
    · by_cases hname : name = ⟨part⟩
      · simp only [if_pos hdir, if_pos hname, if_pos (And.intro hdir hname), hnew]
      · rw [if_pos hdir, if_neg hname, if_neg fun h => hname h.2]
    · rw [if_neg hdir, if_neg fun h => hdir h.1]
  | some i =>
    rw [apply_ite (lookup ⟨part⟩), lookup_append hlookup, hlookup, ite_self]
    simp only [wayTo_enter ho, entered_wayTo]

/-! ## Stretches and walks -/

/-- A stretch that led to nothing leads to the new object. -/
theorem stretch_enter_vacant (ho : o.kind ≠ .symlink) {directory' : Bool}
    (hkind : directory' = true → o.kind = .directory)
    (h : t.stretch follow directory here parts = .arrived (.vacant dir name)) :
    (t.enter dir name o).stretch true directory' here parts =
      .arrived (.found t.objects.length) := by
  induction parts generalizing here with
  | nil => cases stretch_nil_eq_arrived h
  | cons part rest ih =>
    rw [stretch_cons] at h
    have hhere : t.IsDirectory here := isDirectory_of_way fun e hway => by
      rw [hway] at h
      cases h
    rw [stretch_cons, way_enter ho hhere]
    cases hway : t.way here part with
    | entry i =>
      rw [hway] at h
      exact ih h
    | link i target =>
      rw [hway, Way.onward] at h
      split at h <;> cases h
    | vacant =>
      rw [hway, Way.onward] at h
      split at h
      · next hrest =>
        cases h
        rw [Way.entered, if_pos ⟨rfl, rfl⟩, Way.onward, hrest, stretch, object_enter]
        have hfound : ¬(directory' && o.kind != .directory) = true := by
          simpa using hkind
        simp only [if_neg hfound]
      · cases h
    | nowhere e =>
      rw [hway] at h
      cases h

/-- A stretch that led to a link that is gone through still does. -/
theorem stretch_enter_link (ho : o.kind ≠ .symlink) (directory' : Bool) {object : Nat}
    (h : t.stretch follow directory here parts = .link object target rest) :
    (t.enter dir name o).stretch true directory' here parts = .link object target rest := by
  induction parts generalizing here with
  | nil => exact (stretch_nil_ne_link h).elim
  | cons part parts ih =>
    rw [stretch_cons] at h
    have hhere : t.IsDirectory here := isDirectory_of_way fun e hway => by
      rw [hway] at h
      cases h
    rw [stretch_cons, way_enter ho hhere]
    cases hway : t.way here part with
    | entry i =>
      rw [hway] at h
      exact ih h
    | link i target' =>
      rw [hway, Way.onward] at h
      simp only [Way.entered]
      rw [Way.onward, if_neg (by simp)]
      split at h
      · cases h
      · exact h
    | vacant =>
      rw [hway, Way.onward] at h
      split at h <;> cases h
    | nowhere e =>
      rw [hway] at h
      cases h

/-- **A path that led to nothing leads to the new directory.** -/
theorem Leads.enter (ho : o.kind = .directory)
    (h : t.Leads follow (.vacant dir name) links here parts directory) (directory' : Bool) :
    (t.enter dir name o).Leads true (.found t.objects.length) links here parts directory' := by
  have hlink : o.kind ≠ .symlink := by
    rw [ho]
    decide
  induction h generalizing directory' with
  | arrived h => exact .arrived (stretch_enter_vacant hlink (fun _ => ho) h)
  | link h _ ih => exact .link (stretch_enter_link hlink directory' h) (ih _)

end FileTree

end TreeCompare
