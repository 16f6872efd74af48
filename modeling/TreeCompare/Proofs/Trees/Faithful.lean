import TreeCompare.Proofs.Trees.Equality
import TreeCompare.Proofs.Trees.Listing
/-!
# File trees say what is so

A path that leads to something else than a symbolic link leads there whether
links are followed or not (`FileTree.find_followed`). So what a look at a
path finds is what opening the path opens, and the file system of a tree
that keeps its names apart is faithful (`FileTree.Distinct.faithful`).
-/

namespace TreeCompare

namespace FileTree

variable {t : FileTree} {path : Path} {i : Nat}

/-! ## Following links -/

/-- Following links makes a difference to a stretch only at a link that
comes last. -/
theorem stretch_followed (directory : Bool) (here : Nat) (parts : List (List UInt8)) :
    t.stretch false directory here parts = t.stretch true directory here parts ∨
      ∃ i target, t.stretch false directory here parts = .arrived (.found i) ∧
        t.content? i = some (.symlink target) := by
  induction parts generalizing here with
  | nil => exact Or.inl rfl
  | cons part rest ih =>
    rw [stretch_cons, stretch_cons]
    cases hway : t.way here part with
    | entry i => exact ih i
    | link i target =>
      by_cases hlast : rest = [] ∧ !directory
      · exact Or.inr ⟨i, target, if_pos ⟨hlast.1, rfl, hlast.2⟩, content?_of_way_link hway⟩
      · refine Or.inl ?_
        rw [Way.onward, Way.onward, if_neg fun h => hlast ⟨h.1, h.2.2⟩, if_neg (by simp)]
    | vacant => exact Or.inl rfl
    | nowhere e => exact Or.inl rfl

/-- A walk that ends at an object which is no link ends there as well if
links are followed. -/
theorem Leads.followed {links here : Nat} {parts : List (List UInt8)} {directory : Bool}
    (h : t.Leads false (.found i) links here parts directory)
    (hi : ∀ target, t.content? i ≠ some (.symlink target)) :
    t.Leads true (.found i) links here parts directory := by
  induction h with
  | @arrived links here parts directory h =>
    rcases t.stretch_followed directory here parts with he | ⟨j, target, he, hc⟩
    · exact .arrived (he ▸ h)
    · cases he.symm.trans h
      exact absurd hc (hi target)
  | @link links here dir parts rest directory target h _ ih =>
    rcases t.stretch_followed directory here parts with he | ⟨j, target, he, -⟩
    · exact .link (he ▸ h) ih
    · cases he.symm.trans h

/-- **What is no link is found by following links as well.** -/
theorem find_followed {follow : Bool} (h : t.find path follow = .ok i)
    (hi : ∀ target, t.content? i ≠ some (.symlink target)) : t.find path true = .ok i := by
  cases follow with
  | true => exact h
  | false =>
    unfold find locate at h ⊢
    split at h
    · next j hlocate =>
      cases h
      split at hlocate
      · cases hlocate
      · simp only [walk_eq_ok.2 ((walk_eq_ok.1 hlocate).followed hi)]
    · cases h
    · cases h

/-! ## Regular files -/

/-- The bytes of a file of this content. -/
def bytesOf : Content → List UInt8
  | .regular bytes => bytes
  | _ => []

/-- **A regular file is opened where it is seen**, whole. -/
theorem exists_openFile {follow : Bool} {stat : ObjectStat} (h : t.stat path follow = .ok stat)
    (hk : stat.kind = .regular) :
    ∃ i o file, t.objects[i]? = some o ∧ statOf i o = stat ∧ t.openFile path = .ok file ∧
      file.rest = bytesOf o.content := by
  unfold FileTree.stat at h
  split at h
  · cases h
  · next i hi =>
    split at h
    · next o ho =>
      cases h
      have hfound := find_followed hi fun target hc => by
        simp only [content?, ho, Option.map_some, Option.some.injEq] at hc
        simp [statOf, Object.kind, hc] at hk
      refine ⟨i, o, ?_⟩
      simp only [openFile, hfound, ho, true_and]
      cases hc : o.content with
      | directory => simp [statOf, Object.kind, hc] at hk
      | _ => exact ⟨_, rfl, rfl⟩
    · cases h

/-- A regular file is as long as it is said to be. -/
theorem length_bytesOf {o : Object} (hk : o.kind = .regular) :
    (bytesOf o.content).length = (statOf i o).length := by
  unfold Object.kind at hk
  unfold bytesOf statOf
  cases hc : o.content <;> simp_all

/-- What looks the same and is not is two nodes of one device. -/
theorem bytesOf_eq_nil_of_sameObject {j : Nat} {o o' : Object} (hij : i ≠ j)
    (h : (statOf i o).sameObject (statOf j o')) :
    bytesOf o.content = [] ∧ bytesOf o'.content = [] := by
  simp only [statOf, ObjectStat.sameObject, ObjectIdentity.agrees, beq_eq_false_iff_ne.2 hij,
    Bool.and_false, Bool.false_or, Bool.and_eq_true, beq_iff_eq] at h
  obtain ⟨hspecial, heq⟩ := h
  have hspecial' := heq ▸ hspecial
  constructor
  · cases hc : o.content with
    | regular => simp [hc] at hspecial
    | _ => rfl
  · cases hc : o'.content with
    | regular => simp [hc] at hspecial'
    | _ => rfl

/-- **One file has one content.** -/
theorem bytesOf_eq_of_sameObject {j : Nat} {o o' : Object} (ho : t.objects[i]? = some o)
    (ho' : t.objects[j]? = some o') (h : (statOf i o).sameObject (statOf j o')) :
    bytesOf o.content = bytesOf o'.content := by
  by_cases hij : i = j
  · rw [hij, ho'] at ho
    cases ho
    rfl
  · obtain ⟨hb, hb'⟩ := bytesOf_eq_nil_of_sameObject hij h
    rw [hb, hb']

/-- **The file system of a tree is faithful** if the tree keeps its names
apart. -/
theorem Distinct.faithful (h : t.Distinct) : t.fileSystem.Faithful where
  listsOnce := h.listsOnce
  opens hs hk := by
    obtain ⟨i, o, file, -, rfl, hfile, hrest⟩ := exists_openFile hs hk
    exact ⟨file, hfile, by rw [hrest, length_bytesOf hk]⟩
  sameBytes hs hs' hk hk' hsame := by
    obtain ⟨i, o, file, ho, rfl, hfile, hrest⟩ := exists_openFile hs hk
    obtain ⟨j, o', file', ho', rfl, hfile', hrest'⟩ := exists_openFile hs' hk'
    exact ⟨file, file', hfile, hfile', by rw [hrest, hrest', bytesOf_eq_of_sameObject ho ho' hsame]⟩

end FileTree

end TreeCompare
