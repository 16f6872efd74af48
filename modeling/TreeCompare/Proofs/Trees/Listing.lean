import Mathlib.Data.List.Induction
import Mathlib.Data.List.Nodup
import TreeCompare.FileTree.Recording
import TreeCompare.Proofs.Operations.Reading
import TreeCompare.Proofs.Trees.Resolution
/-!
# File trees list every name once

A directory of a file tree holds its entries as a list, in which a name
could be twice. It never is: an entry is made only where a path leads to no
entry yet (`FileTree.vacant_of_locate`), so a tree that is added to keeps its
names apart (`FileTree.Distinct`), and its file system lists every name once
(`FileTree.Distinct.listsOnce`).
-/

namespace TreeCompare

/-- No two entries of a directory have the same name. -/
def Content.Distinct : Content → Prop
  | .directory _ entries _ => (entries.map (·.1)).Nodup
  | _ => True

instance : DecidablePred Content.Distinct
  | .directory .. => inferInstanceAs (Decidable (List.Nodup _))
  | .regular _ | .symlink _ | .device .. | .fifo | .socket | .other => .isTrue trivial

namespace FileTree

/-- No directory of the tree has two entries of the same name. -/
def Distinct (t : FileTree) : Prop := ∀ o ∈ t.objects, o.content.Distinct

variable {t t' : FileTree} {path : Path} {dir : Nat} {name : Name}

/-- Entries without one of the name. -/
theorem lookup_eq_none {entries : List (Name × Nat)} :
    lookup name entries = none ↔ name ∉ entries.map (·.1) := by
  simp only [lookup, Option.map_eq_none_iff, List.find?_eq_none, List.mem_map, not_exists, not_and,
    beq_iff_eq]

/-- The directory has no entry of the name. -/
def Vacant (t : FileTree) (dir : Nat) (name : Name) : Prop :=
  ∀ parent entries failAfter, t.content? dir = some (.directory parent entries failAfter) →
    name ∉ entries.map (·.1)

/-! ## Where paths lead -/

theorem vacant_of_stretch {follow directory : Bool} {here : Nat} {parts : List (List UInt8)}
    (h : t.stretch follow directory here parts = .arrived (.vacant dir name)) :
    t.Vacant dir name := by
  induction parts generalizing here with
  | nil => cases stretch_nil_eq_arrived h
  | cons part rest ih =>
    rw [stretch_cons] at h
    cases hway : t.way here part with
    | entry i =>
      rw [hway] at h
      exact ih h
    | link i target =>
      rw [hway, Way.onward] at h
      split at h <;> cases h
    | vacant =>
      rw [hway, Way.onward] at h
      split at h
      · cases h
        obtain ⟨parent, entries, failAfter, hc, hnone⟩ := exists_of_way_vacant hway
        intro parent' entries' failAfter' hc'
        rw [hc] at hc'
        cases hc'
        exact lookup_eq_none.1 hnone
      · cases h
    | nowhere e =>
      rw [hway] at h
      cases h

theorem Leads.vacant {follow directory : Bool} {links here : Nat} {parts : List (List UInt8)}
    (h : t.Leads follow (.vacant dir name) links here parts directory) : t.Vacant dir name := by
  induction h with
  | arrived h => exact vacant_of_stretch h
  | link _ _ ih => exact ih

/-- **A path that leads to no entry leads to where there is none.** -/
theorem vacant_of_locate {follow directory : Bool}
    (h : t.locate path follow directory = .ok (.vacant dir name)) : t.Vacant dir name := by
  unfold locate at h
  split at h
  · cases h
  · exact (walk_eq_ok.1 h).vacant

/-- Bytes are written to where the path leads. -/
theorem locate_of_locateToWrite {place : Place} (h : t.locateToWrite path = .ok place) :
    meansDirectory path = false ∧ t.locate path true false = .ok place := by
  unfold locateToWrite at h
  unfold locate
  split at h
  · cases h
  · obtain ⟨hd, hleads⟩ := leadsToWrite_of_walkToWrite h
    exact ⟨hd, walk_eq_ok.2 hleads.leads⟩

/-! ## Changing the objects of a tree -/

/-- A change that keeps the names of one object apart keeps them apart. -/
theorem distinct_modify {i root current : Nat} {f : Object → Object} (h : t.Distinct)
    (hf : ∀ o, t.objects[i]? = some o → (f o).content.Distinct) :
    (⟨t.objects.modify i f, root, current⟩ : FileTree).Distinct := by
  intro o ho
  obtain ⟨n, hn⟩ := List.mem_iff_getElem?.1 ho
  rw [List.getElem?_modify] at hn
  rcases hx : t.objects[n]? with - | x
  · rw [hx] at hn
    cases hn
  · rw [hx] at hn
    simp only [Option.map_eq_map, Option.map_some, Option.some.injEq] at hn
    by_cases hi : i = n
    · rw [if_pos hi] at hn
      rw [← hn]
      exact hf x (hi ▸ hx)
    · rw [if_neg hi] at hn
      rw [← hn]
      exact h x (List.mem_of_getElem? hx)

/-- A name that a directory does not have may be entered into it. -/
theorem distinct_enterLink (h : t.Distinct) (hv : t.Vacant dir name) (object : Nat) :
    (t.enterLink dir name object).Distinct := by
  refine distinct_modify h fun o ho => ?_
  have hd := h o (List.mem_of_getElem? ho)
  split
  · next parent entries failAfter hc =>
    have hcontent : t.content? dir = some (.directory parent entries failAfter) := by
      rw [content?, ho, Option.map_some, hc]
    rw [hc] at hd
    simp only [Content.Distinct, List.map_append, List.map_cons, List.map_nil]
    exact List.nodup_append.2 ⟨hd, List.nodup_singleton _, fun a ha b hb hab =>
      hv _ _ _ hcontent (by rwa [← List.mem_singleton.1 hb, ← hab])⟩
  · exact hd

theorem distinct_enter {o : Object} (h : t.Distinct) (hv : t.Vacant dir name)
    (ho : o.content.Distinct) : (t.enter dir name o).Distinct := by
  intro o' ho'
  -- the objects there were, with the directory changed, and the new one
  rcases List.mem_append.1 ho' with ho' | ho'
  · exact distinct_enterLink h hv t.objects.length o' ho'
  · rwa [List.mem_singleton.1 ho']

/-! ## Adding to a tree -/

theorem Distinct.create {content : Nat → Content} (h : t.Distinct)
    (he : t.create path content = .ok t') (hc : ∀ dir, (content dir).Distinct) : t'.Distinct := by
  unfold FileTree.create at he
  split at he
  · cases he
  · cases he
  · next heq =>
    cases he
    exact distinct_enter h (vacant_of_locate heq) (hc _)

theorem Distinct.makeDirectory (h : t.Distinct) (he : t.makeDirectory path = .ok t') :
    t'.Distinct := h.create he fun _ => List.nodup_nil

theorem Distinct.makeDirectoriesOf {components : List Path.Component} (h : t.Distinct)
    (he : t.makeDirectoriesOf components = .ok t') : t'.Distinct := by
  -- from the back, where the definition takes components away
  induction components using List.reverseRecOn generalizing t' with
  | nil =>
    rw [FileTree.makeDirectoriesOf, dif_pos rfl] at he
    cases he
    exact h
  | append_singleton init last ih =>
    rw [FileTree.makeDirectoriesOf, dif_neg (by simp)] at he
    simp only [List.dropLast_concat] at he
    split at he
    · next heq =>
      cases he
      exact h.makeDirectory heq
    · split at he
      · split at he
        · cases he
        · next heq =>
          have hi := ih heq
          split at he
          · next heq' =>
            cases he
            exact hi.makeDirectory heq'
          · split at he
            · cases he
              exact hi
            · cases he
      · split at he
        · cases he
          exact h
        · cases he

theorem Distinct.makeDirectories (h : t.Distinct) (he : t.makeDirectories path = .ok t') :
    t'.Distinct := h.makeDirectoriesOf he

theorem Distinct.setBytes {bytes : List UInt8} (h : t.Distinct)
    (he : t.setBytes path bytes = .ok t') : t'.Distinct := by
  unfold FileTree.setBytes at he
  split at he
  · cases he
  · next heq =>
    cases he
    exact distinct_enter h (vacant_of_locate (locate_of_locateToWrite heq).2) trivial
  · split at he
    · cases he
      intro o ho
      rcases List.mem_or_eq_of_mem_set ho with ho | rfl
      · exact h o ho
      · trivial
    · cases he
    · cases he
      exact h
    · cases he

theorem Distinct.addFaults {change : Faults → Faults} (h : t.Distinct)
    (he : t.addFaults path change = .ok t') : t'.Distinct := by
  unfold FileTree.addFaults at he
  split at he
  · cases he
  · cases he
    exact distinct_modify h fun o ho => h o (List.mem_of_getElem? ho)

/-- What goes through went through up to there. -/
theorem exists_of_bind_eq_ok {α β : Type} {x : Except IoError α} {f : α → Except IoError β} {b : β}
    (h : x >>= f = .ok b) : ∃ a, x = .ok a ∧ f a = .ok b := by
  rcases x with e | a
  · cases h
  · exact ⟨a, rfl, h⟩

theorem Distinct.addDirectory {failAfter : Option Nat} (h : t.Distinct)
    (he : t.addDirectory path failAfter = .ok t') : t'.Distinct := by
  obtain ⟨made, hmake, he⟩ := exists_of_bind_eq_ok he
  have hm := h.makeDirectories hmake
  rcases failAfter with - | n
  · cases he
    exact hm
  · obtain ⟨i, -, he⟩ := exists_of_bind_eq_ok he
    cases he
    refine distinct_modify hm fun o ho => ?_
    have ho := hm o (List.mem_of_getElem? ho)
    split
    · next heq =>
      rw [heq] at ho
      exact ho
    · exact ho

/-- **What is added to a tree keeps its names apart.** -/
theorem Distinct.add {entry : Entry} (h : t.Distinct) (he : t.add path entry = .ok t') :
    t'.Distinct := by
  cases entry with
  | directory => exact h.addDirectory he
  | file =>
    obtain ⟨made, hmake, he⟩ := exists_of_bind_eq_ok he
    exact (h.makeDirectories hmake).setBytes he
  | link | fifo | socket =>
    obtain ⟨made, hmake, he⟩ := exists_of_bind_eq_ok he
    exact (h.makeDirectories hmake).create he fun _ => trivial
  | hardLink =>
    obtain ⟨made, hmake, he⟩ := exists_of_bind_eq_ok he
    obtain ⟨i, -, he⟩ := exists_of_bind_eq_ok he
    split at he
    · cases he
    · cases he
    · next heq =>
      cases he
      exact distinct_enterLink (h.makeDirectories hmake) (vacant_of_locate heq) i
  | device => cases he
  | permissions => cases he
  | faults => exact h.addFaults he

theorem Distinct.addSpecial {content : Content} (h : t.Distinct)
    (he : t.addSpecial path content = .ok t') (hc : content.Distinct) : t'.Distinct := by
  unfold FileTree.addSpecial at he
  split at he
  · next hmake => exact (h.makeDirectories hmake).create he fun _ => hc
  · cases he

/-- The tree that every system starts with. -/
theorem distinct_system (h : system = .ok t) : t.Distinct := by
  have hempty : empty.Distinct := by
    intro o ho
    rw [List.mem_singleton.1 ho]
    exact List.nodup_nil
  obtain ⟨t₁, h₁, h⟩ := exists_of_bind_eq_ok h
  obtain ⟨t₂, h₂, h⟩ := exists_of_bind_eq_ok h
  exact ((hempty.addSpecial h₁ trivial).addSpecial h₂ trivial).addSpecial h trivial

/-- What one addition after the other keeps, all of them keep. -/
theorem Distinct.foldlM {α : Type} {f : FileTree → α → Except IoError FileTree} {items : List α}
    (hf : ∀ {t t'} item, t.Distinct → f t item = .ok t' → t'.Distinct) (h : t.Distinct)
    (he : items.foldlM f t = .ok t') : t'.Distinct := by
  induction items generalizing t with
  | nil =>
    cases he
    exact h
  | cons item items ih =>
    obtain ⟨added, hadd, he⟩ := exists_of_bind_eq_ok he
    exact ih (hf item h hadd) he

/-- **A recorded tree keeps its names apart.** -/
theorem distinct_ofRecording {text : List Char} (h : ofRecording? text = some t) :
    t.Distinct := by
  have hok : ∀ {x : Except IoError FileTree} {t}, x.toOption = some t → x = .ok t := by
    rintro (e | x) t h <;> cases h
    rfl
  obtain ⟨table, -, h⟩ := Option.bind_eq_some_iff.1 h
  simp only at h
  split at h
  case h_3 => cases h
  all_goals
    obtain ⟨records, -, h⟩ := Option.bind_eq_some_iff.1 h
    obtain ⟨start, hstart, h⟩ := Option.bind_eq_some_iff.1 h
    refine Distinct.foldlM ?_ (distinct_system (hok hstart)) (hok h)
    exact fun _ ht he => ht.add he

/-! ## What a tree lists -/

/-- **The file system of a tree lists every name once.** -/
theorem Distinct.listsOnce (h : t.Distinct) : t.fileSystem.ListsOnce := by
  intro path listed he
  change t.enumerate path = .ok listed at he
  unfold enumerate at he
  split at he
  · cases he
  · split at he
    · next i _ parent entries failAfter hc =>
      obtain ⟨o, ho, hoc⟩ := Option.map_eq_some_iff.1 hc
      have hd := h o (List.mem_of_getElem? ho)
      rw [hoc] at hd
      simp only at he
      split at he
      · split at he
        · cases he
          exact hd.sublist (List.take_sublist ..)
        · cases he
          exact hd
      · cases he
        exact hd
    · cases he

end FileTree

end TreeCompare
