import Mathlib.Data.List.Induction
import TreeCompare.Proofs.Text.Paths
import TreeCompare.Proofs.Trees.Entering
/-!
# The directories that lead to a path

A path and the one that is put together from its components lead to the same
directory (`find_ofComponents`). Whatever is no directory itself lies in one
(`Leads.exists_directory`): the directories that lead to it are there, so making
them changes nothing (`makeDirectories_parent`).
-/

namespace TreeCompare

namespace FileTree

open TreeCompare.Path (Component Spelled ofComponents)

variable {t t' : FileTree} {path dir : Path} {d i links here : Nat} {directory : Bool}
  {cs : List Component} {parts front behind : List (List UInt8)} {part : List UInt8}

/-! ## Parts and components -/

theorem partsOf_ofComponents (h : Spelled cs) :
    partsOf (ofComponents cs) = (cs.map Component.part).filter (· ≠ []) := by
  by_cases hne : cs = []
  · rw [hne]
    rfl
  by_cases hroot : cs = [.root]
  · rw [hroot]
    rfl
  rw [partsOf, h.parts_ofComponents hne hroot]

/-- A path has the parts of its components, and some that mean nothing. -/
theorem pruned_components (path : Path) :
    Pruned (partsOf path) ((path.components.map Component.part).filter (· ≠ [])) := by
  have hnames : ∀ ps : List (List UInt8), Pruned (ps.filter (· ≠ []))
      (((ps.filterMap Component.ofPart?).map Component.part).filter (· ≠ [])) := by
    intro ps
    have heq : (ps.filter fun part => part ≠ [] ∧ part ≠ [0x2E]).filter (· ≠ []) =
        (ps.filter (· ≠ [])).filter (· ≠ [0x2E]) := by
      rw [List.filter_filter, List.filter_filter]
      congr 1
      funext part
      simp [Bool.and_comm]
    rw [Path.map_part_filterMap, heq]
    exact .filter _
  rw [partsOf, Path.components]
  split
  · next h =>
    obtain ⟨rest, -, hrest⟩ := Path.isAbsolute_iff.1 h
    rw [hrest]
    exact hnames rest
  split
  · next h =>
    obtain ⟨rest, hrest⟩ := List.head?_eq_some_iff.1 h
    rw [hrest]
    exact .keep _ (hnames rest)
  · exact hnames _

/-- What is in front of the last of the parts that are left. -/
theorem Pruned.exists_last (h : Pruned parts (front ++ [part])) :
    ∃ front' behind, parts = front' ++ part :: behind ∧ Pruned front' front ∧ Pruned behind [] := by
  generalize hleft : front ++ [part] = left at h
  induction h generalizing front with
  | nil => exact absurd hleft (List.append_ne_nil_of_right_ne_nil _ (List.cons_ne_nil _ _))
  | @keep part' parts left h ih =>
    cases front with
    | nil =>
      cases hleft
      exact ⟨[], parts, rfl, .nil, h⟩
    | cons first front =>
      obtain ⟨rfl, hrest⟩ := List.cons.inj hleft
      obtain ⟨front', behind, rfl, hfront, hbehind⟩ := ih hrest
      exact ⟨first :: front', behind, rfl, .keep first hfront, hbehind⟩
  | skip h ih =>
    obtain ⟨front', behind, rfl, hfront, hbehind⟩ := ih hleft
    exact ⟨[0x2E] :: front', behind, rfl, .skip hfront, hbehind⟩

theorem Pruned.eq_replicate (h : Pruned parts []) :
    ∃ n, parts = List.replicate n [0x2E] := by
  generalize hleft : ([] : List (List UInt8)) = left at h
  induction h with
  | nil => exact ⟨0, rfl⟩
  | keep => cases hleft
  | skip h ih =>
    obtain ⟨n, rfl⟩ := ih hleft
    exact ⟨n + 1, rfl⟩

/-- The last component of a path among its parts: those in front of it are the
parts of the other components, and those behind it mean nothing. -/
theorem exists_partsOf_eq {init : List Component} {c : Component}
    (h : path.components = init ++ [c]) (hroot : c ≠ .root) :
    ∃ front behind, partsOf path = front ++ c.part :: behind ∧
      Pruned front ((init.map Component.part).filter (· ≠ [])) ∧ Pruned behind [] := by
  have hc : c ∈ path.components := by simp [h]
  have hlast : [c.part].filter (· ≠ []) = [c.part] :=
    List.filter_cons_of_pos (decide_eq_true (Path.part_ne_nil hc hroot))
  have hpruned := pruned_components path
  rw [h, List.map_append, List.filter_append, List.map_singleton, hlast] at hpruned
  exact hpruned.exists_last

/-- **What is no directory lies in one**, where the parts in front of the last that
means something lead. -/
theorem Leads.exists_directory (hi : ¬t.IsDirectory i) (hbehind : Pruned behind [])
    (h : t.Leads true (.found i) links here (front ++ part :: behind) directory) :
    ∃ d, t.IsDirectory d ∧ t.Leads true (.found d) links here front true := by
  obtain ⟨n, rfl⟩ := hbehind.eq_replicate
  cases n with
  | zero =>
    obtain ⟨d, hleads, hd, -⟩ := h.append (List.cons_ne_nil _ _) true
    exact ⟨d, hd, hleads⟩
  | succ n =>
    rw [List.replicate_succ', ← List.cons_append, ← List.append_assoc] at h
    obtain ⟨d, -, hd, links', hlast⟩ := h.append (List.cons_ne_nil _ _) true
    cases hlast.dot hd
    exact absurd hd hi

/-! ## Finding and making directories -/

theorem find_eq_ok : t.find path true = .ok i ↔ checkPath path = .ok () ∧
    t.Leads true (.found i) linkLimit (if path.isAbsolute then t.root else t.current)
      (partsOf path) (meansDirectory path) := by
  rw [← walk_eq_ok, find, locate]
  cases checkPath path with
  | error e => simp
  | ok _ =>
    simp only [true_and]
    split
    · next h => simp [h]
    · next h => simp [h]
    · next h => simp [h]

theorem checkPath_of_sublist {path' : Path} (h : checkPath path = .ok ())
    (hs : path'.bytes.Sublist path.bytes) (hne : path'.bytes ≠ []) : checkPath path' = .ok () := by
  unfold checkPath at h ⊢
  split at h
  · cases h
  next hnul =>
  split at h
  · cases h
  split at h
  · cases h
  next hlong =>
  have hnul' : ¬path'.bytes.contains 0 = true := fun hmem =>
    hnul (List.contains_iff_mem.2 (hs.mem (List.contains_iff_mem.1 hmem)))
  have hlength := hs.length_le
  rw [if_neg hnul', if_neg hne, if_neg (by omega)]

/-- **A path of the first components** leads to the directory that the parts do. -/
theorem find_ofComponents (hs : Spelled cs) (hcs : cs <+: path.components) (hne : cs ≠ [])
    (hcheck : checkPath path = .ok ())
    (h : t.Leads true (.found d) linkLimit (if path.isAbsolute then t.root else t.current) parts
      directory)
    (hp : Pruned parts ((cs.map Component.part).filter (· ≠ []))) (hd : t.IsDirectory d) :
    t.find (ofComponents cs) true = .ok d := by
  have hcomponents := hs.components_ofComponents
  have habsolute : (ofComponents cs).isAbsolute = path.isAbsolute := by
    obtain ⟨rest, hrest⟩ := hcs
    rw [Bool.eq_iff_iff, Path.isAbsolute_iff_head?, Path.isAbsolute_iff_head?, hcomponents, ← hrest,
      List.head?_append_of_ne_nil _ hne]
  have hbytes : (ofComponents cs).bytes ≠ [] := fun hnil => hne <| by
    rw [← hcomponents, Path.components, Path.isAbsolute, hnil]
    rfl
  rw [find_eq_ok, habsolute, partsOf_ofComponents hs]
  exact ⟨checkPath_of_sublist hcheck (Path.ofComponents_sublist hcs) hbytes, h.pruned hd hp _⟩

theorem makeDirectoriesOf_of_found (h : t.find (ofComponents cs) true = .ok d)
    (hd : t.IsDirectory d) : t.makeDirectoriesOf cs = .ok t := by
  by_cases hne : cs = []
  · rw [makeDirectoriesOf, dif_pos hne]
  obtain ⟨hcheck, hleads⟩ := find_eq_ok.1 h
  obtain ⟨j, hj⟩ := hleads.unfollowed
  have hthere : t.makeDirectory (ofComponents cs) = .error .alreadyExists := by
    rw [makeDirectory, create, locate, hcheck]
    simp only [walk_eq_ok.2 hj]
  have hdirectory : t.fileSystem.isDirectory (ofComponents cs) = true := by
    obtain ⟨parent, entries, failAfter, hc⟩ := hd
    obtain ⟨o, ho, hcontent⟩ := Option.map_eq_some_iff.1 hc
    simp only [FileSystem.isDirectory, fileSystem, stat, h, ho, statOf, Object.kind, hcontent]
    rfl
  rw [makeDirectoriesOf, dif_neg hne]
  simp only [hthere, hdirectory]
  rfl

/-- **The directories that lead to what is no directory are there.** -/
theorem makeDirectories_parent (h : t.find path true = .ok i) (hi : ¬t.IsDirectory i)
    (hp : path.parent? = some dir) : t.makeDirectories dir = .ok t := by
  obtain ⟨init, c, hinit, hroot, rfl⟩ := Path.exists_of_parent? hp
  have hs := Spelled.of_components hinit
  rw [makeDirectories, hs.components_ofComponents]
  by_cases hne : init = []
  · rw [makeDirectoriesOf, dif_pos hne]
  obtain ⟨front, behind, hparts, hfront, hbehind⟩ := exists_partsOf_eq hinit hroot
  obtain ⟨hcheck, hleads⟩ := find_eq_ok.1 h
  rw [hparts] at hleads
  obtain ⟨d, hd, hleads⟩ := hleads.exists_directory hi hbehind
  exact makeDirectoriesOf_of_found
    (find_ofComponents hs ⟨[c], hinit.symm⟩ hne hcheck hleads hfront hd) hd

/-! ## Directories that are new -/

/-- The object of a number is a directory without entries. -/
def IsEmpty (t : FileTree) (i : Nat) : Prop :=
  ∃ parent failAfter, t.content? i = some (.directory parent [] failAfter)

theorem IsEmpty.isDirectory (h : t.IsEmpty d) : t.IsDirectory d :=
  let ⟨parent, failAfter, hc⟩ := h
  ⟨parent, [], failAfter, hc⟩

/-- No name leads anywhere from a directory without entries. -/
theorem IsEmpty.not_leads {name : Name} {rest : List (List UInt8)} (h : t.IsEmpty d)
    (hname : Component.ofPart? name.bytes = some (.entry name)) :
    ¬t.Leads true (.found i) links d (name.bytes :: rest) directory := by
  have hdot : name.bytes ≠ [0x2E] := fun h => by
    rw [h] at hname
    cases hname
  have hdots : name.bytes ≠ [0x2E, 0x2E] := fun h => by
    rw [h] at hname
    cases hname
  have hway : t.way d name.bytes = .vacant ∨ ∃ e, t.way d name.bytes = .nowhere e := by
    obtain ⟨parent, failAfter, hc⟩ := h
    rw [way, hc]
    simp only [if_neg hdot, if_neg hdots]
    split
    · exact .inr ⟨_, rfl⟩
    · exact .inl rfl
  intro hleads
  cases hleads with
  | arrived h =>
    rw [stretch_cons] at h
    obtain ⟨j, hj, -⟩ := Way.onward_eq_found h
    obtain hway | ⟨e, hway⟩ := hway <;> cases hway.symm.trans hj
  | link h _ =>
    rw [stretch_cons] at h
    obtain ⟨j, hj, -⟩ | ⟨j, hj, -, -⟩ := Way.onward_eq_link h <;>
      obtain hway | ⟨e, hway⟩ := hway <;> cases hway.symm.trans hj

/-- In a directory without entries nothing is found. -/
theorem not_found_of_isEmpty {init : List Component} {c : Component}
    (hpath : path.components = init ++ [c]) (hparent : c ≠ .parent)
    (h : t.find (ofComponents init) true = .ok d) (hd : t.IsEmpty d) :
    t.find path true ≠ .ok i := by
  intro hfound
  have hs := Spelled.of_components hpath
  have hne : init ≠ [] := by
    rintro rfl
    cases (find_eq_ok.1 h).1
  obtain ⟨name, rfl, hname⟩ :=
    (hpath ▸ Path.spelled_components path : Spelled (init ++ [c])).exists_entry hne hparent
  obtain ⟨front, behind, hparts, hfront, -⟩ := exists_partsOf_eq hpath Component.noConfusion
  obtain ⟨hcheck, hleads⟩ := find_eq_ok.1 hfound
  rw [hparts] at hleads
  obtain ⟨d', hleads', hd', links', hlast⟩ := hleads.append (List.cons_ne_nil _ _) true
  have hfind := find_ofComponents hs ⟨_, hpath.symm⟩ hne hcheck hleads' hfront hd'
  cases hfind.symm.trans h
  exact hd.not_leads hname hlast

/-- A directory that is made is there, without entries. -/
theorem find_of_makeDirectory (h : t.makeDirectory path = .ok t') :
    ∃ d, t'.find path true = .ok d ∧ t'.IsEmpty d := by
  unfold makeDirectory create at h
  split at h
  · cases h
  · cases h
  · next dir name hplace =>
    cases h
    unfold locate at hplace
    split at hplace
    · cases hplace
    · next hcheck =>
      have hleads := (walk_eq_ok.1 hplace).enter (o := ⟨.directory dir [] none, {}⟩) rfl
        (meansDirectory path)
      refine ⟨_, find_eq_ok.2 ⟨hcheck, hleads⟩, dir, none, ?_⟩
      rw [content?_enter, if_pos rfl]

theorem find_of_isDirectory (h : t.fileSystem.isDirectory path = true) :
    ∃ i, t.find path true = .ok i := by
  simp only [FileSystem.isDirectory, fileSystem, stat] at h
  cases hfind : t.find path true with
  | error e =>
    rw [hfind] at h
    cases h
  | ok i => exact ⟨i, rfl⟩

/-- **Making directories** changes nothing or ends with one without entries. -/
theorem makeDirectoriesOf_eq_ok (hs : Spelled cs) (hparent : .parent ∉ cs)
    (h : t.makeDirectoriesOf cs = .ok t') :
    t' = t ∨ ∃ d, t'.find (ofComponents cs) true = .ok d ∧ t'.IsEmpty d := by
  -- from the back, where the definition takes components away
  induction cs using List.reverseRecOn generalizing t' with
  | nil =>
    rw [makeDirectoriesOf, dif_pos rfl] at h
    cases h
    exact .inl rfl
  | append_singleton init c ih =>
    rw [makeDirectoriesOf, dif_neg (by simp)] at h
    simp only [List.dropLast_concat] at h
    split at h
    · next hmade =>
      cases h
      exact .inr (find_of_makeDirectory hmade)
    · split at h
      · split at h
        · cases h
        · next t₁ hinit =>
          split at h
          · next hmade =>
            cases h
            exact .inr (find_of_makeDirectory hmade)
          · split at h
            · next hdirectory =>
              cases h
              obtain ⟨i, hfound⟩ := find_of_isDirectory hdirectory
              rw [List.mem_append, not_or, List.mem_singleton] at hparent
              obtain rfl | ⟨d, hd, hempty⟩ := ih (.of_components hs.components_ofComponents)
                hparent.1 hinit
              · exact .inl rfl
              · exact absurd hfound (not_found_of_isEmpty hs.components_ofComponents
                  (Ne.symm hparent.2) hd hempty)
            · cases h
      · split at h
        · cases h
          exact .inl rfl
        · cases h

/-- **Where nothing is, nothing comes to be** by making the directories that lead
there, unless the path goes back up. -/
theorem not_found_of_makeDirectories (h : ∀ i, t.find path true ≠ .ok i)
    (hparent : .parent ∉ path.components) (hp : path.parent? = some dir)
    (hmade : t.makeDirectories dir = .ok t') (i : Nat) : t'.find path true ≠ .ok i := by
  obtain ⟨init, c, hinit, -, rfl⟩ := Path.exists_of_parent? hp
  rw [hinit, List.mem_append, not_or, List.mem_singleton] at hparent
  have hs := Spelled.of_components hinit
  rw [makeDirectories, hs.components_ofComponents] at hmade
  obtain rfl | ⟨d, hfound, hd⟩ := makeDirectoriesOf_eq_ok hs hparent.1 hmade
  · exact h i
  · exact not_found_of_isEmpty hinit (Ne.symm hparent.2) hfound hd

end FileTree

end TreeCompare
