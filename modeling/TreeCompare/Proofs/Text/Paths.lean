import Mathlib.Data.List.Basic
import TreeCompare.Name
/-!
# Components of paths

Cutting bytes at separators and joining them are inverse to one another, and so
are taking a path apart into components and putting them together
(`Spelled.components_ofComponents`). A path that is put together from parts of
another has no bytes that the other does not have (`ofComponents_sublist`).
-/

namespace TreeCompare

/-- Joining fewer parts gives fewer bytes. -/
theorem sublist_intercalate {α : Type} (x : α) {l l' : List (List α)} (h : l.Sublist l') :
    ([x].intercalate l).Sublist ([x].intercalate l') := by
  induction h with
  | slnil => exact .refl _
  | @cons l l' a h ih =>
    cases l' with
    | nil =>
      cases h
      exact List.nil_sublist _
    | cons b l' =>
      rw [List.intercalate_cons_cons]
      exact ih.trans (List.sublist_append_right ..)
  | @cons_cons l l' a h ih =>
    cases l with
    | nil =>
      rw [List.intercalate_singleton]
      cases l' with
      | nil => rw [List.intercalate_singleton]
      | cons b l' =>
        rw [List.intercalate_cons_cons, List.append_assoc]
        exact List.sublist_append_left ..
    | cons b l =>
      cases l' with
      | nil => cases h
      | cons b' l' =>
        rw [List.intercalate_cons_cons, List.intercalate_cons_cons]
        exact ih.append_left _

namespace Path

variable {path : Path} {bytes part : List UInt8} {c : Component} {cs : List Component}

/-! ## Parts -/

theorem parts_ne_nil (bytes : List UInt8) : parts bytes ≠ [] := by
  cases bytes with
  | nil => exact List.cons_ne_nil _ _
  | cons b bytes =>
    rw [parts]
    split
    · exact List.cons_ne_nil _ _
    · split <;> exact List.cons_ne_nil _ _

theorem parts_eq_splitOn (bytes : List UInt8) : parts bytes = bytes.splitOn separator := by
  induction bytes with
  | nil => rfl
  | cons b bytes ih =>
    rw [parts, List.splitOn, List.splitOnP_cons_eq_if_modifyHead, ← List.splitOn, ← ih]
    by_cases hb : b = separator
    · rw [if_pos hb, if_pos (by simp [hb])]
    · rw [if_neg hb, if_neg (by simpa using hb)]
      cases h : parts bytes with
      | nil => exact absurd h (parts_ne_nil bytes)
      | cons part rest => rfl

theorem separator_notMem (h : part ∈ parts bytes) : separator ∉ part := by
  induction bytes generalizing part with
  | nil =>
    rw [parts, List.mem_singleton] at h
    simp [h]
  | cons b bytes ih =>
    rw [parts] at h
    split at h
    · obtain rfl | h := List.mem_cons.1 h
      · exact List.not_mem_nil
      · exact ih h
    next hb =>
    cases hparts : parts bytes with
    | nil => exact absurd hparts (parts_ne_nil bytes)
    | cons first rest =>
      rw [hparts] at h ih
      obtain rfl | h := List.mem_cons.1 h
      · rw [List.mem_cons, not_or]
        exact ⟨Ne.symm hb, ih (List.mem_cons_self ..)⟩
      · exact ih (List.mem_cons_of_mem _ h)

/-- The parts of what is joined are what was joined. -/
theorem parts_intercalate {parts' : List (List UInt8)} (hne : parts' ≠ [])
    (h : ∀ part ∈ parts', separator ∉ part) :
    parts ([separator].intercalate parts') = parts' := by
  rw [parts_eq_splitOn, List.splitOn_intercalate _ h hne]

/-- A path starts at the root if nothing stands before its first separator. -/
theorem isAbsolute_iff :
    path.isAbsolute = true ↔ ∃ rest, rest ≠ [] ∧ parts path.bytes = [] :: rest := by
  rw [isAbsolute]
  cases path.bytes with
  | nil => simp [parts]
  | cons b bytes =>
    rw [parts]
    by_cases hb : b = separator
    · simp [hb, parts_ne_nil]
    · rw [if_neg hb]
      cases parts bytes <;> simp [hb]

/-! ## Components -/

theorem part_of_ofPart? (h : Component.ofPart? part = some c) : c.part = part := by
  rw [Component.ofPart?] at h
  split at h
  · cases h
  split at h
  · next hdots =>
    cases h
    exact hdots.symm
  · cases h
    rfl

/-- The parts that spell something. -/
theorem map_part_filterMap (ps : List (List UInt8)) :
    (ps.filterMap Component.ofPart?).map Component.part =
      ps.filter fun part => part ≠ [] ∧ part ≠ [0x2E] := by
  induction ps with
  | nil => rfl
  | cons part ps ih =>
    cases h : Component.ofPart? part with
    | none =>
      rw [List.filterMap_cons_none h, ih, List.filter_cons_of_neg]
      rw [Component.ofPart?] at h
      split at h
      · next hnone => simpa [imp_iff_not_or] using hnone
      · split at h <;> cases h
    | some c =>
      rw [List.filterMap_cons_some h, List.map_cons, ih, part_of_ofPart? h, List.filter_cons_of_pos]
      have hne : ¬(part = [] ∨ part = [0x2E]) := fun hnone => by
        rw [Component.ofPart?, if_pos hnone] at h
        cases h
      simpa [not_or] using hne

/-- Components as a path has them: where it starts, and then names. -/
structure Spelled (cs : List Component) : Prop where
  exists_names : ∃ lead names, cs = lead ++ names ∧
    (lead = [] ∨ lead = [.root] ∨ lead = [.current]) ∧
    ∀ c ∈ names, Component.ofPart? c.part = some c ∧ separator ∉ c.part

theorem spelled_components (path : Path) : Spelled path.components := by
  have hnames : ∀ c ∈ (parts path.bytes).filterMap Component.ofPart?,
      Component.ofPart? c.part = some c ∧ separator ∉ c.part := by
    intro c hc
    obtain ⟨part, hpart, h⟩ := List.mem_filterMap.1 hc
    rw [part_of_ofPart? h]
    exact ⟨h, separator_notMem hpart⟩
  rw [components]
  split
  · exact ⟨[.root], _, rfl, .inr (.inl rfl), hnames⟩
  split
  · exact ⟨[.current], _, rfl, .inr (.inr rfl), hnames⟩
  · exact ⟨[], _, rfl, .inl rfl, hnames⟩

theorem Spelled.dropLast (h : Spelled cs) : Spelled cs.dropLast := by
  obtain ⟨lead, names, rfl, hlead, hnames⟩ := h
  by_cases hne : names = []
  · refine ⟨[], [], ?_, .inl rfl, nofun⟩
    obtain rfl | rfl | rfl := hlead <;> rw [hne] <;> rfl
  · rw [List.dropLast_append_of_ne_nil hne]
    exact ⟨lead, _, rfl, hlead, fun c hc => hnames c (List.dropLast_subset _ hc)⟩

/-- The first components of a path are components as a path has them. -/
theorem Spelled.of_components {init : List Component} (h : path.components = init ++ [c]) :
    Spelled init := by
  have hdrop := (spelled_components path).dropLast
  rwa [h, List.dropLast_concat] at hdrop

/-- No component has a separator in it. -/
theorem Spelled.separator_notMem (h : Spelled cs) (hc : c ∈ cs) : separator ∉ c.part := by
  obtain ⟨lead, names, rfl, hlead, hnames⟩ := h
  obtain hc | hc := List.mem_append.1 hc
  · obtain rfl | rfl | rfl := hlead
    · cases hc
    · rw [List.mem_singleton.1 hc]
      decide
    · rw [List.mem_singleton.1 hc]
      decide
  · exact (hnames c hc).2

theorem ofComponents_of_ne (h : cs ≠ [.root]) :
    ofComponents cs = ⟨[separator].intercalate (cs.map Component.part)⟩ := by
  unfold ofComponents
  split
  · exact absurd rfl h
  · rfl

/-- A path that is more than the root has the parts of its components. -/
theorem Spelled.parts_ofComponents (h : Spelled cs) (hne : cs ≠ []) (hroot : cs ≠ [.root]) :
    parts (ofComponents cs).bytes = cs.map Component.part := by
  rw [ofComponents_of_ne hroot]
  refine parts_intercalate (by simpa using hne) fun part hpart => ?_
  obtain ⟨c, hc, rfl⟩ := List.mem_map.1 hpart
  exact h.separator_notMem hc

theorem filterMap_map_part {names : List Component}
    (h : ∀ c ∈ names, Component.ofPart? c.part = some c) :
    (names.map Component.part).filterMap Component.ofPart? = names := by
  induction names with
  | nil => rfl
  | cons c names ih =>
    rw [List.map_cons, List.filterMap_cons_some (h c (List.mem_cons_self ..)),
      ih fun c' hc' => h c' (List.mem_cons_of_mem _ hc')]

/-- **Components are those of the path that is put together from them.** -/
theorem Spelled.components_ofComponents (h : Spelled cs) : (ofComponents cs).components = cs := by
  have hs := h
  obtain ⟨lead, names, rfl, hlead, hnames⟩ := h
  by_cases hne : lead ++ names = []
  · rw [hne]
    rfl
  by_cases hroot : lead ++ names = [.root]
  · rw [hroot]
    rfl
  have hparts := hs.parts_ofComponents hne hroot
  have hfilter := filterMap_map_part fun c hc => (hnames c hc).1
  rw [components, hparts, List.map_append, List.filterMap_append, hfilter]
  obtain rfl | rfl | rfl := hlead
  · obtain _ | ⟨c, names⟩ := names
    · exact absurd rfl hne
    have hc := (hnames c (List.mem_cons_self ..)).1
    have hrelative : ¬(ofComponents ([] ++ c :: names)).isAbsolute = true := by
      rw [isAbsolute_iff, hparts]
      rintro ⟨rest, -, hrest⟩
      rw [(List.cons.inj hrest).1] at hc
      cases hc
    have hdot : ¬(([] : List Component).map Component.part ++
        (c :: names).map Component.part).head? = some [0x2E] := by
      intro hhead
      rw [Option.some.inj hhead] at hc
      cases hc
    rw [if_neg hrelative, if_neg hdot]
    rfl
  · have hnil : names.map Component.part ≠ [] := fun h => by
      rw [List.map_eq_nil_iff.1 h] at hroot
      exact hroot rfl
    rw [if_pos (isAbsolute_iff.2 ⟨_, hnil, hparts⟩)]
    rfl
  · have hrelative : ¬(ofComponents ([.current] ++ names)).isAbsolute = true := by
      rw [isAbsolute_iff, hparts]
      rintro ⟨rest, -, hrest⟩
      cases (List.cons.inj hrest).1
    have hdot : ([Component.current].map Component.part ++
        names.map Component.part).head? = some [0x2E] := rfl
    rw [if_neg hrelative, if_pos hdot]
    rfl

/-- A path starts at the root if its components do. -/
theorem isAbsolute_iff_head? :
    path.isAbsolute = true ↔ path.components.head? = some .root := by
  rw [components]
  split
  · next h => exact ⟨fun _ => rfl, fun _ => h⟩
  next h =>
  refine ⟨fun hroot => absurd hroot h, fun hroot => ?_⟩
  split at hroot
  · cases hroot
  · obtain ⟨part, -, hpart⟩ := List.mem_filterMap.1 (List.mem_of_head? hroot)
    rw [Component.ofPart?] at hpart
    split at hpart
    · cases hpart
    · split at hpart <;> cases hpart

/-- Only the root is spelled by nothing. -/
theorem part_ne_nil (h : c ∈ path.components) (hroot : c ≠ .root) : c.part ≠ [] := by
  obtain ⟨lead, names, hcs, hlead, hnames⟩ := spelled_components path
  rw [hcs] at h
  intro hnil
  obtain h | h := List.mem_append.1 h
  · obtain rfl | rfl | rfl := hlead
    · cases h
    · exact hroot (List.mem_singleton.1 h)
    · rw [List.mem_singleton.1 h] at hnil
      cases hnil
  · have hc := (hnames c h).1
    rw [hnil] at hc
    cases hc

/-- What does not start a path and is not `..` is a name. -/
theorem Spelled.exists_entry {init : List Component} (h : Spelled (init ++ [c])) (hne : init ≠ [])
    (hparent : c ≠ .parent) :
    ∃ name : Name, c = .entry name ∧ Component.ofPart? name.bytes = some (.entry name) := by
  obtain ⟨lead, names, hcs, hlead, hnames⟩ := h
  obtain ⟨first, init, rfl⟩ := List.exists_cons_of_ne_nil hne
  have hmem : c ∈ names := by
    obtain rfl | rfl | rfl := hlead
    · have hnames : names = first :: init ++ [c] := hcs.symm
      simp [hnames]
    · have hnames : names = init ++ [c] := (List.cons.inj hcs).2.symm
      simp [hnames]
    · have hnames : names = init ++ [c] := (List.cons.inj hcs).2.symm
      simp [hnames]
  have hc := (hnames c hmem).1
  cases c with
  | root => cases hc
  | current => cases hc
  | parent => exact absurd rfl hparent
  | entry name => exact ⟨name, rfl, hc⟩

/-- What spells the components of a path are parts of it. -/
theorem map_part_components_sublist (path : Path) :
    (path.components.map Component.part).Sublist (parts path.bytes) := by
  rw [components]
  split
  · next h =>
    obtain ⟨rest, -, hrest⟩ := isAbsolute_iff.1 h
    rw [hrest, List.map_cons, List.filterMap_cons_none rfl, map_part_filterMap]
    exact List.filter_sublist.cons_cons _
  split
  · next h =>
    obtain ⟨rest, hrest⟩ := List.head?_eq_some_iff.1 h
    rw [hrest, List.map_cons, List.filterMap_cons_none rfl, map_part_filterMap]
    exact List.filter_sublist.cons_cons _
  · rw [map_part_filterMap]
    exact List.filter_sublist

/-- **A path of the first components** has no bytes that the whole does not have. -/
theorem ofComponents_sublist (h : cs <+: path.components) :
    (ofComponents cs).bytes.Sublist path.bytes := by
  by_cases hroot : cs = [.root]
  · obtain ⟨rest, hrest⟩ := h
    have habsolute : path.isAbsolute = true := by
      rw [isAbsolute_iff_head?, ← hrest, hroot]
      rfl
    obtain ⟨b, hb⟩ : ∃ b, path.bytes = separator :: b := by
      rw [isAbsolute, beq_iff_eq] at habsolute
      exact List.head?_eq_some_iff.1 habsolute
    rw [hroot, hb]
    exact (List.nil_sublist b).cons_cons _
  · have hbytes : path.bytes = [separator].intercalate (parts path.bytes) := by
      rw [parts_eq_splitOn, List.intercalate_splitOn]
    rw [ofComponents_of_ne hroot, hbytes]
    exact sublist_intercalate _ ((h.sublist.map _).trans (map_part_components_sublist path))

/-- The parent of a path has all of its components but the last. -/
theorem exists_of_parent? {dir : Path} (h : path.parent? = some dir) :
    ∃ init c, path.components = init ++ [c] ∧ c ≠ .root ∧ dir = ofComponents init := by
  rw [parent?] at h
  split at h
  · cases h
  · cases h
  · next c hroot hlast =>
    refine ⟨path.components.dropLast, c, (List.dropLast_append_getLast? c hlast).symm, ?_,
      (Option.some.inj h).symm⟩
    rintro rfl
    exact hroot rfl

end Path

end TreeCompare
