import Mathlib.Data.List.TakeWhile
import TreeCompare.FileTree
import TreeCompare.Lookup
import TreeCompare.Proofs.Operations.Alike
import TreeCompare.Proofs.Operations.Laws
import TreeCompare.Proofs.Operations.Opened
import TreeCompare.Proofs.Ordering.Stable
/-!
# What a name means in a directory

A name that is looked up without regard to case means the entry that is called
so, or else the first, by bytes, of its variants, or else itself (`Name.Means`).
Variants are the entries with its key, up to the first entry that has none
(`Comparison.variants`): so where keys are given by the names alone, every entry
counts (`lookUp_of_keyed`), and where a key may be missing, it may depend on the
order of the entries what a name means (`lookUp_inAnyOrder_iff`).
-/

namespace TreeCompare

variable {σ : Type} {answer : Name → Except KeyError SortKey}

/-- What a name means among the names that are present, some of which are its
variants. -/
inductive Name.Means (name : Name) (present variants : List Name) : Name → Prop where
  | exact (h : name ∈ present) : Means name present variants name
  | variant {entry : Name} (h : name ∉ present) (hv : entry ∈ variants)
      (hleast : ∀ x ∈ variants, (entry.bytewise x).isLE) : Means name present variants entry
  | itself (h : name ∉ present) (hv : variants = []) : Means name present variants name

namespace Name.Means

variable {name entry entry' : Name} {present present' variants variants' : List Name}

/-- A name means one entry. -/
theorem unique (h : name.Means present variants entry) (h' : name.Means present variants entry') :
    entry = entry' := by
  cases h with
  | exact hp =>
    cases h' with
    | exact _ => rfl
    | variant hn _ _ => exact absurd hp hn
    | itself _ _ => rfl
  | variant hn hv hleast =>
    cases h' with
    | exact hp => exact absurd hp hn
    | variant _ hv' hleast' =>
      exact Name.bytewise_eq_eq.1
        (Std.OrientedCmp.isLE_antisymm (hleast _ hv') (hleast' _ hv))
    | itself _ hnil => exact absurd (hnil ▸ hv) List.not_mem_nil
  | itself hn hnil =>
    cases h' with
    | exact _ => rfl
    | variant _ hv _ => exact absurd (hnil ▸ hv) List.not_mem_nil
    | itself _ _ => rfl

/-- What it means depends on whether the name is present, and if it is not, on
which its variants are. -/
theorem congr (h : name.Means present variants entry) (hp : name ∈ present ↔ name ∈ present')
    (hv : name ∉ present → ∀ x, x ∈ variants ↔ x ∈ variants') :
    name.Means present' variants' entry := by
  cases h with
  | exact h => exact .exact (hp.1 h)
  | variant hn hmem hleast =>
    exact .variant (mt hp.2 hn) ((hv hn _).1 hmem) fun x hx => hleast x ((hv hn x).2 hx)
  | itself hn hnil =>
    refine .itself (mt hp.2 hn) (List.eq_nil_iff_forall_not_mem.2 fun x hx => ?_)
    exact List.not_mem_nil (hnil ▸ (hv hn x).2 hx)

end Name.Means

/-- The file system in which a directory yields these names, all that there
are. -/
def FileSystem.yielding (fs : FileSystem) (path : Path) (names : List Name) : FileSystem :=
  { fs with enumerate := fun p => if p = path then .ok ⟨names, none⟩ else fs.enumerate p }

namespace Comparison

variable {c : Comparison σ} {fs : FileSystem} {dir : Operand} {name x : Name} {names : List Name}
  {s : RunState σ}

/-! ## The candidates -/

/-- The variants of a name among some names: those with its key, in front of the
first that has none, if they are not left out. -/
def variants (c : Comparison σ) (answer : Name → Except KeyError SortKey) (name : Name)
    (names : List Name) : List Name :=
  (names.takeWhile (comparable answer · name)).filter fun x =>
    judged answer x name == .eq && !c.excluded x

theorem of_mem_variants (hx : x ∈ c.variants answer name names) :
    x ∈ names.filter (!c.excluded ·) ∧ SameKey answer x name := by
  rw [variants, List.mem_filter, Bool.and_eq_true, beq_iff_eq] at hx
  obtain ⟨hx, hmatch, hkeep⟩ := hx
  have hcomparable := List.mem_takeWhile_imp (p := (comparable answer · name)) hx
  exact ⟨List.mem_filter.2 ⟨List.takeWhile_subset _ hx, hkeep⟩,
    sameKey_iff.2 ⟨hcomparable, hmatch⟩⟩

/-- Where all names have a key, all with the key of the name are variants. -/
theorem mem_variants (hall : ∀ x ∈ names, hasKey answer x = true) :
    x ∈ c.variants answer name names ↔
      x ∈ names.filter (!c.excluded ·) ∧ SameKey answer x name := by
  refine ⟨of_mem_variants, fun ⟨hx, hmatch⟩ => ?_⟩
  obtain ⟨hx, hkeep⟩ := List.mem_filter.1 hx
  have hname : hasKey answer name = true := hasKey_iff.2 (hmatch.imp fun _ => And.right)
  have htake : names.takeWhile (comparable answer · name) = names :=
    List.takeWhile_eq_self_iff.2 fun y hy => by rw [comparable_eq, hall y hy, hname]; rfl
  rw [variants, htake, List.mem_filter, (sameKey_iff.1 hmatch).2]
  exact ⟨hx, hkeep⟩

/-- The name itself is kept wherever it stands, if it is not left out. -/
theorem self_mem_kept (ha : c.order.collator.AnswersBy answer) (hu : c.order.usesKeys s = true) :
    name ∈ (c.kept (some name) true names s).1 ↔ name ∈ names.filter (!c.excluded ·) := by
  rw [(kept_eq ha hu name true names).1, List.mem_append, List.mem_filter, List.mem_filter,
    judged_self, Name.bytewise_self, ← or_and_right, ← List.mem_append,
    List.takeWhile_append_dropWhile, List.mem_filter]
  rfl

/-- Behind the first name without a key only the name itself would be kept. -/
theorem kept_of_absent (ha : c.order.collator.AnswersBy answer) (hu : c.order.usesKeys s = true)
    (hn : name ∉ names.filter (!c.excluded ·)) :
    (c.kept (some name) true names s).1 = c.variants answer name names := by
  have hrest : ((names.dropWhile (comparable answer · name)).filter fun x =>
      x.bytewise name == .eq && !c.excluded x) = [] := by
    refine List.filter_eq_nil_iff.2 fun x hx hmatch => ?_
    rw [Bool.and_eq_true, beq_iff_eq, Name.bytewise_eq_eq] at hmatch
    obtain ⟨rfl, hkeep⟩ := hmatch
    exact hn (List.mem_filter.2 ⟨List.dropWhile_subset _ hx, hkeep⟩)
  rw [(kept_eq ha hu name true names).1]
  simp only [passes_true, hrest, List.append_nil, variants]

/-- The best of some candidates, if they are in the order of their bytes where
the name itself is not one of them. -/
theorem means_bestMatch {candidates sorted : List Name} (hp : sorted.Perm candidates)
    (hs : name ∉ candidates → sorted.Pairwise fun a b => (a.bytewise b).isLE) :
    name.Means candidates candidates ((bestMatch name sorted).getD name) := by
  unfold bestMatch
  by_cases hmem : name ∈ candidates
  · rw [if_pos (List.contains_iff_mem.2 (hp.mem_iff.2 hmem))]
    exact .exact hmem
  · rw [if_neg fun h => hmem (hp.mem_iff.1 (List.contains_iff_mem.1 h))]
    cases sorted with
    | nil => exact .itself hmem (List.nil_perm.1 hp)
    | cons entry rest =>
      refine .variant hmem (hp.mem_iff.1 (List.mem_cons_self ..)) fun x hx => ?_
      rcases List.mem_cons.1 (hp.mem_iff.2 hx) with rfl | hx
      · exact Std.ReflCmp.isLE_rfl
      · exact List.rel_of_pairwise_cons (hs hmem) hx

/-- Names with one key are sorted by their bytes. -/
theorem sort_of_sameKey (ha : c.order.collator.AnswersBy answer)
    (hnames : ∀ x ∈ names, SameKey answer x name) (s : RunState σ) :
    (c.order.sort id names s).1.Pairwise fun a b => (a.bytewise b).isLE := by
  have hperm := c.order.sort_perm id names s
  have hkey : ∀ x ∈ (c.order.sort id names s).1,
      Keying.ofAnswers answer x = Keying.ofAnswers answer name := fun x hx => by
    obtain ⟨k, hk, hk'⟩ := hnames x (hperm.mem_iff.1 hx)
    simp only [Keying.ofAnswers, hk, hk']
  refine (NameOrdering.ascending_sort ha names s).imp_of_mem fun {a b} hma hmb h => ?_
  unfold NameOrdering.keying at h
  split at h
  · rwa [Keying.sorting_of_matching
      (Keying.matching_eq.2 ((hkey a hma).trans (hkey b hmb).symm))] at h
  · rwa [Keying.sorting_bytes] at h

/-- **What a name means among names that are searched for it**, while names are
collated. -/
theorem means_kept (ha : c.order.collator.AnswersBy answer) (hu : c.order.usesKeys s = true)
    (name : Name) (names : List Name) :
    let kept := c.kept (some name) true names s
    name.Means (names.filter (!c.excluded ·)) (c.variants answer name names)
      ((bestMatch name (c.order.sort id kept.1 kept.2).1).getD name) := by
  intro kept
  have hname : name ∈ kept.1 ↔ name ∈ names.filter (!c.excluded ·) := self_mem_kept ha hu
  have hvariants : name ∉ kept.1 → kept.1 = c.variants answer name names := fun hn =>
    kept_of_absent ha hu (mt hname.2 hn)
  refine (means_bestMatch (c.order.sort_perm id kept.1 kept.2) fun hn => ?_).congr hname
    fun hn x => by rw [hvariants hn]
  exact sort_of_sameKey ha (fun x hx => (of_mem_variants (hvariants hn ▸ hx)).2) kept.2

/-! ## The directory -/

/-- The names that a search of a directory goes through: none if it cannot be
read. -/
def searched (c : Comparison σ) (fs : FileSystem) (dir : Operand) : List Name :=
  if (c.listing? fs dir).isSome then entryNames fs dir else []

/-- Those that are not left out are what the directory is listed as. -/
theorem listing?_getD (c : Comparison σ) (fs : FileSystem) (dir : Operand) :
    (c.listing? fs dir).getD [] = (c.searched fs dir).filter (!c.excluded ·) := by
  unfold searched listing? entryNames
  split
  · rfl
  · split
    · split
      · unfold keptOf?
        cases fs.enumerate dir.path with
        | error e => rfl
        | ok entries =>
          obtain ⟨names, failure⟩ := entries
          cases failure <;> rfl
      · rfl
    · rfl

theorem Refuses.listing? {e : IoError} (h : c.Refuses fs dir e)
    (hn : dir.isNonexistent = false) : c.listing? fs dir = none := by
  rw [Comparison.listing?, hn]
  cases h with
  | unseen hstat => rw [hstat]; rfl
  | link hstat hl => simp [hstat, hl]
  | noDirectory hstat hl hk => simp [hstat, hk]
  | closed hstat hk henum => simp [hstat, hk, henum, keptOf?]

theorem Marks.listing? {opened : Operand} (h : c.Marks fs dir opened)
    (hn : dir.isNonexistent = false) :
    c.listing? fs dir = c.keptOf? (fs.enumerate dir.path) := by
  obtain ⟨seen, hstat, hk, -⟩ := h
  simp [Comparison.listing?, hn, hstat, hk]

/-- A directory is listed if it is read. -/
theorem Leaves.isSome_listing? {read : Except DirectoryError NameTable} {left : Operand}
    (h : c.Leaves fs dir read left) :
    (c.listing? fs dir).isSome = read.isOk ∧ left.path = dir.path := by
  cases h with
  | nothing hn ht =>
    rw [Comparison.listing?, if_pos hn]
    exact ⟨rfl, rfl⟩
  | refused hn h =>
    rw [h.listing? hn]
    exact ⟨rfl, rfl⟩
  | broken hn hm henum =>
    rw [hm.listing? hn, henum]
    exact ⟨rfl, hm.path⟩
  | listed hn hm henum =>
    rw [hm.listing? hn, henum]
    exact ⟨rfl, hm.path⟩

/-- **What looking a name up gives**, while names are collated. -/
theorem lookUp_means (ha : c.order.collator.AnswersBy answer) (hu : c.order.usesKeys s = true)
    (fs : FileSystem) (dir : Operand) (name : Name) :
    ∃ entry, name.Means ((c.searched fs dir).filter (!c.excluded ·))
        (c.variants answer name (c.searched fs dir)) entry ∧
      (c.lookUp fs dir name s).1 = dir.path.join entry := by
  have hic : c.options.ignoreCase = true := (NameOrdering.usesKeys_iff.1 hu).1
  have hleaves := c.leaves_namesIn fs dir (some name) true s
  rw [lookUp, if_pos hic]
  rcases hread : c.namesIn fs dir (some name) true s with ⟨e | table, left, t⟩
  · rw [hread] at hleaves
    obtain ⟨hnone, hpath⟩ := hleaves.isSome_listing?
    rw [searched, hnone]
    exact ⟨name, .itself List.not_mem_nil rfl, congrArg (Path.join · name) hpath⟩
  · rw [hread] at hleaves
    obtain ⟨hsome, hpath⟩ := hleaves.isSome_listing?
    rw [searched, hsome]
    refine ⟨(bestMatch name table.names).getD name, ?_, congrArg (Path.join · _) hpath⟩
    cases reads_of_namesIn hread with
    | nothing hn =>
      rw [entryNames, hn]
      exact .itself List.not_mem_nil rfl
    | @directory entries _ _ hn henum hopened =>
      have hmeans := means_kept ha hu name entries.names
      rw [entryNames, hn, henum]
      simp only [keptTable, NameTable.names_sortTail, List.take_zero, List.nil_append,
        List.drop_zero, NameTable.names_ofList]
      exact hmeans

/-- A name means an entry that matches it, or itself. -/
theorem matched_lookUp (ha : c.order.collator.AnswersBy answer) (hs : s.basis = .collated)
    (fs : FileSystem) (dir : Operand) (name : Name) :
    ∃ entry, c.order.Matched answer entry name ∧
      (c.lookUp fs dir name s).1 = dir.path.join entry := by
  cases hic : c.options.ignoreCase with
  | false => exact ⟨name, Or.inl rfl, by rw [lookUp, hic, if_neg Bool.false_ne_true]⟩
  | true =>
    obtain ⟨entry, hmeans, hfound⟩ :=
      lookUp_means ha (NameOrdering.usesKeys_iff.2 ⟨hic, hs⟩) fs dir name
    refine ⟨entry, ?_, hfound⟩
    cases hmeans with
    | exact _ => exact Or.inl rfl
    | variant _ hv _ => exact Or.inr ⟨hic, (of_mem_variants hv).2⟩
    | itself _ _ => exact Or.inl rfl

/-! ## Keys by the names alone -/

/-- **What a name means where keys are given by the names alone.** With regard to
case it means itself, and nothing is read. Without, it means the entry that is
called so, or else the first by bytes of those with its key, or else itself;
nothing is present in a directory that does not exist or cannot be read. In
neither case is anything reported. -/
theorem lookUp_of_keyed {key : Keying} (hk : c.order.Keyed key) (fs : FileSystem) (dir : Operand)
    (name : Name) (s : RunState σ) :
    let found := c.lookUp fs dir name s
    let present := (c.listing? fs dir).getD []
    (c.options.ignoreCase = false → found = (dir.path.join name, dir, s)) ∧
    (c.options.ignoreCase = true → s.basis = .collated →
      ∃ entry, name.Means present (present.filter fun x => key x = key name) entry ∧
        found.1 = dir.path.join entry) ∧
    found.2.2.basis = s.basis ∧ found.2.2.diagnostics = s.diagnostics := by
  refine ⟨fun hic => ?_, fun hic hs => ?_, lookUp_law hk.stepLaw fs dir name s⟩
  · rw [lookUp, hic, if_neg Bool.false_ne_true]
  · have ha : c.order.collator.AnswersBy fun name => .ok (key name) := hk hic
    obtain ⟨entry, hmeans, hfound⟩ :=
      lookUp_means ha (NameOrdering.usesKeys_iff.2 ⟨hic, hs⟩) fs dir name
    refine ⟨entry, ?_, hfound⟩
    rw [listing?_getD]
    refine hmeans.congr Iff.rfl fun _ x => ?_
    have hkey : SameKey (fun name => .ok (key name)) x name ↔ key x = key name := by
      simp [SameKey, eq_comm]
    rw [mem_variants fun _ _ => rfl, hkey,
      List.mem_filter (p := fun x => decide (key x = key name)), decide_eq_true_iff]

/-- A directory with two variants of a name, behind a name that is no text. -/
def spellingTree : FileTree where
  objects := [
    { content := .directory 0 [(.ofString "d", 1)] none },
    { content := .directory 0
        [(⟨[0xFF]⟩, 2), (.ofString "notes", 2), (.ofString "NOTES", 2)] none },
    { content := .regular [] }]
  root := 0
  current := 0

/-- A collator that has a key for every name finds the variant that is first by
its bytes. -/
theorem lookUp_of_keyed_spelling :
    let c : Comparison Unit := ⟨{ ignoreCase := true }, .ofKeying .foldAscii, fun _ => false⟩
    let dir : Operand := .unopened (.ofString "d")
    (c.lookUp spellingTree.fileSystem dir (.ofString "Notes") (.start ())).1 =
      .ofString "d/NOTES" := by
  intro c dir
  have hk : c.order.Keyed .foldAscii := fun _ => Collator.gives_ofKeying
  obtain ⟨entry, hmeans, hfound⟩ := (lookUp_of_keyed hk spellingTree.fileSystem dir
    (.ofString "Notes") (.start ())).2.1 rfl rfl
  have hentry : entry = .ofString "NOTES" :=
    hmeans.unique (.variant (by decide +kernel) (by decide +kernel) (by decide +kernel))
  rw [hfound, hentry]
  decide +kernel

/-! ## Keys that may be missing -/

theorem searched_of_readable (h : (c.listing? fs dir).isSome = true) :
    c.searched fs dir = entryNames fs dir := if_pos h

/-- What is present is not changed by the order of the entries. -/
theorem mem_listing? (h : (c.listing? fs dir).isSome = true)
    (hp : names.Perm (entryNames fs dir)) :
    x ∈ (c.listing? fs dir).getD [] ↔ x ∈ names.filter (!c.excluded ·) := by
  rw [listing?_getD, searched_of_readable h, (hp.filter _).mem_iff]

/-- A directory that can be read can be read whatever the order of its
entries. -/
theorem searched_yielding (h : (c.listing? fs dir).isSome = true)
    (hp : names.Perm (entryNames fs dir)) :
    c.searched (fs.yielding dir.path names) dir = names := by
  unfold listing? at h
  unfold entryNames at hp
  unfold searched listing? entryNames FileSystem.yielding
  split at h
  · next hn =>
    rw [if_pos hn] at hp
    simp only [hn, if_true, Option.isSome_some]
    exact (List.perm_nil.1 hp).symm
  · next hn =>
    rw [if_neg hn]
    split at h
    · next stat hstat =>
      simp only [hstat]
      split at h
      · next hk => simp [hk, keptOf?, hn]
      · cases h
    · cases h

/-- What a name means in whatever order the entries come. -/
theorem lookUp_yielding (ha : c.order.collator.AnswersBy answer)
    (hu : c.order.usesKeys s = true) (h : (c.listing? fs dir).isSome = true)
    (hp : names.Perm (entryNames fs dir)) (name : Name) :
    ∃ entry, name.Means ((c.listing? fs dir).getD []) (c.variants answer name names) entry ∧
      (c.lookUp (fs.yielding dir.path names) dir name s).1 = dir.path.join entry := by
  obtain ⟨entry, hmeans, hfound⟩ := lookUp_means ha hu (fs.yielding dir.path names) dir name
  rw [searched_yielding h hp] at hmeans
  exact ⟨entry, hmeans.congr (mem_listing? h hp).symm fun _ _ => Iff.rfl, hfound⟩

/-- What a name means may depend on the order of the entries: it is not present,
but an entry that is has its key and another path, and some entry has none. -/
structure Wavers (c : Comparison σ) (answer : Name → Except KeyError SortKey) (fs : FileSystem)
    (dir : Operand) (name : Name) : Prop where
  absent : name ∉ (c.listing? fs dir).getD []
  variant : ∃ v ∈ (c.listing? fs dir).getD [], SameKey answer v name ∧
    dir.path.join v ≠ dir.path.join name
  missing : ∃ x ∈ entryNames fs dir, hasKey answer x = false

/-- The two orders that tell: an entry without a key stands behind one with the
key of the name, or in front of it. -/
theorem variants_of_missing {v : Name} (hkeep : c.excluded v = false)
    (hkey : SameKey answer v name) (hmissing : hasKey answer x = false) (rest : List Name) :
    c.variants answer name (v :: x :: rest) = [v] ∧
      c.variants answer name (x :: v :: rest) = [] := by
  obtain ⟨hv, hjudged⟩ := sameKey_iff.1 hkey
  have hx : comparable answer x name = false := by rw [comparable_eq, hmissing, Bool.false_and]
  simp [variants, hv, hjudged, hx, hkeep]

/-- Where an entry has no key, a name that does not waver is found as it is
given. -/
theorem join_of_means (h : (c.listing? fs dir).isSome = true) (hw : ¬ c.Wavers answer fs dir name)
    (hmissing : ∃ x ∈ entryNames fs dir, hasKey answer x = false)
    (hp : names.Perm (entryNames fs dir)) {entry : Name}
    (hmeans : name.Means ((c.listing? fs dir).getD []) (c.variants answer name names) entry) :
    dir.path.join entry = dir.path.join name := by
  cases hmeans with
  | exact _ => rfl
  | variant hn hv _ =>
    obtain ⟨hmem, hkey⟩ := of_mem_variants hv
    by_contra hne
    exact hw ⟨hn, ⟨entry, (mem_listing? h hp).2 hmem, hkey, hne⟩, hmissing⟩
  | itself _ _ => rfl

/-- **The order of the entries does not matter** to what is found for a name, if
and only if the name does not waver. While a directory is searched, the first
entry without a key gives the order of keys up, for the entries behind it and not
for those in front of it. -/
theorem lookUp_inAnyOrder_iff (ha : c.order.collator.AnswersBy answer)
    (hu : c.order.usesKeys s = true) (h : (c.listing? fs dir).isSome = true) (name : Name) :
    (∀ names, names.Perm (entryNames fs dir) →
      (c.lookUp (fs.yielding dir.path names) dir name s).1 = (c.lookUp fs dir name s).1) ↔
    ¬ c.Wavers answer fs dir name := by
  constructor
  · rintro hsame ⟨habsent, ⟨v, hv, hkey, hne⟩, x, hx, hmissing⟩
    obtain ⟨hv, hkeep⟩ := List.mem_filter.1 ((mem_listing? h (List.Perm.refl _)).1 hv)
    have hxv : x ≠ v := by
      rintro rfl
      rw [hasKey_iff.2 (hkey.imp fun _ => And.left)] at hmissing
      cases hmissing
    -- the entry without a key behind the variant, or in front of it
    let rest := ((entryNames fs dir).erase v).erase x
    have hbehind : (v :: x :: rest).Perm (entryNames fs dir) :=
      ((List.perm_cons_erase ((List.mem_erase_of_ne hxv).2 hx)).cons v).symm.trans
        (List.perm_cons_erase hv).symm
    have hfront : (x :: v :: rest).Perm (entryNames fs dir) := (List.Perm.swap ..).trans hbehind
    obtain ⟨hvariant, hnone⟩ :=
      variants_of_missing (Bool.not_eq_true' _ ▸ hkeep) hkey hmissing rest
    obtain ⟨entry, hmeans, hfound⟩ := lookUp_yielding ha hu h hbehind name
    obtain ⟨entry', hmeans', hfound'⟩ := lookUp_yielding ha hu h hfront name
    rw [hvariant] at hmeans
    rw [hnone] at hmeans'
    have hv : v = entry := by
      refine Name.Means.unique (.variant habsent (List.mem_singleton_self v) fun y hy => ?_) hmeans
      rw [List.mem_singleton.1 hy]
      exact Std.ReflCmp.isLE_rfl
    have hname : name = entry' := Name.Means.unique (.itself habsent rfl) hmeans'
    apply hne
    rw [hv, ← hfound, hsame _ hbehind, ← hsame _ hfront, hfound', hname]
  · intro hw names hp
    obtain ⟨entry, hmeans, hfound⟩ := lookUp_yielding ha hu h hp name
    obtain ⟨entry', hmeans', hfound'⟩ := lookUp_means ha hu fs dir name
    rw [← listing?_getD, searched_of_readable h] at hmeans'
    rw [hfound, hfound']
    by_cases hall : ∀ x ∈ entryNames fs dir, hasKey answer x = true
    · refine congrArg _ (Name.Means.unique (hmeans.congr Iff.rfl fun _ x => ?_) hmeans')
      rw [mem_variants hall, mem_variants fun y hy => hall y (hp.mem_iff.1 hy),
        (hp.filter _).mem_iff]
    · have hmissing : ∃ x ∈ entryNames fs dir, hasKey answer x = false := by
        simpa using hall
      rw [join_of_means h hw hmissing hp hmeans,
        join_of_means h hw hmissing (List.Perm.refl _) hmeans']

/-- Where the name that is no text has no key, what is found depends on where it
stands. -/
theorem lookUp_inAnyOrder_iff_spelling :
    let c : Comparison Unit := ⟨{ ignoreCase := true }, .scalarValues, fun _ => false⟩
    let dir : Operand := .unopened (.ofString "d")
    ¬ ∀ names, names.Perm (entryNames spellingTree.fileSystem dir) →
      (c.lookUp (spellingTree.fileSystem.yielding dir.path names) dir (.ofString "Notes")
        (.start ())).1 =
      (c.lookUp spellingTree.fileSystem dir (.ofString "Notes") (.start ())).1 := by
  intro c dir
  have hwavers : c.Wavers (Collator.scalarKey · true) spellingTree.fileSystem dir
      (.ofString "Notes") := by
    refine ⟨by decide +kernel, ⟨.ofString "NOTES", by decide +kernel, ?_, by decide +kernel⟩,
      ⟨[0xFF]⟩, by decide +kernel, by decide +kernel⟩
    exact sameKey_iff.2 ⟨by decide +kernel, by decide +kernel⟩
  have ha : c.order.collator.AnswersBy (Collator.scalarKey · true) := fun _ _ => rfl
  exact fun hsame =>
    (lookUp_inAnyOrder_iff ha rfl (by decide +kernel) (.ofString "Notes")).1 hsame hwavers

-- it stands in front, and no variant is found
example :
    let c : Comparison Unit := ⟨{ ignoreCase := true }, .scalarValues, fun _ => false⟩
    (c.lookUp spellingTree.fileSystem (.unopened (.ofString "d")) (.ofString "Notes")
      (.start ())).1 = .ofString "d/Notes" := by decide +kernel

end Comparison

end TreeCompare
