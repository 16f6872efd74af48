import TreeCompare.Proofs.Operations.StartFilter
import TreeCompare.Proofs.Pairing.NameByName
/-!
# Directories that can be read

Where case counts, a directory that can be read is read as those of its names
that are shown, whatever the run has come to (`namesIn_of_offers`), and with
a start name as well as without one. So two pairs of directories come to the
same if together they offer the same names, and what is done with each name
agrees (`pairDirectories_nameByName`).
-/

namespace TreeCompare

variable {σ α β : Type}

/-- The pair, its directories perhaps opened by now. -/
structure DirectoryPair.Becomes (pair opened : DirectoryPair) : Prop where
  side (side : Side) : (pair.side side).Becomes (opened.side side)
  ancestors : opened.ancestors = pair.ancestors

namespace Comparison

variable {c : Comparison σ} {fs fs' : FileSystem} {operand : Operand} {P : Name → Prop}
  {start : Option Name} {name : Name}

/-- Where case counts, a name is shown unless it is left out or lies before
the start name. -/
def isShown (c : Comparison σ) (start : Option Name) (name : Name) : Bool :=
  (start.all fun start => passes false (name.bytewise start)) && !c.excluded name

theorem kept_of_caseSensitive (hcase : c.options.ignoreCase = false) (start : Option Name)
    (names : List Name) (s : RunState σ) :
    c.kept start false names s = (names.filter (c.isShown start), s) := by
  cases start with
  | none => rw [kept_none]; rfl
  | some start =>
    exact kept_of_not_usesKeys (NameOrdering.not_usesKeys_of_caseSensitive hcase s) names

/-- What is kept of a directory where case counts: the names that are shown,
sorted by bytes. -/
theorem keptTable_of_caseSensitive (hcase : c.options.ignoreCase = false) {names : List Name}
    (hd : names.Nodup) (start : Option Name) (s : RunState σ) :
    let table := c.keptTable start false names s
    Keying.bytes.Sorted table.1.names ∧
      (∀ name, name ∈ table.1.names ↔ name ∈ names ∧ c.isShown start name = true) ∧
      table.2 = s := by
  have hperm := c.perm_keptTable start false names s
  rw [kept_of_caseSensitive hcase] at hperm
  have hbytes : ¬ c.order.usesKeys s = true :=
    NameOrdering.not_usesKeys_of_caseSensitive hcase s
  obtain ⟨hsorted, hrun⟩ :=
    NameOrdering.sort_of_not_usesKeys (hd.filter (c.isShown start)) hbytes
  refine ⟨?_, fun name => by rw [hperm.mem_iff, List.mem_filter], ?_⟩
  · rw [keptTable, kept_of_caseSensitive hcase, NameTable.names_sortTail, List.take_zero,
      List.nil_append, List.drop_zero, NameTable.names_ofList]
    exact hsorted
  · rw [keptTable, kept_of_caseSensitive hcase, NameTable.run_sortTail, List.drop_zero,
      NameTable.names_ofList]
    exact hrun

/-- What an operand offers to be read: nothing if it does not exist, and
otherwise the names of its directory, which can be read without a failure and
yields each of them once. -/
inductive Offers (c : Comparison σ) (fs : FileSystem) (operand : Operand) (P : Name → Prop) :
    Prop where
  | nothing (hn : operand.isNonexistent = true) (hP : ∀ name, ¬ P name)
  | directory {stat : ObjectStat} {names : List Name} (hn : operand.isNonexistent = false)
      (hstat : fs.stat operand.path c.options.followLinks = .ok stat)
      (hk : stat.kind = .directory) (henum : fs.enumerate operand.path = .ok ⟨names, none⟩)
      (hd : names.Nodup) (hP : ∀ name, name ∈ names ↔ P name)

/-- **What an operand offers is read**, as far as it is shown. -/
theorem namesIn_of_offers (hcase : c.options.ignoreCase = false) (h : c.Offers fs operand P)
    (start : Option Name) (s : RunState σ) :
    ∃ table opened s', c.namesIn fs operand start false s = (.ok table, opened, s') ∧
      operand.Becomes opened ∧ Keying.bytes.Sorted table.names ∧
      (∀ name, name ∈ table.names ↔ P name ∧ c.isShown start name = true) ∧
      s'.basis = s.basis := by
  cases h with
  | nothing hn hP =>
    refine ⟨{ NameTable.empty with sortedBy := some s.basis }, operand, s, ?_, .refl operand,
      List.Pairwise.nil, fun name => ?_, rfl⟩
    · rw [namesIn, if_pos hn]
    · exact iff_of_false List.not_mem_nil fun h => hP name h.1
  | @directory stat names hn hstat hk henum hd hP =>
    obtain ⟨hsorted, hmem, hrun⟩ := keptTable_of_caseSensitive hcase hd start s
    let opened : Operand :=
      { operand with opening := .opened, stat := some (operand.stat.getD stat) }
    have hopen : c.openDirectory fs operand = .ok (⟨names, none⟩, opened) := by
      simp only [openDirectory, hstat, hk, henum, reduceCtorEq, if_true, if_false, opened]
    have hread : c.namesIn fs operand start false s = (.ok (c.keptTable start false names s).1,
        opened, (c.keptTable start false names s).2.note (.listed operand.path
          (c.keptTable start false names s).1.size
          (c.keptTable start false names s).1.byteCount)) := by
      simp only [namesIn, hn, hopen, Bool.false_eq_true, if_false]
      rfl
    refine ⟨_, _, _, hread, (openDirectory_ok hn hopen).2, hsorted, fun name => ?_, ?_⟩
    · rw [hmem, hP]
    · rw [hrun]
      rfl

/-- A name that both tables show, or one of them, is handed on with the sides
that offer it. -/
theorem shows_ofName {P : Side → Prop} {left right : List Name} {name : Name}
    (hl : name ∈ left ↔ P .left) (hr : name ∈ right ↔ P .right) :
    (Pairing.ofName left right name).Shows name P := by
  constructor
  · rintro (- | -) h
    · exact if_pos (hl.2 h)
    · exact if_pos (hr.2 h)
  · rintro (- | -) h
    · exact if_neg fun hmem => h (hl.1 hmem)
    · exact if_neg fun hmem => h (hr.1 hmem)

/-- **Two pairs of directories agree name by name** where case counts, if
together the directories of each offer the same names. -/
theorem pairDirectories_nameByName (hcase : c.options.ignoreCase = false)
    {pair pair' : DirectoryPair} {P P' : Side → Name → Prop}
    (hread : ∀ side, c.Offers fs (pair.side side) (P side))
    (hread' : ∀ side, c.Offers fs' (pair'.side side) (P' side))
    (hnames : ∀ name, (∃ side, P side name) ↔ ∃ side, P' side name)
    (hback : (pair.leadsBack .left && pair.leadsBack .right) = false)
    (hback' : (pair'.leadsBack .left && pair'.leadsBack .right) = false)
    (hroot : pair'.isRoot = pair.isRoot) {R : α → β → Prop}
    {visitor : DirectoryPair → Visitor σ α} {visitor' : DirectoryPair → Visitor σ β}
    (hv : ∀ {opened opened'}, pair.Becomes opened → pair'.Becomes opened' →
      ∀ {name}, (∃ side, P side name) → ∀ {p p' : Pairing}, p.Shows name (P · name) →
        p'.Shows name (P' · name) → ∀ {s s' result result'}, s'.basis = s.basis →
          R result result' →
          (visitor opened p s result).Agrees R (visitor' opened' p' s' result'))
    {s s' : RunState σ} {result : α} {result' : β} (hs : s'.basis = s.basis)
    (hresult : R result result') :
    (c.pairDirectories fs pair visitor s result).toStep.Agrees R
      (c.pairDirectories fs' pair' visitor' s' result').toStep := by
  unfold pairDirectories
  simp only [hback, hback', hroot, Bool.false_eq_true, if_false]
  generalize (if pair.isRoot then c.options.startingFile else none) = start
  obtain ⟨left, opl, s₁, hl, hbl, hsl, hml, hb₁⟩ := namesIn_of_offers hcase (hread .left) start s
  obtain ⟨right, opr, s₂, hr, hbr, hsr, hmr, hb₂⟩ :=
    namesIn_of_offers hcase (hread .right) start s₁
  obtain ⟨left', opl', s₁', hl', hbl', hsl', hml', hb₁'⟩ :=
    namesIn_of_offers hcase (hread' .left) start s'
  obtain ⟨right', opr', s₂', hr', hbr', hsr', hmr', hb₂'⟩ :=
    namesIn_of_offers hcase (hread' .right) start s₁'
  simp only [DirectoryPair.side] at hl hr hl' hr'
  simp only [hl, hr, hl', hr', reportRead]
  have hsides : ∀ {Q : Side → Name → Prop} {left right : List Name},
      (∀ name, name ∈ left ↔ Q .left name ∧ c.isShown start name = true) →
      (∀ name, name ∈ right ↔ Q .right name ∧ c.isShown start name = true) →
      ∀ name, name ∈ left ∨ name ∈ right ↔
        (∃ side, Q side name) ∧ c.isShown start name = true := by
    intro Q left right hml hmr name
    rw [hml, hmr, ← or_and_right]
    refine and_congr_left fun _ => ⟨?_, ?_⟩
    · rintro (h | h)
      · exact ⟨.left, h⟩
      · exact ⟨.right, h⟩
    · rintro ⟨- | -, h⟩
      · exact Or.inl h
      · exact Or.inr h
  refine pairTables_nameByName hcase hsl hsr hsl' hsr' (fun name => ?_)
    (fun name hname => ?_) ?_ hresult
  · rw [hsides hml hmr, hsides hml' hmr', hnames]
  · obtain ⟨hoffered, hshown⟩ := (hsides hml hmr name).1 hname
    have hone : ∀ {table : NameTable} {Q : Prop},
        (name ∈ table.names ↔ Q ∧ c.isShown start name = true) → (name ∈ table.names ↔ Q) :=
      fun h => h.trans (and_iff_left hshown)
    have hopened : pair.Becomes { pair with left := opl, right := opr } :=
      ⟨fun side => by cases side <;> assumption, rfl⟩
    have hopened' : pair'.Becomes { pair' with left := opl', right := opr' } :=
      ⟨fun side => by cases side <;> assumption, rfl⟩
    intro s s' result result' hs hresult
    exact hv hopened hopened' hoffered (shows_ofName (hone (hml name)) (hone (hmr name)))
      (shows_ofName (hone (hml' name)) (hone (hmr' name))) hs hresult
  · rw [hb₂', hb₁', hb₂, hb₁, hs]

end Comparison

end TreeCompare
