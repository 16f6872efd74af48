import TreeCompare.Proofs.Joining.Groups
import TreeCompare.Proofs.Operations.Laws
import TreeCompare.Proofs.Pairing.Course
/-!
# A pairing on which nothing fails

With a collator that gives every name its key, what a pairing hands on is
determined by the names of its two tables. A visitor may use the comparison
meanwhile, as long as it does so through the operations of the comparison
(`Comparison.Operates`): none of them gives the order up.
-/

namespace TreeCompare

namespace Comparison

variable {σ α : Type} {c : Comparison σ} {visitor : Visitor σ α} {key : Keying}
  {left right : NameTable} {s t : RunState σ} {result : α}

/-- What the operations of a comparison can do to a run: beginning another
one, reporting, reading directories, looking names up, and pairing tables
or directories with visitors that do no more than that themselves. -/
inductive Operates (c : Comparison σ) : RunState σ → RunState σ → Prop where
  | refl (s : RunState σ) : Operates c s s
  | trans {s t u : RunState σ} (h : Operates c s t) (h' : Operates c t u) : Operates c s u
  | beginRun (s : RunState σ) : Operates c s s.reset
  | note (s : RunState σ) (n : Note) : Operates c s (s.note n)
  | namesIn (fs : FileSystem) (operand : Operand) (start : Option Name) (startOnly : Bool)
      (s : RunState σ) : Operates c s (c.namesIn fs operand start startOnly s).2.2
  | lookUp (fs : FileSystem) (dir : Operand) (name : Name) (s : RunState σ) :
      Operates c s (c.lookUp fs dir name s).2.2
  | pairTables {β : Type} {visitor : Visitor σ β}
      (h : ∀ p s result, Operates c s (visitor p s result).run) (left right : NameTable)
      (s : RunState σ) (result : β) : Operates c s (c.pairTables visitor left right s result).run
  | pairDirectories {β : Type} {visitor : DirectoryPair → Visitor σ β}
      (h : ∀ pair p s result, Operates c s (visitor pair p s result).run) (fs : FileSystem)
      (pair : DirectoryPair) (s : RunState σ) (result : β) :
      Operates c s (c.pairDirectories fs pair visitor s result).run

/-- **No operation gives the order up** unless the collator fails. -/
theorem Operates.collated (hg : c.order.collator.Gives key) (h : c.Operates s t) :
    s.basis = .collated → t.basis = .collated := by
  have hlaw := NameOrdering.stepLaw_collated hg
  induction h with
  | refl s => exact id
  | trans _ _ ih ih' => exact fun hs => ih' (ih hs)
  | beginRun s => exact fun _ => rfl
  | note s n => exact id
  | namesIn fs operand start startOnly s => exact namesIn_law hlaw fs operand start startOnly s
  | lookUp fs dir name s => exact lookUp_law hlaw fs dir name s
  | pairTables _ left right s result ih => exact pairTables_law hlaw ih left right s result
  | pairDirectories _ fs pair s result ih =>
    exact pairDirectories_law hlaw (fun _ _ _ => id) fs pair ih s result

/-- A pairing on which nothing fails is the join of its two tables. -/
theorem visits_eq_join (hg : c.order.collator.Gives key) (hl : left.names.Nodup)
    (hr : right.names.Nodup) (htl : left.TrueTo c.order key) (htr : right.TrueTo c.order key)
    (hs : s.basis = .collated) (hv : Visitor.Keeps c.Operates visitor) (result : α) :
    ∃ left' right', left'.Perm left.names ∧ right'.Perm right.names ∧
      (c.order.keying key .collated).Sorted left' ∧
      (c.order.keying key .collated).Sorted right' ∧
      Visit.handed (c.visits visitor left right s result) =
        (c.order.keying key .collated).join left' right' := by
  have hlaw := NameOrdering.stepLaw_collated hg
  have hbegun : (c.sortBoth left right s).2.2.basis = .collated :=
    sortBoth_law hlaw left right s hs
  obtain ⟨hbl, hbr⟩ := sorted_sortBoth hg.keyedBy hl hr htl htr s
  obtain ⟨hpl, hpr⟩ := c.perm_sortBoth left right s
  rw [hbegun] at hbl hbr
  refine ⟨_, _, hpl, hpr, hbl, hbr, ?_⟩
  rw [visits_eq_visitsOn]
  refine visitsOn_join (P := fun t => t.basis = .collated)
    (Q := (c.order.keying key .collated).Sorted) ?_ ?_ (fun h hs => h.sublist hs) ?_ hbegun hbl hbr
  · exact fun left right t ht => alignTails_law hlaw left right t ht
  · exact fun p t result ht => (hv p t result).collated hg ht
  · intro left right t ht hl hr
    rw [← ht] at hl hr ⊢
    rcases alignTails_spec hg.keyedBy hl hr with ⟨-, hf⟩ | ⟨-, hb, _⟩
    · exact hf
    · rw [alignTails_law hlaw left right t ht] at hb
      cases hb

/-- **What a pairing hands on when collation does not fail.** If case
counts, every name of the two tables, in the order of bytes and with the
sides that hold it. If not, the names in groups of equal keys, in the order
of their keys: in each group as many pairs as there can be, and then the
names left of the side with more of them, in the order of bytes, with every
name of both tables paired with itself. -/
theorem handed_of_gives (hg : c.collator.Gives key) (hl : left.names.Nodup)
    (hr : right.names.Nodup) (htl : left.TrueTo c.order key) (htr : right.TrueTo c.order key)
    (hs : s.basis = .collated) (hv : Visitor.Keeps c.Operates visitor) :
    let handed := Visit.handed (c.visits visitor left right s result)
    (c.options.ignoreCase = false → handed = outerJoin left.names right.names) ∧
      (c.options.ignoreCase = true → IsGroupedJoin key left.names right.names handed) := by
  intro handed
  obtain ⟨left', right', hpl, hpr, hsl, hsr, hjoin⟩ :=
    visits_eq_join hg hl hr htl htr hs hv result
  have hj := Keying.joins_join hsl hsr
  rw [← hjoin] at hj
  constructor
  · intro hcase
    have hkey : c.order.keying key .collated = Keying.bytes :=
      if_neg (by simp [order, hcase])
    rw [hkey] at hj hsl hsr
    exact hj.eq_outerJoin hsl hsr hr (fun x => hpl.mem_iff) (fun x => hpr.mem_iff)
  · intro hcase
    have hkey : c.order.keying key .collated = key := if_pos (by simp [order, hcase])
    rw [hkey] at hj hsl hsr
    exact (hj.isGroupedJoin hsl hsr).congr hpl hpr

/-- Two tables with several spellings of one name, and a visitor that begins
another run at every visit. -/
theorem handed_of_gives_foldAscii :
    let c : Comparison Unit := ⟨{ ignoreCase := true }, .ofKeying .foldAscii, fun _ => false⟩
    let left := NameTable.ofList (["b", "B", "a"].map Name.ofString)
    let right := NameTable.ofList (["a", "A", "B", "c"].map Name.ofString)
    let visitor : Visitor Unit Unit := fun _ s _ => ⟨.same, s.reset, ()⟩
    IsGroupedJoin .foldAscii left.names right.names
      (Visit.handed (c.visits visitor left right (.start ()) ())) := by
  intro c left right visitor
  have hl : left.names.Nodup := by
    rw [NameTable.names_ofList]
    decide
  have hr : right.names.Nodup := by
    rw [NameTable.names_ofList]
    decide
  exact (handed_of_gives (c := c) Collator.gives_ofKeying hl hr (NameTable.trueTo_of_unsorted rfl)
    (NameTable.trueTo_of_unsorted rfl) rfl (fun _ s _ => .beginRun s)).2 rfl

end Comparison

end TreeCompare
