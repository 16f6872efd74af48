import TreeCompare.Proofs.Pairing.CaseSensitive
import TreeCompare.Proofs.Pairing.Turned
/-!
# Name by name

Where case counts, a pairing goes through the names of its two tables in the
order of bytes, and a visitor can do nothing about it (`visitsOn_inTurn`). So
two pairings of tables that hold the same names together come to the same if
their visitors agree name by name, even where a name is on one side in the
first and on both in the second (`pairTables_nameByName`).
-/

namespace TreeCompare

variable {σ α β : Type}

/-- The pairing is that of a name with the sides on which it is to be found. -/
structure Pairing.Shows (p : Pairing) (name : Name) (P : Side → Prop) : Prop where
  there {side : Side} : P side → p.get side = some name
  missing {side : Side} : ¬ P side → p.get side = none

/-- The pairings handed on one after the other, whatever is done with them. -/
def Visitor.inTurn (visitor : Visitor σ α) :
    List Pairing → (status : Status) → RunState σ → α → Step σ α
  | [], status, s, result => ⟨status, s, result⟩
  | p :: handed, status, s, result =>
    let step := visitor p s result
    visitor.inTurn handed (status.worse step.status) step.run step.result

/-- Two visitors that agree name by name agree on all names. -/
theorem Visitor.inTurn_agrees {visitor : Visitor σ α} {visitor' : Visitor σ β} {R : α → β → Prop}
    {p p' : Name → Pairing} {names : List Name}
    (hv : ∀ name ∈ names, ∀ {s s' result result'}, s'.basis = s.basis → R result result' →
      (visitor (p name) s result).Agrees R (visitor' (p' name) s' result'))
    (status : Status) {s s' : RunState σ} {result : α} {result' : β} (hs : s'.basis = s.basis)
    (hr : R result result') :
    (visitor.inTurn (names.map p) status s result).Agrees R
      (visitor'.inTurn (names.map p') status s' result') := by
  induction names generalizing status s s' result result' with
  | nil => exact ⟨rfl, hs, hr⟩
  | cons name names ih =>
    have hstep := hv name (List.mem_cons_self ..) hs hr
    simp only [List.map_cons, inTurn, hstep.status]
    exact ih (fun name hname => hv name (List.mem_cons_of_mem _ hname)) _ hstep.basis hstep.result

namespace Comparison

variable {c : Comparison σ} {visitor : Visitor σ α} {visitor' : Visitor σ β} {R : α → β → Prop}

/-- **Where case counts the pairings are handed on in turn.** -/
theorem visitsOn_inTurn (hcase : c.options.ignoreCase = false) {left right : List Name}
    (hl : left.Nodup) (hr : right.Nodup) (status : Status) (s : RunState σ) (result : α) :
    let visits := c.visitsOn visitor left right s result
    let final := Visit.leftBehind s result visits
    (⟨Visit.worst status visits, final.1, final.2⟩ : Step σ α) =
      visitor.inTurn (Visit.handed visits) status s result := by
  induction left, right, s, result using visitsOn.induct c visitor generalizing status with
  | case1 left right s result hne tails step ih =>
    -- an alignment by bytes leaves the run alone
    have htails : c.alignTails left right s = ⟨Keying.bytes.face left right, s⟩ :=
      alignTails_of_not_usesKeys (NameOrdering.not_usesKeys_of_caseSensitive hcase s) hl hr
    obtain ⟨hsl, hsr⟩ := Keying.bytes.sublist_face left right
    simp only [tails, step, htails] at ih
    rw [visitsOn_cons hne]
    simp only [htails, Visit.worst, Visit.leftBehind, List.foldl_cons, Visit.handed_cons,
      Visitor.inTurn]
    exact ih (hsl.nodup hl) (hsr.nodup hr) _
  | case2 left right s result hne =>
    have hnil : left = [] ∧ right = [] := by simpa using hne
    obtain ⟨rfl, rfl⟩ := hnil
    rw [visitsOn_nil]
    rfl

/-- **A pairing of two tables where case counts** goes through their outer
join. -/
theorem pairTables_inTurn (hcase : c.options.ignoreCase = false) {left right : NameTable}
    (hl : Keying.bytes.Sorted left.names) (hr : Keying.bytes.Sorted right.names)
    (visitor : Visitor σ α) (s : RunState σ) (result : α) :
    c.pairTables visitor left right s result =
      visitor.inTurn (outerJoin left.names right.names) .same s result := by
  obtain ⟨hnl, hnr, hrun⟩ := sortBoth_of_caseSensitive hcase hl hr s
  rw [← handed_of_caseSensitive hcase hl hr visitor s result, pairTables_eq_of_visits,
    visits_eq_visitsOn, hnl, hnr, hrun]
  exact visitsOn_inTurn hcase hl.nodup hr.nodup .same s result

/-- **Two pairings agree name by name** where case counts, if together the
tables of each hold the same names. -/
theorem pairTables_nameByName (hcase : c.options.ignoreCase = false)
    {left right left' right' : NameTable} (hl : Keying.bytes.Sorted left.names)
    (hr : Keying.bytes.Sorted right.names) (hl' : Keying.bytes.Sorted left'.names)
    (hr' : Keying.bytes.Sorted right'.names)
    (hnames : ∀ name, name ∈ left.names ∨ name ∈ right.names ↔
      name ∈ left'.names ∨ name ∈ right'.names)
    (hv : ∀ name, name ∈ left.names ∨ name ∈ right.names →
      ∀ {s s' result result'}, s'.basis = s.basis → R result result' →
        (visitor (.ofName left.names right.names name) s result).Agrees R
          (visitor' (.ofName left'.names right'.names name) s' result'))
    {s s' : RunState σ} {result : α} {result' : β} (hs : s'.basis = s.basis)
    (hresult : R result result') :
    (c.pairTables visitor left right s result).Agrees R
      (c.pairTables visitor' left' right' s' result') := by
  rw [pairTables_inTurn hcase hl hr, pairTables_inTurn hcase hl' hr', outerJoin, outerJoin,
    sortBytewise_union_eq hr.nodup hr'.nodup hnames]
  refine Visitor.inTurn_agrees (fun name hname => hv name ?_) .same hs hresult
  exact (hnames name).2 (mem_sortBytewise_union.1 hname)

end Comparison

end TreeCompare
