import TreeCompare.Proofs.Toml.Quoted
import TreeCompare.Toml.Document
/-!
# Settings files are read back

Quoted texts, the words for true and false and lists of texts are read back as
the items they stand for (`item?_quote`, `item?_list`), and a line with a key
and the text of an item as an assignment (`statements?_cons`). Assignments of
different keys build the table of their entries (`ofStatements?_assignments`).
-/

namespace TreeCompare

namespace Toml

/-! ## Single values -/

theorem Quoting.mark_cases (q : Quoting) : q.mark = '"' ∨ q.mark = apostrophe := by
  unfold mark
  split
  · exact Or.inl rfl
  · exact Or.inr rfl

/-- A quoted text starts with its mark. -/
theorem exists_quote (text : List Char) :
    ∃ mark inner, quote text = mark :: inner ∧ (mark = '"' ∨ mark = apostrophe) := by
  have hhead : (quote text).head? = some (Quoting.choose text).mark := by
    unfold quote Quoting.write Quoting.width
    split <;> rfl
  obtain ⟨inner, hquote⟩ := List.head?_eq_some_iff.1 hhead
  exact ⟨_, inner, hquote, (Quoting.choose text).mark_cases⟩

theorem head?_quote_ne (text rest : List Char) {c : Char} (h : c ≠ '"') (h' : c ≠ apostrophe) :
    (quote text ++ rest).head? ≠ some c := by
  obtain ⟨mark, inner, hquote, hmark⟩ := exists_quote text
  rw [hquote]
  intro hc
  obtain rfl : mark = c := Option.some.inj hc
  exact hmark.elim h h'

/-- Neither mark is the first character. -/
def Unmarked (rest : List Char) : Prop := rest.head? ≠ some '"' ∧ rest.head? ≠ some apostrophe

theorem unmarked_cons {c : Char} (h : c ≠ '"') (h' : c ≠ apostrophe) (rest : List Char) :
    Unmarked (c :: rest) :=
  ⟨fun hc => h (Option.some.inj hc), fun hc => h' (Option.some.inj hc)⟩

theorem item?_quote (depth : Nat) (text : List Char) {rest : List Char} (h : Unmarked rest) :
    item? depth (quote text ++ rest) = some (.text (String.ofList text), rest) := by
  have hread := read?_quote text h.1 h.2
  obtain ⟨mark, inner, hquote, hmark⟩ := exists_quote text
  rw [hquote, List.cons_append] at hread ⊢
  rw [item?.eq_def]
  simp only [hmark, if_true, hread, Option.map_some]

/-- The word for a truth value is read back. -/
theorem item?_boolean (depth : Nat) (b : Bool) (rest : List Char) :
    item? depth ((if b then "true".toList else "false".toList) ++ rest) =
      some (.boolean b, rest) := by
  rw [item?.eq_def]
  cases b with
  | true => rfl
  | false => rfl

/-! ## Lists -/

theorem skipBlanks?_quote (text rest : List Char) :
    skipBlanks? false (quote text ++ rest) = some (quote text ++ rest) := by
  obtain ⟨mark, inner, hquote, rfl | rfl⟩ := exists_quote text
  · rw [hquote]
    rfl
  · rw [hquote]
    rfl

/-- A list goes on behind an item and a comma. -/
theorem items?_cons {item? : List Char → Option (Item × List Char)}
    {text start rest rest' : List Char} {item : Item} (hstart : skipBlanks? false text = some start)
    (hopen : start.head? ≠ some ']') (hitem : item? start = some (item, rest))
    (hcomma : skipBlanks? false rest = some (',' :: rest')) (hlt : rest'.length < text.length) :
    items? item? text =
      (items? item? rest').map fun (items, rest) => (item :: items, rest) := by
  rw [items?, hstart]
  split
  · next h => cases h
  · next h =>
    cases h
    exact absurd rfl hopen
  · next h =>
    cases h
    rw [hitem]
    simp only [hcomma, hlt, if_true]

/-- A list ends with its bracket. -/
theorem items?_closed {item? : List Char → Option (Item × List Char)} {text rest : List Char}
    (h : skipBlanks? false text = some (']' :: rest)) : items? item? text = some ([], rest) := by
  rw [items?, h]
  rfl

/-- A list ends with its bracket behind an item, too. -/
theorem items?_last {item? : List Char → Option (Item × List Char)}
    {text start rest rest' : List Char} {item : Item} (hstart : skipBlanks? false text = some start)
    (hopen : start.head? ≠ some ']') (hitem : item? start = some (item, rest))
    (hclose : skipBlanks? false rest = some (']' :: rest')) :
    items? item? text = some ([item], rest') := by
  rw [items?, hstart]
  split
  · next h => cases h
  · next h =>
    cases h
    exact absurd rfl hopen
  · next h =>
    cases h
    rw [hitem]
    simp only [hclose]

theorem item?_list {depth : Nat} {text rest : List Char} {items : List Item}
    (h : items? (item? depth) text = some (items, rest)) :
    item? (depth + 1) ('[' :: text) = some (.list items, rest) := by
  have hb : '[' ≠ apostrophe := by decide
  rw [item?.eq_def]
  simp [hb, h]

/-! ## Lines -/

/-- A key of the characters that need no marks, behind which a space comes. -/
theorem keyPart?_plain {key : String} (hne : key.toList ≠ [])
    (hkey : ∀ c ∈ key.toList, isKeyChar c = true) (rest : List Char) :
    keyPart? (key.toList ++ ' ' :: rest) = some (key, ' ' :: rest) := by
  have htake : (key.toList ++ ' ' :: rest).takeWhile isKeyChar = key.toList := by
    rw [List.takeWhile_append_of_pos hkey, List.takeWhile_cons_of_neg (by decide), List.append_nil]
  have hdrop : (key.toList ++ ' ' :: rest).dropWhile isKeyChar = ' ' :: rest := by
    rw [List.dropWhile_append_of_pos hkey, List.dropWhile_cons_of_neg (by decide)]
  obtain ⟨c, cs, hcs⟩ := List.exists_cons_of_ne_nil hne
  have hc : isKeyChar c = true := hkey c (hcs ▸ List.mem_cons_self ..)
  have hmark : ¬ (c = '"' ∨ c = apostrophe) := by
    rintro (rfl | rfl)
    · exact absurd hc (by decide)
    · exact absurd hc (by decide)
  rw [hcs, List.cons_append] at htake hdrop ⊢
  rw [keyPart?, if_neg hmark, if_pos hc, htake, hdrop, ← hcs, String.ofList_toList]

/-- A character of a key without marks begins no space, comment, header or
line break. -/
theorem ne_of_isKeyChar {c : Char} (h : isKeyChar c = true) :
    isSpace c = false ∧ c ≠ '[' ∧ ¬ (c = '#' ∨ c = '\n' ∨ c = '\r') := by
  refine ⟨?_, fun hc => ?_, ?_⟩
  · rw [isSpace, Bool.or_eq_false_iff, decide_eq_false_iff_not, decide_eq_false_iff_not]
    constructor <;> rintro rfl <;> exact absurd h (by decide)
  · rw [hc] at h
    exact absurd h (by decide)
  · rintro (rfl | rfl | rfl) <;> exact absurd h (by decide)

theorem skipSpace_key {key : String} (hne : key.toList ≠ [])
    (hkey : ∀ c ∈ key.toList, isKeyChar c = true) (rest : List Char) :
    skipSpace (key.toList ++ rest) = key.toList ++ rest := by
  obtain ⟨c, cs, hcs⟩ := List.exists_cons_of_ne_nil hne
  have hc := ne_of_isKeyChar (hkey c (hcs ▸ List.mem_cons_self ..))
  rw [hcs, List.cons_append, skipSpace, List.dropWhile_cons_of_neg (by simp [hc.1])]

theorem key?_plain {key : String} (hne : key.toList ≠ [])
    (hkey : ∀ c ∈ key.toList, isKeyChar c = true) (limit : Nat) (rest : List Char) :
    key? (limit + 1) (key.toList ++ ' ' :: '=' :: rest) = some ([key], '=' :: rest) := by
  have hskip : skipSpace (' ' :: '=' :: rest) = '=' :: rest := rfl
  rw [key?, skipSpace_key hne hkey, keyPart?_plain hne hkey]
  simp only [Option.bind_eq_bind, Option.bind_some, hskip]
  rfl

/-- A line with a key and an item states the item. -/
theorem statement?_line {key : String} (hne : key.toList ≠ [])
    (hkey : ∀ c ∈ key.toList, isKeyChar c = true) {value rest : List Char} {item : Item}
    (hvalue : skipSpace value = value) (hitem : item? nestingLimit value = some (item, rest)) :
    statement? (key.toList ++ ' ' :: '=' :: ' ' :: value) =
      some (.assignment [] key item, rest) := by
  have hskip : skipSpace (' ' :: value) = value := hvalue
  have hassign : assignment? (item? nestingLimit) (key.toList ++ ' ' :: '=' :: ' ' :: value) =
      some (([], key, item), rest) := by
    rw [assignment?, show nestingLimit = 78 + 1 from rfl, key?_plain hne hkey]
    simp only [Option.bind_eq_bind, Option.bind_some, after?, if_true, hskip,
      show 78 + 1 = nestingLimit from rfl, hitem]
    rfl
  obtain ⟨c, cs, hcs⟩ := List.exists_cons_of_ne_nil hne
  obtain ⟨-, hc, -⟩ := ne_of_isKeyChar (hkey c (hcs ▸ List.mem_cons_self ..))
  unfold statement?
  split
  · next h =>
    rw [hcs] at h
    exact absurd (List.cons.inj h).1 hc
  · next h =>
    rw [hcs] at h
    exact absurd (List.cons.inj h).1 hc
  · rw [hassign]
    rfl

/-- **A line is read back**, and the lines after it. -/
theorem statements?_cons {key : String} (hne : key.toList ≠ [])
    (hkey : ∀ c ∈ key.toList, isKeyChar c = true) {value rest : List Char} {item : Item}
    (hvalue : skipSpace (value ++ '\n' :: rest) = value ++ '\n' :: rest)
    (hitem : item? nestingLimit (value ++ '\n' :: rest) = some (item, '\n' :: rest)) :
    statements? (key.toList ++ ' ' :: '=' :: ' ' :: (value ++ '\n' :: rest)) =
      (statements? rest).map (.assignment [] key item :: ·) := by
  have hstatement := statement?_line hne hkey hvalue hitem
  have hskip := skipSpace_key hne hkey (' ' :: '=' :: ' ' :: (value ++ '\n' :: rest))
  obtain ⟨c, cs, hcs⟩ := List.exists_cons_of_ne_nil hne
  obtain ⟨-, -, hc⟩ := ne_of_isKeyChar (hkey c (hcs ▸ List.mem_cons_self ..))
  rw [hcs, List.cons_append] at hskip hstatement ⊢
  have hlt : rest.length < (c :: (cs ++ ' ' :: '=' :: ' ' :: (value ++ '\n' :: rest))).length := by
    simp only [List.length_cons, List.length_append]
    omega
  rw [statements?, hskip]
  simp only [if_neg hc, hstatement, Option.map_some, lineEnd?, hlt, if_true]
  rfl

/-! ## Tables -/

namespace Table

variable {t : Table} {key : String} {item : Item}

theorem get?_eq_none (h : key ∉ t.map (·.1)) : t.get? key = none := by
  rw [get?, List.find?_eq_none.2, Option.map_none]
  intro entry hmem hkey
  exact h (List.mem_map.2 ⟨entry, hmem, beq_iff_eq.1 hkey⟩)

/-- What an entry says of its key, if no other entry is of the same key. -/
theorem get?_of_mem (hnd : (t.map (·.1)).Nodup) (h : (key, item) ∈ t) :
    t.get? key = some item := by
  induction t with
  | nil => cases h
  | cons entry t ih =>
    rw [List.map_cons, List.nodup_cons] at hnd
    rcases List.mem_cons.1 h with rfl | h
    · simp [get?]
    · have hne : entry.1 ≠ key := fun hk => hnd.1 (hk ▸ List.mem_map_of_mem (f := (·.1)) h)
      have := ih hnd.2 h
      simp only [get?, List.find?_cons, beq_eq_false_iff_ne.2 hne] at this ⊢
      exact this

/-- An assignment of a key that is not there adds an entry. -/
theorem step_assignment (h : key ∉ t.map (·.1)) :
    Progress.step ⟨t, []⟩ (.assignment [] key item) = some ⟨t ++ [(key, item)], []⟩ := by
  simp only [Progress.step, update, assign, ne_eq, not_true_eq_false, false_and, if_false,
    get?_eq_none h, Option.map_some]

/-- **Assignments of different keys build the table of their entries.** -/
theorem ofStatements?_assignments {entries : Table} (h : (entries.map (·.1)).Nodup) :
    ofStatements? (entries.map fun entry => .assignment [] entry.1 entry.2) = some entries := by
  have hsteps : ∀ (entries t : Table), ((t ++ entries).map (·.1)).Nodup →
      (entries.map fun entry => Statement.assignment [] entry.1 entry.2).foldlM Progress.step
        ⟨t, []⟩ = some ⟨t ++ entries, []⟩ := by
    intro entries
    induction entries with
    | nil => intro t _; simp
    | cons entry entries ih =>
      intro t hnd
      have hnew : entry.1 ∉ t.map (·.1) := by
        rw [List.map_append, List.nodup_append] at hnd
        exact fun hmem => hnd.2.2 _ hmem _ (List.mem_cons_self ..) rfl
      rw [List.map_cons, List.foldlM_cons, step_assignment hnew]
      refine (ih (t ++ [entry]) ?_).trans ?_
      · rwa [List.append_assoc]
      · rw [List.append_assoc]
        rfl
  rw [ofStatements?, hsteps entries [] h]
  rfl

end Table

end Toml

end TreeCompare
