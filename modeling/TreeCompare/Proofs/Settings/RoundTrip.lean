import TreeCompare.Proofs.Toml.Document
import TreeCompare.Settings.Text
/-!
# Settings are read back from their text

Each line of the text of some settings is read back as an assignment
(`statements?_settingLine`), the list of exclusion lines whatever is in them
(`item?_listText`). So the table of the text holds an entry for each setting
(`ofText?_toText_table`), and from them come the settings (`ofText?_toText`).
-/

namespace TreeCompare

namespace Settings

open Toml

variable {settings : Settings}

/-! ## Lines -/

/-- A text of a list on a line of its own. -/
def itemLine (text : String) : List Char :=
  ['\n', ' ', ' ', ' ', ' '] ++ quote text.toList ++ [',']

theorem skipBlanks?_indent (text : List Char) :
    skipBlanks? false (['\n', ' ', ' ', ' ', ' '] ++ text) = skipBlanks? false text := rfl

/-- Texts on lines of their own are read back. -/
theorem items?_lines (depth : Nat) (texts : List String) (rest : List Char) :
    items? (item? depth) (texts.flatMap itemLine ++ '\n' :: ']' :: rest) =
      some (texts.map .text, rest) := by
  induction texts with
  | nil => exact items?_closed rfl
  | cons text texts ih =>
    generalize hlines : texts.flatMap itemLine ++ '\n' :: ']' :: rest = lines at ih
    have hstart : skipBlanks? false (['\n', ' ', ' ', ' ', ' '] ++
        (quote text.toList ++ (',' :: lines))) = some (quote text.toList ++ (',' :: lines)) := by
      rw [skipBlanks?_indent, skipBlanks?_quote]
    have hitem := item?_quote depth text.toList
      (unmarked_cons (by decide) (by decide) lines : Unmarked (',' :: lines))
    have hopen : (quote text.toList ++ (',' :: lines)).head? ≠ some ']' :=
      head?_quote_ne text.toList _ (by decide) (by decide)
    have hcomma : skipBlanks? false (',' :: lines) = some (',' :: lines) := rfl
    have hlt : lines.length < (['\n', ' ', ' ', ' ', ' '] ++
        (quote text.toList ++ (',' :: lines))).length := by
      simp only [List.length_append, List.length_cons]
      omega
    rw [List.flatMap_cons, itemLine, List.append_assoc, List.append_assoc, List.append_assoc,
      hlines, List.singleton_append, items?_cons hstart hopen hitem hcomma hlt, ih,
      Option.map_some, String.ofList_toList, List.map_cons]

/-- **A list of texts is read back.** -/
theorem item?_listText (depth : Nat) (texts : List String) (rest : List Char) :
    item? (depth + 1) (listText texts ++ rest) = some (.list (texts.map .text), rest) := by
  rcases texts with - | ⟨text, - | ⟨text', texts⟩⟩
  · exact item?_list (items?_closed rfl)
  · have hitem := item?_quote depth text.toList
      (unmarked_cons (by decide) (by decide) rest : Unmarked (']' :: rest))
    have hitems := items?_last (skipBlanks?_quote text.toList (']' :: rest))
      (head?_quote_ne text.toList _ (by decide) (by decide)) hitem rfl
    rw [String.ofList_toList] at hitems
    rw [listText, List.append_assoc, List.cons_append]
    exact item?_list hitems
  · have hitems := items?_lines depth (text :: text' :: texts) rest
    have hlist : listText (text :: text' :: texts) ++ rest =
        '[' :: ((text :: text' :: texts).flatMap itemLine ++ '\n' :: ']' :: rest) :=
      congrArg ('[' :: ·) (List.append_assoc ..)
    rw [hlist]
    exact item?_list hitems

theorem skipSpace_listText (texts : List String) (rest : List Char) :
    skipSpace (listText texts ++ rest) = listText texts ++ rest := by
  rcases texts with - | ⟨text, - | ⟨text', texts⟩⟩ <;> rfl

theorem skipSpace_switchText (b : Bool) (rest : List Char) :
    skipSpace (switchText b ++ rest) = switchText b ++ rest := by
  cases b <;> rfl

/-- **The line of a setting is read back**, and the lines after it. -/
theorem statements?_settingLine {key : String} (hne : key.toList ≠ [])
    (hkey : ∀ c ∈ key.toList, isKeyChar c = true) {value : List Char} {item : Item}
    (hvalue : ∀ rest, skipSpace (value ++ rest) = value ++ rest)
    (hitem : ∀ rest, item? nestingLimit (value ++ rest) = some (item, rest)) (rest : List Char) :
    statements? (settingLine key value ++ rest) =
      (statements? rest).map (.assignment [] key item :: ·) := by
  rw [settingLine, List.append_assoc, List.append_assoc, List.append_assoc, List.singleton_append]
  exact statements?_cons hne hkey (hvalue _) (hitem _)

/-! ## The whole text -/

/-- The table of some settings. -/
def table (settings : Settings) : Table :=
  (ignorePatternsKey, .list (settings.ignorePatterns.map .text)) ::
    Switch.all.map fun s => (s.key, .boolean (s.isOn settings))

/-- No two settings have the same key. -/
theorem nodup_keys (settings : Settings) : (settings.table.map (·.1)).Nodup := by
  have hkeys : settings.table.map (·.1) = ignorePatternsKey :: Switch.all.map Switch.key := rfl
  rw [hkeys]
  decide

theorem statements?_switches (settings : Settings) (switches : List Switch) :
    statements? (switches.flatMap fun s => settingLine s.key (switchText (s.isOn settings))) =
      some (switches.map fun s => .assignment [] s.key (.boolean (s.isOn settings))) := by
  have hkey : ∀ s : Switch, s.key.toList ≠ [] ∧ ∀ c ∈ s.key.toList, isKeyChar c = true := by
    intro s
    have hall : s.key.toList.all isKeyChar = true := by cases s <;> decide
    exact ⟨by cases s <;> decide, List.all_eq_true.mp hall⟩
  induction switches with
  | nil => rw [List.flatMap_nil, statements?]; rfl
  | cons s switches ih =>
    rw [List.flatMap_cons, statements?_settingLine (hkey s).1 (hkey s).2
      (skipSpace_switchText _) (item?_boolean nestingLimit (s.isOn settings)), ih]
    rfl

/-- **The table of the text of some settings** is their table. -/
theorem ofText?_toText_table (settings : Settings) :
    Table.ofText? settings.toText = some settings.table := by
  have hkey : ignorePatternsKey.toList ≠ [] ∧
      ∀ c ∈ ignorePatternsKey.toList, isKeyChar c = true :=
    ⟨by decide, List.all_eq_true.mp (by decide)⟩
  have hstatements : statements? settings.toText =
      some (settings.table.map fun entry => .assignment [] entry.1 entry.2) := by
    rw [toText, statements?_settingLine hkey.1 hkey.2 (skipSpace_listText _)
      (item?_listText 78 settings.ignorePatterns), statements?_switches]
    rfl
  have hmark : ¬ settings.toText.head? = some byteOrderMark := by
    obtain ⟨c, cs, hcs⟩ := List.exists_cons_of_ne_nil hkey.1
    have hc : isKeyChar c = true := hkey.2 c (hcs ▸ List.mem_cons_self ..)
    rw [toText, settingLine, hcs]
    intro h
    rw [show c = byteOrderMark from Option.some.inj h] at hc
    exact absurd hc (by decide)
  rw [Table.ofText?, if_neg hmark, hstatements]
  exact Table.ofStatements?_assignments settings.nodup_keys

theorem patternsOf?_table (settings : Settings) :
    patternsOf? settings.table = some settings.ignorePatterns := by
  have hget := Table.get?_of_mem settings.nodup_keys (List.mem_cons_self ..)
  rw [patternsOf?, hget]
  simp only
  induction settings.ignorePatterns with
  | nil => rfl
  | cons text texts ih =>
    rw [List.map_cons, List.mapM_cons, ih]
    rfl

theorem switchOf?_table (settings : Settings) (s : Switch) :
    switchOf? settings.table s = some (s.isOn settings) := by
  have hall : s ∈ Switch.all := by cases s <;> decide
  have hget := Table.get?_of_mem settings.nodup_keys
    (List.mem_cons_of_mem _ (List.mem_map_of_mem (f := fun s : Switch => (s.key, _)) hall))
  rw [switchOf?, hget]

/-- **Settings are read back from their text**, whatever their exclusion lines
are. -/
theorem ofText?_toText (settings : Settings) : ofText? settings.toText = some settings := by
  rw [ofText?, ofText?_toText_table, Option.bind_some, ofTable?]
  simp only [patternsOf?_table, switchOf?_table, Option.bind_eq_bind, Option.bind_some]
  rfl

end Settings

end TreeCompare
