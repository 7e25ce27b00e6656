import Codemod.Proofs.Toml.Statement
import Codemod.Toml.Document

/-! Settings that are written describe a document with their values. The values in front of the
tables come first; each rule opens an element of one array of tables and fills it; the table of the
log stands at the end. -/
namespace Codemod.Toml

section Entries

variable {entries base : Entries} {name : String} {node other : Node}

theorem nodesToData_eq_map (nodes : List Node) :
    Node.nodesToData nodes = nodes.map Node.toData := by
  induction nodes with
  | nil => rw [Node.nodesToData, List.map_nil]
  | cons node nodes ih => rw [Node.nodesToData, ih, List.map_cons]

theorem entriesToData_eq_map (entries : Entries) :
    Node.entriesToData entries = entries.map fun entry => (entry.1, entry.2.toData) := by
  induction entries with
  | nil => rw [Node.entriesToData, List.map_nil]
  | cons entry entries ih => rw [Node.entriesToData, ih, List.map_cons]

theorem entriesToData_append (entries more : Entries) :
    Node.entriesToData (entries ++ more) =
      Node.entriesToData entries ++ Node.entriesToData more := by
  rw [entriesToData_eq_map, entriesToData_eq_map, entriesToData_eq_map, List.map_append]

theorem lookup_concat (free : base.lookup name = none) :
    (base ++ [(name, node)]).lookup name = some node := by
  rw [List.lookup_append, free]
  simp

theorem replace_concat (free : base.lookup name = none) :
    Entries.replace (base ++ [(name, node)]) name other = base ++ [(name, other)] := by
  have kept : ∀ entry ∈ base, entry.1 ≠ name := by
    intro entry member same
    have none_there := List.lookup_eq_none_iff.mp free entry member
    simp [same] at none_there
  rw [Entries.replace, List.map_append]
  congr 1
  · rw [List.map_congr_left fun entry member => if_neg (kept entry member)]
    exact List.map_id base
  · simp

end Entries

namespace Document

variable {rebuild : Entries → Entries} {header : List String} {base : Entries} {name : String}

/-- A header leads to a table of the entries around it. -/
def Focus (header : List String) (rebuild : Entries → Entries) : Prop :=
  ∀ inner change, Entries.modifyAt header change (rebuild inner) = (change inner).map rebuild

theorem focus_top : Focus [] id := by
  intro inner change
  simp [Entries.modifyAt]

theorem focus_element (free : base.lookup name = none) (earlier : List Node) :
    Focus [name] fun last => base ++ [(name, .tables earlier last)] := by
  intro inner change
  simp only [Entries.modifyAt, lookup_concat free]
  rcases change inner with _ | changed
  · rfl
  · simp [replace_concat free]

theorem focus_table (free : base.lookup name = none) :
    Focus [name] fun inner => base ++ [(name, .table .stated inner)] := by
  intro inner change
  simp only [Entries.modifyAt, lookup_concat free]
  rcases change inner with _ | changed
  · rfl
  · simp [replace_concat free]

def assignment (entry : String × Data) : Statement := .assign ⟨[], entry.1⟩ entry.2

def values (entries : List (String × Data)) : Entries :=
  entries.map fun entry => (entry.1, .value entry.2)

/-- Assignments with names of their own go to the end of the table that the header leads to. -/
theorem foldlM_assignments (focus : Focus header rebuild) (inner : Entries)
    (entries : List (String × Data)) (apart : (entries.map Prod.fst).Nodup)
    (free : ∀ entry ∈ entries, inner.lookup entry.1 = none) :
    (entries.map assignment).foldlM add ⟨rebuild inner, header⟩ =
      some ⟨rebuild (inner ++ values entries), header⟩ := by
  induction entries generalizing inner with
  | nil => simp [values]
  | cons entry entries ih =>
    obtain ⟨name, d⟩ := entry
    obtain ⟨here, later⟩ := List.forall_mem_cons.mp free
    obtain ⟨absent, apart⟩ := List.nodup_cons.mp apart
    have added : add ⟨rebuild inner, header⟩ (assignment (name, d)) =
        some ⟨rebuild (inner ++ [(name, .value d)]), header⟩ := by
      simp [add, assignment, focus inner, Entries.assign, here]
    have still_free : ∀ entry ∈ entries,
        (inner ++ [(name, Node.value d)]).lookup entry.1 = none := by
      intro entry member
      have other : entry.1 ≠ name := by
        intro same
        exact absent (List.mem_map.mpr ⟨entry, member, same⟩)
      simp [List.lookup_append, later entry member, List.lookup_cons, beq_false_of_ne other]
    rw [List.map_cons, List.foldlM_cons, added]
    refine (ih _ apart still_free).trans ?_
    simp [values]

end Document

section Rules

variable {base : Entries} {header : List String} {r : Rule}

def ruleFields (r : Rule) : List (String × Data) :=
  [("find", .text r.pattern), ("replace", .text r.replacement)]

def ruleStatements (r : Rule) : List Statement :=
  .element ⟨[], "rules"⟩ :: (ruleFields r).map Document.assignment

/-- The array of tables of rules, of which one is the last. -/
def rulesNode (front : List Rule) (last : Rule) : Node :=
  .tables (front.map fun r => .table .stated (Document.values (ruleFields r)))
    (Document.values (ruleFields last))

theorem entriesToData_values (entries : List (String × Data)) :
    Node.entriesToData (Document.values entries) = entries := by
  induction entries with
  | nil => rfl
  | cons entry entries ih =>
    rw [Document.values] at ih
    rw [Document.values, List.map_cons, Node.entriesToData, ih, Node.toData]

theorem rulesNode_toData (front : List Rule) (last : Rule) :
    (rulesNode front last).toData = .list ((front ++ [last]).map Rule.toData) := by
  have whole : ∀ r, Data.table (ruleFields r) = r.toData := fun _ => rfl
  simp [rulesNode, Node.toData, nodesToData_eq_map, entriesToData_values, whole,
    Function.comp_def]

theorem foldlM_ruleStatements {doc : Document} {front : List Rule}
    (free : base.lookup "rules" = none)
    (opened : Entries.openElement "rules" doc.entries = some (base ++ [("rules", .tables
      (front.map fun r => .table .stated (Document.values (ruleFields r))) [])])) :
    (ruleStatements r).foldlM Document.add doc =
      some ⟨base ++ [("rules", rulesNode front r)], ["rules"]⟩ := by
  have begun : doc.add (.element ⟨[], "rules"⟩) = some ⟨base ++ [("rules", .tables
      (front.map fun r => .table .stated (Document.values (ruleFields r))) [])], ["rules"]⟩ := by
    simp [Document.add, Entries.modifyAt, opened]
  rw [ruleStatements, List.foldlM_cons, begun]
  refine (Document.foldlM_assignments (Document.focus_element free _) [] (ruleFields r) ?_
    fun _ _ => rfl).trans rfl
  simp [ruleFields]

/-- Further rules follow the last one. -/
theorem foldlM_further (free : base.lookup "rules" = none) (rules front : List Rule) (last : Rule)
    (header : List String) : ∃ front' last' header',
      (rules.flatMap ruleStatements).foldlM Document.add
          ⟨base ++ [("rules", rulesNode front last)], header⟩ =
        some ⟨base ++ [("rules", rulesNode front' last')], header'⟩ ∧
      front' ++ [last'] = front ++ [last] ++ rules := by
  induction rules generalizing front last header with
  | nil => exact ⟨front, last, header, rfl, (List.append_nil _).symm⟩
  | cons r rules ih =>
    have opened : Entries.openElement "rules" (base ++ [("rules", rulesNode front last)]) =
        some (base ++ [("rules", .tables ((front ++ [last]).map fun r =>
          .table .stated (Document.values (ruleFields r))) [])]) := by
      rw [Entries.openElement, lookup_concat free]
      simp [rulesNode, replace_concat free]
    obtain ⟨front', last', header', folded, same⟩ := ih (front ++ [last]) r ["rules"]
    refine ⟨front', last', header', ?_, same.trans (List.append_assoc _ [r] rules)⟩
    rw [List.flatMap_cons, List.foldlM_append, foldlM_ruleStatements free opened]
    exact folded

/-- Rules in an array of tables of their own, if there are any. -/
def rulesPart (rules : List Rule) : List (String × Data) :=
  if rules.isEmpty then [] else [("rules", .list (rules.map Rule.toData))]

theorem foldlM_rules (header : List String) (rules : List Rule)
    (free : rules ≠ [] → base.lookup "rules" = none) : ∃ part header',
      (rules.flatMap ruleStatements).foldlM Document.add ⟨base, header⟩ =
        some ⟨base ++ part, header'⟩ ∧
      Node.entriesToData part = rulesPart rules ∧ part.lookup "logging" = none := by
  rcases rules with _ | ⟨r, rules⟩
  · exact ⟨[], header, by simp, rfl, rfl⟩
  · have free := free (List.cons_ne_nil r rules)
    have opened : Entries.openElement "rules" base = some (base ++ [("rules", .tables
        (([] : List Rule).map fun r => .table .stated (Document.values (ruleFields r))) [])]) := by
      rw [Entries.openElement, free]
      rfl
    obtain ⟨front, last, header', folded, same⟩ := foldlM_further free rules [] r ["rules"]
    refine ⟨[("rules", rulesNode front last)], header', ?_, ?_, by simp [List.lookup_cons]⟩
    · rw [List.flatMap_cons, List.foldlM_append, foldlM_ruleStatements free opened]
      exact folded
    · rw [Node.entriesToData, rulesNode_toData, same]
      rfl

end Rules

section Whole

/-- The values in front of the tables. -/
def leading (s : Settings) : List (String × Data) :=
  (match s.preset with
    | some preset => [("preset", .text preset)]
    | none => []) ++
  (if s.rules.isEmpty then [("rules", .list [])] else []) ++
  [("extensions", .texts s.extensions), ("exclude", .texts s.exclude), ("dry_run", .flag s.dryRun),
    ("parallel", .flag s.parallel)]

def logFields (l : LogSettings) : List (String × Data) :=
  [("level", .text l.level), ("json_format", .flag l.jsonFormat)]

/-- What a file of settings holds. -/
def fileEntries (s : Settings) : List (String × Data) :=
  leading s ++ rulesPart s.rules ++ [("logging", s.logging.toData)]

def settingsStatements (s : Settings) : List Statement :=
  (leading s).map Document.assignment ++ s.rules.flatMap ruleStatements ++
    (.table ⟨[], "logging"⟩ :: (logFields s.logging).map Document.assignment)

theorem describes_rule (r : Rule) : Describes (writeRule r) (ruleStatements r) := by
  have header : Describes "\n[[rules]]\n".toList [.element ⟨[], "rules"⟩] := by
    have parts : "\n[[rules]]\n".toList =
        ['\n', '[', '['] ++ ("rules".toList ++ [']', ']', '\n']) := by
      decide +kernel
    rw [parts]
    exact describes_element (by decide +kernel)
  have pattern := describes_entry "find" (by decide +kernel) (denotes_string r.pattern)
  have replacement := describes_entry "replace" (by decide +kernel) (denotes_string r.replacement)
  exact (header.append pattern).append replacement

theorem describes_logging : Describes "\n[logging]\n".toList [.table ⟨[], "logging"⟩] := by
  have parts : "\n[logging]\n".toList = ['\n', '['] ++ ("logging".toList ++ [']', '\n']) := by
    decide +kernel
  rw [parts]
  exact describes_table (by decide +kernel)

theorem describes_preset (preset : Option String) :
    Describes (match preset with
        | some preset => entry "preset" (writeString preset)
        | none => [])
      ((match preset with
        | some preset => [("preset", Data.text preset)]
        | none => []).map Document.assignment) := by
  rcases preset with _ | preset
  · exact Describes.nil
  · exact describes_entry "preset" (by decide +kernel) (denotes_string preset)

theorem describes_no_rules (rules : List Rule) :
    Describes (if rules.isEmpty then entry "rules" ['[', ']'] else [])
      ((if rules.isEmpty then [("rules", Data.list [])] else []).map Document.assignment) := by
  split
  · exact describes_entry "rules" (by decide +kernel) (denotes_strings [])
  · exact Describes.nil

theorem describes_settings (s : Settings) :
    Describes (writeSettings s) (settingsStatements s) := by
  have extensions := describes_entry "extensions" (by decide +kernel) (denotes_strings s.extensions)
  have exclude := describes_entry "exclude" (by decide +kernel) (denotes_strings s.exclude)
  have dryRun := describes_entry "dry_run" (by decide +kernel) (denotes_flag s.dryRun)
  have parallel := describes_entry "parallel" (by decide +kernel) (denotes_flag s.parallel)
  have level := describes_entry "level" (by decide +kernel) (denotes_string s.logging.level)
  have jsonFormat := describes_entry "json_format" (by decide +kernel)
    (denotes_flag s.logging.jsonFormat)
  have front := (describes_preset s.preset).append (describes_no_rules s.rules)
  have fields := (((front.append extensions).append exclude).append dryRun).append parallel
  have tables := (fields.append (Describes.flatMap describes_rule s.rules)).append describes_logging
  refine Eq.mp (congrArg (Describes (writeSettings s)) ?_) ((tables.append level).append jsonFormat)
  simp [settingsStatements, leading, logFields, Document.assignment]

theorem names_leading (s : Settings) : (leading s).map Prod.fst =
    (if s.preset.isSome then ["preset"] else []) ++ (if s.rules.isEmpty then ["rules"] else []) ++
      ["extensions", "exclude", "dry_run", "parallel"] := by
  rcases s with ⟨_ | preset, _ | ⟨r, rules⟩, extensions, exclude, dryRun, parallel, logging⟩ <;>
    rfl

theorem lookup_values_leading (s : Settings) {name : String}
    (other : name ∉ (leading s).map Prod.fst) :
    (Document.values (leading s)).lookup name = none := by
  refine List.lookup_eq_none_iff.mpr fun entry member => ?_
  obtain ⟨given, inside, rfl⟩ := List.mem_map.mp member
  have apart : given.1 ≠ name := fun same => other (List.mem_map.mpr ⟨given, inside, same⟩)
  simpa using Ne.symm apart

theorem head?_writeSettings (s : Settings) : (writeSettings s).head? ≠ some '\uFEFF' := by
  rcases s with ⟨_ | preset, _ | ⟨r, rules⟩, extensions, exclude, dryRun, parallel, logging⟩ <;>
    simp [writeSettings, entry]

theorem foldlM_settings (s : Settings) : ∃ doc,
    (settingsStatements s).foldlM Document.add Document.empty = some doc ∧
      Node.entriesToData doc.entries = fileEntries s := by
  have apart : ((leading s).map Prod.fst).Nodup := by
    rw [names_leading]
    split <;> split <;> decide +kernel
  have fields := Document.foldlM_assignments Document.focus_top [] (leading s) apart fun _ _ => rfl
  have no_rules : s.rules ≠ [] → (Document.values (leading s)).lookup "rules" = none := by
    intro some_rule
    refine lookup_values_leading s ?_
    simp only [names_leading, List.isEmpty_iff, if_neg some_rule]
    split <;> decide +kernel
  have no_logging : (Document.values (leading s)).lookup "logging" = none := by
    refine lookup_values_leading s ?_
    rw [names_leading]
    split <;> split <;> decide +kernel
  obtain ⟨part, header, rules, part_data, part_free⟩ := foldlM_rules [] s.rules no_rules
  have free : (Document.values (leading s) ++ part).lookup "logging" = none := by
    rw [List.lookup_append, no_logging, part_free, Option.none_or]
  have opened : Document.add ⟨Document.values (leading s) ++ part, header⟩
      (.table ⟨[], "logging"⟩) = some ⟨Document.values (leading s) ++ part ++
        [("logging", .table .stated [])], ["logging"]⟩ := by
    simp only [Document.add, Entries.modifyAt, Entries.openTable, free]
    rfl
  have logging := Document.foldlM_assignments (Document.focus_table free) [] (logFields s.logging)
    (by simp [logFields]) fun _ _ => rfl
  refine ⟨⟨Document.values (leading s) ++ part ++ [("logging", .table .stated
    (Document.values (logFields s.logging)))], ["logging"]⟩, ?_, ?_⟩
  · have fields : ((leading s).map Document.assignment).foldlM Document.add Document.empty =
        some ⟨Document.values (leading s), []⟩ := fields
    simp only [settingsStatements, List.foldlM_append, List.foldlM_cons, fields, rules, opened,
      Option.bind_eq_bind, Option.bind_some]
    exact logging
  · have log : Node.entriesToData [("logging", .table .stated
        (Document.values (logFields s.logging)))] = [("logging", s.logging.toData)] := by
      rw [Node.entriesToData, Node.toData, entriesToData_values]
      rfl
    rw [entriesToData_append, entriesToData_append, entriesToData_values, part_data, log,
      fileEntries]

/-- The text of settings is a document with their entries. -/
theorem read_toml (s : Settings) : read s.toml = some (.table (fileEntries s)) := by
  have described := (describes_settings s).whole (head?_writeSettings s)
  obtain ⟨doc, folded, entries⟩ := foldlM_settings s
  obtain ⟨lexed, tokenized, stated⟩ := Option.bind_eq_some_iff.mp described
  simp [read, Settings.toml, tokenized, stated, folded, entries]

end Whole

end Codemod.Toml
