import Codemod.Proofs.Data.Decode
import Codemod.Proofs.Settings.Environment
import Codemod.Settings.Basic

/-! What settings are loaded from a file and variables, key by key. Of each key the highest layer
that has it counts, whatever stands at other keys. Only where `logging` is written as something else
than a table is it one value, which stands and falls as a whole. -/
namespace Codemod.Settings

open Data (readOr upmost?)

section Tables

variable {entries : List (String × Data)} {s : Settings} {l : LogSettings}

/-- The slot of a field in a table. -/
def slotOf : Option Data → Data.Slot
  | some value => .given value
  | none => .unnamed

theorem slots_table (names : List String) (entries : List (String × Data)) :
    (Data.table entries).slots .lenient names =
      some (names.map fun name => slotOf (entries.lookup name)) := by
  rw [Data.slots, if_neg (by simp)]
  rfl

theorem orElse_slotOf {α : Type} (read : Data → Option α) (fallback : α) (found : Option Data) :
    (slotOf found).orElse fallback read = readOr read fallback found := by
  cases found <;> rfl

theorem logOfData?_table_iff : LogSettings.ofData? .lenient (.table entries) = some l ↔
    readOr Data.text? LogSettings.default.level (entries.lookup "level") = some l.level ∧
    readOr Data.flag? LogSettings.default.jsonFormat (entries.lookup "json_format") =
      some l.jsonFormat := by
  simp only [LogSettings.ofData?, slots_table, List.map_cons, List.map_nil, orElse_slotOf,
    Option.bind_eq_bind, Option.bind_some, Option.bind_eq_some_iff, Option.pure_def]
  constructor
  · rintro ⟨level, levelRead, jsonFormat, formatRead, same⟩
    obtain rfl := Option.some.inj same
    exact ⟨levelRead, formatRead⟩
  · rintro ⟨levelRead, formatRead⟩
    exact ⟨_, levelRead, _, formatRead, rfl⟩

theorem ofData?_table_iff : ofData? .lenient (.table entries) = some s ↔
    readOr (Data.nullable Data.text?) default.preset (entries.lookup "preset") = some s.preset ∧
    readOr (Data.each? (ruleOfData? .lenient)) default.rules (entries.lookup "rules") =
      some s.rules ∧
    readOr (Data.each? Data.text?) default.extensions (entries.lookup "extensions") =
      some s.extensions ∧
    readOr (Data.each? Data.text?) default.exclude (entries.lookup "exclude") = some s.exclude ∧
    readOr Data.flag? default.dryRun (entries.lookup "dry_run") = some s.dryRun ∧
    readOr Data.flag? default.parallel (entries.lookup "parallel") = some s.parallel ∧
    readOr (LogSettings.ofData? .lenient) default.logging (entries.lookup "logging") =
      some s.logging := by
  simp only [ofData?, slots_table, List.map_cons, List.map_nil, orElse_slotOf,
    Option.bind_eq_bind, Option.bind_some, Option.bind_eq_some_iff, Option.pure_def]
  constructor
  · rintro ⟨preset, presetRead, rules, rulesRead, extensions, extensionsRead, exclude, excludeRead,
      dryRun, dryRunRead, parallel, parallelRead, logging, loggingRead, same⟩
    obtain rfl := Option.some.inj same
    exact ⟨presetRead, rulesRead, extensionsRead, excludeRead, dryRunRead, parallelRead,
      loggingRead⟩
  · rintro ⟨presetRead, rulesRead, extensionsRead, excludeRead, dryRunRead, parallelRead,
      loggingRead⟩
    exact ⟨_, presetRead, _, rulesRead, _, extensionsRead, _, excludeRead, _, dryRunRead, _,
      parallelRead, _, loggingRead, rfl⟩

end Tables

/-- Both layers write `logging` as a table, if at all. -/
def Tabular (file top : Data) : Prop :=
  (file.at? ["logging"]).all Data.isTable ∧ (top.at? ["logging"]).all Data.isTable

/-- Each setting is what the highest layer that has its key holds for it, or its default. -/
structure Layered (file top : Data) (s : Settings) : Prop where
  preset : readOr (Data.nullable Data.text?) default.preset (upmost? file top ["preset"]) =
    some s.preset
  rules : readOr (Data.each? (ruleOfData? .lenient)) default.rules (upmost? file top ["rules"]) =
    some s.rules
  extensions : readOr (Data.each? Data.text?) default.extensions
    (upmost? file top ["extensions"]) = some s.extensions
  exclude : readOr (Data.each? Data.text?) default.exclude (upmost? file top ["exclude"]) =
    some s.exclude
  dryRun : readOr Data.flag? default.dryRun (upmost? file top ["dry_run"]) = some s.dryRun
  parallel : readOr Data.flag? default.parallel (upmost? file top ["parallel"]) = some s.parallel
  level : Tabular file top → readOr Data.text? LogSettings.default.level
    (upmost? file top ["logging", "level"]) = some s.logging.level
  jsonFormat : Tabular file top → readOr Data.flag? LogSettings.default.jsonFormat
    (upmost? file top ["logging", "json_format"]) = some s.logging.jsonFormat
  /-- Otherwise the whole of `logging` is one setting. -/
  logging : ¬Tabular file top → readOr (LogSettings.ofData? .lenient) default.logging
    (upmost? file top ["logging"]) = some s.logging

section Merged

variable {lower upper : List (String × Data)} {s : Settings} {l : LogSettings}

theorem blind_text (entries : List (String × Data)) : (Data.table entries).text? = none := rfl

theorem blind_flag (entries : List (String × Data)) : (Data.table entries).flag? = none := rfl

theorem blind_each {α : Type} (read : Data → Option α) (entries : List (String × Data)) :
    Data.each? read (.table entries) = none := rfl

theorem blind_preset (entries : List (String × Data)) :
    Data.nullable Data.text? (.table entries) = none := rfl

theorem logOfData?_merge_iff :
    LogSettings.ofData? .lenient ((LogSettings.default.toData.merge (.table lower)).merge
      (.table upper)) = some l ↔
    readOr Data.text? LogSettings.default.level (upmost? (.table lower) (.table upper) ["level"]) =
      some l.level ∧
    readOr Data.flag? LogSettings.default.jsonFormat
      (upmost? (.table lower) (.table upper) ["json_format"]) = some l.jsonFormat := by
  obtain ⟨merged, whole⟩ :=
    Data.merge_table_right (LogSettings.default.toData.merge (.table lower)) upper
  rw [whole, logOfData?_table_iff, ← Data.at?_name, ← Data.at?_name, ← whole]
  rw [LogSettings.toData, Data.readOr_merge blind_text rfl rfl,
    Data.readOr_merge blind_flag rfl rfl]

theorem at?_logging (lower upper : List (String × Data)) :
    ((default.toData.merge (.table lower)).merge (.table upper)).at? ["logging"] =
      some ((LogSettings.default.toData.under (lower.lookup "logging")).under
        (upper.lookup "logging")) :=
  Data.at?_merge_merge rfl

theorem tabular_iff : Tabular (.table lower) (.table upper) ↔
    (lower.lookup "logging").all Data.isTable ∧ (upper.lookup "logging").all Data.isTable := by
  rw [Tabular, Data.at?_name, Data.at?_name]

theorem logOfData?_under_iff (tabular : Tabular (.table lower) (.table upper)) :
    LogSettings.ofData? .lenient ((LogSettings.default.toData.under (lower.lookup "logging")).under
      (upper.lookup "logging")) = some l ↔
    readOr Data.text? LogSettings.default.level
      (upmost? (.table lower) (.table upper) ["logging", "level"]) = some l.level ∧
    readOr Data.flag? LogSettings.default.jsonFormat
      (upmost? (.table lower) (.table upper) ["logging", "json_format"]) = some l.jsonFormat := by
  obtain ⟨lowerTable, upperTable⟩ := tabular_iff.mp tabular
  obtain ⟨below, belowWhole, belowAt⟩ := Data.under_table lowerTable
    [("level", .text LogSettings.default.level), ("json_format", .flag LogSettings.default.jsonFormat)]
  obtain ⟨merged, mergedWhole⟩ := Data.merge_table_right LogSettings.default.toData below
  obtain ⟨above, aboveWhole, aboveAt⟩ := Data.under_table upperTable merged
  have inner : ∀ name, upmost? (.table lower) (.table upper) ["logging", name] =
      upmost? (.table below) (.table above) [name] := by
    intro name
    rw [upmost?, upmost?, Data.at?_table, Data.at?_table, belowAt, aboveAt]
  rw [inner, inner, ← logOfData?_merge_iff, LogSettings.toData, belowWhole]
  rw [LogSettings.toData] at mergedWhole
  rw [mergedWhole, aboveWhole]

/-- Of values that are not all tables only the highest counts. -/
theorem under_of_not_tabular (other : ¬Tabular (.table lower) (.table upper)) (d : Data) :
    some ((d.under (lower.lookup "logging")).under (upper.lookup "logging")) =
      upmost? (.table lower) (.table upper) ["logging"] := by
  rw [tabular_iff] at other
  rw [upmost?, Data.at?_name, Data.at?_name]
  cases above : upper.lookup "logging" with
  | some value =>
    cases plain : value.isTable with
    | false => exact congrArg some (Data.merge_of_not_table_right plain)
    | true =>
      cases below : lower.lookup "logging" with
      | none => simp [below, above, plain] at other
      | some old =>
        have oldPlain : old.isTable = false := by simpa [below, above, plain] using other
        have alone : d.merge old = old := Data.merge_of_not_table_right oldPlain
        simp only [Data.under, Option.elim_some, alone, Option.some_or]
        rw [Data.merge_of_not_table_left oldPlain]
  | none =>
    cases below : lower.lookup "logging" with
    | none => simp [below, above] at other
    | some old =>
      have oldPlain : old.isTable = false := by simpa [below, above] using other
      exact congrArg some (Data.merge_of_not_table_right oldPlain)

/-- Over the defaults, two layers are read as settings key by key. -/
theorem ofData?_merge_iff :
    ofData? .lenient ((default.toData.merge (.table lower)).merge (.table upper)) = some s ↔
      Layered (.table lower) (.table upper) s := by
  obtain ⟨merged, whole⟩ := Data.merge_table_right (default.toData.merge (.table lower)) upper
  have logging := at?_logging lower upper
  rw [whole, ofData?_table_iff]
  simp only [← Data.at?_name, ← whole]
  rw [logging, toData, Data.readOr_merge blind_preset rfl rfl,
    Data.readOr_merge (blind_each _) rfl rfl, Data.readOr_merge (blind_each _) rfl rfl,
    Data.readOr_merge (blind_each _) rfl (Data.each?_texts _),
    Data.readOr_merge blind_flag rfl rfl, Data.readOr_merge blind_flag rfl rfl]
  constructor
  · rintro ⟨preset, rules, extensions, exclude, dryRun, parallel, read⟩
    refine ⟨preset, rules, extensions, exclude, dryRun, parallel, ?_, ?_, ?_⟩
    · exact fun tabular => ((logOfData?_under_iff tabular).mp read).1
    · exact fun tabular => ((logOfData?_under_iff tabular).mp read).2
    · intro other
      rw [← under_of_not_tabular other]
      exact read
  · intro layered
    refine ⟨layered.preset, layered.rules, layered.extensions, layered.exclude, layered.dryRun,
      layered.parallel, ?_⟩
    by_cases tabular : Tabular (.table lower) (.table upper)
    · exact (logOfData?_under_iff tabular).mpr ⟨layered.level tabular, layered.jsonFormat tabular⟩
    · rw [under_of_not_tabular tabular]
      exact layered.logging tabular

end Merged

section Independence

variable {environment other : List (String × String)} {s : Settings} {file top top' : Data}

/-- The keys of the settings. -/
def keys : List (List String) :=
  [["preset"], ["rules"], ["extensions"], ["exclude"], ["dry_run"], ["parallel"],
    ["logging", "level"], ["logging", "json_format"]]

/-- Whether a variable at this place is about a setting: about one of the keys or, where the file
writes `logging` as one value, about anything in it. -/
def Concerns (file : Data) (p : List String) : Prop :=
  (∃ key ∈ keys, ¬Environment.Diverge p key) ∨
    (¬(file.at? ["logging"]).all Data.isTable ∧ ¬Environment.Diverge p ["logging"])

theorem at?_logging_name {entries : List (String × Data)}
    (found : top.at? ["logging"] = some (.table entries)) (name : String) :
    top.at? ["logging", name] = entries.lookup name := by
  rw [← List.singleton_append, Data.at?_append, found, Option.bind_some, Data.at?_name]

/-- What is read from a table depends on two of its names only. -/
theorem logOfData?_of_alike {entries entries' : List (String × Data)} {l : LogSettings}
    (level : Data.Alike (entries.lookup "level") (entries'.lookup "level"))
    (jsonFormat : Data.Alike (entries.lookup "json_format") (entries'.lookup "json_format"))
    (read : LogSettings.ofData? .lenient (.table entries) = some l) :
    LogSettings.ofData? .lenient (.table entries') = some l := by
  rw [logOfData?_table_iff, level.readOr blind_text, jsonFormat.readOr blind_flag] at read
  exact logOfData?_table_iff.mpr read

theorem Layered.of_alike (layered : Layered file top s)
    (alike : ∀ key ∈ keys, Data.Alike (top.at? key) (top'.at? key))
    (logging : Data.Alike (top.at? ["logging"]) (top'.at? ["logging"]) ∨
      Tabular file top ∧ Tabular file top') : Layered file top' s := by
  have tabular : Tabular file top' → Tabular file top := by
    rcases logging with (same | ⟨⟨entries, here⟩, _⟩) | ⟨here, _⟩
    · exact fun tabular => ⟨tabular.1, same ▸ tabular.2⟩
    · exact fun tabular => ⟨tabular.1, by rw [here]; rfl⟩
    · exact fun _ => here
  have kept : ∀ {α : Type} {read : Data → Option α} {fallback x : α} {key : List String},
      (∀ entries, read (.table entries) = none) → key ∈ keys →
      readOr read fallback (upmost? file top key) = some x →
      readOr read fallback (upmost? file top' key) = some x := by
    intro α read fallback x key blind member given
    rw [upmost?, ← ((alike key member).or _).readOr blind]
    exact given
  refine ⟨?_, ?_, ?_, ?_, ?_, ?_, ?_, ?_, ?_⟩
  · exact kept blind_preset (by simp [keys]) layered.preset
  · exact kept (blind_each _) (by simp [keys]) layered.rules
  · exact kept (blind_each _) (by simp [keys]) layered.extensions
  · exact kept (blind_each _) (by simp [keys]) layered.exclude
  · exact kept blind_flag (by simp [keys]) layered.dryRun
  · exact kept blind_flag (by simp [keys]) layered.parallel
  · exact fun both => kept blind_text (by simp [keys]) (layered.level (tabular both))
  · exact fun both => kept blind_flag (by simp [keys]) (layered.jsonFormat (tabular both))
  -- Where `logging` is one value, it is the same in both, or a table in both on top of no table.
  intro other
  rcases logging with (same | ⟨⟨entries, here⟩, entries', there⟩) | ⟨_, both⟩
  · rw [upmost?, ← same]
    exact layered.logging fun both => other ⟨both.1, same ▸ both.2⟩
  · have level := alike ["logging", "level"] (by simp [keys])
    have jsonFormat := alike ["logging", "json_format"] (by simp [keys])
    rw [at?_logging_name here, at?_logging_name there] at level jsonFormat
    have read := layered.logging fun both => other ⟨both.1, by rw [there]; rfl⟩
    rw [upmost?, here] at read
    rw [upmost?, there]
    exact logOfData?_of_alike level jsonFormat read
  · exact absurd both other

/-- Variables that are not about settings do not matter. -/
theorem Layered.of_agree {program : String} (layered : Layered file top s)
    (gives : Environment.Gives program environment top)
    (gives' : Environment.Gives program other top')
    (agree : ∀ v p, Environment.place? program v.1 = some p → Concerns file p →
      (v ∈ environment ↔ v ∈ other)) : Layered file top' s := by
  have alike : ∀ key ∈ keys, Data.Alike (top.at? key) (top'.at? key) := by
    intro key member
    have nonempty : key ≠ [] := by
      rintro rfl
      simp [keys] at member
    exact gives.alike gives' nonempty fun v p placed joined =>
      agree v p placed (Or.inl ⟨key, member, joined⟩)
  refine layered.of_alike alike ?_
  by_cases lower : (file.at? ["logging"]).all Data.isTable
  · -- A variable that holds all of `logging` is about settings.
    have shared : ∀ v p, Environment.place? program v.1 = some p → p <+: ["logging"] →
        (v ∈ environment ↔ v ∈ other) := by
      intro v p placed within
      refine agree v p placed (Or.inl ⟨["logging", "level"], by simp [keys], fun diverge => ?_⟩)
      exact diverge.1 (within.trans ⟨["level"], rfl⟩)
    by_cases held : ∃ v ∈ environment, ∃ p, Environment.place? program v.1 = some p ∧
        p <+: ["logging"]
    · obtain ⟨v, member, p, placed, within⟩ := held
      have member' := (shared v p placed within).mp member
      exact Or.inl (Or.inl (gives.at?_eq gives' member member' placed within))
    · have unheld := fun v member p placed within => held ⟨v, member, p, placed, within⟩
      have unheld' := fun v member p placed within =>
        held ⟨v, (shared v p placed within).mpr member, p, placed, within⟩
      exact Or.inr ⟨⟨lower, gives.isTable_at? (List.cons_ne_nil _ _) unheld⟩,
        lower, gives'.isTable_at? (List.cons_ne_nil _ _) unheld'⟩
  · exact Or.inl (gives.alike gives' (List.cons_ne_nil _ _) fun v p placed joined =>
      agree v p placed (Or.inr ⟨lower, joined⟩))

end Independence

end Codemod.Settings
