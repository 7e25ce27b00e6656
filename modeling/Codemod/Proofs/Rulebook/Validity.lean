import Codemod.Proofs.Rulebook.Extensions
import Codemod.Settings.Basic
import Mathlib.Data.List.Sort

/-! What holds of every rulebook, in whatever way one comes by it. All ways lead through the same
checks, so each rule has a pattern and some proper extension is left, while the rules stay those that
were given. What the checks refuse, and that only the meaning of the given extensions counts, is
said of building, on which the other ways rest. -/
namespace Codemod

namespace Rulebook

variable {rules : List Rule} {extensions extensions' : List String} {book : Rulebook}
  {x y : String} {i : Nat}

/-- Every rule can find something, and there are extensions, each a proper one. -/
structure WellFormed (book : Rulebook) : Prop where
  patterns : ∀ r ∈ book.rules, r.pattern ≠ ""
  some_extension : book.extensions ≠ []
  plain : ∀ x ∈ book.extensions, x ≠ "" ∧ x.toList.head? ≠ some '.'
  increasing : book.extensions.Pairwise (· < ·)

/-- The ways to come by a rulebook. -/
inductive Origin where
  | given (rules : List Rule) (extensions : List String)
  | refiltered (origin : Origin) (extensions : List String)
  | read (d : Data)
  | preset (name : String)
  | configured (s : Settings)

/-- The rules that data lists, as a table or as a list of its fields. -/
inductive Lists : Data → List Rule → Prop where
  | table : entries.lookup "rules" = some (.list items) → items.map Rule.ofData? = given.map some →
    Lists (.table entries) given
  | list : items.map Rule.ofData? = given.map some → Lists (.list (.list items :: more)) given

namespace Origin

/-- The rulebook that one comes by, if no check fails on the way. -/
def Yields : Origin → Rulebook → Prop
  | .given rules extensions, book => build rules extensions = .ok book
  | .refiltered origin extensions, book =>
    ∃ earlier, origin.Yields earlier ∧ earlier.withExtensions extensions = .ok book
  | .read d, book => ofData? d = some (.ok book)
  | .preset name, book => Preset.find name = .ok book
  | .configured s, book => s.rulebook = .ok book

/-- The rules that are put in. Without any of its own, a configuration has those of a preset. -/
def Gives : Origin → List Rule → Prop
  | .given rules _, put => put = rules
  | .refiltered origin _, put => origin.Gives put
  | .read d, put => Lists d put
  | .preset _, put => put = Preset.elmDomRules
  | .configured s, put => put = if s.rules = [] then Preset.elmDomRules else s.rules

end Origin

theorem findIdx?_eq_some_iff : rules.findIdx? (fun r => !r.isValid) = some i ↔
    ∃ inside : i < rules.length, rules[i].pattern = "" ∧
      ∀ j (before : j < i), rules[j].pattern ≠ "" := by
  simp [List.findIdx?_eq_some_iff_getElem, Rule.isValid]

theorem findIdx?_eq_none_iff : rules.findIdx? (fun r => !r.isValid) = none ↔
    ∀ r ∈ rules, r.pattern ≠ "" := by
  simp [Rule.isValid]

theorem normalExtensions_eq_nil_iff :
    normalExtensions extensions = [] ↔ ∀ x ∈ extensions, normalExtension x = "" := by
  rw [List.eq_nil_iff_forall_not_mem]
  constructor
  · intro none x member
    by_contra some_text
    exact none _ (mem_normalExtensions.mpr ⟨⟨x, member, rfl⟩, some_text⟩)
  · intro nothing y member
    obtain ⟨⟨x, inside, formed⟩, some_text⟩ := mem_normalExtensions.mp member
    exact some_text (formed.symm.trans (nothing x inside))

theorem build_of_patterns (patterns : ∀ r ∈ rules, r.pattern ≠ "") (extensions : List String) :
    build rules extensions = if normalExtensions extensions = []
      then .error (.configuration .noExtensions) else .ok ⟨rules, normalExtensions extensions⟩ := by
  rw [build, findIdx?_eq_none_iff.mpr patterns]
  cases normalExtensions extensions <;> rfl

theorem build_eq_emptyPattern_iff :
    build rules extensions = .error (.configuration (.emptyPattern i)) ↔
      ∃ inside : i < rules.length, rules[i].pattern = "" ∧
        ∀ j (before : j < i), rules[j].pattern ≠ "" := by
  rw [← findIdx?_eq_some_iff]
  cases first : rules.findIdx? (fun r => !r.isValid) with
  | some index => simp [build, first]
  | none =>
    rw [build_of_patterns (findIdx?_eq_none_iff.mp first)]
    split <;> simp

theorem build_eq_noExtensions_iff :
    build rules extensions = .error (.configuration .noExtensions) ↔
      (∀ r ∈ rules, r.pattern ≠ "") ∧ ∀ x ∈ extensions, normalExtension x = "" := by
  rw [← findIdx?_eq_none_iff, ← normalExtensions_eq_nil_iff]
  cases first : rules.findIdx? (fun r => !r.isValid) with
  | some index => simp [build, first]
  | none =>
    rw [build_of_patterns (findIdx?_eq_none_iff.mp first)]
    split <;> simp_all

theorem build_eq_ok_iff : build rules extensions = .ok book ↔
    (∀ r ∈ rules, r.pattern ≠ "") ∧ normalExtensions extensions ≠ [] ∧
      book = ⟨rules, normalExtensions extensions⟩ := by
  constructor
  · intro built
    obtain ⟨valid, same, normal, some_left⟩ := of_build built
    refine ⟨findIdx?_eq_none_iff.mp valid, some_left, ?_⟩
    rw [← same, ← normal]
  · rintro ⟨patterns, some_left, rfl⟩
    rw [build_of_patterns patterns, if_neg some_left]

theorem wellFormed_of_build (built : build rules extensions = .ok book) : book.WellFormed := by
  obtain ⟨patterns, some_left, rfl⟩ := build_eq_ok_iff.mp built
  refine ⟨patterns, some_left, fun x member => ?_, pairwise_foldr_insertOnce _⟩
  obtain ⟨⟨y, _, rfl⟩, some_text⟩ := mem_normalExtensions.mp member
  exact ⟨some_text, fun first => head_normalExtension first rfl⟩

theorem rules_of_build (built : build rules extensions = .ok book) : book.rules = rules :=
  (of_build built).2.1

/-- Data is read as a rulebook by building one from the rules that it lists. -/
theorem ofData?_eq_some {d : Data} {result : Except Fault Rulebook}
    (read : ofData? d = some result) :
    ∃ rules extensions, Lists d rules ∧ result = build rules extensions := by
  cases d with
  | table entries =>
    simp only [ofData?, Option.bind_eq_bind] at read
    obtain ⟨slots, fields, read⟩ := Option.bind_eq_some_iff.mp read
    rw [Data.slots] at fields
    split at fields
    · cases fields
    · cases fields
      obtain ⟨rules, listed, read⟩ := Option.bind_eq_some_iff.mp read
      obtain ⟨extensions, _, built⟩ := Option.bind_eq_some_iff.mp read
      cases stands : entries.lookup "rules" with
      | none =>
        simp only [stands] at listed
        cases listed
      | some value =>
        simp only [stands] at listed
        obtain ⟨items, rfl, each⟩ := Data.each?_eq_some_iff.mp listed
        exact ⟨rules, extensions, .table stands each, (Option.some.inj built).symm⟩
  | list items =>
    cases items with
    | nil => cases read
    | cons first more =>
      simp only [ofData?, Option.bind_eq_bind] at read
      obtain ⟨slots, fields, read⟩ := Option.bind_eq_some_iff.mp read
      rw [Data.slots] at fields
      split at fields
      · cases fields
      · cases fields
        obtain ⟨slot, last⟩ : ∃ slot, Data.positions 1 more = [slot] := by
          cases more <;> exact ⟨_, rfl⟩
        simp only [List.length_cons, List.length_nil, Data.positions, last] at read
        obtain ⟨rules, listed, read⟩ := Option.bind_eq_some_iff.mp read
        obtain ⟨extensions, _, built⟩ := Option.bind_eq_some_iff.mp read
        obtain ⟨items, rfl, each⟩ := Data.each?_eq_some_iff.mp listed
        exact ⟨rules, extensions, .list each, (Option.some.inj built).symm⟩
  | _ => cases read

end Rulebook

theorem Preset.build_of_find {name : String} {book : Rulebook} (found : find name = .ok book) :
    Rulebook.build elmDomRules elmDomExtensions = .ok book := by
  rw [find] at found
  split at found
  · exact found
  · cases found

/-- Settings have the rules of a preset, where they have none of their own. -/
theorem Settings.build_of_rulebook {s : Settings} {book : Rulebook} (made : s.rulebook = .ok book) :
    ∃ extensions, Rulebook.build (if s.rules = [] then Preset.elmDomRules else s.rules)
      extensions = .ok book := by
  rw [rulebook] at made
  split at made
  · next rules extensions =>
    rw [if_pos rules]
    exact ⟨_, Preset.build_of_find made⟩
  · next rules extensions =>
    rw [if_pos rules]
    cases found : Preset.find (s.preset.getD Preset.default) with
    | error fault => rw [found] at made; cases made
    | ok preset =>
      rw [found] at made
      have same := Rulebook.rules_of_build (Preset.build_of_find found)
      rw [← same]
      exact ⟨_, made⟩
  · cases made
  · next rules extensions =>
    rw [if_neg (by simp [rules]), rules]
    exact ⟨_, made⟩

namespace Rulebook

open Text

variable {rules : List Rule} {extensions extensions' : List String} {book : Rulebook}
  {x y : String}

/-- Every way to a rulebook ends in building one, from the rules that were put in. -/
theorem Origin.build_of_yields {origin : Origin} (yields : origin.Yields book) :
    ∃ rules extensions, origin.Gives rules ∧ build rules extensions = .ok book := by
  induction origin generalizing book with
  | given rules extensions => exact ⟨rules, extensions, rfl, yields⟩
  | refiltered origin extensions ih =>
    obtain ⟨earlier, yields, refiltered⟩ := yields
    obtain ⟨rules, _, gives, built⟩ := ih yields
    have same : earlier.rules = rules := rules_of_build built
    subst same
    exact ⟨earlier.rules, extensions, gives, refiltered⟩
  | read d =>
    obtain ⟨rules, extensions, lists, built⟩ := ofData?_eq_some yields
    exact ⟨rules, extensions, lists, built.symm⟩
  | preset name => exact ⟨_, _, rfl, Preset.build_of_find yields⟩
  | configured s =>
    obtain ⟨extensions, built⟩ := Settings.build_of_rulebook yields
    exact ⟨_, extensions, rfl, built⟩

/-- Texts that differ only in the white space around them. -/
def SameInside (x y : String) : Prop :=
  ∃ core, Padded core x.toList ∧ Padded core y.toList

theorem sameInside_iff : SameInside x y ↔ trim x.toList = trim y.toList := by
  constructor
  · rintro ⟨core, padded, padded'⟩
    rw [trim_padded padded, trim_padded padded']
  · intro same
    exact ⟨_, padded_trim x.toList, same ▸ padded_trim y.toList⟩

instance (x y : String) : Decidable (SameInside x y) := decidable_of_iff' _ sameInside_iff

/-- Every extension of each list stands in the other one, perhaps with other white space around it:
neither order nor repetition counts. -/
def SameExtensions (extensions extensions' : List String) : Prop :=
  (∀ x ∈ extensions, ∃ y ∈ extensions', SameInside x y) ∧
    ∀ y ∈ extensions', ∃ x ∈ extensions, SameInside x y

instance (extensions extensions' : List String) :
    Decidable (SameExtensions extensions extensions') :=
  inferInstanceAs (Decidable (_ ∧ _))

theorem normalExtension_eq_of_sameInside (same : SameInside x y) :
    normalExtension x = normalExtension y := by
  rw [normalExtension, normalExtension, sameInside_iff.mp same]

theorem normalExtensions_eq_of_same (same : SameExtensions extensions extensions') :
    normalExtensions extensions = normalExtensions extensions' := by
  refine (pairwise_foldr_insertOnce _).eq_of_mem_iff (pairwise_foldr_insertOnce _) fun z => ?_
  change z ∈ normalExtensions extensions ↔ z ∈ normalExtensions extensions'
  rw [mem_normalExtensions, mem_normalExtensions]
  refine and_congr_left fun _ => ⟨?_, ?_⟩
  · rintro ⟨x, member, rfl⟩
    obtain ⟨y, member', inside⟩ := same.1 x member
    exact ⟨y, member', (normalExtension_eq_of_sameInside inside).symm⟩
  · rintro ⟨y, member', rfl⟩
    obtain ⟨x, member, inside⟩ := same.2 y member'
    exact ⟨x, member, normalExtension_eq_of_sameInside inside⟩

/-- What an extension holds inside of the white space around it and behind the dots it then begins
with. White space behind these dots is part of it. -/
def Normalizes (x y : String) : Prop :=
  ∃ dots, Padded (List.replicate dots '.' ++ y.toList) x.toList ∧
    Bare (List.replicate dots '.' ++ y.toList) ∧ y.toList.head? ≠ some '.'

theorem normalizes_normalExtension (x : String) : Normalizes x (normalExtension x) := by
  have dots : ∀ c ∈ (trim x.toList).takeWhile (· == '.'), c = '.' := fun c member => by
    simpa using List.mem_takeWhile_imp member
  have split : List.replicate ((trim x.toList).takeWhile (· == '.')).length '.' ++
      (normalExtension x).toList = trim x.toList := by
    rw [← List.eq_replicate_of_mem dots, toList_normalExtension, List.takeWhile_append_dropWhile]
  refine ⟨((trim x.toList).takeWhile (· == '.')).length, ?_⟩
  rw [split]
  exact ⟨padded_trim x.toList, bare_trim x.toList, fun first => head_normalExtension first rfl⟩

theorem normalExtension_eq_iff : normalExtension x = y ↔ Normalizes x y := by
  constructor
  · rintro rfl
    exact normalizes_normalExtension x
  · rintro ⟨dots, padded, bare, undotted⟩
    have dropped : ∀ c ∈ List.replicate dots '.', (c == '.') = true := fun c member => by
      simpa using List.eq_of_mem_replicate member
    apply String.toList_injective
    rw [toList_normalExtension, trim_padded padded, trim_of_bare bare,
      List.dropWhile_append_of_pos dropped, dropWhile_dots undotted]

/-- A rulebook has the properties that are checked and the rules that were put in, in whatever way
one comes by it. Building one is refused for the first rule without a pattern, then for want of an
extension, and otherwise succeeds; of the extensions it matters neither in which order nor how often
nor with which white space around them they are given. -/
theorem yields_wellFormed_and_build_decided :
    (∀ (origin : Origin) (book : Rulebook), origin.Yields book →
      book.WellFormed ∧ origin.Gives book.rules) ∧
    (∀ (rules : List Rule) (extensions : List String),
      (∀ i, build rules extensions = .error (.configuration (.emptyPattern i)) ↔
        ∃ inside : i < rules.length, rules[i].pattern = "" ∧
          ∀ j (before : j < i), rules[j].pattern ≠ "") ∧
      (build rules extensions = .error (.configuration .noExtensions) ↔
        (∀ r ∈ rules, r.pattern ≠ "") ∧ ∀ x ∈ extensions, Normalizes x "") ∧
      ((∃ book, build rules extensions = .ok book ∧ book.rules = rules ∧
          ∀ y, y ∈ book.extensions ↔ (∃ x ∈ extensions, Normalizes x y) ∧ y ≠ "") ↔
        (∀ r ∈ rules, r.pattern ≠ "") ∧ ∃ x ∈ extensions, ¬Normalizes x "")) ∧
    ∀ (rules : List Rule) (extensions extensions' : List String),
      SameExtensions extensions extensions' →
        build rules extensions = build rules extensions' := by
  refine ⟨?_, fun rules extensions => ⟨fun i => build_eq_emptyPattern_iff, ?_, ?_⟩, ?_⟩
  · intro origin book yields
    obtain ⟨rules, extensions, gives, built⟩ := origin.build_of_yields yields
    have same : book.rules = rules := rules_of_build built
    exact ⟨wellFormed_of_build built, same ▸ gives⟩
  · simp only [← normalExtension_eq_iff]
    exact build_eq_noExtensions_iff
  · simp only [← normalExtension_eq_iff, ← mem_normalExtensions]
    constructor
    · rintro ⟨book, built, _⟩
      obtain ⟨patterns, some_left, _⟩ := build_eq_ok_iff.mp built
      exact ⟨patterns, by simpa using mt normalExtensions_eq_nil_iff.mpr some_left⟩
    · rintro ⟨patterns, x, member, some_left⟩
      have nonempty : normalExtensions extensions ≠ [] := fun none =>
        some_left (normalExtensions_eq_nil_iff.mp none x member)
      exact ⟨_, build_eq_ok_iff.mpr ⟨patterns, nonempty, rfl⟩, rfl, fun y => Iff.rfl⟩
  · intro rules extensions extensions' same
    rw [build, build, normalExtensions_eq_of_same same]

/-- A rulebook that is read, and then gets an extension twice and one with white space behind its
dot. -/
theorem yields_wellFormed_respelled :
    ∃ book : Rulebook,
      let origin : Origin := .refiltered (.read (toData ⟨[⟨"a", "b"⟩, ⟨"b", ""⟩], [".md"]⟩))
        ["..elm ", "elm", ". x"]
      origin.Yields book ∧ book.WellFormed ∧ origin.Gives book.rules ∧
      SameExtensions ["..elm ", "elm", ". x"] ["\n. x", " elm\t", " elm", "..elm"] ∧
      build book.rules ["..elm ", "elm", ". x"] =
        build book.rules ["\n. x", " elm\t", " elm", "..elm"] := by
  obtain ⟨sound, _, independent⟩ := yields_wellFormed_and_build_decided
  have read : ofData? (toData ⟨[⟨"a", "b"⟩, ⟨"b", ""⟩], [".md"]⟩) =
      some (.ok ⟨[⟨"a", "b"⟩, ⟨"b", ""⟩], ["md"]⟩) := by decide +kernel
  have refiltered : withExtensions ⟨[⟨"a", "b"⟩, ⟨"b", ""⟩], ["md"]⟩ ["..elm ", "elm", ". x"] =
      .ok ⟨[⟨"a", "b"⟩, ⟨"b", ""⟩], [" x", "elm"]⟩ := by decide +kernel
  have same : SameExtensions ["..elm ", "elm", ". x"] ["\n. x", " elm\t", " elm", "..elm"] := by
    decide +kernel
  obtain ⟨wellFormed, gives⟩ := sound (.refiltered (.read _) _) _ ⟨_, read, refiltered⟩
  exact ⟨_, ⟨_, read, refiltered⟩, wellFormed, gives, same, independent _ _ _ same⟩

end Rulebook

end Codemod
