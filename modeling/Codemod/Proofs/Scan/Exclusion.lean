import Codemod.Proofs.Path.Descent
import Codemod.Proofs.Text.Utf8
import Codemod.Scan.Exclude

/-! What it means that a path is left out. A pattern spells names, and it covers a path below the
root if these names stand one after another among those of the path. Only a folder is covered by a
pattern for folders that ends at its own name; what is below the folder is covered as well. The root
and the spelling of paths have no part in it. -/
namespace Codemod.Scan

variable {α : Type}

/-- The names that a pattern spells are what stands between its slashes, where this is not empty. -/
inductive Spells : List Char → List String → Prop where
  | nothing : Spells [] []
  | slash : Spells text names → Spells ('/' :: text) names
  | last : name ≠ [] → '/' ∉ name → Spells name [String.ofList name]
  | name : name ≠ [] → '/' ∉ name → Spells text names →
    Spells (name ++ '/' :: text) (String.ofList name :: names)

theorem Spells.patternNames_eq {text : List Char} {names : List String}
    (spelled : Spells text names) :
    ((splitOn '/' text).filter (· ≠ [])).map String.ofList = names := by
  induction spelled with
  | nothing => rfl
  | slash _ ih => simpa [splitOn] using ih
  | last some_name plain => simp [splitOn_of_not_mem plain, some_name]
  | name some_name plain _ ih =>
    simp only [splitOn_append_cons, splitOn_of_not_mem plain, List.filter_append, List.map_append,
      ih]
    simp [some_name]

theorem spells_intercalate (parts : List (List Char)) (plain : ∀ part ∈ parts, '/' ∉ part) :
    Spells (['/'].intercalate parts) ((parts.filter (· ≠ [])).map String.ofList) := by
  induction parts with
  | nil => exact .nothing
  | cons part parts ih =>
    obtain ⟨here, others⟩ := List.forall_mem_cons.mp plain
    have later := ih others
    by_cases only : parts = []
    · subst only
      by_cases empty : part = []
      · subst empty
        exact .nothing
      · simpa [empty] using Spells.last empty here
    · rw [List.intercalate_cons_of_ne_nil only, List.append_assoc, List.singleton_append]
      by_cases empty : part = []
      · subst empty
        simpa using Spells.slash later
      · simpa [empty] using Spells.name empty here later

theorem patternNames_eq_iff {pattern : String} {names : List String} :
    patternNames pattern = names ↔ Spells pattern.toList names := by
  constructor
  · rintro rfl
    have parts := spells_intercalate (splitOn '/' pattern.toList)
      fun part member => not_mem_of_mem_splitOn '/' pattern.toList part member
    rwa [intercalate_splitOn] at parts
  · exact Spells.patternNames_eq

theorem hasBlock_iff [DecidableEq α] {block names : List α} :
    hasBlock block names ↔ block <:+: names := by
  induction names with
  | nil => simp [hasBlock]
  | cons name rest ih =>
    rw [hasBlock, Bool.or_eq_true, ih, List.infix_cons_iff, List.isPrefixOf_iff_prefix]

theorem infix_dropLast_iff {block names : List α} (some_block : block ≠ []) :
    block <:+: names.dropLast ↔
      ∃ before after, names = before ++ block ++ after ∧ after ≠ [] := by
  constructor
  · rintro ⟨before, after, split⟩
    have some_names : names ≠ [] := by
      rintro rfl
      simp [some_block] at split
    refine ⟨before, after ++ [names.getLast some_names], ?_, by simp⟩
    rw [← List.append_assoc, split, List.dropLast_concat_getLast]
  · rintro ⟨before, after, rfl, further⟩
    exact ⟨before, after.dropLast, (List.dropLast_append_of_ne_nil further).symm⟩

/-- A pattern covers names if what it spells stands among them as one block. At the last name a
pattern that ends in a slash stands for a folder only. -/
def Covers (pattern : String) (names : List String) (isFolder : Bool) : Prop :=
  ∃ before block after, Spells pattern.toList block ∧ block ≠ [] ∧
    names = before ++ block ++ after ∧ (after = [] → isFolder ∨ ¬['/'] <:+ pattern.toList)

theorem endsInSlash_iff {pattern : String} : endsInSlash pattern ↔ ['/'] <:+ pattern.toList := by
  rw [endsInSlash, beq_iff_eq, List.getLast?_eq_some_iff]
  constructor <;> rintro ⟨front, split⟩ <;> exact ⟨front, split.symm⟩

theorem matchesNames_iff {pattern : String} {names : List String} {isFolder : Bool} :
    matchesNames names isFolder pattern ↔ Covers pattern names isFolder := by
  have covers_iff : Covers pattern names isFolder ↔ patternNames pattern ≠ [] ∧
      ∃ before after, names = before ++ patternNames pattern ++ after ∧
        (after = [] → isFolder ∨ ¬endsInSlash pattern) := by
    rw [endsInSlash_iff]
    constructor
    · rintro ⟨before, block, after, spelled, some_block, split, last⟩
      obtain rfl := patternNames_eq_iff.mpr spelled
      exact ⟨some_block, before, after, split, last⟩
    · rintro ⟨some_block, before, after, split, last⟩
      exact ⟨before, _, after, patternNames_eq_iff.mp rfl, some_block, split, last⟩
  rw [covers_iff, matchesNames, Bool.and_eq_true, Bool.not_eq_true', List.isEmpty_eq_false_iff]
  refine and_congr_right fun some_block => ?_
  rw [hasBlock_iff]
  by_cases shortened : endsInSlash pattern ∧ isFolder = false
  · obtain ⟨final, rfl⟩ := shortened
    rw [if_pos (by simp [final]), infix_dropLast_iff some_block]
    simp [final]
  · rw [if_neg (by simpa using shortened)]
    have free : isFolder ∨ ¬endsInSlash pattern := by
      by_cases final : endsInSlash pattern <;> simp_all
    constructor
    · rintro ⟨before, after, split⟩
      exact ⟨before, after, split.symm, fun _ => free⟩
    · rintro ⟨before, after, split, _⟩
      exact ⟨before, after, split.symm⟩

/-- What is below a covered folder is covered, whatever it is. -/
theorem Covers.below {pattern : String} {names more : List String} {isFolder isFolder' : Bool}
    (covered : Covers pattern names isFolder) (further : more ≠ []) :
    Covers pattern (names ++ more) isFolder' := by
  obtain ⟨before, block, after, spelled, some_block, rfl, _⟩ := covered
  exact ⟨before, block, after ++ more, spelled, some_block, by simp,
    fun none => absurd (List.append_eq_nil_iff.mp none).2 further⟩

theorem relativeTo_of_components {root path : Path} {below : List Path.Component}
    (under : path.components = root.components ++ below) : Path.relativeTo root path = below := by
  have inside : root.components.isPrefixOf path.components := by
    rw [under, List.isPrefixOf_iff_prefix]
    exact List.prefix_append _ _
  rw [Path.relativeTo, if_pos inside, under, List.drop_left]

theorem isExcluded_of_components {root path : Path} {names : List Bytes} {isFolder : Bool}
    {exclude : List String} (under : path.components = root.components ++ names.map .name) :
    isExcluded root path isFolder exclude ↔
      ∃ pattern ∈ exclude, Covers pattern (names.map Utf8.lossy) isFolder := by
  have shown : (Path.relativeTo root path).map Path.Component.display = names.map Utf8.lossy := by
    rw [relativeTo_of_components under, List.map_map]
    rfl
  simp only [isExcluded, shown, List.any_eq_true, matchesNames_iff]

/-- A folder that is left out takes everything below it along. -/
theorem isExcluded_below {root : Path} {names more : List Bytes} {isFolder isFolder' : Bool}
    {exclude : List String} (named : ∀ n ∈ names ++ more, Path.IsName n) (further : more ≠ [])
    (excluded : isExcluded root (root.descend names) isFolder exclude) :
    isExcluded root (root.descend (names ++ more)) isFolder' exclude := by
  have named' : ∀ n ∈ names, Path.IsName n := fun n member =>
    named n (List.mem_append_left _ member)
  rw [isExcluded_of_components (Path.components_descend root named')] at excluded
  rw [isExcluded_of_components (Path.components_descend root named), List.map_append]
  obtain ⟨pattern, member, covered⟩ := excluded
  exact ⟨pattern, member, covered.below (by simpa using further)⟩

section Windows

/-! The same search in steps that not every list admits: to leave out a last element, and to look
through a window of some elements. The guards of the search keep to the lists that do. -/

def front? (xs : List α) : Option (List α) := if xs = [] then none else some xs.dropLast

/-- All blocks of `size` elements, which must be one element at least. -/
def windows? (size : Nat) (xs : List α) : Option (List (List α)) :=
  if size = 0 then none
  else some ((List.range (xs.length + 1 - size)).map fun i => (xs.drop i).take size)

def searched? (names : List String) (isFolder : Bool) (pattern : String) : Option (List String) :=
  if endsInSlash pattern && !isFolder then front? names else some names

def matches? (names : List String) (isFolder : Bool) (pattern : String) : Option Bool :=
  let block := patternNames pattern
  if block = [] then some false
  else do
    let searched ← searched? names isFolder pattern
    let windows ← windows? block.length searched
    return windows.any fun window => (window.zip block).all fun pair => pair.1 == pair.2

def excluded? (root path : Path) (isFolder : Bool) (exclude : List String) : Option Bool :=
  let names := (Path.relativeTo root path).map Path.Component.display
  if exclude = [] ∨ names = [] then some false
  else exclude.anyM (matches? names isFolder)

theorem all_zip_iff [DecidableEq α] {xs ys : List α} (length : xs.length = ys.length) :
    (xs.zip ys).all (fun pair => pair.1 == pair.2) ↔ xs = ys := by
  induction xs generalizing ys with
  | nil => simp [List.eq_nil_of_length_eq_zero length.symm]
  | cons x xs ih =>
    cases ys with
    | nil => simp at length
    | cons y ys =>
      rw [List.zip_cons_cons, List.all_cons, Bool.and_eq_true, ih (by simpa using length)]
      simp

/-- Some window holds the block if and only if the block stands in the list. -/
theorem any_windows_eq [DecidableEq α] {block : List α} (some_block : block ≠ []) (xs : List α) :
    ∃ windows, windows? block.length xs = some windows ∧
      (windows.any fun window => (window.zip block).all fun pair => pair.1 == pair.2) =
        hasBlock block xs := by
  have positive := List.length_pos_iff.mpr some_block
  refine ⟨_, if_neg (by omega), ?_⟩
  rw [Bool.eq_iff_iff, hasBlock_iff, List.any_map, List.any_eq_true]
  constructor
  · rintro ⟨i, inside, same⟩
    rw [List.mem_range] at inside
    rw [Function.comp_apply, all_zip_iff (by simp; omega)] at same
    rw [← same]
    exact (List.take_prefix ..).isInfix.trans (List.drop_suffix ..).isInfix
  · rintro ⟨before, after, rfl⟩
    refine ⟨before.length, by simp; omega, ?_⟩
    have here : ((before ++ block ++ after).drop before.length).take block.length = block := by
      rw [List.append_assoc, List.drop_left, List.take_left]
    rw [Function.comp_apply, here, all_zip_iff rfl]

theorem matches?_eq {names : List String} (some_name : names ≠ []) (isFolder : Bool)
    (pattern : String) :
    matches? names isFolder pattern = some (matchesNames names isFolder pattern) := by
  by_cases no_block : patternNames pattern = []
  · simp [matches?, matchesNames, no_block]
  · have searched : searched? names isFolder pattern =
        some (if endsInSlash pattern && !isFolder then names.dropLast else names) := by
      unfold searched?
      split <;> simp [front?, some_name]
    obtain ⟨windows, defined, found⟩ := any_windows_eq no_block
      (if endsInSlash pattern && !isFolder then names.dropLast else names)
    simp only [matches?, no_block, if_false, searched, Option.bind_eq_bind, Option.bind_some,
      defined, found, Option.pure_def, matchesNames]
    rw [List.isEmpty_eq_false_iff.mpr no_block, Bool.not_false, Bool.true_and]

theorem excluded?_eq (root path : Path) (isFolder : Bool) (exclude : List String) :
    excluded? root path isFolder exclude = some (isExcluded root path isFolder exclude) := by
  by_cases guarded : exclude = [] ∨ (Path.relativeTo root path).map Path.Component.display = []
  · rw [excluded?, if_pos guarded]
    rcases guarded with rfl | root_itself
    · rfl
    · have nothing (pattern : String) : matchesNames [] isFolder pattern = false := by
        cases none : (patternNames pattern).isEmpty <;> simp [matchesNames, hasBlock, none]
      simp [isExcluded, root_itself, nothing]
  · rw [excluded?, if_neg guarded, isExcluded]
    have some_name := (not_or.mp guarded).2
    clear guarded
    induction exclude with
    | nil => rfl
    | cons pattern exclude ih =>
      rw [List.anyM_cons, matches?_eq some_name, List.any_cons, ih]
      cases matchesNames _ isFolder pattern <;> rfl

end Windows

theorem isName_encode {name : String}
    (plain : name ≠ "" ∧ name ≠ "." ∧ name ≠ ".." ∧ '/' ∉ name.toList) :
    Path.IsName (Utf8.encode name) := by
  obtain ⟨some_name, not_here, not_up, no_slash⟩ := plain
  refine ⟨fun same => some_name (Utf8.encode_injective same),
    fun same => not_here (Utf8.encode_injective same),
    fun same => not_up (Utf8.encode_injective same), fun member => no_slash ?_⟩
  exact (Utf8.mem_encode_iff (by decide) rfl).mp member

/-- Whether a path below a root is left out depends on its names below the root and on the patterns
that cover these, and on nothing else; the search is defined for every path. -/
theorem isExcluded_iff_covers (root : Path) {names : List String}
    (plain : ∀ n ∈ names, n ≠ "" ∧ n ≠ "." ∧ n ≠ ".." ∧ '/' ∉ n.toList) (isFolder : Bool)
    (exclude : List String) :
    (isExcluded root (root.descend (names.map Utf8.encode)) isFolder exclude ↔
      ∃ pattern ∈ exclude, Covers pattern names isFolder) ∧
    isExcluded root root isFolder exclude = false ∧
    (∀ root', isExcluded root' (root'.descend (names.map Utf8.encode)) isFolder exclude =
      isExcluded root (root.descend (names.map Utf8.encode)) isFolder exclude) ∧
    (root.join ([Path.slash].intercalate (names.map Utf8.encode))).components =
      (root.descend (names.map Utf8.encode)).components ∧
    (∀ root' path path', root'.components = root.components → path'.components = path.components →
      isExcluded root' path' isFolder exclude = isExcluded root path isFolder exclude) ∧
    ∀ path, excluded? root path isFolder exclude = some (isExcluded root path isFolder exclude) := by
  have named : ∀ n ∈ names.map Utf8.encode, Path.IsName n := by
    intro n member
    obtain ⟨name, inside, rfl⟩ := List.mem_map.mp member
    exact isName_encode (plain name inside)
  have covered (root : Path) :
      isExcluded root (root.descend (names.map Utf8.encode)) isFolder exclude ↔
        ∃ pattern ∈ exclude, Covers pattern names isFolder := by
    rw [isExcluded_of_components (Path.components_descend root named), List.map_map]
    simp [Function.comp_def]
  refine ⟨covered root, ?_, fun root' => ?_, Path.components_join_intercalate root named, ?_,
    fun path => excluded?_eq root path isFolder exclude⟩
  · have itself : root.components = root.components ++ List.map Path.Component.name [] := by simp
    rw [Bool.eq_false_iff, ne_eq, isExcluded_of_components itself]
    rintro ⟨pattern, _, before, block, after, _, some_block, split, _⟩
    simp [some_block] at split
  · rw [Bool.eq_iff_iff, covered, covered]
  · intro root' path path' same same'
    simp only [isExcluded, Path.relativeTo, same, same']

/-- Below a root that is spelled in a roundabout way and named like an exclusion, a folder is left
out and a file of the same name is not. -/
theorem isExcluded_iff_covers_nested :
    (∃ pattern ∈ ["target/", "//vendor//élm//"], Covers pattern ["vendor", "élm"] true) ∧
      ¬∃ pattern ∈ ["target/", "//vendor//élm//"], Covers pattern ["vendor", "élm"] false := by
  have plain : ∀ n ∈ ["vendor", "élm"], n ≠ "" ∧ n ≠ "." ∧ n ≠ ".." ∧ '/' ∉ n.toList := by
    decide +kernel
  have folder := isExcluded_iff_covers (Path.ofText ".//a/../target/") plain true
    ["target/", "//vendor//élm//"]
  have file := isExcluded_iff_covers (Path.ofText ".//a/../target/") plain false
    ["target/", "//vendor//élm//"]
  refine ⟨folder.1.mp (by decide +kernel), fun covered => ?_⟩
  exact absurd (file.1.mpr covered) (by decide +kernel)

end Codemod.Scan
