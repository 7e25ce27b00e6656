import Codemod.Disk.Resolve

/-! Paths below a path. Appending the name of an entry adds one part and one component at the end,
however the path in front is spelled. -/
namespace Codemod

theorem splitOn_of_not_mem [DecidableEq α] {sep : α} {xs : List α} (absent : sep ∉ xs) :
    splitOn sep xs = [xs] := by
  induction xs with
  | nil => rfl
  | cons x rest ih =>
    simp only [List.mem_cons, not_or] at absent
    simp [splitOn, Ne.symm absent.1, ih absent.2]

theorem splitOn_append_cons [DecidableEq α] (sep : α) (xs ys : List α) :
    splitOn sep (xs ++ sep :: ys) = splitOn sep xs ++ splitOn sep ys := by
  induction xs with
  | nil => simp [splitOn]
  | cons x rest ih =>
    simp only [List.cons_append, splitOn, ih]
    split
    · rfl
    · cases h : splitOn sep rest with
      | nil => exact absurd h (splitOn_ne_nil sep rest)
      | cons part more => rfl

theorem splitOn_intercalate [DecidableEq α] {sep : α} {parts : List (List α)}
    (plain : ∀ part ∈ parts, sep ∉ part) (some_part : parts ≠ []) :
    splitOn sep ([sep].intercalate parts) = parts := by
  induction parts with
  | nil => exact absurd rfl some_part
  | cons part parts ih =>
    obtain ⟨here, others⟩ := List.forall_mem_cons.mp plain
    by_cases only : parts = []
    · subst only
      simpa using splitOn_of_not_mem here
    · rw [List.intercalate_cons_of_ne_nil only, List.append_assoc, List.singleton_append,
        splitOn_append_cons, splitOn_of_not_mem here, ih others only, List.singleton_append]

/-- A part of a path that stands for an entry of its own: not empty, neither `.` nor `..`, and
without a slash. -/
def Path.IsName (name : Bytes) : Prop :=
  name ≠ [] ∧ name ≠ [dot] ∧ name ≠ [dot, dot] ∧ slash ∉ name

instance (name : Bytes) : Decidable (Path.IsName name) :=
  inferInstanceAs (Decidable (name ≠ [] ∧ name ≠ [Path.dot] ∧ name ≠ [Path.dot, Path.dot] ∧
    Path.slash ∉ name))

theorem Folder.ValidName.isName {name : Bytes} (valid : ValidName name) : Path.IsName name :=
  ⟨valid.1, valid.2.1, valid.2.2.1, valid.2.2.2.1⟩

namespace Path

/-- What lies between the slashes of a path, where it is not empty. -/
def steps (p : Path) : List Bytes := (splitOn slash p).filter (· ≠ [])

/-- The path that names lead to, one below the other, from a path on. -/
def descend (p : Path) (names : List Bytes) : Path := names.foldl join p

@[simp] theorem descend_nil (p : Path) : p.descend [] = p := rfl

@[simp] theorem descend_cons (p : Path) (name : Bytes) (names : List Bytes) :
    p.descend (name :: names) = (p.join name).descend names := rfl

variable {p q : Path} {name : Bytes}

theorem isAbsolute_of_slash_not_mem (plain : slash ∉ name) : isAbsolute name = false := by
  cases name with
  | nil => rfl
  | cons b rest =>
    simp only [List.mem_cons, not_or] at plain
    simp [isAbsolute, Ne.symm plain.1]

theorem IsName.relative (named : IsName name) : isAbsolute name = false :=
  isAbsolute_of_slash_not_mem named.2.2.2

theorem IsName.splitOn_eq (named : IsName name) : splitOn slash name = [name] :=
  splitOn_of_not_mem named.2.2.2

/-- A relative path is put behind a path, with a slash between them if that does not end in one. -/
theorem join_eq (some_path : p ≠ []) (relative : q.isAbsolute = false) :
    p.join q = p ++ q ∧ p.getLast? = some slash ∨
      p.join q = p ++ slash :: q ∧ p.getLast? ≠ some slash := by
  by_cases final : p.getLast? = some slash
  · left; simp [join, relative, final]
  · right; simp [join, relative, some_path, final]

theorem join_ne_nil (some_path : p ≠ []) (relative : q.isAbsolute = false) : p.join q ≠ [] := by
  rcases join_eq some_path relative with ⟨joined, _⟩ | ⟨joined, _⟩ <;> simp [joined, some_path]

theorem isAbsolute_join (some_path : p ≠ []) (relative : q.isAbsolute = false) :
    (p.join q).isAbsolute = p.isAbsolute := by
  cases p with
  | nil => exact absurd rfl some_path
  | cons b rest =>
    rcases join_eq some_path relative with ⟨joined, _⟩ | ⟨joined, _⟩ <;> simp [joined, isAbsolute]

theorem zero_mem_join (some_path : p ≠ []) (valid : Folder.ValidName name) :
    0 ∈ p.join name ↔ 0 ∈ p := by
  have zero : (0 : UInt8) ≠ slash := by decide
  have clean : 0 ∉ name := valid.2.2.2.2.1
  rcases join_eq some_path valid.isName.relative with ⟨joined, _⟩ | ⟨joined, _⟩ <;>
    simp [joined, zero, clean]

theorem getLast?_join (some_path : p ≠ []) (named : IsName name) :
    (p.join name).getLast? ≠ some slash := by
  obtain ⟨some_name, _, _, plain⟩ := id named
  have last : name.getLast? ≠ some slash := fun h => plain (List.mem_of_getLast? h)
  have ends := List.getLast?_eq_some_getLast some_name
  rw [ends, ne_eq, Option.some.injEq] at last
  rcases join_eq some_path named.relative with ⟨joined, _⟩ | ⟨joined, _⟩ <;>
    simp [joined, List.getLast?_cons, ends, last]

/-- The parts of a path with another behind it: a final slash of the path leaves no part. -/
theorem splitOn_join (some_path : p ≠ []) (relative : q.isAbsolute = false) :
    splitOn slash (p.join q) = splitOn slash p ++ splitOn slash q ∨
      ∃ front, front ≠ [] ∧ splitOn slash p = front ++ [[]] ∧
        splitOn slash (p.join q) = front ++ splitOn slash q := by
  rcases join_eq some_path relative with ⟨joined, final⟩ | ⟨joined, _⟩
  · right
    obtain ⟨front, rfl⟩ := List.getLast?_eq_some_iff.mp final
    refine ⟨splitOn slash front, splitOn_ne_nil slash front, splitOn_append_cons slash front [], ?_⟩
    rw [joined, List.append_assoc, List.singleton_append, splitOn_append_cons]
  · left
    rw [joined, splitOn_append_cons]

theorem steps_join (some_path : p ≠ []) (named : IsName name) :
    (p.join name).steps = p.steps ++ [name] := by
  rcases splitOn_join some_path named.relative with split | ⟨front, _, before, after⟩
  · simp [steps, split, named.splitOn_eq, named.1]
  · simp [steps, before, after, named.splitOn_eq, named.1]

theorem inner_of_isName (named : IsName name) : inner name = some (.name name) := by
  simp [inner, named.1, named.2.1, named.2.2.1]

/-- The component at which a path begins, if it is the root or a `.`. -/
def origin (p : Path) : List Component :=
  if p.isAbsolute then [.root]
  else if (splitOn slash p).head? = some [dot] then [.here]
  else []

/-- Behind its origin, the first part of a path counts as any other. -/
theorem components_eq (p : Path) :
    p.components = p.origin ++ (splitOn slash p).filterMap inner := by
  have skipped : inner [] = none := by simp [inner]
  have skipped' : inner [dot] = none := by simp [inner]
  cases p with
  | nil => rfl
  | cons b rest =>
    by_cases absolute : b = slash
    · simp [components, origin, isAbsolute, absolute, splitOn, skipped]
    · cases parts : splitOn slash (b :: rest) with
      | nil => exact absurd parts (splitOn_ne_nil slash _)
      | cons first more =>
        by_cases here : first = [dot]
        · simp [components, origin, isAbsolute, absolute, parts, leading, here, skipped']
        · simp only [components, origin, isAbsolute, List.head?_cons, absolute, parts, leading, here,
            Option.some_beq_some, beq_iff_eq, if_false, Option.some.injEq, List.nil_append,
            List.filterMap_cons]
          cases inner first <;> rfl

theorem origin_join (some_path : p ≠ []) (relative : q.isAbsolute = false) :
    (p.join q).origin = p.origin := by
  have begun : (splitOn slash (p.join q)).head? = (splitOn slash p).head? := by
    rcases splitOn_join some_path relative with split | ⟨front, some_front, before, after⟩
    · obtain ⟨first, more, parts⟩ := List.exists_cons_of_ne_nil (splitOn_ne_nil slash p)
      rw [split, parts, List.cons_append, List.head?_cons, List.head?_cons]
    · obtain ⟨first, more, rfl⟩ := List.exists_cons_of_ne_nil some_front
      rw [before, after, List.cons_append, List.cons_append, List.head?_cons, List.head?_cons]
  simp only [origin, isAbsolute_join some_path relative, begun]

/-- A path without an origin adds its components to those of the path in front of it. -/
theorem components_join_of_relative (p : Path) (plain : q.origin = []) :
    (p.join q).components = p.components ++ q.components := by
  have relative : q.isAbsolute = false := Bool.eq_false_iff.mpr fun absolute => by
    simp [origin, absolute] at plain
  by_cases some_path : p = []
  · subst some_path
    have alone : join [] q = q := by simp [join]
    rw [alone]
    rfl
  rw [components_eq, components_eq p, components_eq q, origin_join some_path relative, plain,
    List.nil_append, List.append_assoc]
  rcases splitOn_join some_path relative with split | ⟨front, _, before, after⟩
  · rw [split, List.filterMap_append]
  · have skipped : inner [] = none := by simp [inner]
    simp [before, after, skipped]

theorem IsName.origin_eq (named : IsName name) : origin name = [] := by
  simp [origin, named.relative, named.splitOn_eq, named.2.1]

theorem components_join (p : Path) (named : IsName name) :
    (p.join name).components = p.components ++ [.name name] := by
  rw [components_join_of_relative p named.origin_eq, components_eq name, named.origin_eq,
    named.splitOn_eq]
  simp [inner_of_isName named]

variable {names : List Bytes}

theorem descend_ne_nil (some_path : p ≠ []) (named : ∀ n ∈ names, IsName n) :
    p.descend names ≠ [] := by
  induction names generalizing p with
  | nil => exact some_path
  | cons name names ih =>
    obtain ⟨here, later⟩ := List.forall_mem_cons.mp named
    exact ih (join_ne_nil some_path here.relative) later

theorem isAbsolute_descend (some_path : p ≠ []) (named : ∀ n ∈ names, IsName n) :
    (p.descend names).isAbsolute = p.isAbsolute := by
  induction names generalizing p with
  | nil => rfl
  | cons name names ih =>
    obtain ⟨here, later⟩ := List.forall_mem_cons.mp named
    rw [descend_cons, ih (join_ne_nil some_path here.relative) later,
      isAbsolute_join some_path here.relative]

theorem zero_mem_descend (some_path : p ≠ []) (valid : ∀ n ∈ names, Folder.ValidName n) :
    0 ∈ p.descend names ↔ 0 ∈ p := by
  induction names generalizing p with
  | nil => rfl
  | cons name names ih =>
    obtain ⟨here, later⟩ := List.forall_mem_cons.mp valid
    rw [descend_cons, ih (join_ne_nil some_path here.isName.relative) later,
      zero_mem_join some_path here]

theorem components_descend (p : Path) (named : ∀ n ∈ names, IsName n) :
    (p.descend names).components = p.components ++ names.map .name := by
  induction names generalizing p with
  | nil => simp
  | cons name names ih =>
    obtain ⟨here, later⟩ := List.forall_mem_cons.mp named
    rw [descend_cons, ih _ later, components_join p here]
    simp

theorem descend_append (p : Path) (names more : List Bytes) :
    p.descend (names ++ more) = (p.descend names).descend more := by
  simp [descend, List.foldl_append]

theorem descend_injective {more : List Bytes} (named : ∀ n ∈ names, IsName n)
    (named' : ∀ n ∈ more, IsName n) (same : p.descend names = p.descend more) : names = more := by
  have parts := congrArg components same
  rw [components_descend p named, components_descend p named'] at parts
  exact (List.map_inj_right fun _ _ same => Component.name.inj same).mp
    (List.append_cancel_left parts)

theorem filterMap_inner (named : ∀ n ∈ names, IsName n) :
    names.filterMap inner = names.map .name := by
  induction names with
  | nil => rfl
  | cons name names ih =>
    obtain ⟨here, later⟩ := List.forall_mem_cons.mp named
    rw [List.filterMap_cons_some (inner_of_isName here), ih later, List.map_cons]

/-- Names with slashes between them are put behind a path at once as well as one by one. -/
theorem components_join_intercalate (p : Path) (named : ∀ n ∈ names, IsName n) :
    (p.join ([slash].intercalate names)).components = (p.descend names).components := by
  rw [components_descend p named]
  cases names with
  | nil => exact components_join_of_relative p rfl
  | cons name names =>
    have here := (List.forall_mem_cons.mp named).1
    have parts : splitOn slash ([slash].intercalate (name :: names)) = name :: names :=
      splitOn_intercalate (fun n member => (named n member).2.2.2) (by simp)
    have relative : isAbsolute ([slash].intercalate (name :: names)) = false := by
      obtain ⟨b, rest, rfl⟩ := List.exists_cons_of_ne_nil here.1
      have := isAbsolute_of_slash_not_mem here.2.2.2
      cases names <;> simpa [isAbsolute] using this
    have plain : origin ([slash].intercalate (name :: names)) = [] := by
      simp [origin, relative, parts, here.2.1]
    rw [components_join_of_relative p plain, components_eq ([slash].intercalate _), plain, parts,
      filterMap_inner named, List.nil_append]

/-- Only the path itself can end in a slash. -/
theorem parts_descend (some_path : p ≠ []) (named : ∀ n ∈ names, IsName n)
    (further : names ≠ []) : Disk.parts (p.descend names) = p.steps ++ names := by
  induction names generalizing p with
  | nil => exact absurd rfl further
  | cons name names ih =>
    obtain ⟨here, later⟩ := List.forall_mem_cons.mp named
    have steps := steps_join some_path here
    by_cases last : names = []
    · subst last
      rw [descend_cons, descend_nil, Disk.parts, if_neg (getLast?_join some_path here),
        List.append_nil]
      exact steps
    · rw [descend_cons, ih (join_ne_nil some_path here.relative) later last, steps]
      simp

theorem parts_eq (p : Path) :
    Disk.parts p = p.steps ∨ Disk.parts p = p.steps ++ [[]] := by
  by_cases final : p.getLast? = some slash
  · right; simp [Disk.parts, steps, final]
  · left; simp [Disk.parts, steps, final]

end Path

end Codemod
