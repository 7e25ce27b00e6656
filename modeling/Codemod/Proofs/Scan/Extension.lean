import Codemod.Proofs.Path.Descent
import Codemod.Proofs.Text.Utf8
import Codemod.Scan.Exclude
import Mathlib.Data.List.Induction
import Mathlib.Data.List.TakeWhile

/-! Which paths have an extension. It is read off the bytes at the end of the path: the last name,
with slashes and `.` parts behind it left out, is parted at its last dot. A name without anything in
front of that dot has no extension, and neither has a path that ends in the root, in a leading `.`
or in `..`. -/
namespace Codemod

namespace Path

/-- What may stand behind the last component of a path: slashes, and `.` parts between them. -/
inductive Trailing : Bytes → Prop where
  | nil : Trailing []
  | slash : Trailing tail → Trailing (slash :: tail)
  | dot : Trailing tail → Trailing (slash :: dot :: tail)

/-- The last component of the path is this name. In front of it there is nothing or a slash. -/
def EndsIn (p : Path) (name : Bytes) : Prop :=
  IsName name ∧ ∃ front tail, p = front ++ name ++ tail ∧
    (front = [] ∨ front.getLast? = some slash) ∧ Trailing tail

variable {p : Path} {name stem e tail part : Bytes} {before after : List Bytes}

theorem inner_eq_none_iff : inner part = none ↔ part = [] ∨ part = [dot] := by
  unfold inner
  split
  · next skipped => exact iff_of_true rfl skipped
  · next counted => split <;> exact iff_of_false (by simp) counted

theorem inner_eq_name_iff (plain : slash ∉ part) :
    inner part = some (.name name) ↔ part = name ∧ IsName name := by
  constructor
  · intro counted
    unfold inner at counted
    split at counted
    · cases counted
    · next some_part =>
      split at counted
      · cases counted
      · next not_up =>
        cases counted
        rw [not_or] at some_part
        exact ⟨rfl, some_part.1, some_part.2, not_up, plain⟩
  · rintro ⟨rfl, named⟩
    exact inner_of_isName named

/-- Behind the last component, the parts between the slashes stand for none. -/
theorem splitOn_of_trailing (trailing : Trailing tail) (plain : slash ∉ part) :
    ∃ after, splitOn slash (part ++ tail) = part :: after ∧ ∀ q ∈ after, inner q = none := by
  induction trailing generalizing part with
  | nil => exact ⟨[], by rw [List.append_nil, splitOn_of_not_mem plain], by simp⟩
  | slash _ ih =>
    obtain ⟨after, split, skipped⟩ := @ih [] (by simp)
    refine ⟨[] :: after, ?_, List.forall_mem_cons.mpr ⟨inner_eq_none_iff.mpr (Or.inl rfl), skipped⟩⟩
    rw [splitOn_append_cons, splitOn_of_not_mem plain, ← split]
    rfl
  | dot _ ih =>
    obtain ⟨after, split, skipped⟩ := @ih [dot] (by decide)
    refine ⟨[dot] :: after, ?_,
      List.forall_mem_cons.mpr ⟨inner_eq_none_iff.mpr (Or.inr rfl), skipped⟩⟩
    rw [splitOn_append_cons, splitOn_of_not_mem plain, ← split]
    rfl

theorem trailing_flatMap (skipped : ∀ q ∈ after, inner q = none) :
    Trailing (after.flatMap (slash :: ·)) := by
  induction after with
  | nil => exact .nil
  | cons q after ih =>
    obtain ⟨here, later⟩ := List.forall_mem_cons.mp skipped
    rcases inner_eq_none_iff.mp here with rfl | rfl
    · exact .slash (ih later)
    · exact .dot (ih later)

theorem intercalate_slash (before : List Bytes) (part : Bytes) (after : List Bytes) :
    [slash].intercalate (before ++ part :: after) =
      before.flatMap (· ++ [slash]) ++ part ++ after.flatMap (slash :: ·) := by
  induction before with
  | nil =>
    induction after generalizing part with
    | nil => simp
    | cons q after ih =>
      simp only [List.nil_append, List.flatMap_nil] at ih ⊢
      rw [List.intercalate_cons_of_ne_nil (by simp), ih]
      simp
  | cons q before ih =>
    rw [List.cons_append, List.intercalate_cons_of_ne_nil (by simp), ih]
    simp

/-- A path ends in a name if this is the last of its parts that stands for a component. -/
theorem endsIn_iff : p.EndsIn name ↔ ∃ before after,
    splitOn slash p = before ++ name :: after ∧ IsName name ∧ ∀ q ∈ after, inner q = none := by
  constructor
  · rintro ⟨named, front, tail, rfl, edge, trailing⟩
    obtain ⟨after, split, skipped⟩ := splitOn_of_trailing trailing named.2.2.2
    rcases edge with rfl | final
    · exact ⟨[], after, by simpa using split, named, skipped⟩
    · obtain ⟨front, rfl⟩ := List.getLast?_eq_some_iff.mp final
      refine ⟨splitOn slash front, after, ?_, named, skipped⟩
      rw [List.append_assoc, List.append_assoc, List.singleton_append, splitOn_append_cons, split]
  · rintro ⟨before, after, split, named, skipped⟩
    refine ⟨named, before.flatMap (· ++ [slash]), after.flatMap (slash :: ·), ?_, ?_,
      trailing_flatMap skipped⟩
    · rw [← intercalate_slash, ← split, intercalate_splitOn]
    · rcases List.eq_nil_or_concat before with rfl | ⟨before, q, rfl⟩
      · exact Or.inl rfl
      · right
        simp

theorem getLast?_origin_ne (p : Path) (name : Bytes) : p.origin.getLast? ≠ some (.name name) := by
  unfold origin
  split
  · simp
  · split <;> simp

theorem getLast?_components_iff : p.components.getLast? = some (.name name) ↔ p.EndsIn name := by
  have last : p.components.getLast? = some (.name name) ↔
      ((splitOn slash p).filterMap inner).getLast? = some (.name name) := by
    rw [components_eq, List.getLast?_append, Option.or_eq_some_iff]
    simp [getLast?_origin_ne p name]
  rw [last, endsIn_iff, List.getLast?_filterMap, List.findSome?_eq_some_iff]
  constructor
  · rintro ⟨after, part, before, split, counted, skipped⟩
    have split' : splitOn slash p = before.reverse ++ part :: after.reverse := by
      rw [← List.reverse_reverse (splitOn slash p), split]
      simp
    have plain : slash ∉ part := not_mem_of_mem_splitOn slash p part (by simp [split'])
    obtain ⟨rfl, named⟩ := (inner_eq_name_iff plain).mp counted
    exact ⟨before.reverse, after.reverse, split', named, fun q member =>
      skipped q (List.mem_reverse.mp member)⟩
  · rintro ⟨before, after, split, named, skipped⟩
    refine ⟨after.reverse, name, before.reverse, by simp [split], inner_of_isName named, ?_⟩
    intro q member
    exact skipped q (List.mem_reverse.mp member)

theorem extensionOfName_append (stem : Bytes) (plain : dot ∉ e) :
    extensionOfName (stem ++ dot :: e) = if stem = [] then none else some e := by
  have letters : ∀ b ∈ e.reverse, (b != dot) = true := by
    intro b member
    have letter : b ≠ dot := fun same => plain (same ▸ List.mem_reverse.mp member)
    simpa using letter
  have turned : (stem ++ dot :: e).reverse = e.reverse ++ dot :: stem.reverse := by simp
  rw [extensionOfName, turned, List.dropWhile_append_of_pos letters,
    List.takeWhile_append_of_pos letters, List.dropWhile_cons_of_neg (by simp),
    List.takeWhile_cons_of_neg (by simp), List.append_nil, List.reverse_reverse]
  cases stem using List.reverseRecOn with
  | nil => rfl
  | append_singleton stem b => simp

theorem extensionOfName_of_not_mem (plain : dot ∉ name) : extensionOfName name = none := by
  have letters : name.reverse.dropWhile (· != dot) = [] := by
    rw [List.dropWhile_eq_nil_iff]
    intro b member
    have letter : b ≠ dot := fun same => plain (same ▸ List.mem_reverse.mp member)
    simpa using letter
  rw [extensionOfName, letters]

/-- A name is parted at its last dot, and only if something stands in front of it. -/
theorem extensionOfName_eq_some_iff : extensionOfName name = some e ↔
    ∃ stem, name = stem ++ dot :: e ∧ stem ≠ [] ∧ dot ∉ e := by
  constructor
  · intro parted
    by_cases dotted : dot ∈ name
    · obtain ⟨behind, front, turned, plain⟩ :=
        List.eq_append_cons_of_mem (List.mem_reverse.mpr dotted)
      have split : name = front.reverse ++ dot :: behind.reverse := by
        rw [← List.reverse_reverse name, turned]
        simp
      rw [split, extensionOfName_append _ (by simpa using plain)] at parted
      split at parted
      · cases parted
      · next some_stem =>
        cases parted
        exact ⟨front.reverse, split, some_stem, by simpa using plain⟩
    · rw [extensionOfName_of_not_mem dotted] at parted
      cases parted
  · rintro ⟨stem, rfl, some_stem, plain⟩
    rw [extensionOfName_append stem plain, if_neg some_stem]

theorem extension?_eq_some_iff : p.extension? = some e ↔
    ∃ stem, p.EndsIn (stem ++ dot :: e) ∧ stem ≠ [] ∧ dot ∉ e := by
  have named : p.extension? = some e ↔
      ∃ name, p.components.getLast? = some (.name name) ∧ extensionOfName name = some e := by
    unfold extension?
    split
    · next name last => simp [last]
    · next other =>
      refine iff_of_false (by simp) ?_
      rintro ⟨name, last, _⟩
      exact other name last
  rw [named]
  constructor
  · rintro ⟨name, last, parted⟩
    obtain ⟨stem, rfl, some_stem, plain⟩ := extensionOfName_eq_some_iff.mp parted
    exact ⟨stem, getLast?_components_iff.mp last, some_stem, plain⟩
  · rintro ⟨stem, ends, some_stem, plain⟩
    exact ⟨_, getLast?_components_iff.mpr ends,
      extensionOfName_eq_some_iff.mpr ⟨stem, rfl, some_stem, plain⟩⟩

end Path

namespace Scan

open Codemod.Path

variable {p : Path} {x : String} {extensions : List String}

theorem hasExtension_iff : hasExtension p extensions ↔ ∃ stem e, p.EndsIn (stem ++ dot :: e) ∧
    stem ≠ [] ∧ dot ∉ e ∧ ∃ x ∈ extensions, Utf8.encode x = e := by
  have read : hasExtension p extensions ↔
      ∃ e, p.extension? = some e ∧ ∃ x ∈ extensions, Utf8.decode? e = some x := by
    unfold hasExtension
    split
    · next x decoded =>
      obtain ⟨e, found, decoded⟩ := Option.bind_eq_some_iff.mp decoded
      simp [found, decoded]
    · next missing =>
      refine iff_of_false (by simp) ?_
      rintro ⟨e, found, x, _, decoded⟩
      rw [found, Option.bind_some, decoded] at missing
      cases missing
  rw [read]
  constructor
  · rintro ⟨e, found, x, member, decoded⟩
    obtain ⟨stem, ends, some_stem, plain⟩ := extension?_eq_some_iff.mp found
    exact ⟨stem, e, ends, some_stem, plain, x, member, Utf8.encode_of_decode? decoded⟩
  · rintro ⟨stem, e, ends, some_stem, plain, x, member, rfl⟩
    exact ⟨_, extension?_eq_some_iff.mpr ⟨stem, ends, some_stem, plain⟩, x, member,
      Utf8.decode?_encode x⟩

/-- A file whose name has its only dot in front has no extension. -/
theorem hasExtension_of_dot_file {name : Bytes} (ends : p.EndsIn (dot :: name))
    (plain : dot ∉ name) : hasExtension p extensions = false := by
  have last := getLast?_components_iff.mpr ends
  have none : extensionOfName (dot :: name) = none := extensionOfName_append [] plain
  simp [hasExtension, extension?, last, none]

/-- No name ends in an extension in which a dot or a slash stands. -/
theorem hasExtension_singleton (special : '.' ∈ x.toList ∨ '/' ∈ x.toList) :
    hasExtension p [x] = false := by
  rw [Bool.eq_false_iff, ne_eq, hasExtension_iff]
  rintro ⟨stem, e, ends, _, plain, x', member, rfl⟩
  obtain rfl := List.mem_singleton.mp member
  rcases special with dotted | slashed
  · exact plain ((Utf8.mem_encode_iff (by decide) rfl).mpr dotted)
  · have inside : slash ∈ Utf8.encode x' := (Utf8.mem_encode_iff (by decide) rfl).mpr slashed
    exact ends.1.2.2.2 (by simp [inside])

/-- A path has one of the extensions if its last component is a name that ends in a dot and the
extension, with something in front. The spelling of the path has no part in it. -/
theorem hasExtension_iff_endsIn (p : Path) (extensions : List String) :
    (hasExtension p extensions ↔ ∃ stem e, p.EndsIn (stem ++ dot :: e) ∧ stem ≠ [] ∧ dot ∉ e ∧
      ∃ x ∈ extensions, Utf8.encode x = e) ∧
    (∀ name, p.EndsIn name ↔ p.components.getLast? = some (.name name)) ∧
    (∀ q : Path, q.components = p.components →
      hasExtension q extensions = hasExtension p extensions) ∧
    (∀ name, p.EndsIn (dot :: name) → dot ∉ name → hasExtension p extensions = false) ∧
    ∀ x, '.' ∈ x.toList ∨ '/' ∈ x.toList → hasExtension p [x] = false := by
  refine ⟨hasExtension_iff, fun name => getLast?_components_iff.symm, ?_, ?_, ?_⟩
  · intro q same
    simp only [hasExtension, extension?, same]
  · intro name ends plain
    exact hasExtension_of_dot_file ends plain
  · intro x special
    exact hasExtension_singleton special

/-- A path that is spelled in a roundabout way, with several dots in its last name. -/
theorem hasExtension_iff_endsIn_roundabout :
    EndsIn (ofText "./a//.b.tar.élm/.//") (ofText ".b.tar.élm") ∧
      hasExtension (ofText "a//.b.tar.élm/.//") ["elm", "élm"] ∧
      hasExtension (ofText "a/.élm/") ["elm", "élm"] = false ∧
      hasExtension (ofText "a/.b.tar.élm") ["tar.élm"] = false := by
  have long := hasExtension_iff_endsIn (ofText "./a//.b.tar.élm/.//") ["elm", "élm"]
  have hidden := hasExtension_iff_endsIn (ofText "a/.élm/") ["elm", "élm"]
  have short := hasExtension_iff_endsIn (ofText "a/.b.tar.élm") ["elm", "élm"]
  refine ⟨(long.2.1 _).mpr (by decide +kernel), ?_, ?_, short.2.2.2.2 _ (by decide +kernel)⟩
  · rw [short.2.2.1 (ofText "a//.b.tar.élm/.//") (by decide +kernel)]
    refine short.1.mpr ⟨ofText ".b.tar", ofText "élm", (short.2.1 _).mpr ?_, ?_, ?_, "élm", ?_, rfl⟩
      <;> decide +kernel
  · refine hidden.2.2.2.1 (ofText "élm") ((hidden.2.1 _).mpr ?_) ?_ <;> decide +kernel

end Scan

end Codemod
