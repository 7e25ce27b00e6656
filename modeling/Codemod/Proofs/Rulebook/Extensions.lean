import Codemod.Proofs.Data.Decode
import Codemod.Proofs.Text.Trim
import Codemod.Rulebook.Data
import Mathlib.Data.String.Basic

/-! Extensions that are normalized again. A stored extension begins with no dot and ends in no white
space, but it may begin with the white space that stood behind its dots. Then it has another normal
form, so that a rulebook which is stored and read again is not what it was. -/
namespace Codemod

namespace Rulebook

open Text

variable {rules : List Rule} {extensions : List String} {book : Rulebook} {x y : String}

theorem toList_normalExtension (x : String) :
    (normalExtension x).toList = (trim x.toList).dropWhile (· == '.') :=
  String.toList_ofList

theorem head_normalExtension {c : Char} (first : (normalExtension x).toList.head? = some c) :
    c ≠ '.' := by
  have stays := List.head?_dropWhile_not (· == '.') (trim x.toList)
  rw [← toList_normalExtension, first] at stays
  simpa using stays

theorem last_normalExtension {c : Char} (last : (normalExtension x).toList.getLast? = some c) :
    isBlank c = false := by
  obtain ⟨dots, split⟩ := List.dropWhile_suffix (l := trim x.toList) (· == '.')
  rw [toList_normalExtension] at last
  have trimmed : (trim x.toList).getLast? = some c := by
    rw [← split, List.getLast?_append, last, Option.some_or]
  exact getLast?_trim trimmed

theorem length_normalExtension_le (x : String) : (normalExtension x).length ≤ x.length := by
  rw [← String.length_toList, toList_normalExtension, ← String.length_toList]
  exact (List.length_dropWhile_le _ _).trans (length_trim_le x.toList)

theorem length_normalExtension_lt {c : Char} (first : x.toList.head? = some c)
    (blank : isBlank c = true) : (normalExtension x).length < x.length := by
  rw [← String.length_toList, toList_normalExtension, ← String.length_toList]
  obtain ⟨rest, split⟩ := List.head?_eq_some_iff.mp first
  rw [split]
  exact (List.length_dropWhile_le _ _).trans_lt (length_trim_lt rest blank)

theorem dropWhile_dots {cs : List Char} (undotted : cs.head? ≠ some '.') :
    cs.dropWhile (· == '.') = cs := by
  cases cs with
  | nil => rfl
  | cons c rest => exact List.dropWhile_cons_of_neg (by simpa using undotted)

/-- Normalizing a normal form again only takes the white space in front of it. -/
theorem normalExtension_of_front (normal : normalExtension y = x)
    (front : ∀ c, x.toList.head? = some c → isBlank c = false) : normalExtension x = x := by
  subst normal
  have bare : Bare (normalExtension y).toList := by
    rintro c (first | last)
    · exact front c first
    · exact last_normalExtension last
  apply String.toList_injective
  rw [toList_normalExtension, trim_of_bare bare]
  exact dropWhile_dots fun first => head_normalExtension first rfl

theorem mem_insertOnce {xs : List String} : y ∈ insertOnce x xs ↔ y = x ∨ y ∈ xs := by
  induction xs with
  | nil => simp [insertOnce]
  | cons z xs ih =>
    rw [insertOnce]
    split
    · rename_i same
      simp [same]
    · split
      · simp
      · simp only [List.mem_cons, ih]
        tauto

theorem pairwise_insertOnce {xs : List String} (increasing : xs.Pairwise (· < ·)) :
    (insertOnce x xs).Pairwise (· < ·) := by
  induction xs with
  | nil => simp [insertOnce]
  | cons z xs ih =>
    obtain ⟨below, later⟩ := List.pairwise_cons.mp increasing
    rw [insertOnce]
    split
    · exact increasing
    · rename_i apart
      split
      · rename_i before
        refine List.pairwise_cons.mpr ⟨fun y member => ?_, increasing⟩
        rcases List.mem_cons.mp member with rfl | member
        · exact before
        · exact before.trans (below y member)
      · rename_i behind
        refine List.pairwise_cons.mpr ⟨fun y member => ?_, ih later⟩
        rcases mem_insertOnce.mp member with rfl | member
        · exact lt_of_le_of_ne (not_lt.mp behind) (Ne.symm apart)
        · exact below y member

theorem pairwise_foldr_insertOnce (xs : List String) :
    (xs.foldr insertOnce []).Pairwise (· < ·) := by
  induction xs with
  | nil => exact .nil
  | cons x xs ih => exact pairwise_insertOnce ih

theorem foldr_insertOnce_of_pairwise {xs : List String} (increasing : xs.Pairwise (· < ·)) :
    xs.foldr insertOnce [] = xs := by
  induction xs with
  | nil => rfl
  | cons x xs ih =>
    obtain ⟨below, later⟩ := List.pairwise_cons.mp increasing
    rw [List.foldr_cons, ih later]
    cases xs with
    | nil => rfl
    | cons z xs =>
      have before := below z List.mem_cons_self
      rw [insertOnce, if_neg before.ne, if_pos before]

theorem mem_foldr_insertOnce {xs : List String} : y ∈ xs.foldr insertOnce [] ↔ y ∈ xs := by
  induction xs with
  | nil => rfl
  | cons x xs ih => rw [List.foldr_cons, mem_insertOnce, ih, List.mem_cons]

theorem mem_normalExtensions : y ∈ normalExtensions extensions ↔
    (∃ x ∈ extensions, normalExtension x = y) ∧ y ≠ "" := by
  simp [normalExtensions, mem_foldr_insertOnce]

/-- How many characters some texts have together. -/
def size : List String → Nat
  | [] => 0
  | x :: xs => x.length + size xs

theorem size_insertOnce_le (x : String) (xs : List String) :
    size (insertOnce x xs) ≤ size (x :: xs) := by
  induction xs with
  | nil => exact Nat.le_refl _
  | cons z xs ih =>
    rw [insertOnce]
    split
    · exact Nat.le_add_left _ _
    · split
      · exact Nat.le_refl _
      · simp only [size] at ih ⊢
        omega

theorem size_foldr_insertOnce_le (xs : List String) : size (xs.foldr insertOnce []) ≤ size xs := by
  induction xs with
  | nil => exact Nat.le_refl _
  | cons x xs ih =>
    have here := size_insertOnce_le x (xs.foldr insertOnce [])
    simp only [List.foldr_cons, size] at here ⊢
    omega

theorem size_filter_le (p : String → Bool) (xs : List String) : size (xs.filter p) ≤ size xs := by
  induction xs with
  | nil => exact Nat.le_refl _
  | cons x xs ih =>
    rw [List.filter_cons]
    split
    · exact Nat.add_le_add_left ih x.length
    · exact Nat.le_trans ih (Nat.le_add_left _ _)

theorem size_map_normalExtension_le (xs : List String) :
    size (xs.map normalExtension) ≤ size xs := by
  induction xs with
  | nil => exact Nat.le_refl _
  | cons x xs ih => exact Nat.add_le_add (length_normalExtension_le x) ih

/-- Normalizing an extension with white space in front makes the texts shorter. -/
theorem size_map_normalExtension_lt {xs : List String} {c : Char} (member : x ∈ xs)
    (first : x.toList.head? = some c) (blank : isBlank c = true) :
    size (xs.map normalExtension) < size xs := by
  induction xs with
  | nil => cases member
  | cons y xs ih =>
    rcases List.mem_cons.mp member with rfl | later
    · exact Nat.add_lt_add_of_lt_of_le (length_normalExtension_lt first blank)
        (size_map_normalExtension_le xs)
    · exact Nat.add_lt_add_of_le_of_lt (length_normalExtension_le y) (ih later)

theorem size_normalExtensions_lt {c : Char} (member : x ∈ extensions)
    (first : x.toList.head? = some c) (blank : isBlank c = true) :
    size (normalExtensions extensions) < size extensions :=
  calc size (normalExtensions extensions)
    _ ≤ size ((extensions.map normalExtension).filter (· != "")) := size_foldr_insertOnce_le _
    _ ≤ size (extensions.map normalExtension) := size_filter_le _ _
    _ < size extensions := size_map_normalExtension_lt member first blank

theorem of_build (built : build rules extensions = .ok book) :
    rules.findIdx? (fun r => !r.isValid) = none ∧ book.rules = rules ∧
      book.extensions = normalExtensions extensions ∧ normalExtensions extensions ≠ [] := by
  rw [build] at built
  split at built
  · cases built
  · rename_i valid
    split at built
    · cases built
    · rename_i first more normal
      cases built
      exact ⟨valid, rfl, normal.symm, by simp [normal]⟩

theorem withExtensions_eq_iff (built : build rules extensions = .ok book)
    (others : List String) :
    book.withExtensions others = .ok book ↔ normalExtensions others = book.extensions := by
  obtain ⟨valid, rules_eq, normal, some_left⟩ := of_build built
  constructor
  · intro again
    exact (of_build again).2.2.1.symm
  · intro same
    rw [withExtensions, build, rules_eq, valid]
    rcases split : book.extensions with _ | ⟨first, more⟩
    · exact absurd (normal.symm.trans split) some_left
    · simp only [same, split]
      rw [← rules_eq, ← split]

theorem normalExtensions_eq_iff (built : build rules extensions = .ok book) :
    normalExtensions book.extensions = book.extensions ↔
      ∀ x ∈ book.extensions, ∀ c, x.toList.head? = some c → isBlank c = false := by
  obtain ⟨_, _, normal, _⟩ := of_build built
  constructor
  · intro same x member c first
    by_contra blank
    have shorter := size_normalExtensions_lt member first (by simpa using blank)
    rw [same] at shorter
    exact Nat.lt_irrefl _ shorter
  · intro fronts
    have stored : ∀ x ∈ book.extensions, normalExtension x = x ∧ x ≠ "" := by
      intro x member
      obtain ⟨⟨y, _, formed⟩, nonempty⟩ := mem_normalExtensions.mp (normal ▸ member)
      exact ⟨normalExtension_of_front formed (fronts x member), nonempty⟩
    have mapped : book.extensions.map normalExtension = book.extensions :=
      (List.map_congr_left fun x member => (stored x member).1).trans (List.map_id' _)
    have kept : book.extensions.filter (· != "") = book.extensions :=
      List.filter_eq_self.mpr fun x member => by simpa using (stored x member).2
    have increasing : book.extensions.Pairwise (· < ·) := by
      rw [normal]
      exact pairwise_foldr_insertOnce _
    rw [normalExtensions, mapped, kept, foldr_insertOnce_of_pairwise increasing]

theorem ofData?_toData (book : Rulebook) :
    ofData? book.toData = some (book.withExtensions book.extensions) := by
  have rules : Data.each? Rule.ofData? (.list (book.rules.map Rule.toData)) = some book.rules :=
    Data.each?_map Rule.toData (fun _ => rfl) book.rules
  have extensions := Data.each?_texts book.extensions
  simp [ofData?, toData, Data.slots, List.lookup_cons, Data.Slot.required, rules, extensions,
    withExtensions]

/-- A rulebook that is read from its data is normalized once more. It is what it was if and only if
no extension has white space in front. -/
theorem reread_iff (built : build rules extensions = .ok book) :
    ofData? book.toData = some (book.withExtensions book.extensions) ∧
    (book.withExtensions book.extensions = .ok book ↔
      ∀ x ∈ book.extensions, ∀ c, x.toList.head? = some c → isBlank c = false) :=
  ⟨ofData?_toData book,
    (withExtensions_eq_iff built book.extensions).trans (normalExtensions_eq_iff built)⟩

theorem reread_dotted :
    ∃ book, build [⟨"a", "b"⟩] [" .md", "elm"] = .ok book ∧
      ofData? book.toData = some (.ok book) := by
  have built : build [⟨"a", "b"⟩] [" .md", "elm"] = .ok ⟨[⟨"a", "b"⟩], ["elm", "md"]⟩ := by
    decide +kernel
  have unblank : (["elm", "md"].all fun x => !x.toList.head?.any isBlank) = true := by
    decide +kernel
  obtain ⟨reread, same⟩ := reread_iff built
  refine ⟨_, built, reread.trans (congrArg some (same.mpr fun x member c first => ?_))⟩
  simpa [first] using List.all_eq_true.mp unblank x member

/-- White space behind a dot comes to the front, and is gone when the rulebook is read again. -/
theorem reread_blank :
    ∃ book, build [⟨"a", "b"⟩] [". elm"] = .ok book ∧ ofData? book.toData ≠ some (.ok book) ∧
      book.withExtensions book.extensions ≠ .ok book :=
  ⟨⟨[⟨"a", "b"⟩], [" elm"]⟩, by decide +kernel⟩

end Rulebook

end Codemod
