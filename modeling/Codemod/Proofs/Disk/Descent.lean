import Codemod.Proofs.Disk.Revision
import Codemod.Proofs.Path.Descent

/-! Where paths below a folder lead. If a path leads to a folder, then the path extended by names
leads to what these names stand for in the folder, over the same links, unless it is too long. -/
namespace Codemod

namespace Folder

theorem entryAt_append {folder inner : Folder} {base : Location}
    (found : folder.entryAt base = some (.folder inner)) (location : Location) :
    folder.entryAt (base ++ location) = inner.entryAt location := by
  induction base generalizing folder with
  | nil =>
    simp only [entryAt, Option.some.injEq, Entry.folder.injEq] at found
    rw [found, List.nil_append]
  | cons name base ih =>
    simp only [entryAt] at found
    cases hit : folder.find? name with
    | none => simp [hit] at found
    | some entry =>
      cases entry with
      | folder entries =>
        simp only [hit] at found
        simpa [entryAt, hit] using ih found
      | file _ _ | link _ => by_cases last : base = [] <;> simp [hit, last] at found

theorem WellFormed.validName {folder : Folder} (sound : folder.WellFormed) {name : Bytes}
    (member : name ∈ folder.names) : ValidName name := by
  induction folder with
  | empty => simp [names] at member
  | file n content revision rest ih | link n target rest ih =>
    rcases List.mem_cons.mp member with rfl | later
    · exact sound.1
    · exact ih sound.2.2 later
  | sub n entries rest _ ih =>
    rcases List.mem_cons.mp member with rfl | later
    · exact sound.1
    · exact ih sound.2.2.2 later

/-- All names on the way to an entry are valid. -/
theorem WellFormed.validName_of_entryAt {folder : Folder} (sound : folder.WellFormed)
    {location : Location} {entry : Entry} (found : folder.entryAt location = some entry) :
    ∀ name ∈ location, ValidName name := by
  induction location generalizing folder with
  | nil => simp
  | cons first more ih =>
    simp only [entryAt] at found
    cases hit : folder.find? first with
    | none => simp [hit] at found
    | some standing =>
      have here := sound.validName (mem_names_of_find? hit)
      cases standing with
      | folder entries =>
        simp only [hit] at found
        simpa [here] using ih (sound.of_find? hit) found
      | file _ _ | link _ =>
        by_cases last : more = []
        · simpa [last] using here
        · simp [hit, last] at found

theorem WellFormed.isName_of_entryAt {folder : Folder} (sound : folder.WellFormed)
    {location : Location} {entry : Entry} (found : folder.entryAt location = some entry) :
    ∀ name ∈ location, Path.IsName name := fun name member =>
  (sound.validName_of_entryAt found name member).isName

theorem WellFormed.of_entryAt {folder inner : Folder} (sound : folder.WellFormed)
    {location : Location} (found : folder.entryAt location = some (.folder inner)) :
    inner.WellFormed := by
  induction location generalizing folder with
  | nil => simp only [entryAt, Option.some.injEq, Entry.folder.injEq] at found; exact found ▸ sound
  | cons first more ih =>
    simp only [entryAt] at found
    cases hit : folder.find? first with
    | none => simp [hit] at found
    | some standing =>
      cases standing with
      | folder entries => exact ih (sound.of_find? hit) (by simpa [hit] using found)
      | file _ _ | link _ => by_cases last : more = [] <;> simp [hit, last] at found

end Folder

namespace Disk

variable {root : Folder} {folder location : Location} {more names : List Bytes}

/-- Parts that end in a name can be appended to a way that leads to a folder or to a link: they are
walked from the folder on, or follow the link. -/
theorem advance_append (purpose : Purpose) (root : Folder) (folder : Location) (more : List Bytes)
    (further : names ≠ []) (named : names.getLast? ≠ some []) :
    (∀ location inner, advance .use root folder more = .arrived location →
      root.entryAt location = some (.folder inner) →
      advance purpose root folder (more ++ names) = advance purpose root location names) ∧
    (∀ location target rest, advance .use root folder more = .redirect location target rest →
      advance purpose root folder (more ++ names) = .redirect location target (rest ++ names)) := by
  induction more generalizing folder with
  | nil =>
    refine ⟨fun location inner way _ => ?_, by simp [advance]⟩
    obtain rfl := Stretch.arrived.inj way
    rfl
  | cons part more ih =>
    have not_final : more ++ names ≠ [[]] := by
      intro final
      have last := congrArg List.getLast? final
      rw [List.getLast?_append, List.getLast?_eq_some_getLast further] at last
      exact named ((List.getLast?_eq_some_getLast further).trans last)
    have not_last : more ++ names ≠ [] := by simp [further]
    by_cases skipped : part = [] ∨ part = [Path.dot]
    · simpa only [List.cons_append, advance, if_pos skipped] using ih folder
    by_cases upward : part = [Path.dot, Path.dot]
    · simpa only [List.cons_append, advance, if_neg skipped, if_pos upward] using ih folder.dropLast
    by_cases long : Folder.nameLimit < part.length
    · simp [advance, skipped, upward, long]
    simp only [List.cons_append, advance, if_neg skipped, if_neg upward, if_neg long, not_final,
      and_false, if_false, reduceCtorEq, false_and]
    cases standing : root.entryAt (folder ++ [part]) with
    | none => simp
    | some entry =>
      cases entry with
      | folder entries => exact ih (folder ++ [part])
      | link target =>
        refine ⟨by simp, fun location target' rest way => ?_⟩
        obtain ⟨rfl, rfl, rfl⟩ := Stretch.redirect.inj way
        rfl
      | file content revision =>
        by_cases last : more = []
        · simp only [last, if_true, Stretch.arrived.injEq, reduceCtorEq, false_implies,
            implies_true, and_true]
          rintro location inner rfl folderThere
          simp [standing] at folderThere
        · simp [last]

/-- A final slash does not change where a way leads. -/
theorem advance_of_final_slash (root : Folder) (folder : Location) (more : List Bytes) :
    (∀ location, advance .use root folder (more ++ [[]]) = .arrived location →
      advance .use root folder more = .arrived location) ∧
    (∀ location target rest,
      advance .use root folder (more ++ [[]]) = .redirect location target rest →
      ∃ front, rest = front ++ [[]] ∧
        advance .use root folder more = .redirect location target front) := by
  induction more generalizing folder with
  | nil => simp [advance]
  | cons part more ih =>
    by_cases skipped : part = [] ∨ part = [Path.dot]
    · simpa only [List.cons_append, advance, if_pos skipped] using ih folder
    by_cases upward : part = [Path.dot, Path.dot]
    · simpa only [List.cons_append, advance, if_neg skipped, if_pos upward] using ih folder.dropLast
    by_cases long : Folder.nameLimit < part.length
    · simp [advance, skipped, upward, long]
    simp only [List.cons_append, advance, if_neg skipped, if_neg upward, if_neg long,
      if_false, reduceCtorEq, false_and]
    cases standing : root.entryAt (folder ++ [part]) with
    | none => simp
    | some entry =>
      cases entry with
      | folder entries => exact ih (folder ++ [part])
      | link target =>
        refine ⟨by simp, fun location target' rest way => ?_⟩
        obtain ⟨rfl, rfl, rfl⟩ := Stretch.redirect.inj way
        exact ⟨more, rfl, rfl⟩
      | file content revision => simp

/-- Names that lead to a file below a folder are walked without a link. -/
theorem advance_names (purpose : Purpose) {inner : Folder} {content : Bytes} {revision : Nat}
    (standing : root.entryAt location = some (.folder inner))
    (found : inner.entryAt names = some (.file content revision))
    (valid : ∀ name ∈ names, Folder.ValidName name) :
    advance purpose root location names = .arrived (location ++ names) := by
  induction names generalizing location inner with
  | nil => simp [Folder.entryAt] at found
  | cons name names ih =>
    obtain ⟨some_name, not_dot, not_up, _, _, short⟩ := valid name (List.mem_cons_self ..)
    have later : ∀ n ∈ names, Folder.ValidName n := fun n member =>
      valid n (List.mem_cons_of_mem _ member)
    have not_final : names ≠ [[]] := by
      rintro rfl
      exact (later [] (List.mem_cons_self ..)).1 rfl
    have here := Folder.entryAt_append standing [name]
    simp only [advance, some_name, not_dot, or_self, if_false, not_up, not_final, and_false,
      Nat.not_lt.mpr short, here]
    simp only [Folder.entryAt] at found here ⊢
    cases hit : inner.find? name with
    | none => simp [hit] at found
    | some entry =>
      cases entry with
      | folder entries =>
        simp only [hit] at found here ⊢
        have below := ih here found later
        simpa [Folder.entryAt] using below
      | file content revision =>
        by_cases last : names = []
        · simp [last]
        · simp [hit, last] at found
      | link target => by_cases last : names = [] <;> simp [hit, last] at found

/-- The links on the way to a folder are also those on the way to a file below it. -/
theorem follow_append (purpose : Purpose) {budget : Nat} {place : Location} {inner : Folder}
    (way : follow .use root budget folder more = .ok (.entry location))
    (standing : root.entryAt location = some (.folder inner))
    (further : names ≠ []) (named : names.getLast? ≠ some [])
    (below : advance purpose root location names = .arrived place) :
    follow purpose root budget folder (more ++ names) = .ok (.entry place) := by
  induction budget generalizing folder more with
  | zero =>
    unfold follow at way ⊢
    cases stretch : advance .use root folder more with
    | arrived reached =>
      simp only [stretch, Except.ok.injEq, Landing.entry.injEq] at way
      subst way
      rw [(advance_append purpose root folder more further named).1 _ inner stretch standing, below]
    | vacant _ _ _ | refused _ | redirect _ _ _ => simp [stretch] at way
  | succ budget ih =>
    unfold follow at way ⊢
    cases stretch : advance .use root folder more with
    | arrived reached =>
      simp only [stretch, Except.ok.injEq, Landing.entry.injEq] at way
      subst way
      rw [(advance_append purpose root folder more further named).1 _ inner stretch standing, below]
    | redirect there target rest =>
      rw [(advance_append purpose root folder more further named).2 _ _ _ stretch]
      simp only [stretch] at way
      simpa using ih way
    | vacant _ _ _ | refused _ => simp [stretch] at way

theorem follow_of_final_slash {budget : Nat}
    (way : follow .use root budget folder (more ++ [[]]) = .ok (.entry location)) :
    follow .use root budget folder more = .ok (.entry location) := by
  induction budget generalizing folder more with
  | zero =>
    unfold follow at way ⊢
    cases stretch : advance .use root folder (more ++ [[]]) with
    | arrived reached =>
      simp only [stretch] at way
      rw [(advance_of_final_slash root folder more).1 _ stretch]
      exact way
    | vacant _ _ _ | refused _ | redirect _ _ _ => simp [stretch] at way
  | succ budget ih =>
    unfold follow at way ⊢
    cases stretch : advance .use root folder (more ++ [[]]) with
    | arrived reached =>
      simp only [stretch] at way
      rw [(advance_of_final_slash root folder more).1 _ stretch]
      exact way
    | redirect there target rest =>
      obtain ⟨front, rfl, shorter⟩ := (advance_of_final_slash root folder more).2 _ _ _ stretch
      simp only [stretch, ← List.append_assoc] at way
      simpa [shorter] using ih way
    | vacant _ _ _ | refused _ => simp [stretch] at way

variable {d : Disk} {p : Path}

/-- A path that leads anywhere is neither empty nor too long, and names the way. -/
theorem follow_of_locate (found : d.locate p = .ok location) :
    p ≠ [] ∧ 0 ∉ p ∧ p.length < pathLimit ∧
      follow .use d.root linkLimit (if p.isAbsolute then [] else d.current) p.steps =
        .ok (.entry location) := by
  unfold locate land at found
  by_cases zero : 0 ∈ p
  · simp [zero] at found
  by_cases empty : p = []
  · simp [empty] at found
  by_cases long : pathLimit ≤ p.length
  · simp [zero, empty, long] at found
  simp only [if_neg zero, if_neg empty, if_neg long] at found
  refine ⟨empty, zero, Nat.lt_of_not_le long, ?_⟩
  have way : follow .use d.root linkLimit (if p.isAbsolute then [] else d.current) (parts p) =
      .ok (.entry location) := by
    split at found <;> simp_all
  rcases p.parts_eq with same | final
  · rwa [same] at way
  · rw [final] at way
    exact follow_of_final_slash way

/-- Below a path that leads to a folder, the names of a file lead to the file, for reading and for
writing alike, as long as the whole path is short enough. -/
theorem land_descend (purpose : Purpose) (sound : d.root.WellFormed) {inner : Folder}
    {content : Bytes} {revision : Nat} (found : d.locate p = .ok location)
    (standing : d.root.entryAt location = some (.folder inner))
    (file : inner.entryAt names = some (.file content revision)) :
    d.land purpose (p.descend names) =
      if pathLimit ≤ (p.descend names).length then .error .nameTooLong
      else .ok (.entry (location ++ names)) := by
  obtain ⟨some_path, clean, _, way⟩ := follow_of_locate found
  have valid := (sound.of_entryAt standing).validName_of_entryAt file
  have further : names ≠ [] := by rintro rfl; simp [Folder.entryAt] at file
  have named : names.getLast? ≠ some [] := fun last =>
    (valid [] (List.mem_of_getLast? last)).1 rfl
  have below := advance_names purpose standing file valid
  have whole := follow_append purpose way standing further named below
  have isNames := fun n member => (valid n member).isName
  simp only [land, Path.zero_mem_descend some_path valid, clean, if_false,
    Path.descend_ne_nil some_path isNames, Path.isAbsolute_descend some_path isNames,
    Path.parts_descend some_path isNames further, whole]

end Disk

end Codemod
