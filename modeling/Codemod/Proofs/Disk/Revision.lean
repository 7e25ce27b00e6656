import Codemod.Disk.Access

/-! Changing what files hold and nothing else. A revision keeps every name, link and folder, so
paths lead where they led before. Writing a file that is there is a revision at its location. -/
namespace Codemod

/-- What a file holds, and how often it has been opened for writing. -/
structure Leaf where
  content : Bytes
  revision : Nat
deriving DecidableEq, Repr

namespace Folder

/-- The folder at `here` with other things in its files, for each by its location and by what it
held. -/
def revise (f : Location → Leaf → Leaf) (here : Location) : Folder → Folder
  | .empty => .empty
  | .file name content revision rest =>
    .file name (f (here ++ [name]) ⟨content, revision⟩).content
      (f (here ++ [name]) ⟨content, revision⟩).revision (revise f here rest)
  | .link name target rest => .link name target (revise f here rest)
  | .sub name entries rest => .sub name (revise f (here ++ [name]) entries) (revise f here rest)

end Folder

def Entry.revise (f : Location → Leaf → Leaf) (here : Location) : Entry → Entry
  | .file content revision =>
    .file (f here ⟨content, revision⟩).content (f here ⟨content, revision⟩).revision
  | .link target => .link target
  | .folder entries => .folder (entries.revise f here)

namespace Folder

variable {f g : Location → Leaf → Leaf} {here : Location}

@[simp] theorem names_revise (folder : Folder) : (folder.revise f here).names = folder.names := by
  induction folder generalizing here <;> simp [revise, names, *]

theorem WellFormed.revise {folder : Folder} (sound : folder.WellFormed) :
    (folder.revise f here).WellFormed := by
  induction folder generalizing here with
  | empty => trivial
  | file name content revision rest ih | link name target rest ih =>
    obtain ⟨valid, least, more⟩ := sound
    exact ⟨valid, by simpa using least, ih more⟩
  | sub name entries rest inner ih =>
    obtain ⟨valid, least, below, more⟩ := sound
    exact ⟨valid, by simpa using least, inner below, ih more⟩

theorem WellFormed.of_find? {folder entries : Folder} (sound : folder.WellFormed) {name : Bytes}
    (found : folder.find? name = some (.folder entries)) : entries.WellFormed := by
  induction folder with
  | empty => simp [find?] at found
  | file n content revision rest ih | link n target rest ih =>
    by_cases same : n = name
    · simp [find?, same] at found
    · exact ih sound.2.2 (by simpa [find?, same] using found)
  | sub n inner rest _ ih =>
    by_cases same : n = name
    · simp only [find?, if_pos same, Option.some.injEq, Entry.folder.injEq] at found
      exact found ▸ sound.2.2.1
    · exact ih sound.2.2.2 (by simpa [find?, same] using found)

theorem find?_revise (folder : Folder) (name : Bytes) :
    (folder.revise f here).find? name =
      (folder.find? name).map (Entry.revise f (here ++ [name])) := by
  induction folder with
  | empty => rfl
  | file n content revision rest ih | link n target rest ih =>
    by_cases same : n = name
    · subst same; simp [Folder.revise, find?, Entry.revise]
    · simp [Folder.revise, find?, same, ih]
  | sub n entries rest _ ih =>
    by_cases same : n = name
    · subst same; simp [Folder.revise, find?, Entry.revise]
    · simp [Folder.revise, find?, same, ih]

theorem entryAt_revise (folder : Folder) (location : Location) :
    (folder.revise f here).entryAt location =
      (folder.entryAt location).map (Entry.revise f (here ++ location)) := by
  induction location generalizing folder here with
  | nil => simp [entryAt, Entry.revise]
  | cons name more ih =>
    simp only [entryAt, find?_revise]
    cases folder.find? name with
    | none => rfl
    | some entry =>
      cases entry with
      | folder entries => simpa [Entry.revise] using @ih (here ++ [name]) entries
      | file content revision | link target =>
        by_cases last : more = [] <;> simp [Entry.revise, last]

theorem revise_revise (folder : Folder) :
    (folder.revise f here).revise g here =
      folder.revise (fun location leaf => g location (f location leaf)) here := by
  induction folder generalizing here with
  | empty => rfl
  | file name content revision rest ih | link name target rest ih => simp [Folder.revise, ih]
  | sub name entries rest inner ih => simp [Folder.revise, inner, ih]

theorem mem_names_of_find? {folder : Folder} {name : Bytes} {entry : Entry}
    (found : folder.find? name = some entry) : name ∈ folder.names := by
  induction folder with
  | empty => simp [find?] at found
  | file n content revision rest ih | link n target rest ih =>
    by_cases same : n = name
    · simp [names, same]
    · simp only [find?, if_neg same] at found
      simp [names, ih found]
  | sub n entries rest _ ih =>
    by_cases same : n = name
    · simp [names, same]
    · simp only [find?, if_neg same] at found
      simp [names, ih found]

/-- What stands below the later entries of a folder is not hidden by the first. -/
theorem entryAt_cons_of_least {rest : Folder} {first : Bytes} (entry : Entry)
    (least : ∀ n ∈ rest.names, first < n) {name : Bytes} {more : Location} {standing : Entry}
    (found : rest.entryAt (name :: more) = some standing) :
    (cons first entry rest).entryAt (name :: more) = some standing := by
  cases hit : rest.find? name with
  | none => simp [entryAt, hit] at found
  | some later =>
    have apart : first ≠ name := Std.ne_of_lt (least name (mem_names_of_find? hit))
    simpa [entryAt, find?_cons_other entry rest apart, hit] using found

/-- What stands in a folder is its first entry, or stands below that, or among the others. -/
theorem entryAt_cons_cases {rest : Folder} {first name : Bytes} {more : Location} {standing : Entry}
    (entry : Entry) (found : (cons first entry rest).entryAt (name :: more) = some standing) :
    (first = name ∧ more = [] ∧ standing = entry) ∨
    (first = name ∧ more ≠ [] ∧ ∃ entries, entry = .folder entries ∧
      entries.entryAt more = some standing) ∨
    rest.entryAt (name :: more) = some standing := by
  by_cases same : first = name
  · subst same
    by_cases last : more = []
    · refine Or.inl ⟨rfl, last, ?_⟩
      cases entry <;> simpa [entryAt, last] using found.symm
    · refine Or.inr (Or.inl ⟨rfl, last, ?_⟩)
      cases entry with
      | folder entries => exact ⟨entries, rfl, by simpa [entryAt] using found⟩
      | file _ _ | link _ => simp [entryAt, last] at found
  · exact Or.inr (Or.inr (by simpa [entryAt, find?_cons_other entry rest same] using found))

theorem entryAt_cons_of_rest {rest : Folder} {first : Bytes} (entry : Entry)
    (least : ∀ n ∈ rest.names, first < n) {location : Location} {content : Bytes} {revision : Nat}
    (found : rest.entryAt location = some (.file content revision)) :
    (cons first entry rest).entryAt location = some (.file content revision) := by
  cases location with
  | nil => simp [entryAt] at found
  | cons name more => exact entryAt_cons_of_least entry least found

/-- Revisions that agree on the files that are there give the same folder. -/
theorem revise_congr {folder : Folder} (sound : folder.WellFormed)
    (agree : ∀ location content revision,
      folder.entryAt location = some (.file content revision) →
        f (here ++ location) ⟨content, revision⟩ = g (here ++ location) ⟨content, revision⟩) :
    folder.revise f here = folder.revise g here := by
  induction folder generalizing here with
  | empty => rfl
  | file name content revision rest ih =>
    obtain ⟨_, least, more⟩ := sound
    have first := agree [name] content revision (by simp [entryAt, find?])
    have others : rest.revise f here = rest.revise g here := ih more fun location c r found =>
      agree location c r (entryAt_cons_of_rest (.file content revision) least found)
    simp [Folder.revise, first, others]
  | link name target rest ih =>
    obtain ⟨_, least, more⟩ := sound
    have others : rest.revise f here = rest.revise g here := ih more fun location c r found =>
      agree location c r (entryAt_cons_of_rest (.link target) least found)
    simp [Folder.revise, others]
  | sub name entries rest inner ih =>
    obtain ⟨_, least, below, more⟩ := sound
    have first : entries.revise f (here ++ [name]) = entries.revise g (here ++ [name]) := by
      refine inner below fun location c r found => ?_
      simpa using agree (name :: location) c r (by simpa [entryAt, find?] using found)
    have others : rest.revise f here = rest.revise g here := ih more fun location c r found =>
      agree location c r (entryAt_cons_of_rest (.folder entries) least found)
    simp [Folder.revise, first, others]

theorem revise_id (folder : Folder) : folder.revise (fun _ leaf => leaf) here = folder := by
  induction folder generalizing here <;> simp [Folder.revise, *]

/-- A revision that leaves alone the files that are there changes nothing. -/
theorem revise_eq_self {folder : Folder} (sound : folder.WellFormed)
    (same : ∀ location content revision,
      folder.entryAt location = some (.file content revision) →
        f (here ++ location) ⟨content, revision⟩ = ⟨content, revision⟩) :
    folder.revise f here = folder :=
  (revise_congr sound same).trans (revise_id folder)

/-- Below one entry, a revision that concerns this entry only puts the revised entry in its
place. -/
theorem put_revise {folder : Folder} (sound : folder.WellFormed) {name : Bytes} {entry : Entry}
    (found : folder.find? name = some entry)
    (apart : ∀ location leaf, ¬here ++ [name] <+: location → f location leaf = leaf) :
    folder.put name (entry.revise f (here ++ [name])) = folder.revise f here := by
  have away {other : Bytes} (different : other ≠ name) (more : Location) :
      ¬here ++ [name] <+: here ++ other :: more := by
    simp [List.prefix_append_right_inj, Ne.symm different]
  have rest_same {rest : Folder} (below : rest.WellFormed) (least : ∀ n ∈ rest.names, name < n) :
      rest.revise f here = rest := by
    apply revise_eq_self below
    intro location content revision standing
    cases location with
    | nil => simp [entryAt] at standing
    | cons other more =>
      cases hit : rest.find? other with
      | none => simp [entryAt, hit] at standing
      | some later =>
        exact apart _ _ (away (Std.ne_of_lt (least other (mem_names_of_find? hit))).symm more)
  induction folder with
  | empty => simp [find?] at found
  | file n content revision rest ih | link n target rest ih =>
    obtain ⟨_, least, below⟩ := sound
    by_cases same : n = name
    · subst same
      simp only [find?, if_pos, Option.some.injEq] at found
      subst found
      simp [put, cons, Entry.revise, Folder.revise, rest_same below least]
    · simp only [find?, if_neg same] at found
      have later : ¬name < n := List.lt_asymm (least name (mem_names_of_find? found))
      simp [put, same, later, Folder.revise, ih below found, apart _ _ (away same [])]
  | sub n entries rest inner ih =>
    obtain ⟨_, least, inside, below⟩ := sound
    by_cases same : n = name
    · subst same
      simp only [find?, if_pos, Option.some.injEq] at found
      subst found
      simp [put, cons, Entry.revise, Folder.revise, rest_same below least]
    · simp only [find?, if_neg same] at found
      have later : ¬name < n := List.lt_asymm (least name (mem_names_of_find? found))
      have entries_same : entries.revise f (here ++ [n]) = entries :=
        revise_eq_self inside fun location c r _ => apart _ _ (by simpa using away same location)
      simp [put, same, later, Folder.revise, ih below found, entries_same]

/-- Changing the folder that a file stands in is a revision if only the file is changed. -/
theorem changeAt_put_revise {folder : Folder} (sound : folder.WellFormed) {inside : Location}
    {name content : Bytes} {revision : Nat}
    (found : folder.entryAt (inside ++ [name]) = some (.file content revision))
    (apart : ∀ location leaf, location ≠ here ++ (inside ++ [name]) → f location leaf = leaf) :
    changeAt (·.put name (Entry.revise f (here ++ (inside ++ [name])) (.file content revision)))
      inside folder = folder.revise f here := by
  induction inside generalizing folder here with
  | nil =>
    have entry : folder.find? name = some (.file content revision) := by
      cases hit : folder.find? name with
      | none => simp [entryAt, hit] at found
      | some entry => cases entry <;> simp_all [entryAt]
    refine put_revise sound entry fun location leaf outside => apart location leaf ?_
    rintro rfl
    exact outside (List.prefix_refl _)
  | cons first inside ih =>
    cases hit : folder.find? first with
    | none => simp [entryAt, hit] at found
    | some entry =>
      cases entry with
      | file _ _ | link _ => simp [entryAt, hit] at found
      | folder entries =>
        have below := @ih (here ++ [first]) entries (sound.of_find? hit)
          (by simpa [entryAt, hit] using found)
          fun location leaf other => apart location leaf (by simpa using other)
        simp only [List.append_assoc, List.singleton_append] at below
        simp only [changeAt, hit, List.cons_append, below]
        refine put_revise sound hit fun location leaf outside => apart location leaf ?_
        rintro rfl
        exact outside (by simp)

end Folder

namespace Disk

def revise (f : Location → Leaf → Leaf) (d : Disk) : Disk := { d with root := d.root.revise f [] }

theorem writeAt_eq_revise {d : Disk} (sound : d.root.WellFormed) {location : Location}
    {content updated : Bytes} {revision : Nat}
    (found : d.root.entryAt location = some (.file content revision))
    {f : Location → Leaf → Leaf} (here : f location ⟨content, revision⟩ = ⟨updated, revision + 1⟩)
    (apart : ∀ other leaf, other ≠ location → f other leaf = leaf) :
    d.writeAt location updated = .ok (d.revise f) := by
  rcases List.eq_nil_or_concat location with rfl | ⟨inside, name, rfl⟩
  · simp [Folder.entryAt] at found
  · rw [List.concat_eq_append] at found here apart ⊢
    have changed := @Folder.changeAt_put_revise f [] _ sound _ _ _ _ found
      (by simpa using apart)
    simp only [List.nil_append, Entry.revise, here] at changed
    simp [writeAt, found, change, revise, changed]

variable {f g : Location → Leaf → Leaf}

theorem entryAt_revise (d : Disk) (location : Location) :
    (d.revise f).root.entryAt location =
      (d.root.entryAt location).map (Entry.revise f location) := by
  simp [revise, Folder.entryAt_revise]

@[simp] theorem advance_revise (purpose : Purpose) (root : Folder) (folder : Location)
    (more : List Bytes) :
    advance purpose (root.revise f []) folder more = advance purpose root folder more := by
  induction more generalizing folder with
  | nil => rfl
  | cons part more ih =>
    simp only [advance, ih, Folder.entryAt_revise]
    rcases root.entryAt (folder ++ [part]) with _ | (_ | _ | _) <;> rfl

@[simp] theorem follow_revise (purpose : Purpose) (root : Folder) (budget : Nat)
    (folder : Location) (more : List Bytes) :
    follow purpose (root.revise f []) budget folder more =
      follow purpose root budget folder more := by
  induction budget generalizing folder more with
  | zero => unfold follow; rw [advance_revise]
  | succ budget ih => unfold follow; simp only [advance_revise, ih]

/-- A revision does not change where paths lead. -/
@[simp] theorem land_revise (purpose : Purpose) (d : Disk) (p : Path) :
    (d.revise f).land purpose p = d.land purpose p := by
  simp [land, revise]

@[simp] theorem locate_revise (d : Disk) (p : Path) : (d.revise f).locate p = d.locate p := by
  simp [locate]

theorem entry_of_locate {d : Disk} {p : Path} {location : Location}
    (found : d.locate p = .ok location) :
    d.entry p = match d.root.entryAt location with
      | some entry => .ok entry
      | none => .error .absent := by
  simp only [entry, found, bind, Except.bind]
  cases d.root.entryAt location <;> rfl

theorem entry_of_locate_error {d : Disk} {p : Path} {cause : Refusal}
    (lost : d.locate p = .error cause) : d.entry p = .error cause := by
  simp [entry, lost, bind, Except.bind]

theorem exists_location_of_folder? {d : Disk} {p : Path} {folder : Folder}
    (there : d.folder? p = some folder) :
    ∃ location, d.locate p = .ok location ∧
      d.root.entryAt location = some (.folder folder) := by
  cases found : d.locate p with
  | error cause => simp [folder?, entry_of_locate_error found] at there
  | ok location =>
    refine ⟨location, rfl, ?_⟩
    rw [folder?, entry_of_locate found] at there
    rcases standing : d.root.entryAt location with _ | (_ | _ | _) <;> simp_all

/-- A path that leads to a folder leads to the revised folder. -/
theorem folder?_revise (d : Disk) (p : Path) :
    ∃ here, (d.revise f).folder? p = (d.folder? p).map (Folder.revise f here) := by
  cases found : d.locate p with
  | error cause =>
    exact ⟨[], by simp [folder?, entry_of_locate_error found,
      entry_of_locate_error ((locate_revise d p).trans found)]⟩
  | ok location =>
    refine ⟨location, ?_⟩
    simp only [folder?, entry_of_locate found,
      entry_of_locate ((locate_revise d p).trans found), entryAt_revise]
    rcases d.root.entryAt location with _ | (_ | _ | _) <;> rfl

theorem revise_eq_self {d : Disk} (sound : d.root.WellFormed)
    (same : ∀ location content revision,
      d.root.entryAt location = some (.file content revision) →
        f location ⟨content, revision⟩ = ⟨content, revision⟩) : d.revise f = d := by
  rw [revise, Folder.revise_eq_self sound (by simpa using same)]

theorem revise_id (d : Disk) : d.revise (fun _ leaf => leaf) = d := by
  rw [revise, Folder.revise_id]

theorem revise_revise (d : Disk) :
    (d.revise f).revise g = d.revise fun location leaf => g location (f location leaf) := by
  simp [revise, Folder.revise_revise]

end Disk

end Codemod
