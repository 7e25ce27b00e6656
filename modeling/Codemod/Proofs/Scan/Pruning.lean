import Codemod.Proofs.Scan.Exclusion
import Codemod.Proofs.Scan.Walk

/-! What a walk finds, as a test of each file alone. The walk does not look into a folder that is
left out, and misses nothing by it, since everything below such a folder is left out as well. It
fails only at a folder that it has to open. -/
namespace Codemod

def Entry.isFolder : Entry → Bool
  | .folder _ => true
  | .file .. | .link _ => false

namespace Scan.Search

variable {s : Search} {path p : Path} {folder rest entries : Folder} {name content : Bytes}
  {names above : List Bytes} {files files' : List Path} {revision : Nat}

/-- Every folder below a path, unless it is left out, has a path short enough to be opened. -/
def Opens (s : Search) (path : Path) (folder : Folder) : Prop :=
  ∀ name names entries, folder.entryAt (name :: names) = some (.folder entries) →
    s.excludes (path.descend (name :: names)) true = false →
      (path.descend (name :: names)).length < Disk.pathLimit

theorem Opens.of_cons (entry : Entry) (opens : s.Opens path (.cons name entry rest))
    (least : ∀ n ∈ rest.names, name < n) : s.Opens path rest :=
  fun first names entries found => opens first names entries
    (Folder.entryAt_cons_of_least entry least found)

theorem Opens.of_sub (opens : s.Opens path (.sub name entries rest)) :
    s.Opens (path.join name) entries :=
  fun first names inner found => opens name (first :: names) inner
    (by simpa [Folder.entryAt, Folder.find?] using found)

theorem exists_below_of_opens (sound : folder.WellFormed) (opens : s.Opens path folder) :
    ∃ files, s.below path folder = .ok files := by
  induction folder generalizing path with
  | empty => exact ⟨[], rfl⟩
  | file name content revision rest ih =>
    obtain ⟨_, least, later⟩ := sound
    obtain ⟨more, walked⟩ := ih later (Opens.of_cons (.file content revision) opens least)
    exact ⟨_, by simp only [below, walked]; rfl⟩
  | link name target rest ih =>
    obtain ⟨_, least, later⟩ := sound
    exact ih later (Opens.of_cons (.link target) opens least)
  | sub name entries rest inner ih =>
    obtain ⟨_, least, inside, later⟩ := sound
    obtain ⟨more, walked⟩ := ih later (Opens.of_cons (.folder entries) opens least)
    by_cases excluded : s.excludes (path.join name) true
    · exact ⟨more, by simp only [below, excluded, if_true, walked]⟩
    · have short : ¬Disk.pathLimit ≤ (path.join name).length :=
        Nat.not_le.mpr (opens name [] entries (by simp [Folder.entryAt, Folder.find?])
          (by simpa using excluded))
      obtain ⟨first, walked'⟩ := inner inside opens.of_sub
      exact ⟨first ++ more, by
        simp only [below, if_neg excluded, if_neg short, walked, walked']
        rfl⟩

theorem descend_concat (s : Search) (above : List Bytes) (name : Bytes) :
    s.root.descend (above ++ [name]) = (s.root.descend above).join name := by
  rw [Path.descend_append, Path.descend_cons, Path.descend_nil]

/-- What a walk has done where an entry stands that is not left out: it has opened a folder, and
listed a file with a right extension. -/
def Seen (s : Search) (files : List Path) (p : Path) : Entry → Prop
  | .folder _ => p.length < Disk.pathLimit
  | .file .. => hasExtension p s.extensions → p ∈ files
  | .link _ => True

theorem Seen.mono {entry : Entry} (seen : s.Seen files p entry) (more : files ⊆ files') :
    s.Seen files' p entry := by
  cases entry with
  | folder _ => exact seen
  | file _ _ => exact fun right => more (seen right)
  | link _ => trivial

/-- A walk below the root comes by every entry that is not left out. -/
theorem seen_of_below (named : ∀ n ∈ above, Path.IsName n) (sound : folder.WellFormed)
    (walked : s.below (s.root.descend above) folder = .ok files) {standing : Entry}
    (found : folder.entryAt (name :: names) = some standing)
    (kept : s.excludes ((s.root.descend above).descend (name :: names)) standing.isFolder = false) :
    s.Seen files ((s.root.descend above).descend (name :: names)) standing := by
  induction folder generalizing above name names files with
  | empty => simp [Folder.entryAt, Folder.find?] at found
  | file n content revision rest ih =>
    obtain ⟨more, walkedRest, rfl⟩ := below_file walked
    rcases Folder.entryAt_cons_cases (.file content revision) found with
      ⟨rfl, rfl, rfl⟩ | ⟨_, _, _, other, _⟩ | later
    · intro right
      have wanted : s.wants ((s.root.descend above).join n) := by
        rw [wants, Bool.and_eq_true]
        exact ⟨right, by simpa [Entry.isFolder] using kept⟩
      rw [if_pos wanted]
      exact List.mem_cons_self ..
    · cases other
    · refine (ih named sound.2.2 walkedRest later kept).mono ?_
      split
      · exact List.subset_cons_self ..
      · exact List.Subset.refl _
  | link n target rest ih =>
    rcases Folder.entryAt_cons_cases (.link target) found with
      ⟨rfl, rfl, rfl⟩ | ⟨_, _, _, other, _⟩ | later
    · trivial
    · cases other
    · exact ih named sound.2.2 walked later kept
  | sub n entries rest inner ih =>
    obtain ⟨valid, _, inside, behind⟩ := id sound
    have named' : ∀ x ∈ above ++ [n], Path.IsName x :=
      List.forall_mem_append.mpr ⟨named, List.forall_mem_singleton.mpr valid.isName⟩
    rcases below_sub walked with ⟨excluded, walkedRest⟩ |
      ⟨short, first, more, walkedInner, walkedRest, rfl⟩
    · rcases Folder.entryAt_cons_cases (.folder entries) found with
        ⟨rfl, rfl, rfl⟩ | ⟨rfl, further, _⟩ | later
      · exact absurd kept (by simpa [Entry.isFolder] using excluded)
      · -- What is below the folder is left out with it.
        have way := (List.forall_mem_cons.mp (sound.isName_of_entryAt found)).2
        rw [← descend_concat] at excluded
        have lost : s.excludes (s.root.descend (above ++ [n] ++ names)) standing.isFolder = true :=
          isExcluded_below (List.forall_mem_append.mpr ⟨named', way⟩) further excluded
        rw [Path.descend_cons, ← descend_concat, ← Path.descend_append, lost] at kept
        cases kept
      · exact ih named behind walkedRest later kept
    · rcases Folder.entryAt_cons_cases (.folder entries) found with
        ⟨rfl, rfl, rfl⟩ | ⟨rfl, further, _, same, below⟩ | later
      · exact short
      · cases same
        obtain ⟨second, names, rfl⟩ := List.exists_cons_of_ne_nil further
        rw [← descend_concat] at walkedInner
        have seen := inner named' inside walkedInner below (by rwa [descend_concat])
        rw [descend_concat] at seen
        exact seen.mono (List.subset_append_left ..)
      · exact (ih named behind walkedRest later kept).mono (List.subset_append_right ..)

theorem mem_below_iff (sound : folder.WellFormed) (walked : s.below s.root folder = .ok files) :
    p ∈ files ↔ ∃ names content revision, p = s.root.descend names ∧
      folder.entryAt names = some (.file content revision) ∧ hasExtension p s.extensions ∧
      isExcluded s.root p false s.exclude = false := by
  constructor
  · intro member
    obtain ⟨name, names, content, revision, _, rfl, file, wanted⟩ :=
      finds_of_mem_below sound walked member
    rw [wants, Bool.and_eq_true, Bool.not_eq_true'] at wanted
    exact ⟨name :: names, content, revision, rfl, file, wanted.1, wanted.2⟩
  · rintro ⟨names, content, revision, rfl, file, right, kept⟩
    cases names with
    | nil => simp [Folder.entryAt] at file
    | cons name names =>
      have walked' : s.below (s.root.descend []) folder = .ok files := walked
      exact seen_of_below (by simp) sound walked' file kept right

theorem opens_of_below (sound : folder.WellFormed) (walked : s.below s.root folder = .ok files) :
    s.Opens s.root folder := fun name names entries found kept => by
  have walked' : s.below (s.root.descend []) folder = .ok files := walked
  exact seen_of_below (by simp) sound walked' found kept

end Scan.Search

/-- The entry at a location stands in folders all the way. -/
theorem Folder.exists_folder_of_entryAt {folder : Folder} {front rest : Location} {standing : Entry}
    (found : folder.entryAt (front ++ rest) = some standing) (further : rest ≠ []) :
    ∃ entries, folder.entryAt front = some (.folder entries) := by
  induction front generalizing folder with
  | nil => exact ⟨folder, rfl⟩
  | cons name front ih =>
    simp only [List.cons_append, entryAt] at found ⊢
    cases hit : folder.find? name with
    | none => simp [hit] at found
    | some entry =>
      cases entry with
      | folder entries => exact ih (by simpa [hit] using found)
      | file _ _ | link _ => simp [hit, further] at found

namespace Scan

/-- A walk collects the files that it wants by themselves, in the order of their paths, whatever
links there are and whatever folders it does not look into. It goes through real folders only, and
below a link nothing is collected. -/
theorem collect_exact {d : Disk} {s : Search} {folder : Folder} (sound : d.root.WellFormed)
    (there : d.folder? s.root = some folder) (opens : s.Opens s.root folder) :
    ∃ files, collect d s = .ok files ∧
      (∀ p, p ∈ files ↔ ∃ names content revision, p = s.root.descend names ∧
        folder.entryAt names = some (.file content revision) ∧
        hasExtension p s.extensions ∧ isExcluded s.root p false s.exclude = false) ∧
      (∀ names more isFolder, (∀ n ∈ names ++ more, Path.IsName n) → more ≠ [] →
        isExcluded s.root (s.root.descend names) true s.exclude →
        isExcluded s.root (s.root.descend (names ++ more)) isFolder s.exclude) ∧
      files.Pairwise Path.Precedes ∧ files.Nodup ∧
      ∀ names more target, folder.entryAt names = some (.link target) →
        (∀ n ∈ more, Path.IsName n) → s.root.descend (names ++ more) ∉ files := by
  obtain ⟨_, _, standing⟩ := Disk.exists_location_of_folder? there
  have inside := sound.of_entryAt standing
  obtain ⟨files, walked⟩ := Search.exists_below_of_opens inside opens
  have ordered := Search.pairwise_below inside walked
  refine ⟨files, by rw [collect, there]; exact walked,
    fun p => Search.mem_below_iff inside walked,
    fun names more isFolder named further excluded => isExcluded_below named further excluded,
    ordered, ordered.imp Path.Precedes.ne, fun names more target link named member => ?_⟩
  obtain ⟨names', _, _, same, file, _⟩ := (Search.mem_below_iff inside walked).mp member
  have named' := List.forall_mem_append.mpr ⟨inside.isName_of_entryAt link, named⟩
  obtain rfl := Path.descend_injective named' (inside.isName_of_entryAt file) same
  by_cases last : more = []
  · rw [last, List.append_nil, link] at file
    cases file
  · obtain ⟨entries, through⟩ := Folder.exists_folder_of_entryAt file last
    rw [link] at through
    cases through

/-- A folder with files in front of, within and behind a folder that is left out, a link that leads
round in a circle, and one to a file. -/
def linkedFolder : Folder :=
  .file (Path.ofText "a.elm") [] 1 <|
  .sub (Path.ofText "elm-stuff") (.file (Path.ofText "b.elm") [] 1 .empty) <|
  .link (Path.ofText "loop") (Path.ofText ".") <|
  .sub (Path.ofText "m") (.file (Path.ofText "c.elm") [] 1 .empty) <|
  .file (Path.ofText "m.elm") [] 1 <|
  .link (Path.ofText "z.elm") (Path.ofText "a.elm") .empty

theorem collect_exact_linked :
    let d : Disk := ⟨.link (Path.ofText "link") (Path.ofText "real")
      (.sub (Path.ofText "real") linkedFolder .empty), []⟩
    let s : Search := ⟨Path.ofText "link", ["elm"], ["elm-stuff/"]⟩
    ∃ files, collect d s = .ok files ∧ Path.ofText "link/m/c.elm" ∈ files ∧
      Path.ofText "link/elm-stuff/b.elm" ∉ files ∧ Path.ofText "link/loop/a.elm" ∉ files := by
  intro d s
  have walked : s.below s.root linkedFolder =
      .ok (["link/a.elm", "link/m/c.elm", "link/m.elm"].map Path.ofText) := rfl
  obtain ⟨files, collected, exactly, _, _, _, apart⟩ :=
    collect_exact (d := d) (s := s) (by decide +kernel) (by decide +kernel)
      (Search.opens_of_below (by decide +kernel) walked)
  refine ⟨files, collected, ?_, fun member => ?_,
    apart [Path.ofText "loop"] [Path.ofText "a.elm"] (Path.ofText ".") (by decide +kernel)
      (by decide +kernel)⟩
  · exact (exactly _).mpr ⟨[Path.ofText "m", Path.ofText "c.elm"], [], 1, by decide +kernel,
      by decide +kernel, by decide +kernel, by decide +kernel⟩
  · obtain ⟨_, _, _, _, _, _, kept⟩ := (exactly _).mp member
    exact absurd kept (by decide +kernel)

end Scan

end Codemod
