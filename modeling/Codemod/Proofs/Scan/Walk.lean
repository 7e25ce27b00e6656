import Codemod.Proofs.Disk.Descent
import Codemod.Proofs.Path.Order
import Codemod.Scan.Collect

/-! What a walk finds: wanted files below the root, each by the names that lead to it, in
increasing order and so none of them twice. The contents of the files have no part in it. -/
namespace Codemod.Scan

namespace Search

variable {s : Search} {path : Path} {folder rest entries : Folder} {name content : Bytes}
  {revision : Nat} {files : List Path}

theorem below_file (walked : s.below path (.file name content revision rest) = .ok files) :
    ∃ more, s.below path rest = .ok more ∧
      files = if s.wants (path.join name) then path.join name :: more else more := by
  cases later : s.below path rest with
  | error fault => simp [below, later, bind, Except.bind] at walked
  | ok more =>
    refine ⟨more, rfl, ?_⟩
    simpa [below, later, bind, Except.bind, pure, Except.pure] using walked.symm

theorem below_sub (walked : s.below path (.sub name entries rest) = .ok files) :
    (s.excludes (path.join name) true ∧ s.below path rest = .ok files) ∨
    (path.join name).length < Disk.pathLimit ∧ ∃ inner more,
      s.below (path.join name) entries = .ok inner ∧ s.below path rest = .ok more ∧
      files = inner ++ more := by
  by_cases excluded : s.excludes (path.join name) true
  · exact Or.inl ⟨excluded, by simpa [below, excluded] using walked⟩
  by_cases long : Disk.pathLimit ≤ (path.join name).length
  · simp [below, excluded, long] at walked
  refine Or.inr ⟨Nat.lt_of_not_le long, ?_⟩
  cases inside : s.below (path.join name) entries with
  | error fault => simp [below, excluded, long, inside, bind, Except.bind] at walked
  | ok inner =>
    cases later : s.below path rest with
    | error fault => simp [below, excluded, long, inside, later, bind, Except.bind] at walked
    | ok more =>
      refine ⟨inner, more, rfl, rfl, ?_⟩
      simpa [below, excluded, long, inside, later, bind, Except.bind, pure, Except.pure]
        using walked.symm

/-- A collected file with the names that lead to it, the first of which is in the folder. -/
def Finds (s : Search) (path : Path) (folder : Folder) (p : Path) : Prop :=
  ∃ name names content revision, name ∈ folder.names ∧ p = path.descend (name :: names) ∧
    folder.entryAt (name :: names) = some (.file content revision) ∧ s.wants p

theorem Finds.of_rest {p : Path} (entry : Entry) (least : ∀ n ∈ rest.names, name < n)
    (found : s.Finds path rest p) : s.Finds path (.cons name entry rest) p := by
  obtain ⟨first, names, content, revision, member, way, file, wanted⟩ := found
  refine ⟨first, names, content, revision, ?_, way,
    Folder.entryAt_cons_of_rest entry least file, wanted⟩
  cases entry <;> exact List.mem_cons_of_mem _ member

theorem Finds.of_sub {p : Path} (found : s.Finds (path.join name) entries p) :
    s.Finds path (.sub name entries rest) p := by
  obtain ⟨first, names, content, revision, _, way, file, wanted⟩ := found
  exact ⟨name, first :: names, content, revision, List.mem_cons_self .., way,
    by simpa [Folder.entryAt, Folder.find?] using file, wanted⟩

theorem finds_of_mem_below (sound : folder.WellFormed) (walked : s.below path folder = .ok files)
    {p : Path} (member : p ∈ files) : s.Finds path folder p := by
  induction folder generalizing path files with
  | empty => simp [below] at walked; simp [walked] at member
  | file n content revision rest ih =>
    obtain ⟨_, least, later⟩ := sound
    obtain ⟨more, walkedRest, rfl⟩ := below_file walked
    have among (found : p ∈ more) : s.Finds path (.file n content revision rest) p :=
      (ih later walkedRest found).of_rest (.file content revision) least
    by_cases wanted : s.wants (path.join n)
    · rw [if_pos wanted] at member
      rcases List.mem_cons.mp member with rfl | found
      · exact ⟨n, [], content, revision, List.mem_cons_self .., rfl,
          by simp [Folder.entryAt, Folder.find?], wanted⟩
      · exact among found
    · rw [if_neg wanted] at member
      exact among member
  | link n target rest ih =>
    obtain ⟨_, least, later⟩ := sound
    exact (ih later walked member).of_rest (.link target) least
  | sub n entries rest inner ih =>
    obtain ⟨_, least, inside, later⟩ := sound
    rcases below_sub walked with ⟨_, walkedRest⟩ | ⟨_, first, more, walkedInner, walkedRest, rfl⟩
    · exact (ih later walkedRest member).of_rest (.folder entries) least
    · rcases List.mem_append.mp member with found | found
      · exact (inner inside walkedInner found).of_sub
      · exact (ih later walkedRest found).of_rest (.folder entries) least

/-- What is found below an entry comes before what is found below a later one. -/
theorem Finds.precedes {p q : Path} (names : List Bytes) (entry : Entry)
    (sound : (Folder.cons name entry rest).WellFormed)
    (named : ∀ n ∈ name :: names, Path.IsName n)
    (least : ∀ n ∈ rest.names, name < n) (first : p = path.descend (name :: names))
    (found : s.Finds path rest q) : p.Precedes q := by
  obtain ⟨other, more, content, revision, member, rfl, file, _⟩ := found
  subst first
  refine Path.precedes_of_name_lt named ?_ (least other member)
  exact sound.isName_of_entryAt (Folder.entryAt_cons_of_rest entry least file)

theorem pairwise_below (sound : folder.WellFormed) (walked : s.below path folder = .ok files) :
    files.Pairwise Path.Precedes := by
  induction folder generalizing path files with
  | empty => simp [below] at walked; simp [walked]
  | file n content revision rest ih =>
    obtain ⟨valid, least, later⟩ := sound
    obtain ⟨more, walkedRest, rfl⟩ := below_file walked
    have ordered := ih later walkedRest
    split
    · refine List.pairwise_cons.mpr ⟨fun q member => ?_, ordered⟩
      exact (finds_of_mem_below later walkedRest member).precedes []
        (.file content revision) ⟨valid, least, later⟩ (by simpa using valid.isName) least rfl
    · exact ordered
  | link n target rest ih => exact ih sound.2.2 walked
  | sub n entries rest inner ih =>
    obtain ⟨valid, least, inside, later⟩ := sound
    rcases below_sub walked with ⟨_, walkedRest⟩ | ⟨_, first, more, walkedInner, walkedRest, rfl⟩
    · exact ih later walkedRest
    · refine List.pairwise_append.mpr ⟨inner inside walkedInner, ih later walkedRest,
        fun p found q member => ?_⟩
      obtain ⟨next, names, content, revision, _, way, file, _⟩ :=
        finds_of_mem_below inside walkedInner found
      have named := List.forall_mem_cons.mpr ⟨valid.isName, inside.isName_of_entryAt file⟩
      exact (finds_of_mem_below later walkedRest member).precedes (next :: names)
        (.folder entries) ⟨valid, least, inside, later⟩ named least way

/-- A walk that fails names the folder at which it fails. -/
theorem exists_folder_of_below {fault : Fault} (walked : s.below path folder = .error fault) :
    ∃ q cause, fault = .access q cause := by
  induction folder generalizing path with
  | empty => cases walked
  | file n content revision rest ih =>
    cases later : s.below path rest with
    | error found =>
      simp only [below, later, bind, Except.bind] at walked
      cases walked
      exact ih later
    | ok more => simp [below, later, bind, Except.bind, pure, Except.pure] at walked
  | link n target rest ih => exact ih walked
  | sub n entries rest inner ih =>
    rw [below] at walked
    split at walked
    · exact ih walked
    · split at walked
      · cases walked
        exact ⟨_, _, rfl⟩
      · cases inside : s.below (path.join n) entries with
        | error found =>
          simp only [inside, bind, Except.bind] at walked
          cases walked
          exact inner inside
        | ok first =>
          cases later : s.below path rest with
          | error found =>
            simp only [inside, later, bind, Except.bind] at walked
            cases walked
            exact ih later
          | ok more => simp [inside, later, bind, Except.bind, pure, Except.pure] at walked

theorem below_revise (f : Location → Leaf → Leaf) (here : Location) (path : Path)
    (folder : Folder) : s.below path (folder.revise f here) = s.below path folder := by
  induction folder generalizing here path with
  | empty => rfl
  | file n content revision rest ih | link n target rest ih => simp only [Folder.revise, below, ih]
  | sub n entries rest inner ih => simp only [Folder.revise, below, inner, ih]

end Search

theorem exists_path_of_collect {d : Disk} {s : Search} {fault : Fault}
    (walked : collect d s = .error fault) : ∃ q, fault.path? = some q := by
  unfold collect at walked
  split at walked
  · obtain ⟨q, cause, rfl⟩ := Search.exists_folder_of_below walked
    exact ⟨q, rfl⟩
  · cases walked
    exact ⟨s.root, rfl⟩

/-- The contents of files have no part in which files are collected. -/
@[simp] theorem collect_revise (f : Location → Leaf → Leaf) (d : Disk) (s : Search) :
    collect (d.revise f) s = collect d s := by
  obtain ⟨here, revised⟩ := Disk.folder?_revise (f := f) d s.root
  simp only [collect, revised]
  cases d.folder? s.root with
  | none => rfl
  | some folder => exact Search.below_revise f here s.root folder

end Codemod.Scan
