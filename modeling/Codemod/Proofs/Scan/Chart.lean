import Codemod.Proofs.Disk.Reach
import Codemod.Proofs.Scan.Walk

/-! The places of collected files. Every collected path leads to a file of its own, so that files
can be read and written one by one without a change to the others. -/
namespace Codemod.Scan

/-- Paths in increasing order that lead to different files. -/
structure Charts (d : Disk) (files : List Path) (place : Path → Location) : Prop where
  reaches : ∀ p ∈ files, d.Reaches p (place p)
  place_injective : ∀ p ∈ files, ∀ q ∈ files, place p = place q → p = q
  ordered : files.Pairwise Path.Precedes

variable {d : Disk} {s : Search} {files : List Path} {place : Path → Location} {p q : Path}

theorem nodup_of_ordered (ordered : files.Pairwise Path.Precedes) : files.Nodup :=
  List.nodup_iff_pairwise_ne.mpr (ordered.imp Path.Precedes.ne)

/-- Different collected files have different components, whatever their spelling. -/
theorem components_injective (ordered : files.Pairwise Path.Precedes) (hp : p ∈ files)
    (hq : q ∈ files) (same : p.components = q.components) : p = q := by
  refine List.Pairwise.forall_of_forall_of_flip
    (R := fun a b : Path => a.components = b.components → a = b) (fun _ _ _ => rfl)
    (ordered.imp fun before same => absurd same before.components_ne)
    (ordered.imp fun before same => absurd same.symm before.components_ne) hp hq same

theorem Charts.place_of_locate (charted : Charts d files place) (member : p ∈ files)
    {location : Location} (way : d.locate p = .ok location) : place p = location := by
  have found := (charted.reaches p member).locate
  rw [way] at found
  split at found <;> simp_all

/-- A revision leaves every path at its place. -/
theorem Charts.revise (charted : Charts d files place) (f : Location → Leaf → Leaf) :
    Charts (d.revise f) files place :=
  ⟨fun p member => (charted.reaches p member).revise f, charted.place_injective, charted.ordered⟩

theorem nil_charts (d : Disk) : Charts d [] place := ⟨by simp, by simp, .nil⟩

/-- The walk finds every file through real folders, so each has the place that its names say. -/
theorem exists_charts (sound : d.root.WellFormed) (collected : collect d s = .ok files) :
    ∃ place, Charts d files place := by
  unfold collect at collected
  cases there : d.folder? s.root with
  | none => simp [there] at collected
  | some folder =>
    simp only [there] at collected
    obtain ⟨base, found, standing⟩ := Disk.exists_location_of_folder? there
    have inside := sound.of_entryAt standing
    refine ⟨fun p => base ++ (p.components.drop s.root.components.length).map
      Path.Component.bytes, ?_, ?_, Search.pairwise_below inside collected⟩
    · intro p member
      obtain ⟨name, names, content, revision, _, rfl, file, _⟩ :=
        Search.finds_of_mem_below inside collected member
      have named := inside.isName_of_entryAt file
      have names_back : (((s.root.descend (name :: names)).components.drop
          s.root.components.length).map Path.Component.bytes) = name :: names := by
        rw [Path.components_descend _ named, List.drop_left]
        simp [Path.Component.bytes, Function.comp_def]
      rw [names_back]
      exact ⟨⟨content, revision, by rw [Folder.entryAt_append standing, file]⟩,
        fun purpose => Disk.land_descend purpose sound found standing file⟩
    · intro p hp q hq same
      obtain ⟨name, names, _, _, _, rfl, file, _⟩ :=
        Search.finds_of_mem_below inside collected hp
      obtain ⟨other, more, _, _, _, rfl, file', _⟩ :=
        Search.finds_of_mem_below inside collected hq
      rw [Path.components_descend _ (inside.isName_of_entryAt file),
        Path.components_descend _ (inside.isName_of_entryAt file'), List.drop_left,
        List.drop_left] at same
      simp only [List.append_cancel_left_eq, List.map_map, Path.Component.bytes,
        Function.comp_def, List.map_id'] at same
      rw [same]

end Codemod.Scan
