import Codemod.Proofs.Disk.Revision
import Codemod.Proofs.Text.Utf8

/-! Reading and writing a file through a path that leads to it. Reading and writing go to the same
file, and both are refused for a path that is too long. -/
namespace Codemod.Disk

/-- The path leads to the file at the location, for every purpose, unless it is too long. -/
structure Reaches (d : Disk) (p : Path) (location : Location) : Prop where
  file : ∃ content revision, d.root.entryAt location = some (.file content revision)
  land : ∀ purpose, d.land purpose p =
    if pathLimit ≤ p.length then .error .nameTooLong else .ok (.entry location)

variable {d : Disk} {p : Path} {location : Location} {content : Bytes} {revision : Nat}
  {text : String}

theorem Reaches.revise (reached : d.Reaches p location) (f : Location → Leaf → Leaf) :
    (d.revise f).Reaches p location := by
  obtain ⟨content, revision, standing⟩ := reached.file
  exact ⟨⟨_, _, by rw [entryAt_revise, standing]; rfl⟩, by simpa using reached.land⟩

theorem Reaches.locate (reached : d.Reaches p location) :
    d.locate p = if pathLimit ≤ p.length then .error .nameTooLong else .ok location := by
  by_cases long : pathLimit ≤ p.length <;> simp [Disk.locate, reached.land, long]

theorem Reaches.entry (reached : d.Reaches p location) :
    (∃ cause, d.entry p = .error cause) ∨
      ∃ content revision, d.entry p = .ok (.file content revision) := by
  have found := reached.locate
  split at found
  · exact Or.inl ⟨_, entry_of_locate_error found⟩
  · obtain ⟨content, revision, standing⟩ := reached.file
    exact Or.inr ⟨content, revision, by rw [entry_of_locate found, standing]⟩

/-- A revision revises what stands behind the path. -/
theorem Reaches.entry_revise (reached : d.Reaches p location) (f : Location → Leaf → Leaf) :
    (d.revise f).entry p = (d.entry p).map (Entry.revise f location) := by
  have found := reached.locate
  split at found
  · rw [entry_of_locate_error found, entry_of_locate_error ((locate_revise d p).trans found)]
    rfl
  · obtain ⟨content, revision, standing⟩ := reached.file
    rw [entry_of_locate found, entry_of_locate ((locate_revise d p).trans found), entryAt_revise,
      standing]
    rfl

/-- A text is read where the entry behind the path is a file with the bytes of the text. -/
theorem readText_eq_ok_iff : d.readText p = .ok text ↔ ∃ content revision,
    d.entry p = .ok (.file content revision) ∧ Utf8.decode? content = some text := by
  simp only [readText, readBytes, bind, Except.bind, pure, Except.pure]
  rcases d.entry p with _ | (⟨content, revision⟩ | _ | _)
  · simp
  · cases decoded : Utf8.decode? content <;> simp [decoded]
  · simp
  · simp

theorem readText_congr {d' : Disk} (same : d.entry p = d'.entry p) :
    d.readText p = d'.readText p := by
  simp only [readText, readBytes, same]

theorem Reaches.of_readText (reached : d.Reaches p location) (read : d.readText p = .ok text) :
    d.locate p = .ok location ∧ ∃ content revision,
      d.root.entryAt location = some (.file content revision) ∧
        Utf8.decode? content = some text := by
  obtain ⟨content, revision, standing, decoded⟩ := readText_eq_ok_iff.mp read
  have found := reached.locate
  split at found
  · rw [entry_of_locate_error found] at standing
    cases standing
  · obtain ⟨content', revision', file⟩ := reached.file
    rw [entry_of_locate found, file] at standing
    cases standing
    exact ⟨found, content, revision, file, decoded⟩

/-- Writing a file that can be located is a revision at its location. -/
theorem Reaches.write (reached : d.Reaches p location) (sound : d.root.WellFormed)
    (found : d.locate p = .ok location)
    (standing : d.root.entryAt location = some (.file content revision)) (updated : Bytes)
    {f : Location → Leaf → Leaf} (here : f location ⟨content, revision⟩ = ⟨updated, revision + 1⟩)
    (apart : ∀ other leaf, other ≠ location → f other leaf = leaf) :
    d.write p updated = .ok (d.revise f) := by
  have short := reached.locate
  rw [found] at short
  have landed := reached.land .write
  split at short
  · simp at short
  · next long =>
    rw [if_neg long] at landed
    simp [Disk.write, landed, bind, Except.bind, writeAt_eq_revise sound standing here apart]

/-- Other bytes for the file at a location, which is opened for them once more. -/
def overwriting (location : Location) (updated : Bytes) : Location → Leaf → Leaf :=
  fun other leaf => if other = location then ⟨updated, leaf.revision + 1⟩ else leaf

/-- If a file can be written at all, this changes the file and nothing else. -/
theorem Reaches.eq_revise_of_write (reached : d.Reaches p location) (sound : d.root.WellFormed)
    {updated : Bytes} {d' : Disk} (written : d.write p updated = .ok d') :
    d.locate p = .ok location ∧ d' = d.revise (overwriting location updated) := by
  by_cases long : pathLimit ≤ p.length
  · have refused := reached.land .write
    rw [if_pos long] at refused
    simp [Disk.write, refused, bind, Except.bind] at written
  · have found : d.locate p = .ok location := by rw [reached.locate, if_neg long]
    obtain ⟨content, revision, standing⟩ := reached.file
    have changed := reached.write (f := overwriting location updated) sound found standing updated
      (if_pos rfl) fun other leaf apart => if_neg apart
    rw [changed, Except.ok.injEq] at written
    exact ⟨found, written.symm⟩

theorem Reaches.readText_overwriting (reached : d.Reaches p location)
    (found : d.locate p = .ok location) (text : String) :
    (d.revise (overwriting location (Utf8.encode text))).readText p = .ok text := by
  obtain ⟨content, revision, standing⟩ := reached.file
  refine readText_eq_ok_iff.mpr ⟨Utf8.encode text, revision + 1, ?_, Utf8.decode?_encode text⟩
  rw [reached.entry_revise, entry_of_locate found, standing]
  simp [Except.map, Entry.revise, overwriting]

theorem Reaches.readText_overwriting_other (reached : d.Reaches p location) {other : Location}
    (apart : location ≠ other) (updated : Bytes) :
    (d.revise (overwriting other updated)).readText p = d.readText p := by
  apply readText_congr
  rw [reached.entry_revise]
  rcases reached.entry with ⟨cause, refused⟩ | ⟨content, revision, standing⟩
  · rw [refused]
    rfl
  · rw [standing]
    simp [Except.map, Entry.revise, overwriting, apart]

end Codemod.Disk
