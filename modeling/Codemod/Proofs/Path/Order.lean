import Codemod.Proofs.Path.Descent

/-! The order of paths: component by component, with names by their bytes. It does not depend on
how a path is spelled, and a folder's entries come at the folder's place. -/
namespace Codemod.Path

namespace Component

/-- The root comes before a leading `.`, this before `..`, and `..` before all names. -/
def rank : Component → Nat
  | .root => 0
  | .here => 1
  | .up => 2
  | .name _ => 3

instance : LT Component := ⟨fun a b => a.rank < b.rank ∨ a.rank = b.rank ∧ a.bytes < b.bytes⟩

instance (a b : Component) : Decidable (a < b) :=
  inferInstanceAs (Decidable (a.rank < b.rank ∨ a.rank = b.rank ∧ a.bytes < b.bytes))

theorem lt_iff {a b : Component} :
    a < b ↔ a.rank < b.rank ∨ a.rank = b.rank ∧ a.bytes < b.bytes := Iff.rfl

@[simp] theorem name_lt_name {a b : Bytes} : Component.name a < Component.name b ↔ a < b := by
  simp [lt_iff, rank, bytes]

instance : Std.Irrefl (· < · : Component → Component → Prop) :=
  ⟨fun a h => by simp [lt_iff, List.lt_irrefl] at h⟩

instance : Trans (· < · : Component → Component → Prop) (· < ·) (· < ·) where
  trans {a b c} first second := by
    rw [lt_iff] at first second ⊢
    rcases first with first | ⟨same, first⟩ <;> rcases second with second | ⟨same', second⟩
    · left; omega
    · left; omega
    · left; omega
    · right; exact ⟨same.trans same', List.lt_trans first second⟩

end Component

def Precedes (p q : Path) : Prop := p.components < q.components

instance (p q : Path) : Decidable (p.Precedes q) :=
  inferInstanceAs (Decidable (p.components < q.components))

theorem not_precedes_self (p : Path) : ¬p.Precedes p := List.lt_irrefl _

theorem Precedes.trans {p q r : Path} (first : p.Precedes q) (second : q.Precedes r) :
    p.Precedes r := List.lt_trans first second

theorem Precedes.components_ne {p q : Path} (before : p.Precedes q) :
    p.components ≠ q.components := by
  intro same
  rw [Precedes, same] at before
  exact List.lt_irrefl _ before

theorem Precedes.ne {p q : Path} (before : p.Precedes q) : p ≠ q := by
  rintro rfl
  exact not_precedes_self p before

/-- Below a path, the first names that differ decide. -/
theorem precedes_of_name_lt {p : Path} {first second : Bytes} {names more : List Bytes}
    (named : ∀ n ∈ first :: names, IsName n) (named' : ∀ n ∈ second :: more, IsName n)
    (before : first < second) :
    (p.descend (first :: names)).Precedes (p.descend (second :: more)) := by
  rw [Precedes, components_descend p named, components_descend p named']
  apply List.append_left_lt
  rw [List.map_cons, List.map_cons, List.cons_lt_cons_iff]
  exact Or.inl (Component.name_lt_name.mpr before)

end Codemod.Path
