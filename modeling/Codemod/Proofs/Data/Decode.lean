import Codemod.Data.Decode

/-! What is written as structured data can be read from it: a list whose items can. -/
namespace Codemod.Data

variable {α : Type}

/-- A list is read item by item, and each item counts. -/
theorem mapM_eq_some_iff {read : Data → Option α} {items : List Data} {xs : List α} :
    items.mapM read = some xs ↔ items.map read = xs.map some := by
  induction items generalizing xs with
  | nil => cases xs <;> simp
  | cons item items ih =>
    cases xs with
    | nil => simp [Option.bind_eq_some_iff]
    | cons x xs => simp [Option.bind_eq_some_iff, ih]

theorem each?_eq_some_iff {read : Data → Option α} {d : Data} {xs : List α} :
    each? read d = some xs ↔ ∃ items, d = .list items ∧ items.map read = xs.map some := by
  cases d with
  | list items => simp [each?, mapM_eq_some_iff]
  | _ => simp [each?]

theorem mapM_map_of_read {read : Data → Option α} (write : α → Data)
    (reads : ∀ x, read (write x) = some x) (xs : List α) : (xs.map write).mapM read = some xs := by
  rw [mapM_eq_some_iff, List.map_map]
  exact List.map_congr_left fun x _ => reads x

theorem each?_map {read : Data → Option α} (write : α → Data)
    (reads : ∀ x, read (write x) = some x) (xs : List α) :
    each? read (.list (xs.map write)) = some xs :=
  mapM_map_of_read write reads xs

theorem each?_texts (values : List String) : each? text? (texts values) = some values :=
  each?_map text (fun _ => rfl) values

end Codemod.Data
