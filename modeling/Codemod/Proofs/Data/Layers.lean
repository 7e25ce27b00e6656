import Codemod.Data.Layers

/-! What two layers of data hold together, seen by look-ups. Names lead through nested tables to a
value; where the later layer leads to one, it is this value, unless both layers hold a table. -/
namespace Codemod.Data

variable {name : String} {path other : List String} {d old value : Data}
  {base entries : List (String × Data)}

/-- The value to which names lead through nested tables. -/
def at? : List String → Data → Option Data
  | [], d => some d
  | name :: path, .table entries => (entries.lookup name).bind (at? path)
  | _ :: _, _ => none

theorem at?_table (name : String) (path : List String) (entries : List (String × Data)) :
    (table entries).at? (name :: path) = (entries.lookup name).bind (at? path) := rfl

theorem at?_name (name : String) (entries : List (String × Data)) :
    (table entries).at? [name] = entries.lookup name := by
  rw [at?_table]
  cases entries.lookup name <;> rfl

theorem at?_append (path rest : List String) (d : Data) :
    d.at? (path ++ rest) = (d.at? path).bind (at? rest) := by
  induction path generalizing d with
  | nil => rfl
  | cons name path ih =>
    cases d with
    | table entries =>
      rw [List.cons_append, at?_table, at?_table]
      cases entries.lookup name with
      | none => rfl
      | some value => exact ih value
    | _ => rfl

def isTable : Data → Bool
  | .table _ => true
  | _ => false

theorem exists_of_isTable (table : d.isTable = true) : ∃ entries, d = .table entries := by
  cases d <;> first | exact ⟨_, rfl⟩ | cases table

theorem merge_of_not_table_left (plain : old.isTable = false) : old.merge value = value := by
  cases old <;> first | rfl | cases plain

theorem merge_of_not_table_right (plain : value.isTable = false) : old.merge value = value := by
  cases old <;> cases value <;> first | rfl | cases plain

theorem mergeEntries_nil (base : List (String × Data)) : mergeEntries base [] = base := by
  induction base with
  | nil => rw [mergeEntries]
  | cons entry base ih =>
    rw [mergeEntries, ih]
    rfl

/-- An empty table on top changes nothing. -/
theorem merge_empty (base : List (String × Data)) :
    merge (.table base) (.table []) = .table base := by
  rw [merge_table, mergeEntries_nil, List.filter_nil, List.append_nil]

theorem lookup_mergeEntries (base entries : List (String × Data)) (name : String) :
    (mergeEntries base entries).lookup name = (base.lookup name).map fun old =>
      match entries.lookup name with
      | some value => old.merge value
      | none => old := by
  induction base with
  | nil => rw [mergeEntries]; rfl
  | cons entry base ih =>
    rw [mergeEntries, List.lookup_cons, List.lookup_cons, ih]
    cases same : name == entry.1 with
    | true =>
      rw [eq_of_beq same]
      rfl
    | false => rfl

theorem lookup_filter (keep : String → Bool) (entries : List (String × Data)) (name : String) :
    (entries.filter fun entry => keep entry.1).lookup name =
      if keep name then entries.lookup name else none := by
  induction entries with
  | nil => simp
  | cons entry entries ih =>
    obtain ⟨key, value⟩ := entry
    rw [List.filter_cons, List.lookup_cons]
    cases same : name == key with
    | true =>
      obtain rfl := eq_of_beq same
      cases kept : keep name with
      | true => simp
      | false => simpa [kept] using ih
    | false =>
      cases keep key with
      | true => simpa [List.lookup_cons, same] using ih
      | false => simpa using ih

/-- What two tables hold together under one name. -/
theorem at?_merge_cons (base entries : List (String × Data)) (name : String)
    (path : List String) :
    ((table base).merge (.table entries)).at? (name :: path) =
      match base.lookup name, entries.lookup name with
      | some old, some value => (old.merge value).at? path
      | some old, none => old.at? path
      | none, found => found.bind (at? path) := by
  rw [merge_table, at?_table, List.lookup_append, lookup_mergeEntries,
    lookup_filter fun key => (base.lookup key).isNone]
  cases base.lookup name <;> cases entries.lookup name <;> rfl

theorem at?_merge_name (base entries : List (String × Data)) (name : String) :
    ((table base).merge (.table entries)).at? [name] =
      match base.lookup name, entries.lookup name with
      | some old, some value => some (old.merge value)
      | some old, none => some old
      | none, found => found := by
  rw [at?_merge_cons]
  cases base.lookup name <;> cases entries.lookup name <;> rfl

theorem merge_table_right (d : Data) (entries : List (String × Data)) :
    ∃ merged, d.merge (.table entries) = .table merged := by
  cases d with
  | table base => exact ⟨_, rfl⟩
  | _ => exact ⟨_, rfl⟩

/-- A value with what a later layer may hold in its place. -/
def under (d : Data) (found : Option Data) : Data := found.elim d d.merge

theorem at?_merge_merge {lower upper : List (String × Data)}
    (stands : base.lookup name = some old) :
    (((table base).merge (.table lower)).merge (.table upper)).at? [name] =
      some ((old.under (lower.lookup name)).under (upper.lookup name)) := by
  obtain ⟨merged, whole⟩ := merge_table_right (.table base) lower
  have below : merged.lookup name = ((table base).merge (.table lower)).at? [name] := by
    rw [whole, at?_name]
  rw [at?_merge_name, stands] at below
  rw [whole, at?_merge_name, below]
  cases lower.lookup name <;> cases upper.lookup name <;> rfl

/-- Nothing stands in the place of a table like an empty one. -/
theorem under_table {found : Option Data} (tabular : found.all isTable)
    (base : List (String × Data)) :
    ∃ entries, (table base).under found = (table base).merge (.table entries) ∧
      ∀ name, (table entries).at? [name] = found.bind (at? [name]) := by
  cases found with
  | none => exact ⟨[], (merge_empty base).symm, fun _ => rfl⟩
  | some d =>
    obtain ⟨entries, rfl⟩ := exists_of_isTable tabular
    exact ⟨entries, rfl, fun _ => rfl⟩

section Placed

theorem at?_nest (path rest : List String) (value : Data) :
    (nest path value).at? (path ++ rest) = value.at? rest := by
  induction path with
  | nil => rfl
  | cons name path ih =>
    rw [nest, List.cons_append, at?_table, List.lookup_cons_self]
    exact ih

theorem at?_nest_apart (apart : ¬path <+: other ∧ ¬other <+: path) (value : Data) :
    (nest path value).at? other = none := by
  induction path generalizing other with
  | nil => exact absurd List.nil_prefix apart.1
  | cons name path ih =>
    cases other with
    | nil => exact absurd List.nil_prefix apart.2
    | cons key other =>
      rw [nest, at?_table, List.lookup_cons]
      cases same : key == name with
      | false => rfl
      | true =>
        obtain rfl := eq_of_beq same
        simp only [List.cons_prefix_cons, true_and] at apart
        exact ih apart

/-- A value placed where nothing stood is found there, with all it holds. -/
theorem at?_merge_nest (free : d.at? path = none) (value : Data) (rest : List String) :
    (d.merge (nest path value)).at? (path ++ rest) = value.at? rest := by
  induction path generalizing d with
  | nil => cases free
  | cons name path ih =>
    cases plain : d.isTable with
    | false => rw [merge_of_not_table_left plain, at?_nest]
    | true =>
      obtain ⟨base, rfl⟩ := exists_of_isTable plain
      rw [nest, List.cons_append, at?_merge_cons, List.lookup_cons_self]
      rw [at?_table] at free
      cases found : base.lookup name with
      | none => exact at?_nest path rest value
      | some old =>
        rw [found] at free
        exact ih free

/-- Names that part from the place of a value lead where they led without it. -/
theorem at?_merge_nest_apart (apart : ¬path <+: other ∧ ¬other <+: path) (d value : Data) :
    (d.merge (nest path value)).at? other = d.at? other := by
  induction path generalizing d other with
  | nil => exact absurd List.nil_prefix apart.1
  | cons name path ih =>
    cases other with
    | nil => exact absurd List.nil_prefix apart.2
    | cons key other =>
      cases plain : d.isTable with
      | false =>
        rw [merge_of_not_table_left plain, at?_nest_apart apart]
        cases d <;> first | rfl | cases plain
      | true =>
        obtain ⟨base, rfl⟩ := exists_of_isTable plain
        rw [nest, at?_merge_cons, at?_table, List.lookup_cons]
        cases same : key == name with
        | false => cases base.lookup key <;> rfl
        | true =>
          obtain rfl := eq_of_beq same
          simp only [List.cons_prefix_cons, true_and] at apart
          cases base.lookup key with
          | none => exact at?_nest_apart apart value
          | some old => exact ih apart old

/-- Names on the way to the place of a value lead to tables. -/
theorem at?_merge_nest_above (within : other <+: path) (different : other ≠ path) (d value : Data) :
    ∃ entries, (d.merge (nest path value)).at? other = some (.table entries) := by
  induction other generalizing d path with
  | nil =>
    obtain ⟨name, path, rfl⟩ := List.exists_cons_of_ne_nil different.symm
    obtain ⟨merged, whole⟩ := merge_table_right d [(name, nest path value)]
    exact ⟨merged, congrArg some whole⟩
  | cons name other ih =>
    obtain ⟨rest, rfl⟩ := within
    have further : other ≠ other ++ rest := fun same => different (congrArg (name :: ·) same)
    have below := fun d => ih (List.prefix_append other rest) further d
    rw [List.cons_append, nest]
    cases plain : d.isTable with
    | false =>
      rw [merge_of_not_table_left plain, at?_table, List.lookup_cons_self]
      exact below .null
    | true =>
      obtain ⟨base, rfl⟩ := exists_of_isTable plain
      rw [at?_merge_cons, List.lookup_cons_self]
      cases base.lookup name with
      | none => exact below .null
      | some old => exact below old

end Placed

section Reading

variable {α : Type} {read : Data → Option α} {fallback : α} {lower upper : List (String × Data)}

/-- What is read from the data found for a setting, or its default if none is found. -/
def readOr (read : Data → Option α) (fallback : α) (found : Option Data) : Option α :=
  found.elim (some fallback) read

/-- What the highest of two layers that has a key holds for it. -/
def upmost? (lower upper : Data) (key : List String) : Option Data :=
  (upper.at? key).or (lower.at? key)

theorem read_merge (blind : ∀ entries, read (.table entries) = none) (old value : Data) :
    read (old.merge value) = read value := by
  cases oldPlain : old.isTable with
  | false => rw [merge_of_not_table_left oldPlain]
  | true =>
    cases plain : value.isTable with
    | false => rw [merge_of_not_table_right plain]
    | true =>
      obtain ⟨entries, rfl⟩ := exists_of_isTable plain
      obtain ⟨merged, whole⟩ := merge_table_right old entries
      rw [whole, blind, blind]

/-- Of a setting that is no table only the highest layer counts, over a table that holds its
default. -/
theorem readOr_merge (blind : ∀ entries, read (.table entries) = none)
    (stands : base.lookup name = some old) (reads : read old = some fallback) :
    readOr read fallback ((((table base).merge (.table lower)).merge (.table upper)).at? [name]) =
      readOr read fallback (upmost? (.table lower) (.table upper) [name]) := by
  rw [at?_merge_merge stands, upmost?, at?_name, at?_name]
  cases lower.lookup name <;> cases upper.lookup name <;>
    simp [readOr, under, read_merge blind, reads]

/-- The same, or a table in either case. -/
def Alike (x y : Option Data) : Prop :=
  x = y ∨ (∃ entries, x = some (.table entries)) ∧ ∃ entries, y = some (.table entries)

theorem Alike.or {x y : Option Data} (alike : Alike x y) (below : Option Data) :
    Alike (x.or below) (y.or below) := by
  rcases alike with rfl | ⟨⟨entries, rfl⟩, entries', rfl⟩
  · exact Or.inl rfl
  · exact Or.inr ⟨⟨entries, rfl⟩, entries', rfl⟩

/-- One table is as good as another to a setting that is none. -/
theorem Alike.readOr (blind : ∀ entries, read (.table entries) = none) {x y : Option Data}
    (alike : Alike x y) : readOr read fallback x = readOr read fallback y := by
  rcases alike with rfl | ⟨⟨entries, rfl⟩, entries', rfl⟩
  · rfl
  · exact (blind entries).trans (blind entries').symm

end Reading

end Codemod.Data
