import Codemod.Proofs.Data.Layers
import Codemod.Settings.Environment
import Mathlib.Data.List.Induction

/-! What the layer of environment variables holds. Of variables whose places diverge,
each gives the value at its place, whatever the others are, and nothing stands anywhere else. -/
namespace Codemod.Environment

variable {program : String} {environment : List (String × String)} {p q key : List String}
  {v : String × String}

/-- Neither path leads through the end of the other. -/
def Diverge (p q : List String) : Prop := ¬p <+: q ∧ ¬q <+: p

instance : Decidable (Diverge p q) := inferInstanceAs (Decidable (¬p <+: q ∧ ¬q <+: p))

theorem Diverge.symm (diverge : Diverge p q) : Diverge q p := ⟨diverge.2, diverge.1⟩

theorem Diverge.append (diverge : Diverge p q) (rest : List String) : Diverge p (q ++ rest) := by
  refine ⟨fun within => ?_, fun within => diverge.2 ((List.prefix_append q rest).trans within)⟩
  rcases List.prefix_or_prefix_of_prefix within (List.prefix_append q rest) with first | second
  · exact diverge.1 first
  · exact diverge.2 second

/-- The places of the program's variables diverge. -/
def Apart (program : String) (environment : List (String × String)) : Prop :=
  environment.Pairwise fun v w => ∀ p ∈ place? program v.1, ∀ q ∈ place? program w.1, Diverge p q

instance : Decidable (Apart program environment) := inferInstanceAs (Decidable (List.Pairwise _ _))

/-- No value holds a string that is torn. -/
def Untorn (program : String) (environment : List (String × String)) : Prop :=
  ∀ v ∈ environment, (place? program v.1).isSome → (valueOf? v.2).isSome

/-- What a layer holds for the variables. -/
structure Gives (program : String) (environment : List (String × String)) (top : Data) : Prop where
  value : ∀ v ∈ environment, ∀ p, place? program v.1 = some p →
    ∃ value, valueOf? v.2 = some value ∧ ∀ rest, top.at? (p ++ rest) = value.at? rest
  /-- On the way to a place there are tables. -/
  above : ∀ v ∈ environment, ∀ p, place? program v.1 = some p → ∀ key, key <+: p → key ≠ p →
    ∃ entries, top.at? key = some (.table entries)
  nothing : ∀ key, key ≠ [] →
    (∀ v ∈ environment, ∀ p, place? program v.1 = some p → Diverge p key) → top.at? key = none

theorem cutPairs_ne_nil (cs : List Char) : cutPairs cs ≠ [] := by
  unfold cutPairs
  split
  · exact List.cons_ne_nil _ _
  · exact List.cons_ne_nil _ _
  · split <;> exact List.cons_ne_nil _ _

theorem place?_ne_nil {name : String} (placed : place? program name = some p) : p ≠ [] := by
  obtain ⟨rest, _, placed⟩ := Option.bind_eq_some_iff.mp placed
  obtain ⟨first, more, cut⟩ := List.exists_cons_of_ne_nil (cutPairs_ne_nil (Text.trim rest))
  simp only [cut, List.flatMap_cons] at placed
  split at placed
  · cases placed
  · obtain rfl := Option.some.inj placed
    simp [splitOn_ne_nil]

theorem gives_nil : Gives program [] (.table []) where
  value v member := absurd member List.not_mem_nil
  above v member := absurd member List.not_mem_nil
  nothing key nonempty _ := by
    cases key with
    | nil => exact absurd rfl nonempty
    | cons name key => rfl

/-- One variable more, whose place diverges from those of the others. -/
theorem Gives.add {below value : Data} (gives : Gives program environment below)
    (apart : ∀ w ∈ environment, ∀ q, place? program w.1 = some q → Diverge q p)
    (placed : place? program v.1 = some p) (read : valueOf? v.2 = some value) :
    Gives program (environment ++ [v]) (below.merge (Data.nest p value)) := by
  have free := gives.nothing p (place?_ne_nil placed) apart
  have unchanged : ∀ key, Diverge p key → (below.merge (Data.nest p value)).at? key = below.at? key :=
    fun key diverge => Data.at?_merge_nest_apart diverge below value
  refine ⟨?_, ?_, ?_⟩
  · intro w member q placed'
    rcases List.mem_append.mp member with member | member
    · obtain ⟨given, read', found⟩ := gives.value w member q placed'
      refine ⟨given, read', fun rest => ?_⟩
      rw [unchanged _ ((apart w member q placed').symm.append rest), found]
    · obtain rfl := List.mem_singleton.mp member
      obtain rfl := Option.some.inj (placed.symm.trans placed')
      exact ⟨value, read, fun rest => Data.at?_merge_nest free value rest⟩
  · intro w member q placed' key within different
    rcases List.mem_append.mp member with member | member
    · by_cases inside : key <+: p
      · have other : key ≠ p := by
          rintro rfl
          exact (apart w member q placed').2 within
        exact Data.at?_merge_nest_above inside other below value
      · have outside : ¬p <+: key := fun h => (apart w member q placed').2 (h.trans within)
        rw [unchanged key ⟨outside, inside⟩]
        exact gives.above w member q placed' key within different
    · obtain rfl := List.mem_singleton.mp member
      obtain rfl := Option.some.inj (placed.symm.trans placed')
      exact Data.at?_merge_nest_above within different below value
  · intro key nonempty apart
    obtain ⟨others, here⟩ := List.forall_mem_append.mp apart
    rw [unchanged key (here v (List.mem_singleton_self v) p placed)]
    exact gives.nothing key nonempty others

theorem Gives.skip {below : Data} (gives : Gives program environment below)
    (foreign : place? program v.1 = none) : Gives program (environment ++ [v]) below := by
  have earlier : ∀ w ∈ environment ++ [v], ∀ p, place? program w.1 = some p → w ∈ environment := by
    intro w member p placed
    rcases List.mem_append.mp member with member | member
    · exact member
    · rw [List.mem_singleton.mp member, foreign] at placed
      cases placed
  refine ⟨?_, ?_, ?_⟩
  · exact fun w member p placed => gives.value w (earlier w member p placed) p placed
  · exact fun w member p placed => gives.above w (earlier w member p placed) p placed
  · exact fun key nonempty apart =>
      gives.nothing key nonempty (List.forall_mem_append.mp apart).1

theorem layer?_concat (program : String) (environment : List (String × String))
    (v : String × String) : layer? program (environment ++ [v]) =
      (layer? program environment).bind fun below =>
        match place? program v.1 with
        | some p => (valueOf? v.2).map fun value => below.merge (Data.nest p value)
        | none => some below := by
  simp only [layer?, List.foldlM_append, List.foldlM_cons, List.foldlM_nil, bind_pure]
  rfl

/-- There is a layer if every value can be read. -/
theorem exists_layer? (untorn : Untorn program environment) :
    ∃ top, layer? program environment = some top := by
  induction environment using List.reverseRecOn with
  | nil => exact ⟨.table [], rfl⟩
  | append_singleton environment v ih =>
    obtain ⟨others, here⟩ := List.forall_mem_append.mp untorn
    obtain ⟨below, layer⟩ := ih others
    rw [layer?_concat, layer, Option.bind_some]
    cases placed : place? program v.1 with
    | none => exact ⟨below, rfl⟩
    | some p =>
      have readable := here v (List.mem_singleton_self v) (by rw [placed]; rfl)
      obtain ⟨value, read⟩ := Option.isSome_iff_exists.mp readable
      exact ⟨below.merge (Data.nest p value), by simp only [read, Option.map_some]⟩

/-- A layer is built by passing over foreign variables and placing the values of the others. -/
theorem layer?_induction {motive : List (String × String) → Data → Prop}
    (nil : motive [] (.table []))
    (skip : ∀ environment v below, motive environment below → place? program v.1 = none →
      motive (environment ++ [v]) below)
    (add : ∀ environment v below p value, motive environment below →
      place? program v.1 = some p → valueOf? v.2 = some value →
      motive (environment ++ [v]) (below.merge (Data.nest p value)))
    {top : Data} (layer : layer? program environment = some top) : motive environment top := by
  induction environment using List.reverseRecOn generalizing top with
  | nil =>
    obtain rfl := Option.some.inj layer
    exact nil
  | append_singleton environment v ih =>
    rw [layer?_concat] at layer
    obtain ⟨below, lower, layer⟩ := Option.bind_eq_some_iff.mp layer
    cases placed : place? program v.1 with
    | none =>
      simp only [placed] at layer
      obtain rfl := Option.some.inj layer
      exact skip environment v below (ih lower) placed
    | some p =>
      simp only [placed] at layer
      obtain ⟨value, read, rfl⟩ := Option.map_eq_some_iff.mp layer
      exact add environment v below p value (ih lower) placed read

theorem isTable_of_layer? {top : Data} (layer : layer? program environment = some top) :
    top.isTable = true := by
  refine layer?_induction (motive := fun _ top => top.isTable = true) rfl ?_ ?_ layer
  · intro environment v below ih foreign
    exact ih
  · intro environment v below p value ih placed read
    obtain ⟨name, path, rfl⟩ := List.exists_cons_of_ne_nil (place?_ne_nil placed)
    obtain ⟨merged, whole⟩ := Data.merge_table_right below [(name, Data.nest path value)]
    rw [Data.nest, whole]
    rfl

/-- What the layer holds if the places of the variables diverge. -/
theorem layer?_gives {top : Data} (layer : layer? program environment = some top)
    (apart : Apart program environment) : Gives program environment top := by
  refine layer?_induction (motive := fun environment top =>
    Apart program environment → Gives program environment top) ?_ ?_ ?_ layer apart
  · exact fun _ => gives_nil
  · intro environment v below ih foreign apart
    obtain ⟨others, _, _⟩ := List.pairwise_append.mp apart
    exact (ih others).skip foreign
  · intro environment v below p value ih placed read apart
    obtain ⟨others, _, here⟩ := List.pairwise_append.mp apart
    have apart := fun w member q placed' =>
      here w member v (List.mem_singleton_self v) q placed' p placed
    exact (ih others).add apart placed read

section Comparison

variable {other : List (String × String)} {top top' : Data}

/-- Unless a variable holds it, there is nothing but a table at a key. -/
theorem Gives.isTable_at? (gives : Gives program environment top) (nonempty : key ≠ [])
    (unheld : ∀ v ∈ environment, ∀ p, place? program v.1 = some p → ¬p <+: key) :
    (top.at? key).all Data.isTable := by
  by_cases above : ∃ v ∈ environment, ∃ p, place? program v.1 = some p ∧ key <+: p
  · obtain ⟨v, member, p, placed, within⟩ := above
    have different : key ≠ p := fun same => unheld v member p placed (same ▸ List.prefix_rfl)
    obtain ⟨entries, found⟩ := gives.above v member p placed key within different
    rw [found]
    rfl
  · have apart : ∀ v ∈ environment, ∀ p, place? program v.1 = some p → Diverge p key :=
      fun v member p placed =>
        ⟨unheld v member p placed, fun within => above ⟨v, member, p, placed, within⟩⟩
    rw [gives.nothing key nonempty apart]
    rfl

theorem Gives.at?_eq (gives : Gives program environment top) (gives' : Gives program other top')
    (member : v ∈ environment) (member' : v ∈ other) (placed : place? program v.1 = some p)
    (within : p <+: key) : top.at? key = top'.at? key := by
  obtain ⟨rest, rfl⟩ := within
  obtain ⟨value, read, found⟩ := gives.value v member p placed
  obtain ⟨value', read', found'⟩ := gives'.value v member' p placed
  obtain rfl := Option.some.inj (read.symm.trans read')
  rw [found, found']

/-- What stands at a key depends on those variables only whose places do not diverge from it. -/
theorem Gives.alike (gives : Gives program environment top) (gives' : Gives program other top')
    (nonempty : key ≠ [])
    (agree : ∀ v p, place? program v.1 = some p → ¬Diverge p key → (v ∈ environment ↔ v ∈ other)) :
    Data.Alike (top.at? key) (top'.at? key) := by
  by_cases meets : ∃ v ∈ environment, ∃ p, place? program v.1 = some p ∧ ¬Diverge p key
  · obtain ⟨v, member, p, placed, joined⟩ := meets
    have member' := (agree v p placed joined).mp member
    by_cases within : p <+: key
    · exact Or.inl (gives.at?_eq gives' member member' placed within)
    · have above : key <+: p := Classical.not_not.mp fun outside => joined ⟨within, outside⟩
      have different : key ≠ p := fun same => within (same ▸ List.prefix_rfl)
      exact Or.inr ⟨gives.above v member p placed key above different,
        gives'.above v member' p placed key above different⟩
  · have apart : ∀ v ∈ environment, ∀ p, place? program v.1 = some p → Diverge p key :=
      fun v member p placed =>
        Classical.not_not.mp fun joined => meets ⟨v, member, p, placed, joined⟩
    have apart' : ∀ v ∈ other, ∀ p, place? program v.1 = some p → Diverge p key :=
      fun v member p placed => Classical.not_not.mp fun joined =>
        meets ⟨v, (agree v p placed joined).mpr member, p, placed, joined⟩
    rw [gives.nothing key nonempty apart, gives'.nothing key nonempty apart']
    exact Or.inl rfl

end Comparison

end Codemod.Environment
