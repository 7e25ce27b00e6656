import Codemod.Proofs.Disk.Revision
import Codemod.Proofs.Rule.Occurrence
import Codemod.Proofs.Text.Utf8

/-! Several rules on one text, each on what the rules before it left: the text in the end, the last
text that was made on the way, and how many rules made one. What the rules do to a file follows
from these, since every text is read back as it was written. -/
namespace Codemod.Rule

def replaceAll (rules : List Rule) (text : String) : String :=
  rules.foldl (fun text r => r.replaceIn text) text

/-- The last text that one of the rules made, if any of them matched in its turn. -/
def draft? : List Rule → String → Option String
  | [], _ => none
  | r :: rules, text => (draft? rules (r.replaceIn text)).or ((r.replaceIn? text).map (·.1))

def hits : List Rule → String → Nat
  | [], _ => 0
  | r :: rules, text => (if r.count text = 0 then 0 else 1) + hits rules (r.replaceIn text)

@[simp] theorem replaceAll_cons (r : Rule) (rules : List Rule) (text : String) :
    replaceAll (r :: rules) text = replaceAll rules (r.replaceIn text) := rfl

/-- A text of which no draft was made is unchanged. -/
theorem getD_draft? (rules : List Rule) (text : String) :
    (draft? rules text).getD text = replaceAll rules text := by
  induction rules generalizing text with
  | nil => rfl
  | cons r rules ih =>
    rw [draft?, replaceAll_cons, ← ih]
    cases draft? rules (r.replaceIn text) <;> rfl

theorem draft?_append (rules : List Rule) (r : Rule) (text : String) :
    draft? (rules ++ [r]) text =
      ((r.replaceIn? (replaceAll rules text)).map (·.1)).or (draft? rules text) := by
  induction rules generalizing text with
  | nil => simp [draft?, replaceAll]
  | cons first rules ih => simp [draft?, ih, Option.or_assoc]

theorem draft?_eq_none_iff {rules : List Rule} {text : String} :
    draft? rules text = none ↔ hits rules text = 0 := by
  induction rules generalizing text with
  | nil => simp [draft?, hits]
  | cons r rules ih =>
    by_cases absent : r.count text = 0
    · simp [draft?, hits, ih, absent, replaceIn?_of_count_eq_zero]
    · simp [draft?, hits, absent, replaceIn?_of_count_ne_zero]

theorem hits_ne_zero_of_draft? {rules : List Rule} {text draft : String}
    (made : draft? rules text = some draft) : hits rules text ≠ 0 := by
  intro unopened
  rw [draft?_eq_none_iff.mpr unopened] at made
  cases made

/-- Some rule made a new text if and only if its pattern stood in what the rules before it left. -/
theorem hits_ne_zero_iff {rules : List Rule} {text : String} :
    hits rules text ≠ 0 ↔ ∃ k, ∃ inside : k < rules.length,
      rules[k].Matches (replaceAll (rules.take k) text) := by
  induction rules generalizing text with
  | nil => simp [hits]
  | cons r rules ih =>
    have split : hits (r :: rules) text ≠ 0 ↔
        r.count text ≠ 0 ∨ hits rules (r.replaceIn text) ≠ 0 := by
      by_cases absent : r.count text = 0 <;> simp [hits, absent]
    rw [split, ih, count_ne_zero_iff]
    constructor
    · rintro (first | ⟨k, inside, later⟩)
      · exact ⟨0, by simp, first⟩
      · exact ⟨k + 1, by simpa using inside, later⟩
    · rintro ⟨k, inside, found⟩
      cases k with
      | zero => exact Or.inl found
      | succ k => exact Or.inr ⟨k, by simpa using inside, found⟩

/-- What a rule makes of a file: a new text is written, which opens the file once; a file without
an occurrence, or without a text, stays as it is. -/
def amend (r : Rule) (leaf : Leaf) : Leaf :=
  match (Utf8.decode? leaf.content).bind r.replaceIn? with
  | some (updated, _) => ⟨Utf8.encode updated, leaf.revision + 1⟩
  | none => leaf

def amendAll (rules : List Rule) (leaf : Leaf) : Leaf :=
  rules.foldl (fun leaf r => r.amend leaf) leaf

theorem amend_of_count_eq_zero {r : Rule} {leaf : Leaf} {text : String}
    (read : Utf8.decode? leaf.content = some text) (absent : r.count text = 0) :
    r.amend leaf = leaf := by
  simp [amend, read, replaceIn?_of_count_eq_zero absent]

theorem amend_of_count_ne_zero {r : Rule} {leaf : Leaf} {text : String}
    (read : Utf8.decode? leaf.content = some text) (present : r.count text ≠ 0) :
    r.amend leaf = ⟨Utf8.encode (r.replaceIn text), leaf.revision + 1⟩ := by
  simp [amend, read, replaceIn?_of_count_ne_zero present]

theorem amend_of_unread {r : Rule} {leaf : Leaf} (unread : Utf8.decode? leaf.content = none) :
    r.amend leaf = leaf := by
  simp [amend, unread]

theorem amendAll_of_unread (rules : List Rule) {leaf : Leaf}
    (unread : Utf8.decode? leaf.content = none) : amendAll rules leaf = leaf := by
  induction rules with
  | nil => rfl
  | cons r rules ih => rw [amendAll, List.foldl_cons, amend_of_unread unread, ← amendAll, ih]

/-- A file holds the last text that was made of its own, and was opened once for every rule that
matched. -/
theorem amendAll_eq {rules : List Rule} {content : Bytes} {text : String}
    (read : Utf8.decode? content = some text) (revision : Nat) :
    amendAll rules ⟨content, revision⟩ =
      ⟨((draft? rules text).map Utf8.encode).getD content, revision + hits rules text⟩ := by
  induction rules generalizing content text revision with
  | nil => rfl
  | cons r rules ih =>
    by_cases absent : r.count text = 0
    · have kept := replaceIn_of_count_eq_zero absent
      have first : r.amend ⟨content, revision⟩ = ⟨content, revision⟩ :=
        amend_of_count_eq_zero read absent
      rw [amendAll, List.foldl_cons, first, ← amendAll, ih read]
      simp [draft?, hits, absent, kept, replaceIn?_of_count_eq_zero]
    · have first : r.amend ⟨content, revision⟩ =
          ⟨Utf8.encode (r.replaceIn text), revision + 1⟩ := amend_of_count_ne_zero read absent
      rw [amendAll, List.foldl_cons, first, ← amendAll, ih (Utf8.decode?_encode _)]
      simp only [draft?, hits, absent, if_false, replaceIn?_of_count_ne_zero absent,
        Option.map_some, Leaf.mk.injEq]
      refine ⟨?_, by omega⟩
      cases draft? rules (r.replaceIn text) <;> rfl

theorem decode?_amendAll {rules : List Rule} {leaf : Leaf} {text : String}
    (read : Utf8.decode? leaf.content = some text) :
    Utf8.decode? (amendAll rules leaf).content = some (replaceAll rules text) := by
  rw [amendAll_eq read, ← getD_draft?]
  cases draft? rules text with
  | none => simpa using read
  | some draft => simp

end Codemod.Rule
