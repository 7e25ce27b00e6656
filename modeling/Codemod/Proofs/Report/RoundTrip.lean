import Codemod.Proofs.Data.Decode
import Codemod.Proofs.Json.Document
import Codemod.Proofs.Text.Utf8
import Codemod.Report.Json
import Mathlib.Data.List.Forall2

/-! A report is read from its JSON as it was. Each of its parts is written as data without real
numbers, from which the part is read again. Two things limit this: a counter has 64 bits, and a path
has to be a text. -/
namespace Codemod

namespace Data

variable {α : Type} {read : Data → Option α}

theorem count?_ofNat {n : Nat} (fits : n < Text.unsignedLimit) : (ofNat n).count? = some n :=
  if_pos fits

/-- Data that is printed without loss and read as `x`. -/
structure Holds (read : Data → Option α) (d : Data) (x : α) : Prop where
  whole : d.Whole
  reads : read d = some x

theorem Holds.list {ds : List Data} {xs : List α} (each : List.Forall₂ (Holds read) ds xs) :
    Holds (each? read) (.list ds) xs := by
  have whole : ∀ d ∈ ds, d.Whole := by
    induction each with
    | nil => exact List.forall_mem_nil _
    | cons here _ ih => exact List.forall_mem_cons.mpr ⟨here.whole, ih⟩
  refine ⟨.list whole, ?_⟩
  rw [each?]
  clear whole
  induction each with
  | nil => rfl
  | cons here _ ih => simp [here.reads, ih]

theorem nullable_of_reads {d : Data} {x : α} (present : d ≠ .null) (reads : read d = some x) :
    nullable read d = some (some x) := by
  cases d <;> simp_all [nullable]

end Data

open Data (Holds)

/-- The bytes of the path are a text. -/
def Path.Textual (p : Path) : Prop := (Utf8.decode? p).isSome

theorem Path.textual_ofText (text : String) : (ofText text).Textual := by
  rw [Textual, ofText, Utf8.decode?_encode]
  rfl

theorem Path.holds {p : Path} (textual : p.Textual) :
    ∃ d, p.toData? = some d ∧ d ≠ .null ∧ Holds ofData? d p := by
  obtain ⟨text, decoded⟩ := Option.isSome_iff_exists.mp textual
  refine ⟨.text text, by rw [toData?, decoded]; rfl, by simp, .text text, ?_⟩
  have same := Utf8.encode_of_decode? decoded
  simp [ofData?, Data.text?, ofText, same]

namespace Tally

structure Fits (t : Tally) : Prop where
  scanned : t.scanned < Text.unsignedLimit
  changed : t.changed < Text.unsignedLimit
  replacements : t.replacements < Text.unsignedLimit

theorem holds {t : Tally} (fits : t.Fits) : Holds ofData? t.toData t := by
  have scanned := Data.count?_ofNat fits.scanned
  have changed := Data.count?_ofNat fits.changed
  have replacements := Data.count?_ofNat fits.replacements
  refine ⟨.entry (.integer _) (.entry (.integer _) (.entry (.integer _) .none)), ?_⟩
  simp [ofData?, toData, Data.slots, List.lookup_cons, Data.Slot.required, scanned, changed,
    replacements]

end Tally

namespace Progress

def Fits : Progress → Prop
  | .idle | .done => True
  | .running index | .failed index _ => index < Text.unsignedLimit

theorem holds {state : Progress} (fits : state.Fits) : Holds ofData? state.toData state := by
  cases state with
  | idle => exact ⟨.entry (.text _) .none, rfl⟩
  | done => exact ⟨.entry (.text _) .none, rfl⟩
  | running index =>
    have counted := Data.count?_ofNat fits
    refine ⟨.entry (.text _) (.entry (.integer _) .none), ?_⟩
    simp [ofData?, toData, Data.tagged, Data.slots, Data.Slot.required, counted]
  | failed index reason =>
    have counted := Data.count?_ofNat fits
    refine ⟨.entry (.text _) (.entry (.integer _) (.entry (.text _) .none)), ?_⟩
    simp [ofData?, toData, Data.tagged, Data.slots, List.lookup_cons, Data.Slot.required,
      Data.text?, counted]

end Progress

theorem Rule.holds (r : Rule) : Holds ofData? r.toData r := by
  refine ⟨.entry (.text _) (.entry (.text _) .none), ?_⟩
  simp [ofData?, toData, Data.slots, List.lookup_cons, Data.Slot.required, Data.text?]

namespace Outcome

def Fits : Outcome → Prop
  | .applied tally => tally.Fits
  | .failed .. => True

/-- A path that a failure names is a text. -/
def Textual : Outcome → Prop
  | .failed _ (some path) => path.Textual
  | _ => True

theorem holds {o : Outcome} (fits : o.Fits) (textual : o.Textual) :
    ∃ d, o.toData? = some d ∧ Holds ofData? d o := by
  cases o with
  | applied tally =>
    obtain ⟨whole, reads⟩ := Tally.holds fits
    refine ⟨_, rfl, .entry (.text _) (.entry whole .none), ?_⟩
    simp [ofData?, Data.tagged, Data.slots, Data.Slot.required, reads]
  | failed reason path =>
    cases path with
    | none =>
      refine ⟨_, rfl, .entry (.text _) (.entry (.text _) (.entry .null .none)), ?_⟩
      simp [ofData?, Data.tagged, Data.slots, List.lookup_cons, Data.Slot.required, Data.text?,
        Data.Slot.optional, Data.nullable]
    | some p =>
      obtain ⟨d, written, present, whole, reads⟩ := Path.holds textual
      have given := Data.nullable_of_reads present reads
      refine ⟨_, by simp only [toData?, written]; rfl,
        .entry (.text _) (.entry (.text _) (.entry whole .none)), ?_⟩
      simp [ofData?, Data.tagged, Data.slots, List.lookup_cons, Data.Slot.required, Data.text?,
        Data.Slot.optional, given]

end Outcome

namespace Attempt

structure Fits (a : Attempt) : Prop where
  index : a.index < Text.unsignedLimit
  outcome : a.outcome.Fits

theorem holds {a : Attempt} (fits : a.Fits) (textual : a.outcome.Textual) :
    ∃ d, a.toData? = some d ∧ Holds ofData? d a := by
  obtain ⟨outcome, written, whole, reads⟩ := Outcome.holds fits.outcome textual
  have index := Data.count?_ofNat fits.index
  have rule := Rule.holds a.rule
  refine ⟨.table [("index", .ofNat a.index), ("rule", a.rule.toData), ("outcome", outcome)],
    by simp only [toData?, written]; rfl,
    .entry (.integer _) (.entry rule.whole (.entry whole .none)), ?_⟩
  simp [ofData?, Data.slots, List.lookup_cons, Data.Slot.required, index, rule.reads, reads]

end Attempt

namespace Summary

structure Fits (s : Summary) : Prop where
  total : s.total < Text.unsignedLimit
  applied : s.applied < Text.unsignedLimit
  skipped : s.skipped < Text.unsignedLimit
  changed : s.changed < Text.unsignedLimit
  replacements : s.replacements < Text.unsignedLimit

theorem holds {s : Summary} (fits : s.Fits) : Holds ofData? s.toData s := by
  have total := Data.count?_ofNat fits.total
  have applied := Data.count?_ofNat fits.applied
  have skipped := Data.count?_ofNat fits.skipped
  have changed := Data.count?_ofNat fits.changed
  have replacements := Data.count?_ofNat fits.replacements
  refine ⟨.entry (.integer _) (.entry (.integer _) (.entry (.integer _)
    (.entry (.integer _) (.entry (.integer _) (.entry (.flag _) .none))))), ?_⟩
  simp [ofData?, toData, Data.slots, List.lookup_cons, Data.Slot.required, total, applied,
    skipped, changed, replacements, Data.flag?]

end Summary

namespace Report

/-- Every counter has at most 64 bits. -/
structure Fits (r : Report) : Prop where
  attempts : ∀ a ∈ r.attempts, a.Fits
  progress : r.progress.Fits
  summary : r.summary.Fits

/-- The root and the paths of the failures are texts. -/
structure Textual (r : Report) : Prop where
  root : r.root.Textual
  attempts : ∀ a ∈ r.attempts, a.outcome.Textual

theorem holds_attempts {attempts : List Attempt} (fits : ∀ a ∈ attempts, a.Fits)
    (textual : ∀ a ∈ attempts, a.outcome.Textual) :
    ∃ ds, attempts.mapM Attempt.toData? = some ds ∧
      List.Forall₂ (Holds Attempt.ofData?) ds attempts := by
  induction attempts with
  | nil => exact ⟨[], rfl, .nil⟩
  | cons a attempts ih =>
    obtain ⟨fitsHere, fitsLater⟩ := List.forall_mem_cons.mp fits
    obtain ⟨textualHere, textualLater⟩ := List.forall_mem_cons.mp textual
    obtain ⟨d, written, holds⟩ := Attempt.holds fitsHere textualHere
    obtain ⟨ds, others, each⟩ := ih fitsLater textualLater
    exact ⟨d :: ds, by simp [written, others], .cons holds each⟩

theorem holds {r : Report} (fits : r.Fits) (textual : r.Textual) :
    ∃ d, r.toData? = some d ∧ Holds ofData? d r := by
  obtain ⟨root, located, _, rootWhole, rootReads⟩ := Path.holds textual.root
  obtain ⟨ds, written, each⟩ := holds_attempts fits.attempts textual.attempts
  obtain ⟨attemptsWhole, attemptsRead⟩ := Holds.list each
  have progress := Progress.holds fits.progress
  have summary := Summary.holds fits.summary
  refine ⟨_, by simp only [toData?, located, written]; rfl,
    .entry (.text _) (.entry rootWhole (.entry (.flag _) (.entry attemptsWhole
      (.entry progress.whole (.entry summary.whole .none))))), ?_⟩
  simp [ofData?, Data.slots, List.lookup_cons, Data.Slot.required, Data.text?, Data.flag?,
    rootReads, attemptsRead, progress.reads, summary.reads]

theorem ofJson?_of_holds {r : Report} {d : Data} (written : r.toData? = some d)
    (holds : Holds ofData? d r) : ofJson? r.json = some r := by
  rw [ofJson?, json, written, Option.getD_some, Json.read_print Json.pretty_blank holds.whole]
  exact holds.reads

/-- A report is read from its JSON as it was, so that no other prints the same JSON. -/
theorem ofJson?_json {r : Report} (fits : r.Fits) (textual : r.Textual) :
    ofJson? r.json = some r ∧
      ∀ other : Report, other.Fits → other.Textual → other.json = r.json → other = r := by
  have back : ∀ r : Report, r.Fits → r.Textual → ofJson? r.json = some r := by
    intro r fits textual
    obtain ⟨d, written, holds⟩ := Report.holds fits textual
    exact ofJson?_of_holds written holds
  refine ⟨back r fits textual, fun other fits' textual' same => ?_⟩
  have read := back other fits' textual'
  rw [same, back r fits textual] at read
  exact (Option.some.inj read).symm

/-- A failed run with controls, quotes and characters beyond ASCII in its texts and paths. -/
def knotted : Report where
  timestamp := "\x00\"2024\\"
  root := Path.ofText "/é\n"
  dryRun := true
  attempts := [
    ⟨0, ⟨"\x1f\t", "\u2028😀"⟩, .applied ⟨18446744073709551615, 1, 18446744073709551615⟩⟩,
    ⟨1, ⟨"", "\x7f"⟩, .failed "not found" none⟩,
    ⟨18446744073709551615, ⟨"a", "b"⟩, .failed "\r\x08\x0c" (some (Path.ofText "ü\x01/\""))⟩]
  progress := .failed 18446744073709551615 "\\u0041"
  summary := ⟨3, 1, 0, 1, 18446744073709551615, false⟩

theorem ofJson?_json_knotted :
    knotted.Fits ∧ knotted.Textual ∧ ofJson? knotted.json = some knotted ∧
      ∀ other : Report, other.Fits → other.Textual → other.json = knotted.json →
        other = knotted := by
  have fits : knotted.Fits := by
    have greatest : 18446744073709551615 < Text.unsignedLimit := by decide
    refine ⟨?_, greatest, ⟨by decide, by decide, by decide, by decide, by decide⟩⟩
    simp only [knotted, List.forall_mem_cons, List.not_mem_nil, false_implies, implies_true]
    exact ⟨⟨by decide, by decide, by decide, by decide⟩, ⟨by decide, trivial⟩,
      ⟨by decide, trivial⟩, trivial⟩
  have textual : knotted.Textual := by
    refine ⟨Path.textual_ofText _, ?_⟩
    simp only [knotted, List.forall_mem_cons, List.not_mem_nil, false_implies, implies_true]
    exact ⟨trivial, trivial, Path.textual_ofText _, trivial⟩
  exact ⟨fits, textual, ofJson?_json fits textual⟩

end Report

end Codemod
