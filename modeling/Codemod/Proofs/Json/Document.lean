import Codemod.Proofs.Json.Token

/-! Printed data is read as it was, whatever the layout, if there is no real number in it. The tokens
of the data stand between the printer and the reader: the text of a value is read to its tokens, and
its tokens take the reader from where a value may stand to behind this value. -/
namespace Codemod

/-- Data without real numbers, of which one can be written in more than one way. -/
inductive Data.Whole : Data → Prop where
  | null : Whole .null
  | flag (value : Bool) : Whole (.flag value)
  | integer (value : Int) : Whole (.integer value)
  | text (value : String) : Whole (.text value)
  | list {items : List Data} (each : ∀ d ∈ items, Whole d) : Whole (.list items)
  | table {entries : List (String × Data)} (each : ∀ entry ∈ entries, Whole entry.2) :
    Whole (.table entries)

theorem Data.Whole.none : (Data.table []).Whole := .table (List.forall_mem_nil _)

theorem Data.Whole.entry {name : String} {d : Data} {entries : List (String × Data)}
    (here : d.Whole) (others : (Data.table entries).Whole) :
    (Data.table ((name, d) :: entries)).Whole := by
  cases others with
  | table each => exact .table (List.forall_mem_cons.mpr ⟨here, each⟩)

namespace Json

mutual

def tokens : Data → List Token
  | .null => [.word ['n', 'u', 'l', 'l']]
  | .flag true => [.word ['t', 'r', 'u', 'e']]
  | .flag false => [.word ['f', 'a', 'l', 's', 'e']]
  | .integer value => [.word (toString value).toList]
  | .real literal => [.word literal.toList]
  | .text s => [.text s]
  | .list [] => [.mark '[', .mark ']']
  | .list (item :: items) => .mark '[' :: (tokens item ++ (itemTokens items ++ [.mark ']']))
  | .table [] => [.mark '\x7b', .mark '\x7d']
  | .table ((name, value) :: entries) =>
    .mark '\x7b' :: .text name :: .mark ':' ::
      (tokens value ++ (entryTokens entries ++ [.mark '\x7d']))

/-- The tokens of the items behind the first of a list. -/
def itemTokens : List Data → List Token
  | [] => []
  | item :: items => .mark ',' :: (tokens item ++ itemTokens items)

def entryTokens : List (String × Data) → List Token
  | [] => []
  | (name, value) :: entries =>
    .mark ',' :: .text name :: .mark ':' :: (tokens value ++ entryTokens entries)

end

section Texts

open Toml (Reads)

/-- There are only blanks between the marks. -/
structure Layout.Blank (l : Layout) : Prop where
  line : ∀ depth, ∀ c ∈ l.line depth, isSpace c = true
  gap : ∀ c ∈ l.gap, isSpace c = true

theorem pretty_blank : Layout.pretty.Blank where
  line := by
    intro depth c member
    rcases List.mem_cons.mp member with rfl | member
    · rfl
    · rw [(List.mem_replicate.mp member).2]
      rfl
  gap := by simp [Layout.pretty, isSpace]

variable {l : Layout} {items : List Data} {entries : List (String × Data)} {d : Data}
  {close : List Char} {ts : List Token} {depth : Nat}

theorem parts_items (blank : l.Blank) (closing : Parts close ts)
    (each : ∀ d ∈ items, Yields (render l depth d) (tokens d)) :
    Parts (renderItems l depth items ++ close) (itemTokens items ++ ts) := by
  induction items with
  | nil => simpa only [renderItems, itemTokens, List.nil_append] using closing
  | cons d items ih =>
    obtain ⟨here, later⟩ := List.forall_mem_cons.mp each
    have item := (reads_blanks (blank.line depth)).append (here.append (ih later))
    have parts := (parts_mark (c := ',') rfl rfl).append item
    simpa [renderItems, itemTokens] using parts

/-- A name with its value and what follows it. -/
theorem reads_entry (blank : l.Blank) (name : String) (here : Yields (render l depth d) (tokens d))
    (closing : Parts close ts) :
    Toml.Reads (lex .between)
      (l.line depth ++ (quote name ++ (':' :: (l.gap ++ (render l depth d ++ close)))))
      (.text name :: .mark ':' :: (tokens d ++ ts)) := by
  have value := (reads_blanks blank.gap).append (here.append closing)
  have named := (reads_quote name).append ((reads_mark (c := ':') rfl rfl).append value)
  exact (reads_blanks (blank.line depth)).append named

theorem parts_entries (blank : l.Blank) (closing : Parts close ts)
    (each : ∀ entry ∈ entries, Yields (render l depth entry.2) (tokens entry.2)) :
    Parts (renderEntries l depth entries ++ close) (entryTokens entries ++ ts) := by
  induction entries with
  | nil => simpa only [renderEntries, entryTokens, List.nil_append] using closing
  | cons entry entries ih =>
    obtain ⟨here, later⟩ := List.forall_mem_cons.mp each
    have parts := (parts_mark (c := ',') rfl rfl).append (reads_entry blank entry.1 here (ih later))
    simpa [renderEntries, entryTokens] using parts

theorem parts_close (blank : l.Blank) (depth : Nat) {m : Char}
    (mark : isMark m = true) (unspaced : isSpace m = false) : Parts (l.line depth ++ [m]) [.mark m] :=
  (parts_mark mark unspaced).after_blanks (blank.line depth)

/-- The text of a value is read to its tokens. -/
theorem yields_render (blank : l.Blank) (whole : d.Whole) (depth : Nat) :
    Yields (render l depth d) (tokens d) := by
  induction whole generalizing depth with
  | null =>
    rw [render, tokens]
    exact yields_word (by simp) (by simp [endsWord, isSpace, isMark])
  | flag value =>
    cases value with
    | true =>
      rw [render, tokens]
      exact yields_word (by simp) (by simp [endsWord, isSpace, isMark])
    | false =>
      rw [render, tokens]
      exact yields_word (by simp) (by simp [endsWord, isSpace, isMark])
  | integer value => exact yields_toString value
  | text value => exact yields_of_reads (reads_quote value)
  | @list items each ih =>
    have opened := reads_mark (c := '[') rfl rfl
    cases items with
    | nil => exact yields_of_reads (opened.append (reads_mark (c := ']') rfl rfl))
    | cons d items =>
      obtain ⟨here, later⟩ := List.forall_mem_cons.mp ih
      have others := parts_items blank (parts_close blank depth (m := ']') rfl rfl)
        fun d member => later d member (depth + 1)
      have inside := (reads_blanks (blank.line (depth + 1))).append
        ((here (depth + 1)).append others)
      refine yields_of_reads ?_
      simpa [render, tokens] using opened.append inside
  | @table entries each ih =>
    have opened := reads_mark (c := '\x7b') rfl rfl
    cases entries with
    | nil => exact yields_of_reads (opened.append (reads_mark (c := '\x7d') rfl rfl))
    | cons entry entries =>
      obtain ⟨here, later⟩ := List.forall_mem_cons.mp ih
      have others := parts_entries blank (parts_close blank depth (m := '\x7d') rfl rfl)
        fun entry member => later entry member (depth + 1)
      have inside := reads_entry blank entry.1 (here (depth + 1)) others
      refine yields_of_reads ?_
      simpa [render, tokens] using opened.append inside

end Texts

section Values

variable {state next last : Expecting} {ts us : List Token} {t : Token} {items done : List Data}
  {entries before : List (String × Data)} {d v : Data} {name : String} {stack : List Frame}

/-- The reader passes over these tokens, whatever follows. -/
def Leads (state : Expecting) (ts : List Token) (next : Expecting) : Prop :=
  ∀ rest, readTokens state (ts ++ rest) = readTokens next rest

theorem leads_step (moved : readStep state t = some next) : Leads state [t] next := by
  intro rest
  simp [readTokens, moved]

theorem Leads.append (first : Leads state ts next) (second : Leads next us last) :
    Leads state (ts ++ us) last := by
  intro rest
  rw [List.append_assoc, first, second]

theorem Leads.cons (next : Expecting) (moved : readStep state t = some next)
    (second : Leads next us last) : Leads state (t :: us) last :=
  (leads_step moved).append second

/-- The other items of a list that holds some already, and its end. -/
theorem leads_items
    (each : ∀ d ∈ items, ∀ first stack, Leads (.value first stack) (tokens d) (.after d stack)) :
    Leads (.after v (.list done :: stack)) (itemTokens items ++ [.mark ']'])
      (.after (.list (done.reverse ++ v :: items)) stack) := by
  induction items generalizing v done with
  | nil =>
    refine leads_step ?_
    simp [readStep]
  | cons d items ih =>
    obtain ⟨here, later⟩ := List.forall_mem_cons.mp each
    have shape : done.reverse ++ v :: d :: items = (v :: done).reverse ++ d :: items := by simp
    simp only [itemTokens, List.cons_append, List.append_assoc]
    refine Leads.cons (.value false (.list (v :: done) :: stack)) rfl ((here _ _).append ?_)
    rw [shape]
    exact ih later

theorem leads_entries
    (each : ∀ entry ∈ entries, ∀ first stack,
      Leads (.value first stack) (tokens entry.2) (.after entry.2 stack)) :
    Leads (.after v (.table before name :: stack)) (entryTokens entries ++ [.mark '\x7d'])
      (.after (.table (before.reverse ++ (name, v) :: entries)) stack) := by
  induction entries generalizing v name before with
  | nil =>
    refine leads_step ?_
    simp [readStep]
  | cons entry entries ih =>
    obtain ⟨here, later⟩ := List.forall_mem_cons.mp each
    have shape : before.reverse ++ (name, v) :: entry :: entries =
        ((name, v) :: before).reverse ++ entry :: entries := by simp
    simp only [entryTokens, List.cons_append, List.append_assoc]
    refine Leads.cons (.name false ((name, v) :: before) stack) rfl ?_
    refine Leads.cons (.colon ((name, v) :: before) entry.1 stack) rfl ?_
    refine Leads.cons (.value false (.table ((name, v) :: before) entry.1 :: stack)) rfl ?_
    refine (here _ _).append ?_
    rw [shape]
    exact ih later

/-- The tokens of a value take the reader from where it may stand to behind it. -/
theorem leads_tokens (whole : d.Whole) (first : Bool) (stack : List Frame) :
    Leads (.value first stack) (tokens d) (.after d stack) := by
  induction whole generalizing first stack with
  | null => exact leads_step rfl
  | flag value => cases value <;> exact leads_step rfl
  | integer value =>
    refine leads_step ?_
    simp only [readStep, wordValue?_toString, Option.map_some]
  | text value => exact leads_step rfl
  | @list items each ih =>
    cases items with
    | nil => exact Leads.cons (.value true (.list [] :: stack)) rfl (leads_step rfl)
    | cons d items =>
      obtain ⟨here, later⟩ := List.forall_mem_cons.mp ih
      exact Leads.cons (.value true (.list [] :: stack)) rfl ((here _ _).append (leads_items later))
  | @table entries each ih =>
    cases entries with
    | nil => exact Leads.cons (.name true [] stack) rfl (leads_step rfl)
    | cons entry entries =>
      obtain ⟨here, later⟩ := List.forall_mem_cons.mp ih
      refine Leads.cons (.name true [] stack) rfl ?_
      refine Leads.cons (.colon [] entry.1 stack) rfl ?_
      refine Leads.cons (.value false (.table [] entry.1 :: stack)) rfl ?_
      exact (here _ _).append (leads_entries later)

end Values

/-- Data without real numbers is read from its text as it was. -/
theorem read_print {l : Layout} (blank : l.Blank) {d : Data} (whole : d.Whole) :
    read (print l d) = some d := by
  have lexed := (yields_render blank whole 0).whole
  have value := leads_tokens whole false [] []
  rw [List.append_nil] at value
  rw [read, print, String.toList_ofList, lexed]
  exact value

end Json

end Codemod
