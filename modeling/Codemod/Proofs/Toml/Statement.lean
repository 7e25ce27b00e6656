import Codemod.Proofs.Path.Descent
import Codemod.Proofs.Toml.Quoting
import Codemod.Toml.Statement

/-! Entries and headers that are written are read as the statements they were written for. A value
has tokens up to the end of its line, and these tokens lead to the value. -/
namespace Codemod.Toml

open Text (isNameChar)

section Steps

variable {state next : Reading} {token : Token} {statement : Statement}

theorem statementsFrom_go (next : Reading) (moved : state.step token = next.go)
    (rest : List Token) : statementsFrom state (token :: rest) = statementsFrom next rest := by
  simp [statementsFrom, moved, Reading.go]

theorem statementsFrom_emit (moved : state.step token = Reading.emit statement next)
    (rest : List Token) : statementsFrom state (token :: rest) =
      (statementsFrom next rest).map ([statement] ++ ·) := by
  simp only [statementsFrom, moved, Reading.emit, Option.bind_eq_bind, Option.bind_some]
  rcases statementsFrom next rest with _ | statements <;> rfl

end Steps

section Names

variable {name : String}

/-- A name that needs no quotes and is not read as a date. -/
def isBare (name : String) : Bool :=
  name.toList != [] && name.toList.all isNameChar && !isDate name.toList

theorem isWordChar_of_isNameChar {c : Char} (inside : isNameChar c = true) :
    isWordChar c = true := by
  simp only [isNameChar, Bool.or_eq_true] at inside
  simp only [isWordChar, Bool.or_eq_true]
  exact Or.inl (Or.inl (Or.inl inside))

theorem reads_bare (bare : isBare name = true) {c : Char} (outside : isWordChar c = false) :
    ReadsBefore (tokensFrom .between) c name.toList [.word name.toList] := by
  simp only [isBare, Bool.and_eq_true, bne_iff_ne, List.all_eq_true, Bool.not_eq_true'] at bare
  obtain ⟨⟨nonempty, inside⟩, undated⟩ := bare
  exact reads_word nonempty (fun x member => isWordChar_of_isNameChar (inside x member)) undated
    outside

theorem keyParts?_bare (bare : isBare name = true) :
    keyParts? [.word name.toList] = some [some name.toList] := by
  simp only [isBare, Bool.and_eq_true, bne_iff_ne, List.all_eq_true, Bool.not_eq_true'] at bare
  obtain ⟨⟨nonempty, inside⟩, _⟩ := bare
  have pointless : '.' ∉ name.toList := by
    intro member
    exact absurd (inside '.' member) (by decide)
  have valid : (name.toList.all fun c => isNameChar c || c == '.') = true := by
    rw [List.all_eq_true]
    intro c member
    rw [inside c member, Bool.true_or]
  rw [keyParts?, if_pos valid, wordParts, splitOn_of_not_mem pointless]
  simp [keyParts?, nonempty]

theorem key?_bare (bare : isBare name = true) :
    key? [.word name.toList] = some ⟨[], name⟩ := by
  rw [key?, keyParts?_bare bare]
  simp [names?, depthLimit]

theorem key?_bare_blank (bare : isBare name = true) :
    key? [.word name.toList, .blank] = some ⟨[], name⟩ := by
  have alike : keyParts? [.word name.toList, .blank] = keyParts? [.word name.toList] := rfl
  rw [key?, alike]
  exact key?_bare bare

end Names

section Values

variable {text : List Char} {d : Data}

/-- The tokens of a value's text up to the end of its line lead to the value. -/
def Denotes (text : List Char) (d : Data) : Prop :=
  ∃ tokens, ReadsBefore (tokensFrom .between) '\n' text tokens ∧
    ∀ key rest, statementsFrom (.awaiting key []) (tokens ++ rest) =
      statementsFrom (.after key d []) rest

theorem statementsFrom_stringToken (s : String) (key : Key) (stack : List Frame)
    (rest : List Token) : statementsFrom (.awaiting key stack) (stringToken s :: rest) =
      statementsFrom (.after key (.text s) stack) rest := by
  refine statementsFrom_go _ ?_ rest
  rw [stringToken]
  cases Form.ofText s.toList <;> simp [Reading.step, Reading.valueStep]

theorem denotes_string (s : String) : Denotes (writeString s) (.text s) :=
  ⟨[stringToken s], reads_writeString s (by decide) (by decide),
    fun key rest => statementsFrom_stringToken s key [] rest⟩

theorem denotes_flag (b : Bool) : Denotes (writeFlag b) (.flag b) := by
  refine ⟨[.word (writeFlag b)], ?_, fun key rest => ?_⟩
  · have letters : (writeFlag b).all isWordChar = true := by
      cases b <;> decide +kernel
    exact reads_word (by cases b <;> simp [writeFlag]) (List.all_eq_true.mp letters)
      (by cases b <;> decide +kernel) rfl
  · refine statementsFrom_go _ ?_ rest
    cases b <;> rfl

/-- The tokens of one of several strings, on a line of its own. -/
def itemTokens (s : String) : List Token :=
  [.blank, .blank, .blank, .blank, stringToken s, .mark ',', .newline]

theorem reads_item (s : String) : Reads (tokensFrom .between)
    ([' ', ' ', ' ', ' '] ++ writeString s ++ [',', '\n']) (itemTokens s) := by
  have comma : Reads (tokensFrom .between) [','] [.mark ','] := reads_char rfl
  have string : ReadsBefore (tokensFrom .between) ',' (writeString s) [stringToken s] :=
    reads_writeString s (by decide) (by decide)
  rw [List.append_assoc]
  exact (reads_blank.append (reads_blank.append (reads_blank.append reads_blank))).append
    (string.append (comma.append reads_newline))

theorem statementsFrom_items (strings : List String) (key : Key) (items : List Data)
    (rest : List Token) :
    statementsFrom (.awaiting key [.array items])
        (strings.flatMap itemTokens ++ .mark ']' :: rest) =
      statementsFrom (.after key (.list (items.reverse ++ strings.map .text)) []) rest := by
  induction strings generalizing items with
  | nil =>
    rw [List.map_nil, List.append_nil]
    exact statementsFrom_go _ rfl rest
  | cons s strings ih =>
    have grown : items.reverse ++ (s :: strings).map Data.text =
        (Data.text s :: items).reverse ++ strings.map .text := by
      simp
    rw [grown, ← ih (.text s :: items), List.flatMap_cons, itemTokens]
    simp only [List.cons_append, List.nil_append]
    iterate 4 rw [statementsFrom_go (.awaiting key [.array items]) rfl]
    rw [statementsFrom_stringToken,
      statementsFrom_go (.awaiting key [.array (.text s :: items)]) rfl]
    exact statementsFrom_go _ rfl _

theorem denotes_strings (strings : List String) :
    Denotes (writeStrings strings) (.texts strings) := by
  rcases strings with _ | ⟨s, _ | ⟨s', strings⟩⟩
  · refine ⟨[.mark '[', .mark ']'], (reads_open.append reads_close).before '\n', fun key rest => ?_⟩
    exact (statementsFrom_go (.awaiting key [.array []]) rfl _).trans (statementsFrom_go _ rfl rest)
  · have string : ReadsBefore (tokensFrom .between) ']' (writeString s) [stringToken s] :=
      reads_writeString s (by decide) (by decide)
    refine ⟨[.mark '[', stringToken s, .mark ']'],
      (reads_open.append (string.append reads_close)).before '\n', fun key rest => ?_⟩
    simp only [List.cons_append, List.nil_append]
    rw [statementsFrom_go (.awaiting key [.array []]) rfl, statementsFrom_stringToken]
    exact statementsFrom_go _ rfl rest
  · have items := Reads.flatMap reads_item (s :: s' :: strings)
    have lexed := ((reads_open.append reads_newline).append items).append reads_close
    refine ⟨_, lexed.before '\n', fun key rest => ?_⟩
    simp only [List.cons_append, List.nil_append, List.append_assoc]
    rw [statementsFrom_go (.awaiting key [.array []]) rfl,
      statementsFrom_go (.awaiting key [.array []]) rfl]
    exact statementsFrom_items (s :: s' :: strings) key [] rest

end Values

section Lines

variable {α : Type} {text more : List Char} {described others : List Statement} {name : String}

/-- A text is read as these statements, whatever follows. -/
def Describes (text : List Char) (described : List Statement) : Prop :=
  ∃ tokens, Reads (tokensFrom .between) text tokens ∧
    Reads (statementsFrom .lineStart) tokens described

theorem Describes.nil : Describes [] [] := ⟨[], Reads.nil _, Reads.nil _⟩

theorem Describes.append (first : Describes text described) (second : Describes more others) :
    Describes (text ++ more) (described ++ others) := by
  obtain ⟨tokens, lexed, read⟩ := first
  obtain ⟨later, lexed', read'⟩ := second
  exact ⟨tokens ++ later, lexed.append lexed', read.append read'⟩

theorem Describes.flatMap {f : α → List Char} {g : α → List Statement}
    (each : ∀ x, Describes (f x) (g x)) (items : List α) :
    Describes (items.flatMap f) (items.flatMap g) := by
  induction items with
  | nil => exact Describes.nil
  | cons item items ih => exact (each item).append ih

/-- A whole text that begins with no byte order mark. -/
theorem Describes.whole (describes : Describes text described)
    (unmarked : text.head? ≠ some '\uFEFF') :
    (tokens text).bind statements = some described := by
  obtain ⟨lexed, reads, states⟩ := describes
  have all : tokens text = tokensFrom .between text := by
    rcases text with _ | ⟨c, text⟩
    · rfl
    · have apart : c ≠ '\uFEFF' := fun same => unmarked (congrArg some same)
      simp [tokens, apart]
  rw [all, reads.whole rfl, Option.bind_some]
  exact states.whole rfl

theorem describes_entry (name : String) {d : Data} (bare : isBare name = true)
    (value : Denotes text d) :
    Describes (entry name text) [.assign ⟨[], name⟩ d] := by
  obtain ⟨tokens, lexed, leads⟩ := value
  have equals : Reads (tokensFrom .between) ['='] [.mark '='] := reads_char rfl
  have named : ReadsBefore (tokensFrom .between) ' ' name.toList [.word name.toList] :=
    reads_bare bare (by decide)
  refine ⟨[.word name.toList] ++ [.blank, .mark '=', .blank] ++ (tokens ++ [.newline]), ?_, ?_⟩
  · rw [entry, List.append_assoc]
    exact (named.append (reads_blank.append (equals.append reads_blank))).append
      (lexed.append reads_newline)
  · intro rest
    have key : Reading.step (.names [.blank, .word name.toList]) (.mark '=') =
        Reading.go (.awaiting ⟨[], name⟩ []) := by
      simp [Reading.step, key?_bare_blank bare]
    simp only [List.cons_append, List.nil_append, List.append_assoc]
    rw [statementsFrom_go (.names [.word name.toList]) rfl,
      statementsFrom_go (.names [.blank, .word name.toList]) rfl, statementsFrom_go _ key,
      statementsFrom_go (.awaiting ⟨[], name⟩ []) rfl, leads]
    exact statementsFrom_emit rfl rest

theorem describes_table (bare : isBare name = true) :
    Describes (['\n', '['] ++ (name.toList ++ [']', '\n'])) [.table ⟨[], name⟩] := by
  have named : ReadsBefore (tokensFrom .between) ']' name.toList [.word name.toList] :=
    reads_bare bare (by decide)
  refine ⟨_, (reads_newline.append reads_open).append
    (named.append (reads_close.append reads_newline)), ?_⟩
  intro rest
  have ended : Reading.step (.header false [.word name.toList]) (.mark ']') =
      Reading.emit (.table ⟨[], name⟩) .lineEnd := by
    simp [Reading.step, Reading.headerStep, key?_bare bare]
  simp only [List.cons_append, List.nil_append]
  rw [statementsFrom_go .lineStart rfl, statementsFrom_go .bracket rfl,
    statementsFrom_go (.header false [.word name.toList]) rfl, statementsFrom_emit ended,
    statementsFrom_go .lineStart rfl]
  rfl

theorem describes_element (bare : isBare name = true) :
    Describes (['\n', '[', '['] ++ (name.toList ++ [']', ']', '\n'])) [.element ⟨[], name⟩] := by
  have named : ReadsBefore (tokensFrom .between) ']' name.toList [.word name.toList] :=
    reads_bare bare (by decide)
  refine ⟨_, (reads_newline.append (reads_open.append reads_open)).append
    (named.append (reads_close.append (reads_close.append reads_newline))), ?_⟩
  intro rest
  have first : Reading.step (.header true [.word name.toList]) (.mark ']') =
      Reading.go (.headerEnd ⟨[], name⟩) := by
    simp [Reading.step, Reading.headerStep, key?_bare bare]
  have second : Reading.step (.headerEnd ⟨[], name⟩) (.mark ']') =
      Reading.emit (.element ⟨[], name⟩) .lineEnd := by
    simp [Reading.step]
  simp only [List.cons_append, List.nil_append]
  rw [statementsFrom_go .lineStart rfl, statementsFrom_go .bracket rfl,
    statementsFrom_go (.header true []) rfl,
    statementsFrom_go (.header true [.word name.toList]) rfl, statementsFrom_go _ first,
    statementsFrom_emit second, statementsFrom_go .lineStart rfl]
  rfl

end Lines

end Codemod.Toml
