import Codemod.Toml.Token

/-! Reading what has been written piece by piece. A piece is read to its tokens whatever follows
it, or whatever follows a certain character, so that pieces are read one after another. -/
namespace Codemod.Toml

section Reads

variable {α β γ : Type} {read : List α → Option (List β)} {xs xs' : List α} {ys ys' : List β}

/-- A reader makes `ys` of `xs`, whatever follows, and then reads on as from the start. -/
def Reads (read : List α → Option (List β)) (xs : List α) (ys : List β) : Prop :=
  ∀ rest, read (xs ++ rest) = (read rest).map (ys ++ ·)

theorem Reads.nil (read : List α → Option (List β)) : Reads read [] [] := by
  intro rest
  simp

theorem Reads.append (first : Reads read xs ys) (second : Reads read xs' ys') :
    Reads read (xs ++ xs') (ys ++ ys') := by
  intro rest
  rw [List.append_assoc, first, second, Option.map_map]
  congr 1
  funext zs
  exact (List.append_assoc ys ys' zs).symm

/-- The same, if what follows begins with `x`. -/
def ReadsBefore (read : List α → Option (List β)) (x : α) (xs : List α) (ys : List β) : Prop :=
  ∀ rest, read (xs ++ x :: rest) = (read (x :: rest)).map (ys ++ ·)

theorem Reads.before (reads : Reads read xs ys) (x : α) : ReadsBefore read x xs ys :=
  fun rest => reads (x :: rest)

theorem ReadsBefore.append {x : α} (first : ReadsBefore read x xs ys)
    (second : Reads read (x :: xs') ys') : Reads read (xs ++ x :: xs') (ys ++ ys') := by
  intro rest
  rw [List.append_assoc, List.cons_append, first]
  have more := second rest
  rw [List.cons_append] at more
  rw [more, Option.map_map]
  congr 1
  funext zs
  exact (List.append_assoc ys ys' zs).symm

theorem Reads.flatMap {f : γ → List α} {g : γ → List β} (each : ∀ x, Reads read (f x) (g x))
    (items : List γ) : Reads read (items.flatMap f) (items.flatMap g) := by
  induction items with
  | nil => exact Reads.nil read
  | cons item items ih => exact (each item).append ih

theorem Reads.whole (reads : Reads read xs ys) (ends : read [] = some []) : read xs = some ys := by
  have all := reads []
  rwa [List.append_nil, ends, Option.map_some, List.append_nil] at all

end Reads

section Steps

variable {state other : Lexing} {c : Char} {token : Token}

theorem tokensFrom_go (next : Lexing) (moved : state.step c = next.go) (rest : List Char) :
    tokensFrom state (c :: rest) = tokensFrom next rest := by
  simp [tokensFrom, moved, Lexing.go]

theorem tokensFrom_token (moved : state.step c = some ([token], .between)) (rest : List Char) :
    tokensFrom state (c :: rest) = (tokensFrom .between rest).map ([token] ++ ·) := by
  simp only [tokensFrom, moved, Option.bind_eq_bind, Option.bind_some]
  rcases tokensFrom .between rest with _ | tokens <;> rfl

theorem reads_char (moved : Lexing.step .between c = some ([token], .between)) :
    Reads (tokensFrom .between) [c] [token] :=
  tokensFrom_token moved

theorem reads_blank : Reads (tokensFrom .between) [' '] [.blank] := reads_char rfl

theorem reads_newline : Reads (tokensFrom .between) ['\n'] [.newline] := reads_char rfl

theorem reads_open : Reads (tokensFrom .between) ['['] [.mark '['] := reads_char rfl

theorem reads_close : Reads (tokensFrom .between) [']'] [.mark ']'] := reads_char rfl

theorem tokensFrom_congr (alike : state.step c = other.step c) (rest : List Char) :
    tokensFrom state (c :: rest) = tokensFrom other (c :: rest) := by
  rw [tokensFrom, alike, tokensFrom]

/-- A token that ends before a character which belongs to no string or word. -/
theorem tokensFrom_emit (ended : state.step c = Lexing.emit token (Lexing.fresh c))
    (rest : List Char) : tokensFrom state (c :: rest) =
      (tokensFrom .between (c :: rest)).map ([token] ++ ·) := by
  have begun : Lexing.step .between c = Lexing.fresh c := rfl
  simp only [tokensFrom, ended, begun]
  rcases Lexing.fresh c with _ | ⟨tokens, next⟩
  · rfl
  · simp only [Lexing.emit, Option.map_some, Option.bind_eq_bind, Option.bind_some]
    rcases tokensFrom next rest with _ | more <;> rfl

end Steps

section Words

variable {letters : List Char} {c : Char}

theorem fresh_of_isWordChar (inside : isWordChar c = true) :
    Lexing.fresh c = Lexing.go (.word [c]) := by
  have apart : ∀ x, isWordChar x = false → c ≠ x := by
    rintro x outside rfl
    rw [inside] at outside
    cases outside
  have unmarked : isMark c = false := by
    simp only [isMark, Bool.or_eq_false_iff, beq_eq_false_iff_ne]
    exact ⟨⟨⟨⟨⟨apart _ rfl, apart _ rfl⟩, apart _ rfl⟩, apart _ rfl⟩, apart _ rfl⟩, apart _ rfl⟩
  simp [Lexing.fresh, unmarked, inside, apart ' ' rfl, apart '\t' rfl, apart '\n' rfl,
    apart '\r' rfl, apart '#' rfl, apart '"' rfl, apart '\'' rfl]

theorem tokensFrom_wordChars (inside : ∀ x ∈ letters, isWordChar x = true)
    (before rest : List Char) : tokensFrom (.word before) (letters ++ rest) =
      tokensFrom (.word (letters.reverse ++ before)) rest := by
  induction letters generalizing before with
  | nil => rfl
  | cons x letters ih =>
    obtain ⟨here, later⟩ := List.forall_mem_cons.mp inside
    have moved : Lexing.step (.word before) x = Lexing.go (.word (x :: before)) := by
      simp [Lexing.step, here]
    rw [List.cons_append, tokensFrom_go _ moved, ih later]
    simp

/-- A word is read before anything that cannot continue it. -/
theorem reads_word (nonempty : letters ≠ []) (inside : ∀ x ∈ letters, isWordChar x = true)
    (undated : isDate letters = false) (outside : isWordChar c = false) :
    ReadsBefore (tokensFrom .between) c letters [.word letters] := by
  obtain ⟨x, more, rfl⟩ := List.exists_cons_of_ne_nil nonempty
  obtain ⟨here, later⟩ := List.forall_mem_cons.mp inside
  have begun : Lexing.step .between x = Lexing.go (.word [x]) := fresh_of_isWordChar here
  intro rest
  rw [List.cons_append, tokensFrom_go _ begun, tokensFrom_wordChars later]
  have whole : (more.reverse ++ [x]).reverse = x :: more := by simp
  refine tokensFrom_emit ?_ rest
  simp only [Lexing.step, whole, undated, outside]
  simp

end Words

end Codemod.Toml
