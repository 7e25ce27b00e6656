import Codemod.Json.Printer
import Codemod.Json.Reader
import Codemod.Proofs.Text.Digits
import Codemod.Proofs.Toml.Token
import Mathlib.Data.List.TakeWhile
import Mathlib.Tactic.SplitIfs

/-! The tokens of printed JSON. Marks, blanks and strings are read to their tokens whatever follows
them, so that pieces are read one after another. Only a word needs something behind it that cannot
continue it. -/
namespace Codemod.Json

open Toml (Reads)

section Steps

variable {state next : Lexing} {c : Char} {token : Token} {tokens : List Token}

theorem lex_go (moved : lexStep state c = some ([], next)) (rest : List Char) :
    lex state (c :: rest) = lex next rest := by
  simp [lex, moved]

theorem lex_token (moved : lexStep state c = some ([token], .between)) (rest : List Char) :
    lex state (c :: rest) = (lex .between rest).map ([token] ++ ·) := by
  simp only [lex, moved, Option.bind_eq_bind, Option.bind_some]
  rcases lex .between rest with _ | tokens <;> rfl

theorem reads_mark (mark : isMark c = true) (unspaced : isSpace c = false) :
    Reads (lex .between) [c] [.mark c] :=
  lex_token (by simp [lexStep, fresh, mark, unspaced])

theorem reads_blanks {blanks : List Char} (blank : ∀ c ∈ blanks, isSpace c = true) :
    Reads (lex .between) blanks [] := by
  induction blanks with
  | nil => exact Reads.nil _
  | cons c blanks ih =>
    obtain ⟨here, later⟩ := List.forall_mem_cons.mp blank
    have first : Reads (lex .between) [c] [] := by
      intro rest
      have moved : lexStep .between c = some ([], .between) := by simp [lexStep, fresh, here]
      rw [List.singleton_append, lex_go moved]
      simp
    exact first.append (ih later)

end Steps

section Strings

variable {read : List Char} {c : Char}

theorem digitValue?_lowerHexDigit :
    ∀ n < 16, Text.digitValue? 16 (Text.lowerHexDigit n) = some n := by
  decide

/-- A character is escaped by a letter or by its code, or stands for itself. -/
theorem escape_cases (c : Char) :
    (∃ x, escape c = ['\\', x] ∧ shortEscape? x = some c ∧ x ≠ 'u') ∨
    (c.toNat < 0x20 ∧ escape c = ['\\', 'u', '0', '0', Text.lowerHexDigit (c.toNat / 16),
      Text.lowerHexDigit (c.toNat % 16)]) ∨
    (escape c = [c] ∧ c ≠ '"' ∧ c ≠ '\\' ∧ ¬c.toNat < 0x20) := by
  unfold escape
  split_ifs with quote backslash newline ret tab backspace feed control
  · exact Or.inl ⟨'"', rfl, by rw [quote]; rfl, by decide⟩
  · exact Or.inl ⟨'\\', rfl, by rw [backslash]; rfl, by decide⟩
  · exact Or.inl ⟨'n', rfl, newline ▸ rfl, by decide⟩
  · exact Or.inl ⟨'r', rfl, ret ▸ rfl, by decide⟩
  · exact Or.inl ⟨'t', rfl, tab ▸ rfl, by decide⟩
  · exact Or.inl ⟨'b', rfl, backspace ▸ rfl, by decide⟩
  · exact Or.inl ⟨'f', rfl, feed ▸ rfl, by decide⟩
  · exact Or.inr (Or.inl ⟨control, rfl⟩)
  · exact Or.inr (Or.inr ⟨rfl, quote, backslash, control⟩)

theorem lex_escape (c : Char) (rest : List Char) :
    lex (.string read) (escape c ++ rest) = lex (.string (c :: read)) rest := by
  have begun : lexStep (.string read) '\\' = some ([], .escape read) := rfl
  rcases escape_cases c with ⟨x, written, short, other⟩ | ⟨low, written⟩ |
    ⟨written, unquoted, plain, high⟩
  · rw [written]
    refine (lex_go begun _).trans (lex_go ?_ rest)
    simp [lexStep, short, other]
  · rw [written]
    have high := digitValue?_lowerHexDigit (c.toNat / 16) (by omega)
    have last := digitValue?_lowerHexDigit (c.toNat % 16) (by omega)
    have code : c.toNat / 16 * 16 + c.toNat % 16 = c.toNat := Nat.div_add_mod' _ _
    have whole : finishCode read none c.toNat = some (.string (c :: read)) := by
      have unpaired : ¬(0xD800 ≤ c.toNat ∧ c.toNat ≤ 0xDBFF) := by omega
      have single : ¬(0xDC00 ≤ c.toNat ∧ c.toNat ≤ 0xDFFF) := by omega
      simp only [finishCode, if_neg unpaired, if_neg single, Char.ofNat_toNat]
    have coded : lexStep (.escape read) 'u' = some ([], .code read none 4 0) := rfl
    have first : lexStep (.code read none 4 0) '0' = some ([], .code read none 3 0) := rfl
    have second : lexStep (.code read none 3 0) '0' = some ([], .code read none 2 0) := rfl
    have third : lexStep (.code read none 2 0) (Text.lowerHexDigit (c.toNat / 16)) =
        some ([], .code read none 1 (c.toNat / 16)) := by simp [lexStep, high]
    simp only [List.cons_append, List.nil_append]
    rw [lex_go begun, lex_go coded, lex_go first, lex_go second, lex_go third]
    exact lex_go (by simp [lexStep, last, code, whole]) rest
  · rw [written]
    exact lex_go (by simp [lexStep, unquoted, plain, high]) rest

theorem lex_escapes (cs rest : List Char) :
    lex (.string read) (cs.flatMap escape ++ '"' :: rest) =
      (lex .between rest).map ([.text (String.ofList (read.reverse ++ cs))] ++ ·) := by
  induction cs generalizing read with
  | nil =>
    rw [List.append_nil]
    exact lex_token rfl rest
  | cons c cs ih =>
    rw [List.flatMap_cons, List.append_assoc, lex_escape, ih, List.reverse_cons,
      List.append_assoc, List.singleton_append]

theorem reads_quote (s : String) : Reads (lex .between) (quote s) [.text s] := by
  intro rest
  have opened : lexStep .between '"' = some ([], .string []) := rfl
  rw [quote, List.cons_append, lex_go opened, List.append_assoc, List.singleton_append,
    lex_escapes, List.reverse_nil, List.nil_append, String.ofList_toList]

end Strings

section Words

variable {letters xs xs' : List Char} {ys ys' : List Token} {c : Char}

/-- A character that ends a word in front of it. -/
def endsWord (c : Char) : Bool := isSpace c || isMark c || c == '"'

/-- What is read to `ys` if no word goes on behind it. -/
def Yields (xs : List Char) (ys : List Token) : Prop :=
  ∀ rest, rest.head?.all endsWord = true →
    lex .between (xs ++ rest) = (lex .between rest).map (ys ++ ·)

theorem yields_of_reads (reads : Reads (lex .between) xs ys) : Yields xs ys := fun rest _ =>
  reads rest

/-- What is read to `ys` whatever follows, and begins with the end of a word. -/
structure Parts (xs : List Char) (ys : List Token) : Prop where
  reads : Reads (lex .between) xs ys
  ends : ∃ c more, xs = c :: more ∧ endsWord c = true

theorem parts_mark (mark : isMark c = true) (unspaced : isSpace c = false) :
    Parts [c] [.mark c] :=
  ⟨reads_mark mark unspaced, c, [], rfl, by simp [endsWord, mark]⟩

theorem Parts.append (first : Parts xs ys) (second : Reads (lex .between) xs' ys') :
    Parts (xs ++ xs') (ys ++ ys') := by
  obtain ⟨c, more, rfl, ends⟩ := first.ends
  exact ⟨first.reads.append second, c, more ++ xs', rfl, ends⟩

theorem Parts.after_blanks (parts : Parts xs ys) (blank : ∀ c ∈ xs', isSpace c = true) :
    Parts (xs' ++ xs) ys := by
  refine ⟨(reads_blanks blank).append parts.reads, ?_⟩
  cases xs' with
  | nil => exact parts.ends
  | cons c more =>
    have here := blank c (List.mem_cons_self ..)
    exact ⟨c, more ++ xs, rfl, by simp [endsWord, here]⟩

theorem Yields.append (first : Yields xs ys) (second : Parts xs' ys') :
    Reads (lex .between) (xs ++ xs') (ys ++ ys') := by
  obtain ⟨c, more, rfl, ends⟩ := second.ends
  intro rest
  rw [List.append_assoc, first _ (by simpa using ends), second.reads rest, Option.map_map]
  congr 1
  funext zs
  exact (List.append_assoc ys ys' zs).symm

theorem Yields.whole (yields : Yields xs ys) : lex .between xs = some ys := by
  have all := yields [] rfl
  simpa [lex] using all

theorem lex_letters (inside : ∀ x ∈ letters, endsWord x = false) (before rest : List Char) :
    lex (.word before) (letters ++ rest) = lex (.word (letters.reverse ++ before)) rest := by
  induction letters generalizing before with
  | nil => rfl
  | cons x letters ih =>
    obtain ⟨here, later⟩ := List.forall_mem_cons.mp inside
    have stays : (isSpace x || isMark x || x == '"') = false := here
    have moved : lexStep (.word before) x = some ([], .word (x :: before)) := by
      simp only [lexStep, stays, Bool.false_eq_true, if_false]
    rw [List.cons_append, lex_go moved, ih later]
    simp

theorem lex_word_end (ends : endsWord c = true) (before rest : List Char) :
    lex (.word before) (c :: rest) =
      (lex .between (c :: rest)).map ([.word before.reverse] ++ ·) := by
  have ends : (isSpace c || isMark c || c == '"') = true := ends
  simp only [lex, lexStep, ends, if_true, Option.bind_eq_bind, Option.bind_some]
  rcases lex (fresh c).2 rest with _ | more <;> rfl

theorem yields_word (nonempty : letters ≠ []) (inside : ∀ x ∈ letters, endsWord x = false) :
    Yields letters [.word letters] := by
  obtain ⟨x, more, rfl⟩ := List.exists_cons_of_ne_nil nonempty
  obtain ⟨here, later⟩ := List.forall_mem_cons.mp inside
  have begun : lexStep .between x = some ([], .word [x]) := by
    obtain ⟨⟨unspaced, unmarked⟩, unquoted⟩ : (isSpace x = false ∧ isMark x = false) ∧ x ≠ '"' := by
      simpa [endsWord] using here
    simp [lexStep, fresh, unspaced, unmarked, unquoted]
  have whole : (more.reverse ++ [x]).reverse = x :: more := by simp
  intro rest ends
  rw [List.cons_append, lex_go begun, lex_letters later]
  cases rest with
  | nil => simp [lex, whole]
  | cons c rest => rw [lex_word_end (by simpa using ends), whole]

end Words

section Numbers

theorem endsWord_of_isDigit {c : Char} (digit : c.isDigit) : endsWord c = false := by
  have apart : ∀ x : Char, x.isDigit = false → c ≠ x := by
    rintro x other rfl
    rw [digit] at other
    cases other
  simp [endsWord, isSpace, isMark, apart]

theorem takeWhile_toDigits (n : Nat) :
    (Nat.toDigits 10 n).takeWhile Text.isDigit = Nat.toDigits 10 n :=
  List.takeWhile_eq_self_iff.mpr fun c member =>
    Text.isDigit_of_isDigit (Text.isDigit_toDigits n c member)

theorem dropWhile_toDigits (n : Nat) : (Nat.toDigits 10 n).dropWhile Text.isDigit = [] :=
  List.dropWhile_eq_nil_iff.mpr fun c member =>
    Text.isDigit_of_isDigit (Text.isDigit_toDigits n c member)

theorem no_superfluous_zero (n : Nat) :
    ¬((Nat.toDigits 10 n).head? = some '0' ∧ (Nat.toDigits 10 n).length ≠ 1) := by
  rintro ⟨zero, long⟩
  obtain rfl := Text.head?_toDigits zero
  exact long rfl

theorem number?_toDigits (n : Nat) : number? (Nat.toDigits 10 n) = some (.integer n) := by
  have positive : ((Nat.toDigits 10 n).head? == some '-') = false := by
    rw [beq_eq_false_iff_ne]
    intro first
    have digit := Text.isDigit_toDigits n '-' (List.mem_of_mem_head? first)
    exact absurd digit (by decide)
  simp [number?, positive, takeWhile_toDigits, dropWhile_toDigits, Text.number?_toDigits,
    no_superfluous_zero n]

theorem number?_minus {n : Nat} (nonzero : n ≠ 0) :
    number? ('-' :: Nat.toDigits 10 n) = some (.integer (-(n : Int))) := by
  simp [number?, takeWhile_toDigits, dropWhile_toDigits, Text.number?_toDigits,
    no_superfluous_zero n, nonzero]

/-- A whole number is written in digits, perhaps with a minus sign in front. -/
theorem toList_toString_cases (value : Int) :
    (∃ n : Nat, value = n ∧ (toString value).toList = Nat.toDigits 10 n) ∨
      ∃ n : Nat, n ≠ 0 ∧ value = -(n : Int) ∧ (toString value).toList = '-' :: Nat.toDigits 10 n := by
  cases value with
  | ofNat n => exact Or.inl ⟨n, rfl, by simp [toString, Int.repr]⟩
  | negSucc n => exact Or.inr ⟨n + 1, Nat.succ_ne_zero n, rfl, by simp [toString, Int.repr]⟩

theorem wordValue?_toString (value : Int) :
    wordValue? (toString value).toList = some (.integer value) := by
  have named : ∀ {letters : List Char} (c : Char), c ∉ ['n', 't', 'f'] → letters.head? = some c →
      wordValue? letters = number? letters := by
    intro letters c other first
    obtain ⟨rest, rfl⟩ := List.head?_eq_some_iff.mp first
    simp only [List.mem_cons, List.not_mem_nil, or_false, not_or] at other
    simp [wordValue?, other]
  rcases toList_toString_cases value with ⟨n, rfl, written⟩ | ⟨n, nonzero, rfl, written⟩
  · obtain ⟨c, digits, split⟩ := List.exists_cons_of_ne_nil (Nat.toDigits_ne_nil (b := 10) (n := n))
    have digit : c.isDigit := Text.isDigit_toDigits n c (split ▸ List.mem_cons_self ..)
    have other : c ∉ ['n', 't', 'f'] := by
      intro member
      simp only [List.mem_cons, List.not_mem_nil, or_false] at member
      rcases member with rfl | rfl | rfl <;> exact absurd digit (by decide)
    rw [written, named c other (by rw [split]; rfl), number?_toDigits]
  · rw [written, named '-' (by decide) rfl, number?_minus nonzero]

theorem yields_toString (value : Int) :
    Yields (toString value).toList [.word (toString value).toList] := by
  have digits := fun n c (member : c ∈ Nat.toDigits 10 n) =>
    endsWord_of_isDigit (Text.isDigit_toDigits n c member)
  rcases toList_toString_cases value with ⟨n, _, written⟩ | ⟨n, _, _, written⟩
  · rw [written]
    exact yields_word Nat.toDigits_ne_nil (digits n)
  · rw [written]
    exact yields_word (by simp) (List.forall_mem_cons.mpr ⟨rfl, digits n⟩)

end Numbers

end Codemod.Json
