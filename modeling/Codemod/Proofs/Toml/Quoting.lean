import Codemod.Proofs.Toml.Token
import Codemod.Toml.Writer
import Mathlib.Tactic.SplitIfs
import Mathlib.Tactic.Tauto

/-! Strings that are written are read as they were. Each form has a lemma on its content, by
induction on the characters, with the state of the machine after those that are read. Between
triple quotes the state counts the quotes in a row, of which the writer leaves at most two. -/
namespace Codemod.Toml

open Text (digitValue? upperHexDigit shortEscape?)

section Content

variable {content : List Char} {c : Char} {run : Nat} {q : Quote}

theorem digitValue?_upperHexDigit :
    ∀ n < 16, digitValue? 16 (upperHexDigit n) = some n := by
  decide

theorem isContent_of_not_control (allowed : isControl c = false) (one_line : c ≠ '\n') :
    isContent c = true := by
  simp only [isControl, Bool.or_eq_false_iff, Bool.and_eq_false_iff, decide_eq_false_iff_not,
    Nat.not_lt, bne_eq_false_iff_eq, beq_eq_false_iff_ne] at allowed
  simp only [isContent, Bool.or_eq_true, Bool.and_eq_true, decide_eq_true_eq, beq_iff_eq,
    bne_iff_ne]
  tauto

/-- A character is escaped by a letter or by its code, or stands for itself. -/
theorem escape_cases (block : Bool) (c : Char) :
    (∃ x, escape block c = ['\\', x] ∧ shortEscape? x = some c ∧ x ≠ 'u' ∧ x ≠ 'U') ∨
    (c.toNat < 256 ∧ escape block c =
      ['\\', 'u', '0', '0', upperHexDigit (c.toNat / 16), upperHexDigit (c.toNat % 16)]) ∨
    (escape block c = [c] ∧ c ≠ '\\' ∧ (isContent c = true ∨ block = true ∧ c = '\n')) := by
  unfold escape
  split_ifs with backspace tab newline inBlock feed ret backslash control
  · exact Or.inl ⟨'b', rfl, backspace ▸ rfl, by decide, by decide⟩
  · exact Or.inl ⟨'t', rfl, tab ▸ rfl, by decide, by decide⟩
  · exact Or.inr (Or.inr ⟨newline ▸ rfl, newline ▸ by decide, Or.inr ⟨inBlock, newline⟩⟩)
  · exact Or.inl ⟨'n', rfl, newline ▸ rfl, by decide, by decide⟩
  · exact Or.inl ⟨'f', rfl, feed ▸ rfl, by decide, by decide⟩
  · exact Or.inl ⟨'r', rfl, ret ▸ rfl, by decide, by decide⟩
  · exact Or.inl ⟨'\\', rfl, by rw [backslash]; rfl, by decide, by decide⟩
  · refine Or.inr (Or.inl ⟨?_, rfl⟩)
    rcases control with low | rfl
    · omega
    · decide
  · refine Or.inr (Or.inr ⟨rfl, backslash, Or.inl ?_⟩)
    obtain ⟨high, delete⟩ := not_or.mp control
    simp [isContent, delete, Nat.not_lt.mp high]

theorem escape_head (block : Bool) (c : Char) :
    ∃ x more, escape block c = x :: more ∧ (x = '\\' ∨ x = c ∧ x ≠ '\r') := by
  rcases escape_cases block c with ⟨x, written, _⟩ | ⟨_, written⟩ | ⟨written, _, allowed⟩
  · exact ⟨'\\', _, written, Or.inl rfl⟩
  · exact ⟨'\\', _, written, Or.inl rfl⟩
  · refine ⟨c, [], written, Or.inr ⟨rfl, ?_⟩⟩
    rintro rfl
    rcases allowed with allowed | ⟨_, allowed⟩ <;> revert allowed <;> decide

theorem tokensFrom_backslash (block : Bool) (content rest : List Char) :
    tokensFrom (.resume block content) ('\\' :: rest) =
      tokensFrom (.escape block content) rest := by
  cases block <;> exact tokensFrom_go _ rfl rest

theorem tokensFrom_content (block : Bool) (apart : c ≠ '"') (plain : c ≠ '\\')
    (allowed : isContent c = true ∨ block = true ∧ c = '\n') (rest : List Char) :
    tokensFrom (.resume block content) (c :: rest) =
      tokensFrom (.resume block (c :: content)) rest := by
  cases block with
  | false =>
    have allowed : isContent c = true := by simpa using allowed
    refine tokensFrom_go _ ?_ rest
    simp [Lexing.step, Lexing.resume, Lexing.stringStep, Quote.char, apart, plain, allowed]
  | true =>
    have other : c ≠ '\r' := by
      rintro rfl
      rcases allowed with allowed | ⟨_, allowed⟩ <;> revert allowed <;> decide
    have allowed : c = '\n' ∨ isContent c = true := by tauto
    refine tokensFrom_go _ ?_ rest
    simp [Lexing.step, Lexing.resume, Lexing.blockStep, Quote.char, apart, plain, other, allowed]

theorem tokensFrom_escape (block : Bool) (apart : c ≠ '"') (rest : List Char) :
    tokensFrom (.resume block content) (escape block c ++ rest) =
      tokensFrom (.resume block (c :: content)) rest := by
  rcases escape_cases block c with ⟨x, written, short, small, large⟩ | ⟨low, written⟩ |
    ⟨written, plain, allowed⟩
  · rw [written]
    refine (tokensFrom_backslash block content _).trans (tokensFrom_go _ ?_ rest)
    simp [Lexing.step, Lexing.escapeStep, short, small, large]
  · rw [written]
    have high := digitValue?_upperHexDigit (c.toNat / 16) (by omega)
    have last := digitValue?_upperHexDigit (c.toNat % 16) (by omega)
    have code : c.toNat / 16 * 16 + c.toNat % 16 = c.toNat := Nat.div_add_mod' _ _
    have zero : digitValue? 16 '0' = some 0 := rfl
    have valid : Text.scalar? c.toNat = some c := by
      rw [Text.scalar?, if_pos (Or.inl (by omega)), Char.ofNat_toNat]
    simp only [List.cons_append, List.nil_append]
    rw [tokensFrom_backslash, tokensFrom_go (.code block content 4 0) rfl,
      tokensFrom_go (.code block content 3 0) (by simp [Lexing.step, Lexing.codeStep, zero]),
      tokensFrom_go (.code block content 2 0) (by simp [Lexing.step, Lexing.codeStep, zero]),
      tokensFrom_go (.code block content 1 (c.toNat / 16))
        (by simp [Lexing.step, Lexing.codeStep, high])]
    exact tokensFrom_go _ (by simp [Lexing.step, Lexing.codeStep, last, code, valid]) rest
  · rw [written]
    exact tokensFrom_content block apart plain allowed rest

/-- A quote in double quotes is escaped. -/
theorem tokensFrom_quote (block : Bool) (content rest : List Char) :
    tokensFrom (.resume block content) ('\\' :: '"' :: rest) =
      tokensFrom (.resume block ('"' :: content)) rest :=
  (tokensFrom_backslash block content _).trans (tokensFrom_go _ rfl rest)

theorem tokensFrom_basicBody (cs content rest : List Char) :
    tokensFrom (.string .double content) (basicBody cs ++ '"' :: rest) =
      (tokensFrom .between rest).map ([.text (content.reverse ++ cs)] ++ ·) := by
  induction cs generalizing content with
  | nil =>
    rw [List.append_nil]
    exact tokensFrom_token rfl rest
  | cons c cs ih =>
    have grown : content.reverse ++ c :: cs = (c :: content).reverse ++ cs := by simp
    rw [basicBody, List.flatMap_cons, List.append_assoc, grown, ← ih]
    split
    · rename_i same
      subst same
      exact tokensFrom_quote false content _
    · rename_i apart
      exact tokensFrom_escape false apart _

theorem tokensFrom_literalBody (cs content rest : List Char)
    (allowed : ∀ c ∈ cs, c ≠ '\'' ∧ isContent c = true) :
    tokensFrom (.string .single content) (cs ++ '\'' :: rest) =
      (tokensFrom .between rest).map ([.text (content.reverse ++ cs)] ++ ·) := by
  induction cs generalizing content with
  | nil =>
    rw [List.append_nil]
    exact tokensFrom_token rfl rest
  | cons c cs ih =>
    obtain ⟨⟨apart, content_char⟩, later⟩ := List.forall_mem_cons.mp allowed
    have grown : content.reverse ++ c :: cs = (c :: content).reverse ++ cs := by simp
    rw [grown, ← ih (c :: content) later]
    refine tokensFrom_go _ ?_ _
    simp [Lexing.step, Lexing.stringStep, Quote.char, apart, content_char]

/-- What is read between triple quotes so far, with the quotes in a row at its end. -/
def Quote.held (q : Quote) (content : List Char) (run : Nat) : List Char :=
  (List.replicate run q.char ++ content).reverse

theorem Quote.held_quote (q : Quote) (content cs : List Char) (run : Nat) :
    q.held content run ++ q.char :: cs = q.held content (run + 1) ++ cs := by
  simp [held, List.replicate_succ]

theorem Quote.held_other (q : Quote) (c : Char) (content cs : List Char) (run : Nat) :
    q.held content run ++ c :: cs =
      q.held (c :: (List.replicate run q.char ++ content)) 0 ++ cs := by
  simp [held]

/-- Before another character, the quotes in a row are content like what stands before them. -/
theorem tokensFrom_flush (apart : c ≠ q.char) (few : run < 3) (content rest : List Char) :
    tokensFrom (.block q content run) (c :: rest) =
      tokensFrom (.block q (List.replicate run q.char ++ content) 0) (c :: rest) := by
  refine tokensFrom_congr ?_ rest
  simp [Lexing.step, Lexing.blockStep, apart, Nat.not_le.mpr few]

/-- The quotes that end a string, after at most two that are its content. -/
theorem tokensFrom_closing (few : run ≤ 2) (apart : c ≠ q.char) (content rest : List Char) :
    tokensFrom (.block q content run) (q.char :: q.char :: q.char :: c :: rest) =
      (tokensFrom .between (c :: rest)).map
        ([.block (q.held content run)] ++ ·) := by
  have one_more : ∀ k < 5, ∀ others, tokensFrom (.block q content k) (q.char :: others) =
      tokensFrom (.block q content (k + 1)) others := by
    intro k small others
    exact tokensFrom_go _ (by simp [Lexing.step, Lexing.blockStep, small]) others
  rw [one_more run (by omega), one_more (run + 1) (by omega), one_more (run + 2) (by omega)]
  refine tokensFrom_emit ?_ rest
  simp [Lexing.step, Lexing.blockStep, Quote.held, apart]

theorem tokensFrom_blockEscape (few : run ≤ 2) (apart : c ≠ '"') (content rest : List Char) :
    tokensFrom (.block .double content run) (escape true c ++ rest) =
      tokensFrom (.block .double (c :: (List.replicate run '"' ++ content)) 0) rest := by
  obtain ⟨x, more, written, head⟩ := escape_head true c
  have unquoted : x ≠ '"' := by
    rcases head with rfl | ⟨rfl, _⟩
    · decide
    · exact apart
  have escaped : tokensFrom (.block .double (List.replicate run '"' ++ content) 0)
      (escape true c ++ rest) = _ := tokensFrom_escape true apart rest
  rw [written] at escaped ⊢
  exact (tokensFrom_flush unquoted (by omega) content _).trans escaped

theorem tokensFrom_blockBody (cs content rest : List Char) (few : run ≤ 2) (apart : c ≠ '"') :
    tokensFrom (.block .double content run) (blockBody run cs ++ '"' :: '"' :: '"' :: c :: rest) =
      (tokensFrom .between (c :: rest)).map
        ([.block (Quote.double.held content run ++ cs)] ++ ·) := by
  induction cs generalizing content run with
  | nil =>
    rw [List.append_nil]
    exact tokensFrom_closing few apart content rest
  | cons x cs ih =>
    rw [blockBody]
    split
    · rename_i same
      subst same
      split
      · rename_i two
        subst two
        rw [Quote.held_other, ← ih _ (Nat.zero_le 2)]
        exact (tokensFrom_flush (by decide) (by omega) content _).trans (tokensFrom_quote true _ _)
      · rename_i other
        have fewer : run < 5 := by omega
        have held := Quote.double.held_quote content cs run
        rw [Quote.char] at held
        rw [held, ← ih content (by omega)]
        exact tokensFrom_go _ (by simp [Lexing.step, Lexing.blockStep, Quote.char, fewer]) _
    · rename_i apart_x
      rw [Quote.held_other, ← ih _ (Nat.zero_le 2), List.append_assoc]
      exact tokensFrom_blockEscape few apart_x content _

theorem le_longestRun (c : Char) (cs : List Char) (run : Nat) : run ≤ longestRun c cs run := by
  induction cs generalizing run with
  | nil => exact Nat.le_refl run
  | cons x cs ih =>
    rw [longestRun]
    split
    · exact Nat.le_trans (Nat.le_succ run) (ih (run + 1))
    · exact Nat.le_max_left _ _

theorem longestRun_pos (c : Char) (cs : List Char) (run : Nat) (member : c ∈ cs) :
    0 < longestRun c cs run := by
  induction cs generalizing run with
  | nil => cases member
  | cons x cs ih =>
    rw [longestRun]
    split
    · exact Nat.lt_of_lt_of_le run.succ_pos (le_longestRun c cs (run + 1))
    · rename_i apart
      rcases List.mem_cons.mp member with same | member
      · exact absurd same.symm apart
      · exact Nat.lt_of_lt_of_le (ih 0 member) (Nat.le_max_right _ _)

theorem tokensFrom_blockLiteralBody (cs content rest : List Char)
    (few : longestRun '\'' cs run ≤ 2) (allowed : ∀ x ∈ cs, isControl x = false)
    (apart : c ≠ '\'') :
    tokensFrom (.block .single content run) (cs ++ '\'' :: '\'' :: '\'' :: c :: rest) =
      (tokensFrom .between (c :: rest)).map
        ([.block (Quote.single.held content run ++ cs)] ++ ·) := by
  have bound := Nat.le_trans (le_longestRun '\'' cs run) few
  induction cs generalizing content run with
  | nil =>
    rw [List.append_nil]
    exact tokensFrom_closing bound apart content rest
  | cons x cs ih =>
    obtain ⟨free, later⟩ := List.forall_mem_cons.mp allowed
    rw [longestRun] at few
    split at few
    · rename_i same
      subst same
      have fewer : run < 5 := by omega
      have held := Quote.single.held_quote content cs run
      rw [Quote.char] at held
      rw [held, ← ih content few later (Nat.le_trans (le_longestRun '\'' cs (run + 1)) few)]
      exact tokensFrom_go _ (by simp [Lexing.step, Lexing.blockStep, Quote.char, fewer]) _
    · rename_i apart_x
      have few := Nat.le_trans (Nat.le_max_right _ _) few
      have other : x ≠ '\r' := by
        rintro rfl
        revert free
        decide
      have kept : x = '\n' ∨ isContent x = true := by
        by_cases newline : x = '\n'
        · exact Or.inl newline
        · exact Or.inr (isContent_of_not_control free newline)
      rw [Quote.held_other, ← ih _ few later (Nat.zero_le 2)]
      refine (tokensFrom_flush apart_x (by omega) content _).trans (tokensFrom_go _ ?_ _)
      simp [Lexing.step, Lexing.blockStep, Quote.char, apart_x, other, kept]

end Content

section Strings

variable {q : Quote} {cs body : List Char} {c x : Char}

theorem allowed_of_literal (form : Form.ofText cs = .literal) :
    ∀ c ∈ cs, c ≠ '\'' ∧ isContent c = true := by
  simp only [Form.ofText] at form
  split_ifs at form with plain bare literal
  simp only [Bool.and_eq_true, Bool.not_eq_true', beq_iff_eq, List.any_eq_false] at literal
  obtain ⟨⟨free, none_single⟩, one_line⟩ := literal
  intro c member
  constructor
  · rintro rfl
    exact absurd (longestRun_pos _ cs 0 member) (by omega)
  · refine isContent_of_not_control (by simpa using free c member) ?_
    rintro rfl
    simp [member] at one_line

theorem allowed_of_blockLiteral (form : Form.ofText cs = .blockLiteral) :
    (∀ c ∈ cs, isControl c = false) ∧ longestRun '\'' cs 0 ≤ 2 := by
  simp only [Form.ofText] at form
  split_ifs at form with plain bare literal blockBasic blockLiteral
  simp only [Bool.and_eq_true, Bool.not_eq_true', decide_eq_true_eq, List.any_eq_false]
    at blockLiteral
  exact ⟨fun c member => by simpa using blockLiteral.1 c member, blockLiteral.2⟩

theorem tokensFrom_opened (apart : x ≠ q.char) (rest : List Char) :
    tokensFrom .between (q.char :: x :: rest) = tokensFrom (.string q []) (x :: rest) := by
  have opened : Lexing.step .between q.char = Lexing.go (.quotes q false) := by
    cases q <;> rfl
  rw [tokensFrom_go _ opened]
  refine tokensFrom_congr ?_ rest
  simp [Lexing.step, apart]

/-- Three quotes and the line break after them, if there is one, open a string. Without it the
string must not begin with one. -/
theorem tokensFrom_blockOpened (head : ∀ x, body.head? = some x → x ≠ '\r' ∧ (x = '\n' → '\n' ∈ cs))
    (nonempty : body ≠ []) :
    tokensFrom .between (q.char :: q.char :: q.char :: (opening cs ++ body)) =
      tokensFrom (.block q [] 0) body := by
  have first : Lexing.step .between q.char = Lexing.go (.quotes q false) := by
    cases q <;> rfl
  have second : Lexing.step (.quotes q false) q.char = Lexing.go (.quotes q true) := by
    simp [Lexing.step]
  have third : Lexing.step (.quotes q true) q.char = Lexing.go (.blockStart q) := by
    simp [Lexing.step]
  rw [tokensFrom_go _ first, tokensFrom_go _ second, tokensFrom_go _ third]
  by_cases broken : '\n' ∈ cs
  · rw [opening, if_pos (by simpa using broken)]
    exact tokensFrom_go _ rfl body
  · rw [opening, if_neg (by simpa using broken)]
    obtain ⟨x, rest, rfl⟩ := List.exists_cons_of_ne_nil nonempty
    obtain ⟨no_return, newline⟩ := head x rfl
    have no_break : x ≠ '\n' := fun same => broken (newline same)
    refine tokensFrom_congr ?_ rest
    simp [Lexing.step, no_return, no_break]

theorem tokensFrom_basic (cs : List Char) (apart : c ≠ '"') (rest : List Char) :
    tokensFrom .between ('"' :: (basicBody cs ++ '"' :: c :: rest)) =
      (tokensFrom .between (c :: rest)).map ([.text cs] ++ ·) := by
  rcases cs with _ | ⟨x, cs⟩
  · have first : Lexing.step .between '"' = Lexing.go (.quotes .double false) := rfl
    have second : Lexing.step (.quotes .double false) '"' = Lexing.go (.quotes .double true) := rfl
    simp only [basicBody, List.flatMap_nil, List.nil_append]
    rw [tokensFrom_go _ first, tokensFrom_go _ second]
    refine tokensFrom_emit ?_ rest
    simp [Lexing.step, Quote.char, apart]
  · have begun : ∃ y more, basicBody (x :: cs) = y :: more ∧ y ≠ '"' := by
      rw [basicBody, List.flatMap_cons]
      split
      · exact ⟨'\\', _, rfl, by decide⟩
      · rename_i apart_x
        obtain ⟨y, more, written, escaped | ⟨same, _⟩⟩ := escape_head false x
        · exact ⟨y, _, by rw [written]; rfl, escaped ▸ by decide⟩
        · exact ⟨y, _, by rw [written]; rfl, same ▸ apart_x⟩
    obtain ⟨y, more, written, apart_y⟩ := begun
    have body := tokensFrom_basicBody (x :: cs) [] (c :: rest)
    rw [written] at body ⊢
    exact (tokensFrom_opened (q := .double) apart_y _).trans body

theorem tokensFrom_literal (form : Form.ofText cs = .literal) (rest : List Char) :
    tokensFrom .between ('\'' :: (cs ++ '\'' :: rest)) =
      (tokensFrom .between rest).map ([.text cs] ++ ·) := by
  have allowed := allowed_of_literal form
  have body := tokensFrom_literalBody cs [] rest allowed
  rcases cs with _ | ⟨x, cs⟩
  · cases form
  · exact (tokensFrom_opened (q := .single) (allowed x List.mem_cons_self).1 _).trans body

theorem tokensFrom_blockBasic (cs : List Char) (apart : c ≠ '"') (rest : List Char) :
    tokensFrom .between ('"' :: '"' :: '"' ::
        (opening cs ++ (blockBody 0 cs ++ '"' :: '"' :: '"' :: c :: rest))) =
      (tokensFrom .between (c :: rest)).map ([.block cs] ++ ·) := by
  have body := tokensFrom_blockBody cs [] rest (Nat.zero_le 2) apart
  refine (tokensFrom_blockOpened (q := .double) ?_ (by simp)).trans body
  intro y first
  rcases cs with _ | ⟨x, cs⟩
  · cases first
    decide
  · rw [blockBody] at first
    split at first
    · cases first
      exact ⟨by decide, fun newline => absurd newline (by decide)⟩
    · obtain ⟨z, more, written, escaped | ⟨same, no_return⟩⟩ := escape_head true x
      · rw [written] at first
        cases first
        exact ⟨escaped ▸ by decide, fun newline => absurd (escaped.symm.trans newline) (by decide)⟩
      · rw [written] at first
        cases first
        exact ⟨no_return, fun newline => List.mem_cons.mpr (Or.inl (newline.symm.trans same))⟩

theorem tokensFrom_blockLiteral (form : Form.ofText cs = .blockLiteral) (apart : c ≠ '\'')
    (rest : List Char) :
    tokensFrom .between ('\'' :: '\'' :: '\'' ::
        (opening cs ++ (cs ++ '\'' :: '\'' :: '\'' :: c :: rest))) =
      (tokensFrom .between (c :: rest)).map ([.block cs] ++ ·) := by
  obtain ⟨allowed, few⟩ := allowed_of_blockLiteral form
  have body := tokensFrom_blockLiteralBody cs [] rest few allowed apart
  refine (tokensFrom_blockOpened (q := .single) ?_ (by simp)).trans body
  intro y first
  rcases cs with _ | ⟨x, cs⟩
  · cases first
    decide
  · cases first
    constructor
    · rintro rfl
      exact absurd (allowed _ List.mem_cons_self) (by decide)
    · rintro rfl
      exact List.mem_cons_self

/-- The token of a string that is written. -/
def stringToken (s : String) : Token :=
  match Form.ofText s.toList with
  | .basic | .literal => .text s.toList
  | .blockBasic | .blockLiteral => .block s.toList

/-- A string is read from its form before anything but a quote. -/
theorem reads_writeString (s : String) (double : c ≠ '"') (single : c ≠ '\'') :
    ReadsBefore (tokensFrom .between) c (writeString s) [stringToken s] := by
  intro rest
  rw [writeString, stringToken]
  cases form : Form.ofText s.toList with
  | basic => simpa using tokensFrom_basic s.toList double rest
  | literal => simpa using tokensFrom_literal form (c :: rest)
  | blockBasic => simpa using tokensFrom_blockBasic s.toList double rest
  | blockLiteral => simpa using tokensFrom_blockLiteral form single rest

end Strings

end Codemod.Toml
