import Codemod.Text.Utf8

/-! Reading back what was encoded, and only that. A character's bytes take the scan from between
characters to between characters again, so the bytes of a text are cut into exactly its characters;
and where the scan yields a character, its bytes stand. -/
namespace Codemod.Utf8

theorem start_two {b : Nat} (low : 0xC2 ≤ b) (high : b ≤ 0xDF) :
    start b = ([], some ⟨1, 0x80, 0xBF, b - 0xC0⟩) := by
  have : ¬b < 0x80 := by omega
  simp [start, this, low, high]

/-- The first byte of three narrows the second at both ends of its range. -/
theorem start_three {b : Nat} (low : 0xE0 ≤ b) (high : b ≤ 0xEF) :
    start b = ([], some ⟨2, if b = 0xE0 then 0xA0 else 0x80, if b = 0xED then 0x9F else 0xBF,
      b - 0xE0⟩) := by
  have ascii : ¬b < 0x80 := by omega
  have two : ¬(0xC2 ≤ b ∧ b ≤ 0xDF) := by omega
  by_cases least : b = 0xE0
  · subst least; rfl
  by_cases surrogates : b = 0xED
  · subst surrogates; rfl
  have inside : 0xE1 ≤ b ∧ b ≤ 0xEF := by omega
  simp [start, ascii, two, least, surrogates, inside]

theorem start_four {b : Nat} (low : 0xF0 ≤ b) (high : b ≤ 0xF4) :
    start b = ([], some ⟨3, if b = 0xF0 then 0x90 else 0x80, if b = 0xF4 then 0x8F else 0xBF,
      b - 0xF0⟩) := by
  have ascii : ¬b < 0x80 := by omega
  have two : ¬(0xC2 ≤ b ∧ b ≤ 0xDF) := by omega
  have three : b ≠ 0xE0 ∧ b ≠ 0xED ∧ ¬(0xE1 ≤ b ∧ b ≤ 0xEF) := by omega
  by_cases least : b = 0xF0
  · subst least; rfl
  by_cases greatest : b = 0xF4
  · subst greatest; rfl
  have inside : 0xF1 ≤ b ∧ b ≤ 0xF3 := by omega
  simp [start, ascii, two, three, least, greatest, inside]

theorem scan_first {b : UInt8} {p : Pending} (rest : Bytes)
    (begun : start b.toNat = ([], some p)) : scan none (b :: rest) = scan (some p) rest := by
  simp [scan, step, begun]

theorem scan_next {p : Pending} {b : UInt8} (rest : Bytes) (low : p.low ≤ b.toNat)
    (high : b.toNat ≤ p.high) (more : p.missing ≠ 1) :
    scan (some p) (b :: rest) =
      scan (some ⟨p.missing - 1, 0x80, 0xBF, p.value * 64 + (b.toNat - 0x80)⟩) rest := by
  simp [scan, step, low, high, more]

theorem scan_last {p : Pending} {b : UInt8} (rest : Bytes) (low : p.low ≤ b.toNat)
    (high : b.toNat ≤ p.high) (last : p.missing = 1) :
    scan (some p) (b :: rest) =
      .char (Char.ofNat (p.value * 64 + (b.toNat - 0x80))) :: scan none rest := by
  simp [scan, step, low, high, last]

theorem scan_utf8EncodeChar (c : Char) (rest : Bytes) :
    scan none (String.utf8EncodeChar c ++ rest) = .char c :: scan none rest := by
  obtain ⟨v, hv⟩ : ∃ v, v = c.val.toNat := ⟨_, rfl⟩
  have back : Char.ofNat v = c := by rw [hv]; exact Char.ofNat_toNat c
  have range : v < 0xD800 ∨ (0xDFFF < v ∧ v < 0x110000) := hv ▸ c.valid
  simp only [String.utf8EncodeChar, ← hv]
  split
  · next one =>
    have ascii : v < 0x80 := by omega
    have byte : (UInt8.ofNat v).toNat = v := by simp; omega
    simp [scan, step, start, byte, ascii, back]
  split
  · next two =>
    have first : (UInt8.ofNat (v / 64 % 0x20 + 0xC0)).toNat = v / 64 + 0xC0 := by simp; omega
    have second : (UInt8.ofNat (v % 0x40 + 0x80)).toNat = v % 0x40 + 0x80 := by simp; omega
    have value : (v / 64 + 0xC0 - 0xC0) * 64 + (v % 0x40 + 0x80 - 0x80) = v := by omega
    rw [List.cons_append, scan_first _ (start_two (by omega) (by omega)), List.cons_append,
      scan_last _ (by simp only [second]; omega) (by simp only [second]; omega) rfl]
    simp only [first, second, value, back, List.nil_append]
  split
  · next three =>
    have first : (UInt8.ofNat (v / 4096 % 0x10 + 0xE0)).toNat = v / 4096 + 0xE0 := by simp; omega
    have second : (UInt8.ofNat (v / 64 % 0x40 + 0x80)).toNat = v / 64 % 0x40 + 0x80 := by
      simp; omega
    have third : (UInt8.ofNat (v % 0x40 + 0x80)).toNat = v % 0x40 + 0x80 := by simp; omega
    have value : ((v / 4096 + 0xE0 - 0xE0) * 64 + (v / 64 % 0x40 + 0x80 - 0x80)) * 64 +
        (v % 0x40 + 0x80 - 0x80) = v := by omega
    rw [List.cons_append, scan_first _ (start_three (by omega) (by omega)), List.cons_append,
      scan_next _ (by simp only [first, second]; split <;> omega)
        (by simp only [first, second]; split <;> omega) (by simp), List.cons_append,
      scan_last _ (by simp only [third]; omega) (by simp only [third]; omega) rfl]
    simp only [first, second, third, value, back, List.nil_append]
  · next four =>
    have first : (UInt8.ofNat (v / 262144 % 0x08 + 0xF0)).toNat = v / 262144 + 0xF0 := by
      simp; omega
    have second : (UInt8.ofNat (v / 4096 % 0x40 + 0x80)).toNat = v / 4096 % 0x40 + 0x80 := by
      simp; omega
    have third : (UInt8.ofNat (v / 64 % 0x40 + 0x80)).toNat = v / 64 % 0x40 + 0x80 := by
      simp; omega
    have fourth : (UInt8.ofNat (v % 0x40 + 0x80)).toNat = v % 0x40 + 0x80 := by simp; omega
    have value : (((v / 262144 + 0xF0 - 0xF0) * 64 + (v / 4096 % 0x40 + 0x80 - 0x80)) * 64 +
        (v / 64 % 0x40 + 0x80 - 0x80)) * 64 + (v % 0x40 + 0x80 - 0x80) = v := by omega
    rw [List.cons_append, scan_first _ (start_four (by omega) (by omega)), List.cons_append,
      scan_next _ (by simp only [first, second]; split <;> omega)
        (by simp only [first, second]; split <;> omega) (by simp), List.cons_append,
      scan_next _ (by simp only [third]; omega) (by simp only [third]; omega) (by simp),
      List.cons_append,
      scan_last _ (by simp only [fourth]; omega) (by simp only [fourth]; omega) rfl]
    simp only [first, second, third, fourth, value, back, List.nil_append]

theorem scan_flatMap (chars : List Char) :
    scan none (chars.flatMap String.utf8EncodeChar) = chars.map Piece.char := by
  induction chars with
  | nil => rfl
  | cons c chars ih => rw [List.flatMap_cons, scan_utf8EncodeChar, ih, List.map_cons]

theorem mapM_char? (chars : List Char) : (chars.map Piece.char).mapM Piece.char? = some chars := by
  induction chars with
  | nil => rfl
  | cons c chars ih => simp [Piece.char?, ih]

@[simp] theorem decode?_encode (text : String) : decode? (encode text) = some text := by
  rw [decode?, pieces, encode, scan_flatMap, mapM_char?, Option.map_some, String.ofList_toList]

@[simp] theorem lossy_encode (text : String) : lossy (encode text) = text := by
  rw [lossy, pieces, encode, scan_flatMap, List.map_map]
  have shown : Piece.shown ∘ Piece.char = id := rfl
  rw [shown, List.map_id, String.ofList_toList]

/-- A byte below 0x80 stands only for the character with its code. -/
theorem val_of_mem_utf8EncodeChar {b : UInt8} {c : Char} (ascii : b.toNat < 0x80)
    (member : b ∈ String.utf8EncodeChar c) : c.val.toNat = b.toNat := by
  -- A longer form has no byte below 0x80.
  simp only [String.utf8EncodeChar] at member
  split at member
  · next one =>
    obtain rfl := List.mem_singleton.mp member
    rw [UInt8.toNat_ofNat']
    omega
  · split at member
    · simp only [List.mem_cons, List.not_mem_nil, or_false] at member
      rcases member with rfl | rfl <;> simp at ascii <;> omega
    · split at member <;> simp only [List.mem_cons, List.not_mem_nil, or_false] at member
      · rcases member with rfl | rfl | rfl <;> simp at ascii <;> omega
      · rcases member with rfl | rfl | rfl | rfl <;> simp at ascii <;> omega

/-- A byte below 0x80 stands in the encoded text where its character stands in the text. -/
theorem mem_encode_iff {b : UInt8} {c : Char} {text : String} (ascii : b.toNat < 0x80)
    (code : c.val.toNat = b.toNat) : b ∈ encode text ↔ c ∈ text.toList := by
  rw [encode, List.mem_flatMap]
  constructor
  · rintro ⟨c', member, byte⟩
    have same : c'.val.toNat = c.val.toNat := (val_of_mem_utf8EncodeChar ascii byte).trans code.symm
    obtain rfl : c' = c := Char.ext (UInt32.toNat_inj.mp same)
    exact member
  · intro member
    refine ⟨c, member, ?_⟩
    have one : b.toNat ≤ 0x7F := by omega
    simp [String.utf8EncodeChar, code, one]

/-- A first byte is a whole character, begins one of two, three or four bytes, or is stray. -/
theorem start_cases (b : Nat) :
    (b < 0x80 ∧ start b = ([.char (Char.ofNat b)], none)) ∨ (0xC2 ≤ b ∧ b ≤ 0xDF) ∨
      (0xE0 ≤ b ∧ b ≤ 0xEF) ∨ (0xF0 ≤ b ∧ b ≤ 0xF4) ∨ start b = ([.stray], none) := by
  by_cases ascii : b < 0x80
  · exact Or.inl ⟨ascii, by simp [start, ascii]⟩
  by_cases two : 0xC2 ≤ b ∧ b ≤ 0xDF
  · exact Or.inr (Or.inl two)
  by_cases three : 0xE0 ≤ b ∧ b ≤ 0xEF
  · exact Or.inr (Or.inr (Or.inl three))
  by_cases four : 0xF0 ≤ b ∧ b ≤ 0xF4
  · exact Or.inr (Or.inr (Or.inr (Or.inl four)))
  have none : b ≠ 0xE0 ∧ b ≠ 0xED ∧ ¬(0xE1 ≤ b ∧ b ≤ 0xEF) ∧ b ≠ 0xF0 ∧
      ¬(0xF1 ≤ b ∧ b ≤ 0xF3) ∧ b ≠ 0xF4 := by omega
  exact Or.inr (Or.inr (Or.inr (Or.inr (by simp [start, ascii, two, none]))))

section Splitting

variable {p : Pending} {bytes : Bytes} {c : Char} {ps : List Piece}

/-- A character begun is finished by bytes that can continue it. -/
theorem scan_continued (scanned : scan (some p) bytes = .char c :: ps) :
    ∃ b rest, bytes = b :: rest ∧ p.low ≤ b.toNat ∧ b.toNat ≤ p.high := by
  cases bytes with
  | nil => simp [scan] at scanned
  | cons b rest =>
    refine ⟨b, rest, rfl, Decidable.byContradiction fun outside => ?_⟩
    simp [scan, step, outside] at scanned

theorem scan_some_ne_nil : scan (some p) bytes ≠ [] := by
  induction bytes generalizing p with
  | nil => simp [scan]
  | cons b rest ih =>
    by_cases inside : p.low ≤ b.toNat ∧ b.toNat ≤ p.high
    · by_cases last : p.missing = 1
      · rw [scan_last rest inside.1 inside.2 last]
        exact List.cons_ne_nil _ _
      · rw [scan_next rest inside.1 inside.2 last]
        exact ih
    · simp [scan, step, inside]

theorem eq_nil_of_scan (empty : scan none bytes = []) : bytes = [] := by
  cases bytes with
  | nil => rfl
  | cons b rest =>
    rcases started : start b.toNat with ⟨read, _ | p⟩
    · rcases start_cases b.toNat with ⟨_, one⟩ | two | three | four | stray
      · simp [scan, step, one] at empty
      · simp [start_two two.1 two.2] at started
      · simp [start_three three.1 three.2] at started
      · simp [start_four four.1 four.2] at started
      · simp [scan, step, stray] at empty
    · have pending : scan (some p) rest = [] := by
        simp only [scan, step, started, List.append_eq_nil_iff] at empty
        exact empty.2
      exact absurd pending scan_some_ne_nil

theorem val_ofNat {v : Nat} (valid : v.isValidChar) : (Char.ofNat v).val.toNat = v := by
  rw [Char.ofNat, dif_pos valid]
  rfl

theorem ofNat_eq {b : UInt8} {n : Nat} (same : n = b.toNat) : UInt8.ofNat n = b := by
  rw [same, UInt8.ofNat_toNat]

theorem utf8EncodeChar_two {b b₁ : UInt8} (low : 0xC2 ≤ b.toNat) (high : b.toNat ≤ 0xDF)
    (inner : 0x80 ≤ b₁.toNat ∧ b₁.toNat ≤ 0xBF) :
    String.utf8EncodeChar (Char.ofNat ((b.toNat - 0xC0) * 64 + (b₁.toNat - 0x80))) = [b, b₁] := by
  obtain ⟨v, hv⟩ : ∃ v, v = (b.toNat - 0xC0) * 64 + (b₁.toNat - 0x80) := ⟨_, rfl⟩
  have code := val_ofNat (v := v) (Or.inl (by omega))
  rw [← hv]
  simp only [String.utf8EncodeChar, code]
  rw [if_neg (by omega), if_pos (by omega), ofNat_eq (b := b) (by omega),
    ofNat_eq (b := b₁) (by omega)]

theorem utf8EncodeChar_three {b b₁ b₂ : UInt8} (low : 0xE0 ≤ b.toNat) (high : b.toNat ≤ 0xEF)
    (least : (if b.toNat = 0xE0 then 0xA0 else 0x80) ≤ b₁.toNat)
    (greatest : b₁.toNat ≤ if b.toNat = 0xED then 0x9F else 0xBF)
    (inner : 0x80 ≤ b₂.toNat ∧ b₂.toNat ≤ 0xBF) :
    String.utf8EncodeChar (Char.ofNat
      (((b.toNat - 0xE0) * 64 + (b₁.toNat - 0x80)) * 64 + (b₂.toNat - 0x80))) = [b, b₁, b₂] := by
  obtain ⟨v, hv⟩ : ∃ v, v = ((b.toNat - 0xE0) * 64 + (b₁.toNat - 0x80)) * 64 +
    (b₂.toNat - 0x80) := ⟨_, rfl⟩
  have second : 0x80 ≤ b₁.toNat ∧ b₁.toNat ≤ 0xBF := by
    split at least <;> split at greatest <;> omega
  have wide : 0x800 ≤ v := by split at least <;> omega
  have valid : v.isValidChar := by
    unfold Nat.isValidChar
    split at greatest <;> omega
  have code := val_ofNat valid
  clear least greatest
  rw [← hv]
  simp only [String.utf8EncodeChar, code]
  rw [if_neg (by omega), if_neg (by omega), if_pos (by omega), ofNat_eq (b := b) (by omega),
    ofNat_eq (b := b₁) (by omega), ofNat_eq (b := b₂) (by omega)]

theorem utf8EncodeChar_four {b b₁ b₂ b₃ : UInt8} (low : 0xF0 ≤ b.toNat) (high : b.toNat ≤ 0xF4)
    (least : (if b.toNat = 0xF0 then 0x90 else 0x80) ≤ b₁.toNat)
    (greatest : b₁.toNat ≤ if b.toNat = 0xF4 then 0x8F else 0xBF)
    (inner : 0x80 ≤ b₂.toNat ∧ b₂.toNat ≤ 0xBF) (last : 0x80 ≤ b₃.toNat ∧ b₃.toNat ≤ 0xBF) :
    String.utf8EncodeChar (Char.ofNat ((((b.toNat - 0xF0) * 64 + (b₁.toNat - 0x80)) * 64 +
      (b₂.toNat - 0x80)) * 64 + (b₃.toNat - 0x80))) = [b, b₁, b₂, b₃] := by
  obtain ⟨v, hv⟩ : ∃ v, v = (((b.toNat - 0xF0) * 64 + (b₁.toNat - 0x80)) * 64 +
    (b₂.toNat - 0x80)) * 64 + (b₃.toNat - 0x80) := ⟨_, rfl⟩
  have second : 0x80 ≤ b₁.toNat ∧ b₁.toNat ≤ 0xBF := by
    split at least <;> split at greatest <;> omega
  have wide : 0x10000 ≤ v := by split at least <;> omega
  have code := val_ofNat (v := v) (Or.inr ⟨by omega, by split at greatest <;> omega⟩)
  clear least greatest
  rw [← hv]
  simp only [String.utf8EncodeChar, code]
  rw [if_neg (by omega), if_neg (by omega), if_neg (by omega), ofNat_eq (b := b) (by omega),
    ofNat_eq (b := b₁) (by omega), ofNat_eq (b := b₂) (by omega), ofNat_eq (b := b₃) (by omega)]

/-- Where a character is read, its bytes stand. -/
theorem scan_split (scanned : scan none bytes = .char c :: ps) :
    ∃ rest, bytes = String.utf8EncodeChar c ++ rest ∧ scan none rest = ps := by
  obtain _ | ⟨b, rest⟩ := bytes
  · simp [scan] at scanned
  rcases start_cases b.toNat with ⟨ascii, one⟩ | two | three | four | stray
  · simp only [scan, step, one, List.cons_append, List.nil_append, List.cons.injEq,
      Piece.char.injEq] at scanned
    obtain ⟨rfl, read⟩ := scanned
    have code := val_ofNat (v := b.toNat) (Or.inl (by omega))
    refine ⟨rest, ?_, read⟩
    simp only [String.utf8EncodeChar, code]
    rw [if_pos (by omega), UInt8.ofNat_toNat]
    rfl
  · rw [scan_first _ (start_two two.1 two.2)] at scanned
    obtain ⟨b₁, rest, rfl, low, high⟩ := scan_continued scanned
    rw [scan_last _ low high rfl] at scanned
    obtain ⟨rfl, read⟩ : _ ∧ _ := by simpa using scanned
    exact ⟨rest, by rw [utf8EncodeChar_two two.1 two.2 ⟨low, high⟩]; rfl, read⟩
  · rw [scan_first _ (start_three three.1 three.2)] at scanned
    obtain ⟨b₁, rest, rfl, least, greatest⟩ := scan_continued scanned
    rw [scan_next _ least greatest (by simp)] at scanned
    obtain ⟨b₂, rest, rfl, low, high⟩ := scan_continued scanned
    rw [scan_last _ low high rfl] at scanned
    obtain ⟨rfl, read⟩ : _ ∧ _ := by simpa using scanned
    have bytes := utf8EncodeChar_three three.1 three.2 least greatest ⟨low, high⟩
    exact ⟨rest, by rw [bytes]; rfl, read⟩
  · rw [scan_first _ (start_four four.1 four.2)] at scanned
    obtain ⟨b₁, rest, rfl, least, greatest⟩ := scan_continued scanned
    rw [scan_next _ least greatest (by simp)] at scanned
    obtain ⟨b₂, rest, rfl, low₂, high₂⟩ := scan_continued scanned
    rw [scan_next _ low₂ high₂ (by simp)] at scanned
    obtain ⟨b₃, rest, rfl, low₃, high₃⟩ := scan_continued scanned
    rw [scan_last _ low₃ high₃ rfl] at scanned
    obtain ⟨rfl, read⟩ : _ ∧ _ := by simpa using scanned
    have bytes := utf8EncodeChar_four four.1 four.2 least greatest ⟨low₂, high₂⟩ ⟨low₃, high₃⟩
    exact ⟨rest, by rw [bytes]; rfl, read⟩
  · simp [scan, step, stray] at scanned

end Splitting

theorem flatMap_of_scan {bytes : Bytes} {chars : List Char}
    (scanned : scan none bytes = chars.map Piece.char) :
    chars.flatMap String.utf8EncodeChar = bytes := by
  induction chars generalizing bytes with
  | nil => exact (eq_nil_of_scan scanned).symm
  | cons c chars ih =>
    obtain ⟨rest, rfl, others⟩ := scan_split scanned
    rw [List.flatMap_cons, ih others]

theorem eq_map_of_mapM_char? {ps : List Piece} {chars : List Char}
    (decoded : ps.mapM Piece.char? = some chars) : ps = chars.map Piece.char := by
  induction ps generalizing chars with
  | nil =>
    obtain rfl : [] = chars := by simpa using decoded
    rfl
  | cons first ps ih =>
    cases first with
    | stray => simp [Piece.char?] at decoded
    | char c =>
      obtain ⟨others, read, rfl⟩ : ∃ others, ps.mapM Piece.char? = some others ∧
          c :: others = chars := by simpa [Piece.char?, Option.bind_eq_some_iff] using decoded
      rw [ih read, List.map_cons]

/-- A text that was decoded from bytes is encoded by no others. -/
theorem encode_of_decode? {bytes : Bytes} {text : String} (decoded : decode? bytes = some text) :
    encode text = bytes := by
  obtain ⟨chars, read, rfl⟩ := Option.map_eq_some_iff.mp decoded
  rw [encode, String.toList_ofList]
  exact flatMap_of_scan (eq_map_of_mapM_char? read)

theorem encode_injective {s t : String} (same : encode s = encode t) : s = t := by
  have read : decode? (encode s) = decode? (encode t) := by rw [same]
  simpa using read

end Codemod.Utf8
