/-! UTF-8 in byte strings. One left-to-right scan cuts a byte string into the characters it
encodes and its maximal ill-formed parts. Strict decoding and lossy display are two views of
that scan, so they agree on every well-formed string. -/
namespace Codemod

abbrev Bytes := List UInt8

namespace Utf8

/-- A decoded character, or a maximal part that belongs to none. -/
inductive Piece where
  | char (c : Char)
  | stray
deriving DecidableEq, Repr

namespace Piece

def char? : Piece → Option Char
  | .char c => some c
  | .stray => none

def shown : Piece → Char
  | .char c => c
  | .stray => '\uFFFD'

end Piece

/-- A character begun and not finished: `missing` bytes are still to come, the next of them
between `low` and `high`, and `value` holds the bits read so far. -/
structure Pending where
  missing : Nat
  low : Nat
  high : Nat
  value : Nat
deriving DecidableEq, Repr

/-- Reads a byte where a character may begin. The ranges of the second byte exclude overlong
forms, surrogates and values beyond U+10FFFF. -/
def start (b : Nat) : List Piece × Option Pending :=
  if b < 0x80 then ([.char (Char.ofNat b)], none)
  else if 0xC2 ≤ b ∧ b ≤ 0xDF then ([], some ⟨1, 0x80, 0xBF, b - 0xC0⟩)
  else if b = 0xE0 then ([], some ⟨2, 0xA0, 0xBF, 0x0⟩)
  else if b = 0xED then ([], some ⟨2, 0x80, 0x9F, 0xD⟩)
  else if 0xE1 ≤ b ∧ b ≤ 0xEF then ([], some ⟨2, 0x80, 0xBF, b - 0xE0⟩)
  else if b = 0xF0 then ([], some ⟨3, 0x90, 0xBF, 0x0⟩)
  else if 0xF1 ≤ b ∧ b ≤ 0xF3 then ([], some ⟨3, 0x80, 0xBF, b - 0xF0⟩)
  else if b = 0xF4 then ([], some ⟨3, 0x80, 0x8F, 0x4⟩)
  else ([.stray], none)

/-- Reads one byte. A byte that cannot continue the character begun ends it as a stray part and
is then read as a first byte. -/
def step : Option Pending → Nat → List Piece × Option Pending
  | none, b => start b
  | some p, b =>
    if p.low ≤ b ∧ b ≤ p.high then
      let value := p.value * 64 + (b - 0x80)
      if p.missing = 1 then ([.char (Char.ofNat value)], none)
      else ([], some ⟨p.missing - 1, 0x80, 0xBF, value⟩)
    else
      let fresh := start b
      (.stray :: fresh.1, fresh.2)

def scan : Option Pending → Bytes → List Piece
  | none, [] => []
  | some _, [] => [.stray]
  | state, b :: rest =>
    let next := step state b.toNat
    next.1 ++ scan next.2 rest

def pieces (bytes : Bytes) : List Piece := scan none bytes

def decode? (bytes : Bytes) : Option String :=
  ((pieces bytes).mapM Piece.char?).map String.ofList

def lossy (bytes : Bytes) : String := String.ofList ((pieces bytes).map Piece.shown)

def encode (text : String) : Bytes := text.toList.flatMap String.utf8EncodeChar

end Utf8

end Codemod
