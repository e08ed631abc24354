/-! UTF-8: reading bytes as text. The bytes are refused at the first sequence that is not the
shortest encoding of a character. -/

namespace PotExtract.Text

/-- Where the first broken sequence starts, and the number of bytes that show it is broken. The
length is absent when the bytes end inside the sequence. -/
structure Utf8Error where
  start : Nat
  length : Option Nat
  deriving DecidableEq, Repr

/-- Names the broken sequence. -/
def Utf8Error.message (e : Utf8Error) : String :=
  match e.length with
  | some n => s!"invalid utf-8 sequence of {n} bytes from index {e.start}"
  | none => s!"incomplete utf-8 byte sequence from index {e.start}"

/-- A byte that continues a sequence. -/
def isTail (b : UInt8) : Bool :=
  0x80 ≤ b && b ≤ 0xBF

/-- The range of the second byte of a sequence of three or four, by its first. -/
def secondRange (a : UInt8) : UInt8 × UInt8 :=
  if a = 0xE0 then (0xA0, 0xBF)
  else if a = 0xED then (0x80, 0x9F)
  else if a = 0xF0 then (0x90, 0xBF)
  else if a = 0xF4 then (0x80, 0x8F)
  else (0x80, 0xBF)

/-- Whether `b` may follow `a` in a sequence of three or four bytes. -/
def mayFollow (a b : UInt8) : Bool :=
  (secondRange a).1 ≤ b && b ≤ (secondRange a).2

/-- The character whose bits are the low bits of a first byte and of the bytes after it. -/
def joinBits (first : Nat) (tails : List UInt8) : Char :=
  Char.ofNat (tails.foldl (fun n b => n * 64 + b.toNat % 64) first)

/-- Reads the bytes that begin at index `start`. -/
def decodeFrom (start : Nat) : List UInt8 → Except Utf8Error (List Char)
  | [] => .ok []
  | a :: rest =>
    if a < 0x80 then (Char.ofNat a.toNat :: ·) <$> decodeFrom (start + 1) rest
    else if 0xC2 ≤ a ∧ a ≤ 0xDF then
      match rest with
      | [] => .error ⟨start, none⟩
      | b :: rest =>
        if isTail b then (joinBits (a.toNat % 32) [b] :: ·) <$> decodeFrom (start + 2) rest
        else .error ⟨start, some 1⟩
    else if 0xE0 ≤ a ∧ a ≤ 0xEF then
      match rest with
      | [] => .error ⟨start, none⟩
      | [b] => if mayFollow a b then .error ⟨start, none⟩ else .error ⟨start, some 1⟩
      | b :: c :: rest =>
        if !mayFollow a b then .error ⟨start, some 1⟩
        else if !isTail c then .error ⟨start, some 2⟩
        else (joinBits (a.toNat % 16) [b, c] :: ·) <$> decodeFrom (start + 3) rest
    else if 0xF0 ≤ a ∧ a ≤ 0xF4 then
      match rest with
      | [] => .error ⟨start, none⟩
      | [b] => if mayFollow a b then .error ⟨start, none⟩ else .error ⟨start, some 1⟩
      | [b, c] =>
        if !mayFollow a b then .error ⟨start, some 1⟩
        else if isTail c then .error ⟨start, none⟩ else .error ⟨start, some 2⟩
      | b :: c :: d :: rest =>
        if !mayFollow a b then .error ⟨start, some 1⟩
        else if !isTail c then .error ⟨start, some 2⟩
        else if !isTail d then .error ⟨start, some 3⟩
        else (joinBits (a.toNat % 8) [b, c, d] :: ·) <$> decodeFrom (start + 4) rest
    else .error ⟨start, some 1⟩

/-- The text that the bytes encode. -/
def decodeUtf8 (bytes : List UInt8) : Except Utf8Error (List Char) :=
  decodeFrom 0 bytes

/-- The bytes of a text. -/
def encodeUtf8 (s : List Char) : List UInt8 :=
  s.flatMap String.utf8EncodeChar

end PotExtract.Text
