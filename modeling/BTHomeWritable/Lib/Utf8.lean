import BTHomeWritable.Lib.LittleEndian

/-!
# UTF-8

`encode` is UTF-8 as the standard library has it, and `decode` reads any bytes: what is
no character becomes U+FFFD, one for each maximal part of a sequence, as the
Unicode standard recommends.
-/

namespace Utf8

def encode (text : List Char) : Bytes := text.flatMap String.utf8EncodeChar

/-! ## What is no character -/

def isTail (b : UInt8) : Bool := 0x80 ≤ b && b ≤ 0xBF

/-- The bytes that may follow the first one. -/
def isSecond (first b : UInt8) : Bool :=
  if first = 0xE0 then 0xA0 ≤ b && b ≤ 0xBF
  else if first = 0xED then 0x80 ≤ b && b ≤ 0x9F
  else if first = 0xF0 then 0x90 ≤ b && b ≤ 0xBF
  else if first = 0xF4 then 0x80 ≤ b && b ≤ 0x8F
  else isTail b

/-- How many bytes a sequence has that begins so; 1 for what begins none. -/
def width (first : UInt8) : ℕ :=
  if 0xC2 ≤ first && first ≤ 0xDF then 2
  else if 0xE0 ≤ first && first ≤ 0xEF then 3
  else if 0xF0 ≤ first && first ≤ 0xF4 then 4
  else 1

/-- The maximal part of a sequence that the bytes begin with. -/
def subpart (first : UInt8) (rest : Bytes) : ℕ :=
  match rest with
  | [] => 1
  | second :: rest =>
      if width first = 1 || !isSecond first second then 1
      else 2 + ((rest.take (width first - 2)).takeWhile isTail).length

def replacement : Char := Char.ofNat 0xFFFD

/-- The first character, and how many bytes it takes. -/
def decodeFirst (first : UInt8) (rest : Bytes) : Char × ℕ :=
  match (first :: rest).toByteArray.utf8DecodeChar? 0 with
  | some c => (c, c.utf8Size)
  | none => (replacement, subpart first rest)

/-- The text after `skip` bytes. -/
def decodeFrom : ℕ → Bytes → List Char
  | _, [] => []
  | skip + 1, _ :: rest => decodeFrom skip rest
  | 0, first :: rest =>
      (decodeFirst first rest).1 :: decodeFrom ((decodeFirst first rest).2 - 1) rest

def decode (bs : Bytes) : List Char := decodeFrom 0 bs

/-! ## What is text comes back -/

end Utf8
