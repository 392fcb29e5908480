/-
Reading text as characters.

`Utf8.decode` goes through a text glyph by glyph. A well-formed encoding of a character is one
glyph; any byte that does not start one is a glyph of its own. Overlong forms, surrogates and
code points above U+10FFFF are not well formed.
-/
import Lox.Text.Bytes

namespace Lox

/-- One step of reading a text: a character, or a byte that starts none. -/
inductive Glyph where
  | char (c : Char)
  | stray (b : UInt8)
deriving DecidableEq, Repr

namespace Glyph

/-- How many bytes the glyph takes up. -/
def width : Glyph → Nat
  | .char c => c.utf8Size
  | .stray _ => 1

/-- The bytes the glyph takes up. -/
def bytes : Glyph → Bytes
  | .char c => String.utf8EncodeChar c
  | .stray b => [b]

/-- A glyph takes up at least one byte. -/
theorem width_pos (g : Glyph) : 0 < g.width := by
  cases g with
  | char c => exact Char.utf8Size_pos c
  | stray b => exact Nat.one_pos

theorem length_bytes (g : Glyph) : g.bytes.length = g.width := by
  cases g with
  | char c => exact String.length_utf8EncodeChar c
  | stray b => rfl

/-- The character shown for a glyph: a stray byte shows as U+FFFD. -/
def shown : Glyph → Char
  | .char c => c
  | .stray _ => '�'

end Glyph

namespace Utf8

/-- A byte that continues a character: its top bits are 10. -/
def isContinuation (b : UInt8) : Bool := 0x80 ≤ b && b ≤ 0xBF

/-- The six bits that a continuation byte carries. -/
def payload (b : UInt8) : Nat := b.toNat % 64

/-- The glyph at the front of the text `b :: rest`. -/
def front (b : UInt8) (rest : Bytes) : Glyph :=
  if b < 0x80 then .char (Char.ofNat b.toNat)
  else if 0xC2 ≤ b && b ≤ 0xDF then
    match rest with
    | c :: _ =>
      if isContinuation c then .char (Char.ofNat (b.toNat % 32 * 64 + payload c))
      else .stray b
    | _ => .stray b
  else if 0xE0 ≤ b && b ≤ 0xEF then
    match rest with
    | c :: d :: _ =>
      let low : UInt8 := if b == 0xE0 then 0xA0 else 0x80
      let high : UInt8 := if b == 0xED then 0x9F else 0xBF
      if low ≤ c && c ≤ high && isContinuation d then
        .char (Char.ofNat (b.toNat % 16 * 4096 + payload c * 64 + payload d))
      else .stray b
    | _ => .stray b
  else if 0xF0 ≤ b && b ≤ 0xF4 then
    match rest with
    | c :: d :: e :: _ =>
      let low : UInt8 := if b == 0xF0 then 0x90 else 0x80
      let high : UInt8 := if b == 0xF4 then 0x8F else 0xBF
      if low ≤ c && c ≤ high && isContinuation d && isContinuation e then
        .char (Char.ofNat (b.toNat % 8 * 262144 + payload c * 4096 + payload d * 64 + payload e))
      else .stray b
    | _ => .stray b
  else .stray b

/-- The glyphs of a text after its first `skip` bytes. -/
def decodeFrom : Nat → Bytes → List Glyph
  | _, [] => []
  | skip + 1, _ :: rest => decodeFrom skip rest
  | 0, b :: rest =>
    let glyph := front b rest
    glyph :: decodeFrom (glyph.width - 1) rest

/-- The glyphs of a text, in order. -/
def decode (text : Bytes) : List Glyph :=
  decodeFrom 0 text

/-- Is the text the encoding of a sequence of characters? -/
def isValid (text : Bytes) : Bool :=
  (decode text).all fun
    | .char _ => true
    | .stray _ => false

/-- The UTF-8 encoding of a sequence of characters. -/
def encode (chars : List Char) : Bytes :=
  chars.flatMap String.utf8EncodeChar

/-- The text as a string, if it is valid. -/
def toString? (text : Bytes) : Option String :=
  if isValid text then some (String.ofList ((decode text).map Glyph.shown)) else none

end Utf8

end Lox
