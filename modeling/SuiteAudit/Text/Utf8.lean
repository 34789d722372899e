import SuiteAudit.Text.Basic

/-! # UTF-8

A text as bytes and back.  `encode` gives one to four bytes for a character.  `decode` reads one
byte at a time, and stops at the first byte that rules the rest out: it says which bytes of the
unfinished character were read before it, and why the character cannot be finished.
-/

namespace SuiteAudit

abbrev Bytes := List UInt8

namespace Utf8

/-- A byte that carries on a character, with the last six bits of `n`. -/
def tail (n : Nat) : UInt8 := UInt8.ofNat (0x80 + n % 0x40)

/-- The bytes of a character. -/
def encodeChar (c : Char) : Bytes :=
  let n := c.toNat
  if n < 0x80 then [UInt8.ofNat n]
  else if n < 0x800 then [UInt8.ofNat (0xC0 + n / 0x40), tail n]
  else if n < 0x10000 then [UInt8.ofNat (0xE0 + n / 0x1000), tail (n / 0x40), tail n]
  else [UInt8.ofNat (0xF0 + n / 0x40000), tail (n / 0x1000), tail (n / 0x40), tail n]

def encode (t : Text) : Bytes := t.flatMap encodeChar

/-! ### Reading -/

inductive Reason where
  | invalidStart
  | invalidContinuation
  | unexpectedEnd
  deriving DecidableEq, Repr

def Reason.text : Reason → Text
  | invalidStart => "invalid start byte"
  | invalidContinuation => "invalid continuation byte"
  | unexpectedEnd => "unexpected end of data"

/-- Bytes that are no character: the position and the value of the first, and how many they are. -/
structure Fault where
  start : Nat
  first : UInt8
  count : Nat
  reason : Reason
  deriving DecidableEq

namespace Fault

/-- The bytes of a fault in words. -/
def place (f : Fault) : Text :=
  if f.count ≤ 1 then
    "byte 0x" ++ Text.ofNatHex 2 f.first.toNat ++ " in position " ++ Text.ofNat f.start
  else
    "bytes in position " ++ Text.ofNat f.start ++ "-" ++ Text.ofNat (f.start + f.count - 1)

def message (f : Fault) : Text := "'utf-8' codec can't decode " ++ f.place ++ ": " ++ f.reason.text

end Fault

/-- A character of which some bytes have been read: where it starts and with which byte, how many
bytes were read and how many are owed, the bounds of the next byte, and the bits so far. -/
structure Partial where
  start : Nat
  first : UInt8
  count : Nat
  owed : Nat
  low : Nat
  high : Nat
  bits : Nat

/-- What the first byte of a longer character tells. -/
def lead? (start : Nat) (b : UInt8) : Option Partial :=
  let n := b.toNat
  if 0xC2 ≤ n ∧ n ≤ 0xDF then some ⟨start, b, 1, 1, 0x80, 0xBF, n - 0xC0⟩
  else if n = 0xE0 then some ⟨start, b, 1, 2, 0xA0, 0xBF, 0⟩
  else if n = 0xED then some ⟨start, b, 1, 2, 0x80, 0x9F, 0xD⟩
  else if 0xE1 ≤ n ∧ n ≤ 0xEF then some ⟨start, b, 1, 2, 0x80, 0xBF, n - 0xE0⟩
  else if n = 0xF0 then some ⟨start, b, 1, 3, 0x90, 0xBF, 0⟩
  else if 0xF1 ≤ n ∧ n ≤ 0xF3 then some ⟨start, b, 1, 3, 0x80, 0xBF, n - 0xF0⟩
  else if n = 0xF4 then some ⟨start, b, 1, 3, 0x80, 0x8F, 4⟩
  else none

def Partial.fault (p : Partial) (reason : Reason) : Fault := ⟨p.start, p.first, p.count, reason⟩

/-- The bits of a character with those of one more byte. -/
def Partial.withByte (p : Partial) (b : UInt8) : Nat := p.bits * 0x40 + (b.toNat - 0x80)

/-- The text of the bytes from a position on, the first of which may carry on a character. -/
def decodeFrom : Nat → Option Partial → Bytes → Except Fault Text
  | _, none, [] => .ok []
  | _, some p, [] => .error (p.fault .unexpectedEnd)
  | position, none, b :: rest =>
    if b.toNat < 0x80 then (Char.ofNat b.toNat :: ·) <$> decodeFrom (position + 1) none rest
    else
      match lead? position b with
      | none => .error ⟨position, b, 1, .invalidStart⟩
      | some p => decodeFrom (position + 1) (some p) rest
  | position, some p, b :: rest =>
    if b.toNat < p.low ∨ p.high < b.toNat then .error (p.fault .invalidContinuation)
    else if p.owed ≤ 1 then
      (Char.ofNat (p.withByte b) :: ·) <$> decodeFrom (position + 1) none rest
    else
      decodeFrom (position + 1)
        (some ⟨p.start, p.first, p.count + 1, p.owed - 1, 0x80, 0xBF, p.withByte b⟩) rest

/-- The text that some bytes stand for. -/
def decode (bytes : Bytes) : Except Fault Text := decodeFrom 0 none bytes

end Utf8
end SuiteAudit
