/-!
# UTF-8 text in bytes

Reading bytes as text either gives the text or says where the bytes stop being text: `Defect`
names the place of the first bad sequence and how many of its bytes could still have begun a
character.

A character's first byte fixes how many bytes follow it and what each may be (`Utf8.followers?`).
Only the byte straight after the first has a narrower range than `0x80` to `0xBF`: there the
overlong forms, the surrogates and the numbers above `0x10FFFF` are ruled out.
-/

namespace Brainfuck.Utf8

/-- The place at which a byte sequence stops being UTF-8. -/
structure Defect where
  /-- How many bytes are text; the bad sequence starts right behind them. -/
  validUpTo : Nat
  /-- How many bytes of the bad sequence could begin a character, or none if the bytes end
  inside a character that is good so far. -/
  length : Option Nat
  deriving DecidableEq, Repr

/-- The words in which a defect is reported. -/
def Defect.message : Defect → String
  | ⟨validUpTo, some length⟩ =>
    s!"invalid utf-8 sequence of {length} bytes from index {validUpTo}"
  | ⟨validUpTo, none⟩ => s!"incomplete utf-8 byte sequence from index {validUpTo}"

/-- A range of bytes, both ends included. -/
structure ByteRange where
  low : UInt8
  high : UInt8
  deriving DecidableEq, Repr

/-- The byte lies in the range. -/
def ByteRange.contains (r : ByteRange) (byte : UInt8) : Bool := r.low ≤ byte && byte ≤ r.high

/-- The bytes that may continue a character, unless its first byte narrows the range. -/
def tail : ByteRange := ⟨0x80, 0xBF⟩

/-- What must follow the first byte of a character; none if no character starts with it. -/
def followers? (first : UInt8) : Option (List ByteRange) :=
  if first < 0x80 then some []
  else if first < 0xC2 then none
  else if first < 0xE0 then some [tail]
  else if first = 0xE0 then some [⟨0xA0, 0xBF⟩, tail]
  else if first = 0xED then some [⟨0x80, 0x9F⟩, tail]
  else if first < 0xF0 then some [tail, tail]
  else if first = 0xF0 then some [⟨0x90, 0xBF⟩, tail, tail]
  else if first < 0xF4 then some [tail, tail, tail]
  else if first = 0xF4 then some [⟨0x80, 0x8F⟩, tail, tail]
  else none

/-- The first defect of the bytes, where a character that began at `start` has had `seen` of its
bytes read and still needs a byte from each of the given ranges. -/
def firstDefectFrom (start seen : Nat) : List ByteRange → List UInt8 → Option Defect
  | [], [] => none
  | _ :: _, [] => some ⟨start, none⟩
  | [], byte :: rest =>
    match followers? byte with
    | some owed => firstDefectFrom (start + seen) 1 owed rest
    | none => some ⟨start + seen, some 1⟩
  | range :: owed, byte :: rest =>
    if range.contains byte then firstDefectFrom start (seen + 1) owed rest
    else some ⟨start, some seen⟩

/-- The first place at which the bytes are not UTF-8, if there is one. -/
def firstDefect? (bytes : List UInt8) : Option Defect := firstDefectFrom 0 0 [] bytes

/-- Reads bytes as text. Bytes that are not text have a defect, so the place given for want of one
(the end) is never shown. -/
def decode (bytes : ByteArray) : Except Defect String :=
  match String.fromUTF8? bytes with
  | some text => .ok text
  | none => .error ((firstDefect? bytes.toList).getD ⟨bytes.size, none⟩)

/-- A text's own bytes read as that text. -/
theorem decode_toUTF8 (text : String) : decode text.toUTF8 = .ok text := by
  simp only [decode, String.fromUTF8?, String.toUTF8_eq_toByteArray, dif_pos text.isValidUTF8]
  rfl

/-- Only a text's own bytes read as that text. -/
theorem decode_eq_ok_iff {bytes : ByteArray} {text : String} :
    decode bytes = .ok text ↔ text.toUTF8 = bytes := by
  constructor
  · intro h
    unfold decode String.fromUTF8? at h
    split at h
    · next h' =>
      split at h'
      · cases h'; cases h; rfl
      · cases h'
    · cases h
  · rintro rfl
    exact decode_toUTF8 text

end Brainfuck.Utf8
