import Brainfuck.Token

/-!
# Reading by index

A `Lexer` is what is left of a text. A `Reader` has all of the text and an index into it, at which it
can look without going on. It looks for the next command in a loop, and takes it up where the loop
has stopped.
-/

namespace Brainfuck

/-- A text that is read byte by byte. -/
structure Reader where
  bytes : Array UInt8
  /-- The index of the byte that is read next. -/
  cursor : Nat
  deriving DecidableEq, Repr

namespace Reader

/-- A reader at the start of a text. -/
def ofText (text : String) : Reader := ⟨text.toUTF8.data, 0⟩

/-- The same text, one byte further on. -/
def advance (r : Reader) : Reader := { r with cursor := r.cursor + 1 }

/-- The byte at the cursor, if there is one. A byte that is only looked at is read again. -/
def nextByte (look : Bool) (r : Reader) : Option UInt8 × Reader :=
  match r.bytes[r.cursor]? with
  | none => (none, r)
  | some byte => (some byte, if look then r else r.advance)

/-- How many bytes there are from the cursor on. -/
def remaining (r : Reader) : Nat := r.bytes.size - r.cursor

theorem remaining_advance {r : Reader} {byte : UInt8} (h : r.bytes[r.cursor]? = some byte) :
    r.advance.remaining < r.remaining := by
  obtain ⟨hlt, -⟩ := Array.getElem?_eq_some_iff.mp h
  exact Nat.sub_succ_lt_self _ _ hlt

theorem nextByte_look {r : Reader} : r.nextByte true = (r.bytes[r.cursor]?, r) := by
  unfold nextByte
  cases r.bytes[r.cursor]? <;> rfl

/-- Goes on to the next command, or to the end. -/
def skipComments (r : Reader) : Reader :=
  match _h : (r.nextByte true).1 with
  | none => r
  | some byte => if (Command.ofByte? byte).isSome then r else r.advance.skipComments
termination_by r.remaining
decreasing_by
  rw [nextByte_look] at _h
  exact remaining_advance _h

theorem remaining_skipComments (r : Reader) : r.skipComments.remaining ≤ r.remaining := by
  fun_induction skipComments r with
  | case1 => exact Nat.le_refl _
  | case2 => exact Nat.le_refl _
  | case3 r byte h _ ih =>
    rw [nextByte_look] at h
    exact Nat.le_trans ih (Nat.le_of_lt (remaining_advance h))

/-- The token of the byte at the cursor, if it is a command, and the reader behind that byte. -/
def takeUp (r : Reader) : Option Token × Reader :=
  let (byte?, r') := r.nextByte false
  ((byte?.bind Command.ofByte?).map (⟨·, r.cursor⟩), r')

theorem takeUp_of_none {r : Reader} (h : r.bytes[r.cursor]? = none) : r.takeUp = (none, r) := by
  simp [takeUp, nextByte, h]

theorem takeUp_of_some {r : Reader} {byte : UInt8} (h : r.bytes[r.cursor]? = some byte) :
    r.takeUp = ((Command.ofByte? byte).map (⟨·, r.cursor⟩), r.advance) := by
  simp [takeUp, nextByte, h]

/-- The next token, if there is one, and the reader behind it. -/
def next (r : Reader) : Option Token × Reader := r.skipComments.takeUp

theorem remaining_next {r r' : Reader} {t : Token} (h : r.next = (some t, r')) :
    r'.remaining < r.remaining := by
  unfold next at h
  cases hbyte : r.skipComments.bytes[r.skipComments.cursor]? with
  | none =>
    rw [takeUp_of_none hbyte] at h
    cases h
  | some byte =>
    rw [takeUp_of_some hbyte] at h
    obtain ⟨-, rfl⟩ := Prod.mk.inj h
    exact Nat.lt_of_lt_of_le (remaining_advance hbyte) (remaining_skipComments r)

/-- All remaining tokens, put behind `taken`, which holds earlier ones in reverse. -/
def collect (taken : List Token) (r : Reader) : List Token :=
  match _h : r.next with
  | (some t, r') => collect (t :: taken) r'
  | (none, _) => taken.reverse
termination_by r.remaining
decreasing_by exact remaining_next _h

/-- All remaining tokens, in order. -/
def tokens (r : Reader) : List Token := r.collect []

/-- The next `n` answers of the reader, and the reader behind them. -/
def take : Nat → Reader → List (Option Token) × Reader
  | 0, r => ([], r)
  | n + 1, r =>
    let (token, r') := r.next
    let (later, r'') := take n r'
    (token :: later, r'')

end Reader

end Brainfuck
