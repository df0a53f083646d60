import Brainfuck.Error

/-!
# Consoles

A console is where a program's bytes come from and go to. Its state is of any type, and each read
and each write may change it, so a console can stand for any behaviour of the outside.

* `Console.joined` reads from a `Source` and writes to a `Sink`, which know nothing of each other.
* `Console.fed` serves a feed of bytes and keeps what is written.
* `Console.scripted` answers as its script says, failures included.
-/

namespace Brainfuck

/-- Where bytes come from and go to. -/
structure Console (σ : Type) where
  /-- Asks for one byte; none means that no byte is there. -/
  read : σ → Except DeviceError (Option UInt8) × σ
  /-- Hands over one byte. -/
  write : UInt8 → σ → Except DeviceError Unit × σ

/-- The half of a console that is read from. -/
structure Source (σ : Type) where
  /-- Asks for one byte; none means that no byte is there. -/
  read : σ → Except DeviceError (Option UInt8) × σ

/-- The half of a console that is written to. -/
structure Sink (τ : Type) where
  /-- Hands over one byte. -/
  write : UInt8 → τ → Except DeviceError Unit × τ

/-! ## Sources -/

/-- What one call for a byte of the live input comes back with. -/
inductive Attempt
  | byte (value : UInt8)
  /-- A signal came first. -/
  | interrupted
  deriving DecidableEq, Repr

/-- What the calls for a byte of the live input come back with, front to back. Behind them the input
is at its end. -/
abbrev LiveInput := List Attempt

namespace LiveInput

/-- Live input that no signal interrupts. -/
def holding (content : List UInt8) : LiveInput := content.map .byte

instance : Coe (List UInt8) LiveInput := ⟨holding⟩

/-- The next byte, if there is one, and what is left. An interrupted call is made again. -/
def next : LiveInput → Option UInt8 × LiveInput
  | [] => (none, [])
  | .byte value :: later => (some value, later)
  | .interrupted :: later => next later

end LiveInput

/-- What is still to come from a source that does not fail. -/
inductive Feed
  | live (rest : LiveInput)
  /-- The bytes that are still to come, front to back. -/
  | bytes (rest : List UInt8)
  /-- Someone who has been asked `asked` times and answers by the number of the question. -/
  | callback (answer : Nat → Option UInt8) (asked : Nat)

/-- The next byte, if there is one, and what is left. -/
def Feed.next : Feed → Option UInt8 × Feed
  | live rest =>
    let (byte, rest) := rest.next
    (byte, live rest)
  | bytes [] => (none, bytes [])
  | bytes (byte :: rest) => (some byte, bytes rest)
  | callback answer asked => (answer asked, callback answer (asked + 1))

/-- The next `n` answers of the feed, and what is left. -/
def Feed.take : Nat → Feed → List (Option UInt8) × Feed
  | 0, feed => ([], feed)
  | n + 1, feed =>
    let (byte, feed) := feed.next
    let (later, feed) := take n feed
    (byte :: later, feed)

/-- Serves a feed. -/
def Source.fed : Source Feed where
  read := fun feed =>
    let (byte, feed) := feed.next
    (.ok byte, feed)

/-! ## Sinks -/

/-- The live output. What is put there is held back until the output is flushed. -/
structure LiveOutput where
  delivered : Array UInt8
  heldBack : Array UInt8
  deriving DecidableEq, Repr

namespace LiveOutput

/-- Nothing has been put there yet. -/
def untouched : LiveOutput := ⟨#[], #[]⟩

def put (byte : UInt8) : LiveOutput → LiveOutput
  | ⟨delivered, heldBack⟩ => ⟨delivered, heldBack.push byte⟩

def flush : LiveOutput → LiveOutput
  | ⟨delivered, heldBack⟩ => ⟨delivered ++ heldBack, #[]⟩

end LiveOutput

namespace Sink

/-- Puts each byte on the live output, where it is seen at once. -/
def stdout : Sink LiveOutput where
  write := fun byte output => (.ok (), (output.put byte).flush)

/-- Keeps the bytes, front to back. -/
def buffer : Sink (Array UInt8) where
  write := fun byte kept => (.ok (), kept.push byte)

/-- Tells someone each byte. What they have been told stands with the latest first. -/
def callback : Sink (List UInt8) where
  write := fun byte told => (.ok (), byte :: told)

end Sink

/-! ## Consoles -/

/-- A feed and all that has been written beside it. -/
structure Exchange where
  feed : Feed
  written : Array UInt8

/-- Nothing has been written yet. -/
def Exchange.start (feed : Feed) : Exchange := ⟨feed, #[]⟩

/-- A script for a console. -/
structure Script where
  /-- The answers to reads, front to back. Behind them there are no bytes. -/
  answers : List (Except DeviceError (Option UInt8))
  /-- How many bytes are taken before writing fails; none if there is no such limit. -/
  room : Option Nat
  written : Array UInt8

namespace Console

/-- Reads from a source and writes to a sink. -/
def joined {σ τ : Type} (source : Source σ) (sink : Sink τ) : Console (σ × τ) where
  read := fun (s, t) =>
    let (answer, s) := source.read s
    (answer, (s, t))
  write := fun byte (s, t) =>
    let (answer, t) := sink.write byte t
    (answer, (s, t))

/-- Reads from a feed and keeps what is written. Nothing fails. -/
def fed : Console Exchange where
  read := fun ⟨feed, written⟩ =>
    let (byte, feed) := feed.next
    (.ok byte, ⟨feed, written⟩)
  write := fun byte ⟨feed, written⟩ => (.ok (), ⟨feed, written.push byte⟩)

/-- Answers by a script; a write beyond its room fails with `full`. -/
def scripted (full : DeviceError) : Console Script where
  read := fun ⟨answers, room, written⟩ =>
    match answers with
    | [] => (.ok none, ⟨[], room, written⟩)
    | answer :: later => (answer, ⟨later, room, written⟩)
  write := fun byte ⟨answers, room, written⟩ =>
    match room with
    | none => (.ok (), ⟨answers, none, written.push byte⟩)
    | some limit =>
      if written.size < limit then (.ok (), ⟨answers, room, written.push byte⟩)
      else (.error full, ⟨answers, room, written⟩)

end Console

end Brainfuck
