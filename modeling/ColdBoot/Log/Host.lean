import ColdBoot.Log.Viewer
import ColdBoot.Program.Run

/-! # The host of the log window

The other end of the log window. A **`Viewer.Host`** keeps the words that are written to the buffer,
and whenever a number of bytes is written to the length register it shows as many bytes of them, the
top byte of a word first. -/

namespace ColdBoot.Viewer

/-- Byte `i` of a row of words, the top byte of a word first. -/
def byteAt (words : Nat → UInt32) (i : Nat) : UInt8 :=
  (words (i / 4) >>> (24 - 8 * UInt32.ofNat (i % 4))).toUInt8

/-- The first `count` bytes of a row of words. -/
def bytesOf (words : Nat → UInt32) (count : Nat) : List UInt8 := (List.range count).map (byteAt words)

/-- What the host has of the window, and what it has shown so far. -/
structure Host where
  words : Register → UInt32
  shown : List UInt8

namespace Host

/-- The host after a write to one of the window's registers. -/
def write (host : Host) (register : Register) (value : UInt32) : Host :=
  if register = ViewerRegister.length then
    { host with
      shown := host.shown ++ bytesOf (fun slot => host.words (ViewerRegister.buffer slot)) value.toNat }
  else
    { host with words := fun other => if other = register then value else host.words other }

/-- The host after an event; it sees the window's registers only. -/
def observe (host : Host) : Event → Host
  | ⟨.write register value, _⟩ =>
      if register.block = .viewer then host.write register value else host
  | _ => host

/-- The host after the events of a run. -/
def observeAll (host : Host) (events : List Event) : Host := events.foldl observe host

@[simp] theorem observeAll_nil (host : Host) : host.observeAll [] = host := rfl

@[simp] theorem observeAll_cons (host : Host) (event : Event) (events : List Event) :
    host.observeAll (event :: events) = (host.observe event).observeAll events := rfl

@[simp] theorem observeAll_append (host : Host) (first second : List Event) :
    host.observeAll (first ++ second) = (host.observeAll first).observeAll second :=
  List.foldl_append

end Host

end ColdBoot.Viewer
