/-! Where a trace is written. A sink with a capacity takes bytes until it is
full, and a write that does not fit leaves the part that did. -/

namespace WhileLang

structure Sink where
  capacity : Option Nat
  bytes : ByteArray

namespace Sink

/-- Takes everything. -/
def unbounded : Sink := ⟨none, .empty⟩

/-- Takes the first `n` bytes. -/
def bounded (n : Nat) : Sink := ⟨some n, .empty⟩

/-- The sink after the write, and whether all of `text` went in. -/
def write (s : Sink) (text : String) : Sink × Bool :=
  let data := text.toUTF8
  match s.capacity with
  | none => (⟨none, s.bytes ++ data⟩, true)
  | some n =>
    let room := n - s.bytes.size
    (⟨some n, s.bytes ++ data.extract 0 room⟩, decide (data.size ≤ room))

/-- What was written, where it ends between two characters. -/
def text? (s : Sink) : Option String := String.fromUTF8? s.bytes

end Sink

end WhileLang
