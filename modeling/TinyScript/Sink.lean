/-!
# Output streams

A sink keeps the bytes that are written to it.  It may have room for a number of bytes only: then it
keeps those that fit and fails at the first one that does not.
-/

namespace TinyScript

structure Sink where
  written : ByteArray := .empty
  /-- how many bytes there is room for, if there is a bound -/
  capacity : Option Nat := none
  /-- whether the stream cannot be completed at the end of a run -/
  flushFails : Bool := false
deriving Inhabited

namespace Sink

def fitting (sink : Sink) (bytes : ByteArray) : ByteArray :=
  match sink.capacity with
  | none => bytes
  | some n => bytes.extract 0 (min bytes.size (n - sink.written.size))

/-- the sink with the bytes that fit, and whether all of them did -/
def write (sink : Sink) (bytes : ByteArray) : Sink × Bool :=
  let kept := sink.fitting bytes
  ({ sink with written := sink.written ++ kept }, kept.size == bytes.size)

/-- lines one after the other, each with a newline behind it, up to the first that does not fit -/
def writeLines : Sink → List String → Sink × Bool
  | sink, [] => (sink, true)
  | sink, line :: lines =>
    match sink.write (line ++ "\n").toUTF8 with
    | (sink, true) => writeLines sink lines
    | (sink, false) => (sink, false)

theorem fitting_of_unbounded {sink : Sink} (h : sink.capacity = none) (bytes : ByteArray) :
    sink.fitting bytes = bytes := by
  simp [fitting, h]

theorem write_of_unbounded {sink : Sink} (h : sink.capacity = none) (bytes : ByteArray) :
    sink.write bytes = ({ sink with written := sink.written ++ bytes }, true) := by
  simp [write, fitting_of_unbounded h]

end Sink

end TinyScript
