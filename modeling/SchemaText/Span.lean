import SchemaText.Text.Bytes

/-!
Half-open byte ranges of a source text.
-/
namespace SchemaText

/-- The bytes from `start` up to but not including `stop`. -/
structure Span where
  start : Nat := 0
  stop : Nat := 0
deriving DecidableEq, Repr, Inhabited

/-- The largest offset that a span holds: offsets take 32 bits. -/
def maxOffset : Nat := UInt32.size - 1

/-- A range that does not fit into a span. -/
inductive SpanError where
  | startTooLarge (offset : Nat)
  | stopTooLarge (offset : Nat)
deriving DecidableEq, Repr

def upperHex (n : Nat) : String := .ofList ((Nat.toDigits 16 n).map Char.toUpper)

def SpanError.message : SpanError → String
  | .startTooLarge offset => s!"span start {offset} (0x{upperHex offset}) exceeds u32::MAX"
  | .stopTooLarge offset => s!"span end {offset} (0x{upperHex offset}) exceeds u32::MAX"

namespace Span

/-- The span of a range whose ends both fit. -/
def ofRange? (start stop : Nat) : Except SpanError Span :=
  if maxOffset < start then .error (.startTooLarge start)
  else if maxOffset < stop then .error (.stopTooLarge stop)
  else .ok ⟨start, stop⟩

/-- The empty span at an offset. -/
def point (offset : Nat) : Span := ⟨offset, offset⟩

def length (s : Span) : Nat := s.stop - s.start

def isEmpty (s : Span) : Bool := s.start == s.stop

def contains (s : Span) (offset : Nat) : Bool := s.start ≤ offset && offset < s.stop

def containsSpan (s t : Span) : Bool := s.start ≤ t.start && t.stop ≤ s.stop

/-- The smallest span that covers both. -/
def merge (s t : Span) : Span := ⟨min s.start t.start, max s.stop t.stop⟩

/-- The text under a span; empty where the span does not fit the source. -/
def text (s : Span) (source : String) : String :=
  .ofList ((slice? s.start s.stop source.toList).getD [])

instance : ToString Span :=
  ⟨fun s => s!"{s.start}..{s.stop}"⟩

/-- First by start, then by end. -/
instance : Ord Span :=
  ⟨fun s t => (compare s.start t.start).then (compare s.stop t.stop)⟩

instance : LE Span := leOfOrd

/-- Ascending order. -/
def sort (spans : List Span) : List Span :=
  spans.mergeSort fun s t => (compare s t).isLE

end Span

end SchemaText
