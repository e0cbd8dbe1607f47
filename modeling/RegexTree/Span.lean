import RegexTree.Text.Bytes

/-! # Spans
A span is a half-open range of byte offsets into the UTF-8 form of a pattern. Spans are ordered by
their start and then by their stop (`Span.order`), and a span cuts its own text out of a source
(`Span.textIn`). -/

namespace RegexTree

/-- A half-open range of byte offsets. -/
structure Span where
  /-- The offset of the first byte. -/
  start : Nat
  /-- The offset just past the last byte. -/
  stop : Nat
  deriving DecidableEq, Repr, Inhabited

namespace Span

/-- The zero-width span at an offset. -/
def emptyAt (offset : Nat) : Span := ⟨offset, offset⟩

/-- The number of bytes in the span. -/
def length (s : Span) : Nat := s.stop - s.start

/-- A span without bytes. -/
def isEmpty (s : Span) : Bool := s.start == s.stop

/-- The smallest span that covers both. -/
def cover (a b : Span) : Span := ⟨min a.start b.start, max a.stop b.stop⟩

/-- The span from where the first begins to where the second ends, which is `cover a b` where the
first begins first and the second ends last. -/
def through (a b : Span) : Span := ⟨a.start, b.stop⟩

/-- Every byte and both ends of the second lie in the first. -/
def contains (a b : Span) : Bool := a.start ≤ b.start && b.stop ≤ a.stop

/-- The byte at the offset lies in the span. -/
def containsByte (s : Span) (offset : Nat) : Bool := s.start ≤ offset && offset < s.stop

/-- The same span in a text that has more bytes in front. -/
def shift (offset : Nat) (s : Span) : Span := ⟨s.start + offset, s.stop + offset⟩

/-- Order by start, and by stop where the starts are equal. -/
def order (a b : Span) : Ordering := (compare a.start b.start).then (compare a.stop b.stop)

instance : Ord Span := ⟨order⟩

/-- The text of a span: both offsets with two dots between them. -/
def display (s : Span) : String := toString s.start ++ ".." ++ toString s.stop

/-- The part of a source that the span marks. -/
def textIn (source : String) (s : Span) : String := Text.slice source s.start s.stop

/-! ## Laws -/

/-- A zero-width span has no bytes. -/
@[simp] theorem isEmpty_emptyAt (offset : Nat) : (emptyAt offset).isEmpty = true := by
  simp [emptyAt, isEmpty]

/-- Every span contains itself. -/
@[simp] theorem contains_self (s : Span) : s.contains s = true := by
  simp [contains]

/-- One span in a second in a third lies in the third. -/
theorem contains_trans {a b c : Span} (hab : a.contains b = true) (hbc : b.contains c = true) :
    a.contains c = true := by
  simp only [contains, Bool.and_eq_true, decide_eq_true_eq] at *
  omega

/-- With nothing in front, `shift` changes nothing. -/
@[simp] theorem shift_zero (s : Span) : s.shift 0 = s := rfl

end Span

end RegexTree
