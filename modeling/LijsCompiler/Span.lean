/-!
# Spans

A span is a range of byte offsets in a source text.  Offsets are 32-bit words, so a position of a
longer text is kept modulo `2 ^ 32`.
-/

namespace LijsCompiler

/-- The bytes from `start` up to, and not including, `stop`. -/
structure Span where
  start : UInt32
  stop : UInt32
deriving DecidableEq, Repr, Inhabited

namespace Span

def ofPosition (position length : Nat) : Span :=
  ⟨UInt32.ofNat position, UInt32.ofNat (position + length)⟩

def emptyAt (offset : UInt32) : Span := ⟨offset, offset⟩

/-- The least span that covers both. -/
def join (a b : Span) : Span := ⟨min a.start b.start, max a.stop b.stop⟩

def length (s : Span) : UInt32 := s.stop - s.start

def isEmpty (s : Span) : Bool := s.start == s.stop

def shift (offset : Nat) (s : Span) : Span :=
  ⟨s.start + UInt32.ofNat offset, s.stop + UInt32.ofNat offset⟩

theorem shift_ofPosition (offset position length : Nat) :
    (ofPosition position length).shift offset = ofPosition (offset + position) length := by
  simp only [shift, ofPosition, UInt32.ofNat_add, mk.injEq]
  constructor <;> ac_rfl

end Span

end LijsCompiler
