/-!
# Spans

A span locates a fragment of a source text by the number of characters before it and the
number of characters in it.
-/

namespace LSystems

structure Span where
  offset : Nat
  length : Nat
deriving DecidableEq, Repr, Inhabited

namespace Span

def zero : Span := ⟨0, 0⟩

def stop (span : Span) : Nat :=
  span.offset + span.length

def join (left right : Span) : Span :=
  let start := min left.offset right.offset
  ⟨start, max left.stop right.stop - start⟩

def shift (span : Span) (distance : Nat) : Span :=
  ⟨span.offset + distance, span.length⟩

def Covers (span : Span) (slot : Nat) : Prop :=
  span.offset ≤ slot ∧ slot < span.stop

def text (span : Span) : String :=
  s!"{span.offset}..{span.stop}"

example : join ⟨2, 3⟩ ⟨10, 1⟩ = ⟨2, 9⟩ := rfl

example : shift ⟨2, 3⟩ 5 = ⟨7, 3⟩ := rfl

theorem stop_join (left right : Span) :
    (left.join right).stop = max left.stop right.stop := by
  simp only [join, stop]
  omega

/-- The characters of a text that a span covers; the part of the span behind the end is
empty. -/
def slice (span : Span) (source : List Char) : List Char :=
  (source.drop span.offset).take span.length

end Span

end LSystems
