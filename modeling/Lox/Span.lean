import Lox.Text.Record

/-!
# Stretches of a source text

A span counts bytes. Both of its numbers stop at `Span.limit`, so a span is exact for every text
shorter than that and cut off beyond it.
-/

namespace Lox

structure Span where
  start : Nat
  length : Nat
deriving DecidableEq, Inhabited

namespace Span

def limit : Nat := Nat.pow 2 32 - 1

/-- The bytes from `first` up to but not including `last`; empty when `last` comes earlier. -/
def between (first last : Nat) : Span where
  start := min first limit
  length := min (last - first) limit

def emptyAt (position : Nat) : Span :=
  between position position

/-- The position behind the last byte. -/
def stop (s : Span) : Nat :=
  s.start + s.length

def isEmpty (s : Span) : Bool :=
  s.length == 0

def detail (s : Span) : String :=
  Text.record "Span" [("start", toString s.start), ("length", toString s.length)]

theorem between_of_le {first last : Nat} (h : last ≤ limit) (hle : first ≤ last) :
    between first last = ⟨first, last - first⟩ := by
  simp only [between, Span.mk.injEq]
  omega

end Span
end Lox
