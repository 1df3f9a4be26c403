/-! Spans of time. -/
namespace EntityStore

/-- The greatest span in nanoseconds: 2^63 - 1 milliseconds. -/
def Span.limit : Int := 9223372036854775807 * 1000000

/-- A span of time in nanoseconds, of either sign. -/
structure Span where
  nanoseconds : Int
  bounded : -Span.limit ≤ nanoseconds ∧ nanoseconds ≤ Span.limit
deriving DecidableEq

namespace Span

/-- The span of some nanoseconds, unless it is too long. -/
def ofNanoseconds? (n : Int) : Option Span :=
  if h : -limit ≤ n ∧ n ≤ limit then some ⟨n, h⟩ else none

/-- The span of some milliseconds, unless it is too long. -/
def ofMilliseconds? (n : Int) : Option Span := ofNanoseconds? (n * 1000000)

/-- The whole milliseconds, cut toward zero. -/
def milliseconds (d : Span) : Int := d.nanoseconds.tdiv 1000000

theorem milliseconds_bounded (d : Span) :
    -9223372036854775807 ≤ d.milliseconds ∧ d.milliseconds ≤ 9223372036854775807 := by
  obtain ⟨n, h₁, h₂⟩ := d
  unfold limit at h₁ h₂
  simp only [milliseconds]
  rcases Int.le_total 0 n with h | h
  · rw [Int.tdiv_eq_ediv_of_nonneg h]
    omega
  · rw [← Int.neg_neg n, Int.neg_tdiv, Int.tdiv_eq_ediv_of_nonneg (by omega)]
    omega

/-- The span cut to whole milliseconds. -/
def truncate (d : Span) : Span :=
  ⟨d.milliseconds * 1000000, by
    have := d.milliseconds_bounded
    unfold limit
    omega⟩

end Span

end EntityStore
