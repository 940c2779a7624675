/-!
# Durations

A duration is a number of nanoseconds whose whole seconds fit in 64 bits. Sums that leave the range
end at the longest duration.

## Main definitions

* `Duration`: the nanoseconds with their bound; `Duration.max` is the longest one.
* `Duration.saturatingAdd`: the sum, or the longest duration.
* `Duration.toFloat`: the duration in seconds as a double.
-/

namespace AccessGroups

/-- A length of time of less than 2^64 seconds, in nanoseconds. -/
structure Duration where
  nanos : Nat
  bounded : nanos < UInt64.size * 1000000000
  deriving DecidableEq

namespace Duration

@[ext] theorem ext {a b : Duration} (h : a.nanos = b.nanos) : a = b := by
  cases a; cases b; cases h; rfl

instance : LT Duration := ⟨fun a b => a.nanos < b.nanos⟩

instance : LE Duration := ⟨fun a b => a.nanos ≤ b.nanos⟩

instance (a b : Duration) : Decidable (a < b) := inferInstanceAs (Decidable (a.nanos < b.nanos))

instance (a b : Duration) : Decidable (a ≤ b) := inferInstanceAs (Decidable (a.nanos ≤ b.nanos))

/-- The longest duration. -/
def max : Duration :=
  ⟨UInt64.size * 1000000000 - 1, by decide⟩

/-- The duration of so many nanoseconds, or the longest one. -/
def ofNanos (n : Nat) : Duration :=
  if h : n < UInt64.size * 1000000000 then ⟨n, h⟩ else max

/-- Whole seconds. -/
def ofSecs (secs : UInt64) : Duration :=
  ⟨secs.toNat * 1000000000, Nat.mul_lt_mul_of_pos_right secs.toNat_lt_size (by decide)⟩

/-- Whole milliseconds. -/
def ofMillis (millis : UInt64) : Duration :=
  ⟨millis.toNat * 1000000, by have := millis.toNat_lt_size; omega⟩

/-- No time at all. -/
def zero : Duration := ⟨0, by decide⟩

instance : Inhabited Duration := ⟨zero⟩

/-- The whole seconds. -/
def secs (d : Duration) : Nat := d.nanos / 1000000000

/-- The nanoseconds beyond the whole seconds. -/
def subsecNanos (d : Duration) : Nat := d.nanos % 1000000000

/-- The whole milliseconds. -/
def millis (d : Duration) : Nat := d.nanos / 1000000

/-- The duration lasts no time. -/
def isZero (d : Duration) : Bool := d.nanos = 0

/-- The sum, or the longest duration if the sum is out of range. -/
def saturatingAdd (a b : Duration) : Duration :=
  ofNanos (a.nanos + b.nanos)

/-- The seconds and the fraction of a second as doubles, added up. -/
def toFloat (d : Duration) : Float :=
  d.secs.toUInt64.toFloat + d.subsecNanos.toUInt64.toFloat / 1000000000

theorem le_def {a b : Duration} : a ≤ b ↔ a.nanos ≤ b.nanos := Iff.rfl

theorem nanos_ofNanos (n : Nat) : (ofNanos n).nanos = min n (UInt64.size * 1000000000 - 1) := by
  rw [ofNanos]
  split <;> simp only [max] <;> omega

theorem nanos_saturatingAdd (a b : Duration) :
    (a.saturatingAdd b).nanos = min (a.nanos + b.nanos) max.nanos :=
  nanos_ofNanos _

end Duration

end AccessGroups
