import Mathlib.Algebra.Order.Ring.Int

/-!
# `Timestamp`

Microseconds since the epoch in an `int64_t`. A `Timestamp` carries its
range; arithmetic that leaves it wraps around, which is what the signed
overflow of the source does on the machines the code runs on.
-/

namespace Muduo

/-- The values of `int64_t`. -/
def Int64Range (x : Int) : Prop := -2 ^ 63 ≤ x ∧ x < 2 ^ 63

instance (x : Int) : Decidable (Int64Range x) := inferInstanceAs (Decidable (_ ∧ _))

/-- Reduce to the range of `int64_t`. -/
def wrap64 (x : Int) : Int := (x + 2 ^ 63) % 2 ^ 64 - 2 ^ 63

theorem wrap64_range (x : Int) : Int64Range (wrap64 x) := by
  unfold Int64Range wrap64
  omega

theorem wrap64_eq {x : Int} (h : Int64Range x) : wrap64 x = x := by
  unfold Int64Range at h
  unfold wrap64
  omega

structure Timestamp where
  microSecondsSinceEpoch : Int
  range : Int64Range microSecondsSinceEpoch
deriving DecidableEq

namespace Timestamp

def kMicroSecondsPerSecond : Int := 1000 * 1000

@[ext] theorem ext {s t : Timestamp}
    (h : s.microSecondsSinceEpoch = t.microSecondsSinceEpoch) : s = t := by
  cases s
  cases t
  cases h
  rfl

/-- The timestamp of an arbitrary integer, reduced to `int64_t`. -/
def ofInt (x : Int) : Timestamp := ⟨wrap64 x, wrap64_range x⟩

theorem ofInt_micro {x : Int} (h : Int64Range x) : (ofInt x).microSecondsSinceEpoch = x :=
  wrap64_eq h

def invalid : Timestamp := ⟨0, by decide⟩

def valid (t : Timestamp) : Bool := t.microSecondsSinceEpoch > 0

theorem valid_iff {t : Timestamp} : t.valid = true ↔ 0 < t.microSecondsSinceEpoch :=
  decide_eq_true_iff

/-- `operator<` orders timestamps by their microseconds. -/
instance : LinearOrder Timestamp :=
  LinearOrder.lift' microSecondsSinceEpoch fun _ _ => ext

theorem lt_iff {s t : Timestamp} :
    s < t ↔ s.microSecondsSinceEpoch < t.microSecondsSinceEpoch := Iff.rfl

end Timestamp

end Muduo
