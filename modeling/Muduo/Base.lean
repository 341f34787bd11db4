import Mathlib.Algebra.Order.Ring.Int

/-!
# Common ground of the model

Byte strings, `assert` as a fault, and the arithmetic of `size_t` on the
64-bit platform the code is written for.
-/

namespace Muduo

/-- `char` arrays and `std::string`. -/
abbrev Bytes := List UInt8

/-- The bytes of a source-code string literal. -/
def str (s : String) : Bytes := s.toList.map Char.toUInt8

/-- `assert(p)`: the fault `e` when `p` is false. -/
def check {ε : Type} (p : Prop) [Decidable p] (e : ε) : Except ε Unit :=
  if p then .ok () else .error e

theorem check_of {ε : Type} {p : Prop} [Decidable p] (h : p) (e : ε) :
    check p e = .ok () := if_pos h

theorem check_not {ε : Type} {p : Prop} [Decidable p] (h : ¬p) (e : ε) :
    check p e = .error e := if_neg h

theorem of_check {ε : Type} {p : Prop} [Decidable p] {e : ε} {u : Unit}
    (h : check p e = .ok u) : p :=
  Decidable.of_not_not fun hp => by
    rw [check_not hp] at h
    cases h

@[simp] theorem ok_bind {ε α β : Type} (a : α) (f : α → Except ε β) :
    ((Except.ok a : Except ε α) >>= f) = f a := rfl

/-- A computation that ends in a value got there through a value. -/
theorem bind_eq_ok {ε α β : Type} {x : Except ε α} {f : α → Except ε β} {b : β}
    (h : x >>= f = .ok b) : ∃ a, x = .ok a ∧ f a = .ok b := by
  cases x with
  | ok a => exact ⟨a, rfl, h⟩
  | error e => cases h

/-- A computation that faults does so in its first part or in the rest. -/
theorem bind_eq_error {ε α β : Type} {x : Except ε α} {f : α → Except ε β} {e : ε}
    (h : x >>= f = .error e) : x = .error e ∨ ∃ a, x = .ok a ∧ f a = .error e := by
  cases x with
  | ok a => exact Or.inr ⟨a, rfl, h⟩
  | error e' => exact Or.inl (congrArg Except.error (Except.error.inj h))

theorem ok_of_mapError {ε ε' α : Type} {x : Except ε α} {f : ε → ε'} {a : α}
    (h : x.mapError f = .ok a) : x = .ok a := by
  cases x with
  | ok b => exact congrArg Except.ok (Except.ok.inj h)
  | error e => cases h

theorem check_eq_error {ε : Type} {p : Prop} [Decidable p] {e e' : ε}
    (h : check p e = .error e') : ¬p ∧ e' = e := by
  by_cases hp : p
  · rw [check_of hp] at h
    cases h
  · rw [check_not hp] at h
    exact ⟨hp, (Except.error.inj h).symm⟩

/-! ## `size_t` -/

/-- The number of values of `size_t`. -/
def sizeMod : Nat := 2 ^ 64

/-- `a + b` in `size_t`. -/
def szAdd (a b : Nat) : Nat := (a + b) % sizeMod

/-- `a - b` in `size_t`. -/
def szSub (a b : Nat) : Nat := (a + (sizeMod - b % sizeMod)) % sizeMod

theorem szAdd_eq {a b : Nat} (h : a + b < 2 ^ 64) : szAdd a b = a + b :=
  Nat.mod_eq_of_lt h

theorem szSub_eq {a b : Nat} (hba : b ≤ a) (ha : a < 2 ^ 64) : szSub a b = a - b := by
  simp only [szSub, sizeMod]
  omega

/-! ## `int` -/

/-- The number of values of an `int`. -/
def intMod : Nat := 2 ^ 32

/-- `static_cast<int>` of a `size_t`. -/
def toInt (n : Nat) : Int := (n : Int).bmod intMod

/-- An `int` where a `size_t` is expected. -/
def toSize (x : Int) : Nat := (x % sizeMod).toNat

theorem toInt_nonneg {n : Nat} (h : n % intMod < 2 ^ 31) : toInt n = (n % intMod : Nat) := by
  have hlt : (n : Int) % intMod < (intMod + 1) / 2 := by
    rw [← Int.natCast_emod]
    simp only [intMod] at *
    omega
  rw [toInt, Int.bmod_eq_emod_of_lt hlt, Int.natCast_emod]

theorem toInt_neg {n : Nat} (h : 2 ^ 31 ≤ n % intMod) :
    toInt n = (n % intMod : Nat) - intMod := by
  have hge : (n : Int) % intMod ≥ (intMod + 1) / 2 := by
    rw [← Int.natCast_emod]
    simp only [intMod] at *
    omega
  rw [toInt, Int.bmod_neg _ _ hge, Int.natCast_emod]

theorem toSize_toInt {n : Nat} (h : n % intMod < 2 ^ 31) : toSize (toInt n) = n % intMod := by
  rw [toInt_nonneg h]
  simp only [toSize, sizeMod, intMod] at *
  omega

/-- A negative `int` is a length just below `2 ^ 64`. -/
theorem toSize_toInt_neg {n : Nat} (h : 2 ^ 31 ≤ n % intMod) :
    toSize (toInt n) = 2 ^ 64 - 2 ^ 32 + n % intMod := by
  rw [toInt_neg h]
  simp only [toSize, sizeMod, intMod] at *
  omega

end Muduo
