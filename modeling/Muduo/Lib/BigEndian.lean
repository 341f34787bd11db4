import Mathlib.Data.List.Induction
import Mathlib.Tactic.Ring
import Mathlib.Algebra.Order.Ring.Nat

/-!
# Big-endian numerals

`toBE n v` is the `n`-byte big-endian numeral of `v` (its low `8 * n` bits)
and `ofBE` reads one back. They are inverse to each other on `n`-byte
strings and on values below `256 ^ n`.
-/

namespace Lib

def toBE : Nat → Nat → List UInt8
  | 0, _ => []
  | n + 1, v => toBE n (v / 256) ++ [UInt8.ofNat v]

def ofBE (bs : List UInt8) : Nat :=
  bs.foldl (fun acc b => acc * 256 + b.toNat) 0

@[simp] theorem length_toBE (n v : Nat) : (toBE n v).length = n := by
  induction n generalizing v with
  | zero => rfl
  | succ n ih => simp [toBE, ih]

@[simp] theorem ofBE_nil : ofBE [] = 0 := rfl

theorem ofBE_concat (bs : List UInt8) (b : UInt8) :
    ofBE (bs ++ [b]) = ofBE bs * 256 + b.toNat := by
  simp [ofBE]

theorem ofBE_lt (bs : List UInt8) : ofBE bs < 256 ^ bs.length := by
  induction bs using List.reverseRecOn with
  | nil => simp
  | append_singleton bs b ih =>
      have hb := b.toNat_lt
      rw [ofBE_concat, List.length_append, List.length_singleton, pow_succ]
      omega

theorem ofBE_toBE (n v : Nat) : ofBE (toBE n v) = v % 256 ^ n := by
  induction n generalizing v with
  | zero => simp [toBE, Nat.mod_one]
  | succ n ih =>
      have hsplit : v % 256 ^ (n + 1) = v % 256 + 256 * (v / 256 % 256 ^ n) := by
        rw [pow_succ', Nat.mod_mul]
      rw [toBE, ofBE_concat, ih, UInt8.toNat_ofNat', hsplit]
      omega

theorem toBE_ofBE (bs : List UInt8) : toBE bs.length (ofBE bs) = bs := by
  induction bs using List.reverseRecOn with
  | nil => rfl
  | append_singleton bs b ih =>
      have hb := b.toNat_lt
      have hdiv : (ofBE bs * 256 + b.toNat) / 256 = ofBE bs := by omega
      rw [List.length_append, List.length_singleton, toBE, ofBE_concat, hdiv, ih]
      congr 2
      apply UInt8.toNat_inj.mp
      rw [UInt8.toNat_ofNat']
      omega

end Lib
