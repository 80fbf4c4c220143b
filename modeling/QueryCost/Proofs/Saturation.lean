/-
  QueryCost.Proofs.Saturation — sizes obey the laws of numbers.

  A size is a number clamped to the largest one, and clamping respects sums and products
  (`ofNat_add`, `ofNat_mul`). So the laws of numbers hold of sizes: they are a commutative
  semiring, and clamping is a homomorphism onto them (`clamp`). The order in which
  saturating sums are taken, and whether a product is taken before or after a sum, makes
  no difference. Clamping keeps the order as well, so sums and products of sizes grow with
  what they are taken of.
-/

import QueryCost.Size
import Mathlib.Algebra.BigOperators.Group.List.Lemmas
import Mathlib.Algebra.Order.Ring.Defs
import Mathlib.Algebra.Ring.Hom.Defs
import Mathlib.Algebra.Ring.InjSurj
import Mathlib.Algebra.Ring.Nat

namespace QueryCost.Size

theorem ofNat_surjective : Function.Surjective ofNat := fun a => ⟨a.toNat, ofNat_toNat a⟩

/-! ## Laws -/

instance : Zero Size := ⟨0⟩
instance : One Size := ⟨1⟩
instance : NatCast Size := ⟨ofNat⟩
instance : SMul ℕ Size := ⟨fun n a => ofNat (n * a.toNat)⟩
instance : Pow Size ℕ := ⟨fun a n => ofNat (a.toNat ^ n)⟩

theorem ofNat_smul (n m : ℕ) : ofNat (n * m) = n • ofNat m := by
  show ofNat (n * m) = ofNat (n * (ofNat m).toNat)
  rw [ofNat_mul, ofNat_mul, ofNat_toNat]

theorem ofNat_pow (m n : ℕ) : ofNat (m ^ n) = ofNat m ^ n := by
  show ofNat (m ^ n) = ofNat ((ofNat m).toNat ^ n)
  induction n with
  | zero => rfl
  | succ n ih => rw [pow_succ, pow_succ, ofNat_mul, ofNat_mul, ih, ofNat_toNat]

instance : CommSemiring Size :=
  ofNat_surjective.commSemiring ofNat rfl rfl ofNat_add ofNat_mul (fun n m => ofNat_smul n m) ofNat_pow
    fun _ => rfl

/-- Clamping, as a homomorphism. -/
def clamp : ℕ →+* Size where
  toFun := ofNat
  map_zero' := rfl
  map_one' := rfl
  map_add' := ofNat_add
  map_mul' := ofNat_mul

theorem toNat_clamp (n : ℕ) : (clamp n).toNat = min n limit := rfl

theorem clamp_toNat (a : Size) : clamp a.toNat = a := ofNat_toNat a

/-- Products with one factor, added up, are the product with the sum. -/
theorem foldl_add_mul (base : Size) (sizes : List Size) (total : Size) :
    sizes.foldl (fun total size => total + base * size) total = total + base * sizes.sum := by
  induction sizes generalizing total with
  | nil => simp
  | cons size rest ih => rw [List.foldl_cons, ih, List.sum_cons, mul_add, add_assoc]

/-! ## Order -/

theorem ofNat_le_ofNat {m n : Nat} (h : m ≤ n) : ofNat m ≤ ofNat n := by
  show min m limit ≤ min n limit
  omega

instance : PartialOrder Size where
  le_refl a := Nat.le_refl a.toNat
  le_trans _ _ _ h h' := Nat.le_trans h h'
  lt_iff_le_not_ge _ _ := Nat.lt_iff_le_and_not_ge
  le_antisymm _ _ h h' := ext (Nat.le_antisymm h h')

instance : IsOrderedRing Size where
  add_le_add_left _ _ h c := ofNat_le_ofNat (Nat.add_le_add_right h c.toNat)
  zero_le_one := by decide
  mul_le_mul_of_nonneg_left a _ _ _ h := ofNat_le_ofNat (Nat.mul_le_mul_left a.toNat h)
  mul_le_mul_of_nonneg_right a _ _ _ h := ofNat_le_ofNat (Nat.mul_le_mul_right a.toNat h)

theorem zero_le (a : Size) : 0 ≤ a := Nat.zero_le a.toNat

end QueryCost.Size
