/-
  QueryCost.Size — the numbers costs are counted in.

  A size is a natural number of at most 64 bits. Sums and products that would leave
  that range stay at its upper end, so a cost can be too small only when it is already
  the largest there is.

  - `ofNat_add`, `ofNat_mul`: clamping is a homomorphism. Clamping early or late gives
    the same size.
-/

namespace QueryCost

/-- The largest size. -/
def Size.limit : Nat := 18446744073709551615

structure Size where
  toNat : Nat
  le_limit : toNat ≤ Size.limit
  deriving DecidableEq, Repr

namespace Size

/-- The nearest size: numbers above the limit become the limit. -/
def ofNat (n : Nat) : Size := ⟨min n limit, Nat.min_le_right n limit⟩

/-- The number itself, where it is a size. -/
def ofNat? (n : Nat) : Option Size := if h : n ≤ limit then some ⟨n, h⟩ else none

def largest : Size := ⟨limit, Nat.le_refl limit⟩

instance (n : Nat) : OfNat Size n := ⟨ofNat n⟩
instance : Inhabited Size := ⟨0⟩
instance : Add Size := ⟨fun a b => ofNat (a.toNat + b.toNat)⟩
instance : Mul Size := ⟨fun a b => ofNat (a.toNat * b.toNat)⟩
instance : LE Size := ⟨fun a b => a.toNat ≤ b.toNat⟩
instance : LT Size := ⟨fun a b => a.toNat < b.toNat⟩
instance (a b : Size) : Decidable (a ≤ b) := inferInstanceAs (Decidable (a.toNat ≤ b.toNat))
instance (a b : Size) : Decidable (a < b) := inferInstanceAs (Decidable (a.toNat < b.toNat))
instance : ToString Size := ⟨fun a => toString a.toNat⟩

theorem ext {a b : Size} (h : a.toNat = b.toNat) : a = b := by
  cases a; cases b; cases h; rfl

theorem ofNat_toNat (a : Size) : ofNat a.toNat = a := ext (Nat.min_eq_left a.le_limit)

theorem ofNat_add (m n : Nat) : ofNat (m + n) = ofNat m + ofNat n := by
  apply ext
  show min (m + n) limit = min (min m limit + min n limit) limit
  omega

theorem ofNat_mul (m n : Nat) : ofNat (m * n) = ofNat m * ofNat n := by
  apply ext
  show min (m * n) limit = min (min m limit * min n limit) limit
  by_cases hm : m ≤ limit
  · by_cases hn : n ≤ limit
    · rw [Nat.min_eq_left hm, Nat.min_eq_left hn]
    · rw [Nat.min_eq_left hm, Nat.min_eq_right (Nat.le_of_not_le hn)]
      cases m with
      | zero => simp
      | succ k =>
        have h₁ : limit ≤ (k + 1) * n :=
          Nat.le_trans (Nat.le_of_not_le hn) (Nat.le_mul_of_pos_left n (Nat.succ_pos k))
        have h₂ : limit ≤ (k + 1) * limit := Nat.le_mul_of_pos_left limit (Nat.succ_pos k)
        rw [Nat.min_eq_right h₁, Nat.min_eq_right h₂]
  · rw [Nat.min_eq_right (Nat.le_of_not_le hm)]
    cases n with
    | zero => simp
    | succ k =>
      have h₁ : limit ≤ m * (k + 1) :=
        Nat.le_trans (Nat.le_of_not_le hm) (Nat.le_mul_of_pos_right m (Nat.succ_pos k))
      have h₂ : 0 < min (k + 1) limit := by
        rw [Nat.lt_min]; exact ⟨Nat.succ_pos k, by decide⟩
      have h₃ : limit ≤ limit * min (k + 1) limit := Nat.le_mul_of_pos_right limit h₂
      rw [Nat.min_eq_right h₁, Nat.min_eq_right h₃]

end Size

end QueryCost
