import Mathlib.Data.Nat.Factorization.Basic
import Mathlib.Data.Nat.Log
import PieceKeeper.Commitment.Basic

/-!
# Powers of two and their exponents

What a commitment tree asks of numbers: the least power of two that is not smaller than a
number, whether a number is a power of two, and how many times two divides it.
-/

namespace PieceKeeper

/-! ## The next power of two -/

/-- The next power of two is the power whose exponent is the logarithm, rounded up. -/
theorem nextPowerOfTwo_eq (n : Nat) : nextPowerOfTwo n = 2 ^ Nat.clog 2 n := by
  rw [nextPowerOfTwo]
  split
  · rename_i h
    rw [Nat.clog_of_right_le_one h, pow_zero]
  · rename_i h
    congr 1
    refine le_antisymm ?_ (Nat.clog_le_of_le_pow ?_)
    · have hlt : (n - 1).log2 < Nat.clog 2 n := by
        refine (Nat.log2_lt (by omega)).mpr ?_
        have := Nat.le_pow_clog (b := 2) (by decide) n
        omega
      exact hlt
    · have := @Nat.lt_log2_self (n - 1)
      omega

theorem le_nextPowerOfTwo (n : Nat) : n ≤ nextPowerOfTwo n := by
  rw [nextPowerOfTwo_eq]
  exact Nat.le_pow_clog (by decide) n

/-- The next power of two is less than twice as large. -/
theorem nextPowerOfTwo_lt {n : Nat} (hn : n ≠ 0) : nextPowerOfTwo n < 2 * n := by
  rw [nextPowerOfTwo]
  split
  · omega
  · have hlog := Nat.log2_self_le (n := n - 1) (by omega)
    change 2 ^ ((n - 1).log2 + 1) < 2 * n
    rw [pow_succ]
    omega

/-- A bound that is a power of two also bounds the next power of two. -/
theorem nextPowerOfTwo_le {n k : Nat} (h : n ≤ 2 ^ k) : nextPowerOfTwo n ≤ 2 ^ k := by
  rw [nextPowerOfTwo_eq]
  exact Nat.pow_le_pow_right (by decide) (Nat.clog_le_of_le_pow h)

@[simp] theorem nextPowerOfTwo_two_pow (k : Nat) : nextPowerOfTwo (2 ^ k) = 2 ^ k := by
  rw [nextPowerOfTwo_eq, Nat.clog_pow 2 k (by decide)]

/-- The next power of two is the least one that is not smaller. -/
theorem isLeast_nextPowerOfTwo (n : Nat) : IsLeast {m | n ≤ m ∧ ∃ k, m = 2 ^ k} (nextPowerOfTwo n) := by
  refine ⟨⟨le_nextPowerOfTwo n, _, nextPowerOfTwo_eq n⟩, ?_⟩
  rintro m ⟨hle, k, rfl⟩
  exact nextPowerOfTwo_le hle

theorem isPowerOfTwo_iff {n : Nat} : isPowerOfTwo n = true ↔ ∃ k, n = 2 ^ k := by
  rw [isPowerOfTwo, beq_iff_eq]
  constructor
  · intro h
    exact ⟨Nat.clog 2 n, h.symm.trans (nextPowerOfTwo_eq n)⟩
  · rintro ⟨k, rfl⟩
    exact nextPowerOfTwo_two_pow k

/-! ## How many times two divides a number -/

theorem not_two_pow_succ_dvd_two_pow (k : Nat) : ¬ 2 ^ (k + 1) ∣ 2 ^ k := fun h ↦
  absurd ((Nat.pow_dvd_pow_iff_le_right (by decide)).mp h) (by omega)

theorem twos_go_two_pow_mul {m : Nat} (hm : m % 2 = 1) :
    ∀ {room k : Nat}, k < room → twos.go room (2 ^ k * m) = k
  | room + 1, 0, _ => by simp [twos.go, hm]
  | room + 1, k + 1, h => by
    have heven : 2 ^ (k + 1) * m = 2 * (2 ^ k * m) := by rw [pow_succ', mul_assoc]
    rw [heven, twos.go, if_pos (by omega), Nat.mul_div_cancel_left _ (by decide),
      twos_go_two_pow_mul hm (by omega)]

/-- The exponent of two in a number that is written as a power of two times an odd one. -/
theorem twos_two_pow_mul {m k : Nat} (hm : m % 2 = 1) (hk : k < 64) : twos (2 ^ k * m) = k :=
  twos_go_two_pow_mul hm hk

@[simp] theorem twos_two_pow {k : Nat} (hk : k < 64) : twos (2 ^ k) = k := by
  simpa using twos_two_pow_mul (m := 1) rfl hk

theorem two_pow_twos_go_dvd (room n : Nat) : 2 ^ twos.go room n ∣ n := by
  induction room generalizing n with
  | zero => exact one_dvd n
  | succ room ih =>
    rw [twos.go]
    split
    · rename_i heven
      calc 2 ^ (twos.go room (n / 2) + 1) = 2 ^ twos.go room (n / 2) * 2 := pow_succ 2 _
        _ ∣ n / 2 * 2 := Nat.mul_dvd_mul_right (ih (n / 2)) 2
        _ = n := Nat.div_mul_cancel (Nat.dvd_of_mod_eq_zero heven)
    · exact one_dvd n

theorem two_pow_twos_dvd (n : Nat) : 2 ^ twos n ∣ n := two_pow_twos_go_dvd 64 n

/-- A number of at most sixty-four bits is a power of two by its exponent times an odd one. -/
theorem exists_eq_two_pow_twos_mul {n : Nat} (hn : n ≠ 0) (hlt : n < 2 ^ 64) :
    ∃ m, m % 2 = 1 ∧ n = 2 ^ twos n * m := by
  obtain ⟨k, m, hm, rfl⟩ := Nat.exists_eq_two_pow_mul_odd hn
  rw [Nat.odd_iff] at hm
  have hk : k < 64 := by
    by_contra hge
    have hpow : 2 ^ 64 ≤ 2 ^ k := Nat.pow_le_pow_right (by decide) (Nat.not_lt.mp hge)
    have := Nat.le_mul_of_pos_right (2 ^ k) (by omega : 0 < m)
    omega
  exact ⟨m, hm, by rw [twos_two_pow_mul hm hk]⟩

theorem le_twos {n k : Nat} (hn : n ≠ 0) (hlt : n < 2 ^ 64) (h : 2 ^ k ∣ n) : k ≤ twos n := by
  obtain ⟨m, hm, hnm⟩ := exists_eq_two_pow_twos_mul hn hlt
  by_contra hgt
  have hdvd : 2 ^ twos n * 2 ∣ 2 ^ twos n * m :=
    pow_succ 2 (twos n) ▸ hnm ▸ (pow_dvd_pow 2 (by omega)).trans h
  have := Nat.dvd_of_mul_dvd_mul_left (Nat.two_pow_pos _) hdvd
  omega

/-- A number that is no power of two is at least three times the highest one that divides it. -/
theorem twos_add_one_lt_clog {n : Nat} (hn : n ≠ 0) (hlt : n < 2 ^ 64)
    (h : ¬ isPowerOfTwo n = true) : twos n + 1 < Nat.clog 2 n := by
  obtain ⟨m, hm, hnm⟩ := exists_eq_two_pow_twos_mul hn hlt
  have hone : m ≠ 1 := by
    rintro rfl
    exact h (isPowerOfTwo_iff.mpr ⟨twos n, hnm.trans (mul_one _)⟩)
  refine (Nat.lt_clog_iff_pow_lt (by decide)).mpr ?_
  calc 2 ^ (twos n + 1) = 2 ^ twos n * 2 := pow_succ 2 _
    _ < 2 ^ twos n * m := Nat.mul_lt_mul_of_pos_left (by omega) (Nat.two_pow_pos _)
    _ = n := hnm.symm

/-- Rounding a number up to the next multiple of a higher power of two stays below any power
of two that bounds it. -/
theorem add_two_pow_twos {n k : Nat} (hn : n ≠ 0) (hle : n ≤ 2 ^ k) (hk : k < 64)
    (h : ¬ isPowerOfTwo n = true) :
    2 ^ twos n ∣ n ∧ 2 ^ (twos n + 1) ∣ n + 2 ^ twos n ∧ n + 2 ^ twos n ≤ 2 ^ k := by
  have hlt : n < 2 ^ 64 := hle.trans_lt (Nat.pow_lt_pow_right (by decide) hk)
  obtain ⟨m, hm, hnm⟩ := exists_eq_two_pow_twos_mul hn hlt
  generalize twos n = t at hnm ⊢
  subst hnm
  have hone : m ≠ 1 := by
    rintro rfl
    exact h (isPowerOfTwo_iff.mpr ⟨t, mul_one _⟩)
  have htk : t < k := by
    by_contra hge
    have hpow : 2 ^ k ≤ 2 ^ t := Nat.pow_le_pow_right (by decide) (Nat.not_lt.mp hge)
    have : 2 ^ t * 2 ≤ 2 ^ t * m := Nat.mul_le_mul_left _ (by omega)
    have := Nat.two_pow_pos t
    omega
  refine ⟨dvd_mul_right _ _, ?_, ?_⟩
  · obtain ⟨i, hi⟩ : 2 ∣ m + 1 := by omega
    exact ⟨i, by rw [pow_succ, mul_assoc, ← hi, mul_add, mul_one]⟩
  · obtain ⟨d, rfl⟩ := Nat.exists_eq_add_of_lt htk
    have hexp : 2 ^ (t + d + 1) = 2 ^ t * (2 * 2 ^ d) := by
      rw [← pow_succ', ← pow_add, add_assoc]
    rw [hexp] at hle ⊢
    have hmd : m ≤ 2 * 2 ^ d := Nat.le_of_mul_le_mul_left hle (Nat.two_pow_pos t)
    calc 2 ^ t * m + 2 ^ t = 2 ^ t * (m + 1) := by rw [mul_add, mul_one]
      _ ≤ 2 ^ t * (2 * 2 ^ d) := Nat.mul_le_mul_left _ (by omega)

end PieceKeeper
