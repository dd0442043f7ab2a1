import Mathlib

/-!
# Windows of an address space

An address space is divided into windows of one size, and a burst walks through it in equal steps.  `passed m a d` is
the number of window borders between `a` and `a + d`; it grows with the distance (`passed_mono`), by one at most for a
step that is not longer than a window (`passed_add_le`), so that a burst that ends some borders further has been one
border further (`exists_passed_eq_one`).  A bit of the address tells apart an even and an odd number of borders
(`testBit_add_ne_iff`), which says when the last beat decides for all of them (`last_decides_iff`).
-/

namespace Windows

/-- The window of size `m` that `a` lies in. -/
def window (m a : Nat) : Nat := a / m

/-- The number of borders of windows of size `m` between `a` and `a + d`. -/
def passed (m a d : Nat) : Nat := (a % m + d) / m

variable {m a c d e n b : Nat}

theorem window_add (hm : 0 < m) (a d : Nat) : window m (a + d) = window m a + passed m a d := by
  unfold window passed
  have hsplit : a + d = a % m + d + m * (a / m) := by have := Nat.div_add_mod a m; omega
  rw [hsplit, Nat.add_mul_div_left _ _ hm, Nat.add_comm]

theorem passed_mono (h : d ≤ e) : passed m a d ≤ passed m a e := Nat.div_le_div_right (Nat.add_le_add_left h _)

@[simp] theorem passed_zero (hm : 0 < m) : passed m a 0 = 0 := Nat.div_eq_of_lt (Nat.mod_lt a hm)

/-- A step that is not longer than a window passes one border at most. -/
theorem passed_add_le (hm : 0 < m) (hc : c ≤ m) : passed m a (d + c) ≤ passed m a d + 1 := by
  unfold passed
  rw [← Nat.add_div_right _ hm, ← Nat.add_assoc]
  exact Nat.div_le_div_right (Nat.add_le_add_left hc _)

/-- Walking in steps of length `c` no border is skipped. -/
theorem exists_passed_eq_one (hm : 0 < m) (hc : c ≤ m) (h : 1 ≤ passed m a (n * c)) :
    ∃ k ≤ n, passed m a (k * c) = 1 := by
  induction n with
  | zero =>
    rw [Nat.zero_mul, passed_zero hm] at h
    omega
  | succ n ih =>
    by_cases hn : 1 ≤ passed m a (n * c)
    · obtain ⟨k, hk, hone⟩ := ih hn
      exact ⟨k, Nat.le_succ_of_le hk, hone⟩
    · have hstep := passed_add_le (d := n * c) (a := a) hm hc
      rw [← Nat.add_one_mul] at hstep
      exact ⟨n + 1, Nat.le_refl _, by omega⟩

/-- Less than a window further on there is one border at most. -/
theorem passed_le_one (hm : 0 < m) (hd : d ≤ m) : passed m a d ≤ 1 := by
  have := passed_add_le (d := 0) (a := a) hm hd
  rwa [Nat.zero_add, passed_zero hm] at this

/-- Bit `b` of an address is the parity of its window of size `2 ^ b`. -/
theorem testBit_add_ne_iff (a d b : Nat) :
    (a + d).testBit b ≠ a.testBit b ↔ passed (2 ^ b) a d % 2 = 1 := by
  have h := window_add (Nat.two_pow_pos b) a d
  unfold window at h
  rw [Nat.testBit_eq_decide_div_mod_eq, Nat.testBit_eq_decide_div_mod_eq, h, ne_eq, decide_eq_decide]
  omega

/-- A burst of `n` steps leaves the window of its start just if there is a border before its last beat. -/
theorem exists_testBit_ne_iff (hc : c ≤ 2 ^ b) :
    (∃ k ≤ n, (a + k * c).testBit b ≠ a.testBit b) ↔ passed (2 ^ b) a (n * c) ≠ 0 := by
  simp only [testBit_add_ne_iff]
  constructor
  · rintro ⟨k, hk, hodd⟩ hzero
    have hmono := passed_mono (m := 2 ^ b) (a := a) (Nat.mul_le_mul_right c hk)
    omega
  · intro hne
    obtain ⟨k, hk, hone⟩ := exists_passed_eq_one (Nat.two_pow_pos b) hc (Nat.one_le_iff_ne_zero.2 hne)
    exact ⟨k, hk, by rw [hone]⟩

/-- To compare the first and the last beat is enough unless the burst passes an even number of borders. -/
theorem last_decides_iff (hc : c ≤ 2 ^ b) :
    ((a + n * c).testBit b ≠ a.testBit b ↔ ∃ k ≤ n, (a + k * c).testBit b ≠ a.testBit b) ↔
      passed (2 ^ b) a (n * c) = 0 ∨ passed (2 ^ b) a (n * c) % 2 = 1 := by
  rw [exists_testBit_ne_iff hc, testBit_add_ne_iff]
  omega

end Windows
