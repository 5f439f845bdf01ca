/-
# Theory.Backoff -- doubling a pause up to a bound

A retry waits for `least` first and doubles the pause each time, up to `most`. After `n` doublings the
pause is `min (least * 2 ^ n) most` (`bump_iterate`), so it is within the bounds and never shrinks.
-/
import Mathlib.Algebra.GroupWithZero.Nat
import Mathlib.Algebra.Order.Group.Nat
import Mathlib.Logic.Function.Iterate
import Mathlib.Tactic.Common

namespace MassaIndexer.Theory.Backoff

set_option autoImplicit false

/-- The bounds of a pause. -/
structure Bounds where
  least : Nat
  most : Nat
  ordered : least ≤ most

namespace Bounds

variable (b : Bounds)

def bump (pause : Nat) : Nat := if b.most < pause * 2 then b.most else pause * 2

/-- The pause after `n` doublings. -/
def after (n : Nat) : Nat := min (b.least * 2 ^ n) b.most

@[simp] theorem after_zero : b.after 0 = b.least := by
  simp [after, b.ordered]

/-- **One more doubling.** -/
theorem bump_after (n : Nat) : b.bump (b.after n) = b.after (n + 1) := by
  have doubled : b.least * 2 ^ (n + 1) = b.least * 2 ^ n * 2 := by rw [Nat.pow_succ, Nat.mul_assoc]
  unfold bump after
  rw [doubled]
  generalize b.least * 2 ^ n = pause
  split <;> omega

theorem bump_iterate (n : Nat) : b.bump^[n] b.least = b.after n := by
  induction n with
  | zero => simp
  | succ n ih => rw [Function.iterate_succ_apply', ih, bump_after]

theorem least_le_after (n : Nat) : b.least ≤ b.after n :=
  le_min (Nat.le_mul_of_pos_right _ (Nat.two_pow_pos n)) b.ordered

theorem after_le_most (n : Nat) : b.after n ≤ b.most := min_le_right _ _

theorem after_mono {m n : Nat} (earlier : m ≤ n) : b.after m ≤ b.after n :=
  min_le_min (Nat.mul_le_mul_left _ (Nat.pow_le_pow_right (by decide) earlier)) le_rfl

end Bounds

end MassaIndexer.Theory.Backoff
