import Zyndra.CyclicRing
import Mathlib.Algebra.Order.Floor.Div

/-!
# Rounding up to whole steps

A size that has to hold a value is the value rounded up to whole steps. Machines
add a step less one, divide and multiply; the sum may overflow. Against a limit
of whole steps the error is harmless in one case only: when what is left of the
sum is still at least the limit.
-/

namespace Zyndra.WholeSteps

open CyclicRing

/-- The least multiple of a step that holds a value. -/
def roundUp (step value : Nat) : Nat := value ⌈/⌉ step * step

theorem dvd_roundUp (step value : Nat) : step ∣ roundUp step value := Nat.dvd_mul_left _ _

/-- A bound of whole steps holds the rounded value when it holds the value. -/
theorem roundUp_le_iff {step value bound : Nat} (positive : 0 < step) (whole : step ∣ bound) :
    roundUp step value ≤ bound ↔ value ≤ bound := by
  obtain ⟨count, rfl⟩ := whole
  calc roundUp step value ≤ step * count
      ↔ step * (value ⌈/⌉ step) ≤ step * count := by rw [roundUp, Nat.mul_comm]
    _ ↔ value ⌈/⌉ step ≤ count := Nat.mul_le_mul_left_iff positive
    _ ↔ value ≤ step * count := ceilDiv_le_iff_le_mul positive

theorem lt_roundUp_iff {step value bound : Nat} (positive : 0 < step) (whole : step ∣ bound) :
    bound < roundUp step value ↔ bound < value := by
  rw [← Nat.not_le, roundUp_le_iff positive whole, Nat.not_le]

theorem roundUp_pos_iff {step value : Nat} (positive : 0 < step) :
    0 < roundUp step value ↔ 0 < value :=
  lt_roundUp_iff positive (Nat.dvd_zero step)

section Words

variable {w : Nat} {step value limit : BitVec w}

/-- Rounding up in machine words. -/
def wordRoundUp (step value : BitVec w) : BitVec w := (value + step - 1) / step * step

/-- The sum before the division, at a word that holds a number modulo the machine word. -/
theorem round_sum_toNat {exact : Nat} (positive : 0 < step)
    (truncated : value = BitVec.ofNat w exact) :
    (value + step - 1).toNat = (exact + step.toNat - 1) % 2 ^ w := by
  subst truncated
  have some : 0 < step.toNat := positive
  have pred : step.toNat - 1 + 1 = step.toNat := Nat.sub_add_cancel some
  have split : step = BitVec.ofNat w (step.toNat - 1) + 1 := by
    calc step = BitVec.ofNat w (step.toNat - 1 + 1) := by
          rw [pred, BitVec.ofNat_toNat, BitVec.setWidth_eq]
      _ = BitVec.ofNat w (step.toNat - 1) + 1 := BitVec.ofNat_add _ _
  have sum : BitVec.ofNat w exact + step - 1 = BitVec.ofNat w (exact + (step.toNat - 1)) := by
    calc BitVec.ofNat w exact + step - 1
        = BitVec.ofNat w exact + BitVec.ofNat w (step.toNat - 1) + 1 - 1 := by
          rw [BitVec.add_assoc, ← split]
      _ = BitVec.ofNat w (exact + (step.toNat - 1)) := by
          rw [BitVec.add_sub_cancel, BitVec.ofNat_add]
  have same : exact + step.toNat - 1 = exact + (step.toNat - 1) := by omega
  rw [sum, BitVec.toNat_ofNat, same]

/-- The machine rounds what is left of the sum down to whole steps. -/
theorem wordRoundUp_toNat {exact : Nat} (positive : 0 < step)
    (truncated : value = BitVec.ofNat w exact) :
    (wordRoundUp step value).toNat =
      (exact + step.toNat - 1) % 2 ^ w / step.toNat * step.toNat := by
  rw [wordRoundUp, floor_toNat, round_sum_toNat positive truncated]

/-- Without overflow it rounds up. -/
theorem wordRoundUp_exact {exact : Nat} (positive : 0 < step)
    (truncated : value = BitVec.ofNat w exact) (fits : exact + step.toNat - 1 < 2 ^ w) :
    (wordRoundUp step value).toNat = roundUp step.toNat exact := by
  rw [wordRoundUp_toNat positive truncated, Nat.mod_eq_of_lt fits]
  rfl

/-- Clamped to a limit of whole steps the machine's result is the exact one if and
only if the sum does not overflow, or leaves at least the limit. The exact result
is the limit when it does overflow. -/
theorem clamp_exact_iff {exact : Nat} (positive : 0 < step) (whole : step.toNat ∣ limit.toNat)
    (truncated : value = BitVec.ofNat w exact) :
    min limit.toNat (wordRoundUp step value).toNat = min limit.toNat (roundUp step.toNat exact) ↔
      exact + step.toNat - 1 < 2 ^ w ∨ limit.toNat ≤ (exact + step.toNat - 1) % 2 ^ w := by
  have some : 0 < step.toNat := positive
  by_cases fits : exact + step.toNat - 1 < 2 ^ w
  · rw [wordRoundUp_exact positive truncated fits]
    exact iff_of_true rfl (.inl fits)
  · obtain ⟨count, multiple⟩ := whole
    have width := limit.isLt
    have clamped : min limit.toNat (roundUp step.toNat exact) = limit.toNat := by
      apply Nat.min_eq_left
      rw [multiple, roundUp, Nat.mul_comm]
      apply Nat.mul_le_mul_right
      rw [Nat.ceilDiv_eq_add_pred_div, Nat.le_div_iff_mul_le some, Nat.mul_comm, ← multiple]
      omega
    rw [clamped, wordRoundUp_toNat positive truncated, min_eq_left_iff]
    generalize (exact + step.toNat - 1) % 2 ^ w = rest
    calc limit.toNat ≤ rest / step.toNat * step.toNat
        ↔ count ≤ rest / step.toNat := by
          rw [multiple, Nat.mul_comm step.toNat, Nat.mul_le_mul_right_iff some]
      _ ↔ limit.toNat ≤ rest := by
          rw [Nat.le_div_iff_mul_le some, multiple, Nat.mul_comm]
      _ ↔ exact + step.toNat - 1 < 2 ^ w ∨ limit.toNat ≤ rest := by simp [fits]

end Words

end Zyndra.WholeSteps
