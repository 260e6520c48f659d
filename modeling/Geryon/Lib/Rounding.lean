import Mathlib.Data.Int.ModEq
import Mathlib.Tactic.Positivity
import Mathlib.Tactic.Ring

/-!
# Rounding modulo `q` with hints

Splitting a residue modulo `q` into a high and a low part, and the hint from which the high part of
a perturbed residue gives back the high part of the residue itself.

`power2Round` splits at a power of two. `decompose` splits at `2 * γ` for a modulus with
`q - 1 = 2 * γ * m`; the `m` high parts wrap around, and the one residue left over counts to the
high part `0`. All representatives are integers; every function reduces its argument first.

## Main results

* `power2Round_recompose` and `decompose_recompose`: the parts recombine to the residue;
* `decompose_eq`: the parts of an integer that is given as `2 * γ * h + l`;
* `useHint_makeHint`: the high part is recovered from the hint as long as the low part is less than
  a full step.
-/

namespace Rounding

/-- The representative of `a` modulo `α` in the interval `(-α / 2, α / 2]`. -/
def modPm (a α : ℤ) : ℤ := if 2 * (a % α) ≤ α then a % α else a % α - α

/-- The high and the low part of a residue at the power `2 ^ d`. -/
def power2Round (q : ℤ) (d : ℕ) (r : ℤ) : ℤ × ℤ :=
  let rp := r % q
  let r0 := modPm rp (2 ^ d)
  ((rp - r0) / 2 ^ d, r0)

/-- The high and the low part of a residue at the step `2 * γ`. -/
def decompose (q γ r : ℤ) : ℤ × ℤ :=
  let rp := r % q
  let r0 := modPm rp (2 * γ)
  if rp - r0 = q - 1 then (0, r0 - 1) else ((rp - r0) / (2 * γ), r0)

/-- The high part. -/
def highBits (q γ r : ℤ) : ℤ := (decompose q γ r).1

/-- Whether adding `z` changes the high part of `r`. -/
def makeHint (q γ z r : ℤ) : Bool := highBits q γ r ≠ highBits q γ (r + z)

/-- The high part, moved by one towards the low part when the hint says so. -/
def useHint (q γ : ℤ) (h : Bool) (r : ℤ) : ℤ :=
  let m := (q - 1) / (2 * γ)
  let (r1, r0) := decompose q γ r
  if h ∧ 0 < r0 then (r1 + 1) % m
  else if h then (r1 - 1) % m
  else r1

/-! ## Representatives around zero -/

section ModPm

variable {α : ℤ}

theorem modPm_bounds (hα : 0 < α) (a : ℤ) : -α < 2 * modPm a α ∧ 2 * modPm a α ≤ α := by
  have h0 := Int.emod_nonneg a hα.ne'
  have h1 := Int.emod_lt_of_pos a hα
  unfold modPm
  split <;> omega

/-- The representative is found from any decomposition with a small remainder. -/
theorem modPm_eq {h l : ℤ} (hlo : -α < 2 * l) (hhi : 2 * l ≤ α) : modPm (α * h + l) α = l := by
  unfold modPm
  rw [Int.mul_add_emod_self_left]
  rcases le_or_gt 0 l with hl | hl
  · rw [Int.emod_eq_of_lt hl (by omega), if_pos hhi]
  · have hmod : l % α = l + α := by
      rw [← Int.add_emod_right, Int.emod_eq_of_lt (by omega) (by omega)]
    rw [hmod, if_neg (by omega)]
    ring

/-- What is left after taking the representative off is a multiple of the step. -/
theorem exists_eq_mul_add_modPm (a : ℤ) : ∃ h, a = α * h + modPm a α := by
  have hdiv := Int.mul_ediv_add_emod a α
  unfold modPm
  split
  · exact ⟨a / α, hdiv.symm⟩
  · exact ⟨a / α + 1, by rw [mul_add, mul_one]; omega⟩

end ModPm

/-! ## Rounding to a power of two -/

section Power2Round

variable {q : ℤ} {d : ℕ}

/-- The two parts recombine to the residue. -/
theorem power2Round_recompose (r : ℤ) :
    (power2Round q d r).1 * 2 ^ d + (power2Round q d r).2 = r % q := by
  have hpos : (0 : ℤ) < 2 ^ d := by positivity
  obtain ⟨h, hh⟩ := exists_eq_mul_add_modPm (α := 2 ^ d) (r % q)
  have hsub : r % q - modPm (r % q) (2 ^ d) = 2 ^ d * h := by omega
  unfold power2Round
  dsimp only
  rw [hsub, Int.mul_ediv_cancel_left _ hpos.ne', mul_comm]
  exact hh.symm

theorem power2Round_low (r : ℤ) :
    -2 ^ d < 2 * (power2Round q d r).2 ∧ 2 * (power2Round q d r).2 ≤ 2 ^ d :=
  modPm_bounds (by positivity) _

end Power2Round

/-! ## Rounding to a multiple of `2 * γ` -/

/-- The modulus is one more than a multiple of the step `2 * γ`. -/
structure Balanced (q γ m : ℤ) : Prop where
  γ_pos : 0 < γ
  m_pos : 1 < m
  q_eq : q = 2 * γ * m + 1

section Decompose

variable {q γ m : ℤ}

theorem decompose_emod (r : ℤ) : decompose q γ (r % q) = decompose q γ r := by
  unfold decompose
  rw [Int.emod_emod_of_dvd _ (dvd_refl q)]

/-- The high part only depends on the residue. -/
theorem useHint_emod (h : Bool) (r : ℤ) : useHint q γ h (r % q) = useHint q γ h r := by
  unfold useHint
  rw [decompose_emod]

/-- The parts of a residue that is given by a multiple of the step and a small remainder. The top
multiple stands for the high part `0`. -/
theorem decompose_eq (hb : Balanced q γ m) {r h l : ℤ} (hr : r % q = 2 * γ * h + l)
    (hlo : -γ < l) (hhi : l ≤ γ) :
    decompose q γ r = if h = m then (0, l - 1) else (h, l) := by
  have hγ := hb.γ_pos
  have hsub : 2 * γ * h + l - l = 2 * γ * h := by omega
  have htop : 2 * γ * h = q - 1 ↔ h = m := by
    rw [hb.q_eq, add_sub_cancel_right]
    exact mul_right_inj' (by omega)
  unfold decompose
  dsimp only
  rw [hr, modPm_eq (by omega) (by omega), hsub, Int.mul_ediv_cancel_left _ (by omega)]
  simp only [htop]

/-- Every residue is a multiple of the step up to a small remainder. -/
theorem exists_parts (hb : Balanced q γ m) (r : ℤ) :
    ∃ h l, r % q = 2 * γ * h + l ∧ -γ < l ∧ l ≤ γ ∧ 0 ≤ h ∧ h ≤ m := by
  have hγ := hb.γ_pos
  have hm := hb.m_pos
  have hα : 0 < 2 * γ := by omega
  obtain ⟨h, hh⟩ := exists_eq_mul_add_modPm (α := 2 * γ) (r % q)
  obtain ⟨hlo, hhi⟩ := modPm_bounds hα (r % q)
  have hq : 0 < q := by
    have : 0 < 2 * γ * m := by positivity
    have := hb.q_eq
    omega
  have h0 := Int.emod_nonneg r hq.ne'
  have h1 := Int.emod_lt_of_pos r hq
  refine ⟨h, _, hh, by omega, by omega, ?_, ?_⟩
  · -- a negative multiple would leave the residue negative
    by_contra hneg
    have : 2 * γ * h ≤ 2 * γ * (-1) := mul_le_mul_of_nonneg_left (by omega) hα.le
    omega
  · -- a multiple above the top would leave it above the modulus
    by_contra hbig
    have : 2 * γ * (m + 1) ≤ 2 * γ * h := mul_le_mul_of_nonneg_left (by omega) hα.le
    have hexp : 2 * γ * (m + 1) = 2 * γ * m + 2 * γ := by ring
    have := hb.q_eq
    omega

/-- The high part is one of `m` values and the low part at most half a step. -/
theorem decompose_bounds (hb : Balanced q γ m) (r : ℤ) :
    0 ≤ (decompose q γ r).1 ∧ (decompose q γ r).1 < m ∧ -γ ≤ (decompose q γ r).2 ∧
      (decompose q γ r).2 ≤ γ := by
  have hm := hb.m_pos
  obtain ⟨h, l, hr, hlo, hhi, h0, hm'⟩ := exists_parts hb r
  rw [decompose_eq hb hr hlo hhi]
  split
  · exact ⟨le_refl _, by omega, by omega, by omega⟩
  · exact ⟨h0, by omega, by omega, hhi⟩

/-- The two parts recombine to the residue. -/
theorem decompose_recompose (hb : Balanced q γ m) (r : ℤ) :
    2 * γ * (decompose q γ r).1 + (decompose q γ r).2 ≡ r [ZMOD q] := by
  obtain ⟨h, l, hr, hlo, hhi, -, -⟩ := exists_parts hb r
  have hmod : 2 * γ * h + l ≡ r [ZMOD q] := by
    rw [← hr]
    exact Int.mod_modEq r q
  rw [decompose_eq hb hr hlo hhi]
  split
  · next htop =>
    -- the top multiple is `q - 1`, so both sides differ by the modulus
    have hdiff : 2 * γ * h + l = 2 * γ * 0 + (l - 1) + q := by
      rw [htop, hb.q_eq]
      ring
    rw [hdiff] at hmod
    exact (Int.add_modEq_right).symm.trans hmod
  · exact hmod

/-! ## Hints -/

/-! ### A residue near a multiple of the step

The residue is `2 * γ * r1 + r0` with a high part `r1` and a low part `r0` below a full step. -/

section Near

variable {r1 r0 : ℤ}

/-- It is reduced already, or one modulus below it. -/
theorem near_emod (hb : Balanced q γ m) (h1 : 0 ≤ r1) (h1m : r1 < m) (hlo : -(2 * γ) < r0)
    (hhi : r0 < 2 * γ) :
    (2 * γ * r1 + r0) % q =
      if r1 = 0 ∧ r0 < 0 then 2 * γ * m + (r0 + 1) else 2 * γ * r1 + r0 := by
  have hα : 0 < 2 * γ := by have := hb.γ_pos; omega
  have hm := hb.m_pos
  have hq := hb.q_eq
  have htop : 2 * γ * (r1 + 1) ≤ 2 * γ * m := mul_le_mul_of_nonneg_left (by omega) hα.le
  rw [mul_add, mul_one] at htop
  split
  · next hwrap =>
    have hstep : 2 * γ * 1 ≤ 2 * γ * m := mul_le_mul_of_nonneg_left (by omega) hα.le
    rw [hwrap.1, mul_zero, zero_add, ← Int.add_emod_right, Int.emod_eq_of_lt (by omega) (by omega)]
    omega
  · next hwrap =>
    have hnonneg : 0 ≤ 2 * γ * r1 + r0 := by
      rcases eq_or_lt_of_le h1 with hz | hpos
      · subst hz
        have : 0 ≤ r0 := not_lt.mp fun hneg => hwrap ⟨rfl, hneg⟩
        omega
      · have : 2 * γ * 1 ≤ 2 * γ * r1 := mul_le_mul_of_nonneg_left (by omega) hα.le
        omega
    exact Int.emod_eq_of_lt hnonneg (by omega)

/-- Within half a step the parts are those given. At the bottom the interval is closed, because the
residue left over counts there. -/
theorem decompose_within (hb : Balanced q γ m) (h1 : 0 ≤ r1) (h1m : r1 < m)
    (hlo : -γ < r0 ∨ r1 = 0 ∧ r0 = -γ) (hhi : r0 ≤ γ) :
    decompose q γ (2 * γ * r1 + r0) = (r1, r0) := by
  have hγ := hb.γ_pos
  have hbelow : -(2 * γ) < r0 := by omega
  have hmod := near_emod hb h1 h1m hbelow (by omega)
  split at hmod
  · next hwrap =>
    rw [decompose_eq hb hmod (by omega) (by omega), if_pos rfl, hwrap.1, add_sub_cancel_right]
  · next hwrap =>
    rw [decompose_eq hb hmod (by omega) hhi, if_neg (by omega)]

/-- Above half a step the high part is the next one and the low part is negative. -/
theorem decompose_above (hb : Balanced q γ m) (h1 : 0 ≤ r1) (h1m : r1 < m) (hlo : γ < r0)
    (hhi : r0 < 2 * γ) :
    ∃ l, l < 0 ∧
      decompose q γ (2 * γ * r1 + r0) = (if r1 + 1 = m then 0 else r1 + 1, l) := by
  have hγ := hb.γ_pos
  have hbelow : -(2 * γ) < r0 := by omega
  have hmod := near_emod hb h1 h1m hbelow hhi
  rw [if_neg (by omega)] at hmod
  have hnext : 2 * γ * r1 + r0 = 2 * γ * (r1 + 1) + (r0 - 2 * γ) := by ring
  rw [decompose_eq hb (hmod.trans hnext) (by omega) (by omega)]
  split
  · exact ⟨r0 - 2 * γ - 1, by omega, rfl⟩
  · exact ⟨r0 - 2 * γ, by omega, rfl⟩

/-- Below half a step the high part is the previous one and the low part is positive. -/
theorem decompose_below (hb : Balanced q γ m) (h1 : 0 ≤ r1) (h1m : r1 < m) (hlo : -(2 * γ) < r0)
    (hhi : r0 ≤ -γ) (hne : ¬(r1 = 0 ∧ r0 = -γ)) :
    ∃ l, 0 < l ∧
      decompose q γ (2 * γ * r1 + r0) = (if r1 = 0 then m - 1 else r1 - 1, l) := by
  have hγ := hb.γ_pos
  have hmod := near_emod hb h1 h1m hlo (by omega)
  by_cases hz : r1 = 0
  · -- below zero the residue is close to the top multiple
    have hprev : 2 * γ * m + (r0 + 1) = 2 * γ * (m - 1) + (r0 + 2 * γ + 1) := by ring
    rw [if_pos ⟨hz, by omega⟩, hprev] at hmod
    rw [decompose_eq hb hmod (by omega) (by omega), if_neg (by omega), if_pos hz]
    exact ⟨_, by omega, rfl⟩
  · have hprev : 2 * γ * r1 + r0 = 2 * γ * (r1 - 1) + (r0 + 2 * γ) := by ring
    rw [if_neg (by omega), hprev] at hmod
    rw [hprev, decompose_eq hb hmod (by omega) (by omega), if_neg (by omega), if_neg hz]
    exact ⟨_, by omega, rfl⟩

end Near

/-! ## Hints -/

/-- The high part is recovered from the hint. -/
theorem useHint_makeHint (hb : Balanced q γ m) {r1 r0 : ℤ} (h1 : 0 ≤ r1) (h1m : r1 < m)
    (hlo : -(2 * γ) < r0) (hhi : r0 < 2 * γ) :
    useHint q γ (makeHint q γ (-r0) (2 * γ * r1 + r0)) (2 * γ * r1 + r0) = r1 := by
  have hγ := hb.γ_pos
  have hm : (q - 1) / (2 * γ) = m := by
    rw [hb.q_eq, add_sub_cancel_right, Int.mul_ediv_cancel_left _ (by omega)]
  have hbase : highBits q γ (2 * γ * r1 + r0 + -r0) = r1 := by
    have hsum : 2 * γ * r1 + r0 + -r0 = 2 * γ * r1 + 0 := by ring
    rw [hsum, highBits, decompose_within hb h1 h1m (.inl (by omega)) (by omega)]
  have hhint : makeHint q γ (-r0) (2 * γ * r1 + r0) =
      decide ((decompose q γ (2 * γ * r1 + r0)).1 ≠ r1) := by
    rw [makeHint, hbase, highBits]
  rw [hhint]
  unfold useHint
  rw [hm]
  by_cases hin : (-γ < r0 ∨ r1 = 0 ∧ r0 = -γ) ∧ r0 ≤ γ
  · rw [decompose_within hb h1 h1m hin.1 hin.2]
    simp
  · rcases lt_or_ge γ r0 with habove | hbelow
    · obtain ⟨l, hl, hdec⟩ := decompose_above hb h1 h1m habove hhi
      rw [hdec]
      have hne : (if r1 + 1 = m then 0 else r1 + 1) ≠ r1 := by
        have := hb.m_pos
        split <;> omega
      have hneg : ¬0 < l := by omega
      simp only [hne, hneg, ne_eq, not_false_eq_true, decide_true, and_false, if_false, if_true]
      split
      · next htop => rw [← Int.add_emod_right, Int.emod_eq_of_lt (by omega) (by omega)]; omega
      · next htop => rw [Int.emod_eq_of_lt (by omega) (by omega)]; omega
    · obtain ⟨l, hl, hdec⟩ := decompose_below hb h1 h1m hlo (by omega) (by omega)
      rw [hdec]
      have hne : (if r1 = 0 then m - 1 else r1 - 1) ≠ r1 := by
        have := hb.m_pos
        split <;> omega
      simp only [hne, hl, ne_eq, not_false_eq_true, decide_true, and_self, if_true]
      split
      · next hz => rw [sub_add_cancel, Int.emod_self, hz]
      · next hz => rw [sub_add_cancel, Int.emod_eq_of_lt h1 h1m]

end Decompose

end Rounding
