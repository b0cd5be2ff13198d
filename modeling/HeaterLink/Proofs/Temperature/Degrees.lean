import HeaterLink.Proofs.Temperature.Scale
import HeaterLink.Wire.Command
import HeaterLink.Wire.Status
import Mathlib.Tactic.Ring

/-!
# Whole degrees

The byte of a temperature is its number of steps, half a degree added, divided
by the steps in a degree. So it grows with the temperature, and a whole number
of degrees is its own byte. A temperature that is brought within the limits of a
reading stays within them when it is rounded, because the limits are bytes.
-/

set_option autoImplicit false

namespace HeaterLink

open Float.Model UnpackedFloat

def nearestDegree (steps : Int) : Int := (2 * steps + stepsPerDegree) / (2 * stepsPerDegree)

theorem round_rescaled {m whole scale steps unit : Nat} (hscale : 0 < scale) (hunit : 0 < unit)
    (h : steps * scale = whole * unit) :
    (2 * m * whole + scale) / (2 * scale) = (2 * (m * steps) + unit) / (2 * unit) :=
  calc
    (2 * m * whole + scale) / (2 * scale)
        = (2 * m * whole + scale) * unit / (2 * scale * unit) :=
      (Nat.mul_div_mul_right _ _ hunit).symm
    _ = (2 * m * (whole * unit) + scale * unit) / (2 * scale * unit) := by ring_nf
    _ = (2 * (m * steps) + unit) * scale / (2 * unit * scale) := by rw [← h]; ring_nf
    _ = (2 * (m * steps) + unit) / (2 * unit) := Nat.mul_div_mul_right _ _ hscale

theorem roundHalfUp_eq (m : Nat) {e : Int} (least : -1074 ≤ e) :
    (roundHalfUp m e : Int) = nearestDegree ((m * 2 ^ (e + 1074).toNat : Nat) : Int) := by
  have h : roundHalfUp m e =
      (2 * (m * 2 ^ (e + 1074).toNat) + stepsPerDegree) / (2 * stepsPerDegree) :=
    round_rescaled (Nat.two_pow_pos _) stepsPerDegree_pos (two_pow_steps least)
  rw [h, nearestDegree]
  norm_cast

theorem nearestDegree_mono {n n' : Int} (h : n ≤ n') : nearestDegree n ≤ nearestDegree n' := by
  have hpos := stepsPerDegree_pos
  exact Int.ediv_le_ediv (by omega) (by omega)

theorem nearestDegree_eq_iff {n d : Int} : nearestDegree n = d ↔
    d * (2 * stepsPerDegree) ≤ 2 * n + stepsPerDegree ∧
      2 * n + stepsPerDegree < d * (2 * stepsPerDegree) + 2 * stepsPerDegree := by
  have hpos := stepsPerDegree_pos
  exact Int.ediv_eq_iff_of_pos (by omega)

theorem nearestDegree_zero : nearestDegree 0 = 0 := by
  have hpos := stepsPerDegree_pos
  rw [nearestDegree_eq_iff]
  omega

theorem nearestDegree_whole (n : Nat) : nearestDegree (n * stepsPerDegree) = n := by
  have hpos := stepsPerDegree_pos
  have hdouble : (n : Int) * (2 * stepsPerDegree) = 2 * (n * stepsPerDegree) := by ring
  rw [nearestDegree_eq_iff, hdouble]
  omega

/-- The byte of a temperature is the degree nearest to it. -/
theorem wholeDegrees?_eq_some {x : Float} {d : UInt8} (h : wholeDegrees? x = some d) :
    x.isFinite ∧ (d.toNat : Int) = nearestDegree (inSteps x) := by
  have hpos := stepsPerDegree_pos
  have hcanonical (hx : x.toModel.unpack.isFinite) := Scale.canonical_unpack (x := x) hx
  unfold wholeDegrees? at h
  show x.toModel.unpack.isFinite ∧ (d.toNat : Int) = nearestDegree (Scale.steps x.toModel.unpack)
  generalize x.toModel.unpack = u at h hcanonical ⊢
  cases u with
  | infinity s => cases h
  | notANumber => cases h
  | zero s =>
    obtain rfl := Option.some.inj h
    exact ⟨rfl, nearestDegree_zero.symm⟩
  | finite s m e pos =>
    cases hcanonical rfl with
    | finite _ _ least _ _ =>
      have hround := roundHalfUp_eq m least
      refine ⟨rfl, ?_⟩
      cases s with
      | positive =>
        simp only at h
        split at h
        · obtain rfl := Option.some.inj h
          rw [UInt8.toNat_ofNat', Nat.mod_eq_of_lt (by omega), hround]
          rfl
        · cases h
      | negative =>
        simp only at h
        split at h
        · rename_i hzero
          obtain rfl := Option.some.inj h
          have hmagnitude := Scale.magnitude_pos pos e
          rw [hzero, eq_comm, nearestDegree_eq_iff] at hround
          rw [eq_comm]
          show nearestDegree (-((m * 2 ^ (e + 1074).toNat : Nat) : Int)) = 0
          rw [nearestDegree_eq_iff]
          omega
        · cases h

section Limits

variable {x y : Float}

theorem larger_steps (hx : x.isFinite) (hy : y.isFinite) :
    (larger x y).isFinite ∧ inSteps (larger x y) = max (inSteps x) (inSteps y) := by
  rw [larger, isNaN_of_isFinite hy, if_neg Bool.false_ne_true]
  by_cases h : y < x
  · rw [if_pos h]
    rw [lt_iff_steps hy hx] at h
    exact ⟨hx, by omega⟩
  · rw [if_neg h]
    rw [lt_iff_steps hy hx] at h
    exact ⟨hy, by omega⟩

theorem smaller_steps (hx : x.isFinite) (hy : y.isFinite) :
    (smaller x y).isFinite ∧ inSteps (smaller x y) = min (inSteps x) (inSteps y) := by
  rw [smaller, isNaN_of_isFinite hy, if_neg Bool.false_ne_true]
  by_cases h : x < y
  · rw [if_pos h]
    rw [lt_iff_steps hx hy] at h
    exact ⟨hx, by omega⟩
  · rw [if_neg h]
    rw [lt_iff_steps hx hy] at h
    exact ⟨hy, by omega⟩

end Limits

namespace Reading

variable {r : Reading} {t : Float} {d : UInt8}

structure Whole (r : Reading) : Prop where
  current : ∃ a : UInt8, r.current = a.toFloat
  target : ∃ a : UInt8, r.target = a.toFloat
  lower : ∃ a : UInt8, r.lower = a.toFloat
  upper : ∃ a : UInt8, r.upper = a.toFloat

theorem clamp_steps (ht : t.isFinite) (hl : r.lower.isFinite) (hu : r.upper.isFinite) :
    (r.clamp t).isFinite ∧ inSteps (r.clamp t) =
      min (max (inSteps t) (inSteps r.lower)) (inSteps r.upper) := by
  obtain ⟨hfinite, hsteps⟩ := larger_steps ht hl
  rw [clamp, ← hsteps]
  exact smaller_steps hfinite hu

/-- What was brought within the limits is still within them when it is rounded. -/
theorem within_of_clamp (whole : r.Whole) (ht : t.isFinite)
    (h : wholeDegrees? (r.clamp t) = some d) (ordered : r.lower ≤ r.upper) :
    r.lower ≤ d.toFloat ∧ d.toFloat ≤ r.upper := by
  obtain ⟨a, hlower⟩ := whole.lower
  obtain ⟨b, hupper⟩ := whole.upper
  obtain ⟨ha, hsteps⟩ := byte_steps a
  obtain ⟨hb, hsteps'⟩ := byte_steps b
  obtain ⟨hd, hdegrees⟩ := byte_steps d
  rw [hlower, hupper, le_iff_steps ha hb] at ordered
  have hclamp := (clamp_steps ht (hlower ▸ ha) (hupper ▸ hb)).2
  have hnearest := (wholeDegrees?_eq_some h).2
  rw [hlower, hupper] at hclamp
  generalize inSteps (r.clamp t) = n at hclamp hnearest
  have hleast : nearestDegree (inSteps a.toFloat) ≤ nearestDegree n :=
    nearestDegree_mono (by omega)
  have hmost : nearestDegree n ≤ nearestDegree (inSteps b.toFloat) :=
    nearestDegree_mono (by omega)
  rw [← hnearest, hsteps, nearestDegree_whole] at hleast
  rw [← hnearest, hsteps', nearestDegree_whole] at hmost
  rw [hlower, hupper, le_iff_steps ha hd, le_iff_steps hd hb, hsteps, hsteps', hdegrees]
  exact ⟨Int.mul_le_mul_of_nonneg_right hleast (Int.natCast_nonneg _),
    Int.mul_le_mul_of_nonneg_right hmost (Int.natCast_nonneg _)⟩

end Reading

theorem StatusLayout.parse_whole {l : StatusLayout} {watts : UInt32} {payload : Bytes} {r : Reading}
    (h : l.parse watts payload = .ok r) : r.Whole := by
  unfold StatusLayout.parse at h
  split at h
  · cases h
  · obtain rfl := Except.ok.inj h
    exact ⟨⟨_, rfl⟩, ⟨_, rfl⟩, ⟨_, rfl⟩, ⟨_, rfl⟩⟩

end HeaterLink
