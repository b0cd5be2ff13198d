import HeaterLink.Proofs.Temperature.Rounding

/-!
# Temperatures that encode

The temperatures of a reading are bytes. So its target can be sent, and so can
whatever is brought within its limits: that lies between the smaller limit and
the upper one, in whichever order the element has told them.
-/

set_option autoImplicit false

namespace HeaterLink

theorem turnOnAt_of_steps {x : Float} (hx : x.isFinite) (hlow : 0 ≤ inSteps x)
    (hhigh : inSteps x ≤ 255 * stepsPerDegree) : ∃ d, Command.turnOnAt x = .ok (.turnOn d) := by
  have hpos := stepsPerDegree_pos
  have hsome := (wholeDegrees?_isSome_iff x).mpr ⟨hx, by omega, by omega⟩
  obtain ⟨d, hd⟩ := Option.isSome_iff_exists.mp hsome
  exact ⟨d, Command.turnOnAt_eq_ok.mpr hd⟩

theorem byte_bounds (a : UInt8) :
    0 ≤ inSteps a.toFloat ∧ inSteps a.toFloat ≤ 255 * stepsPerDegree := by
  have hbyte : (a.toNat : Int) ≤ 255 := Int.ofNat_le.mpr (Nat.le_of_lt_succ a.toNat_lt)
  rw [(byte_steps a).2]
  exact ⟨Int.mul_nonneg (Int.natCast_nonneg _) (Int.natCast_nonneg _),
    Int.mul_le_mul_of_nonneg_right hbyte (Int.natCast_nonneg _)⟩

namespace Reading.Whole

variable {r : Reading} {t : Float}

theorem encodes_target (whole : r.Whole) : ∃ d, Command.turnOnAt r.target = .ok (.turnOn d) := by
  obtain ⟨a, htarget⟩ := whole.target
  obtain ⟨hlow, hhigh⟩ := byte_bounds a
  rw [htarget]
  exact turnOnAt_of_steps (byte_steps a).1 hlow hhigh

/-- The limits may be in either order. -/
theorem clamp_bounds (whole : r.Whole) (ht : t.isFinite) :
    smaller r.lower r.upper ≤ r.clamp t ∧ r.clamp t ≤ r.upper := by
  obtain ⟨a, hlower⟩ := whole.lower
  obtain ⟨b, hupper⟩ := whole.upper
  have ha : r.lower.isFinite := hlower ▸ (byte_steps a).1
  have hb : r.upper.isFinite := hupper ▸ (byte_steps b).1
  obtain ⟨hclamp, hsteps⟩ := clamp_steps ht ha hb
  obtain ⟨hsmaller, hsmallest⟩ := smaller_steps ha hb
  rw [le_iff_steps hsmaller hclamp, le_iff_steps hclamp hb, hsteps, hsmallest]
  omega

theorem encodes_clamp (whole : r.Whole) (ht : t.isFinite) :
    ∃ d, Command.turnOnAt (r.clamp t) = .ok (.turnOn d) := by
  obtain ⟨a, hlower⟩ := whole.lower
  obtain ⟨b, hupper⟩ := whole.upper
  have hleast := byte_bounds a
  have hmost := byte_bounds b
  rw [← hlower] at hleast
  rw [← hupper] at hmost
  obtain ⟨hclamp, hsteps⟩ :=
    clamp_steps ht (hlower ▸ (byte_steps a).1) (hupper ▸ (byte_steps b).1)
  exact turnOnAt_of_steps hclamp (by omega) (by omega)

end Reading.Whole

end HeaterLink
