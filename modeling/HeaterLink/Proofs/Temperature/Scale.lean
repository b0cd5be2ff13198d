import HeaterLink.Reading
import Mathlib

/-!
# Temperatures on one scale

A finite number is a whole multiple of the least positive one. Counted in such
steps numbers are integers, and they are compared as integers are: an exponent
decides first because the mantissa above the least exponent has its leading bit.
-/

set_option autoImplicit false

namespace HeaterLink

open Float.Model UnpackedFloat

@[irreducible]
def stepsPerDegree : Nat := 2 ^ 1074

theorem stepsPerDegree_pos : 0 < stepsPerDegree := by decide +kernel

theorem two_pow_shift (b : Nat) {e : Int} (h : -b ≤ e) :
    2 ^ (e + b).toNat * 2 ^ (-e).toNat = 2 ^ e.toNat * 2 ^ b := by
  have hsum : (e + b).toNat + (-e).toNat = e.toNat + b := by omega
  rw [← Nat.pow_add, ← Nat.pow_add, hsum]

theorem two_pow_steps {e : Int} (least : -1074 ≤ e) :
    2 ^ (e + 1074).toNat * 2 ^ (-e).toNat = 2 ^ e.toNat * stepsPerDegree := by
  unfold stepsPerDegree
  exact two_pow_shift 1074 least

namespace Scale

def steps : UnpackedFloat → Int
  | .finite s m e _ => s.apply ((m * 2 ^ (e + 1074).toNat : Nat) : Int)
  | _ => 0

inductive Canonical : UnpackedFloat → Prop
  | zero (s : Sign) : Canonical (.zero s)
  | finite (s : Sign) {m : Nat} {e : Int} (pos : 0 < m) (least : -1074 ≤ e)
      (bounded : m < 2 ^ 53) (leading : e = -1074 ∨ 2 ^ 52 ≤ m) : Canonical (.finite s m e pos)

theorem toNat_leading {w : Nat} (v : BitVec w) : (1#1 ++ v).toNat = 2 ^ w + v.toNat := by
  have h := Nat.two_pow_add_eq_or_of_lt v.isLt 1
  simpa [BitVec.toNat_append, Nat.shiftLeft_eq] using h.symm

theorem canonical_unpack {x : Float} (h : x.isFinite) : Canonical x.toModel.unpack := by
  have hfinite : (UnpackedFloat.unpack Format.binary64 x.toModel.toBits.toBitVec).isFinite := h
  have hbias : Format.binary64.exponentBias = 1023 := rfl
  have hmantissa : (@unpackMantissa Format.binary64 x.toModel.toBits.toBitVec).toNat <
      2 ^ 52 := BitVec.isLt _
  show Canonical (UnpackedFloat.unpack Format.binary64 x.toModel.toBits.toBitVec)
  unfold UnpackedFloat.unpack at hfinite ⊢
  dsimp only at hfinite ⊢
  split
  · rename_i hones
    rw [if_pos hones] at hfinite
    split at hfinite <;> cases hfinite
  · split
    · rename_i hzero
      split
      · exact .zero _
      · refine .finite _ _ ?_ (Nat.lt_trans hmantissa (by decide)) (.inl ?_) <;> simp [hzero, hbias]
    · rename_i hnonzero
      have hpos : (@unpackExponent Format.binary64 x.toModel.toBits.toBitVec).toNat ≠ 0 :=
        fun h0 => hnonzero (BitVec.eq_of_toNat_eq h0)
      refine .finite _ _ ?_ ?_ (.inr ?_)
      · rw [hbias]
        omega
      · rw [toNat_leading]
        exact Nat.add_lt_add_left hmantissa (2 ^ 52)
      · rw [toNat_leading]
        exact Nat.le_add_right _ _

section Magnitude

variable {m m' : Nat} {e e' : Int}

/-- Of two mantissas the one with the smaller exponent is the smaller number. -/
theorem lt_of_exponent_lt (h : e < e') (least : -1074 ≤ e) (bounded : m < 2 ^ 53)
    (leading : e' = -1074 ∨ 2 ^ 52 ≤ m') :
    m * 2 ^ (e + 1074).toNat < m' * 2 ^ (e' + 1074).toNat := by
  have hm' : 2 ^ 52 ≤ m' := leading.resolve_left (by omega)
  have hpow : (2 : Nat) ^ ((e + 1074).toNat + 1) ≤ 2 ^ (e' + 1074).toNat :=
    Nat.pow_le_pow_right (by decide) (by omega)
  calc
    m * 2 ^ (e + 1074).toNat < 2 ^ 53 * 2 ^ (e + 1074).toNat :=
      Nat.mul_lt_mul_of_pos_right bounded (Nat.two_pow_pos _)
    _ = 2 ^ 52 * 2 ^ ((e + 1074).toNat + 1) := by rw [Nat.pow_succ]; omega
    _ ≤ m' * 2 ^ (e' + 1074).toNat := Nat.mul_le_mul hm' hpow

theorem compare_magnitudes (least : -1074 ≤ e) (least' : -1074 ≤ e') (bounded : m < 2 ^ 53)
    (bounded' : m' < 2 ^ 53) (leading : e = -1074 ∨ 2 ^ 52 ≤ m)
    (leading' : e' = -1074 ∨ 2 ^ 52 ≤ m') :
    (compare e e').then (compare m m') =
      compare (m * 2 ^ (e + 1074).toNat) (m' * 2 ^ (e' + 1074).toNat) := by
  rcases Int.lt_trichotomy e e' with h | rfl | h
  · rw [Int.compare_eq_lt.mpr h, Ordering.lt_then, eq_comm, Nat.compare_eq_lt]
    exact lt_of_exponent_lt h least bounded leading'
  · rw [Int.compare_eq_eq.mpr rfl, Ordering.eq_then]
    have hpos : 0 < 2 ^ (e + 1074).toNat := Nat.two_pow_pos _
    rcases Nat.lt_trichotomy m m' with h | rfl | h
    · rw [Nat.compare_eq_lt.mpr h, eq_comm, Nat.compare_eq_lt]
      exact Nat.mul_lt_mul_of_pos_right h hpos
    · rw [Nat.compare_eq_eq.mpr rfl, Nat.compare_eq_eq.mpr rfl]
    · rw [Nat.compare_eq_gt.mpr h, eq_comm, Nat.compare_eq_gt]
      exact Nat.mul_lt_mul_of_pos_right h hpos
  · rw [Int.compare_eq_gt.mpr h, Ordering.gt_then, eq_comm, Nat.compare_eq_gt]
    exact lt_of_exponent_lt h least' bounded' leading

end Magnitude

theorem compare_natCast (a b : Nat) : compare (a : Int) (b : Int) = compare a b := by
  simp [Int.compare_eq_ite_lt, Nat.compare_eq_ite_lt]

theorem compare_neg (a b : Int) : compare (-a) (-b) = (compare a b).swap := by
  rw [Int.compare_swap, Int.compare_eq_ite_lt, Int.compare_eq_ite_lt]
  simp

theorem magnitude_pos {m : Nat} (pos : 0 < m) (e : Int) :
    0 < ((m * 2 ^ (e + 1074).toNat : Nat) : Int) :=
  Int.natCast_pos.mpr (Nat.mul_pos pos (Nat.two_pow_pos _))

/-- Finite numbers are compared as their steps are. -/
theorem compare_steps {u v : UnpackedFloat} (hu : Canonical u) (hv : Canonical v) :
    u.compare v = some (compare (steps u) (steps v)) := by
  cases hu with
  | zero s =>
    cases hv with
    | zero s' => rfl
    | @finite s' m' e' pos' _ _ _ =>
      have hp' := magnitude_pos pos' e'
      cases s' with
      | negative =>
        refine congrArg some (Eq.symm ?_)
        exact Int.compare_eq_gt.mpr (Int.neg_neg_of_pos hp')
      | positive =>
        refine congrArg some (Eq.symm ?_)
        exact Int.compare_eq_lt.mpr hp'
  | @finite s m e pos least bounded leading =>
    have hp := magnitude_pos pos e
    cases hv with
    | zero s' =>
      cases s with
      | negative =>
        refine congrArg some (Eq.symm ?_)
        exact Int.compare_eq_lt.mpr (Int.neg_neg_of_pos hp)
      | positive =>
        refine congrArg some (Eq.symm ?_)
        exact Int.compare_eq_gt.mpr hp
    | @finite s' m' e' pos' least' bounded' leading' =>
      have hp' := magnitude_pos pos' e'
      have magnitudes := compare_magnitudes least least' bounded bounded' leading leading'
      cases s with
      | negative =>
        cases s' with
        | negative =>
          refine congrArg some (Eq.symm ?_)
          rw [magnitudes]
          exact (compare_neg _ _).trans (congrArg _ (compare_natCast _ _))
        | positive =>
          refine congrArg some (Eq.symm ?_)
          exact Int.compare_eq_lt.mpr (Int.lt_trans (Int.neg_neg_of_pos hp) hp')
      | positive =>
        cases s' with
        | negative =>
          refine congrArg some (Eq.symm ?_)
          exact Int.compare_eq_gt.mpr (Int.lt_trans (Int.neg_neg_of_pos hp') hp)
        | positive =>
          refine congrArg some (Eq.symm ?_)
          rw [magnitudes]
          exact compare_natCast _ _

end Scale

def inSteps (x : Float) : Int := Scale.steps x.toModel.unpack

section Order

variable {x y : Float}

theorem lt_iff_steps (hx : x.isFinite) (hy : y.isFinite) : x < y ↔ inSteps x < inSteps y := by
  have h := Scale.compare_steps (Scale.canonical_unpack hx) (Scale.canonical_unpack hy)
  show decide (x.toModel < y.toModel) = true ↔ _
  rw [decide_eq_true_iff]
  show (x.toModel.unpack.compare y.toModel.unpack == some .lt) = true ↔ _
  rw [h, ← Int.compare_eq_lt]
  simp [inSteps]

theorem le_iff_steps (hx : x.isFinite) (hy : y.isFinite) : x ≤ y ↔ inSteps x ≤ inSteps y := by
  have h := Scale.compare_steps (Scale.canonical_unpack hx) (Scale.canonical_unpack hy)
  show decide (x.toModel ≤ y.toModel) = true ↔ _
  rw [decide_eq_true_iff]
  show (x.toModel.unpack.compare y.toModel.unpack).any (·.isLE) = true ↔ _
  rw [h, ← Int.compare_ne_gt]
  simp [inSteps, Ordering.isLE_iff_ne_gt]

theorem isNaN_of_isFinite (hx : x.isFinite) : x.isNaN = false := by
  have h : x.toModel.unpack.isFinite = true := hx
  show x.toModel.unpack.isNaN = false
  cases hu : x.toModel.unpack <;> simp_all [UnpackedFloat.isFinite, UnpackedFloat.isNaN]

end Order

/-- A byte is a whole number of degrees. -/
theorem byte_steps (a : UInt8) :
    a.toFloat.isFinite ∧ inSteps a.toFloat = a.toNat * stepsPerDegree := by
  have h : ∀ n < 256, (UInt8.ofNat n).toFloat.isFinite ∧
      inSteps (UInt8.ofNat n).toFloat = n * stepsPerDegree := by decide +kernel
  simpa using h a.toNat a.toNat_lt

end HeaterLink
