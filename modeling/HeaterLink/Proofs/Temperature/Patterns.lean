import HeaterLink.Proofs.Temperature.Degrees

/-!
# Patterns of numbers

A temperature comes as sixty-four bits: a sign, eleven digits of exponent and
fifty-two of mantissa. Reading a pattern and packing what was read gives the
pattern back, unless it is no number. So the value of a pattern, which is
arithmetic on its three fields, is what the steps of the number count.
-/

set_option autoImplicit false

namespace HeaterLink

open Float.Model UnpackedFloat

namespace Scale

def signField (b : BitVec 64) : BitVec 1 := @unpackSign Format.binary64 b

def exponentField (b : BitVec 64) : BitVec 11 := @unpackExponent Format.binary64 b

def mantissaField (b : BitVec 64) : BitVec 52 := @unpackMantissa Format.binary64 b

inductive Reads (s : Sign) (e : BitVec 11) (m : BitVec 52) : UnpackedFloat → Prop
  | infinity : e.toNat = 2047 → m.toNat = 0 → Reads s e m (.infinity s)
  | noNumber : e.toNat = 2047 → m.toNat ≠ 0 → Reads s e m .notANumber
  | zero : e.toNat = 0 → m.toNat = 0 → Reads s e m (.zero s)
  | subnormal {x : Int} (pos : 0 < m.toNat) : e.toNat = 0 → x = -1074 →
      Reads s e m (.finite s m.toNat x pos)
  | normal {n : Nat} {x : Int} (pos : 0 < n) : e.toNat ≠ 0 → e.toNat ≠ 2047 →
      n = 2 ^ 52 + m.toNat → x = e.toNat - 1075 → Reads s e m (.finite s n x pos)

variable {s : Sign} {e : BitVec 11} {m : BitVec 52} {u u' : UnpackedFloat}

theorem Reads.unique (h : Reads s e m u) (h' : Reads s e m u') : u = u' := by
  cases h <;> cases h' <;> first | rfl | omega | (subst_vars; rfl)

theorem unpack_reads (b : BitVec 64) :
    Reads (.ofBitVec (signField b)) (exponentField b) (mantissaField b)
      (UnpackedFloat.unpack Format.binary64 b) := by
  have hbias : Format.binary64.exponentBias = 1023 := rfl
  unfold UnpackedFloat.unpack
  show Reads _ _ _ (if exponentField b = -1#11 then
    if mantissaField b = 0#52 then .infinity _ else .notANumber
    else if exponentField b = 0#11 then if h : mantissaField b = 0#52 then .zero _ else _ else _)
  split
  · rename_i hones
    have hlast : (exponentField b).toNat = 2047 := by rw [hones]; rfl
    split
    · rename_i hzero
      exact .infinity hlast (by rw [hzero]; rfl)
    · rename_i hnonzero
      exact .noNumber hlast fun h => hnonzero (BitVec.eq_of_toNat_eq h)
  · rename_i hones
    split
    · rename_i hfirst
      have hfirst : (exponentField b).toNat = 0 := by rw [hfirst]; rfl
      split
      · rename_i hzero
        exact .zero hfirst (by rw [hzero]; rfl)
      · refine .subnormal _ hfirst ?_
        show ((exponentField b).toNat : Int) - (1023 + 52) + 1 = -1074
        omega
    · rename_i hfirst
      refine .normal _ (fun h => hfirst (BitVec.eq_of_toNat_eq h))
        (fun h => hones (BitVec.eq_of_toNat_eq h)) (toNat_leading _) ?_
      show ((exponentField b).toNat : Int) - (1023 + 52) = _
      omega

theorem signField_packComponents (s : Sign) (e : BitVec 11) (m : BitVec 52) :
    Sign.ofBitVec (signField (packComponents Format.binary64 s e m)) = s := by
  simp only [signField, unpackSign, packComponents, BitVec.extractLsb]
  rw [BitVec.extractLsb'_append_eq_of_le (by omega),
    BitVec.extractLsb'_append_eq_of_le (by omega)]
  cases s <;> rfl

theorem exponentField_packComponents (s : Sign) (e : BitVec 11) (m : BitVec 52) :
    exponentField (packComponents Format.binary64 s e m) = e :=
  unpackExponent_packComponents

theorem mantissaField_packComponents (s : Sign) (e : BitVec 11) (m : BitVec 52) :
    mantissaField (packComponents Format.binary64 s e m) = m :=
  unpackMantissa_packComponents

theorem log2_leading {m : Nat} (h : m < 2 ^ 52) : (2 ^ 52 + m).log2 = 52 := by
  refine (Nat.log2_eq_iff (by omega)).mpr ⟨by omega, by omega⟩

theorem Reads.pack (h : Reads s e m u) (number : u ≠ .notANumber) :
    UnpackedFloat.pack Format.binary64 u = packComponents Format.binary64 s e m := by
  have hbias : Format.binary64.exponentBias = 1023 := rfl
  have hbits : Format.binary64.mantissaBits = 53 := rfl
  cases h with
  | infinity hlast hzero =>
    obtain rfl : e = -1#11 := BitVec.eq_of_toNat_eq hlast
    obtain rfl : m = 0#52 := BitVec.eq_of_toNat_eq hzero
    rfl
  | noNumber _ _ => exact absurd rfl number
  | zero hfirst hzero =>
    obtain rfl : e = 0#11 := BitVec.eq_of_toNat_eq hfirst
    obtain rfl : m = 0#52 := BitVec.eq_of_toNat_eq hzero
    rfl
  | subnormal pos hfirst hx =>
    obtain rfl : e = 0#11 := BitVec.eq_of_toNat_eq hfirst
    have hlog : m.toNat.log2 < 52 := (Nat.log2_lt (by omega)).mpr m.isLt
    simp only [UnpackedFloat.pack, hbias, hbits, hx]
    rw [if_neg (by simp), if_neg (by omega), BitVec.ofNat_toNat, BitVec.setWidth_eq]
  | normal _ hfirst hlast hn hx =>
    have hbiased : ((e.toNat : Int) - 1075 + 1023 + 52).toNat = e.toNat := by omega
    have hlt := e.isLt
    subst hn hx
    simp only [UnpackedFloat.pack, hbias, hbits, log2_leading m.isLt]
    simp only [Nat.cast_ofNat, hbiased]
    rw [if_neg (by omega), if_pos trivial, BitVec.ofNat_toNat, BitVec.setWidth_eq]
    have hdigits : BitVec.ofNat 52 (2 ^ 52 + m.toNat) = m :=
      BitVec.eq_of_toNat_eq (by simpa using m.isLt)
    exact congrArg _ hdigits

/-- A number is read from the pattern that it is made of. -/
theorem unpack_ofBits (b : UInt64) : (Float.ofBits b).toModel.unpack =
    UnpackedFloat.unpack Format.binary64 b.toBitVec := by
  have reads := unpack_reads b.toBitVec
  show UnpackedFloat.unpack Format.binary64
    (UnpackedFloat.pack Format.binary64 (UnpackedFloat.unpack Format.binary64 b.toBitVec)) = _
  by_cases number : UnpackedFloat.unpack Format.binary64 b.toBitVec = .notANumber
  · rw [number]
    rfl
  · rw [reads.pack number]
    refine (unpack_reads _).unique ?_
    rw [signField_packComponents, exponentField_packComponents, mantissaField_packComponents]
    exact reads

theorem exponentField_toNat (b : UInt64) :
    (exponentField b.toBitVec).toNat = b.toNat / 2 ^ 52 % 2 ^ 11 := by
  simp [exponentField, unpackExponent, Nat.shiftRight_eq_div_pow]

theorem mantissaField_toNat (b : UInt64) :
    (mantissaField b.toBitVec).toNat = b.toNat % 2 ^ 52 := by
  simp [mantissaField, unpackMantissa]

theorem signField_eq (b : UInt64) : Sign.ofBitVec (signField b.toBitVec) =
    if b.toNat / 2 ^ 63 = 0 then .positive else .negative := by
  have hlt := b.toNat_lt
  have hfield : (signField b.toBitVec).toNat = b.toNat / 2 ^ 63 := by
    have h : (signField b.toBitVec).toNat = b.toNat / 2 ^ 63 % 2 := by
      simp [signField, unpackSign, Nat.shiftRight_eq_div_pow]
    omega
  rw [Sign.ofBitVec, ← hfield]
  exact if_congr (by rw [← BitVec.toNat_inj]; rfl) rfl rfl

end Scale

def patternValue? (b : UInt64) : Option ℚ :=
  let sign : ℚ := if b.toNat / 2 ^ 63 = 0 then 1 else -1
  let exponent : ℕ := b.toNat / 2 ^ 52 % 2 ^ 11
  let mantissa : ℕ := b.toNat % 2 ^ 52
  if exponent = 2047 then none
  else if exponent = 0 then some (sign * (mantissa * 2 ^ (-1074 : ℤ)))
  else some (sign * ((2 ^ 52 + mantissa) * 2 ^ (exponent - 1075 : ℤ)))

theorem stepsPerDegree_cast : (stepsPerDegree : ℚ) = 2 ^ (1074 : ℤ) := by
  unfold stepsPerDegree
  rw [Nat.cast_pow, Nat.cast_ofNat]
  exact (zpow_natCast 2 1074).symm

theorem two_zpow_eq {x : ℤ} (least : -1074 ≤ x) :
    (2 : ℚ) ^ x = ((2 ^ (x + 1074).toNat : ℕ) : ℚ) / (stepsPerDegree : ℚ) := by
  have hx : (((x + 1074).toNat : ℕ) : ℤ) = x + 1074 := Int.toNat_of_nonneg (by omega)
  rw [stepsPerDegree_cast, Nat.cast_pow, Nat.cast_ofNat, ← zpow_natCast, hx,
    ← zpow_sub₀ two_ne_zero, add_sub_cancel_right]

theorem signed_zpow_eq {s : Sign} {sign : ℚ} (hs : ∀ n : ℕ, (s.apply n : ℚ) = sign * n) (m : ℕ)
    {x : ℤ} (least : -1074 ≤ x) :
    sign * (m * 2 ^ x) = (s.apply (m * 2 ^ (x + 1074).toNat : ℕ) : ℚ) / (stepsPerDegree : ℚ) := by
  rw [hs, two_zpow_eq least, Nat.cast_mul]
  ring

def exactValue (x : Float) : ℚ := (inSteps x : ℚ) / (stepsPerDegree : ℚ)

/-- The value of a pattern is that of the number made of it. -/
theorem patternValue?_eq (b : UInt64) : patternValue? b =
    if (Float.ofBits b).isFinite then some (exactValue (.ofBits b)) else none := by
  have reads := Scale.unpack_reads b.toBitVec
  have hfinite : (Float.ofBits b).isFinite = (Float.ofBits b).toModel.unpack.isFinite := rfl
  have hsign (n : ℕ) : ((Sign.ofBitVec (Scale.signField b.toBitVec)).apply n : ℚ) =
      (if b.toNat / 2 ^ 63 = 0 then 1 else -1) * n := by
    rw [Scale.signField_eq]
    split <;> simp [Sign.apply]
  rw [hfinite, exactValue, inSteps, Scale.unpack_ofBits, patternValue?, ← Scale.exponentField_toNat,
    ← Scale.mantissaField_toNat]
  generalize UnpackedFloat.unpack Format.binary64 b.toBitVec = u at reads ⊢
  cases reads with
  | infinity hlast hzero => simp [hlast, UnpackedFloat.isFinite]
  | noNumber hlast hnonzero => simp [hlast, UnpackedFloat.isFinite]
  | zero hfirst hzero => simp [hfirst, hzero, UnpackedFloat.isFinite, Scale.steps]
  | subnormal pos hfirst hx =>
    subst hx
    simp only [hfirst]
    exact congrArg some (signed_zpow_eq hsign _ (by omega))
  | @normal n x pos hfirst hlast hn hx =>
    have hn : (n : ℚ) = 2 ^ 52 + ((Scale.mantissaField b.toBitVec).toNat : ℚ) := by
      rw [hn]
      push_cast
      rfl
    simp only [if_neg hfirst, if_neg hlast, ← hx, ← hn]
    exact congrArg some (signed_zpow_eq hsign _ (by omega))

end HeaterLink
