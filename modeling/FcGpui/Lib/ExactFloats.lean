import Mathlib

/-!
# Floats that are not rounded

Sums and differences of `Float32` are rounded, but not those that are numbers of the format:
with `IsExactly x q` the float `x` is the number `q`, and the sum of two floats is the sum of
their numbers if that is `Representable`.

The lower 31 bits of a float are in the order of the numbers that they stand for
(`magnitude_strictMono`), so that the order of `f32::total_cmp` is that of the numbers, the
negative zero apart.

**Main results.**  `IsExactly.add`, `IsExactly.sub` and `IsExactly.totalKey_lt_iff`.
-/

open Float.Model (Format UnpackedFloat totalExponent)
open Float.Model.UnpackedFloat

namespace ExactFloats

/-! ### Bits -/

/-- The number whose bits below the sign are those of `k`. -/
def magnitude (k : ℕ) : ℚ :=
  if k < 2 ^ 23 then k * 2 ^ (-149 : ℤ) else (2 ^ 23 + k % 2 ^ 23 : ℕ) * 2 ^ ((k / 2 ^ 23 : ℕ) - 150 : ℤ)

variable {k m : ℕ} {e : ℤ} {u : UnpackedFloat} {p q : ℚ} {x y : Float32}

theorem magnitude_of_lt (h : k < 2 ^ 23) : magnitude k = k * 2 ^ (-149 : ℤ) := if_pos h

/-- A mantissa with its first bit, at any exponent. -/
theorem magnitude_of_mantissa {n : ℕ} (hlow : 2 ^ 23 ≤ m) (hhigh : m < 2 ^ 24) :
    magnitude (n * 2 ^ 23 + m) = m * 2 ^ (n - 149 : ℤ) := by
  have hdiv : (n * 2 ^ 23 + m) / 2 ^ 23 = n + 1 := by omega
  have hmod : 2 ^ 23 + (n * 2 ^ 23 + m) % 2 ^ 23 = m := by omega
  rw [magnitude, if_neg (by omega), hdiv, hmod]
  congr 2
  push_cast
  ring

@[simp]
theorem magnitude_zero : magnitude 0 = 0 := by simp [magnitude]

theorem magnitude_lt_succ (k : ℕ) : magnitude k < magnitude (k + 1) := by
  rcases Nat.lt_or_ge k (2 ^ 23) with hk | hk
  · have hpos : (0 : ℚ) < 2 ^ (-149 : ℤ) := by positivity
    have hnext : magnitude (k + 1) = (k + 1 : ℕ) * 2 ^ (-149 : ℤ) := by
      rcases Nat.lt_or_ge (k + 1) (2 ^ 23) with hk' | hk'
      · exact magnitude_of_lt hk'
      · have heq : k + 1 = 0 * 2 ^ 23 + 2 ^ 23 := by omega
        rw [heq, magnitude_of_mantissa le_rfl (by omega)]
        norm_num
    rw [magnitude_of_lt hk, hnext]
    exact mul_lt_mul_of_pos_right (by exact_mod_cast Nat.lt_succ_self k) hpos
  · obtain ⟨n, m, rfl, hm, hm'⟩ : ∃ n m, k = n * 2 ^ 23 + m ∧ 2 ^ 23 ≤ m ∧ m < 2 ^ 24 :=
      ⟨k / 2 ^ 23 - 1, k % 2 ^ 23 + 2 ^ 23, by omega, by omega, by omega⟩
    have hpos : (0 : ℚ) < 2 ^ (n - 149 : ℤ) := by positivity
    have hnext : magnitude (n * 2 ^ 23 + m + 1) = (m + 1 : ℕ) * 2 ^ (n - 149 : ℤ) := by
      rcases Nat.lt_or_ge (m + 1) (2 ^ 24) with hm₁ | hm₁
      · rw [add_assoc, magnitude_of_mantissa (by omega) hm₁]
      · have heq : n * 2 ^ 23 + m + 1 = (n + 1) * 2 ^ 23 + 2 ^ 23 := by omega
        have hm₂ : m + 1 = 2 ^ 23 * 2 := by omega
        rw [heq, magnitude_of_mantissa le_rfl (by omega), hm₂]
        have hexp : ((n + 1 : ℕ) - 149 : ℤ) = 1 + (n - 149) := by push_cast; ring
        rw [hexp, zpow_add₀ two_ne_zero]
        push_cast
        ring
    rw [magnitude_of_mantissa hm hm', hnext]
    exact mul_lt_mul_of_pos_right (by exact_mod_cast Nat.lt_succ_self m) hpos

theorem magnitude_strictMono : StrictMono magnitude := strictMono_nat_of_lt_succ magnitude_lt_succ

theorem magnitude_nonneg (k : ℕ) : 0 ≤ magnitude k := by
  rw [← magnitude_zero]
  exact magnitude_strictMono.monotone (Nat.zero_le k)

/-- The number of an unpacked float, if it is one. -/
def unpackedNumber : UnpackedFloat → Option ℚ
  | .zero _ => some 0
  | .finite s m e _ => some (s.apply m * 2 ^ e : ℚ)
  | .infinity _ => none
  | .notANumber => none

/-- The number with a sign bit, and the other bits. -/
def bitsNumber (b : ℕ) : Option ℚ :=
  if b % 2 ^ 31 < 255 * 2 ^ 23 then
    some (if b < 2 ^ 31 then magnitude (b % 2 ^ 31) else - magnitude (b % 2 ^ 31))
  else none

theorem toNat_unpackMantissa (b : BitVec 32) :
    (@unpackMantissa .binary32 b).toNat = b.toNat % 2 ^ 23 := by
  simp [unpackMantissa]

theorem toNat_unpackExponent (b : BitVec 32) :
    (@unpackExponent .binary32 b).toNat = b.toNat % 2 ^ 31 / 2 ^ 23 := by
  simp [unpackExponent, Nat.shiftRight_eq_div_pow]
  omega

theorem toNat_unpackSign (b : BitVec 32) :
    (@unpackSign .binary32 b).toNat = b.toNat / 2 ^ 31 := by
  have := b.isLt
  simp [unpackSign, Nat.shiftRight_eq_div_pow]
  omega

theorem sign_ofBitVec (b : BitVec 32) :
    Sign.ofBitVec (@unpackSign .binary32 b) = if b.toNat < 2 ^ 31 then .positive else .negative := by
  have hlt := b.isLt
  rw [Sign.ofBitVec]
  simp only [← BitVec.toNat_inj, toNat_unpackSign]
  by_cases h : b.toNat < 2 ^ 31
  · rw [if_pos h, if_pos (by simp; omega)]
  · rw [if_neg h, if_neg (by simp; omega)]

theorem apply_sign (b n : ℕ) (q : ℚ) :
    (((if b < 2 ^ 31 then Sign.positive else Sign.negative).apply n : ℤ) * q : ℚ) =
      if b < 2 ^ 31 then n * q else - (n * q) := by
  split <;> simp [Sign.apply]

theorem unpackExponent_eq_iff (b : BitVec 32) (n : ℕ) (hn : n < 256) :
    @unpackExponent .binary32 b = BitVec.ofNat 8 n ↔ b.toNat % 2 ^ 31 / 2 ^ 23 = n := by
  rw [← BitVec.toNat_inj, toNat_unpackExponent, BitVec.toNat_ofNat]
  show _ = n % 256 ↔ _
  omega

theorem unpackMantissa_eq_zero_iff (b : BitVec 32) :
    @unpackMantissa .binary32 b = 0#23 ↔ b.toNat % 2 ^ 23 = 0 := by
  rw [← BitVec.toNat_inj, toNat_unpackMantissa]
  rfl

/-- A mantissa and an exponent as the format has them. -/
structure Fits (m : ℕ) (e : ℤ) : Prop where
  lt : m < 2 ^ 24
  low : -149 ≤ e
  high : e ≤ 104
  normal : e = -149 ∨ 2 ^ 23 ≤ m

/-- What can be packed: a number that fits. -/
def Packable : UnpackedFloat → Prop
  | .finite _ m e _ => Fits m e
  | .zero _ => True
  | .infinity _ => False
  | .notANumber => False

/-- What the bits of a float stand for. -/
structure Reads (b : ℕ) (u : UnpackedFloat) : Prop where
  number : unpackedNumber u = bitsNumber b
  packable : (bitsNumber b).isSome → Packable u
  negZero : u = .zero .negative → b = 2 ^ 31

theorem unpack_reads (b : BitVec 32) : Reads b.toNat (UnpackedFloat.unpack Format.binary32 b) := by
  have hlt := b.isLt
  have hmantissa := toNat_unpackMantissa b
  have hexponent := toNat_unpackExponent b
  rw [UnpackedFloat.unpack]
  simp only [sign_ofBitVec]
  by_cases hones : b.toNat % 2 ^ 31 / 2 ^ 23 = 255
  · have hinfinite : @unpackExponent .binary32 b = -1#8 := (unpackExponent_eq_iff b 255 (by omega)).mpr hones
    have hnone : bitsNumber b.toNat = none := if_neg (by omega)
    rw [if_pos hinfinite]
    split
    · exact ⟨hnone.symm, by simp [hnone], by simp⟩
    · exact ⟨hnone.symm, by simp [hnone], by simp⟩
  · have hfinite : @unpackExponent .binary32 b ≠ -1#8 :=
      mt (unpackExponent_eq_iff b 255 (by omega)).mp hones
    have hnumber : bitsNumber b.toNat =
        some (if b.toNat < 2 ^ 31 then magnitude (b.toNat % 2 ^ 31) else - magnitude (b.toNat % 2 ^ 31)) :=
      if_pos (by omega)
    rw [if_neg hfinite]
    by_cases hsmall : b.toNat % 2 ^ 31 / 2 ^ 23 = 0
    · have hlow : b.toNat % 2 ^ 31 < 2 ^ 23 := by omega
      have hsame : b.toNat % 2 ^ 23 = b.toNat % 2 ^ 31 := by omega
      rw [magnitude_of_lt hlow] at hnumber
      rw [if_pos ((unpackExponent_eq_iff b 0 (by omega)).mpr hsmall)]
      by_cases hzero : b.toNat % 2 ^ 31 = 0
      · rw [dif_pos ((unpackMantissa_eq_zero_iff b).mpr (hsame.trans hzero))]
        refine ⟨?_, fun _ => trivial, fun hneg => ?_⟩
        · rw [hnumber, hzero]
          simp [unpackedNumber]
        · have hsign : ¬ b.toNat < 2 ^ 31 := by
            intro hpos
            rw [if_pos hpos] at hneg
            exact absurd hneg (by simp)
          omega
      · have hexp : ((@unpackExponent .binary32 b).toNat : ℤ)
            - (Format.binary32.exponentBias + Format.binary32.mantissaBitsWithoutImplicit) + 1 = -149 := by
          rw [hexponent, hsmall]
          rfl
        rw [dif_neg (mt (unpackMantissa_eq_zero_iff b).mp (hsame ▸ hzero))]
        refine ⟨?_, fun _ => ?_, by simp⟩
        · rw [hnumber, unpackedNumber, hexp, hmantissa, hsame, apply_sign]
        · rw [Packable, hexp, hmantissa]
          exact ⟨by omega, le_rfl, by omega, Or.inl rfl⟩
    · have hmant : (1#1 ++ @unpackMantissa .binary32 b).toNat = 2 ^ 23 + b.toNat % 2 ^ 23 := by
        rw [BitVec.toNat_append, ← Nat.shiftLeft_add_eq_or_of_lt (BitVec.isLt _), hmantissa]
        rfl
      have hexp : ((@unpackExponent .binary32 b).toNat : ℤ)
            - (Format.binary32.exponentBias + Format.binary32.mantissaBitsWithoutImplicit)
          = (b.toNat % 2 ^ 31 / 2 ^ 23 : ℕ) - 150 := by
        rw [hexponent]
        rfl
      have hnormal : ¬ b.toNat % 2 ^ 31 < 2 ^ 23 := by omega
      have hsame : b.toNat % 2 ^ 31 % 2 ^ 23 = b.toNat % 2 ^ 23 := by omega
      rw [if_neg (mt (unpackExponent_eq_iff b 0 (by omega)).mp hsmall)]
      refine ⟨?_, fun _ => ?_, by simp⟩
      · rw [hnumber, unpackedNumber, hexp, hmant, apply_sign, magnitude, if_neg hnormal, hsame]
      · rw [Packable, hexp, hmant]
        exact ⟨by omega, by omega, by omega, Or.inr (by omega)⟩

theorem toNat_packComponents (s : Sign) (e m : ℕ) (he : e < 256) :
    (packComponents Format.binary32 s (BitVec.ofNat 8 e) (BitVec.ofNat 23 m)).toNat =
      s.toBitVec.toNat * 2 ^ 31 + e * 2 ^ 23 + m % 2 ^ 23 := by
  show (s.toBitVec ++ BitVec.ofNat 8 e ++ BitVec.ofNat 23 m).toNat = _
  rw [BitVec.toNat_append, BitVec.toNat_append, ← Nat.shiftLeft_add_eq_or_of_lt (BitVec.isLt _),
    ← Nat.shiftLeft_add_eq_or_of_lt (BitVec.isLt _), BitVec.toNat_ofNat, BitVec.toNat_ofNat, Nat.shiftLeft_eq,
    Nat.shiftLeft_eq]
  omega

theorem log2_add_one_eq_iff (h : 0 < m) (hlt : m < 2 ^ 24) : m.log2 + 1 = 24 ↔ 2 ^ 23 ≤ m := by
  rw [← Nat.le_log2 h.ne']
  have := (Nat.log2_lt h.ne').mpr hlt
  omega

/-- The bits that a number is packed into. -/
theorem toNat_pack (s : Sign) (hm : 0 < m) (h : Fits m e) :
    (pack Format.binary32 (.finite s m e hm)).toNat =
      s.toBitVec.toNat * 2 ^ 31 + ((e + 149).toNat * 2 ^ 23 + m) := by
  have hlow := h.low
  have hhigh := h.high
  have hlt := h.lt
  obtain ⟨n, rfl⟩ : ∃ n : ℕ, e = n - 149 := ⟨(e + 149).toNat, by omega⟩
  have hbias : ((n : ℤ) - 149 + Format.binary32.exponentBias + Format.binary32.mantissaBitsWithoutImplicit).toNat
      = n + 1 := by
    show ((n : ℤ) - 149 + 127 + 23).toNat = n + 1
    omega
  have hroom : ¬ 2 ^ Format.binary32.exponentBits ≤ n + 1 + 1 := by
    show ¬ 256 ≤ n + 1 + 1
    omega
  have hall : Format.binary32.mantissaBits = 24 := rfl
  rw [pack]
  simp only [hbias, if_neg hroom, hall]
  have hexp : ((n : ℤ) - 149 + 149).toNat = n := by omega
  rw [hexp]
  by_cases hbits : m.log2 + 1 = 24
  · have hfirst := (log2_add_one_eq_iff hm hlt).mp hbits
    rw [if_pos hbits]
    refine (toNat_packComponents s (n + 1) m (by omega)).trans ?_
    omega
  · have hfirst := mt (log2_add_one_eq_iff hm hlt).mpr hbits
    have hn : n = 0 := by
      rcases h.normal with he | hnormal
      · omega
      · exact absurd hnormal hfirst
    rw [if_neg hbits]
    refine (toNat_packComponents s 0 m (by omega)).trans ?_
    omega

theorem magnitude_of_fits (h : Fits m e) : magnitude ((e + 149).toNat * 2 ^ 23 + m) = m * 2 ^ e := by
  have hlow := h.low
  obtain ⟨n, rfl⟩ : ∃ n : ℕ, e = n - 149 := ⟨(e + 149).toNat, by omega⟩
  have hexp : ((n : ℤ) - 149 + 149).toNat = n := by omega
  rw [hexp]
  rcases Nat.lt_or_ge m (2 ^ 23) with hsmall | hnormal
  · have hn : n = 0 := by
      rcases h.normal with he | hnormal
      · omega
      · omega
    rw [hn, Nat.zero_mul, Nat.zero_add, magnitude_of_lt hsmall]
    rfl
  · exact magnitude_of_mantissa hnormal h.lt

/-! ### Rounding -/

/-- Two ways to write a number have their first bit at the same place. -/
theorem log2_add_eq {f : ℤ} (hm : 0 < m) (hk : 0 < k) (h : (m * 2 ^ e : ℚ) = k * 2 ^ f) :
    (m.log2 : ℤ) + e = k.log2 + f := by
  have hfirst : ∀ {n : ℕ} {g : ℤ}, 0 < n → (2 : ℚ) ^ ((n.log2 : ℤ) + g) ≤ n * 2 ^ g ∧
      (n * 2 ^ g : ℚ) < 2 ^ ((n.log2 : ℤ) + g + 1) := by
    intro n g hn
    have hpos : (0 : ℚ) < 2 ^ g := by positivity
    have hle : ((2 ^ n.log2 : ℕ) : ℚ) ≤ n := by exact_mod_cast Nat.log2_self_le hn.ne'
    have hlt : (n : ℚ) < ((2 ^ (n.log2 + 1) : ℕ) : ℚ) := by exact_mod_cast Nat.lt_log2_self
    constructor
    · rw [zpow_add₀ two_ne_zero, zpow_natCast]
      exact mul_le_mul_of_nonneg_right (by exact_mod_cast hle) hpos.le
    · rw [add_right_comm, zpow_add₀ two_ne_zero, ← Nat.cast_succ, zpow_natCast]
      exact mul_lt_mul_of_pos_right (by exact_mod_cast hlt) hpos
  obtain ⟨hmle, hmlt⟩ := hfirst (g := e) hm
  obtain ⟨hkle, hklt⟩ := hfirst (g := f) hk
  have htwo : (1 : ℚ) < 2 := one_lt_two
  have h₁ := (zpow_lt_zpow_iff_right₀ htwo).mp (hmle.trans_lt (h ▸ hklt))
  have h₂ := (zpow_lt_zpow_iff_right₀ htwo).mp (hkle.trans_lt (h ▸ hmlt))
  omega

theorem shiftRight_mul (m j : ℕ) :
    (⟨m * 2 ^ j, false, false⟩ : ExtendedMantissa) >>> j = ⟨m, false, false⟩ := by
  show Nat.repeat ExtendedMantissa.shiftRightOne j ⟨m * 2 ^ j, false, false⟩ = _
  induction j generalizing m with
  | zero => simp [Nat.repeat]
  | succ j ih =>
    have hsplit : m * 2 ^ (j + 1) = m * 2 * 2 ^ j := by ring
    rw [Nat.repeat, hsplit, ih, ExtendedMantissa.shiftRightOne]
    simp

/-- The exponent that the format has for a number. -/
theorem targetExponent_eq (m : ℕ) (e : ℤ) :
    Format.binary32.targetExponent (totalExponent m e) = max ((m.log2 : ℤ) + e - 23) (-149) := by
  show max ((m.log2 : ℤ) + 1 + e - 24) (-149) = _
  omega

theorem shiftToTargetExponent_mul {t : ℤ} (hm : 0 < m) (hle : e ≤ t)
    (ht : t = max ((m.log2 : ℤ) + t - 23) (-149)) :
    shiftToTargetExponent Format.binary32 (m * 2 ^ (t - e).toNat) e .exact = (⟨m, false, false⟩, t) := by
  have hlog : ((m * 2 ^ (t - e).toNat).log2 : ℤ) + e = m.log2 + t := by
    refine log2_add_eq (by positivity) hm ?_
    push_cast
    rw [mul_assoc, ← zpow_natCast, ← zpow_add₀ two_ne_zero]
    congr 2
    omega
  have htarget : Format.binary32.targetExponent (totalExponent (m * 2 ^ (t - e).toNat) e) = t := by
    rw [targetExponent_eq, hlog]
    exact ht.symm
  rw [shiftToTargetExponent, htarget, shiftToExponent]
  refine Prod.ext ?_ ?_
  · exact shiftRight_mul m (t - e).toNat
  · show e + ((t - e).toNat : ℤ) = t
    omega

/-- **What fits is not rounded.** -/
theorem round_exact (s : Sign) {f : ℤ} (hm : 0 < m) (hk : k < 2 ^ 24) (hlow : -149 ≤ f) (hhigh : f ≤ 104)
    (heq : (m * 2 ^ e : ℚ) = k * 2 ^ f) :
    ∃ m' e' hm', UnpackedFloat.round Format.binary32 s m e = .finite s m' e' hm' ∧
      Fits m' e' ∧ (m' * 2 ^ e' : ℚ) = m * 2 ^ e := by
  have hkpos : 0 < k := by
    rcases Nat.eq_zero_or_pos k with rfl | hpos
    · have : (0 : ℚ) < m * 2 ^ e := by positivity
      rw [heq] at this
      simp at this
    · exact hpos
  have hlog := log2_add_eq hm hkpos heq
  have hlogk := (Nat.log2_lt hkpos.ne').mpr hk
  obtain ⟨t, ht⟩ : ∃ t, t = max ((m.log2 : ℤ) + e - 23) (-149) := ⟨_, rfl⟩
  obtain ⟨j, hj⟩ : ∃ j : ℕ, f = t + j := ⟨(f - t).toNat, by omega⟩
  have hvalue : ((k * 2 ^ j : ℕ) * 2 ^ t : ℚ) = m * 2 ^ e := by
    rw [heq, hj, zpow_add₀ two_ne_zero]
    push_cast
    rw [zpow_natCast]
    ring
  have hpos : 0 < k * 2 ^ j := by positivity
  have hlog' := log2_add_eq hpos hm hvalue
  have htarget : t = max (((k * 2 ^ j).log2 : ℤ) + t - 23) (-149) := by rw [hlog', ← ht]
  refine ⟨k * 2 ^ j, t, hpos, ?_, ?_, hvalue⟩
  · -- the exponent is decreased to the target, or the mantissa shifted to it
    obtain ⟨e₁, he₁⟩ : ∃ e₁, e₁ = e - (e - t).toNat := ⟨_, rfl⟩
    have hdecreased : decreaseExponent m e t = (k * 2 ^ j * 2 ^ (t - e₁).toNat, e₁) := by
      refine Prod.ext ?_ he₁.symm
      show m <<< (e - t).toNat = k * 2 ^ j * 2 ^ (t - e₁).toNat
      rw [Nat.shiftLeft_eq]
      have hcast : ((m * 2 ^ (e - t).toNat : ℕ) * 2 ^ e₁ : ℚ) = (k * 2 ^ j * 2 ^ (t - e₁).toNat : ℕ) * 2 ^ e₁ := by
        rw [Nat.cast_mul, Nat.cast_mul, mul_assoc, mul_assoc, Nat.cast_pow, Nat.cast_pow, Nat.cast_ofNat,
          ← zpow_natCast, ← zpow_natCast, ← zpow_add₀ two_ne_zero, ← zpow_add₀ two_ne_zero]
        have h₁ : ((e - t).toNat : ℤ) + e₁ = e := by omega
        have h₂ : ((t - e₁).toNat : ℤ) + e₁ = t := by omega
        rw [h₁, h₂, hvalue]
      have hne : (2 : ℚ) ^ e₁ ≠ 0 := by positivity
      exact_mod_cast mul_right_cancel₀ hne hcast
    have hle : e₁ ≤ t := by omega
    have hagain := shiftToTargetExponent_mul hpos (le_refl t) htarget
    rw [sub_self, Int.toNat_zero, pow_zero, mul_one] at hagain
    have hround : (⟨k * 2 ^ j, false, false⟩ : ExtendedMantissa).roundedMantissa = k * 2 ^ j := rfl
    rw [UnpackedFloat.round, targetExponent_eq, ← ht, hdecreased]
    simp only [roundWithAccuracy, shiftToTargetExponent_mul hpos hle htarget, hround, hagain, dif_neg hpos.ne']
  · refine ⟨?_, by omega, by omega, ?_⟩
    · exact (Nat.log2_lt hpos.ne').mp (by omega)
    · rcases le_or_gt t (-149) with hle | hgt
      · exact Or.inl (by omega)
      · exact Or.inr ((Nat.le_log2 hpos.ne').mp (by omega))

/-! ### Packing -/

/-- What is packed is read again as the same number. -/
theorem bitsNumber_pack (h : Packable u) :
    bitsNumber (UnpackedFloat.pack Format.binary32 u).toNat = unpackedNumber u := by
  cases u with
  | infinity s => cases h
  | notANumber => cases h
  | zero s =>
    have hbits : (UnpackedFloat.pack Format.binary32 (.zero s)).toNat = s.toBitVec.toNat * 2 ^ 31 := by
      cases s <;> rfl
    rw [hbits, bitsNumber, Nat.mul_mod_left, if_pos (by omega)]
    simp [unpackedNumber]
  | finite s m e hm =>
    have hfits : Fits m e := h
    have hlow := hfits.low
    have hhigh := hfits.high
    have hlt := hfits.lt
    obtain ⟨k, hk⟩ : ∃ k, k = (e + 149).toNat * 2 ^ 23 + m := ⟨_, rfl⟩
    have hrange : k < 255 * 2 ^ 23 := by omega
    have hmod : (s.toBitVec.toNat * 2 ^ 31 + k) % 2 ^ 31 = k := by omega
    rw [toNat_pack s hm hfits, ← hk, bitsNumber, hmod, if_pos hrange, hk, magnitude_of_fits hfits, ← hk]
    cases s with
    | positive =>
      rw [if_pos (show Sign.positive.toBitVec.toNat * 2 ^ 31 + k < 2 ^ 31 by show 0 * 2 ^ 31 + k < 2 ^ 31; omega)]
      rfl
    | negative =>
      rw [if_neg (show ¬ Sign.negative.toBitVec.toNat * 2 ^ 31 + k < 2 ^ 31 by show ¬ 1 * 2 ^ 31 + k < 2 ^ 31; omega)]
      simp [unpackedNumber, Sign.apply]

/-- The only way to get the bits of the negative zero. -/
theorem toNat_pack_ne (h : Packable u) (hu : u ≠ .zero .negative) :
    (UnpackedFloat.pack Format.binary32 u).toNat ≠ 2 ^ 31 := by
  cases u with
  | infinity s => cases h
  | notANumber => cases h
  | zero s =>
    cases s with
    | positive => decide
    | negative => exact absurd rfl hu
  | finite s m e hm =>
    rw [toNat_pack s hm h]
    have hfits : Fits m e := h
    have hlow := hfits.low
    have hhigh := hfits.high
    have hlt := hfits.lt
    cases s with
    | positive => show 0 * 2 ^ 31 + _ ≠ _; omega
    | negative => show 1 * 2 ^ 31 + _ ≠ _; omega

/-! ### Sums and differences -/

/-- The numbers of the format: 24 bits at an exponent of the format. -/
def Representable (q : ℚ) : Prop := ∃ n e : ℤ, |n| < 2 ^ 24 ∧ -149 ≤ e ∧ e ≤ 104 ∧ q = n * 2 ^ e

theorem representable_int {n : ℤ} (h : |n| < 2 ^ 24) : Representable n := ⟨n, 0, h, by omega, by omega, by simp⟩

theorem representable_nat {n : ℕ} (h : n < 2 ^ 24) : Representable n := by
  have hint : |(n : ℤ)| < 2 ^ 24 := by
    rw [Int.abs_eq_natAbs]
    omega
  exact_mod_cast representable_int hint

/-- An unpacked float that is a number as it is packed, and no negative zero. -/
structure Holds (u : UnpackedFloat) (q : ℚ) : Prop where
  number : unpackedNumber u = some q
  packable : Packable u
  ne_negZero : u ≠ .zero .negative

theorem abs_apply (s : Sign) (m : ℕ) : |(s.apply m : ℚ)| = m := by
  cases s <;> simp [Sign.apply]

theorem holds_round (s : Sign) (hm : 0 < m) (h : Representable (s.apply m * 2 ^ e)) :
    Holds (UnpackedFloat.round Format.binary32 s m e) (s.apply m * 2 ^ e) := by
  obtain ⟨n, f, hn, hlow, hhigh, heq⟩ := h
  have habs : (m * 2 ^ e : ℚ) = n.natAbs * 2 ^ f := by
    have hsize := congrArg (fun x : ℚ => |x|) heq
    rwa [abs_mul, abs_mul, abs_apply, abs_of_pos (by positivity : (0 : ℚ) < 2 ^ e),
      abs_of_pos (by positivity : (0 : ℚ) < 2 ^ f), ← Int.cast_abs, Int.abs_eq_natAbs, Int.cast_natCast] at hsize
  have hn' : n.natAbs < 2 ^ 24 := by
    rw [Int.abs_eq_natAbs] at hn
    omega
  obtain ⟨m', e', hm', hround, hfits, hvalue⟩ := round_exact s hm hn' hlow hhigh habs
  rw [hround]
  refine ⟨?_, hfits, by simp⟩
  rw [unpackedNumber]
  cases s with
  | positive => simpa [Sign.apply] using hvalue
  | negative => simpa [Sign.apply] using hvalue

theorem holds_normalize {n : ℤ} (h : Representable (n * 2 ^ e)) :
    Holds (UnpackedFloat.normalize Format.binary32 n e .positive) (n * 2 ^ e) := by
  rw [UnpackedFloat.normalize]
  rcases lt_trichotomy n 0 with hneg | rfl | hpos
  · have hn : Sign.negative.apply ((-n).toNat : ℤ) = n := by
      show -((-n).toNat : ℤ) = n
      omega
    have hround := holds_round .negative (m := (-n).toNat) (e := e) (by omega) (by rwa [hn])
    rw [compare_lt_iff_lt.mpr hneg]
    rwa [hn] at hround
  · rw [compare_eq_iff_eq.mpr rfl]
    exact ⟨by simp [unpackedNumber], trivial, by simp⟩
  · have hn : Sign.positive.apply (n.toNat : ℤ) = n := by
      show (n.toNat : ℤ) = n
      omega
    have hround := holds_round .positive (m := n.toNat) (e := e) (by omega) (by rwa [hn])
    rw [compare_gt_iff_gt.mpr hpos]
    rwa [hn] at hround

theorem apply_decreaseExponent (s : Sign) (m : ℕ) {t : ℤ} (h : t ≤ e) :
    ((s.apply (decreaseExponent m e t).1 : ℤ) * 2 ^ t : ℚ) = s.apply m * 2 ^ e := by
  have hvalue : (((decreaseExponent m e t).1 : ℕ) * 2 ^ t : ℚ) = m * 2 ^ e := by
    rw [decreaseExponent, Nat.shiftLeft_eq, Nat.cast_mul, Nat.cast_pow, Nat.cast_ofNat, mul_assoc, ← zpow_natCast,
      ← zpow_add₀ two_ne_zero]
    congr 2
    omega
  cases s <;> simp [Sign.apply, hvalue]

theorem apply_neg (s : Sign) (m : ℕ) : (((-s).apply m : ℤ) : ℚ) = -((s.apply m : ℤ) : ℚ) := by
  cases s with
  | positive => exact Int.cast_neg _
  | negative => exact (neg_neg (m : ℚ)).symm.trans (by rw [← Int.cast_natCast, ← Int.cast_neg]; rfl)

theorem posZero_ne : UnpackedFloat.zero .positive ≠ .zero .negative := by simp

/-- **A sum that the format has is exact.** -/
theorem holds_add {v : UnpackedFloat} (hu : Holds u p) (hv : unpackedNumber v = some q) (hv' : Packable v)
    (h : Representable (p + q)) : Holds (UnpackedFloat.add Format.binary32 u v) (p + q) := by
  obtain ⟨hu, hu', hne⟩ := hu
  cases u with
  | infinity s => cases hu
  | notANumber => cases hu
  | zero s =>
    cases s with
    | negative => exact absurd rfl hne
    | positive =>
      cases hu
      rw [zero_add] at h ⊢
      cases v with
      | infinity s' => cases hv
      | notANumber => cases hv
      | zero s' =>
        cases hv
        cases s' <;> exact ⟨rfl, trivial, posZero_ne⟩
      | finite s' m' e' hm' => exact ⟨hv, hv', by simp [UnpackedFloat.add]⟩
  | finite s m e hm =>
    cases hu
    cases v with
    | infinity s' => cases hv
    | notANumber => cases hv
    | zero s' =>
      cases hv
      rw [add_zero]
      exact ⟨rfl, hu', by simp [UnpackedFloat.add]⟩
    | finite s' m' e' hm' =>
      cases hv
      have hvalue := congrArg₂ (· + ·) (apply_decreaseExponent s m (min_le_left e e'))
        (apply_decreaseExponent s' m' (min_le_right e e'))
      simp only [← add_mul, ← Int.cast_add] at hvalue
      rw [← hvalue] at h ⊢
      exact holds_normalize h

theorem sub_eq (u v : UnpackedFloat) :
    UnpackedFloat.sub Format.binary32 u v = UnpackedFloat.add Format.binary32 u v.neg := by
  cases u with
  | finite s m e hm =>
    cases v with
    | finite s' m' e' hm' =>
      cases s' with
      | positive => rfl
      | negative => exact congrArg (normalize _ · _ _) (sub_neg_eq_add _ _)
    | _ => rfl
  | _ => cases v <;> rfl

theorem unpackedNumber_neg {v : UnpackedFloat} {q : ℚ} (hv : unpackedNumber v = some q) :
    unpackedNumber v.neg = some (-q) := by
  cases v with
  | infinity s => cases hv
  | notANumber => cases hv
  | zero s =>
    cases hv
    rw [neg_zero]
    rfl
  | finite s m e hm =>
    cases hv
    rw [UnpackedFloat.neg, unpackedNumber, apply_neg, neg_mul]

theorem packable_neg {v : UnpackedFloat} (hv : Packable v) : Packable v.neg := by
  cases v <;> exact hv

/-- **A difference that the format has is exact.** -/
theorem holds_sub {u v : UnpackedFloat} {p q : ℚ} (hu : Holds u p) (hv : unpackedNumber v = some q) (hv' : Packable v)
    (h : Representable (p - q)) : Holds (UnpackedFloat.sub Format.binary32 u v) (p - q) := by
  rw [sub_eq, sub_eq_add_neg]
  rw [sub_eq_add_neg] at h
  exact holds_add hu (unpackedNumber_neg hv) (packable_neg hv') h

/-! ### Floats -/

/-- The number that a float stands for. -/
def number (x : Float32) : Option ℚ := unpackedNumber x.toModel.unpack

/-- A float that is a number, and not the negative zero. -/
structure IsExactly (x : Float32) (q : ℚ) : Prop where
  number : number x = some q
  ne_negZero : x.toBits.toNat ≠ 2 ^ 31

theorem reads (x : Float32) : Reads x.toBits.toNat x.toModel.unpack := unpack_reads x.toBits.toBitVec

theorem packable_of_number (h : number x = some q) : Packable x.toModel.unpack := by
  refine (reads x).packable ?_
  rw [← (reads x).number]
  exact Option.isSome_iff_exists.mpr ⟨q, h⟩

theorem IsExactly.holds (h : IsExactly x q) : Holds x.toModel.unpack q :=
  ⟨h.number, packable_of_number h.number, mt (reads x).negZero h.ne_negZero⟩

theorem Holds.pack (h : Holds u q) : IsExactly (.ofModel (.pack u)) q := by
  have hbits : (Float32.ofModel (.pack u)).toBits.toNat = (UnpackedFloat.pack Format.binary32 u).toNat := rfl
  refine ⟨?_, ?_⟩
  · rw [ExactFloats.number, (reads _).number, hbits, bitsNumber_pack h.packable]
    exact h.number
  · rw [hbits]
    exact toNat_pack_ne h.packable h.ne_negZero

/-- **Exact sums.** -/
theorem IsExactly.add (hx : IsExactly x p) (hy : ExactFloats.number y = some q)
    (h : Representable (p + q)) : IsExactly (x + y) (p + q) :=
  (holds_add hx.holds hy (packable_of_number hy) h).pack

/-- **Exact differences.** -/
theorem IsExactly.sub (hx : IsExactly x p) (hy : ExactFloats.number y = some q)
    (h : Representable (p - q)) : IsExactly (x - y) (p - q) :=
  (holds_sub hx.holds hy (packable_of_number hy) h).pack

/-! ### The order of the bits -/

/-- The place of a float in the order of `f32::total_cmp`. -/
def totalKey (x : Float32) : ℤ := if x.toBits.toNat < 2 ^ 31 then x.toBits.toNat else 2 ^ 31 - 1 - x.toBits.toNat

theorem totalKey_injective : Function.Injective totalKey := by
  intro x y h
  have hbits : x.toBits.toNat = y.toBits.toNat := by
    simp only [totalKey] at h
    split at h <;> split at h <;> omega
  obtain ⟨⟨bits, hvalid⟩⟩ := x
  obtain ⟨⟨bits', hvalid'⟩⟩ := y
  obtain rfl : bits = bits' := UInt32.toNat_inj.mp hbits
  rfl

/-- The number and the place of a float, by its bits without the sign. -/
theorem IsExactly.cases (h : IsExactly x q) :
    (∃ k : ℕ, q = magnitude k ∧ totalKey x = k) ∨ ∃ k : ℕ, 0 < k ∧ q = - magnitude k ∧ totalKey x = -1 - k := by
  have hnumber := (reads x).number.symm.trans h.number
  have hlt : x.toBits.toNat < 2 ^ 32 := x.toBits.toNat_lt
  have hne := h.ne_negZero
  rw [bitsNumber] at hnumber
  split at hnumber
  · cases hnumber
    rw [totalKey]
    split
    · rename_i hpos
      exact Or.inl ⟨_, by rw [Nat.mod_eq_of_lt hpos], rfl⟩
    · exact Or.inr ⟨x.toBits.toNat % 2 ^ 31, by omega, rfl, by omega⟩
  · cases hnumber

/-- **The order is that of the numbers.** -/
theorem IsExactly.totalKey_lt_iff (hx : IsExactly x p) (hy : IsExactly y q) :
    totalKey x < totalKey y ↔ p < q := by
  have hmag := magnitude_strictMono
  have hpos : ∀ {k : ℕ}, 0 < k → 0 < magnitude k := fun hk => magnitude_zero ▸ hmag hk
  rcases hx.cases with ⟨k, rfl, hkey⟩ | ⟨k, hk, rfl, hkey⟩ <;>
    rcases hy.cases with ⟨l, rfl, hkey'⟩ | ⟨l, hl, rfl, hkey'⟩
  · rw [hkey, hkey', hmag.lt_iff_lt]
    omega
  · have h₁ := magnitude_nonneg k
    have h₂ := hpos hl
    exact iff_of_false (by omega) (by linarith)
  · have h₁ := magnitude_nonneg l
    have h₂ := hpos hk
    exact iff_of_true (by omega) (by linarith)
  · rw [hkey, hkey', neg_lt_neg_iff, hmag.lt_iff_lt]
    omega

end ExactFloats
