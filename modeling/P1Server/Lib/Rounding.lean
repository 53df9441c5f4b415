import Mathlib

/-!
# Rounding to a `double`

`Float` is `double`; what it computes is in `Float.Model`. A positive number that is not too small is unpacked to a
mantissa of 53 bits and an exponent.

* `unpack_pack` — it is the same after packing and unpacking;
* `Stands` — an exact value, as a mantissa and the bits that say what is cut off stand for it;
* `round_nearest` — rounding makes one of 53 bits that is nearest to the value;
* `unpack_toFloat` — a 32-bit number is exact; `toFloat_mul_one` — and `* 1.0` changes nothing.
-/

namespace Lib
open Float.Model UnpackedFloat Format

/-! ## Packing -/

/-- A number with a mantissa of 53 bits is the same after packing. -/
theorem unpack_pack {m : Nat} {e : Int} (s : Sign) (hm : 2 ^ 52 ≤ m) (hm' : m < 2 ^ 53) (he : -1074 ≤ e)
    (he' : e ≤ 971) (hp : 0 < m) : (Float.Model.pack (.finite s m e hp)).unpack = .finite s m e hp := by
  have hlog : m.log2 = 52 := (Nat.log2_eq_iff (by omega)).2 ⟨hm, hm'⟩
  obtain ⟨n, hn⟩ : ∃ n : Nat, e + 1075 = n := ⟨(e + 1075).toNat, by omega⟩
  have hpack : UnpackedFloat.pack binary64 (.finite s m e hp) =
      packComponents binary64 s (BitVec.ofNat 11 n) (BitVec.ofNat 52 m) := by
    simp only [UnpackedFloat.pack, exponentBias, mantissaBits, hlog]
    have hbias : (e + ((2 ^ (11 - 1) - 1 : Nat) : Int) + ((52 : Nat) : Int)).toNat = n := by
      rw [show ((2 ^ (11 - 1) - 1 : Nat) : Int) = 1023 from rfl]
      omega
    simp only [hbias, if_neg (show ¬ 2 ^ 11 ≤ n + 1 by omega), if_true]
  have hn11 : (BitVec.ofNat 11 n).toNat = n := by
    rw [BitVec.toNat_ofNat, Nat.mod_eq_of_lt (by omega)]
  have hn0 : BitVec.ofNat 11 n ≠ 0#11 := fun h => by
    have := congrArg BitVec.toNat h
    rw [hn11] at this
    simp at this
    omega
  have hn1 : BitVec.ofNat 11 n ≠ -1#11 := fun h => by
    have := congrArg BitVec.toNat h
    rw [hn11] at this
    simp at this
    omega
  have hmant : (1#1 ++ BitVec.ofNat 52 m).toNat = m := by
    rw [BitVec.toNat_append, BitVec.toNat_ofNat, BitVec.toNat_ofNat,
      ← Nat.shiftLeft_add_eq_or_of_lt (Nat.mod_lt _ (by decide))]
    omega
  have hexp : (n : Int) - (((2 ^ (11 - 1) - 1 : Nat) : Int) + ((52 : Nat) : Int)) = e := by
    rw [show ((2 ^ (11 - 1) - 1 : Nat) : Int) = 1023 from rfl]
    omega
  show UnpackedFloat.unpack binary64 (UnpackedFloat.pack binary64 (.finite s m e hp)) = _
  simp only [hpack, UnpackedFloat.unpack, unpackExponent_packComponents, unpackMantissa_packComponents,
    unpackSign_packComponents, exponentBias, Sign.ofBitVec_toBitVec, hn0, hn1, if_false, hn11,
    hexp, hmant]

/-! ## What is cut off -/

variable {em : ExtendedMantissa} {x y : Nat}

/-- What the residual bits say of the rest `r`, in units of `y`. -/
def Rest (y r : Nat) : Bool → Bool → Prop
  | false, false => r = 0
  | false, true => 0 < r ∧ 2 * r < y
  | true, false => 2 * r = y
  | true, true => y < 2 * r ∧ r < y

/-- The mantissa and its residual bits stand for `x / y`. -/
def Stands (em : ExtendedMantissa) (x y : Nat) : Prop :=
  ∃ r, x = em.mantissa * y + r ∧ Rest y r em.roundBit em.stickyBit

theorem stands_div (x : Nat) {y : Nat} (hy : 0 < y) :
    Stands (.ofMantissaAndAccuracy (x / y) (accuracyOfFraction (x % y) y)) x y := by
  have hr := Nat.mod_lt x hy
  have hx : x = x / y * y + x % y := (Nat.div_add_mod' x y).symm
  unfold accuracyOfFraction
  by_cases hz : x % y = 0
  · rw [if_pos hz]
    exact ⟨_, hx, hz⟩
  rw [if_neg hz]
  rcases Nat.lt_trichotomy (2 * (x % y)) y with h | h | h
  · rw [Nat.compare_eq_lt.2 h]
    exact ⟨_, hx, by omega, h⟩
  · rw [Nat.compare_eq_eq.2 h]
    exact ⟨_, hx, h⟩
  · rw [Nat.compare_eq_gt.2 h]
    exact ⟨_, hx, h, hr⟩

theorem stands_exact (m : Nat) {y : Nat} : Stands (.ofMantissaAndAccuracy m .exact) (m * y) y :=
  ⟨0, rfl, rfl⟩

theorem Stands.shiftRightOne (hy : 0 < y) (h : Stands em x y) : Stands em.shiftRightOne x (2 * y) := by
  obtain ⟨m, b, c⟩ := em
  obtain ⟨r, hx, hr⟩ := h
  refine ⟨m % 2 * y + r, ?_, ?_⟩
  · calc x = (m / 2 * 2 + m % 2) * y + r := by rw [Nat.div_add_mod']; exact hx
      _ = m / 2 * (2 * y) + (m % 2 * y + r) := by ring
  · change Rest (2 * y) (m % 2 * y + r) (m % 2 != 0) (b || c)
    change Rest y r b c at hr
    rcases Nat.mod_two_eq_zero_or_one m with hm | hm <;> rw [hm] <;> cases b <;> cases c <;>
      simp only [Rest, bne, Nat.reduceBEq, Bool.not_true, Bool.not_false, Bool.or_false, Bool.or_true] at hr ⊢ <;>
      omega

theorem Stands.shiftRight (hy : 0 < y) (h : Stands em x y) : ∀ k, Stands (em >>> k) x (2 ^ k * y)
  | 0 => by rwa [Nat.pow_zero, Nat.one_mul]
  | k + 1 => by
    rw [Nat.pow_succ', Nat.mul_assoc]
    exact (h.shiftRight hy k).shiftRightOne (Nat.mul_pos (Nat.two_pow_pos k) hy)

/-- What it stands for is rounded to a nearest number. -/
theorem Stands.rounded (h : Stands em x y) :
    2 * em.roundedMantissa * y ≤ 2 * x + y ∧ 2 * x ≤ 2 * em.roundedMantissa * y + y ∧
      em.mantissa ≤ em.roundedMantissa ∧ em.roundedMantissa ≤ em.mantissa + 1 := by
  obtain ⟨m, b, c⟩ := em
  obtain ⟨r, hx, hr⟩ := h
  change Rest y r b c at hr
  change x = m * y + r at hx
  obtain ⟨i, hi, hround, hlo, hhi⟩ : ∃ i, i ≤ 1 ∧
      (⟨m, b, c⟩ : ExtendedMantissa).roundedMantissa = m + i ∧
      2 * (i * y) ≤ 2 * r + y ∧ 2 * r ≤ 2 * (i * y) + y := by
    cases b <;> cases c <;> simp only [Rest] at hr
    · exact ⟨0, by omega, rfl, by omega, by omega⟩
    · exact ⟨0, by omega, rfl, by omega, by omega⟩
    · refine ⟨m % 2, by omega, rfl, ?_⟩
      rcases Nat.mod_two_eq_zero_or_one m with hm | hm <;> rw [hm] <;> omega
    · exact ⟨1, by omega, rfl, by omega, by omega⟩
  have he : 2 * (m + i) * y = 2 * (m * y) + 2 * (i * y) := by ring
  rw [hround, he, hx]
  show _ ∧ _ ∧ m ≤ m + i ∧ m + i ≤ m + 1
  omega

theorem Stands.mantissa_le (h : Stands em x y) : em.mantissa * y ≤ x := by
  obtain ⟨r, hx, -⟩ := h
  omega

/-! ## Rounding -/

/-- `m` is a mantissa of 53 bits, and `m * y` is nearest to `x`; at the first of them, the one before it is closer. -/
structure Nearest (m x y : Nat) : Prop where
  ge : 2 ^ 52 ≤ m
  lt : m < 2 ^ 53
  below : 2 * m * y ≤ 2 * x + y
  above : 2 * x ≤ 2 * m * y + y
  first : m = 2 ^ 52 → 4 * m * y ≤ 4 * x + y

theorem mantissa_ofMantissaAndAccuracy (m : Nat) (acc : Accuracy) :
    (ExtendedMantissa.ofMantissaAndAccuracy m acc).mantissa = m := by
  unfold ExtendedMantissa.ofMantissaAndAccuracy
  split <;> rfl

theorem targetExponent_eq (t : Int) : binary64.targetExponent t = max (t - 53) (-1074) := rfl

theorem shiftToTargetExponent_eq {m j : Nat} {e : Int} (acc : Accuracy) (hlog : m.log2 = 52 + j)
    (he : -1074 ≤ e + j) :
    shiftToTargetExponent binary64 m e acc = (ExtendedMantissa.ofMantissaAndAccuracy m acc >>> j, e + j) := by
  have ht : binary64.targetExponent (totalExponent m e) = e + j := by
    rw [targetExponent_eq, totalExponent, hlog]
    omega
  have hk : (e + j - e).toNat = j := by omega
  rw [shiftToTargetExponent, ht, shiftToExponent, hk]

theorem mantissa_shiftRight (em : ExtendedMantissa) : ∀ k : Nat, (em >>> k).mantissa = em.mantissa / 2 ^ k
  | 0 => by rw [Nat.pow_zero, Nat.div_one]; rfl
  | k + 1 => by
    rw [Nat.pow_succ, ← Nat.div_div_eq_div_mul, ← mantissa_shiftRight em k]
    rfl

theorem pos_of_log2 {m k : Nat} (h : m.log2 = 52 + k) : m ≠ 0 := by
  rintro rfl
  rw [Nat.log2_zero] at h
  omega

/-- The second shift of `roundWithAccuracy`: the rounded mantissa may have one bit too many. -/
theorem roundWithAccuracy_eq {m j r i : Nat} {e : Int} {acc : Accuracy} (s : Sign) (hlog : m.log2 = 52 + j)
    (he : -1074 ≤ e + j) (hround : (ExtendedMantissa.ofMantissaAndAccuracy m acc >>> j).roundedMantissa = r)
    (hr : r.log2 = 52 + i) :
    ∃ hp, roundWithAccuracy binary64 s m e acc = .finite s (r / 2 ^ i) (e + j + i) hp := by
  have hpos : 0 < r / 2 ^ i := by
    have hb := ((Nat.log2_eq_iff (pos_of_log2 hr)).1 hr).1
    exact Nat.div_pos (le_trans (Nat.pow_le_pow_right (by decide) (by omega)) hb) (Nat.two_pow_pos i)
  refine ⟨hpos, ?_⟩
  have hsh := shiftToTargetExponent_eq (e := e + j) .exact hr (by omega)
  rw [roundWithAccuracy, shiftToTargetExponent_eq acc hlog he]
  simp only [hround, hsh, mantissa_shiftRight, mantissa_ofMantissaAndAccuracy]
  rw [dif_neg (Nat.ne_of_gt hpos)]

/-- **Rounding makes a nearest mantissa of 53 bits.** -/
theorem round_nearest {m j : Nat} {e : Int} {acc : Accuracy} (s : Sign) (hy : 0 < y)
    (h : Stands (.ofMantissaAndAccuracy m acc) x y) (hlog : m.log2 = 52 + j) (he : -1074 ≤ e + j) :
    ∃ r i, ∃ hp, roundWithAccuracy binary64 s m e acc = .finite s r (e + (i : Nat)) hp ∧ j ≤ i ∧ i ≤ j + 1 ∧
      Nearest r x (2 ^ i * y) := by
  have hs := h.shiftRight hy j
  obtain ⟨hm, hm'⟩ := (Nat.log2_eq_iff (pos_of_log2 hlog)).1 hlog
  have hsm : (ExtendedMantissa.ofMantissaAndAccuracy m acc >>> j).mantissa = m / 2 ^ j := by
    rw [mantissa_shiftRight, mantissa_ofMantissaAndAccuracy]
  obtain ⟨hbelow, habove, hge, hle⟩ := hs.rounded
  have hfloor := hs.mantissa_le
  have hlo : 2 ^ 52 ≤ m / 2 ^ j := (Nat.le_div_iff_mul_le (Nat.two_pow_pos j)).2 (by rwa [← Nat.pow_add])
  have hhi : m / 2 ^ j < 2 ^ 53 := (Nat.div_lt_iff_lt_mul (Nat.two_pow_pos j)).2 (by
    rw [← Nat.pow_add]; exact lt_of_lt_of_eq hm' (by congr 1; omega))
  rw [hsm] at hge hle hfloor
  have hfirst : 2 ^ 52 * (2 ^ j * y) ≤ x := le_trans (Nat.mul_le_mul_right _ hlo) hfloor
  generalize hR : (ExtendedMantissa.ofMantissaAndAccuracy m acc >>> j).roundedMantissa = r at hbelow habove hge hle
  rcases Nat.lt_or_ge r (2 ^ 53) with hlt | hge'
  · have hr : r.log2 = 52 + 0 := (Nat.log2_eq_iff (by omega)).2 ⟨by omega, hlt⟩
    obtain ⟨hp, hround⟩ := roundWithAccuracy_eq s hlog he hR hr
    refine ⟨r / 2 ^ 0, j, hp, by rw [hround]; simp, le_refl j, by omega, ?_⟩
    rw [Nat.pow_zero, Nat.div_one]
    refine ⟨by omega, hlt, hbelow, habove, ?_⟩
    rintro rfl
    omega
  · -- All 53 bits were ones, and the rounding carried.
    obtain rfl : r = 2 ^ 53 := by omega
    obtain ⟨hp, hround⟩ := roundWithAccuracy_eq (i := 1) s hlog he hR rfl
    refine ⟨2 ^ 53 / 2 ^ 1, j + 1, hp, by rw [hround]; congr 1; omega, by omega, le_refl _, ?_⟩
    have hy' : 2 ^ (j + 1) * y = 2 * (2 ^ j * y) := by rw [Nat.pow_succ']; ring
    rw [hy']
    refine ⟨by decide, by decide, ?_, ?_, fun _ => ?_⟩ <;> omega

/-! ## 32-bit numbers -/

theorem decreaseExponent_eq {n : Nat} (hlog : n.log2 ≤ 52) :
    decreaseExponent n 0 (binary64.targetExponent (totalExponent n 0)) =
      (n <<< (52 - n.log2), -((52 - n.log2 : Nat) : Int)) := by
  have ht : binary64.targetExponent (totalExponent n 0) = -((52 - n.log2 : Nat) : Int) := by
    rw [targetExponent_eq, totalExponent]
    omega
  rw [decreaseExponent, ht]
  simp

theorem log2_shiftLeft {n j : Nat} (hn : n ≠ 0) : (n <<< j).log2 = n.log2 + j := by
  obtain ⟨hlo, hhi⟩ := (Nat.log2_eq_iff hn).1 rfl
  have hpos := Nat.mul_pos (Nat.pos_of_ne_zero hn) (Nat.two_pow_pos j)
  rw [Nat.shiftLeft_eq, Nat.log2_eq_iff (Nat.ne_of_gt hpos)]
  constructor
  · rw [Nat.pow_add]
    exact Nat.mul_le_mul_right _ hlo
  · rw [Nat.add_right_comm, Nat.pow_add]
    exact Nat.mul_lt_mul_of_pos_right hhi (Nat.two_pow_pos j)

/-- A mantissa of 53 bits is kept as it is. -/
theorem roundWithAccuracy_exact {m : Nat} {e : Int} (s : Sign) (hlog : m.log2 = 52) (he : -1074 ≤ e) :
    ∃ hp, roundWithAccuracy binary64 s m e .exact = .finite s m e hp := by
  obtain ⟨hp, h⟩ : ∃ hp, roundWithAccuracy binary64 s m e .exact =
      .finite s (m / 2 ^ 0) (e + (0 : Nat) + (0 : Nat)) hp :=
    roundWithAccuracy_eq s hlog (by omega) rfl hlog
  simp only [Nat.pow_zero, Nat.div_one, Int.natCast_zero, Int.add_zero] at h hp
  exact ⟨hp, h⟩

theorem log2_le {n : Nat} (h : n < 2 ^ 53) : n.log2 ≤ 52 := by
  rcases Nat.eq_zero_or_pos n with rfl | hn
  · decide
  · exact Nat.le_of_lt_succ ((Nat.log2_lt (by omega)).2 h)

/-- A 32-bit number needs no rounding: it is shifted until it has 53 bits. -/
theorem ofUInt32_eq {n : UInt32} (hn : n ≠ 0) : (n.toNat <<< (52 - n.toNat.log2)).log2 = 52 ∧ ∃ hp,
    UnpackedFloat.ofUInt32 binary64 n =
      .finite .positive (n.toNat <<< (52 - n.toNat.log2)) (-((52 - n.toNat.log2 : Nat) : Int)) hp := by
  have hpos : n.toNat ≠ 0 := fun hz => hn (UInt32.toNat_inj.1 hz)
  have hlog := log2_le (n := n.toNat) (by have := n.toNat_lt; omega)
  have hshift : (n.toNat <<< (52 - n.toNat.log2)).log2 = 52 := by
    rw [log2_shiftLeft hpos]
    omega
  obtain ⟨hp, hr⟩ := roundWithAccuracy_exact (e := -((52 - n.toNat.log2 : Nat) : Int)) .positive hshift (by omega)
  refine ⟨hshift, hp, ?_⟩
  rw [UnpackedFloat.ofUInt32, UnpackedFloat.ofNat, UnpackedFloat.ofInt, UnpackedFloat.normalize,
    show compare (n.toNat : Int) 0 = .gt from Int.compare_eq_gt.2 (by omega)]
  simp only [Int.toNat_natCast, UnpackedFloat.round, decreaseExponent_eq hlog]
  exact hr

theorem unpack_toFloat {n : UInt32} (hn : n ≠ 0) : ∃ hp, n.toFloat.toModel.unpack =
    .finite .positive (n.toNat <<< (52 - n.toNat.log2)) (-((52 - n.toNat.log2 : Nat) : Int)) hp := by
  obtain ⟨hlog, hp, hof⟩ := ofUInt32_eq hn
  obtain ⟨hlo, hhi⟩ := (Nat.log2_eq_iff (Nat.ne_of_gt hp)).1 hlog
  refine ⟨hp, ?_⟩
  show (Float.Model.pack (UnpackedFloat.ofUInt32 binary64 n)).unpack = _
  rw [hof, unpack_pack .positive hlo hhi (by omega) (by omega) hp]

/-- `* 1.0` changes nothing. -/
theorem toFloat_mul_one (n : UInt32) : n.toFloat * 1.0 = n.toFloat := by
  by_cases hn : n = 0
  · subst hn
    decide +kernel
  obtain ⟨hlog, hp, hof⟩ := ofUInt32_eq hn
  obtain ⟨hp₁, hu⟩ := unpack_toFloat hn
  have hone : (1.0 : Float) = (1 : UInt32).toFloat := by decide +kernel
  obtain ⟨hp₂, hu₁⟩ := unpack_toFloat (show (1 : UInt32) ≠ 0 by decide)
  have hd : (1 : UInt32).toNat <<< (52 - (1 : UInt32).toNat.log2) = 2 ^ 52 := by decide
  have he₁ : -((52 - (1 : UInt32).toNat.log2 : Nat) : Int) = -52 := by decide
  generalize hm : n.toNat <<< (52 - n.toNat.log2) = m at *
  generalize he : (-((52 - n.toNat.log2 : Nat) : Int)) = e at *
  have he' : -52 ≤ e := by omega
  have hlog' : (m * 2 ^ 52).log2 = 52 + 52 := by
    rw [← Nat.shiftLeft_eq, log2_shiftLeft (Nat.ne_of_gt hp), hlog]
  have hround : (ExtendedMantissa.ofMantissaAndAccuracy (m * 2 ^ 52) .exact >>> 52).roundedMantissa = m := by
    obtain ⟨hlo, hhi, -⟩ := ((stands_exact (m * 2 ^ 52) (y := 1)).shiftRight Nat.one_pos 52).rounded
    omega
  obtain ⟨hp₃, hr⟩ := roundWithAccuracy_eq (e := e + -52) .positive hlog' (by omega) hround (i := 0) (by omega)
  rw [hone]
  show Float.ofModel (Float.Model.pack (UnpackedFloat.mul binary64 n.toFloat.toModel.unpack
    (1 : UInt32).toFloat.toModel.unpack)) = Float.ofModel (Float.Model.pack (UnpackedFloat.ofUInt32 binary64 n))
  rw [hu, hu₁, hof, UnpackedFloat.mul]
  simp only [hd, he₁]
  rw [show Sign.positive * Sign.positive = .positive from rfl, hr]
  simp

end Lib
