import P1Server.Lib.Rounding

/-!
# Quotients of `double`s

A fraction is a pair, the dividend first.

* `Below` — the order of fractions; `Separated` — the middle of two neighbouring `double`s lies between;
* `unpack_div` — the quotient of two 32-bit numbers is next to their fraction;
* **`toFloat_div_lt`** — one quotient is below another just if their fractions are separated.
-/

namespace Lib

/-! ## Fractions -/

/-- `a < b`, as fractions. -/
def Below (a b : Nat × Nat) : Prop := a.1 * b.2 < b.1 * a.2

instance (a b : Nat × Nat) : Decidable (Below a b) := inferInstanceAs (Decidable (_ < _))

namespace Below

variable {a b c : Nat × Nat}

theorem pos (h : Below a b) : 0 < a.2 := by
  refine Nat.pos_of_ne_zero fun hz => ?_
  simp [Below, hz] at h

theorem irrefl (a : Nat × Nat) : ¬ Below a a := lt_irrefl _

theorem of_le (hpos : 0 < a.2) (h : a.1 * b.2 ≤ b.1 * a.2) (h' : Below b c) : Below a c := by
  refine Nat.lt_of_mul_lt_mul_right (a := b.2) ?_
  calc a.1 * c.2 * b.2 = a.1 * b.2 * c.2 := Nat.mul_right_comm ..
    _ ≤ b.1 * a.2 * c.2 := Nat.mul_le_mul_right _ h
    _ = b.1 * c.2 * a.2 := Nat.mul_right_comm ..
    _ < c.1 * b.2 * a.2 := Nat.mul_lt_mul_of_pos_right h' hpos
    _ = c.1 * a.2 * b.2 := Nat.mul_right_comm ..

theorem trans (h : Below a b) (h' : Below b c) : Below a c := .of_le h.pos (Nat.le_of_lt h) h'

theorem asymm (h : Below a b) : ¬ Below b a := fun h' => irrefl _ (h.trans h')

/-- What is below `c` is below what is not. -/
theorem of_not (h : Below a c) (hb : ¬ Below b c) (hpos : 0 < b.2) : Below a b := by
  refine Nat.lt_of_mul_lt_mul_right (a := c.2) ?_
  calc a.1 * b.2 * c.2 = a.1 * c.2 * b.2 := Nat.mul_right_comm ..
    _ < c.1 * a.2 * b.2 := Nat.mul_lt_mul_of_pos_right h hpos
    _ = c.1 * b.2 * a.2 := Nat.mul_right_comm ..
    _ ≤ b.1 * c.2 * a.2 := Nat.mul_le_mul_right _ (not_lt.1 hb)
    _ = b.1 * a.2 * c.2 := Nat.mul_right_comm ..

/-- The second denominator has more twos. -/
theorem two_pow {m n k d : Nat} : Below (m, 2 ^ k) (n, 2 ^ (k + d)) ↔ m * 2 ^ d < n := by
  rw [Below, Nat.pow_add, Nat.mul_comm (2 ^ k), ← Nat.mul_assoc]
  exact Nat.mul_lt_mul_right (Nat.two_pow_pos k)

end Below

/-- The middle `(2 * m + 1) / 2 ^ k` of two neighbouring numbers with mantissas of 53 bits lies between. -/
def Separated (a b : Nat × Nat) : Prop :=
  ∃ m k, 2 ^ 52 ≤ m ∧ m < 2 ^ 53 ∧ Below a (2 * m + 1, 2 ^ k) ∧ Below (2 * m + 1, 2 ^ k) b

/-- A middle has an odd numerator, which is too large to be divided out. -/
theorem odd_mul_ne {n a k : Nat} (y : Nat) (hodd : n % 2 = 1) (ha : 0 < a) (hlt : a < n) : n * y ≠ a * 2 ^ k := by
  intro h
  have hco : Nat.Coprime n (2 ^ k) := (Nat.coprime_two_right.2 (Nat.odd_iff.2 hodd)).pow_right k
  exact absurd (Nat.le_of_dvd ha (hco.dvd_of_dvd_mul_right ⟨y, h.symm⟩)) (by omega)

namespace Separated

variable {a b c : Nat × Nat}

theorem below (h : Separated a b) : Below a b := by
  obtain ⟨m, k, -, -, ha, hb⟩ := h
  exact ha.trans hb

theorem pos (h : Separated a b) : 0 < a.2 ∧ 0 < b.1 := by
  obtain ⟨m, k, -, -, ha, hb⟩ := h
  exact ⟨ha.pos, Nat.pos_of_ne_zero fun hz => by simp [Below, hz] at hb⟩

theorem not_infinity {n : Nat} : ¬ Separated (n, 0) b := fun h => absurd h.pos.1 (by simp)

theorem not_zero {n : Nat} : ¬ Separated a (0, n) := fun h => absurd h.pos.2 (by simp)

theorem irrefl (a : Nat × Nat) : ¬ Separated a a := fun h => Below.irrefl a h.below

theorem trans (h : Separated a b) (h' : Separated b c) : Separated a c := by
  obtain ⟨m, k, hm, hm', ha, hb⟩ := h
  exact ⟨m, k, hm, hm', ha, hb.trans h'.below⟩

/-- What is separated from `c` is separated from what is not. -/
theorem of_not (h : Separated a c) (hb : ¬ Separated b c) (hpos : 0 < b.2) (hlt : b.1 < 2 ^ 53) : Separated a b := by
  obtain ⟨m, k, hm, hm', ha, hc⟩ := h
  refine ⟨m, k, hm, hm', ha, ?_⟩
  have hle : (2 * m + 1) * b.2 ≤ b.1 * 2 ^ k := not_lt.1 fun hlt => hb ⟨m, k, hm, hm', hlt, hc⟩
  rcases Nat.eq_zero_or_pos b.1 with hz | hnum
  · rw [hz, Nat.zero_mul] at hle
    have := Nat.mul_pos (show 0 < 2 * m + 1 by omega) hpos
    omega
  · exact lt_of_le_of_ne hle (odd_mul_ne b.2 (by omega) hnum (by omega))

/-- Below 1 is below the last middle before 1. -/
theorem one_iff (hlt : b.2 < 2 ^ 53) : Separated b (1, 1) ↔ b.1 < b.2 := by
  constructor
  · intro h
    simpa [Below] using h.below
  · intro h
    refine ⟨2 ^ 53 - 1, 54, by decide, by decide, ?_, by decide⟩
    simp only [Below]
    omega

end Separated

/-! ## Quotients -/

/-- `m / 2 ^ k`, with a mantissa of 53 bits, is the number next to the fraction. -/
structure Near (m k : Nat) (a : Nat × Nat) : Prop where
  ge : 2 ^ 52 ≤ m
  lt : m < 2 ^ 53
  below : Below (2 * m - 1, 2 ^ (k + 1)) a
  above : Below a (2 * m + 1, 2 ^ (k + 1))
  first : m = 2 ^ 52 → Below (4 * m - 1, 2 ^ (k + 2)) a

namespace Near

variable {a b : Nat × Nat} {m n k l : Nat}

/-- A fraction below a middle is next to a number before it. -/
theorem of_below (h : Near m k a) {p q : Nat} (hp : 2 ^ 52 ≤ p) (hp' : p < 2 ^ 53)
    (ha : Below a (2 * p + 1, 2 ^ q)) : q ≤ k + 1 ∧ (q = k + 1 → m ≤ p) := by
  have hm := h.ge
  have hbelow := h.below.trans ha
  constructor
  · by_contra hlt
    obtain ⟨d, rfl⟩ : ∃ d, q = k + 2 + d := ⟨q - (k + 2), by omega⟩
    have hd := Nat.two_pow_pos d
    rcases Nat.eq_or_lt_of_le hm with rfl | hm
    · have hmul := Below.two_pow.1 ((h.first rfl).trans ha)
      have := Nat.le_mul_of_pos_right (4 * 2 ^ 52 - 1) hd
      omega
    · have hmul := Below.two_pow.1 (show Below (2 * m - 1, 2 ^ (k + 1)) (2 * p + 1, 2 ^ (k + 1 + (d + 1))) by
        rwa [show k + 1 + (d + 1) = k + 2 + d by omega])
      have := Nat.le_mul_of_pos_right ((2 * m - 1) * 2) hd
      rw [Nat.pow_succ', ← Nat.mul_assoc] at hmul
      omega
  · rintro rfl
    have := Below.two_pow (d := 0).1 hbelow
    omega

/-- A fraction above a middle is next to a number behind it. -/
theorem of_above (h : Near m k a) {p q : Nat} (hp : 2 ^ 52 ≤ p) (ha : Below (2 * p + 1, 2 ^ q) a) :
    k + 1 ≤ q ∧ (q = k + 1 → p < m) := by
  have hm := h.lt
  have habove := ha.trans h.above
  constructor
  · by_contra hlt
    obtain ⟨d, hd⟩ : ∃ d, k + 1 = q + (d + 1) := ⟨k - q, by omega⟩
    rw [hd] at habove
    have hmul := Below.two_pow.1 habove
    have := Nat.le_mul_of_pos_right ((2 * p + 1) * 2) (Nat.two_pow_pos d)
    rw [Nat.pow_succ', ← Nat.mul_assoc] at hmul
    omega
  · rintro rfl
    have := Below.two_pow (d := 0).1 habove
    omega

/-- Two fractions are separated just if the numbers next to them differ. -/
theorem separated_iff (h : Near m k a) (h' : Near n l b) : Separated a b ↔ l < k ∨ l = k ∧ m < n := by
  constructor
  · rintro ⟨p, q, hp, hp', ha, hb⟩
    obtain ⟨hk, hmp⟩ := h.of_below hp hp' ha
    obtain ⟨hl, hpn⟩ := h'.of_above hp hb
    omega
  · intro hlt
    refine ⟨m, k + 1, h.ge, h.lt, h.above, ?_⟩
    have hm := h.lt
    have hn := h'.ge
    rcases hlt with hlt | ⟨rfl, hmn⟩
    · obtain ⟨d, rfl⟩ : ∃ d, k = l + (d + 1) := ⟨k - l - 1, by omega⟩
      have hd := Nat.two_pow_pos d
      rcases Nat.eq_or_lt_of_le hn with rfl | hn
      · refine .of_le (Nat.two_pow_pos _) ?_ (h'.first rfl)
        show (2 * m + 1) * 2 ^ (l + 2) ≤ (4 * 2 ^ 52 - 1) * 2 ^ (l + (d + 1) + 1)
        rw [show l + (d + 1) + 1 = l + 2 + d by omega, Nat.pow_add 2 (l + 2) d, ← Nat.mul_assoc,
          Nat.mul_right_comm]
        refine Nat.mul_le_mul_right _ (le_trans ?_ (Nat.le_mul_of_pos_right _ hd))
        omega
      · refine .of_le (Nat.two_pow_pos _) ?_ h'.below
        show (2 * m + 1) * 2 ^ (l + 1) ≤ (2 * n - 1) * 2 ^ (l + (d + 1) + 1)
        rw [show l + (d + 1) + 1 = l + 1 + (d + 1) by omega, Nat.pow_add 2 (l + 1) (d + 1), ← Nat.mul_assoc,
          Nat.mul_right_comm]
        refine Nat.mul_le_mul_right _ ?_
        rw [Nat.pow_succ', ← Nat.mul_assoc]
        refine le_trans ?_ (Nat.le_mul_of_pos_right _ hd)
        omega
    · refine .of_le (Nat.two_pow_pos _) ?_ h'.below
      exact Nat.mul_le_mul_right _ (show 2 * m + 1 ≤ 2 * n - 1 by omega)

end Near

/-- No fraction of small numbers lies in the middle. -/
theorem Nearest.near {m k c a b : Nat} (h : Nearest m (c * (a * 2 ^ k)) (c * b)) (hc : 0 < c) (ha : 0 < a)
    (hlt : a < 2 ^ 52) : Near m k (a, b) := by
  have hge := h.ge
  have hscale : ∀ p, p * (c * b) = c * (p * b) := fun p => Nat.mul_left_comm ..
  obtain ⟨-, hm, hbelow, habove, hfirst⟩ := h
  simp only [hscale] at hbelow habove hfirst
  have hbelow' : 2 * m * b ≤ 2 * (a * 2 ^ k) + b :=
    Nat.le_of_mul_le_mul_left (by rw [Nat.mul_add, Nat.mul_left_comm c 2]; exact hbelow) hc
  have habove' : 2 * (a * 2 ^ k) ≤ 2 * m * b + b :=
    Nat.le_of_mul_le_mul_left (by rw [Nat.mul_add, Nat.mul_left_comm c 2]; exact habove) hc
  have hk : a * 2 ^ (k + 1) = 2 * (a * 2 ^ k) := by rw [Nat.pow_succ']; ring
  have hk' : a * 2 ^ (k + 2) = 4 * (a * 2 ^ k) := by rw [Nat.pow_add]; ring
  refine ⟨hge, hm, ?_, ?_, fun hfst => ?_⟩
  · refine lt_of_le_of_ne ?_ (odd_mul_ne b (by omega) ha (by omega))
    show (2 * m - 1) * b ≤ a * 2 ^ (k + 1)
    rw [Nat.sub_mul, hk]
    omega
  · refine lt_of_le_of_ne ?_ (odd_mul_ne b (by omega) ha (by omega)).symm
    show a * 2 ^ (k + 1) ≤ (2 * m + 1) * b
    rw [Nat.add_mul, hk]
    omega
  · have hfirst' : 4 * m * b ≤ 4 * (a * 2 ^ k) + b :=
      Nat.le_of_mul_le_mul_left (by rw [Nat.mul_add, Nat.mul_left_comm c 4]; exact hfirst hfst) hc
    refine lt_of_le_of_ne ?_ (odd_mul_ne b (by omega) ha (by omega))
    show (4 * m - 1) * b ≤ a * 2 ^ (k + 2)
    rw [Nat.sub_mul, hk']
    omega

open Float.Model UnpackedFloat Format

theorem divCore_eq {m₁ m₂ : Nat} {e₁ e₂ : Int} (h₁ : m₁.log2 = 52) (h₂ : m₂.log2 = 52)
    (he : -1021 ≤ e₁ - e₂) :
    divCore binary64 m₁ e₁ m₂ e₂ =
      (m₁ * 2 ^ 53 / m₂, e₁ - e₂ - 53, accuracyOfFraction (m₁ * 2 ^ 53 % m₂) m₂) := by
  have ht : min (e₁ - e₂) (binary64.targetExponent (totalExponent m₁ e₁ - totalExponent m₂ e₂)) = e₁ - e₂ - 53 := by
    rw [targetExponent_eq, totalExponent, totalExponent, h₁, h₂]
    omega
  have hsh : (e₁ - e₂ - (e₁ - e₂ - 53)).toNat = 53 := by omega
  rw [divCore, ht, hsh, Nat.shiftLeft_eq]

/-- The quotient of two mantissas has 53 or 54 bits. -/
theorem log2_div {m₁ m₂ : Nat} (h₁ : m₁.log2 = 52) (h₂ : m₂.log2 = 52) :
    ∃ j, j ≤ 1 ∧ (m₁ * 2 ^ 53 / m₂).log2 = 52 + j := by
  obtain ⟨hlo₁, hhi₁⟩ := (Nat.log2_eq_iff (pos_of_log2 (k := 0) h₁)).1 h₁
  obtain ⟨hlo₂, hhi₂⟩ := (Nat.log2_eq_iff (pos_of_log2 (k := 0) h₂)).1 h₂
  have hpos : 0 < m₂ := by omega
  have hlo : 2 ^ 52 ≤ m₁ * 2 ^ 53 / m₂ := (Nat.le_div_iff_mul_le hpos).2 (by omega)
  have hhi : m₁ * 2 ^ 53 / m₂ < 2 ^ 54 := (Nat.div_lt_iff_lt_mul hpos).2 (by omega)
  rcases Nat.lt_or_ge (m₁ * 2 ^ 53 / m₂) (2 ^ 53) with hlt | hge
  · exact ⟨0, by omega, (Nat.log2_eq_iff (by omega)).2 ⟨hlo, hlt⟩⟩
  · exact ⟨1, le_refl 1, (Nat.log2_eq_iff (by omega)).2 ⟨hge, hhi⟩⟩

/-- The quotient of two numbers is next to their fraction. -/
theorem unpack_div {a b : UInt32} (ha : a ≠ 0) (hb : b ≠ 0) : ∃ m k hp,
    (a.toFloat / b.toFloat).toModel.unpack = .finite .positive m (-(k : Nat)) hp ∧ Near m k (a.toNat, b.toNat) := by
  obtain ⟨h₁, -⟩ := ofUInt32_eq ha
  obtain ⟨h₂, -⟩ := ofUInt32_eq hb
  obtain ⟨hp₁, hu₁⟩ := unpack_toFloat ha
  obtain ⟨hp₂, hu₂⟩ := unpack_toFloat hb
  have hapos : 0 < a.toNat := Nat.pos_of_ne_zero fun hz => ha (UInt32.toNat_inj.1 hz)
  have halt : a.toNat.log2 ≤ 31 := Nat.le_of_lt_succ ((Nat.log2_lt (by omega)).2 a.toNat_lt)
  obtain ⟨j, hj, hq⟩ := log2_div h₁ h₂
  generalize hs₁ : 52 - a.toNat.log2 = s₁ at *
  generalize hs₂ : 52 - b.toNat.log2 = s₂ at *
  obtain ⟨r, i, hp, hround, -, hi, hnear⟩ := round_nearest (e := -(s₁ : Int) - -(s₂ : Int) - 53) .positive hp₂
    (stands_div (a.toNat <<< s₁ * 2 ^ 53) hp₂) hq (by omega)
  obtain ⟨k, hk⟩ : ∃ k, s₁ + 53 = i + s₂ + k := ⟨s₁ + 53 - (i + s₂), by omega⟩
  have he : -(s₁ : Int) - -(s₂ : Int) - 53 + (i : Nat) = -(k : Nat) := by omega
  have hx : a.toNat <<< s₁ * 2 ^ 53 = 2 ^ (i + s₂) * (a.toNat * 2 ^ k) := by
    calc a.toNat <<< s₁ * 2 ^ 53 = a.toNat * 2 ^ (s₁ + 53) := by rw [Nat.shiftLeft_eq, Nat.pow_add, Nat.mul_assoc]
      _ = a.toNat * (2 ^ (i + s₂) * 2 ^ k) := by rw [hk, Nat.pow_add 2 (i + s₂) k]
      _ = _ := Nat.mul_left_comm ..
  have hy : 2 ^ i * b.toNat <<< s₂ = 2 ^ (i + s₂) * b.toNat := by
    rw [Nat.shiftLeft_eq, Nat.pow_add, Nat.mul_assoc, Nat.mul_comm b.toNat]
  rw [hx, hy] at hnear
  refine ⟨r, k, hp, ?_, hnear.near (Nat.two_pow_pos _) hapos (by have := a.toNat_lt; omega)⟩
  show (Float.Model.pack (UnpackedFloat.div binary64 a.toFloat.toModel.unpack b.toFloat.toModel.unpack)).unpack = _
  rw [hu₁, hu₂, UnpackedFloat.div, divCore_eq h₁ h₂ (by omega)]
  simp only
  rw [show Sign.positive / Sign.positive = .positive from rfl, hx]
  rw [hx] at hround
  rw [hround]
  simp only [he]
  exact unpack_pack .positive hnear.ge hnear.lt (by omega) (by omega) hp

/-- What the quotient of two numbers is. -/
inductive Rounds : Nat × Nat → UnpackedFloat → Prop
  | notANumber : Rounds (0, 0) .notANumber
  | infinity {a : Nat} : 0 < a → Rounds (a, 0) (.infinity .positive)
  | zero {b : Nat} : 0 < b → Rounds (0, b) (.zero .positive)
  | finite {m k : Nat} {a : Nat × Nat} (hp : 0 < m) : Near m k a → Rounds a (.finite .positive m (-(k : Nat)) hp)

theorem rounds_div (a b : UInt32) : Rounds (a.toNat, b.toNat) (a.toFloat / b.toFloat).toModel.unpack := by
  have hzero : ∀ n : UInt32, n ≠ 0 → 0 < n.toNat := fun n hn =>
    Nat.pos_of_ne_zero fun hz => hn (UInt32.toNat_inj.1 hz)
  have hz : (0 : UInt32).toFloat.toModel.unpack = .zero .positive := by rfl
  have hpz : (Float.Model.pack (.zero .positive)).unpack = .zero .positive := by rfl
  have hpi : (Float.Model.pack (.infinity .positive)).unpack = .infinity .positive := by rfl
  have hdiv : (a.toFloat / b.toFloat).toModel.unpack =
    (Float.Model.pack (UnpackedFloat.div binary64 a.toFloat.toModel.unpack b.toFloat.toModel.unpack)).unpack := rfl
  by_cases ha : a = 0
  · subst ha
    by_cases hb : b = 0
    · subst hb
      rw [hdiv, hz]
      exact .notANumber
    · obtain ⟨hp, hu⟩ := unpack_toFloat hb
      rw [hdiv, hz, hu, UnpackedFloat.div, show Sign.positive / Sign.positive = .positive from rfl, hpz]
      exact .zero (hzero b hb)
  · by_cases hb : b = 0
    · subst hb
      obtain ⟨hp, hu⟩ := unpack_toFloat ha
      rw [hdiv, hz, hu, UnpackedFloat.div, show Sign.positive / Sign.positive = .positive from rfl, hpi]
      exact .infinity (hzero a ha)
    · obtain ⟨m, k, hp, hu, hnear⟩ := unpack_div ha hb
      rw [hu]
      exact .finite hp hnear

/-- Zero is separated from what is next to a number, and that from infinity. -/
theorem Near.separated {m k : Nat} {a : Nat × Nat} (h : Near m k a) {b c : Nat} (hb : 0 < b) (hc : 0 < c) :
    Separated (0, b) a ∧ Separated a (c, 0) := by
  have hge := h.ge
  have hmid : 0 < (2 * m + 1) * b := Nat.mul_pos (by omega) hb
  refine ⟨⟨m, k + 2, h.ge, h.lt, by simpa [Below] using hmid, .of_le (Nat.two_pow_pos _) ?_ h.below⟩,
    ⟨m, k + 1, h.ge, h.lt, h.above, by simpa [Below] using hc⟩⟩
  show (2 * m + 1) * 2 ^ (k + 1) ≤ (2 * m - 1) * 2 ^ (k + 2)
  rw [Nat.pow_succ' (n := k + 1), ← Nat.mul_assoc]
  exact Nat.mul_le_mul_right _ (by omega)

theorem Rounds.lt_iff {a b : Nat × Nat} {x y : UnpackedFloat} (h : Rounds a x) (h' : Rounds b y) :
    x.lt y = true ↔ Separated a b := by
  cases h with
  | notANumber => exact iff_of_false (by simp [UnpackedFloat.lt, UnpackedFloat.compare]) Separated.not_infinity
  | infinity ha =>
    refine iff_of_false ?_ Separated.not_infinity
    cases h' <;> simp [UnpackedFloat.lt, UnpackedFloat.compare]
  | zero hb =>
    cases h' with
    | notANumber | zero =>
      exact iff_of_false (by simp [UnpackedFloat.lt, UnpackedFloat.compare]) Separated.not_zero
    | infinity ha =>
      refine iff_of_true rfl ⟨2 ^ 52, 0, le_refl _, by decide, ?_, ?_⟩
      · simpa [Below] using hb
      · simpa [Below] using ha
    | finite hp hn => exact iff_of_true rfl (hn.separated hb Nat.one_pos).1
  | finite hp hm =>
    cases h' with
    | notANumber | zero =>
      exact iff_of_false (by simp [UnpackedFloat.lt, UnpackedFloat.compare]) Separated.not_zero
    | infinity ha => exact iff_of_true rfl (hm.separated Nat.one_pos ha).2
    | @finite n l _ hq hn =>
      rw [hm.separated_iff hn]
      simp only [UnpackedFloat.lt, UnpackedFloat.compare]
      rw [beq_iff_eq, Option.some.injEq, Ordering.then_eq_lt, Int.compare_eq_lt, Int.compare_eq_eq, Nat.compare_eq_lt]
      omega

/-- **When a quotient is below another one**: the middle of two neighbouring numbers lies between the fractions. -/
theorem toFloat_div_lt (a b c d : UInt32) :
    a.toFloat / b.toFloat < c.toFloat / d.toFloat ↔ Separated (a.toNat, b.toNat) (c.toNat, d.toNat) := by
  rw [← (rounds_div a b).lt_iff (rounds_div c d)]
  exact decide_eq_true_iff

end Lib
