import CurveCalc.Proofs.Rounding

/-!
# The nearest magnitude

Magnitudes lie on the scale of their values one after the other, and the distance to the next one is
the power of two that the significand is scaled by (`value_succ`). A number between two neighbours
is rounded to the nearer, and to the even one halfway between them (`nearestTo_eq_nearer`). That is
the definition of rounding to nearest, ties to even, over all finite magnitudes
(`isNearest_iff_eq_nearer`).

Products and sums of finite magnitudes are the exact ones, rounded once.
-/

namespace CurveCalc

namespace Binary64

variable {m k : ℕ} {q : ℚ}

/-! ## Neighbours -/

/-- The next magnitude has the next significand, unless that has a bit too many. -/
theorem succ_cases (m : ℕ) :
    exponent (m + 1) = exponent m ∧ significand (m + 1) = significand m + 1 ∨
      exponent (m + 1) = exponent m + 1 ∧ significand (m + 1) = 2 ^ 52 ∧
        significand m + 1 = 2 ^ 53 := by
  rcases Nat.lt_or_ge (m + 1) leadingBit with hsub | hnormal
  · left
    simp only [exponent, significand, if_pos hsub, if_pos (Nat.lt_of_succ_lt hsub), and_self]
  · rcases Nat.lt_or_ge m leadingBit with hlast | hnormal'
    · left
      simp only [exponent, significand, if_neg (Nat.not_lt.mpr hnormal), if_pos hlast]
      rw [leadingBit] at *
      omega
    · simp only [exponent, significand, if_neg (Nat.not_lt.mpr hnormal),
        if_neg (Nat.not_lt.mpr hnormal')]
      rw [leadingBit] at *
      omega

/-- **The step to the next magnitude** is one unit of the significand. -/
theorem value_succ (m : ℕ) : value (m + 1) = value m + 2 ^ exponent m := by
  rcases succ_cases m with ⟨hexp, hsig⟩ | ⟨hexp, hsig, hfull⟩
  · rw [value, value, hexp, hsig]
    push_cast
    ring
  · have hfull' : (significand m : ℚ) + 1 = 2 ^ 53 := by exact_mod_cast hfull
    rw [value, value, hexp, hsig, zpow_add_one₀ two_ne_zero, ← add_one_mul, hfull']
    push_cast
    ring

theorem value_succ_le (m : ℕ) : value (m + 1) ≤ 2 ^ (exponent m + 53) := by
  have hsig : (significand m : ℚ) + 1 ≤ 2 ^ (53 : ℕ) := by exact_mod_cast significand_lt m
  rw [value_succ, value, ← add_one_mul, add_comm (exponent m), zpow_add₀ two_ne_zero]
  exact mul_le_mul_of_nonneg_right hsig (zpow_pos two_pos _).le

theorem value_strictMono : StrictMono value := by
  refine strictMono_nat_of_lt_succ fun m ↦ ?_
  rw [value_succ]
  exact lt_add_of_pos_right _ (zpow_pos two_pos _)

@[simp] theorem value_zero : value 0 = 0 := by
  simp [value, significand, leadingBit]

theorem value_nonneg (m : ℕ) : 0 ≤ value m :=
  mul_nonneg (Nat.cast_nonneg _) (zpow_pos two_pos _).le

theorem eq_zero_of_value_le (h : value m ≤ 0) : m = 0 :=
  Nat.le_zero.mp (value_strictMono.le_iff_le.mp (h.trans_eq value_zero.symm))

theorem value_infinityMagnitude : value infinityMagnitude = 2 ^ (1024 : ℤ) := by
  have hsig : significand infinityMagnitude = 2 ^ 52 := by decide
  have hexp : exponent infinityMagnitude = 972 := by decide
  rw [value, hsig, hexp, Nat.cast_pow, Nat.cast_two, ← zpow_natCast, ← zpow_add₀ two_ne_zero]
  rfl

theorem exists_neighbours (hq : 0 ≤ q) {n : ℕ} (h : q < value n) :
    ∃ m < n, value m ≤ q ∧ q < value (m + 1) := by
  induction n with
  | zero =>
    rw [value_zero] at h
    exact absurd h (not_lt.mpr hq)
  | succ n ih =>
    rcases lt_or_ge q (value n) with hlt | hge
    · obtain ⟨m, hm, hbetween⟩ := ih hlt
      exact ⟨m, Nat.lt_succ_of_lt hm, hbetween⟩
    · exact ⟨n, Nat.lt_succ_self n, hge, h⟩

/-- The number halfway from a magnitude to the next. -/
def halfway (m : ℕ) : ℚ := (value m + value (m + 1)) / 2

theorem halfway_eq (m : ℕ) : halfway m = (significand m + 1 / 2) * 2 ^ exponent m := by
  rw [halfway, value_succ, value]
  ring

theorem value_lt_halfway (m : ℕ) : value m < halfway m := by
  have := value_strictMono (Nat.lt_succ_self m)
  rw [halfway]
  linarith

theorem halfway_lt_value_succ (m : ℕ) : halfway m < value (m + 1) := by
  have := value_strictMono (Nat.lt_succ_self m)
  rw [halfway]
  linarith

/-- Of a magnitude and the next one, the one nearer to a number, and the even one halfway. -/
def nearer (q : ℚ) (m : ℕ) : ℕ :=
  if q < halfway m then m else if halfway m < q then m + 1 else m + m % 2

theorem nearer_of_lt (h : q < halfway m) : nearer q m = m := if_pos h

theorem nearer_of_gt (h : halfway m < q) : nearer q m = m + 1 := by
  rw [nearer, if_neg (not_lt.mpr h.le), if_pos h]

theorem nearer_halfway (m : ℕ) : nearer (halfway m) m = m + m % 2 := by
  rw [nearer, if_neg (lt_irrefl _), if_neg (lt_irrefl _)]

theorem nearer_eq_or (q : ℚ) (m : ℕ) : nearer q m = m ∨ nearer q m = m + 1 := by
  rw [nearer]
  split
  · exact Or.inl rfl
  · split
    · exact Or.inr rfl
    · omega

/-! ## Rounding between neighbours -/

theorem roundHalfEven_of_between {num den n : ℕ} (hden : 0 < den) (hlo : (n : ℚ) ≤ num / den)
    (hhi : (num : ℚ) / den < n + 1) :
    roundHalfEven num den =
      if (num : ℚ) / den < n + 1 / 2 then n
      else if (n : ℚ) + 1 / 2 < num / den then n + 1 else n + n % 2 := by
  have hpos : (0 : ℚ) < den := Nat.cast_pos.mpr hden
  have hlo' : n * den ≤ num := by exact_mod_cast (le_div_iff₀ hpos).mp hlo
  have hhi' : num < (n + 1) * den := by exact_mod_cast (div_lt_iff₀ hpos).mp hhi
  have hdiv : num / den = n := Nat.div_eq_of_lt_le hlo' hhi'
  have hmod : num = den * n + num % den := by rw [← hdiv, Nat.div_add_mod]
  have hquot : (num : ℚ) / den = n + (num % den : ℕ) / den := by
    rw [div_eq_iff hpos.ne', add_mul, div_mul_cancel₀ _ hpos.ne', mul_comm (n : ℚ)]
    exact_mod_cast hmod
  -- what is left over is compared with half of the denominator
  have hlt : (num : ℚ) / den < n + 1 / 2 ↔ 2 * (num % den) < den := by
    rw [hquot, add_lt_add_iff_left, div_lt_div_iff₀ hpos two_pos, one_mul, mul_comm]
    exact_mod_cast Iff.rfl
  have hgt : (n : ℚ) + 1 / 2 < num / den ↔ den < 2 * (num % den) := by
    rw [hquot, add_lt_add_iff_left, div_lt_div_iff₀ two_pos hpos, one_mul, mul_comm]
    exact_mod_cast Iff.rfl
  simp only [roundHalfEven, hdiv, hlt, hgt]

theorem gridExponent_of_between {num den : ℕ} (hnum : 0 < num) (hden : 0 < den)
    (hlo : value m ≤ num / den) (hhi : (num : ℚ) / den < value (m + 1)) :
    gridExponent num den = exponent m := by
  have hq : (0 : ℚ) < num / den := div_pos (Nat.cast_pos.mpr hnum) (Nat.cast_pos.mpr hden)
  rw [gridExponent, floorLog2_eq_log hnum hden]
  by_cases hsub : m < leadingBit
  · have hexp : exponent m = -1074 := if_pos hsub
    have hsig : (significand m : ℚ) + 1 ≤ 2 ^ (52 : ℕ) := by
      rw [significand, if_pos hsub]
      exact_mod_cast hsub
    have hlt : (num : ℚ) / den < 2 ^ (-1022 : ℤ) := by
      refine lt_of_lt_of_le hhi ?_
      rw [value_succ, value, ← add_one_mul, hexp, show (-1022 : ℤ) = 52 + -1074 from rfl,
        zpow_add₀ two_ne_zero]
      exact mul_le_mul_of_nonneg_right hsig (zpow_pos two_pos _).le
    have hlog := (Int.lt_zpow_iff_log_lt (b := 2) Nat.one_lt_two hq).mp hlt
    rw [hexp]
    exact if_pos (by omega)
  · have hlt := lt_of_lt_of_le hhi (value_succ_le m)
    rw [show exponent m + 53 = exponent m + 52 + 1 by omega] at hlt
    have hlog := log_eq_of_zpow_le ((le_value (Nat.not_lt.mp hsub)).trans hlo) hlt
    have hge := exponent_ge m
    rw [hlog, add_sub_cancel_right]
    exact if_neg (by omega)

theorem nearestMagnitude_eq_nearer {num den : ℕ} (hden : 0 < den) (hm : m < infinityMagnitude)
    (hlo : value m ≤ num / den) (hhi : (num : ℚ) / den < value (m + 1)) :
    nearestMagnitude num den = nearer (num / den) m := by
  rcases Nat.eq_zero_or_pos num with rfl | hnum
  · rw [Nat.cast_zero, zero_div] at hlo ⊢
    obtain rfl := eq_zero_of_value_le hlo
    have hlt := value_lt_halfway 0
    rw [value_zero] at hlt
    rw [nearer_of_lt hlt, nearestMagnitude, if_pos rfl]
  · have hgrid := gridExponent_of_between hnum hden hlo hhi
    generalize hq : (num : ℚ) / den = q at hlo hhi ⊢
    -- on the grid of `m` the quotient lies between its significand and the next integer
    have hpos : (0 : ℚ) < 2 ^ exponent m := zpow_pos two_pos _
    have hscale : ((num * Nat.pow 2 (-exponent m).toNat : ℕ) : ℚ) /
        ((den * Nat.pow 2 (exponent m).toNat : ℕ) : ℚ) = q / 2 ^ exponent m := by
      rw [scale_eq_div 2 num den, hq, Nat.cast_two]
    have hround := @roundHalfEven_of_between (num * Nat.pow 2 (-exponent m).toNat)
      (den * Nat.pow 2 (exponent m).toNat) (significand m)
      (Nat.mul_pos hden (Nat.two_pow_pos _))
      (by rwa [hscale, le_div_iff₀ hpos])
      (by rwa [hscale, div_lt_iff₀ hpos, add_one_mul, ← value, ← value_succ])
    rw [hscale] at hround
    simp only [div_lt_iff₀ hpos, lt_div_iff₀ hpos, ← halfway_eq] at hround
    have hsplit := exponent_significand m
    have hparity : significand m % 2 = m % 2 := by
      rw [leadingBit] at hsplit
      omega
    rw [nearestMagnitude, if_neg hnum.ne']
    simp only [hgrid, hround, hparity]
    -- exponent and significand are put together, and a carry goes into the exponent
    have hjoin : (exponent m + 1074).toNat * leadingBit +
        (if q < halfway m then significand m
          else if halfway m < q then significand m + 1 else significand m + m % 2) =
        nearer q m := by
      rw [nearer]
      split
      · exact hsplit
      · split <;> omega
    rw [hjoin]
    have hle : nearer q m ≤ infinityMagnitude := by
      rcases nearer_eq_or q m with h | h <;> omega
    split <;> omega

/-! ## The nearest magnitude to a number -/

/-- The magnitude nearest to a number that is not negative, ties to even. -/
def nearestTo (q : ℚ) : ℕ := nearestMagnitude q.num.toNat q.den

theorem num_toNat_div_den (hq : 0 ≤ q) : (q.num.toNat : ℚ) / q.den = q := by
  have hnum : ((q.num.toNat : ℕ) : ℚ) = q.num := by
    exact_mod_cast Int.toNat_of_nonneg (Rat.num_nonneg.mpr hq)
  rw [hnum, Rat.num_div_den]

theorem nearestMagnitude_eq_nearestTo {num den : ℕ} (hden : 0 < den) :
    nearestMagnitude num den = nearestTo (num / den) := by
  refine nearestMagnitude_congr hden (Rat.den_pos _) (num_toNat_div_den ?_).symm
  exact div_nonneg (Nat.cast_nonneg _) (Nat.cast_nonneg _)

/-- **Between two neighbours the nearer one is taken.** -/
theorem nearestTo_eq_nearer (hm : m < infinityMagnitude) (hlo : value m ≤ q)
    (hhi : q < value (m + 1)) : nearestTo q = nearer q m := by
  have hq := num_toNat_div_den ((value_nonneg m).trans hlo)
  rw [nearestTo, nearestMagnitude_eq_nearer (Rat.den_pos q) hm (by rwa [hq]) (by rwa [hq]), hq]

theorem nearestTo_of_le (h : (2 : ℚ) ^ (1024 : ℤ) ≤ q) : nearestTo q = infinityMagnitude := by
  refine nearestMagnitude_of_le (Rat.den_pos q) ?_
  rwa [num_toNat_div_den ((zpow_pos two_pos _).le.trans h)]

theorem nearestTo_eq_zero (hq : 0 ≤ q) (h : q ≤ 2 ^ (-1075 : ℤ)) : nearestTo q = 0 := by
  refine nearestMagnitude_eq_zero (Rat.den_pos q) ?_
  rwa [num_toNat_div_den hq]

@[simp] theorem nearestTo_zero : nearestTo 0 = 0 :=
  nearestTo_eq_zero le_rfl (zpow_pos two_pos _).le

theorem nearestTo_value (h : m ≤ infinityMagnitude) : nearestTo (value m) = m := by
  rcases Nat.lt_or_eq_of_le h with hlt | rfl
  · rw [nearestTo_eq_nearer hlt le_rfl (value_strictMono (Nat.lt_succ_self m)),
      nearer_of_lt (value_lt_halfway m)]
  · exact nearestTo_of_le value_infinityMagnitude.ge

/-- The upper neighbour may be reached. -/
theorem nearestTo_eq_nearer_of_le (hm : m < infinityMagnitude) (hlo : value m ≤ q)
    (hhi : q ≤ value (m + 1)) : nearestTo q = nearer q m := by
  rcases lt_or_eq_of_le hhi with hlt | rfl
  · exact nearestTo_eq_nearer hm hlo hlt
  · rw [nearestTo_value hm, nearer_of_gt (halfway_lt_value_succ m)]

theorem le_nearestTo (hm : m ≤ infinityMagnitude) (h : value m ≤ q) : m ≤ nearestTo q := by
  rcases lt_or_ge q (value infinityMagnitude) with hlt | hge
  · obtain ⟨k, hk, hlo, hhi⟩ := exists_neighbours ((value_nonneg m).trans h) hlt
    have hmk : m < k + 1 := value_strictMono.lt_iff_lt.mp (lt_of_le_of_lt h hhi)
    rw [nearestTo_eq_nearer hk hlo hhi]
    rcases nearer_eq_or q k with heq | heq <;> omega
  · rw [nearestTo_of_le (value_infinityMagnitude.ge.trans hge)]
    exact hm

theorem nearestTo_le (hq : 0 ≤ q) (hm : m ≤ infinityMagnitude) (h : q ≤ value m) :
    nearestTo q ≤ m := by
  rcases lt_or_eq_of_le h with hlt | rfl
  · obtain ⟨k, hk, hlo, hhi⟩ := exists_neighbours hq hlt
    rw [nearestTo_eq_nearer (Nat.lt_of_lt_of_le hk hm) hlo hhi]
    rcases nearer_eq_or q k with heq | heq <;> omega
  · exact (nearestTo_value hm).le

/-! ## Nearest, ties to even -/

/-- A finite magnitude is the nearest to a number, ties to even: none is nearer, and if another one
is as near, this is the even one. -/
structure IsNearest (q : ℚ) (m : ℕ) : Prop where
  finite : m < infinityMagnitude
  le_abs : ∀ k < infinityMagnitude, |q - value m| ≤ |q - value k|
  even : ∀ k < infinityMagnitude, k ≠ m → |q - value k| = |q - value m| → Even m

theorem abs_sub_value_of_le (hk : k ≤ m) (h : value m ≤ q) :
    q - value m ≤ |q - value k| ∧ (k ≠ m → q - value m < |q - value k|) := by
  have hle := value_strictMono.monotone hk
  rw [abs_of_nonneg (by linarith)]
  refine ⟨by linarith, fun hne ↦ ?_⟩
  have hlt := value_strictMono (Nat.lt_of_le_of_ne hk hne)
  linarith

theorem abs_sub_value_of_ge (hk : m ≤ k) (h : q ≤ value m) :
    value m - q ≤ |q - value k| ∧ (k ≠ m → value m - q < |q - value k|) := by
  have hle := value_strictMono.monotone hk
  rw [abs_of_nonpos (by linarith)]
  refine ⟨by linarith, fun hne ↦ ?_⟩
  have hlt := value_strictMono (Nat.lt_of_le_of_ne hk (Ne.symm hne))
  linarith

/-- A magnitude that is nearer than any other one is the nearest; there is no tie to break. -/
theorem isNearest_of_lt (hfin : m < infinityMagnitude)
    (h : ∀ k, k ≠ m → |q - value m| < |q - value k|) : IsNearest q m where
  finite := hfin
  le_abs k _ := by
    rcases eq_or_ne k m with rfl | hne
    · exact le_rfl
    · exact (h k hne).le
  even k _ hne htie := absurd htie (h k hne).ne'

theorem isNearest_nearer (hfin : m + 1 < infinityMagnitude) (hlo : value m ≤ q)
    (hhi : q ≤ value (m + 1)) : IsNearest q (nearer q m) := by
  have hlow : |q - value m| = q - value m := abs_of_nonneg (by linarith)
  have hhigh : |q - value (m + 1)| = value (m + 1) - q := by
    rw [abs_sub_comm]
    exact abs_of_nonneg (by linarith)
  have hhalf : halfway m = (value m + value (m + 1)) / 2 := rfl
  -- all others lie beyond one of the two neighbours
  have hbeyond : ∀ k, q - value m ≤ |q - value k| ∧ (k ≠ m → q - value m < |q - value k|) ∨
      value (m + 1) - q ≤ |q - value k| ∧ (k ≠ m + 1 → value (m + 1) - q < |q - value k|) := by
    intro k
    rcases Nat.lt_or_ge m k with hk | hk
    · exact Or.inr (abs_sub_value_of_ge hk hhi)
    · exact Or.inl (abs_sub_value_of_le hk hlo)
  rcases lt_trichotomy q (halfway m) with hlt | heq | hgt
  · rw [nearer_of_lt hlt]
    refine isNearest_of_lt (by omega) fun k hne ↦ ?_
    rw [hlow]
    rcases hbeyond k with h | h
    · exact h.2 hne
    · linarith [h.1]
  · have htie : q - value m = value (m + 1) - q := by linarith
    have heven : Even (m + m % 2) := by
      rw [Nat.even_iff]
      omega
    have hequal : |q - value (nearer q m)| = q - value m := by
      rcases nearer_eq_or q m with h | h
      · rw [h, hlow]
      · rw [h, hhigh, htie]
    refine ⟨?_, fun k _ ↦ ?_, fun k _ _ _ ↦ ?_⟩
    · rcases nearer_eq_or q m with h | h <;> omega
    · rw [hequal]
      rcases hbeyond k with h | h <;> linarith [h.1]
    · rwa [heq, nearer_halfway]
  · rw [nearer_of_gt hgt]
    refine isNearest_of_lt hfin fun k hne ↦ ?_
    rw [hhigh]
    rcases hbeyond k with h | h
    · linarith [h.1]
    · exact h.2 hne

theorem IsNearest.unique {m' : ℕ} (h : IsNearest q m) (h' : IsNearest q m') : m = m' := by
  by_contra hne
  have habs : |q - value m'| = |q - value m| :=
    le_antisymm (h'.le_abs m h.finite) (h.le_abs m' h'.finite)
  have heven := h.even m' h'.finite (Ne.symm hne) habs
  have heven' := h'.even m h.finite hne habs.symm
  -- between two even magnitudes there is another one, and that is nearer
  have hbetween : ∀ a b : ℕ, Even a → Even b → a < b → IsNearest q a → IsNearest q b →
      |q - value b| = |q - value a| → False := by
    intro a b ha hb hab hna hnb heq
    have hmid : a + 1 < b := by
      rcases Nat.lt_or_ge (a + 1) b with hlt | hge
      · exact hlt
      · obtain rfl : b = a + 1 := by omega
        exact absurd hb (Nat.not_even_iff_odd.mpr ha.add_one)
    have hle := hna.le_abs (a + 1) (hmid.trans hnb.finite)
    have hlow := value_strictMono (Nat.lt_succ_self a)
    have hhigh := value_strictMono hmid
    rcases abs_cases (q - value a) with ⟨h1, _⟩ | ⟨h1, _⟩ <;>
      rcases abs_cases (q - value b) with ⟨h2, _⟩ | ⟨h2, _⟩ <;>
        rcases abs_cases (q - value (a + 1)) with ⟨h3, _⟩ | ⟨h3, _⟩ <;> linarith
  rcases Nat.lt_or_gt_of_ne hne with hlt | hgt
  · exact hbetween m m' heven heven' hlt h h' habs
  · exact hbetween m' m heven' heven hgt h' h habs.symm

theorem isNearest_iff_eq_nearer (hfin : m + 1 < infinityMagnitude) (hlo : value m ≤ q)
    (hhi : q ≤ value (m + 1)) : IsNearest q k ↔ k = nearer q m := by
  have hnearest := isNearest_nearer hfin hlo hhi
  exact ⟨fun h ↦ h.unique hnearest, fun h ↦ h ▸ hnearest⟩

/-! ## Numbers that have a magnitude -/

theorem Representable.value_nearestTo (h : Representable q) : value (nearestTo q) = q := by
  obtain ⟨m, hm, rfl⟩ := h
  rw [nearestTo_value hm.le]

theorem Representable.nearestTo_lt (h : Representable q) : nearestTo q < infinityMagnitude := by
  obtain ⟨m, hm, rfl⟩ := h
  rwa [nearestTo_value hm.le]

theorem representable_zpow {e : ℤ} (hlow : -1074 ≤ e) (hhigh : e ≤ 1023) :
    Representable (2 ^ e) := by
  by_cases h : e ≤ 971
  · simpa using representable_mul_zpow (n := 1) (by norm_num) hlow h
  · have hlarge := representable_mul_zpow (n := 2 ^ 52) (e := e - 52) (by norm_num) (by omega)
      (by omega)
    rwa [Nat.cast_pow, Nat.cast_two, ← zpow_natCast, ← zpow_add₀ two_ne_zero,
      show ((52 : ℕ) : ℤ) + (e - 52) = e by omega] at hlarge

theorem representable_value_mul_zpow {e : ℤ} (hlow : -1074 ≤ exponent m + e)
    (hhigh : exponent m + e ≤ 971) : Representable (value m * 2 ^ e) := by
  rw [value, mul_assoc, ← zpow_add₀ two_ne_zero]
  exact representable_mul_zpow (significand_lt m) hlow hhigh

theorem exponent_le_of_value_lt {e : ℤ} (he : -1074 ≤ e) (h : value m < 2 ^ (e + 53)) :
    exponent m ≤ e := by
  by_cases hsub : m < leadingBit
  · rwa [exponent, if_pos hsub]
  · have hlt := (le_value (Nat.not_lt.mp hsub)).trans_lt h
    rw [zpow_lt_zpow_iff_right₀ one_lt_two] at hlt
    omega

theorem lt_exponent_of_le_value {e : ℤ} (h : 2 ^ (e + 53) ≤ value m) : e < exponent m := by
  have hlt := h.trans_lt (value_lt m)
  rw [zpow_lt_zpow_iff_right₀ one_lt_two] at hlt
  omega

/-! ## Off the scale -/

theorem nearestTo_mul_zpow_of_large {v : ℚ} (hv : 1 ≤ v) {e : ℤ} (he : 1024 ≤ e) :
    nearestTo (v * 2 ^ e) = infinityMagnitude := by
  refine nearestTo_of_le ?_
  calc (2 : ℚ) ^ (1024 : ℤ) ≤ 2 ^ e := zpow_le_zpow_right₀ one_lt_two.le he
    _ ≤ v * 2 ^ e := le_mul_of_one_le_left (zpow_pos two_pos e).le hv

theorem nearestTo_mul_zpow_of_small {v : ℚ} (hv : 0 ≤ v) {a e : ℤ} (hle : v ≤ 2 ^ a)
    (he : a + e ≤ -1075) : nearestTo (v * 2 ^ e) = 0 := by
  refine nearestTo_eq_zero (mul_nonneg hv (zpow_pos two_pos e).le) ?_
  calc v * 2 ^ e ≤ 2 ^ a * 2 ^ e := mul_le_mul_of_nonneg_right hle (zpow_pos two_pos e).le
    _ = 2 ^ (a + e) := (zpow_add₀ two_ne_zero a e).symm
    _ ≤ 2 ^ (-1075 : ℤ) := zpow_le_zpow_right₀ one_lt_two.le he

/-! ## Sums and products -/

theorem addMagnitudes_eq_nearestTo (hm : m < infinityMagnitude) (hk : k < infinityMagnitude) :
    addMagnitudes m k = nearestTo (value m + value k) := by
  rw [addMagnitudes, if_neg (by omega)]
  have hm' : ((fraction m).2 : ℚ) ≠ 0 := Nat.cast_ne_zero.mpr (fraction_snd_pos m).ne'
  have hk' : ((fraction k).2 : ℚ) ≠ 0 := Nat.cast_ne_zero.mpr (fraction_snd_pos k).ne'
  simp only
  rw [nearestMagnitude_eq_nearestTo (Nat.mul_pos (fraction_snd_pos m) (fraction_snd_pos k)),
    ← fraction_eq_value, ← fraction_eq_value, div_add_div _ _ hm' hk']
  push_cast
  ring_nf

theorem mulMagnitudes_eq_nearestTo (hm : m < infinityMagnitude) (hk : k < infinityMagnitude) :
    mulMagnitudes m k = nearestTo (value m * value k) := by
  rw [mulMagnitudes]
  split
  · next hzero => rcases hzero with rfl | rfl <;> simp
  · rw [if_neg (by omega)]
    simp only
    rw [nearestMagnitude_eq_nearestTo (Nat.mul_pos (fraction_snd_pos m) (fraction_snd_pos k)),
      ← fraction_eq_value, ← fraction_eq_value, div_mul_div_comm]
    push_cast
    rfl

/-- A product is not rounded below a magnitude that it reaches, infinite factors included. -/
theorem le_mulMagnitudes {n : ℕ} (hm : m ≤ infinityMagnitude) (hk : k ≤ infinityMagnitude)
    (hn : n ≤ infinityMagnitude) (h : value n ≤ value m * value k) : n ≤ mulMagnitudes m k := by
  by_cases hfin : m < infinityMagnitude ∧ k < infinityMagnitude
  · rw [mulMagnitudes_eq_nearestTo hfin.1 hfin.2]
    exact le_nearestTo hn h
  · rw [mulMagnitudes]
    split
    · next hzero =>
      have hnone : value m * value k = 0 := by
        rcases hzero with rfl | rfl <;> simp
      rwa [hnone, ← value_zero, value_strictMono.le_iff_le] at h
    · rwa [if_pos (by omega)]

end Binary64

end CurveCalc
