import CurveCalc.Number.Hexadecimal
import CurveCalc.Proofs.NearestMagnitude

/-!
# What is kept of hexadecimal digits

Digits are gathered in a double one by one, and each step rounds; then the double is scaled in two
halves, and each half rounds again. Of all these steps only two can lose anything. Up to 53 bits
digits are gathered exactly. The digit that goes beyond is rounded off with the number, and from
then on the number is so large that a digit is below half of its unit and is lost, so that digits
just move the exponent. Of the two halves of the scale the first is exact.

So the magnitude of a hexadecimal number is what its digits up to the first past 53 bits are rounded
to, with zeros for the digits after, scaled and rounded once more
(`Hexadecimal.magnitude_eq_nearestTo`).
-/

namespace CurveCalc

namespace Hexadecimal

open Binary64
open Text (hexDigitValue isHexDigit hexDigitValue_lt)

/-! ## Digits as a number -/

/-- The number whose digits are those of `n` and some more. -/
def numberFrom (n : ℕ) (digits : List Char) : ℕ :=
  digits.foldl (fun n c ↦ 16 * n + hexDigitValue c) n

/-- The number of hexadecimal digits. -/
def number (digits : List Char) : ℕ := numberFrom 0 digits

/-- Takes digits into `n` until it has more than 53 bits. The result is that number, and how many
digits are left. -/
def cutFrom : ℕ → List Char → ℕ × ℕ
  | n, [] => (n, 0)
  | n, c :: cs => if 2 ^ 53 ≤ n then (n, cs.length + 1) else cutFrom (16 * n + hexDigitValue c) cs

/-- The number of the digits up to the first that makes more than 53 bits, and how many digits come
after them. -/
def cut (digits : List Char) : ℕ × ℕ := cutFrom 0 digits

variable {digits : List Char} {n : ℕ}

theorem numberFrom_bounds (hdigits : ∀ c ∈ digits, isHexDigit c = true) :
    n * 16 ^ digits.length ≤ numberFrom n digits ∧
      numberFrom n digits < (n + 1) * 16 ^ digits.length := by
  induction digits generalizing n with
  | nil => simp [numberFrom]
  | cons c cs ih =>
    have hc := hexDigitValue_lt (hdigits c List.mem_cons_self)
    obtain ⟨hlo, hhi⟩ := @ih (16 * n + hexDigitValue c) fun d hd ↦
      hdigits d (List.mem_cons_of_mem c hd)
    rw [List.length_cons, pow_succ']
    constructor
    · calc n * (16 * 16 ^ cs.length) = 16 * n * 16 ^ cs.length := by ring
        _ ≤ (16 * n + hexDigitValue c) * 16 ^ cs.length :=
          Nat.mul_le_mul_right _ (Nat.le_add_right _ _)
        _ ≤ numberFrom n (c :: cs) := hlo
    · calc numberFrom n (c :: cs) < (16 * n + hexDigitValue c + 1) * 16 ^ cs.length := hhi
        _ ≤ 16 * (n + 1) * 16 ^ cs.length := Nat.mul_le_mul_right _ (by omega)
        _ = (n + 1) * (16 * 16 ^ cs.length) := by ring

theorem cutFrom_of_le (h : 2 ^ 53 ≤ n) (digits : List Char) :
    cutFrom n digits = (n, digits.length) := by
  cases digits with
  | nil => rfl
  | cons c cs => exact if_pos h

/-- What a cut says about the number: its first digits, how many follow, and that these are none
unless the first ones have more than 53 bits. -/
structure IsCut (number : ℕ) (length : ℕ) (cut : ℕ × ℕ) : Prop where
  lower : cut.1 * 16 ^ cut.2 ≤ number
  upper : number < (cut.1 + 1) * 16 ^ cut.2
  bits : cut.1 < 2 ^ 57
  rest_le : cut.2 ≤ length
  rest_eq_zero : cut.1 < 2 ^ 53 → cut.2 = 0

theorem isCut_cutFrom (hdigits : ∀ c ∈ digits, isHexDigit c = true) (hn : n < 2 ^ 57) :
    IsCut (numberFrom n digits) digits.length (cutFrom n digits) := by
  induction digits generalizing n with
  | nil => exact ⟨by simp [numberFrom, cutFrom], by simp [numberFrom, cutFrom], hn, le_rfl,
      fun _ ↦ rfl⟩
  | cons c cs ih =>
    rcases Nat.lt_or_ge n (2 ^ 53) with hlt | hge
    · have hc := hexDigitValue_lt (hdigits c List.mem_cons_self)
      have hcs := @ih (16 * n + hexDigitValue c)
        (fun d hd ↦ hdigits d (List.mem_cons_of_mem c hd)) (by omega)
      rw [cutFrom, if_neg (Nat.not_le.mpr hlt)]
      exact ⟨hcs.lower, hcs.upper, hcs.bits, hcs.rest_le.trans (Nat.le_succ _),
        hcs.rest_eq_zero⟩
    · obtain ⟨hlo, hhi⟩ := @numberFrom_bounds (c :: cs) n hdigits
      rw [cutFrom_of_le hge]
      exact ⟨hlo, hhi, hn, le_rfl, fun hlt ↦ absurd hge (Nat.not_le.mpr hlt)⟩

theorem isCut_cut (hdigits : ∀ c ∈ digits, isHexDigit c = true) :
    IsCut (number digits) digits.length (cut digits) :=
  isCut_cutFrom hdigits (by norm_num)

/-- What is kept of digits: the first of them rounded to 53 bits, and zeros for the others. -/
def kept (digits : List Char) : ℚ := value (nearestTo (cut digits).1) * 16 ^ (cut digits).2

/-- A digit has four bits. -/
theorem sixteen_pow (r : ℕ) : (16 : ℚ) ^ r = 2 ^ (4 * (r : ℤ)) := by
  rw [zpow_mul, zpow_natCast]
  norm_num

/-! ## One digit more -/

theorem value_fullMagnitude : value fullMagnitude = 2 ^ 60 := by
  have hfull : fullMagnitude = nearestTo (2 ^ (60 : ℤ)) := by
    rw [fullMagnitude, nearestMagnitude_eq_nearestTo one_pos]
    norm_num
  rw [hfull, (representable_zpow (by norm_num) (by norm_num)).value_nearestTo]
  norm_num

/-- Below `2 ^ 60` sixteen times a double is exact. -/
theorem representable_mul_sixteen {m : ℕ} (h : value m < 2 ^ 60) :
    Representable (value m * 16) := by
  have hlow := exponent_ge m
  have hhigh : exponent m ≤ 7 :=
    exponent_le_of_value_lt (by norm_num) (h.trans_eq (by norm_num))
  have hscaled := @representable_value_mul_zpow m 4 (by omega) (by omega)
  rwa [show (2 : ℚ) ^ (4 : ℤ) = 16 by norm_num] at hscaled

theorem push_of_lt {g : Gathered} {c : Char} (hc : isHexDigit c = true)
    (hfin : g.magnitude < infinityMagnitude) (h : value g.magnitude < 2 ^ 60) :
    g.push c = ⟨nearestTo (value g.magnitude * 16 + hexDigitValue c), g.dropped⟩ := by
  have hlt : g.magnitude < fullMagnitude := by
    rwa [← value_strictMono.lt_iff_lt, value_fullMagnitude]
  have hnat : ∀ n, nearestMagnitude n 1 = nearestTo n := by
    intro n
    rw [nearestMagnitude_eq_nearestTo one_pos, Nat.cast_one, div_one]
  have hdigit := hexDigitValue_lt hc
  have hsixteen : Representable (16 : ℕ) := representable_natCast (by norm_num)
  have hvalue : Representable (hexDigitValue c) := representable_natCast (by omega)
  have hshift := representable_mul_sixteen h
  rw [Gathered.push, if_pos hlt]
  simp only [hnat]
  rw [mulMagnitudes_eq_nearestTo hfin hsixteen.nearestTo_lt, hsixteen.value_nearestTo,
    Nat.cast_ofNat, addMagnitudes_eq_nearestTo hshift.nearestTo_lt hvalue.nearestTo_lt,
    hshift.value_nearestTo, hvalue.value_nearestTo]

theorem push_of_ge {g : Gathered} (h : 2 ^ 60 ≤ value g.magnitude) (c : Char) :
    g.push c = ⟨g.magnitude, g.dropped + 1⟩ := by
  refine if_neg (Nat.not_lt.mpr ?_)
  rwa [← value_strictMono.le_iff_le, value_fullMagnitude]

/-- **Past 53 bits a digit is lost**: it is less than half a unit of what it is added to. -/
theorem nearestTo_add_digit {v : ℚ} {d : ℕ} (hd : d < 16) (hv : Representable v)
    (hge : 2 ^ 57 ≤ v) : nearestTo (v + d) = nearestTo v := by
  obtain ⟨m, hm, rfl⟩ := hv
  have hexp : 4 < exponent m := lt_exponent_of_le_value (le_trans (by norm_num) hge)
  have hunit : (32 : ℚ) ≤ 2 ^ exponent m := by
    calc (32 : ℚ) = 2 ^ (5 : ℤ) := by norm_num
      _ ≤ 2 ^ exponent m := zpow_le_zpow_right₀ one_lt_two.le hexp
  have hd' : (d : ℚ) < 16 := by exact_mod_cast hd
  have hhalf : value m + d < halfway m := by
    rw [halfway, value_succ]
    linarith
  rw [nearestTo_eq_nearer hm (le_add_of_nonneg_right (Nat.cast_nonneg d))
    (hhalf.trans (halfway_lt_value_succ m)), nearer_of_lt hhalf, nearestTo_value hm.le]

/-! ## All digits -/

/-- Gathered digits stand for a number: the double that they are gathered in, with a zero for each
digit that was dropped. -/
structure Gathered.StandsFor (g : Gathered) (v : ℚ) : Prop where
  finite : g.magnitude < infinityMagnitude
  le : value g.magnitude ≤ 2 ^ 64
  eq_zero_or_one_le : g.magnitude = 0 ∨ 1 ≤ value g.magnitude
  value_eq : value g.magnitude * 16 ^ g.dropped = v

/-- A number of more than 53 bits goes on as itself with a zero for each digit. -/
theorem Gathered.StandsFor.push {g : Gathered} {v : ℚ} (h : g.StandsFor v)
    (hge : 2 ^ 53 ≤ value g.magnitude) {c : Char} (hc : isHexDigit c = true) :
    (g.push c).StandsFor (v * 16) ∧ 2 ^ 53 ≤ value (g.push c).magnitude := by
  by_cases hlt : value g.magnitude < 2 ^ 60
  · have hshift := representable_mul_sixteen hlt
    have hfin := hshift.nearestTo_lt
    have hvalue := hshift.value_nearestTo
    rw [push_of_lt hc h.finite hlt, nearestTo_add_digit (hexDigitValue_lt hc) hshift (by linarith)]
    refine ⟨⟨hfin, by linarith, Or.inr (by linarith), ?_⟩, by linarith⟩
    simp only
    rw [hvalue, ← h.value_eq, mul_right_comm]
  · -- the double is so large that digits are just counted
    rw [push_of_ge (not_lt.mp hlt)]
    refine ⟨⟨h.finite, h.le, h.eq_zero_or_one_le, ?_⟩, hge⟩
    simp only
    rw [← h.value_eq, pow_succ, mul_assoc]

theorem Gathered.StandsFor.foldl {g : Gathered} {v : ℚ} (h : g.StandsFor v)
    (hge : 2 ^ 53 ≤ value g.magnitude) (hdigits : ∀ c ∈ digits, isHexDigit c = true) :
    (digits.foldl Gathered.push g).StandsFor (v * 16 ^ digits.length) := by
  induction digits generalizing g v with
  | nil => simpa using h
  | cons c cs ih =>
    obtain ⟨hpush, hge'⟩ := h.push hge (hdigits c List.mem_cons_self)
    have hcs := ih hpush hge' fun d hd ↦ hdigits d (List.mem_cons_of_mem c hd)
    rwa [List.foldl_cons, List.length_cons, pow_succ', ← mul_assoc]

theorem standsFor_natCast (hn : n < 2 ^ 53) : Gathered.StandsFor ⟨nearestTo n, 0⟩ n := by
  have hvalue := (representable_natCast hn).value_nearestTo
  refine ⟨(representable_natCast hn).nearestTo_lt, ?_, ?_, ?_⟩
  · simp only [hvalue]
    exact_mod_cast hn.le.trans (by norm_num)
  · rcases Nat.eq_zero_or_pos n with rfl | hpos
    · left
      simp
    · right
      simp only [hvalue]
      exact_mod_cast hpos
  · simp only [hvalue, pow_zero, mul_one]

/-- The first number of more than 53 bits is rounded, and is still one of more than 53 bits. -/
theorem standsFor_rounded (hlow : 2 ^ 53 ≤ n) (hhigh : n < 2 ^ 57) :
    Gathered.StandsFor ⟨nearestTo n, 0⟩ (value (nearestTo n)) ∧
      2 ^ 53 ≤ value (nearestTo n) := by
  have hbottom := @representable_zpow 53 (by norm_num) (by norm_num)
  have htop := @representable_zpow 57 (by norm_num) (by norm_num)
  have hge : value (nearestTo (2 ^ (53 : ℤ))) ≤ n := by
    rw [hbottom.value_nearestTo]
    exact_mod_cast hlow
  have hle : (n : ℚ) ≤ value (nearestTo (2 ^ (57 : ℤ))) := by
    rw [htop.value_nearestTo]
    exact_mod_cast hhigh.le
  have hge' := value_strictMono.monotone (le_nearestTo hbottom.nearestTo_lt.le hge)
  have hfin := nearestTo_le (Nat.cast_nonneg n) htop.nearestTo_lt.le hle
  have hle' := value_strictMono.monotone hfin
  rw [hbottom.value_nearestTo] at hge'
  rw [htop.value_nearestTo] at hle'
  norm_num at hge' hle'
  refine ⟨⟨hfin.trans_lt htop.nearestTo_lt, ?_, Or.inr ?_, ?_⟩, ?_⟩
  · simp only
    linarith
  · simp only
    linarith
  · simp only [pow_zero, mul_one]
  · linarith

/-- A number of at most 53 bits takes digits in exactly, until it has more. -/
theorem standsFor_foldl (hn : n < 2 ^ 53) (hdigits : ∀ c ∈ digits, isHexDigit c = true) :
    (digits.foldl Gathered.push ⟨nearestTo n, 0⟩).StandsFor
      (value (nearestTo (cutFrom n digits).1) * 16 ^ (cutFrom n digits).2) := by
  induction digits generalizing n with
  | nil =>
    rw [cutFrom, (representable_natCast hn).value_nearestTo, pow_zero, mul_one]
    exact standsFor_natCast hn
  | cons c cs ih =>
    have hc := hexDigitValue_lt (hdigits c List.mem_cons_self)
    have hcs : ∀ d ∈ cs, isHexDigit d = true := fun d hd ↦ hdigits d (List.mem_cons_of_mem c hd)
    have hstands := standsFor_natCast hn
    have hvalue := (representable_natCast hn).value_nearestTo
    have hpush : Gathered.push ⟨nearestTo n, 0⟩ c =
        ⟨nearestTo (16 * n + hexDigitValue c : ℕ), 0⟩ := by
      rw [push_of_lt (hdigits c List.mem_cons_self) hstands.finite, hvalue]
      · push_cast
        rw [mul_comm]
      · rw [hvalue]
        exact_mod_cast hn.trans (by norm_num)
    rw [List.foldl_cons, hpush, cutFrom, if_neg (Nat.not_le.mpr hn)]
    by_cases hlt : 16 * n + hexDigitValue c < 2 ^ 53
    · exact ih hlt hcs
    · -- this is the digit with which the number is rounded
      have hge := Nat.not_lt.mp hlt
      obtain ⟨hrounded, hge'⟩ := standsFor_rounded hge (by omega)
      rw [cutFrom_of_le hge]
      exact hrounded.foldl hge' hcs

/-- **Gathered digits stand for what is kept of them.** -/
theorem standsFor_gather (hdigits : ∀ c ∈ digits, isHexDigit c = true) :
    (gather digits).StandsFor (kept digits) := by
  have hfold := standsFor_foldl (n := 0) (by norm_num) hdigits
  rwa [Nat.cast_zero, nearestTo_zero] at hfold

/-! ## The scale -/

theorem twoPowMagnitude_eq {k : ℤ} (hlow : -1023 ≤ k) (hhigh : k ≤ 1023) :
    twoPowMagnitude k = nearestTo (2 ^ k) := by
  have hden : 0 < Nat.pow 2 (-k).toNat := Nat.two_pow_pos _
  have hpow := zpow_eq_div 2 k
  rw [twoPowMagnitude, if_neg (by omega), if_neg (by omega), nearestMagnitude_eq_nearestTo hden]
  push_cast [Nat.pow_eq] at hpow ⊢
  rw [hpow]

theorem twoPowMagnitude_of_large {k : ℤ} (hk : 600 ≤ k) :
    twoPowMagnitude k ≤ infinityMagnitude ∧ 2 ^ (600 : ℤ) ≤ value (twoPowMagnitude k) := by
  have hle : (2 : ℚ) ^ (600 : ℤ) ≤ 2 ^ k := zpow_le_zpow_right₀ one_lt_two.le hk
  by_cases hinf : 1023 < k
  · rw [twoPowMagnitude, if_pos hinf, value_infinityMagnitude]
    exact ⟨le_rfl, zpow_le_zpow_right₀ one_lt_two.le (by norm_num)⟩
  · have hpow := @representable_zpow k (by omega) (by omega)
    rw [twoPowMagnitude_eq (by omega) (by omega), hpow.value_nearestTo]
    exact ⟨hpow.nearestTo_lt.le, hle⟩

theorem twoPowMagnitude_of_small {k : ℤ} (hk : k ≤ -600) :
    twoPowMagnitude k < infinityMagnitude ∧ value (twoPowMagnitude k) ≤ 2 ^ (-600 : ℤ) := by
  by_cases hzero : k < -1023
  · rw [twoPowMagnitude, if_neg (by omega), if_pos hzero, value_zero]
    exact ⟨by decide, (zpow_pos two_pos _).le⟩
  · have hpow := @representable_zpow k (by omega) (by omega)
    rw [twoPowMagnitude_eq (by omega) (by omega), hpow.value_nearestTo]
    exact ⟨hpow.nearestTo_lt, zpow_le_zpow_right₀ one_lt_two.le hk⟩

section Scaled

variable {m : ℕ} {half rest : ℤ}

/-- In the middle of the scale the first half is exact, so just the second rounds. -/
theorem scaled_middle (hm : m < infinityMagnitude) (hone : 1 ≤ value m) (htop : value m ≤ 2 ^ 64)
    (hhalf : -700 ≤ half ∧ half ≤ 700) (hrest : -700 ≤ rest ∧ rest ≤ 700) :
    mulMagnitudes (mulMagnitudes m (twoPowMagnitude half)) (twoPowMagnitude rest) =
      nearestTo (value m * 2 ^ (half + rest)) := by
  have hlow : -53 < exponent m :=
    lt_exponent_of_le_value (by rw [show (-53 : ℤ) + 53 = 0 from rfl, zpow_zero]; exact hone)
  have hhigh : exponent m ≤ 12 :=
    exponent_le_of_value_lt (by norm_num) (lt_of_le_of_lt htop (by norm_num))
  have hfirst := @representable_zpow half (by omega) (by omega)
  have hsecond := @representable_zpow rest (by omega) (by omega)
  have hexact := @representable_value_mul_zpow m half (by omega) (by omega)
  rw [twoPowMagnitude_eq (by omega) (by omega), twoPowMagnitude_eq (by omega) (by omega),
    mulMagnitudes_eq_nearestTo hm hfirst.nearestTo_lt, hfirst.value_nearestTo,
    mulMagnitudes_eq_nearestTo hexact.nearestTo_lt hsecond.nearestTo_lt, hexact.value_nearestTo,
    hsecond.value_nearestTo, zpow_add₀ two_ne_zero, mul_assoc]

theorem scaled_large (hm : m < infinityMagnitude) (hone : 1 ≤ value m) (hhalf : 600 ≤ half)
    (hrest : 600 ≤ rest) :
    mulMagnitudes (mulMagnitudes m (twoPowMagnitude half)) (twoPowMagnitude rest) =
      infinityMagnitude := by
  obtain ⟨hfirst, hfirst'⟩ := twoPowMagnitude_of_large hhalf
  obtain ⟨hsecond, hsecond'⟩ := twoPowMagnitude_of_large hrest
  have hpos : (0 : ℚ) < 2 ^ (600 : ℤ) := zpow_pos two_pos _
  have hbound := @representable_zpow 600 (by norm_num) (by norm_num)
  have hreach : 2 ^ (600 : ℤ) ≤ value (mulMagnitudes m (twoPowMagnitude half)) := by
    have hle := le_mulMagnitudes hm.le hfirst hbound.nearestTo_lt.le (by
      rw [hbound.value_nearestTo]
      calc (2 : ℚ) ^ (600 : ℤ) ≤ value (twoPowMagnitude half) := hfirst'
        _ ≤ value m * value (twoPowMagnitude half) :=
          le_mul_of_one_le_left (value_nonneg _) hone)
    have hvalue := value_strictMono.monotone hle
    rwa [hbound.value_nearestTo] at hvalue
  refine le_antisymm (mulMagnitudes_le _ _)
    (le_mulMagnitudes (mulMagnitudes_le _ _) hsecond le_rfl ?_)
  calc value infinityMagnitude ≤ 2 ^ (600 : ℤ) * 2 ^ (600 : ℤ) := by
        rw [value_infinityMagnitude, ← zpow_add₀ two_ne_zero]
        exact zpow_le_zpow_right₀ one_lt_two.le (by norm_num)
    _ ≤ _ := mul_le_mul hreach hsecond' hpos.le (hpos.le.trans hreach)

theorem scaled_small (hm : m < infinityMagnitude) (htop : value m ≤ 2 ^ 64) (hhalf : half ≤ -600)
    (hrest : rest ≤ -600) :
    mulMagnitudes (mulMagnitudes m (twoPowMagnitude half)) (twoPowMagnitude rest) = 0 := by
  obtain ⟨hfirst, hfirst'⟩ := twoPowMagnitude_of_small hhalf
  obtain ⟨hsecond, hsecond'⟩ := twoPowMagnitude_of_small hrest
  have hbound := @representable_zpow (-536) (by norm_num) (by norm_num)
  have hle : value m * value (twoPowMagnitude half) ≤ 2 ^ (-536 : ℤ) := by
    calc value m * value (twoPowMagnitude half) ≤ 2 ^ (64 : ℤ) * 2 ^ (-600 : ℤ) :=
          mul_le_mul (by exact_mod_cast htop) hfirst' (value_nonneg _) (zpow_pos two_pos _).le
      _ = 2 ^ (-536 : ℤ) := by
        rw [← zpow_add₀ two_ne_zero]
        rfl
  have hproduct := nearestTo_le (mul_nonneg (value_nonneg m) (value_nonneg _))
    hbound.nearestTo_lt.le (hle.trans_eq hbound.value_nearestTo.symm)
  have hvalue := value_strictMono.monotone hproduct
  rw [hbound.value_nearestTo] at hvalue
  rw [mulMagnitudes_eq_nearestTo hm hfirst,
    mulMagnitudes_eq_nearestTo (hproduct.trans_lt hbound.nearestTo_lt) hsecond]
  refine nearestTo_eq_zero (mul_nonneg (value_nonneg _) (value_nonneg _)) ?_
  calc value (nearestTo (value m * value (twoPowMagnitude half))) * value (twoPowMagnitude rest)
      ≤ 2 ^ (-536 : ℤ) * 2 ^ (-600 : ℤ) :=
        mul_le_mul hvalue hsecond' (value_nonneg _) (zpow_pos two_pos _).le
    _ ≤ 2 ^ (-1075 : ℤ) := by
      rw [← zpow_add₀ two_ne_zero]
      exact zpow_le_zpow_right₀ one_lt_two.le (by norm_num)

end Scaled

/-- **The two halves of the scale round once.** -/
theorem scaled_eq_nearestTo {m : ℕ} (hm : m < infinityMagnitude) (hone : 1 ≤ value m)
    (htop : value m ≤ 2 ^ 64) (shift : ℤ) :
    scaled m shift = nearestTo (value m * 2 ^ shift) := by
  have hsplit : shift.tdiv 2 + (shift - shift.tdiv 2) = shift := by omega
  have hdiv := Int.mul_tdiv_add_tmod shift 2
  have hmod := Int.tmod_lt_of_pos shift (b := 2) two_pos
  have hmod' := Int.lt_tmod_of_pos shift (b := 2) two_pos
  rw [scaled]
  -- far up both halves are large enough to overflow, far down both are small enough to vanish
  by_cases hlarge : 1200 < shift
  · rw [scaled_large hm hone (by omega) (by omega),
      nearestTo_mul_zpow_of_large hone (by omega)]
  · by_cases hsmall : shift < -1200
    · rw [scaled_small hm htop (by omega) (by omega),
        nearestTo_mul_zpow_of_small (a := 64) (value_nonneg m) (by exact_mod_cast htop) (by omega)]
    · rw [scaled_middle hm hone htop (by omega) (by omega), hsplit]

theorem nearestTo_mul_capped {v : ℚ} (hone : 1 ≤ v) (htop : v ≤ 2 ^ 64) (shift : ℤ) :
    nearestTo (v * 2 ^ capped shift) = nearestTo (v * 2 ^ shift) := by
  have hnonneg : 0 ≤ v := zero_le_one.trans hone
  have htop' : v ≤ 2 ^ (64 : ℤ) := by exact_mod_cast htop
  rw [capped]
  split
  · rw [nearestTo_mul_zpow_of_small hnonneg htop' (by norm_num),
      nearestTo_mul_zpow_of_small hnonneg htop' (by omega)]
  · split
    · rw [nearestTo_mul_zpow_of_large hone (by norm_num),
        nearestTo_mul_zpow_of_large hone (by omega)]
    · rfl

/-! ## The magnitude -/

section Magnitude

variable {whole fraction : List Char}

/-- **The magnitude of a hexadecimal number is the nearest to what is kept of it.** The written
exponent is capped. -/
theorem magnitude_eq_nearestTo (hdigits : ∀ c ∈ whole ++ fraction, isHexDigit c = true)
    (exponent : ℤ) :
    magnitude whole fraction exponent =
      nearestTo (kept (whole ++ fraction) * 2 ^ (capped exponent - 4 * fraction.length)) := by
  have hstands := standsFor_gather hdigits
  rw [magnitude]
  split
  · next hzero => rw [← hstands.value_eq, hzero, value_zero, zero_mul, zero_mul, nearestTo_zero]
  · next hne =>
    have hone := hstands.eq_zero_or_one_le.resolve_left hne
    rw [scaled_eq_nearestTo hstands.finite hone hstands.le,
      nearestTo_mul_capped hone hstands.le, ← hstands.value_eq, sixteen_pow, mul_assoc,
      ← zpow_add₀ two_ne_zero]
    congr 3
    omega

theorem kept_bounds (hdigits : ∀ c ∈ digits, isHexDigit c = true) (hpos : 0 < number digits) :
    1 ≤ kept digits ∧ kept digits ≤ 2 ^ (57 + 4 * (digits.length : ℤ)) := by
  have hcut := isCut_cut hdigits
  rw [kept]
  generalize cut digits = p at *
  have hsixteen : (1 : ℚ) ≤ 16 ^ p.2 := one_le_pow₀ (by norm_num)
  have hone : 1 ≤ p.1 := by
    by_contra hzero
    have hrest := hcut.rest_eq_zero (by omega)
    have hupper := hcut.upper
    rw [hrest] at hupper
    omega
  have hunit := representable_natCast (n := 1) (by norm_num)
  have htop := @representable_zpow 57 (by norm_num) (by norm_num)
  have hlow := value_strictMono.monotone (le_nearestTo (q := p.1) hunit.nearestTo_lt.le
    (by rw [hunit.value_nearestTo]; exact_mod_cast hone))
  have hhigh := value_strictMono.monotone (nearestTo_le (Nat.cast_nonneg p.1) htop.nearestTo_lt.le
    (by rw [htop.value_nearestTo]; exact_mod_cast hcut.bits.le))
  rw [hunit.value_nearestTo, Nat.cast_one] at hlow
  rw [htop.value_nearestTo] at hhigh
  constructor
  · exact one_le_mul_of_one_le_of_one_le hlow hsixteen
  · rw [zpow_add₀ two_ne_zero, ← sixteen_pow]
    refine mul_le_mul hhigh ?_ (zero_le_one.trans hsixteen) (zpow_pos two_pos _).le
    exact pow_le_pow_right₀ (by norm_num) hcut.rest_le

theorem kept_eq_zero (hdigits : ∀ c ∈ digits, isHexDigit c = true) (hzero : number digits = 0) :
    kept digits = 0 := by
  have hcut := isCut_cut hdigits
  have hfirst : (cut digits).1 = 0 := by
    have hlower := hcut.lower
    rw [hzero, Nat.le_zero, Nat.mul_eq_zero] at hlower
    exact hlower.resolve_right (pow_ne_zero _ (by norm_num))
  rw [kept, hfirst, Nat.cast_zero, nearestTo_zero, value_zero, zero_mul]

/-- A number with zeros for all digits that come after the first ones. -/
theorem IsCut.fst_eq {number length k : ℕ} {p : ℕ × ℕ} (h : IsCut number length p)
    (hnumber : number = k * 16 ^ p.2) : p.1 = k := by
  have hlower := h.lower
  have hupper := h.upper
  rw [hnumber] at hlower hupper
  have hle := Nat.le_of_mul_le_mul_right hlower (pow_pos (by norm_num) p.2)
  have hlt := Nat.lt_of_mul_lt_mul_right hupper
  omega

/-- The lowest of 53 bits lies above all digits that come after the first ones. -/
theorem IsCut.lt_place {number length : ℕ} {p : ℕ × ℕ} (h : IsCut number length p) {t : ℤ}
    (hbits : 2 ^ 53 ≤ p.1) (hn : n < 2 ^ 53) (hnumber : (number : ℚ) = n * 2 ^ t) :
    4 * (p.2 : ℤ) < t := by
  have hlt : (2 : ℚ) ^ (53 : ℕ) * 2 ^ (4 * (p.2 : ℤ)) < 2 ^ (53 : ℕ) * 2 ^ t := by
    calc (2 : ℚ) ^ (53 : ℕ) * 2 ^ (4 * (p.2 : ℤ)) = (2 ^ 53 * 16 ^ p.2 : ℕ) := by
          rw [← sixteen_pow]
          push_cast
          rfl
      _ ≤ number := by exact_mod_cast (Nat.mul_le_mul_right _ hbits).trans h.lower
      _ = n * 2 ^ t := hnumber
      _ < 2 ^ (53 : ℕ) * 2 ^ t :=
        mul_lt_mul_of_pos_right (by exact_mod_cast hn) (zpow_pos two_pos t)
  have hlt' := lt_of_mul_lt_mul_left hlt (by positivity)
  rwa [zpow_lt_zpow_iff_right₀ one_lt_two] at hlt'

/-- **A number of 53 bits with zeros after them is kept as it is**: its first digits have no more
bits, and all others are zero. -/
theorem kept_eq_number (hdigits : ∀ c ∈ digits, isHexDigit c = true) {t : ℤ} (hn : n < 2 ^ 53)
    (h : (number digits : ℚ) = n * 2 ^ t) : kept digits = number digits := by
  have hcut := isCut_cut hdigits
  rw [kept]
  generalize cut digits = p at *
  by_cases hbits : p.1 < 2 ^ 53
  · have hrest := hcut.rest_eq_zero hbits
    have hfirst := hcut.fst_eq (k := number digits) (by rw [hrest, pow_zero, Nat.mul_one])
    rw [hrest, (representable_natCast hbits).value_nearestTo, pow_zero, mul_one, hfirst]
  · -- the digits behind the first ones are zeros, and the first ones have zeros at their end
    have hplace := hcut.lt_place (Nat.not_lt.mp hbits) hn h
    obtain ⟨j, rfl⟩ : ∃ j : ℕ, t = j + 4 * (p.2 : ℤ) := ⟨(t - 4 * p.2).toNat, by omega⟩
    have hnumber : number digits = n * 2 ^ j * 16 ^ p.2 := by
      rw [zpow_add₀ two_ne_zero, zpow_natCast, ← sixteen_pow, ← mul_assoc] at h
      exact_mod_cast h
    have hfirst := hcut.fst_eq hnumber
    have hj : j < 57 := by
      have hpos : 0 < n := by
        rw [Nat.pos_iff_ne_zero]
        rintro rfl
        rw [hfirst, Nat.zero_mul] at hbits
        exact hbits (by norm_num)
      have hpow : 2 ^ j ≤ p.1 := hfirst ▸ Nat.le_mul_of_pos_left _ hpos
      exact (Nat.pow_lt_pow_iff_right Nat.one_lt_two).mp (hpow.trans_lt hcut.bits)
    have hexact := representable_mul_zpow hn (e := j) (by omega) (by omega)
    have hcast : (p.1 : ℚ) = n * 2 ^ (j : ℤ) := by
      rw [hfirst, zpow_natCast]
      push_cast
      rfl
    rw [hcast, hexact.value_nearestTo, hnumber, zpow_natCast]
    push_cast
    rfl

/-- **The cap on a written exponent changes nothing**, unless there are very many digits. -/
theorem magnitude_eq_nearestTo_of_length (hdigits : ∀ c ∈ whole ++ fraction, isHexDigit c = true)
    {exponent : ℤ} (h : capped exponent = exponent ∨ (whole ++ fraction).length < 2 ^ 28) :
    magnitude whole fraction exponent =
      nearestTo (kept (whole ++ fraction) * 2 ^ (exponent - 4 * fraction.length)) := by
  rw [magnitude_eq_nearestTo hdigits]
  rcases h with hcap | hlength
  · rw [hcap]
  · rcases Nat.eq_zero_or_pos (number (whole ++ fraction)) with hzero | hpos
    · rw [kept_eq_zero hdigits hzero, zero_mul, zero_mul]
    · -- so few digits cannot bring an exponent that is capped back to the scale
      obtain ⟨hone, htop⟩ := kept_bounds hdigits hpos
      have hfraction : fraction.length ≤ (whole ++ fraction).length := by
        rw [List.length_append]
        exact Nat.le_add_left _ _
      rw [capped]
      split
      · rw [nearestTo_mul_zpow_of_small (zero_le_one.trans hone) htop (by omega),
          nearestTo_mul_zpow_of_small (zero_le_one.trans hone) htop (by omega)]
      · split
        · rw [nearestTo_mul_zpow_of_large hone (by omega),
            nearestTo_mul_zpow_of_large hone (by omega)]
        · rfl

end Magnitude

end Hexadecimal

end CurveCalc
