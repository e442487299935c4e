import Mathlib.Data.Int.Log
import Mathlib.Data.Rat.Floor
import Mathlib.Tactic.LinearCombination
import Mathlib.Tactic.Positivity
import Mathlib.Tactic.Ring

/-! Binary floating point, as far as it is about rational numbers.

A format has numbers of `p + 1` bits down to a least exponent `e₀`; that there is a largest one is
left out. `Rounds` says which of them a rational number is rounded to, to the nearest and to an
even one of two. There is exactly one: `rounds_nearest`, `Rounds.unique`. -/
namespace BinaryFloat

/-! ### The numbers of a format -/

/-- Of less than `2 ^ p` units, the unit being a power of two that is no less than `2 ^ e₀`. -/
def Fits (p : Nat) (e₀ : Int) (x : ℚ) : Prop :=
  ∃ M E : Int, |M| < 2 ^ p ∧ e₀ ≤ E ∧ x = M * 2 ^ E

variable {p : Nat} {e₀ : Int} {q c x y : ℚ}

theorem two_zpow_pos (E : Int) : (0 : ℚ) < 2 ^ E := zpow_pos (by decide) E

theorem fits_zero (p : Nat) (e₀ : Int) : Fits p e₀ 0 :=
  ⟨0, e₀, by simp, le_refl _, by simp⟩

theorem Fits.neg (h : Fits p e₀ x) : Fits p e₀ (-x) := by
  obtain ⟨M, E, hM, hE, rfl⟩ := h
  exact ⟨-M, E, by rwa [abs_neg], hE, by push_cast; ring⟩

/-- A power of two counts as a unit of its own. -/
theorem fits_of_le {M E : Int} (hp : 0 < p) (hM : |M| ≤ 2 ^ p) (hE : e₀ ≤ E) :
    Fits p e₀ (M * 2 ^ E) := by
  rcases Int.lt_or_eq_of_le hM with hlt | heq
  · exact ⟨M, E, hlt, hE, rfl⟩
  · have hone : (1 : Int) < 2 ^ p := one_lt_pow₀ (by decide) hp.ne'
    rcases abs_choice M with h | h
    · refine ⟨1, E + p, by simpa using hone, by omega, ?_⟩
      rw [← h, heq, zpow_add₀ (by decide)]
      push_cast
      rw [zpow_natCast]
      ring
    · refine ⟨-1, E + p, by simpa using hone, by omega, ?_⟩
      rw [← neg_neg M, ← h, heq, zpow_add₀ (by decide)]
      push_cast
      rw [zpow_natCast]
      ring

/-- The unit of a number, or of one that is rounded to it. -/
def exponent (p : Nat) (e₀ : Int) (q : ℚ) : Int := max e₀ (Int.log 2 |q| - p)

theorem le_exponent (p : Nat) (e₀ : Int) (q : ℚ) : e₀ ≤ exponent p e₀ q := le_max_left _ _

theorem abs_lt_exponent (p : Nat) (e₀ : Int) (q : ℚ) :
    |q| < 2 ^ (p + 1) * 2 ^ exponent p e₀ q := by
  have hlog := Int.lt_zpow_succ_log_self (b := 2) (by decide) |q|
  refine lt_of_lt_of_le hlog ?_
  rw [← zpow_natCast, ← zpow_add₀ (by decide), Nat.cast_ofNat]
  refine zpow_le_zpow_right₀ (by decide) ?_
  have := le_max_right e₀ (Int.log 2 |q| - p)
  rw [exponent]
  push_cast
  omega

/-- A number is large, but for the least unit. -/
theorem exponent_le_abs (h : e₀ < exponent p e₀ q) (hq : q ≠ 0) :
    2 ^ p * 2 ^ exponent p e₀ q ≤ |q| := by
  have hexp : exponent p e₀ q = Int.log 2 |q| - p := by
    rw [exponent] at *
    omega
  have hlog := Int.zpow_log_le_self (b := 2) (by decide) (abs_pos.mpr hq)
  rw [hexp, ← zpow_natCast, ← zpow_add₀ (by decide), add_sub_cancel]
  exact_mod_cast hlog

/-- It is large if it is no less than the least number of all bits. -/
theorem exponent_le_abs_of_le (h : 2 ^ p * 2 ^ e₀ ≤ |q|) : 2 ^ p * 2 ^ exponent p e₀ q ≤ |q| := by
  by_cases he : e₀ < exponent p e₀ q
  · refine exponent_le_abs he fun hq => ?_
    rw [hq, abs_zero] at h
    exact absurd h (not_le.mpr (mul_pos (by positivity) (two_zpow_pos _)))
  · rwa [le_antisymm (le_of_not_gt he) (le_exponent p e₀ q)]

theorem abs_units (M E : Int) : |(M : ℚ) * 2 ^ E| = |(M : ℚ)| * 2 ^ E := by
  rw [abs_mul, abs_of_pos (two_zpow_pos E)]

theorem abs_units_lt {n : Nat} {M E : Int} : |(M : ℚ) * 2 ^ E| < 2 ^ n * 2 ^ E ↔ |M| < 2 ^ n := by
  rw [abs_units, mul_lt_mul_iff_left₀ (two_zpow_pos E)]
  exact_mod_cast Iff.rfl

theorem abs_sub_units (q : ℚ) (M E : Int) : |q - M * 2 ^ E| = |q / 2 ^ E - M| * 2 ^ E := by
  have hu := two_zpow_pos E
  rw [← abs_of_pos hu, ← abs_mul, abs_of_pos hu, sub_mul, div_mul_cancel₀ _ hu.ne']

theorem zpow_split {b : ℚ} (hb : b ≠ 0) {E F : Int} (h : E ≤ F) :
    b ^ F = b ^ (F - E).toNat * b ^ E := by
  rw [← zpow_natCast, ← zpow_add₀ hb]
  congr 1
  omega

/-- What counts larger units counts the smaller ones too. -/
theorem rescale {b : Nat} (hb : 0 < b) {E F : Int} (h : E ≤ F) (N : Int) :
    ∃ K : Int, (N : ℚ) * (b : ℚ) ^ F = K * (b : ℚ) ^ E := by
  refine ⟨N * b ^ (F - E).toNat, ?_⟩
  rw [zpow_split (Nat.cast_ne_zero.mpr hb.ne') h]
  push_cast
  ring

theorem two_rescale {E F : Int} (h : E ≤ F) (N : Int) : ∃ K : Int, (N : ℚ) * 2 ^ F = K * 2 ^ E := by
  exact_mod_cast rescale (b := 2) (by decide) h N

theorem two_zpow_half (E : Int) : (2 : ℚ) ^ E = 2 * 2 ^ (E - 1) := by
  rw [← zpow_one_add₀ (by decide), add_sub_cancel]

/-- A number counts its own units. -/
theorem Fits.units (h : Fits (p + 1) e₀ x) :
    ∃ M : Int, |M| < 2 ^ (p + 1) ∧ x = M * 2 ^ exponent p e₀ x := by
  obtain ⟨M, F, hM, hF, hx⟩ := h
  by_cases hzero : x = 0
  · exact ⟨0, by simp, by rw [hzero]; simp⟩
  have hle : exponent p e₀ x ≤ F := by
    have hlt : |x| < ((2 : Nat) : ℚ) ^ (F + p + 1) := by
      have hsplit : ((2 : Nat) : ℚ) ^ (F + p + 1) = 2 ^ (p + 1) * 2 ^ F := by
        rw [Nat.cast_ofNat, add_assoc, add_comm, zpow_add₀ (by decide)]
        exact_mod_cast rfl
      rw [hsplit, hx]
      exact abs_units_lt.mpr hM
    have hlog := (Int.lt_zpow_iff_log_lt (by decide) (abs_pos.mpr hzero)).mp hlt
    rw [exponent]
    omega
  have hlt := abs_lt_exponent p e₀ x
  obtain ⟨K, hK⟩ := two_rescale hle M
  rw [← hx] at hK
  refine ⟨K, ?_, hK⟩
  generalize exponent p e₀ x = E at *
  rw [hK] at hlt
  exact abs_units_lt.mp hlt

/-- Different multiples of a unit are a unit apart. -/
theorem unit_le_abs_sub {u : ℚ} (hu : 0 < u) {M N : Int} (h : (M : ℚ) * u ≠ N * u) :
    u ≤ |M * u - N * u| := by
  have hne : M - N ≠ 0 := fun hzero => h (by rw [sub_eq_zero.mp hzero])
  have hone : (1 : ℚ) ≤ |((M - N : Int) : ℚ)| := by exact_mod_cast Int.one_le_abs hne
  rw [← sub_mul, abs_mul, abs_of_pos hu, ← Int.cast_sub]
  exact le_mul_of_one_le_left hu.le hone

/-- Multiples of units are the smaller unit apart. -/
theorem two_unit_le {M N E F : Int} (hEF : E ≤ F) (hx : x = M * 2 ^ E) (hy : y = N * 2 ^ F)
    (hne : x ≠ y) : 2 ^ E ≤ |x - y| := by
  obtain ⟨K, hK⟩ := two_rescale hEF N
  rw [hx, hy, hK] at hne ⊢
  exact unit_le_abs_sub (two_zpow_pos E) hne

/-- Two numbers are not too close to each other. -/
theorem Fits.gap (hx : Fits (p + 1) e₀ x) (hy : Fits (p + 1) e₀ y) (hne : x ≠ y) :
    |x| ≤ 2 ^ (p + 1) * |x - y| := by
  by_cases hzero : x = 0
  · rw [hzero, abs_zero]
    positivity
  obtain ⟨M, hM, hunits⟩ := hx.units
  obtain ⟨N, F, hN, hF, hother⟩ := hy
  have hlt := abs_lt_exponent p e₀ x
  have hlarge := fun h => @exponent_le_abs p e₀ x h hzero
  generalize exponent p e₀ x = E at *
  rcases le_or_gt E F with hEF | hFE
  · -- both count units of `x`
    have hunit := two_unit_le hEF hunits hother hne
    calc |x| ≤ 2 ^ (p + 1) * 2 ^ E := hlt.le
      _ ≤ 2 ^ (p + 1) * |x - y| := mul_le_mul_of_nonneg_left hunit (by positivity)
  · -- the other one is smaller
    have hhalf : (2 : ℚ) ^ F ≤ 2 ^ (E - 1) := zpow_le_zpow_right₀ (by decide) (by omega)
    have hsmall : |y| ≤ (2 ^ (p + 1) - 1) * 2 ^ (E - 1) := by
      have hcount : |(N : ℚ)| ≤ 2 ^ (p + 1) - 1 := by exact_mod_cast Int.le_sub_one_of_lt hN
      rw [hother, abs_units]
      exact mul_le_mul hcount hhalf (two_zpow_pos F).le (le_trans (abs_nonneg _) hcount)
    have hbig : 2 ^ (p + 1) * 2 ^ (E - 1) ≤ |x| := by
      refine le_trans (le_of_eq ?_) (hlarge (by omega))
      rw [two_zpow_half E]
      ring
    have hdiff := abs_sub_abs_le_abs_sub x y
    have hone : (1 : ℚ) ≤ 2 ^ (p + 1) := one_le_pow₀ (by decide)
    generalize (2 : ℚ) ^ (p + 1) = T at *
    generalize (2 : ℚ) ^ (E - 1) = w at *
    nlinarith [mul_nonneg (sub_nonneg.mpr hone) (sub_nonneg.mpr hbig)]

/-! ### Rounding -/

/-- A number is rounded to the nearest of the format, and halfway between two to the even one:
that is the one with fewer bits. -/
structure Rounds (p : Nat) (e₀ : Int) (q x : ℚ) : Prop where
  fits : Fits (p + 1) e₀ x
  nearest : ∀ y, Fits (p + 1) e₀ y → |q - x| ≤ |q - y|
  even : ∀ y, Fits (p + 1) e₀ y → y ≠ x → |q - x| = |q - y| → Fits p (e₀ + 1) x

theorem Fits.rounds (hx : Fits (p + 1) e₀ x) : Rounds p e₀ x x := by
  refine ⟨hx, fun y _ => ?_, fun y _ hne heq => ?_⟩
  · rw [sub_self, abs_zero]
    exact abs_nonneg _
  · rw [sub_self, abs_zero] at heq
    exact absurd (sub_eq_zero.mp (abs_eq_zero.mp heq.symm)).symm hne

/-- What is rounded to a positive number is positive. -/
theorem Rounds.pos (h : Rounds p e₀ q x) (hx : 0 < x) : 0 < q := by
  have hzero := h.nearest 0 (fits_zero _ _)
  rw [sub_zero] at hzero
  by_contra hq
  rw [abs_of_nonpos (by linarith), abs_of_nonpos (by linarith)] at hzero
  linarith

/-- What is no less than a number of the format is rounded to nothing less. -/
theorem Rounds.le_abs (h : Rounds p e₀ q x) (hy : Fits (p + 1) e₀ y) (hle : y ≤ |q|) : y ≤ |x| := by
  rcases abs_cases q with ⟨hq, _⟩ | ⟨hq, _⟩
  · have hnear := h.nearest y hy
    rw [abs_of_nonneg (by linarith : 0 ≤ q - y)] at hnear
    linarith [le_abs_self (q - x), le_abs_self x]
  · have hnear := h.nearest (-y) hy.neg
    rw [abs_of_nonpos (by linarith : q - -y ≤ 0)] at hnear
    linarith [neg_le_abs (q - x), neg_le_abs x]

theorem Rounds.neg (h : Rounds p e₀ q x) : Rounds p e₀ (-q) (-x) := by
  have hdist (y : ℚ) : |-q - y| = |q - -y| := by rw [← abs_neg]; congr 1; ring
  refine ⟨h.fits.neg, fun y hy => ?_, fun y hy hne heq => ?_⟩
  · rw [hdist, hdist, neg_neg]
    exact h.nearest _ hy.neg
  · rw [hdist, hdist, neg_neg] at heq
    exact (h.even _ hy.neg (fun heq => hne (by rw [← heq, neg_neg])) heq).neg

/-- What lies between a number and what it is rounded to is rounded to the same. -/
theorem Rounds.between (h : Rounds p e₀ q x) (hc : |q - x| = |q - c| + |c - x|) :
    Rounds p e₀ c x := by
  refine ⟨h.fits, fun y hy => ?_, fun y hy hne heq => ?_⟩
  · have hnear := h.nearest y hy
    have htri := abs_sub_le q c y
    linarith
  · have hnear := h.nearest y hy
    have htri := abs_sub_le q c y
    exact h.even y hy hne (by linarith)

/-- What is close to a number of the format is rounded to it. -/
theorem rounds_of_close (hx : Fits (p + 1) e₀ x) (hc : 2 ^ (p + 2) * |c - x| < |x|) :
    Rounds p e₀ c x := by
  have hcloser : ∀ y, Fits (p + 1) e₀ y → y ≠ x → |c - x| < |c - y| := by
    intro y hy hne
    have hgap := hx.gap hy hne.symm
    have htri := abs_sub_le x c y
    rw [abs_sub_comm x c] at htri
    have hpos : (0 : ℚ) < 2 ^ (p + 1) := by positivity
    rw [pow_succ] at hc
    generalize (2 : ℚ) ^ (p + 1) = T at *
    nlinarith
  refine ⟨hx, fun y hy => ?_, fun y hy hne heq => absurd heq (hcloser y hy hne).ne⟩
  by_cases hne : y = x
  · rw [hne]
  · exact (hcloser y hy hne).le

/-- A number with fewer bits has the next one half a unit away. -/
theorem Fits.next (hx : Fits p (e₀ + 1) x) : ∃ (M E : Int), x = M * 2 ^ (E + 1) ∧
    Fits (p + 1) e₀ (x + 2 ^ E) ∧ Fits (p + 1) e₀ (x - 2 ^ E) := by
  obtain ⟨M, E, hM, hE, hx⟩ := hx
  have hunits : x = (2 * M : Int) * 2 ^ (E - 1) := by
    rw [hx, two_zpow_half E]
    push_cast
    ring
  rw [abs_lt] at hM
  have hpow : (2 : Int) ^ (p + 1) = 2 * 2 ^ p := by ring
  refine ⟨M, E - 1, by rwa [sub_add_cancel], ⟨2 * M + 1, E - 1, ?_, by omega, ?_⟩,
    ⟨2 * M - 1, E - 1, ?_, by omega, ?_⟩⟩
  · rw [abs_lt]
    omega
  · rw [hunits]
    push_cast
    ring
  · rw [abs_lt]
    omega
  · rw [hunits]
    push_cast
    ring

theorem two_mul_abs_le {d u : ℚ} (hu : 0 < u) (hup : |d| ≤ |d - u|) (hdown : |d| ≤ |d + u|) :
    2 * |d| ≤ u := by
  rcases abs_cases d with ⟨h, _⟩ | ⟨h, _⟩
  · rcases abs_cases (d - u) with ⟨h', _⟩ | ⟨h', _⟩ <;> linarith
  · rcases abs_cases (d + u) with ⟨h', _⟩ | ⟨h', _⟩ <;> linarith

/-- What is rounded to a number is within half a unit of it if the numbers next to it are no
more than a unit away. -/
theorem Rounds.two_mul_error {u : ℚ} (h : Rounds p e₀ q x) (hu : 0 < u)
    (hup : Fits (p + 1) e₀ (x + u)) (hdown : Fits (p + 1) e₀ (x - u)) : 2 * |q - x| ≤ u := by
  refine two_mul_abs_le hu ?_ ?_
  · rw [sub_sub]
    exact h.nearest _ hup
  · rw [sub_add]
    exact h.nearest _ hdown

/-- A number is rounded to one only: of two with nothing between them one is odd. -/
theorem Rounds.unique (hx : Rounds p e₀ q x) (hy : Rounds p e₀ q y) : x = y := by
  by_contra hne
  have heq : |q - x| = |q - y| := le_antisymm (hx.nearest y hy.fits) (hy.nearest x hx.fits)
  obtain ⟨M, E, hxunits, hxup, hxdown⟩ := (hx.even y hy.fits (Ne.symm hne) heq).next
  obtain ⟨N, F, hyunits, hyup, hydown⟩ := (hy.even x hx.fits hne heq.symm).next
  have hxerror := hx.two_mul_error (two_zpow_pos E) hxup hxdown
  have hyerror := hy.two_mul_error (two_zpow_pos F) hyup hydown
  have htri := abs_sub_le x q y
  rw [abs_sub_comm x q] at htri
  rcases le_total E F with h | h
  · have hapart := two_unit_le (add_le_add_left h 1) hxunits hyunits hne
    rw [two_zpow_half (E + 1), add_sub_cancel_right] at hapart
    linarith [two_zpow_pos E]
  · have hapart := two_unit_le (add_le_add_left h 1) hyunits hxunits (Ne.symm hne)
    rw [two_zpow_half (F + 1), add_sub_cancel_right, abs_sub_comm] at hapart
    linarith [two_zpow_pos F]

/-- What is rounded to a number is close to it if that has all its bits. -/
theorem Rounds.error_le (h : Rounds p e₀ q x) (hx : 2 ^ p * 2 ^ e₀ ≤ |x|) :
    2 ^ (p + 1) * |q - x| ≤ |x| := by
  obtain ⟨M, hM, hunits⟩ := h.fits.units
  have hlarge := exponent_le_abs_of_le hx
  have hle := le_exponent p e₀ x
  generalize exponent p e₀ x = E at *
  have hfits : ∀ k : Int, |k| ≤ 1 → Fits (p + 1) e₀ (x + k * 2 ^ E) := by
    intro k hk
    have habs : |M + k| ≤ 2 ^ (p + 1) := by
      have := abs_add_le M k
      omega
    have heq : x + k * 2 ^ E = ((M + k : Int) : ℚ) * 2 ^ E := by
      rw [hunits]
      push_cast
      ring
    exact heq ▸ fits_of_le (Nat.succ_pos p) habs hle
  have herror : 2 * |q - x| ≤ 2 ^ E :=
    h.two_mul_error (two_zpow_pos E) (by simpa using hfits 1 (by decide))
      (by simpa [sub_eq_add_neg] using hfits (-1) (by decide))
  calc 2 ^ (p + 1) * |q - x| = 2 ^ p * (2 * |q - x|) := by ring
    _ ≤ 2 ^ p * 2 ^ E := mul_le_mul_of_nonneg_left herror (by positivity)
    _ ≤ |x| := hlarge

/-! ### The number that a number is rounded to -/

def roundEven (r : ℚ) : Int :=
  if r - ⌊r⌋ < 1 / 2 then ⌊r⌋
  else if 1 / 2 < r - ⌊r⌋ then ⌊r⌋ + 1
  else if ⌊r⌋ % 2 = 0 then ⌊r⌋ else ⌊r⌋ + 1

theorem roundEven_error (r : ℚ) : |r - roundEven r| < 1 / 2 ∨
    |r - roundEven r| = 1 / 2 ∧ roundEven r % 2 = 0 := by
  have hlow := Int.floor_le r
  have hhigh := Int.lt_floor_add_one r
  unfold roundEven
  split_ifs with h h' heven
  · left
    rw [abs_of_nonneg (by linarith)]
    exact h
  · left
    push_cast
    rw [abs_of_neg (by linarith)]
    linarith
  · right
    rw [abs_of_nonneg (by linarith)]
    exact ⟨by linarith, heven⟩
  · right
    push_cast
    rw [abs_of_neg (by linarith)]
    exact ⟨by linarith, by omega⟩

theorem one_le_abs_sub {M K : Int} (h : K ≠ M) : (1 : ℚ) ≤ |(M : ℚ) - K| := by
  exact_mod_cast Int.one_le_abs (sub_ne_zero.mpr h.symm)

/-- The nearest integer, and of two the even one. -/
theorem roundEven_nearest (r : ℚ) {K : Int} (hK : K ≠ roundEven r) :
    |r - roundEven r| ≤ |r - K| ∧ (|r - roundEven r| = |r - K| → roundEven r % 2 = 0) := by
  have hone := one_le_abs_sub hK
  have htri := abs_sub_le (roundEven r : ℚ) r K
  rw [abs_sub_comm _ r] at htri
  rcases roundEven_error r with hlt | ⟨heq, heven⟩
  · exact ⟨by linarith, fun h => by linarith⟩
  · exact ⟨by linarith, fun _ => heven⟩

def nearest (p : Nat) (e₀ : Int) (q : ℚ) : ℚ :=
  roundEven (q / 2 ^ exponent p e₀ q) * 2 ^ exponent p e₀ q

theorem roundEven_le (r : ℚ) (K : Int) : |r - roundEven r| ≤ |r - K| := by
  by_cases hK : K = roundEven r
  · rw [hK]
  · exact (roundEven_nearest r hK).1

theorem roundEven_error_le (r : ℚ) : |r - roundEven r| ≤ 1 / 2 := by
  rcases roundEven_error r with h | h
  · exact h.le
  · exact h.1.le

theorem abs_roundEven_le {r : ℚ} {K : Int} (h : |r| < K) : |roundEven r| ≤ K := by
  have herror := roundEven_error_le r
  have htri := abs_sub_abs_le_abs_sub (roundEven r : ℚ) r
  rw [abs_sub_comm] at htri
  have hround : (|roundEven r| : ℚ) < K + 1 := by linarith
  exact Int.le_of_lt_add_one (by exact_mod_cast hround)

theorem abs_count_le (p : Nat) (e₀ : Int) (q : ℚ) :
    |roundEven (q / 2 ^ exponent p e₀ q)| ≤ 2 ^ (p + 1) := by
  refine abs_roundEven_le ?_
  rw [abs_div, abs_of_pos (two_zpow_pos _), div_lt_iff₀ (two_zpow_pos _)]
  exact_mod_cast abs_lt_exponent p e₀ q

theorem nearest_zero (p : Nat) (e₀ : Int) : nearest p e₀ 0 = 0 := by
  simp [nearest, roundEven]

/-- What counts smaller units is farther away than a multiple of the unit. -/
theorem nearest_lt {N F : Int} (hq : q ≠ 0) (hN : |N| < 2 ^ (p + 1)) (hF : e₀ ≤ F)
    (hFE : F < exponent p e₀ q) : |q - nearest p e₀ q| < |q - N * 2 ^ F| := by
  have hlarge := exponent_le_abs (lt_of_le_of_lt hF hFE) hq
  unfold nearest
  generalize exponent p e₀ q = E at *
  have hu := two_zpow_pos E
  have hsmall : |(N : ℚ) * 2 ^ F| < 2 ^ p * 2 ^ E := by
    calc |(N : ℚ) * 2 ^ F| < 2 ^ (p + 1) * 2 ^ F := abs_units_lt.mpr hN
      _ ≤ 2 ^ (p + 1) * 2 ^ (E - 1) :=
        mul_le_mul_of_nonneg_left (zpow_le_zpow_right₀ (by decide) (by omega)) (by positivity)
      _ = 2 ^ p * 2 ^ E := by
        rw [two_zpow_half E]
        ring
  have hfar := abs_sub_abs_le_abs_sub q (N * 2 ^ F)
  obtain ⟨K, hK⟩ : ∃ K : Int, |q - K * 2 ^ E| = |q| - 2 ^ p * 2 ^ E := by
    rcases abs_cases q with ⟨h, _⟩ | ⟨h, _⟩
    · refine ⟨2 ^ p, ?_⟩
      push_cast
      rw [abs_of_nonneg (by linarith), h]
    · refine ⟨-2 ^ p, ?_⟩
      push_cast
      rw [abs_of_nonpos (by linarith), h]
      ring
  have hround : |q - roundEven (q / 2 ^ E) * 2 ^ E| ≤ |q - K * 2 ^ E| := by
    rw [abs_sub_units, abs_sub_units]
    exact mul_le_mul_of_nonneg_right (roundEven_le _ K) hu.le
  linarith

/-- **What a number is rounded to.** -/
theorem rounds_nearest (hp : 0 < p) (q : ℚ) : Rounds p e₀ q (nearest p e₀ q) := by
  by_cases hq : q = 0
  · rw [hq, nearest_zero]
    exact (fits_zero (p + 1) e₀).rounds
  have hbound := abs_count_le p e₀ q
  have hle := le_exponent p e₀ q
  -- a number with larger units is a multiple of the unit too
  have hcases : ∀ y, Fits (p + 1) e₀ y → |q - nearest p e₀ q| < |q - y| ∨
      ∃ K : Int, y = K * 2 ^ exponent p e₀ q := by
    rintro y ⟨N, F, hN, hF, rfl⟩
    rcases lt_or_ge F (exponent p e₀ q) with hFE | hEF
    · exact .inl (nearest_lt hq hN hF hFE)
    · exact .inr (two_rescale hEF N)
  unfold nearest at *
  generalize exponent p e₀ q = E at *
  have hu := two_zpow_pos E
  refine ⟨fits_of_le (Nat.succ_pos p) hbound hle, fun y hy => ?_, fun y hy hne heq => ?_⟩
  · rcases hcases y hy with hlt | ⟨K, rfl⟩
    · exact hlt.le
    · rw [abs_sub_units, abs_sub_units]
      exact mul_le_mul_of_nonneg_right (roundEven_le _ K) hu.le
  · rcases hcases y hy with hlt | ⟨K, rfl⟩
    · exact absurd heq hlt.ne
    · have hK : K ≠ roundEven (q / 2 ^ E) := fun h => hne (by rw [h])
      rw [abs_sub_units, abs_sub_units] at heq
      have heven := (roundEven_nearest _ hK).2 (mul_right_cancel₀ hu.ne' heq)
      generalize roundEven (q / 2 ^ E) = M at *
      obtain ⟨m, rfl⟩ := Int.dvd_of_emod_eq_zero heven
      have hm : |m| ≤ 2 ^ p := by
        have htwo : |(2 : Int)| = 2 := by decide
        rw [abs_mul, htwo, pow_succ] at hbound
        omega
      have hunits : ((2 * m : Int) : ℚ) * 2 ^ E = m * 2 ^ (E + 1) := by
        rw [two_zpow_half (E + 1), add_sub_cancel_right]
        push_cast
        ring
      exact hunits ▸ fits_of_le hp hm (by omega)

theorem nearest_eq_iff (hp : 0 < p) : nearest p e₀ q = x ↔ Rounds p e₀ q x :=
  ⟨fun h => h ▸ rounds_nearest hp q, fun h => (rounds_nearest hp q).unique h⟩

end BinaryFloat
