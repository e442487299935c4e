import Webrockets.Library.BinaryFloat

/-! Decimals for the numbers of a binary format.

Of the decimals that are rounded to a number, `Shortest` says which one to write: one with the
fewest digits, and of these one that is closest to the number. A decimal of few digits is the only
one that is written for what it is rounded to, and none that is written has many. `shortest` finds
one. -/
namespace BinaryFloat

/-- At most `n` digits, wherever the point is. -/
def Decimal (n : Nat) (q : ℚ) : Prop := ∃ (m : Nat) (j : Int), m < 10 ^ n ∧ |q| = m * 10 ^ j

/-- What is to be written for `x`. -/
structure Shortest (p : Nat) (e₀ : Int) (q x : ℚ) : Prop where
  rounds : Rounds p e₀ q x
  shortest : ∀ r n, Rounds p e₀ r x → Decimal n r → Decimal n q
  closest : ∀ r, Rounds p e₀ r x → (∀ n, Decimal n q → Decimal n r) → |q - x| ≤ |r - x|

variable {p n : Nat} {e₀ : Int} {q r x y : ℚ}

theorem ten_zpow_pos (j : Int) : (0 : ℚ) < 10 ^ j := zpow_pos (by decide) j

theorem ten_zpow_split {i j : Int} (h : i ≤ j) : (10 : ℚ) ^ j = 10 ^ (j - i).toNat * 10 ^ i :=
  zpow_split (by decide) h

theorem Decimal.mono {k : Nat} (h : Decimal n q) (hk : n ≤ k) : Decimal k q := by
  obtain ⟨m, j, hm, hq⟩ := h
  exact ⟨m, j, lt_of_lt_of_le hm (Nat.pow_le_pow_right (by decide) hk), hq⟩

theorem Decimal.neg (h : Decimal n q) : Decimal n (-q) := by
  rwa [Decimal, abs_neg]

theorem decimal_zero (n : Nat) : Decimal n 0 := ⟨0, 0, by positivity, by simp⟩

/-- Only zero has no digits. -/
theorem Decimal.pos (h : Decimal n q) (hq : q ≠ 0) : 0 < n := by
  rcases Nat.eq_zero_or_pos n with rfl | hn
  · obtain ⟨m, j, hm, heq⟩ := h
    rw [Nat.lt_one_iff.mp hm, Nat.cast_zero, zero_mul] at heq
    exact absurd (abs_eq_zero.mp heq) hq
  · exact hn

/-- A power of ten has one digit. -/
theorem decimal_of_le {m : Nat} {j : Int} (hn : 0 < n) (hm : m ≤ 10 ^ n) (hq : |q| = m * 10 ^ j) :
    Decimal n q := by
  rcases Nat.lt_or_eq_of_le hm with hlt | rfl
  · exact ⟨m, j, hlt, hq⟩
  · refine ⟨1, n + j, Nat.one_lt_pow hn.ne' (by decide), hq.trans ?_⟩
    rw [zpow_add₀ (by decide), zpow_natCast]
    push_cast
    ring

/-! ### Few digits, and many -/

theorem Shortest.neg (h : Shortest p e₀ q x) : Shortest p e₀ (-q) (-x) := by
  have hdist (r : ℚ) : |-r - -x| = |r - x| := by rw [← abs_neg]; congr 1; ring
  refine ⟨h.rounds.neg, fun r k hr hk => ?_, fun r hr hall => ?_⟩
  · have hr' := hr.neg
    rw [neg_neg] at hr'
    exact (h.shortest _ k hr' hk.neg).neg
  · have hr' := hr.neg
    rw [neg_neg] at hr'
    have hclose := h.closest _ hr' fun k hk => (hall k hk.neg).neg
    rw [hdist, ← neg_neg r, hdist]
    exact hclose

/-- The integer in units of a decimal. -/
theorem Decimal.units (h : Decimal n q) : ∃ (M j : Int), q = M * 10 ^ j ∧ |q| < 10 ^ n * 10 ^ j := by
  obtain ⟨m, j, hm, hq⟩ := h
  have hlt : |q| < 10 ^ n * 10 ^ j := by
    rw [hq, mul_lt_mul_iff_left₀ (ten_zpow_pos j)]
    exact_mod_cast hm
  rcases abs_choice q with habs | habs
  · exact ⟨m, j, by rw [← habs, hq, Int.cast_natCast], hlt⟩
  · refine ⟨-m, j, ?_, hlt⟩
    rw [← neg_neg q, ← habs, hq]
    push_cast
    ring

/-- Decimals are a unit of the last digit apart. -/
theorem lt_of_places {M N i j : Int} (h : i ≤ j) (hq : q = M * 10 ^ i) (hr : r = N * 10 ^ j)
    (hlt : |q| < 10 ^ n * 10 ^ i) (hne : q ≠ r) : |q| < 10 ^ n * |q - r| := by
  obtain ⟨K, hK⟩ : ∃ K : Int, (N : ℚ) * 10 ^ j = K * 10 ^ i := by
    exact_mod_cast rescale (b := 10) (by decide) h N
  have hunit : (10 : ℚ) ^ i ≤ |q - r| := by
    rw [hq, hr, hK] at hne ⊢
    exact unit_le_abs_sub (ten_zpow_pos i) hne
  exact lt_of_lt_of_le hlt (mul_le_mul_of_nonneg_left hunit (by positivity))

/-- Different decimals of few digits are not too close to each other. -/
theorem Decimal.gap (hq : Decimal n q) (hr : Decimal n r) (hne : q ≠ r) :
    |q| < 10 ^ n * |q - r| ∨ |r| < 10 ^ n * |q - r| := by
  obtain ⟨M, i, hqunits, hqlt⟩ := hq.units
  obtain ⟨N, j, hrunits, hrlt⟩ := hr.units
  rcases le_total i j with h | h
  · exact .inl (lt_of_places h hqunits hrunits hqlt hne)
  · rw [abs_sub_comm]
    exact .inr (lt_of_places h hrunits hqunits hrlt hne.symm)

/-- Of two decimals of few digits only one is rounded to a number that has all its bits. -/
theorem Decimal.unique (hn : 2 * 10 ^ n ≤ 2 ^ p) (hx : 2 ^ p * 2 ^ e₀ ≤ |x|)
    (hq : Decimal n q) (hr : Decimal n r) (hqx : Rounds p e₀ q x) (hrx : Rounds p e₀ r x) :
    q = r := by
  by_contra hne
  have hbits : (2 * 10 ^ n : ℚ) ≤ 2 ^ p := by exact_mod_cast hn
  have hone : (1 : ℚ) ≤ 2 ^ p := one_le_pow₀ (by decide)
  have hpos : (0 : ℚ) ≤ 2 ^ p := by positivity
  -- what is rounded to `x` is not much smaller
  have hlarge : ∀ s, Rounds p e₀ s x → 2 ^ p * (2 * |s - x|) ≤ |x| ∧ |x| ≤ 2 * |s| := by
    intro s hs
    have herror := hs.error_le hx
    rw [pow_succ, mul_assoc] at herror
    have htri := abs_sub_abs_le_abs_sub x s
    rw [abs_sub_comm x s] at htri
    have hself := le_mul_of_one_le_left (mul_nonneg (by decide : (0 : ℚ) ≤ 2) (abs_nonneg (s - x))) hone
    exact ⟨herror, by linarith⟩
  have hclose : 2 ^ p * |q - r| ≤ |x| := by
    have hdiff := abs_sub_le q x r
    rw [abs_sub_comm x r] at hdiff
    have hscaled := mul_le_mul_of_nonneg_left hdiff hpos
    linarith [(hlarge q hqx).1, (hlarge r hrx).1]
  have hdigits := mul_le_mul_of_nonneg_right hbits (abs_nonneg (q - r))
  rcases hq.gap hr hne with h | h
  · linarith [(hlarge q hqx).2]
  · linarith [(hlarge r hrx).2]

/-- **A decimal of few digits is what is written for the number that it is rounded to,** and
nothing else is. -/
theorem Decimal.shortest (hn : 2 * 10 ^ n ≤ 2 ^ p) (hx : 2 ^ p * 2 ^ e₀ ≤ |x|) (hq : Decimal n q)
    (hqx : Rounds p e₀ q x) :
    Shortest p e₀ q x ∧ ∀ r, Shortest p e₀ r x → r = q := by
  have honly {r : ℚ} (hr : Decimal n r) (hrx : Rounds p e₀ r x) : r = q :=
    hr.unique hn hx hq hrx hqx
  refine ⟨⟨hqx, fun r k hrx hr => ?_, fun r hrx hall => ?_⟩, fun r hr => ?_⟩
  · rcases le_total k n with hk | hk
    · exact honly (hr.mono hk) hrx ▸ hr
    · exact hq.mono hk
  · rw [honly (hall n hq) hrx]
  · exact honly (hr.shortest q n hqx hq) hr.rounds

/-- Where the last of `n` digits of a number stands. -/
def place (n : Nat) (q : ℚ) : Int := Int.log 10 |q| + 1 - n

theorem place_le (hq : q ≠ 0) (n : Nat) : 10 ^ n * 10 ^ place (n + 1) q ≤ |q| := by
  refine le_trans (le_of_eq ?_) (Int.zpow_log_le_self (b := 10) (by decide) (abs_pos.mpr hq))
  rw [← zpow_natCast, ← zpow_add₀ (by decide), Nat.cast_ofNat, place]
  congr 1
  push_cast
  omega

theorem lt_place (n : Nat) (q : ℚ) : |q| < 10 ^ n * 10 ^ place n q := by
  refine lt_of_lt_of_eq (Int.lt_zpow_succ_log_self (b := 10) (by decide) |q|) ?_
  rw [← zpow_natCast, ← zpow_add₀ (by decide), Nat.cast_ofNat, place]
  congr 1
  omega

/-- With a digit more than there are bits for, there is a decimal for every number. -/
theorem Fits.decimal (hn : 2 ^ (p + 1) < 10 ^ n) (hx : Fits (p + 1) e₀ x) :
    ∃ r, Decimal (n + 1) r ∧ Rounds p e₀ r x := by
  by_cases hzero : x = 0
  · exact ⟨0, decimal_zero _, hzero ▸ hx.rounds⟩
  have hlow := place_le hzero n
  have hhigh := lt_place (n + 1) x
  generalize place (n + 1) x = j at *
  have hu := ten_zpow_pos j
  have hscaled : |x / 10 ^ j| < (10 ^ (n + 1) : Int) := by
    rw [abs_div, abs_of_pos hu, div_lt_iff₀ hu]
    exact_mod_cast hhigh
  have hcount := abs_roundEven_le hscaled
  have herror := roundEven_error_le (x / 10 ^ j)
  generalize roundEven (x / 10 ^ j) = M at *
  refine ⟨M * 10 ^ j, ?_, rounds_of_close hx ?_⟩
  · refine decimal_of_le (m := M.natAbs) (j := j) (Nat.succ_pos n) ?_ ?_
    · zify
      exact hcount
    · rw [abs_mul, abs_of_pos hu, Nat.cast_natAbs, Int.cast_abs]
  · have hdist : |M * 10 ^ j - x| = |x / 10 ^ j - M| * 10 ^ j := by
      rw [abs_sub_comm, ← abs_of_pos hu, ← abs_mul, abs_of_pos hu, sub_mul, div_mul_cancel₀ _ hu.ne']
    have hbits : (2 ^ (p + 1) : ℚ) < 10 ^ n := by exact_mod_cast hn
    calc 2 ^ (p + 2) * |M * 10 ^ j - x| = 2 ^ (p + 1) * (2 * |x / 10 ^ j - M|) * 10 ^ j := by
          rw [hdist]
          ring
      _ ≤ 2 ^ (p + 1) * 1 * 10 ^ j := by
          refine mul_le_mul_of_nonneg_right (mul_le_mul_of_nonneg_left ?_ (by positivity)) hu.le
          linarith
      _ < 10 ^ n * 10 ^ j := by
          rw [mul_one]
          exact mul_lt_mul_of_pos_right hbits hu
      _ ≤ |x| := hlow

/-- Nothing that is written has many digits. -/
theorem Shortest.decimal (h : Shortest p e₀ q x) (hn : 2 ^ (p + 1) < 10 ^ n) :
    Decimal (n + 1) q := by
  obtain ⟨r, hr, hrx⟩ := h.rounds.fits.decimal hn
  exact h.shortest r _ hrx hr

/-! ### A decimal that is written -/

/-- A one for a number with a digit too many. -/
def carry (n m : Nat) (j : Int) : Nat × Int := if m = 10 ^ n then (1, j + n) else (m, j)

theorem carry_value (n m : Nat) (j : Int) :
    ((carry n m j).1 : ℚ) * 10 ^ (carry n m j).2 = m * 10 ^ j := by
  unfold carry
  split
  · next h =>
    rw [h, zpow_add₀ (by decide), zpow_natCast]
    push_cast
    ring
  · rfl

section
variable (p e₀)

/-- One of two neighbours of `n` digits is the closest that is rounded to `y`, if there is any. -/
def candidate (y : ℚ) (n : Nat) : Option (Nat × Int) :=
  let j := place n y
  let down := ⌊y / 10 ^ j⌋₊
  let up := ⌈y / 10 ^ j⌉₊
  let closer := y - down * 10 ^ j < up * 10 ^ j - y ∨
    y - down * 10 ^ j = up * 10 ^ j - y ∧ down % 2 = 0
  if nearest p e₀ (down * 10 ^ j) = y ∧ (closer ∨ nearest p e₀ (up * 10 ^ j) ≠ y) then some (down, j)
  else if nearest p e₀ (up * 10 ^ j) = y then some (carry n up j)
  else none

def shortest (most : Nat) (y : ℚ) : Option (Nat × Int) :=
  (List.range' 1 most).findSome? (candidate p e₀ y)

end

/-- A decimal of `n` digits lies beyond one of the neighbours. -/
theorem Decimal.beyond (hn : 0 < n) (hy : 0 < y) (hr : Decimal n r) (hpos : 0 < r) :
    (r ≤ y → r ≤ ⌊y / 10 ^ place n y⌋₊ * 10 ^ place n y) ∧
      (y ≤ r → ⌈y / 10 ^ place n y⌉₊ * 10 ^ place n y ≤ r) := by
  obtain ⟨k, rfl⟩ := Nat.exists_eq_succ_of_ne_zero hn.ne'
  have hlow := place_le hy.ne' k
  obtain ⟨m, i, hm, hunits⟩ := hr
  rw [abs_of_pos hpos] at hunits
  rw [abs_of_pos hy] at hlow
  rw [Nat.succ_eq_add_one]
  generalize place (k + 1) y = j at *
  have hu := ten_zpow_pos j
  rcases le_or_gt j i with hji | hij
  · have hscaled : r = (m * 10 ^ (i - j).toNat : Nat) * 10 ^ j := by
      rw [hunits, ten_zpow_split hji]
      push_cast
      ring
    generalize m * 10 ^ (i - j).toNat = L at *
    rw [hscaled]
    constructor
    · intro hle
      refine mul_le_mul_of_nonneg_right ?_ hu.le
      exact_mod_cast Nat.le_floor ((le_div_iff₀ hu).mpr hle)
    · intro hle
      refine mul_le_mul_of_nonneg_right ?_ hu.le
      exact_mod_cast Nat.ceil_le.mpr ((div_le_iff₀ hu).mpr hle)
  · -- it is smaller than all numbers with the leading digit of `y`
    have hsmall : r < 10 ^ k * 10 ^ j := by
      calc r < 10 ^ (k + 1) * 10 ^ i := by
            rw [hunits, mul_lt_mul_iff_left₀ (ten_zpow_pos i)]
            exact_mod_cast hm
        _ ≤ 10 ^ (k + 1) * 10 ^ (j - 1) :=
          mul_le_mul_of_nonneg_left (zpow_le_zpow_right₀ (by decide) (by omega)) (by positivity)
        _ = 10 ^ k * 10 ^ j := by
          rw [← add_sub_cancel 1 j, zpow_one_add₀ (by decide), add_sub_cancel]
          ring
    have hfloor : (10 ^ k : ℚ) ≤ ⌊y / 10 ^ j⌋₊ := by
      exact_mod_cast Nat.le_floor (by push_cast; exact (le_div_iff₀ hu).mpr hlow)
    exact ⟨fun _ => hsmall.le.trans (mul_le_mul_of_nonneg_right hfloor hu.le), fun hle => by linarith⟩

/-- The neighbours of `n` digits. -/
theorem neighbours (hn : 0 < n) (hy : 0 < y) :
    ⌊y / 10 ^ place n y⌋₊ * 10 ^ place n y ≤ y ∧ y ≤ ⌈y / 10 ^ place n y⌉₊ * 10 ^ place n y ∧
      Decimal n (⌊y / 10 ^ place n y⌋₊ * 10 ^ place n y) ∧
      Decimal n (⌈y / 10 ^ place n y⌉₊ * 10 ^ place n y) := by
  have hhigh := lt_place n y
  rw [abs_of_pos hy] at hhigh
  generalize place n y = j at *
  have hu := ten_zpow_pos j
  have habs (m : Nat) : |(m : ℚ) * 10 ^ j| = m * 10 ^ j :=
    abs_of_nonneg (mul_nonneg (Nat.cast_nonneg m) hu.le)
  have hscaled : y / 10 ^ j ≤ (10 ^ n : Nat) := by
    rw [div_le_iff₀ hu]
    exact_mod_cast hhigh.le
  have hup : ⌈y / 10 ^ j⌉₊ ≤ 10 ^ n := Nat.ceil_le.mpr hscaled
  refine ⟨?_, ?_, decimal_of_le hn ((Nat.floor_le_ceil _).trans hup) (habs _),
    decimal_of_le hn hup (habs _)⟩
  · rw [← le_div_iff₀ hu]
    exact Nat.floor_le (div_pos hy hu).le
  · rw [← div_le_iff₀ hu]
    exact Nat.le_ceil _

/-- One of the neighbours is as close as whatever is rounded to the number. -/
theorem Rounds.neighbour (hp : 0 < p) (hn : 0 < n) (hy : 0 < y) (h : Rounds p e₀ r y)
    (hr : Decimal n r) :
    BinaryFloat.nearest p e₀ (⌊y / 10 ^ place n y⌋₊ * 10 ^ place n y) = y ∧
        y - ⌊y / 10 ^ place n y⌋₊ * 10 ^ place n y ≤ |r - y| ∨
      BinaryFloat.nearest p e₀ (⌈y / 10 ^ place n y⌉₊ * 10 ^ place n y) = y ∧
        ⌈y / 10 ^ place n y⌉₊ * 10 ^ place n y - y ≤ |r - y| := by
  obtain ⟨hdown, hup, _, _⟩ := neighbours hn hy
  obtain ⟨hbelow, habove⟩ := hr.beyond hn hy (h.pos hy)
  generalize (⌊y / 10 ^ place n y⌋₊ : ℚ) * 10 ^ place n y = low at *
  generalize (⌈y / 10 ^ place n y⌉₊ : ℚ) * 10 ^ place n y = high at *
  rcases le_total r y with hle | hle
  · have hr := hbelow hle
    have hbetween : |r - y| = |r - low| + |low - y| := by
      rw [abs_of_nonpos (by linarith), abs_of_nonpos (by linarith), abs_of_nonpos (by linarith)]
      ring
    refine .inl ⟨(nearest_eq_iff hp).mpr (h.between hbetween), ?_⟩
    rw [abs_of_nonpos (by linarith)]
    linarith
  · have hr := habove hle
    have hbetween : |r - y| = |r - high| + |high - y| := by
      rw [abs_of_nonneg (by linarith), abs_of_nonneg (by linarith), abs_of_nonneg (by linarith)]
      ring
    refine .inr ⟨(nearest_eq_iff hp).mpr (h.between hbetween), ?_⟩
    rw [abs_of_nonneg (by linarith)]
    linarith

theorem candidate_none (hp : 0 < p) (hn : 0 < n) (hy : 0 < y) (h : candidate p e₀ y n = none)
    (hr : Rounds p e₀ r y) : ¬ Decimal n r := by
  intro hdecimal
  simp only [candidate] at h
  split_ifs at h with hlow hhigh
  rcases hr.neighbour hp hn hy hdecimal with ⟨hdown, _⟩ | ⟨hup, _⟩
  · exact hlow ⟨hdown, .inr hhigh⟩
  · exact hhigh hup

theorem candidate_some (hp : 0 < p) (hn : 0 < n) (hy : 0 < y) {m : Nat} {j : Int}
    (h : candidate p e₀ y n = some (m, j)) :
    Rounds p e₀ (m * 10 ^ j) y ∧ Decimal n (m * 10 ^ j) ∧
      ∀ r, Rounds p e₀ r y → Decimal n r → |m * 10 ^ j - y| ≤ |r - y| := by
  obtain ⟨hdown, hup, hdowndigits, hupdigits⟩ := neighbours hn hy
  have hclosest := fun r hr hdigits => @Rounds.neighbour p n e₀ r y hp hn hy hr hdigits
  simp only [candidate] at h
  split_ifs at h with hlow hhigh
  · obtain ⟨rfl, rfl⟩ := Prod.mk.inj (Option.some.inj h)
    refine ⟨(nearest_eq_iff hp).mp hlow.1, hdowndigits, fun r hr hdigits => ?_⟩
    rw [abs_of_nonpos (by linarith), neg_sub]
    rcases hclosest r hr hdigits with ⟨_, hle⟩ | ⟨hnearest, hle⟩
    · exact hle
    · rcases hlow.2 with (hlt | ⟨heq, _⟩) | hne
      · linarith
      · linarith
      · exact absurd hnearest hne
  · have hvalue := carry_value n ⌈y / 10 ^ place n y⌉₊ (place n y)
    rw [Option.some.inj h] at hvalue
    rw [hvalue]
    refine ⟨(nearest_eq_iff hp).mp hhigh, hupdigits, fun r hr hdigits => ?_⟩
    rw [abs_of_nonneg (by linarith)]
    rcases hclosest r hr hdigits with ⟨hnearest, hle⟩ | ⟨_, hle⟩
    · have hnot : ¬ (y - ⌊y / 10 ^ place n y⌋₊ * 10 ^ place n y <
          ⌈y / 10 ^ place n y⌉₊ * 10 ^ place n y - y) := fun hlt => hlow ⟨hnearest, .inl (.inl hlt)⟩
      linarith
    · exact hle

/-- **What is found is what is to be written.** -/
theorem shortest_spec (hp : 0 < p) (hn : 2 ^ (p + 1) < 10 ^ n) (hy : 0 < y)
    (hfits : Fits (p + 1) e₀ y) :
    ∃ m j, shortest p e₀ (n + 1) y = some (m, j) ∧ Shortest p e₀ (m * 10 ^ j) y := by
  cases h : shortest p e₀ (n + 1) y with
  | none =>
    obtain ⟨r, hr, hrounds⟩ := hfits.decimal hn
    have hnone := List.findSome?_eq_none_iff.mp h (n + 1) (by simp)
    exact absurd hr (candidate_none hp (Nat.succ_pos n) hy hnone hrounds)
  | some found =>
    obtain ⟨before, k, after, hsplit, hk, hnone⟩ := List.findSome?_eq_some_iff.mp h
    have hmem : k ∈ List.range' 1 (n + 1) := by
      rw [hsplit]
      simp
    have hpos : 0 < k := by
      rw [List.mem_range'_1] at hmem
      omega
    have hbefore : ∀ i, 0 < i → i < k → i ∈ before := by
      intro i hi hik
      have hsorted := List.pairwise_lt_range' (s := 1) (n := n + 1)
      have himem : i ∈ List.range' 1 (n + 1) := by
        rw [List.mem_range'_1] at hmem ⊢
        omega
      rw [hsplit] at himem hsorted
      have hafter := (List.pairwise_cons.mp (List.pairwise_append.mp hsorted).2.1).1
      rcases List.mem_append.mp himem with hin | hin
      · exact hin
      · rcases List.mem_cons.mp hin with rfl | hin
        · exact absurd hik (Nat.lt_irrefl _)
        · exact absurd (hafter i hin) (Nat.lt_asymm hik)
    obtain ⟨hrounds, hdigits, hclosest⟩ := candidate_some hp hpos hy hk
    refine ⟨found.1, found.2, rfl, hrounds, fun r i hr hi => ?_, fun r hr hall => ?_⟩
    · rcases Nat.lt_or_ge i k with hik | hki
      · have hipos := hi.pos (hr.pos hy).ne'
        exact absurd hi (candidate_none hp hipos hy (hnone i (hbefore i hipos hik)) hr)
      · exact hdigits.mono hki
    · exact hclosest r hr (hall k hdigits)

end BinaryFloat
