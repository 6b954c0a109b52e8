import Mathlib.Algebra.Order.Round
import Mathlib.Data.Rat.Floor
import Mathlib.Order.Bounds.Basic
import Mathlib.Tactic.Linarith
import Mathlib.Tactic.NormNum
import Mathlib.Tactic.Positivity
import Mathlib.Tactic.Ring
import Meshcast.ValidityTime

/-!
# Meshcast — a time is encoded as the nearest one

The times of one exponent are evenly spaced, and the first time of the next exponent continues them.
So encoding rounds to a whole number of spacings, and a mantissa that is rounded up to sixteen is
the first time of the next exponent. Times of a smaller exponent are farther off than the first time
of the exponent in use; times of a larger one are whole numbers of spacings too.

* **`seconds_ofSeconds`** — what is encoded is read as the rounded time, cut off at the longest one.
* **`abs_rounded_sub_le`** — no whole number of spacings is nearer than the rounded time.
* **`rounded_mono`** — rounding keeps the order, also across exponents.
* **`nearest_time`** — the result.
-/

namespace Meshcast

namespace ValidityTime

/-! ## Spacings -/

/-- How far apart the times of one exponent are. -/
def spacing (b : ℕ) : ℚ :=
  2 ^ b / 256

theorem spacing_pos (b : ℕ) : 0 < spacing b := by
  unfold spacing
  positivity

theorem spacing_add (b k : ℕ) : spacing (b + k) = 2 ^ k * spacing b := by
  unfold spacing
  rw [pow_add]
  ring

theorem spacing_succ (b : ℕ) : spacing (b + 1) = 2 * spacing b := by
  rw [spacing_add, pow_one]

theorem spacing_last : spacing 15 = 128 := by
  unfold spacing
  norm_num

theorem spacing_mono {b c : ℕ} (h : b ≤ c) : spacing b ≤ spacing c := by
  obtain ⟨k, rfl⟩ := Nat.exists_eq_add_of_le h
  rw [spacing_add]
  exact le_mul_of_one_le_left (spacing_pos b).le (one_le_pow₀ one_le_two)

/-- The first time of an exponent continues the times of every smaller one. -/
theorem spacing_lt {b c : ℕ} (h : b < c) : 32 * spacing b ≤ 16 * spacing c := by
  have hle : spacing (b + 1) ≤ spacing c := spacing_mono h
  rw [spacing_succ] at hle
  linarith

theorem shortest_mul (b : ℕ) : shortest * (1 <<< b : ℕ) = 16 * spacing b := by
  unfold shortest spacing
  rw [Nat.one_shiftLeft]
  push_cast
  ring

theorem shortest_eq : shortest = 16 * spacing 0 := by
  unfold shortest spacing
  norm_num

/-- The longest time, as a whole number of spacings of any exponent. -/
theorem longest_eq {b : ℕ} (hb : b ≤ 15) :
    (3968 : ℚ) = (31 * 2 ^ (15 - b) : ℤ) * spacing b := by
  push_cast
  rw [mul_assoc, ← spacing_add, Nat.add_sub_cancel' hb, spacing_last]
  norm_num

/-! ## Reading -/

theorem mantissa_lt (v : ValidityTime) : v.mantissa < 16 := by
  have := v.octet.toNat_lt
  unfold mantissa
  omega

theorem exponent_lt (v : ValidityTime) : v.exponent < 16 := by
  unfold exponent
  omega

theorem seconds_eq (v : ValidityTime) : v.seconds = (16 + v.mantissa) * spacing v.exponent := by
  unfold seconds
  rw [mul_right_comm, shortest_mul]
  ring

theorem seconds_ofNibbles {a b : ℕ} (ha : a < 16) (hb : b < 16) :
    (ofNibbles a b).seconds = (16 + a) * spacing b := by
  have hoctet : (UInt8.ofNat (a * 16 + b)).toNat = a * 16 + b :=
    UInt8.toNat_ofNat_of_lt' (by show a * 16 + b < 256; omega)
  have hmantissa : (ofNibbles a b).mantissa = a := by
    unfold ofNibbles mantissa
    rw [hoctet]
    omega
  have hexponent : (ofNibbles a b).exponent = b := by
    unfold ofNibbles exponent
    rw [hoctet]
    omega
  rw [seconds_eq, hmantissa, hexponent]

theorem le_seconds (v : ValidityTime) : 16 * spacing v.exponent ≤ v.seconds := by
  rw [seconds_eq]
  refine mul_le_mul_of_nonneg_right ?_ (spacing_pos _).le
  have : (0 : ℚ) ≤ v.mantissa := Nat.cast_nonneg _
  linarith

theorem seconds_le (v : ValidityTime) : v.seconds ≤ 31 * spacing v.exponent := by
  rw [seconds_eq]
  refine mul_le_mul_of_nonneg_right ?_ (spacing_pos _).le
  have : (v.mantissa : ℚ) ≤ 15 := by exact_mod_cast Nat.le_of_lt_succ v.mantissa_lt
  linarith

theorem shortest_le_seconds (v : ValidityTime) : shortest ≤ v.seconds := by
  have hfirst := spacing_mono (Nat.zero_le v.exponent)
  have hle := v.le_seconds
  rw [shortest_eq]
  linarith

theorem isGreatest_longest : IsGreatest (Set.range seconds) 3968 := by
  refine ⟨⟨ofNibbles 15 15, ?_⟩, ?_⟩
  · rw [seconds_ofNibbles (by decide) (by decide), spacing_last]
    norm_num
  · rintro _ ⟨v, rfl⟩
    have hlast := spacing_mono (Nat.le_of_lt_succ v.exponent_lt)
    rw [spacing_last] at hlast
    have hle := v.seconds_le
    linarith

/-! ## Rounding -/

/-- The exponent that a time is encoded with is the largest one whose first time is not too long. -/
structure IsExponent (s : ℚ) (b : ℕ) : Prop where
  le : b ≤ 15
  first_le : 16 * spacing b ≤ s
  lt_next : b < 15 → s < 32 * spacing b

theorem isExponent_exponentFor {s : ℚ} (h : shortest ≤ s) : IsExponent s (exponentFor s) := by
  rw [shortest_eq] at h
  have hloop : ∀ left b, left + b = 15 → 16 * spacing b ≤ s →
      IsExponent s (raiseExponent s left b) := by
    intro left
    induction left with
    | zero =>
      intro b hb hfits
      unfold raiseExponent
      exact ⟨by omega, hfits, fun hlt => by omega⟩
    | succ left ih =>
      intro b hb hfits
      unfold raiseExponent
      rw [shortest_mul]
      split
      · rename_i hnext
        exact ih (b + 1) (by omega) hnext
      · rename_i hlong
        rw [not_le, spacing_succ] at hlong
        exact ⟨by omega, hfits, fun _ => by linarith⟩
  exact hloop 15 0 rfl h

/-- The whole number of spacings nearest to a time, the larger one if two are equally near. -/
def rounded (s : ℚ) (b : ℕ) : ℚ :=
  round (s / spacing b) * spacing b

theorem roundHalfUp_eq (x : ℚ) : roundHalfUp x = (round x).toNat := by
  rw [round_eq]
  rfl

theorem round_mono {x y : ℚ} (h : x ≤ y) : round x ≤ round y := by
  rw [round_eq, round_eq]
  exact Int.floor_mono (by linarith)

section Rounded

variable {s : ℚ} {b : ℕ}

theorem abs_rounded_sub_le (s : ℚ) (b : ℕ) (n : ℤ) :
    |rounded s b - s| ≤ |n * spacing b - s| := by
  have hpos := spacing_pos b
  have hscale : ∀ m : ℤ, |m * spacing b - s| = |s / spacing b - m| * spacing b := by
    intro m
    rw [abs_sub_comm, ← abs_of_pos hpos, ← abs_mul, abs_of_pos hpos, sub_mul,
      div_mul_cancel₀ s hpos.ne']
  unfold rounded
  rw [hscale, hscale]
  exact mul_le_mul_of_nonneg_right (round_le _ n) hpos.le

/-- Rounding does not pass a whole number of spacings. -/
theorem rounded_le {n : ℤ} (h : s ≤ n * spacing b) : rounded s b ≤ n * spacing b := by
  have hpos := spacing_pos b
  refine mul_le_mul_of_nonneg_right ?_ hpos.le
  have hround := round_mono ((div_le_iff₀ hpos).2 h)
  rw [round_intCast] at hround
  exact_mod_cast hround

theorem le_rounded {n : ℤ} (h : n * spacing b ≤ s) : n * spacing b ≤ rounded s b := by
  have hpos := spacing_pos b
  refine mul_le_mul_of_nonneg_right ?_ hpos.le
  have hround := round_mono ((le_div_iff₀ hpos).2 h)
  rw [round_intCast] at hround
  exact_mod_cast hround

theorem IsExponent.le_rounded (h : IsExponent s b) : 16 * spacing b ≤ rounded s b := by
  exact_mod_cast ValidityTime.le_rounded (n := 16) (by exact_mod_cast h.first_le)

theorem IsExponent.rounded_le (h : IsExponent s b) (hb : b < 15) :
    rounded s b ≤ 32 * spacing b := by
  exact_mod_cast ValidityTime.rounded_le (n := 32) (by exact_mod_cast (h.lt_next hb).le)

theorem rounded_mono {s s' : ℚ} {b b' : ℕ} (h : IsExponent s b) (h' : IsExponent s' b')
    (hle : s ≤ s') : rounded s b ≤ rounded s' b' := by
  rcases lt_trichotomy b b' with hlt | rfl | hlt
  · calc rounded s b ≤ 32 * spacing b := h.rounded_le (hlt.trans_le h'.le)
      _ ≤ 16 * spacing b' := spacing_lt hlt
      _ ≤ rounded s' b' := h'.le_rounded
  · have hpos := spacing_pos b
    refine mul_le_mul_of_nonneg_right ?_ hpos.le
    exact_mod_cast round_mono (div_le_div_of_nonneg_right hle hpos.le)
  · -- the larger time would be too short for the larger exponent
    have hshort : s' < s :=
      calc s' < 32 * spacing b' := h'.lt_next (hlt.trans_le h.le)
        _ ≤ 16 * spacing b := spacing_lt hlt
        _ ≤ s := h.first_le
    exact absurd hle hshort.not_ge

/-- What is rounded to the mantissa is how many spacings a time is beyond the first one. -/
theorem number_eq (s : ℚ) (b : ℕ) :
    16 * (s / (shortest * (1 <<< b : ℕ)) - 1) = s / spacing b - (16 : ℕ) := by
  have hpos := spacing_pos b
  rw [shortest_mul]
  push_cast
  field_simp

/-- Before it carries, the mantissa makes up the rounded time. -/
theorem IsExponent.mantissa_eq (h : IsExponent s b) :
    (16 + (roundHalfUp (s / spacing b - (16 : ℕ)) : ℚ)) * spacing b = rounded s b := by
  have hsixteen : (16 : ℤ) ≤ round (s / spacing b) := by
    have hround := round_mono ((le_div_iff₀ (spacing_pos b)).2 h.first_le)
    rwa [round_ofNat] at hround
  have hmantissa : (roundHalfUp (s / spacing b - (16 : ℕ)) : ℤ) = round (s / spacing b) - 16 := by
    rw [roundHalfUp_eq, round_sub_natCast]
    push_cast
    omega
  have hcast := congrArg (Int.cast : ℤ → ℚ) hmantissa
  push_cast at hcast
  unfold rounded
  push_cast
  rw [hcast, add_sub_cancel]

end Rounded

/-! ## Encoding -/

theorem nibblesFor_lt (s : ℚ) : (nibblesFor s).1 < 16 ∧ (nibblesFor s).2 < 16 := by
  unfold nibblesFor
  split
  · decide
  · rename_i hshort
    have hle := (isExponent_exponentFor (not_lt.1 hshort)).le
    dsimp only
    split
    · exact ⟨‹_›, Nat.lt_succ_of_le hle⟩
    · split
      · exact ⟨Nat.zero_lt_succ 15, Nat.succ_lt_succ ‹_›⟩
      · decide

/-- What is encoded is read as the rounded time, cut off at the longest one. -/
theorem seconds_ofSeconds {s : ℚ} (hs : shortest ≤ s) :
    (ofSeconds s).seconds = min (rounded s (exponentFor s)) 3968 := by
  have hb := isExponent_exponentFor hs
  have hmantissa := hb.mantissa_eq
  unfold ofSeconds nibblesFor
  rw [if_neg (not_lt.2 hs)]
  dsimp only
  rw [number_eq]
  generalize exponentFor s = b at hb hmantissa ⊢
  generalize roundHalfUp (s / spacing b - (16 : ℕ)) = a at hmantissa ⊢
  have hlongest := isGreatest_longest.2
  split
  · rename_i ha
    have hsmall : b < 16 := Nat.lt_succ_of_le hb.le
    have hseconds := seconds_ofNibbles ha hsmall
    rw [hmantissa] at hseconds
    rw [hseconds, min_eq_left]
    exact hseconds ▸ hlongest ⟨_, rfl⟩
  · rename_i ha
    have hcarried : (16 : ℚ) ≤ a := by exact_mod_cast not_lt.1 ha
    have hpos := spacing_pos b
    split
    · rename_i hlt
      -- less than one spacing is missing to the first time of the next exponent
      have hthirtyTwo : rounded s b = 32 * spacing b := by
        refine le_antisymm (hb.rounded_le hlt) ?_
        rw [← hmantissa]
        exact mul_le_mul_of_nonneg_right (by linarith) hpos.le
      have hseconds : (ofNibbles 0 (b + 1)).seconds = rounded s b := by
        rw [seconds_ofNibbles (by decide) (Nat.succ_lt_succ hlt), Nat.succ_eq_add_one, spacing_succ,
          hthirtyTwo]
        push_cast
        ring
      rw [hseconds, min_eq_left]
      exact hseconds ▸ hlongest ⟨_, rfl⟩
    · rename_i hlast
      obtain rfl : b = 15 := le_antisymm hb.le (not_lt.1 hlast)
      rw [seconds_ofNibbles (by decide) (by decide), spacing_last, min_eq_right]
      · norm_num
      · rw [← hmantissa, spacing_last]
        linarith

/-- Up to the longest time nothing is cut off. -/
theorem seconds_ofSeconds_of_le {s : ℚ} (hs : shortest ≤ s) (hle : s ≤ 3968) :
    (ofSeconds s).seconds = rounded s (exponentFor s) := by
  rw [seconds_ofSeconds hs, min_eq_left]
  rw [longest_eq (isExponent_exponentFor hs).le] at hle ⊢
  exact rounded_le hle

theorem ofSeconds_of_lt {s : ℚ} (hs : s < shortest) : ofSeconds s = ofNibbles 0 0 := by
  unfold ofSeconds nibblesFor
  rw [if_pos hs]

/-- Only one octet stands for the longest time. -/
theorem octet_eq_of_seconds_eq {v : ValidityTime} (h : v.seconds = 3968) : v.octet = 0xff := by
  have hexponent : v.exponent = 15 := by
    by_contra hne
    have hlt : v.exponent < 15 := by
      have := v.exponent_lt
      omega
    have hnext := spacing_lt hlt
    rw [spacing_last] at hnext
    have hle := v.seconds_le
    have hpos := spacing_pos v.exponent
    linarith
  have hmantissa : v.mantissa = 15 := by
    rw [seconds_eq, hexponent, spacing_last] at h
    have : (v.mantissa : ℚ) = (15 : ℕ) := by
      push_cast
      linarith
    exact_mod_cast this
  have hoctet : v.octet.toNat = 255 := by
    unfold mantissa exponent at *
    omega
  exact UInt8.toNat_inj.1 hoctet

theorem octet_ofSeconds_of_longest_le {s : ℚ} (hs : 3968 ≤ s) : (ofSeconds s).octet = 0xff := by
  have hshort : shortest ≤ s := le_trans (by unfold shortest; norm_num) hs
  refine octet_eq_of_seconds_eq ?_
  rw [seconds_ofSeconds hshort, min_eq_right]
  rw [longest_eq (isExponent_exponentFor hshort).le] at hs ⊢
  exact le_rounded hs

/-- Of all times, the one that is encoded is the nearest. -/
theorem abs_seconds_ofSeconds_sub_le {s : ℚ} (hs : shortest ≤ s) (hle : s ≤ 3968)
    (w : ValidityTime) : |(ofSeconds s).seconds - s| ≤ |w.seconds - s| := by
  have hb := isExponent_exponentFor hs
  rw [seconds_ofSeconds_of_le hs hle]
  generalize exponentFor s = b at hb ⊢
  rcases Nat.lt_or_ge w.exponent b with hlt | hge
  · -- the first time of the exponent in use lies between
    have hfirst := abs_rounded_sub_le s b 16
    have hbetween : w.seconds ≤ 16 * spacing b := by
      have hw := w.seconds_le
      have hnext := spacing_lt hlt
      have hpos := spacing_pos w.exponent
      linarith
    have hfits := hb.first_le
    push_cast at hfirst
    refine hfirst.trans ?_
    rw [abs_of_nonpos (by linarith), abs_of_nonpos (by linarith)]
    linarith
  · obtain ⟨k, hk⟩ := Nat.exists_eq_add_of_le hge
    have hw : w.seconds = (((16 + w.mantissa) * 2 ^ k : ℕ) : ℤ) * spacing b := by
      rw [seconds_eq, hk, spacing_add]
      push_cast
      ring
    rw [hw]
    exact abs_rounded_sub_le s b _

theorem seconds_ofSeconds_mono : Monotone fun s => (ofSeconds s).seconds := by
  intro s s' hle
  show (ofSeconds s).seconds ≤ (ofSeconds s').seconds
  by_cases hs : s < shortest
  · rw [ofSeconds_of_lt hs]
    calc (ofNibbles 0 0).seconds = shortest := by
          rw [seconds_ofNibbles (by decide) (by decide), shortest_eq]
          push_cast
          ring
      _ ≤ (ofSeconds s').seconds := shortest_le_seconds _
  · have hs' := (not_lt.1 hs).trans hle
    rw [seconds_ofSeconds (not_lt.1 hs), seconds_ofSeconds hs']
    exact min_le_min_right _
      (rounded_mono (isExponent_exponentFor (not_lt.1 hs)) (isExponent_exponentFor hs') hle)

/-- **A time is encoded as the nearest one.** What is shorter than a sixteenth of a second becomes
the first octet, and what is at least as long as the longest time, which is 3968 seconds, becomes the
last one. In between no octet stands for a time nearer than the one that is encoded. A longer time is
never read as a shorter one, and mantissa and exponent fit into four bits each. -/
theorem nearest_time :
    IsGreatest (Set.range seconds) 3968
    ∧ (∀ s < shortest, (ofSeconds s).octet = 0x00)
    ∧ (∀ s ≥ 3968, (ofSeconds s).octet = 0xff)
    ∧ (∀ s, shortest ≤ s → s < 3968 →
        ∀ w : ValidityTime, |(ofSeconds s).seconds - s| ≤ |w.seconds - s|)
    ∧ (Monotone fun s => (ofSeconds s).seconds)
    ∧ ∀ s, (nibblesFor s).1 < 16 ∧ (nibblesFor s).2 < 16
        ∧ ofSeconds s = ofNibbles (nibblesFor s).1 (nibblesFor s).2 := by
  refine ⟨isGreatest_longest, fun s hs => ?_, fun s hs => octet_ofSeconds_of_longest_le hs,
    fun s hs hlt w => abs_seconds_ofSeconds_sub_le hs hlt.le w, seconds_ofSeconds_mono, fun s => ?_⟩
  · rw [ofSeconds_of_lt hs]
    rfl
  · exact ⟨(nibblesFor_lt s).1, (nibblesFor_lt s).2, rfl⟩

/-- The mantissa of 0.249 s rounds up to sixteen, so the exponent is one more: this is 0.25 s. -/
example : ofSeconds (249 / 1000) = ⟨0x02⟩ := by decide +kernel

end ValidityTime

end Meshcast
