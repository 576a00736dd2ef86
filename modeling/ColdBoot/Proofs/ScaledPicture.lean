import ColdBoot.Proofs.Rectangle
import ColdBoot.Proofs.RowPacking
import ColdBoot.Video.Timing
import Mathlib.Order.Bounds.Basic

/-! # Scaling the picture

The video interface takes every output position, a pixel of a line or a line of the picture, from
some place of the framebuffer: from one place to the next it goes a *step* further, a number of
1024ths of a place, and whatever is left over is dropped. A step that is too great by a single 1024th
may make it read behind the framebuffer. Steps are computed from timing words whose spans may be
reversed or empty, by rounding down, which is the right direction.

* **`TimingProfile.difference`** – the span that a timing word gives, as a whole number;
* **`TimingProfile.Stretches`** – what makes a step the right one;
* **`TimingProfile.Outcome`** – what becomes of a scale, for every span;
* **`TimingProfile.scaling_stays_inside`** – no profile makes the scan leave the framebuffer. -/

namespace ColdBoot

namespace TimingProfile

/-- The end of a span, in bits 0 to 9 of its word, less its start, in bits 16 to 25. The other bits
do not count. -/
def difference (word : UInt32) : Int :=
  ((word.toNat % 2 ^ 10 : Nat) : Int) - (word.toNat / 2 ^ 16 % 2 ^ 10 : Nat)

/-- The place that output position `i` is taken from. -/
def sampled (step : UInt32) (i : Nat) : Nat := (i * step.toNat) >>> 10

/-- **The step stretches `size` places over `extent` output positions.** -/
structure Stretches (step : UInt32) (extent size : Nat) : Prop where
  /-- It is the greatest number of 1024ths that does not add up to more than all the places. -/
  greatest : IsGreatest {s : Nat | s * extent ≤ size * 1024} step.toNat
  /-- No output position is taken from behind the last place. -/
  inside : ∀ i < extent, sampled step i < size
  /-- It fits two bits and ten binary places exactly if the output is longer than a quarter of the
  places. -/
  narrow : step.toNat < 2 ^ 12 ↔ size < 4 * extent

/-- **What becomes of a scale** for a span of which `unit` parts make one output position. -/
structure Outcome (scale : Except Fault UInt32) (difference : Int) (unit size : Nat) : Prop where
  /-- The span ends before it starts. -/
  reversed : scale = .error .subtractOverflow ↔ difference < 0
  /-- The span has no whole output position. -/
  empty : scale = .error .divideByZero ↔ 0 ≤ difference ∧ difference < unit
  /-- There is no other refusal. -/
  refused : (∃ fault, scale = .error fault) ↔ difference < unit
  /-- Every other span has its step. -/
  stretched : unit ≤ difference →
    ∃ step, scale = .ok step ∧ Stretches step (difference / unit).toNat size

/-! ### Steps -/

section

variable {extent size : Nat}

/-- Rounding down gives the greatest factor. -/
theorem isGreatest_div (long : 0 < extent) (total : Nat) :
    IsGreatest {s | s * extent ≤ total} (total / extent) :=
  ⟨Nat.div_mul_le_self total extent, fun _ within => (Nat.le_div_iff_mul_le long).2 within⟩

/-- Steps that do not add up to more than all the places do not lead behind the last one. -/
theorem sampled_lt {step : UInt32} (within : step.toNat * extent ≤ size * 1024) (nonempty : 0 < size)
    {i : Nat} (lt : i < extent) : sampled step i < size := by
  rw [sampled, Nat.shiftRight_eq_div_pow]
  refine Nat.div_lt_of_lt_mul ?_
  -- a step of 0 stays at the first place, any other one ends before the places do
  by_cases stays : step.toNat = 0
  · rw [stays, Nat.mul_zero]
    exact Nat.mul_pos (by decide) nonempty
  · calc i * step.toNat < extent * step.toNat :=
          Nat.mul_lt_mul_of_pos_right lt (Nat.pos_of_ne_zero stays)
      _ ≤ 2 ^ 10 * size := by rwa [Nat.mul_comm extent, Nat.mul_comm (2 ^ 10)]

/-- **Rounding down gives the right step.** -/
theorem stretches_of_toNat_eq {step : UInt32} (eq : step.toNat = size * 1024 / extent)
    (long : 0 < extent) (nonempty : 0 < size) : Stretches step extent size := by
  have greatest := isGreatest_div long (size * 1024)
  rw [← eq] at greatest
  refine ⟨greatest, fun i => sampled_lt greatest.1 nonempty, ?_⟩
  -- the quotient is compared by its dividend, where 1024 cancels
  rw [eq, Nat.div_lt_iff_lt_mul long]
  omega

/-- A scale takes no output position from behind the last place. -/
theorem Outcome.inside {scale : Except Fault UInt32} {difference : Int} {unit : Nat} {step : UInt32}
    (outcome : Outcome scale difference unit size) (eq : scale = .ok step) {i : Nat}
    (lt : i < difference / unit) : sampled step i < size := by
  have whole : unit ≤ difference := by
    by_contra short
    obtain ⟨fault, refusal⟩ := outcome.refused.2 (Int.not_le.1 short)
    cases refusal.symm.trans eq
  obtain ⟨step', eq', stretches⟩ := outcome.stretched whole
  obtain rfl : step' = step := Except.ok.inj (eq'.symm.trans eq)
  exact stretches.inside i (Int.lt_toNat.2 lt)

end

/-! ### Spans -/

section

variable {word : UInt32}

/-- The two ends of a span are digits of its word. -/
theorem difference_eq (word : UInt32) : difference word =
    ((BitField.get ⟨0, 10⟩ word).toNat : Int) - (BitField.get ⟨16, 10⟩ word).toNat := by
  have stop := BitField.toNat_get ⟨0, 10⟩ word (by decide) (by decide)
  have start := BitField.toNat_get ⟨16, 10⟩ word (by decide) (by decide)
  rw [stop, start, difference]
  simp

theorem span_of_reversed (reversed : difference word < 0) :
    span word = .error .subtractOverflow := by
  rw [difference_eq] at reversed
  refine if_neg fun le => ?_
  rw [UInt32.le_iff_toNat_le] at le
  omega

theorem exists_span (straight : 0 ≤ difference word) :
    ∃ parts, span word = .ok parts ∧ (parts.toNat : Int) = difference word := by
  rw [difference_eq] at straight ⊢
  have le : BitField.get ⟨16, 10⟩ word ≤ BitField.get ⟨0, 10⟩ word := by
    rw [UInt32.le_iff_toNat_le]
    omega
  refine ⟨_, if_pos le, ?_⟩
  rw [UInt32.toNat_sub_of_le _ _ le]
  exact Int.ofNat_sub (UInt32.le_iff_toNat_le.1 le)

end

/-! ### Scales -/

/-- The scale over a span of which `unit` parts make one output position. -/
def scaleOver (word unit : UInt32) (size : Nat) : Except Fault UInt32 := do
  let parts ← span word
  Checked.div (UInt32.ofNat size * scaleOne) (parts / unit)

theorem xScale_eq (profile : TimingProfile) :
    profile.xScale = scaleOver profile.hVideo 1 Framebuffer.width := by
  simp only [xScale, scaleOver, activeWidth, UInt32.div_one]

theorem yScale_eq (profile : TimingProfile) :
    profile.yScale = scaleOver profile.vVideo 2 Framebuffer.height := rfl

section

variable {word unit : UInt32} {size : Nat}

theorem scaleOver_of_reversed (reversed : difference word < 0) :
    scaleOver word unit size = .error .subtractOverflow := by
  rw [scaleOver, span_of_reversed reversed]
  rfl

theorem scaleOver_of_empty (straight : 0 ≤ difference word)
    (short : difference word < unit.toNat) :
    scaleOver word unit size = .error .divideByZero := by
  obtain ⟨parts, eq, value⟩ := exists_span straight
  have zero : parts / unit = 0 := by
    rw [← UInt32.toNat_inj, UInt32.toNat_div]
    exact Nat.div_eq_of_lt (by omega)
  rw [scaleOver, eq]
  exact if_pos zero

/-- All the places, in 1024ths, are a word. -/
theorem toNat_places (few : size < 2 ^ 22) :
    (UInt32.ofNat size * scaleOne).toNat = size * 1024 := by
  rw [UInt32.toNat_mul, UInt32.toNat_ofNat', Nat.mod_eq_of_lt (show size < 2 ^ 32 by omega)]
  exact Nat.mod_eq_of_lt (show size * 1024 < 2 ^ 32 by omega)

/-- A span with a whole output position has a scale: all the places, shared out evenly. -/
theorem exists_scaleOver (positive : 0 < unit.toNat) (few : size < 2 ^ 22)
    (whole : unit.toNat ≤ difference word) :
    ∃ step, scaleOver word unit size = .ok step ∧
      step.toNat = size * 1024 / (difference word / unit.toNat).toNat := by
  have straight : 0 ≤ difference word := by omega
  obtain ⟨parts, eq, value⟩ := exists_span straight
  have extent : (parts / unit).toNat = (difference word / unit.toNat).toNat := by
    rw [UInt32.toNat_div, ← value]
    rfl
  have nonzero : parts / unit ≠ 0 := by
    rw [Ne, ← UInt32.toNat_inj, UInt32.toNat_div]
    exact (Nat.div_pos (by omega) positive).ne'
  refine ⟨UInt32.ofNat size * scaleOne / (parts / unit), ?_, ?_⟩
  · rw [scaleOver, eq]
    exact if_neg nonzero
  · rw [UInt32.toNat_div, toNat_places few, extent]

/-- **What becomes of the scale over a span.** -/
theorem outcome_scaleOver (positive : 0 < unit.toNat) (nonempty : 0 < size) (few : size < 2 ^ 22) :
    Outcome (scaleOver word unit size) (difference word) unit.toNat size := by
  -- by the span: reversed, straight but too short, or with a whole output position
  by_cases reversed : difference word < 0
  · rw [scaleOver_of_reversed reversed]
    exact ⟨iff_of_true rfl reversed, iff_of_false nofun (by omega),
      iff_of_true ⟨_, rfl⟩ (by omega), fun whole => absurd whole (by omega)⟩
  have straight := Int.not_lt.1 reversed
  by_cases short : difference word < unit.toNat
  · rw [scaleOver_of_empty straight short]
    exact ⟨iff_of_false nofun reversed, iff_of_true rfl ⟨straight, short⟩,
      iff_of_true ⟨_, rfl⟩ short, fun whole => absurd whole (Int.not_le.2 short)⟩
  · have whole := Int.not_lt.1 short
    obtain ⟨step, eq, value⟩ := exists_scaleOver positive few whole
    have long : 0 < (difference word / unit.toNat).toNat :=
      Int.lt_toNat.2 (Int.le_ediv_of_mul_le (by omega) (by omega))
    rw [eq]
    exact ⟨iff_of_false nofun reversed, iff_of_false nofun fun both => short both.2,
      iff_of_false nofun short, fun _ => ⟨step, rfl, stretches_of_toNat_eq value long nonempty⟩⟩

end

/-! ### The picture -/

/-- **No profile makes the scan leave the framebuffer.** A scale is refused exactly if its span is
reversed or shorter than one output position, a pixel across and two half-lines down; otherwise it is
the greatest step that keeps all output positions inside. So every output pixel is taken from a pixel
of the framebuffer. -/
theorem scaling_stays_inside (profile : TimingProfile) :
    Outcome profile.xScale (difference profile.hVideo) 1 Framebuffer.width ∧
      Outcome profile.yScale (difference profile.vVideo) 2 Framebuffer.height ∧
      ∀ x y, profile.xScale = .ok x → profile.yScale = .ok y →
        ∀ i j : Nat, i < difference profile.hVideo → j < difference profile.vVideo / 2 →
          ∃ pixel : Fin Framebuffer.pixelCount,
            pixel.val = sampled y j * Framebuffer.width + sampled x i := by
  have across : Outcome profile.xScale (difference profile.hVideo) 1 Framebuffer.width := by
    rw [xScale_eq]
    exact outcome_scaleOver (by decide) (by decide) (by decide)
  have down : Outcome profile.yScale (difference profile.vVideo) 2 Framebuffer.height := by
    rw [yScale_eq]
    exact outcome_scaleOver (by decide) (by decide) (by decide)
  refine ⟨across, down, fun x y xScale yScale i j column row => ?_⟩
  have inside : sampled x i < Framebuffer.width := across.inside xScale (by simpa using column)
  have inside' : sampled y j < Framebuffer.height := down.inside yScale row
  exact ⟨Drawing.pixelIndex _ _ inside inside', rfl⟩

/-- The longest spans, with every bit set that does not count: the odd half-line is left out, and the
last output pixel is taken from the last pixel of the framebuffer. A span of one half-line is
refused. -/
theorem scaling_stays_inside_longest :
    let longest : TimingProfile := { ntsc with hVideo := 0xFC00FFFF, vVideo := 0xFC00FFFF }
    let shortest : TimingProfile := { ntsc with vVideo := 0xFC00FC01 }
    (longest.xScale = .ok 320 ∧ Stretches 320 1023 320) ∧
      (longest.yScale = .ok 480 ∧ Stretches 480 511 240) ∧
      (∃ pixel : Fin Framebuffer.pixelCount,
        pixel.val = sampled 480 510 * Framebuffer.width + sampled 320 1022 ∧ pixel.val = 76799) ∧
      shortest.yScale = .error .divideByZero := by
  intro longest shortest
  obtain ⟨across, down, inside⟩ := scaling_stays_inside longest
  have xScale : longest.xScale = .ok 320 := by decide
  have yScale : longest.yScale = .ok 480 := by decide
  have pixels : (difference longest.hVideo / (1 : Nat)).toNat = 1023 := by decide
  have lines : (difference longest.vVideo / (2 : Nat)).toNat = 511 := by decide
  obtain ⟨step, eq, wide⟩ := across.stretched (by decide)
  obtain rfl : step = 320 := Except.ok.inj (eq.symm.trans xScale)
  obtain ⟨step, eq, high⟩ := down.stretched (by decide)
  obtain rfl : step = 480 := Except.ok.inj (eq.symm.trans yScale)
  rw [pixels] at wide
  rw [lines] at high
  obtain ⟨pixel, place⟩ := inside 320 480 xScale yScale 1022 510 (by decide) (by decide)
  exact ⟨⟨xScale, wide⟩, ⟨yScale, high⟩, ⟨pixel, place, place⟩,
    (scaling_stays_inside shortest).2.1.empty.2 (by decide)⟩

end TimingProfile

end ColdBoot
