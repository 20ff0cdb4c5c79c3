import Mathlib.Data.Nat.Find
import Mathlib.Tactic.Ring

/-!
# Detecting the release of a button by two-phase sampling

A detector samples one level over and over and alternates between two phases.  In the first it becomes armed if the
level is high; in the second it fires, and is disarmed, if it is armed and the level is low.  `armed_odd_iff`,
`armed_even_iff` and `fires_odd_iff` give its state and its output in terms of the history of the samples.

If the samples are taken from a signal every `h` ticks, and every run of equal levels lasts at least `2 * h` ticks,
the detector fires exactly once for every falling edge, at the end of its window of `2 * h` ticks
(`fires_iff_fallingEdge`, `fallingEdge_unique`).
-/

namespace ReleaseDetector

structure Detector where
  armed : Bool
  comparing : Bool
  deriving DecidableEq, Repr

def idle : Detector := ⟨false, false⟩

/-- One sample: the next state, and whether the detector fires. -/
def step (d : Detector) (sample : Bool) : Detector × Bool :=
  if d.comparing then (⟨d.armed && sample, false⟩, d.armed && !sample)
  else (⟨d.armed || sample, true⟩, false)

theorem step_of_arming {d : Detector} (h : d.comparing = false) (sample : Bool) :
    step d sample = (⟨d.armed || sample, true⟩, false) := by
  simp [step, h]

theorem step_of_comparing {d : Detector} (h : d.comparing = true) (sample : Bool) :
    step d sample = (⟨d.armed && sample, false⟩, d.armed && !sample) := by
  simp [step, h]

def after (s : Nat → Bool) : Nat → Detector
  | 0 => idle
  | n + 1 => (step (after s n) (s n)).1

def fires (s : Nat → Bool) (n : Nat) : Bool := (step (after s n) (s n)).2

/-! ### The history of the samples -/

/-- The detector has been armed at an even sample and no later odd sample before number `2 * j + 1` was low. -/
def ArmedSince (s : Nat → Bool) (j : Nat) : Prop :=
  ∃ i, i ≤ j ∧ s (2 * i) = true ∧ ∀ q, i ≤ q → q < j → s (2 * q + 1) = true

theorem after_even_comparing (s : Nat → Bool) (j : Nat) :
    (after s (2 * j)).comparing = false ∧ (after s (2 * j + 1)).comparing = true := by
  have hodd : ∀ i, (after s (2 * i)).comparing = false → (after s (2 * i + 1)).comparing = true := by
    intro i h
    rw [after, step_of_arming h]
  induction j with
  | zero => exact ⟨rfl, hodd 0 rfl⟩
  | succ j ih =>
    have heven : (after s (2 * (j + 1))).comparing = false := by
      rw [Nat.mul_succ, after, step_of_comparing ih.2]
    exact ⟨heven, hodd (j + 1) heven⟩

theorem armed_odd_eq (s : Nat → Bool) (j : Nat) :
    (after s (2 * j + 1)).armed = ((after s (2 * j)).armed || s (2 * j)) := by
  rw [after, step_of_arming (after_even_comparing s j).1]

theorem armed_even_eq (s : Nat → Bool) (j : Nat) :
    (after s (2 * j + 2)).armed = ((after s (2 * j + 1)).armed && s (2 * j + 1)) := by
  rw [after, step_of_comparing (after_even_comparing s j).2]

theorem armed_odd_iff (s : Nat → Bool) (j : Nat) : (after s (2 * j + 1)).armed = true ↔ ArmedSince s j := by
  induction j with
  | zero =>
    rw [armed_odd_eq]
    constructor
    · intro h
      exact ⟨0, le_rfl, h, fun q _ hq => absurd hq (Nat.not_lt_zero q)⟩
    · rintro ⟨i, hi, h, -⟩
      obtain rfl := Nat.le_zero.1 hi
      exact h
  | succ j ih =>
    rw [armed_odd_eq, show 2 * (j + 1) = 2 * j + 2 from rfl, armed_even_eq, Bool.or_eq_true, Bool.and_eq_true, ih]
    constructor
    · rintro (⟨⟨i, hi, h, hq⟩, hj⟩ | h)
      · refine ⟨i, by omega, h, fun q hiq hqj => ?_⟩
        rcases Nat.lt_succ_iff_lt_or_eq.1 hqj with hlt | rfl
        · exact hq q hiq hlt
        · exact hj
      · exact ⟨j + 1, le_rfl, h, fun q hq hq' => absurd hq' (by omega)⟩
    · rintro ⟨i, hi, h, hq⟩
      rcases Nat.lt_or_eq_of_le hi with hlt | rfl
      · exact Or.inl ⟨⟨i, by omega, h, fun q hiq hqj => hq q hiq (by omega)⟩, hq j (by omega) (by omega)⟩
      · exact Or.inr h

theorem armed_even_iff (s : Nat → Bool) (j : Nat) : (after s (2 * j + 2)).armed = true ↔
    ∃ i, i ≤ j ∧ s (2 * i) = true ∧ ∀ q, i ≤ q → q ≤ j → s (2 * q + 1) = true := by
  rw [armed_even_eq, Bool.and_eq_true, armed_odd_iff]
  constructor
  · rintro ⟨⟨i, hi, h, hq⟩, hj⟩
    refine ⟨i, hi, h, fun q hiq hqj => ?_⟩
    rcases Nat.lt_or_eq_of_le hqj with hlt | rfl
    · exact hq q hiq hlt
    · exact hj
  · rintro ⟨i, hi, h, hq⟩
    exact ⟨⟨i, hi, h, fun q hiq hqj => hq q hiq (by omega)⟩, hq j hi le_rfl⟩

theorem fires_even (s : Nat → Bool) (j : Nat) : fires s (2 * j) = false := by
  rw [fires, step_of_arming (after_even_comparing s j).1]

theorem fires_odd_iff (s : Nat → Bool) (j : Nat) :
    fires s (2 * j + 1) = true ↔ s (2 * j + 1) = false ∧ ArmedSince s j := by
  rw [fires, step_of_comparing (after_even_comparing s j).2, ← armed_odd_iff]
  simp only [Bool.and_eq_true, Bool.not_eq_true']
  exact and_comm

theorem fires_congr {s s' : Nat → Bool} {n : Nat} (h : ∀ i, i ≤ n → s i = s' i) : fires s n = fires s' n := by
  have hafter : ∀ m, m ≤ n → after s m = after s' m := by
    intro m
    induction m with
    | zero => intro _; rfl
    | succ m ih =>
      intro hm
      rw [after, after, ih (by omega), h m (by omega)]
  unfold fires
  rw [hafter n le_rfl, h n le_rfl]

/-! ### Signals with long runs -/

/-- The level falls at tick `t`; ticks are counted from 1. -/
def FallingEdge (level : Nat → Bool) (t : Nat) : Prop := 2 ≤ t ∧ level (t - 1) = true ∧ level t = false

/-- The ticks `a` to `e` are a maximal run of equal levels that ends, with the change at tick `e + 1`. -/
structure EndedRun (level : Nat → Bool) (a e : Nat) : Prop where
  start_pos : 1 ≤ a
  start_le : a ≤ e
  const : ∀ u, a ≤ u → u ≤ e → level u = level e
  start_eq : a = 1 ∨ level (a - 1) ≠ level e
  change : level (e + 1) ≠ level e

/-- Every maximal run that ends within the first `T` ticks lasts at least `N` ticks. -/
def LongRuns (level : Nat → Bool) (N T : Nat) : Prop :=
  ∀ a e, EndedRun level a e → e + 1 ≤ T → N ≤ e + 1 - a

theorem LongRuns.const_before {level : Nat → Bool} {N T : Nat} (h : LongRuns level N T) {t : Nat} (ht : 2 ≤ t)
    (htT : t ≤ T) (hchange : level t ≠ level (t - 1)) :
    N < t ∧ ∀ u, t ≤ u + N → u < t → level u = level (t - 1) := by
  -- the start of the run that ends at `t - 1`
  have hex : ∃ a, 1 ≤ a ∧ ∀ u, a ≤ u → u ≤ t - 1 → level u = level (t - 1) :=
    ⟨t - 1, by omega, fun u h1 h2 => by rw [show u = t - 1 by omega]⟩
  classical
  obtain ⟨ha1, hac⟩ := Nat.find_spec hex
  have hmin := fun m => Nat.find_min hex (m := m)
  have hle : Nat.find hex ≤ t - 1 :=
    Nat.find_min' hex ⟨by omega, fun u h1 h2 => by rw [show u = t - 1 by omega]⟩
  generalize Nat.find hex = a at ha1 hac hmin hle
  have hrun : EndedRun level a (t - 1) := by
    refine ⟨ha1, hle, hac, ?_, by rw [show t - 1 + 1 = t by omega]; exact hchange⟩
    by_contra hstart
    rw [not_or, not_not] at hstart
    refine hmin (a - 1) (by omega) ⟨by omega, fun u h1 h2 => ?_⟩
    rcases Nat.lt_or_ge u a with hlt | hge
    · rw [show u = a - 1 by omega]; exact hstart.2
    · exact hac u hge h2
  have hlen := h a (t - 1) hrun (by omega)
  exact ⟨by omega, fun u h1 h2 => hac u (by omega) (by omega)⟩

/-- Between a high and a later low level there is a falling edge. -/
theorem exists_fallingEdge {level : Nat → Bool} {a b : Nat} (ha : 1 ≤ a) (hab : a ≤ b) (hhigh : level a = true)
    (hlow : level b = false) : ∃ t, a < t ∧ t ≤ b ∧ FallingEdge level t := by
  induction b, hab using Nat.le_induction with
  | base => rw [hhigh] at hlow; cases hlow
  | succ b hab ih =>
    cases hb : level b with
    | true => exact ⟨b + 1, by omega, le_rfl, by omega, hb, hlow⟩
    | false =>
      obtain ⟨t, h1, h2, h3⟩ := ih hb
      exact ⟨t, h1, by omega, h3⟩

theorem LongRuns.low_after {level : Nat → Bool} {N T : Nat} (h : LongRuns level N T) {t u : Nat}
    (ht : FallingEdge level t) (htu : t ≤ u) (huT : u ≤ T) (hu : u < t + N) : level u = false := by
  obtain ⟨ht2, hhigh, hlow⟩ := ht
  induction u, htu using Nat.le_induction with
  | base => exact hlow
  | succ u htu ih =>
    have hlu := ih (by omega) (by omega)
    by_contra hne
    -- the low run that would end at `u` began at `t` at the latest
    have hconst := (h.const_before (t := u + 1) (by omega) huT (by rw [Nat.add_sub_cancel, hlu]; exact hne)).2
    have hpre := hconst (t - 1) (by omega) (by omega)
    rw [Nat.add_sub_cancel, hlu, hhigh] at hpre
    cases hpre

/-- The samples of the signal every `h` ticks, the first at tick `h`. -/
def samples (level : Nat → Bool) (h : Nat) (n : Nat) : Bool := level (h * (n + 1))

/-- The detector fires at sample number `2 * j + 1` exactly if the level falls within the `2 * h` ticks that end
with this sample. -/
theorem fires_iff_fallingEdge {level : Nat → Bool} {h T : Nat} (hpos : 0 < h) (hlong : LongRuns level (2 * h) T)
    {j : Nat} (hT : 2 * h * (j + 1) ≤ T) :
    fires (samples level h) (2 * j + 1) = true ↔
      ∃ t, 2 * h * j < t ∧ t ≤ 2 * h * (j + 1) ∧ FallingEdge level t := by
  have hsample : ∀ i, samples level h (2 * i) = level (2 * h * i + h) ∧
      samples level h (2 * i + 1) = level (2 * h * (i + 1)) := by
    intro i
    unfold samples
    exact ⟨by rw [show h * (2 * i + 1) = 2 * h * i + h by ring], by rw [show h * (2 * i + 1 + 1) = 2 * h * (i + 1) by ring]⟩
  rw [fires_odd_iff, (hsample j).2]
  constructor
  · rintro ⟨hlow, i, hij, hhigh, hq⟩
    rw [(hsample i).1] at hhigh
    rcases Nat.lt_or_eq_of_le hij with hlt | rfl
    · obtain ⟨j, rfl⟩ : ∃ j', j = j' + 1 := ⟨j - 1, by omega⟩
      have hj := hq j (by omega) (by omega)
      rw [(hsample j).2] at hj
      refine exists_fallingEdge (Nat.mul_pos (by omega) (by omega)) ?_ hj hlow
      exact Nat.mul_le_mul_left _ (by omega)
    · rw [Nat.mul_succ] at hlow ⊢
      obtain ⟨t, h1, h2, h3⟩ := exists_fallingEdge (by omega) (by omega) hhigh hlow
      exact ⟨t, by omega, h2, h3⟩
  · rintro ⟨t, h1, h2, hedge⟩
    rw [Nat.mul_succ] at h2 hT
    have hlow := hlong.low_after hedge (u := 2 * h * j + 2 * h) (by omega) hT (by omega)
    obtain ⟨ht2, hhigh, hlowt⟩ := hedge
    obtain ⟨hNt, hconst⟩ := hlong.const_before ht2 (by omega) (by rw [hhigh, hlowt]; decide)
    rw [hhigh] at hconst
    refine ⟨by rw [Nat.mul_succ]; exact hlow, ?_⟩
    -- the high run before the edge covers the last arming sample and every comparison after it
    by_cases hmid : 2 * h * j + h < t
    · exact ⟨j, le_rfl, by rw [(hsample j).1]; exact hconst _ (by omega) (by omega),
        fun q hq hq' => absurd hq' (by omega)⟩
    · obtain ⟨j, rfl⟩ : ∃ j', j = j' + 1 := by
        refine ⟨j - 1, ?_⟩
        rcases Nat.eq_zero_or_pos j with rfl | hj
        · rw [Nat.mul_zero] at hmid; omega
        · omega
      refine ⟨j, by omega, ?_, fun q hq hq' => ?_⟩
      · rw [(hsample j).1]
        rw [Nat.mul_succ] at h1 h2 hmid
        exact hconst _ (by omega) (by omega)
      · obtain rfl : q = j := by omega
        rw [(hsample q).2]
        exact hconst _ (by omega) (by omega)

/-- No two falling edges lie in the same window. -/
theorem fallingEdge_unique {level : Nat → Bool} {N T : Nat} (hlong : LongRuns level N T) {t t' : Nat}
    (ht : FallingEdge level t) (ht' : FallingEdge level t') (htT : t ≤ T) (htT' : t' ≤ T) (h : t < t' + N)
    (h' : t' < t + N) : t = t' := by
  have key : ∀ {t t' : Nat}, FallingEdge level t → FallingEdge level t' → t' ≤ T → t' < t + N → ¬ t < t' := by
    intro t t' ht ht' hT hN hlt
    have := hlong.low_after ht (u := t' - 1) (by omega) (by omega) (by omega)
    rw [ht'.2.1] at this
    cases this
  have h1 := key ht ht' htT' h'
  have h2 := key ht' ht htT h
  omega

end ReleaseDetector
