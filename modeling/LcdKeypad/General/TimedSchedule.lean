import Mathlib.Logic.Function.Iterate
import Mathlib.Logic.Relation

/-!
# Schedules of tasks in unbounded time

A task is ready, delayed until a time, or suspended; besides it may wait for an event.  Time passes with the ticks.
While the scheduler is suspended the ticks are held back, and a task that gets its event stays where it is; both are
made up for when the scheduler is resumed.  Along every path of steps a delayed task that waits for nothing is ready
from its time on and not before (`path_delayed`, `Step.delayed`).
-/

namespace TimedSchedule

open Relation

inductive Status
  | ready
  | delayed (wake : ℕ)
  | suspended
  deriving DecidableEq

inductive Wait (ι : Type*)
  | nothing
  | event (i : ι)
  /-- The event has come, the task is not ready yet. -/
  | signalled
  deriving DecidableEq

def Status.due (now : ℕ) : Status → Bool
  | delayed wake => decide (wake ≤ now)
  | _ => false

def Wait.isSignalled {ι : Type*} : Wait ι → Bool
  | signalled => true
  | _ => false

structure Schedule (τ ι : Type*) where
  running : τ
  now : ℕ
  held : ℕ
  depth : ℕ
  status : τ → Status
  wait : τ → Wait ι

variable {τ ι P : Type*}

namespace Schedule

/-- The tasks of `p` become ready and wait for nothing. -/
def wakeUp (s : Schedule τ ι) (p : τ → Bool) : Schedule τ ι :=
  { s with
    status := fun t => if p t then .ready else s.status t
    wait := fun t => if p t then .nothing else s.wait t }

/-- One tick later. -/
def pass (s : Schedule τ ι) : Schedule τ ι :=
  { s.wakeUp (fun t => (s.status t).due (s.now + 1)) with now := s.now + 1 }

def tick (s : Schedule τ ι) : Schedule τ ι := if s.depth = 0 then s.pass else { s with held := s.held + 1 }

def release (s : Schedule τ ι) : Schedule τ ι := s.wakeUp fun t => (s.wait t).isSignalled

def resume (s : Schedule τ ι) : Schedule τ ι :=
  if s.depth = 1 then { pass^[s.held] s.release with depth := 0, held := 0 } else { s with depth := s.depth - 1 }

@[simp] theorem wakeUp_now (s : Schedule τ ι) (p : τ → Bool) : (s.wakeUp p).now = s.now := rfl

@[simp] theorem pass_now (s : Schedule τ ι) : s.pass.now = s.now + 1 := rfl

@[simp] theorem wakeUp_wakeUp (s : Schedule τ ι) (p q : τ → Bool) :
    (s.wakeUp p).wakeUp q = s.wakeUp fun t => p t || q t := by
  unfold wakeUp
  rw [Schedule.mk.injEq]
  refine ⟨rfl, rfl, rfl, rfl, funext fun t => ?_, funext fun t => ?_⟩
  · by_cases hp : p t <;> simp [hp]
  · by_cases hp : p t <;> simp [hp]

theorem wakeUp_of_pos {s : Schedule τ ι} {p : τ → Bool} {t : τ} (h : p t = true) :
    (s.wakeUp p).status t = .ready ∧ (s.wakeUp p).wait t = .nothing := by
  simp [wakeUp, h]

theorem wakeUp_of_neg {s : Schedule τ ι} {p : τ → Bool} {t : τ} (h : p t = false) :
    (s.wakeUp p).status t = s.status t ∧ (s.wakeUp p).wait t = s.wait t := by
  simp [wakeUp, h]

theorem pass_of_due {s : Schedule τ ι} {t : τ} (h : (s.status t).due (s.now + 1) = true) :
    s.pass.status t = .ready ∧ s.pass.wait t = .nothing :=
  wakeUp_of_pos (p := fun u => (s.status u).due (s.now + 1)) h

theorem pass_of_not_due {s : Schedule τ ι} {t : τ} (h : (s.status t).due (s.now + 1) = false) :
    s.pass.status t = s.status t ∧ s.pass.wait t = s.wait t :=
  wakeUp_of_neg (p := fun u => (s.status u).due (s.now + 1)) h

theorem release_of_signalled {s : Schedule τ ι} {t : τ} (h : (s.wait t).isSignalled = true) :
    s.release.status t = .ready ∧ s.release.wait t = .nothing :=
  wakeUp_of_pos (p := fun u => (s.wait u).isSignalled) h

theorem release_of_not_signalled {s : Schedule τ ι} {t : τ} (h : (s.wait t).isSignalled = false) :
    s.release.status t = s.status t ∧ s.release.wait t = s.wait t :=
  wakeUp_of_neg (p := fun u => (s.wait u).isSignalled) h

variable [DecidableEq τ]

def block (s : Schedule τ ι) (status : Status) (wait : Wait ι) : Schedule τ ι :=
  { s with status := Function.update s.status s.running status, wait := Function.update s.wait s.running wait }

def signal (s : Schedule τ ι) (t : τ) : Schedule τ ι :=
  if s.depth = 0 then s.wakeUp fun u => decide (u = t)
  else { s with wait := Function.update s.wait t .signalled }

theorem signal_wait (s : Schedule τ ι) (t u : τ) :
    (s.signal t).wait u = if u = t then (if s.depth = 0 then .nothing else .signalled) else s.wait u := by
  unfold signal
  split
  · simp [wakeUp]
  · exact Function.update_apply _ _ _ _

theorem signal_status_of_depth {s : Schedule τ ι} (hdepth : s.depth = 0) (t : τ) : (s.signal t).status t = .ready := by
  simp [signal, hdepth, wakeUp]

end Schedule

open Schedule

/-- The steps of a scheduler with the priorities `prio` and a task `idle` that never blocks; the events of `may` come. -/
inductive Step [DecidableEq τ] [LE P] (prio : τ → P) (idle : τ) (may : ι → Prop) : Schedule τ ι → Schedule τ ι → Prop
  | tick (s : Schedule τ ι) : Step prio idle may s s.tick
  /-- Ticks are added to those held back. -/
  | hold (s : Schedule τ ι) (n : ℕ) : 0 < s.depth → Step prio idle may s { s with held := s.held + n }
  | switch (s : Schedule τ ι) (t : τ) : s.depth = 0 → s.status t = .ready →
      (∀ u, s.status u = .ready → prio u ≤ prio t) → Step prio idle may s { s with running := t }
  | suspend (s : Schedule τ ι) : Step prio idle may s { s with depth := s.depth + 1 }
  | block (s : Schedule τ ι) (status : Status) (wait : Wait ι) : 0 < s.depth → s.status s.running = .ready →
      s.running ≠ idle → status ≠ .ready → (∀ w, status = .delayed w → s.now < w) → wait ≠ .signalled →
      Step prio idle may s (s.block status wait)
  | signal (s : Schedule τ ι) (i : ι) (t : τ) : may i → s.wait t = .event i →
      (∀ u, s.wait u = .event i → prio u ≤ prio t) → Step prio idle may s (s.signal t)
  | resume (s : Schedule τ ι) : 0 < s.depth → Step prio idle may s s.resume

/-- What holds between the steps. -/
structure Good (idle : τ) (s : Schedule τ ι) : Prop where
  wait : ∀ t, s.wait t ≠ .nothing → s.status t ≠ .ready
  future : ∀ t w, s.status t = .delayed w → s.now < w
  settled : s.depth = 0 → s.held = 0 ∧ ∀ t, s.wait t ≠ .signalled
  idle : s.status idle = .ready

variable {s s' : Schedule τ ι} {t : τ} {w : ℕ} {idle : τ}

/-! ### Waking up -/

theorem Good.wakeUp (h : Good idle s) (p : τ → Bool) : Good idle (s.wakeUp p) := by
  refine ⟨fun t ht => ?_, fun t w ht => ?_, fun hd => ⟨(h.settled hd).1, fun t => ?_⟩, ?_⟩
  · cases hp : p t with
    | true => exact absurd (wakeUp_of_pos hp).2 ht
    | false =>
      rw [(wakeUp_of_neg hp).2] at ht
      rw [(wakeUp_of_neg hp).1]
      exact h.wait t ht
  · cases hp : p t with
    | true =>
      rw [(wakeUp_of_pos hp).1] at ht
      cases ht
    | false =>
      rw [(wakeUp_of_neg hp).1] at ht
      exact h.future t w ht
  · cases hp : p t with
    | true => simp [(wakeUp_of_pos (s := s) hp).2]
    | false =>
      rw [(wakeUp_of_neg hp).2]
      exact (h.settled hd).2 t
  · cases hp : p idle with
    | true => exact (wakeUp_of_pos hp).1
    | false => rw [(wakeUp_of_neg hp).1, h.idle]

theorem due_eq_true {now : ℕ} {st : Status} : st.due now = true ↔ ∃ w, st = .delayed w ∧ w ≤ now := by
  cases st <;> simp [Status.due]

theorem pass_future (t : τ) (w : ℕ) (ht : s.pass.status t = .delayed w) : s.pass.now < w := by
  cases hp : (s.status t).due (s.now + 1) with
  | true =>
    rw [(pass_of_due hp).1] at ht
    cases ht
  | false =>
    rw [(pass_of_not_due hp).1] at ht
    have hlt : ¬ w ≤ s.now + 1 := by
      intro hle
      rw [due_eq_true.2 ⟨w, ht, hle⟩] at hp
      cases hp
    exact Nat.lt_of_not_le hlt

theorem Good.pass (h : Good idle s) : Good idle s.pass := by
  have hw := h.wakeUp fun t => (s.status t).due (s.now + 1)
  exact ⟨hw.wait, pass_future, hw.settled, hw.idle⟩

/-- A tick wakes exactly the tasks whose time has come. -/
theorem pass_delayed (ht : s.status t = .delayed w) :
    (w ≤ s.now + 1 → s.pass.status t = .ready ∧ s.pass.wait t = .nothing) ∧
      (s.now + 1 < w → s.pass.status t = .delayed w ∧ s.pass.wait t = s.wait t) := by
  constructor
  · intro hle
    exact pass_of_due (due_eq_true.2 ⟨w, ht, hle⟩)
  · intro hlt
    have hdue : (s.status t).due (s.now + 1) = false := by
      rw [ht]
      simp [Status.due, hlt]
    rw [← ht]
    exact pass_of_not_due hdue

theorem pass_ready (ht : s.status t = .ready) : s.pass.status t = .ready ∧ s.pass.wait t = s.wait t := by
  have hdue : (s.status t).due (s.now + 1) = false := by
    rw [ht]
    rfl
  rw [← ht]
  exact pass_of_not_due hdue

@[simp] theorem iterate_pass_now (n : ℕ) (s : Schedule τ ι) : (pass^[n] s).now = s.now + n := by
  induction n generalizing s with
  | zero => rfl
  | succ n ih =>
    rw [Function.iterate_succ_apply, ih, pass_now]
    omega

theorem iterate_pass_ready (n : ℕ) (ht : s.status t = .ready) :
    (pass^[n] s).status t = .ready ∧ (pass^[n] s).wait t = s.wait t := by
  induction n generalizing s with
  | zero => exact ⟨ht, rfl⟩
  | succ n ih =>
    have hpass := pass_ready ht
    rw [Function.iterate_succ_apply, ← hpass.2]
    exact ih hpass.1

theorem iterate_pass_delayed (n : ℕ) (hs : Good idle s) (ht : s.status t = .delayed w) :
    (w ≤ s.now + n → (pass^[n] s).status t = .ready ∧ (pass^[n] s).wait t = .nothing) ∧
      (s.now + n < w → (pass^[n] s).status t = .delayed w ∧ (pass^[n] s).wait t = s.wait t) := by
  induction n generalizing s with
  | zero =>
    have := hs.future t w ht
    exact ⟨fun hle => by omega, fun _ => ⟨ht, rfl⟩⟩
  | succ n ih =>
    rw [Function.iterate_succ_apply]
    obtain ⟨hready, hdelayed⟩ := pass_delayed ht
    by_cases hle : w ≤ s.now + 1
    · obtain ⟨h₁, h₂⟩ := hready hle
      refine ⟨fun _ => ?_, fun hlt => by omega⟩
      have hstay := iterate_pass_ready n h₁
      exact ⟨hstay.1, hstay.2.trans h₂⟩
    · obtain ⟨h₁, h₂⟩ := hdelayed (by omega)
      obtain ⟨ih₁, ih₂⟩ := ih hs.pass h₁
      rw [pass_now] at ih₁ ih₂
      rw [← h₂]
      exact ⟨fun hle' => ih₁ (by omega), fun hlt' => ih₂ (by omega)⟩

/-- The ticks change nothing about a task until its time comes. -/
theorem iterate_pass_status (n : ℕ) : ((pass^[n] s).status t = s.status t ∧ (pass^[n] s).wait t = s.wait t) ∨
    ((pass^[n] s).status t = .ready ∧ ∃ w, s.status t = .delayed w ∧ w ≤ s.now + n) := by
  induction n with
  | zero => exact Or.inl ⟨rfl, rfl⟩
  | succ n ih =>
    rw [Function.iterate_succ_apply']
    rcases ih with ⟨hstatus, hwait⟩ | ⟨hready, w, hw, hle⟩
    · cases hp : ((pass^[n] s).status t).due ((pass^[n] s).now + 1) with
      | true =>
        obtain ⟨w, hw, hle⟩ := due_eq_true.1 hp
        rw [iterate_pass_now] at hle
        exact Or.inr ⟨(pass_of_due hp).1, w, hstatus.symm.trans hw, hle⟩
      | false =>
        have hkeep := pass_of_not_due hp
        exact Or.inl ⟨hkeep.1.trans hstatus, hkeep.2.trans hwait⟩
    · exact Or.inr ⟨(pass_ready hready).1, w, hw, Nat.le_succ_of_le hle⟩

theorem Good.iterate_pass (h : Good idle s) (n : ℕ) : Good idle (Schedule.pass^[n] s) := by
  induction n generalizing s with
  | zero => exact h
  | succ n ih =>
    rw [Function.iterate_succ_apply]
    exact ih h.pass

/-- The ticks do not depend on what is held back. -/
theorem iterate_pass_suspended (n depth held : ℕ) (s : Schedule τ ι) :
    pass^[n] { s with depth := depth, held := held } = { pass^[n] s with depth := depth, held := held } := by
  induction n generalizing s with
  | zero => rfl
  | succ n ih =>
    rw [Function.iterate_succ_apply, Function.iterate_succ_apply, ← ih]
    rfl

theorem iterate_pass_running (n : ℕ) (s : Schedule τ ι) : (pass^[n] s).running = s.running := by
  induction n generalizing s with
  | zero => rfl
  | succ n ih =>
    rw [Function.iterate_succ_apply, ih]
    rfl

/-- A tick gives nobody its event. -/
theorem iterate_pass_signalled (n : ℕ) (h : ∀ t, s.wait t ≠ .signalled) (t : τ) :
    (pass^[n] s).wait t ≠ .signalled := by
  induction n generalizing s with
  | zero => exact h t
  | succ n ih =>
    rw [Function.iterate_succ_apply]
    refine ih fun u => ?_
    cases hp : (s.status u).due (s.now + 1) with
    | true =>
      have hu := (pass_of_due hp).2
      simp [hu]
    | false =>
      rw [(pass_of_not_due hp).2]
      exact h u

theorem isSignalled_eq_true {v : Wait ι} : v.isSignalled = true ↔ v = .signalled := by
  cases v <;> simp [Wait.isSignalled]

theorem release_signalled (s : Schedule τ ι) (t : τ) : s.release.wait t ≠ .signalled := by
  cases hp : (s.wait t).isSignalled with
  | true =>
    have ht := (release_of_signalled hp).2
    simp [ht]
  | false =>
    rw [(release_of_not_signalled hp).2]
    intro hsig
    rw [isSignalled_eq_true.2 hsig] at hp
    cases hp

theorem Good.resume (h : Good idle s) : Good idle s.resume := by
  unfold Schedule.resume
  split
  · have hr := (h.wakeUp fun t => (s.wait t).isSignalled).iterate_pass s.held
    exact ⟨hr.wait, hr.future, fun _ => ⟨rfl, iterate_pass_signalled s.held (release_signalled s)⟩, hr.idle⟩
  · next hd => exact ⟨h.wait, h.future, fun h0 => h.settled (by dsimp only at h0; omega), h.idle⟩

theorem resume_of_depth (hd : s.depth = 1) :
    s.resume = { pass^[s.held] s.release with depth := 0, held := 0 } := if_pos hd

theorem resume_of_depth_ne (hd : s.depth ≠ 1) : s.resume = { s with depth := s.depth - 1 } := if_neg hd

/-! ### Steps and paths -/

variable [DecidableEq τ] [LE P] {prio : τ → P} {may : ι → Prop}

theorem Step.mono {may' : ι → Prop} (hmay : ∀ i, may i → may' i) (h : Step prio idle may s s') :
    Step prio idle may' s s' := by
  cases h with
  | tick => exact .tick s
  | hold n hd => exact .hold s n hd
  | switch t hd ht htop => exact .switch s t hd ht htop
  | suspend => exact .suspend s
  | block status wait hd hrun hidle hstatus hfuture hwait =>
    exact .block s status wait hd hrun hidle hstatus hfuture hwait
  | signal i t hi ht htop => exact .signal s i t (hmay i hi) ht htop
  | resume hd => exact .resume s hd

theorem Step.good (h : Step prio idle may s s') (hs : Good idle s) : Good idle s' := by
  cases h with
  | tick =>
    unfold Schedule.tick
    split
    · exact hs.pass
    · next hd => exact ⟨hs.wait, hs.future, fun h0 => absurd h0 hd, hs.idle⟩
  | hold n hd => exact ⟨hs.wait, hs.future, fun h0 => absurd h0 (Nat.ne_of_gt hd), hs.idle⟩
  | switch t hd ht htop => exact ⟨hs.wait, hs.future, hs.settled, hs.idle⟩
  | suspend => exact ⟨hs.wait, hs.future, fun h0 => absurd h0 (Nat.succ_ne_zero _), hs.idle⟩
  | block status wait hd hrun hidle hstatus hfuture hwait =>
    refine ⟨fun t => ?_, fun t w => ?_, fun h0 => absurd h0 (Nat.ne_of_gt hd), ?_⟩
    · by_cases ht : t = s.running
      · subst ht
        simpa [Schedule.block] using fun _ => hstatus
      · simpa [Schedule.block, ht] using hs.wait t
    · by_cases ht : t = s.running
      · subst ht
        simpa [Schedule.block] using hfuture w
      · simpa [Schedule.block, ht] using hs.future t w
    · simpa [Schedule.block, hidle.symm] using hs.idle
  | signal i t hi ht htop =>
    unfold Schedule.signal
    split
    · exact hs.wakeUp _
    · next hd =>
      refine ⟨fun u hu => ?_, hs.future, fun h0 => absurd h0 hd, hs.idle⟩
      by_cases hut : u = t
      · subst hut
        exact hs.wait u (by rw [ht]; simp)
      · dsimp only at hu ⊢
        rw [Function.update_of_ne hut] at hu
        exact hs.wait u hu
  | resume hd => exact hs.resume

theorem Step.now_le (h : Step prio idle may s s') : s.now ≤ s'.now := by
  cases h with
  | tick =>
    unfold Schedule.tick
    split
    · exact Nat.le_succ s.now
    · exact Nat.le_refl _
  | hold | switch | suspend | block => exact Nat.le_refl _
  | signal =>
    unfold Schedule.signal
    split
    · exact Nat.le_refl _
    · exact Nat.le_refl _
  | resume =>
    unfold Schedule.resume
    split
    · show s.now ≤ (pass^[s.held] s.release).now
      rw [iterate_pass_now]
      exact Nat.le_add_right s.now s.held
    · exact Nat.le_refl _

theorem path_good (h : ReflTransGen (Step prio idle may) s s') (hs : Good idle s) : Good idle s' := by
  induction h with
  | refl => exact hs
  | tail _ hstep ih => exact hstep.good ih

theorem path_now_le (h : ReflTransGen (Step prio idle may) s s') : s.now ≤ s'.now := by
  induction h with
  | refl => exact Nat.le_refl _
  | tail _ hstep ih => exact Nat.le_trans ih hstep.now_le

/-- What a step does to a delayed task. -/
theorem Step.delayed (h : Step prio idle may s s') (hs : Good idle s) (ht : s.status t = .delayed w) :
    (w ≤ s'.now → s'.status t = .ready ∧ s'.wait t = .nothing) ∧
      (s.wait t = .nothing → s'.now < w → s'.status t = .delayed w ∧ s'.wait t = .nothing) := by
  have hfuture := hs.future t w ht
  have hsame : (w ≤ s.now → s.status t = .ready ∧ s.wait t = .nothing) ∧
      (s.wait t = .nothing → s.now < w → s.status t = .delayed w ∧ s.wait t = .nothing) :=
    ⟨fun hle => by omega, fun hw _ => ⟨ht, hw⟩⟩
  cases h with
  | tick =>
    unfold Schedule.tick
    split
    · have hpass := pass_delayed ht
      exact ⟨hpass.1, fun hw hlt => ⟨(hpass.2 hlt).1, (hpass.2 hlt).2.trans hw⟩⟩
    · exact hsame
  | hold | switch | suspend => exact hsame
  | block status wait hd hrun hidle hstatus hf hwait =>
    have hne : t ≠ s.running := by
      rintro rfl
      rw [hrun] at ht
      cases ht
    simpa [Schedule.block, hne] using hsame
  | signal i u hi hu htop =>
    by_cases htu : t = u
    · subst htu
      have hnow : (s.signal t).now = s.now := by
        unfold Schedule.signal
        split <;> rfl
      rw [hnow]
      exact ⟨fun hle => by omega, fun hw => by rw [hu] at hw; cases hw⟩
    · unfold Schedule.signal
      split
      · have hkeep := wakeUp_of_neg (s := s) (p := fun v => decide (v = u)) (t := t) (by simpa using htu)
        rw [hkeep.1, hkeep.2]
        exact hsame
      · simpa [htu] using hsame
  | resume hd =>
    unfold Schedule.resume
    split
    · have hr := hs.wakeUp fun v => (s.wait v).isSignalled
      show (w ≤ (pass^[s.held] s.release).now → _) ∧ (_ → (pass^[s.held] s.release).now < w → _)
      rw [iterate_pass_now]
      cases hp : (s.wait t).isSignalled with
      | true =>
        have hrel := release_of_signalled hp
        have hready := iterate_pass_ready s.held hrel.1
        refine ⟨fun _ => ⟨hready.1, hready.2.trans hrel.2⟩, fun hw => ?_⟩
        rw [hw] at hp
        cases hp
      | false =>
        have hrel := release_of_not_signalled hp
        have hdelayed := iterate_pass_delayed s.held hr (hrel.1.trans ht)
        exact ⟨hdelayed.1, fun hw hlt => ⟨(hdelayed.2 hlt).1, (hdelayed.2 hlt).2.trans (hrel.2.trans hw)⟩⟩
    · exact hsame

/-- A delayed task becomes ready or keeps its time. -/
theorem Step.ready_or_delayed (h : Step prio idle may s s') (hs : Good idle s) (ht : s.status t = .delayed w) :
    s'.status t = .ready ∨ s'.status t = .delayed w := by
  cases h with
  | tick =>
    unfold Schedule.tick
    split
    · by_cases hle : w ≤ s.now + 1
      · exact Or.inl ((pass_delayed ht).1 hle).1
      · exact Or.inr ((pass_delayed ht).2 (Nat.lt_of_not_le hle)).1
    · exact Or.inr ht
  | hold | switch | suspend => exact Or.inr ht
  | block status wait hd hrun hidle hstatus hf hwait =>
    have hne : t ≠ s.running := by
      rintro rfl
      rw [hrun] at ht
      cases ht
    exact Or.inr (by simpa [Schedule.block, hne] using ht)
  | signal i u hi hu htop =>
    unfold Schedule.signal
    split
    · by_cases htu : t = u
      · exact Or.inl (wakeUp_of_pos (p := fun v => decide (v = u)) (by simpa using htu)).1
      · exact Or.inr ((wakeUp_of_neg (p := fun v => decide (v = u)) (by simpa using htu)).1.trans ht)
    · exact Or.inr ht
  | resume hd =>
    unfold Schedule.resume
    split
    · show (pass^[s.held] s.release).status t = .ready ∨ (pass^[s.held] s.release).status t = .delayed w
      have hr := hs.wakeUp fun v => (s.wait v).isSignalled
      cases hp : (s.wait t).isSignalled with
      | true => exact Or.inl (iterate_pass_ready s.held (release_of_signalled hp).1).1
      | false =>
        have hdelayed := iterate_pass_delayed s.held hr ((release_of_not_signalled hp).1.trans ht)
        by_cases hle : w ≤ (s.wakeUp fun v => (s.wait v).isSignalled).now + s.held
        · exact Or.inl (hdelayed.1 hle).1
        · exact Or.inr (hdelayed.2 (Nat.lt_of_not_le hle)).1
    · exact Or.inr ht

/-- A task that waits for an event that does not come keeps waiting until its time comes. -/
theorem Step.event (h : Step prio idle may s s') (hs : Good idle s) {i : ι} (hi : ¬ may i) (ht : s.wait t = .event i) :
    (s'.status t = s.status t ∧ s'.wait t = .event i) ∨
      (s'.status t = .ready ∧ ∃ w, s.status t = .delayed w ∧ w ≤ s'.now) := by
  cases h with
  | tick =>
    unfold Schedule.tick
    split
    · have hpass := iterate_pass_status (s := s) (t := t) 1
      rw [ht] at hpass
      exact hpass
    · exact Or.inl ⟨rfl, ht⟩
  | hold | switch | suspend => exact Or.inl ⟨rfl, ht⟩
  | block status wait hd hrun hidle hstatus hf hwait =>
    have hne : t ≠ s.running := by
      rintro rfl
      exact hs.wait s.running (by rw [ht]; simp) hrun
    exact Or.inl (by simpa [Schedule.block, hne] using ht)
  | signal j u hj hu htop =>
    have hne : t ≠ u := by
      rintro rfl
      rw [ht] at hu
      cases hu
      exact hi hj
    unfold Schedule.signal
    split
    · have hkeep := wakeUp_of_neg (s := s) (p := fun v => decide (v = u)) (t := t) (by simpa using hne)
      rw [hkeep.1, hkeep.2]
      exact Or.inl ⟨rfl, ht⟩
    · exact Or.inl (by simpa [hne] using ht)
  | resume hd =>
    unfold Schedule.resume
    split
    · have hrelease := release_of_not_signalled (s := s) (t := t) (by rw [ht]; rfl)
      have hpass := iterate_pass_status (s := s.release) (t := t) s.held
      rw [hrelease.1, hrelease.2, ht] at hpass
      show (_ ∧ _) ∨ (_ ∧ ∃ w, _ ∧ w ≤ (pass^[s.held] s.release).now)
      rw [iterate_pass_now]
      exact hpass
    · exact Or.inl ⟨rfl, ht⟩

/-- A task that has got its event becomes ready, or is still to be made ready. -/
theorem Step.signalled (h : Step prio idle may s s') (hs : Good idle s) (ht : s.wait t = .signalled) :
    s'.status t = .ready ∨ s'.wait t = .signalled := by
  have hdepth : s.depth ≠ 0 := fun h0 => (hs.settled h0).2 t ht
  cases h with
  | tick =>
    unfold Schedule.tick
    rw [if_neg hdepth]
    exact Or.inr ht
  | hold | switch | suspend => exact Or.inr ht
  | block status wait hd hrun hidle hstatus hf hwait =>
    have hne : t ≠ s.running := by
      rintro rfl
      exact hs.wait s.running (by rw [ht]; simp) hrun
    exact Or.inr (by simpa [Schedule.block, hne] using ht)
  | signal i u hi hu htop =>
    have hne : t ≠ u := by
      rintro rfl
      rw [ht] at hu
      cases hu
    unfold Schedule.signal
    rw [if_neg hdepth]
    exact Or.inr (by simpa [hne] using ht)
  | resume hd =>
    unfold Schedule.resume
    split
    · have hrelease := release_of_signalled (isSignalled_eq_true.2 ht)
      exact Or.inl (iterate_pass_ready s.held hrelease.1).1
    · exact Or.inr ht

/-- A delayed task that waits for nothing sleeps until its time. -/
theorem path_delayed (h : ReflTransGen (Step prio idle may) s s') (hs : Good idle s) (ht : s.status t = .delayed w)
    (hw : s.wait t = .nothing) (hnow : s'.now < w) : s'.status t = .delayed w ∧ s'.wait t = .nothing := by
  induction h with
  | refl => exact ⟨ht, hw⟩
  | tail hpath hstep ih =>
    have hlt := Nat.lt_of_le_of_lt hstep.now_le hnow
    obtain ⟨hstatus, hwait⟩ := ih hlt
    exact (hstep.delayed (path_good hpath hs) hstatus).2 hwait hnow

end TimedSchedule
