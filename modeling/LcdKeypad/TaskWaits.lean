import LcdKeypad.KernelGuarantees

/-!
# How long the tasks wait

A task that delays itself is ready again exactly after its ticks, whatever else happens, also when the tick count
wraps meanwhile.  A task that waits for an event is ready again after its timeout at the latest; the task of the
highest priority gets the event, and it is not forgotten while the scheduler is suspended.  And a ready task is not
passed over by the others of its priority for ever.
-/

namespace LcdKeypad

open TimedSchedule BitSet TaskList TcbItem

section Runs

variable {τ β : Type} [DecidableEq τ] [Fintype τ] (c : KernelSetup τ) (vApplicationTickHook : β → β)

/-- In all states that the events lead through from `s` on. -/
def Along (s : TimedKernel τ β) (es : List KernelEvent) (P : TimedKernel τ β → Prop) : Prop :=
  ∀ done s', done <+: es → done.foldlM (kernelNext c vApplicationTickHook) s = .ok s' → P s'

/-- Whatever happens, the task is not ready before the tick `w`, and it is when this tick comes. -/
def SleepsUntil (s : TimedKernel τ β) (t : τ) (w : ℕ) : Prop :=
  ∀ (es : List KernelEvent) (e : KernelEvent), ∃ s₁ s₂, es.foldlM (kernelNext c vApplicationTickHook) s = .ok s₁ ∧
    kernelNext c vApplicationTickHook s₁ e = .ok s₂ ∧
    (s₁.now < w → ¬ s₁.kernel.IsReady t ∧ (w ≤ s₂.now → s₂.kernel.IsReady t))

end Runs

variable {τ β : Type} [DecidableEq τ] [Fintype τ] {c : KernelSetup τ} {vApplicationTickHook : β → β} {hook : β}
  {s s' : TimedKernel τ β} {L L' : TaskList → List (TcbItem τ)} {t : τ} {es later : List KernelEvent}

theorem along_nil {P : TimedKernel τ β → Prop} : Along c vApplicationTickHook s [] P ↔ P s := by
  constructor
  · intro h
    exact h [] s List.nil_prefix rfl
  · intro h done s₁ hdone hrun
    obtain rfl := List.prefix_nil.1 hdone
    obtain rfl : s = s₁ := Except.ok.inj hrun
    exact h

theorem along_cons {e : KernelEvent} {P : TimedKernel τ β → Prop}
    (hnext : kernelNext c vApplicationTickHook s e = .ok s') :
    Along c vApplicationTickHook s (e :: es) P ↔ P s ∧ Along c vApplicationTickHook s' es P := by
  constructor
  · intro h
    refine ⟨h [] s List.nil_prefix rfl, fun done s₁ hdone hrun => ?_⟩
    refine h (e :: done) s₁ (List.cons_prefix_cons.2 ⟨rfl, hdone⟩) ?_
    rw [List.foldlM_cons, hnext]
    exact hrun
  · rintro ⟨hs, h⟩ done s₁ hdone hrun
    cases done with
    | nil =>
      obtain rfl : s = s₁ := Except.ok.inj hrun
      exact hs
    | cons d done =>
      obtain ⟨rfl, hdone'⟩ := List.cons_prefix_cons.1 hdone
      rw [List.foldlM_cons, hnext] at hrun
      exact h done s₁ hdone' hrun

theorem Along.head {P : TimedKernel τ β → Prop} (h : Along c vApplicationTickHook s es P) : P s :=
  h [] s List.nil_prefix rfl

theorem RunInv.isReady_iff (h : RunInv c vApplicationTickHook hook s L) :
    s.kernel.IsReady t ↔ s.schedule.status t = .ready := h.inv.lists.isReady_iff

/-- The next event, as a step of the schedule or none. -/
theorem kernelNext_schedule (h : RunInv c vApplicationTickHook hook s L) (e : KernelEvent) :
    ∃ s' L', kernelNext c vApplicationTickHook s e = .ok s' ∧ RunInv c vApplicationTickHook hook s' L' ∧
      (s'.schedule = s.schedule ∨ Step c.uxPriority c.xIdleTask e.Signals s.schedule s'.schedule) := by
  obtain ⟨s', L', hnext, h', ⟨-, -, hs⟩ | ⟨-, rfl, -⟩⟩ := kernelNext_eq h e
  · exact ⟨s', L', hnext, h', hs.step⟩
  · exact ⟨s', L', hnext, h', Or.inl rfl⟩

/-! ### Delays -/

theorem sleepsUntil_of_delayed (h : RunInv c vApplicationTickHook hook s L) {w : ℕ}
    (ht : s.schedule.status t = .delayed w) (hwait : s.schedule.wait t = .nothing) :
    SleepsUntil c vApplicationTickHook s t w := by
  intro es e
  obtain ⟨s₁, L₁, hrun, h₁, hpath⟩ := run_inv h es
  obtain ⟨s₂, L₂, hnext, h₂, hstep⟩ := kernelNext_schedule h₁ e
  refine ⟨s₁, s₂, hrun, hnext, fun hlt => ?_⟩
  obtain ⟨ht₁, -⟩ := path_delayed hpath h.inv.good ht hwait hlt
  constructor
  · rw [h₁.isReady_iff, ht₁]
    simp
  · intro hle
    rw [h₂.isReady_iff]
    rcases hstep with heq | hstep
    · have hnow : s₂.now = s₁.now := congrArg Schedule.now heq
      omega
    · exact ((hstep.delayed h₁.inv.good ht₁).1 hle).1

/-- The state after a call that has blocked the running task. -/
theorem exists_blocked (h : RunInv c vApplicationTickHook hook s L) {e : KernelEvent}
    (hmay : e.MayHappen c.xIdleTask s.kernel) (hticks : e.ticks s.kernel = 0) {k' : Kernel τ β} {st : Status}
    {v : Wait ℕ} (hstep : kernelStep vApplicationTickHook (loopFuel τ) s.kernel e = .ok k')
    (hb : Blocked s.kernel k' L L' s.now st v) :
    ∃ s' L', kernelNext c vApplicationTickHook s e = .ok s' ∧ RunInv c vApplicationTickHook hook s' L' ∧
      s'.now = s.now ∧ s'.schedule.status s.kernel.pxCurrentTCB = st ∧
      s'.schedule.wait s.kernel.pxCurrentTCB = v := by
  obtain ⟨s', L'', hnext, h', ⟨-, hnow, -⟩ | ⟨hnot, -⟩⟩ := kernelNext_eq h e
  · rw [hticks] at hnow
    have hkernel : s'.kernel = k' :=
      Except.ok.inj ((kernelStep_of_kernelNext hmay hnext).symm.trans hstep)
    have hschedule : s'.schedule = k'.schedule s.now := by
      unfold TimedKernel.schedule
      rw [hkernel, hnow, Nat.add_zero]
    refine ⟨s', L'', hnext, h', hnow, ?_, ?_⟩
    · rw [hschedule]
      exact (hb.status _).trans (if_pos rfl)
    · rw [hschedule]
      exact (hb.wait _).trans (if_pos rfl)
  · exact absurd hmay hnot

/-- `vTaskDelay` puts the running task to sleep for exactly its ticks. -/
theorem vTaskDelay_sleeps (hrun : kernelRun c vApplicationTickHook hook es = .ok s) {xTicksToDelay : UInt32}
    (hmay : (KernelEvent.vTaskDelay xTicksToDelay).MayHappen c.xIdleTask s.kernel) :
    ∃ s', kernelNext c vApplicationTickHook s (.vTaskDelay xTicksToDelay) = .ok s' ∧ s'.now = s.now ∧
      SleepsUntil c vApplicationTickHook s' s.kernel.pxCurrentTCB (s.now + xTicksToDelay.toNat) := by
  obtain ⟨L, h⟩ := runInv_of_run hrun
  obtain ⟨k', L', hstep, hb, -⟩ := h.inv.taskDelay vApplicationTickHook hmay
  obtain ⟨s', L'', hnext, h', hnow, hstatus, hwait⟩ := exists_blocked h hmay rfl hstep hb
  exact ⟨s', hnext, hnow, sleepsUntil_of_delayed h' hstatus hwait⟩

/-- The timer task waits for a command, and the application task runs. -/
def appStart : List KernelEvent :=
  [.vTaskSuspendAll, .vTaskPlaceOnEventListRestricted 0 0 true, .xTaskResumeAll, .vPortYield, .PendSV_Handler,
    .vTaskSuspendAll]

theorem vTaskDelay_sleeps_appTasks :
    ∃ s, kernelRun appTasks (· + 1) 0 appStart = .ok s ∧ s.kernel.pxCurrentTCB = .application_task ∧
      ∃ s', kernelNext appTasks (· + 1) s (.vTaskDelay 50) = .ok s' ∧ s'.now = s.now ∧
        SleepsUntil appTasks (· + 1) s' s.kernel.pxCurrentTCB (s.now + (50 : UInt32).toNat) := by
  have hrun : kernelRun appTasks (· + 1) 0 appStart = .ok _ := rfl
  exact ⟨_, hrun, rfl, vTaskDelay_sleeps hrun (by decide)⟩

/-- The comparisons of `xTaskDelayUntil` are right also when the tick count has wrapped since the last wake time. -/
theorem shouldDelay_iff {now prev : ℕ} (hprev : prev ≤ now) (hrecent : now < prev + 2 ^ 32) {xTickCount : UInt32}
    (hclock : xTickCount.toNat = now % 2 ^ 32) (xTimeIncrement : UInt32) :
    shouldDelay xTickCount (.ofNat prev) (.ofNat prev + xTimeIncrement) = true ↔ now < prev + xTimeIncrement.toNat := by
  have hlt := xTimeIncrement.toNat_lt
  unfold shouldDelay
  simp only [UInt32.lt_iff_toNat_lt, UInt32.toNat_add, UInt32.toNat_ofNat', hclock]
  split
  · simp only [Bool.and_eq_true, decide_eq_true_eq]
    omega
  · simp only [Bool.or_eq_true, decide_eq_true_eq]
    omega

/-- Whatever has happened since the call suspended the scheduler, at the end of a delay PendSV is pending. -/
theorem resumeAndYield_pends (h : RunInv c vApplicationTickHook hook s L)
    (hmay : KernelEvent.resumeAndYield.MayHappen c.xIdleTask s.kernel) :
    ∃ s', kernelNext c vApplicationTickHook s .resumeAndYield = .ok s' ∧ s'.kernel.pendSV = true := by
  obtain ⟨k', L', hstep, hpending, -⟩ := h.inv.resumeAndYield vApplicationTickHook hmay
  obtain ⟨s', L'', hnext, -⟩ := kernelNext_eq h .resumeAndYield
  have hkernel : s'.kernel = k' := Except.ok.inj ((kernelStep_of_kernelNext hmay hnext).symm.trans hstep)
  exact ⟨s', hnext, by rw [hkernel]; exact hpending⟩

/-- `xTaskDelayUntil` moves the previous wake time on by the increment, and returns whether that time is still to come.
If it is, the running task sleeps until then, otherwise it stays as it is; in both cases the call ends with PendSV
pending. -/
theorem xTaskDelayUntil_sleeps (hrun : kernelRun c vApplicationTickHook hook es = .ok s) (prev : ℕ)
    (hprev : prev ≤ s.now) (hrecent : s.now < prev + 2 ^ 32) (xTimeIncrement : UInt32)
    (hmay : (KernelEvent.xTaskDelayUntil (.ofNat prev) xTimeIncrement).MayHappen c.xIdleTask s.kernel) :
    ∃ s', xTaskDelayUntil (loopFuel τ) (.ofNat prev) xTimeIncrement s.kernel =
        .ok (s'.kernel, .ofNat (prev + xTimeIncrement.toNat), decide (s.now < prev + xTimeIncrement.toNat)) ∧
      kernelNext c vApplicationTickHook s (.xTaskDelayUntil (.ofNat prev) xTimeIncrement) = .ok s' ∧ s'.now = s.now ∧
      (s.now < prev + xTimeIncrement.toNat →
        SleepsUntil c vApplicationTickHook s' s.kernel.pxCurrentTCB (prev + xTimeIncrement.toNat)) ∧
      (prev + xTimeIncrement.toNat ≤ s.now → s' = s) ∧
      ∀ later : List KernelEvent, ∃ s₁, later.foldlM (kernelNext c vApplicationTickHook) s' = .ok s₁ ∧
        (KernelEvent.resumeAndYield.MayHappen c.xIdleTask s₁.kernel →
          ∃ s₂, kernelNext c vApplicationTickHook s₁ .resumeAndYield = .ok s₂ ∧ s₂.kernel.pendSV = true) := by
  obtain ⟨L, h⟩ := runInv_of_run hrun
  obtain ⟨k', L', hcall, hb, -⟩ := h.inv.taskDelayUntil vApplicationTickHook hmay
  have hiff := shouldDelay_iff hprev hrecent h.inv.clock.1 xTimeIncrement
  have hshould : shouldDelay s.kernel.xTickCount (.ofNat prev) (.ofNat prev + xTimeIncrement) =
      decide (s.now < prev + xTimeIncrement.toNat) := by
    rw [Bool.eq_iff_iff, hiff, decide_eq_true_eq]
  have hwake : UInt32.ofNat prev + xTimeIncrement = .ofNat (prev + xTimeIncrement.toNat) := by
    rw [UInt32.ofNat_add, UInt32.ofNat_toNat]
  have hstep : kernelStep vApplicationTickHook (loopFuel τ) s.kernel
      (.xTaskDelayUntil (.ofNat prev) xTimeIncrement) = .ok k' := by
    show (xTaskDelayUntil (loopFuel τ) (.ofNat prev) xTimeIncrement s.kernel).map Prod.fst = .ok k'
    rw [hcall]
    rfl
  obtain ⟨s', L'', hnext, h', ⟨-, hnow, -⟩ | ⟨hnot, -⟩⟩ :=
    kernelNext_eq h (.xTaskDelayUntil (.ofNat prev) xTimeIncrement)
  · have hkernel : s'.kernel = k' := Except.ok.inj ((kernelStep_of_kernelNext hmay hnext).symm.trans hstep)
    refine ⟨s', ?_, hnext, hnow, fun hlt => ?_, fun hle => ?_, fun later => ?_⟩
    · rw [hcall, hshould, hwake, hkernel]
    · rw [if_pos (hiff.2 hlt)] at hb
      have hticks : (UInt32.ofNat prev + xTimeIncrement - s.kernel.xTickCount).toNat =
          prev + xTimeIncrement.toNat - s.now := by
        have hword := xTimeIncrement.toNat_lt
        rw [UInt32.toNat_sub, UInt32.toNat_add, UInt32.toNat_ofNat', h.inv.clock.1]
        omega
      obtain ⟨r, _, hnext', h'', -, hstatus, hwait⟩ := exists_blocked h hmay rfl hstep hb
      obtain rfl : s' = r := Except.ok.inj (hnext.symm.trans hnext')
      rw [hticks, Nat.add_sub_of_le (Nat.le_of_lt hlt)] at hstatus
      exact sleepsUntil_of_delayed h'' hstatus hwait
    · rw [if_neg (fun hd => Nat.not_lt.2 hle (hiff.1 hd))] at hb
      have hsame : kernelNext c vApplicationTickHook s (.xTaskDelayUntil (.ofNat prev) xTimeIncrement) = .ok s := by
        unfold kernelNext
        rw [if_pos hmay, hstep, hb]
        rfl
      exact Except.ok.inj (hnext.symm.trans hsame)
    · obtain ⟨s₁, L₁, hrun₁, h₁, -⟩ := run_inv h' later
      exact ⟨s₁, hrun₁, resumeAndYield_pends h₁⟩
  · exact absurd hmay hnot

/-- An increment of 10 ticks since tick 0, after one tick and after 20 ticks. -/
theorem xTaskDelayUntil_sleeps_appTasks :
    (∃ s s', kernelRun appTasks (· + 1) 0 (.SysTick_Handler :: appStart) = .ok s ∧
      xTaskDelayUntil (loopFuel AppTask) 0 10 s.kernel = .ok (s'.kernel, 10, true) ∧
      kernelNext appTasks (· + 1) s (.xTaskDelayUntil 0 10) = .ok s' ∧
      SleepsUntil appTasks (· + 1) s' .application_task 10) ∧
    ∃ s, kernelRun appTasks (· + 1) 0 (List.replicate 20 .SysTick_Handler ++ appStart) = .ok s ∧
      xTaskDelayUntil (loopFuel AppTask) 0 10 s.kernel = .ok (s.kernel, 10, false) ∧
      ∃ s₂, kernelNext appTasks (· + 1) s .resumeAndYield = .ok s₂ ∧ s₂.kernel.pendSV = true := by
  constructor
  · have hrun : kernelRun appTasks (· + 1) 0 (.SysTick_Handler :: appStart) = .ok _ := rfl
    obtain ⟨s', hcall, hnext, -, hsleeps, -⟩ :=
      xTaskDelayUntil_sleeps hrun 0 (by decide) (by decide) 10 (by decide)
    exact ⟨_, s', hrun, hcall, hnext, hsleeps (by decide)⟩
  · have hrun : kernelRun appTasks (· + 1) 0 (List.replicate 20 .SysTick_Handler ++ appStart) = .ok _ := rfl
    obtain ⟨s', hcall, -, -, -, hsame, hend⟩ :=
      xTaskDelayUntil_sleeps hrun 0 (by decide) (by decide) 10 (by decide)
    obtain rfl := hsame (by decide)
    obtain ⟨s₁, hnil, hyield⟩ := hend []
    obtain rfl := Except.ok.inj hnil
    exact ⟨_, hrun, hcall, hyield (by decide)⟩

/-! ### Events -/

/-- What every step keeps until the task is ready. -/
theorem run_unless_ready {P : Schedule τ ℕ → Prop}
    (hP : ∀ s s', Good c.xIdleTask s → Step c.uxPriority c.xIdleTask (fun _ => True) s s' → P s →
      s'.status t = .ready ∨ P s')
    (h : RunInv c vApplicationTickHook hook s L) (hs : P s.schedule)
    (hnot : Along c vApplicationTickHook s later fun s₁ => ¬ s₁.kernel.IsReady t) :
    ∃ s₁ L₁, later.foldlM (kernelNext c vApplicationTickHook) s = .ok s₁ ∧
      RunInv c vApplicationTickHook hook s₁ L₁ ∧ P s₁.schedule := by
  induction later generalizing s L with
  | nil => exact ⟨s, L, rfl, h, hs⟩
  | cons e later ih =>
    obtain ⟨s₁, L₁, hnext, h₁, hstep⟩ := kernelNext_schedule h e
    have hnot₁ := ((along_cons hnext).1 hnot).2
    have hs₁ : P s₁.schedule := by
      rcases hstep with heq | hstep
      · rwa [heq]
      · rcases hP _ _ h.inv.good (hstep.mono fun _ _ => trivial) hs with hready | hs₁
        · exact absurd (h₁.isReady_iff.2 hready) hnot₁.head
        · exact hs₁
    obtain ⟨s', L', hrun, h', hs'⟩ := ih h₁ hs₁ hnot₁
    refine ⟨s', L', ?_, h', hs'⟩
    rw [List.foldlM_cons, hnext]
    exact hrun

/-- A task keeps waiting for an event that does not come until its time comes. -/
theorem run_event (h : RunInv c vApplicationTickHook hook s L) {n : ℕ} (hwait : s.schedule.wait t = .event n)
    (hnot : ∀ e ∈ later, ¬ e.Signals n) :
    ∃ s₁ L₁, later.foldlM (kernelNext c vApplicationTickHook) s = .ok s₁ ∧
      RunInv c vApplicationTickHook hook s₁ L₁ ∧ s.now ≤ s₁.now ∧
      ((s₁.schedule.status t = s.schedule.status t ∧ s₁.schedule.wait t = .event n) ∨
        ∃ w, s.schedule.status t = .delayed w ∧ w ≤ s₁.now) := by
  induction later generalizing s L with
  | nil => exact ⟨s, L, rfl, h, Nat.le_refl _, Or.inl ⟨rfl, hwait⟩⟩
  | cons e later ih =>
    obtain ⟨s₁, L₁, hnext, h₁, hstep⟩ := kernelNext_schedule h e
    have hnow : s.now ≤ s₁.now := by
      rcases hstep with heq | hstep
      · exact Nat.le_of_eq (congrArg Schedule.now heq).symm
      · exact hstep.now_le
    have hcases : (s₁.schedule.status t = s.schedule.status t ∧ s₁.schedule.wait t = .event n) ∨
        ∃ w, s.schedule.status t = .delayed w ∧ w ≤ s₁.now := by
      rcases hstep with heq | hstep
      · rw [heq]
        exact Or.inl ⟨rfl, hwait⟩
      · rcases hstep.event h.inv.good (hnot e List.mem_cons_self) hwait with hkeep | ⟨-, hdue⟩
        · exact Or.inl hkeep
        · exact Or.inr hdue
    rcases hcases with ⟨hstatus, hwait₁⟩ | ⟨w, hw, hle⟩
    · obtain ⟨s', L', hrun, h', hnow', hcases'⟩ := ih h₁ hwait₁ fun e' he' => hnot e' (List.mem_cons_of_mem _ he')
      rw [hstatus] at hcases'
      refine ⟨s', L', ?_, h', Nat.le_trans hnow hnow', hcases'⟩
      rw [List.foldlM_cons, hnext]
      exact hrun
    · obtain ⟨s', L', hrun, h', hpath⟩ := run_inv h₁ later
      have hnow' : s₁.now ≤ s'.now := path_now_le hpath
      refine ⟨s', L', ?_, h', Nat.le_trans hnow hnow', Or.inr ⟨w, hw, Nat.le_trans hle hnow'⟩⟩
      rw [List.foldlM_cons, hnext]
      exact hrun

/-- The call by which the running task waits for the event `n`, with the ticks it waits at most. -/
def KernelEvent.waits : KernelEvent → Option (ℕ × Option UInt32)
  | vTaskPlaceOnEventList n xTicksToWait =>
    some (n, if xTicksToWait = portMAX_DELAY then none else some xTicksToWait)
  | vTaskPlaceOnEventListRestricted n xTicksToWait xWaitIndefinitely =>
    some (n, if xWaitIndefinitely then none else some xTicksToWait)
  | _ => none

theorem blocked_of_waits {k : Kernel τ β} {now : ℕ} (h : KernelInv c k now L) {e : KernelEvent}
    (hmay : e.MayHappen c.xIdleTask k) {n : ℕ} {ticks : Option UInt32} (he : e.waits = some (n, ticks)) :
    e.ticks k = 0 ∧ ∃ k' L', kernelStep vApplicationTickHook (loopFuel τ) k e = .ok k' ∧
      Blocked k k' L L' now (ticks.elim .suspended fun x => .delayed (now + x.toNat)) (.event n) := by
  cases e with
  | vTaskPlaceOnEventList n xTicksToWait =>
    obtain ⟨k', L', hstep, hb, -⟩ := h.placeOnEventList vApplicationTickHook hmay
    cases he
    refine ⟨rfl, k', L', hstep, ?_⟩
    split at hb
    · next hmax => rwa [if_pos hmax]
    · next hmax => rwa [if_neg hmax]
  | vTaskPlaceOnEventListRestricted n xTicksToWait xWaitIndefinitely =>
    obtain ⟨k', L', hstep, hb, -⟩ := h.placeOnEventListRestricted vApplicationTickHook hmay
    cases he
    refine ⟨rfl, k', L', hstep, ?_⟩
    split at hb
    · next hmax => rwa [if_pos hmax]
    · next hmax => rwa [if_neg hmax]
  | SysTick_Handler | PendSV_Handler | vPortYield | vTaskSuspendAll | vTaskDelay | xTaskDelayUntil
  | xTaskRemoveFromEventList | xTaskCatchUpTicks | xTaskResumeAll | resumeAndYield => cases he

/-- A task that waits for an event, for some ticks at most or indefinitely, has been ready before the ticks are over,
and it is not ready before that unless the event comes. -/
theorem placeOnEventList_waits (hrun : kernelRun c vApplicationTickHook hook es = .ok s) {e : KernelEvent}
    (hmay : e.MayHappen c.xIdleTask s.kernel) {n : ℕ} {ticks : Option UInt32} (he : e.waits = some (n, ticks)) :
    ∃ s', kernelNext c vApplicationTickHook s e = .ok s' ∧ s'.now = s.now ∧ ∀ later : List KernelEvent,
      ∃ s₁, later.foldlM (kernelNext c vApplicationTickHook) s' = .ok s₁ ∧
        (∀ x, ticks = some x →
          (Along c vApplicationTickHook s' later fun s₂ => ¬ s₂.kernel.IsReady s.kernel.pxCurrentTCB) →
          s₁.now < s.now + x.toNat) ∧
        ((∀ d ∈ later, ¬ d.Signals n) → (∀ x, ticks = some x → s₁.now < s.now + x.toNat) →
          ¬ s₁.kernel.IsReady s.kernel.pxCurrentTCB) := by
  obtain ⟨L, h⟩ := runInv_of_run hrun
  obtain ⟨hticks, k', L', hstep, hb⟩ := blocked_of_waits h.inv hmay he
  obtain ⟨s', L'', hnext, h', hnow, hstatus, hwait⟩ := exists_blocked h hmay hticks hstep hb
  refine ⟨s', hnext, hnow, fun later => ?_⟩
  obtain ⟨s₁, L₁, hrun₁, h₁, -⟩ := run_inv h' later
  refine ⟨s₁, hrun₁, fun x hx hnot => ?_, fun hnot hlt => ?_⟩
  · subst hx
    obtain ⟨s₂, L₂, hrun₂, h₂, hdelayed⟩ := run_unless_ready
      (P := fun r => r.status s.kernel.pxCurrentTCB = .delayed (s.now + x.toNat))
      (fun _ _ hgood hs ht => hs.ready_or_delayed hgood ht) h' hstatus hnot
    obtain rfl : s₁ = s₂ := Except.ok.inj (hrun₁.symm.trans hrun₂)
    exact h₁.inv.future _ _ hdelayed
  · obtain ⟨s₂, L₂, hrun₂, h₂, -, ⟨hstatus₂, -⟩ | ⟨w, hw, hle⟩⟩ := run_event h' hwait hnot
    · obtain rfl : s₁ = s₂ := Except.ok.inj (hrun₁.symm.trans hrun₂)
      rw [h₁.isReady_iff, hstatus₂, hstatus]
      cases ticks <;> simp
    · obtain rfl : s₁ = s₂ := Except.ok.inj (hrun₁.symm.trans hrun₂)
      rw [hstatus] at hw
      cases ticks with
      | none => cases hw
      | some x =>
        have hlt' := hlt x rfl
        cases hw
        exact absurd hle (Nat.not_le_of_lt hlt')

theorem placeOnEventList_waits_appTasks :
    ∃ s, kernelRun appTasks (· + 1) 0 appStart = .ok s ∧
      ∃ s', kernelNext appTasks (· + 1) s (.vTaskPlaceOnEventList 1 20) = .ok s' ∧ s'.now = s.now ∧
        ∀ later : List KernelEvent, ∃ s₁, later.foldlM (kernelNext appTasks (· + 1)) s' = .ok s₁ ∧
          (∀ x, some (20 : UInt32) = some x →
            (Along appTasks (· + 1) s' later fun s₂ => ¬ s₂.kernel.IsReady s.kernel.pxCurrentTCB) →
            s₁.now < s.now + x.toNat) ∧
          ((∀ d ∈ later, ¬ d.Signals 1) → (∀ x, some (20 : UInt32) = some x → s₁.now < s.now + x.toNat) →
            ¬ s₁.kernel.IsReady s.kernel.pxCurrentTCB) := by
  have hrun : kernelRun appTasks (· + 1) 0 appStart = .ok _ := rfl
  exact ⟨_, hrun, placeOnEventList_waits (e := .vTaskPlaceOnEventList 1 20) hrun (by decide) rfl⟩

/-- An event wakes one task of the highest priority among those that wait for it, and leaves the others waiting.  The
task is ready at the latest when the scheduler is not suspended any more. -/
theorem xTaskRemoveFromEventList_wakes (hrun : kernelRun c vApplicationTickHook hook es = .ok s) {n : ℕ}
    (hmay : (KernelEvent.xTaskRemoveFromEventList n).MayHappen c.xIdleTask s.kernel) :
    ∃ s' t, kernelNext c vApplicationTickHook s (.xTaskRemoveFromEventList n) = .ok s' ∧
      s.kernel.waitOf t = .event n ∧ (∀ u, s.kernel.waitOf u = .event n → c.uxPriority u ≤ c.uxPriority t) ∧
      s'.kernel.waitOf t ≠ .event n ∧ (∀ u, u ≠ t → s'.kernel.waitOf u = s.kernel.waitOf u) ∧
      ∀ later : List KernelEvent, ∃ s₁, later.foldlM (kernelNext c vApplicationTickHook) s' = .ok s₁ ∧
        ((Along c vApplicationTickHook s' later fun s₂ => ¬ s₂.kernel.IsReady t) →
          s₁.kernel.uxSchedulerSuspended ≠ 0) := by
  obtain ⟨L, h⟩ := runInv_of_run hrun
  obtain ⟨k', t, L', hstep, ht, hmax, hsignal, -⟩ := h.inv.removeFromEventList vApplicationTickHook hmay
  obtain ⟨s', L'', hnext, h', ⟨-, hnow, -⟩ | ⟨hnot, -⟩⟩ := kernelNext_eq h (.xTaskRemoveFromEventList n)
  · have hkernel : s'.kernel = k' := Except.ok.inj ((kernelStep_of_kernelNext hmay hnext).symm.trans hstep)
    have hschedule : s'.schedule = s.schedule.signal t := by
      unfold TimedKernel.schedule
      rw [hkernel, hnow]
      exact hsignal
    have hwait : ∀ u, s'.kernel.waitOf u = (s.schedule.signal t).wait u := by
      intro u
      rw [← hschedule]
      rfl
    refine ⟨s', t, hnext, ht, hmax, ?_, fun u hu => ?_, fun later => ?_⟩
    · rw [hwait, Schedule.signal_wait, if_pos rfl]
      split <;> simp
    · rw [hwait, Schedule.signal_wait, if_neg hu]
      rfl
    · obtain ⟨s₁, L₁, hrun₁, h₁, -⟩ := run_inv h' later
      refine ⟨s₁, hrun₁, fun hnot => ?_⟩
      by_cases hdepth : s.schedule.depth = 0
      · have hready : s'.schedule.status t = .ready := by
          rw [hschedule]
          exact Schedule.signal_status_of_depth hdepth t
        exact absurd (h'.isReady_iff.2 hready) hnot.head
      · have hsignalled : s'.schedule.wait t = .signalled := by
          rw [hschedule, Schedule.signal_wait, if_pos rfl, if_neg hdepth]
        obtain ⟨s₂, L₂, hrun₂, h₂, hpending⟩ := run_unless_ready (P := fun r => r.wait t = .signalled)
          (fun _ _ hgood hs hr => hs.signalled hgood hr) h' hsignalled hnot
        obtain rfl : s₁ = s₂ := Except.ok.inj (hrun₁.symm.trans hrun₂)
        exact fun hrunning => (h₁.inv.good.settled (schedule_depth_eq_zero.2 hrunning)).2 t hpending
  · exact absurd hmay hnot

/-- The timer task gets a command while the application task has the scheduler suspended. -/
theorem xTaskRemoveFromEventList_wakes_appTasks :
    ∃ s, kernelRun appTasks (· + 1) 0 appStart = .ok s ∧
      ∃ s' t, kernelNext appTasks (· + 1) s (.xTaskRemoveFromEventList 0) = .ok s' ∧
        s.kernel.waitOf t = .event 0 ∧
        (∀ u, s.kernel.waitOf u = .event 0 → AppTask.uxPriority u ≤ AppTask.uxPriority t) ∧
        s'.kernel.waitOf t ≠ .event 0 ∧ (∀ u, u ≠ t → s'.kernel.waitOf u = s.kernel.waitOf u) ∧
        ∀ later : List KernelEvent, ∃ s₁, later.foldlM (kernelNext appTasks (· + 1)) s' = .ok s₁ ∧
          ((Along appTasks (· + 1) s' later fun s₂ => ¬ s₂.kernel.IsReady t) →
            s₁.kernel.uxSchedulerSuspended ≠ 0) := by
  have hrun : kernelRun appTasks (· + 1) 0 appStart = .ok _ := rfl
  exact ⟨_, hrun, xTaskRemoveFromEventList_wakes hrun (by decide)⟩

/-! ### Tasks of the same priority -/

/-- A ready list is not longer than there are tasks of its priority. -/
theorem TaskLists.ready_length_le {k : Kernel τ β} (h : TaskLists k L) (p : UInt32) :
    (L (pxReadyTasksLists p)).length ≤ (Finset.univ.filter fun u => k.uxPriority u = p).card := by
  have hitem : ∀ x ∈ L (pxReadyTasksLists p), x = xStateListItem x.pvOwner ∧ k.uxPriority x.pvOwner = p := by
    intro x hx
    cases x with
    | xStateListItem u =>
      refine ⟨rfl, ?_⟩
      rcases h.place_state hx with hi | hi | hi | hi
      · cases hi
        rfl
      · exact absurd hi.symm (h.delayed_ne p).1
      · exact absurd hi.symm (h.delayed_ne p).2.1
      · cases hi
    | xEventListItem u =>
      have hplace : _ = _ ∨ ∃ n, _ = _ := h.place _ _ hx
      simp at hplace
  have hnodup : ((L (pxReadyTasksLists p)).map TcbItem.pvOwner).Nodup := by
    refine (h.lists.nodup _).map_on fun x hx y hy hxy => ?_
    rw [(hitem x hx).1, (hitem y hy).1, hxy]
  rw [← List.length_map TcbItem.pvOwner, ← List.toFinset_card_of_nodup hnodup]
  refine Finset.card_le_card fun u hu => ?_
  obtain ⟨x, hx, rfl⟩ := List.mem_map.1 (List.mem_toFinset.1 hu)
  exact Finset.mem_filter.2 ⟨Finset.mem_univ _, (hitem x hx).2⟩

variable (c vApplicationTickHook) in
/-- How many switches select a task of the priority `p`. -/
def selections (p : UInt32) : TimedKernel τ β → List KernelEvent → ℕ
  | _, [] => 0
  | s, e :: es =>
    match kernelNext c vApplicationTickHook s e with
    | .ok s' =>
      (if e.MayHappen c.xIdleTask s.kernel ∧ e.Switches s.kernel ∧ c.uxPriority s'.kernel.pxCurrentTCB = p then 1
      else 0) + selections p s' es
    | .error _ => 0

theorem selections_cons {p : UInt32} {e : KernelEvent} (hnext : kernelNext c vApplicationTickHook s e = .ok s')
    (es : List KernelEvent) : selections c vApplicationTickHook p s (e :: es) =
      (if e.MayHappen c.xIdleTask s.kernel ∧ e.Switches s.kernel ∧ c.uxPriority s'.kernel.pxCurrentTCB = p then 1
      else 0) + selections c vApplicationTickHook p s' es := by
  rw [selections, hnext]

/-- Every switch that selects another task of its priority brings a waiting task nearer. -/
theorem selections_le (h : RunInv c vApplicationTickHook hook s L) {N n : ℕ}
    (hN : (Finset.univ.filter fun u => c.uxPriority u = c.uxPriority t).card ≤ N + 1)
    (hn : Ahead N s.kernel.lists L (pxReadyTasksLists (c.uxPriority t)) (xStateListItem t) n)
    (hwaits : Along c vApplicationTickHook s later fun s' => s'.kernel.IsReady t ∧ s'.kernel.pxCurrentTCB ≠ t) :
    selections c vApplicationTickHook (c.uxPriority t) s later ≤ n := by
  induction later generalizing s L n with
  | nil => exact Nat.zero_le n
  | cons e later ih =>
    obtain ⟨s', L', hnext, h', hcases⟩ := kernelNext_eq h e
    obtain ⟨-, hwaits'⟩ := (along_cons hnext).1 hwaits
    rw [selections_cons hnext]
    rcases hcases with ⟨hmay, -, hs⟩ | ⟨hnot, rfl, rfl⟩
    · have hready := h'.isReady_iff.1 hwaits'.head.1
      have hother := hwaits'.head.2.symm
      by_cases hsel : e.Switches s.kernel ∧ c.uxPriority s'.kernel.pxCurrentTCB = c.uxPriority t
      · have hlength := h.inv.lists.ready_length_le (c.uxPriority t)
        rw [h.inv.priority] at hlength
        obtain ⟨n', hlt, hn'⟩ := hs.served t hother hsel.1 hsel.2 N n (hlength.trans hN) hn
        rw [if_pos ⟨hmay, hsel⟩]
        have hle := ih h' hn' hwaits'
        omega
      · obtain ⟨n', hle, hn'⟩ := hs.onward t hready hsel N n hn
        rw [if_neg (fun hc => hsel hc.2), Nat.zero_add]
        exact (ih h' hn' hwaits').trans hle
    · rw [if_neg (fun hc => hnot hc.1), Nat.zero_add]
      exact ih h' hn hwaits'

/-- While a ready task waits, at most `2 * (m - 1)` switches select another task of its priority, if `m` tasks have
this priority. -/
theorem kernelRun_roundRobin (hrun : kernelRun c vApplicationTickHook hook es = .ok s)
    (hwaits : Along c vApplicationTickHook s later fun s' => s'.kernel.IsReady t ∧ s'.kernel.pxCurrentTCB ≠ t) :
    selections c vApplicationTickHook (c.uxPriority t) s later ≤
      2 * ((Finset.univ.filter fun u => c.uxPriority u = c.uxPriority t).card - 1) := by
  obtain ⟨L, h⟩ := runInv_of_run hrun
  have hpos : 0 < (Finset.univ.filter fun u => c.uxPriority u = c.uxPriority t).card :=
    Finset.card_pos.2 ⟨t, Finset.mem_filter.2 ⟨Finset.mem_univ t, rfl⟩⟩
  have hlength := h.inv.lists.ready_length_le (c.uxPriority t)
  have hmem := (h.inv.lists.lists.container _ _).1 hwaits.head.1
  rw [h.inv.priority] at hlength hmem
  obtain ⟨n, hle, hn⟩ := h.inv.lists.lists.exists_ahead hmem (hlength.trans (Nat.sub_add_cancel hpos).ge)
  exact (selections_le h (by omega) hn hwaits).trans hle

/-- Three tasks of the same priority. -/
def equalTasks : KernelSetup (Fin 3) where
  uxPriority _ := 0
  xIdleTask := 0
  first := 0
  others := [1, 2]
  lists := emptyLists fun _ => 0
  nodup := by decide
  complete := by decide
  priority := by decide
  card := by decide
  list := vListInitialise_emptyLists _
  item := vListInitialiseItem_emptyLists _
  event_value _ := rfl

theorem kernelRun_roundRobin_equalTasks :
    ∃ s, kernelRun equalTasks (· + 1) 0 [] = .ok s ∧
      selections equalTasks (· + 1) (equalTasks.uxPriority 1) s [.vPortYield, .PendSV_Handler] ≤
        2 * ((Finset.univ.filter fun u => equalTasks.uxPriority u = equalTasks.uxPriority 1).card - 1) := by
  have hrun : kernelRun equalTasks (· + 1) 0 [] = .ok _ := rfl
  refine ⟨_, hrun, kernelRun_roundRobin hrun ?_⟩
  refine (along_cons rfl).2 ⟨by decide, (along_cons rfl).2 ⟨by decide, along_nil.2 (by decide)⟩⟩

end LcdKeypad
