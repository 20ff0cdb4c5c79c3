import LcdKeypad.KernelInvariant

/-!
# The steps of the kernel

Every event keeps the invariant of the kernel and is a step of the schedule that the kernel stands for, or no step.
-/

namespace LcdKeypad

open TimedSchedule BitSet TaskList TcbItem

variable {τ β : Type} [DecidableEq τ] [Fintype τ] {c : KernelSetup τ} {vApplicationTickHook : β → β}

/-- The event selects a task to run. -/
def KernelEvent.Switches (k : Kernel τ β) : KernelEvent → Prop
  | PendSV_Handler => k.uxSchedulerSuspended = 0
  | _ => False

instance (k : Kernel τ β) : (e : KernelEvent) → Decidable (e.Switches k)
  | .PendSV_Handler => inferInstanceAs (Decidable (_ = _))
  | .SysTick_Handler | .vPortYield | .vTaskSuspendAll | .vTaskDelay _ | .xTaskDelayUntil _ _
  | .vTaskPlaceOnEventList _ _ | .vTaskPlaceOnEventListRestricted _ _ _ | .xTaskRemoveFromEventList _
  | .xTaskCatchUpTicks _ | .xTaskResumeAll | .resumeAndYield => inferInstanceAs (Decidable False)

/-- The event that comes for a waiting task. -/
def KernelEvent.Signals : KernelEvent → ℕ → Prop
  | xTaskRemoveFromEventList n, i => i = n
  | _, _ => False

/-- The ticks that the event adds to the tick count. -/
def KernelEvent.ticks (k : Kernel τ β) : KernelEvent → ℕ
  | SysTick_Handler => if k.uxSchedulerSuspended = 0 then 1 else 0
  | xTaskResumeAll | resumeAndYield => if k.uxSchedulerSuspended = 1 then k.xPendedTicks.toNat else 0
  | _ => 0

/-- What an event does to what the tick hook works on. -/
def KernelEvent.hook (vApplicationTickHook : β → β) : KernelEvent → β → β
  | SysTick_Handler => vApplicationTickHook
  | _ => id

/-- One event: the schedule takes a step or none, and the tasks that stay ready do not fall back in turn.  Where a task
is selected, no other has a higher priority, and the others of its priority come nearer. -/
structure Stepped (c : KernelSetup τ) (vApplicationTickHook : β → β) (e : KernelEvent) (k : Kernel τ β) (now : ℕ)
    (k' : Kernel τ β) (now' : ℕ) (L L' : TaskList → List (TcbItem τ)) : Prop where
  inv : KernelInv c k' now' L'
  step : k'.schedule now' = k.schedule now ∨
    Step c.uxPriority c.xIdleTask e.Signals (k.schedule now) (k'.schedule now')
  held : now' + k'.xPendedTicks.toNat = now + k.xPendedTicks.toNat + (e.interrupts + e.caughtUp)
  hook : k'.hook = e.hook vApplicationTickHook k.hook
  onward : ∀ t, k'.statusOf now' t = .ready →
    ¬ (e.Switches k ∧ c.uxPriority k'.pxCurrentTCB = c.uxPriority t) →
      Onward k.lists L k'.lists L' (pxReadyTasksLists (c.uxPriority t)) (xStateListItem t)
  selected : e.Switches k → k'.statusOf now' k'.pxCurrentTCB = .ready ∧
    ∀ u, k'.statusOf now' u = .ready → c.uxPriority u ≤ c.uxPriority k'.pxCurrentTCB
  served : ∀ t, t ≠ k'.pxCurrentTCB → e.Switches k → c.uxPriority k'.pxCurrentTCB = c.uxPriority t → ∀ N n,
    (L (pxReadyTasksLists (c.uxPriority t))).length ≤ N + 1 →
    Ahead N k.lists L (pxReadyTasksLists (c.uxPriority t)) (xStateListItem t) n →
      ∃ n', n' < n ∧ Ahead N k'.lists L' (pxReadyTasksLists (c.uxPriority t)) (xStateListItem t) n'

variable {k k' : Kernel τ β} {now now' : ℕ} {L L' : TaskList → List (TcbItem τ)} {e : KernelEvent}

theorem lt_loopFuel (τ : Type) [Fintype τ] : 2 * Fintype.card τ < loopFuel τ := Nat.lt_succ_self _

namespace KernelInv

theorem of_step {may : ℕ → Prop} (h : KernelInv c k now L) (hlists : TaskLists k' L') (hclock : k'.Clock now')
    (hpresent : ∀ t, ∃ i, xStateListItem t ∈ L' i) (hprio : k'.uxPriority = k.uxPriority)
    (hnumber : k'.uxCurrentNumberOfTasks = k.uxCurrentNumberOfTasks)
    (hstep : k'.schedule now' = k.schedule now ∨
      Step c.uxPriority c.xIdleTask may (k.schedule now) (k'.schedule now'))
    (hpreempt : ∀ u, k'.statusOf now' u = .ready → c.uxPriority k'.pxCurrentTCB < c.uxPriority u →
      k'.SwitchPending) : KernelInv c k' now' L' where
  lists := hlists
  clock := hclock
  present := hpresent
  priority := hprio.trans h.priority
  number := hnumber ▸ h.number
  good := by
    rcases hstep with heq | hstep
    · rw [heq]
      exact h.good
    · exact hstep.good h.good
  preempt := hpreempt

theorem preempt_of_flagged (h : KernelInv c k now L) (hflag : Flagged k k' now now')
    (hcurrent : k'.pxCurrentTCB = k.pxCurrentTCB) (u : τ) (hu : k'.statusOf now' u = .ready)
    (hlt : c.uxPriority k'.pxCurrentTCB < c.uxPriority u) : k'.SwitchPending := by
  rw [hcurrent] at hlt
  by_cases hready : k.statusOf now u = .ready
  · exact hflag.keep (h.preempt u hready hlt)
  · exact hflag.woken u hready hu (by rw [h.priority]; exact hlt)

/-- An event after which the same task runs, and nobody that is ready has fallen back. -/
theorem stepped (h : KernelInv c k now L) (hlists : TaskLists k' L') (hclock : k'.Clock now')
    (hpresent : ∀ t, ∃ i, xStateListItem t ∈ L' i) (hprio : k'.uxPriority = k.uxPriority)
    (hnumber : k'.uxCurrentNumberOfTasks = k.uxCurrentNumberOfTasks)
    (hstep : k'.schedule now' = k.schedule now ∨
      Step c.uxPriority c.xIdleTask e.Signals (k.schedule now) (k'.schedule now'))
    (hheld : now' + k'.xPendedTicks.toNat = now + k.xPendedTicks.toNat + (e.interrupts + e.caughtUp))
    (hflag : Flagged k k' now now') (hcurrent : k'.pxCurrentTCB = k.pxCurrentTCB)
    (hhook : k'.hook = e.hook vApplicationTickHook k.hook) (hswitch : ¬ e.Switches k)
    (honward : ∀ t, k'.statusOf now' t = .ready →
      Onward k.lists L k'.lists L' (pxReadyTasksLists (c.uxPriority t)) (xStateListItem t)) :
    Stepped c vApplicationTickHook e k now k' now' L L' where
  inv := h.of_step hlists hclock hpresent hprio hnumber hstep (h.preempt_of_flagged hflag hcurrent)
  step := hstep
  held := hheld
  hook := hhook
  onward := fun t ht _ => honward t ht
  selected := fun hs => absurd hs hswitch
  served := fun _ _ hs => absurd hs hswitch

theorem pended_eq_zero (h : KernelInv c k now L) (hrunning : k.uxSchedulerSuspended = 0) : k.xPendedTicks = 0 :=
  UInt32.toNat_inj.1 (h.good.settled (schedule_depth_eq_zero.2 hrunning)).1

theorem future (h : KernelInv c k now L) (t : τ) (w : ℕ) (ht : k.statusOf now t = .delayed w) : now < w :=
  h.good.future t w ht

/-! ### The interrupts -/

theorem sysTick (h : KernelInv c k now L) (hmay : KernelEvent.SysTick_Handler.MayHappen c.xIdleTask k) :
    ∃ k' L', SysTick_Handler vApplicationTickHook (loopFuel τ) k = .ok k' ∧ Stepped c vApplicationTickHook
      .SysTick_Handler k now k' (now + KernelEvent.SysTick_Handler.ticks k) L L' := by
  have htick : Step c.uxPriority c.xIdleTask KernelEvent.SysTick_Handler.Signals (k.schedule now) (k.schedule now).tick := .tick _
  unfold Schedule.tick at htick
  unfold KernelEvent.ticks SysTick_Handler
  by_cases hrunning : k.uxSchedulerSuspended = 0
  · obtain ⟨k₁, b, L', heq, hp, hyield, hhook, hb⟩ := xTaskIncrementTick_eq vApplicationTickHook c.card
      (lt_loopFuel τ) h.lists h.clock h.future hrunning
    have hcurrent : k₁.pxCurrentTCB = k.pxCurrentTCB := congrArg Schedule.running hp.schedule
    have hwoken : ∀ u, k.statusOf now u ≠ .ready → k₁.statusOf (now + 1) u = .ready →
        k.uxPriority k.pxCurrentTCB < k.uxPriority u → b = true := by
      intro u hu hu' hlt
      refine hb.2 (Or.inr ⟨u, ?_, hlt⟩)
      by_contra hdue
      have hstay := (Schedule.pass_of_not_due (s := k.schedule now) (t := u) (Bool.eq_false_iff.2 hdue)).1
      rw [show (k.schedule now).pass = k₁.schedule (now + 1) from hp.schedule.symm] at hstay
      exact hu (hstay.symm.trans hu')
    have hpass : (k.schedule now).pass = k₁.schedule (now + 1) := hp.schedule.symm
    rw [if_pos (schedule_depth_eq_zero.2 hrunning), hpass] at htick
    rw [if_pos (h.pended_eq_zero hrunning)] at hhook
    have hheld : now + 1 + k₁.xPendedTicks.toNat = now + k.xPendedTicks.toNat + 1 := by
      have hpended : k₁.xPendedTicks.toNat = k.xPendedTicks.toNat := congrArg Schedule.held hp.schedule
      omega
    rw [if_pos hrunning, heq]
    cases b with
    | true =>
      exact ⟨_, L', rfl, h.stepped (hp.lists.congr rfl rfl rfl rfl rfl rfl) hp.clock
        (fun t => hp.present t (h.present t)) hp.priority hp.number (Or.inr htick) hheld
        ⟨fun _ => Or.inl rfl, fun _ _ _ _ => Or.inl rfl⟩ hcurrent hhook id fun t _ => hp.onward _ _⟩
    | false =>
      refine ⟨_, L', rfl, h.stepped hp.lists hp.clock (fun t => hp.present t (h.present t)) hp.priority hp.number
        (Or.inr htick) hheld ⟨fun hk => ?_, fun u hu hu' hlt => ?_⟩ hcurrent hhook id fun t _ => hp.onward _ _⟩
      · rcases hk with hk | hk
        · exact Or.inl (hp.pendSV.trans hk)
        · exact Or.inr (hyield.trans hk)
      · cases hwoken u hu hu' hlt
  · have hnext : k.xPendedTicks.toNat + 1 < 2 ^ 32 := hmay.resolve_left hrunning
    have hcall : xTaskIncrementTick vApplicationTickHook (loopFuel τ) k = .ok ({ k with
        xPendedTicks := k.xPendedTicks + 1, hook := vApplicationTickHook k.hook }, false) := by
      unfold xTaskIncrementTick
      rw [if_neg hrunning]
    have hsum : (k.xPendedTicks + 1).toNat = k.xPendedTicks.toNat + 1 := by
      rw [UInt32.toNat_add]
      exact Nat.mod_eq_of_lt hnext
    have hschedule : { k with xPendedTicks := k.xPendedTicks + 1, hook := vApplicationTickHook k.hook }.schedule now =
        { k.schedule now with held := (k.schedule now).held + 1 } := by
      unfold Kernel.schedule
      dsimp only
      rw [hsum]
      rfl
    rw [if_neg (fun h0 => hrunning (schedule_depth_eq_zero.1 h0)), ← hschedule] at htick
    have hheld : now + (k.xPendedTicks + 1).toNat = now + k.xPendedTicks.toNat + 1 := by omega
    rw [if_neg hrunning, hcall]
    exact ⟨_, L, rfl, h.stepped (h.lists.congr rfl rfl rfl rfl rfl rfl) h.clock h.present rfl rfl (Or.inr htick) hheld
      ⟨fun hk => hk, fun u hu hu' => absurd hu' hu⟩ rfl rfl id fun t _ => Onward.refl _ _ _ _⟩

theorem pendSV (h : KernelInv c k now L) :
    ∃ k' L', PendSV_Handler k = .ok k' ∧
      Stepped c vApplicationTickHook .PendSV_Handler k now k' now L L' := by
  unfold PendSV_Handler vTaskSwitchContext
  by_cases hrunning : k.uxSchedulerSuspended = 0
  · have h₀ : TaskLists { k with pendSV := false, xYieldPending := false } L := h.lists.congr rfl rfl rfl rfl rfl rfl
    obtain ⟨m, t, heq, hlists, hready, hmax, hcontainer, hvalue, honward, hserved⟩ :=
      h₀.taskSELECT_HIGHEST_PRIORITY_TASK_eq now c.card ⟨c.xIdleTask, h.good.idle⟩
    have hstatus : ∀ u, { k with lists := m, pxCurrentTCB := t, pendSV := false, xYieldPending := false }.statusOf now
        u = k.statusOf now u := by
      intro u
      unfold Kernel.statusOf
      rw [hcontainer, hvalue]
    have hschedule : { k with lists := m, pxCurrentTCB := t, pendSV := false, xYieldPending := false }.schedule now =
        { k.schedule now with running := t } := by
      unfold Kernel.schedule
      rw [Schedule.mk.injEq]
      refine ⟨rfl, rfl, rfl, rfl, funext hstatus, funext fun u => ?_⟩
      unfold Kernel.waitOf
      rw [hcontainer]
    have hswitch : Step c.uxPriority c.xIdleTask KernelEvent.PendSV_Handler.Signals (k.schedule now)
        { k.schedule now with running := t } :=
      .switch _ t (schedule_depth_eq_zero.2 hrunning) hready (h.priority ▸ hmax)
    rw [if_neg (by simpa using hrunning), heq]
    have hprio : k.uxPriority = c.uxPriority := h.priority
    rw [← hschedule] at hswitch
    refine ⟨_, L, rfl, h.of_step hlists h.clock h.present rfl rfl (Or.inr hswitch) fun u hu hlt => ?_, Or.inr hswitch,
      rfl, rfl, fun u _ hne => ?_, fun _ => ⟨(hstatus t).trans hready, fun u hu => ?_⟩, fun u hut _ hp N n hN hn => ?_⟩
    · rw [hstatus] at hu
      exact absurd hlt (UInt32.not_lt.2 (hprio ▸ hmax u hu))
    · rw [← hprio]
      exact honward _ _ fun hp => hne ⟨hrunning, hprio ▸ hp.symm⟩
    · rw [hstatus] at hu
      exact hprio ▸ hmax u hu
    · rw [← hp] at hN hn ⊢
      rw [← hprio] at hN hn ⊢
      exact hserved _ N n (by simpa using hut) hN hn
  · rw [if_pos (by simpa using hrunning)]
    exact ⟨_, L, rfl, h.stepped (h.lists.congr rfl rfl rfl rfl rfl rfl) h.clock h.present rfl rfl (Or.inl rfl) rfl
      ⟨fun _ => Or.inr rfl, fun u hu hu' => absurd hu' hu⟩ rfl rfl hrunning fun t _ => Onward.refl _ _ _ _⟩

variable (vApplicationTickHook) in
theorem removeFromEventList (h : KernelInv c k now L) {n : ℕ}
    (hmay : (KernelEvent.xTaskRemoveFromEventList n).MayHappen c.xIdleTask k) :
    ∃ k' t L', (xTaskRemoveFromEventList n k).map Prod.fst = .ok k' ∧ k.waitOf t = .event n ∧
      (∀ u, k.waitOf u = .event n → c.uxPriority u ≤ c.uxPriority t) ∧
      k'.schedule now = (k.schedule now).signal t ∧
      Stepped c vApplicationTickHook (.xTaskRemoveFromEventList n) k now k' now L L' := by
  obtain ⟨k', b, t, L', heq, ht, hmax, ⟨m, top, y, rfl⟩, hlists, hschedule, honward, hpresent, hflag⟩ :=
    h.lists.xTaskRemoveFromEventList_eq c.card h.present h.good.wait hmay
  have hsignal : Step c.uxPriority c.xIdleTask (KernelEvent.xTaskRemoveFromEventList n).Signals (k.schedule now)
      ((k.schedule now).signal t) :=
    .signal _ n t rfl ht (h.priority ▸ hmax)
  rw [← hschedule] at hsignal
  rw [heq]
  exact ⟨_, t, L', rfl, ht, h.priority ▸ hmax, hschedule, h.stepped hlists h.clock hpresent rfl rfl (Or.inr hsignal)
    rfl hflag rfl rfl id fun t _ => honward _ _⟩

/-! ### The calls of the running task -/

theorem ready_of_executes (h : KernelInv c k now L) (hexec : k.Executes) : k.statusOf now k.pxCurrentTCB = .ready :=
  h.lists.statusOf_ready ((h.lists.lists.container _ _).1 hexec.2) now

theorem wait_of_executes (h : KernelInv c k now L) (hexec : k.Executes) : k.waitOf k.pxCurrentTCB = .nothing := by
  by_contra hwait
  exact h.good.wait _ hwait (h.ready_of_executes hexec)

/-- The running task has blocked. -/
theorem blocked (h : KernelInv c k now L) (hexec : k.Executes) (hidle : k.pxCurrentTCB ≠ c.xIdleTask)
    (hsuspended : k.uxSchedulerSuspended ≠ 0) {st : Status} {v : Wait ℕ} (hb : Blocked k k' L L' now st v)
    (hst : st ≠ .ready) (hfuture : ∀ w, st = .delayed w → now < w) (hv : v ≠ .signalled) (hswitch : ¬ e.Switches k)
    (hcounted : e.interrupts + e.caughtUp = 0) (hhook : ∀ b : β, e.hook vApplicationTickHook b = b) :
    Stepped c vApplicationTickHook e k now k' now L L' := by
  have hdepth : 0 < (k.schedule now).depth :=
    Nat.pos_of_ne_zero fun h0 => hsuspended (schedule_depth_eq_zero.1 h0)
  have hschedule : k'.schedule now = (k.schedule now).block st v := by
    obtain ⟨m, top, next, rfl⟩ := hb.same
    unfold Kernel.schedule Schedule.block
    rw [Schedule.mk.injEq]
    refine ⟨rfl, rfl, rfl, rfl, funext fun u => ?_, funext fun u => ?_⟩
    · rw [Function.update_apply]
      exact hb.status u
    · rw [Function.update_apply]
      exact hb.wait u
  have hstep : Step c.uxPriority c.xIdleTask e.Signals (k.schedule now) ((k.schedule now).block st v) :=
    .block _ st v hdepth (h.ready_of_executes hexec) hidle hst hfuture hv
  rw [← hschedule] at hstep
  have hpresent : ∀ t, ∃ i, xStateListItem t ∈ L' i := by
    intro t
    by_cases ht : t = k.pxCurrentTCB
    · rw [ht]
      exact hb.current
    · exact hb.present t ht (h.present t)
  have hother : ∀ t, k'.statusOf now t = .ready → t ≠ k.pxCurrentTCB ∧ k.statusOf now t = .ready := by
    intro t ht
    rw [hb.status] at ht
    split at ht
    · exact absurd ht hst
    · next hne => exact ⟨hne, ht⟩
  have honward : ∀ t, k'.statusOf now t = .ready →
      Onward k.lists L k'.lists L' (pxReadyTasksLists (c.uxPriority t)) (xStateListItem t) :=
    fun t ht => hb.onward _ _ (by simpa using (hother t ht).1)
  have hflag : Flagged k k' now now := by
    refine ⟨fun hk => ?_, fun u hu hu' => absurd (hother u hu').2 hu⟩
    obtain ⟨m, top, next, rfl⟩ := hb.same
    exact hk
  have hlists := hb.lists
  obtain ⟨m, top, next, rfl⟩ := hb.same
  exact h.stepped hlists h.clock hpresent rfl rfl (Or.inr hstep) (by rw [hcounted]; rfl) hflag rfl (hhook _).symm
    hswitch honward

variable (vApplicationTickHook) in
theorem taskDelay (h : KernelInv c k now L) {xTicksToDelay : UInt32}
    (hmay : (KernelEvent.vTaskDelay xTicksToDelay).MayHappen c.xIdleTask k) :
    ∃ k' L', vTaskDelay (loopFuel τ) xTicksToDelay k = .ok k' ∧
      Blocked k k' L L' now (.delayed (now + xTicksToDelay.toNat)) .nothing ∧
      Stepped c vApplicationTickHook (.vTaskDelay xTicksToDelay) k now k' now L L' := by
  obtain ⟨hexec, hidle, hsuspended, hticks⟩ := hmay
  obtain ⟨k', L', heq, hb⟩ := h.lists.prvAddCurrentTaskToDelayedList_eq c.card (lt_loopFuel τ) h.clock.1
    (h.ready_of_executes hexec) xTicksToDelay false
  rw [h.wait_of_executes hexec] at hb
  have hpos : 0 < xTicksToDelay.toNat := Nat.pos_of_ne_zero fun h0 => hticks (UInt32.toNat_inj.1 h0)
  refine ⟨k', L', ?_, by simpa using hb, h.blocked hexec hidle (by rw [hsuspended]; decide) hb (by simp)
    (fun w hw => ?_) (by simp) id rfl fun _ => rfl⟩
  · unfold vTaskDelay configASSERT
    rw [if_pos hsuspended]
    exact heq
  · have hw' : now + xTicksToDelay.toNat = w := by simpa using hw
    omega

/-- A wake time that is still to come is not the tick count. -/
theorem shouldDelay_ne {xConstTickCount xPreviousWakeTime xTimeToWake : UInt32}
    (h : shouldDelay xConstTickCount xPreviousWakeTime xTimeToWake = true) : xTimeToWake - xConstTickCount ≠ 0 := by
  intro h0
  have heq : xTimeToWake = xConstTickCount := by
    rw [← UInt32.sub_add_cancel xTimeToWake xConstTickCount, h0, UInt32.zero_add]
  subst heq
  unfold shouldDelay at h
  split at h
  · next hlt => simp [UInt32.lt_irrefl] at h
  · next hlt => simp [UInt32.lt_irrefl, hlt] at h

variable (vApplicationTickHook) in
theorem taskDelayUntil (h : KernelInv c k now L) {xPreviousWakeTime xTimeIncrement : UInt32}
    (hmay : (KernelEvent.xTaskDelayUntil xPreviousWakeTime xTimeIncrement).MayHappen c.xIdleTask k) :
    ∃ k' L', xTaskDelayUntil (loopFuel τ) xPreviousWakeTime xTimeIncrement k = .ok (k',
        xPreviousWakeTime + xTimeIncrement,
        shouldDelay k.xTickCount xPreviousWakeTime (xPreviousWakeTime + xTimeIncrement)) ∧
      (if shouldDelay k.xTickCount xPreviousWakeTime (xPreviousWakeTime + xTimeIncrement) then
        Blocked k k' L L' now
          (.delayed (now + (xPreviousWakeTime + xTimeIncrement - k.xTickCount).toNat)) .nothing else k' = k) ∧
      Stepped c vApplicationTickHook (.xTaskDelayUntil xPreviousWakeTime xTimeIncrement) k now k' now L L' := by
  obtain ⟨hexec, hidle, hsuspended, hincrement⟩ := hmay
  have hpos : 0 < xTimeIncrement := by
    rw [UInt32.lt_iff_toNat_lt]
    exact Nat.pos_of_ne_zero fun h0 => hincrement (UInt32.toNat_inj.1 h0)
  unfold xTaskDelayUntil configASSERT
  rw [if_pos hpos, if_pos hsuspended]
  dsimp only [bind, Except.bind]
  cases hshould : shouldDelay k.xTickCount xPreviousWakeTime (xPreviousWakeTime + xTimeIncrement) with
  | true =>
    obtain ⟨k', L', heq, hb⟩ := h.lists.prvAddCurrentTaskToDelayedList_eq c.card (lt_loopFuel τ) h.clock.1
      (h.ready_of_executes hexec) (xPreviousWakeTime + xTimeIncrement - k.xTickCount) false
    rw [h.wait_of_executes hexec] at hb
    have hticks : 0 < (xPreviousWakeTime + xTimeIncrement - k.xTickCount).toNat :=
      Nat.pos_of_ne_zero fun h0 => shouldDelay_ne hshould (UInt32.toNat_inj.1 h0)
    rw [if_pos rfl, heq]
    refine ⟨k', L', rfl, by simpa using hb, h.blocked hexec hidle (by rw [hsuspended]; decide) hb (by simp)
      (fun w hw => ?_) (by simp) id rfl fun _ => rfl⟩
    have hw' : now + (xPreviousWakeTime + xTimeIncrement - k.xTickCount).toNat = w := by simpa using hw
    omega
  | false =>
    exact ⟨k, L, rfl, rfl, h.stepped h.lists h.clock h.present rfl rfl (Or.inl rfl) rfl
      ⟨fun hk => hk, fun u hu hu' => absurd hu' hu⟩ rfl rfl id fun t _ => Onward.refl _ _ _ _⟩

variable (vApplicationTickHook) in
theorem placeOnEventList (h : KernelInv c k now L) {n : ℕ} {xTicksToWait : UInt32}
    (hmay : (KernelEvent.vTaskPlaceOnEventList n xTicksToWait).MayHappen c.xIdleTask k) :
    ∃ k' L', vTaskPlaceOnEventList (loopFuel τ) n xTicksToWait k = .ok k' ∧
      Blocked k k' L L' now (if xTicksToWait = portMAX_DELAY then .suspended else .delayed (now + xTicksToWait.toNat))
        (.event n) ∧
      Stepped c vApplicationTickHook (.vTaskPlaceOnEventList n xTicksToWait) k now k' now L L' := by
  obtain ⟨hexec, hidle, hsuspended, hticks⟩ := hmay
  obtain ⟨k', L', heq, hb⟩ := h.lists.vTaskPlaceOnEventList_eq c.card (lt_loopFuel τ) h.clock.1
    (h.ready_of_executes hexec) (h.wait_of_executes hexec) n xTicksToWait
  have hpos : 0 < xTicksToWait.toNat := Nat.pos_of_ne_zero fun h0 => hticks (UInt32.toNat_inj.1 h0)
  refine ⟨k', L', heq, hb, h.blocked hexec hidle hsuspended hb ?_ (fun w hw => ?_) (by simp) id rfl fun _ => rfl⟩
  · split <;> simp
  · split at hw
    · cases hw
    · cases hw
      omega

variable (vApplicationTickHook) in
theorem placeOnEventListRestricted (h : KernelInv c k now L) {n : ℕ} {xTicksToWait : UInt32}
    {xWaitIndefinitely : Bool}
    (hmay : (KernelEvent.vTaskPlaceOnEventListRestricted n xTicksToWait xWaitIndefinitely).MayHappen c.xIdleTask k) :
    ∃ k' L', vTaskPlaceOnEventListRestricted (loopFuel τ) n xTicksToWait xWaitIndefinitely k = .ok k' ∧
      Blocked k k' L L' now (if xWaitIndefinitely then .suspended else .delayed (now + xTicksToWait.toNat))
        (.event n) ∧
      Stepped c vApplicationTickHook (.vTaskPlaceOnEventListRestricted n xTicksToWait xWaitIndefinitely) k now k' now
        L L' := by
  obtain ⟨hexec, hidle, hsuspended, hticks, hempty⟩ := hmay
  obtain ⟨k', L', heq, hb⟩ := h.lists.vTaskPlaceOnEventListRestricted_eq c.card (lt_loopFuel τ) h.clock.1
    (h.ready_of_executes hexec) (h.wait_of_executes hexec) hempty xTicksToWait xWaitIndefinitely
  refine ⟨k', L', heq, hb, h.blocked hexec hidle hsuspended hb ?_ (fun w hw => ?_) (by simp) id rfl fun _ => rfl⟩
  · split <;> simp
  · split at hw
    · cases hw
    · next hwait =>
      have hne : xTicksToWait ≠ 0 := hticks.resolve_right hwait
      have hpos : 0 < xTicksToWait.toNat := Nat.pos_of_ne_zero fun h0 => hne (UInt32.toNat_inj.1 h0)
      cases hw
      omega

theorem suspendAll (h : KernelInv c k now L) (hmay : KernelEvent.vTaskSuspendAll.MayHappen c.xIdleTask k) :
    Stepped c vApplicationTickHook .vTaskSuspendAll k now (vTaskSuspendAll k) now L L := by
  have hsum : (k.uxSchedulerSuspended + 1).toNat = k.uxSchedulerSuspended.toNat + 1 := by
    rw [UInt32.toNat_add]
    exact Nat.mod_eq_of_lt hmay.2
  have hschedule : (vTaskSuspendAll k).schedule now = { k.schedule now with depth := (k.schedule now).depth + 1 } := by
    unfold Kernel.schedule vTaskSuspendAll
    dsimp only
    rw [hsum]
    rfl
  have hsuspend : Step c.uxPriority c.xIdleTask KernelEvent.vTaskSuspendAll.Signals (k.schedule now)
      { k.schedule now with depth := (k.schedule now).depth + 1 } := .suspend _
  rw [← hschedule] at hsuspend
  exact h.stepped (h.lists.congr rfl rfl rfl rfl rfl rfl) h.clock h.present rfl rfl (Or.inr hsuspend) rfl
    ⟨fun hk => hk, fun u hu hu' => absurd hu' hu⟩ rfl rfl id fun t _ => Onward.refl _ _ _ _

variable (vApplicationTickHook) in
theorem catchUpTicks (h : KernelInv c k now L) {xTicks : UInt32}
    (hmay : (KernelEvent.xTaskCatchUpTicks xTicks).MayHappen c.xIdleTask k) :
    ∃ k', xTaskCatchUpTicks xTicks k = .ok k' ∧
      Stepped c vApplicationTickHook (.xTaskCatchUpTicks xTicks) k now k' now L L := by
  obtain ⟨hsuspended, hlt⟩ := hmay
  have hcall : xTaskCatchUpTicks xTicks k = .ok { k with xPendedTicks := k.xPendedTicks + xTicks } := by
    unfold xTaskCatchUpTicks configASSERT
    rw [if_pos hsuspended]
    rfl
  have hsum : (k.xPendedTicks + xTicks).toNat = k.xPendedTicks.toNat + xTicks.toNat := by
    rw [UInt32.toNat_add]
    exact Nat.mod_eq_of_lt hlt
  have hschedule : { k with xPendedTicks := k.xPendedTicks + xTicks }.schedule now =
      { k.schedule now with held := (k.schedule now).held + xTicks.toNat } := by
    unfold Kernel.schedule
    dsimp only
    rw [hsum]
    rfl
  have hhold : Step c.uxPriority c.xIdleTask (KernelEvent.xTaskCatchUpTicks xTicks).Signals (k.schedule now)
      { k.schedule now with held := (k.schedule now).held + xTicks.toNat } :=
    .hold _ _ (by rw [show (k.schedule now).depth = 1 from congrArg UInt32.toNat hsuspended]; exact Nat.one_pos)
  rw [← hschedule] at hhold
  exact ⟨_, hcall, h.stepped (h.lists.congr rfl rfl rfl rfl rfl rfl) h.clock h.present rfl rfl (Or.inr hhold)
    (by show now + (k.xPendedTicks + xTicks).toNat = now + k.xPendedTicks.toNat + (0 + xTicks.toNat); omega)
    ⟨fun hk => hk, fun u hu hu' => absurd hu' hu⟩ rfl rfl id fun t _ => Onward.refl _ _ _ _⟩

variable (vApplicationTickHook) in
theorem resumeAll (h : KernelInv c k now L) (hmay : KernelEvent.xTaskResumeAll.MayHappen c.xIdleTask k) :
    ∃ k' b L', xTaskResumeAll vApplicationTickHook (loopFuel τ) k = .ok (k', b) ∧ (b = true → k'.pendSV = true) ∧
      Stepped c vApplicationTickHook .xTaskResumeAll k now k' (now + KernelEvent.xTaskResumeAll.ticks k) L L' := by
  have hsuspended : k.uxSchedulerSuspended ≠ 0 := hmay.2
  have hresume : Step c.uxPriority c.xIdleTask KernelEvent.xTaskResumeAll.Signals (k.schedule now) (k.schedule now).resume :=
    .resume _ (Nat.pos_of_ne_zero fun h0 => hsuspended (schedule_depth_eq_zero.1 h0))
  have hpos : 0 < k.uxSchedulerSuspended.toNat := Nat.pos_of_ne_zero fun h0 => hsuspended (UInt32.toNat_inj.1 h0)
  have hone : (1 : UInt32).toNat = 1 := rfl
  have hsub : (k.uxSchedulerSuspended - 1).toNat = k.uxSchedulerSuspended.toNat - 1 := by
    rw [UInt32.toNat_sub_of_le _ _ (UInt32.le_iff_toNat_le.2 (by omega)), hone]
  obtain ⟨k₀, hk₀⟩ : ∃ k₀, k₀ = { k with uxSchedulerSuspended := k.uxSchedulerSuspended - 1 } := ⟨_, rfl⟩
  have h₀ : TaskLists k₀ L := by
    rw [hk₀]
    exact h.lists.congr rfl rfl rfl rfl rfl rfl
  have hcall : xTaskResumeAll vApplicationTickHook (loopFuel τ) k =
      if k₀.uxSchedulerSuspended = 0 ∧ 0 < k₀.uxCurrentNumberOfTasks then
        resumeScheduler vApplicationTickHook (loopFuel τ) k₀
      else .ok (k₀, false) := by
    unfold xTaskResumeAll configASSERT
    rw [if_pos hsuspended, hk₀]
    rfl
  rw [hcall]
  unfold KernelEvent.ticks
  by_cases hlast : k.uxSchedulerSuspended = 1
  · have hzero : (k.uxSchedulerSuspended - 1).toNat = 0 := by rw [hsub, hlast, hone]
    have hrunning : k₀.uxSchedulerSuspended = 0 := by
      rw [hk₀]
      exact UInt32.toNat_inj.1 hzero
    have hschedule₀ : k₀.schedule now = { k.schedule now with depth := 0, held := (k.schedule now).held } := by
      rw [hk₀]
      unfold Kernel.schedule
      dsimp only
      rw [hzero]
      rfl
    have hfuture : ∀ t w, k₀.statusOf now t = .delayed w → now < w := by
      rw [hk₀]
      exact h.future
    have hwait : ∀ u, k₀.waitOf u = .signalled → k₀.statusOf now u ≠ .ready := by
      rw [hk₀]
      intro u hu
      exact h.good.wait u (by rw [show (k.schedule now).wait u = .signalled from hu]; simp)
    obtain ⟨k', b, L', heq, hyielded, hlists, hclock, hschedule, honward, hpresent, hprio, hnumber, hhook, hflag⟩ :=
      resumeScheduler_eq c.card (lt_loopFuel τ) vApplicationTickHook h₀ (by rw [hk₀]; exact h.clock) hfuture h.present
        hwait hrunning rfl
    rw [hschedule₀] at hschedule
    have hn : k₀.xPendedTicks = k.xPendedTicks := by rw [hk₀]
    rw [hn] at hclock hschedule hflag
    have hdepth : (k.schedule now).depth = 1 := by
      show k.uxSchedulerSuspended.toNat = 1
      rw [hlast, hone]
    have hheld : (k.schedule now).held = k.xPendedTicks.toNat := rfl
    have hstep : Step c.uxPriority c.xIdleTask KernelEvent.xTaskResumeAll.Signals (k.schedule now)
        (k'.schedule (now + k.xPendedTicks.toNat)) := by
      rw [hschedule, ← hheld]
      rw [resume_of_depth hdepth] at hresume
      have hpass := iterate_pass_suspended (k.schedule now).held 0 (k.schedule now).held (k.schedule now).release
      rw [show Schedule.release { k.schedule now with depth := 0, held := (k.schedule now).held } =
        { (k.schedule now).release with depth := 0, held := (k.schedule now).held } from rfl, hpass]
      exact hresume
    have hcond : k₀.uxSchedulerSuspended = 0 ∧ 0 < k₀.uxCurrentNumberOfTasks := ⟨hrunning, by rw [hk₀]; exact h.number⟩
    have hcurrent : k'.pxCurrentTCB = k.pxCurrentTCB := by
      have hrun := congrArg Schedule.running hschedule
      exact hrun.trans (iterate_pass_running _ _)
    rw [if_pos hcond, heq, if_pos hlast]
    subst hk₀
    have hheld' : k'.xPendedTicks.toNat = 0 := congrArg Schedule.held hschedule
    exact ⟨k', b, L', rfl, hyielded, h.stepped hlists hclock hpresent hprio hnumber (Or.inr hstep)
      (by rw [hheld']; rfl) ⟨hflag.keep, hflag.woken⟩ hcurrent hhook id fun t _ => honward _ _⟩
  · have hne : k₀.uxSchedulerSuspended ≠ 0 := by
      intro h0
      have h0' : k.uxSchedulerSuspended.toNat - 1 = 0 := by
        rw [← hsub, ← show k₀.uxSchedulerSuspended = k.uxSchedulerSuspended - 1 by rw [hk₀], h0]
        rfl
      exact hlast (UInt32.toNat_inj.1 (by omega))
    have hdepth : (k.schedule now).depth ≠ 1 := fun h1 => hlast (UInt32.toNat_inj.1 h1)
    have hschedule : k₀.schedule now = { k.schedule now with depth := (k.schedule now).depth - 1 } := by
      rw [hk₀]
      unfold Kernel.schedule
      dsimp only
      rw [hsub]
      rfl
    rw [resume_of_depth_ne hdepth, ← hschedule] at hresume
    rw [if_neg (fun hc => hne hc.1), if_neg hlast]
    subst hk₀
    exact ⟨_, _, L, rfl, fun hb => Bool.noConfusion hb, h.stepped h₀ h.clock h.present rfl rfl (Or.inr hresume) rfl
      ⟨fun hk => hk, fun u hu hu' => absurd hu' hu⟩ rfl rfl id fun t _ => Onward.refl _ _ _ _⟩

variable (vApplicationTickHook) in
/-- The end of a delay always leaves PendSV pending. -/
theorem resumeAndYield (h : KernelInv c k now L) (hmay : KernelEvent.resumeAndYield.MayHappen c.xIdleTask k) :
    ∃ k' L', LcdKeypad.resumeAndYield vApplicationTickHook (loopFuel τ) k = .ok k' ∧ k'.pendSV = true ∧
      Stepped c vApplicationTickHook .resumeAndYield k now k' (now + KernelEvent.resumeAndYield.ticks k) L L' := by
  obtain ⟨k₁, b, L', heq, hyielded, hs⟩ := h.resumeAll vApplicationTickHook hmay
  have hyield : Stepped c vApplicationTickHook .resumeAndYield k now (vPortYield k₁)
      (now + KernelEvent.resumeAndYield.ticks k) L L' :=
    ⟨⟨hs.inv.lists.congr rfl rfl rfl rfl rfl rfl, hs.inv.clock, hs.inv.present, hs.inv.priority, hs.inv.number,
      hs.inv.good, fun _ _ _ => Or.inl rfl⟩, hs.step, hs.held, hs.hook, hs.onward, hs.selected, hs.served⟩
  unfold LcdKeypad.resumeAndYield
  rw [heq]
  dsimp only [bind, Except.bind]
  cases b with
  | true => exact ⟨k₁, L', rfl, hyielded rfl, hs.inv, hs.step, hs.held, hs.hook, hs.onward, hs.selected, hs.served⟩
  | false => exact ⟨vPortYield k₁, L', rfl, rfl, hyield⟩

end KernelInv

variable (vApplicationTickHook) in
/-- What one event does. -/
theorem kernelStep_eq (h : KernelInv c k now L) (hmay : e.MayHappen c.xIdleTask k) :
    ∃ k' L', kernelStep vApplicationTickHook (loopFuel τ) k e = .ok k' ∧
      Stepped c vApplicationTickHook e k now k' (now + e.ticks k) L L' := by
  cases e with
  | SysTick_Handler => exact h.sysTick hmay
  | PendSV_Handler => exact h.pendSV
  | vPortYield =>
    exact ⟨_, L, rfl, h.stepped (h.lists.congr rfl rfl rfl rfl rfl rfl) h.clock h.present rfl rfl (Or.inl rfl) rfl
      ⟨fun _ => Or.inl rfl, fun u hu hu' => absurd hu' hu⟩ rfl rfl id fun t _ => Onward.refl _ _ _ _⟩
  | vTaskSuspendAll => exact ⟨_, L, rfl, h.suspendAll hmay⟩
  | vTaskDelay xTicksToDelay =>
    obtain ⟨k', L', heq, -, hs⟩ := h.taskDelay vApplicationTickHook hmay
    exact ⟨k', L', heq, hs⟩
  | xTaskDelayUntil xPreviousWakeTime xTimeIncrement =>
    obtain ⟨k', L', heq, -, hs⟩ := h.taskDelayUntil vApplicationTickHook hmay
    refine ⟨k', L', ?_, hs⟩
    show (LcdKeypad.xTaskDelayUntil (loopFuel τ) xPreviousWakeTime xTimeIncrement k).map Prod.fst = .ok k'
    rw [heq]
    rfl
  | vTaskPlaceOnEventList n xTicksToWait =>
    obtain ⟨k', L', heq, -, hs⟩ := h.placeOnEventList vApplicationTickHook hmay
    exact ⟨k', L', heq, hs⟩
  | vTaskPlaceOnEventListRestricted n xTicksToWait xWaitIndefinitely =>
    obtain ⟨k', L', heq, -, hs⟩ := h.placeOnEventListRestricted vApplicationTickHook hmay
    exact ⟨k', L', heq, hs⟩
  | xTaskRemoveFromEventList n =>
    obtain ⟨k', t, L', heq, -, -, -, hs⟩ := h.removeFromEventList vApplicationTickHook hmay
    exact ⟨k', L', heq, hs⟩
  | xTaskCatchUpTicks xTicks =>
    obtain ⟨k', heq, hs⟩ := h.catchUpTicks vApplicationTickHook hmay
    exact ⟨k', L, heq, hs⟩
  | xTaskResumeAll =>
    obtain ⟨k', b, L', heq, -, hs⟩ := h.resumeAll vApplicationTickHook hmay
    refine ⟨k', L', ?_, hs⟩
    show (LcdKeypad.xTaskResumeAll vApplicationTickHook (loopFuel τ) k).map Prod.fst = .ok k'
    rw [heq]
    rfl
  | resumeAndYield =>
    obtain ⟨k', L', heq, -, hs⟩ := h.resumeAndYield vApplicationTickHook hmay
    exact ⟨k', L', heq, hs⟩

/-! ### Runs -/

/-- The invariant of a run, which has counted all ticks and called the tick hook for every interrupt. -/
structure RunInv (c : KernelSetup τ) (vApplicationTickHook : β → β) (hook : β) (s : TimedKernel τ β)
    (L : TaskList → List (TcbItem τ)) : Prop where
  inv : KernelInv c s.kernel s.now L
  total : s.now + s.kernel.xPendedTicks.toNat = s.interrupts + s.caughtUp
  hook : s.kernel.hook = vApplicationTickHook^[s.interrupts] hook

variable {hook : β} {s s' : TimedKernel τ β}

theorem kernelNext_eq (h : RunInv c vApplicationTickHook hook s L) (e : KernelEvent) :
    ∃ s' L', kernelNext c vApplicationTickHook s e = .ok s' ∧ RunInv c vApplicationTickHook hook s' L' ∧
      ((e.MayHappen c.xIdleTask s.kernel ∧ s'.now = s.now + e.ticks s.kernel ∧
        Stepped c vApplicationTickHook e s.kernel s.now s'.kernel s'.now L L') ∨
      (¬ e.MayHappen c.xIdleTask s.kernel ∧ s' = s ∧ L' = L)) := by
  unfold kernelNext
  by_cases hmay : e.MayHappen c.xIdleTask s.kernel
  · obtain ⟨k', L', heq, hs⟩ := kernelStep_eq vApplicationTickHook h.inv hmay
    obtain ⟨s', hs'⟩ : ∃ s' : TimedKernel τ β, s' = ⟨k', s.interrupts + e.interrupts, s.caughtUp + e.caughtUp⟩ :=
      ⟨_, rfl⟩
    have hkernel : s'.kernel = k' := by rw [hs']
    have htotal : s.now + e.ticks s.kernel + k'.xPendedTicks.toNat = s'.interrupts + s'.caughtUp := by
      have hheld := hs.held
      have := h.total
      rw [hs']
      dsimp only
      omega
    have hnow : s'.now = s.now + e.ticks s.kernel := by
      unfold TimedKernel.now at *
      rw [hkernel]
      omega
    have hhook : s'.kernel.hook = vApplicationTickHook^[s'.interrupts] hook := by
      rw [hkernel, hs.hook, h.hook, hs']
      cases e with
      | SysTick_Handler => exact (Function.iterate_succ_apply' vApplicationTickHook s.interrupts hook).symm
      | PendSV_Handler | vPortYield | vTaskSuspendAll | vTaskDelay | xTaskDelayUntil | vTaskPlaceOnEventList
      | vTaskPlaceOnEventListRestricted | xTaskRemoveFromEventList | xTaskCatchUpTicks | xTaskResumeAll
      | resumeAndYield => rfl
    rw [← hkernel, ← hnow] at hs
    rw [if_pos hmay, heq]
    refine ⟨s', L', ?_, ⟨hs.inv, ?_, hhook⟩, Or.inl ⟨hmay, hnow, hs⟩⟩
    · rw [hs']
      rfl
    · rw [hnow, hkernel]
      exact htotal
  · rw [if_neg hmay]
    exact ⟨s, L, rfl, h, Or.inr ⟨hmay, rfl, rfl⟩⟩

theorem runInv_boot (c : KernelSetup τ) (vApplicationTickHook : β → β) (hook : β) :
    ∃ L, RunInv c vApplicationTickHook hook ⟨c.boot hook, 0, 0⟩ L := by
  obtain ⟨L, h, -, hpended, hhook⟩ := boot_inv c hook
  have hnow : TimedKernel.now ⟨c.boot hook, 0, 0⟩ = 0 := Nat.zero_sub _
  refine ⟨L, ⟨by rw [hnow]; exact h, ?_, hhook⟩⟩
  rw [hnow, hpended]
  rfl

/-- A run keeps the invariant, and the schedule goes along a path of steps. -/
theorem run_inv (h : RunInv c vApplicationTickHook hook s L) (es : List KernelEvent) :
    ∃ s' L', es.foldlM (kernelNext c vApplicationTickHook) s = .ok s' ∧ RunInv c vApplicationTickHook hook s' L' ∧
      Relation.ReflTransGen (Step c.uxPriority c.xIdleTask fun _ => True) s.schedule s'.schedule := by
  induction es generalizing s L with
  | nil => exact ⟨s, L, rfl, h, .refl⟩
  | cons e es ih =>
    obtain ⟨s₁, L₁, heq₁, h₁, hcases⟩ := kernelNext_eq h e
    obtain ⟨s', L', heq', h', hpath⟩ := ih h₁
    refine ⟨s', L', ?_, h', ?_⟩
    · rw [List.foldlM_cons, heq₁]
      exact heq'
    · rcases hcases with ⟨-, -, hs⟩ | ⟨-, rfl, -⟩
      · rcases hs.step with hsame | hstep
        · have hschedule : s₁.schedule = s.schedule := hsame
          rw [← hschedule]
          exact hpath
        · exact .head (hstep.mono fun _ _ => trivial) hpath
      · exact hpath

end LcdKeypad
