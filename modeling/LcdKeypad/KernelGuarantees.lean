import LcdKeypad.KernelSteps

/-!
# What the kernel guarantees

Over every run from the start of the scheduler: the kernel is a schedule in unbounded time, its lists say where every
task is, no tick is lost, and the running task gives way to a ready task of a higher priority.
-/

namespace LcdKeypad

open TimedSchedule BitSet TaskList TcbItem

/-! ### The tasks of the application -/

/-- The task that `main` creates, and those that `vTaskStartScheduler` does. -/
inductive AppTask
  | application_task
  | prvIdleTask
  | prvTimerTask
  deriving DecidableEq

instance : Fintype AppTask where
  elems := {.application_task, .prvIdleTask, .prvTimerTask}
  complete := by
    intro t
    cases t <;> decide

def AppTask.uxPriority : AppTask → UInt32
  | application_task => 1
  | prvIdleTask => 0
  | prvTimerTask => configMAX_PRIORITIES - 1

/-- No list has an item. -/
def emptyLists {τ : Type} (uxPriority : τ → UInt32) : ListMemory TaskList (TcbItem τ) where
  xItemValue
    | .xListEnd _ => portMAX_DELAY
    | .item (xStateListItem _) => 0
    | .item (xEventListItem pxTCB) => configMAX_PRIORITIES - uxPriority pxTCB
  pxNext p := p
  pxPrevious p := p
  pxContainer _ := none
  uxNumberOfItems _ := 0
  pxIndex i := .xListEnd i

theorem vListInitialise_emptyLists {τ : Type} [DecidableEq τ] (uxPriority : τ → UInt32) (pxList : TaskList) :
    vListInitialise pxList (emptyLists uxPriority) = emptyLists uxPriority := by
  unfold vListInitialise
  congr 1 <;> exact Function.update_eq_self _ _

theorem vListInitialiseItem_emptyLists {τ : Type} [DecidableEq τ] (uxPriority : τ → UInt32) (pxItem : TcbItem τ) :
    vListInitialiseItem pxItem (emptyLists uxPriority) = emptyLists uxPriority := by
  unfold vListInitialiseItem
  congr 1
  exact Function.update_eq_self _ _

def appTasks : KernelSetup AppTask where
  uxPriority := AppTask.uxPriority
  xIdleTask := .prvIdleTask
  first := .application_task
  others := [.prvIdleTask, .prvTimerTask]
  lists := emptyLists AppTask.uxPriority
  nodup := by decide
  complete := by decide
  priority := by decide
  card := by decide
  list := vListInitialise_emptyLists _
  item := vListInitialiseItem_emptyLists _
  event_value _ := rfl

variable {τ β : Type} [DecidableEq τ] [Fintype τ] {c : KernelSetup τ} {vApplicationTickHook : β → β} {hook : β}
  {s s' : TimedKernel τ β} {L L' : TaskList → List (TcbItem τ)} {t : τ}

/-- A run from the start keeps the invariant. -/
theorem runInv_kernelRun (c : KernelSetup τ) (vApplicationTickHook : β → β) (hook : β) (es : List KernelEvent) :
    ∃ s L, kernelRun c vApplicationTickHook hook es = .ok s ∧ RunInv c vApplicationTickHook hook s L := by
  obtain ⟨L₀, h₀⟩ := runInv_boot c vApplicationTickHook hook
  obtain ⟨s, L, hrun, h, -⟩ := run_inv h₀ es
  exact ⟨s, L, hrun, h⟩

theorem runInv_of_run {es : List KernelEvent} (hrun : kernelRun c vApplicationTickHook hook es = .ok s) :
    ∃ L, RunInv c vApplicationTickHook hook s L := by
  obtain ⟨s', L, hrun', h⟩ := runInv_kernelRun c vApplicationTickHook hook es
  obtain rfl : s = s' := Except.ok.inj (hrun.symm.trans hrun')
  exact ⟨L, h⟩

/-! ### The schedule and the ticks -/

/-- Whatever happens, and in whatever order, the kernel never stops, and it goes along the steps of a schedule in
unbounded time that starts with all tasks ready.  This is so as long as the callers keep to what the functions ask of
them; a call in the wrong suspension of the scheduler stops at its `configASSERT`. -/
theorem kernelRun_schedule (c : KernelSetup τ) (vApplicationTickHook : β → β) (hook : β) (es : List KernelEvent) :
    ∃ s, kernelRun c vApplicationTickHook hook es = .ok s ∧
      Relation.ReflTransGen (Step c.uxPriority c.xIdleTask fun _ => True)
        ⟨(c.boot hook).pxCurrentTCB, 0, 0, 0, fun _ => .ready, fun _ => .nothing⟩ s.schedule ∧
      ∀ e : KernelEvent, ¬ e.AssertsSuspension s.kernel →
        kernelStep vApplicationTickHook (loopFuel τ) s.kernel e = .error .configAssert := by
  obtain ⟨L, h⟩ := runInv_boot c vApplicationTickHook hook
  obtain ⟨-, -, hstart, -⟩ := boot_inv c hook
  obtain ⟨s, L', hrun, -, hpath⟩ := run_inv h es
  refine ⟨s, hrun, ?_, fun e he => kernelStep_configAssert he⟩
  have hschedule : TimedKernel.schedule ⟨c.boot hook, 0, 0⟩ = (c.boot hook).schedule 0 := by
    unfold TimedKernel.schedule
    rw [show TimedKernel.now ⟨c.boot hook, 0, 0⟩ = 0 from Nat.zero_sub _]
  rw [hschedule, hstart] at hpath
  exact hpath

/-- The tick count and its overflows count every tick interrupt and every tick caught up, less the ticks held back, of
which there are none while the scheduler runs; the tick hook is called once for every tick interrupt. -/
theorem kernelRun_ticks (c : KernelSetup τ) (vApplicationTickHook : β → β) (hook : β) (es : List KernelEvent) :
    ∃ s, kernelRun c vApplicationTickHook hook es = .ok s ∧
      s.now + s.kernel.xPendedTicks.toNat = s.interrupts + s.caughtUp ∧
      s.kernel.xTickCount.toNat = s.now % 2 ^ 32 ∧ s.kernel.xNumOfOverflows = .ofNat (s.now / 2 ^ 32) ∧
      (s.kernel.uxSchedulerSuspended = 0 → s.kernel.xPendedTicks = 0) ∧
      s.kernel.hook = vApplicationTickHook^[s.interrupts] hook := by
  obtain ⟨s, L, hrun, h⟩ := runInv_kernelRun c vApplicationTickHook hook es
  exact ⟨s, hrun, h.total, h.inv.clock.1, h.inv.clock.2, h.inv.pended_eq_zero, h.hook⟩

/-! ### The lists -/

/-- Every task is in exactly one list of `tasks.c`, the one of its priority if it is ready.  A task that waits for an
event is in no ready list; the lists of events are in order of priority, the delayed lists in order of time.  No task
is pending while the scheduler runs. -/
theorem kernelRun_lists (c : KernelSetup τ) (vApplicationTickHook : β → β) (hook : β) (es : List KernelEvent) :
    ∃ s L, kernelRun c vApplicationTickHook hook es = .ok s ∧ TaskLists s.kernel L ∧
      (∀ t, ∃! i, xStateListItem t ∈ L i) ∧
      (∀ t, s.kernel.IsReady t ↔ xStateListItem t ∈ L (pxReadyTasksLists (c.uxPriority t))) ∧
      (∀ t i j, xEventListItem t ∈ L i → ¬ s.kernel.IsReady t ∧ (xEventListItem t ∈ L j → j = i)) ∧
      (∀ n, (L (xEventList n)).Pairwise fun x y => c.uxPriority y.pvOwner ≤ c.uxPriority x.pvOwner) ∧
      s.kernel.lists.Ascending (L s.kernel.pxDelayedTaskList) ∧
      s.kernel.lists.Ascending (L s.kernel.pxOverflowDelayedTaskList) ∧ s.kernel.IsReady c.xIdleTask ∧
      (s.kernel.uxSchedulerSuspended = 0 → L xPendingReadyList = []) := by
  obtain ⟨s, L, hrun, h⟩ := runInv_kernelRun c vApplicationTickHook hook es
  have hlists := h.inv.lists
  have hready : ∀ t, s.kernel.IsReady t ↔ xStateListItem t ∈ L (pxReadyTasksLists (c.uxPriority t)) := by
    intro t
    unfold Kernel.IsReady
    rw [hlists.lists.container, h.inv.priority]
  refine ⟨s, L, hrun, hlists, fun t => ?_, hready, fun t i j hi => ⟨fun ht => ?_, fun hj => ?_⟩, fun n => ?_,
    hlists.ascending _ hlists.delayed_ordered.1, hlists.ascending _ hlists.delayed_ordered.2, ?_, fun hrunning => ?_⟩
  · obtain ⟨i, hi⟩ := h.inv.present t
    exact ⟨i, hi, fun j hj => hlists.lists.eq_of_mem hj hi⟩
  · refine h.inv.good.wait t (fun hw => ?_) (hlists.isReady_iff.1 ht)
    exact hlists.waitOf_nothing_iff.1 hw i hi
  · exact hlists.lists.eq_of_mem hj hi
  · have hsorted := hlists.event_priority n
    rwa [h.inv.priority] at hsorted
  · exact hlists.isReady_iff.2 h.inv.good.idle
  · refine List.eq_nil_iff_forall_not_mem.2 fun x hx => ?_
    obtain ⟨t, rfl⟩ : ∃ t, x = xEventListItem t := ⟨_, hlists.pending_item hx⟩
    have hnone := (h.inv.good.settled (schedule_depth_eq_zero.2 hrunning)).2 t
    exact hnone (hlists.waitOf_signalled_iff.2 hx)

/-! ### Preemption -/

/-- A ready task has a higher priority than the running one. -/
def Kernel.Outranked (k : Kernel τ β) : Prop := ∃ u, k.IsReady u ∧ k.uxPriority k.pxCurrentTCB < k.uxPriority u

theorem exists_of_bind_eq_ok {ε X Y : Type} {x : Except ε X} {f : X → Except ε Y} {y : Y} (h : x >>= f = .ok y) :
    ∃ a, x = .ok a ∧ f a = .ok y := by
  cases x with
  | error e => cases h
  | ok a => exact ⟨a, rfl, h⟩

theorem kernelStep_of_kernelNext {e : KernelEvent} (hmay : e.MayHappen c.xIdleTask s.kernel)
    (hnext : kernelNext c vApplicationTickHook s e = .ok s') :
    kernelStep vApplicationTickHook (loopFuel τ) s.kernel e = .ok s'.kernel := by
  unfold kernelNext at hnext
  rw [if_pos hmay] at hnext
  cases hstep : kernelStep vApplicationTickHook (loopFuel τ) s.kernel e with
  | error stop =>
    rw [hstep] at hnext
    cases hnext
  | ok k' =>
    rw [hstep] at hnext
    obtain rfl := Except.ok.inj hnext
    rfl

omit [Fintype τ] in
theorem running_of_sysTick {k k' : Kernel τ β} {fuel : ℕ} (hstep : SysTick_Handler vApplicationTickHook fuel k = .ok k')
    (hrunning : k'.uxSchedulerSuspended = 0) : k.uxSchedulerSuspended = 0 := by
  by_contra hne
  unfold SysTick_Handler xTaskIncrementTick at hstep
  rw [if_neg hne] at hstep
  obtain rfl := Except.ok.inj hstep
  exact hne hrunning

omit [Fintype τ] in
theorem running_of_pendSV {k k' : Kernel τ β} (hstep : PendSV_Handler k = .ok k')
    (hrunning : k'.uxSchedulerSuspended = 0) : k.uxSchedulerSuspended = 0 := by
  by_contra hne
  unfold PendSV_Handler vTaskSwitchContext at hstep
  rw [if_pos hne] at hstep
  obtain rfl := Except.ok.inj hstep
  exact hne hrunning

/-- The tick interrupt passes a pending yield on to PendSV. -/
theorem KernelInv.pendSV_of_sysTick {k k' : Kernel τ β} {now : ℕ} (h : KernelInv c k now L)
    (hrunning : k.uxSchedulerSuspended = 0) (hstep : SysTick_Handler vApplicationTickHook (loopFuel τ) k = .ok k')
    (hyield : k'.xYieldPending = true) : k'.pendSV = true := by
  obtain ⟨k₁, b, L', heq, -, hsame, -, hb⟩ := xTaskIncrementTick_eq vApplicationTickHook c.card (lt_loopFuel τ) h.lists
    h.clock h.future hrunning
  unfold SysTick_Handler at hstep
  rw [heq] at hstep
  cases b with
  | true =>
    obtain rfl := Except.ok.inj hstep
    rfl
  | false =>
    obtain rfl := Except.ok.inj hstep
    cases hb.2 (Or.inl (hsame.symm.trans hyield))

/-- So does the end of a suspension. -/
theorem KernelInv.pendSV_of_resumeAll {k k' : Kernel τ β} {now : ℕ} (h : KernelInv c k now L)
    (hstep : (xTaskResumeAll vApplicationTickHook (loopFuel τ) k).map Prod.fst = .ok k')
    (hrunning : k'.uxSchedulerSuspended = 0) (hyield : k'.xYieldPending = true) : k'.pendSV = true := by
  rcases hcall : xTaskResumeAll vApplicationTickHook (loopFuel τ) k with stop | ⟨k₀, b⟩
  · rw [hcall] at hstep
    cases hstep
  rw [hcall] at hstep
  obtain rfl : k₀ = k' := Except.ok.inj hstep
  unfold xTaskResumeAll at hcall
  obtain ⟨-, -, hcall⟩ := exists_of_bind_eq_ok hcall
  dsimp only at hcall
  split at hcall
  · unfold resumeScheduler at hcall
    obtain ⟨⟨k₁, moved⟩, -, hcall⟩ := exists_of_bind_eq_ok hcall
    obtain ⟨k₂, -, hcall⟩ := exists_of_bind_eq_ok hcall
    have hresult := Except.ok.inj hcall
    split at hresult
    · obtain ⟨rfl, -⟩ := Prod.mk.inj hresult
      rfl
    · next hpending =>
      obtain ⟨rfl, -⟩ := Prod.mk.inj hresult
      exact absurd hyield hpending
  · next hlast =>
    obtain ⟨rfl, -⟩ := Prod.mk.inj (Except.ok.inj hcall)
    exact absurd ⟨hrunning, h.number⟩ hlast

/-- The running task gives way to a ready task of a higher priority: there is always a switch on the way; a tick or
the end of a suspension has PendSV raised for it, and after PendSV a ready task of the highest priority runs. -/
theorem kernelRun_preempts (c : KernelSetup τ) (vApplicationTickHook : β → β) (hook : β) (es : List KernelEvent) :
    ∃ s, kernelRun c vApplicationTickHook hook es = .ok s ∧ (s.kernel.Outranked → s.kernel.SwitchPending) ∧
      ∀ e : KernelEvent, e.MayHappen c.xIdleTask s.kernel →
        ∃ s', kernelNext c vApplicationTickHook s e = .ok s' ∧ (s'.kernel.uxSchedulerSuspended = 0 →
          (e = .SysTick_Handler ∨ e = .xTaskResumeAll → s'.kernel.Outranked → s'.kernel.pendSV = true) ∧
          (e = .PendSV_Handler → s'.kernel.IsReady s'.kernel.pxCurrentTCB ∧ ¬ s'.kernel.Outranked)) := by
  obtain ⟨s, L, hrun, h⟩ := runInv_kernelRun c vApplicationTickHook hook es
  have hpending : ∀ {s : TimedKernel τ β} {L}, RunInv c vApplicationTickHook hook s L → s.kernel.Outranked →
      s.kernel.SwitchPending := by
    rintro s L h ⟨u, hu, hlt⟩
    rw [h.inv.priority] at hlt
    exact h.inv.preempt u (h.inv.lists.isReady_iff.1 hu) hlt
  refine ⟨s, hrun, hpending h, fun e hmay => ?_⟩
  obtain ⟨s', L', hnext, h', hcases⟩ := kernelNext_eq h e
  have hstepped : Stepped c vApplicationTickHook e s.kernel s.now s'.kernel s'.now L L' := by
    rcases hcases with ⟨-, -, hs⟩ | ⟨hnot, -⟩
    · exact hs
    · exact absurd hmay hnot
  have hstep := kernelStep_of_kernelNext hmay hnext
  refine ⟨s', hnext, fun hrunning => ⟨?_, ?_⟩⟩
  · rintro (rfl | rfl) hout
    · rcases hpending h' hout with hsv | hyield
      · exact hsv
      · exact h.inv.pendSV_of_sysTick (running_of_sysTick hstep hrunning) hstep hyield
    · rcases hpending h' hout with hsv | hyield
      · exact hsv
      · exact h.inv.pendSV_of_resumeAll hstep hrunning hyield
  · rintro rfl
    obtain ⟨hready, hmax⟩ := hstepped.selected (running_of_pendSV hstep hrunning)
    refine ⟨h'.inv.lists.isReady_iff.2 hready, ?_⟩
    rintro ⟨u, hu, hlt⟩
    rw [h'.inv.priority] at hlt
    exact absurd hlt (UInt32.not_lt.2 (hmax u (h'.inv.lists.isReady_iff.1 hu)))

end LcdKeypad
