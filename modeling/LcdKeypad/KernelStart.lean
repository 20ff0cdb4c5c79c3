import LcdKeypad.EventLists

/-!
# The start of the kernel, and its events

The application creates its tasks, `vTaskStartScheduler` starts the scheduler, and from then on the tick interrupt, the
switches, the calls of the running task and those of interrupts follow each other in any order.  A function that
suspends the scheduler is several events, between which interrupts may come; what it does with the scheduler suspended
and what is in a critical section is one event: what else may run meanwhile does not touch what it works on.

The callers keep to what the functions ask of them (`KernelEvent.MayHappen`).  Calls that change priorities, that
suspend and resume single tasks, or that create and delete tasks while the scheduler runs are not among the events.
-/

namespace LcdKeypad

open TimedSchedule BitSet TaskList TcbItem

/-- The tasks that there are when the scheduler is started, in the order of their creation.  All lists are as
`vListInitialise` leaves them, and all items as `prvInitialiseNewTask` does. -/
structure KernelSetup (τ : Type) [DecidableEq τ] [Fintype τ] where
  uxPriority : τ → UInt32
  xIdleTask : τ
  first : τ
  others : List τ
  lists : ListMemory TaskList (TcbItem τ)
  nodup : (first :: others).Nodup
  complete : ∀ t, t ∈ first :: others
  priority : ∀ t, uxPriority t < configMAX_PRIORITIES
  card : 2 * Fintype.card τ < 2 ^ 32
  list : ∀ pxList, vListInitialise pxList lists = lists
  item : ∀ pxItem, vListInitialiseItem pxItem lists = lists
  event_value : ∀ t, lists.xItemValue (.item (xEventListItem t)) = configMAX_PRIORITIES - uxPriority t

variable {τ β : Type} [DecidableEq τ]

/-- The first task becomes the running one, and so does every later one whose priority is not lower. -/
def prvAddNewTaskToReadyList (k : Kernel τ β) (pxNewTCB : τ) : Kernel τ β :=
  prvAddTaskToReadyList pxNewTCB { k with
    uxCurrentNumberOfTasks := k.uxCurrentNumberOfTasks + 1
    pxCurrentTCB :=
      if k.uxCurrentNumberOfTasks = 0 ∨ k.uxPriority k.pxCurrentTCB ≤ k.uxPriority pxNewTCB then pxNewTCB
      else k.pxCurrentTCB }

/-- The static variables before the first task is created. -/
def KernelSetup.initial [Fintype τ] (c : KernelSetup τ) (hook : β) : Kernel τ β where
  lists := c.lists
  uxPriority := c.uxPriority
  pxCurrentTCB := c.first
  pxDelayedTaskList := xDelayedTaskList1
  pxOverflowDelayedTaskList := xDelayedTaskList2
  uxCurrentNumberOfTasks := 0
  xTickCount := configINITIAL_TICK_COUNT
  uxTopReadyPriority := 0
  xPendedTicks := 0
  xYieldPending := false
  xNumOfOverflows := 0
  xNextTaskUnblockTime := 0
  uxSchedulerSuspended := 0
  pendSV := false
  hook := hook

def vTaskStartScheduler (k : Kernel τ β) : Kernel τ β :=
  { k with xNextTaskUnblockTime := portMAX_DELAY, xTickCount := configINITIAL_TICK_COUNT }

def KernelSetup.boot [Fintype τ] (c : KernelSetup τ) (hook : β) : Kernel τ β :=
  vTaskStartScheduler ((c.first :: c.others).foldl prvAddNewTaskToReadyList (c.initial hook))

/-! ### Events -/

inductive KernelEvent
  | SysTick_Handler
  | PendSV_Handler
  | vPortYield
  | vTaskSuspendAll
  | vTaskDelay (xTicksToDelay : UInt32)
  | xTaskDelayUntil (xPreviousWakeTime xTimeIncrement : UInt32)
  | vTaskPlaceOnEventList (n : ℕ) (xTicksToWait : UInt32)
  | vTaskPlaceOnEventListRestricted (n : ℕ) (xTicksToWait : UInt32) (xWaitIndefinitely : Bool)
  | xTaskRemoveFromEventList (n : ℕ)
  | xTaskCatchUpTicks (xTicksToCatchUp : UInt32)
  | xTaskResumeAll
  | resumeAndYield

/-- The task is in its ready list. -/
def Kernel.IsReady (k : Kernel τ β) (t : τ) : Prop :=
  k.lists.pxContainer (xStateListItem t) = some (pxReadyTasksLists (k.uxPriority t))

instance (k : Kernel τ β) (t : τ) : Decidable (k.IsReady t) := inferInstanceAs (Decidable (_ = _))

omit [DecidableEq τ] in
theorem TaskLists.isReady_iff {k : Kernel τ β} {L : TaskList → List (TcbItem τ)} {now : ℕ} {t : τ}
    (h : TaskLists k L) : k.IsReady t ↔ k.statusOf now t = .ready := by
  unfold Kernel.IsReady
  rw [h.lists.container, h.statusOf_eq_ready_iff]

/-- The running task is ready and executes. -/
def Kernel.Executes (k : Kernel τ β) : Prop := k.pendSV = false ∧ k.IsReady k.pxCurrentTCB

instance (k : Kernel τ β) : Decidable k.Executes := inferInstanceAs (Decidable (_ ∧ _))

/-- The event may happen: a switch when it is pending, a call when the running task executes and keeps to what the
function asks of its callers.  Delays and `xTaskCatchUpTicks` are not called with the scheduler suspended, so that it is
suspended once in them; a wait for an event is only called with the scheduler suspended, and every `xTaskResumeAll` has
its `vTaskSuspendAll`.  The idle task never blocks, a block time is not 0, only one task waits in a list that is not in
order, and the counters of the suspensions and of the ticks held back do not overflow. -/
def KernelEvent.MayHappen (xIdleTask : τ) (k : Kernel τ β) : KernelEvent → Prop
  | SysTick_Handler => k.uxSchedulerSuspended = 0 ∨ k.xPendedTicks.toNat + 1 < 2 ^ 32
  | PendSV_Handler => k.pendSV = true
  | vPortYield => True
  | vTaskSuspendAll => k.Executes ∧ k.uxSchedulerSuspended.toNat + 1 < 2 ^ 32
  | vTaskDelay xTicksToDelay =>
    k.Executes ∧ k.pxCurrentTCB ≠ xIdleTask ∧ k.uxSchedulerSuspended = 1 ∧ xTicksToDelay ≠ 0
  | xTaskDelayUntil _ xTimeIncrement =>
    k.Executes ∧ k.pxCurrentTCB ≠ xIdleTask ∧ k.uxSchedulerSuspended = 1 ∧ xTimeIncrement ≠ 0
  | vTaskPlaceOnEventList _ xTicksToWait =>
    k.Executes ∧ k.pxCurrentTCB ≠ xIdleTask ∧ k.uxSchedulerSuspended ≠ 0 ∧ xTicksToWait ≠ 0
  | vTaskPlaceOnEventListRestricted n xTicksToWait xWaitIndefinitely =>
    k.Executes ∧ k.pxCurrentTCB ≠ xIdleTask ∧ k.uxSchedulerSuspended ≠ 0 ∧
      (xTicksToWait ≠ 0 ∨ xWaitIndefinitely = true) ∧ listLIST_IS_EMPTY (xEventList n) k.lists
  | xTaskRemoveFromEventList n => ¬ listLIST_IS_EMPTY (xEventList n) k.lists
  | xTaskCatchUpTicks xTicksToCatchUp =>
    k.uxSchedulerSuspended = 1 ∧ k.xPendedTicks.toNat + xTicksToCatchUp.toNat < 2 ^ 32
  | xTaskResumeAll | resumeAndYield => k.pendSV = false ∧ k.uxSchedulerSuspended ≠ 0

instance (xIdleTask : τ) (k : Kernel τ β) : (e : KernelEvent) → Decidable (e.MayHappen xIdleTask k)
  | .SysTick_Handler => inferInstanceAs (Decidable (_ ∨ _))
  | .PendSV_Handler => inferInstanceAs (Decidable (_ = _))
  | .vPortYield => inferInstanceAs (Decidable True)
  | .vTaskSuspendAll => inferInstanceAs (Decidable (_ ∧ _))
  | .vTaskDelay _ => inferInstanceAs (Decidable (_ ∧ _ ∧ _ ∧ _))
  | .xTaskDelayUntil _ _ => inferInstanceAs (Decidable (_ ∧ _ ∧ _ ∧ _))
  | .vTaskPlaceOnEventList _ _ => inferInstanceAs (Decidable (_ ∧ _ ∧ _ ∧ _))
  | .vTaskPlaceOnEventListRestricted _ _ _ => inferInstanceAs (Decidable (_ ∧ _ ∧ _ ∧ _ ∧ _))
  | .xTaskRemoveFromEventList _ => inferInstanceAs (Decidable (¬ _))
  | .xTaskCatchUpTicks _ => inferInstanceAs (Decidable (_ ∧ _))
  | .xTaskResumeAll | .resumeAndYield => inferInstanceAs (Decidable (_ ∧ _))

def kernelStep (vApplicationTickHook : β → β) (fuel : ℕ) (k : Kernel τ β) :
    KernelEvent → Except KernelStop (Kernel τ β)
  | .SysTick_Handler => SysTick_Handler vApplicationTickHook fuel k
  | .PendSV_Handler => PendSV_Handler k
  | .vPortYield => .ok (vPortYield k)
  | .vTaskSuspendAll => .ok (vTaskSuspendAll k)
  | .vTaskDelay xTicksToDelay => vTaskDelay fuel xTicksToDelay k
  | .xTaskDelayUntil xPreviousWakeTime xTimeIncrement =>
    (xTaskDelayUntil fuel xPreviousWakeTime xTimeIncrement k).map Prod.fst
  | .vTaskPlaceOnEventList n xTicksToWait => vTaskPlaceOnEventList fuel n xTicksToWait k
  | .vTaskPlaceOnEventListRestricted n xTicksToWait xWaitIndefinitely =>
    vTaskPlaceOnEventListRestricted fuel n xTicksToWait xWaitIndefinitely k
  | .xTaskRemoveFromEventList n => (xTaskRemoveFromEventList n k).map Prod.fst
  | .xTaskCatchUpTicks xTicksToCatchUp => xTaskCatchUpTicks xTicksToCatchUp k
  | .xTaskResumeAll => (xTaskResumeAll vApplicationTickHook fuel k).map Prod.fst
  | .resumeAndYield => resumeAndYield vApplicationTickHook fuel k

/-- What the `configASSERT` of a function says about the suspensions of the scheduler. -/
def KernelEvent.AssertsSuspension (k : Kernel τ β) : KernelEvent → Prop
  | vTaskDelay _ | xTaskDelayUntil _ _ | xTaskCatchUpTicks _ => k.uxSchedulerSuspended = 1
  | xTaskResumeAll | resumeAndYield => k.uxSchedulerSuspended ≠ 0
  | _ => True

theorem kernelStep_configAssert {vApplicationTickHook : β → β} {fuel : ℕ} {k : Kernel τ β} {e : KernelEvent}
    (h : ¬ e.AssertsSuspension k) : kernelStep vApplicationTickHook fuel k e = .error .configAssert := by
  cases e with
  | vTaskDelay xTicksToDelay =>
    show LcdKeypad.vTaskDelay fuel xTicksToDelay k = _
    unfold LcdKeypad.vTaskDelay
    rw [configASSERT_of_not (c := k.uxSchedulerSuspended = 1) h]
    rfl
  | xTaskDelayUntil xPreviousWakeTime xTimeIncrement =>
    show (LcdKeypad.xTaskDelayUntil fuel xPreviousWakeTime xTimeIncrement k).map Prod.fst = _
    unfold LcdKeypad.xTaskDelayUntil
    rw [configASSERT_of_not (c := k.uxSchedulerSuspended = 1) h]
    by_cases hpos : 0 < xTimeIncrement
    · rw [show configASSERT (0 < xTimeIncrement) = .ok () from if_pos hpos]
      rfl
    · rw [configASSERT_of_not hpos]
      rfl
  | xTaskCatchUpTicks xTicksToCatchUp =>
    show LcdKeypad.xTaskCatchUpTicks xTicksToCatchUp k = _
    unfold LcdKeypad.xTaskCatchUpTicks
    rw [configASSERT_of_not (c := k.uxSchedulerSuspended = 1) h]
    rfl
  | xTaskResumeAll =>
    show (LcdKeypad.xTaskResumeAll vApplicationTickHook fuel k).map Prod.fst = _
    unfold LcdKeypad.xTaskResumeAll
    rw [configASSERT_of_not (c := k.uxSchedulerSuspended ≠ 0) h]
    rfl
  | resumeAndYield =>
    show LcdKeypad.resumeAndYield vApplicationTickHook fuel k = _
    unfold LcdKeypad.resumeAndYield LcdKeypad.xTaskResumeAll
    rw [configASSERT_of_not (c := k.uxSchedulerSuspended ≠ 0) h]
    rfl
  | SysTick_Handler | PendSV_Handler | vPortYield | vTaskSuspendAll | vTaskPlaceOnEventList
  | vTaskPlaceOnEventListRestricted | xTaskRemoveFromEventList => exact absurd trivial h

/-- The kernel with the number of tick interrupts and of ticks caught up so far. -/
structure TimedKernel (τ β : Type) where
  kernel : Kernel τ β
  interrupts : ℕ
  caughtUp : ℕ

/-- The ticks so far without those held back. -/
def TimedKernel.now (s : TimedKernel τ β) : ℕ := s.interrupts + s.caughtUp - s.kernel.xPendedTicks.toNat

def TimedKernel.schedule (s : TimedKernel τ β) : Schedule τ ℕ := s.kernel.schedule s.now

def KernelEvent.interrupts : KernelEvent → ℕ
  | SysTick_Handler => 1
  | _ => 0

def KernelEvent.caughtUp : KernelEvent → ℕ
  | xTaskCatchUpTicks xTicksToCatchUp => xTicksToCatchUp.toNat
  | _ => 0

variable [Fintype τ] (c : KernelSetup τ) (vApplicationTickHook : β → β)

/-- Enough for every loop over a list. -/
def loopFuel (τ : Type) [Fintype τ] : ℕ := 2 * Fintype.card τ + 1

/-- An event that may not happen in this state is passed over. -/
def kernelNext (s : TimedKernel τ β) (e : KernelEvent) : Except KernelStop (TimedKernel τ β) :=
  if e.MayHappen c.xIdleTask s.kernel then
    (kernelStep vApplicationTickHook (loopFuel τ) s.kernel e).map fun k =>
      ⟨k, s.interrupts + e.interrupts, s.caughtUp + e.caughtUp⟩
  else .ok s

def kernelRun (hook : β) (es : List KernelEvent) : Except KernelStop (TimedKernel τ β) :=
  es.foldlM (kernelNext c vApplicationTickHook) ⟨c.boot hook, 0, 0⟩

end LcdKeypad
