import LcdKeypad.KernelList

/-!
# The ticks and the delays of the kernel (`tasks.c`)

The part of the kernel that the tick interrupt drives and that `vTaskDelay` of the application task waits for: the
two lists of delayed tasks that are switched when the tick count overflows, the ticks held back while the scheduler
is suspended, the tasks that wait for an event with a timeout, and the choice of the task that runs.  The priorities
do not change while the scheduler runs (no mutexes, no `vTaskPrioritySet`), and tasks are neither created nor
deleted nor suspended then (`vTaskSuspend`, `vTaskResume`).

A function that suspends the scheduler is in pieces, because interrupts come in between: `vTaskSuspendAll`, what it
does with the scheduler suspended, which has the name of the function here, and `xTaskResumeAll` or `resumeAndYield`.
-/

namespace LcdKeypad

/-- The lists of `tasks.c`, and those of the tasks that wait for an event, which belong to the queues. -/
inductive TaskList
  | pxReadyTasksLists (uxPriority : UInt32)
  | xDelayedTaskList1
  | xDelayedTaskList2
  | xPendingReadyList
  | xSuspendedTaskList
  | xEventList (n : ℕ)
  deriving DecidableEq

/-- The two items of a `TCB_t`. -/
inductive TcbItem (τ : Type)
  | xStateListItem (pxTCB : τ)
  | xEventListItem (pxTCB : τ)
  deriving DecidableEq

def TcbItem.pvOwner {τ : Type} : TcbItem τ → τ
  | xStateListItem pxTCB => pxTCB
  | xEventListItem pxTCB => pxTCB

/-- The static variables of `tasks.c`, the pending bit of PendSV, and what the tick hook works on. -/
structure Kernel (τ β : Type) where
  lists : ListMemory TaskList (TcbItem τ)
  uxPriority : τ → UInt32
  pxCurrentTCB : τ
  pxDelayedTaskList : TaskList
  pxOverflowDelayedTaskList : TaskList
  uxCurrentNumberOfTasks : UInt32
  xTickCount : UInt32
  uxTopReadyPriority : UInt32
  xPendedTicks : UInt32
  xYieldPending : Bool
  xNumOfOverflows : UInt32
  xNextTaskUnblockTime : UInt32
  uxSchedulerSuspended : UInt32
  pendSV : Bool
  hook : β

variable {τ β : Type} [DecidableEq τ]

/-! ### Ready and delayed tasks -/

def prvAddTaskToReadyList (pxTCB : τ) (k : Kernel τ β) : Kernel τ β :=
  { k with
    uxTopReadyPriority := portRECORD_READY_PRIORITY (k.uxPriority pxTCB) k.uxTopReadyPriority
    lists := vListInsertEnd (.pxReadyTasksLists (k.uxPriority pxTCB)) (.xStateListItem pxTCB) k.lists }

def prvResetNextTaskUnblockTime (k : Kernel τ β) : Kernel τ β :=
  { k with
    xNextTaskUnblockTime :=
      if listLIST_IS_EMPTY k.pxDelayedTaskList k.lists then portMAX_DELAY
      else k.lists.xItemValue (k.lists.pxNext (.xListEnd k.pxDelayedTaskList)) }

def taskSWITCH_DELAYED_LISTS (k : Kernel τ β) : Except KernelStop (Kernel τ β) := do
  configASSERT (listLIST_IS_EMPTY k.pxDelayedTaskList k.lists)
  return prvResetNextTaskUnblockTime { k with
    pxDelayedTaskList := k.pxOverflowDelayedTaskList
    pxOverflowDelayedTaskList := k.pxDelayedTaskList
    xNumOfOverflows := k.xNumOfOverflows + 1 }

/-- `listREMOVE_ITEM` of an item that may be in no list. -/
def removeIfContained (pxItem : TcbItem τ) (m : ListMemory TaskList (TcbItem τ)) :
    Except KernelStop (ListMemory TaskList (TcbItem τ)) :=
  if m.pxContainer pxItem ≠ none then (uxListRemove pxItem m).map Prod.fst else .ok m

/-- A task whose time has come leaves the delayed list, and the list of the event if it waits for one as well. -/
def unblockTask (pxTCB : τ) (k : Kernel τ β) : Except KernelStop (Kernel τ β) := do
  let (lists, _) ← uxListRemove (.xStateListItem pxTCB) k.lists
  let lists ← removeIfContained (.xEventListItem pxTCB) lists
  return prvAddTaskToReadyList pxTCB { k with lists := lists }

/-- The `for( ; ; )` loop of `xTaskIncrementTick`, with `xSwitchRequired`. -/
def unblockTasks : ℕ → Bool → Kernel τ β → Except KernelStop (Kernel τ β × Bool)
  | 0, _, _ => .error .fuel
  | fuel + 1, xSwitchRequired, k =>
    if listLIST_IS_EMPTY k.pxDelayedTaskList k.lists then
      .ok ({ k with xNextTaskUnblockTime := portMAX_DELAY }, xSwitchRequired)
    else do
      let pxItem ← listGET_OWNER_OF_HEAD_ENTRY k.pxDelayedTaskList k.lists
      let xItemValue := k.lists.xItemValue (.item (.xStateListItem pxItem.pvOwner))
      if k.xTickCount < xItemValue then
        .ok ({ k with xNextTaskUnblockTime := xItemValue }, xSwitchRequired)
      else
        let k ← unblockTask pxItem.pvOwner k
        unblockTasks fuel (xSwitchRequired || decide (k.uxPriority k.pxCurrentTCB < k.uxPriority pxItem.pvOwner)) k

variable (vApplicationTickHook : β → β) (fuel : ℕ)

/-- The delayed lists are switched if the tick count has wrapped to 0. -/
def wrapTickCount (k : Kernel τ β) : Except KernelStop (Kernel τ β) :=
  if k.xTickCount = 0 then taskSWITCH_DELAYED_LISTS k else .ok k

def expireTimeouts (k : Kernel τ β) : Except KernelStop (Kernel τ β × Bool) :=
  if k.xNextTaskUnblockTime ≤ k.xTickCount then unblockTasks fuel false k else .ok (k, false)

/-- The hook is not called while the ticks held back are made up for. -/
def callTickHook (k : Kernel τ β) : Kernel τ β :=
  if k.xPendedTicks = 0 then { k with hook := vApplicationTickHook k.hook } else k

def xTaskIncrementTick (k : Kernel τ β) : Except KernelStop (Kernel τ β × Bool) :=
  if k.uxSchedulerSuspended = 0 then do
    let k ← wrapTickCount { k with xTickCount := k.xTickCount + 1 }
    let (k, xSwitchRequired) ← expireTimeouts fuel k
    return (callTickHook vApplicationTickHook k, xSwitchRequired || k.xYieldPending)
  else .ok ({ k with xPendedTicks := k.xPendedTicks + 1, hook := vApplicationTickHook k.hook }, false)

/-- The tick interrupt, which pends a context switch if one is required (`port.c`). -/
def SysTick_Handler (k : Kernel τ β) : Except KernelStop (Kernel τ β) := do
  let (k, xSwitchRequired) ← xTaskIncrementTick vApplicationTickHook fuel k
  return if xSwitchRequired then { k with pendSV := true } else k

/-! ### The scheduler -/

/-- `taskYIELD_WITHIN_API`, which is `vPortYield` -/
def vPortYield (k : Kernel τ β) : Kernel τ β := { k with pendSV := true }

def taskSELECT_HIGHEST_PRIORITY_TASK (k : Kernel τ β) : Except KernelStop (Kernel τ β) := do
  let uxTopPriority := portGET_HIGHEST_PRIORITY k.uxTopReadyPriority
  configASSERT (0 < k.lists.uxNumberOfItems (.pxReadyTasksLists uxTopPriority))
  let (lists, pxItem) ← listGET_OWNER_OF_NEXT_ENTRY (.pxReadyTasksLists uxTopPriority) k.lists
  return { k with lists := lists, pxCurrentTCB := pxItem.pvOwner }

def vTaskSwitchContext (k : Kernel τ β) : Except KernelStop (Kernel τ β) :=
  if k.uxSchedulerSuspended ≠ 0 then .ok { k with xYieldPending := true }
  else taskSELECT_HIGHEST_PRIORITY_TASK { k with xYieldPending := false }

/-- The exception that the pending bit raises. -/
def PendSV_Handler (k : Kernel τ β) : Except KernelStop (Kernel τ β) := vTaskSwitchContext { k with pendSV := false }

def vTaskSuspendAll (k : Kernel τ β) : Kernel τ β := { k with uxSchedulerSuspended := k.uxSchedulerSuspended + 1 }

/-- The `while` loop of `xTaskResumeAll`, and whether it has moved a task. -/
def movePendingReady : ℕ → Bool → Kernel τ β → Except KernelStop (Kernel τ β × Bool)
  | 0, _, _ => .error .fuel
  | fuel + 1, moved, k =>
    if listLIST_IS_EMPTY .xPendingReadyList k.lists then .ok (k, moved)
    else do
      let pxItem ← listGET_OWNER_OF_HEAD_ENTRY .xPendingReadyList k.lists
      let (lists, _) ← uxListRemove (.xEventListItem pxItem.pvOwner) k.lists
      let (lists, _) ← uxListRemove (.xStateListItem pxItem.pvOwner) lists
      let k := prvAddTaskToReadyList pxItem.pvOwner { k with lists := lists }
      movePendingReady fuel true { k with
        xYieldPending := k.xYieldPending || decide (k.uxPriority k.pxCurrentTCB < k.uxPriority pxItem.pvOwner) }

/-- The `do` loop of `xTaskResumeAll` over the ticks held back. -/
def unwindTicks : ℕ → Kernel τ β → Except KernelStop (Kernel τ β)
  | 0, k => .ok k
  | xPendedCounts + 1, k => do
    let (k, xSwitchRequired) ← xTaskIncrementTick vApplicationTickHook fuel k
    unwindTicks xPendedCounts { k with xYieldPending := k.xYieldPending || xSwitchRequired }

/-- What `xTaskResumeAll` does once the scheduler is not suspended any more, with `xAlreadyYielded`. -/
def resumeScheduler (k : Kernel τ β) : Except KernelStop (Kernel τ β × Bool) := do
  let (k, moved) ← movePendingReady fuel false k
  let k := if moved then prvResetNextTaskUnblockTime k else k
  let k ← unwindTicks vApplicationTickHook fuel k.xPendedTicks.toNat k
  let k := { k with xPendedTicks := 0 }
  return if k.xYieldPending then (vPortYield k, true) else (k, false)

/-- Whether a switch has been pended as well (`xAlreadyYielded`). -/
def xTaskResumeAll (k : Kernel τ β) : Except KernelStop (Kernel τ β × Bool) := do
  configASSERT (k.uxSchedulerSuspended ≠ 0)
  let k := { k with uxSchedulerSuspended := k.uxSchedulerSuspended - 1 }
  if k.uxSchedulerSuspended = 0 ∧ 0 < k.uxCurrentNumberOfTasks then resumeScheduler vApplicationTickHook fuel k
  else return (k, false)

/-- The end of `vTaskDelay` and of `xTaskDelayUntil`, which forces a reschedule if `xTaskResumeAll` has not. -/
def resumeAndYield (k : Kernel τ β) : Except KernelStop (Kernel τ β) := do
  let (k, xAlreadyYielded) ← xTaskResumeAll vApplicationTickHook fuel k
  return if xAlreadyYielded then k else vPortYield k

/-! ### Blocking -/

/-- The list that the time to wake belongs to, with the item set to it. -/
def insertDelayed (xTimeToWake : UInt32) (k : Kernel τ β) : Except KernelStop (Kernel τ β) := do
  let pxItem := TcbItem.xStateListItem k.pxCurrentTCB
  let lists := { k.lists with xItemValue := Function.update k.lists.xItemValue (.item pxItem) xTimeToWake }
  if xTimeToWake < k.xTickCount then
    let lists ← vListInsert fuel k.pxOverflowDelayedTaskList pxItem lists
    return { k with lists := lists }
  else
    let lists ← vListInsert fuel k.pxDelayedTaskList pxItem lists
    return { k with
      lists := lists
      xNextTaskUnblockTime :=
        if xTimeToWake < k.xNextTaskUnblockTime then xTimeToWake else k.xNextTaskUnblockTime }

def prvAddCurrentTaskToDelayedList (xTicksToWait : UInt32) (xCanBlockIndefinitely : Bool) (k : Kernel τ β) :
    Except KernelStop (Kernel τ β) := do
  let (lists, uxNumberOfItems) ← uxListRemove (.xStateListItem k.pxCurrentTCB) k.lists
  let k := { k with
    lists := lists
    uxTopReadyPriority :=
      if uxNumberOfItems = 0 then portRESET_READY_PRIORITY (k.uxPriority k.pxCurrentTCB) k.uxTopReadyPriority
      else k.uxTopReadyPriority }
  if xTicksToWait = portMAX_DELAY ∧ xCanBlockIndefinitely = true then
    return { k with lists := vListInsertEnd .xSuspendedTaskList (.xStateListItem k.pxCurrentTCB) k.lists }
  else insertDelayed fuel (k.xTickCount + xTicksToWait) k

/-- What `vTaskDelay` does with the scheduler suspended.  With no ticks it does not suspend it and only yields. -/
def vTaskDelay (xTicksToDelay : UInt32) (k : Kernel τ β) : Except KernelStop (Kernel τ β) := do
  configASSERT (k.uxSchedulerSuspended = 1)
  prvAddCurrentTaskToDelayedList fuel xTicksToDelay false k

/-- Whether the time to wake is still to come. -/
def shouldDelay (xConstTickCount xPreviousWakeTime xTimeToWake : UInt32) : Bool :=
  if xConstTickCount < xPreviousWakeTime then
    decide (xTimeToWake < xPreviousWakeTime) && decide (xConstTickCount < xTimeToWake)
  else decide (xTimeToWake < xPreviousWakeTime) || decide (xConstTickCount < xTimeToWake)

/-- What `xTaskDelayUntil` does with the scheduler suspended, with the new `*pxPreviousWakeTime` and `xShouldDelay`. -/
def xTaskDelayUntil (xPreviousWakeTime xTimeIncrement : UInt32) (k : Kernel τ β) :
    Except KernelStop (Kernel τ β × UInt32 × Bool) := do
  configASSERT (0 < xTimeIncrement)
  configASSERT (k.uxSchedulerSuspended = 1)
  let xTimeToWake := xPreviousWakeTime + xTimeIncrement
  let xShouldDelay := shouldDelay k.xTickCount xPreviousWakeTime xTimeToWake
  let k ← if xShouldDelay then prvAddCurrentTaskToDelayedList fuel (xTimeToWake - k.xTickCount) false k else .ok k
  return (k, xTimeToWake, xShouldDelay)

/-- `n` is the number of the list `pxEventList`. -/
def vTaskPlaceOnEventList (n : ℕ) (xTicksToWait : UInt32) (k : Kernel τ β) : Except KernelStop (Kernel τ β) := do
  let lists ← vListInsert fuel (.xEventList n) (.xEventListItem k.pxCurrentTCB) k.lists
  prvAddCurrentTaskToDelayedList fuel xTicksToWait true { k with lists := lists }

def vTaskPlaceOnEventListRestricted (n : ℕ) (xTicksToWait : UInt32) (xWaitIndefinitely : Bool) (k : Kernel τ β) :
    Except KernelStop (Kernel τ β) :=
  let lists := vListInsertEnd (.xEventList n) (.xEventListItem k.pxCurrentTCB) k.lists
  prvAddCurrentTaskToDelayedList fuel (if xWaitIndefinitely then portMAX_DELAY else xTicksToWait) xWaitIndefinitely
    { k with lists := lists }

/-- The unblocked task is ready at once, or pending while the scheduler is suspended. -/
def readyOrPending (pxUnblockedTCB : τ) (k : Kernel τ β) : Except KernelStop (Kernel τ β) :=
  if k.uxSchedulerSuspended = 0 then do
    let (lists, _) ← uxListRemove (.xStateListItem pxUnblockedTCB) k.lists
    return prvAddTaskToReadyList pxUnblockedTCB { k with lists := lists }
  else .ok { k with lists := vListInsertEnd .xPendingReadyList (.xEventListItem pxUnblockedTCB) k.lists }

/-- Whether a task of a higher priority than the running one is unblocked as well. -/
def xTaskRemoveFromEventList (n : ℕ) (k : Kernel τ β) : Except KernelStop (Kernel τ β × Bool) := do
  let pxItem ← listGET_OWNER_OF_HEAD_ENTRY (.xEventList n) k.lists
  let pxUnblockedTCB := pxItem.pvOwner
  let (lists, _) ← uxListRemove (.xEventListItem pxUnblockedTCB) k.lists
  let k ← readyOrPending pxUnblockedTCB { k with lists := lists }
  let xReturn := decide (k.uxPriority k.pxCurrentTCB < k.uxPriority pxUnblockedTCB)
  return ({ k with xYieldPending := k.xYieldPending || xReturn }, xReturn)

/-- What `xTaskCatchUpTicks` does with the scheduler suspended.  The source asserts before its `vTaskSuspendAll` that
the scheduler is not suspended, so that it is suspended once here. -/
def xTaskCatchUpTicks (xTicksToCatchUp : UInt32) (k : Kernel τ β) : Except KernelStop (Kernel τ β) := do
  configASSERT (k.uxSchedulerSuspended = 1)
  return { k with xPendedTicks := k.xPendedTicks + xTicksToCatchUp }

end LcdKeypad
