import LcdKeypad.General.BitSet
import LcdKeypad.General.TimedSchedule
import LcdKeypad.ListTurns
import LcdKeypad.Tasks
import Mathlib.Data.Fintype.Prod

/-!
# The states of the tasks

What the lists of the kernel say about a task: it is ready, delayed until a time that does not wrap, or suspended, and
besides it may wait for an event (`Kernel.schedule`).  `TaskLists` is what `tasks.c` keeps to in its lists.
-/

namespace LcdKeypad

open TimedSchedule BitSet TaskList TcbItem

variable {τ β : Type}

/-- The item values do not decrease along these lists. -/
def TaskList.Ordered : TaskList → Prop
  | xDelayedTaskList1 | xDelayedTaskList2 | xEventList _ => True
  | _ => False

/-- The lists that an item of a task with this priority may be in. -/
def TcbItem.MayBeIn (uxPriority : τ → UInt32) : TcbItem τ → TaskList → Prop
  | xStateListItem t, i => i = pxReadyTasksLists (uxPriority t) ∨ i = xDelayedTaskList1 ∨ i = xDelayedTaskList2 ∨
      i = xSuspendedTaskList
  | xEventListItem _, i => i = xPendingReadyList ∨ ∃ n, i = xEventList n

structure TaskLists (k : Kernel τ β) (L : TaskList → List (TcbItem τ)) : Prop where
  lists : Lists k.lists L
  delayed : (k.pxDelayedTaskList = xDelayedTaskList1 ∧ k.pxOverflowDelayedTaskList = xDelayedTaskList2) ∨
    (k.pxDelayedTaskList = xDelayedTaskList2 ∧ k.pxOverflowDelayedTaskList = xDelayedTaskList1)
  priority : ∀ t, k.uxPriority t < configMAX_PRIORITIES
  place : ∀ x i, x ∈ L i → x.MayBeIn k.uxPriority i
  ready : ∀ b, b ∈ members k.uxTopReadyPriority.toBitVec ↔
    ∃ t, xStateListItem t ∈ L (pxReadyTasksLists (k.uxPriority t)) ∧ (k.uxPriority t).toNat = b
  ascending : ∀ i, i.Ordered → k.lists.Ascending (L i)
  event_value : ∀ t, k.lists.xItemValue (.item (xEventListItem t)) = configMAX_PRIORITIES - k.uxPriority t
  unblock : ∀ t, xStateListItem t ∈ L k.pxDelayedTaskList →
    k.xNextTaskUnblockTime ≤ k.lists.xItemValue (.item (xStateListItem t))

/-- A list holds every item at most once. -/
theorem Lists.length_le_card [Fintype τ] {m : ListMemory TaskList (TcbItem τ)} {L : TaskList → List (TcbItem τ)}
    (h : Lists m L) (i : TaskList) : (L i).length ≤ 2 * Fintype.card τ := by
  classical
  have hinj : Function.Injective fun x : TcbItem τ => (decide (x = xStateListItem x.pvOwner), x.pvOwner) := by
    intro x y hxy
    cases x with
    | xStateListItem t => cases y <;> simp_all [TcbItem.pvOwner]
    | xEventListItem t => cases y <;> simp_all [TcbItem.pvOwner]
  have hcard := ((h.nodup i).map hinj).length_le_card
  rwa [List.length_map, Fintype.card_prod, Fintype.card_bool] at hcard

/-! ### The schedule that the lists stand for -/

/-- The status of a task after `now` ticks: an item of the list `pxDelayedTaskList` has its time before the next
overflow of the tick count, an item of `pxOverflowDelayedTaskList` before the one after it. -/
def Kernel.statusOf (k : Kernel τ β) (now : ℕ) (t : τ) : Status :=
  match k.lists.pxContainer (xStateListItem t) with
  | some (pxReadyTasksLists _) => .ready
  | some pxList =>
    if pxList = k.pxDelayedTaskList then
      .delayed (now / 2 ^ 32 * 2 ^ 32 + (k.lists.xItemValue (.item (xStateListItem t))).toNat)
    else if pxList = k.pxOverflowDelayedTaskList then
      .delayed ((now / 2 ^ 32 + 1) * 2 ^ 32 + (k.lists.xItemValue (.item (xStateListItem t))).toNat)
    else .suspended
  | none => .suspended

def Kernel.waitOf (k : Kernel τ β) (t : τ) : Wait ℕ :=
  match k.lists.pxContainer (xEventListItem t) with
  | some (xEventList n) => .event n
  | some _ => .signalled
  | none => .nothing

def Kernel.schedule (k : Kernel τ β) (now : ℕ) : Schedule τ ℕ where
  running := k.pxCurrentTCB
  now := now
  held := k.xPendedTicks.toNat
  depth := k.uxSchedulerSuspended.toNat
  status := k.statusOf now
  wait := k.waitOf

theorem schedule_depth_eq_zero {k : Kernel τ β} {now : ℕ} :
    (k.schedule now).depth = 0 ↔ k.uxSchedulerSuspended = 0 := by
  rw [← UInt32.toNat_inj]
  rfl

namespace TaskLists

variable {k k' : Kernel τ β} {L L' : TaskList → List (TcbItem τ)} {now : ℕ} {t : τ}

theorem congr (h : TaskLists k L) (hlists : k'.lists = k.lists) (hprio : k'.uxPriority = k.uxPriority)
    (htop : k'.uxTopReadyPriority = k.uxTopReadyPriority) (hdelayed : k'.pxDelayedTaskList = k.pxDelayedTaskList)
    (hoverflow : k'.pxOverflowDelayedTaskList = k.pxOverflowDelayedTaskList)
    (hnext : k'.xNextTaskUnblockTime = k.xNextTaskUnblockTime) : TaskLists k' L := by
  obtain ⟨h₁, h₂, h₃, h₄, h₅, h₆, h₇, h₈⟩ := h
  constructor
  · rwa [hlists]
  · rwa [hdelayed, hoverflow]
  · rwa [hprio]
  · rwa [hprio]
  · rwa [htop, hprio]
  · rwa [hlists]
  · rwa [hlists, hprio]
  · rwa [hdelayed, hnext, hlists]

theorem uxPriority_lt (h : TaskLists k L) (t : τ) : (k.uxPriority t).toNat < 5 := UInt32.lt_iff_toNat_lt.1 (h.priority t)

theorem delayed_ne (h : TaskLists k L) (p : UInt32) :
    k.pxDelayedTaskList ≠ pxReadyTasksLists p ∧ k.pxOverflowDelayedTaskList ≠ pxReadyTasksLists p ∧
      k.pxOverflowDelayedTaskList ≠ k.pxDelayedTaskList ∧ k.pxDelayedTaskList ≠ xSuspendedTaskList ∧
      k.pxOverflowDelayedTaskList ≠ xSuspendedTaskList := by
  rcases h.delayed with ⟨h₁, h₂⟩ | ⟨h₁, h₂⟩
  · simp [h₁, h₂]
  · simp [h₁, h₂]

theorem delayed_ordered (h : TaskLists k L) :
    k.pxDelayedTaskList.Ordered ∧ k.pxOverflowDelayedTaskList.Ordered := by
  rcases h.delayed with ⟨h₁, h₂⟩ | ⟨h₁, h₂⟩
  · rw [h₁, h₂]
    exact ⟨trivial, trivial⟩
  · rw [h₁, h₂]
    exact ⟨trivial, trivial⟩

theorem place_state (h : TaskLists k L) {i : TaskList} (hi : xStateListItem t ∈ L i) :
    i = pxReadyTasksLists (k.uxPriority t) ∨ i = k.pxDelayedTaskList ∨ i = k.pxOverflowDelayedTaskList ∨
      i = xSuspendedTaskList := by
  have hplace : i = _ ∨ i = _ ∨ i = _ ∨ i = _ := h.place _ _ hi
  rcases h.delayed with ⟨h₁, h₂⟩ | ⟨h₁, h₂⟩
  · rw [h₁, h₂]
    exact hplace
  · rw [h₁, h₂]
    tauto

theorem statusOf_ready (h : TaskLists k L) {p : UInt32} (ht : xStateListItem t ∈ L (pxReadyTasksLists p)) (now : ℕ) :
    k.statusOf now t = .ready := by
  unfold Kernel.statusOf
  rw [(h.lists.container _ _).2 ht]

theorem statusOf_delayed (h : TaskLists k L) (ht : xStateListItem t ∈ L k.pxDelayedTaskList) (now : ℕ) :
    k.statusOf now t =
      .delayed (now / 2 ^ 32 * 2 ^ 32 + (k.lists.xItemValue (.item (xStateListItem t))).toNat) := by
  unfold Kernel.statusOf
  rw [(h.lists.container _ _).2 ht]
  rcases h.delayed with ⟨h₁, -⟩ | ⟨h₁, -⟩
  · simp [h₁]
  · simp [h₁]

theorem statusOf_overflow (h : TaskLists k L) (ht : xStateListItem t ∈ L k.pxOverflowDelayedTaskList) (now : ℕ) :
    k.statusOf now t =
      .delayed ((now / 2 ^ 32 + 1) * 2 ^ 32 + (k.lists.xItemValue (.item (xStateListItem t))).toNat) := by
  unfold Kernel.statusOf
  rw [(h.lists.container _ _).2 ht]
  rcases h.delayed with ⟨h₁, h₂⟩ | ⟨h₁, h₂⟩
  · simp [h₁, h₂]
  · simp [h₁, h₂]

theorem statusOf_suspended (h : TaskLists k L) (ht : xStateListItem t ∈ L xSuspendedTaskList) (now : ℕ) :
    k.statusOf now t = .suspended := by
  unfold Kernel.statusOf
  rw [(h.lists.container _ _).2 ht]
  rcases h.delayed with ⟨h₁, h₂⟩ | ⟨h₁, h₂⟩
  · simp [h₁, h₂]
  · simp [h₁, h₂]

theorem mem_of_ready (h : TaskLists k L) (ht : k.statusOf now t = .ready) :
    xStateListItem t ∈ L (pxReadyTasksLists (k.uxPriority t)) := by
  rcases hc : k.lists.pxContainer (xStateListItem t) with _ | i
  · simp [Kernel.statusOf, hc] at ht
  · have hi := (h.lists.container _ _).1 hc
    rcases h.place_state hi with rfl | rfl | rfl | rfl
    · exact hi
    · rw [h.statusOf_delayed hi] at ht
      cases ht
    · rw [h.statusOf_overflow hi] at ht
      cases ht
    · rw [h.statusOf_suspended hi] at ht
      cases ht

theorem statusOf_eq_ready_iff (h : TaskLists k L) :
    k.statusOf now t = .ready ↔ xStateListItem t ∈ L (pxReadyTasksLists (k.uxPriority t)) :=
  ⟨h.mem_of_ready, fun ht => h.statusOf_ready ht now⟩

theorem waitOf_event_iff (h : TaskLists k L) {n : ℕ} : k.waitOf t = .event n ↔ xEventListItem t ∈ L (xEventList n) := by
  rw [← h.lists.container]
  rcases hc : k.lists.pxContainer (xEventListItem t) with _ | i
  · simp [Kernel.waitOf, hc]
  · have hplace : i = _ ∨ ∃ n, i = _ := h.place _ _ ((h.lists.container _ _).1 hc)
    rcases hplace with rfl | ⟨n, rfl⟩
    · simp [Kernel.waitOf, hc]
    · simp [Kernel.waitOf, hc]

theorem waitOf_signalled_iff (h : TaskLists k L) :
    k.waitOf t = .signalled ↔ xEventListItem t ∈ L xPendingReadyList := by
  rw [← h.lists.container]
  rcases hc : k.lists.pxContainer (xEventListItem t) with _ | i
  · simp [Kernel.waitOf, hc]
  · have hplace : i = _ ∨ ∃ n, i = _ := h.place _ _ ((h.lists.container _ _).1 hc)
    rcases hplace with rfl | ⟨n, rfl⟩
    · simp [Kernel.waitOf, hc]
    · simp [Kernel.waitOf, hc]

theorem waitOf_nothing_iff (h : TaskLists k L) : k.waitOf t = .nothing ↔ ∀ i, xEventListItem t ∉ L i := by
  rcases hc : k.lists.pxContainer (xEventListItem t) with _ | i
  · simp only [Kernel.waitOf, hc, true_iff]
    intro i hi
    rw [(h.lists.container _ _).2 hi] at hc
    cases hc
  · have hi := (h.lists.container _ _).1 hc
    have hplace : i = _ ∨ ∃ n, i = _ := h.place _ _ hi
    have hw : k.waitOf t ≠ .nothing := by
      rcases hplace with rfl | ⟨n, rfl⟩
      · simp [Kernel.waitOf, hc]
      · simp [Kernel.waitOf, hc]
    exact ⟨fun h0 => absurd h0 hw, fun hall => absurd hi (hall i)⟩

end TaskLists

end LcdKeypad
