import LcdKeypad.TaskMoves

/-!
# The ticks

A tick makes exactly the tasks ready whose time has come, across the overflow of the tick count, and
`xTaskResumeAll` makes up for the ticks held back.
-/

namespace LcdKeypad

open TimedSchedule BitSet TaskList TcbItem

variable {τ β : Type}

/-- The kernel has counted `now` ticks. -/
def Kernel.Clock (k : Kernel τ β) (now : ℕ) : Prop :=
  k.xTickCount.toNat = now % 2 ^ 32 ∧ k.xNumOfOverflows = .ofNat (now / 2 ^ 32)

namespace TaskLists

variable {k k' : Kernel τ β} {L L' : TaskList → List (TcbItem τ)} {now : ℕ} {t : τ}

/-- The tasks that are due stand in `pxDelayedTaskList`, with times up to the tick count. -/
theorem due_iff (h : TaskLists k L) (hclock : k.xTickCount.toNat = now % 2 ^ 32) :
    (k.statusOf now t).due now = true ↔ xStateListItem t ∈ L k.pxDelayedTaskList ∧
      k.lists.xItemValue (.item (xStateListItem t)) ≤ k.xTickCount := by
  rcases hc : k.lists.pxContainer (xStateListItem t) with _ | i
  · have hnot : ¬ xStateListItem t ∈ L k.pxDelayedTaskList := by
      intro ht
      rw [(h.lists.container _ _).2 ht] at hc
      cases hc
    simp [Kernel.statusOf, hc, Status.due, hnot]
  · have hi := (h.lists.container _ _).1 hc
    have hother : i ≠ k.pxDelayedTaskList → xStateListItem t ∉ L k.pxDelayedTaskList :=
      fun hne ht => hne (h.lists.eq_of_mem hi ht)
    have hne := h.delayed_ne (k.uxPriority t)
    rcases h.place_state hi with rfl | rfl | rfl | rfl
    · rw [h.statusOf_ready hi]
      simp [Status.due, hother hne.1.symm]
    · rw [h.statusOf_delayed hi, UInt32.le_iff_toNat_le, hclock]
      simp only [Status.due, decide_eq_true_eq, hi, true_and]
      omega
    · rw [h.statusOf_overflow hi]
      simp only [Status.due, decide_eq_true_eq, hother hne.2.2.1, false_and, iff_false]
      omega
    · rw [h.statusOf_suspended hi]
      simp [Status.due, hother hne.2.2.2.1.symm]

/-- The head of `pxDelayedTaskList` has the least time. -/
theorem head_le (h : TaskLists k L) {x : TcbItem τ} {l : List (TcbItem τ)} (hl : L k.pxDelayedTaskList = x :: l)
    (ht : xStateListItem t ∈ L k.pxDelayedTaskList) :
    k.lists.xItemValue (.item x) ≤ k.lists.xItemValue (.item (xStateListItem t)) := by
  have hasc := h.ascending _ h.delayed_ordered.1
  unfold ListMemory.Ascending at hasc
  rw [hl, List.pairwise_cons] at hasc
  rw [hl] at ht
  rcases List.mem_cons.1 ht with ht | ht
  · rw [ht]
    exact UInt32.le_refl _
  · exact hasc.1 _ ht

/-- Only tasks are in `pxDelayedTaskList`, with their state items. -/
theorem delayed_item (h : TaskLists k L) {x : TcbItem τ} (hx : x ∈ L k.pxDelayedTaskList) :
    x = xStateListItem x.pvOwner := by
  cases x with
  | xStateListItem t => rfl
  | xEventListItem t =>
    have hplace : _ = _ ∨ ∃ n, _ = _ := h.place _ _ hx
    rcases h.delayed with ⟨h₁, -⟩ | ⟨h₁, -⟩
    · simp [h₁] at hplace
    · simp [h₁] at hplace

theorem set_next (h : TaskLists k L) (xNext : UInt32)
    (hnext : ∀ t, xStateListItem t ∈ L k.pxDelayedTaskList →
      xNext ≤ k.lists.xItemValue (.item (xStateListItem t))) :
    TaskLists { k with xNextTaskUnblockTime := xNext } L :=
  ⟨h.lists, h.delayed, h.priority, h.place, h.ready, h.ascending, h.event_value, hnext⟩

theorem prvResetNextTaskUnblockTime_eq [Fintype τ] (hcard : 2 * Fintype.card τ < 2 ^ 32) (h : TaskLists k L) :
    TaskLists (prvResetNextTaskUnblockTime k) L := by
  have hempty := h.lists.listLIST_IS_EMPTY_iff (lt_of_le_of_lt (h.lists.length_le_card k.pxDelayedTaskList) hcard)
  refine h.set_next _ fun t ht => ?_
  cases hl : L k.pxDelayedTaskList with
  | nil =>
    rw [hl] at ht
    cases ht
  | cons x l =>
    have hnext := h.lists.next_end k.pxDelayedTaskList
    rw [if_neg (by rw [hempty, hl]; simp), hnext, hl]
    exact h.head_le hl ht

/-- The times are the same in the lists that are switched when the tick count overflows. -/
theorem statusOf_switched (h : TaskLists k L) (h' : TaskLists k' L) (hlists : k'.lists = k.lists)
    (hdelayed : k'.pxDelayedTaskList = k.pxOverflowDelayedTaskList) (hnil : L k.pxDelayedTaskList = [])
    (hwrap : (now + 1) % 2 ^ 32 = 0) : k'.statusOf (now + 1) t = k.statusOf now t := by
  rcases hc : k.lists.pxContainer (xStateListItem t) with _ | i
  · unfold Kernel.statusOf
    simp only [hlists, hc]
  · have hi := (h.lists.container _ _).1 hc
    rcases h.place_state hi with rfl | rfl | rfl | rfl
    · rw [h.statusOf_ready hi, h'.statusOf_ready hi]
    · rw [hnil] at hi
      cases hi
    · rw [h.statusOf_overflow hi, h'.statusOf_delayed (hdelayed ▸ hi), hlists,
        show (now + 1) / 2 ^ 32 = now / 2 ^ 32 + 1 by omega]
    · rw [h.statusOf_suspended hi, h'.statusOf_suspended hi]

/-- When the tick count overflows, the list `pxDelayedTaskList` is empty, and the lists are switched. -/
theorem wrapTickCount_eq [Fintype τ] (hcard : 2 * Fintype.card τ < 2 ^ 32) (h : TaskLists k L) (hclock : k.Clock now)
    (hfuture : ∀ t w, k.statusOf now t = .delayed w → now < w) :
    ∃ k', wrapTickCount { k with xTickCount := k.xTickCount + 1 } = .ok k' ∧ TaskLists k' L ∧ k'.Clock (now + 1) ∧
      k'.schedule (now + 1) = { k.schedule now with now := now + 1 } ∧ k'.lists = k.lists ∧
      k'.uxPriority = k.uxPriority ∧ k'.uxCurrentNumberOfTasks = k.uxCurrentNumberOfTasks ∧ k'.pendSV = k.pendSV ∧
      k'.xYieldPending = k.xYieldPending ∧ k'.hook = k.hook := by
  obtain ⟨hcount, hoverflows⟩ := hclock
  have hsum : (k.xTickCount + 1).toNat = (now + 1) % 2 ^ 32 := by
    rw [UInt32.toNat_add, hcount]
    show (now % 2 ^ 32 + 1) % 2 ^ 32 = _
    omega
  unfold wrapTickCount
  by_cases h0 : k.xTickCount + 1 = 0
  · have hwrap : (now + 1) % 2 ^ 32 = 0 := by rw [← hsum, h0]; rfl
    have hempty := h.lists.listLIST_IS_EMPTY_iff (lt_of_le_of_lt (h.lists.length_le_card k.pxDelayedTaskList) hcard)
    have hnil : L k.pxDelayedTaskList = [] := by
      refine List.eq_nil_iff_forall_not_mem.2 fun x hx => ?_
      rw [h.delayed_item hx] at hx
      have hlt := hfuture _ _ (h.statusOf_delayed hx now)
      have hvalue := (k.lists.xItemValue (.item (xStateListItem x.pvOwner))).toNat_lt
      omega
    have h' : TaskLists { k with
        xTickCount := k.xTickCount + 1
        pxDelayedTaskList := k.pxOverflowDelayedTaskList
        pxOverflowDelayedTaskList := k.pxDelayedTaskList
        xNumOfOverflows := k.xNumOfOverflows + 1
        xNextTaskUnblockTime := 0 } L :=
      ⟨h.lists, h.delayed.symm.imp And.symm And.symm, h.priority, h.place, h.ready, h.ascending, h.event_value,
        fun _ _ => UInt32.zero_le⟩
    rw [if_pos h0]
    refine ⟨_, ?_, h'.prvResetNextTaskUnblockTime_eq hcard, ⟨hsum, ?_⟩, ?_, rfl, rfl, rfl, rfl, rfl, rfl⟩
    · unfold taskSWITCH_DELAYED_LISTS configASSERT
      rw [if_pos (hempty.2 hnil)]
      rfl
    · show k.xNumOfOverflows + 1 = _
      rw [hoverflows, show (now + 1) / 2 ^ 32 = now / 2 ^ 32 + 1 by omega, UInt32.ofNat_add]
      rfl
    · unfold Kernel.schedule
      rw [Schedule.mk.injEq]
      refine ⟨rfl, rfl, rfl, rfl, funext fun t => ?_, rfl⟩
      exact h.statusOf_switched (h'.prvResetNextTaskUnblockTime_eq hcard) rfl rfl hnil hwrap
  · have hwrap : (now + 1) % 2 ^ 32 ≠ 0 := by
      rw [← hsum]
      exact fun h' => h0 (UInt32.toNat_inj.1 h')
    rw [if_neg h0]
    refine ⟨_, rfl, h.congr rfl rfl rfl rfl rfl rfl, ⟨hsum, ?_⟩, ?_, rfl, rfl, rfl, rfl, rfl, rfl⟩
    · show k.xNumOfOverflows = _
      rw [hoverflows, show (now + 1) / 2 ^ 32 = now / 2 ^ 32 by omega]
    · unfold Kernel.schedule
      rw [Schedule.mk.injEq]
      refine ⟨rfl, rfl, rfl, rfl, funext fun t => ?_, rfl⟩
      unfold Kernel.statusOf
      rw [show (now + 1) / 2 ^ 32 = now / 2 ^ 32 by omega]

variable [DecidableEq τ]

/-- The loop of `xTaskIncrementTick` wakes the tasks that are due. -/
theorem unblockTasks_eq [Fintype τ] (hcard : 2 * Fintype.card τ < 2 ^ 32) {fuel : ℕ} (b : Bool) (h : TaskLists k L)
    (hfuel : (L k.pxDelayedTaskList).length < fuel) (hclock : k.xTickCount.toNat = now % 2 ^ 32) :
    ∃ k' b' L', unblockTasks fuel b k = .ok (k', b') ∧ Woken k k' L L' (fun u => (k.statusOf now u).due now) ∧
      k'.xYieldPending = k.xYieldPending ∧
      (b' = true ↔ b = true ∨
        ∃ u, (k.statusOf now u).due now = true ∧ k.uxPriority k.pxCurrentTCB < k.uxPriority u) := by
  induction fuel generalizing k L b with
  | zero => exact absurd hfuel (Nat.not_lt_zero _)
  | succ fuel ih =>
    have hempty := h.lists.listLIST_IS_EMPTY_iff (lt_of_le_of_lt (h.lists.length_le_card k.pxDelayedTaskList) hcard)
    rw [unblockTasks]
    cases hl : L k.pxDelayedTaskList with
    | nil =>
      have hnone : ∀ u, (k.statusOf now u).due now = false := by
        intro u
        rw [← Bool.not_eq_true, h.due_iff hclock, hl]
        simp
      rw [if_pos (hempty.2 hl)]
      refine ⟨_, b, L, rfl, Woken.of_lists (h.set_next _ ?_) hnone rfl (fun _ => rfl) rfl rfl ⟨rfl, rfl⟩ rfl rfl rfl, rfl,
        ?_⟩
      · intro t ht
        rw [hl] at ht
        cases ht
      · simp [hnone]
    | cons x l =>
      have hx : x ∈ L k.pxDelayedTaskList := by rw [hl]; exact List.mem_cons_self
      have hitem := h.delayed_item hx
      rw [if_neg (by rw [hempty, hl]; simp), h.lists.listGET_OWNER_OF_HEAD_ENTRY_eq hl]
      dsimp only [bind, Except.bind]
      rw [← hitem]
      by_cases hlt : k.xTickCount < k.lists.xItemValue (.item x)
      · -- the first of the list is not due, and so none is
        have hnone : ∀ u, (k.statusOf now u).due now = false := by
          intro u
          rw [← Bool.not_eq_true, h.due_iff hclock]
          rintro ⟨hu, hle⟩
          exact UInt32.not_le.2 hlt (UInt32.le_trans (h.head_le hl hu) hle)
        rw [if_pos hlt]
        refine ⟨_, b, L, rfl, Woken.of_lists (h.set_next _ fun u hu => h.head_le hl hu) hnone rfl (fun _ => rfl) rfl rfl
          ⟨rfl, rfl⟩ rfl rfl rfl, rfl, ?_⟩
        simp [hnone]
      · rw [if_neg hlt]
        have hmem : xStateListItem x.pvOwner ∈ L k.pxDelayedTaskList := hitem ▸ hx
        have hdue : (k.statusOf now x.pvOwner).due now = true := by
          rw [h.due_iff hclock, ← hitem]
          exact ⟨hx, UInt32.not_lt.1 hlt⟩
        obtain ⟨k₁, L₁, heq, hw, hyield, -⟩ := h.unblockTask_eq hmem fun p => (h.delayed_ne p).1
        have hstatus : ∀ u, k₁.statusOf now u = if u = x.pvOwner then .ready else k.statusOf now u := by
          intro u
          have hs := congrArg (fun s => s.status u) (hw.schedule now)
          simpa [Kernel.schedule, Schedule.wakeUp] using hs
        have hlength : (L₁ k₁.pxDelayedTaskList).length < fuel := by
          have hwoken : k₁.statusOf now x.pvOwner = .ready := by rw [hstatus, if_pos rfl]
          have hready := hw.lists.mem_of_ready hwoken
          rw [hw.delayed]
          have hnot : xStateListItem x.pvOwner ∉ L₁ k.pxDelayedTaskList :=
            fun hd => (h.delayed_ne _).1 (hw.lists.lists.eq_of_mem hd hready)
          have hsub := hw.sublist k.pxDelayedTaskList fun p => (h.delayed_ne p).1
          have hlt := lt_of_le_of_ne hsub.length_le fun heq => hnot ((hsub.eq_of_length heq) ▸ hmem)
          omega
        have hclock₁ : k₁.xTickCount.toNat = now % 2 ^ 32 := by rw [hw.clock.1, hclock]
        obtain ⟨k', b', L', heq', hw', hyield', hb'⟩ := ih (b ||
          decide (k₁.uxPriority k₁.pxCurrentTCB < k₁.uxPriority x.pvOwner)) hw.lists hlength hclock₁
        have hp : (fun u => decide (u = x.pvOwner) || (k₁.statusOf now u).due now) =
            fun u => (k.statusOf now u).due now := by
          funext u
          rw [hstatus]
          by_cases hu : u = x.pvOwner
          · rw [hu, hdue]
            simp
          · simp [hu]
        have hcurrent : k₁.pxCurrentTCB = k.pxCurrentTCB := congrArg Schedule.running (hw.schedule now)
        refine ⟨k', b', L', ?_, hp ▸ hw.trans hw', hyield'.trans hyield, ?_⟩
        · rw [heq]
          exact heq'
        · rw [hb', hw.priority, hcurrent, Bool.or_eq_true, decide_eq_true_eq, or_assoc]
          constructor
          · rintro (hb | hlt | ⟨u, hu, hlt⟩)
            · exact Or.inl hb
            · exact Or.inr ⟨x.pvOwner, hdue, hlt⟩
            · rw [hstatus] at hu
              split at hu
              · next hux => cases hu
              · exact Or.inr ⟨u, hu, hlt⟩
          · rintro (hb | ⟨u, hu, hlt⟩)
            · exact Or.inl hb
            · by_cases hux : u = x.pvOwner
              · rw [← hux]
                exact Or.inr (Or.inl hlt)
              · exact Or.inr (Or.inr ⟨u, by rw [hstatus, if_neg hux]; exact hu, hlt⟩)

theorem expireTimeouts_eq [Fintype τ] (hcard : 2 * Fintype.card τ < 2 ^ 32) {fuel : ℕ}
    (hfuel : 2 * Fintype.card τ < fuel) (h : TaskLists k L) (hclock : k.xTickCount.toNat = now % 2 ^ 32) :
    ∃ k' b L', expireTimeouts fuel k = .ok (k', b) ∧ Woken k k' L L' (fun u => (k.statusOf now u).due now) ∧
      k'.xYieldPending = k.xYieldPending ∧
      (b = true ↔ ∃ u, (k.statusOf now u).due now = true ∧ k.uxPriority k.pxCurrentTCB < k.uxPriority u) := by
  unfold expireTimeouts
  split
  · obtain ⟨k', b, L', heq, hw, hyield, hb⟩ := h.unblockTasks_eq hcard false
      (lt_of_le_of_lt (h.lists.length_le_card _) hfuel) hclock
    exact ⟨k', b, L', heq, hw, hyield, by simpa using hb⟩
  · next hnext =>
    have hnone : ∀ u, (k.statusOf now u).due now = false := by
      intro u
      rw [← Bool.not_eq_true, h.due_iff hclock]
      rintro ⟨hu, hle⟩
      exact hnext (UInt32.le_trans (h.unblock u hu) hle)
    refine ⟨k, false, L, rfl, Woken.of_lists h hnone rfl (fun _ => rfl) rfl rfl ⟨rfl, rfl⟩ rfl rfl rfl, rfl, ?_⟩
    simp [hnone]

end TaskLists

/-- The kernel after `n` more ticks. -/
structure Passed (k k' : Kernel τ β) (L L' : TaskList → List (TcbItem τ)) (now n : ℕ) : Prop where
  lists : TaskLists k' L'
  clock : k'.Clock (now + n)
  schedule : k'.schedule (now + n) = Schedule.pass^[n] (k.schedule now)
  onward : ∀ q x, Onward k.lists L k'.lists L' (pxReadyTasksLists q) x
  present : ∀ t, (∃ i, xStateListItem t ∈ L i) → ∃ i, xStateListItem t ∈ L' i
  priority : k'.uxPriority = k.uxPriority
  number : k'.uxCurrentNumberOfTasks = k.uxCurrentNumberOfTasks
  pendSV : k'.pendSV = k.pendSV

section Ticks

variable [DecidableEq τ] [Fintype τ] {k k' : Kernel τ β} {L L' : TaskList → List (TcbItem τ)} {now : ℕ}
  {fuel : ℕ} (vApplicationTickHook : β → β)

theorem xTaskIncrementTick_eq (hcard : 2 * Fintype.card τ < 2 ^ 32) (hfuel : 2 * Fintype.card τ < fuel)
    (h : TaskLists k L) (hclock : k.Clock now) (hfuture : ∀ t w, k.statusOf now t = .delayed w → now < w)
    (hrunning : k.uxSchedulerSuspended = 0) :
    ∃ k' b L', xTaskIncrementTick vApplicationTickHook fuel k = .ok (k', b) ∧ Passed k k' L L' now 1 ∧
      k'.xYieldPending = k.xYieldPending ∧
      k'.hook = (if k.xPendedTicks = 0 then vApplicationTickHook k.hook else k.hook) ∧
      (b = true ↔ k.xYieldPending = true ∨
        ∃ u, (k.statusOf now u).due (now + 1) = true ∧ k.uxPriority k.pxCurrentTCB < k.uxPriority u) := by
  obtain ⟨k₁, heq₁, h₁, hclock₁, hs₁, hlists₁, hprio₁, hnumber₁, hpend₁, hyield₁, hhook₁⟩ :=
    h.wrapTickCount_eq hcard hclock hfuture
  obtain ⟨k₂, b, L', heq₂, hw, hyield₂, hb⟩ := h₁.expireTimeouts_eq hcard hfuel hclock₁.1
  have hstatus : ∀ u, k₁.statusOf (now + 1) u = k.statusOf now u := congrFun (congrArg Schedule.status hs₁)
  have hcurrent : k₁.pxCurrentTCB = k.pxCurrentTCB := congrArg Schedule.running hs₁
  have hheld₁ : k₁.xPendedTicks = k.xPendedTicks := UInt32.toNat_inj.1 (congrArg Schedule.held hs₁)
  have hheld₂ : k₂.xPendedTicks = k.xPendedTicks := by
    rw [← hheld₁]
    exact UInt32.toNat_inj.1 (congrArg Schedule.held (hw.schedule 0))
  have hcall : xTaskIncrementTick vApplicationTickHook fuel k =
      .ok (callTickHook vApplicationTickHook k₂, b || k₂.xYieldPending) := by
    unfold xTaskIncrementTick
    rw [if_pos hrunning, heq₁]
    dsimp only [bind, Except.bind]
    rw [heq₂]
    rfl
  have hpass : k₂.schedule (now + 1) = (k.schedule now).pass := by
    rw [hw.schedule, hs₁]
    simp only [hstatus]
    rfl
  refine ⟨_, _, L', hcall, ?_, ?_, ?_, ?_⟩
  · have honward : ∀ q x, Onward k.lists L k₂.lists L' (pxReadyTasksLists q) x := by
      rw [← hlists₁]
      exact hw.onward
    unfold callTickHook
    split
    · exact ⟨hw.lists.congr rfl rfl rfl rfl rfl rfl, ⟨hw.clock.1 ▸ hclock₁.1, hw.clock.2 ▸ hclock₁.2⟩, hpass, honward,
        hw.present, hw.priority.trans hprio₁, hw.number.trans hnumber₁, hw.pendSV.trans hpend₁⟩
    · exact ⟨hw.lists, ⟨hw.clock.1 ▸ hclock₁.1, hw.clock.2 ▸ hclock₁.2⟩, hpass, honward, hw.present,
        hw.priority.trans hprio₁, hw.number.trans hnumber₁, hw.pendSV.trans hpend₁⟩
  · unfold callTickHook
    split
    · exact hyield₂.trans hyield₁
    · exact hyield₂.trans hyield₁
  · unfold callTickHook
    rw [hheld₂]
    split
    · show vApplicationTickHook k₂.hook = _
      rw [hw.hook, hhook₁]
    · rw [hw.hook, hhook₁]
  · rw [Bool.or_eq_true, hb, hyield₂, hyield₁, hprio₁, hcurrent, or_comm]
    simp only [hstatus]

end Ticks

end LcdKeypad
