import LcdKeypad.TaskStates

/-!
# Tasks that become ready, and the running task that blocks

How the lists of the kernel change when an item is moved from one to another, and what that is in the schedule.
-/

namespace LcdKeypad

open TimedSchedule BitSet TaskList TcbItem

variable {τ β : Type}

/-- The tasks of `p` become ready, and nobody gets ahead of a task that is ready already. -/
structure Woken (k k' : Kernel τ β) (L L' : TaskList → List (TcbItem τ)) (p : τ → Bool) : Prop where
  lists : TaskLists k' L'
  schedule : ∀ now, k'.schedule now = (k.schedule now).wakeUp p
  onward : ∀ q x, Onward k.lists L k'.lists L' (pxReadyTasksLists q) x
  sublist : ∀ i, (∀ q, i ≠ pxReadyTasksLists q) → (L' i).Sublist (L i)
  present : ∀ t, (∃ i, xStateListItem t ∈ L i) → ∃ i, xStateListItem t ∈ L' i
  priority : k'.uxPriority = k.uxPriority
  number : k'.uxCurrentNumberOfTasks = k.uxCurrentNumberOfTasks
  clock : k'.xTickCount = k.xTickCount ∧ k'.xNumOfOverflows = k.xNumOfOverflows
  delayed : k'.pxDelayedTaskList = k.pxDelayedTaskList
  pendSV : k'.pendSV = k.pendSV
  hook : k'.hook = k.hook

theorem Woken.trans {k k₁ k' : Kernel τ β} {L L₁ L' : TaskList → List (TcbItem τ)} {p q : τ → Bool}
    (h : Woken k k₁ L L₁ p) (h' : Woken k₁ k' L₁ L' q) : Woken k k' L L' (fun t => p t || q t) where
  lists := h'.lists
  schedule := fun now => by rw [h'.schedule, h.schedule, Schedule.wakeUp_wakeUp]
  onward := fun r x => (h.onward r x).trans (h'.onward r x)
  sublist := fun i hi => (h'.sublist i hi).trans (h.sublist i hi)
  present := fun t ht => h'.present t (h.present t ht)
  priority := h'.priority.trans h.priority
  number := h'.number.trans h.number
  clock := ⟨h'.clock.1.trans h.clock.1, h'.clock.2.trans h.clock.2⟩
  delayed := h'.delayed.trans h.delayed
  pendSV := h'.pendSV.trans h.pendSV
  hook := h'.hook.trans h.hook

/-- Nobody becomes ready, and the lists stay as they are. -/
theorem Woken.of_lists {k k' : Kernel τ β} {L : TaskList → List (TcbItem τ)} {p : τ → Bool} (h : TaskLists k' L)
    (hp : ∀ t, p t = false) (hlists : k'.lists = k.lists) (hschedule : ∀ now, k'.schedule now = k.schedule now)
    (hprio : k'.uxPriority = k.uxPriority) (hnumber : k'.uxCurrentNumberOfTasks = k.uxCurrentNumberOfTasks)
    (hclock : k'.xTickCount = k.xTickCount ∧ k'.xNumOfOverflows = k.xNumOfOverflows)
    (hdelayed : k'.pxDelayedTaskList = k.pxDelayedTaskList) (hpend : k'.pendSV = k.pendSV) (hhook : k'.hook = k.hook) :
    Woken k k' L L p where
  lists := h
  schedule := fun now => by
    rw [hschedule, show p = fun _ => false from funext hp]
    rfl
  onward := fun q x => by
    rw [hlists]
    exact Onward.refl _ _ _ _
  sublist := fun i _ => List.Sublist.refl _
  present := fun t ht => ht
  priority := hprio
  number := hnumber
  clock := hclock
  delayed := hdelayed
  pendSV := hpend
  hook := hhook

theorem bit_toBitVec {p : UInt32} (hp : p.toNat < 32) : ((1 : UInt32) <<< p).toBitVec = 1#32 <<< p.toNat := by
  have hmod : p.toNat % 32 = p.toNat := Nat.mod_eq_of_lt hp
  rw [UInt32.toBitVec_shiftLeft, BitVec.shiftLeft_eq', BitVec.toNat_umod]
  simp [hmod]

variable [DecidableEq τ]

namespace TaskLists

variable {k k' : Kernel τ β} {L L' : TaskList → List (TcbItem τ)} {now : ℕ} {t : τ} {m : ListMemory TaskList (TcbItem τ)}
  {x : TcbItem τ} {i : TaskList}

/-- An item leaves a list of tasks that are not ready. -/
theorem removed (h : TaskLists k L) (hm : Lists m L') (hr : Removed k.lists m L L' x)
    (hx : ∀ t, x = xStateListItem t → xStateListItem t ∉ L (pxReadyTasksLists (k.uxPriority t))) :
    TaskLists { k with lists := m } L' where
  lists := hm
  delayed := h.delayed
  priority := h.priority
  place := fun y j hy => h.place y j ((hr.mem y j).1 hy).1
  ready := by
    intro b
    rw [h.ready b]
    constructor
    · rintro ⟨t, ht, hb⟩
      exact ⟨t, (hr.mem _ _).2 ⟨ht, fun htx => hx t htx.symm ht⟩, hb⟩
    · rintro ⟨t, ht, hb⟩
      exact ⟨t, ((hr.mem _ _).1 ht).1, hb⟩
  ascending := by
    intro j hj
    have hsub := (h.ascending j hj).sublist (hr.sublist j)
    unfold ListMemory.Ascending
    rw [hr.value]
    exact hsub
  event_value := by
    rw [hr.value]
    exact h.event_value
  unblock := by
    intro t ht
    rw [hr.value]
    exact h.unblock t ((hr.mem _ _).1 ht).1

/-- An item enters a list of tasks that are not ready. -/
theorem inserted (h : TaskLists k L) (hm : Lists m L') (hi : Inserted k.lists m L L' x i)
    (hplace : x.MayBeIn k.uxPriority i) (hnot : ∀ p, i ≠ pxReadyTasksLists p)
    (hascending : i.Ordered → m.Ascending (L' i))
    (hnext : ∀ t, x = xStateListItem t → i = k.pxDelayedTaskList →
      k.xNextTaskUnblockTime ≤ m.xItemValue (.item (xStateListItem t))) :
    TaskLists { k with lists := m } L' where
  lists := hm
  delayed := h.delayed
  priority := h.priority
  place := by
    intro y j hy
    rcases (hi.mem y j).1 hy with hy | ⟨rfl, rfl⟩
    · exact h.place y j hy
    · exact hplace
  ready := by
    intro b
    have hsame : ∀ p, L' (pxReadyTasksLists p) = L (pxReadyTasksLists p) := fun p => hi.other _ (hnot p).symm
    simp only [hsame]
    exact h.ready b
  ascending := by
    intro j hj
    by_cases hji : j = i
    · subst hji
      exact hascending hj
    · have hasc := h.ascending j hj
      unfold ListMemory.Ascending at hasc ⊢
      rw [hi.other j hji, hi.value]
      exact hasc
  event_value := by
    rw [hi.value]
    exact h.event_value
  unblock := by
    intro t ht
    rcases (hi.mem _ _).1 ht with ht | ⟨hx, hd⟩
    · rw [hi.value]
      exact h.unblock t ht
    · exact hnext t hx.symm hd.symm

theorem prvAddTaskToReadyList_eq (h : TaskLists k L) (ht : ∀ i, xStateListItem t ∉ L i) :
    ∃ L', TaskLists (prvAddTaskToReadyList t k) L' ∧
      Inserted k.lists (prvAddTaskToReadyList t k).lists L L' (xStateListItem t) (pxReadyTasksLists (k.uxPriority t)) ∧
      ∀ p x, Onward k.lists L (prvAddTaskToReadyList t k).lists L' (pxReadyTasksLists p) x := by
  obtain ⟨L', hlists, hi, hindex⟩ := h.lists.vListInsertEnd_eq ht (pxReadyTasksLists (k.uxPriority t))
  have hprio := h.uxPriority_lt t
  refine ⟨L', ⟨hlists, h.delayed, h.priority, fun y j hy => ?_, fun b => ?_, fun j hj => ?_, h.event_value,
    fun u hu => ?_⟩, hi, fun p x => ?_⟩
  · rcases (hi.mem y j).1 hy with hy | ⟨rfl, rfl⟩
    · exact h.place y j hy
    · exact Or.inl rfl
  · have hbits : members (prvAddTaskToReadyList t k).uxTopReadyPriority.toBitVec =
        insert (k.uxPriority t).toNat (members k.uxTopReadyPriority.toBitVec) := by
      show members (portRECORD_READY_PRIORITY _ _).toBitVec = _
      unfold portRECORD_READY_PRIORITY
      rw [UInt32.toBitVec_or, bit_toBitVec (by omega), members_or_one_shiftLeft _ (by omega)]
    rw [hbits, Set.mem_insert_iff, h.ready b]
    constructor
    · rintro (rfl | ⟨u, hu, hb⟩)
      · exact ⟨t, (hi.mem _ _).2 (Or.inr ⟨rfl, rfl⟩), rfl⟩
      · exact ⟨u, (hi.mem _ _).2 (Or.inl hu), hb⟩
    · rintro ⟨u, hu, hb⟩
      rcases (hi.mem _ _).1 hu with hu | ⟨hut, -⟩
      · exact Or.inr ⟨u, hu, hb⟩
      · cases hut
        exact Or.inl hb.symm
  · have hasc := h.ascending j hj
    have hne : j ≠ pxReadyTasksLists (k.uxPriority t) := by
      rintro rfl
      exact hj
    rw [hi.other j hne]
    exact hasc
  · rcases (hi.mem _ _).1 hu with hu | ⟨-, hd⟩
    · exact h.unblock u hu
    · exact absurd hd (h.delayed_ne _).1
  · by_cases hp : p = k.uxPriority t
    · subst hp
      exact Onward.of_insertEnd hindex
    · exact hi.onward (by simpa using hp)

/-! ### Waking up -/

theorem schedule_eq_wakeUp (hcurrent : k'.pxCurrentTCB = k.pxCurrentTCB) (hpended : k'.xPendedTicks = k.xPendedTicks)
    (hsuspended : k'.uxSchedulerSuspended = k.uxSchedulerSuspended)
    (hdelayed : k'.pxDelayedTaskList = k.pxDelayedTaskList)
    (hoverflow : k'.pxOverflowDelayedTaskList = k.pxOverflowDelayedTaskList)
    (hvalue : k'.lists.xItemValue = k.lists.xItemValue)
    (hcontainer : ∀ y, y.pvOwner ≠ t → k'.lists.pxContainer y = k.lists.pxContainer y) {p : UInt32}
    (hready : k'.lists.pxContainer (xStateListItem t) = some (pxReadyTasksLists p))
    (hnothing : k'.lists.pxContainer (xEventListItem t) = none) (now : ℕ) :
    k'.schedule now = (k.schedule now).wakeUp fun u => decide (u = t) := by
  unfold Kernel.schedule Schedule.wakeUp
  rw [Schedule.mk.injEq]
  refine ⟨hcurrent, rfl, by rw [hpended], by rw [hsuspended], funext fun u => ?_, funext fun u => ?_⟩
  · by_cases hu : u = t
    · subst hu
      simp [Kernel.statusOf, hready]
    · simp only [hu, decide_false, Bool.false_eq_true, if_false]
      unfold Kernel.statusOf
      rw [hcontainer (xStateListItem u) hu, hdelayed, hoverflow, hvalue]
  · by_cases hu : u = t
    · subst hu
      simp [Kernel.waitOf, hnothing]
    · simp only [hu, decide_false, Bool.false_eq_true, if_false]
      unfold Kernel.waitOf
      rw [hcontainer (xEventListItem u) hu]

theorem uxListRemove_eq (h : TaskLists k L) (hx : x ∈ L i) (hi : ∀ p, i ≠ pxReadyTasksLists p) :
    ∃ m n L', uxListRemove x k.lists = .ok (m, n) ∧ TaskLists { k with lists := m } L' ∧
      Removed k.lists m L L' x ∧ ∀ q y, Onward k.lists L m L' (pxReadyTasksLists q) y := by
  obtain ⟨m, L', heq, hm, hr⟩ := h.lists.uxListRemove_eq hx
  refine ⟨m, _, L', heq, h.removed hm hr fun t ht hready => ?_, hr, fun q y N n hn => ?_⟩
  · subst ht
    exact hi _ (h.lists.eq_of_mem hx hready)
  · have hyx : y ≠ x := by
      rintro rfl
      exact hi q (h.lists.eq_of_mem hx hn.mem)
    exact hr.onward hyx N n hn

theorem removeIfContained_eq (h : TaskLists k L) (t : τ) :
    ∃ m L', removeIfContained (xEventListItem t) k.lists = .ok m ∧ TaskLists { k with lists := m } L' ∧
      Removed k.lists m L L' (xEventListItem t) ∧ ∀ q y, Onward k.lists L m L' (pxReadyTasksLists q) y := by
  unfold removeIfContained
  split
  · next hc =>
    obtain ⟨i, hi⟩ := Option.ne_none_iff_exists'.1 hc
    have ht := (h.lists.container _ _).1 hi
    have hplace : i = _ ∨ ∃ n, i = _ := h.place _ _ ht
    obtain ⟨m, n, L', heq, hm⟩ := h.uxListRemove_eq ht (by rcases hplace with rfl | ⟨n, rfl⟩ <;> simp)
    exact ⟨m, L', by rw [heq]; rfl, hm⟩
  · next hc =>
    rw [not_not] at hc
    have hnot : ∀ i, xEventListItem t ∉ L i := by
      intro i hi
      rw [(h.lists.container _ _).2 hi] at hc
      cases hc
    refine ⟨k.lists, L, rfl, h, ⟨fun y j => ?_, fun j => List.Sublist.refl _, rfl, ?_, fun hs => ?_⟩,
      fun q y => Onward.refl _ _ _ _⟩
    · constructor
      · intro hy
        exact ⟨hy, fun hyt => hnot j (hyt ▸ hy)⟩
      · intro hy
        exact hy.1
    · rw [← hc, Function.update_eq_self]
    · have hmem := hs.1 ▸ hnot _
      rw [List.mem_append, not_or] at hmem
      rw [List.erase_of_not_mem hmem.1, List.erase_of_not_mem hmem.2]
      exact hs

/-- The task `t` is in no list any more and becomes ready. -/
theorem wake_of_removed (h₀ : TaskLists k L) (h : TaskLists { k with lists := m } L') (hS : ∀ i, xStateListItem t ∉ L' i)
    (hE : ∀ i, xEventListItem t ∉ L' i) (hvalue : m.xItemValue = k.lists.xItemValue)
    (hcontainer : ∀ y, y.pvOwner ≠ t → m.pxContainer y = k.lists.pxContainer y)
    (hsub : ∀ i, (L' i).Sublist (L i)) (honward : ∀ q x, Onward k.lists L m L' (pxReadyTasksLists q) x) :
    ∃ L'', Woken k (prvAddTaskToReadyList t { k with lists := m }) L L'' (fun u => decide (u = t)) := by
  obtain ⟨L'', h', hi, honward'⟩ := h.prvAddTaskToReadyList_eq hS
  refine ⟨L'', h', fun now => ?_, fun q x => (honward q x).trans (honward' q x), fun i hne => ?_, fun u hu => ?_, rfl,
    rfl, ⟨rfl, rfl⟩, rfl, rfl, rfl⟩
  · refine schedule_eq_wakeUp ?_ ?_ ?_ ?_ ?_ (hi.value.trans hvalue) (fun y hy => ?_) (p := k.uxPriority t) ?_ ?_ now
    iterate 5 rfl
    · have hyt : y ≠ xStateListItem t := by
        rintro rfl
        exact hy rfl
      rw [hi.container, Function.update_of_ne hyt]
      exact hcontainer y hy
    · rw [hi.container, Function.update_self]
    · rw [hi.container, Function.update_of_ne (by simp)]
      rcases hc : m.pxContainer (xEventListItem t) with _ | i
      · rfl
      · exact absurd ((h.lists.container _ _).1 hc) (hE i)
  · rw [hi.other i (hne _)]
    exact hsub i
  · by_cases hut : u = t
    · subst hut
      exact ⟨_, (hi.mem _ _).2 (Or.inr ⟨rfl, rfl⟩)⟩
    · obtain ⟨i, hui⟩ := hu
      have hc := (h₀.lists.container _ _).2 hui
      rw [← hcontainer (xStateListItem u) hut] at hc
      exact ⟨i, (hi.mem _ _).2 (Or.inl ((h.lists.container _ _).1 hc))⟩

theorem unblockTask_eq (h : TaskLists k L) (ht : xStateListItem t ∈ L i) (hi : ∀ p, i ≠ pxReadyTasksLists p) :
    ∃ k' L', unblockTask t k = .ok k' ∧ Woken k k' L L' (fun u => decide (u = t)) ∧
      k'.xYieldPending = k.xYieldPending ∧ k'.xNextTaskUnblockTime = k.xNextTaskUnblockTime := by
  obtain ⟨m₁, n, L₁, heq₁, h₁, hr₁, honward₁⟩ := h.uxListRemove_eq ht hi
  obtain ⟨m₂, L₂, heq₂, h₂, hr₂, honward₂⟩ := h₁.removeIfContained_eq t
  obtain ⟨L', hw⟩ := wake_of_removed h h₂
    (fun j hj => ((hr₁.mem _ _).1 ((hr₂.mem _ _).1 hj).1).2 rfl) (fun j hj => ((hr₂.mem _ _).1 hj).2 rfl)
    (hr₂.value.trans hr₁.value) (fun y hy => by
      have hyS : y ≠ xStateListItem t := fun hyt => hy (by rw [hyt]; rfl)
      have hyE : y ≠ xEventListItem t := fun hyt => hy (by rw [hyt]; rfl)
      rw [hr₂.container, Function.update_of_ne hyE, hr₁.container, Function.update_of_ne hyS])
    (fun j => (hr₂.sublist j).trans (hr₁.sublist j)) (fun q x => (honward₁ q x).trans (honward₂ q x))
  refine ⟨_, L', ?_, hw, rfl, rfl⟩
  unfold unblockTask
  rw [heq₁]
  dsimp only [bind, Except.bind]
  rw [heq₂]
  rfl

end TaskLists

end LcdKeypad
