import LcdKeypad.TaskBlock

/-!
# Waiting for an event, and the task that runs

A task that waits for an event is in the list of the event, in the order of the priorities, and
`xTaskRemoveFromEventList` takes the first one out.  `vTaskSwitchContext` selects the task that runs.
-/

namespace LcdKeypad

open TimedSchedule BitSet TaskList TcbItem

variable {τ β : Type} {k k' : Kernel τ β} {L L' : TaskList → List (TcbItem τ)} {now : ℕ} {t : τ}

namespace TaskLists

/-- The list of an event holds tasks only by their event items. -/
theorem event_item (h : TaskLists k L) {n : ℕ} {x : TcbItem τ} (hx : x ∈ L (xEventList n)) :
    x = xEventListItem x.pvOwner := by
  cases x with
  | xStateListItem u =>
    have hplace : _ = _ ∨ _ = _ ∨ _ = _ ∨ _ = _ := h.place _ _ hx
    simp at hplace
  | xEventListItem u => rfl

/-- The lists of events are in the order of the priorities. -/
theorem event_priority (h : TaskLists k L) (n : ℕ) :
    (L (xEventList n)).Pairwise fun x y => k.uxPriority y.pvOwner ≤ k.uxPriority x.pvOwner := by
  have hasc := h.ascending (xEventList n) trivial
  refine List.Pairwise.imp_of_mem (fun {x y} hx hy hle => ?_) hasc
  have hx' := h.uxPriority_lt x.pvOwner
  have hy' := h.uxPriority_lt y.pvOwner
  have hmax : configMAX_PRIORITIES.toNat = 5 := rfl
  rw [h.event_item hx, h.event_item hy, h.event_value, h.event_value, UInt32.le_iff_toNat_le,
    UInt32.toNat_sub_of_le _ _ (UInt32.le_iff_toNat_le.2 (by omega)),
    UInt32.toNat_sub_of_le _ _ (UInt32.le_iff_toNat_le.2 (by omega))] at hle
  rw [UInt32.le_iff_toNat_le]
  omega

/-- The first in the list of an event has the highest priority. -/
theorem first_of_event (h : TaskLists k L) {n : ℕ} {l : List (TcbItem τ)}
    (hl : L (xEventList n) = xEventListItem t :: l) {u : τ} (hu : k.waitOf u = .event n) :
    k.uxPriority u ≤ k.uxPriority t := by
  have hsorted := h.event_priority n
  rw [h.waitOf_event_iff, hl] at hu
  rw [hl, List.pairwise_cons] at hsorted
  rcases List.mem_cons.1 hu with hu | hu
  · cases hu
    exact UInt32.le_refl _
  · exact hsorted.1 _ hu

variable [DecidableEq τ]

variable (now) in
/-- The event item of a task enters the list of an event. -/
theorem inserted_event (h : TaskLists k L) {m : ListMemory TaskList (TcbItem τ)} {n : ℕ} (hm : Lists m L')
    (hins : Inserted k.lists m L L' (xEventListItem t) (xEventList n)) (hasc : m.Ascending (L' (xEventList n))) :
    TaskLists { k with lists := m } L' ∧ (∀ u, { k with lists := m }.statusOf now u = k.statusOf now u) ∧
      (∀ u, { k with lists := m }.waitOf u = if u = t then .event n else k.waitOf u) ∧
      (∀ q x, Onward k.lists L m L' (pxReadyTasksLists q) x) ∧
      ∀ u, (∃ i, xStateListItem u ∈ L i) → ∃ i, xStateListItem u ∈ L' i := by
  refine ⟨h.inserted hm hins (Or.inr ⟨n, rfl⟩) (by simp) (fun _ => hasc) (fun u hu => by cases hu), fun u => ?_,
    fun u => ?_, fun q x => hins.onward (by simp), fun u ⟨i, hi⟩ => ⟨i, (hins.mem _ _).2 (Or.inl hi)⟩⟩
  · unfold Kernel.statusOf
    rw [hins.container, Function.update_of_ne (by simp), hins.value]
  · unfold Kernel.waitOf
    rw [hins.container]
    by_cases hu : u = t
    · simp [hu]
    · rw [Function.update_of_ne (by simpa using hu), if_neg hu]

/-- The running task enters the list of an event, and then blocks. -/
theorem blocked_on_event [Fintype τ] (hcard : 2 * Fintype.card τ < 2 ^ 32) {fuel : ℕ}
    (hfuel : 2 * Fintype.card τ < fuel) (h : TaskLists k L) (hclock : k.xTickCount.toNat = now % 2 ^ 32)
    (hready : k.statusOf now k.pxCurrentTCB = .ready) {m : ListMemory TaskList (TcbItem τ)} {n : ℕ} (hm : Lists m L')
    (hins : Inserted k.lists m L L' (xEventListItem k.pxCurrentTCB) (xEventList n))
    (hasc : m.Ascending (L' (xEventList n))) (xTicks : UInt32) (b : Bool) :
    ∃ k' L'', prvAddCurrentTaskToDelayedList fuel xTicks b { k with lists := m } = .ok k' ∧ Blocked k k' L L'' now
      (if xTicks = portMAX_DELAY ∧ b = true then .suspended else .delayed (now + xTicks.toNat)) (.event n) := by
  obtain ⟨h₁, hstatus, hwait, honward, hpresent⟩ := h.inserted_event now hm hins hasc
  obtain ⟨k', L'', heq, hb⟩ := h₁.prvAddCurrentTaskToDelayedList_eq hcard hfuel hclock ((hstatus _).trans hready)
    xTicks b
  refine ⟨k', L'', heq, SameTasks.trans ⟨_, _, _, rfl⟩ hb.same, hb.lists, fun u => ?_, fun u => ?_, fun q x hx => ?_,
    fun u hu hp => hb.present u hu (hpresent u hp), hb.current⟩
  · rw [hb.status, hstatus]
  · have hw := hb.wait u
    rw [hwait, hwait] at hw
    by_cases hu : u = k.pxCurrentTCB
    · simpa [hu] using hw
    · simpa [hu] using hw
  · exact (honward q x).trans (hb.onward q x hx)

theorem vTaskPlaceOnEventList_eq [Fintype τ] (hcard : 2 * Fintype.card τ < 2 ^ 32) {fuel : ℕ}
    (hfuel : 2 * Fintype.card τ < fuel) (h : TaskLists k L) (hclock : k.xTickCount.toNat = now % 2 ^ 32)
    (hready : k.statusOf now k.pxCurrentTCB = .ready) (hwait : k.waitOf k.pxCurrentTCB = .nothing) (n : ℕ)
    (xTicks : UInt32) :
    ∃ k' L', vTaskPlaceOnEventList fuel n xTicks k = .ok k' ∧ Blocked k k' L L' now
      (if xTicks = portMAX_DELAY then .suspended else .delayed (now + xTicks.toNat)) (.event n) := by
  obtain ⟨m, L₁, heq, hm, hins, hasc⟩ := h.lists.vListInsert_eq (h.waitOf_nothing_iff.1 hwait) (xEventList n)
    (lt_of_le_of_lt (h.lists.length_le_card _) hfuel)
  have hsorted : m.Ascending (L₁ (xEventList n)) := by
    have hs := hasc (h.ascending (xEventList n) trivial)
    unfold ListMemory.Ascending
    rw [hins.value]
    exact hs
  obtain ⟨k', L', heq', hb⟩ := h.blocked_on_event hcard hfuel hclock hready hm hins hsorted xTicks true
  refine ⟨k', L', ?_, by simpa using hb⟩
  unfold vTaskPlaceOnEventList
  rw [heq]
  exact heq'

/-- The list of the event has to be empty, so that its order does not matter. -/
theorem vTaskPlaceOnEventListRestricted_eq [Fintype τ] (hcard : 2 * Fintype.card τ < 2 ^ 32) {fuel : ℕ}
    (hfuel : 2 * Fintype.card τ < fuel) (h : TaskLists k L) (hclock : k.xTickCount.toNat = now % 2 ^ 32)
    (hready : k.statusOf now k.pxCurrentTCB = .ready) (hwait : k.waitOf k.pxCurrentTCB = .nothing) {n : ℕ}
    (hempty : listLIST_IS_EMPTY (xEventList n) k.lists) (xTicks : UInt32) (b : Bool) :
    ∃ k' L', vTaskPlaceOnEventListRestricted fuel n xTicks b k = .ok k' ∧ Blocked k k' L L' now
      (if b then .suspended else .delayed (now + xTicks.toNat)) (.event n) := by
  obtain ⟨L₁, hm, hins, -⟩ := h.lists.vListInsertEnd_eq (h.waitOf_nothing_iff.1 hwait) (xEventList n)
  have hnil := (h.lists.listLIST_IS_EMPTY_iff (lt_of_le_of_lt (h.lists.length_le_card _) hcard)).1 hempty
  have honly : ∀ y ∈ L₁ (xEventList n), y = xEventListItem k.pxCurrentTCB := by
    intro y hy
    rcases (hins.mem _ _).1 hy with hy | ⟨rfl, -⟩
    · rw [hnil] at hy
      cases hy
    · rfl
  have hsorted : (vListInsertEnd (xEventList n) (xEventListItem k.pxCurrentTCB) k.lists).Ascending
      (L₁ (xEventList n)) := by
    refine List.pairwise_of_forall_mem_list fun x hx y hy => ?_
    rw [honly x hx, honly y hy]
    exact UInt32.le_refl _
  obtain ⟨k', L', heq, hb⟩ := h.blocked_on_event hcard hfuel hclock hready hm hins hsorted
    (if b then portMAX_DELAY else xTicks) b
  refine ⟨k', L', heq, ?_⟩
  cases b with
  | true => simpa using hb
  | false => simpa using hb

/-! ### The event comes -/

variable (now) in
/-- While the scheduler is suspended, the task of an event goes to `xPendingReadyList`. -/
theorem pending_eq (h : TaskLists k L) {i : TaskList} (ht : xEventListItem t ∈ L i) :
    ∃ m n L', uxListRemove (xEventListItem t) k.lists = .ok (m, n) ∧
      TaskLists { k with lists := vListInsertEnd xPendingReadyList (xEventListItem t) m } L' ∧
      (∀ u, { k with lists := vListInsertEnd xPendingReadyList (xEventListItem t) m }.statusOf now u =
        k.statusOf now u) ∧
      (∀ u, { k with lists := vListInsertEnd xPendingReadyList (xEventListItem t) m }.waitOf u =
        if u = t then .signalled else k.waitOf u) ∧
      (∀ q x, Onward k.lists L (vListInsertEnd xPendingReadyList (xEventListItem t) m) L' (pxReadyTasksLists q) x) ∧
      ∀ u, (∃ i, xStateListItem u ∈ L i) → ∃ i, xStateListItem u ∈ L' i := by
  have hplace : i = _ ∨ ∃ n, i = _ := h.place _ _ ht
  obtain ⟨m, n, L₁, heq, h₁, hr, honward⟩ := h.uxListRemove_eq ht (by rcases hplace with rfl | ⟨n, rfl⟩ <;> simp)
  obtain ⟨L', hm, hins, -⟩ := h₁.lists.vListInsertEnd_eq (x := xEventListItem t)
    (fun j hj => ((hr.mem _ _).1 hj).2 rfl) xPendingReadyList
  refine ⟨m, n, L', heq, h₁.inserted hm hins (Or.inl rfl) (by simp) (fun hordered => absurd hordered id)
    (fun u hu => by cases hu), fun u => ?_, fun u => ?_, fun q x => (honward q x).trans (hins.onward (by simp)),
    fun u ⟨j, hj⟩ => ⟨j, (hins.mem _ _).2 (Or.inl ((hr.mem _ _).2 ⟨hj, by simp⟩))⟩⟩
  · unfold Kernel.statusOf
    dsimp only
    rw [hins.container, Function.update_of_ne (by simp), hr.container, Function.update_of_ne (by simp), hins.value,
      hr.value]
  · unfold Kernel.waitOf
    dsimp only
    rw [hins.container]
    by_cases hu : u = t
    · simp [hu]
    · have hne : xEventListItem u ≠ xEventListItem t := by simpa using hu
      rw [Function.update_of_ne hne, hr.container, Function.update_of_ne hne, if_neg hu]

theorem xTaskRemoveFromEventList_eq [Fintype τ] (hcard : 2 * Fintype.card τ < 2 ^ 32) (h : TaskLists k L)
    (hpresent : ∀ u, ∃ i, xStateListItem u ∈ L i) (hwait : ∀ u, k.waitOf u ≠ .nothing → k.statusOf now u ≠ .ready)
    {n : ℕ} (hempty : ¬ listLIST_IS_EMPTY (xEventList n) k.lists) :
    ∃ k' b t L', xTaskRemoveFromEventList n k = .ok (k', b) ∧ k.waitOf t = .event n ∧
      (∀ u, k.waitOf u = .event n → k.uxPriority u ≤ k.uxPriority t) ∧
      (∃ m top y, k' = { k with lists := m, uxTopReadyPriority := top, xYieldPending := y }) ∧ TaskLists k' L' ∧
      k'.schedule now = (k.schedule now).signal t ∧
      (∀ q x, Onward k.lists L k'.lists L' (pxReadyTasksLists q) x) ∧ (∀ u, ∃ i, xStateListItem u ∈ L' i) ∧
      Flagged k k' now now := by
  rw [h.lists.listLIST_IS_EMPTY_iff (lt_of_le_of_lt (h.lists.length_le_card _) hcard)] at hempty
  obtain ⟨x, l, hl⟩ := List.exists_cons_of_ne_nil hempty
  have hx : x ∈ L (xEventList n) := by rw [hl]; exact List.mem_cons_self
  obtain ⟨t, rfl⟩ : ∃ t, x = xEventListItem t := ⟨_, h.event_item hx⟩
  have ht := h.waitOf_event_iff.2 hx
  have hnot : k.statusOf now t ≠ .ready := hwait t (by rw [ht]; simp)
  unfold xTaskRemoveFromEventList
  rw [h.lists.listGET_OWNER_OF_HEAD_ENTRY_eq hl]
  dsimp only [bind, Except.bind, TcbItem.pvOwner]
  by_cases hrunning : k.uxSchedulerSuspended = 0
  · obtain ⟨j, hj⟩ := hpresent t
    obtain ⟨m₁, n₁, m₂, n₂, L', heq₁, heq₂, hw⟩ := h.wake_eq hx hj (by simp) (by
      rintro p rfl
      exact hnot (h.statusOf_ready hj now))
    have hready : readyOrPending t { k with lists := m₁ } = .ok (prvAddTaskToReadyList t { k with lists := m₂ }) := by
      unfold readyOrPending
      rw [if_pos hrunning, heq₂]
      rfl
    rw [heq₁]
    dsimp only
    rw [hready]
    refine ⟨_, _, t, L', rfl, ht, fun u hu => h.first_of_event hl hu, ⟨_, _, _, rfl⟩, (hw.set_yield _).lists, ?_,
      (hw.set_yield _).onward, fun u => hw.present u (hpresent u), fun hk => ?_, fun u hu hu' hlt => ?_⟩
    · have hdepth : (k.schedule now).depth = 0 := by
        show k.uxSchedulerSuspended.toNat = 0
        rw [hrunning]
        rfl
      rw [(hw.set_yield _).schedule]
      unfold Schedule.signal
      rw [if_pos hdepth]
    · rcases hk with hk | hk
      · exact Or.inl hk
      · right
        show (k.xYieldPending || _) = true
        rw [hk]
        rfl
    · rw [(hw.set_yield _).status] at hu'
      have hut : u = t := by
        by_contra hut
        simp only [hut, decide_false, Bool.false_eq_true, if_false] at hu'
        exact hu hu'
      right
      show (k.xYieldPending || decide (k.uxPriority k.pxCurrentTCB < k.uxPriority t)) = true
      rw [← hut, decide_eq_true hlt, Bool.or_true]
  · obtain ⟨m, n₁, L', heq, h', hstatus, hwait', honward, hpresent'⟩ := h.pending_eq now hx
    have hready : readyOrPending t { k with lists := m } =
        .ok { k with lists := vListInsertEnd xPendingReadyList (xEventListItem t) m } := by
      unfold readyOrPending
      rw [if_neg hrunning]
    rw [heq]
    dsimp only
    rw [hready]
    refine ⟨_, _, t, L', rfl, ht, fun u hu => h.first_of_event hl hu, ⟨_, _, _, rfl⟩,
      h'.congr rfl rfl rfl rfl rfl rfl, ?_, honward, fun u => hpresent' u (hpresent u), fun hk => ?_,
      fun u hu hu' => absurd ((hstatus u).symm.trans hu') hu⟩
    · have hdepth : (k.schedule now).depth ≠ 0 := fun h0 => hrunning (UInt32.toNat_inj.1 h0)
      unfold Schedule.signal
      rw [if_neg hdepth]
      unfold Kernel.schedule
      rw [Schedule.mk.injEq]
      refine ⟨rfl, rfl, rfl, rfl, funext hstatus, funext fun u => ?_⟩
      rw [Function.update_apply]
      exact hwait' u
    · rcases hk with hk | hk
      · exact Or.inl hk
      · right
        show (k.xYieldPending || _) = true
        rw [hk]
        rfl

/-! ### The task that runs -/

/-- The priority of the highest bit that is set. -/
theorem portGET_HIGHEST_PRIORITY_eq {m : UInt32} (hm : m ≠ 0) :
    (portGET_HIGHEST_PRIORITY m).toNat ∈ members m.toBitVec ∧
      ∀ b ∈ members m.toBitVec, b ≤ (portGET_HIGHEST_PRIORITY m).toNat := by
  have hm0 : m.toNat ≠ 0 := fun h0 => hm (UInt32.toNat_inj.1 h0)
  have hlog : m.toNat.log2 < 32 := (Nat.log2_lt hm0).2 m.toNat_lt
  have hcount : (UInt32.ofNat m.toNat.log2).toNat = m.toNat.log2 :=
    UInt32.toNat_ofNat_of_lt' (by rw [UInt32.size]; omega)
  have h31 : (31 : UInt32).toNat = 31 := rfl
  have hclz : (31 - UInt32.ofNat m.toNat.log2).toNat = 31 - m.toNat.log2 := by
    rw [UInt32.toNat_sub_of_le _ _ (UInt32.le_iff_toNat_le.2 (by omega)), hcount, h31]
  have htop : (portGET_HIGHEST_PRIORITY m).toNat = m.toNat.log2 := by
    unfold portGET_HIGHEST_PRIORITY ulPortCountLeadingZeros
    rw [if_neg hm, UInt32.toNat_sub_of_le _ _ (UInt32.le_iff_toNat_le.2 (by omega)), hclz, h31]
    omega
  rw [htop]
  constructor
  · exact Nat.testBit_log2 hm0
  · intro b hb
    exact (Nat.le_log2 hm0).2 (Nat.ge_two_pow_of_testBit hb)

variable (now) in
/-- A ready task of the highest priority is selected; the others of its priority come nearer. -/
theorem taskSELECT_HIGHEST_PRIORITY_TASK_eq [Fintype τ] (hcard : 2 * Fintype.card τ < 2 ^ 32) (h : TaskLists k L)
    (hready : ∃ u, k.statusOf now u = .ready) :
    ∃ m t, taskSELECT_HIGHEST_PRIORITY_TASK k = .ok { k with lists := m, pxCurrentTCB := t } ∧
      TaskLists { k with lists := m, pxCurrentTCB := t } L ∧ k.statusOf now t = .ready ∧
      (∀ u, k.statusOf now u = .ready → k.uxPriority u ≤ k.uxPriority t) ∧ m.pxContainer = k.lists.pxContainer ∧
      m.xItemValue = k.lists.xItemValue ∧
      (∀ q x, q ≠ k.uxPriority t → Onward k.lists L m L (pxReadyTasksLists q) x) ∧
      ∀ x N j, x ≠ xStateListItem t → (L (pxReadyTasksLists (k.uxPriority t))).length ≤ N + 1 →
        Ahead N k.lists L (pxReadyTasksLists (k.uxPriority t)) x j →
          ∃ j', j' < j ∧ Ahead N m L (pxReadyTasksLists (k.uxPriority t)) x j' := by
  obtain ⟨u, hu⟩ := hready
  have hmem := h.mem_of_ready hu
  have hbit : (k.uxPriority u).toNat ∈ members k.uxTopReadyPriority.toBitVec := (h.ready _).2 ⟨u, hmem, rfl⟩
  have hne : k.uxTopReadyPriority ≠ 0 := by
    intro h0
    rw [h0] at hbit
    simp at hbit
  obtain ⟨htop, hmax⟩ := portGET_HIGHEST_PRIORITY_eq hne
  obtain ⟨v, hv, hvp⟩ := (h.ready _).1 htop
  obtain ⟨p, hp⟩ : ∃ p, p = portGET_HIGHEST_PRIORITY k.uxTopReadyPriority := ⟨_, rfl⟩
  rw [← hp] at hvp hmax
  rw [UInt32.toNat_inj.1 hvp] at hv
  have hnil : L (pxReadyTasksLists p) ≠ [] := List.ne_nil_of_mem hv
  have hnumber : 0 < k.lists.uxNumberOfItems (pxReadyTasksLists p) := by
    have hlength := lt_of_le_of_lt (h.lists.length_le_card (pxReadyTasksLists p)) hcard
    rw [h.lists.number, UInt32.lt_iff_toNat_lt, UInt32.toNat_ofNat_of_lt' (by simpa [UInt32.size] using hlength)]
    exact List.length_pos_iff.2 hnil
  obtain ⟨s₁, s₂, hs⟩ := h.lists.exists_indexAt (pxReadyTasksLists p)
  obtain ⟨m, x, heq, hm, hx, hvalue, hcontainer, hother, hserved⟩ := h.lists.listGET_OWNER_OF_NEXT_ENTRY_eq hs hnil
  have hitem : ∃ t, x = xStateListItem t ∧ k.uxPriority t = p := by
    cases x with
    | xStateListItem t =>
      have hplace : _ = _ ∨ _ = _ ∨ _ = _ ∨ _ = _ := h.place _ _ hx
      exact ⟨t, rfl, by simpa [eq_comm] using hplace⟩
    | xEventListItem t =>
      have hplace : _ = _ ∨ ∃ n, _ = _ := h.place _ _ hx
      simp at hplace
  obtain ⟨t, rfl, htp⟩ := hitem
  have hlists : TaskLists { k with lists := m, pxCurrentTCB := t } L :=
    ⟨hm, h.delayed, h.priority, h.place, h.ready, fun i hi => by
      unfold ListMemory.Ascending
      rw [hvalue]
      exact h.ascending i hi, by rw [hvalue]; exact h.event_value, by rw [hvalue]; exact h.unblock⟩
  refine ⟨m, t, ?_, hlists, h.statusOf_ready hx now, fun w hw => ?_, hcontainer, hvalue, fun q y hq => ?_,
    fun y N j hy hN hj => ?_⟩
  · unfold taskSELECT_HIGHEST_PRIORITY_TASK configASSERT
    dsimp only
    rw [← hp, if_pos hnumber]
    dsimp only [bind, Except.bind]
    rw [heq]
    rfl
  · rw [htp, UInt32.le_iff_toNat_le]
    exact hmax _ ((h.ready _).2 ⟨w, h.mem_of_ready hw, rfl⟩)
  · exact Onward.of_indexAt fun t₁ t₂ ht => hother _ t₁ t₂ (by simpa [← htp] using hq) ht
  · rw [htp] at hj hN ⊢
    exact hj.served h.lists hy hN hs hserved

end TaskLists

end LcdKeypad
