import LcdKeypad.TaskResume

/-!
# The running task blocks

`prvAddCurrentTaskToDelayedList` takes the running task out of its ready list and puts it where it waits for its
time.
-/

namespace LcdKeypad

open TimedSchedule BitSet TaskList TcbItem

variable {τ β : Type} {k k' : Kernel τ β} {L L' : TaskList → List (TcbItem τ)} {now : ℕ} {t : τ}

/-- Only the lists, and what is kept about them, have changed. -/
def SameTasks (k k' : Kernel τ β) : Prop :=
  ∃ lists uxTopReadyPriority xNextTaskUnblockTime, k' = { k with
    lists := lists, uxTopReadyPriority := uxTopReadyPriority, xNextTaskUnblockTime := xNextTaskUnblockTime }

/-- The running task has left the ready list, for a status `st`, and waits for `v`. -/
structure Blocked [DecidableEq τ] (k k' : Kernel τ β) (L L' : TaskList → List (TcbItem τ)) (now : ℕ) (st : Status)
    (v : Wait ℕ) : Prop where
  same : SameTasks k k'
  lists : TaskLists k' L'
  status : ∀ u, k'.statusOf now u = if u = k.pxCurrentTCB then st else k.statusOf now u
  wait : ∀ u, k'.waitOf u = if u = k.pxCurrentTCB then v else k.waitOf u
  onward : ∀ q x, x ≠ xStateListItem k.pxCurrentTCB → Onward k.lists L k'.lists L' (pxReadyTasksLists q) x
  present : ∀ u, u ≠ k.pxCurrentTCB → (∃ i, xStateListItem u ∈ L i) → ∃ i, xStateListItem u ∈ L' i
  current : ∃ i, xStateListItem k.pxCurrentTCB ∈ L' i

theorem SameTasks.trans {k₁ : Kernel τ β} (h : SameTasks k k₁) (h' : SameTasks k₁ k') : SameTasks k k' := by
  obtain ⟨m, top, next, rfl⟩ := h
  obtain ⟨m', top', next', rfl⟩ := h'
  exact ⟨m', top', next', rfl⟩

variable [DecidableEq τ]

namespace TaskLists

/-- A task leaves its ready list, and its priority leaves the bit map if the list is empty then. -/
theorem removed_ready (hcard : (L' (pxReadyTasksLists (k.uxPriority t))).length < 2 ^ 32) (h : TaskLists k L)
    {m : ListMemory TaskList (TcbItem τ)} (hm : Lists m L') (hr : Removed k.lists m L L' (xStateListItem t))
    (ht : xStateListItem t ∈ L (pxReadyTasksLists (k.uxPriority t))) :
    TaskLists { k with
      lists := m
      uxTopReadyPriority :=
        if UInt32.ofNat (L' (pxReadyTasksLists (k.uxPriority t))).length = 0 then
          portRESET_READY_PRIORITY (k.uxPriority t) k.uxTopReadyPriority
        else k.uxTopReadyPriority } L' where
  lists := hm
  delayed := h.delayed
  priority := h.priority
  place := fun y j hy => h.place y j ((hr.mem y j).1 hy).1
  ascending := by
    intro j hj
    have hsub := (h.ascending j hj).sublist (hr.sublist j)
    unfold ListMemory.Ascending
    rw [hr.value]
    exact hsub
  event_value := by
    rw [hr.value]
    exact h.event_value
  unblock := by
    intro u hu
    rw [hr.value]
    exact h.unblock u ((hr.mem _ _).1 hu).1
  ready := by
    intro b
    have hprio := h.uxPriority_lt t
    have hzero : UInt32.ofNat (L' (pxReadyTasksLists (k.uxPriority t))).length = 0 ↔
        L' (pxReadyTasksLists (k.uxPriority t)) = [] := by
      rw [← UInt32.toNat_inj, UInt32.toNat_ofNat_of_lt' (by simpa [UInt32.size] using hcard)]
      exact List.length_eq_zero_iff
    have hother : ∀ u, u ≠ t → xStateListItem u ∈ L (pxReadyTasksLists (k.uxPriority u)) →
        xStateListItem u ∈ L' (pxReadyTasksLists (k.uxPriority u)) :=
      fun u hut hu => (hr.mem _ _).2 ⟨hu, by simpa using hut⟩
    split
    · next hnil =>
      rw [hzero] at hnil
      have hbits : members (portRESET_READY_PRIORITY (k.uxPriority t) k.uxTopReadyPriority).toBitVec =
          members k.uxTopReadyPriority.toBitVec \ {(k.uxPriority t).toNat} := by
        unfold portRESET_READY_PRIORITY
        rw [UInt32.toBitVec_and, UInt32.toBitVec_not, bit_toBitVec (by omega),
          members_and_not_one_shiftLeft _ (by omega)]
      rw [hbits, Set.mem_sdiff, h.ready b, Set.mem_singleton_iff]
      constructor
      · rintro ⟨⟨u, hu, hb⟩, hne⟩
        have hut : u ≠ t := by
          rintro rfl
          exact hne hb.symm
        exact ⟨u, hother u hut hu, hb⟩
      · rintro ⟨u, hu, hb⟩
        refine ⟨⟨u, ((hr.mem _ _).1 hu).1, hb⟩, fun hbt => ?_⟩
        dsimp only at hu
        rw [UInt32.toNat_inj.1 (hb.trans hbt), hnil] at hu
        cases hu
    · next hnil =>
      rw [hzero] at hnil
      obtain ⟨x, hx⟩ := List.exists_mem_of_ne_nil _ hnil
      rw [h.ready b]
      constructor
      · rintro ⟨u, hu, hb⟩
        by_cases hut : u = t
        · -- another task of this priority is ready
          subst hut
          have hxL := ((hr.mem _ _).1 hx).1
          cases x with
          | xStateListItem v =>
            have hplace : _ = _ ∨ _ = _ ∨ _ = _ ∨ _ = _ := h.place _ _ hxL
            have hv : k.uxPriority u = k.uxPriority v := by simpa using hplace
            rw [hv] at hx
            exact ⟨v, hx, by rw [← hv, hb]⟩
          | xEventListItem v =>
            have hplace : _ = _ ∨ ∃ n, _ = _ := h.place _ _ hxL
            simp at hplace
        · exact ⟨u, hother u hut hu, hb⟩
      · rintro ⟨u, hu, hb⟩
        exact ⟨u, ((hr.mem _ _).1 hu).1, hb⟩

/-- The value of an item that is in no list may be anything. -/
theorem set_value (h : TaskLists k L) (ht : ∀ i, xStateListItem t ∉ L i) (v : UInt32) :
    TaskLists { k with lists := { k.lists with
      xItemValue := Function.update k.lists.xItemValue (.item (xStateListItem t)) v } } L where
  lists := ⟨h.lists.ring, h.lists.container, h.lists.number, h.lists.index, h.lists.end_value⟩
  delayed := h.delayed
  priority := h.priority
  place := h.place
  ready := h.ready
  ascending := by
    intro j hj
    refine List.Pairwise.imp_of_mem (fun {x y} hx hy hxy => ?_) (h.ascending j hj)
    have hxt : (ListNode.item x : ListNode TaskList (TcbItem τ)) ≠ .item (xStateListItem t) := by
      rintro heq
      cases heq
      exact ht j hx
    have hyt : (ListNode.item y : ListNode TaskList (TcbItem τ)) ≠ .item (xStateListItem t) := by
      rintro heq
      cases heq
      exact ht j hy
    simpa [Function.update_of_ne hxt, Function.update_of_ne hyt] using hxy
  event_value := by
    intro u
    simpa using h.event_value u
  unblock := by
    intro u hu
    have hut : u ≠ t := by
      rintro rfl
      exact ht _ hu
    simpa [hut] using h.unblock u hu

theorem vListInsert_eq [Fintype τ] {fuel : ℕ} (hfuel : 2 * Fintype.card τ < fuel) (h : TaskLists k L)
    (ht : ∀ i, xStateListItem t ∉ L i) {i : TaskList}
    (hi : i = k.pxDelayedTaskList ∨ i = k.pxOverflowDelayedTaskList)
    (hnext : i = k.pxDelayedTaskList → k.xNextTaskUnblockTime ≤ k.lists.xItemValue (.item (xStateListItem t))) :
    ∃ m L', vListInsert fuel i (xStateListItem t) k.lists = .ok m ∧ TaskLists { k with lists := m } L' ∧
      Inserted k.lists m L L' (xStateListItem t) i := by
  obtain ⟨m, L', heq, hm, hins, hasc⟩ := h.lists.vListInsert_eq ht i
    (lt_of_le_of_lt (h.lists.length_le_card i) hfuel)
  refine ⟨m, L', heq, h.inserted hm hins ?_ ?_ ?_ ?_, hins⟩
  · right
    rcases hi with rfl | rfl
    · rcases h.delayed with ⟨h₁, -⟩ | ⟨h₁, -⟩
      · exact Or.inl h₁
      · exact Or.inr (Or.inl h₁)
    · rcases h.delayed with ⟨-, h₂⟩ | ⟨-, h₂⟩
      · exact Or.inr (Or.inl h₂)
      · exact Or.inl h₂
  · intro p
    rcases hi with rfl | rfl
    · exact (h.delayed_ne p).1
    · exact (h.delayed_ne p).2.1
  · intro hordered
    have hsorted := hasc (h.ascending i hordered)
    unfold ListMemory.Ascending
    rw [hins.value]
    exact hsorted
  · intro u hu hid
    cases hu
    rw [hins.value]
    exact hnext hid

/-- The item of a task in a list of tasks that are not ready. -/
theorem blocked_of_inserted (h : TaskLists k' L') (hsame : SameTasks k k') {m : ListMemory TaskList (TcbItem τ)}
    {i : TaskList} (hins : Inserted m k'.lists L L' (xStateListItem k.pxCurrentTCB) i)
    (hi : ∀ p, i ≠ pxReadyTasksLists p) (hm : m.pxContainer = k.lists.pxContainer)
    (hindex : m.pxIndex = k.lists.pxIndex)
    (hvalue : ∀ u, u ≠ k.pxCurrentTCB →
      m.xItemValue (.item (xStateListItem u)) = k.lists.xItemValue (.item (xStateListItem u)))
    {st : Status} (hst : k'.statusOf now k.pxCurrentTCB = st) :
    Blocked k k' L L' now st (k.waitOf k.pxCurrentTCB) := by
  have hcontainer : k'.lists.pxContainer =
      Function.update k.lists.pxContainer (xStateListItem k.pxCurrentTCB) (some i) := by
    rw [hins.container, hm]
  have hlists : k'.pxDelayedTaskList = k.pxDelayedTaskList ∧
      k'.pxOverflowDelayedTaskList = k.pxOverflowDelayedTaskList := by
    obtain ⟨m', top, next, rfl⟩ := hsame
    exact ⟨rfl, rfl⟩
  refine ⟨hsame, h, fun u => ?_, fun u => ?_, fun q x hx => ?_, fun u _ hu => ?_, i, (hins.mem _ _).2 (Or.inr ⟨rfl, rfl⟩)⟩
  · split
    · next hu =>
      rw [hu]
      exact hst
    · next hu =>
      have hne : xStateListItem u ≠ xStateListItem k.pxCurrentTCB := by simpa using hu
      unfold Kernel.statusOf
      rw [hcontainer, Function.update_of_ne hne, hlists.1, hlists.2, hins.value, hvalue u hu]
  · have hsame : k'.waitOf u = k.waitOf u := by
      unfold Kernel.waitOf
      rw [hcontainer, Function.update_of_ne (by simp)]
    rw [hsame]
    split
    · next hu => rw [hu]
    · rfl
  · refine Onward.of_indexAt fun s₁ s₂ hs => ?_
    unfold IndexAt
    rw [hins.other _ (hi q).symm, hins.index, hindex]
    exact hs
  · obtain ⟨j, hj⟩ := hu
    exact ⟨j, (hins.mem _ _).2 (Or.inl hj)⟩

theorem insertDelayed_eq [Fintype τ] {fuel : ℕ} (hfuel : 2 * Fintype.card τ < fuel) (h : TaskLists k L)
    (ht : ∀ i, xStateListItem k.pxCurrentTCB ∉ L i) (hclock : k.xTickCount.toNat = now % 2 ^ 32) (xTicks : UInt32) :
    ∃ k' L', insertDelayed fuel (k.xTickCount + xTicks) k = .ok k' ∧
      Blocked k k' L L' now (.delayed (now + xTicks.toNat)) (k.waitOf k.pxCurrentTCB) := by
  obtain ⟨w, hw⟩ : ∃ w, w = k.xTickCount + xTicks := ⟨_, rfl⟩
  have hsum : w.toNat = (k.xTickCount.toNat + xTicks.toNat) % 2 ^ 32 := by rw [hw, UInt32.toNat_add]
  have hticks := xTicks.toNat_lt
  have h₀ := h.set_value ht w
  unfold insertDelayed
  dsimp only
  rw [← hw]
  by_cases hlt : w < k.xTickCount
  · -- the tick count overflows before the time comes
    obtain ⟨m, L', heq, hm, hins⟩ := h₀.vListInsert_eq hfuel ht (i := k.pxOverflowDelayedTaskList) (Or.inr rfl)
      (fun hi => absurd hi (h.delayed_ne 0).2.2.1)
    have hcurrent : xStateListItem k.pxCurrentTCB ∈ L' k.pxOverflowDelayedTaskList :=
      (hins.mem _ _).2 (Or.inr ⟨rfl, rfl⟩)
    rw [if_pos hlt, heq]
    refine ⟨_, L', rfl, blocked_of_inserted (k := k) hm ⟨_, _, _, rfl⟩ hins (fun p => (h.delayed_ne p).2.1) rfl rfl
      (fun u hu => Function.update_of_ne (by simpa using hu) _ _) ?_⟩
    rw [hm.statusOf_overflow hcurrent]
    show Status.delayed (_ + (m.xItemValue _).toNat) = _
    rw [hins.value]
    dsimp only
    rw [Function.update_self, hsum]
    rw [UInt32.lt_iff_toNat_lt, hsum] at hlt
    congr 1
    omega
  · obtain ⟨next, hnext⟩ : ∃ next, next = if w < k.xNextTaskUnblockTime then w else k.xNextTaskUnblockTime := ⟨_, rfl⟩
    have hnext_le : next ≤ w ∧ next ≤ k.xNextTaskUnblockTime := by
      rw [hnext]
      split
      · next hwn => exact ⟨UInt32.le_refl _, UInt32.le_of_lt hwn⟩
      · next hwn => exact ⟨UInt32.not_lt.1 hwn, UInt32.le_refl _⟩
    have h₁ := h₀.set_next _ fun u hu => UInt32.le_trans hnext_le.2 (h₀.unblock u hu)
    obtain ⟨m, L', heq, hm, hins⟩ := h₁.vListInsert_eq hfuel ht (i := k.pxDelayedTaskList) (Or.inl rfl)
      (fun _ => by simpa using hnext_le.1)
    have hcurrent : xStateListItem k.pxCurrentTCB ∈ L' k.pxDelayedTaskList := (hins.mem _ _).2 (Or.inr ⟨rfl, rfl⟩)
    rw [if_neg hlt, heq, ← hnext]
    refine ⟨_, L', rfl, blocked_of_inserted (k := k) hm ⟨_, _, _, rfl⟩ hins (fun p => (h.delayed_ne p).1) rfl rfl
      (fun u hu => Function.update_of_ne (by simpa using hu) _ _) ?_⟩
    rw [hm.statusOf_delayed hcurrent]
    show Status.delayed (_ + (m.xItemValue _).toNat) = _
    rw [hins.value]
    dsimp only
    rw [Function.update_self, hsum]
    rw [UInt32.lt_iff_toNat_lt, hsum] at hlt
    congr 1
    omega

/-- Where the running task waits once it is in no ready list. -/
theorem insertSuspended_eq (h : TaskLists k L) (ht : ∀ i, xStateListItem k.pxCurrentTCB ∉ L i) :
    ∃ L', Blocked k { k with lists := vListInsertEnd xSuspendedTaskList (xStateListItem k.pxCurrentTCB) k.lists } L L'
      now .suspended (k.waitOf k.pxCurrentTCB) := by
  obtain ⟨L', hm, hins, -⟩ := h.lists.vListInsertEnd_eq ht xSuspendedTaskList
  have h' := h.inserted hm hins (Or.inr (Or.inr (Or.inr rfl))) (by simp) (fun hordered => absurd hordered id)
    (fun u _ hd => absurd hd.symm (h.delayed_ne 0).2.2.2.1)
  have hcurrent : xStateListItem k.pxCurrentTCB ∈ L' xSuspendedTaskList := (hins.mem _ _).2 (Or.inr ⟨rfl, rfl⟩)
  exact ⟨L', blocked_of_inserted (k := k) h' ⟨_, _, _, rfl⟩ hins (by simp) rfl rfl (fun _ _ => rfl)
    (h'.statusOf_suspended hcurrent now)⟩

theorem prvAddCurrentTaskToDelayedList_eq [Fintype τ] (hcard : 2 * Fintype.card τ < 2 ^ 32) {fuel : ℕ}
    (hfuel : 2 * Fintype.card τ < fuel) (h : TaskLists k L) (hclock : k.xTickCount.toNat = now % 2 ^ 32)
    (hready : k.statusOf now k.pxCurrentTCB = .ready) (xTicks : UInt32) (b : Bool) :
    ∃ k' L', prvAddCurrentTaskToDelayedList fuel xTicks b k = .ok k' ∧ Blocked k k' L L' now
      (if xTicks = portMAX_DELAY ∧ b = true then .suspended else .delayed (now + xTicks.toNat))
      (k.waitOf k.pxCurrentTCB) := by
  have ht := h.mem_of_ready hready
  obtain ⟨m, L₁, heq, hm, hr⟩ := h.lists.uxListRemove_eq ht
  have hx := (h.lists.container _ _).2 ht
  have h₁ := h.removed_ready (lt_of_le_of_lt (hm.length_le_card _) hcard) hm hr ht
  have hnot : ∀ i, xStateListItem k.pxCurrentTCB ∉ L₁ i := fun i hi => ((hr.mem _ _).1 hi).2 rfl
  obtain ⟨k₁, hk₁⟩ : ∃ k₁, k₁ = { k with
      lists := m
      uxTopReadyPriority :=
        if UInt32.ofNat (L₁ (pxReadyTasksLists (k.uxPriority k.pxCurrentTCB))).length = 0 then
          portRESET_READY_PRIORITY (k.uxPriority k.pxCurrentTCB) k.uxTopReadyPriority
        else k.uxTopReadyPriority } := ⟨_, rfl⟩
  have hcall : prvAddCurrentTaskToDelayedList fuel xTicks b k =
      if xTicks = portMAX_DELAY ∧ b = true then
        .ok { k₁ with lists := vListInsertEnd xSuspendedTaskList (xStateListItem k₁.pxCurrentTCB) k₁.lists }
      else insertDelayed fuel (k₁.xTickCount + xTicks) k₁ := by
    unfold prvAddCurrentTaskToDelayedList
    rw [heq, hk₁]
    rfl
  have hcurrent : k₁.pxCurrentTCB = k.pxCurrentTCB := by rw [hk₁]
  rw [← hk₁] at h₁
  have hinserted : ∃ k' L', prvAddCurrentTaskToDelayedList fuel xTicks b k = .ok k' ∧ Blocked k₁ k' L₁ L' now
      (if xTicks = portMAX_DELAY ∧ b = true then .suspended else .delayed (now + xTicks.toNat))
      (k₁.waitOf k₁.pxCurrentTCB) := by
    rw [hcall]
    split
    · obtain ⟨L', hb⟩ := h₁.insertSuspended_eq (hcurrent ▸ hnot)
      exact ⟨_, L', rfl, hb⟩
    · exact h₁.insertDelayed_eq hfuel (hcurrent ▸ hnot) (by rw [hk₁]; exact hclock) xTicks
  obtain ⟨k', L', heq', hb⟩ := hinserted
  have hwait : ∀ u, k₁.waitOf u = k.waitOf u := by
    intro u
    rw [hk₁]
    unfold Kernel.waitOf
    rw [hr.container, Function.update_of_ne (by simp)]
  have hstatus : ∀ u, u ≠ k.pxCurrentTCB → k₁.statusOf now u = k.statusOf now u := by
    intro u hu
    rw [hk₁]
    unfold Kernel.statusOf
    rw [hr.container, Function.update_of_ne (by simpa using hu), hr.value]
  refine ⟨k', L', heq', ⟨SameTasks.trans ⟨_, _, _, hk₁⟩ hb.same, hb.lists, fun u => ?_, fun u => ?_, fun q x hxc => ?_,
    fun u hu hpresent => ?_, hcurrent ▸ hb.current⟩⟩
  · rw [hb.status, hcurrent]
    split
    · rfl
    · next hu => exact hstatus u hu
  · rw [hb.wait, hcurrent, hwait, hwait]
  · have honward : Onward k.lists L m L₁ (pxReadyTasksLists q) x := hr.onward hxc
    have hk : k₁.lists = m := by rw [hk₁]
    exact honward.trans (hk ▸ hb.onward q x (hcurrent ▸ hxc))
  · obtain ⟨i, hi⟩ := hpresent
    exact hb.present u (hcurrent ▸ hu) ⟨i, (hr.mem _ _).2 ⟨hi, by simpa using hu⟩⟩

end TaskLists

end LcdKeypad
