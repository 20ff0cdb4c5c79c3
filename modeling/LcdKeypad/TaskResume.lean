import LcdKeypad.TaskTicks

/-!
# Resuming the scheduler

`xTaskResumeAll` makes the tasks ready that got their events while the scheduler was suspended, and then makes up
for the ticks that were held back.
-/

namespace LcdKeypad

open TimedSchedule BitSet TaskList TcbItem

variable {τ β : Type} {k k' : Kernel τ β} {L L' : TaskList → List (TcbItem τ)} {now : ℕ}

/-- A switch is pended or will be by the next tick. -/
def Kernel.SwitchPending (k : Kernel τ β) : Prop := k.pendSV = true ∨ k.xYieldPending = true

/-- A switch is pending if it was before, and if a task of a higher priority than the running one has become ready. -/
structure Flagged (k k' : Kernel τ β) (now now' : ℕ) : Prop where
  keep : k.SwitchPending → k'.SwitchPending
  woken : ∀ u, k.statusOf now u ≠ .ready → k'.statusOf now' u = .ready →
    k.uxPriority k.pxCurrentTCB < k.uxPriority u → k'.SwitchPending

theorem Flagged.trans {k₁ : Kernel τ β} {now₁ now' : ℕ} (h : Flagged k k₁ now now₁) (h' : Flagged k₁ k' now₁ now')
    (hprio : k₁.uxPriority = k.uxPriority) (hcurrent : k₁.pxCurrentTCB = k.pxCurrentTCB) : Flagged k k' now now' := by
  refine ⟨fun hk => h'.keep (h.keep hk), fun u hu hu' hlt => ?_⟩
  by_cases hmid : k₁.statusOf now₁ u = .ready
  · exact h'.keep (h.woken u hu hmid hlt)
  · refine h'.woken u hmid hu' ?_
    rw [hprio, hcurrent]
    exact hlt

theorem Woken.set_yield {p : τ → Bool} (h : Woken k k' L L' p) (y : Bool) :
    Woken k { k' with xYieldPending := y } L L' p :=
  ⟨h.lists.congr rfl rfl rfl rfl rfl rfl, h.schedule, h.onward, h.sublist, h.present, h.priority, h.number, h.clock,
    h.delayed, h.pendSV, h.hook⟩

theorem Woken.status {p : τ → Bool} (h : Woken k k' L L' p) (now : ℕ) (u : τ) :
    k'.statusOf now u = if p u then .ready else k.statusOf now u :=
  congrFun (congrArg Schedule.status (h.schedule now)) u

theorem Woken.wait {p : τ → Bool} (h : Woken k k' L L' p) (u : τ) :
    k'.waitOf u = if p u then .nothing else k.waitOf u :=
  congrFun (congrArg Schedule.wait (h.schedule 0)) u

theorem Woken.current {p : τ → Bool} (h : Woken k k' L L' p) : k'.pxCurrentTCB = k.pxCurrentTCB :=
  congrArg Schedule.running (h.schedule 0)

theorem Woken.pended {p : τ → Bool} (h : Woken k k' L L' p) : k'.xPendedTicks = k.xPendedTicks :=
  UInt32.toNat_inj.1 (congrArg Schedule.held (h.schedule 0))

theorem Woken.suspended {p : τ → Bool} (h : Woken k k' L L' p) : k'.uxSchedulerSuspended = k.uxSchedulerSuspended :=
  UInt32.toNat_inj.1 (congrArg Schedule.depth (h.schedule 0))

theorem TaskLists.pending_item (h : TaskLists k L) {x : TcbItem τ} (hx : x ∈ L xPendingReadyList) :
    x = xEventListItem x.pvOwner := by
  cases x with
  | xStateListItem t =>
    have hplace : _ = _ ∨ _ = _ ∨ _ = _ ∨ _ = _ := h.place _ _ hx
    simp at hplace
  | xEventListItem t => rfl

variable [DecidableEq τ]

/-- Both items of a task that is not ready are taken out of their lists, and it becomes ready. -/
theorem TaskLists.wake_eq (h : TaskLists k L) {t : τ} {i j : TaskList} (hE : xEventListItem t ∈ L i)
    (hS : xStateListItem t ∈ L j) (hi : ∀ p, i ≠ pxReadyTasksLists p) (hj : ∀ p, j ≠ pxReadyTasksLists p) :
    ∃ m₁ n₁ m₂ n₂ L', uxListRemove (xEventListItem t) k.lists = .ok (m₁, n₁) ∧
      uxListRemove (xStateListItem t) m₁ = .ok (m₂, n₂) ∧
      Woken k (prvAddTaskToReadyList t { k with lists := m₂ }) L L' (fun u => decide (u = t)) := by
  obtain ⟨m₁, n₁, L₁, heq₁, h₁, hr₁, honward₁⟩ := h.uxListRemove_eq hE hi
  have hS₁ : xStateListItem t ∈ L₁ j := (hr₁.mem _ _).2 ⟨hS, by simp⟩
  obtain ⟨m₂, n₂, L₂, heq₂, h₂, hr₂, honward₂⟩ := h₁.uxListRemove_eq hS₁ hj
  obtain ⟨L', hw⟩ := wake_of_removed h h₂ (fun i hi => ((hr₂.mem _ _).1 hi).2 rfl)
    (fun i hi => ((hr₁.mem _ _).1 ((hr₂.mem _ _).1 hi).1).2 rfl) (hr₂.value.trans hr₁.value) (fun y hy => by
      have hyS : y ≠ xStateListItem t := fun hyt => hy (by rw [hyt]; rfl)
      have hyE : y ≠ xEventListItem t := fun hyt => hy (by rw [hyt]; rfl)
      rw [hr₂.container, Function.update_of_ne hyS, hr₁.container, Function.update_of_ne hyE])
    (fun i => (hr₂.sublist i).trans (hr₁.sublist i)) (fun q x => (honward₁ q x).trans (honward₂ q x))
  exact ⟨m₁, n₁, m₂, n₂, L', heq₁, heq₂, hw⟩

/-- The loop of `xTaskResumeAll` makes the tasks of `xPendingReadyList` ready. -/
theorem TaskLists.movePendingReady_eq [Fintype τ] (hcard : 2 * Fintype.card τ < 2 ^ 32) {fuel : ℕ} (moved : Bool)
    (h : TaskLists k L) (hfuel : (L xPendingReadyList).length < fuel) (hpresent : ∀ t, ∃ i, xStateListItem t ∈ L i)
    (hwait : ∀ u, k.waitOf u = .signalled → k.statusOf now u ≠ .ready) :
    ∃ k' moved' L', movePendingReady fuel moved k = .ok (k', moved') ∧
      Woken k k' L L' (fun u => (k.waitOf u).isSignalled) ∧ (k'.xYieldPending = true ↔ k.xYieldPending = true ∨
        ∃ u, k.waitOf u = .signalled ∧ k.uxPriority k.pxCurrentTCB < k.uxPriority u) := by
  induction fuel generalizing k L moved with
  | zero => exact absurd hfuel (Nat.not_lt_zero _)
  | succ fuel ih =>
    have hempty := h.lists.listLIST_IS_EMPTY_iff (lt_of_le_of_lt (h.lists.length_le_card xPendingReadyList) hcard)
    rw [movePendingReady]
    cases hl : L xPendingReadyList with
    | nil =>
      have hnone : ∀ u, k.waitOf u ≠ .signalled := by
        intro u hu
        rw [h.waitOf_signalled_iff, hl] at hu
        cases hu
      rw [if_pos (hempty.2 hl)]
      refine ⟨k, moved, L, rfl, Woken.of_lists h (fun u => ?_) rfl (fun _ => rfl) rfl rfl ⟨rfl, rfl⟩ rfl rfl rfl, ?_⟩
      · rw [← Bool.not_eq_true, isSignalled_eq_true]
        exact hnone u
      · simp [hnone]
    | cons x l =>
      have hx : x ∈ L xPendingReadyList := by rw [hl]; exact List.mem_cons_self
      have hitem := h.pending_item hx
      obtain ⟨t, rfl⟩ : ∃ t, x = xEventListItem t := ⟨_, hitem⟩
      have hsignalled : k.waitOf t = .signalled := h.waitOf_signalled_iff.2 hx
      obtain ⟨j, hj⟩ := hpresent t
      have hnotready : ∀ p, j ≠ pxReadyTasksLists p := by
        rintro p rfl
        exact hwait t hsignalled (h.statusOf_ready hj now)
      obtain ⟨m₁, n₁, m₂, n₂, L₁, heq₁, heq₂, hw⟩ := h.wake_eq hx hj (by simp) hnotready
      rw [if_neg (by rw [hempty, hl]; simp), h.lists.listGET_OWNER_OF_HEAD_ENTRY_eq hl]
      obtain ⟨k₁, hk₁⟩ : ∃ k₁, k₁ = { prvAddTaskToReadyList t { k with lists := m₂ } with
        xYieldPending := k.xYieldPending || decide (k.uxPriority k.pxCurrentTCB < k.uxPriority t) } := ⟨_, rfl⟩
      have hw₁ : Woken k k₁ L L₁ (fun u => decide (u = t)) := hk₁ ▸ hw.set_yield _
      have hlength : (L₁ xPendingReadyList).length < fuel := by
        have hsub := hw₁.sublist xPendingReadyList (by simp)
        have hnot : xEventListItem t ∉ L₁ xPendingReadyList := by
          rw [← hw₁.lists.waitOf_signalled_iff, hw₁.wait]
          simp
        have hlt := lt_of_le_of_ne hsub.length_le fun heq => hnot ((hsub.eq_of_length heq) ▸ hx)
        omega
      have hwait₁ : ∀ u, k₁.waitOf u = .signalled → k₁.statusOf now u ≠ .ready := by
        intro u hu
        rw [hw₁.wait] at hu
        rw [hw₁.status]
        by_cases hut : u = t
        · simp [hut] at hu
        · simp only [hut, decide_false, Bool.false_eq_true, if_false] at hu ⊢
          exact hwait u hu
      obtain ⟨k', moved', L', heq', hw', hyield'⟩ := ih true hw₁.lists hlength (fun u => hw₁.present u (hpresent u)) hwait₁
      have hp : (fun u => decide (u = t) || (k₁.waitOf u).isSignalled) = fun u => (k.waitOf u).isSignalled := by
        funext u
        rw [hw₁.wait]
        by_cases hut : u = t
        · rw [hut, isSignalled_eq_true.2 hsignalled]
          simp
        · simp [hut]
      have hyield₁ : k₁.xYieldPending = true ↔
          k.xYieldPending = true ∨ k.uxPriority k.pxCurrentTCB < k.uxPriority t := by
        rw [hk₁]
        simp
      refine ⟨k', moved', L', ?_, hp ▸ hw₁.trans hw', ?_⟩
      · dsimp only [bind, Except.bind, TcbItem.pvOwner]
        rw [heq₁]
        dsimp only
        rw [heq₂]
        rw [hk₁] at heq'
        exact heq'
      · rw [hyield', hyield₁, hw₁.priority, hw₁.current, or_assoc]
        constructor
        · rintro (hb | hlt | ⟨u, hu, hlt⟩)
          · exact Or.inl hb
          · exact Or.inr ⟨t, hsignalled, hlt⟩
          · rw [hw₁.wait] at hu
            split at hu
            · cases hu
            · exact Or.inr ⟨u, hu, hlt⟩
        · rintro (hb | ⟨u, hu, hlt⟩)
          · exact Or.inl hb
          · by_cases hut : u = t
            · rw [← hut]
              exact Or.inr (Or.inl hlt)
            · exact Or.inr (Or.inr ⟨u, by rw [hw₁.wait]; simpa [hut] using hu, hlt⟩)

/-! ### The ticks held back -/

theorem unwindTicks_eq [Fintype τ] (hcard : 2 * Fintype.card τ < 2 ^ 32) {fuel : ℕ}
    (hfuel : 2 * Fintype.card τ < fuel) (vApplicationTickHook : β → β) (n : ℕ) (h : TaskLists k L)
    (hclock : k.Clock now) (hfuture : ∀ t w, k.statusOf now t = .delayed w → now < w)
    (hrunning : k.uxSchedulerSuspended = 0) (hheld : n ≠ 0 → k.xPendedTicks ≠ 0) :
    ∃ k' L', unwindTicks vApplicationTickHook fuel n k = .ok k' ∧ Passed k k' L L' now n ∧ k'.hook = k.hook ∧
      Flagged k k' now (now + n) := by
  induction n generalizing k L now with
  | zero =>
    exact ⟨k, L, rfl, ⟨h, hclock, rfl, fun _ _ => Onward.refl _ _ _ _, fun _ ht => ht, rfl, rfl, rfl⟩, rfl,
      ⟨fun hk => hk, fun u hu hu' => absurd hu' hu⟩⟩
  | succ n ih =>
    obtain ⟨k₀, b, L₁, heq₁, hp₁, hyield₁, hhook₁, hb⟩ :=
      xTaskIncrementTick_eq vApplicationTickHook hcard hfuel h hclock hfuture hrunning
    rw [if_neg (hheld (Nat.succ_ne_zero n))] at hhook₁
    have hcurrent : k₀.pxCurrentTCB = k.pxCurrentTCB := congrArg Schedule.running hp₁.schedule
    have hpended : k₀.xPendedTicks = k.xPendedTicks := UInt32.toNat_inj.1 (congrArg Schedule.held hp₁.schedule)
    have hsuspended : k₀.uxSchedulerSuspended = k.uxSchedulerSuspended :=
      UInt32.toNat_inj.1 (congrArg Schedule.depth hp₁.schedule)
    obtain ⟨k₁, hk₁⟩ : ∃ k₁, k₁ = { k₀ with xYieldPending := k₀.xYieldPending || b } := ⟨_, rfl⟩
    have hp : Passed k k₁ L L₁ now 1 := by
      rw [hk₁]
      exact ⟨hp₁.lists.congr rfl rfl rfl rfl rfl rfl, hp₁.clock, hp₁.schedule, hp₁.onward, hp₁.present, hp₁.priority,
        hp₁.number, hp₁.pendSV⟩
    have hflag : Flagged k k₁ now (now + 1) := by
      constructor
      · rintro (hpend | hyield)
        · exact Or.inl (hp.pendSV.trans hpend)
        · rw [hk₁]
          exact Or.inr (by simp [hyield₁, hyield])
      · intro u hu hu' hlt
        have hdue : (k.statusOf now u).due (now + 1) = true := by
          by_contra hdue
          have hstay := (Schedule.pass_of_not_due (s := k.schedule now) (t := u) (Bool.eq_false_iff.2 hdue)).1
          rw [show (k.schedule now).pass = k₁.schedule (now + 1) from hp.schedule.symm] at hstay
          exact hu (hstay.symm.trans hu')
        rw [hk₁]
        exact Or.inr (by simp [hb.2 (Or.inr ⟨u, hdue, hlt⟩)])
    have hfuture₁ : ∀ t w, k₁.statusOf (now + 1) t = .delayed w → now + 1 < w := by
      intro t w ht
      have hstatus : k₁.statusOf (now + 1) t = (k.schedule now).pass.status t :=
        congrFun (congrArg Schedule.status hp.schedule) t
      exact pass_future (s := k.schedule now) t w (hstatus ▸ ht)
    obtain ⟨k', L', heq', hp', hhook', hflag'⟩ := ih hp.lists hp.clock hfuture₁
      (by rw [hk₁]; exact hsuspended.trans hrunning)
      (fun _ => by rw [hk₁]; exact hpended ▸ hheld (Nat.succ_ne_zero n))
    have hnow : now + 1 + n = now + (n + 1) := by omega
    rw [hnow] at hflag'
    refine ⟨k', L', ?_, ⟨hp'.lists, ?_, ?_, fun q x => (hp.onward q x).trans (hp'.onward q x),
      fun t ht => hp'.present t (hp.present t ht), hp'.priority.trans hp.priority, hp'.number.trans hp.number,
      hp'.pendSV.trans hp.pendSV⟩, ?_, ?_⟩
    · rw [unwindTicks, heq₁]
      rw [hk₁] at heq'
      exact heq'
    · rw [← hnow]
      exact hp'.clock
    · rw [← hnow, hp'.schedule, hp.schedule, Function.iterate_succ_apply]
      rfl
    · rw [hhook', hk₁]
      exact hhook₁
    · exact hflag.trans hflag' hp.priority (by rw [hk₁]; exact hcurrent)

/-- The tasks that got their events become ready, and then the ticks held back pass. -/
theorem resumeScheduler_eq [Fintype τ] (hcard : 2 * Fintype.card τ < 2 ^ 32) {fuel : ℕ}
    (hfuel : 2 * Fintype.card τ < fuel) (vApplicationTickHook : β → β) (h : TaskLists k L) (hclock : k.Clock now)
    (hfuture : ∀ t w, k.statusOf now t = .delayed w → now < w) (hpresent : ∀ t, ∃ i, xStateListItem t ∈ L i)
    (hwait : ∀ u, k.waitOf u = .signalled → k.statusOf now u ≠ .ready) (hrunning : k.uxSchedulerSuspended = 0)
    {n : ℕ} (hn : n = k.xPendedTicks.toNat) :
    ∃ k' b L', resumeScheduler vApplicationTickHook fuel k = .ok (k', b) ∧ (b = true → k'.pendSV = true) ∧
      TaskLists k' L' ∧ k'.Clock (now + n) ∧
      k'.schedule (now + n) = { Schedule.pass^[n] (k.schedule now).release with held := 0 } ∧
      (∀ q x, Onward k.lists L k'.lists L' (pxReadyTasksLists q) x) ∧ (∀ t, ∃ i, xStateListItem t ∈ L' i) ∧
      k'.uxPriority = k.uxPriority ∧ k'.uxCurrentNumberOfTasks = k.uxCurrentNumberOfTasks ∧ k'.hook = k.hook ∧
      Flagged k k' now (now + n) := by
  obtain ⟨k₁, moved, L₁, heq₁, hw, hyield⟩ := h.movePendingReady_eq hcard false
    (lt_of_le_of_lt (h.lists.length_le_card _) hfuel) hpresent hwait
  obtain ⟨k₂, hk₂⟩ : ∃ k₂, k₂ = if moved then prvResetNextTaskUnblockTime k₁ else k₁ := ⟨_, rfl⟩
  have hw₂ : Woken k k₂ L L₁ (fun u => (k.waitOf u).isSignalled) ∧ k₂.xYieldPending = k₁.xYieldPending := by
    rw [hk₂]
    split
    · exact ⟨⟨hw.lists.prvResetNextTaskUnblockTime_eq hcard, hw.schedule, hw.onward, hw.sublist, hw.present,
        hw.priority, hw.number, hw.clock, hw.delayed, hw.pendSV, hw.hook⟩, rfl⟩
    · exact ⟨hw, rfl⟩
  obtain ⟨hw₂, hyield₂⟩ := hw₂
  have hflag₂ : Flagged k k₂ now now := by
    constructor
    · rintro (hp | hy)
      · exact Or.inl (hw₂.pendSV.trans hp)
      · exact Or.inr (hyield₂.trans (hyield.2 (Or.inl hy)))
    · intro u hu hu' hlt
      rw [hw₂.status] at hu'
      split at hu'
      · next hsig => exact Or.inr (hyield₂.trans (hyield.2 (Or.inr ⟨u, isSignalled_eq_true.1 hsig, hlt⟩)))
      · exact absurd hu' hu
  have hfuture₂ : ∀ t w, k₂.statusOf now t = .delayed w → now < w := by
    intro t w ht
    rw [hw₂.status] at ht
    split at ht
    · cases ht
    · exact hfuture t w ht
  have hn₂ : k₂.xPendedTicks.toNat = n := by rw [hw₂.pended, hn]
  obtain ⟨k₃, L₃, heq₃, hp, hhook, hflag₃⟩ := unwindTicks_eq hcard hfuel vApplicationTickHook n hw₂.lists
    ⟨hw₂.clock.1 ▸ hclock.1, hw₂.clock.2 ▸ hclock.2⟩ hfuture₂ (hw₂.suspended.trans hrunning)
    (fun h0 hz => h0 (by rw [← hn₂, hz]; rfl))
  have hflag := hflag₂.trans hflag₃ hw₂.priority hw₂.current
  have hcall : resumeScheduler vApplicationTickHook fuel k = .ok (if k₃.xYieldPending then
      (vPortYield { k₃ with xPendedTicks := 0 }, true) else ({ k₃ with xPendedTicks := 0 }, false)) := by
    unfold resumeScheduler
    rw [heq₁]
    dsimp only [bind, Except.bind]
    rw [← hk₂, hn₂, heq₃]
    rfl
  have hschedule : { k₃ with xPendedTicks := 0 }.schedule (now + n) =
      { Schedule.pass^[n] (k.schedule now).release with held := 0 } := by
    have hs := hp.schedule
    rw [hw₂.schedule] at hs
    show { k₃.schedule (now + n) with held := 0 } = _
    rw [hs]
    rfl
  have hlists : TaskLists { k₃ with xPendedTicks := 0 } L₃ := hp.lists.congr rfl rfl rfl rfl rfl rfl
  have honward : ∀ q x, Onward k.lists L k₃.lists L₃ (pxReadyTasksLists q) x :=
    fun q x => (hw₂.onward q x).trans (hp.onward q x)
  have hpresent₃ : ∀ t, ∃ i, xStateListItem t ∈ L₃ i := fun t => hp.present t (hw₂.present t (hpresent t))
  have hprio := hp.priority.trans hw₂.priority
  have hnumber := hp.number.trans hw₂.number
  have hhook₃ := hhook.trans hw₂.hook
  rw [hcall]
  split
  · exact ⟨_, _, L₃, rfl, fun _ => rfl, hlists.congr rfl rfl rfl rfl rfl rfl, hp.clock, hschedule, honward, hpresent₃, hprio, hnumber, hhook₃,
      ⟨fun _ => Or.inl rfl, fun _ _ _ _ => Or.inl rfl⟩⟩
  · exact ⟨_, _, L₃, rfl, fun hb => Bool.noConfusion hb, hlists, hp.clock, hschedule, honward, hpresent₃, hprio, hnumber,
      hhook₃, ⟨hflag.keep, hflag.woken⟩⟩

end LcdKeypad
