import LcdKeypad.KernelStart

/-!
# The invariant of the kernel

What holds between the events, and that it holds when the scheduler is started.
-/

namespace LcdKeypad

open TimedSchedule BitSet TaskList TcbItem

variable {τ β : Type} [DecidableEq τ] [Fintype τ] {c : KernelSetup τ}

structure KernelInv (c : KernelSetup τ) (k : Kernel τ β) (now : ℕ) (L : TaskList → List (TcbItem τ)) : Prop where
  lists : TaskLists k L
  clock : k.Clock now
  present : ∀ t, ∃ i, xStateListItem t ∈ L i
  priority : k.uxPriority = c.uxPriority
  number : 0 < k.uxCurrentNumberOfTasks
  good : Good c.xIdleTask (k.schedule now)
  preempt : ∀ u, k.statusOf now u = .ready → c.uxPriority k.pxCurrentTCB < c.uxPriority u → k.SwitchPending

/-! ### The start -/

/-- The tasks of `added` have been created, and nothing else has happened. -/
structure BootInv (c : KernelSetup τ) (hook : β) (added : List τ) (k : Kernel τ β) (L : TaskList → List (TcbItem τ)) :
    Prop where
  lists : TaskLists k L
  mem : ∀ x i, x ∈ L i ↔ ∃ t ∈ added, x = xStateListItem t ∧ i = pxReadyTasksLists (c.uxPriority t)
  priority : k.uxPriority = c.uxPriority
  number : k.uxCurrentNumberOfTasks = .ofNat added.length
  current : added ≠ [] → k.pxCurrentTCB ∈ added ∧ ∀ t ∈ added, c.uxPriority t ≤ c.uxPriority k.pxCurrentTCB
  still : k.xPendedTicks = 0 ∧ k.uxSchedulerSuspended = 0 ∧ k.xNumOfOverflows = 0 ∧ k.hook = hook

theorem bootInv_initial (c : KernelSetup τ) (hook : β) : BootInv c hook [] (c.initial hook) fun _ => [] := by
  have hnext : ∀ i, c.lists.pxNext (.xListEnd i) = .xListEnd i := by
    intro i
    rw [← c.list i]
    exact Function.update_self _ _ _
  have hprevious : ∀ i, c.lists.pxPrevious (.xListEnd i) = .xListEnd i := by
    intro i
    rw [← c.list i]
    exact Function.update_self _ _ _
  have hcontainer : ∀ x, c.lists.pxContainer x = none := by
    intro x
    rw [← c.item x]
    exact Function.update_self _ _ _
  have hnumber : ∀ i, c.lists.uxNumberOfItems i = 0 := by
    intro i
    rw [← c.list i]
    exact Function.update_self _ _ _
  have hindex : ∀ i, c.lists.pxIndex i = .xListEnd i := by
    intro i
    rw [← c.list i]
    exact Function.update_self _ _ _
  have hvalue : ∀ i, c.lists.xItemValue (.xListEnd i) = portMAX_DELAY := by
    intro i
    rw [← c.list i]
    exact Function.update_self _ _ _
  have hlists : Lists c.lists fun _ => [] :=
    ⟨fun i => ⟨⟨hnext i, hprevious i⟩, List.nodup_singleton _⟩, fun x i => by simp [hcontainer],
      fun i => by rw [hnumber]; rfl, fun i => by rw [hindex]; exact List.mem_cons_self, hvalue⟩
  refine ⟨⟨hlists, Or.inl ⟨rfl, rfl⟩, c.priority, fun x i hx => absurd hx List.not_mem_nil, fun b => ?_,
    fun i _ => List.Pairwise.nil, c.event_value, fun t ht => absurd ht List.not_mem_nil⟩, fun x i => by simp, rfl, rfl, fun h => absurd rfl h, rfl, rfl, rfl, rfl⟩
  simp [KernelSetup.initial]

theorem bootInv_add {hook : β} {added : List τ} {k : Kernel τ β} {L : TaskList → List (TcbItem τ)}
    (h : BootInv c hook added k L) (hlength : added.length < 2 ^ 32) {t : τ} (ht : t ∉ added) :
    ∃ L', BootInv c hook (added ++ [t]) (prvAddNewTaskToReadyList k t) L' := by
  obtain ⟨k₁, hk₁⟩ : ∃ k₁, k₁ = { k with
    uxCurrentNumberOfTasks := k.uxCurrentNumberOfTasks + 1
    pxCurrentTCB :=
      if k.uxCurrentNumberOfTasks = 0 ∨ k.uxPriority k.pxCurrentTCB ≤ k.uxPriority t then t
      else k.pxCurrentTCB } := ⟨_, rfl⟩
  have h₁ : TaskLists k₁ L := by
    rw [hk₁]
    exact h.lists.congr rfl rfl rfl rfl rfl rfl
  have hnot : ∀ i, xStateListItem t ∉ L i := by
    intro i hi
    obtain ⟨u, hu, hut, -⟩ := (h.mem _ _).1 hi
    cases hut
    exact ht hu
  obtain ⟨L', hlists, hins, -⟩ := h₁.prvAddTaskToReadyList_eq hnot
  have hprio : k₁.uxPriority = c.uxPriority := by rw [hk₁]; exact h.priority
  have hstep : prvAddNewTaskToReadyList k t = prvAddTaskToReadyList t k₁ := by rw [hk₁]; rfl
  have hzero : k.uxCurrentNumberOfTasks = 0 ↔ added = [] := by
    rw [h.number, ← UInt32.toNat_inj, UInt32.toNat_ofNat_of_lt' (by simpa [UInt32.size] using hlength)]
    exact List.length_eq_zero_iff
  rw [hstep]
  refine ⟨L', hlists, fun x i => ?_, hprio, ?_, fun _ => ?_, ?_⟩
  · rw [hins.mem, h.mem, hprio]
    constructor
    · rintro (⟨u, hu, hx⟩ | hx)
      · exact ⟨u, List.mem_append_left _ hu, hx⟩
      · exact ⟨t, by simp, hx⟩
    · rintro ⟨u, hu, hx⟩
      rcases List.mem_append.1 hu with hu | hu
      · exact Or.inl ⟨u, hu, hx⟩
      · rw [List.mem_singleton.1 hu] at hx
        exact Or.inr hx
  · show k₁.uxCurrentNumberOfTasks = _
    rw [hk₁, List.length_append, UInt32.ofNat_add, ← h.number]
    rfl
  · show k₁.pxCurrentTCB ∈ _ ∧ ∀ u ∈ _, _ ≤ c.uxPriority k₁.pxCurrentTCB
    rw [hk₁]
    dsimp only
    split
    · next hcase =>
      rw [hzero, h.priority] at hcase
      refine ⟨by simp, fun u hu => ?_⟩
      rcases List.mem_append.1 hu with hu | hu
      · rcases hcase with rfl | hle
        · cases hu
        · exact UInt32.le_trans ((h.current (List.ne_nil_of_mem hu)).2 u hu) hle
      · rw [List.mem_singleton.1 hu]
        exact UInt32.le_refl _
    · next hcase =>
      rw [hzero, h.priority, not_or] at hcase
      obtain ⟨hmem, hmax⟩ := h.current hcase.1
      refine ⟨List.mem_append_left _ hmem, fun u hu => ?_⟩
      rcases List.mem_append.1 hu with hu | hu
      · exact hmax u hu
      · rw [List.mem_singleton.1 hu]
        exact UInt32.le_of_lt (UInt32.not_le.1 hcase.2)
  · show k₁.xPendedTicks = 0 ∧ _
    rw [hk₁]
    exact h.still

theorem bootInv_foldl {hook : β} {added ts : List τ} {k : Kernel τ β} {L : TaskList → List (TcbItem τ)}
    (h : BootInv c hook added k L) (hnodup : (added ++ ts).Nodup) (hlength : (added ++ ts).length < 2 ^ 32) :
    ∃ L', BootInv c hook (added ++ ts) (ts.foldl prvAddNewTaskToReadyList k) L' := by
  induction ts generalizing added k L with
  | nil =>
    rw [List.append_nil]
    exact ⟨L, h⟩
  | cons t ts ih =>
    rw [List.length_append, List.length_cons] at hlength
    have hnot : t ∉ added := by
      intro ht
      rw [List.nodup_append] at hnodup
      exact hnodup.2.2 t ht t List.mem_cons_self rfl
    obtain ⟨L₁, h₁⟩ := bootInv_add h (by omega) hnot
    have happend : added ++ t :: ts = added ++ [t] ++ ts := by simp
    rw [happend] at hnodup ⊢
    exact ih h₁ hnodup (by simp; omega)

/-- When the scheduler is started, all tasks are ready. -/
theorem boot_inv (c : KernelSetup τ) (hook : β) :
    ∃ L, KernelInv c (c.boot hook) 0 L ∧
      (c.boot hook).schedule 0 = ⟨(c.boot hook).pxCurrentTCB, 0, 0, 0, fun _ => .ready, fun _ => .nothing⟩ ∧
      (c.boot hook).xPendedTicks = 0 ∧ (c.boot hook).hook = hook := by
  have hcard : (c.first :: c.others).length ≤ Fintype.card τ := c.nodup.length_le_card
  have hcard' := c.card
  obtain ⟨L, h⟩ := bootInv_foldl (bootInv_initial c hook) c.nodup (by simp at hcard ⊢; omega)
  rw [List.nil_append] at h
  obtain ⟨hpended, hsuspended, hoverflows, hhook⟩ := h.still
  have hready : ∀ t, xStateListItem t ∈ L (pxReadyTasksLists (c.uxPriority t)) :=
    fun t => (h.mem _ _).2 ⟨t, c.complete t, rfl, rfl⟩
  have hlists : TaskLists (c.boot hook) L := by
    refine (h.lists.set_next portMAX_DELAY fun t ht => ?_).congr rfl rfl rfl rfl rfl rfl
    exact absurd (h.lists.lists.eq_of_mem ht (hready t)) (h.lists.delayed_ne _).1
  have hstatus : ∀ t, (c.boot hook).statusOf 0 t = .ready := fun t => hlists.statusOf_ready (hready t) 0
  have hwait : ∀ t, (c.boot hook).waitOf t = .nothing := by
    intro t
    rw [hlists.waitOf_nothing_iff]
    intro i hi
    obtain ⟨u, -, hu, -⟩ := (h.mem _ _).1 hi
    cases hu
  have hclock : (c.boot hook).Clock 0 := by
    refine ⟨rfl, ?_⟩
    rw [Nat.zero_div]
    exact hoverflows
  refine ⟨L, ⟨hlists, hclock, fun t => ⟨_, hready t⟩, h.priority, ?_, ?_, fun u _ hlt => ?_⟩,
    ?_, hpended, hhook⟩
  · show 0 < ((c.first :: c.others).foldl prvAddNewTaskToReadyList (c.initial hook)).uxCurrentNumberOfTasks
    rw [h.number, UInt32.lt_iff_toNat_lt, UInt32.toNat_ofNat_of_lt' (by
      rw [UInt32.size]
      simp at hcard ⊢
      omega)]
    simp
  · refine ⟨fun t ht => absurd (hwait t) ht, fun t w ht => ?_, fun _ => ⟨?_, fun t ht => ?_⟩, hstatus _⟩
    · rw [show ((c.boot hook).schedule 0).status t = .ready from hstatus t] at ht
      cases ht
    · show ((c.first :: c.others).foldl prvAddNewTaskToReadyList (c.initial hook)).xPendedTicks.toNat = 0
      rw [hpended]
      rfl
    · rw [show ((c.boot hook).schedule 0).wait t = .nothing from hwait t] at ht
      cases ht
  · have hmax := (h.current (by simp)).2 u (c.complete u)
    exact absurd hlt (UInt32.not_lt.2 hmax)
  · have hheld : (c.boot hook).xPendedTicks.toNat = 0 := congrArg UInt32.toNat hpended
    have hdepth : (c.boot hook).uxSchedulerSuspended.toNat = 0 := congrArg UInt32.toNat hsuspended
    unfold Kernel.schedule
    rw [hheld, hdepth, show (c.boot hook).statusOf 0 = fun _ => .ready from funext hstatus,
      show (c.boot hook).waitOf = fun _ => .nothing from funext hwait]

end LcdKeypad
