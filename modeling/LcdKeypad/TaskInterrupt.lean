import LcdKeypad.KeyReports
import LcdKeypad.TickEvents

/-!
# Ticks that interrupt the task

The task takes one step for each access to `KBD_DATA` and each report, and a run of the tick hook may come between
any two steps.  The window of an iteration (`Window`) lies between its first read of `KBD_DATA` and its
`KBD_DATA = 0`.  At most one report is made in a window, and the final store clears every bit, so a key latched in
a window survives only by being reported in it: the iteration keeps what is latched in its window exactly if all of
it is one key and the rest of the chain selects this key whenever it is latched (`keepsLatched_iff`).
-/

namespace LcdKeypad

def reports (actions : List Action) : List KeyReport :=
  actions.filterMap fun a => match a with
    | .report key => some key
    | _ => none

@[simp] theorem reports_append (as as' : List Action) : reports (as ++ as') = reports as ++ reports as' :=
  List.filterMap_append

@[simp] theorem reports_map_send (ts : List Transfer) : reports (ts.map .send) = [] := by
  induction ts with
  | nil => rfl
  | cons t ts ih => exact ih

@[simp] theorem reports_map_latch (ms : List UInt8) : reports (ms.map .latch) = [] := by
  induction ms with
  | nil => rfl
  | cons m ms ih => exact ih

theorem mem_reports {r : KeyReport} {actions : List Action} : r ∈ reports actions ↔ .report r ∈ actions := by
  unfold reports
  rw [List.mem_filterMap]
  constructor
  · rintro ⟨a, ha, hr⟩
    cases a <;> simp at hr
    rw [← hr]
    exact ha
  · intro h
    exact ⟨.report r, h, rfl⟩

/-- What the rest of the iteration reports if `KBD_DATA` stays `x`. -/
def TaskPc.select (pc : TaskPc) (x : UInt8) : Option KeyReport :=
  match pc with
  | .testData => none
  | .test key => key.select x
  | .report key => some key
  | .clear => none

theorem TaskPc.select_congr {x y : UInt8} (h : ∀ key : Key, key.isSet x = key.isSet y) (pc : TaskPc) :
    pc.select x = pc.select y := by
  cases pc with
  | testData => rfl
  | test r => exact KeyReport.select_congr h r
  | report r => rfl
  | clear => rfl

/-- A test selects its own branch or leaves the choice to the tests after it. -/
theorem KeyReport.select_eq (r : KeyReport) (x : UInt8) :
    r.select x = if r.key.isSet x then some r else r.elseBranch.select x := by
  cases r <;> simp only [KeyReport.select, chain, List.find?_cons, List.find?_nil, elseBranch, TaskPc.select] <;>
    split <;> rename_i h <;> rw [h] <;> rfl

/-! ### One step -/

@[simp] theorem cpuStep_task (s : Cpu) : cpuStep s .task = taskStep s := rfl

@[simp] theorem cpuStep_tick_pc (s : Cpu) (reads : PinReads) : (cpuStep s (.tick reads)).1.pc = s.pc := rfl

@[simp] theorem cpuStep_tick_actions (s : Cpu) (reads : PinReads) :
    (cpuStep s (.tick reads)).2 = (vApplicationTickHook reads s.board).2 := rfl

theorem taskStep_test {s : Cpu} {r : KeyReport} (h : s.pc = .test r) :
    taskStep s = ({ s with pc := if r.key.isSet s.board.keypad.kbdData then .report r else r.elseBranch }, []) := by
  unfold taskStep
  rw [h]
  simp only [KeyReport.test_iff]

theorem taskStep_report {s : Cpu} {r : KeyReport} (h : s.pc = .report r) :
    taskStep s = ({ board := (s.board.report r).1, pc := .clear }, [.report r]) := by
  unfold taskStep
  rw [h]
  rfl

theorem taskStep_clear {s : Cpu} (h : s.pc = .clear) :
    taskStep s = ({ board := s.board.clear, pc := .testData }, [.clear]) := by
  unfold taskStep
  rw [h]

/-- A step between the first read and the final store leaves `KBD_DATA` alone, and either makes the selected report
or does not change what is selected. -/
theorem taskStep_select {s : Cpu} (hdata : s.pc ≠ .testData) (hclear : s.pc ≠ .clear) :
    (taskStep s).1.board.keypad = s.board.keypad ∧
      (s.pc.select s.board.keypad.kbdData).toList =
        reports (taskStep s).2 ++ ((taskStep s).1.pc.select s.board.keypad.kbdData).toList := by
  cases hpc : s.pc with
  | testData => exact absurd hpc hdata
  | clear => exact absurd hpc hclear
  | test r =>
    rw [taskStep_test hpc]
    refine ⟨rfl, ?_⟩
    by_cases hset : r.key.isSet s.board.keypad.kbdData = true
    · simp [TaskPc.select, r.select_eq, hset, reports]
    · simp [TaskPc.select, r.select_eq, hset, reports]
  | report r =>
    rw [taskStep_report hpc]
    exact ⟨s.board.report_keypad r, rfl⟩

@[simp] theorem reports_tickHook (reads : PinReads) (b : Board) : reports (vApplicationTickHook reads b).2 = [] := by
  unfold vApplicationTickHook
  simp only
  split
  · simp only [reports_append, reports_map_send, reports_map_latch, List.append_nil]
  · simp only [reports_map_send]

/-! ### Windows -/

def hookLatches (s : Cpu) (reads : PinReads) : List UInt8 := latches (cpuStep s (.tick reads)).2

/-- The events `w` lead from a state after the first read of an iteration to the point before its `KBD_DATA = 0`. -/
structure Window (s : Cpu) (w : List CpuEvent) : Prop where
  inside : ∀ w', w' <+: w → (Runs.final cpuStep s w').pc ≠ .testData
  ends : (Runs.final cpuStep s w).pc = .clear

theorem Window.pc_ne {s : Cpu} {w : List CpuEvent} (h : Window s w) : s.pc ≠ .testData :=
  h.inside [] List.nil_prefix

theorem Window.append {s : Cpu} {w w' : List CpuEvent} (h : Window s (w ++ w')) :
    Window (Runs.final cpuStep s w) w' := by
  constructor
  · intro w'' hprefix
    have hpc := h.inside (w ++ w'') ((List.prefix_append_right_inj w).2 hprefix)
    rw [Runs.final_append] at hpc
    exact hpc
  · have hpc := h.ends
    rw [Runs.final_append] at hpc
    exact hpc

theorem Window.tail {s : Cpu} {e : CpuEvent} {w : List CpuEvent} (h : Window s (e :: w)) :
    Window (cpuStep s e).1 w := Window.append (w := [e]) h

theorem Window.nil {s : Cpu} (h : s.pc = .clear) : Window s [] := by
  constructor
  · intro w' hprefix
    rw [List.prefix_nil.1 hprefix]
    simp [h]
  · exact h

theorem Window.cons {s : Cpu} {e : CpuEvent} {w : List CpuEvent} (hpc : s.pc ≠ .testData)
    (h : Window (cpuStep s e).1 w) : Window s (e :: w) := by
  constructor
  · intro w' hprefix
    rcases List.prefix_cons_iff.1 hprefix with rfl | ⟨w'', rfl, hprefix'⟩
    · exact hpc
    · exact h.inside w'' hprefix'
  · exact h.ends

theorem Window.pc_ne_clear {s : Cpu} {w : List CpuEvent} (h : Window s (.task :: w)) : s.pc ≠ .clear := by
  intro hpc
  apply h.tail.pc_ne
  simp [taskStep_clear hpc]

theorem cpuStep_valid (s : Cpu) (e : CpuEvent) (h : s.board.keypad.Valid) : (cpuStep s e).1.board.keypad.Valid := by
  cases e with
  | tick reads => exact (tickHook_isSet reads h).1
  | task =>
    rw [cpuStep_task]
    cases hpc : s.pc with
    | testData => unfold taskStep; rw [hpc]; exact h
    | test r => rw [taskStep_test hpc]; exact h
    | report r =>
      have hkeypad : (taskStep s).1.board.keypad = s.board.keypad := by
        rw [taskStep_report hpc]
        exact s.board.report_keypad r
      rw [hkeypad]
      exact h
    | clear =>
      rw [taskStep_clear hpc]
      exact ⟨h.kbdSm_eq, h.onlyKeys_temp, Keypad.valid_boot.onlyKeys_data⟩

/-- At most one report is made in a window, and none before the final store. -/
theorem Window.reports_length {s : Cpu} {w : List CpuEvent} (h : Window s w) :
    (reports (Runs.emitted cpuStep s w)).length ≤ 1 ∧ (s.pc = .clear → reports (Runs.emitted cpuStep s w) = []) := by
  induction w generalizing s with
  | nil => exact ⟨Nat.zero_le 1, fun _ => rfl⟩
  | cons e w ih =>
    obtain ⟨hle, hnil⟩ := ih h.tail
    rw [Runs.emitted_cons, reports_append]
    cases e with
    | tick reads =>
      simp only [cpuStep_tick_actions, reports_tickHook, List.nil_append]
      exact ⟨hle, hnil⟩
    | task =>
      have hclear := h.pc_ne_clear
      refine ⟨?_, fun hpc => absurd hpc hclear⟩
      cases hpc : s.pc with
      | testData => exact absurd hpc h.pc_ne
      | clear => exact absurd hpc hclear
      | test r =>
        have hnone : (cpuStep s .task).2 = [] := by simp [taskStep_test hpc]
        rw [hnone]
        exact hle
      | report r =>
        have hone : (cpuStep s .task).2 = [.report r] := by simp [taskStep_report hpc]
        have hrest : reports (Runs.emitted cpuStep (cpuStep s .task).1 w) = [] := by
          apply hnil
          simp [taskStep_report hpc]
        rw [hone, hrest]
        exact Nat.le_refl 1

/-- If nothing but keys already set in `KBD_DATA` is latched in a window, it makes the report that is selected at
its start. -/
theorem Window.reports_eq_select {s : Cpu} {w : List CpuEvent} (h : Window s w) (hvalid : s.board.keypad.Valid)
    (hsteady : ∀ w1 reads w2, w = w1 ++ .tick reads :: w2 → ∀ key : Key,
      key.mask ∈ hookLatches (Runs.final cpuStep s w1) reads → key.isSet s.board.keypad.kbdData = true) :
    reports (Runs.emitted cpuStep s w) = (s.pc.select s.board.keypad.kbdData).toList := by
  induction w generalizing s with
  | nil =>
    have hpc : s.pc = .clear := h.ends
    rw [hpc]
    rfl
  | cons e w ih =>
    -- the keys set in `KBD_DATA` stay the same, so what is latched later was already set then
    have hrest : ∀ (hsame : ∀ key : Key, key.isSet (cpuStep s e).1.board.keypad.kbdData =
        key.isSet s.board.keypad.kbdData), reports (Runs.emitted cpuStep (cpuStep s e).1 w) =
          ((cpuStep s e).1.pc.select (cpuStep s e).1.board.keypad.kbdData).toList := by
      intro hsame
      refine ih h.tail (cpuStep_valid s e hvalid) fun w1 reads w2 hw key hmem => ?_
      rw [hsame]
      exact hsteady (e :: w1) reads w2 (by rw [hw]; rfl) key hmem
    rw [Runs.emitted_cons, reports_append]
    cases e with
    | tick reads =>
      obtain ⟨-, hset, -⟩ := tickHook_isSet reads hvalid
      have hsame : ∀ key : Key, key.isSet (cpuStep s (.tick reads)).1.board.keypad.kbdData =
          key.isSet s.board.keypad.kbdData := by
        intro key
        refine (hset key).trans ?_
        by_cases hmem : key.mask ∈ latches (vApplicationTickHook reads s.board).2
        · rw [hsteady [] reads w rfl key hmem, Bool.true_or]
        · rw [decide_eq_false hmem, Bool.or_false]
      have hselect : (cpuStep s (.tick reads)).1.pc.select (cpuStep s (.tick reads)).1.board.keypad.kbdData =
          s.pc.select s.board.keypad.kbdData := TaskPc.select_congr hsame s.pc
      rw [hrest hsame, hselect]
      simp
    | task =>
      obtain ⟨hkeypad, hselect⟩ := taskStep_select h.pc_ne h.pc_ne_clear
      have hkeypad' : (cpuStep s .task).1.board.keypad = s.board.keypad := hkeypad
      rw [hrest (fun key => by rw [hkeypad']), hkeypad']
      exact hselect.symm

private theorem isSet_tick_of_only {s : Cpu} (hvalid : s.board.keypad.Valid) {reads : PinReads} {key : Key}
    (hmem : key.mask ∈ hookLatches s reads) (honly : ∀ m ∈ hookLatches s reads, m = key.mask) (k : Key) :
    k.isSet (cpuStep s (.tick reads)).1.board.keypad.kbdData =
      k.isSet (s.board.keypad.kbdData ||| key.mask) := by
  have hiff : k.mask ∈ hookLatches s reads ↔ k = key := by
    constructor
    · intro h
      exact Key.mask_injective (honly _ h)
    · rintro rfl
      exact hmem
  have hset := (tickHook_isSet reads hvalid).2.1 k
  rw [k.isSet_or, k.isSet_mask, ← decide_eq_decide.2 hiff]
  exact hset

def LatchesOnly (s : Cpu) (w : List CpuEvent) (key : Key) : Prop :=
  ∀ w1 reads w2, w = w1 ++ .tick reads :: w2 → ∀ m ∈ hookLatches (Runs.final cpuStep s w1) reads, m = key.mask

/-- If a window latches nothing but the key, then after each latch it makes the report that is selected then. -/
theorem Window.reports_after_latch {s : Cpu} {w w1 w2 : List CpuEvent} {reads : PinReads} (h : Window s w)
    (hvalid : s.board.keypad.Valid) (hw : w = w1 ++ .tick reads :: w2) {key : Key} (honly : LatchesOnly s w key)
    (hmem : key.mask ∈ hookLatches (Runs.final cpuStep s w1) reads) :
    reports (Runs.emitted cpuStep (Runs.final cpuStep s (w1 ++ [.tick reads])) w2) =
      ((Runs.final cpuStep s w1).pc.select
        ((Runs.final cpuStep s w1).board.keypad.kbdData ||| key.mask)).toList := by
  have hvalidAt : ∀ es, (Runs.final cpuStep s es).board.keypad.Valid :=
    fun es => Runs.final_invariant cpuStep_valid hvalid es
  have hset := isSet_tick_of_only (hvalidAt w1) hmem (honly w1 reads w2 hw)
  have hfinal : Runs.final cpuStep s (w1 ++ [.tick reads]) =
      (cpuStep (Runs.final cpuStep s w1) (.tick reads)).1 := Runs.final_append ..
  have hwindow : Window (Runs.final cpuStep s (w1 ++ [.tick reads])) w2 := by
    apply Window.append
    rw [List.append_assoc, List.singleton_append, ← hw]
    exact h
  rw [hwindow.reports_eq_select (hvalidAt _), hfinal]
  · exact congrArg Option.toList (TaskPc.select_congr hset _)
  · -- what is latched later is the same key, which is set by now
    intro w1' reads' w2' hw' k hk
    have hk' : k.mask = key.mask := by
      apply honly (w1 ++ .tick reads :: w1') reads' w2'
      · rw [hw, hw', List.append_assoc, List.cons_append]
      · rw [← Runs.final_append, List.append_assoc] at hk
        exact hk
    rw [hfinal, hset, k.isSet_or, Key.mask_injective hk', Key.isSet_mask, decide_eq_true rfl, Bool.or_true]

private theorem mem_reports_of_later {s : Cpu} {w w1 w2 : List CpuEvent} {reads : PinReads}
    (hw : w = w1 ++ .tick reads :: w2) {r : KeyReport}
    (hr : .report r ∈ Runs.emitted cpuStep (Runs.final cpuStep s (w1 ++ [.tick reads])) w2) :
    r ∈ reports (Runs.emitted cpuStep s w) := by
  rw [hw, ← List.singleton_append, ← List.append_assoc, Runs.emitted_append, reports_append]
  exact List.mem_append_right _ (mem_reports.2 hr)

theorem Window.report_unique {s : Cpu} {w : List CpuEvent} (h : Window s w) {r r' : KeyReport}
    (hr : r ∈ reports (Runs.emitted cpuStep s w)) (hr' : r' ∈ reports (Runs.emitted cpuStep s w)) : r = r' := by
  have hlength := h.reports_length.1
  generalize reports (Runs.emitted cpuStep s w) = rs at hr hr' hlength
  cases rs with
  | nil => exact absurd hr List.not_mem_nil
  | cons a as =>
    obtain rfl : as = [] := List.eq_nil_of_length_eq_zero (by rw [List.length_cons] at hlength; omega)
    rw [List.mem_singleton] at hr hr'
    rw [hr, hr']

/-- Every key latched in a window is reported in it exactly if all of it is one key that the tests still to come
select whenever it is latched. -/
theorem Window.reports_latched_iff {s : Cpu} {w : List CpuEvent} (h : Window s w) (hvalid : s.board.keypad.Valid) :
    (∀ w1 reads w2, w = w1 ++ .tick reads :: w2 → ∀ key : Key, key.mask ∈ hookLatches (Runs.final cpuStep s w1) reads →
      ∃ r, .report r ∈ Runs.emitted cpuStep (Runs.final cpuStep s (w1 ++ [.tick reads])) w2 ∧ r.mask = key.mask) ↔
    ∃ key : Key, ∀ w1 reads w2, w = w1 ++ .tick reads :: w2 →
      ∀ m ∈ hookLatches (Runs.final cpuStep s w1) reads, m = key.mask ∧ ∃ r,
        (Runs.final cpuStep s w1).pc.select ((Runs.final cpuStep s w1).board.keypad.kbdData ||| key.mask) = some r ∧
          r.key = key := by
  have hkey : ∀ w1 reads, ∀ m ∈ hookLatches (Runs.final cpuStep s w1) reads, ∃ key : Key, m = key.mask :=
    fun w1 reads => (tickHook_isSet reads (Runs.final_invariant cpuStep_valid hvalid w1)).2.2
  constructor
  · intro hreported
    by_cases hlatch : ∃ w1 reads w2, w = w1 ++ .tick reads :: w2 ∧
        ∃ key : Key, key.mask ∈ hookLatches (Runs.final cpuStep s w1) reads
    · obtain ⟨w1, reads, w2, hw, key, hmem⟩ := hlatch
      obtain ⟨r0, hr0, hmask0⟩ := hreported w1 reads w2 hw key hmem
      -- there is one report in the window, so every latched key is the one it reports
      have honly : LatchesOnly s w key := by
        intro w1' reads' w2' hw' m hm
        obtain ⟨k, rfl⟩ := hkey w1' reads' m hm
        obtain ⟨r, hr, hmask⟩ := hreported w1' reads' w2' hw' k hm
        have hrr := h.report_unique (mem_reports_of_later hw' hr) (mem_reports_of_later hw hr0)
        rw [← hmask, hrr, hmask0]
      refine ⟨key, fun w1' reads' w2' hw' m hm => ?_⟩
      obtain rfl := honly w1' reads' w2' hw' m hm
      obtain ⟨r, hr, hmask⟩ := hreported w1' reads' w2' hw' key hm
      have hselect := mem_reports.2 hr
      rw [h.reports_after_latch hvalid hw' honly hm, Option.mem_toList] at hselect
      exact ⟨rfl, r, hselect, Key.mask_injective (r.mask_eq.symm.trans hmask)⟩
    · refine ⟨.enter, fun w1 reads w2 hw m hm => absurd ?_ hlatch⟩
      obtain ⟨k, rfl⟩ := hkey w1 reads m hm
      exact ⟨w1, reads, w2, hw, k, hm⟩
  · rintro ⟨key, hselected⟩ w1 reads w2 hw k hmem
    obtain ⟨hk, r, hr, hrkey⟩ := hselected w1 reads w2 hw k.mask hmem
    obtain rfl := Key.mask_injective hk
    have honly : LatchesOnly s w k := fun w1 reads w2 hw m hm => (hselected w1 reads w2 hw m hm).1
    refine ⟨r, mem_reports.1 ?_, by rw [r.mask_eq, hrkey]⟩
    rw [h.reports_after_latch hvalid hw honly hmem, hr]
    exact List.mem_singleton_self r

/-! ### Iterations -/

/-- An iteration from the state `s` that finds `KBD_DATA` set, and that gets from its first read to its
`KBD_DATA = 0` by the events `w`. -/
structure Iteration (s : Cpu) (w : List CpuEvent) : Prop where
  starts : s.pc = .testData
  window : Window (cpuStep s .task).1 w

def iterationEnd (s : Cpu) (w : List CpuEvent) : Cpu :=
  (cpuStep (Runs.final cpuStep (cpuStep s .task).1 w) .task).1

/-- A key that a run of the hook latches in the window of the iteration, and that the iteration does not report
after that, is still set in `KBD_DATA` when the iteration ends. -/
def KeepsLatched (s : Cpu) (w : List CpuEvent) : Prop :=
  ∀ w1 reads w2, w = w1 ++ .tick reads :: w2 → ∀ key : Key,
    key.mask ∈ hookLatches (Runs.final cpuStep (cpuStep s .task).1 w1) reads →
    (∀ r, .report r ∈ Runs.emitted cpuStep (Runs.final cpuStep (cpuStep s .task).1 (w1 ++ [.tick reads])) w2 →
      r.mask ≠ key.mask) →
    key.isSet (iterationEnd s w).board.keypad.kbdData = true

/-- The runs of the hook in the window latch at most one key, and only while the tests and reports still to come
select it. -/
def LatchesOnlySelected (s : Cpu) (w : List CpuEvent) : Prop :=
  ∃ key : Key, ∀ w1 reads w2, w = w1 ++ .tick reads :: w2 →
    ∀ m ∈ hookLatches (Runs.final cpuStep (cpuStep s .task).1 w1) reads, m = key.mask ∧ ∃ r,
      (Runs.final cpuStep (cpuStep s .task).1 w1).pc.select
        ((Runs.final cpuStep (cpuStep s .task).1 w1).board.keypad.kbdData ||| key.mask) = some r ∧ r.key = key

def Cpu.boot : Cpu := ⟨.boot, .testData⟩

theorem final_boot_valid (es : List CpuEvent) : (Runs.final cpuStep .boot es).board.keypad.Valid :=
  Runs.final_invariant cpuStep_valid Keypad.valid_boot es

theorem isSet_iterationEnd {s : Cpu} {w : List CpuEvent} (h : Iteration s w) (key : Key) :
    key.isSet (iterationEnd s w).board.keypad.kbdData = false := by
  have hend : iterationEnd s w = (taskStep (Runs.final cpuStep (cpuStep s .task).1 w)).1 := rfl
  rw [hend, taskStep_clear h.window.ends]
  exact key.isSet_zero

/-- In every run from boot, an iteration keeps what the tick hook latches in its window exactly if that is at most
one key, latched only while the tests and reports still to come select it. -/
theorem keepsLatched_iff (es : List CpuEvent) {w : List CpuEvent} (h : Iteration (Runs.final cpuStep .boot es) w) :
    KeepsLatched (Runs.final cpuStep .boot es) w ↔ LatchesOnlySelected (Runs.final cpuStep .boot es) w := by
  have hvalid := cpuStep_valid _ .task (final_boot_valid es)
  refine Iff.trans ?_ (h.window.reports_latched_iff hvalid)
  constructor
  · intro hkeeps w1 reads w2 hw key hmem
    by_contra hnone
    have hset := hkeeps w1 reads w2 hw key hmem fun r hr hmask => hnone ⟨r, hr, hmask⟩
    rw [isSet_iterationEnd h key] at hset
    cases hset
  · intro hreported w1 reads w2 hw key hmem hnone
    obtain ⟨r, hr, hmask⟩ := hreported w1 reads w2 hw key hmem
    exact absurd hmask (hnone r hr)

/-! ### A run that loses a key -/

/-- One key is held down at tick 50, another one at tick 150. -/
def tapReads (first second : Key) (t : Nat) (pin : Pin) : UInt32 :=
  if t = 50 ∧ pin = first.pin ∨ t = 150 ∧ pin = second.pin then 1 else 0

def ticks (reads : Nat → PinReads) (n : Nat) : List CpuEvent := (List.range n).map fun t => .tick (reads (t + 1))

theorem final_ticks (reads : Nat → PinReads) (n : Nat) :
    Runs.final cpuStep .boot (ticks reads n) = ⟨boardAfter reads n, .testData⟩ := by
  unfold ticks
  induction n with
  | zero => rfl
  | succ n ih =>
    rw [List.range_succ, List.map_append, Runs.final_append, ih]
    rfl

/-- Before tick 200 the first key is in `KBD_DATA`, and the tick latches the second. -/
theorem boardAfter_tapReads (first second : Key) :
    (boardAfter (tapReads first second) 199).keypad = ⟨first.mask, second.mask, 1⟩ ∧
      (boardAfter (tapReads first second) 199).keypadTickCounter.toNat = 49 ∧
      (serviceKBD4X1 (tapReads first second 200) ⟨first.mask, second.mask, 1⟩).2 = [second.mask] := by
  obtain ⟨hkeypad, hcounter⟩ := boardAfter_keypad (tapReads first second) 199
  refine ⟨hkeypad.trans ?_, hcounter, ?_⟩
  · cases first <;> cases second <;> decide
  · cases first <;> cases second <;> decide

private theorem cpuStep_first_read {b : Board} {key : Key} (h : b.keypad.kbdData = key.mask) :
    (cpuStep ⟨b, .testData⟩ .task).1 = ⟨b, .test .enter⟩ := by
  have hne : b.keypad.kbdData ≠ 0 := by
    rw [h]
    cases key <;> decide
  simp [taskStep, hne]

/-- ENTER is in `KBD_DATA` when the iteration starts, and tick 200 latches DOWN while the task is about to report
ENTER: the final store clears DOWN, which was never reported. -/
theorem loses_key_latched_in_window : ¬ ∀ es w, Iteration (Runs.final cpuStep .boot es) w →
    KeepsLatched (Runs.final cpuStep .boot es) w := by
  intro h
  have hkeeps := h (ticks (tapReads .enter .down) 199) [.task, .tick (tapReads .enter .down 200), .task]
  rw [final_ticks] at hkeeps
  obtain ⟨hkeypad, hcounter, hlatch⟩ := boardAfter_tapReads .enter .down
  generalize boardAfter (tapReads .enter .down) 199 = b at hkeeps hkeypad hcounter
  generalize tapReads .enter .down 200 = reads at hkeeps hlatch
  have hdata : b.keypad.kbdData = Key.enter.mask := by rw [hkeypad]
  have hread := cpuStep_first_read hdata
  have htest : (cpuStep ⟨b, .test .enter⟩ .task).1 = ⟨b, .report .enter⟩ := by
    have hstep := taskStep_test (s := ⟨b, .test .enter⟩) rfl
    simp [hstep, hdata, KeyReport.key]
  have hiteration : Iteration ⟨b, .testData⟩ [.task, .tick reads, .task] := by
    refine ⟨rfl, ?_⟩
    rw [hread]
    refine Window.cons TaskPc.noConfusion ?_
    rw [htest]
    exact Window.cons TaskPc.noConfusion (Window.cons TaskPc.noConfusion (Window.nil rfl))
  have hmem : Key.down.mask ∈ hookLatches (Runs.final cpuStep (cpuStep ⟨b, .testData⟩ .task).1 [.task]) reads := by
    have hlatches := (tickHook_of_counter_eq reads hcounter).2.2
    rw [hkeypad, hlatch] at hlatches
    rw [hread, Runs.final_cons, htest, Runs.final_nil, hookLatches, cpuStep_tick_actions, hlatches]
    exact List.mem_singleton_self _
  have hset := hkeeps hiteration [.task] reads [.task] rfl .down hmem fun r hr => by
    rw [hread, List.singleton_append, Runs.final_cons, htest] at hr
    obtain rfl : r = .enter := by simpa [taskStep, Board.report] using hr
    decide
  rw [isSet_iterationEnd hiteration] at hset
  cases hset

/-- An iteration that finds DOWN, with a run of the hook that latches ENTER before its bit is tested. -/
private theorem enter_before_test {b : Board} {reads : PinReads} (hvalid : b.keypad.Valid)
    (hdata : b.keypad.kbdData = Key.down.mask)
    (hlatch : latches (vApplicationTickHook reads b).2 = [Key.enter.mask]) :
    Iteration ⟨b, .testData⟩ [.tick reads, .task, .task] ∧
      LatchesOnlySelected ⟨b, .testData⟩ [.tick reads, .task, .task] := by
  have hread := cpuStep_first_read hdata
  have hset : Key.enter.isSet (vApplicationTickHook reads b).1.keypad.kbdData = true := by
    rw [(tickHook_isSet reads hvalid).2.1, hlatch]
    simp
  have htest : (cpuStep (cpuStep ⟨b, .test .enter⟩ (.tick reads)).1 .task).1.pc = .report .enter := by
    rw [cpuStep_task, taskStep_test (cpuStep_tick_pc ..)]
    exact if_pos hset
  constructor
  · refine ⟨rfl, ?_⟩
    rw [hread]
    refine Window.cons TaskPc.noConfusion (Window.cons TaskPc.noConfusion ?_)
    refine Window.cons (by rw [htest]; simp) (Window.nil ?_)
    rw [cpuStep_task, taskStep_report htest]
  · refine ⟨.enter, ?_⟩
    rw [hread]
    intro w1 reads' w2 hw m hm
    cases w1 with
    | nil =>
      obtain ⟨rfl, -⟩ : reads = reads' ∧ [.task, .task] = w2 := by simpa using hw
      have hm' : m ∈ [Key.enter.mask] := by
        rw [← hlatch]
        exact hm
      have hselect : KeyReport.select .enter (b.keypad.kbdData ||| Key.enter.mask) = some .enter := by
        rw [hdata]
        decide
      exact ⟨List.mem_singleton.1 hm', .enter, hselect, rfl⟩
    | cons e w1 =>
      have hmem : CpuEvent.tick reads' ∈ [CpuEvent.task, CpuEvent.task] := by
        rw [List.cons_append, List.cons.injEq] at hw
        rw [hw.2]
        exact List.mem_append_right _ (List.mem_cons_self ..)
      simp at hmem

/-- DOWN is in `KBD_DATA` when the iteration starts, and tick 200 latches ENTER before its bit is tested: the
iteration reports it. -/
theorem keepsLatched_enter_before_test :
    KeepsLatched (Runs.final cpuStep .boot (ticks (tapReads .down .enter) 199))
      [.tick (tapReads .down .enter 200), .task, .task] := by
  obtain ⟨hkeypad, hcounter, hlatch⟩ := boardAfter_tapReads .down .enter
  have hvalid := final_boot_valid (ticks (tapReads .down .enter) 199)
  have hlatches := (tickHook_of_counter_eq (tapReads .down .enter 200) hcounter).2.2
  rw [hkeypad, hlatch] at hlatches
  rw [final_ticks] at hvalid
  obtain ⟨hiteration, hselected⟩ := enter_before_test (b := boardAfter (tapReads .down .enter) 199) hvalid
    (congrArg Keypad.kbdData hkeypad) hlatches
  rw [← final_ticks] at hiteration hselected
  exact (keepsLatched_iff _ hiteration).2 hselected

/-! ### Uninterrupted iterations -/

/-- From `pc` on, the steps of the task alone report the selected key, clear `KBD_DATA` and end the iteration. -/
def Finishes (b : Board) (pc : TaskPc) : Prop := ∃ n,
  Runs.final cpuStep ⟨b, pc⟩ (List.replicate n .task) =
      ⟨(b.reportSelected (pc.select b.keypad.kbdData)).clear, .testData⟩ ∧
    Runs.emitted cpuStep ⟨b, pc⟩ (List.replicate n .task) =
      (pc.select b.keypad.kbdData).toList.map .report ++ [.clear]

private theorem finishes_clear (b : Board) : Finishes b .clear := ⟨1, rfl, rfl⟩

private theorem finishes_report (b : Board) (r : KeyReport) : Finishes b (.report r) := ⟨2, rfl, rfl⟩

private theorem finishes_test {b : Board} {r : KeyReport} (h : Finishes b r.elseBranch) : Finishes b (.test r) := by
  have hstep := taskStep_test (s := ⟨b, .test r⟩) rfl
  have hnext : ∀ pc, Finishes b pc → taskStep ⟨b, .test r⟩ = (⟨b, pc⟩, []) →
      r.select b.keypad.kbdData = pc.select b.keypad.kbdData → Finishes b (.test r) := by
    rintro pc ⟨n, hfinal, hemitted⟩ htask hselect
    refine ⟨n + 1, ?_, ?_⟩
    · rw [List.replicate_succ, Runs.final_cons, cpuStep_task, htask, TaskPc.select, hselect]
      exact hfinal
    · rw [List.replicate_succ, Runs.emitted_cons, cpuStep_task, htask, TaskPc.select, hselect]
      exact hemitted
  by_cases hset : r.key.isSet b.keypad.kbdData = true
  · apply hnext (.report r) (finishes_report b r)
    · rw [hstep, if_pos hset]
    · rw [r.select_eq, if_pos hset]
      rfl
  · apply hnext r.elseBranch h
    · rw [hstep, if_neg hset]
    · rw [r.select_eq, if_neg hset]

/-- Without interrupts the steps of an iteration do what `applicationTask` does. -/
theorem taskSteps_eq_applicationTask (b : Board) : ∃ n,
    Runs.final cpuStep ⟨b, .testData⟩ (List.replicate n .task) = ⟨(applicationTask b).1, .testData⟩ ∧
    Runs.emitted cpuStep ⟨b, .testData⟩ (List.replicate n .task) = (applicationTask b).2 := by
  by_cases h : b.keypad.kbdData = 0
  · rw [applicationTask_of_eq_zero h]
    refine ⟨1, ?_, rfl⟩
    simp [taskStep, h]
  · have hread : taskStep ⟨b, .testData⟩ = (⟨b, .test .enter⟩, [.read]) := by simp [taskStep, h]
    obtain ⟨n, hfinal, hemitted⟩ : Finishes b (.test .enter) :=
      finishes_test (finishes_test (finishes_test (finishes_test (finishes_test (finishes_clear b)))))
    rw [applicationTask_of_ne_zero h]
    refine ⟨n + 1, ?_, ?_⟩
    · rw [List.replicate_succ, Runs.final_cons, cpuStep_task, hread]
      exact hfinal
    · rw [List.replicate_succ, Runs.emitted_cons, cpuStep_task, hread, hemitted]
      rfl

end LcdKeypad
