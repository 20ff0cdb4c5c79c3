import LcdKeypad.General.Runs
import LcdKeypad.Application
import LcdKeypad.KeypadEvents

/-!
# What the task reports

An iteration of the application task reports the first key in its chain of tests whose bit is set in `KBD_DATA`,
and then clears the whole byte.  So no latched key is dropped unreported exactly in the runs in which every
iteration of the task finds at most one key in `KBD_DATA` (`reportsEveryKey_iff`).
-/

namespace LcdKeypad

/-! ### The chain of tests -/

/-- The key that a branch reports: ENTER and MENU share a bit. -/
def KeyReport.key : KeyReport → Key
  | enter => .enter
  | menu => .enter
  | down => .down
  | up => .up
  | escape => .escape

theorem KeyReport.mask_eq (r : KeyReport) : r.mask = r.key.mask := by cases r <;> rfl

theorem KeyReport.test_iff (r : KeyReport) (x : UInt8) : x &&& r.mask ≠ 0 ↔ r.key.isSet x = true := by
  rw [r.mask_eq, Key.isSet_iff]

def KeyReport.chain : KeyReport → List KeyReport
  | enter => [.enter, .menu, .down, .up, .escape]
  | menu => [.menu, .down, .up, .escape]
  | down => [.down, .up, .escape]
  | up => [.up, .escape]
  | escape => [.escape]

/-- The branch that the tests from the given one on take if `KBD_DATA` is `x`. -/
def KeyReport.select (r : KeyReport) (x : UInt8) : Option KeyReport :=
  r.chain.find? fun r => r.key.isSet x

theorem KeyReport.isSet_of_select {r r' : KeyReport} {x : UInt8} (h : r.select x = some r') :
    r'.key.isSet x = true := by
  unfold select at h
  have hfound := List.find?_some h
  exact hfound

theorem KeyReport.select_enter_isSome {key : Key} {x : UInt8} (h : key.isSet x = true) :
    ∃ r, KeyReport.select .enter x = some r := by
  have hmem : ∃ r, r ∈ KeyReport.chain .enter ∧ r.key = key := by
    cases key with
    | enter => exact ⟨.enter, by decide, rfl⟩
    | down => exact ⟨.down, by decide, rfl⟩
    | up => exact ⟨.up, by decide, rfl⟩
    | escape => exact ⟨.escape, by decide, rfl⟩
  obtain ⟨r, hr, hkey⟩ := hmem
  have hsome : (KeyReport.select .enter x).isSome := by
    rw [select, List.find?_isSome]
    exact ⟨r, hr, by rw [hkey]; exact h⟩
  exact Option.isSome_iff_exists.1 hsome

theorem KeyReport.select_congr {x y : UInt8} (h : ∀ key : Key, key.isSet x = key.isSet y) (r : KeyReport) :
    r.select x = r.select y := by
  unfold select
  simp only [h]

/-! ### One iteration -/

theorem applicationTask_of_eq_zero {b : Board} (h : b.keypad.kbdData = 0) : applicationTask b = (b, [.read]) := by
  unfold applicationTask
  rw [if_neg (fun hne => hne h)]

theorem Board.report_keypad (b : Board) (r : KeyReport) : (b.report r).1.keypad = b.keypad := by
  unfold Board.report
  rfl

def Board.reportSelected (b : Board) : Option KeyReport → Board
  | some r => (b.report r).1
  | none => b

theorem Board.clear_reportSelected_keypad (b : Board) (r : Option KeyReport) :
    (b.reportSelected r).clear.keypad = { b.keypad with kbdData := 0 } := by
  cases r with
  | none => rfl
  | some r =>
    simp only [reportSelected, clear, b.report_keypad r]

theorem applicationTask_of_ne_zero {b : Board} (h : b.keypad.kbdData ≠ 0) : applicationTask b =
    ((b.reportSelected (KeyReport.select .enter b.keypad.kbdData)).clear,
      .read :: ((KeyReport.select .enter b.keypad.kbdData).toList.map Action.report ++ [.clear])) := by
  unfold applicationTask KeyReport.select KeyReport.chain
  simp only [h, ne_eq, not_false_eq_true, ↓reduceIte]
  simp only [← ne_eq, KeyReport.test_iff, KeyReport.key, List.find?_cons, List.find?_nil]
  cases Key.enter.isSet b.keypad.kbdData with
  | true => rfl
  | false =>
    cases Key.down.isSet b.keypad.kbdData with
    | true => rfl
    | false =>
      cases Key.up.isSet b.keypad.kbdData with
      | true => rfl
      | false =>
        cases Key.escape.isSet b.keypad.kbdData with
        | true => rfl
        | false => rfl

/-! ### Runs of service calls and iterations -/

/-- A call of `ServiceKBD4X1`, or an iteration of the task. -/
inductive KeypadEvent
  | service (gpioPinRead : PinReads)
  | task

def keypadStep (b : Board) : KeypadEvent → Board × List Action
  | .service gpioPinRead =>
    ({ b with keypad := (serviceKBD4X1 gpioPinRead b.keypad).1 },
      (serviceKBD4X1 gpioPinRead b.keypad).2.map .latch)
  | .task => applicationTask b

@[simp] theorem keypadStep_task (b : Board) : keypadStep b .task = applicationTask b := rfl

def keypadRun (es : List KeypadEvent) : Board := Runs.final keypadStep .boot es

/-- A bit of `KBD_DATA` that the event clears is cleared by an iteration that reports a key with this bit. -/
def ReportsCleared (b : Board) (e : KeypadEvent) : Prop :=
  ∀ key : Key, key.isSet b.keypad.kbdData = true → key.isSet (keypadStep b e).1.keypad.kbdData = false →
    e = .task ∧ ∃ r, Action.report r ∈ (keypadStep b e).2 ∧ r.mask = key.mask

/-- No event of the run drops a latched key unreported. -/
def ReportsEveryKey (es : List KeypadEvent) : Prop :=
  ∀ es' e, es' ++ [e] <+: es → ReportsCleared (keypadRun es') e

def AtMostOneKey (x : UInt8) : Prop :=
  ∀ key key' : Key, key.isSet x = true → key'.isSet x = true → key = key'

theorem keypadRun_valid (es : List KeypadEvent) : (keypadRun es).keypad.Valid := by
  have hstep : ∀ (b : Board) (e : KeypadEvent), b.keypad.Valid → (keypadStep b e).1.keypad.Valid := by
    intro b e h
    cases e with
    | service gpioPinRead => exact (serviceKBD4X1_spec gpioPinRead h).valid
    | task =>
      rw [keypadStep_task]
      by_cases hdata : b.keypad.kbdData = 0
      · rw [applicationTask_of_eq_zero hdata]
        exact h
      · rw [applicationTask_of_ne_zero hdata, Board.clear_reportSelected_keypad]
        exact ⟨h.kbdSm_eq, h.onlyKeys_temp, Keypad.valid_boot.onlyKeys_data⟩
  exact Runs.final_invariant hstep Keypad.valid_boot es

theorem reportsCleared_service {b : Board} (h : b.keypad.Valid) (gpioPinRead : PinReads) :
    ReportsCleared b (.service gpioPinRead) := by
  intro key hset hcleared
  have hdata := (serviceKBD4X1_spec gpioPinRead h).isSet_data key
  rw [hset, Bool.true_or] at hdata
  exact absurd (hdata.symm.trans hcleared) (by decide)

/-- An iteration reports every key that it clears exactly if it finds at most one key. -/
theorem reportsCleared_task_iff (b : Board) : ReportsCleared b .task ↔ AtMostOneKey b.keypad.kbdData := by
  by_cases hdata : b.keypad.kbdData = 0
  · have hnone : ∀ key : Key, ¬ key.isSet b.keypad.kbdData = true := by
      intro key
      rw [hdata, key.isSet_zero]
      decide
    exact ⟨fun _ key _ hset _ => absurd hset (hnone key), fun _ key hset _ => absurd hset (hnone key)⟩
  · have htask := applicationTask_of_ne_zero hdata
    have hcleared : ∀ key : Key, key.isSet (keypadStep b .task).1.keypad.kbdData = false := by
      intro key
      rw [keypadStep_task, htask, Board.clear_reportSelected_keypad]
      exact key.isSet_zero
    have hreport : ∀ r, Action.report r ∈ (keypadStep b .task).2 ↔
        KeyReport.select .enter b.keypad.kbdData = some r := by
      intro r
      simp [htask]
    constructor
    · -- two set bits would have to be the bit of the one key that is reported
      intro h key key' hset hset'
      obtain ⟨-, r, hr, hmask⟩ := h key hset (hcleared key)
      obtain ⟨-, r', hr', hmask'⟩ := h key' hset' (hcleared key')
      rw [hreport] at hr hr'
      have hrr : r = r' := Option.some.inj (hr.symm.trans hr')
      exact Key.mask_injective (hmask.symm.trans (by rw [hrr]; exact hmask'))
    · intro h key hset _
      obtain ⟨r, hr⟩ := KeyReport.select_enter_isSome hset
      have hkey := h r.key key (KeyReport.isSet_of_select hr) hset
      exact ⟨rfl, r, (hreport r).2 hr, by rw [r.mask_eq, hkey]⟩

/-- No latched key is dropped unreported exactly in the runs whose iterations all find at most one key in
`KBD_DATA`. -/
theorem reportsEveryKey_iff (es : List KeypadEvent) : ReportsEveryKey es ↔
    ∀ es', es' ++ [.task] <+: es → AtMostOneKey (keypadRun es').keypad.kbdData := by
  constructor
  · intro h es' hprefix
    exact (reportsCleared_task_iff _).1 (h es' .task hprefix)
  · intro h es' e hprefix
    cases e with
    | service gpioPinRead => exact reportsCleared_service (keypadRun_valid es') gpioPinRead
    | task => exact (reportsCleared_task_iff _).2 (h es' hprefix)

def enterDownReads (pin : Pin) : UInt32 := if pin = Key.enter.pin ∨ pin = Key.down.pin then 1 else 0

/-- ENTER and DOWN are released together: one iteration reports ENTER and clears DOWN as well. -/
theorem drops_second_key : ¬ ∀ es, ReportsEveryKey es := by
  intro h
  have hdata : (keypadRun [.service enterDownReads, .service fun _ => 0]).keypad.kbdData = 0x03 := by decide
  have hone := (reportsCleared_task_iff _).1
    (h [.service enterDownReads, .service fun _ => 0, .task] [.service enterDownReads, .service fun _ => 0] .task
      (List.prefix_refl _))
  rw [hdata] at hone
  exact absurd (hone .enter .down (by decide) (by decide)) (by decide)

end LcdKeypad
