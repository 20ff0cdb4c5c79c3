import LcdKeypad.Application
import LcdKeypad.KeypadEvents

/-!
# From ticks to key events

The tick hook calls `ServiceKBD4X1` at every 50th tick, so its odd calls, the ones that compare, are those at
multiples of 100.  If no level of a key is shorter than 100 ticks, each release of the key is latched exactly once,
at the next multiple of 100 (`latch_iff_fallingEdge`).
-/

namespace LcdKeypad

open ReleaseDetector

def latches (actions : List Action) : List UInt8 :=
  actions.filterMap fun a => match a with
    | .latch mask => some mask
    | _ => none

@[simp] theorem latches_append (as as' : List Action) : latches (as ++ as') = latches as ++ latches as' :=
  List.filterMap_append

@[simp] theorem latches_map_send (ts : List Transfer) : latches (ts.map .send) = [] := by
  induction ts with
  | nil => rfl
  | cons t ts ih => exact ih

@[simp] theorem latches_map_latch (ms : List UInt8) : latches (ms.map .latch) = ms := by
  induction ms with
  | nil => rfl
  | cons m ms ih => exact congrArg (m :: ·) ih

/-! ### One tick -/

theorem tickHook_of_counter_lt (reads : PinReads) {b : Board} (h : b.keypadTickCounter.toNat + 1 < 50) :
    (vApplicationTickHook reads b).1.keypad = b.keypad ∧
      (vApplicationTickHook reads b).1.keypadTickCounter.toNat = b.keypadTickCounter.toNat + 1 ∧
      latches (vApplicationTickHook reads b).2 = [] := by
  have hsucc : (b.keypadTickCounter + 1).toNat = b.keypadTickCounter.toNat + 1 := by
    rw [UInt32.toNat_add]
    have h1 : (1 : UInt32).toNat = 1 := rfl
    omega
  have hlt : ¬ 50 ≤ b.keypadTickCounter + 1 := by
    intro hle
    have := UInt32.le_iff_toNat_le.1 hle
    rw [hsucc] at this
    have h50 : (50 : UInt32).toNat = 50 := rfl
    omega
  unfold vApplicationTickHook
  simp only [hlt, ↓reduceIte]
  exact ⟨trivial, hsucc, latches_map_send _⟩

theorem tickHook_of_counter_eq (reads : PinReads) {b : Board} (h : b.keypadTickCounter.toNat = 49) :
    (vApplicationTickHook reads b).1.keypad = (serviceKBD4X1 reads b.keypad).1 ∧
      (vApplicationTickHook reads b).1.keypadTickCounter.toNat = 0 ∧
      latches (vApplicationTickHook reads b).2 = (serviceKBD4X1 reads b.keypad).2 := by
  have hcounter : b.keypadTickCounter = 49 := UInt32.toNat_inj.1 h
  have hle : 50 ≤ b.keypadTickCounter + 1 := by rw [hcounter]; decide
  unfold vApplicationTickHook
  simp only [hle, ↓reduceIte, latches_append, latches_map_send, latches_map_latch, List.nil_append, true_and, and_true]
  rfl

/-- Every tick only sets bits of `KBD_DATA`, those that it latches. -/
theorem tickHook_isSet (reads : PinReads) {b : Board} (h : b.keypad.Valid) :
    (vApplicationTickHook reads b).1.keypad.Valid ∧
      (∀ key : Key, key.isSet (vApplicationTickHook reads b).1.keypad.kbdData =
        (key.isSet b.keypad.kbdData || decide (key.mask ∈ latches (vApplicationTickHook reads b).2))) ∧
      ∀ m ∈ latches (vApplicationTickHook reads b).2, ∃ key : Key, m = key.mask := by
  unfold vApplicationTickHook
  by_cases hle : 50 ≤ b.keypadTickCounter + 1
  · have hscan := serviceKBD4X1_spec reads h
    simp only [hle, ↓reduceIte, latches_append, latches_map_send, latches_map_latch, List.nil_append]
    exact ⟨hscan.valid, hscan.isSet_data, hscan.eq_mask⟩
  · simp only [hle, ↓reduceIte, latches_map_send]
    exact ⟨h, fun key => by simp, fun m hm => absurd hm List.not_mem_nil⟩

/-! ### Sequences of ticks -/

section Ticks

-- `reads t` is what the pins are read as at tick `t`; ticks are counted from 1
variable (reads : Nat → PinReads)

def boardAfter : Nat → Board
  | 0 => .boot
  | t + 1 => (vApplicationTickHook (reads (t + 1)) (boardAfter t)).1

def tickActions (t : Nat) : List Action := (vApplicationTickHook (reads t) (boardAfter reads (t - 1))).2

/-- What call number `n` of `ServiceKBD4X1` reads. -/
def keypadReads (n : Nat) : PinReads := reads (50 * (n + 1))

theorem boardAfter_keypad (t : Nat) :
    (boardAfter reads t).keypad = keypadAfter (keypadReads reads) (fun _ => false) (t / 50) ∧
      (boardAfter reads t).keypadTickCounter.toNat = t % 50 := by
  induction t with
  | zero => exact ⟨rfl, rfl⟩
  | succ t ih =>
    obtain ⟨hkeypad, hcounter⟩ := ih
    by_cases h : t % 50 = 49
    · obtain ⟨hk, hc, -⟩ := tickHook_of_counter_eq (reads (t + 1)) (hcounter.trans h)
      refine ⟨hk.trans ?_, hc.trans (by omega)⟩
      rw [show (t + 1) / 50 = t / 50 + 1 by omega, keypadAfter, keypadReads, show 50 * (t / 50 + 1) = t + 1 by omega,
        hkeypad]
      rfl
    · obtain ⟨hk, hc, -⟩ := tickHook_of_counter_lt (reads (t + 1)) (b := boardAfter reads t) (by omega)
      exact ⟨by rw [show (t + 1) / 50 = t / 50 by omega]; exact hk.trans hkeypad, hc.trans (by omega)⟩

/-- At multiples of 50 a tick latches what the call of `ServiceKBD4X1` latches, at other ticks nothing. -/
theorem latches_tickActions (t : Nat) : latches (tickActions reads (t + 1)) =
    if (t + 1) % 50 = 0 then latchedAt (keypadReads reads) (fun _ => false) (t / 50) else [] := by
  obtain ⟨hkeypad, hcounter⟩ := boardAfter_keypad reads t
  unfold tickActions
  rw [Nat.add_sub_cancel]
  by_cases h : t % 50 = 49
  · rw [if_pos (by omega), (tickHook_of_counter_eq (reads (t + 1)) (hcounter.trans h)).2.2, hkeypad, latchedAt,
      keypadReads, show 50 * (t / 50 + 1) = t + 1 by omega]
    rfl
  · rw [if_neg (by omega)]
    exact (tickHook_of_counter_lt (reads (t + 1)) (b := boardAfter reads t) (by omega)).2.2

def Key.level (key : Key) (t : Nat) : Bool := decide (reads t key.pin ≠ 0)

theorem sample_keypadReads (key : Key) : key.sample (keypadReads reads) = samples (key.level reads) 50 := by
  funext n
  exact key.isSet_readKBDPort (reads (50 * (n + 1)))

/-- Only ticks that are multiples of 100 latch, and tick `100 * (j + 1)` latches the keys whose detectors fire. -/
theorem latch_iff_fires (key : Key) (t : Nat) (ht : 1 ≤ t) : key.mask ∈ latches (tickActions reads t) ↔
    ∃ j, t = 100 * (j + 1) ∧ fires (samples (key.level reads) 50) (2 * j + 1) = true := by
  obtain ⟨t, rfl⟩ : ∃ t', t = t' + 1 := ⟨t - 1, by omega⟩
  rw [latches_tickActions]
  by_cases h50 : (t + 1) % 50 = 0
  · rw [if_pos h50]
    by_cases h100 : (t + 1) % 100 = 0
    · rw [mem_latchedAt_iff, sample_keypadReads]
      constructor
      · intro h
        exact ⟨t / 100, by omega, by rw [show 2 * (t / 100) + 1 = t / 50 by omega]; exact h⟩
      · rintro ⟨j, hj, h⟩
        rw [show t / 50 = 2 * j + 1 by omega]
        exact h
    · rw [show t / 50 = 2 * (t / 100) by omega, latchedAt_even]
      exact ⟨fun h => absurd h List.not_mem_nil, fun ⟨j, hj, _⟩ => absurd hj (by omega)⟩
  · rw [if_neg h50]
    exact ⟨fun h => absurd h List.not_mem_nil, fun ⟨j, hj, _⟩ => absurd hj (by omega)⟩

theorem boardAfter_valid (t : Nat) : (boardAfter reads t).keypad.Valid := by
  induction t with
  | zero => exact Keypad.valid_boot
  | succ t ih => exact (tickHook_isSet (reads (t + 1)) ih).1

/-- What a tick latches is set in `KBD_DATA`, and no other bit of a key changes. -/
theorem isSet_boardAfter (key : Key) (t : Nat) (ht : 1 ≤ t) : key.isSet (boardAfter reads t).keypad.kbdData =
    (key.isSet (boardAfter reads (t - 1)).keypad.kbdData || decide (key.mask ∈ latches (tickActions reads t))) := by
  obtain ⟨t, rfl⟩ : ∃ t', t = t' + 1 := ⟨t - 1, by omega⟩
  exact (tickHook_isSet (reads (t + 1)) (boardAfter_valid reads t)).2.1 key

theorem nodup_latches_tickActions (t : Nat) (ht : 1 ≤ t) : (latches (tickActions reads t)).Nodup := by
  obtain ⟨t, rfl⟩ : ∃ t', t = t' + 1 := ⟨t - 1, by omega⟩
  rw [latches_tickActions]
  split
  · exact (keypadAfter_scanned _ _ _ (keypadAfter_detector _ _ _).1).nodup
  · exact List.nodup_nil

end Ticks

section LongLevels

-- no level of the key that ends within the first `T` ticks lasts less than 100 ticks
variable {reads : Nat → PinReads} {T : Nat} {key : Key} (hlong : LongRuns (key.level reads) 100 T)
include hlong

theorem mem_latches_iff_edge {τ : Nat} (h1 : 1 ≤ τ) (hT : τ ≤ T) : key.mask ∈ latches (tickActions reads τ) ↔
    ∃ t, FallingEdge (key.level reads) t ∧ τ = 100 * ((t + 99) / 100) := by
  rw [latch_iff_fires reads key τ h1]
  constructor
  · rintro ⟨j, rfl, hfires⟩
    obtain ⟨t, h2, h3, hedge⟩ := (fires_iff_fallingEdge (by omega) hlong (by omega)).1 hfires
    exact ⟨t, hedge, by omega⟩
  · rintro ⟨t, hedge, rfl⟩
    have ht2 := hedge.1
    obtain ⟨j, hj⟩ : ∃ j, (t + 99) / 100 = j + 1 := ⟨(t + 99) / 100 - 1, by omega⟩
    rw [hj] at hT ⊢
    exact ⟨j, rfl, (fires_iff_fallingEdge (by omega) hlong (by omega)).2 ⟨t, by omega, by omega, hedge⟩⟩

theorem isSet_boardAfter_iff_edge {τ : Nat} (hT : τ ≤ T) : key.isSet (boardAfter reads τ).keypad.kbdData = true ↔
    ∃ t, FallingEdge (key.level reads) t ∧ 100 * ((t + 99) / 100) ≤ τ := by
  induction τ with
  | zero =>
    refine ⟨fun h => ?_, fun ⟨t, hedge, hle⟩ => ?_⟩
    · rw [show (boardAfter reads 0).keypad.kbdData = 0 from rfl, Key.isSet_zero] at h
      cases h
    · have := hedge.1
      omega
  | succ τ ih =>
    have hlatch := mem_latches_iff_edge hlong (Nat.le_add_left 1 τ) hT
    have hbefore := ih (by omega)
    rw [isSet_boardAfter reads key (τ + 1) (Nat.le_add_left 1 τ), Nat.add_sub_cancel, Bool.or_eq_true, decide_eq_true_eq,
      hbefore, hlatch]
    constructor
    · rintro (⟨t, hedge, hle⟩ | ⟨t, hedge, heq⟩)
      · exact ⟨t, hedge, by omega⟩
      · exact ⟨t, hedge, by omega⟩
    · rintro ⟨t, hedge, hle⟩
      by_cases heq : τ + 1 = 100 * ((t + 99) / 100)
      · exact Or.inr ⟨t, hedge, heq⟩
      · exact Or.inl ⟨t, hedge, by omega⟩

end LongLevels

/-- If no level of a key that ends within the first `T` ticks lasts less than 100 ticks, then up to tick `T` the key
is latched at exactly the ticks `100 * ⌈t / 100⌉` for its falling edges `t`, once each, at most 99 ticks later, and
no two falling edges share a latch, whatever the other keys do.  Its bit of `KBD_DATA` after a tick is the bit before,
or set if the tick latches it, so that it is set from the tick `100 * ⌈t / 100⌉` of the first edge on. -/
theorem latch_iff_fallingEdge (reads : Nat → PinReads) (T : Nat) (key : Key)
    (hlong : LongRuns (key.level reads) 100 T) :
    (∀ τ, 1 ≤ τ → τ ≤ T → (key.mask ∈ latches (tickActions reads τ) ↔
      ∃ t, FallingEdge (key.level reads) t ∧ τ = 100 * ((t + 99) / 100))) ∧
    (∀ τ, 1 ≤ τ → key.isSet (boardAfter reads τ).keypad.kbdData =
      (key.isSet (boardAfter reads (τ - 1)).keypad.kbdData || decide (key.mask ∈ latches (tickActions reads τ)))) ∧
    (∀ τ, τ ≤ T → (key.isSet (boardAfter reads τ).keypad.kbdData = true ↔
      ∃ t, FallingEdge (key.level reads) t ∧ 100 * ((t + 99) / 100) ≤ τ)) ∧
    (∀ τ, 1 ≤ τ → (latches (tickActions reads τ)).count key.mask ≤ 1) ∧
    (∀ t, t ≤ 100 * ((t + 99) / 100) ∧ 100 * ((t + 99) / 100) ≤ t + 99) ∧
    ∀ t t', FallingEdge (key.level reads) t → FallingEdge (key.level reads) t' → t ≤ T → t' ≤ T →
      (t + 99) / 100 = (t' + 99) / 100 → t = t' := by
  refine ⟨fun τ h1 hT => mem_latches_iff_edge hlong h1 hT, isSet_boardAfter reads key,
    fun τ hT => isSet_boardAfter_iff_edge hlong hT, fun τ h1 => ?_, fun t => ⟨by omega, by omega⟩,
    fun t t' ht ht' hT hT' heq => ?_⟩
  · exact List.nodup_iff_count.1 (nodup_latches_tickActions reads τ h1) key.mask
  · exact fallingEdge_unique hlong ht ht' hT hT' (by omega) (by omega)

/-- ENTER is held down for the first 150 ticks. -/
def enterReads (t : Nat) (pin : Pin) : UInt32 := if pin = Key.enter.pin ∧ t ≤ 150 then 1 else 0

private theorem level_enterReads (t : Nat) : Key.enter.level enterReads t = decide (t ≤ 150) := by
  unfold Key.level enterReads
  by_cases h : t ≤ 150 <;> simp [h]

private theorem longRuns_enterReads (T : Nat) : LongRuns (Key.enter.level enterReads) 100 T := by
  intro a e hrun _
  have hchange := hrun.change
  have hstart := hrun.start_eq
  have hle := hrun.start_le
  simp only [level_enterReads, ne_eq, decide_eq_decide] at hchange hstart
  omega

/-- ENTER is released at tick 151, latched at tick 200, and its bit is set then, not before. -/
theorem latch_iff_fallingEdge_enter : Key.enter.mask ∈ latches (tickActions enterReads 200) ∧
    Key.enter.isSet (boardAfter enterReads 199).keypad.kbdData = false ∧
    Key.enter.isSet (boardAfter enterReads 200).keypad.kbdData = true := by
  obtain ⟨hlatch, hdata, hset, -⟩ := latch_iff_fallingEdge enterReads 300 .enter (longRuns_enterReads 300)
  have hedge : FallingEdge (Key.enter.level enterReads) 151 :=
    ⟨by decide, by rw [level_enterReads]; rfl, by rw [level_enterReads]; rfl⟩
  have hmem := (hlatch 200 (by decide) (by decide)).2 ⟨151, hedge, by decide⟩
  refine ⟨hmem, ?_, ?_⟩
  · rw [Bool.eq_false_iff]
    intro h
    obtain ⟨t, ⟨ht2, hbefore, hafter⟩, hle⟩ := (hset 199 (by decide)).1 h
    rw [level_enterReads, decide_eq_true_eq] at hbefore
    rw [level_enterReads, decide_eq_false_iff_not] at hafter
    omega
  · rw [hdata 200 (by decide), decide_eq_true hmem, Bool.or_true]

end LcdKeypad
