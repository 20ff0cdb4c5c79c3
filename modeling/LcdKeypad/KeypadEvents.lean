import LcdKeypad.General.ReleaseDetector
import LcdKeypad.Keypad

/-!
# Releases of the keys

`ServiceKBD4X1` is four release detectors, one for each key, that share a phase: on the bit of a key a call does
what one sample does to that key's detector, whatever the other keys do (`serviceKBD4X1_spec`).  From this the
latched keys, `KBD_TEMP` and `KBD_DATA` after any sequence of calls and clears are read off the history of the
port values (`keypad_detects_releases`).
-/

namespace LcdKeypad

open ReleaseDetector

/-! ### Bits -/

def Key.isSet (key : Key) (x : UInt8) : Bool := x &&& key.mask != 0

def Key.keep : Key → UInt8
  | enter => 0xFE
  | down => 0xFD
  | up => 0xFB
  | escape => 0xF7

@[simp] theorem Key.isSet_zero (key : Key) : key.isSet 0 = false := by cases key <;> rfl

@[simp] theorem Key.isSet_mask (key key' : Key) : key.isSet key'.mask = decide (key = key') := by
  cases key <;> cases key' <;> rfl

theorem Key.isSet_iff (key : Key) (x : UInt8) : key.isSet x = true ↔ x &&& key.mask ≠ 0 := bne_iff_ne

private theorem or_and_distrib (x y m : UInt8) : (x ||| y) &&& m = (x &&& m) ||| (y &&& m) := by
  apply UInt8.toBitVec_inj.1
  simp only [UInt8.toBitVec_and, UInt8.toBitVec_or]
  ext i hi
  simp only [BitVec.getElem_and, BitVec.getElem_or, Bool.and_or_distrib_right]

@[simp] theorem Key.isSet_or (key : Key) (x y : UInt8) : key.isSet (x ||| y) = (key.isSet x || key.isSet y) := by
  rw [Bool.eq_iff_iff, Bool.or_eq_true, isSet_iff, isSet_iff, isSet_iff, or_and_distrib, ne_eq,
    UInt8.or_eq_zero_iff, Classical.not_and_iff_not_or_not]

theorem Key.mask_injective {key key' : Key} (h : key.mask = key'.mask) : key = key' := by
  revert h
  cases key <;> cases key' <;> decide

@[simp] theorem Key.isSet_and_keep (key key' : Key) (x : UInt8) :
    key.isSet (x &&& key'.keep) = (key.isSet x && decide (key ≠ key')) := by
  have h : key'.keep &&& key.mask = if key = key' then 0 else key.mask := by
    cases key <;> cases key' <;> rfl
  unfold isSet
  rw [UInt8.and_assoc, h]
  by_cases hk : key = key' <;> simp [hk]

theorem Key.isSet_foldl_or (key : Key) (keys : List Key) (x : UInt8) :
    key.isSet ((keys.map Key.mask).foldl (· ||| ·) x) = (key.isSet x || decide (key ∈ keys)) := by
  induction keys generalizing x with
  | nil => simp
  | cons k keys ih =>
    rw [List.map_cons, List.foldl_cons, ih, isSet_or, isSet_mask, Bool.or_assoc]
    simp [List.mem_cons, Bool.decide_or]

theorem Key.isSet_foldl_keep (key : Key) (keys : List Key) (x : UInt8) :
    key.isSet (keys.foldl (fun x k => x &&& k.keep) x) = (key.isSet x && decide (key ∉ keys)) := by
  induction keys generalizing x with
  | nil => simp
  | cons k keys ih =>
    rw [List.foldl_cons, ih, isSet_and_keep, Bool.and_assoc]
    simp [List.mem_cons, not_or, Bool.decide_and]

/-- The order in which both functions go through the keys. -/
def scanOrder : List Key := [.escape, .up, .down, .enter]

theorem mem_scanOrder (key : Key) : key ∈ scanOrder := by cases key <;> decide

theorem nodup_scanOrder : scanOrder.Nodup := by decide

private theorem Key.isSet_foldl_read (key : Key) (reads : PinReads) (keys : List Key) (x : UInt8) :
    key.isSet (keys.foldl (fun x k => if reads k.pin ≠ 0 then x ||| k.mask else x) x) =
      (key.isSet x || (decide (key ∈ keys) && decide (reads key.pin ≠ 0))) := by
  induction keys generalizing x with
  | nil => simp
  | cons k keys ih =>
    rw [List.foldl_cons, ih]
    by_cases hk : key = k
    · subst hk
      by_cases hr : reads key.pin ≠ 0 <;> simp [hr]
    · by_cases hr : reads k.pin ≠ 0 <;> simp [hr, hk]

/-- Each bit of the port value is the level of the pin that the key is wired to. -/
theorem Key.isSet_readKBDPort (key : Key) (reads : PinReads) :
    key.isSet (readKBDPort reads) = decide (reads key.pin ≠ 0) := by
  refine (key.isSet_foldl_read reads scanOrder 0).trans ?_
  simp [mem_scanOrder]

def OnlyKeys (x : UInt8) : Prop := x &&& 0xF0 = 0

theorem OnlyKeys.or {x y : UInt8} (hx : OnlyKeys x) (hy : OnlyKeys y) : OnlyKeys (x ||| y) := by
  unfold OnlyKeys at *
  rw [or_and_distrib, hx, hy]
  rfl

theorem OnlyKeys.and {x : UInt8} (hx : OnlyKeys x) (y : UInt8) : OnlyKeys (x &&& y) := by
  unfold OnlyKeys at *
  rw [UInt8.and_assoc, UInt8.and_comm y, ← UInt8.and_assoc, hx, UInt8.zero_and]

theorem onlyKeys_mask (key : Key) : OnlyKeys key.mask := by cases key <;> rfl

private theorem onlyKeys_foldl_read (reads : PinReads) (keys : List Key) {x : UInt8} (h : OnlyKeys x) :
    OnlyKeys (keys.foldl (fun x k => if reads k.pin ≠ 0 then x ||| k.mask else x) x) := by
  induction keys generalizing x with
  | nil => exact h
  | cons k keys ih =>
    apply ih
    dsimp only
    split
    · exact h.or (onlyKeys_mask k)
    · exact h

theorem onlyKeys_readKBDPort (reads : PinReads) : OnlyKeys (readKBDPort reads) :=
  onlyKeys_foldl_read reads scanOrder rfl

/-! ### The release clauses -/

/-- The keys among `keys` that a comparison with the port value `x1` releases. -/
def released (kbdTemp x1 : UInt8) (keys : List Key) : List Key :=
  keys.filter fun key => key.isSet kbdTemp && !key.isSet x1

theorem releaseClause_eq (key : Key) (x1 : UInt8) (s : Keypad) (out : List UInt8) :
    releaseClause key.mask key.keep x1 (s, out) =
      if key.isSet s.kbdTemp && !key.isSet x1 then
        ({ s with kbdData := s.kbdData ||| key.mask, kbdTemp := s.kbdTemp &&& key.keep }, out ++ [key.mask])
      else (s, out) := by
  have h : (key.isSet s.kbdTemp && !key.isSet x1) = true ↔ s.kbdTemp &&& key.mask ≠ 0 ∧ x1 &&& key.mask = 0 := by
    rw [Bool.and_eq_true, Bool.not_eq_true', key.isSet_iff, ← Bool.not_eq_true, key.isSet_iff, not_not]
  exact if_congr h.symm rfl rfl

/-- The clauses of several keys: each released key is latched and its bit of `KBD_TEMP` cleared; no clause looks at
or changes the bit of another key. -/
theorem foldl_releaseClause (x1 : UInt8) {keys : List Key} (hnd : keys.Nodup) (s : Keypad) (out : List UInt8) :
    keys.foldl (fun s key => releaseClause key.mask key.keep x1 s) (s, out) =
      ({ s with
          kbdData := ((released s.kbdTemp x1 keys).map Key.mask).foldl (· ||| ·) s.kbdData
          kbdTemp := (released s.kbdTemp x1 keys).foldl (fun x k => x &&& k.keep) s.kbdTemp },
        out ++ (released s.kbdTemp x1 keys).map Key.mask) := by
  induction keys generalizing s out with
  | nil => simp [released]
  | cons key keys ih =>
    rw [List.nodup_cons] at hnd
    rw [List.foldl_cons, releaseClause_eq]
    by_cases hrel : (key.isSet s.kbdTemp && !key.isSet x1) = true
    · rw [if_pos hrel, ih hnd.2]
      have htail : released (s.kbdTemp &&& key.keep) x1 keys = released s.kbdTemp x1 keys := by
        refine List.filter_congr fun k hk => ?_
        have hne : k ≠ key := fun h => hnd.1 (h ▸ hk)
        simp [hne]
      have hcons : released s.kbdTemp x1 (key :: keys) = key :: released s.kbdTemp x1 keys :=
        List.filter_cons_of_pos hrel
      simp only [htail, hcons, List.map_cons, List.foldl_cons, List.append_assoc, List.singleton_append]
    · rw [if_neg hrel, ih hnd.2]
      have hcons : released s.kbdTemp x1 (key :: keys) = released s.kbdTemp x1 keys :=
        List.filter_cons_of_neg hrel
      rw [hcons]

/-! ### One call -/

theorem serviceKBD4X1_of_sm_zero {s : Keypad} (h : s.kbdSm = 0) (reads : PinReads) :
    serviceKBD4X1 reads s = ({ s with kbdTemp := s.kbdTemp ||| readKBDPort reads, kbdSm := 1 }, []) := by
  unfold serviceKBD4X1
  rw [if_pos h, h]
  rfl

theorem serviceKBD4X1_of_sm_one {s : Keypad} (h : s.kbdSm = 1) (reads : PinReads) :
    serviceKBD4X1 reads s =
      ({ kbdData := ((released s.kbdTemp (readKBDPort reads) scanOrder).map Key.mask).foldl (· ||| ·) s.kbdData
         kbdTemp := (released s.kbdTemp (readKBDPort reads) scanOrder).foldl (fun x k => x &&& k.keep) s.kbdTemp
         kbdSm := 0 },
        (released s.kbdTemp (readKBDPort reads) scanOrder).map Key.mask) := by
  unfold serviceKBD4X1
  rw [if_neg (by rw [h]; decide), if_pos h]
  by_cases htemp : s.kbdTemp &&& 0x0F ≠ 0
  · have hclauses := foldl_releaseClause (readKBDPort reads) nodup_scanOrder s []
    rw [List.nil_append] at hclauses
    simp only [htemp, ne_eq, not_false_eq_true, ↓reduceIte]
    exact congrArg (fun r : Keypad × List UInt8 => (({ r.1 with kbdSm := 0 } : Keypad), r.2)) hclauses
  · -- the guard only skips clauses that would do nothing
    have hnone : released s.kbdTemp (readKBDPort reads) scanOrder = [] := by
      refine List.filter_eq_nil_iff.2 fun key _ => ?_
      have hzero : s.kbdTemp &&& key.mask = 0 := by
        have hmask : key.mask = 0x0F &&& key.mask := by cases key <;> rfl
        rw [hmask, ← UInt8.and_assoc, not_not.1 htemp, UInt8.zero_and]
      rw [Bool.and_eq_true, key.isSet_iff, hzero]
      exact fun h => h.1 rfl
    simp only [htemp, ↓reduceIte, hnone]
    rfl

/-- The state in which `ServiceKBD4X1` leaves the keypad: a phase of the sampler, and only key bits. -/
structure Keypad.Valid (s : Keypad) : Prop where
  kbdSm_eq : s.kbdSm = 0 ∨ s.kbdSm = 1
  onlyKeys_temp : OnlyKeys s.kbdTemp
  onlyKeys_data : OnlyKeys s.kbdData

theorem Keypad.valid_boot : Keypad.boot.Valid := ⟨Or.inl rfl, rfl, rfl⟩

/-- The detector of the key: armed while its bit of `KBD_TEMP` is set. -/
def Keypad.detector (s : Keypad) (key : Key) : Detector := ⟨key.isSet s.kbdTemp, s.kbdSm == 1⟩

theorem Keypad.detector_of_sm_zero {s : Keypad} (h : s.kbdSm = 0) (key : Key) :
    s.detector key = ⟨key.isSet s.kbdTemp, false⟩ := by
  simp [detector, h]

theorem Keypad.detector_of_sm_one {s : Keypad} (h : s.kbdSm = 1) (key : Key) :
    s.detector key = ⟨key.isSet s.kbdTemp, true⟩ := by
  simp [detector, h]

/-- What a call does: on each key a step of its detector, and in `KBD_DATA` nothing but setting the latched bits. -/
structure Keypad.Scanned (reads : PinReads) (s s' : Keypad) (latched : List UInt8) : Prop where
  valid : s'.Valid
  detector_eq : ∀ key : Key, s'.detector key = (step (s.detector key) (key.isSet (readKBDPort reads))).1
  latched_iff : ∀ key : Key, key.mask ∈ latched ↔ (step (s.detector key) (key.isSet (readKBDPort reads))).2 = true
  isSet_data : ∀ key : Key, key.isSet s'.kbdData = (key.isSet s.kbdData || decide (key.mask ∈ latched))
  nodup : latched.Nodup
  eq_mask : ∀ m ∈ latched, ∃ key : Key, m = key.mask

private theorem mem_map_mask {key : Key} {keys : List Key} : key.mask ∈ keys.map Key.mask ↔ key ∈ keys := by
  constructor
  · intro h
    obtain ⟨k, hk, hmask⟩ := List.mem_map.1 h
    rwa [← Key.mask_injective hmask]
  · exact List.mem_map_of_mem

private theorem onlyKeys_foldl_or {x : UInt8} (h : OnlyKeys x) (keys : List Key) :
    OnlyKeys ((keys.map Key.mask).foldl (· ||| ·) x) := by
  induction keys generalizing x with
  | nil => exact h
  | cons k keys ih => exact ih (h.or (onlyKeys_mask k))

private theorem onlyKeys_foldl_keep {x : UInt8} (h : OnlyKeys x) (keys : List Key) :
    OnlyKeys (keys.foldl (fun x k => x &&& k.keep) x) := by
  induction keys generalizing x with
  | nil => exact h
  | cons k keys ih => exact ih (h.and k.keep)

private theorem mem_released_iff {kbdTemp x1 : UInt8} {key : Key} :
    key ∈ released kbdTemp x1 scanOrder ↔ (key.isSet kbdTemp && !key.isSet x1) = true := by
  unfold released
  rw [List.mem_filter]
  exact ⟨fun h => h.2, fun h => ⟨mem_scanOrder key, h⟩⟩

private theorem scanned_of_sm_zero (reads : PinReads) {s : Keypad} (h : s.Valid) (hsm : s.kbdSm = 0) :
    Keypad.Scanned reads s (serviceKBD4X1 reads s).1 (serviceKBD4X1 reads s).2 := by
  rw [serviceKBD4X1_of_sm_zero hsm]
  refine ⟨⟨Or.inr rfl, h.onlyKeys_temp.or (onlyKeys_readKBDPort reads), h.onlyKeys_data⟩, fun key => ?_,
    fun key => ?_, fun key => ?_, List.nodup_nil, fun m hm => absurd hm List.not_mem_nil⟩
  · rw [Keypad.detector_of_sm_one rfl, Keypad.detector_of_sm_zero hsm, step_of_arming rfl, Key.isSet_or]
  · rw [Keypad.detector_of_sm_zero hsm, step_of_arming rfl]
    exact ⟨fun hm => absurd hm List.not_mem_nil, fun hf => absurd hf Bool.false_ne_true⟩
  · simp

private theorem scanned_of_sm_one (reads : PinReads) {s : Keypad} (h : s.Valid) (hsm : s.kbdSm = 1) :
    Keypad.Scanned reads s (serviceKBD4X1 reads s).1 (serviceKBD4X1 reads s).2 := by
  rw [serviceKBD4X1_of_sm_one hsm]
  refine ⟨⟨Or.inl rfl, onlyKeys_foldl_keep h.onlyKeys_temp _, onlyKeys_foldl_or h.onlyKeys_data _⟩, fun key => ?_,
    fun key => ?_, fun key => ?_, ?_, fun m hm => ?_⟩
  · rw [Keypad.detector_of_sm_zero rfl, Keypad.detector_of_sm_one hsm, step_of_comparing rfl, Key.isSet_foldl_keep]
    simp only [mem_released_iff]
    cases key.isSet s.kbdTemp <;> cases key.isSet (readKBDPort reads) <;> rfl
  · rw [mem_map_mask, mem_released_iff, Keypad.detector_of_sm_one hsm, step_of_comparing rfl]
  · rw [Key.isSet_foldl_or]
    simp only [mem_map_mask]
  · exact List.Pairwise.map Key.mask (fun _ _ hne heq => hne (Key.mask_injective heq)) (nodup_scanOrder.filter _)
  · obtain ⟨key, -, rfl⟩ := List.mem_map.1 hm
    exact ⟨key, rfl⟩

theorem serviceKBD4X1_spec (reads : PinReads) {s : Keypad} (h : s.Valid) :
    Keypad.Scanned reads s (serviceKBD4X1 reads s).1 (serviceKBD4X1 reads s).2 := by
  rcases h.kbdSm_eq with hsm | hsm
  · exact scanned_of_sm_zero reads h hsm
  · exact scanned_of_sm_one reads h hsm

/-! ### Sequences of calls -/

/-- `KBD_DATA = 0`, if it is executed. -/
def Keypad.clearIf (c : Bool) (s : Keypad) : Keypad := if c then { s with kbdData := 0 } else s

section Calls

-- `reads n` is what the pins are read as by call number `n`; `clears n` says whether `KBD_DATA = 0` runs before it
variable (reads : Nat → PinReads) (clears : Nat → Bool)

def keypadAfter : Nat → Keypad
  | 0 => .boot
  | n + 1 => (serviceKBD4X1 (reads n) ((keypadAfter n).clearIf (clears n))).1

def latchedAt (n : Nat) : List UInt8 :=
  (serviceKBD4X1 (reads n) ((keypadAfter reads clears n).clearIf (clears n))).2

/-- The bit of the key in the value that `Read_KBD_PORT` returns to call number `n`. -/
def Key.sample (key : Key) (n : Nat) : Bool := key.isSet (readKBDPort (reads n))

theorem keypadAfter_scanned (n : Nat) (h : (keypadAfter reads clears n).Valid) :
    Keypad.Scanned (reads n) ((keypadAfter reads clears n).clearIf (clears n)) (keypadAfter reads clears (n + 1))
      (latchedAt reads clears n) := by
  refine serviceKBD4X1_spec (reads n) ?_
  unfold Keypad.clearIf
  split
  · exact ⟨h.kbdSm_eq, h.onlyKeys_temp, (UInt8.zero_and : (0 : UInt8) &&& 0xF0 = 0)⟩
  · exact h

/-- After any calls and clears every key's detector has seen exactly the samples of that key. -/
theorem keypadAfter_detector (n : Nat) : (keypadAfter reads clears n).Valid ∧
    ∀ key : Key, (keypadAfter reads clears n).detector key = after (key.sample reads) n := by
  induction n with
  | zero =>
    refine ⟨Keypad.valid_boot, fun key => ?_⟩
    rw [keypadAfter, Keypad.detector_of_sm_zero rfl, after, idle, Keypad.boot, key.isSet_zero]
  | succ n ih =>
    have h := keypadAfter_scanned reads clears n ih.1
    refine ⟨h.valid, fun key => ?_⟩
    rw [h.detector_eq, after, ← ih.2 key]
    unfold Keypad.clearIf
    split
    · rfl
    · rfl

theorem mem_latchedAt_iff (n : Nat) (key : Key) :
    key.mask ∈ latchedAt reads clears n ↔ fires (key.sample reads) n = true := by
  obtain ⟨hvalid, hd⟩ := keypadAfter_detector reads clears n
  rw [(keypadAfter_scanned reads clears n hvalid).latched_iff, fires, ← hd key]
  unfold Keypad.clearIf
  split
  · exact Iff.rfl
  · exact Iff.rfl

/-- `KBD_DATA` holds the keys latched since the last clear. -/
theorem isSet_kbdData_iff (n : Nat) (key : Key) : key.isSet (keypadAfter reads clears n).kbdData = true ↔
    ∃ i, i < n ∧ key.mask ∈ latchedAt reads clears i ∧ ∀ q, i < q → q < n → clears q = false := by
  induction n with
  | zero =>
    rw [keypadAfter]
    exact ⟨fun h => absurd h (by cases key <;> decide), fun ⟨i, hi, _⟩ => absurd hi (Nat.not_lt_zero i)⟩
  | succ n ih =>
    have hdata := (keypadAfter_scanned reads clears n (keypadAfter_detector reads clears n).1).isSet_data key
    rw [hdata, Bool.or_eq_true, decide_eq_true_iff]
    constructor
    · rintro (h | h)
      · cases hc : clears n with
        | true => rw [Keypad.clearIf, hc] at h; simp at h
        | false =>
          rw [Keypad.clearIf, hc] at h
          obtain ⟨i, hi, hmem, hq⟩ := ih.1 h
          refine ⟨i, by omega, hmem, fun q hiq hqn => ?_⟩
          rcases Nat.lt_succ_iff_lt_or_eq.1 hqn with hlt | rfl
          · exact hq q hiq hlt
          · exact hc
      · exact ⟨n, Nat.lt_succ_self n, h, fun q h1 h2 => absurd h2 (by omega)⟩
    · rintro ⟨i, hi, hmem, hq⟩
      rcases Nat.lt_succ_iff_lt_or_eq.1 hi with hlt | rfl
      · left
        rw [Keypad.clearIf, hq n hlt (Nat.lt_succ_self n)]
        exact ih.2 ⟨i, hlt, hmem, fun q h1 h2 => hq q h1 (by omega)⟩
      · exact Or.inr hmem

theorem latchedAt_even (j : Nat) : latchedAt reads clears (2 * j) = [] := by
  obtain ⟨hvalid, -⟩ := keypadAfter_detector reads clears (2 * j)
  have h := keypadAfter_scanned reads clears (2 * j) hvalid
  refine List.eq_nil_iff_forall_not_mem.2 fun m hm => ?_
  obtain ⟨key, rfl⟩ := h.eq_mask m hm
  have := (mem_latchedAt_iff reads clears (2 * j) key).1 hm
  rw [fires_even] at this
  cases this

end Calls

/-- From boot, for any port values and any clears between the calls: an odd call latches a key exactly if it reads
the key low after an even call since the last low odd call read it high; even calls latch nothing; `KBD_DATA` is
exactly the set of keys latched since the last clear; `KBD_TEMP` after an odd call is exactly the set of keys seen
high by an even call since the last odd call that read them low; and what is latched of a key depends on the
samples of this key only. -/
theorem keypad_detects_releases (reads : Nat → PinReads) (clears : Nat → Bool) (key : Key) :
    (∀ j, key.mask ∈ latchedAt reads clears (2 * j + 1) ↔
      key.isSet (readKBDPort (reads (2 * j + 1))) = false ∧
        ∃ i, i ≤ j ∧ key.isSet (readKBDPort (reads (2 * i))) = true ∧
          ∀ q, i ≤ q → q < j → key.isSet (readKBDPort (reads (2 * q + 1))) = true) ∧
    (∀ j, latchedAt reads clears (2 * j) = []) ∧
    (∀ n, OnlyKeys (keypadAfter reads clears n).kbdData ∧
      (key.isSet (keypadAfter reads clears n).kbdData = true ↔
        ∃ i, i < n ∧ key.mask ∈ latchedAt reads clears i ∧ ∀ q, i < q → q < n → clears q = false)) ∧
    (∀ j, OnlyKeys (keypadAfter reads clears (2 * j + 2)).kbdTemp ∧
      (key.isSet (keypadAfter reads clears (2 * j + 2)).kbdTemp = true ↔
        ∃ i, i ≤ j ∧ key.isSet (readKBDPort (reads (2 * i))) = true ∧
          ∀ q, i ≤ q → q ≤ j → key.isSet (readKBDPort (reads (2 * q + 1))) = true)) ∧
    ∀ (reads' : Nat → PinReads) (clears' : Nat → Bool) (n : Nat),
      (∀ i, i ≤ n → key.isSet (readKBDPort (reads i)) = key.isSet (readKBDPort (reads' i))) →
      (key.mask ∈ latchedAt reads clears n ↔ key.mask ∈ latchedAt reads' clears' n) := by
  refine ⟨fun j => ?_, latchedAt_even reads clears, fun n => ?_, fun j => ?_, fun reads' clears' n h => ?_⟩
  · rw [mem_latchedAt_iff, fires_odd_iff]
    exact Iff.rfl
  · exact ⟨(keypadAfter_detector reads clears n).1.onlyKeys_data, isSet_kbdData_iff reads clears n key⟩
  · obtain ⟨hvalid, hd⟩ := keypadAfter_detector reads clears (2 * j + 2)
    refine ⟨hvalid.onlyKeys_temp, ?_⟩
    rw [show key.isSet (keypadAfter reads clears (2 * j + 2)).kbdTemp =
      (after (key.sample reads) (2 * j + 2)).armed from congrArg Detector.armed (hd key), armed_even_iff]
    exact Iff.rfl
  · have hsample : ∀ i, i ≤ n → key.sample reads i = key.sample reads' i := h
    rw [mem_latchedAt_iff, mem_latchedAt_iff, fires_congr hsample]

end LcdKeypad
