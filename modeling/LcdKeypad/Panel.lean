import Mathlib.Data.Nat.Bitwise
import LcdKeypad.Bench
import LcdKeypad.Refresh

/-!
# What the panel shows

From `LCD_Init` on, whatever API calls are made and wherever service calls interrupt them, the panel is in step
with the refresh (`Synced`): its address counter is where the driver believes it to be, and its memory holds what
the service calls stored.  So after 34 service calls every cell of the panel shows what exactly one of the last 34
of them sent for it, and a blinking cell alternates every 256 calls, also when the 16-bit counter has wrapped.
-/

namespace LcdKeypad

/-- The driver, the pins and the panel are in step. -/
structure Synced (b : Bench) : Prop where
  enable_low : b.pins pinE = false
  counter : b.lcd.millisecondCounter = UInt16.ofNat b.calls.length
  refresh : RefreshAt b.calls.length b.lcd b.panel.addressCounter
  scheduled : Raster.Scheduled 34 slotAddress (b.calls.map ServiceCall.stores)
  contents : b.panel.ddram = Raster.replay (fun _ => space) (b.calls.map ServiceCall.stores)
  recorded : ∀ i c, b.calls[i]? = some c → c.lcd.millisecondCounter = UInt16.ofNat (b.calls.length - 1 - i) ∧
    ∀ st ∈ c.stores, ∃ p : Fin 32, st = (ddramAddress p.val, shownCharacter c.lcd p)

/-! ### One step -/

theorem synced_init (b : Bench) : Synced b.init := by
  obtain ⟨h1, h2, -⟩ := latched_lcdInitTrace b.pins
  have hpanel : b.init.panel = ⟨fun _ => space, 0⟩ := by
    show (lcdBus.latched b.pins lcdInitTrace).foldl Hd44780.exec b.panel = _
    rw [h1, List.foldl_append]
    rfl
  refine ⟨h2, rfl, Or.inl ⟨rfl, rfl, rfl⟩, trivial, ?_, fun i c hc => ?_⟩
  · rw [hpanel]; rfl
  · cases hc

private theorem Synced.of_lcd {b : Bench} (h : Synced b) {s : Lcd} (hph : s.refreshPhase = b.lcd.refreshPhase)
    (hidx : s.currentCharIndex = b.lcd.currentCharIndex) (hms : s.millisecondCounter = b.lcd.millisecondCounter) :
    Synced { b with lcd := s } where
  enable_low := h.enable_low
  counter := hms.trans h.counter
  refresh := by
    have hr := h.refresh
    unfold RefreshAt at hr ⊢
    rw [hph, hidx]
    exact hr
  scheduled := h.scheduled
  contents := h.contents
  recorded := h.recorded

theorem synced_service {b : Bench} (h : Synced b) : Synced b.service := by
  obtain ⟨hlow, hlcd, hpanel, hcalls⟩ := Bench.service_of_low h.enable_low
  obtain ⟨hr, -, hst, hdd, hms⟩ := lcdService1kHz_step h.refresh
  have hlen : b.service.calls.length = b.calls.length + 1 := by rw [hcalls, List.length_cons]
  refine ⟨hlow, ?_, ?_, ?_, ?_, fun i c hc => ?_⟩
  · rw [hlen, hlcd, hms, h.counter]
    exact (UInt16.ofNat_add ..).symm
  · rw [hlen, hlcd, hpanel]
    exact hr
  · rw [hcalls, List.map_cons]
    refine ⟨?_, h.scheduled⟩
    rw [hst, List.length_map, slotAddress]
    rcases cellOf (b.calls.length % 34) with _ | p
    · rfl
    · rfl
  · rw [hcalls, hpanel, hdd, h.contents]
    rfl
  · rw [hlen]
    rw [hcalls] at hc
    rcases i with _ | i
    · obtain rfl : ServiceCall.mk b.lcd (b.panel.stores (lcdService1kHz b.lcd).2) = c := by simpa using hc
      refine ⟨h.counter, fun st hmem => ?_⟩
      rw [hst, Option.mem_toList] at hmem
      obtain ⟨p, -, rfl⟩ := Option.map_eq_some_iff.1 hmem
      exact ⟨p, rfl⟩
    · rw [List.getElem?_cons_succ] at hc
      have hnumber : b.calls.length + 1 - 1 - (i + 1) = b.calls.length - 1 - i := by omega
      rw [hnumber]
      exact h.recorded i c hc

private theorem lcdSetBlink_fields (position : UInt8) (s : Lcd) :
    (lcdSetBlink position s).refreshPhase = s.refreshPhase ∧
      (lcdSetBlink position s).currentCharIndex = s.currentCharIndex ∧
      (lcdSetBlink position s).millisecondCounter = s.millisecondCounter := by
  unfold lcdSetBlink
  split
  · exact ⟨rfl, rfl, rfl⟩
  · exact ⟨rfl, rfl, rfl⟩

private theorem lcdClearBlink_fields (position : UInt8) (s : Lcd) :
    (lcdClearBlink position s).refreshPhase = s.refreshPhase ∧
      (lcdClearBlink position s).currentCharIndex = s.currentCharIndex ∧
      (lcdClearBlink position s).millisecondCounter = s.millisecondCounter := by
  unfold lcdClearBlink
  split
  · exact ⟨rfl, rfl, rfl⟩
  · exact ⟨rfl, rfl, rfl⟩

theorem synced_step {b : Bench} (h : Synced b) (e : LcdEvent) : Synced (b.step e) := by
  cases e with
  | init => exact synced_init b
  | service => exact synced_service h
  | store c => exact h.of_lcd rfl rfl rfl
  | setBlink position =>
    obtain ⟨hph, hidx, hms⟩ := lcdSetBlink_fields position b.lcd
    exact h.of_lcd hph hidx hms
  | clearBlink position =>
    obtain ⟨hph, hidx, hms⟩ := lcdClearBlink_fields position b.lcd
    exact h.of_lcd hph hidx hms
  | clearAllBlink => exact h.of_lcd rfl rfl rfl

theorem Synced.run {b : Bench} (h : Synced b) (es : List LcdEvent) : Synced (b.run es) := by
  induction es generalizing b with
  | nil => exact h
  | cons e es ih => exact ih (synced_step h e)

/-- The system is in step after every run that starts with `LCD_Init`. -/
theorem synced_run (b : Bench) (es : List LcdEvent) : Synced (b.run (.init :: es)) := by
  rw [Bench.run, List.foldl_cons]
  exact (synced_init b).run es

/-! ### Service calls alone -/

theorem Bench.run_append (b : Bench) (es es' : List LcdEvent) : b.run (es ++ es') = (b.run es).run es' := by
  unfold Bench.run
  exact List.foldl_append

theorem Bench.run_services_succ (b : Bench) (n : Nat) :
    b.run (List.replicate (n + 1) .service) = (b.run (List.replicate n .service)).service := by
  rw [List.replicate_succ', Bench.run_append]
  rfl

theorem Bench.length_calls_run_services (b : Bench) (n : Nat) :
    (b.run (List.replicate n .service)).calls.length = b.calls.length + n := by
  induction n with
  | zero => rfl
  | succ n ih =>
    rw [Bench.run_services_succ]
    have hservice : ∀ b' : Bench, b'.service.calls.length = b'.calls.length + 1 := fun b' => List.length_cons ..
    rw [hservice, ih, Nat.add_assoc]

theorem Bench.run_services_frame (b : Bench) (n : Nat) :
    (b.run (List.replicate n .service)).lcd.displayBuffer = b.lcd.displayBuffer ∧
    (b.run (List.replicate n .service)).lcd.blinkMask = b.lcd.blinkMask ∧
    ∀ i call, i < n → (b.run (List.replicate n .service)).calls[i]? = some call →
      call.lcd.displayBuffer = b.lcd.displayBuffer ∧ call.lcd.blinkMask = b.lcd.blinkMask := by
  induction n with
  | zero => exact ⟨rfl, rfl, fun i call hi => absurd hi (Nat.not_lt_zero i)⟩
  | succ n ih =>
    obtain ⟨hbuf, hmask, hcalls⟩ := ih
    rw [Bench.run_services_succ]
    generalize b.run (List.replicate n .service) = b' at hbuf hmask hcalls
    obtain ⟨hbuf', hmask'⟩ := lcdService1kHz_frame b'.lcd
    refine ⟨hbuf'.trans hbuf, hmask'.trans hmask, fun i call hi hcall => ?_⟩
    cases i with
    | zero =>
      obtain rfl : ServiceCall.mk b'.lcd _ = call := Option.some.inj hcall
      exact ⟨hbuf, hmask⟩
    | succ i => exact hcalls i call (by omega) hcall

/-! ### The last 34 service calls -/

/-- The `i`-th newest service call stored exactly the cell `p`, the panel still shows what it stored there, and no
other of the last 34 service calls stored into the cell. -/
structure Bench.Fresh (b : Bench) (p : Fin 32) (i : Nat) (call : ServiceCall) : Prop where
  recent : i < 34
  call_eq : b.calls[i]? = some call
  stores_eq : call.stores = [(ddramAddress p.val, shownCharacter call.lcd p)]
  shown : b.panel.ddram (ddramAddress p.val) = shownCharacter call.lcd p
  unique : ∀ j call', j < 34 → b.calls[j]? = some call' → ddramAddress p.val ∈ call'.stores.map Prod.fst → j = i

theorem Synced.exists_fresh {b : Bench} (h : Synced b) (hk : 34 ≤ b.calls.length) (p : Fin 32) :
    ∃ i call, b.Fresh p i call := by
  obtain ⟨hslot, hcell⟩ := cellOf_slotOf p
  have ha : slotAddress (slotOf p) = some (ddramAddress p.val) := by rw [slotAddress, hcell]; rfl
  obtain ⟨i, v, hi, hlog, hshown, hunique⟩ := Raster.exists_fresh_call h.scheduled (by rwa [List.length_map])
    (fun _ _ _ => slotAddress_injective) hslot ha (fun _ => space)
  rw [List.getElem?_map] at hlog
  obtain ⟨call, hcall, hstores⟩ := Option.map_eq_some_iff.1 hlog
  obtain ⟨q, hq⟩ := (h.recorded i call hcall).2 (ddramAddress p.val, v) (by rw [hstores]; exact List.mem_singleton_self _)
  obtain rfl : p = q := ddramAddress_injective (congrArg Prod.fst hq)
  obtain rfl : v = shownCharacter call.lcd p := congrArg Prod.snd hq
  refine ⟨i, call, hi, hcall, hstores, by rw [h.contents]; exact hshown, fun j call' hj hcall' hmem => ?_⟩
  exact hunique j call'.stores hj (by rw [List.getElem?_map, hcall']; rfl) hmem

/-- After the first `n` atomic steps of any calls that follow an `LCD_Init`, if at least 34 service calls have been
made since the last `LCD_Init`, each cell of the panel shows what exactly one of the last 34 of them sent for it:
the shadow cell as it was then, or a space where it blinked. -/
theorem panel_shows_recent_buffer (b : Bench) (calls : List ApiCall) (n : Nat) (p : Fin 32)
    (hk : 34 ≤ (b.run (.init :: (calls.flatMap ApiCall.events).take n)).calls.length) :
    ∃ i call, (b.run (.init :: (calls.flatMap ApiCall.events).take n)).Fresh p i call :=
  (synced_run b _).exists_fresh hk p

def Bench.boot : Bench := ⟨.boot, fun _ => false, ⟨fun _ => 0, 0⟩, []⟩

theorem panel_shows_recent_buffer_hi :
    34 ≤ (Bench.boot.run (.init :: ((ApiCall.setBlink 1 ::
      ApiCall.print (some [0x48, 0x69]) 2 0 (fun _ => 30) :: [.service]).flatMap ApiCall.events).take 40)).calls.length ∧
    ∃ i call, (Bench.boot.run (.init :: ((ApiCall.setBlink 1 ::
      ApiCall.print (some [0x48, 0x69]) 2 0 (fun _ => 30) :: [.service]).flatMap ApiCall.events).take 40)).Fresh 1 i call :=
  ⟨by decide, panel_shows_recent_buffer Bench.boot _ 40 1 (by decide)⟩

/-- Once 34 service calls have run and nothing else, the panel shows the shadow buffer wherever it does not blink. -/
theorem Synced.panel_eq_buffer {b : Bench} (h : Synced b) {n : Nat} (hn : 34 ≤ n) {p : Fin 32}
    (hblink : lcdGetBlink (UInt8.ofNat p) b.lcd = 0) :
    (b.run (List.replicate n .service)).panel.ddram (ddramAddress p.val) = b.lcd.displayBuffer[p] := by
  have hlen := b.length_calls_run_services n
  obtain ⟨i, call, hfresh⟩ := (h.run (List.replicate n .service)).exists_fresh (by omega) p
  obtain ⟨hbuf, hmask⟩ := (b.run_services_frame n).2.2 i call (by have := hfresh.recent; omega) hfresh.call_eq
  have hcall : lcdGetBlink (UInt8.ofNat p) call.lcd = 0 := by
    rw [← hblink]
    unfold lcdGetBlink
    rw [hmask]
  rw [hfresh.shown, shownCharacter, if_neg (fun h => h.1 hcall), hbuf]

/-! ### The blink cadence -/

/-- Bit 8 of the 16-bit counter, also after it has wrapped. -/
private theorem blankPhase_iff (n : Nat) : UInt16.ofNat n &&& 0x100 ≠ 0 ↔ n / 256 % 2 = 1 := by
  have h : (UInt16.ofNat n &&& 0x100).toNat = (n.testBit 8).toNat * 256 := by
    have hmask : (0x100 : UInt16).toNat = 2 ^ 8 := rfl
    rw [UInt16.toNat_and, UInt16.toNat_ofNat', hmask, Nat.and_two_pow, Nat.testBit_mod_two_pow]
    simp
  rw [Nat.testBit_eq_decide_div_mod_eq] at h
  rw [ne_eq, ← UInt16.toNat_inj, h]
  by_cases hb : n / 256 % 2 = 1 <;> simp [hb]

/-- Whenever `256 * m + j` service calls have been made since the last `LCD_Init`, with `33 ≤ j ≤ 255`, a cell that
blinked with the character `c` in the last 34 of them is a space on the panel if `m` is odd and `c` if `m` is even,
however often the counter has wrapped. -/
theorem blink_cadence (b : Bench) (calls : List ApiCall) (n : Nat) {m j : Nat}
    (hk : (b.run (.init :: (calls.flatMap ApiCall.events).take n)).calls.length = 256 * m + j)
    (h34 : 34 ≤ 256 * m + j) (hj : 33 ≤ j) (hj' : j ≤ 255) (p : Fin 32) (c : UInt8)
    (hcell : ∀ call ∈ (b.run (.init :: (calls.flatMap ApiCall.events).take n)).calls.take 34,
      lcdGetBlink (UInt8.ofNat p) call.lcd ≠ 0 ∧ call.lcd.displayBuffer[p] = c) :
    (b.run (.init :: (calls.flatMap ApiCall.events).take n)).panel.ddram (ddramAddress p.val) =
      if m % 2 = 1 then space else c := by
  have h := synced_run b ((calls.flatMap ApiCall.events).take n)
  revert h hk hcell
  generalize b.run (.init :: (calls.flatMap ApiCall.events).take n) = b'
  intro hk hcell h
  obtain ⟨i, call, hfresh⟩ := h.exists_fresh (by omega) p
  have hi := hfresh.recent
  have hmem : call ∈ b'.calls.take 34 := by
    refine List.mem_of_getElem? (i := i) ?_
    rw [List.getElem?_take_of_lt hi]
    exact hfresh.call_eq
  obtain ⟨hblink, hc⟩ := hcell call hmem
  -- the counter that call number `k - i` saw, and its bit 8
  have hcounter : call.lcd.millisecondCounter + 1 = UInt16.ofNat (256 * m + (j - i)) := by
    have hnumber : 256 * m + (j - i) = 256 * m + j - 1 - i + 1 := by omega
    rw [(h.recorded i call hfresh.call_eq).1, hk, hnumber]
    exact (UInt16.ofNat_add ..).symm
  have hphase : (call.lcd.millisecondCounter + 1) &&& 0x100 ≠ 0 ↔ m % 2 = 1 := by
    have hhalf : (256 * m + (j - i)) / 256 = m := by omega
    rw [hcounter, blankPhase_iff, hhalf]
  rw [hfresh.shown, shownCharacter, hc]
  exact if_congr ⟨fun h => hphase.1 h.2, fun h => ⟨hblink, hphase.2 h⟩⟩ rfl rfl

/-- A star at position 15 that blinks, then `n` service calls. -/
def starCalls (n : Nat) : List ApiCall := .setChar 0x2A 15 :: .setBlink 15 :: List.replicate n .service

private theorem events_starCalls (n : Nat) : ((starCalls n).flatMap ApiCall.events).take (n + 2) =
    .store ⟨15, 0x2A⟩ :: .setBlink 15 :: List.replicate n .service := by
  have hservices : (List.replicate n ApiCall.service).flatMap ApiCall.events = List.replicate n .service := by
    simp [List.flatMap_replicate, ApiCall.events]
  have hevents : (starCalls n).flatMap ApiCall.events =
      .store ⟨15, 0x2A⟩ :: .setBlink 15 :: (List.replicate n ApiCall.service).flatMap ApiCall.events := rfl
  rw [hevents, hservices, List.take_of_length_le]
  rw [List.length_cons, List.length_cons, List.length_replicate]

theorem blink_cadence_star :
    (Bench.boot.run (.init :: ((starCalls 290).flatMap ApiCall.events).take 292)).panel.ddram
      (ddramAddress (15 : Fin 32).val) = space := by
  obtain ⟨b, hrun, hcalls, hbuf, hblink⟩ : ∃ b : Bench,
      Bench.boot.run (.init :: ((starCalls 290).flatMap ApiCall.events).take 292) =
        b.run (List.replicate 290 .service) ∧
      b.calls = [] ∧ b.lcd.displayBuffer[15] = 0x2A ∧ lcdGetBlink 15 b.lcd ≠ 0 :=
    ⟨((Bench.boot.step .init).step (.store ⟨15, 0x2A⟩)).step (.setBlink 15),
      by rw [events_starCalls]; exact Bench.run_append _ [.init, .store ⟨15, 0x2A⟩, .setBlink 15] _, rfl,
      by decide +kernel, by decide +kernel⟩
  refine (blink_cadence Bench.boot (starCalls 290) 292 (m := 1) (j := 34) ?_ (by decide) (by decide) (by decide)
    15 0x2A fun call hcall => ?_).trans (if_pos rfl)
  · rw [hrun, Bench.length_calls_run_services, hcalls]
    rfl
  · rw [hrun] at hcall
    obtain ⟨i, hi⟩ := List.mem_iff_getElem?.1 hcall
    have hi34 : i < 34 := by
      have := (List.getElem?_eq_some_iff.1 hi).1
      rw [List.length_take] at this
      omega
    rw [List.getElem?_take_of_lt hi34] at hi
    obtain ⟨hbuf', hmask⟩ := (b.run_services_frame 290).2.2 i call (by omega) hi
    refine ⟨fun h => hblink ?_, by rw [hbuf']; exact hbuf⟩
    rw [← h]
    unfold lcdGetBlink
    rw [hmask]
    rfl

end LcdKeypad
