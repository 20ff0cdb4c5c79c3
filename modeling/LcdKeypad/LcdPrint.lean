import LcdKeypad.General.StoreLoop
import LcdKeypad.Lcd

/-!
# Printing into the shadow buffer

What the loops of `LCD_Print`, `LCD_PrintStr` and `LCD_Clear` leave in the shadow buffer.  The end of the loop of
`LCD_Print` is `position + length` in `uint8_t`, clamped to 32, so the text is copied as documented unless the sum
wraps: then the loop stops below `position`, and for a string, whose length has been narrowed once before, it
stops at the sum modulo 256.
-/

namespace LcdKeypad

/-! ### Loops of stores -/

theorem foldl_store (cs : List CellStore) (s : Lcd) :
    cs.foldl Lcd.store s = { s with displayBuffer := (cs.foldl Lcd.store s).displayBuffer } := by
  induction cs generalizing s with
  | nil => rfl
  | cons c cs ih =>
    rw [List.foldl_cons, ih]
    rfl

theorem toNat_ofNat_of_mem {first limit : UInt8} {i : Nat}
    (h : i ∈ List.range' first.toNat (limit.toNat - first.toNat)) : (UInt8.ofNat i).toNat = i := by
  have hl := limit.toNat_lt
  have hi := List.mem_range'_1.1 h
  exact UInt8.toNat_ofNat_of_lt' (by show i < 256; omega)

theorem displayBuffer_loop (f : UInt8 → UInt8) (first limit : UInt8) (s : Lcd) :
    (((loopIndices first limit).map fun i => ⟨i, f i⟩).foldl Lcd.store s).displayBuffer =
      StoreLoop.run (fun i => f (UInt8.ofNat i)) first.toNat (limit.toNat - first.toNat) s.displayBuffer := by
  unfold loopIndices StoreLoop.run
  rw [List.map_map]
  have hidx : ∀ i ∈ List.range' first.toNat (limit.toNat - first.toNat), (UInt8.ofNat i).toNat = i :=
    fun i hi => toNat_ofNat_of_mem hi
  revert hidx
  generalize List.range' first.toNat (limit.toNat - first.toNat) = is
  intro hidx
  induction is generalizing s with
  | nil => rfl
  | cons i is ih =>
    rw [List.map_cons, List.foldl_cons, List.foldl_cons, ih _ fun j hj => hidx j (List.mem_cons_of_mem _ hj)]
    have hi := hidx i (List.mem_cons_self ..)
    simp only [Function.comp_apply, Lcd.store, hi]

theorem getElem_loop (f : UInt8 → UInt8) (first limit : UInt8) (s : Lcd) {c : Nat} (hc : c < 32) :
    (((loopIndices first limit).map fun i => ⟨i, f i⟩).foldl Lcd.store s).displayBuffer[c] =
      if first.toNat ≤ c ∧ c < limit.toNat then f (UInt8.ofNat c) else s.displayBuffer[c] := by
  rw [displayBuffer_loop, StoreLoop.getElem_run]
  have h : (first.toNat ≤ c ∧ c < first.toNat + (limit.toNat - first.toNat)) ↔
      (first.toNat ≤ c ∧ c < limit.toNat) := by omega
  simp only [h]

theorem getElem_lcdClear (s : Lcd) {c : Nat} (hc : c < 32) : (lcdClear s).displayBuffer[c] = space := by
  have hin : (0 : UInt8).toNat ≤ c ∧ c < lcdTotalChars.toNat := ⟨Nat.zero_le c, hc⟩
  exact (getElem_loop (fun _ => space) 0 lcdTotalChars s hc).trans (if_pos hin)

theorem getElem_lcdInit (s : Lcd) {c : Nat} (hc : c < 32) : (lcdInit s).displayBuffer[c] = space :=
  getElem_lcdClear s hc

/-! ### `LCD_Print` -/

private theorem end_toNat (length position : UInt8) :
    (if lcdTotalChars < position + length then lcdTotalChars else position + length).toNat =
      min 32 ((position.toNat + length.toNat) % 256) := by
  have h : (position + length).toNat = (position.toNat + length.toNat) % 256 := UInt8.toNat_add position length
  have ht : lcdTotalChars.toNat = 32 := rfl
  split
  · rename_i hlt
    rw [UInt8.lt_iff_toNat_lt, ht, h] at hlt
    rw [ht]; omega
  · rename_i hlt
    rw [UInt8.lt_iff_toNat_lt, ht, h] at hlt
    rw [h]; omega

theorem lcdPrintStores_of_out_of_range {position : UInt8} (h : lcdTotalChars ≤ position)
    (text : Option (List UInt8)) (length : UInt8) : lcdPrintStores text length position = [] := by
  cases text with
  | none => rfl
  | some text => rw [lcdPrintStores, if_pos h]

theorem lcdPrint_of_out_of_range {position : UInt8} (h : 32 ≤ position.toNat) (text : Option (List UInt8))
    (length : UInt8) (s : Lcd) : lcdPrint text length position s = s := by
  rw [lcdPrint, lcdPrintStores_of_out_of_range (UInt8.le_iff_toNat_le.2 h), List.foldl_nil]

/-- The cells `LCD_Print` changes: those from `position` up to the sum as `uint8_t` computes it. -/
theorem getElem_lcdPrint {position : UInt8} (hp : position.toNat < 32) (text : List UInt8) (length : UInt8)
    (s : Lcd) {c : Nat} (hc : c < 32) :
    (lcdPrint (some text) length position s).displayBuffer[c] =
      if position.toNat ≤ c ∧ c < (position.toNat + length.toNat) % 256 then text.getD (c - position.toNat) 0
      else s.displayBuffer[c] := by
  have hr : ¬ lcdTotalChars ≤ position := by
    rw [UInt8.le_iff_toNat_le]
    show ¬ 32 ≤ position.toNat
    omega
  simp only [lcdPrint, lcdPrintStores, hr, ↓reduceIte]
  rw [getElem_loop _ position _ s hc, end_toNat, UInt8.toNat_ofNat_of_lt' (by show c < 256; omega)]
  have he : c < min 32 ((position.toNat + length.toNat) % 256) ↔ c < (position.toNat + length.toNat) % 256 := by
    omega
  simp only [he]

/-- What `LCD_Print` is documented to do: the characters that fit are copied, the others dropped, and nothing but
the buffer changes. -/
structure PrintsWhatFits (text : List UInt8) (length position : UInt8) (s s' : Lcd) : Prop where
  out_of_range : 32 ≤ position.toNat → s'.displayBuffer = s.displayBuffer
  copied : position.toNat < 32 → ∀ c (hc : c < 32), position.toNat ≤ c → c - position.toNat < length.toNat →
    text[c - position.toNat]? = some s'.displayBuffer[c]
  kept : position.toNat < 32 → ∀ c (hc : c < 32), ¬ (position.toNat ≤ c ∧ c - position.toNat < length.toNat) →
    s'.displayBuffer[c] = s.displayBuffer[c]
  frame : s'.blinkMask = s.blinkMask ∧ s'.refreshPhase = s.refreshPhase ∧
    s'.currentCharIndex = s.currentCharIndex ∧ s'.millisecondCounter = s.millisecondCounter

private theorem getD_of_getElem?_eq {text : List UInt8} {i : Nat} {x : UInt8} (h : i < text.length) :
    text[i]? = some x ↔ text.getD i 0 = x := by
  rw [List.getD_eq_getElem?_getD, List.getElem?_eq_getElem h]
  simp

/-- `LCD_Print` copies what fits exactly when the position is out of range, the sum does not wrap, or the cells it
skips already show the text. -/
theorem printsWhatFits_iff (text : List UInt8) (length position : UInt8) (s : Lcd)
    (hlen : length.toNat ≤ text.length) :
    PrintsWhatFits text length position s (lcdPrint (some text) length position s) ↔
      32 ≤ position.toNat ∨ position.toNat + length.toNat < 256 ∨
        ∀ c (hc : c < 32), position.toNat ≤ c → text[c - position.toNat]? = some s.displayBuffer[c] := by
  have hframe := foldl_store (lcdPrintStores (some text) length position) s
  have hp256 := position.toNat_lt
  have hl256 := length.toNat_lt
  by_cases hp : 32 ≤ position.toNat
  · simp only [hp, true_or, iff_true]
    rw [lcdPrint_of_out_of_range hp]
    exact ⟨fun _ => rfl, fun h => absurd h (by omega), fun h => absurd h (by omega), rfl, rfl, rfl, rfl⟩
  · have hp' : position.toNat < 32 := by omega
    constructor
    · intro h
      by_cases hw : position.toNat + length.toNat < 256
      · exact Or.inr (Or.inl hw)
      · refine Or.inr (Or.inr fun c hc hpc => ?_)
        -- the wrapped sum lies below `position`, so the loop stores nothing
        have hcell := getElem_lcdPrint hp' text length s hc
        have hout : ¬ (position.toNat ≤ c ∧ c < (position.toNat + length.toNat) % 256) := by omega
        simp only [hout, ↓reduceIte] at hcell
        rw [h.copied hp' c hc hpc (by omega), hcell]
    · intro h
      refine ⟨fun h' => absurd h' (by omega), fun _ c hc hpc hfit => ?_, fun _ c hc hout => ?_, ?_⟩
      · rw [getD_of_getElem?_eq (by omega), getElem_lcdPrint hp' text length s hc]
        rcases h with h | h | h
        · omega
        · have hin : position.toNat ≤ c ∧ c < (position.toNat + length.toNat) % 256 := by omega
          simp only [hin, and_self, ↓reduceIte]
        · have hold := (getD_of_getElem?_eq (by omega)).1 (h c hc hpc)
          split
          · rfl
          · exact hold
      · have hin : ¬ (position.toNat ≤ c ∧ c < (position.toNat + length.toNat) % 256) := by omega
        rw [getElem_lcdPrint hp' text length s hc]
        simp only [hin, ↓reduceIte]
      · rw [lcdPrint, hframe]
        exact ⟨rfl, rfl, rfl, rfl⟩

theorem printsWhatFits_hi : PrintsWhatFits [0x48, 0x69] 2 0 .boot (lcdPrint (some [0x48, 0x69]) 2 0 .boot) :=
  (printsWhatFits_iff [0x48, 0x69] 2 0 .boot (by decide)).2 (Or.inr (Or.inl (by decide)))

/-- 255 characters at position 1: the sum wraps to 0 and nothing is printed, although 31 characters fit. -/
theorem lcdPrint_wraps : (255 : UInt8).toNat ≤ (List.replicate 255 (0x41 : UInt8)).length ∧
    ¬ PrintsWhatFits (List.replicate 255 0x41) 255 1 (lcdInit .boot)
      (lcdPrint (some (List.replicate 255 0x41)) 255 1 (lcdInit .boot)) := by
  refine ⟨by rw [List.length_replicate]; decide, fun h => ?_⟩
  have h1 := h.copied (by decide) 1 (by decide) (by decide) (by decide)
  have hout : ¬ ((1 : UInt8).toNat ≤ 1 ∧ 1 < ((1 : UInt8).toNat + (255 : UInt8).toNat) % 256) := by decide
  rw [getElem_lcdPrint (by decide) _ _ _ (by omega), if_neg hout, getElem_lcdInit _ (by omega)] at h1
  revert h1
  decide

/-! ### `LCD_PrintStr` -/

theorem strlen_bytes (text : CString) : strlen text.bytes = text.chars.length := by
  obtain ⟨chars, hne⟩ := text
  show strlen (chars ++ [0]) = chars.length
  induction chars with
  | nil => rfl
  | cons c cs ih =>
    have hc : c ≠ 0 := hne c (List.mem_cons_self ..)
    simp only [List.cons_append, strlen, hc, ↓reduceIte, List.length_cons]
    rw [ih fun c hc => hne c (List.mem_cons_of_mem _ hc)]

theorem CString.getElem?_chars (text : CString) {i : Nat} (h : i < text.chars.length) :
    text.chars[i]? = some (text.bytes.getD i 0) := by
  rw [List.getD_eq_getElem?_getD, show text.bytes = text.chars ++ [0] from rfl, List.getElem?_append_left h,
    List.getElem?_eq_getElem h]
  rfl

/-- The cells `LCD_PrintStr` changes: those from `position` up to the sum modulo 256. -/
theorem getElem_lcdPrintStr {position : UInt8} (hp : position.toNat < 32) (text : CString) (s : Lcd) {c : Nat}
    (hc : c < 32) :
    (lcdPrintStr (some text) position s).displayBuffer[c] =
      if position.toNat ≤ c ∧ c < (position.toNat + text.chars.length) % 256 then
        text.bytes.getD (c - position.toNat) 0
      else s.displayBuffer[c] := by
  show (lcdPrint (some text.bytes) (UInt8.ofNat (strlen text.bytes)) position s).displayBuffer[c] = _
  have hlen : (UInt8.ofNat (strlen text.bytes)).toNat = text.chars.length % 256 := by
    rw [strlen_bytes]
    exact UInt8.toNat_ofNat'
  rw [getElem_lcdPrint hp text.bytes _ s hc, hlen, Nat.add_mod_mod]

/-- `LCD_PrintStr` shows the part of the string that fits and keeps the other cells. -/
def ShowsPrefix (text : CString) (position : UInt8) (s s' : Lcd) : Prop :=
  ∀ c (hc : c < 32), if position.toNat ≤ c ∧ c < position.toNat + text.chars.length then
    text.chars[c - position.toNat]? = some s'.displayBuffer[c] else s'.displayBuffer[c] = s.displayBuffer[c]

/-- A cell that the string reaches shows it exactly when the loop stores into it or it showed it before. -/
private theorem shows_cell_iff {position : UInt8} (hp : position.toNat < 32) (text : CString) (s : Lcd) {c : Nat}
    (hc : c < 32) (h1 : position.toNat ≤ c) (h2 : c < position.toNat + text.chars.length) :
    text.chars[c - position.toNat]? = some (lcdPrintStr (some text) position s).displayBuffer[c] ↔
      c < (position.toNat + text.chars.length) % 256 ∨ text.chars[c - position.toNat]? = some s.displayBuffer[c] := by
  rw [getElem_lcdPrintStr hp text s hc, text.getElem?_chars (by omega)]
  by_cases hw : c < (position.toNat + text.chars.length) % 256
  · simp only [h1, hw, and_self, ↓reduceIte, true_or]
  · simp only [hw, and_false, ↓reduceIte, false_or]

private theorem showsPrefix_iff {position : UInt8} (hp : position.toNat < 32) (text : CString) (s : Lcd) :
    ShowsPrefix text position s (lcdPrintStr (some text) position s) ↔
      position.toNat + text.chars.length < 256 ∨ 32 ≤ (position.toNat + text.chars.length) % 256 ∨
        ∀ c (hc : c < 32), position.toNat ≤ c → (position.toNat + text.chars.length) % 256 ≤ c →
          text.chars[c - position.toNat]? = some s.displayBuffer[c] := by
  constructor
  · intro h
    by_cases hw : position.toNat + text.chars.length < 256
    · exact Or.inl hw
    · refine Or.inr (Or.inr fun c hc h1 h2 => ?_)
      have hc' := h c hc
      rw [ite_cond_eq_true _ _ (eq_true (And.intro h1 (by omega)))] at hc'
      rcases (shows_cell_iff hp text s hc h1 (by omega)).1 hc' with h3 | h3
      · omega
      · exact h3
  · intro h c hc
    split
    · rename_i hin
      rw [shows_cell_iff hp text s hc hin.1 hin.2]
      rcases h with h | h | h
      · left; omega
      · left; omega
      · by_cases hw : c < (position.toNat + text.chars.length) % 256
        · exact Or.inl hw
        · exact Or.inr (h c hc hin.1 (by omega))
    · rename_i hout
      have hn : ¬ (position.toNat ≤ c ∧ c < (position.toNat + text.chars.length) % 256) := by
        have := Nat.mod_le (position.toNat + text.chars.length) 256
        omega
      rw [getElem_lcdPrintStr hp text s hc]
      simp only [hn, ↓reduceIte]

private theorem lcdPrintStr_eq_iff {position : UInt8} (hp : position.toNat < 32) (text text' : CString) (s : Lcd)
    (hlen : 32 - position.toNat ≤ text.chars.length) (hlen' : 32 - position.toNat ≤ text'.chars.length)
    (heq : text.chars.take (32 - position.toNat) = text'.chars.take (32 - position.toNat)) :
    (lcdPrintStr (some text) position s).displayBuffer = (lcdPrintStr (some text') position s).displayBuffer ↔
      ∀ c (hc : c < 32), position.toNat ≤ c →
        (c < (position.toNat + text.chars.length) % 256 ↔ c < (position.toNat + text'.chars.length) % 256) ∨
        text.chars[c - position.toNat]? = some s.displayBuffer[c] := by
  have hchars : ∀ i, i < 32 - position.toNat → text'.chars[i]? = text.chars[i]? := by
    intro i hi
    have h := congrArg (·[i]?) heq
    simp only [List.getElem?_take, hi, ↓reduceIte] at h
    exact h.symm
  have hcell : ∀ c (hc : c < 32), ((lcdPrintStr (some text) position s).displayBuffer[c] =
      (lcdPrintStr (some text') position s).displayBuffer[c] ↔ (position.toNat ≤ c →
        (c < (position.toNat + text.chars.length) % 256 ↔ c < (position.toNat + text'.chars.length) % 256) ∨
        text.chars[c - position.toNat]? = some s.displayBuffer[c])) := by
    intro c hc
    rw [getElem_lcdPrintStr hp text s hc, getElem_lcdPrintStr hp text' s hc]
    by_cases h1 : position.toNat ≤ c
    · have e := hchars (c - position.toNat) (by omega)
      rw [text'.getElem?_chars (by omega), text.getElem?_chars (by omega), Option.some.injEq] at e
      rw [text.getElem?_chars (by omega), Option.some.injEq]
      simp only [h1, true_and, true_implies]
      by_cases h2 : c < (position.toNat + text.chars.length) % 256 <;>
        by_cases h3 : c < (position.toNat + text'.chars.length) % 256 <;>
        simp only [h2, h3, ↓reduceIte, e, true_or, false_or, iff_true, iff_false, not_true]
      exact eq_comm
    · simp only [h1, false_and, ↓reduceIte, false_implies]
  constructor
  · intro h c hc
    exact (hcell c hc).1 (by rw [h])
  · intro h
    exact Vector.ext fun c hc => (hcell c hc).2 (h c hc)

/-- `LCD_PrintStr` shows the prefix that fits exactly when the sum does not wrap, wraps past the display, or the
cells it skips already show the string.  Two strings that fill the display from `position` on and agree on what it
can show leave the same buffer exactly when every cell is reached by both loops, by neither, or already shows their
common text. -/
theorem lcdPrintStr_showsPrefix_iff {position : UInt8} (hp : position.toNat < 32) (s : Lcd) :
    (∀ text : CString, ShowsPrefix text position s (lcdPrintStr (some text) position s) ↔
      position.toNat + text.chars.length < 256 ∨ 32 ≤ (position.toNat + text.chars.length) % 256 ∨
        ∀ c (hc : c < 32), position.toNat ≤ c → (position.toNat + text.chars.length) % 256 ≤ c →
          text.chars[c - position.toNat]? = some s.displayBuffer[c]) ∧
    ∀ text text' : CString, 32 - position.toNat ≤ text.chars.length → 32 - position.toNat ≤ text'.chars.length →
      text.chars.take (32 - position.toNat) = text'.chars.take (32 - position.toNat) →
      ((lcdPrintStr (some text) position s).displayBuffer = (lcdPrintStr (some text') position s).displayBuffer ↔
        ∀ c (hc : c < 32), position.toNat ≤ c →
          (c < (position.toNat + text.chars.length) % 256 ↔ c < (position.toNat + text'.chars.length) % 256) ∨
          text.chars[c - position.toNat]? = some s.displayBuffer[c]) :=
  ⟨fun text => showsPrefix_iff hp text s,
    fun text text' hlen hlen' heq => lcdPrintStr_eq_iff hp text text' s hlen hlen' heq⟩

def lettersA (n : Nat) : CString := ⟨List.replicate n 0x41, fun c hc => by rw [List.eq_of_mem_replicate hc]; decide⟩

/-- Two letters are shown, and of 40 letters as much as of 50. -/
theorem showsPrefix_lettersA_two : ShowsPrefix (lettersA 2) 0 .boot (lcdPrintStr (some (lettersA 2)) 0 .boot) ∧
    (lcdPrintStr (some (lettersA 40)) 0 .boot).displayBuffer =
      (lcdPrintStr (some (lettersA 50)) 0 .boot).displayBuffer := by
  obtain ⟨hone, htwo⟩ := lcdPrintStr_showsPrefix_iff (by decide : (0 : UInt8).toNat < 32) .boot
  refine ⟨(hone (lettersA 2)).2 (Or.inl (by decide)), ?_⟩
  refine (htwo (lettersA 40) (lettersA 50) (by decide) (by decide) (by decide)).2 fun c hc _ => Or.inl ?_
  have h40 : (lettersA 40).chars.length = 40 := List.length_replicate ..
  have h50 : (lettersA 50).chars.length = 50 := List.length_replicate ..
  have hzero : (0 : UInt8).toNat = 0 := rfl
  rw [h40, h50, hzero]
  omega

/-- A string of 256 letters at position 0: its length narrows to 0 and nothing is shown, while 32 letters, with the
same first 32 characters, fill the display. -/
theorem lcdPrintStr_wraps :
    ¬ ShowsPrefix (lettersA 256) 0 (lcdInit .boot) (lcdPrintStr (some (lettersA 256)) 0 (lcdInit .boot)) ∧
      (lettersA 256).chars.take 32 = (lettersA 32).chars.take 32 ∧
      (lcdPrintStr (some (lettersA 256)) 0 (lcdInit .boot)).displayBuffer ≠
        (lcdPrintStr (some (lettersA 32)) 0 (lcdInit .boot)).displayBuffer := by
  have hlen : (lettersA 256).chars.length = 256 := List.length_replicate ..
  have h256 : (lcdPrintStr (some (lettersA 256)) 0 (lcdInit .boot)).displayBuffer[0] = space := by
    rw [getElem_lcdPrintStr (by decide), hlen]
    exact getElem_lcdInit .boot (by omega)
  have h32 : (lcdPrintStr (some (lettersA 32)) 0 (lcdInit .boot)).displayBuffer[0] = 0x41 := by
    rw [getElem_lcdPrintStr (by decide), show (lettersA 32).chars.length = 32 from List.length_replicate ..]
    decide
  refine ⟨fun h => ?_, ?_, fun h => ?_⟩
  · rw [showsPrefix_iff (by decide), hlen] at h
    rcases h with h | h | h
    · revert h; decide
    · revert h; decide
    · have h0 := h 0 (by decide) (by decide) (by decide)
      rw [getElem_lcdInit .boot (by omega)] at h0
      revert h0
      decide
  · simp only [lettersA, List.take_replicate]
    decide
  · rw [h, h32] at h256
    revert h256
    decide

end LcdKeypad
