import LcdKeypad.General.Runs

/-!
# Strobed buses

A bus is a set of lines that a trace of writes drives, one of them an enable line: what stands on the data lines
is latched at every falling edge of the enable line.  A block of writes that sets up the data with the enable line
low and then pulses it is a frame (`Bus.Frame`): it latches one value and leaves the enable line low, so a
sequence of frames is read back value by value, in order (`Bus.latched_flatMap`).
-/

namespace Strobe

variable {L W D X S E : Type*}

/-- The lines of a bus: how a write changes their levels, the level of the enable line and the data they carry. -/
structure Bus (L W D : Type*) where
  write : L → W → L
  enable : L → Bool
  data : L → D

namespace Bus

def after (b : Bus L W D) (l : L) (ws : List W) : L := ws.foldl b.write l

/-- The data latched at the falling edges of the enable line. -/
def latched (b : Bus L W D) : L → List W → List D
  | _, [] => []
  | l, w :: ws =>
    if b.enable l && !b.enable (b.write l w) then b.data (b.write l w) :: latched b (b.write l w) ws
    else latched b (b.write l w) ws

/-- Every write made while the enable line is high satisfies `q`. -/
def WhileHigh (b : Bus L W D) (q : W → Prop) : L → List W → Prop
  | _, [] => True
  | l, w :: ws => (b.enable l = true → q w) ∧ WhileHigh b q (b.write l w) ws

@[simp] theorem after_nil (b : Bus L W D) (l : L) : b.after l [] = l := rfl

@[simp] theorem after_cons (b : Bus L W D) (l : L) (w : W) (ws : List W) :
    b.after l (w :: ws) = b.after (b.write l w) ws := rfl

@[simp] theorem latched_nil (b : Bus L W D) (l : L) : b.latched l [] = [] := rfl

theorem after_append (b : Bus L W D) (l : L) (ws ws' : List W) :
    b.after l (ws ++ ws') = b.after (b.after l ws) ws' := by
  unfold after; exact List.foldl_append

theorem latched_append (b : Bus L W D) (l : L) (ws ws' : List W) :
    b.latched l (ws ++ ws') = b.latched l ws ++ b.latched (b.after l ws) ws' := by
  induction ws generalizing l with
  | nil => rfl
  | cons w ws ih =>
    simp only [List.cons_append, latched, after_cons, ih]
    split <;> rfl

theorem whileHigh_append (b : Bus L W D) (q : W → Prop) (l : L) (ws ws' : List W) :
    b.WhileHigh q l (ws ++ ws') ↔ b.WhileHigh q l ws ∧ b.WhileHigh q (b.after l ws) ws' := by
  induction ws generalizing l with
  | nil => simp [WhileHigh]
  | cons w ws ih => simp only [List.cons_append, WhileHigh, after_cons, ih, and_assoc]

theorem WhileHigh.mono {b : Bus L W D} {q q' : W → Prop} (h : ∀ w, q w → q' w) {l : L} {ws : List W}
    (hw : b.WhileHigh q l ws) : b.WhileHigh q' l ws := by
  induction ws generalizing l with
  | nil => trivial
  | cons w ws ih => exact ⟨fun hl => h w (hw.1 hl), ih hw.2⟩

/-- Writes that do not touch the enable line keep its level, latch nothing, and while it is low are not made
under a high enable line. -/
theorem quiet (b : Bus L W D) (q : W → Prop) {ws : List W} (hq : ∀ w ∈ ws, ∀ l, b.enable (b.write l w) = b.enable l)
    {l : L} (hl : b.enable l = false) :
    b.latched l ws = [] ∧ b.enable (b.after l ws) = false ∧ b.WhileHigh q l ws := by
  induction ws generalizing l with
  | nil => exact ⟨rfl, hl, trivial⟩
  | cons w ws ih =>
    have hw : b.enable (b.write l w) = false := by rw [hq w (List.mem_cons_self ..), hl]
    obtain ⟨h1, h2, h3⟩ := ih (fun w' hw' => hq w' (List.mem_cons_of_mem _ hw')) hw
    refine ⟨?_, h2, fun h => ?_, h3⟩
    · simp only [latched, hl, Bool.false_and, Bool.false_eq_true, ↓reduceIte, h1]
    · rw [hl] at h; cases h

/-- A write that raises the enable line and one that lowers it, which leave the data lines alone. -/
structure Pulse (b : Bus L W D) (up down : W) : Prop where
  enable_up : ∀ l, b.enable (b.write l up) = true
  enable_down : ∀ l, b.enable (b.write l down) = false
  data_eq : ∀ l, b.data (b.write (b.write l up) down) = b.data l

theorem Pulse.latched_replicate {b : Bus L W D} {up down : W} (h : b.Pulse up down) {q : W → Prop} (hq : q down)
    (n : Nat) {l : L} (hl : b.enable l = false) :
    b.latched l (List.replicate n [up, down]).flatten = List.replicate n (b.data l) ∧
      b.enable (b.after l (List.replicate n [up, down]).flatten) = false ∧
      b.WhileHigh q l (List.replicate n [up, down]).flatten := by
  induction n generalizing l with
  | zero => exact ⟨rfl, hl, trivial⟩
  | succ n ih =>
    obtain ⟨h1, h2, h3⟩ := ih (h.enable_down (b.write l up))
    rw [List.replicate_succ, List.flatten_cons, List.replicate_succ]
    refine ⟨?_, h2, fun he => ?_, fun _ => hq, h3⟩
    · rw [h.data_eq] at h1
      simp only [List.cons_append, List.nil_append, latched, hl, h.enable_up, h.enable_down, h.data_eq, h1,
        Bool.false_and, Bool.true_and, Bool.not_false, Bool.false_eq_true, ↓reduceIte]
    · rw [hl] at he; cases he

/-- A block of writes that, from a low enable line, latches exactly `d`, leaves the enable line low, and writes
only what `q` allows while it is high. -/
structure Frame (b : Bus L W D) (q : W → Prop) (ws : List W) (d : D) : Prop where
  latched_eq : ∀ l, b.enable l = false → b.latched l ws = [d]
  enable_after : ∀ l, b.enable l = false → b.enable (b.after l ws) = false
  whileHigh : ∀ l, b.enable l = false → b.WhileHigh q l ws

theorem Frame.of_pulse {b : Bus L W D} {q : W → Prop} {setup : List W} {up down : W} {d : D}
    (hs : ∀ w ∈ setup, ∀ l, b.enable (b.write l w) = b.enable l) (hd : ∀ l, b.data (b.after l setup) = d)
    (hp : b.Pulse up down) (hq : q down) : b.Frame q (setup ++ [up, down]) d := by
  have key : ∀ l, b.enable l = false → b.latched l (setup ++ [up, down]) = [d] ∧
      b.enable (b.after l (setup ++ [up, down])) = false ∧ b.WhileHigh q l (setup ++ [up, down]) := by
    intro l hl
    obtain ⟨h1, h2, h3⟩ := b.quiet q hs hl
    obtain ⟨h1', h2', h3'⟩ := hp.latched_replicate hq 1 h2
    rw [latched_append, after_append, whileHigh_append, h1]
    exact ⟨by rw [← hd l]; exact h1', h2', h3, h3'⟩
  exact ⟨fun l hl => (key l hl).1, fun l hl => (key l hl).2.1, fun l hl => (key l hl).2.2⟩

/-- A sequence of frames is read back value by value. -/
theorem latched_flatMap (b : Bus L W D) (q : W → Prop) (send : X → List W) (value : X → D) {xs : List X}
    (h : ∀ x ∈ xs, b.Frame q (send x) (value x)) {l : L} (hl : b.enable l = false) :
    b.latched l (xs.flatMap send) = xs.map value ∧ b.enable (b.after l (xs.flatMap send)) = false ∧
      b.WhileHigh q l (xs.flatMap send) := by
  induction xs generalizing l with
  | nil => exact ⟨rfl, hl, trivial⟩
  | cons x xs ih =>
    have hx := h x (List.mem_cons_self ..)
    obtain ⟨h1, h2, h3⟩ := ih (fun y hy => h y (List.mem_cons_of_mem _ hy)) (hx.enable_after l hl)
    rw [List.flatMap_cons, latched_append, after_append, whileHigh_append, hx.latched_eq l hl, h1]
    exact ⟨rfl, h2, hx.whileHigh l hl, h3⟩

/-! ### Machines that drive a bus -/

/-- A machine that writes to the bus, with the lines, as a machine that emits what is latched. -/
def strobed (b : Bus L W D) (step : S → E → S × List W) (s : S × L) (e : E) : (S × L) × List D :=
  (((step s.1 e).1, b.after s.2 (step s.1 e).2), b.latched s.2 (step s.1 e).2)

theorem emitted_strobed (b : Bus L W D) (step : S → E → S × List W) (s : S) (l : L) (es : List E) :
    Runs.emitted (b.strobed step) (s, l) es = b.latched l (Runs.emitted step s es) := by
  induction es generalizing s l with
  | nil => rfl
  | cons e es ih =>
    rw [Runs.emitted_cons, Runs.emitted_cons, latched_append, ← ih]
    rfl

theorem final_strobed (b : Bus L W D) (step : S → E → S × List W) (s : S) (l : L) (es : List E) :
    Runs.final (b.strobed step) (s, l) es = (Runs.final step s es, b.after l (Runs.emitted step s es)) := by
  induction es generalizing s l with
  | nil => rfl
  | cons e es ih =>
    rw [Runs.final_cons, Runs.final_cons, Runs.emitted_cons, after_append, ← ih]
    rfl

end Bus

end Strobe
