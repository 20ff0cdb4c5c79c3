import Mathlib.Data.List.Basic

/-!
# Runs of machines with output

A machine is a step function `step : S → E → S × List O`: from a state and an event it gives the next state and
the outputs emitted on the way.  `final` is the state after a list of events and `emitted` everything emitted by
them, in order; both are compatible with concatenation of event lists.  An invariant of the steps holds after
every run (`final_invariant`), and a relation that every event of one machine keeps, against a block of events of
another that emits the same, makes whole runs emit the same (`emitted_of_simulation`).
-/

namespace Runs

variable {S T E F O : Type*}

def final (step : S → E → S × List O) (s : S) (es : List E) : S :=
  es.foldl (fun s e => (step s e).1) s

/-- Everything emitted by the events `es`, in order. -/
def emitted (step : S → E → S × List O) : S → List E → List O
  | _, [] => []
  | s, e :: es => (step s e).2 ++ emitted step (step s e).1 es

@[simp] theorem final_nil (step : S → E → S × List O) (s : S) : final step s [] = s := rfl

@[simp] theorem final_cons (step : S → E → S × List O) (s : S) (e : E) (es : List E) :
    final step s (e :: es) = final step (step s e).1 es := rfl

@[simp] theorem emitted_nil (step : S → E → S × List O) (s : S) : emitted step s [] = [] := rfl

@[simp] theorem emitted_cons (step : S → E → S × List O) (s : S) (e : E) (es : List E) :
    emitted step s (e :: es) = (step s e).2 ++ emitted step (step s e).1 es := rfl

theorem final_append (step : S → E → S × List O) (s : S) (es es' : List E) :
    final step s (es ++ es') = final step (final step s es) es' := by
  unfold final; exact List.foldl_append

theorem emitted_append (step : S → E → S × List O) (s : S) (es es' : List E) :
    emitted step s (es ++ es') = emitted step s es ++ emitted step (final step s es) es' := by
  induction es generalizing s with
  | nil => rfl
  | cons e es ih => simp only [List.cons_append, emitted_cons, final_cons, ih, List.append_assoc]

/-- What every step keeps holds after every run. -/
theorem final_invariant {step : S → E → S × List O} {I : S → Prop}
    (hstep : ∀ s e, I s → I (step s e).1) {s : S} (h : I s) (es : List E) : I (final step s es) := by
  induction es generalizing s with
  | nil => exact h
  | cons e es ih => exact ih (hstep s e h)

/-- Forward simulation of one event by a block of events: if every event `e` of the first machine emits what the
block `block e` of the second emits, and the relation `R` is kept, then whole runs emit the same. -/
theorem emitted_of_simulation {step : S → E → S × List O} {step' : T → F → T × List O} (block : E → List F)
    {R : S → T → Prop}
    (h : ∀ s t e, R s t → emitted step' t (block e) = (step s e).2 ∧ R (step s e).1 (final step' t (block e)))
    {s : S} {t : T} (hst : R s t) (es : List E) :
    emitted step' t (es.flatMap block) = emitted step s es ∧
      R (final step s es) (final step' t (es.flatMap block)) := by
  induction es generalizing s t with
  | nil => exact ⟨rfl, hst⟩
  | cons e es ih =>
    obtain ⟨ho, hR⟩ := h s t e hst
    obtain ⟨ho', hR'⟩ := ih hR
    rw [List.flatMap_cons, emitted_append, final_append, ho, ho']
    exact ⟨rfl, hR'⟩

/-- Machines that may stop: where every step from a good state is taken and leads to a good state, every run is. -/
theorem foldlM_ok_of_invariant {X : Type*} {step : S → E → Except X S} {I : S → Prop}
    (hstep : ∀ s e, I s → ∃ s', step s e = .ok s' ∧ I s') {s : S} (h : I s) (es : List E) :
    ∃ s', es.foldlM step s = .ok s' ∧ I s' := by
  induction es generalizing s with
  | nil => exact ⟨s, rfl, h⟩
  | cons e es ih =>
    obtain ⟨s₁, hs₁, h₁⟩ := hstep s e h
    obtain ⟨s', hs', h'⟩ := ih h₁
    refine ⟨s', ?_, h'⟩
    rw [List.foldlM_cons, hs₁]
    exact hs'

theorem foldlM_concat {X : Type*} {step : S → E → Except X S} {s s₁ s' : S} {es : List E} {e : E}
    (h : es.foldlM step s = .ok s₁) (he : step s₁ e = .ok s') : (es ++ [e]).foldlM step s = .ok s' := by
  rw [List.foldlM_append, h]
  dsimp only [bind, Except.bind]
  rw [List.foldlM_cons, he]
  rfl

end Runs
