import Mathlib.Data.List.Basic

/-!
# Loops of stores into an array

A loop that stores `f i` into cell `i` for every `i` of a range leaves `f` on the range and the old contents
elsewhere.
-/

namespace StoreLoop

variable {α : Type*} {n : Nat}

/-- The array after `for i in [first, first + count): v[i] = f i`. -/
def run (f : Nat → α) (first count : Nat) (v : Vector α n) : Vector α n :=
  (List.range' first count).foldl (fun v i => v.setIfInBounds i (f i)) v

theorem getElem_run (f : Nat → α) (first count : Nat) (v : Vector α n) {c : Nat} (hc : c < n) :
    (run f first count v)[c] = if first ≤ c ∧ c < first + count then f c else v[c] := by
  induction count generalizing first v with
  | zero =>
    have : ¬ (first ≤ c ∧ c < first + 0) := by omega
    simp only [this, ↓reduceIte]
    rfl
  | succ count ih =>
    show (run f (first + 1) count (v.setIfInBounds first (f first)))[c] = _
    rw [ih, Vector.getElem_setIfInBounds hc]
    by_cases h : first = c
    · subst h
      have h1 : ¬ (first + 1 ≤ first ∧ first < first + 1 + count) := by omega
      have h2 : first ≤ first ∧ first < first + (count + 1) := by omega
      simp only [h1, h2, and_self, ↓reduceIte]
    · have he : (first + 1 ≤ c ∧ c < first + 1 + count) ↔ (first ≤ c ∧ c < first + (count + 1)) := by omega
      simp only [he, h, ↓reduceIte]

end StoreLoop
