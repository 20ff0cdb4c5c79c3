import Mathlib.Logic.Function.Basic
import Mathlib.Data.List.Basic
import Mathlib.Data.Nat.Notation

/-!
# Memories refreshed in a cycle

A memory is written by a sequence of calls, each of which stores some values; `replay` is its contents after a log
of calls, the newest first.  If call number `n` stores into the address that a schedule of period `N` assigns to
`n % N`, then after `N` calls every scheduled address has been stored into by exactly one of the last `N` calls and
holds what that call stored (`exists_fresh_call`).
-/

namespace Raster

variable {A V : Type*} [DecidableEq A]

def storeAll (m : A → V) (stores : List (A × V)) : A → V :=
  stores.foldl (fun m s => Function.update m s.1 s.2) m

/-- The contents of the memory after the calls of the log, the newest first. -/
def replay (m : A → V) : List (List (A × V)) → A → V
  | [] => m
  | stores :: log => storeAll (replay m log) stores

/-- Call number `n` of the log (counted from 0, the oldest) stores exactly into the address scheduled for
`n % N`. -/
def Scheduled (N : Nat) (slot : Nat → Option A) : List (List (A × V)) → Prop
  | [] => True
  | stores :: log => stores.map Prod.fst = (slot (log.length % N)).toList ∧ Scheduled N slot log

omit [DecidableEq A] in
theorem Scheduled.getElem? {N : Nat} {slot : Nat → Option A} {log : List (List (A × V))}
    (h : Scheduled N slot log) {i : Nat} {stores : List (A × V)} (hi : log[i]? = some stores) :
    stores.map Prod.fst = (slot ((log.length - 1 - i) % N)).toList := by
  induction log generalizing i with
  | nil => cases hi
  | cons stores' log ih =>
    cases i with
    | zero =>
      obtain rfl : stores' = stores := by simpa using hi
      exact h.1
    | succ i =>
      rw [List.getElem?_cons_succ] at hi
      rw [ih h.2 hi, List.length_cons, show log.length + 1 - 1 - (i + 1) = log.length - 1 - i by omega]

theorem storeAll_of_notMem {stores : List (A × V)} {a : A} (h : a ∉ stores.map Prod.fst) (m : A → V) :
    storeAll m stores a = m a := by
  induction stores generalizing m with
  | nil => rfl
  | cons s stores ih =>
    rw [List.map_cons, List.mem_cons, not_or] at h
    exact (ih h.2 _).trans (Function.update_of_ne h.1 ..)

theorem replay_of_newest {log : List (List (A × V))} {i : Nat} {a : A} {v : V} (hi : log[i]? = some [(a, v)])
    (hnewer : ∀ j, j < i → ∀ stores, log[j]? = some stores → a ∉ stores.map Prod.fst) (m : A → V) :
    replay m log a = v := by
  induction log generalizing i with
  | nil => cases hi
  | cons stores log ih =>
    cases i with
    | zero =>
      obtain rfl : stores = [(a, v)] := by simpa using hi
      exact Function.update_self ..
    | succ i =>
      have h0 := hnewer 0 (by omega) stores rfl
      refine (storeAll_of_notMem h0 _).trans (ih (i := i) hi fun j hj stores' hs => ?_)
      exact hnewer (j + 1) (by omega) stores' hs

/-- Among the last `N` of `k ≥ N` calls exactly one has number `r` modulo `N`. -/
theorem exists_unique_residue {N r k : Nat} (hr : r < N) (hk : N ≤ k) :
    ∃ i, i < N ∧ (k - 1 - i) % N = r ∧ ∀ j, j < N → (k - 1 - j) % N = r → j = i := by
  have hN : 0 < N := by omega
  have hlt := Nat.mod_lt (k - 1) hN
  have hdm := Nat.div_add_mod (k - 1) N
  have residue : ∀ j, j < N → (k - 1 - j) % N = if j ≤ (k - 1) % N then (k - 1) % N - j else (k - 1) % N + N - j := by
    intro j hj
    split
    · rename_i h
      rw [show k - 1 - j = ((k - 1) % N - j) + N * ((k - 1) / N) by omega, Nat.add_mul_mod_self_left,
        Nat.mod_eq_of_lt (by omega)]
    · rename_i h
      have hq : 0 < (k - 1) / N := by
        rcases Nat.eq_zero_or_pos ((k - 1) / N) with h0 | h0
        · rw [h0, Nat.mul_zero, Nat.zero_add] at hdm; omega
        · exact h0
      obtain ⟨q, hq⟩ : ∃ q, (k - 1) / N = q + 1 := ⟨(k - 1) / N - 1, by omega⟩
      rw [hq, Nat.mul_succ] at hdm
      rw [show k - 1 - j = ((k - 1) % N + N - j) + N * q by omega, Nat.add_mul_mod_self_left,
        Nat.mod_eq_of_lt (by omega)]
  by_cases h : r ≤ (k - 1) % N
  · refine ⟨(k - 1) % N - r, by omega, ?_, fun j hj hjr => ?_⟩
    · rw [residue _ (by omega)]
      split <;> omega
    · rw [residue j hj] at hjr
      split at hjr <;> omega
  · refine ⟨(k - 1) % N + N - r, by omega, ?_, fun j hj hjr => ?_⟩
    · rw [residue _ (by omega)]
      split <;> omega
    · rw [residue j hj] at hjr
      split at hjr <;> omega

/-- Every scheduled address has been stored into by exactly one of the last `N` calls and holds what that call
stored. -/
theorem exists_fresh_call {N : Nat} {slot : Nat → Option A} {log : List (List (A × V))}
    (h : Scheduled N slot log) (hk : N ≤ log.length)
    (hinj : ∀ r r' a, r < N → r' < N → slot r = some a → slot r' = some a → r = r')
    {r : Nat} {a : A} (hr : r < N) (ha : slot r = some a) (m : A → V) :
    ∃ i v, i < N ∧ log[i]? = some [(a, v)] ∧ replay m log a = v ∧
      ∀ j stores, j < N → log[j]? = some stores → a ∈ stores.map Prod.fst → j = i := by
  obtain ⟨i, hi, hir, huniq⟩ := exists_unique_residue hr hk
  have hil : i < log.length := by omega
  have hunique : ∀ j stores, j < N → log[j]? = some stores → a ∈ stores.map Prod.fst → j = i := by
    intro j stores hj hs hmem
    rw [h.getElem? hs, Option.mem_toList] at hmem
    exact huniq j hj (hinj _ _ a (Nat.mod_lt _ (by omega)) hr hmem ha)
  have hstores := h.getElem? (List.getElem?_eq_getElem hil)
  rw [hir, ha, Option.toList_some] at hstores
  obtain ⟨s, hs, hsa⟩ := List.map_eq_singleton_iff.1 hstores
  obtain ⟨a', v⟩ := s
  obtain rfl : a' = a := hsa
  have hi' : log[i]? = some [(a', v)] := by rw [List.getElem?_eq_getElem hil, hs]
  refine ⟨i, v, hi, hi', replay_of_newest hi' (fun j hj stores hs' hmem => ?_) m, hunique⟩
  have := hunique j stores (by omega) hs' hmem
  omega

end Raster
