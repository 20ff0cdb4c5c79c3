import LcdKeypad.KernelList
import Mathlib.Data.List.Perm.Subperm

/-!
# Whose turn it is in a list

`listGET_OWNER_OF_NEXT_ENTRY` serves the items of a list in turn, and `vListInsertEnd` puts a new item behind all
others, counted from `pxIndex`.  But `pxIndex` steps back when its item is taken out, and then a new item may get
ahead of the one it steps back to.  This happens to an item only until `pxIndex` passes the end of the list, so that
the number `n` of `Ahead N m L i x n`, with `N` for all the items that may come ahead this way, bounds how often the
list serves other items before `x`: no operation makes it greater, and serving another item makes it less.
-/

namespace LcdKeypad

variable {ι α : Type} {m m' : ListMemory ι α} {L L' : ι → List α} {i : ι} {x y : α} {N n : ℕ}

/-- The item `x` stands behind `pxIndex` with `n` items between, or `pxIndex` has to pass the end of the list first. -/
def Ahead (N : ℕ) (m : ListMemory ι α) (L : ι → List α) (i : ι) (x : α) (n : ℕ) : Prop :=
  ∃ s₁ s₂, IndexAt m L i s₁ s₂ ∧ ((∃ l₁ l₂, s₂ = l₁ ++ x :: l₂ ∧ n = l₁.length) ∨ (x ∈ s₁ ∧ n = s₂.length + N))

/-- The item `x` of the list does not fall back. -/
def Onward (m : ListMemory ι α) (L : ι → List α) (m' : ListMemory ι α) (L' : ι → List α) (i : ι) (x : α) : Prop :=
  ∀ N n, Ahead N m L i x n → ∃ n', n' ≤ n ∧ Ahead N m' L' i x n'

theorem Ahead.mem (h : Ahead N m L i x n) : x ∈ L i := by
  obtain ⟨s₁, s₂, hs, ⟨l₁, l₂, rfl, -⟩ | ⟨hx, -⟩⟩ := h
  · rw [hs.1]
    simp
  · rw [hs.1]
    exact List.mem_append_left _ hx

theorem Lists.exists_ahead (h : Lists m L) (hx : x ∈ L i) (hN : (L i).length ≤ N + 1) :
    ∃ n, n ≤ 2 * N ∧ Ahead N m L i x n := by
  obtain ⟨s₁, s₂, hs⟩ := h.exists_indexAt i
  have hlength : s₁.length + s₂.length ≤ N + 1 := by
    rw [← List.length_append, ← hs.1]
    exact hN
  rw [hs.1, List.mem_append] at hx
  rcases hx with hx | hx
  · have := List.length_pos_of_mem hx
    exact ⟨s₂.length + N, by omega, s₁, s₂, hs, Or.inr ⟨hx, rfl⟩⟩
  · obtain ⟨l₁, l₂, rfl⟩ := List.append_of_mem hx
    rw [List.length_append, List.length_cons] at hlength
    exact ⟨l₁.length, by omega, s₁, _, hs, Or.inl ⟨l₁, l₂, rfl, rfl⟩⟩

theorem Onward.refl (m : ListMemory ι α) (L : ι → List α) (i : ι) (x : α) : Onward m L m L i x :=
  fun _ n h => ⟨n, le_rfl, h⟩

theorem Onward.trans {m'' : ListMemory ι α} {L'' : ι → List α} (h : Onward m L m' L' i x)
    (h' : Onward m' L' m'' L'' i x) : Onward m L m'' L'' i x := by
  intro N n hn
  obtain ⟨n₁, hn₁, h₁⟩ := h N n hn
  obtain ⟨n₂, hn₂, h₂⟩ := h' N n₁ h₁
  exact ⟨n₂, hn₂.trans hn₁, h₂⟩

/-- Nothing happens to the list. -/
theorem Onward.of_indexAt (h : ∀ s₁ s₂, IndexAt m L i s₁ s₂ → IndexAt m' L' i s₁ s₂) : Onward m L m' L' i x := by
  intro N n hn
  obtain ⟨s₁, s₂, hs, hcases⟩ := hn
  exact ⟨n, le_rfl, s₁, s₂, h s₁ s₂ hs, hcases⟩

/-- An item behind all others. -/
theorem Onward.of_insertEnd (h : ∀ s₁ s₂, IndexAt m L i s₁ s₂ → ∃ s₁' s₂', IndexAt m' L' i s₁' s₂' ∧
    ((s₁ ⊆ s₁' ∧ s₂' = s₂) ∨ (s₁ = [] ∧ s₁' = [] ∧ s₂' = s₂ ++ [y]))) : Onward m L m' L' i x := by
  intro N n hn
  obtain ⟨s₁, s₂, hs, hcases⟩ := hn
  obtain ⟨s₁', s₂', hs', ⟨hsub, rfl⟩ | ⟨rfl, rfl, rfl⟩⟩ := h s₁ s₂ hs
  · refine ⟨n, le_rfl, s₁', s₂', hs', ?_⟩
    rcases hcases with hbehind | ⟨hx, hn⟩
    · exact Or.inl hbehind
    · exact Or.inr ⟨hsub hx, hn⟩
  · rcases hcases with ⟨l₁, l₂, rfl, hn⟩ | ⟨hx, -⟩
    · exact ⟨n, le_rfl, [], _, hs', Or.inl ⟨l₁, l₂ ++ [y], by simp, hn⟩⟩
    · cases hx

/-- Another item is served. -/
theorem Ahead.served (h : Lists m L) (hx : Ahead N m L i x n) (hxy : x ≠ y) (hN : (L i).length ≤ N + 1)
    {s₁ s₂ : List α} (hs : IndexAt m L i s₁ s₂)
    (hserved : (∃ r, s₂ = y :: r ∧ IndexAt m' L i (s₁ ++ [y]) r) ∨ (s₂ = [] ∧ ∃ r, s₁ = y :: r ∧ IndexAt m' L i [y] r)) :
    ∃ n', n' < n ∧ Ahead N m' L i x n' := by
  obtain ⟨r₁, r₂, hr, hcases⟩ := hx
  obtain ⟨rfl, rfl⟩ := h.indexAt_unique hs hr
  rcases hserved with ⟨r, rfl, hs'⟩ | ⟨rfl, r, rfl, hs'⟩
  · rcases hcases with ⟨l₁, l₂, hl, rfl⟩ | ⟨hx, rfl⟩
    · cases l₁ with
      | nil => exact absurd (List.cons.inj hl).1.symm hxy
      | cons z l₁ =>
        rw [List.cons_append] at hl
        obtain ⟨rfl, rfl⟩ := List.cons.inj hl
        exact ⟨l₁.length, by simp, _, _, hs', Or.inl ⟨l₁, l₂, rfl, rfl⟩⟩
    · exact ⟨r.length + N, by simp, _, _, hs', Or.inr ⟨List.mem_append_left _ hx, rfl⟩⟩
  · rcases hcases with ⟨l₁, l₂, hl, -⟩ | ⟨hx, rfl⟩
    · simp at hl
    · obtain ⟨l₁, l₂, rfl⟩ := List.append_of_mem ((List.mem_cons.1 hx).resolve_left hxy)
      rw [hs.1] at hN
      simp at hN
      exact ⟨l₁.length, by simp; omega, _, _, hs', Or.inl ⟨l₁, l₂, rfl, rfl⟩⟩

variable [DecidableEq α]

theorem Removed.onward (h : Removed m m' L L' y) (hxy : x ≠ y) : Onward m L m' L' i x := by
  intro N n hn
  obtain ⟨s₁, s₂, hs, hcases⟩ := hn
  have hs' := h.index hs
  rcases hcases with ⟨l₁, l₂, rfl, rfl⟩ | ⟨hx, rfl⟩
  · rw [List.erase_append] at hs'
    split at hs'
    · exact ⟨(l₁.erase y).length, List.length_erase_le, _, _, hs', Or.inl ⟨l₁.erase y, l₂, rfl, rfl⟩⟩
    · rw [List.erase_cons_tail (by simpa using hxy)] at hs'
      exact ⟨l₁.length, le_rfl, _, _, hs', Or.inl ⟨l₁, l₂.erase y, rfl, rfl⟩⟩
  · refine ⟨(s₂.erase y).length + N, ?_, _, _, hs', Or.inr ⟨(List.mem_erase_of_ne hxy).2 hx, rfl⟩⟩
    have := List.length_erase_le (a := y) (l := s₂)
    omega

theorem Inserted.onward (h : Inserted m m' L L' y i) {j : ι} (hj : j ≠ i) : Onward m L m' L' j x := by
  refine Onward.of_indexAt fun s₁ s₂ hs => ?_
  unfold IndexAt
  rw [h.other j hj, h.index]
  exact hs

end LcdKeypad
