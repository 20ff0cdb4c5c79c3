import LcdKeypad.HeapGuarantees

/-!
# The statistics of the heap

`vPortGetHeapStats` walks the free list; what it reports is here read off the free bytes.
-/

namespace LcdKeypad

open ByteMemory Extents

/-! ### Extremes of a list that is walked -/

theorem isGreatest_insert_max {S : Set ℕ} {a b m : ℕ} (h : IsGreatest (insert (max a b) S) m) :
    IsGreatest (insert a (insert b S)) m := by
  obtain ⟨hm, hub⟩ := h
  have hmax : max a b ≤ m := hub (Set.mem_insert _ _)
  constructor
  · rcases hm with rfl | hm
    · rcases le_total a b with hab | hab
      · rw [max_eq_right hab]; exact .inr (.inl rfl)
      · rw [max_eq_left hab]; exact .inl rfl
    · exact .inr (.inr hm)
  · rintro x (rfl | rfl | hx)
    · exact le_trans (le_max_left _ _) hmax
    · exact le_trans (le_max_right _ _) hmax
    · exact hub (.inr hx)

theorem isLeast_insert_min {S : Set ℕ} {a b m : ℕ} (h : IsLeast (insert (min a b) S) m) :
    IsLeast (insert a (insert b S)) m := by
  obtain ⟨hm, hlb⟩ := h
  have hmin : m ≤ min a b := hlb (Set.mem_insert _ _)
  constructor
  · rcases hm with rfl | hm
    · rcases le_total a b with hab | hab
      · rw [min_eq_left hab]; exact .inl rfl
      · rw [min_eq_right hab]; exact .inr (.inl rfl)
    · exact .inr (.inr hm)
  · rintro x (rfl | rfl | hx)
    · exact le_trans hmin (min_le_left _ _)
    · exact le_trans hmin (min_le_right _ _)
    · exact hlb (.inr hx)

/-- The sizes in a list of extents. -/
def sizes (l : List Extent) : Set ℕ := {n | ∃ e ∈ l, n = e.size}

theorem sizes_cons (e : Extent) (l : List Extent) : sizes (e :: l) = insert e.size (sizes l) := by
  ext n
  unfold sizes
  simp [or_and_right, exists_or]

/-- The sizes that count for the smallest block. -/
def positiveSizes (l : List Extent) : Set ℕ := sizes (l.filter fun e => decide (0 < e.size))

variable {mem : Memory} {q : UInt32}

/-- The walk over the free blocks, from any counts. -/
theorem scanBlocks_eq {l : List Extent} {p : UInt32} (hl : Linked mem p l q) (hend : ∀ e ∈ l, addr e ≠ q)
    (hsize : ∀ e ∈ l, e.size < 2 ^ 31) {fuel : ℕ} (hfuel : l.length < fuel) (xBlocks xMaxSize xMinSize : UInt32) :
    ∃ xMaxSize' xMinSize', scanBlocks mem q fuel (pxNextFreeBlock mem p) (xBlocks, xMaxSize, xMinSize) =
        .ok (xBlocks + .ofNat l.length, xMaxSize', xMinSize') ∧
      IsGreatest (insert xMaxSize.toNat (sizes l)) xMaxSize'.toNat ∧
      IsLeast (insert xMinSize.toNat (positiveSizes l)) xMinSize'.toNat := by
  induction l generalizing p fuel xBlocks xMaxSize xMinSize with
  | nil =>
    obtain ⟨fuel, rfl⟩ : ∃ k, fuel = k + 1 := ⟨fuel - 1, by omega⟩
    have hq : pxNextFreeBlock mem p = q := hl
    refine ⟨xMaxSize, xMinSize, ?_, ?_, ?_⟩
    · rw [hq, scanBlocks, if_neg (by simp)]
      simp
    · simp [sizes]
    · simp [positiveSizes, sizes]
  | cons e l ih =>
    obtain ⟨fuel, rfl⟩ : ∃ k, fuel = k + 1 := ⟨fuel - 1, by omega⟩
    obtain ⟨hnext, hesize, hrest⟩ := hl
    have hlt := hsize e List.mem_cons_self
    have htoNat : (UInt32.ofNat e.size).toNat = e.size := UInt32.toNat_ofNat_of_lt' (by simp [UInt32.size]; omega)
    rw [List.length_cons] at hfuel
    have hfuel' : l.length < fuel := by omega
    obtain ⟨xMax, xMin, hscan, hmax, hmin⟩ := ih hrest (fun f hf => hend f (List.mem_cons_of_mem _ hf))
      (fun f hf => hsize f (List.mem_cons_of_mem _ hf)) hfuel' (xBlocks + 1)
      (if xMaxSize < .ofNat e.size then .ofNat e.size else xMaxSize)
      (if UInt32.ofNat e.size ≠ 0 then if .ofNat e.size < xMinSize then .ofNat e.size else xMinSize else xMinSize)
    refine ⟨xMax, xMin, ?_, ?_, ?_⟩
    · rw [hnext, scanBlocks, if_pos (hend e List.mem_cons_self), hesize]
      dsimp only
      rw [hscan, List.length_cons, UInt32.ofNat_add, UInt32.add_assoc, UInt32.add_comm (UInt32.ofNat l.length)]
      rfl
    · rw [sizes_cons]
      refine isGreatest_insert_max ?_
      convert hmax using 2
      split
      · next h => rw [UInt32.lt_iff_toNat_lt, htoNat] at h; rw [htoNat]; omega
      · next h => rw [UInt32.lt_iff_toNat_lt, htoNat] at h; omega
    · by_cases h0 : e.size = 0
      · have hz : UInt32.ofNat e.size = 0 := by rw [h0]; rfl
        rw [if_neg (by simp [hz])] at hmin
        unfold positiveSizes at hmin ⊢
        rw [List.filter_cons_of_neg (by simp [h0])]
        exact hmin
      · have hz : UInt32.ofNat e.size ≠ 0 := by
          intro hz
          rw [hz] at htoNat
          exact h0 htoNat.symm
        rw [if_pos hz] at hmin
        unfold positiveSizes at hmin ⊢
        rw [List.filter_cons_of_pos (by simp; omega), sizes_cons]
        refine isLeast_insert_min ?_
        convert hmin using 2
        split
        · next h => rw [UInt32.lt_iff_toNat_lt, htoNat] at h; rw [htoNat]; omega
        · next h => rw [UInt32.lt_iff_toNat_lt, htoNat] at h; omega

/-! ### Sizes and free bytes -/

/-- The lengths of the stretches that lie in `F`. -/
def stretches (F : Set ℕ) : Set ℕ := {n | ∃ x, Set.Ico x (x + n) ⊆ F}

/-- The lengths of the stretches of `F` that cannot be extended. -/
def maximalStretches (F : Set ℕ) : Set ℕ := {n | ∃ x ∈ starts F, Set.Ico x (x + n) ⊆ F ∧ x + n ∉ F}

variable {room : ℕ} {l : List Extent}

theorem isGreatest_stretches (hs : Sorted room l) (hc : Coalesced l) (hr : 0 < room) {m : ℕ}
    (h : IsGreatest (insert 0 (sizes l)) m) : IsGreatest (stretches (cover l)) m := by
  obtain ⟨hm, hub⟩ := h
  constructor
  · rcases hm with rfl | ⟨e, he, rfl⟩
    · exact ⟨0, by simp⟩
    · exact ⟨e.lo, fun a ha => ⟨e, he, ha⟩⟩
  · rintro n ⟨x, hx⟩
    rcases Nat.eq_zero_or_pos n with rfl | hn
    · exact Nat.zero_le _
    · obtain ⟨e, he, hlo, hhi⟩ := exists_mem_of_Ico_subset hs hc hr (by omega) hx
      have hsize : e.size ≤ m := hub (.inr ⟨e, he, rfl⟩)
      have hehi : e.hi = e.lo + e.size := rfl
      omega

theorem positiveSizes_eq (hs : Sorted room l) (hc : Coalesced l) (hr : 0 < room) :
    positiveSizes l = maximalStretches (cover l) := by
  ext n
  constructor
  · rintro ⟨e, he, rfl⟩
    rw [List.mem_filter, decide_eq_true_eq] at he
    exact ⟨e.lo, (mem_starts_cover hs hc hr).2 ⟨e, he.1, he.2, rfl⟩, fun a ha => ⟨e, he.1, ha⟩,
      hi_notMem_cover hs hc hr he.1⟩
  · rintro ⟨x, hx, hsub, hnot⟩
    obtain ⟨e, he, h0, rfl⟩ := (mem_starts_cover hs hc hr).1 hx
    have hehi : e.hi = e.lo + e.size := rfl
    refine ⟨e, List.mem_filter.2 ⟨he, decide_eq_true h0⟩, le_antisymm ?_ ?_⟩
    · -- the stretch does not go beyond the extent
      by_contra hlt
      exact hi_notMem_cover hs hc hr he (hsub ⟨by omega, by omega⟩)
    · by_contra hlt
      exact hnot ⟨e, he, by omega, by omega⟩

variable {xStart : UInt32} {fuel : ℕ} {rs : List HeapRegion}

/-- After any run, `vPortGetHeapStats` reports the number of free bytes, the longest stretch of them, the shortest
that cannot be extended (`portMAX_DELAY` if nothing is free), and as many blocks as there are such stretches.  The
end markers of the regions before the last may be counted as blocks as well. -/
theorem heapRun_stats (hok : RegionsOk xStart rs) (hfuel : 2 ^ 29 ≤ fuel) (p : UInt32) (rest : List HeapRegion)
    (mem : Memory) (calls : List HeapCall) :
    ∃ c s, heapRun xStart fuel (rs ++ ⟨p, 0⟩ :: rest) mem calls = .ok c ∧
      vPortGetHeapStats xStart fuel c.heap = .ok s ∧
      s.xAvailableHeapSpaceInBytes.toNat = (c.freeBytes rs).ncard ∧
      IsGreatest (stretches (c.freeBytes rs)) s.xSizeOfLargestFreeBlockInBytes.toNat ∧
      IsLeast (insert 0xFFFFFFFF (maximalStretches (c.freeBytes rs))) s.xSizeOfSmallestFreeBlockInBytes.toNat ∧
      (starts (c.freeBytes rs)).ncard ≤ s.xNumberOfFreeBlocks.toNat ∧
      s.xNumberOfFreeBlocks.toNat < (starts (c.freeBytes rs)).ncard + rs.length := by
  obtain ⟨c, free, allocated, hrun, hI⟩ := heapRun_ok hok hfuel p rest mem calls
  have hlength := hI.heap.length_lt
  have hsorted := hI.heap.sorted
  have hcoalesced := hI.heap.coalesced
  obtain ⟨xMax, xMin, hscan, hmax, hmin⟩ := scanBlocks_eq hI.heap.linked (fun e he => hI.heap.addr_ne_end he)
    (fun e he => hI.heap.size_lt (List.mem_append_left _ he)) (lt_of_lt_of_le hlength hfuel) 0 0 portMAX_DELAY
  have hfirst : pxNextFreeBlock c.heap.mem xStart ≠ 0 := by
    have hlinked := hI.heap.linked
    cases hfree : free with
    | nil =>
      rw [hfree] at hlinked
      rw [show pxNextFreeBlock c.heap.mem xStart = c.heap.pxEnd from hlinked]
      exact hI.heap.end_ne_zero
    | cons e l =>
      rw [hfree] at hlinked
      rw [hlinked.1]
      exact hI.heap.addr_ne_zero (by rw [hfree]; exact List.mem_cons_self)
  have hstats : vPortGetHeapStats xStart fuel c.heap = .ok ⟨c.heap.xFreeBytesRemaining, xMax, xMin,
      0 + .ofNat free.length, c.heap.xMinimumEverFreeBytesRemaining, c.heap.xNumberOfSuccessfulAllocations,
      c.heap.xNumberOfSuccessfulFrees⟩ := by
    unfold vPortGetHeapStats
    dsimp only
    rw [if_pos hfirst, hscan]
    rfl
  have hnumber : (0 + UInt32.ofNat free.length).toNat = free.length := by
    rw [UInt32.zero_add, UInt32.toNat_ofNat_of_lt' (by simp [UInt32.size]; omega)]
  have hcount := ncard_starts_cover hsorted hcoalesced (by decide)
  have hempties := hI.heap.empties_lt
  rw [List.length_map] at hempties
  refine ⟨c, _, hrun, hstats, ?_, ?_, ?_, ?_, ?_⟩ <;> rw [← hI.cover_free hok.usable]
  · rw [ncard_cover hsorted]
    exact hI.heap.free_bytes_toNat
  · exact isGreatest_stretches hsorted hcoalesced (by decide) hmax
  · rw [← positiveSizes_eq hsorted hcoalesced (by decide)]
    exact hmin
  · dsimp only
    omega
  · dsimp only
    omega

theorem heapRun_stats_freertosHeap :
    ∃ c s, heapRun 0x20003000 (2 ^ 29) (heapRegions 0x20000000) (fun _ => 0) [.malloc 100, .malloc 5, .free 1] = .ok c ∧
      vPortGetHeapStats 0x20003000 (2 ^ 29) c.heap = .ok s ∧
      s.xAvailableHeapSpaceInBytes.toNat = (c.freeBytes [⟨0x20000000, configTOTAL_HEAP_SIZE⟩]).ncard ∧
      IsGreatest (stretches (c.freeBytes [⟨0x20000000, configTOTAL_HEAP_SIZE⟩]))
        s.xSizeOfLargestFreeBlockInBytes.toNat ∧
      IsLeast (insert 0xFFFFFFFF (maximalStretches (c.freeBytes [⟨0x20000000, configTOTAL_HEAP_SIZE⟩])))
        s.xSizeOfSmallestFreeBlockInBytes.toNat ∧
      (starts (c.freeBytes [⟨0x20000000, configTOTAL_HEAP_SIZE⟩])).ncard ≤ s.xNumberOfFreeBlocks.toNat ∧
      s.xNumberOfFreeBlocks.toNat < (starts (c.freeBytes [⟨0x20000000, configTOTAL_HEAP_SIZE⟩])).ncard + 1 :=
  heapRun_stats regionsOk_at_0x20000000 (le_refl _) 0 [] _ _

end LcdKeypad
