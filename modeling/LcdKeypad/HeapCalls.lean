import LcdKeypad.FreeList

/-!
# The calls of the heap

`HeapInv` says what the memory and the variables of `heap_5.c` hold between two calls: the free list in memory, the
headers of the blocks handed out, and that both together make up the regions.  `pvPortMalloc` and `vPortFree` are
then `Extents.allocate` and `Extents.release` on the free list, and keep the invariant.
-/

namespace LcdKeypad

open ByteMemory Extents

/-! ### The size word -/

private theorem getLsbD_31 (x : UInt32) : x.toBitVec.getLsbD 31 = decide (2 ^ 31 ≤ x.toNat) := by
  have h : x.toBitVec.msb = x.toBitVec.getLsbD 31 := BitVec.msb_eq_getLsbD_last x.toBitVec
  rw [← h, BitVec.msb_eq_decide]
  rfl

private theorem toBitVec_heapBlockAllocatedBitmask : heapBlockAllocatedBitmask.toBitVec = BitVec.twoPow 32 31 := by
  decide

theorem and_heapBlockAllocatedBitmask (x : UInt32) : x &&& heapBlockAllocatedBitmask = 0 ↔ x.toNat < 2 ^ 31 := by
  rw [← UInt32.toBitVec_inj, UInt32.toBitVec_and, toBitVec_heapBlockAllocatedBitmask, BitVec.and_twoPow, getLsbD_31]
  simp

theorem or_heapBlockAllocatedBitmask (x : UInt32) :
    (x ||| heapBlockAllocatedBitmask) &&& heapBlockAllocatedBitmask ≠ 0 := by
  rw [Ne, and_heapBlockAllocatedBitmask, UInt32.toNat_or, Nat.not_lt]
  exact Nat.right_le_or

theorem or_and_not_heapBlockAllocatedBitmask {x : UInt32} (h : x.toNat < 2 ^ 31) :
    (x ||| heapBlockAllocatedBitmask) &&& ~~~heapBlockAllocatedBitmask = x := by
  have h0 : x.toBitVec.getLsbD 31 = false := by rw [getLsbD_31]; simpa using h
  rw [← UInt32.toBitVec_inj]
  simp only [UInt32.toBitVec_and, UInt32.toBitVec_or, UInt32.toBitVec_not, toBitVec_heapBlockAllocatedBitmask]
  apply BitVec.eq_of_getLsbD_eq
  intro i hi
  rw [BitVec.getLsbD_and, BitVec.getLsbD_or, BitVec.getLsbD_not, BitVec.getLsbD_twoPow]
  by_cases h31 : 31 = i
  · subst h31
    rw [h0]
    simp
  · simp [h31, hi]

/-! ### The bytes taken for a request -/

/-- A request with its header, rounded up to the alignment. -/
def blockBytes (xWantedSize : UInt32) : ℕ := (xWantedSize.toNat + 15) / 8 * 8

theorem heapAddWillOverflow_iff {a b : UInt32} : heapAddWillOverflow a b ↔ 2 ^ 32 ≤ a.toNat + b.toNat := by
  have hmax : heapSizeMax.toNat = 2 ^ 32 - 1 := by decide
  have hb := b.toNat_lt
  have hle : b ≤ heapSizeMax := by
    rw [UInt32.le_iff_toNat_le, hmax]
    omega
  unfold heapAddWillOverflow
  rw [UInt32.lt_iff_toNat_lt, UInt32.toNat_sub_of_le _ _ hle, hmax]
  omega

theorem requiredSize_toNat (n : UInt32) :
    (requiredSize n).toNat = if n = 0 ∨ 2 ^ 32 ≤ blockBytes n then 0 else blockBytes n := by
  have hn := n.toNat_lt
  have h8 : xHeapStructSize.toNat = 8 := by decide
  have ha8 : portByteAlignment.toNat = 8 := by decide
  unfold requiredSize blockBytes
  simp only [heapAddWillOverflow_iff, h8]
  by_cases h0 : n = 0
  · subst h0
    rfl
  have hpos : 0 < n := UInt32.pos_iff_ne_zero.2 h0
  have hpos' : 0 < n.toNat := by rwa [UInt32.lt_iff_toNat_lt] at hpos
  rw [if_pos hpos]
  by_cases hover : 2 ^ 32 ≤ n.toNat + 8
  · rw [if_neg (not_not.2 hover), if_pos (.inr (by omega))]
    rfl
  · have hw : (n + xHeapStructSize).toNat = n.toNat + 8 := by
      rw [UInt32.toNat_add, h8, Nat.mod_eq_of_lt (by omega)]
    have hmask : (n + xHeapStructSize &&& portByteAlignmentMask).toNat = (n.toNat + 8) % 8 := by
      rw [and_portByteAlignmentMask, hw, UInt32.toNat_ofNat_of_lt' (by simp [UInt32.size]; omega)]
    have hadd : (portByteAlignment - (n + xHeapStructSize &&& portByteAlignmentMask)).toNat =
        8 - (n.toNat + 8) % 8 := by
      rw [UInt32.toNat_sub_of_le _ _ (by rw [UInt32.le_iff_toNat_le, hmask, ha8]; omega), hmask, ha8]
    rw [if_pos hover]
    by_cases halign : (n.toNat + 8) % 8 = 0
    · rw [if_neg (not_not.2 (UInt32.toNat_inj.1 (by rw [hmask, halign]; rfl))), hw]
      rw [if_neg (by rintro (h | h); exacts [h0 h, by omega])]
      omega
    · have hne : n + xHeapStructSize &&& portByteAlignmentMask ≠ 0 := by
        intro h
        rw [h] at hmask
        exact halign hmask.symm
      rw [if_pos hne, hw, hadd]
      by_cases hover' : 2 ^ 32 ≤ n.toNat + 8 + (8 - (n.toNat + 8) % 8)
      · rw [if_neg (not_not.2 hover'), if_pos (.inr (by omega))]
        rfl
      · rw [if_pos hover', UInt32.toNat_add, hw, hadd, if_neg (by rintro (h | h); exacts [h0 h, by omega]),
          Nat.mod_eq_of_lt (by omega)]
        omega

/-! ### The invariant -/

/-- Where a block may lie: aligned, before the end marker and clear of the header `xStart`. -/
structure Placed (xStart pxEnd : UInt32) (e : Extent) : Prop where
  pos : 0 < e.lo
  aligned : e.lo % 8 = 0
  size_aligned : e.size % 8 = 0
  before_end : e.Before 8 (header pxEnd)
  apart_start : (header xStart).Apart 8 e

/-- The free list and the blocks handed out make up the regions. -/
structure HeapInv (xStart : UInt32) (regions free allocated : List Extent) (h : Heap) : Prop where
  linked : Linked h.mem xStart free h.pxEnd
  start_size : xBlockSize h.mem xStart = 0
  end_link : pxNextFreeBlock h.mem h.pxEnd = 0
  end_size : xBlockSize h.mem h.pxEnd = 0
  end_ne_zero : h.pxEnd ≠ 0
  end_fits : h.pxEnd.toNat + 8 ≤ 2 ^ 32
  end_clear : Clear xStart h.pxEnd
  headers : ∀ b ∈ allocated, xBlockSize h.mem (addr b) = .ofNat b.size ||| heapBlockAllocatedBitmask ∧
    pxNextFreeBlock h.mem (addr b) = 0
  placed : ∀ e ∈ free ++ allocated, Placed xStart h.pxEnd e
  sorted : Sorted 8 free
  coalesced : Coalesced free
  apart : ∀ e ∈ free, ∀ b ∈ allocated, e.Apart 8 b
  allocated_apart : allocated.Pairwise (Extent.Apart 8)
  allocated_size : ∀ b ∈ allocated, 16 ≤ b.size
  regions_sorted : Sorted 8 regions
  regions_coalesced : Coalesced regions
  regions_size : ∀ r ∈ regions, r.size < 2 ^ 31
  cover_eq : cover free ∪ cover allocated = cover regions
  total_eq : total free + total allocated = total regions
  /-- The end markers of all regions but the last start out as free blocks without bytes. -/
  empties_lt : empties free < regions.length
  free_bytes : h.xFreeBytesRemaining = .ofNat (total free)

theorem Placed.hi_lt {xStart pxEnd : UInt32} {e : Extent} (h : Placed xStart pxEnd e)
    (hend : pxEnd.toNat + 8 ≤ 2 ^ 32) : e.hi < 2 ^ 32 := by
  have := h.before_end.2
  unfold header at this
  dsimp only at this
  omega

theorem Placed.clear_start {xStart pxEnd : UInt32} {e : Extent} (h : Placed xStart pxEnd e)
    (hend : pxEnd.toNat + 8 ≤ 2 ^ 32) : Clear xStart (addr e) :=
  clear_of_apart h.apart_start (lt_of_le_of_lt e.lo_le_hi (h.hi_lt hend))

theorem Placed.join {xStart pxEnd : UInt32} {e f : Extent} (he : Placed xStart pxEnd e) (hf : Placed xStart pxEnd f)
    (h : e.hi = f.lo) : Placed xStart pxEnd (e.join f) where
  pos := he.pos
  aligned := he.aligned
  size_aligned := by
    have := he.size_aligned
    have := hf.size_aligned
    simp only [Extent.join_size]
    omega
  before_end := ⟨he.before_end.1, by rw [Extent.join_hi h]; exact hf.before_end.2⟩
  apart_start := he.apart_start.join hf.apart_start (by decide) h

/-- A part of a block at an aligned place. -/
theorem Placed.part {xStart pxEnd : UInt32} {e f : Extent} (he : Placed xStart pxEnd e) (hlo : e.lo ≤ f.lo)
    (hhi : f.hi ≤ e.hi) (hsize : 8 ≤ f.size) (halign : f.lo % 8 = 0) (hsalign : f.size % 8 = 0) :
    Placed xStart pxEnd f where
  pos := lt_of_lt_of_le he.pos hlo
  aligned := halign
  size_aligned := hsalign
  before_end := by
    have h := he.before_end.2
    have hf : f.hi = f.lo + f.size := rfl
    exact ⟨by omega, by omega⟩
  apart_start := he.apart_start.of_subset hlo hhi hsize

namespace HeapInv

variable {xStart : UInt32} {regions free allocated : List Extent} {h : Heap}

theorem free_placed (hI : HeapInv xStart regions free allocated h) {e : Extent} (he : e ∈ free) :
    Placed xStart h.pxEnd e := hI.placed e (List.mem_append_left _ he)

theorem allocated_placed (hI : HeapInv xStart regions free allocated h) {b : Extent} (hb : b ∈ allocated) :
    Placed xStart h.pxEnd b := hI.placed b (List.mem_append_right _ hb)

theorem free_lo_lt (hI : HeapInv xStart regions free allocated h) {e : Extent} (he : e ∈ free) : e.lo < 2 ^ 32 :=
  lt_of_le_of_lt e.lo_le_hi ((hI.free_placed he).hi_lt hI.end_fits)

theorem allocated_lo_lt (hI : HeapInv xStart regions free allocated h) {b : Extent} (hb : b ∈ allocated) :
    b.lo < 2 ^ 32 := lt_of_le_of_lt b.lo_le_hi ((hI.allocated_placed hb).hi_lt hI.end_fits)

/-- A block lies in one of the regions. -/
theorem exists_region (hI : HeapInv xStart regions free allocated h) {e : Extent} (he : e ∈ free ++ allocated)
    (h0 : 0 < e.size) : ∃ r ∈ regions, r.lo ≤ e.lo ∧ e.hi ≤ r.hi := by
  refine exists_mem_of_Ico_subset hI.regions_sorted hI.regions_coalesced (by decide)
    (by have : e.hi = e.lo + e.size := rfl; omega) fun a ha => ?_
  rw [← hI.cover_eq]
  rcases List.mem_append.1 he with he | he
  · exact .inl ⟨e, he, ha⟩
  · exact .inr ⟨e, he, ha⟩

theorem size_lt (hI : HeapInv xStart regions free allocated h) {e : Extent} (he : e ∈ free ++ allocated) :
    e.size < 2 ^ 31 := by
  rcases Nat.eq_zero_or_pos e.size with h0 | h0
  · omega
  · obtain ⟨r, hr, hlo, hhi⟩ := hI.exists_region he h0
    have := hI.regions_size r hr
    have : e.hi = e.lo + e.size := rfl
    have : r.hi = r.lo + r.size := rfl
    omega

theorem lo_add_lt (hI : HeapInv xStart regions free allocated h) {e : Extent} (he : e ∈ free ++ allocated) :
    e.lo + 16 ≤ 2 ^ 32 := by
  have h1 := (hI.placed e he).before_end.1
  have h2 : (header h.pxEnd).lo = h.pxEnd.toNat := rfl
  have h3 := hI.end_fits
  omega

theorem addr_ne_zero (hI : HeapInv xStart regions free allocated h) {e : Extent} (he : e ∈ free) : addr e ≠ 0 := by
  intro h0
  have h1 := addr_toNat (hI.free_lo_lt he)
  rw [h0] at h1
  have h2 : UInt32.toNat 0 = 0 := rfl
  have := (hI.free_placed he).pos
  omega

theorem addr_ne_end (hI : HeapInv xStart regions free allocated h) {e : Extent} (he : e ∈ free) :
    addr e ≠ h.pxEnd := by
  intro heq
  have h1 := (hI.free_placed he).before_end.1
  have h2 : (header h.pxEnd).lo = h.pxEnd.toNat := rfl
  rw [h2, ← heq, addr_toNat (hI.free_lo_lt he)] at h1
  omega

/-- The address handed out lies behind the header. -/
theorem pv_toNat (hI : HeapInv xStart regions free allocated h) {b : Extent} (hb : b ∈ allocated) :
    (addr b + 8).toNat = b.lo + 8 := by
  have := hI.lo_add_lt (List.mem_append_right _ hb)
  have h8 : UInt32.toNat 8 = 8 := rfl
  rw [UInt32.toNat_add, addr_toNat (hI.allocated_lo_lt hb), h8, Nat.mod_eq_of_lt (by omega)]

theorem total_lt (hI : HeapInv xStart regions free allocated h) : total free < 2 ^ 32 := by
  have := hI.sorted.total_le (Nat.zero_le h.pxEnd.toNat) (fun e _ => Nat.zero_le e.lo)
    fun e he => (hI.free_placed he).before_end.2
  have := hI.end_fits
  omega

theorem free_bytes_toNat (hI : HeapInv xStart regions free allocated h) :
    h.xFreeBytesRemaining.toNat = total free := by
  rw [hI.free_bytes, UInt32.toNat_ofNat_of_lt' hI.total_lt]

theorem length_lt (hI : HeapInv xStart regions free allocated h) : free.length < 2 ^ 29 := by
  have := hI.sorted.length_le (Nat.zero_le h.pxEnd.toNat) (fun e _ => Nat.zero_le e.lo)
    fun e he => (hI.free_placed he).before_end.1
  have := hI.end_fits
  omega

/-! ### The bytes a call may write -/

/-- The byte belongs neither to the header `xStart` nor to a block of the list. -/
def Untouched (xStart : UInt32) (l : List Extent) (a : ℕ) : Prop :=
  Outside xStart a ∧ ∀ e ∈ l, Outside (addr e) a ∧ a ∉ e.cells

theorem outside_of_apart {p : UInt32} {e : Extent} {a : ℕ} (h : (header p).Apart 8 e) (ha : a ∈ e.cells) :
    Outside p a := by
  unfold Outside
  rcases h with h | h
  · have := h.1; have : (header p).lo = p.toNat := rfl; have := ha.1; omega
  · have := h.2; have : (header p).lo = p.toNat := rfl; have := ha.2; omega

theorem untouched_of_allocated (hI : HeapInv xStart regions free allocated h) {b : Extent} (hb : b ∈ allocated)
    {a : ℕ} (ha : a ∈ b.cells) : Untouched xStart free a := by
  refine ⟨outside_of_apart (hI.allocated_placed hb).apart_start ha, fun e he => ?_⟩
  have hap := hI.apart e he b hb
  have helo := hI.free_lo_lt he
  unfold Outside
  rw [addr_toNat helo, Extent.mem_cells]
  rw [Extent.mem_cells] at ha
  rcases hap with hap | hap
  · have := hap.1; have := hap.2; omega
  · have := hap.2; have := e.lo_le_hi; omega

theorem untouched_of_end (hI : HeapInv xStart regions free allocated h) {a : ℕ} (ha : h.pxEnd.toNat ≤ a)
    (ha' : a < h.pxEnd.toNat + 8) : Untouched xStart free a := by
  refine ⟨?_, fun e he => ?_⟩
  · have := hI.end_clear
    unfold Clear at this
    unfold Outside
    omega
  · have hbe := (hI.free_placed he).before_end
    have hlo : (header h.pxEnd).lo = h.pxEnd.toNat := rfl
    unfold Outside
    rw [addr_toNat (hI.free_lo_lt he), Extent.mem_cells]
    have := hbe.1
    have := hbe.2
    omega

/-- Headers of blocks handed out, and of the end marker, that a call does not write stay as they are. -/
theorem sameHeader_of_allocated (hI : HeapInv xStart regions free allocated h) {mem' : Memory}
    (hframe : ∀ a, Untouched xStart free a → mem' a = h.mem a) {b : Extent} (hb : b ∈ allocated) :
    SameHeader h.mem mem' (addr b) := by
  refine sameHeader_of_bytes fun a ha ha' => hframe a (hI.untouched_of_allocated hb ?_)
  rw [addr_toNat (hI.allocated_lo_lt hb)] at ha ha'
  have := hI.allocated_size b hb
  have : b.hi = b.lo + b.size := rfl
  exact ⟨ha, by omega⟩

theorem sameHeader_of_end (hI : HeapInv xStart regions free allocated h) {mem' : Memory}
    (hframe : ∀ a, Untouched xStart free a → mem' a = h.mem a) : SameHeader h.mem mem' h.pxEnd :=
  sameHeader_of_bytes fun a ha ha' => hframe a (hI.untouched_of_end ha ha')

/-! ### `pvPortMalloc` -/

variable {n : UInt32} {b : Extent} {free' : List Extent}

/-- A block handed out, or what is left of one, is a part of a block that was free. -/
theorem exists_part_of_allocate (hn : n.toNat % 8 = 0) (hn16 : 16 ≤ n.toNat)
    (hall : allocate n.toNat 16 free = some (b, free')) {x : Extent} (hx : x ∈ b :: free') :
    x ∈ free ∨ ∃ e ∈ free, e.lo ≤ x.lo ∧ x.hi ≤ e.hi ∧ 8 ≤ x.size ∧
      (e.lo % 8 = 0 → e.size % 8 = 0 → x.lo % 8 = 0 ∧ x.size % 8 = 0) := by
  rcases List.mem_cons.1 hx with rfl | hx
  · obtain ⟨e, he, hne, rfl⟩ := exists_of_allocate hall
    have hsize : n.toNat ≤ (e.cut n.toNat 16).1.size := le_cut_size hne
    refine .inr ⟨e, he, le_of_eq (cut_lo e).symm, cut_hi_le hne, by omega, fun hlo hs => ?_⟩
    rw [cut_lo]
    have hcut : (e.cut n.toNat 16).1.size = n.toNat ∨ (e.cut n.toNat 16).1.size = e.size := cut_size_eq e
    rcases hcut with h | h
    · exact ⟨hlo, by rw [h]; exact hn⟩
    · exact ⟨hlo, by rw [h]; exact hs⟩
  · rcases mem_allocate hall hx with hx | ⟨e, he, hne, hx⟩
    · exact .inl hx
    · obtain ⟨-, hlo, hhi, hsize⟩ := mem_cut hne hx
      refine .inr ⟨e, he, by omega, le_of_eq hhi, by omega, fun helo hes => ?_⟩
      unfold Extent.hi at hhi
      omega

theorem placed_allocate (hI : HeapInv xStart regions free allocated h) (hn : n.toNat % 8 = 0) (hn16 : 16 ≤ n.toNat)
    (hall : allocate n.toNat 16 free = some (b, free')) : ∀ e ∈ free' ++ b :: allocated, Placed xStart h.pxEnd e := by
  have hpart : ∀ x ∈ b :: free', Placed xStart h.pxEnd x := by
    intro x hx
    rcases exists_part_of_allocate hn hn16 hall hx with hx | ⟨e, he, hlo, hhi, hsize, halign⟩
    · exact hI.free_placed hx
    · have hpe := hI.free_placed he
      obtain ⟨hxlo, hxsize⟩ := halign hpe.aligned hpe.size_aligned
      exact hpe.part hlo hhi hsize hxlo hxsize
  intro x hx
  rcases List.mem_append.1 hx with hx | hx
  · exact hpart x (List.mem_cons_of_mem _ hx)
  · rcases List.mem_cons.1 hx with rfl | hx
    · exact hpart x List.mem_cons_self
    · exact hI.allocated_placed hx

theorem apart_of_allocate (hI : HeapInv xStart regions free allocated h) (hn : n.toNat % 8 = 0) (hn16 : 16 ≤ n.toNat)
    (hall : allocate n.toNat 16 free = some (b, free')) {x : Extent} (hx : x ∈ b :: free') {c : Extent}
    (hc : c ∈ allocated) : x.Apart 8 c := by
  rcases exists_part_of_allocate hn hn16 hall hx with hx | ⟨e, he, hlo, hhi, hsize, -⟩
  · exact hI.apart x hx c hc
  · exact ((hI.apart e he c hc).symm.of_subset hlo hhi hsize).symm

/-- The list level of the invariant after an allocation, from what the memory holds. -/
theorem of_malloc (hI : HeapInv xStart regions free allocated h) (hn : n.toNat % 8 = 0) (hn16 : 16 ≤ n.toNat)
    (hall : allocate n.toNat 16 free = some (b, free')) {h' : Heap} (hend : h'.pxEnd = h.pxEnd)
    (hframe : ∀ a, Untouched xStart free a → h'.mem a = h.mem a) (hlinked : Linked h'.mem xStart free' h.pxEnd)
    (hstart : xBlockSize h'.mem xStart = 0)
    (hsize : xBlockSize h'.mem (addr b) = .ofNat b.size ||| heapBlockAllocatedBitmask)
    (hnext : pxNextFreeBlock h'.mem (addr b) = 0) (hfree : h'.xFreeBytesRemaining = .ofNat (total free')) :
    HeapInv xStart regions free' (b :: allocated) h' where
  linked := by rw [hend]; exact hlinked
  start_size := hstart
  end_link := by rw [hend, (hI.sameHeader_of_end hframe).1, hI.end_link]
  end_size := by rw [hend, (hI.sameHeader_of_end hframe).2, hI.end_size]
  end_ne_zero := by rw [hend]; exact hI.end_ne_zero
  end_fits := by rw [hend]; exact hI.end_fits
  end_clear := by rw [hend]; exact hI.end_clear
  headers := by
    intro c hc
    rcases List.mem_cons.1 hc with rfl | hc
    · exact ⟨hsize, hnext⟩
    · obtain ⟨h₁, h₂⟩ := hI.sameHeader_of_allocated hframe hc
      rw [h₁, h₂]
      exact hI.headers c hc
  placed := by rw [hend]; exact hI.placed_allocate hn hn16 hall
  sorted := sorted_allocate hI.sorted (by decide) hall
  coalesced := coalesced_allocate hI.coalesced hall
  apart := by
    intro x hx c hc
    rcases List.mem_cons.1 hc with rfl | hc
    · exact apart_allocate hI.sorted (by omega) hall hx
    · exact hI.apart_of_allocate hn hn16 hall (List.mem_cons_of_mem _ hx) hc
  allocated_apart :=
    List.pairwise_cons.2 ⟨fun c hc => hI.apart_of_allocate hn hn16 hall List.mem_cons_self hc, hI.allocated_apart⟩
  allocated_size := by
    intro c hc
    rcases List.mem_cons.1 hc with rfl | hc
    · obtain ⟨e, -, hne, rfl⟩ := exists_of_allocate hall
      exact le_trans hn16 (le_cut_size hne)
    · exact hI.allocated_size c hc
  regions_sorted := hI.regions_sorted
  regions_coalesced := hI.regions_coalesced
  regions_size := hI.regions_size
  cover_eq := by
    rw [cover_cons, ← Set.union_assoc, Set.union_comm (cover free'), cover_allocate hall]
    exact hI.cover_eq
  total_eq := by
    have htotal := total_allocate hall
    have hsum := hI.total_eq
    rw [total_cons]
    omega
  empties_lt := lt_of_le_of_lt (empties_allocate_le hall) hI.empties_lt
  free_bytes := hfree

theorem pairwise_clear (hI : HeapInv xStart regions free allocated h) :
    (xStart :: free.map addr).Pairwise Clear := by
  refine List.pairwise_cons.2 ⟨fun r hr => ?_, pairwise_clear_addr hI.sorted fun e he => hI.free_lo_lt he⟩
  obtain ⟨e, he, rfl⟩ := List.mem_map.1 hr
  exact (hI.free_placed he).clear_start hI.end_fits

theorem takeBlock_eq (hI : HeapInv xStart regions free allocated h) (hn : n.toNat % 8 = 0) (hn16 : 16 ≤ n.toNat)
    (hall : allocate n.toNat 16 free = some (b, free')) {pre post : List Extent} {e : Extent}
    (hfree : free = pre ++ e :: post) (hne : n.toNat ≤ e.size) (hb : b = (e.cut n.toNat 16).1)
    (hfree' : free' = pre ++ ((e.cut n.toNat 16).2 ++ post)) :
    ∃ h', takeBlock (lastBlock xStart pre) (addr e) n h = .ok (h', addr b + 8) ∧
      HeapInv xStart regions free' (b :: allocated) h' ∧
      (∀ a, Untouched xStart free a → h'.mem a = h.mem a) ∧
      h' = { h with
        mem := h'.mem
        xFreeBytesRemaining := .ofNat (total free')
        xMinimumEverFreeBytesRemaining :=
          if .ofNat (total free') < h.xMinimumEverFreeBytesRemaining then .ofNat (total free')
          else h.xMinimumEverFreeBytesRemaining
        xNumberOfSuccessfulAllocations := h.xNumberOfSuccessfulAllocations + 1 } := by
  have haddr : addr b = addr e := by unfold addr; rw [hb, cut_lo]
  have hemem : e ∈ free := by rw [hfree]; simp
  have hclear := hI.pairwise_clear
  have hlinked := hI.linked
  have hsorted := hI.sorted
  have hplaced : ∀ x ∈ free, Placed xStart h.pxEnd x := fun x hx => hI.free_placed hx
  rw [hfree] at hclear hlinked hsorted hplaced
  obtain ⟨hpre, hesize, -⟩ := linked_append_cons.1 hlinked
  -- the block leaves the list
  obtain ⟨mem₁, hmem₁⟩ : ∃ m, m = setNextFreeBlock h.mem (lastBlock xStart pre) (pxNextFreeBlock h.mem (addr e)) :=
    ⟨_, rfl⟩
  have hlinked₁ : Linked mem₁ xStart (pre ++ post) h.pxEnd := by rw [hmem₁]; exact linked_unlink hlinked hclear
  have hlaste : Clear (lastBlock xStart pre) (addr e) := by
    rw [List.map_append, List.map_cons, ← List.cons_append, List.pairwise_append] at hclear
    exact clear_lastBlock (hclear.2.2 _ List.mem_cons_self _ List.mem_cons_self) fun x hx =>
      hclear.2.2 _ (List.mem_cons_of_mem _ (List.mem_map_of_mem hx)) _ List.mem_cons_self
  have hesize₁ : xBlockSize mem₁ (addr e) = .ofNat e.size := by
    rw [hmem₁, (sameHeader_setNextFreeBlock _ _ hlaste).2, hesize]
  have hstart₁ : xBlockSize mem₁ xStart = 0 := by
    rw [List.map_append, ← List.cons_append, List.pairwise_append] at hclear
    rw [hmem₁, xBlockSize_setNextFreeBlock_lastBlock hclear.1, hI.start_size]
  have hframe₁ : ∀ a, Outside xStart a → (∀ x ∈ pre, Outside (addr x) a) → mem₁ a = h.mem a := by
    intro a ha hx
    rw [hmem₁]
    refine setNextFreeBlock_of_outside _ _ ?_
    rcases lastBlock_eq_or_mem xStart pre with h' | ⟨x, hxm, h'⟩
    · rwa [h']
    · rw [h']; exact hx x hxm
  -- it is split
  have hpe := hI.free_placed hemem
  obtain ⟨mem₂, hsplit, hlinked₂, hesize₂, hstart₂, hframe₂⟩ := splitBlock_eq hlinked₁ hesize₁ hne (by omega) hsorted
    (fun x hx => (hplaced x hx).hi_lt hI.end_fits) (fun x hx => (hplaced x hx).apart_start) hpe.aligned hn
  rw [← hb] at hesize₂
  rw [← hfree'] at hlinked₂
  -- and marked as allocated
  obtain ⟨mem₃, hmem₃⟩ : ∃ m, m = setNextFreeBlock (heapAllocateBlock mem₂ (addr e)) (addr e) 0 := ⟨_, rfl⟩
  have hframe₃ : ∀ a, Outside (addr e) a → mem₃ a = mem₂ a := by
    intro a ha
    rw [hmem₃, setNextFreeBlock_of_outside _ _ ha]
    exact setBlockSize_of_outside _ _ ha
  have hclear₃ : ∀ x ∈ free', Clear (addr e) (addr x) := by
    intro x hx
    have hx' := (hI.placed_allocate hn hn16 hall x (List.mem_append_left _ hx)).hi_lt hI.end_fits
    rw [← haddr]
    refine clear_addr (apart_allocate hI.sorted (by omega) hall hx).symm ?_ (lt_of_le_of_lt x.lo_le_hi hx')
    rw [hb, cut_lo]
    exact hI.free_lo_lt hemem
  have hstartClear : Clear (addr e) xStart := (hpe.clear_start hI.end_fits).symm
  have hlinked₃ : Linked mem₃ xStart free' h.pxEnd :=
    hlinked₂.congr (sameHeader_of_clear hstartClear hframe₃).1 fun x hx => sameHeader_of_clear (hclear₃ x hx) hframe₃
  have hbytes : h.xFreeBytesRemaining - xBlockSize mem₂ (addr e) = .ofNat (total free') := by
    have htotal := total_allocate hall
    rw [hI.free_bytes, hesize₂, ← UInt32.ofNat_sub (by omega)]
    congr 1
    omega
  obtain ⟨h', hh'⟩ : ∃ h' : Heap, h' = { h with
      mem := mem₃
      xFreeBytesRemaining := .ofNat (total free')
      xMinimumEverFreeBytesRemaining :=
        if .ofNat (total free') < h.xMinimumEverFreeBytesRemaining then .ofNat (total free')
        else h.xMinimumEverFreeBytesRemaining
      xNumberOfSuccessfulAllocations := h.xNumberOfSuccessfulAllocations + 1 } := ⟨_, rfl⟩
  have hmem : h'.mem = mem₃ := by rw [hh']
  have hframe : ∀ a, Untouched xStart free a → h'.mem a = h.mem a := by
    rintro a ⟨hsa, hfa⟩
    have hpre : ∀ x ∈ pre, Outside (addr x) a := fun x hx => (hfa x (by rw [hfree]; simp [hx])).1
    rw [hmem, hframe₃ a (hfa e hemem).1, hframe₂ a hsa hpre (hfa e hemem).2, hframe₁ a hsa hpre]
  refine ⟨h', ?_, hI.of_malloc hn hn16 hall (by rw [hh']) hframe ?_ ?_ ?_ ?_ (by rw [hh']), hframe, by rw [hh']⟩
  · unfold takeBlock
    rw [hpre.last, ← hmem₁]
    dsimp only
    rw [hsplit]
    dsimp only [bind, Except.bind, pure, Except.pure]
    rw [hbytes, ← hmem₃, ← hh', haddr, xHeapStructSize_eq]
  · rw [hmem]; exact hlinked₃
  · rw [hmem, (sameHeader_of_clear hstartClear hframe₃).2, hstart₂, hstart₁]
  · rw [hmem, hmem₃, haddr, xBlockSize_setNextFreeBlock, heapAllocateBlock, xBlockSize_setBlockSize, hesize₂]
  · rw [hmem, hmem₃, haddr, pxNextFreeBlock_setNextFreeBlock]

theorem requiredSize_of_lt (hn : n ≠ 0) (hlt : blockBytes n < 2 ^ 32) : (requiredSize n).toNat = blockBytes n := by
  rw [requiredSize_toNat, if_neg (by rintro (h | h); exacts [hn h, by omega])]

theorem blockBytes_aligned (n : UInt32) : blockBytes n % 8 = 0 := Nat.mul_mod_left _ _

theorem le_blockBytes (n : UInt32) : n.toNat + 8 ≤ blockBytes n := by unfold blockBytes; omega

theorem blockBytes_ge (hn : n ≠ 0) : 16 ≤ blockBytes n := by
  have hpos : 0 < n := UInt32.pos_iff_ne_zero.2 hn
  rw [UInt32.lt_iff_toNat_lt] at hpos
  have h0 : UInt32.toNat 0 = 0 := rfl
  unfold blockBytes
  omega

variable {fuel : ℕ}

/-- A request that no free block is large enough for is refused, and nothing changes. -/
theorem pvPortMalloc_eq_null (hI : HeapInv xStart regions free allocated h) (hfuel : free.length < fuel)
    (hnone : n = 0 ∨ allocate (blockBytes n) 16 free = none) : pvPortMalloc xStart fuel n h = .ok (h, 0) := by
  have hsuspended : mallocSuspended xStart fuel (requiredSize n) h = .ok (h, 0) := by
    have hzero : requiredSize n = 0 → mallocSuspended xStart fuel (requiredSize n) h = .ok (h, 0) := by
      intro h0
      rw [h0]
      unfold mallocSuspended
      rw [if_pos (by decide), if_neg (by simp)]
      rfl
    by_cases hn0 : n = 0
    · exact hzero (by rw [hn0]; rfl)
    by_cases hlt : blockBytes n < 2 ^ 32
    · have hrequired := requiredSize_of_lt hn0 hlt
      unfold mallocSuspended
      split
      · split
        · have hsmall := allocate_eq_none.1 (hnone.resolve_left hn0)
          have hfind : findBlock h.mem (requiredSize n) fuel xStart (pxNextFreeBlock h.mem xStart) =
              .ok (lastBlock xStart free, h.pxEnd) := by
            refine findBlock_eq hI.linked (fun e he => ⟨?_, hI.addr_ne_zero he⟩) hI.end_ne_zero
              (by rw [hI.end_link]; simp) hfuel
            have hesize := hI.size_lt (List.mem_append_left _ he)
            rw [UInt32.lt_iff_toNat_lt, hrequired, UInt32.toNat_ofNat_of_lt' (by simp [UInt32.size]; omega)]
            exact hsmall e he
          rw [hfind]
          dsimp only [bind, Except.bind]
          rw [if_neg (by simp)]
          rfl
        · rfl
      · rfl
    · exact hzero (UInt32.toNat_inj.1 (by rw [requiredSize_toNat, if_pos (.inr (by omega))]; rfl))
  unfold pvPortMalloc configASSERT
  rw [if_pos hI.end_ne_zero, hsuspended]
  rfl

/-- A request that fits is served from the first free block that is large enough. -/
theorem pvPortMalloc_eq_some (hI : HeapInv xStart regions free allocated h) (hfuel : free.length < fuel) (hn : n ≠ 0)
    (hall : allocate (blockBytes n) 16 free = some (b, free')) :
    ∃ h', pvPortMalloc xStart fuel n h = .ok (h', addr b + 8) ∧
      HeapInv xStart regions free' (b :: allocated) h' ∧
      (∀ a, Untouched xStart free a → h'.mem a = h.mem a) ∧
      h' = { h with
        mem := h'.mem
        xFreeBytesRemaining := .ofNat (total free')
        xMinimumEverFreeBytesRemaining :=
          if .ofNat (total free') < h.xMinimumEverFreeBytesRemaining then .ofNat (total free')
          else h.xMinimumEverFreeBytesRemaining
        xNumberOfSuccessfulAllocations := h.xNumberOfSuccessfulAllocations + 1 } := by
  obtain ⟨pre, e, post, hfree, hpre, hne, hb, hfree'⟩ := allocate_eq_some hall
  have hemem : e ∈ free := by rw [hfree]; simp
  have hesize := hI.size_lt (List.mem_append_left allocated hemem)
  have hrequired := requiredSize_of_lt hn (by omega)
  rw [← hrequired] at hall hne hb hfree'
  obtain ⟨h', htake, hI', hframe, hh'⟩ := hI.takeBlock_eq (by rw [hrequired]; exact blockBytes_aligned n)
    (by rw [hrequired]; exact blockBytes_ge hn) hall hfree hne hb hfree'
  refine ⟨h', ?_, hI', hframe, hh'⟩
  have hlinked := hI.linked
  rw [hfree] at hlinked
  obtain ⟨hlpre, hlsize, hlpost⟩ := linked_append_cons.1 hlinked
  have hfind : findBlock h.mem (requiredSize n) fuel xStart (pxNextFreeBlock h.mem xStart) =
      .ok (lastBlock xStart pre, addr e) := by
    refine findBlock_eq hlpre (fun x hx => ⟨?_, hI.addr_ne_zero (by rw [hfree]; simp [hx])⟩) (hI.addr_ne_zero hemem)
      ?_ (by rw [hfree, List.length_append] at hfuel; omega)
    · have hxsize := hI.size_lt (List.mem_append_left allocated (show x ∈ free by rw [hfree]; simp [hx]))
      rw [UInt32.lt_iff_toNat_lt, hrequired, UInt32.toNat_ofNat_of_lt' (by simp [UInt32.size]; omega)]
      exact hpre x hx
    · rintro ⟨hlt, -⟩
      rw [hlsize, UInt32.lt_iff_toNat_lt, UInt32.toNat_ofNat_of_lt' (by simp [UInt32.size]; omega)] at hlt
      omega
  have hetotal : e.size ≤ total free := by
    rw [hfree, total_append, total_cons]
    omega
  have hvalid : heapBlockSizeIsValid (requiredSize n) := (and_heapBlockAllocatedBitmask _).2 (by omega)
  have hbytes : 0 < requiredSize n ∧ requiredSize n ≤ h.xFreeBytesRemaining := by
    have htotal := hI.total_lt
    have h0 : UInt32.toNat 0 = 0 := rfl
    have h16 := blockBytes_ge hn
    rw [UInt32.lt_iff_toNat_lt, UInt32.le_iff_toNat_le, hI.free_bytes,
      UInt32.toNat_ofNat_of_lt' (by simpa [UInt32.size] using htotal)]
    omega
  have hsuspended : mallocSuspended xStart fuel (requiredSize n) h = .ok (h', addr b + 8) := by
    unfold mallocSuspended
    rw [if_pos hvalid, if_pos hbytes, hfind]
    dsimp only [bind, Except.bind]
    rw [if_pos (hI.addr_ne_end hemem), htake]
  have hbalign : addr b + 8 &&& portByteAlignmentMask = 0 := by
    have := (hI'.allocated_placed List.mem_cons_self).aligned
    rw [and_portByteAlignmentMask_eq_zero, hI'.pv_toNat List.mem_cons_self]
    omega
  unfold pvPortMalloc configASSERT
  rw [if_pos hI.end_ne_zero, hsuspended]
  dsimp only [bind, Except.bind]
  rw [if_pos hbalign]
  rfl

/-! ### `vPortFree` -/

/-- The list level of the invariant after a block is freed, from what the memory holds. -/
theorem of_free (hI : HeapInv xStart regions free allocated h) {l₁ l₂ : List Extent} (hal : allocated = l₁ ++ b :: l₂)
    {h' : Heap} (hend : h'.pxEnd = h.pxEnd)
    (hframe : ∀ a, Outside xStart a → (∀ e ∈ b :: free, Outside (addr e) a) → h'.mem a = h.mem a)
    (hlinked : Linked h'.mem xStart (release b free) h.pxEnd) (hstart : xBlockSize h'.mem xStart = 0)
    (hbytes : h'.xFreeBytesRemaining = .ofNat (total (release b free))) :
    HeapInv xStart regions (release b free) (l₁ ++ l₂) h' := by
  have hmem : ∀ c ∈ l₁ ++ l₂, c ∈ allocated := fun c hc => by rw [hal]; simp at hc ⊢; tauto
  have hb : b ∈ allocated := by rw [hal]; simp
  have hbapart : ∀ c ∈ l₁ ++ l₂, b.Apart 8 c := by
    have hpair := hI.allocated_apart
    rw [hal, List.pairwise_append, List.pairwise_cons] at hpair
    intro c hc
    rcases List.mem_append.1 hc with hc | hc
    · exact (hpair.2.2 c hc b List.mem_cons_self).symm
    · exact hpair.2.1.1 c hc
  have hsame : ∀ r, Clear xStart r → (∀ e ∈ b :: free, Clear (addr e) r) → SameHeader h.mem h'.mem r := by
    intro r hr he
    refine sameHeader_of_bytes fun a ha ha' => hframe a ?_ fun e hem => ?_
    · unfold Clear at hr; unfold Outside; omega
    · have := he e hem; unfold Clear at this; unfold Outside; omega
  have hsameEnd : SameHeader h.mem h'.mem h.pxEnd := by
    refine hsame _ hI.end_clear fun e he => ?_
    have hep : Placed xStart h.pxEnd e := by
      rcases List.mem_cons.1 he with rfl | he
      · exact hI.allocated_placed hb
      · exact hI.free_placed he
    have h1 := hep.before_end.1
    have h2 : (header h.pxEnd).lo = h.pxEnd.toNat := rfl
    have h3 := hep.hi_lt hI.end_fits
    have h4 := e.lo_le_hi
    unfold Clear
    rw [addr_toNat (by omega)]
    omega
  have hsameAlloc : ∀ c ∈ l₁ ++ l₂, SameHeader h.mem h'.mem (addr c) := by
    intro c hc
    refine hsame _ ((hI.allocated_placed (hmem c hc)).clear_start hI.end_fits) fun e he => ?_
    rcases List.mem_cons.1 he with rfl | he
    · exact clear_addr (hbapart c hc) (hI.allocated_lo_lt hb) (hI.allocated_lo_lt (hmem c hc))
    · exact clear_addr (hI.apart e he c (hmem c hc)) (hI.free_lo_lt he) (hI.allocated_lo_lt (hmem c hc))
  exact {
    linked := by rw [hend]; exact hlinked
    start_size := hstart
    end_link := by rw [hend, hsameEnd.1, hI.end_link]
    end_size := by rw [hend, hsameEnd.2, hI.end_size]
    end_ne_zero := by rw [hend]; exact hI.end_ne_zero
    end_fits := by rw [hend]; exact hI.end_fits
    end_clear := by rw [hend]; exact hI.end_clear
    headers := fun c hc => by
      rw [(hsameAlloc c hc).1, (hsameAlloc c hc).2]
      exact hI.headers c (hmem c hc)
    placed := fun x hx => by
      rw [hend]
      rcases List.mem_append.1 hx with hx | hx
      · exact forall_mem_release (fun e f he hf h => he.join hf h) (hI.allocated_placed hb)
          (fun e he => hI.free_placed he) x hx
      · exact hI.allocated_placed (hmem x hx)
    sorted := sorted_release hI.sorted (by decide) fun e he => hI.apart e he b hb
    coalesced := coalesced_release hI.sorted hI.coalesced (by decide) fun e he => hI.apart e he b hb
    apart := fun x hx c hc => by
      refine (forall_mem_release (P := fun x => c.Apart 8 x) (fun e f he hf h => he.join hf (by decide) h)
        (hbapart c hc).symm (fun e he => (hI.apart e he c (hmem c hc)).symm) x hx).symm
    allocated_apart := by
      have hpair := hI.allocated_apart
      rw [hal] at hpair
      exact hpair.sublist ((List.sublist_cons_self b l₂).append_left l₁)
    allocated_size := fun c hc => hI.allocated_size c (hmem c hc)
    regions_sorted := hI.regions_sorted
    regions_coalesced := hI.regions_coalesced
    regions_size := hI.regions_size
    cover_eq := by
      rw [← hI.cover_eq, hal, cover_release]
      simp only [cover_append, cover_cons]
      ac_rfl
    total_eq := by
      have hsum := hI.total_eq
      rw [hal, total_append, total_cons] at hsum
      rw [total_release, total_append]
      omega
    empties_lt := lt_of_le_of_lt (empties_release_le (by have := hI.allocated_size b hb; omega) free) hI.empties_lt
    free_bytes := hbytes }

/-- Freeing a block handed out puts it back into the free list. -/
theorem vPortFree_eq (hI : HeapInv xStart regions free allocated h) (hfuel : free.length < fuel)
    {l₁ l₂ : List Extent} (hal : allocated = l₁ ++ b :: l₂) :
    ∃ h', vPortFree xStart fuel (addr b + 8) h = .ok h' ∧
      HeapInv xStart regions (release b free) (l₁ ++ l₂) h' ∧
      (∀ a, Outside xStart a → (∀ e ∈ b :: free, Outside (addr e) a) → h'.mem a = h.mem a) ∧
      h' = { h with
        mem := h'.mem
        xFreeBytesRemaining := .ofNat (total (release b free))
        xNumberOfSuccessfulFrees := h.xNumberOfSuccessfulFrees + 1 } := by
  have hb : b ∈ allocated := by rw [hal]; simp
  have hbp := hI.allocated_placed hb
  obtain ⟨hbsize, hbnext⟩ := hI.headers b hb
  have hpv : addr b + 8 ≠ 0 := by
    intro h0
    have h1 := hI.pv_toNat hb
    rw [h0] at h1
    have h2 : UInt32.toNat 0 = 0 := rfl
    omega
  have hlink : addr b + 8 - xHeapStructSize = addr b := by rw [xHeapStructSize_eq, UInt32.add_sub_cancel]
  have hallocated : heapBlockIsAllocated h.mem (addr b) := by
    unfold heapBlockIsAllocated
    rw [hbsize]
    exact or_heapBlockAllocatedBitmask _
  -- the mark is taken off the size
  obtain ⟨mem₁, hmem₁⟩ : ∃ m, m = heapFreeBlock h.mem (addr b) := ⟨_, rfl⟩
  have hframe₁ : ∀ a, Outside (addr b) a → mem₁ a = h.mem a := by
    intro a ha
    rw [hmem₁]
    exact setBlockSize_of_outside _ _ ha
  have hbsize₁ : xBlockSize mem₁ (addr b) = .ofNat b.size := by
    have := hI.size_lt (List.mem_append_right _ hb)
    rw [hmem₁, heapFreeBlock, xBlockSize_setBlockSize, hbsize, or_and_not_heapBlockAllocatedBitmask]
    rw [UInt32.toNat_ofNat_of_lt' (by simp [UInt32.size]; omega)]
    exact this
  have hclear : ∀ e ∈ free, Clear (addr b) (addr e) := fun e he =>
    (clear_addr (hI.apart e he b hb) (hI.free_lo_lt he) (hI.allocated_lo_lt hb)).symm
  have hstart := (hbp.clear_start hI.end_fits).symm
  have hlinked₁ : Linked mem₁ xStart free h.pxEnd :=
    hI.linked.congr (sameHeader_of_clear hstart hframe₁).1 fun e he => sameHeader_of_clear (hclear e he) hframe₁
  have hplaced : ∀ e ∈ b :: free, Placed xStart h.pxEnd e := List.forall_mem_cons.2 ⟨hbp, fun e => hI.free_placed⟩
  -- and the block is inserted
  obtain ⟨mem₂, hinsert, hlinked₂, hstart₂, hframe₂⟩ := prvInsertBlockIntoFreeList_eq hlinked₁ hbsize₁ hI.sorted
    (fun e he => hI.apart e he b hb) (fun e he => (hplaced e he).hi_lt hI.end_fits)
    (fun e he => (hplaced e he).clear_start hI.end_fits)
    (fun e he => lt_of_lt_of_le (Nat.lt_add_of_pos_right (by decide)) (hplaced e he).before_end.1)
    ((sameHeader_of_clear hstart hframe₁).2.trans hI.start_size) hfuel
  have hbytes : h.xFreeBytesRemaining + .ofNat b.size = .ofNat (total (release b free)) := by
    rw [hI.free_bytes, total_release, UInt32.ofNat_add, UInt32.add_comm]
  obtain ⟨h', hh'⟩ : ∃ h' : Heap, h' = { h with
      mem := mem₂
      xFreeBytesRemaining := .ofNat (total (release b free))
      xNumberOfSuccessfulFrees := h.xNumberOfSuccessfulFrees + 1 } := ⟨_, rfl⟩
  have hmem : h'.mem = mem₂ := by rw [hh']
  have hframe : ∀ a, Outside xStart a → (∀ e ∈ b :: free, Outside (addr e) a) → h'.mem a = h.mem a := by
    intro a ha hea
    rw [hmem, hframe₂ a ha hea, hframe₁ a (hea b List.mem_cons_self)]
  refine ⟨h', ?_, hI.of_free hal (by rw [hh']) hframe ?_ ?_ (by rw [hh']), hframe, by rw [hh']⟩
  · unfold vPortFree configASSERT
    rw [if_pos hpv]
    dsimp only
    rw [hlink, if_pos hallocated, if_pos hbnext, ← hmem₁]
    dsimp only [bind, Except.bind]
    rw [hinsert, hbsize₁, hbytes]
    dsimp only [pure, Except.pure]
    rw [hh']
  · rw [hmem]; exact hlinked₂
  · rw [hmem]; exact hstart₂

end HeapInv

end LcdKeypad
