import LcdKeypad.HeapCalls

/-!
# Setting up the heap

`vPortDefineHeapRegions` makes one free block of every region, links the regions through the end markers, which
stay in the list with size 0, and so establishes `HeapInv` for any array of usable regions in the order of their
addresses.
-/

namespace LcdKeypad

open ByteMemory Extents

namespace HeapRegion

/-- The first aligned address of the region. -/
def lo (r : HeapRegion) : ℕ := (r.pucStartAddress.toNat + 7) / 8 * 8

/-- Where the end marker of the region lies. -/
def hi (r : HeapRegion) : ℕ := (r.pucStartAddress.toNat + r.xSizeInBytes.toNat - 8) / 8 * 8

/-- The free block that the region starts with. -/
def extent (r : HeapRegion) : Extent := ⟨r.lo, r.hi - r.lo⟩

/-- The region is not at address 0, lies in the address space, has place for a block and an end marker, and the top
bit of its size is free. -/
structure Usable (r : HeapRegion) : Prop where
  pos : 0 < r.pucStartAddress.toNat
  fits : r.pucStartAddress.toNat + r.xSizeInBytes.toNat ≤ 2 ^ 32
  room : r.lo < r.hi
  small : r.xSizeInBytes.toNat < 2 ^ 31

theorem Usable.extent_hi {r : HeapRegion} (h : r.Usable) : r.extent.hi = r.hi := by
  have := h.room
  unfold extent Extent.hi
  dsimp only
  omega

end HeapRegion

/-- A word is its masked part and the rest. -/
private theorem and_not_add_and (x m : UInt32) : (x &&& ~~~m) + (x &&& m) = x := by
  rw [← UInt32.toBitVec_inj]
  simp only [UInt32.toBitVec_add, UInt32.toBitVec_and, UInt32.toBitVec_not]
  have hdisjoint : (x.toBitVec &&& ~~~m.toBitVec) &&& (x.toBitVec &&& m.toBitVec) = 0 := by
    ext i
    simp
    tauto
  rw [BitVec.add_eq_or_of_and_eq_zero _ _ hdisjoint]
  ext i
  by_cases h : m.toBitVec[i] <;> simp [h]

theorem and_not_portByteAlignmentMask (x : UInt32) : (x &&& ~~~portByteAlignmentMask).toNat = x.toNat / 8 * 8 := by
  have hmod : (x &&& portByteAlignmentMask).toNat = x.toNat % 8 := by
    rw [and_portByteAlignmentMask, UInt32.toNat_ofNat_of_lt' (by simp [UInt32.size]; omega)]
  have hsum := congrArg UInt32.toNat (and_not_add_and x portByteAlignmentMask)
  have hle : (x &&& ~~~portByteAlignmentMask).toNat ≤ x.toNat := by
    rw [UInt32.toNat_and]
    exact Nat.and_le_left
  have hlt := x.toNat_lt
  rw [UInt32.toNat_add, hmod] at hsum
  omega

theorem alignRegion_eq {r : HeapRegion} (h : r.Usable) :
    alignRegion r = (.ofNat r.lo, .ofNat (r.pucStartAddress.toNat + r.xSizeInBytes.toNat - r.lo)) := by
  have hfits := h.fits
  have hroom := h.room
  unfold HeapRegion.lo HeapRegion.hi at hroom
  unfold alignRegion
  by_cases halign : r.pucStartAddress.toNat % 8 = 0
  · have hlo : r.lo = r.pucStartAddress.toNat := by unfold HeapRegion.lo; omega
    rw [if_neg (not_not.2 (and_portByteAlignmentMask_eq_zero.2 halign)), hlo, UInt32.ofNat_toNat,
      Nat.add_sub_cancel_left, UInt32.ofNat_toNat]
  · have hne : r.pucStartAddress &&& portByteAlignmentMask ≠ 0 := fun h => halign (and_portByteAlignmentMask_eq_zero.1 h)
    have h7 : (r.pucStartAddress + (portByteAlignment - 1)).toNat = r.pucStartAddress.toNat + 7 := by
      have h7' : (portByteAlignment - 1).toNat = 7 := by decide
      rw [UInt32.toNat_add, h7', Nat.mod_eq_of_lt (by omega)]
    have haddr : (r.pucStartAddress + (portByteAlignment - 1)) &&& ~~~portByteAlignmentMask = .ofNat r.lo := by
      rw [← UInt32.toNat_inj, and_not_portByteAlignmentMask, h7]
      unfold HeapRegion.lo
      rw [UInt32.toNat_ofNat_of_lt' (by simp [UInt32.size]; omega)]
    rw [if_pos hne]
    dsimp only
    rw [haddr, Prod.mk.injEq]
    refine ⟨rfl, ?_⟩
    have hle : r.lo ≤ r.pucStartAddress.toNat + r.xSizeInBytes.toNat := by unfold HeapRegion.lo; omega
    rw [UInt32.ofNat_sub hle, UInt32.ofNat_add, UInt32.ofNat_toNat, UInt32.ofNat_toNat]
    grind

/-- The address of the end marker. -/
theorem regionEnd_eq {r : HeapRegion} (h : r.Usable) :
    (.ofNat r.lo + .ofNat (r.pucStartAddress.toNat + r.xSizeInBytes.toNat - r.lo) - xHeapStructSize) &&&
      ~~~portByteAlignmentMask = .ofNat r.hi := by
  have hfits := h.fits
  have hroom := h.room
  unfold HeapRegion.lo HeapRegion.hi at hroom
  have hsum : .ofNat r.lo + .ofNat (r.pucStartAddress.toNat + r.xSizeInBytes.toNat - r.lo) - xHeapStructSize =
      UInt32.ofNat (r.pucStartAddress.toNat + r.xSizeInBytes.toNat - 8) := by
    rw [← UInt32.ofNat_add, UInt32.ofNat_sub (by omega), xHeapStructSize_eq]
    congr 2
    unfold HeapRegion.lo
    omega
  rw [hsum, ← UInt32.toNat_inj, and_not_portByteAlignmentMask]
  unfold HeapRegion.hi
  rw [UInt32.toNat_ofNat_of_lt' (by simp [UInt32.size]; omega), UInt32.toNat_ofNat_of_lt' (by simp [UInt32.size]; omega)]

/-! ### One region -/

theorem writeRegion_of_outside {mem : Memory} {p q : UInt32} {a : ℕ} (hp : Outside p a) (hq : Outside q a) :
    writeRegion p q mem a = mem a := by
  unfold writeRegion
  rw [setNextFreeBlock_of_outside _ _ hp, setBlockSize_of_outside _ _ hp, setNextFreeBlock_of_outside _ _ hq,
    setBlockSize_of_outside _ _ hq]

theorem sameHeader_writeRegion {mem : Memory} {p q r : UInt32} (hp : Clear p r) (hq : Clear q r) :
    SameHeader mem (writeRegion p q mem) r := by
  refine sameHeader_of_bytes fun a ha ha' => writeRegion_of_outside ?_ ?_
  · unfold Clear at hp; unfold Outside; omega
  · unfold Clear at hq; unfold Outside; omega

theorem writeRegion_headers (mem : Memory) {p q : UInt32} (hpq : Clear p q) :
    pxNextFreeBlock (writeRegion p q mem) p = q ∧ xBlockSize (writeRegion p q mem) p = q - p ∧
      pxNextFreeBlock (writeRegion p q mem) q = 0 ∧ xBlockSize (writeRegion p q mem) q = 0 := by
  unfold writeRegion
  obtain ⟨hn, hs⟩ := sameHeader_setNextFreeBlock
    (setBlockSize (setNextFreeBlock (setBlockSize mem q 0) q 0) p (q - p)) q hpq
  obtain ⟨hn', hs'⟩ := sameHeader_setBlockSize (setNextFreeBlock (setBlockSize mem q 0) q 0) (q - p) hpq
  refine ⟨pxNextFreeBlock_setNextFreeBlock _ _ _, ?_, ?_, ?_⟩
  · rw [xBlockSize_setNextFreeBlock, xBlockSize_setBlockSize]
  · rw [hn, hn', pxNextFreeBlock_setNextFreeBlock]
  · rw [hs, hs', xBlockSize_setNextFreeBlock, xBlockSize_setBlockSize]

/-- The heap that the loop has built so far. -/
def RegionLoop.heap (s : RegionLoop) : Heap := ⟨s.mem, s.pxEnd, s.xTotalHeapSize, s.xTotalHeapSize, 0, 0⟩

/-- What holds after the regions `regions` are defined. -/
structure RegionsDefined (xStart : UInt32) (regions free : List Extent) (s : RegionLoop) : Prop where
  inv : HeapInv xStart regions free [] s.heap
  end_aligned : s.pxEnd.toNat % 8 = 0
  regions_before : ∀ r ∈ regions, r.Before 8 (header s.pxEnd)
  defined : s.xDefinedRegions ≠ 0

/-- A region may follow: it starts behind the end marker, and the header `xStart` does not lie in it. -/
structure Follows (xStart pxEnd : UInt32) (r : HeapRegion) : Prop where
  usable : r.Usable
  behind : pxEnd.toNat < r.lo
  start_clear : xStart.toNat + 8 ≤ r.lo ∨ r.hi + 8 ≤ xStart.toNat

variable {xStart : UInt32} {r : HeapRegion}

/-- The block of a region and its end marker, against the header `xStart`. -/
theorem HeapRegion.Usable.headers (h : r.Usable) (hstart : xStart.toNat + 8 ≤ r.lo ∨ r.hi + 8 ≤ xStart.toNat) :
    Placed xStart (.ofNat r.hi) r.extent ∧ Clear xStart (.ofNat r.hi) ∧ (UInt32.ofNat r.hi).toNat = r.hi ∧
      r.hi + 8 ≤ 2 ^ 32 ∧ r.hi % 8 = 0 ∧ Clear (addr r.extent) (.ofNat r.hi) := by
  have hpos := h.pos
  have hfits := h.fits
  have hroom := h.room
  have hhi : (UInt32.ofNat r.hi).toNat = r.hi := by
    rw [UInt32.toNat_ofNat_of_lt']
    simp only [UInt32.size]
    unfold HeapRegion.hi
    omega
  have hlo8 : r.lo % 8 = 0 := Nat.mul_mod_left _ _
  have hhi8 : r.hi % 8 = 0 := Nat.mul_mod_left _ _
  have hlopos : 0 < r.lo := by unfold HeapRegion.lo; omega
  have hend : r.hi + 8 ≤ 2 ^ 32 := by unfold HeapRegion.hi at hroom ⊢; omega
  have hext := h.extent_hi
  have hlo : r.extent.lo = r.lo := rfl
  have hsize : r.extent.size = r.hi - r.lo := rfl
  have hheader : (header (UInt32.ofNat r.hi)).lo = r.hi := hhi
  refine ⟨⟨hlopos, hlo8, by omega, ⟨by omega, by omega⟩, ?_⟩, ?_, hhi, hend, hhi8, ?_⟩
  · have h1 : (header xStart).lo = xStart.toNat := rfl
    have h2 : (header xStart).hi = xStart.toNat + 8 := rfl
    rcases hstart with h' | h'
    · exact .inl ⟨by omega, by omega⟩
    · exact .inr ⟨by omega, by omega⟩
  · unfold Clear
    omega
  · unfold Clear
    rw [addr_toNat (by omega), hhi]
    omega

/-- The body of the loop, once the address of the region is accepted. -/
theorem defineRegion_eq (hr : r.Usable) {s : RegionLoop} {mem₀ mem₁ : Memory}
    (hstart : startRegion xStart (addr r.extent) s = .ok mem₀)
    (hmem₁ : mem₁ = if s.pxEnd ≠ 0 then
      setNextFreeBlock (writeRegion (addr r.extent) (.ofNat r.hi) mem₀) s.pxEnd (addr r.extent)
      else writeRegion (addr r.extent) (.ofNat r.hi) mem₀) :
    defineRegion xStart r s =
      .ok ⟨mem₁, .ofNat r.hi, s.xTotalHeapSize + xBlockSize mem₁ (addr r.extent), s.xDefinedRegions + 1⟩ := by
  have haddr : addr r.extent = .ofNat r.lo := rfl
  unfold defineRegion
  rw [alignRegion_eq hr]
  dsimp only
  rw [← haddr, hstart]
  dsimp only [bind, Except.bind, pure, Except.pure]
  rw [haddr, regionEnd_eq hr, ← haddr, hmem₁]

/-- The lists grow by the block of a region that lies behind all of them. -/
theorem regionsDefined_append {pre regions : List Extent} {s : RegionLoop} (hr : r.Usable)
    (hstart : xStart.toNat + 8 ≤ r.lo ∨ r.hi + 8 ≤ xStart.toNat) (hend : s.pxEnd = .ofNat r.hi)
    (hplaced : ∀ e ∈ pre, 0 < e.lo ∧ e.lo % 8 = 0 ∧ e.size % 8 = 0 ∧ (header xStart).Apart 8 e)
    (hpre : Sorted 8 pre ∧ Coalesced pre) (hregions : Sorted 8 regions ∧ Coalesced regions)
    (hregionsSize : ∀ e ∈ regions, e.size < 2 ^ 31)
    (hbefore : ∀ e ∈ pre ++ regions, e.lo + 8 ≤ r.lo ∧ e.hi < r.lo) (hcover : cover pre = cover regions)
    (htotal : total pre = total regions) (hempty : empties pre ≤ regions.length) (hlinked : Linked s.mem xStart (pre ++ [r.extent]) s.pxEnd)
    (hstartSize : xBlockSize s.mem xStart = 0) (hqnext : pxNextFreeBlock s.mem s.pxEnd = 0)
    (hqsize : xBlockSize s.mem s.pxEnd = 0) (hbytes : s.xTotalHeapSize = .ofNat (total (pre ++ [r.extent])))
    (hdefined : s.xDefinedRegions ≠ 0) :
    RegionsDefined xStart (regions ++ [r.extent]) (pre ++ [r.extent]) s := by
  obtain ⟨hE, hclear, hhi, hfits, hhi8, -⟩ := hr.headers hstart
  have hlo : r.extent.lo = r.lo := rfl
  have hext := hr.extent_hi
  have hroom := hr.room
  have hcross : ∀ e ∈ pre ++ regions, e.Before 8 r.extent := fun e he =>
    ⟨(hbefore e he).1, Nat.le_of_lt (hbefore e he).2⟩
  have happend : ∀ l : List Extent, (∀ e ∈ l, e ∈ pre ++ regions) → Sorted 8 l ∧ Coalesced l →
      Sorted 8 (l ++ [r.extent]) ∧ Coalesced (l ++ [r.extent]) := by
    intro l hl ⟨hs, hc⟩
    refine ⟨List.pairwise_append.2 ⟨hs, List.pairwise_singleton _ _, fun e he f hf => ?_⟩,
      List.pairwise_append.2 ⟨hc, List.pairwise_singleton _ _, fun e he f hf _ => ?_⟩⟩
    · rw [List.mem_singleton.1 hf]; exact hcross e (hl e he)
    · rw [List.mem_singleton.1 hf]; exact (hbefore e (hl e he)).2
  obtain ⟨hsorted, hcoalesced⟩ := happend pre (fun e he => List.mem_append_left _ he) hpre
  obtain ⟨hrsorted, hrcoalesced⟩ := happend regions (fun e he => List.mem_append_right _ he) hregions
  have hheader : (header s.pxEnd).lo = r.hi := by rw [hend]; exact hhi
  have hbeforeEnd : ∀ e ∈ pre ++ regions, e.Before 8 (header s.pxEnd) := by
    intro e he
    have := hbefore e he
    exact ⟨by omega, by omega⟩
  rw [← hend] at hE hclear
  have hinv : HeapInv xStart (regions ++ [r.extent]) (pre ++ [r.extent]) [] s.heap :=
    { linked := hlinked
      start_size := hstartSize
      end_link := hqnext
      end_size := hqsize
      end_ne_zero := by
        intro h0
        have h1 : s.pxEnd.toNat = r.hi := hheader
        have h2 : s.pxEnd.toNat = 0 := congrArg UInt32.toNat h0
        omega
      end_fits := by rw [← hheader] at hfits; exact hfits
      end_clear := hclear
      headers := by simp
      placed := by
        intro e he
        rw [List.append_nil] at he
        rcases List.mem_append.1 he with he | he
        · obtain ⟨hpos, halign, hsalign, hap⟩ := hplaced e he
          exact ⟨hpos, halign, hsalign, hbeforeEnd e (List.mem_append_left _ he), hap⟩
        · rw [List.mem_singleton.1 he]
          exact hE
      sorted := hsorted
      coalesced := hcoalesced
      apart := by simp
      allocated_apart := List.Pairwise.nil
      allocated_size := by simp
      regions_sorted := hrsorted
      regions_coalesced := hrcoalesced
      regions_size := by
        intro e he
        rcases List.mem_append.1 he with he | he
        · exact hregionsSize e he
        · rw [List.mem_singleton.1 he]
          have hsize : r.extent.size = r.hi - r.lo := rfl
          have := hr.small
          rw [hsize]
          unfold HeapRegion.hi HeapRegion.lo
          omega
      cover_eq := by rw [cover_append, cover_append, hcover, cover_nil, Set.union_empty]
      total_eq := by rw [total_append, total_append, htotal, total_nil, Nat.add_zero]
      empties_lt := by
        have hsize : r.extent.size = r.hi - r.lo := rfl
        unfold empties at hempty ⊢
        rw [List.countP_append, List.length_append, List.countP_singleton, if_neg (by simp; omega)]
        simp only [List.length_singleton]
        omega
      free_bytes := hbytes }
  refine ⟨hinv, by rw [hend, hhi]; exact hhi8, fun e he => ?_, hdefined⟩
  rcases List.mem_append.1 he with he | he
  · exact hbeforeEnd e (List.mem_append_right _ he)
  · rw [List.mem_singleton.1 he]
    exact hE.before_end

/-- The first region. -/
theorem defineRegion_first (hr : r.Usable) (hstart : xStart.toNat + 8 ≤ r.lo ∨ r.hi + 8 ≤ xStart.toNat)
    (mem : Memory) :
    ∃ s, defineRegion xStart r ⟨mem, 0, 0, 0⟩ = .ok s ∧ RegionsDefined xStart [r.extent] [r.extent] s ∧
      s.pxEnd = .ofNat r.hi := by
  obtain ⟨hplaced, hclear, hhi, hfits, hhi8, hpq⟩ := hr.headers hstart
  have hfitsPlaced : (UInt32.ofNat r.hi).toNat + 8 ≤ 2 ^ 32 := by rw [hhi]; exact hfits
  have hroom := hr.room
  obtain ⟨mem₀, hmem₀⟩ : ∃ m, m = setBlockSize (setNextFreeBlock mem xStart (addr r.extent)) xStart 0 := ⟨_, rfl⟩
  obtain ⟨mem₁, hmem₁⟩ : ∃ m, m = writeRegion (addr r.extent) (.ofNat r.hi) mem₀ := ⟨_, rfl⟩
  obtain ⟨hpnext, hpsize, hqnext, hqsize⟩ := writeRegion_headers mem₀ hpq
  obtain ⟨hstartNext, hstartSize⟩ : SameHeader mem₀ (writeRegion (addr r.extent) (.ofNat r.hi) mem₀) xStart :=
    sameHeader_writeRegion (hplaced.clear_start hfitsPlaced).symm hclear.symm
  rw [← hmem₁] at hpnext hpsize hqnext hqsize hstartNext hstartSize
  have hsize : UInt32.ofNat r.hi - addr r.extent = .ofNat r.extent.size := (UInt32.ofNat_sub (Nat.le_of_lt hroom)).symm
  rw [hsize] at hpsize
  have hpro : startRegion xStart (addr r.extent) ⟨mem, 0, 0, 0⟩ = .ok mem₀ := by rw [hmem₀]; rfl
  have hlink : mem₁ = if (0 : UInt32) ≠ 0 then
      setNextFreeBlock (writeRegion (addr r.extent) (.ofNat r.hi) mem₀) 0 (addr r.extent)
      else writeRegion (addr r.extent) (.ofNat r.hi) mem₀ := by
    rw [if_neg (by simp)]
    exact hmem₁
  have hdef := defineRegion_eq hr hpro hlink
  refine ⟨_, hdef, ?_, rfl⟩
  have hnil : Sorted 8 [] ∧ Coalesced [] := ⟨List.Pairwise.nil, List.Pairwise.nil⟩
  refine regionsDefined_append hr hstart rfl (List.forall_mem_nil _) hnil hnil (List.forall_mem_nil _)
    (List.forall_mem_nil _) rfl rfl (Nat.le_refl 0) ⟨?_, hpsize, hpnext⟩ ?_ hqnext hqsize ?_ (by simp)
  · show pxNextFreeBlock mem₁ xStart = addr r.extent
    rw [hstartNext, hmem₀, pxNextFreeBlock_setBlockSize, pxNextFreeBlock_setNextFreeBlock]
  · show xBlockSize mem₁ xStart = 0
    rw [hstartSize, hmem₀, xBlockSize_setBlockSize]
  · show 0 + xBlockSize mem₁ (addr r.extent) = _
    rw [hpsize, UInt32.zero_add]
    rfl

/-- A further region: the end marker of the one before stays in the list and links to it. -/
theorem defineRegion_next {regions free : List Extent} {s : RegionLoop} (hd : RegionsDefined xStart regions free s)
    (hf : Follows xStart s.pxEnd r) :
    ∃ s', defineRegion xStart r s = .ok s' ∧
      RegionsDefined xStart (regions ++ [r.extent]) (free ++ [⟨s.pxEnd.toNat, 0⟩] ++ [r.extent]) s' ∧
      s'.pxEnd = .ofNat r.hi := by
  have hI := hd.inv
  have hr := hf.usable
  obtain ⟨hplaced, hclear, hhi, hfits, hhi8, hpq⟩ := hr.headers hf.start_clear
  have hfitsPlaced : (UInt32.ofNat r.hi).toNat + 8 ≤ 2 ^ 32 := by rw [hhi]; exact hfits
  have hlo : (addr r.extent).toNat = r.lo := addr_toNat (lt_of_le_of_lt (Nat.le_of_lt hr.room) (by omega))
  have hroom := hr.room
  have hbehind : s.pxEnd.toNat + 8 ≤ r.lo := by
    have h1 := hf.behind
    have h2 := hd.end_aligned
    have h3 : r.lo % 8 = 0 := Nat.mul_mod_left _ _
    omega
  have hne : s.pxEnd ≠ 0 := hI.end_ne_zero
  have hlt : s.pxEnd < addr r.extent := by rw [UInt32.lt_iff_toNat_lt, hlo]; exact hf.behind
  have haddrM : addr ⟨s.pxEnd.toNat, 0⟩ = s.pxEnd := UInt32.ofNat_toNat
  -- headers that lie before the region
  have hold : ∀ p : UInt32, p.toNat + 8 ≤ r.lo → Clear (addr r.extent) p ∧ Clear (.ofNat r.hi) p := by
    intro p hp
    unfold Clear
    omega
  have hfreeLo : ∀ e ∈ free, e.lo + 8 ≤ s.pxEnd.toNat := fun e he => (hI.free_placed he).before_end.1
  have hfreeAddr : ∀ e ∈ free, (addr e).toNat = e.lo := fun e he => addr_toNat (hI.free_lo_lt he)
  obtain ⟨mem₁, hmem₁⟩ : ∃ m, m = writeRegion (addr r.extent) (.ofNat r.hi) s.mem := ⟨_, rfl⟩
  obtain ⟨mem₂, hmem₂⟩ : ∃ m, m = setNextFreeBlock mem₁ s.pxEnd (addr r.extent) := ⟨_, rfl⟩
  obtain ⟨hpnext, hpsize, hqnext, hqsize⟩ := writeRegion_headers s.mem hpq
  rw [← hmem₁] at hpnext hpsize hqnext hqsize
  have hsize : UInt32.ofNat r.hi - addr r.extent = .ofNat r.extent.size := (UInt32.ofNat_sub (Nat.le_of_lt hroom)).symm
  rw [hsize] at hpsize
  have hsame₁ : ∀ p, Clear (addr r.extent) p → Clear (.ofNat r.hi) p → SameHeader s.mem mem₁ p := by
    intro p hp hq
    rw [hmem₁]
    exact sameHeader_writeRegion hp hq
  have hsame₂ : ∀ p, Clear s.pxEnd p → SameHeader mem₁ mem₂ p := by
    intro p hp
    rw [hmem₂]
    exact sameHeader_setNextFreeBlock _ _ hp
  have hsame : ∀ p, Clear (addr r.extent) p → Clear (.ofNat r.hi) p → Clear s.pxEnd p → SameHeader s.mem mem₂ p :=
    fun p hp hq he => ⟨(hsame₂ p he).1.trans (hsame₁ p hp hq).1, (hsame₂ p he).2.trans (hsame₁ p hp hq).2⟩
  have hendp : Clear s.pxEnd (addr r.extent) := by unfold Clear; omega
  have hendq : Clear s.pxEnd (.ofNat r.hi) := by unfold Clear; omega
  have hsameStart := hsame xStart (hplaced.clear_start hfitsPlaced).symm hclear.symm hI.end_clear.symm
  have hlinked : Linked mem₂ xStart (free ++ [⟨s.pxEnd.toNat, 0⟩] ++ [r.extent]) (.ofNat r.hi) := by
    rw [List.append_assoc]
    refine linked_append_cons.2 ⟨?_, ?_, ?_, ?_, ?_⟩
    · rw [haddrM]
      refine hI.linked.congr hsameStart.1 fun e he => ?_
      have h1 := hfreeLo e he
      have h2 := hfreeAddr e he
      obtain ⟨hp, hq⟩ := hold (addr e) (by omega)
      exact hsame _ hp hq (by unfold Clear; omega)
    · obtain ⟨hp, hq⟩ := hold s.pxEnd hbehind
      rw [haddrM, hmem₂, xBlockSize_setNextFreeBlock, (hsame₁ _ hp hq).2]
      exact hI.end_size
    · rw [haddrM, hmem₂, pxNextFreeBlock_setNextFreeBlock]
    · rw [(hsame₂ _ hendp).2, hpsize]
    · show pxNextFreeBlock mem₂ (addr r.extent) = _
      rw [(hsame₂ _ hendp).1, hpnext]
  have hpro : startRegion xStart (addr r.extent) s = .ok s.mem := by
    unfold startRegion configASSERT
    rw [if_neg hd.defined, if_pos hne, if_pos hlt]
    rfl
  have hlink : mem₂ = if s.pxEnd ≠ 0 then
      setNextFreeBlock (writeRegion (addr r.extent) (.ofNat r.hi) s.mem) s.pxEnd (addr r.extent)
      else writeRegion (addr r.extent) (.ofNat r.hi) s.mem := by
    rw [if_pos hne, ← hmem₁, hmem₂]
  refine ⟨_, defineRegion_eq hr hpro hlink, ?_, rfl⟩
  refine regionsDefined_append hr hf.start_clear rfl ?_ ?_ ⟨hI.regions_sorted, hI.regions_coalesced⟩ hI.regions_size ?_
    ?_ ?_ ?_ hlinked (hsameStart.2.trans hI.start_size) ((hsame₂ _ hendq).1.trans hqnext)
    ((hsame₂ _ hendq).2.trans hqsize) ?_ (by simp)
  · intro e he
    rcases List.mem_append.1 he with he | he
    · have hp := hI.free_placed he
      exact ⟨hp.pos, hp.aligned, hp.size_aligned, hp.apart_start⟩
    · rw [List.mem_singleton.1 he]
      refine ⟨?_, hd.end_aligned, rfl, ?_⟩
      · exact Nat.pos_of_ne_zero fun h0 => hne (UInt32.toNat_inj.1 h0)
      · rcases hI.end_clear with h | h
        · exact .inl ⟨h, h⟩
        · exact .inr ⟨h, Nat.le_trans (Nat.le_add_right _ 8) h⟩
  · refine ⟨List.pairwise_append.2 ⟨hI.sorted, List.pairwise_singleton _ _, fun e he f hf => ?_⟩,
      List.pairwise_append.2 ⟨hI.coalesced, List.pairwise_singleton _ _, fun e he f hf h0 => ?_⟩⟩
    · rw [List.mem_singleton.1 hf]
      exact (hI.free_placed he).before_end
    · rw [List.mem_singleton.1 hf] at h0
      exact absurd h0 (lt_irrefl 0)
  · intro e he
    rcases List.mem_append.1 he with he | he
    · rcases List.mem_append.1 he with he | he
      · have h1 := (hI.free_placed he).before_end.1
        have h2 := (hI.free_placed he).before_end.2
        have h3 : (header s.heap.pxEnd).lo = s.pxEnd.toNat := rfl
        omega
      · rw [List.mem_singleton.1 he]
        exact ⟨hbehind, hf.behind⟩
    · have h1 := (hd.regions_before e he).1
      have h2 := (hd.regions_before e he).2
      have h3 : (header s.pxEnd).lo = s.pxEnd.toNat := rfl
      omega
  · have hM : (Extent.mk s.pxEnd.toNat 0).cells = ∅ := by
      ext a
      simp [Extent.hi]
    rw [cover_append, cover_cons, cover_nil, hM, Set.union_empty, Set.union_empty, ← hI.cover_eq, cover_nil,
      Set.union_empty]
  · have hsum := hI.total_eq
    rw [total_nil, Nat.add_zero] at hsum
    rw [total_append, hsum]
    rfl
  · have hlt := hI.empties_lt
    unfold empties at hlt ⊢
    rw [List.countP_append, List.countP_singleton, if_pos (by simp)]
    omega
  · show s.xTotalHeapSize + xBlockSize mem₂ (addr r.extent) = _
    have hbytes : s.xTotalHeapSize = .ofNat (total free) := hI.free_bytes
    rw [(hsame₂ _ hendp).2, hpsize, hbytes, ← UInt32.ofNat_add]
    congr 1
    simp

/-! ### The array of regions -/

/-- What `vPortDefineHeapRegions` expects of the array up to its last entry. -/
structure RegionsOk (xStart : UInt32) (rs : List HeapRegion) : Prop where
  nonempty : rs ≠ []
  usable : ∀ r ∈ rs, r.Usable
  ordered : rs.Pairwise fun r r' => r.hi < r'.lo
  start_clear : ∀ r ∈ rs, xStart.toNat + 8 ≤ r.lo ∨ r.hi + 8 ≤ xStart.toNat

/-- The storage of the firmware, which the linker aligns and keeps clear of `xStart`. -/
theorem regionsOk_freertosHeap {freertosHeapStorage : UInt32} (hpos : 0 < freertosHeapStorage.toNat)
    (halign : freertosHeapStorage.toNat % 8 = 0) (hfits : freertosHeapStorage.toNat + 10240 ≤ 2 ^ 32)
    (hstart : xStart.toNat + 8 ≤ freertosHeapStorage.toNat ∨ freertosHeapStorage.toNat + 10240 ≤ xStart.toNat) :
    RegionsOk xStart [⟨freertosHeapStorage, configTOTAL_HEAP_SIZE⟩] := by
  have hsize : configTOTAL_HEAP_SIZE.toNat = 10240 := by decide
  have hlo : HeapRegion.lo ⟨freertosHeapStorage, configTOTAL_HEAP_SIZE⟩ = freertosHeapStorage.toNat := by
    unfold HeapRegion.lo
    dsimp only
    omega
  have hhi : HeapRegion.hi ⟨freertosHeapStorage, configTOTAL_HEAP_SIZE⟩ = freertosHeapStorage.toNat + 10232 := by
    unfold HeapRegion.hi
    dsimp only
    omega
  refine ⟨by simp, ?_, List.pairwise_singleton _ _, ?_⟩
  · intro r hr
    obtain rfl := List.mem_singleton.1 hr
    exact ⟨hpos, by rw [hsize]; exact hfits, by rw [hlo, hhi]; omega, by rw [hsize]; decide⟩
  · intro r hr
    obtain rfl := List.mem_singleton.1 hr
    rw [hlo, hhi]
    omega

theorem HeapRegion.Usable.size_pos (h : r.Usable) : 0 < r.xSizeInBytes := by
  have hroom := h.room
  have h0 : UInt32.toNat 0 = 0 := rfl
  unfold HeapRegion.lo HeapRegion.hi at hroom
  rw [UInt32.lt_iff_toNat_lt]
  omega

theorem HeapRegion.Usable.hi_toNat (h : r.Usable) : (UInt32.ofNat r.hi).toNat = r.hi := by
  have hfits := h.fits
  have hroom := h.room
  rw [UInt32.toNat_ofNat_of_lt']
  simp only [UInt32.size]
  unfold HeapRegion.hi at hroom ⊢
  omega

theorem defineRegions_eq {rs : List HeapRegion} {regions free : List Extent} {s : RegionLoop}
    (hd : RegionsDefined xStart regions free s) (hrs : ∀ r ∈ rs, Follows xStart s.pxEnd r)
    (hordered : rs.Pairwise fun r r' => r.hi < r'.lo) (p : UInt32) (rest : List HeapRegion) :
    ∃ s' free', defineRegions xStart (rs ++ ⟨p, 0⟩ :: rest) s = .ok s' ∧
      RegionsDefined xStart (regions ++ rs.map HeapRegion.extent) free' s' := by
  induction rs generalizing regions free s with
  | nil => exact ⟨s, free, rfl, by simpa using hd⟩
  | cons r rs ih =>
    rw [List.pairwise_cons] at hordered
    obtain ⟨s₁, hs₁, hd₁, hend₁⟩ := defineRegion_next hd (hrs r List.mem_cons_self)
    have hfollows : ∀ r' ∈ rs, Follows xStart s₁.pxEnd r' := by
      intro r' hr'
      have hf := hrs r' (List.mem_cons_of_mem _ hr')
      refine ⟨hf.usable, ?_, hf.start_clear⟩
      rw [hend₁, (hrs r List.mem_cons_self).usable.hi_toNat]
      exact hordered.1 r' hr'
    obtain ⟨s', free', hs', hd'⟩ := ih hd₁ hfollows hordered.2
    refine ⟨s', free', ?_, by simpa using hd'⟩
    rw [List.cons_append, defineRegions, if_pos (hrs r List.mem_cons_self).usable.size_pos, hs₁]
    exact hs'

/-- The heap after `vPortDefineHeapRegions`. -/
theorem vPortDefineHeapRegions_eq {rs : List HeapRegion} (hok : RegionsOk xStart rs) (p : UInt32)
    (rest : List HeapRegion) (mem : Memory) :
    ∃ h free, vPortDefineHeapRegions xStart (rs ++ ⟨p, 0⟩ :: rest) (.boot mem) = .ok h ∧
      HeapInv xStart (rs.map HeapRegion.extent) free [] h ∧
      h.xMinimumEverFreeBytesRemaining = h.xFreeBytesRemaining ∧ h.xNumberOfSuccessfulAllocations = 0 ∧
      h.xNumberOfSuccessfulFrees = 0 := by
  obtain ⟨hne, husable, hordered, hstart⟩ := hok
  cases rs with
  | nil => exact absurd rfl hne
  | cons r rs =>
    have hr := husable r List.mem_cons_self
    rw [List.pairwise_cons] at hordered
    obtain ⟨s₁, hs₁, hd₁, hend₁⟩ := defineRegion_first hr (hstart r List.mem_cons_self) mem
    have hfollows : ∀ r' ∈ rs, Follows xStart s₁.pxEnd r' := by
      intro r' hr'
      refine ⟨husable r' (List.mem_cons_of_mem _ hr'), ?_, hstart r' (List.mem_cons_of_mem _ hr')⟩
      rw [hend₁, hr.hi_toNat]
      exact hordered.1 r' hr'
    obtain ⟨s, free, hs, hd⟩ := defineRegions_eq hd₁ hfollows hordered.2 p rest
    have hregions : defineRegions xStart (r :: rs ++ ⟨p, 0⟩ :: rest) ⟨mem, 0, 0, 0⟩ = .ok s := by
      rw [List.cons_append, defineRegions, if_pos hr.size_pos, hs₁]
      exact hs
    have htotal : s.xTotalHeapSize ≠ 0 := by
      have hbytes : s.xTotalHeapSize = .ofNat (total free) := hd.inv.free_bytes
      have hlt := hd.inv.total_lt
      have hroom := hr.room
      have hsize : r.extent.size = r.hi - r.lo := rfl
      have hpos : 0 < total free := by
        have hsum := hd.inv.total_eq
        rw [List.singleton_append, total_cons, total_nil] at hsum
        omega
      intro h0
      have := congrArg UInt32.toNat (hbytes.symm.trans h0)
      rw [UInt32.toNat_ofNat_of_lt' (by simpa [UInt32.size] using hlt)] at this
      have hzero : UInt32.toNat 0 = 0 := rfl
      omega
    refine ⟨s.heap, free, ?_, by simpa using hd.inv, rfl, rfl, rfl⟩
    unfold vPortDefineHeapRegions configASSERT Heap.boot
    rw [if_pos rfl]
    dsimp only [bind, Except.bind]
    rw [hregions]
    dsimp only
    rw [if_pos htotal]
    rfl

end LcdKeypad
