import LcdKeypad.General.ByteMemory
import LcdKeypad.Port

/-!
# The heap (`heap_5.c`)

The allocator that `main` sets up with `setup_freertos_heap` and that `xTaskCreate` takes memory from, as it is
configured: 32-bit addresses, 8 byte alignment, no heap protector, memory not cleared on free, no malloc-failed
hook.  The block headers, among them the static `xStart`, lie in the byte memory.  The loops that follow the free
list take fuel, and a call stops without a result where the code spins in `configASSERT`.
-/

namespace LcdKeypad

open ByteMemory

/-! ### `BlockLink_t` -/

/-- `sizeof( BlockLink_t )`, two words, rounded up -/
def xHeapStructSize : UInt32 := (8 + (portByteAlignment - 1)) &&& ~~~portByteAlignmentMask

def heapMinimumBlockSize : UInt32 := xHeapStructSize <<< 1

def heapSizeMax : UInt32 := ~~~0
def heapMultiplyWillOverflow (a b : UInt32) : Prop := 0 < a ∧ heapSizeMax / a < b
def heapAddWillOverflow (a b : UInt32) : Prop := heapSizeMax - b < a
def heapSubtractWillUnderflow (a b : UInt32) : Prop := a < b

instance (a b : UInt32) : Decidable (heapMultiplyWillOverflow a b) := inferInstanceAs (Decidable (_ ∧ _))
instance (a b : UInt32) : Decidable (heapAddWillOverflow a b) := inferInstanceAs (Decidable (_ < _))
instance (a b : UInt32) : Decidable (heapSubtractWillUnderflow a b) := inferInstanceAs (Decidable (_ < _))

def heapBlockAllocatedBitmask : UInt32 := 0x80000000

def pxNextFreeBlock (mem : Memory) (pxBlock : UInt32) : UInt32 := .ofNat (load mem 4 pxBlock.toNat)
def xBlockSize (mem : Memory) (pxBlock : UInt32) : UInt32 := .ofNat (load mem 4 (pxBlock.toNat + 4))

def setNextFreeBlock (mem : Memory) (pxBlock v : UInt32) : Memory := store mem 4 pxBlock.toNat v.toNat
def setBlockSize (mem : Memory) (pxBlock v : UInt32) : Memory := store mem 4 (pxBlock.toNat + 4) v.toNat

def heapBlockSizeIsValid (xBlockSize : UInt32) : Prop := xBlockSize &&& heapBlockAllocatedBitmask = 0

instance (n : UInt32) : Decidable (heapBlockSizeIsValid n) := inferInstanceAs (Decidable (_ = _))

def heapBlockIsAllocated (mem : Memory) (pxBlock : UInt32) : Prop :=
  xBlockSize mem pxBlock &&& heapBlockAllocatedBitmask ≠ 0

instance (mem : Memory) (pxBlock : UInt32) : Decidable (heapBlockIsAllocated mem pxBlock) :=
  inferInstanceAs (Decidable (_ ≠ _))

def heapAllocateBlock (mem : Memory) (pxBlock : UInt32) : Memory :=
  setBlockSize mem pxBlock (xBlockSize mem pxBlock ||| heapBlockAllocatedBitmask)

def heapFreeBlock (mem : Memory) (pxBlock : UInt32) : Memory :=
  setBlockSize mem pxBlock (xBlockSize mem pxBlock &&& ~~~heapBlockAllocatedBitmask)

/-- The memory and the static variables of the file; `xStart` lies in the memory. -/
structure Heap where
  mem : Memory
  pxEnd : UInt32
  xFreeBytesRemaining : UInt32
  xMinimumEverFreeBytesRemaining : UInt32
  xNumberOfSuccessfulAllocations : UInt32
  xNumberOfSuccessfulFrees : UInt32

/-- The static initialisers. -/
def Heap.boot (mem : Memory) : Heap := ⟨mem, 0, 0, 0, 0, 0⟩

variable (xStart : UInt32) (fuel : ℕ)

/-! ### `prvInsertBlockIntoFreeList` -/

/-- The `for` loop: from `pxIterator` on to the last block before `pxBlockToInsert`. -/
def insertPosition (mem : Memory) (pxBlockToInsert : UInt32) : ℕ → UInt32 → Except KernelStop UInt32
  | 0, _ => .error .fuel
  | fuel + 1, pxIterator =>
    if pxNextFreeBlock mem pxIterator < pxBlockToInsert then
      insertPosition mem pxBlockToInsert fuel (pxNextFreeBlock mem pxIterator)
    else .ok pxIterator

/-- The block being inserted against the block it is inserted before. -/
def linkToNext (pxEnd pxIterator pxBlockToInsert : UInt32) (mem : Memory) : Memory :=
  if pxBlockToInsert + xBlockSize mem pxBlockToInsert = pxNextFreeBlock mem pxIterator then
    if pxNextFreeBlock mem pxIterator ≠ pxEnd then
      let mem := setBlockSize mem pxBlockToInsert
        (xBlockSize mem pxBlockToInsert + xBlockSize mem (pxNextFreeBlock mem pxIterator))
      setNextFreeBlock mem pxBlockToInsert (pxNextFreeBlock mem (pxNextFreeBlock mem pxIterator))
    else setNextFreeBlock mem pxBlockToInsert pxEnd
  else setNextFreeBlock mem pxBlockToInsert (pxNextFreeBlock mem pxIterator)

/-- The links set at the position that the loop found. -/
def insertAfter (pxEnd pxIterator pxBlockToInsert : UInt32) (mem : Memory) : Memory :=
  if pxIterator + xBlockSize mem pxIterator = pxBlockToInsert then
    -- `pxBlockToInsert = pxIterator`, so that the link to it at the end is left out
    let mem := setBlockSize mem pxIterator (xBlockSize mem pxIterator + xBlockSize mem pxBlockToInsert)
    linkToNext pxEnd pxIterator pxIterator mem
  else
    let mem := linkToNext pxEnd pxIterator pxBlockToInsert mem
    if pxIterator ≠ pxBlockToInsert then setNextFreeBlock mem pxIterator pxBlockToInsert else mem

def prvInsertBlockIntoFreeList (pxEnd pxBlockToInsert : UInt32) (mem : Memory) : Except KernelStop Memory := do
  let pxIterator ← insertPosition mem pxBlockToInsert fuel xStart
  return insertAfter pxEnd pxIterator pxBlockToInsert mem

/-! ### `pvPortMalloc` -/

/-- The bytes to take for a request, header and alignment included; 0 if the request is 0 or too large. -/
def requiredSize (xWantedSize : UInt32) : UInt32 :=
  if 0 < xWantedSize then
    if ¬ heapAddWillOverflow xWantedSize xHeapStructSize then
      let xWantedSize := xWantedSize + xHeapStructSize
      if xWantedSize &&& portByteAlignmentMask ≠ 0 then
        let xAdditionalRequiredSize := portByteAlignment - (xWantedSize &&& portByteAlignmentMask)
        if ¬ heapAddWillOverflow xWantedSize xAdditionalRequiredSize then xWantedSize + xAdditionalRequiredSize
        else 0
      else xWantedSize
    else 0
  else xWantedSize

/-- The `while` loop: the first block of adequate size, or the end marker, and the block before it. -/
def findBlock (mem : Memory) (xWantedSize : UInt32) : ℕ → UInt32 → UInt32 → Except KernelStop (UInt32 × UInt32)
  | 0, _, _ => .error .fuel
  | fuel + 1, pxPreviousBlock, pxBlock =>
    if xBlockSize mem pxBlock < xWantedSize ∧ pxNextFreeBlock mem pxBlock ≠ 0 then
      findBlock mem xWantedSize fuel pxBlock (pxNextFreeBlock mem pxBlock)
    else .ok (pxPreviousBlock, pxBlock)

/-- The block split in two, if what is left over is large enough for a block. -/
def splitBlock (pxPreviousBlock pxBlock xWantedSize : UInt32) (mem : Memory) : Except KernelStop Memory := do
  configASSERT (¬ heapSubtractWillUnderflow (xBlockSize mem pxBlock) xWantedSize)
  if heapMinimumBlockSize < xBlockSize mem pxBlock - xWantedSize then
    let pxNewBlockLink := pxBlock + xWantedSize
    configASSERT (pxNewBlockLink &&& portByteAlignmentMask = 0)
    let mem := setBlockSize mem pxNewBlockLink (xBlockSize mem pxBlock - xWantedSize)
    let mem := setBlockSize mem pxBlock xWantedSize
    let mem := setNextFreeBlock mem pxNewBlockLink (pxNextFreeBlock mem pxPreviousBlock)
    return setNextFreeBlock mem pxPreviousBlock pxNewBlockLink
  else return mem

/-- The block taken out of the list and marked as allocated, and the address handed out. -/
def takeBlock (pxPreviousBlock pxBlock xWantedSize : UInt32) (h : Heap) : Except KernelStop (Heap × UInt32) := do
  let pvReturn := pxNextFreeBlock h.mem pxPreviousBlock + xHeapStructSize
  let mem := setNextFreeBlock h.mem pxPreviousBlock (pxNextFreeBlock h.mem pxBlock)
  let mem ← splitBlock pxPreviousBlock pxBlock xWantedSize mem
  let xFreeBytesRemaining := h.xFreeBytesRemaining - xBlockSize mem pxBlock
  let h : Heap := { h with
    mem := setNextFreeBlock (heapAllocateBlock mem pxBlock) pxBlock 0
    xFreeBytesRemaining := xFreeBytesRemaining
    xMinimumEverFreeBytesRemaining :=
      if xFreeBytesRemaining < h.xMinimumEverFreeBytesRemaining then xFreeBytesRemaining
      else h.xMinimumEverFreeBytesRemaining
    xNumberOfSuccessfulAllocations := h.xNumberOfSuccessfulAllocations + 1 }
  return (h, pvReturn)

/-- What `pvPortMalloc` does while the scheduler is suspended. -/
def mallocSuspended (xWantedSize : UInt32) (h : Heap) : Except KernelStop (Heap × UInt32) :=
  if heapBlockSizeIsValid xWantedSize then
    if 0 < xWantedSize ∧ xWantedSize ≤ h.xFreeBytesRemaining then do
      let (pxPreviousBlock, pxBlock) ← findBlock h.mem xWantedSize fuel xStart (pxNextFreeBlock h.mem xStart)
      if pxBlock ≠ h.pxEnd then takeBlock pxPreviousBlock pxBlock xWantedSize h else return (h, 0)
    else return (h, 0)
  else return (h, 0)

def pvPortMalloc (xWantedSize : UInt32) (h : Heap) : Except KernelStop (Heap × UInt32) := do
  configASSERT (h.pxEnd ≠ 0)
  let (h, pvReturn) ← mallocSuspended xStart fuel (requiredSize xWantedSize) h
  configASSERT (pvReturn &&& portByteAlignmentMask = 0)
  return (h, pvReturn)

/-- `memset( pv, 0, xNum * xSize )` writes byte by byte. -/
def pvPortCalloc (xNum xSize : UInt32) (h : Heap) : Except KernelStop (Heap × UInt32) :=
  if ¬ heapMultiplyWillOverflow xNum xSize then do
    let (h, pv) ← pvPortMalloc xStart fuel (xNum * xSize) h
    if pv ≠ 0 then return ({ h with mem := fill h.mem pv.toNat (xNum * xSize).toNat 0 }, pv) else return (h, pv)
  else return (h, 0)

/-! ### `vPortFree` -/

/-- The two tests after the assertions, which repeat them, are left out. -/
def vPortFree (pv : UInt32) (h : Heap) : Except KernelStop Heap := do
  if pv ≠ 0 then
    let pxLink := pv - xHeapStructSize
    configASSERT (heapBlockIsAllocated h.mem pxLink)
    configASSERT (pxNextFreeBlock h.mem pxLink = 0)
    let mem := heapFreeBlock h.mem pxLink
    let xFreeBytesRemaining := h.xFreeBytesRemaining + xBlockSize mem pxLink
    let mem ← prvInsertBlockIntoFreeList xStart fuel h.pxEnd pxLink mem
    return { h with
      mem := mem
      xFreeBytesRemaining := xFreeBytesRemaining
      xNumberOfSuccessfulFrees := h.xNumberOfSuccessfulFrees + 1 }
  else return h

/-! ### The counters -/

def xPortGetFreeHeapSize (h : Heap) : UInt32 := h.xFreeBytesRemaining

def xPortGetMinimumEverFreeHeapSize (h : Heap) : UInt32 := h.xMinimumEverFreeBytesRemaining

def xPortResetHeapMinimumEverFreeHeapSize (h : Heap) : Heap :=
  { h with xMinimumEverFreeBytesRemaining := h.xFreeBytesRemaining }

/-! ### `vPortDefineHeapRegions` -/

structure HeapRegion where
  pucStartAddress : UInt32
  xSizeInBytes : UInt32
  deriving Repr

/-- The locals of the loop over the regions. -/
structure RegionLoop where
  mem : Memory
  pxEnd : UInt32
  xTotalHeapSize : UInt32
  xDefinedRegions : ℕ

/-- The start of the region on an aligned boundary, and its size without the bytes lost to alignment. -/
def alignRegion (r : HeapRegion) : UInt32 × UInt32 :=
  if r.pucStartAddress &&& portByteAlignmentMask ≠ 0 then
    let xAddress := (r.pucStartAddress + (portByteAlignment - 1)) &&& ~~~portByteAlignmentMask
    (xAddress, r.xSizeInBytes - (xAddress - r.pucStartAddress))
  else (r.pucStartAddress, r.xSizeInBytes)

/-- `xStart`, which the first region sets; the others must come in the order of their addresses. -/
def startRegion (xAlignedHeap : UInt32) (s : RegionLoop) : Except KernelStop Memory :=
  if s.xDefinedRegions = 0 then .ok (setBlockSize (setNextFreeBlock s.mem xStart xAlignedHeap) xStart 0)
  else do
    configASSERT (s.pxEnd ≠ 0)
    configASSERT (s.pxEnd < xAlignedHeap)
    return s.mem

/-- The end marker of a region, and one free block of everything in front of it. -/
def writeRegion (xAlignedHeap pxEnd : UInt32) (mem : Memory) : Memory :=
  let mem := setNextFreeBlock (setBlockSize mem pxEnd 0) pxEnd 0
  setNextFreeBlock (setBlockSize mem xAlignedHeap (pxEnd - xAlignedHeap)) xAlignedHeap pxEnd

/-- The body of the loop. -/
def defineRegion (r : HeapRegion) (s : RegionLoop) : Except KernelStop RegionLoop := do
  let (xAlignedHeap, xTotalRegionSize) := alignRegion r
  let mem ← startRegion xStart xAlignedHeap s
  let pxPreviousFreeBlock := s.pxEnd
  let pxEnd := (xAlignedHeap + xTotalRegionSize - xHeapStructSize) &&& ~~~portByteAlignmentMask
  let mem := writeRegion xAlignedHeap pxEnd mem
  let mem := if pxPreviousFreeBlock ≠ 0 then setNextFreeBlock mem pxPreviousFreeBlock xAlignedHeap else mem
  return {
    mem := mem
    pxEnd := pxEnd
    xTotalHeapSize := s.xTotalHeapSize + xBlockSize mem xAlignedHeap
    xDefinedRegions := s.xDefinedRegions + 1 }

/-- The loop over the array up to the entry without bytes, which may be left out of the list. -/
def defineRegions : List HeapRegion → RegionLoop → Except KernelStop RegionLoop
  | [], s => .ok s
  | r :: rs, s => if 0 < r.xSizeInBytes then defineRegion xStart r s >>= defineRegions rs else .ok s

def vPortDefineHeapRegions (pxHeapRegions : List HeapRegion) (h : Heap) : Except KernelStop Heap := do
  configASSERT (h.pxEnd = 0)
  let s ← defineRegions xStart pxHeapRegions ⟨h.mem, h.pxEnd, 0, 0⟩
  configASSERT (s.xTotalHeapSize ≠ 0)
  return { h with
    mem := s.mem
    pxEnd := s.pxEnd
    xMinimumEverFreeBytesRemaining := s.xTotalHeapSize
    xFreeBytesRemaining := s.xTotalHeapSize }

/-! ### The heap of the firmware (`setup_freertos_heap` in `MCXA266.c`) -/

/-- The array `heap_regions`; `freertos_heap_storage` is where the linker places it. -/
def heapRegions (freertosHeapStorage : UInt32) : List HeapRegion :=
  [⟨freertosHeapStorage, configTOTAL_HEAP_SIZE⟩, ⟨0, 0⟩]

/-! ### `vPortGetHeapStats` -/

structure HeapStats where
  xAvailableHeapSpaceInBytes : UInt32
  xSizeOfLargestFreeBlockInBytes : UInt32
  xSizeOfSmallestFreeBlockInBytes : UInt32
  xNumberOfFreeBlocks : UInt32
  xMinimumEverFreeBytesRemaining : UInt32
  xNumberOfSuccessfulAllocations : UInt32
  xNumberOfSuccessfulFrees : UInt32
  deriving DecidableEq, Repr

/-- The loop over the free blocks, with `xBlocks`, `xMaxSize` and `xMinSize`. -/
def scanBlocks (mem : Memory) (pxEnd : UInt32) :
    ℕ → UInt32 → UInt32 × UInt32 × UInt32 → Except KernelStop (UInt32 × UInt32 × UInt32)
  | 0, _, _ => .error .fuel
  | fuel + 1, pxBlock, (xBlocks, xMaxSize, xMinSize) =>
    if pxBlock ≠ pxEnd then
      let size := xBlockSize mem pxBlock
      scanBlocks mem pxEnd fuel (pxNextFreeBlock mem pxBlock)
        (xBlocks + 1, if xMaxSize < size then size else xMaxSize,
          if size ≠ 0 then if size < xMinSize then size else xMinSize else xMinSize)
    else .ok (xBlocks, xMaxSize, xMinSize)

/-- `portMAX_DELAY` stands for a size that no block exceeds. -/
def vPortGetHeapStats (h : Heap) : Except KernelStop HeapStats := do
  let pxBlock := pxNextFreeBlock h.mem xStart
  let (xBlocks, xMaxSize, xMinSize) ←
    if pxBlock ≠ 0 then scanBlocks h.mem h.pxEnd fuel pxBlock (0, 0, portMAX_DELAY) else .ok (0, 0, portMAX_DELAY)
  return {
    xAvailableHeapSpaceInBytes := h.xFreeBytesRemaining
    xSizeOfLargestFreeBlockInBytes := xMaxSize
    xSizeOfSmallestFreeBlockInBytes := xMinSize
    xNumberOfFreeBlocks := xBlocks
    xMinimumEverFreeBytesRemaining := h.xMinimumEverFreeBytesRemaining
    xNumberOfSuccessfulAllocations := h.xNumberOfSuccessfulAllocations
    xNumberOfSuccessfulFrees := h.xNumberOfSuccessfulFrees }

end LcdKeypad
