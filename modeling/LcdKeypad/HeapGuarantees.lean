import LcdKeypad.HeapRuns
import Mathlib.Data.List.Infix
import Mathlib.Order.Bounds.Basic

/-!
# What the heap guarantees

Properties of every run of an application on a heap that `vPortDefineHeapRegions` has set up, in terms of the blocks
that the application holds.
-/

namespace LcdKeypad

open ByteMemory Extents

/-- The bytes taken by the block at `pv`, as its header says. -/
def heldBytes (h : Heap) (pv : UInt32) : ℕ :=
  (xBlockSize h.mem (pv - xHeapStructSize) &&& ~~~heapBlockAllocatedBitmask).toNat

namespace Client

/-- The bytes of the regions that belong to no block held. -/
def freeBytes (rs : List HeapRegion) (c : Client) : Set ℕ :=
  {x | (∃ r ∈ rs, r.lo ≤ x ∧ x < r.hi) ∧
    ∀ a ∈ c.live, ¬ (a.pv.toNat - 8 ≤ x ∧ x < a.pv.toNat - 8 + heldBytes c.heap a.pv)}

/-- Where the blocks held lie, and how many bytes each takes. -/
def places (c : Client) : List (UInt32 × ℕ) := c.live.map fun a => (a.pv, heldBytes c.heap a.pv)

end Client

variable {xStart : UInt32} {fuel : ℕ} {regions free allocated : List Extent} {c : Client} {rs : List HeapRegion}

theorem HeapInv.heldBytes_eq {h : Heap} (hI : HeapInv xStart regions free allocated h) {b : Extent}
    (hb : b ∈ allocated) : heldBytes h (addr b + 8) = b.size := by
  have hsize := hI.size_lt (List.mem_append_right _ hb)
  have hofNat : (UInt32.ofNat b.size).toNat = b.size :=
    UInt32.toNat_ofNat_of_lt' (by simp [UInt32.size]; omega)
  unfold heldBytes
  rw [xHeapStructSize_eq, UInt32.add_sub_cancel, (hI.headers b hb).1, or_and_not_heapBlockAllocatedBitmask
    (by rw [hofNat]; exact hsize), hofNat]

/-! ### What is held, and what is free -/

theorem forall₂_exists {α β : Type*} {R : α → β → Prop} {l : List α} {l' : List β} (h : List.Forall₂ R l l') :
    (∀ a ∈ l, ∃ b ∈ l', R a b) ∧ ∀ b ∈ l', ∃ a ∈ l, R a b := by
  induction h with
  | nil => simp
  | cons hab _ ih =>
    refine ⟨List.forall_mem_cons.2 ⟨⟨_, List.mem_cons_self, hab⟩, fun a ha => ?_⟩,
      List.forall_mem_cons.2 ⟨⟨_, List.mem_cons_self, hab⟩, fun b hb => ?_⟩⟩
    · obtain ⟨b, hb, h⟩ := ih.1 a ha
      exact ⟨b, List.mem_cons_of_mem _ hb, h⟩
    · obtain ⟨a, ha, h⟩ := ih.2 b hb
      exact ⟨a, List.mem_cons_of_mem _ ha, h⟩

theorem forall₂_pairwise {α β : Type*} {R : α → β → Prop} {S : β → β → Prop} {T : α → α → Prop} {l : List α}
    {l' : List β} (h : List.Forall₂ R l l') (hS : l'.Pairwise S)
    (hT : ∀ a a' b b', R a b → R a' b' → S b b' → T a a') : l.Pairwise T := by
  induction h with
  | nil => exact List.Pairwise.nil
  | cons hab h ih =>
    rw [List.pairwise_cons] at hS
    refine List.pairwise_cons.2 ⟨fun a' ha' => ?_, ih hS.2⟩
    obtain ⟨b', hb', hab'⟩ := (forall₂_exists h).1 a' ha'
    exact hT _ _ _ _ hab hab' (hS.1 b' hb')

namespace ClientInv

/-- The blocks held, with the place of each. -/
theorem holds_at (hI : ClientInv xStart regions free allocated c) :
    List.Forall₂ (fun a b => Holds c.heap.mem a b ∧ b ∈ allocated ∧ a.pv.toNat = b.lo + 8 ∧
      heldBytes c.heap a.pv = b.size) c.live allocated := by
  refine forall₂_imp_of_mem hI.holds fun a b hb h => ⟨h, hb, ?_, ?_⟩
  · rw [h.pv]
    exact hI.heap.pv_toNat hb
  · rw [h.pv]
    exact hI.heap.heldBytes_eq hb

theorem total_held (hI : ClientInv xStart regions free allocated c) :
    (c.live.map fun a => heldBytes c.heap a.pv).sum = total allocated := by
  have hmap : List.Forall₂ Eq (c.live.map fun a => heldBytes c.heap a.pv) (allocated.map Extent.size) := by
    rw [List.forall₂_map_left_iff, List.forall₂_map_right_iff]
    exact hI.holds_at.imp fun _ _ h => h.2.2.2
  rw [List.forall₂_eq_eq_eq] at hmap
  unfold total
  rw [hmap]

theorem cover_free (hI : ClientInv xStart (rs.map HeapRegion.extent) free allocated c)
    (hrs : ∀ r ∈ rs, r.Usable) : cover free = c.freeBytes rs := by
  have hregions : ∀ x, x ∈ cover (rs.map HeapRegion.extent) ↔ ∃ r ∈ rs, r.lo ≤ x ∧ x < r.hi := by
    intro x
    rw [mem_cover]
    constructor
    · rintro ⟨e, he, hx⟩
      obtain ⟨r, hr, rfl⟩ := List.mem_map.1 he
      rw [Extent.mem_cells, (hrs r hr).extent_hi] at hx
      exact ⟨r, hr, hx⟩
    · rintro ⟨r, hr, hx⟩
      refine ⟨r.extent, List.mem_map_of_mem hr, ?_⟩
      rw [Extent.mem_cells, (hrs r hr).extent_hi]
      exact hx
  ext x
  constructor
  · rintro ⟨e, he, hx⟩
    refine ⟨(hregions x).1 (by rw [← hI.heap.cover_eq]; exact .inl ⟨e, he, hx⟩), fun a ha hxa => ?_⟩
    obtain ⟨b, -, -, hb, hpv, hbytes⟩ := (forall₂_exists hI.holds_at).1 a ha
    have hbhi : b.hi = b.lo + b.size := rfl
    rw [Extent.mem_cells] at hx
    rcases hI.heap.apart e he b hb with hap | hap
    · have := hap.2; omega
    · have := hap.2; omega
  · rintro ⟨hx, hnot⟩
    have hcover := (hregions x).2 hx
    rw [← hI.heap.cover_eq] at hcover
    rcases hcover with h | ⟨b, hb, hxb⟩
    · exact h
    · obtain ⟨a, ha, -, -, hpv, hbytes⟩ := (forall₂_exists hI.holds_at).2 b hb
      rw [Extent.mem_cells] at hxb
      have hbhi : b.hi = b.lo + b.size := rfl
      exact absurd ⟨by omega, by omega⟩ (hnot a ha)

end ClientInv

/-- A request is refused only if the bytes it takes fit nowhere, and is served at the lowest place where they fit. -/
theorem ClientInv.malloc_answer (hI : ClientInv xStart (rs.map HeapRegion.extent) free allocated c)
    (hrs : ∀ r ∈ rs, r.Usable) (hfuel : 2 ^ 29 ≤ fuel) (n : UInt32) :
    (pvPortMalloc xStart fuel n c.heap = .ok (c.heap, 0) ∧
      (n = 0 ∨ ∀ x, ¬ Set.Ico x (x + blockBytes n) ⊆ c.freeBytes rs)) ∨
    ∃ h' pv, pvPortMalloc xStart fuel n c.heap = .ok (h', pv) ∧ n ≠ 0 ∧ 8 ≤ pv.toNat ∧
      IsLeast {x | Set.Ico x (x + blockBytes n) ⊆ c.freeBytes rs} (pv.toNat - 8) := by
  have hlen := lt_of_lt_of_le hI.heap.length_lt hfuel
  have hsorted := hI.heap.sorted
  have hcoalesced := hI.heap.coalesced
  rw [← hI.cover_free hrs]
  by_cases hnone : n = 0 ∨ allocate (blockBytes n) 16 free = none
  · refine .inl ⟨hI.heap.pvPortMalloc_eq_null hlen hnone, ?_⟩
    rcases hnone with rfl | hnone
    · exact .inl rfl
    · have hpos := HeapInv.le_blockBytes n
      exact .inr ((allocate_eq_none_iff hsorted hcoalesced (by decide) (by omega)).1 hnone)
  · right
    rw [not_or] at hnone
    obtain ⟨⟨b, free'⟩, hall⟩ := Option.ne_none_iff_exists'.1 hnone.2
    obtain ⟨h', hmalloc, hI', -, -⟩ := hI.heap.pvPortMalloc_eq_some hlen hnone.1 hall
    have hpos := HeapInv.le_blockBytes n
    have hpv := hI'.pv_toNat List.mem_cons_self
    refine ⟨h', addr b + 8, hmalloc, hnone.1, by omega, ?_⟩
    rw [hpv, Nat.add_sub_cancel]
    exact isLeast_allocate hsorted hcoalesced (by decide) (by omega) hall

/-! ### Runs -/

/-- The heap as it is set up, from where every run goes on. -/
theorem heapRun_eq (hok : RegionsOk xStart rs) (fuel : ℕ) (p : UInt32) (rest : List HeapRegion) (mem : Memory) :
    ∃ c₀ free, (∀ calls, heapRun xStart fuel (rs ++ ⟨p, 0⟩ :: rest) mem calls =
        calls.foldlM (clientStep xStart fuel) c₀) ∧
      ClientInv xStart (rs.map HeapRegion.extent) free [] c₀ ∧
      c₀.heap.xMinimumEverFreeBytesRemaining = c₀.heap.xFreeBytesRemaining := by
  obtain ⟨h, free, hdefine, hI, hmin, hallocations, hfrees⟩ := vPortDefineHeapRegions_eq hok p rest mem
  refine ⟨⟨h, []⟩, free, fun calls => ?_, ⟨hI, .nil, ?_, ?_⟩, hmin⟩
  · unfold heapRun
    rw [hdefine]
    rfl
  · rw [hmin]
    exact UInt32.le_refl _
  · rw [hallocations, hfrees]
    rfl

theorem heapRun_ok (hok : RegionsOk xStart rs) (hfuel : 2 ^ 29 ≤ fuel) (p : UInt32) (rest : List HeapRegion)
    (mem : Memory) (calls : List HeapCall) :
    ∃ c free allocated, heapRun xStart fuel (rs ++ ⟨p, 0⟩ :: rest) mem calls = .ok c ∧
      ClientInv xStart (rs.map HeapRegion.extent) free allocated c := by
  obtain ⟨c₀, free₀, hrun, hI₀, -⟩ := heapRun_eq hok fuel p rest mem
  have hstep : ∀ c call, (∃ free allocated, ClientInv xStart (rs.map HeapRegion.extent) free allocated c) →
      ∃ c', clientStep xStart fuel c call = .ok c' ∧
        ∃ free allocated, ClientInv xStart (rs.map HeapRegion.extent) free allocated c' := by
    rintro c call ⟨free, allocated, hI⟩
    obtain ⟨c', free', allocated', hok', hI', -⟩ := clientStep_ok hI hfuel call
    exact ⟨c', hok', free', allocated', hI'⟩
  obtain ⟨c, hc, free, allocated, hI⟩ := Runs.foldlM_ok_of_invariant hstep ⟨free₀, [], hI₀⟩ calls
  exact ⟨c, free, allocated, by rw [hrun]; exact hc, hI⟩

/-- The storage at 0x20000000 and `xStart` behind it, for the cases that follow. -/
theorem regionsOk_at_0x20000000 : RegionsOk 0x20003000 [⟨0x20000000, configTOTAL_HEAP_SIZE⟩] :=
  regionsOk_freertosHeap (by decide) (by decide) (by decide) (.inr (by decide))

/-- No call stops in an assertion or in a loop, whatever the application does; and the blocks that it holds are
aligned, lie in the regions, and do not overlap one another's bytes or headers. -/
theorem heapRun_blocks (hok : RegionsOk xStart rs) (hfuel : 2 ^ 29 ≤ fuel) (p : UInt32) (rest : List HeapRegion)
    (mem : Memory) (calls : List HeapCall) :
    ∃ c, heapRun xStart fuel (rs ++ ⟨p, 0⟩ :: rest) mem calls = .ok c ∧
      (∀ a ∈ c.live, a.pv.toNat % 8 = 0 ∧ ∃ r ∈ rs, r.lo + 8 ≤ a.pv.toNat ∧ a.pv.toNat + a.size.toNat ≤ r.hi) ∧
      c.live.Pairwise fun a a' =>
        a.pv.toNat + a.size.toNat + 8 ≤ a'.pv.toNat ∨ a'.pv.toNat + a'.size.toNat + 8 ≤ a.pv.toNat := by
  obtain ⟨c, free, allocated, hrun, hI⟩ := heapRun_ok hok hfuel p rest mem calls
  refine ⟨c, hrun, fun a ha => ?_, forall₂_pairwise hI.holds_at hI.heap.allocated_apart ?_⟩
  · obtain ⟨b, -, h, hb, hpv, -⟩ := (forall₂_exists hI.holds_at).1 a ha
    have halign := (hI.heap.allocated_placed hb).aligned
    have h16 := hI.heap.allocated_size b hb
    obtain ⟨e, he, hlo, hhi⟩ := hI.heap.exists_region (List.mem_append_right _ hb) (by omega)
    obtain ⟨r, hr, rfl⟩ := List.mem_map.1 he
    rw [(hok.usable r hr).extent_hi] at hhi
    have hlo' : r.extent.lo = r.lo := rfl
    have hge := h.ge
    have hle := HeapInv.le_blockBytes a.size
    have hbhi : b.hi = b.lo + b.size := rfl
    exact ⟨by omega, r, hr, by omega, by omega⟩
  · rintro a a' b b' ⟨h, -, hpv, -⟩ ⟨h', -, hpv', -⟩ hap
    have hge := h.ge
    have hge' := h'.ge
    have hle := HeapInv.le_blockBytes a.size
    have hle' := HeapInv.le_blockBytes a'.size
    have hbhi : b.hi = b.lo + b.size := rfl
    have hbhi' : b'.hi = b'.lo + b'.size := rfl
    rcases hap with hap | hap
    · have := hap.2; left; omega
    · have := hap.2; right; omega

theorem heapRun_blocks_freertosHeap :
    ∃ c, heapRun 0x20003000 (2 ^ 29) (heapRegions 0x20000000) (fun _ => 0)
        [.malloc 100, .calloc 3 7, .free 1, .malloc 5] = .ok c ∧
      (∀ a ∈ c.live, a.pv.toNat % 8 = 0 ∧ ∃ r ∈ [HeapRegion.mk 0x20000000 configTOTAL_HEAP_SIZE],
        r.lo + 8 ≤ a.pv.toNat ∧ a.pv.toNat + a.size.toNat ≤ r.hi) ∧
      c.live.Pairwise fun a a' =>
        a.pv.toNat + a.size.toNat + 8 ≤ a'.pv.toNat ∨ a'.pv.toNat + a'.size.toNat + 8 ≤ a.pv.toNat :=
  heapRun_blocks regionsOk_at_0x20000000 (le_refl _) 0 [] _ _

/-- No byte is lost or counted twice: what is free and what the headers of the blocks held say are the regions, and a
block takes at most 16 bytes more than the request with its header needs. -/
theorem heapRun_accounts (hok : RegionsOk xStart rs) (hfuel : 2 ^ 29 ≤ fuel) (p : UInt32) (rest : List HeapRegion)
    (mem : Memory) (calls : List HeapCall) :
    ∃ c, heapRun xStart fuel (rs ++ ⟨p, 0⟩ :: rest) mem calls = .ok c ∧
      (xPortGetFreeHeapSize c.heap).toNat + (c.live.map fun a => heldBytes c.heap a.pv).sum =
        (rs.map fun r => r.hi - r.lo).sum ∧
      (∀ a ∈ c.live, blockBytes a.size ≤ heldBytes c.heap a.pv ∧ heldBytes c.heap a.pv ≤ blockBytes a.size + 16) ∧
      c.heap.xNumberOfSuccessfulAllocations = c.heap.xNumberOfSuccessfulFrees + .ofNat c.live.length := by
  obtain ⟨c, free, allocated, hrun, hI⟩ := heapRun_ok hok hfuel p rest mem calls
  refine ⟨c, hrun, ?_, fun a ha => ?_, hI.count⟩
  · have htotal : total (rs.map HeapRegion.extent) = (rs.map fun r => r.hi - r.lo).sum := by
      unfold total
      rw [List.map_map]
      rfl
    unfold xPortGetFreeHeapSize
    rw [hI.total_held, hI.heap.free_bytes_toNat, hI.heap.total_eq, htotal]
  · obtain ⟨b, -, h, -, -, hbytes⟩ := (forall₂_exists hI.holds_at).1 a ha
    rw [hbytes]
    exact ⟨h.ge, h.le⟩

theorem heapRun_accounts_freertosHeap :
    ∃ c, heapRun 0x20003000 (2 ^ 29) (heapRegions 0x20000000) (fun _ => 0)
        [.malloc 100, .calloc 3 7, .free 1, .malloc 5] = .ok c ∧
      (xPortGetFreeHeapSize c.heap).toNat + (c.live.map fun a => heldBytes c.heap a.pv).sum = 10232 ∧
      (∀ a ∈ c.live, blockBytes a.size ≤ heldBytes c.heap a.pv ∧ heldBytes c.heap a.pv ≤ blockBytes a.size + 16) ∧
      c.heap.xNumberOfSuccessfulAllocations = c.heap.xNumberOfSuccessfulFrees + .ofNat c.live.length :=
  heapRun_accounts regionsOk_at_0x20000000 (le_refl _) 0 [] _ _

/-- After any run a request is served whenever its bytes fit somewhere, and then at the lowest place. -/
theorem heapRun_malloc (hok : RegionsOk xStart rs) (hfuel : 2 ^ 29 ≤ fuel) (p : UInt32) (rest : List HeapRegion)
    (mem : Memory) (calls : List HeapCall) (n : UInt32) :
    ∃ c, heapRun xStart fuel (rs ++ ⟨p, 0⟩ :: rest) mem calls = .ok c ∧
      ((pvPortMalloc xStart fuel n c.heap = .ok (c.heap, 0) ∧
          (n = 0 ∨ ∀ x, ¬ Set.Ico x (x + blockBytes n) ⊆ c.freeBytes rs)) ∨
        ∃ h' pv, pvPortMalloc xStart fuel n c.heap = .ok (h', pv) ∧ n ≠ 0 ∧ 8 ≤ pv.toNat ∧
          IsLeast {x | Set.Ico x (x + blockBytes n) ⊆ c.freeBytes rs} (pv.toNat - 8)) := by
  obtain ⟨c, free, allocated, hrun, hI⟩ := heapRun_ok hok hfuel p rest mem calls
  exact ⟨c, hrun, hI.malloc_answer hok.usable hfuel n⟩

theorem heapRun_malloc_freertosHeap :
    ∃ c, heapRun 0x20003000 (2 ^ 29) (heapRegions 0x20000000) (fun _ => 0) [.malloc 100, .malloc 5, .free 1] = .ok c ∧
      ((pvPortMalloc 0x20003000 (2 ^ 29) 24 c.heap = .ok (c.heap, 0) ∧
          ((24 : UInt32) = 0 ∨ ∀ x, ¬ Set.Ico x (x + blockBytes 24) ⊆
            c.freeBytes [⟨0x20000000, configTOTAL_HEAP_SIZE⟩])) ∨
        ∃ h' pv, pvPortMalloc 0x20003000 (2 ^ 29) 24 c.heap = .ok (h', pv) ∧ (24 : UInt32) ≠ 0 ∧ 8 ≤ pv.toNat ∧
          IsLeast {x | Set.Ico x (x + blockBytes 24) ⊆ c.freeBytes [⟨0x20000000, configTOTAL_HEAP_SIZE⟩]}
            (pv.toNat - 8)) :=
  heapRun_malloc regionsOk_at_0x20000000 (le_refl _) 0 [] _ _ 24

theorem freeBytes_congr {c₁ c₂ : Client} (h : c₁.places.Perm c₂.places) : c₁.freeBytes rs = c₂.freeBytes rs := by
  have hmem : ∀ {c c' : Client}, c.places.Perm c'.places → c.freeBytes rs ⊆ c'.freeBytes rs := by
    rintro c c' hperm x ⟨hx, hnot⟩
    refine ⟨hx, fun a ha => ?_⟩
    have hplace : (a.pv, heldBytes c'.heap a.pv) ∈ c.places := hperm.mem_iff.2 (List.mem_map_of_mem ha)
    obtain ⟨a', ha', heq⟩ := List.mem_map.1 hplace
    obtain ⟨hpv, hbytes⟩ := Prod.mk.inj heq
    have := hnot a' ha'
    rw [hpv] at hbytes this
    rw [← hbytes]
    exact this
  exact Set.Subset.antisymm (hmem h) (hmem h.symm)

/-- What the heap has free, and how it answers a request, depends on the blocks held alone, not on the calls by
which they came to be held: after any history the free bytes are joined again as far as they can be. -/
theorem heapRun_history (hok : RegionsOk xStart rs) (hfuel : 2 ^ 29 ≤ fuel) (p₁ p₂ : UInt32)
    (rest₁ rest₂ : List HeapRegion) (mem₁ mem₂ : Memory) (calls₁ calls₂ : List HeapCall) :
    ∃ c₁ c₂, heapRun xStart fuel (rs ++ ⟨p₁, 0⟩ :: rest₁) mem₁ calls₁ = .ok c₁ ∧
      heapRun xStart fuel (rs ++ ⟨p₂, 0⟩ :: rest₂) mem₂ calls₂ = .ok c₂ ∧
      (c₁.places.Perm c₂.places →
        xPortGetFreeHeapSize c₁.heap = xPortGetFreeHeapSize c₂.heap ∧
        ∀ n, (pvPortMalloc xStart fuel n c₁.heap).map Prod.snd = (pvPortMalloc xStart fuel n c₂.heap).map Prod.snd) := by
  obtain ⟨c₁, free₁, allocated₁, hrun₁, hI₁⟩ := heapRun_ok hok hfuel p₁ rest₁ mem₁ calls₁
  obtain ⟨c₂, free₂, allocated₂, hrun₂, hI₂⟩ := heapRun_ok hok hfuel p₂ rest₂ mem₂ calls₂
  refine ⟨c₁, c₂, hrun₁, hrun₂, fun hperm => ⟨?_, fun n => ?_⟩⟩
  · have hplaces : ∀ c : Client, (c.live.map fun a => heldBytes c.heap a.pv) = c.places.map Prod.snd := by
      intro c
      unfold Client.places
      rw [List.map_map]
      rfl
    have hheld := (hperm.map Prod.snd).sum_nat
    rw [← hplaces, ← hplaces, hI₁.total_held, hI₂.total_held] at hheld
    have htotal₁ := hI₁.heap.total_eq
    have htotal₂ := hI₂.heap.total_eq
    unfold xPortGetFreeHeapSize
    rw [hI₁.heap.free_bytes, hI₂.heap.free_bytes]
    congr 1
    omega
  · have hfree : c₁.freeBytes rs = c₂.freeBytes rs := freeBytes_congr hperm
    rcases hI₁.malloc_answer hok.usable hfuel n with ⟨h₁, hno₁⟩ | ⟨h₁', pv₁, h₁, hn, hpv₁, hleast₁⟩ <;>
      rcases hI₂.malloc_answer hok.usable hfuel n with ⟨h₂, hno₂⟩ | ⟨h₂', pv₂, h₂, hn', hpv₂, hleast₂⟩
    · rw [h₁, h₂]
      rfl
    · exact absurd hleast₂.1 (by rw [← hfree]; exact hno₁.resolve_left hn' _)
    · exact absurd hleast₁.1 (by rw [hfree]; exact hno₂.resolve_left hn _)
    · rw [← hfree] at hleast₂
      have hpv := hleast₁.unique hleast₂
      have heq : pv₁ = pv₂ := UInt32.toNat_inj.1 (by omega)
      rw [h₁, h₂, heq]
      rfl

/-- Two ways to hold only the second of two blocks. -/
theorem heapRun_history_freertosHeap :
    ∃ c₁ c₂, heapRun 0x20003000 (2 ^ 29) (heapRegions 0x20000000) (fun _ => 0)
        [.malloc 100, .malloc 5, .free 1] = .ok c₁ ∧
      heapRun 0x20003000 (2 ^ 29) (heapRegions 0x20000000) (fun _ => 7)
        [.malloc 100, .malloc 5, .malloc 7, .free 0, .free 1] = .ok c₂ ∧
      c₁.places = [(0x20000078, 16)] ∧ c₂.places = [(0x20000078, 16)] ∧
      xPortGetFreeHeapSize c₁.heap = xPortGetFreeHeapSize c₂.heap ∧
      ∀ n, (pvPortMalloc 0x20003000 (2 ^ 29) n c₁.heap).map Prod.snd =
        (pvPortMalloc 0x20003000 (2 ^ 29) n c₂.heap).map Prod.snd := by
  have hplaces₁ : (heapRun 0x20003000 (2 ^ 29) (heapRegions 0x20000000) (fun _ => 0)
      [.malloc 100, .malloc 5, .free 1]).map Client.places = .ok [(0x20000078, 16)] := by decide +kernel
  have hplaces₂ : (heapRun 0x20003000 (2 ^ 29) (heapRegions 0x20000000) (fun _ => 7)
      [.malloc 100, .malloc 5, .malloc 7, .free 0, .free 1]).map Client.places = .ok [(0x20000078, 16)] := by
    decide +kernel
  obtain ⟨c₁, c₂, hrun₁, hrun₂, hsame⟩ := heapRun_history regionsOk_at_0x20000000 (le_refl (2 ^ 29)) 0 0 [] []
    (fun _ => 0) (fun _ => 7) [.malloc 100, .malloc 5, .free 1] [.malloc 100, .malloc 5, .malloc 7, .free 0, .free 1]
  have h₁ : c₁.places = [(0x20000078, 16)] := by
    rw [show heapRun 0x20003000 (2 ^ 29) (heapRegions 0x20000000) (fun _ => 0) _ = .ok c₁ from hrun₁] at hplaces₁
    exact Except.ok.inj hplaces₁
  have h₂ : c₂.places = [(0x20000078, 16)] := by
    rw [show heapRun 0x20003000 (2 ^ 29) (heapRegions 0x20000000) (fun _ => 7) _ = .ok c₂ from hrun₂] at hplaces₂
    exact Except.ok.inj hplaces₂
  exact ⟨c₁, c₂, hrun₁, hrun₂, h₁, h₂, hsame (by rw [h₁, h₂])⟩

theorem minimumAfter_of_ne {c c' : Client} {call : HeapCall} (h : minimumAfter c call c') (hne : call ≠ .resetMinimum) :
    c'.heap.xMinimumEverFreeBytesRemaining.toNat =
      min c.heap.xMinimumEverFreeBytesRemaining.toNat c'.heap.xFreeBytesRemaining.toNat := by
  cases call with
  | resetMinimum => exact absurd rfl hne
  | malloc | calloc | free | write => exact h

/-- The free bytes after each of the calls. -/
def freeAfter (xStart : UInt32) (fuel : ℕ) (c : Client) (calls : List HeapCall) : Set ℕ :=
  {n | ∃ done c', done <+: calls ∧ done.foldlM (clientStep xStart fuel) c = .ok c' ∧
    n = (xPortGetFreeHeapSize c'.heap).toNat}

theorem freeAfter_concat {c c' : Client} {calls : List HeapCall} {call : HeapCall}
    (h : (calls ++ [call]).foldlM (clientStep xStart fuel) c = .ok c') :
    freeAfter xStart fuel c (calls ++ [call]) =
      insert (xPortGetFreeHeapSize c'.heap).toNat (freeAfter xStart fuel c calls) := by
  ext n
  constructor
  · rintro ⟨done, d, hdone, hd, rfl⟩
    rcases List.prefix_concat_iff.1 hdone with rfl | hdone
    · rw [h] at hd
      rw [Except.ok.inj hd]
      exact .inl rfl
    · exact .inr ⟨done, d, hdone, hd, rfl⟩
  · rintro (rfl | ⟨done, d, hdone, hd, rfl⟩)
    · exact ⟨_, c', List.prefix_refl _, h, rfl⟩
    · exact ⟨done, d, hdone.trans (List.prefix_append _ _), hd, rfl⟩

/-- Calls from a state whose minimum is what is free there; the induction is on the last call. -/
theorem isLeast_minimum (hI : ClientInv xStart regions free allocated c) (hfuel : 2 ^ 29 ≤ fuel)
    (hmin : c.heap.xMinimumEverFreeBytesRemaining = c.heap.xFreeBytesRemaining) (calls : List HeapCall)
    (hcalls : HeapCall.resetMinimum ∉ calls) :
    ∃ c' free' allocated', calls.foldlM (clientStep xStart fuel) c = .ok c' ∧
      ClientInv xStart regions free' allocated' c' ∧
      IsLeast (freeAfter xStart fuel c calls) (xPortGetMinimumEverFreeHeapSize c'.heap).toNat := by
  induction calls using List.reverseRecOn with
  | nil =>
    refine ⟨c, free, allocated, rfl, hI, ⟨[], c, List.prefix_refl _, rfl, ?_⟩, ?_⟩
    · unfold xPortGetMinimumEverFreeHeapSize xPortGetFreeHeapSize
      rw [hmin]
    · rintro n ⟨done, d, hdone, hd, rfl⟩
      obtain rfl := List.prefix_nil.1 hdone
      obtain rfl : c = d := Except.ok.inj hd
      unfold xPortGetMinimumEverFreeHeapSize xPortGetFreeHeapSize
      rw [hmin]
  | append_singleton calls call ih =>
    rw [List.mem_append, not_or, List.mem_singleton] at hcalls
    obtain ⟨c₁, free₁, allocated₁, hrun₁, hI₁, hleast⟩ := ih hcalls.1
    obtain ⟨c', free', allocated', hstep, hI', hafter⟩ := clientStep_ok hI₁ hfuel call
    have hrun := Runs.foldlM_concat hrun₁ hstep
    refine ⟨c', free', allocated', hrun, hI', ?_⟩
    rw [freeAfter_concat hrun]
    have hmin' := minimumAfter_of_ne hafter (Ne.symm hcalls.2)
    have hinsert := hleast.insert (xPortGetFreeHeapSize c'.heap).toNat
    rw [min_comm] at hinsert
    unfold xPortGetMinimumEverFreeHeapSize xPortGetFreeHeapSize at hinsert ⊢
    rw [hmin']
    exact hinsert

/-- `xPortGetMinimumEverFreeHeapSize` is the least number of free bytes after any call since the heap was set up or
the minimum was reset. -/
theorem heapRun_minimum (hok : RegionsOk xStart rs) (hfuel : 2 ^ 29 ≤ fuel) (p : UInt32) (rest : List HeapRegion)
    (mem : Memory) (earlier calls : List HeapCall) (hcalls : HeapCall.resetMinimum ∉ calls) :
    (∃ c₀ c, heapRun xStart fuel (rs ++ ⟨p, 0⟩ :: rest) mem [] = .ok c₀ ∧
      heapRun xStart fuel (rs ++ ⟨p, 0⟩ :: rest) mem calls = .ok c ∧
      IsLeast (freeAfter xStart fuel c₀ calls) (xPortGetMinimumEverFreeHeapSize c.heap).toNat) ∧
    ∃ c₀ c, heapRun xStart fuel (rs ++ ⟨p, 0⟩ :: rest) mem (earlier ++ [.resetMinimum]) = .ok c₀ ∧
      heapRun xStart fuel (rs ++ ⟨p, 0⟩ :: rest) mem (earlier ++ [.resetMinimum] ++ calls) = .ok c ∧
      IsLeast (freeAfter xStart fuel c₀ calls) (xPortGetMinimumEverFreeHeapSize c.heap).toNat := by
  obtain ⟨c₀, free₀, hrun, hI₀, hmin₀⟩ := heapRun_eq hok fuel p rest mem
  constructor
  · obtain ⟨c, -, -, hc, -, hleast⟩ := isLeast_minimum hI₀ hfuel hmin₀ calls hcalls
    exact ⟨c₀, c, hrun [], by rw [hrun]; exact hc, hleast⟩
  · obtain ⟨c₁, free₁, allocated₁, hrun₁, hI₁⟩ := heapRun_ok hok hfuel p rest mem earlier
    obtain ⟨c₂, free₂, allocated₂, hstep, hI₂, hmin₂⟩ := clientStep_ok hI₁ hfuel .resetMinimum
    obtain ⟨c, -, -, hc, -, hleast⟩ := isLeast_minimum hI₂ hfuel hmin₂ calls hcalls
    have hrun₂ : heapRun xStart fuel (rs ++ ⟨p, 0⟩ :: rest) mem (earlier ++ [.resetMinimum]) = .ok c₂ := by
      rw [hrun] at hrun₁ ⊢
      exact Runs.foldlM_concat hrun₁ hstep
    refine ⟨c₂, c, hrun₂, ?_, hleast⟩
    rw [hrun] at hrun₂ ⊢
    rw [List.foldlM_append, hrun₂]
    exact hc

theorem heapRun_minimum_freertosHeap :
    (∃ c₀ c, heapRun 0x20003000 (2 ^ 29) (heapRegions 0x20000000) (fun _ => 0) [] = .ok c₀ ∧
      heapRun 0x20003000 (2 ^ 29) (heapRegions 0x20000000) (fun _ => 0) [.malloc 100, .free 0] = .ok c ∧
      IsLeast (freeAfter 0x20003000 (2 ^ 29) c₀ [.malloc 100, .free 0])
        (xPortGetMinimumEverFreeHeapSize c.heap).toNat) ∧
    ∃ c₀ c, heapRun 0x20003000 (2 ^ 29) (heapRegions 0x20000000) (fun _ => 0) ([.malloc 8] ++ [.resetMinimum]) = .ok c₀ ∧
      heapRun 0x20003000 (2 ^ 29) (heapRegions 0x20000000) (fun _ => 0)
        ([.malloc 8] ++ [.resetMinimum] ++ [.malloc 100, .free 0]) = .ok c ∧
      IsLeast (freeAfter 0x20003000 (2 ^ 29) c₀ [.malloc 100, .free 0])
        (xPortGetMinimumEverFreeHeapSize c.heap).toNat :=
  heapRun_minimum regionsOk_at_0x20000000 (le_refl _) 0 [] _ [.malloc 8] [.malloc 100, .free 0] (by simp)

/-- What the application wrote into a block, or `pvPortCalloc` set to zero, is still there after any calls. -/
theorem heapRun_contents (hok : RegionsOk xStart rs) (hfuel : 2 ^ 29 ≤ fuel) (p : UInt32) (rest : List HeapRegion)
    (mem : Memory) (calls : List HeapCall) :
    ∃ c, heapRun xStart fuel (rs ++ ⟨p, 0⟩ :: rest) mem calls = .ok c ∧
      ∀ a ∈ c.live, ∀ k v, k < a.size.toNat → a.contents k = some v → c.heap.mem (a.pv.toNat + k) = v := by
  obtain ⟨c, free, allocated, hrun, hI⟩ := heapRun_ok hok hfuel p rest mem calls
  refine ⟨c, hrun, fun a ha => ?_⟩
  obtain ⟨b, -, h⟩ := (forall₂_exists hI.holds).1 a ha
  exact h.contents

theorem heapRun_contents_freertosHeap :
    ∃ c, heapRun 0x20003000 (2 ^ 29) (heapRegions 0x20000000) (fun _ => 0)
        [.malloc 100, .write 0 3 0x5A, .calloc 3 7, .free 0] = .ok c ∧
      ∀ a ∈ c.live, ∀ k v, k < a.size.toNat → a.contents k = some v → c.heap.mem (a.pv.toNat + k) = v :=
  heapRun_contents regionsOk_at_0x20000000 (le_refl _) 0 [] _ _

end LcdKeypad
