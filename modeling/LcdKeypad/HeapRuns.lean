import LcdKeypad.General.Runs
import LcdKeypad.HeapRegions
import Mathlib.Data.List.Forall2

/-!
# Runs of the heap

An application that allocates, frees what it holds and writes into its blocks, in any order.
-/

namespace LcdKeypad

open ByteMemory Extents

/-- A block the application holds: the pointer it got, the bytes it asked for, and the bytes it knows. -/
structure Allocation where
  pv : UInt32
  size : UInt32
  contents : ℕ → Option UInt8

structure Client where
  heap : Heap
  live : List Allocation

inductive HeapCall
  | malloc (xWantedSize : UInt32)
  | calloc (xNum xSize : UInt32)
  /-- `vPortFree` of the block at this place in the list of those held, of `NULL` if there is none. -/
  | free (i : ℕ)
  /-- The application writes a byte of one of its blocks. -/
  | write (i offset : ℕ) (byte : UInt8)
  | resetMinimum

variable (xStart : UInt32) (fuel : ℕ)

/-- The block of a successful request is one more that is held. -/
def Client.receive (c : Client) (h : Heap) (a : Allocation) : Client :=
  { heap := h, live := if a.pv ≠ 0 then a :: c.live else c.live }

def clientStep (c : Client) : HeapCall → Except KernelStop Client
  | .malloc n => do
    let (h, pv) ← pvPortMalloc xStart fuel n c.heap
    return c.receive h ⟨pv, n, fun _ => none⟩
  | .calloc xNum xSize => do
    let (h, pv) ← pvPortCalloc xStart fuel xNum xSize c.heap
    return c.receive h ⟨pv, xNum * xSize, fun _ => some 0⟩
  | .free i => do
    let h ← vPortFree xStart fuel ((c.live[i]?.map Allocation.pv).getD 0) c.heap
    return { heap := h, live := c.live.eraseIdx i }
  | .write i offset byte =>
    match c.live[i]? with
    | some a =>
      if offset < a.size.toNat then
        .ok {
          heap := { c.heap with mem := fill c.heap.mem (a.pv.toNat + offset) 1 byte }
          live := c.live.set i { a with contents := Function.update a.contents offset (some byte) } }
      else .ok c
    | none => .ok c
  | .resetMinimum => .ok { c with heap := xPortResetHeapMinimumEverFreeHeapSize c.heap }

/-- The heap is set up and the application runs. -/
def heapRun (pxHeapRegions : List HeapRegion) (mem : Memory) (calls : List HeapCall) : Except KernelStop Client := do
  let h ← vPortDefineHeapRegions xStart pxHeapRegions (.boot mem)
  calls.foldlM (clientStep xStart fuel) ⟨h, []⟩

/-! ### The invariant -/

/-- The block `b` is what the application holds as `a`. -/
structure Holds (mem : Memory) (a : Allocation) (b : Extent) : Prop where
  pv : a.pv = addr b + 8
  ge : blockBytes a.size ≤ b.size
  le : b.size ≤ blockBytes a.size + 16
  contents : ∀ k v, k < a.size.toNat → a.contents k = some v → mem (a.pv.toNat + k) = v

structure ClientInv (regions free allocated : List Extent) (c : Client) : Prop where
  heap : HeapInv xStart regions free allocated c.heap
  holds : List.Forall₂ (Holds c.heap.mem) c.live allocated
  minimum : c.heap.xMinimumEverFreeBytesRemaining ≤ c.heap.xFreeBytesRemaining
  count : c.heap.xNumberOfSuccessfulAllocations = c.heap.xNumberOfSuccessfulFrees + .ofNat c.live.length

namespace HeapInv

variable {xStart} {regions free allocated : List Extent} {h : Heap}

theorem eq_or_apart (hI : HeapInv xStart regions free allocated h) {b c : Extent} (hb : b ∈ allocated)
    (hc : c ∈ allocated) : b = c ∨ b.Apart 8 c := by
  have hpair := hI.allocated_apart
  clear hI
  induction allocated with
  | nil => cases hb
  | cons d l ih =>
    rw [List.pairwise_cons] at hpair
    rcases List.mem_cons.1 hb with rfl | hb' <;> rcases List.mem_cons.1 hc with rfl | hc'
    · exact .inl rfl
    · exact .inr (hpair.1 c hc')
    · exact .inr (hpair.1 b hb').symm
    · exact ih hb' hc' hpair.2

/-- Bytes of a block handed out may be written, its header apart. -/
theorem of_write (hI : HeapInv xStart regions free allocated h) {b : Extent} (hb : b ∈ allocated) {mem' : Memory}
    (hmem' : ∀ x, x < b.lo + 8 ∨ b.hi ≤ x → mem' x = h.mem x) :
    HeapInv xStart regions free allocated { h with mem := mem' } := by
  have hbsize := hI.allocated_size b hb
  have hbhi : b.hi = b.lo + b.size := rfl
  have hsame : ∀ p : UInt32, (∀ x ∈ b.cells, b.lo + 8 ≤ x → Outside p x) → SameHeader h.mem mem' p := by
    intro p hp
    refine sameHeader_of_bytes fun x hx hx' => hmem' x ?_
    by_contra hcon
    have := hp x ⟨by omega, by omega⟩ (by omega)
    unfold Outside at this
    omega
  have hstart := hsame xStart fun x hx _ => (hI.untouched_of_allocated hb hx).1
  have hend := hsame h.pxEnd fun x hx _ => by
    have h1 := (hI.allocated_placed hb).before_end.2
    have h2 : (header h.pxEnd).lo = h.pxEnd.toNat := rfl
    have h3 := hx.2
    unfold Outside
    omega
  have hfree : ∀ e ∈ free, SameHeader h.mem mem' (addr e) := fun e he =>
    hsame _ fun x hx _ => ((hI.untouched_of_allocated hb hx).2 e he).1
  have hallocated : ∀ c ∈ allocated, SameHeader h.mem mem' (addr c) := by
    intro c hc
    refine hsame _ fun x hx hx8 => ?_
    unfold Outside
    rw [addr_toNat (hI.allocated_lo_lt hc)]
    rcases hI.eq_or_apart hb hc with rfl | hap
    · omega
    · have := hx.2
      rcases hap with hap | hap
      · have := hap.2; omega
      · have := hap.1; omega
  exact { hI with
    linked := hI.linked.congr hstart.1 hfree
    start_size := hstart.2.trans hI.start_size
    end_link := hend.1.trans hI.end_link
    end_size := hend.2.trans hI.end_size
    headers := fun c hc => by
      obtain ⟨h₁, h₂⟩ := hallocated c hc
      exact ⟨h₂.trans (hI.headers c hc).1, h₁.trans (hI.headers c hc).2⟩ }

end HeapInv

/-- The smallest number of free bytes after a call. -/
def minimumAfter (c : Client) (call : HeapCall) (c' : Client) : Prop :=
  match call with
  | .resetMinimum => c'.heap.xMinimumEverFreeBytesRemaining = c'.heap.xFreeBytesRemaining
  | _ => c'.heap.xMinimumEverFreeBytesRemaining.toNat =
      min c.heap.xMinimumEverFreeBytesRemaining.toNat c'.heap.xFreeBytesRemaining.toNat

section Step

variable {xStart} {fuel} {regions free allocated : List Extent} {c : Client}

theorem forall₂_imp_of_mem {α β : Type*} {R S : α → β → Prop} {l : List α} {l' : List β} (h : List.Forall₂ R l l')
    (hRS : ∀ a b, b ∈ l' → R a b → S a b) : List.Forall₂ S l l' := by
  induction h with
  | nil => exact .nil
  | cons hab _ ih =>
    exact .cons (hRS _ _ List.mem_cons_self hab) (ih fun a b hb => hRS a b (List.mem_cons_of_mem _ hb))

/-- Both lists split at the place `i`. -/
theorem forall₂_split {α β : Type*} {R : α → β → Prop} {l : List α} {l' : List β} (h : List.Forall₂ R l l') {i : ℕ}
    {a : α} (ha : l[i]? = some a) :
    ∃ l₁ l₂ b l₁' l₂', l = l₁ ++ a :: l₂ ∧ l' = l₁' ++ b :: l₂' ∧ l₁.length = i ∧
      List.Forall₂ R l₁ l₁' ∧ R a b ∧ List.Forall₂ R l₂ l₂' := by
  induction h generalizing i with
  | nil => simp at ha
  | @cons x y l l' hxy hl ih =>
    cases i with
    | zero =>
      obtain rfl : x = a := by simpa using ha
      exact ⟨[], l, y, [], l', rfl, rfl, rfl, .nil, hxy, hl⟩
    | succ i =>
      obtain ⟨l₁, l₂, b, l₁', l₂', rfl, rfl, rfl, h₁, hab, h₂⟩ := ih (by simpa using ha)
      exact ⟨x :: l₁, l₂, b, y :: l₁', l₂', rfl, rfl, rfl, .cons hxy h₁, hab, h₂⟩

/-- What the application knows of a block is in its payload. -/
theorem Holds.mem_cells {mem : Memory} {a : Allocation} {b : Extent} (h : Holds mem a b)
    (hpv : (addr b + 8).toNat = b.lo + 8) {k : ℕ} (hk : k < a.size.toNat) :
    a.pv.toNat + k ∈ b.cells ∧ b.lo + 8 ≤ a.pv.toNat + k := by
  have h1 := h.ge
  have h2 := HeapInv.le_blockBytes a.size
  have h3 : b.hi = b.lo + b.size := rfl
  rw [h.pv, hpv, Extent.mem_cells]
  omega

theorem Holds.congr {mem mem' : Memory} {a : Allocation} {b : Extent} (h : Holds mem a b)
    (hpv : (addr b + 8).toNat = b.lo + 8) (hmem : ∀ x ∈ b.cells, b.lo + 8 ≤ x → mem' x = mem x) : Holds mem' a b where
  pv := h.pv
  ge := h.ge
  le := h.le
  contents := fun k v hk hv => by
    obtain ⟨h1, h2⟩ := h.mem_cells hpv hk
    rw [hmem _ h1 h2]
    exact h.contents k v hk hv

theorem ClientInv.forall₂_congr (hI : ClientInv xStart regions free allocated c) {mem' : Memory}
    (hmem : ∀ b ∈ allocated, ∀ x ∈ b.cells, b.lo + 8 ≤ x → mem' x = c.heap.mem x) :
    List.Forall₂ (Holds mem') c.live allocated :=
  forall₂_imp_of_mem hI.holds fun _ b hb h => h.congr (hI.heap.pv_toNat hb) (hmem b hb)

/-- A request, as `pvPortMalloc` answers it: either nothing changes, or one more block is held. -/
theorem ClientInv.malloc (hI : ClientInv xStart regions free allocated c) (hfuel : 2 ^ 29 ≤ fuel) (n : UInt32) :
    pvPortMalloc xStart fuel n c.heap = .ok (c.heap, 0) ∨
      ∃ h' b free', pvPortMalloc xStart fuel n c.heap = .ok (h', addr b + 8) ∧ addr b + 8 ≠ 0 ∧
        HeapInv xStart regions free' (b :: allocated) h' ∧ List.Forall₂ (Holds h'.mem) c.live allocated ∧
        blockBytes n ≤ b.size ∧ b.size ≤ blockBytes n + 16 ∧
        h'.xMinimumEverFreeBytesRemaining.toNat =
          min c.heap.xMinimumEverFreeBytesRemaining.toNat h'.xFreeBytesRemaining.toNat ∧
        h'.xNumberOfSuccessfulAllocations = h'.xNumberOfSuccessfulFrees + .ofNat (c.live.length + 1) := by
  have hlen := lt_of_lt_of_le hI.heap.length_lt hfuel
  by_cases hnone : n = 0 ∨ allocate (blockBytes n) 16 free = none
  · exact .inl (hI.heap.pvPortMalloc_eq_null hlen hnone)
  · right
    rw [not_or] at hnone
    obtain ⟨⟨b, free'⟩, hall⟩ := Option.ne_none_iff_exists'.1 hnone.2
    obtain ⟨h', hmalloc, hI', hframe, hh'⟩ := hI.heap.pvPortMalloc_eq_some hlen hnone.1 hall
    obtain ⟨e, he, hne, hb⟩ := exists_of_allocate hall
    refine ⟨h', b, free', hmalloc, ?_, hI', ?_, ?_, ?_, ?_, ?_⟩
    · intro h0
      have h1 := hI'.pv_toNat List.mem_cons_self
      rw [h0] at h1
      have h2 : UInt32.toNat 0 = 0 := rfl
      omega
    · exact hI.forall₂_congr fun d hd x hx _ => hframe x (hI.heap.untouched_of_allocated hd hx)
    · rw [hb]; exact le_cut_size hne
    · rw [hb]; exact cut_size_le e
    · rw [hh']
      dsimp only
      split
      · next hlt => rw [UInt32.lt_iff_toNat_lt] at hlt; omega
      · next hlt => rw [UInt32.lt_iff_toNat_lt] at hlt; omega
    · rw [hh']
      dsimp only
      rw [hI.count, UInt32.ofNat_add, UInt32.add_assoc]
      rfl

/-- A block more that the application holds. -/
theorem ClientInv.receive {h' : Heap} {b : Extent} {free' : List Extent} {a : Allocation} (hpv : addr b + 8 ≠ 0)
    (hI' : HeapInv xStart regions free' (b :: allocated) h') (hlive : List.Forall₂ (Holds h'.mem) c.live allocated)
    (hmin : h'.xMinimumEverFreeBytesRemaining ≤ h'.xFreeBytesRemaining)
    (hcount : h'.xNumberOfSuccessfulAllocations = h'.xNumberOfSuccessfulFrees + .ofNat (c.live.length + 1))
    (ha : Holds h'.mem a b) :
    ClientInv xStart regions free' (b :: allocated) (c.receive h' a) := by
  have hne : a.pv ≠ 0 := by rw [ha.pv]; exact hpv
  have hc : c.receive h' a = ⟨h', a :: c.live⟩ := by unfold Client.receive; rw [if_pos hne]
  rw [hc]
  exact ⟨hI', .cons ha hlive, hmin, hcount⟩

theorem Client.receive_null (n : UInt32) (contents : ℕ → Option UInt8) :
    c.receive c.heap ⟨0, n, contents⟩ = c := by
  unfold Client.receive
  rw [if_neg (by simp)]

theorem minimum_le {h h' : Heap} (hmin : h'.xMinimumEverFreeBytesRemaining.toNat =
    min h.xMinimumEverFreeBytesRemaining.toNat h'.xFreeBytesRemaining.toNat) :
    h'.xMinimumEverFreeBytesRemaining ≤ h'.xFreeBytesRemaining := by
  rw [UInt32.le_iff_toNat_le]
  omega

theorem ClientInv.minimum_eq (hI : ClientInv xStart regions free allocated c) :
    c.heap.xMinimumEverFreeBytesRemaining.toNat =
      min c.heap.xMinimumEverFreeBytesRemaining.toNat c.heap.xFreeBytesRemaining.toNat := by
  have := hI.minimum
  rw [UInt32.le_iff_toNat_le] at this
  omega

/-- What a call does from a good state: it returns, and leaves a good state. -/
def StepOk (xStart : UInt32) (fuel : ℕ) (regions : List Extent) (c : Client) (call : HeapCall) : Prop :=
  ∃ c' free' allocated', clientStep xStart fuel c call = .ok c' ∧ ClientInv xStart regions free' allocated' c' ∧
    minimumAfter c call c'

theorem clientStep_malloc (hI : ClientInv xStart regions free allocated c) (hfuel : 2 ^ 29 ≤ fuel) (n : UInt32) :
    StepOk xStart fuel regions c (.malloc n) := by
  rcases hI.malloc hfuel n with hnull | ⟨h', b, free', hok, hpv, hI', hlive, hge, hle, hmin, hcount⟩
  · refine ⟨c, free, allocated, ?_, hI, hI.minimum_eq⟩
    dsimp only [clientStep]
    rw [hnull]
    exact congrArg Except.ok (Client.receive_null n _)
  · refine ⟨c.receive h' ⟨addr b + 8, n, fun _ => none⟩, free', b :: allocated, ?_, ?_, hmin⟩
    · dsimp only [clientStep]
      rw [hok]
      rfl
    · exact ClientInv.receive hpv hI' hlive (minimum_le hmin) hcount ⟨rfl, hge, hle, by simp⟩

theorem clientStep_calloc (hI : ClientInv xStart regions free allocated c) (hfuel : 2 ^ 29 ≤ fuel)
    (xNum xSize : UInt32) : StepOk xStart fuel regions c (.calloc xNum xSize) := by
  by_cases hover : heapMultiplyWillOverflow xNum xSize
  · refine ⟨c, free, allocated, ?_, hI, hI.minimum_eq⟩
    dsimp only [clientStep]
    unfold pvPortCalloc
    rw [if_neg (not_not.2 hover)]
    exact congrArg Except.ok (Client.receive_null _ _)
  rcases hI.malloc hfuel (xNum * xSize) with hnull | ⟨h', b, free', hok, hpv, hI', hlive, hge, hle, hmin, hcount⟩
  · refine ⟨c, free, allocated, ?_, hI, hI.minimum_eq⟩
    dsimp only [clientStep]
    unfold pvPortCalloc
    rw [if_pos hover, hnull]
    exact congrArg Except.ok (Client.receive_null _ _)
  · -- the zeros lie in the payload of the new block
    have hlo := hI'.pv_toNat List.mem_cons_self
    have hfit := HeapInv.le_blockBytes (xNum * xSize)
    have hbhi : b.hi = b.lo + b.size := rfl
    obtain ⟨mem', hmem'⟩ : ∃ m, m = fill h'.mem (addr b + 8).toNat (xNum * xSize).toNat 0 := ⟨_, rfl⟩
    have hframe : ∀ x, x < b.lo + 8 ∨ b.hi ≤ x → mem' x = h'.mem x := by
      intro x hx
      rw [hmem', fill_of_not_mem]
      omega
    have hother : ∀ d ∈ allocated, ∀ x ∈ d.cells, mem' x = h'.mem x := by
      intro d hd x hx
      have hap := (List.pairwise_cons.1 hI'.allocated_apart).1 d hd
      have hx' := Extent.mem_cells.1 hx
      refine hframe x ?_
      rcases hap with hap | hap
      · have := hap.2; omega
      · have := hap.2; omega
    refine ⟨c.receive { h' with mem := mem' } ⟨addr b + 8, xNum * xSize, fun _ => some 0⟩, free', b :: allocated,
      ?_, ?_, hmin⟩
    · dsimp only [clientStep]
      unfold pvPortCalloc
      rw [if_pos hover, hok]
      dsimp only [bind, Except.bind]
      rw [if_pos hpv, ← hmem']
      rfl
    · refine ClientInv.receive hpv (hI'.of_write List.mem_cons_self hframe) ?_ (minimum_le hmin) hcount ⟨rfl, hge, hle, ?_⟩
      · exact forall₂_imp_of_mem hlive fun _ d hd h =>
          h.congr (hI'.pv_toNat (List.mem_cons_of_mem b hd)) fun x hx _ => hother d hd x hx
      · intro k v hk hv
        dsimp only at hk hv ⊢
        rw [hmem', fill_of_mem 0 (by omega) (by omega)]
        exact Option.some.inj hv

theorem clientStep_free (hI : ClientInv xStart regions free allocated c) (hfuel : 2 ^ 29 ≤ fuel) (i : ℕ) :
    StepOk xStart fuel regions c (.free i) := by
  cases ha : c.live[i]? with
  | none =>
    refine ⟨c, free, allocated, ?_, hI, hI.minimum_eq⟩
    dsimp only [clientStep]
    unfold vPortFree
    rw [ha]
    dsimp only [Option.map_none, Option.getD_none]
    rw [if_neg (by simp), List.eraseIdx_of_length_le (List.getElem?_eq_none_iff.1 ha)]
    rfl
  | some a =>
    obtain ⟨l₁, l₂, b, l₁', l₂', hlive, hal, hlen, h₁, hab, h₂⟩ := forall₂_split hI.holds ha
    have hb : b ∈ allocated := by rw [hal]; simp
    obtain ⟨h', hfree, hI', hframe, hh'⟩ := hI.heap.vPortFree_eq (lt_of_lt_of_le hI.heap.length_lt hfuel) hal
    have hsame : ∀ d ∈ l₁' ++ l₂', ∀ x ∈ d.cells, b.Apart 8 d → h'.mem x = c.heap.mem x := by
      intro d hd x hx hap
      have hdmem : d ∈ allocated := by rw [hal]; simp at hd ⊢; tauto
      obtain ⟨hs, hu⟩ := hI.heap.untouched_of_allocated hdmem hx
      refine hframe x hs fun e he => ?_
      rcases List.mem_cons.1 he with rfl | he
      · have hx' := Extent.mem_cells.1 hx
        have hsize := hI.heap.allocated_size e hb
        have hehi : e.hi = e.lo + e.size := rfl
        unfold Outside
        rw [addr_toNat (hI.heap.allocated_lo_lt hb)]
        rcases hap with hap | hap
        · have := hap.2; omega
        · have := hap.2; omega
      · exact (hu e he).1
    have hpair := hI.heap.allocated_apart
    rw [hal, List.pairwise_append, List.pairwise_cons] at hpair
    have hkeep : ∀ d ∈ l₁' ++ l₂', ∀ a', Holds c.heap.mem a' d → Holds h'.mem a' d := by
      intro d hd a' h
      have hdmem : d ∈ allocated := by rw [hal]; simp at hd ⊢; tauto
      have hap : b.Apart 8 d := by
        rcases List.mem_append.1 hd with hd | hd
        · exact (hpair.2.2 d hd b List.mem_cons_self).symm
        · exact hpair.2.1.1 d hd
      exact h.congr (hI.heap.pv_toNat hdmem) fun x hx _ => hsame d hd x hx hap
    -- the free bytes become more, so that the minimum stays
    have hmin : h'.xMinimumEverFreeBytesRemaining.toNat =
        min c.heap.xMinimumEverFreeBytesRemaining.toNat h'.xFreeBytesRemaining.toNat := by
      have hmin := hI.minimum
      rw [UInt32.le_iff_toNat_le, hI.heap.free_bytes_toNat] at hmin
      rw [hI'.free_bytes_toNat, total_release, hh']
      dsimp only
      omega
    refine ⟨⟨h', l₁ ++ l₂⟩, release b free, l₁' ++ l₂', ?_, ⟨hI', ?_, minimum_le hmin, ?_⟩, hmin⟩
    · dsimp only [clientStep]
      rw [ha]
      dsimp only [Option.map_some, Option.getD_some]
      rw [hab.pv, hfree, hlive, ← hlen, List.eraseIdx_append_of_length_le (le_refl _)]
      simp
    · refine List.rel_append ?_ ?_
      · exact forall₂_imp_of_mem h₁ fun a' d hd h => hkeep d (List.mem_append_left _ hd) a' h
      · exact forall₂_imp_of_mem h₂ fun a' d hd h => hkeep d (List.mem_append_right _ hd) a' h
    · have hcount := hI.count
      have hlength : c.live.length = (l₁ ++ l₂).length + 1 := by rw [hlive]; simp; omega
      rw [hlength, UInt32.ofNat_add] at hcount
      rw [hh']
      dsimp only
      rw [hcount]
      have h1 : UInt32.ofNat 1 = 1 := rfl
      rw [h1]
      grind

theorem clientStep_write (hI : ClientInv xStart regions free allocated c) (i offset : ℕ) (byte : UInt8) :
    StepOk xStart fuel regions c (.write i offset byte) := by
  have hstay : ∀ c', clientStep xStart fuel c (.write i offset byte) = .ok c' → c' = c →
      StepOk xStart fuel regions c (.write i offset byte) := by
    rintro c' hok rfl
    exact ⟨c', free, allocated, hok, hI, hI.minimum_eq⟩
  cases ha : c.live[i]? with
  | none => exact hstay c (by dsimp only [clientStep]; rw [ha]) rfl
  | some a =>
    by_cases hoff : offset < a.size.toNat
    swap
    · exact hstay c (by dsimp only [clientStep]; rw [ha]; dsimp only; rw [if_neg hoff]) rfl
    obtain ⟨l₁, l₂, b, l₁', l₂', hlive, hal, hlen, h₁, hab, h₂⟩ := forall₂_split hI.holds ha
    have hb : b ∈ allocated := by rw [hal]; simp
    have hpv := hI.heap.pv_toNat hb
    obtain ⟨hin, hge⟩ := hab.mem_cells hpv hoff
    rw [Extent.mem_cells] at hin
    obtain ⟨mem', hmem'⟩ : ∃ m, m = fill c.heap.mem (a.pv.toNat + offset) 1 byte := ⟨_, rfl⟩
    have hframe : ∀ x, x ≠ a.pv.toNat + offset → mem' x = c.heap.mem x := by
      intro x hx
      rw [hmem', fill_of_not_mem]
      omega
    have hpair := hI.heap.allocated_apart
    rw [hal, List.pairwise_append, List.pairwise_cons] at hpair
    have hkeep : ∀ d ∈ l₁' ++ l₂', ∀ a', Holds c.heap.mem a' d → Holds mem' a' d := by
      intro d hd a' h
      have hdmem : d ∈ allocated := by rw [hal]; simp at hd ⊢; tauto
      have hap : b.Apart 8 d := by
        rcases List.mem_append.1 hd with hd | hd
        · exact (hpair.2.2 d hd b List.mem_cons_self).symm
        · exact hpair.2.1.1 d hd
      refine h.congr (hI.heap.pv_toNat hdmem) fun x hx _ => hframe x ?_
      have hx' := Extent.mem_cells.1 hx
      rcases hap with hap | hap
      · have := hap.2; omega
      · have := hap.2; omega
    refine ⟨⟨{ c.heap with mem := mem' },
        l₁ ++ { a with contents := Function.update a.contents offset (some byte) } :: l₂⟩, free, allocated,
      ?_, ⟨?_, ?_, hI.minimum, ?_⟩, hI.minimum_eq⟩
    · dsimp only [clientStep]
      rw [ha]
      dsimp only
      rw [if_pos hoff, ← hmem', hlive, ← hlen]
      simp
    · exact hI.heap.of_write hb fun x hx => hframe x (by omega)
    · rw [hal]
      refine List.rel_append ?_ (.cons ⟨hab.pv, hab.ge, hab.le, ?_⟩ ?_)
      · exact forall₂_imp_of_mem h₁ fun a' d hd h => hkeep d (List.mem_append_left _ hd) a' h
      · intro k v hk hv
        dsimp only at hk hv ⊢
        by_cases hko : k = offset
        · subst hko
          rw [Function.update_self] at hv
          rw [hmem', fill_of_mem byte (le_refl _) (by omega)]
          exact Option.some.inj hv
        · rw [Function.update_of_ne hko] at hv
          rw [hframe _ (by omega)]
          exact hab.contents k v hk hv
      · exact forall₂_imp_of_mem h₂ fun a' d hd h => hkeep d (List.mem_append_right _ hd) a' h
    · rw [hI.count, hlive, List.length_append, List.length_append, List.length_cons, List.length_cons]

theorem clientStep_resetMinimum (hI : ClientInv xStart regions free allocated c) :
    StepOk xStart fuel regions c .resetMinimum := by
  have hheap : HeapInv xStart regions free allocated (xPortResetHeapMinimumEverFreeHeapSize c.heap) := by
    unfold xPortResetHeapMinimumEverFreeHeapSize
    exact { hI.heap with }
  exact ⟨_, free, allocated, rfl, ⟨hheap, hI.holds, UInt32.le_refl _, hI.count⟩, rfl⟩

theorem clientStep_ok (hI : ClientInv xStart regions free allocated c) (hfuel : 2 ^ 29 ≤ fuel) (call : HeapCall) :
    StepOk xStart fuel regions c call := by
  cases call with
  | malloc n => exact clientStep_malloc hI hfuel n
  | calloc xNum xSize => exact clientStep_calloc hI hfuel xNum xSize
  | free i => exact clientStep_free hI hfuel i
  | write i offset byte => exact clientStep_write hI i offset byte
  | resetMinimum => exact clientStep_resetMinimum hI

end Step

end LcdKeypad
