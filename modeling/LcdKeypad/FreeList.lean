import LcdKeypad.General.Extents
import LcdKeypad.Heap5

/-!
# The free list in memory

`Linked mem p l q` reads the list `l` of extents off the memory: the link in the header at `p` leads to the first
of them, the headers of the others follow one another, and the last link is `q`.  Along such a list the loops of
`heap_5.c` reach the place they look for (`insertPosition_eq`, `findBlock_eq`), and inserting a block links the
list that `Extents.release` gives (`linked_insertAfter`).
-/

namespace LcdKeypad

open ByteMemory Extents

/-! ### Headers -/

/-- The headers at `p` and at `q` do not overlap. -/
def Clear (p q : UInt32) : Prop := p.toNat + 8 ≤ q.toNat ∨ q.toNat + 8 ≤ p.toNat

theorem Clear.symm {p q : UInt32} (h : Clear p q) : Clear q p := Or.symm h

theorem Clear.ne {p q : UInt32} (h : Clear p q) : p ≠ q := by
  rintro rfl
  unfold Clear at h
  omega

/-- The byte `a` is not one of the header at `p`. -/
def Outside (p : UInt32) (a : ℕ) : Prop := a < p.toNat ∨ p.toNat + 8 ≤ a

/-- The header at `p` is the same in both memories. -/
def SameHeader (mem mem' : Memory) (p : UInt32) : Prop :=
  pxNextFreeBlock mem' p = pxNextFreeBlock mem p ∧ xBlockSize mem' p = xBlockSize mem p

theorem sameHeader_of_bytes {mem mem' : Memory} {p : UInt32}
    (h : ∀ a, p.toNat ≤ a → a < p.toNat + 8 → mem' a = mem a) : SameHeader mem mem' p := by
  unfold SameHeader pxNextFreeBlock xBlockSize
  rw [load_congr fun a ha ha' => h a ha (by omega), load_congr fun a ha ha' => h a (by omega) (by omega)]
  exact ⟨rfl, rfl⟩

/-- A change within one header leaves the headers that do not overlap it. -/
theorem sameHeader_of_clear {mem mem' : Memory} {p q : UInt32} (h : Clear p q)
    (hm : ∀ a, Outside p a → mem' a = mem a) : SameHeader mem mem' q := by
  refine sameHeader_of_bytes fun a ha ha' => hm a ?_
  unfold Clear at h
  unfold Outside
  omega

section Access

variable (mem : Memory) (p v : UInt32)

@[simp] theorem pxNextFreeBlock_setNextFreeBlock : pxNextFreeBlock (setNextFreeBlock mem p v) p = v := by
  unfold pxNextFreeBlock setNextFreeBlock
  rw [load_store, Nat.mod_eq_of_lt (by simpa using v.toNat_lt), UInt32.ofNat_toNat]

@[simp] theorem xBlockSize_setBlockSize : xBlockSize (setBlockSize mem p v) p = v := by
  unfold xBlockSize setBlockSize
  rw [load_store, Nat.mod_eq_of_lt (by simpa using v.toNat_lt), UInt32.ofNat_toNat]

@[simp] theorem pxNextFreeBlock_setBlockSize : pxNextFreeBlock (setBlockSize mem p v) p = pxNextFreeBlock mem p := by
  unfold pxNextFreeBlock setBlockSize
  rw [load_store_of_disjoint mem _ (.inl (le_refl _))]

@[simp] theorem xBlockSize_setNextFreeBlock : xBlockSize (setNextFreeBlock mem p v) p = xBlockSize mem p := by
  unfold xBlockSize setNextFreeBlock
  rw [load_store_of_disjoint mem _ (.inr (le_refl _))]

variable {p} {a : ℕ}

theorem setNextFreeBlock_of_outside (h : Outside p a) : setNextFreeBlock mem p v a = mem a := by
  rcases h with h | h
  · exact store_of_lt h
  · exact store_of_le (by omega)

theorem setBlockSize_of_outside (h : Outside p a) : setBlockSize mem p v a = mem a := by
  rcases h with h | h
  · exact store_of_lt (by omega)
  · exact store_of_le (by omega)

variable {q : UInt32}

theorem sameHeader_setNextFreeBlock (h : Clear p q) : SameHeader mem (setNextFreeBlock mem p v) q :=
  sameHeader_of_clear h fun _ => setNextFreeBlock_of_outside mem v

theorem sameHeader_setBlockSize (h : Clear p q) : SameHeader mem (setBlockSize mem p v) q :=
  sameHeader_of_clear h fun _ => setBlockSize_of_outside mem v

end Access

/-! ### Lists of extents in memory -/

/-- Where the header of a block is. -/
def addr (e : Extent) : UInt32 := .ofNat e.lo

theorem addr_toNat {e : Extent} (h : e.lo < 2 ^ 32) : (addr e).toNat = e.lo := UInt32.toNat_ofNat_of_lt' h

theorem clear_addr {e f : Extent} (h : e.Apart 8 f) (he : e.lo < 2 ^ 32) (hf : f.lo < 2 ^ 32) :
    Clear (addr e) (addr f) := by
  unfold Clear
  rw [addr_toNat he, addr_toNat hf]
  rcases h with h | h
  · exact .inl h.1
  · exact .inr h.1

def Linked (mem : Memory) : UInt32 → List Extent → UInt32 → Prop
  | p, [], q => pxNextFreeBlock mem p = q
  | p, e :: l, q =>
    pxNextFreeBlock mem p = addr e ∧ xBlockSize mem (addr e) = .ofNat e.size ∧ Linked mem (addr e) l q

/-- The header of the last block of a list. -/
def lastBlock : UInt32 → List Extent → UInt32
  | p, [] => p
  | _, e :: l => lastBlock (addr e) l

@[simp] theorem lastBlock_append (p : UInt32) (l l' : List Extent) :
    lastBlock p (l ++ l') = lastBlock (lastBlock p l) l' := by
  induction l generalizing p with
  | nil => rfl
  | cons e l ih => exact ih (addr e)

theorem lastBlock_eq_or_mem (p : UInt32) (l : List Extent) : lastBlock p l = p ∨ ∃ e ∈ l, lastBlock p l = addr e := by
  induction l generalizing p with
  | nil => exact .inl rfl
  | cons e l ih =>
    rcases ih (addr e) with h | ⟨f, hf, h⟩
    · exact .inr ⟨e, List.mem_cons_self, h⟩
    · exact .inr ⟨f, List.mem_cons_of_mem _ hf, h⟩

variable {mem mem' : Memory} {p q : UInt32}

theorem linked_append {l l' : List Extent} :
    Linked mem p (l ++ l') q ↔
      Linked mem p l (pxNextFreeBlock mem (lastBlock p l)) ∧ Linked mem (lastBlock p l) l' q := by
  induction l generalizing p with
  | nil => simp [Linked, lastBlock]
  | cons e l ih => simp only [List.cons_append, Linked, lastBlock, ih, and_assoc]

theorem linked_append_cons {l l' : List Extent} {e : Extent} :
    Linked mem p (l ++ e :: l') q ↔
      Linked mem p l (addr e) ∧ xBlockSize mem (addr e) = .ofNat e.size ∧ Linked mem (addr e) l' q := by
  induction l generalizing p with
  | nil => simp [Linked]
  | cons f l ih => simp only [List.cons_append, Linked, ih, and_assoc]

theorem Linked.last {l : List Extent} (h : Linked mem p l q) : pxNextFreeBlock mem (lastBlock p l) = q := by
  induction l generalizing p with
  | nil => exact h
  | cons e l ih => exact ih h.2.2

/-- The list is read from the headers of its blocks and from the link that leads to the first. -/
theorem Linked.congr {p' : UInt32} {l : List Extent} (h : Linked mem p l q)
    (hp : pxNextFreeBlock mem' p' = pxNextFreeBlock mem p)
    (hl : ∀ e ∈ l, SameHeader mem mem' (addr e)) : Linked mem' p' l q := by
  induction l generalizing p p' with
  | nil => exact hp.trans h
  | cons e l ih =>
    obtain ⟨hn, hs⟩ := hl e List.mem_cons_self
    exact ⟨hp.trans h.1, hs.trans h.2.1, ih h.2.2 hn fun f hf => hl f (List.mem_cons_of_mem _ hf)⟩

/-- The last link redirected. -/
theorem Linked.redirect {l : List Extent} {q' : UInt32} (h : Linked mem p l q)
    (hclear : (p :: l.map addr).Pairwise Clear)
    (hframe : ∀ r, Clear (lastBlock p l) r → SameHeader mem mem' r)
    (hsize : l ≠ [] → xBlockSize mem' (lastBlock p l) = xBlockSize mem (lastBlock p l))
    (hlast : pxNextFreeBlock mem' (lastBlock p l) = q') : Linked mem' p l q' := by
  rcases List.eq_nil_or_concat l with rfl | ⟨l, c, rfl⟩
  · exact hlast
  · rw [List.concat_eq_append] at *
    rw [lastBlock_append] at hframe hsize hlast
    obtain ⟨hl, hc, -⟩ := linked_append_cons.1 h
    rw [List.map_append, ← List.cons_append, List.pairwise_append] at hclear
    have hcr : ∀ r ∈ p :: l.map addr, Clear (addr c) r := fun r hr => (hclear.2.2 r hr _ (by simp)).symm
    refine linked_append_cons.2 ⟨hl.congr (hframe p (hcr p List.mem_cons_self)).1 fun e he => ?_,
      (hsize (by simp)).trans hc, hlast⟩
    exact hframe _ (hcr _ (List.mem_cons_of_mem _ (List.mem_map_of_mem he)))

/-! ### The loops -/

theorem insertPosition_eq {l : List Extent} {b : UInt32} (h : Linked mem p l q) (hl : ∀ e ∈ l, addr e < b)
    (hq : ¬ q < b) {fuel : ℕ} (hfuel : l.length < fuel) : insertPosition mem b fuel p = .ok (lastBlock p l) := by
  induction l generalizing p fuel with
  | nil =>
    obtain ⟨fuel, rfl⟩ := Nat.exists_eq_succ_of_ne_zero (Nat.ne_of_gt hfuel)
    obtain rfl : pxNextFreeBlock mem p = q := h
    rw [insertPosition, if_neg hq]
    rfl
  | cons e l ih =>
    obtain ⟨fuel, rfl⟩ := Nat.exists_eq_succ_of_ne_zero (Nat.ne_of_gt (Nat.zero_lt_of_lt hfuel))
    rw [insertPosition, h.1, if_pos (hl e List.mem_cons_self)]
    exact ih h.2.2 (fun f hf => hl f (List.mem_cons_of_mem _ hf)) (Nat.lt_of_succ_lt_succ hfuel)

theorem findBlock_eq {l : List Extent} {n : UInt32} (h : Linked mem p l q)
    (hl : ∀ e ∈ l, UInt32.ofNat e.size < n ∧ addr e ≠ 0) (hq0 : q ≠ 0)
    (hq : ¬ (xBlockSize mem q < n ∧ pxNextFreeBlock mem q ≠ 0)) {fuel : ℕ} (hfuel : l.length < fuel) :
    findBlock mem n fuel p (pxNextFreeBlock mem p) = .ok (lastBlock p l, q) := by
  induction l generalizing p fuel with
  | nil =>
    obtain ⟨fuel, rfl⟩ := Nat.exists_eq_succ_of_ne_zero (Nat.ne_of_gt hfuel)
    obtain rfl : pxNextFreeBlock mem p = q := h
    rw [findBlock, if_neg hq]
    rfl
  | cons e l ih =>
    obtain ⟨fuel, rfl⟩ := Nat.exists_eq_succ_of_ne_zero (Nat.ne_of_gt (Nat.zero_lt_of_lt hfuel))
    have hnext : pxNextFreeBlock mem (addr e) ≠ 0 := by
      cases l with
      | nil => rw [h.2.2]; exact hq0
      | cons f l => rw [h.2.2.1]; exact (hl f (by simp)).2
    rw [h.1, findBlock, h.2.1, if_pos ⟨(hl e List.mem_cons_self).1, hnext⟩]
    exact ih h.2.2 (fun f hf => hl f (List.mem_cons_of_mem _ hf)) (Nat.lt_of_succ_lt_succ hfuel)

/-! ### Inserting a block -/

theorem addr_add_eq_iff {e f : Extent} (he : e.hi < 2 ^ 32) (hf : f.lo < 2 ^ 32) :
    addr e + .ofNat e.size = addr f ↔ e.hi = f.lo := by
  have hsum : addr e + .ofNat e.size = .ofNat e.hi := (UInt32.ofNat_add e.lo e.size).symm
  rw [hsum, ← UInt32.toNat_inj, addr_toNat hf, UInt32.toNat_ofNat_of_lt' he]

theorem linkToNext_of_outside {pxEnd it x : UInt32} {a : ℕ} (h : Outside x a) :
    linkToNext pxEnd it x mem a = mem a := by
  unfold linkToNext
  split
  · split
    · rw [setNextFreeBlock_of_outside _ _ h, setBlockSize_of_outside _ _ h]
    · rw [setNextFreeBlock_of_outside _ _ h]
  · rw [setNextFreeBlock_of_outside _ _ h]

/-- The two outcomes of the second comparison, in front of a block `e`. -/
theorem linkToNext_eq {X e : Extent} {it pxEnd : UInt32} (hsize : xBlockSize mem (addr X) = .ofNat X.size)
    (hnext : pxNextFreeBlock mem it = addr e) (hesize : xBlockSize mem (addr e) = .ofNat e.size)
    (hit : it = addr X ∨ Clear (addr X) it) (hX : X.hi < 2 ^ 32) (he : e.lo < 2 ^ 32) (hXe : Clear (addr X) (addr e))
    (hne : addr e ≠ pxEnd) :
    linkToNext pxEnd it (addr X) mem =
      if X.hi = e.lo then
        setNextFreeBlock (setBlockSize mem (addr X) (.ofNat (X.join e).size)) (addr X) (pxNextFreeBlock mem (addr e))
      else setNextFreeBlock mem (addr X) (addr e) := by
  unfold linkToNext
  rw [hnext, hsize]
  by_cases hhi : X.hi = e.lo
  · rw [if_pos ((addr_add_eq_iff hX he).2 hhi), if_pos hne, if_pos hhi, hesize]
    have hsum : (UInt32.ofNat X.size + .ofNat e.size) = .ofNat (X.join e).size := (UInt32.ofNat_add _ _).symm
    have hnext' : pxNextFreeBlock (setBlockSize mem (addr X) (.ofNat (X.join e).size)) it = addr e := by
      rcases hit with rfl | hit
      · rw [pxNextFreeBlock_setBlockSize, hnext]
      · rw [(sameHeader_setBlockSize mem _ hit).1, hnext]
    dsimp only
    rw [hsum, hnext', (sameHeader_setBlockSize mem _ hXe).1]
  · rw [if_neg (fun h => hhi ((addr_add_eq_iff hX he).1 h)), if_neg hhi]

/-- The block `X` in front of what follows the iterator: it is merged with the next block if that starts where it
ends, and the header at `X` gets the link to what follows. -/
theorem linked_linkToNext {X : Extent} {it pxEnd : UInt32} {l : List Extent}
    (hsize : xBlockSize mem (addr X) = .ofNat X.size) (hl : Linked mem it l pxEnd)
    (hit : it = addr X ∨ Clear (addr X) it) (hX : X.hi < 2 ^ 32)
    (hmem : ∀ e ∈ l, e.lo < 2 ^ 32 ∧ Clear (addr X) (addr e) ∧ addr e ≠ pxEnd) :
    ∃ Y l', prepend X l = Y :: l' ∧ Y.lo = X.lo ∧
      xBlockSize (linkToNext pxEnd it (addr X) mem) (addr X) = .ofNat Y.size ∧
      Linked (linkToNext pxEnd it (addr X) mem) (addr X) l' pxEnd := by
  cases l with
  | nil =>
    have hnext : pxNextFreeBlock mem it = pxEnd := hl
    refine ⟨X, [], rfl, rfl, ?_⟩
    unfold linkToNext
    rw [hnext]
    split <;> simp [Linked, hsize]
  | cons e l =>
    obtain ⟨hnext, hesize, hl⟩ := hl
    obtain ⟨he, hXe, hne⟩ := hmem e List.mem_cons_self
    have hframe : ∀ f ∈ e :: l, SameHeader mem (linkToNext pxEnd it (addr X) mem) (addr f) := fun f hf =>
      sameHeader_of_clear (hmem f hf).2.1 fun a ha => linkToNext_of_outside ha
    have heq := linkToNext_eq hsize hnext hesize hit hX he hXe hne
    by_cases hhi : X.hi = e.lo
    · rw [if_pos hhi] at heq
      refine ⟨X.join e, l, if_pos hhi, rfl, ?_, ?_⟩
      · rw [heq, xBlockSize_setNextFreeBlock, xBlockSize_setBlockSize]
      · cases l with
        | nil => rw [heq]; simpa [Linked] using hl
        | cons f l =>
          refine ⟨?_, ?_, ?_⟩
          · rw [heq, pxNextFreeBlock_setNextFreeBlock, hl.1]
          · rw [(hframe f (by simp)).2, hl.2.1]
          · exact hl.2.2.congr (hframe f (by simp)).1 fun g hg => hframe g (by simp [hg])
    · rw [if_neg hhi] at heq
      refine ⟨X, e :: l, if_neg hhi, rfl, ?_, ?_, ?_, ?_⟩
      · rw [heq, xBlockSize_setNextFreeBlock, hsize]
      · rw [heq, pxNextFreeBlock_setNextFreeBlock]
      · rw [(hframe e List.mem_cons_self).2, hesize]
      · exact hl.congr (hframe e List.mem_cons_self).1 fun f hf => hframe f (List.mem_cons_of_mem _ hf)

theorem insertAfter_of_outside {pxEnd it b : UInt32} {a : ℕ} (hit : Outside it a) (hb : Outside b a) :
    insertAfter pxEnd it b mem a = mem a := by
  unfold insertAfter
  split
  · exact (linkToNext_of_outside hit).trans (setBlockSize_of_outside _ _ hit)
  · dsimp only
    split
    · exact (setNextFreeBlock_of_outside _ _ hit).trans (linkToNext_of_outside hb)
    · exact linkToNext_of_outside hb

/-- Two blocks of a sorted list have headers that do not overlap. -/
theorem pairwise_clear_addr {l : List Extent} (hs : Sorted 8 l) (hlo : ∀ e ∈ l, e.lo < 2 ^ 32) :
    (l.map addr).Pairwise Clear := by
  rw [List.pairwise_map]
  refine hs.imp_of_mem fun {e f} he hf h => clear_addr (.inl h) (hlo e he) (hlo f hf)

theorem clear_lastBlock {l : List Extent} {r : UInt32} (hp : Clear p r) (hl : ∀ e ∈ l, Clear (addr e) r) :
    Clear (lastBlock p l) r := by
  rcases lastBlock_eq_or_mem p l with h | ⟨e, he, h⟩
  · rwa [h]
  · rw [h]; exact hl e he

/-- A link written behind the last block leaves the size in the header that the list starts from. -/
theorem xBlockSize_setNextFreeBlock_lastBlock {l : List Extent} {v : UInt32}
    (hclear : (p :: l.map addr).Pairwise Clear) :
    xBlockSize (setNextFreeBlock mem (lastBlock p l) v) p = xBlockSize mem p := by
  rcases lastBlock_eq_or_mem p l with h | ⟨e, he, h⟩
  · rw [h, xBlockSize_setNextFreeBlock]
  · rw [h]
    have hpe := (List.pairwise_cons.1 hclear).1 _ (List.mem_map_of_mem he)
    exact (sameHeader_setNextFreeBlock _ _ hpe.symm).2

/-- A block taken out of the list. -/
theorem linked_unlink {pxEnd : UInt32} {pre post : List Extent} {e : Extent}
    (h : Linked mem p (pre ++ e :: post) pxEnd) (hclear : (p :: (pre ++ e :: post).map addr).Pairwise Clear) :
    Linked (setNextFreeBlock mem (lastBlock p pre) (pxNextFreeBlock mem (addr e))) p (pre ++ post) pxEnd := by
  obtain ⟨hpre, -, hpost⟩ := linked_append_cons.1 h
  rw [List.map_append, List.map_cons, ← List.cons_append, List.pairwise_append] at hclear
  obtain ⟨hpreclear, -, hcross⟩ := hclear
  refine linked_append.2 ⟨hpre.redirect hpreclear (fun r hr => sameHeader_setNextFreeBlock _ _ hr)
    (fun _ => xBlockSize_setNextFreeBlock _ _ _) rfl, ?_⟩
  refine hpost.congr (pxNextFreeBlock_setNextFreeBlock _ _ _) fun x hx => sameHeader_setNextFreeBlock _ _ ?_
  refine clear_lastBlock (hcross p List.mem_cons_self _ ?_) fun y hy => hcross _ ?_ _ ?_
  · exact List.mem_cons_of_mem _ (List.mem_map_of_mem hx)
  · exact List.mem_cons_of_mem _ (List.mem_map_of_mem hy)
  · exact List.mem_cons_of_mem _ (List.mem_map_of_mem hx)

section Insert

variable {pxEnd : UInt32} {b : Extent} {l₂ : List Extent}

/-- The block is merged with the one in front of it. -/
theorem linked_insertAfter_join {c : Extent} {l : List Extent} (h : Linked mem p (l ++ c :: l₂) pxEnd)
    (hb : xBlockSize mem (addr b) = .ofNat b.size) (hs : Sorted 8 (l ++ c :: b :: l₂))
    (hlt : ∀ e ∈ l ++ c :: b :: l₂, e.hi < 2 ^ 32) (hp : ∀ e ∈ l ++ c :: b :: l₂, Clear p (addr e))
    (hend : ∀ e ∈ l₂, addr e ≠ pxEnd) (hcb : c.hi = b.lo) :
    Linked (insertAfter pxEnd (addr c) (addr b) mem) p (l ++ prepend (c.join b) l₂) pxEnd := by
  have hlo : ∀ e ∈ l ++ c :: b :: l₂, e.lo < 2 ^ 32 := fun e he => lt_of_le_of_lt e.lo_le_hi (hlt e he)
  have hclear := pairwise_clear_addr hs hlo
  rw [List.map_append, List.map_cons, List.map_cons, List.pairwise_append, List.pairwise_cons] at hclear
  obtain ⟨-, ⟨hc, -⟩, hcross⟩ := hclear
  obtain ⟨hl, hcsize, hl₂⟩ := linked_append_cons.1 h
  have hins : insertAfter pxEnd (addr c) (addr b) mem =
      linkToNext pxEnd (addr c) (addr c) (setBlockSize mem (addr c) (.ofNat (c.join b).size)) := by
    unfold insertAfter
    rw [hcsize, if_pos ((addr_add_eq_iff (hlt c (by simp)) (hlo b (by simp))).2 hcb), hb]
    have hsum : (UInt32.ofNat c.size + .ofNat b.size) = .ofNat (c.join b).size := (UInt32.ofNat_add _ _).symm
    rw [hsum]
  have hout : ∀ a, Outside (addr c) a → insertAfter pxEnd (addr c) (addr b) mem a = mem a := fun a ha => by
    rw [hins, linkToNext_of_outside ha, setBlockSize_of_outside _ _ ha]
  have hl₂' : Linked (setBlockSize mem (addr c) (.ofNat (c.join b).size)) (addr c) l₂ pxEnd :=
    hl₂.congr (pxNextFreeBlock_setBlockSize _ _ _) fun e he =>
      sameHeader_setBlockSize _ _ (hc _ (List.mem_cons_of_mem _ (List.mem_map_of_mem he)))
  obtain ⟨Y, l', hY, hYlo, hYsize, hYl⟩ := linked_linkToNext (X := c.join b) (xBlockSize_setBlockSize _ _ _) hl₂'
    (.inl rfl) (by rw [Extent.join_hi hcb]; exact hlt b (by simp))
    fun e he => ⟨hlo e (by simp [he]), hc _ (List.mem_cons_of_mem _ (List.mem_map_of_mem he)), hend e he⟩
  have haddr : addr Y = addr c := by unfold addr; rw [hYlo]; rfl
  rw [hY]
  refine linked_append_cons.2 ⟨?_, ?_, ?_⟩
  · rw [haddr]
    refine hl.congr (sameHeader_of_clear (hp c (by simp)).symm hout).1 fun e he => ?_
    exact sameHeader_of_clear (hcross _ (List.mem_map_of_mem he) _ List.mem_cons_self).symm hout
  · rw [haddr, hins]; exact hYsize
  · rw [haddr, hins]; exact hYl

/-- The block becomes one of the list, or is merged with the one behind it only. -/
theorem linked_insertAfter_new {l₁ : List Extent} (h : Linked mem p (l₁ ++ l₂) pxEnd)
    (hb : xBlockSize mem (addr b) = .ofNat b.size) (hs : Sorted 8 (l₁ ++ b :: l₂))
    (hlt : ∀ e ∈ l₁ ++ b :: l₂, e.hi < 2 ^ 32) (hp : ∀ e ∈ l₁ ++ b :: l₂, Clear p (addr e))
    (hend : ∀ e ∈ l₂, addr e ≠ pxEnd) (hne : lastBlock p l₁ + xBlockSize mem (lastBlock p l₁) ≠ addr b) :
    Linked (insertAfter pxEnd (lastBlock p l₁) (addr b) mem) p (l₁ ++ prepend b l₂) pxEnd := by
  have hlo : ∀ e ∈ l₁ ++ b :: l₂, e.lo < 2 ^ 32 := fun e he => lt_of_le_of_lt e.lo_le_hi (hlt e he)
  have hclear := pairwise_clear_addr hs hlo
  rw [List.map_append, List.map_cons, List.pairwise_append, List.pairwise_cons] at hclear
  obtain ⟨hl₁clear, ⟨hbclear, -⟩, hcross⟩ := hclear
  obtain ⟨hl₁, hl₂⟩ := linked_append.1 h
  have hit : ∀ r, r = addr b ∨ r ∈ l₂.map addr → Clear (lastBlock p l₁) r := by
    intro r hr
    refine clear_lastBlock ?_ fun e he => hcross _ (List.mem_map_of_mem he) r (by simpa using hr)
    rcases hr with rfl | hr
    · exact hp b (by simp)
    · obtain ⟨e, he, rfl⟩ := List.mem_map.1 hr
      exact hp e (by simp [he])
  have hins : insertAfter pxEnd (lastBlock p l₁) (addr b) mem =
      setNextFreeBlock (linkToNext pxEnd (lastBlock p l₁) (addr b) mem) (lastBlock p l₁) (addr b) := by
    unfold insertAfter
    rw [if_neg hne]
    exact if_pos (hit _ (.inl rfl)).ne
  obtain ⟨Y, l', hY, hYlo, hYsize, hYl⟩ := linked_linkToNext hb hl₂ (.inr (hit _ (.inl rfl)).symm) (hlt b (by simp))
    fun e he => ⟨hlo e (by simp [he]), hbclear _ (List.mem_map_of_mem he), hend e he⟩
  have haddr : addr Y = addr b := by unfold addr; rw [hYlo]
  have hout : ∀ a, Outside (addr b) a → linkToNext pxEnd (lastBlock p l₁) (addr b) mem a = mem a :=
    fun a ha => linkToNext_of_outside ha
  rw [hins, hY]
  refine linked_append_cons.2 ⟨?_, ?_, ?_⟩
  · rw [haddr]
    -- first the header of the block itself, then the link to it
    have hl₁' : Linked (linkToNext pxEnd (lastBlock p l₁) (addr b) mem) p l₁ (pxNextFreeBlock mem (lastBlock p l₁)) :=
      hl₁.congr (sameHeader_of_clear (hp b (by simp)).symm hout).1 fun e he =>
        sameHeader_of_clear (hcross _ (List.mem_map_of_mem he) _ List.mem_cons_self).symm hout
    refine hl₁'.redirect (List.pairwise_cons.2 ⟨fun r hr => ?_, hl₁clear⟩)
      (fun r hr => sameHeader_setNextFreeBlock _ _ hr) (fun _ => xBlockSize_setNextFreeBlock _ _ _)
      (pxNextFreeBlock_setNextFreeBlock _ _ _)
    obtain ⟨e, he, rfl⟩ := List.mem_map.1 hr
    exact hp e (by simp [he])
  · rw [haddr, (sameHeader_setNextFreeBlock _ _ (hit _ (.inl rfl))).2, hYsize]
  · rw [haddr]
    refine hYl.congr (sameHeader_setNextFreeBlock _ _ (hit _ (.inl rfl))).1 fun e he => ?_
    exact sameHeader_setNextFreeBlock _ _ (hit _ (.inr (List.mem_map_of_mem (mem_of_prepend_eq hY he))))

/-- Inserting a block at its place in the order links the list with the block released. -/
theorem linked_insertAfter {l₁ : List Extent} (h : Linked mem p (l₁ ++ l₂) pxEnd)
    (hb : xBlockSize mem (addr b) = .ofNat b.size) (hs : Sorted 8 (l₁ ++ b :: l₂))
    (hlt : ∀ e ∈ l₁ ++ b :: l₂, e.hi < 2 ^ 32) (hp : ∀ e ∈ l₁ ++ b :: l₂, Clear p (addr e))
    (hend : ∀ e ∈ l₂, addr e ≠ pxEnd) (hp0 : xBlockSize mem p = 0) :
    Linked (insertAfter pxEnd (lastBlock p l₁) (addr b) mem) p (release b (l₁ ++ l₂)) pxEnd := by
  rcases List.eq_nil_or_concat l₁ with rfl | ⟨l, c, rfl⟩
  · rw [release_eq_append hs (by decide) (by simp)]
    refine linked_insertAfter_new h hb hs hlt hp hend ?_
    have := (hp b (by simp)).ne
    simpa [lastBlock, hp0] using this
  · rw [List.concat_eq_append] at *
    have hlast : lastBlock p (l ++ [c]) = addr c := by rw [lastBlock_append]; rfl
    by_cases hcb : c.hi = b.lo
    · rw [hlast]
      rw [List.append_assoc] at *
      rw [List.singleton_append] at *
      rw [release_eq_join hs (by decide) hcb]
      exact linked_insertAfter_join h hb hs hlt hp hend hcb
    · have hne : ∀ k d, l ++ [c] = k ++ [d] → d.hi ≠ b.lo := by
        intro k d hkd
        obtain ⟨-, hcd⟩ := List.append_inj' hkd rfl
        obtain rfl : c = d := by simpa using hcd
        exact hcb
      rw [release_eq_append hs (by decide) hne]
      refine linked_insertAfter_new h hb hs hlt hp hend ?_
      have hcsize : xBlockSize mem (addr c) = .ofNat c.size := by
        rw [List.append_assoc] at h
        exact (linked_append_cons.1 h).2.1
      rw [hlast, hcsize]
      intro heq
      have hblt := lt_of_le_of_lt b.lo_le_hi (hlt b (by simp))
      exact hcb ((addr_add_eq_iff (hlt c (by simp)) hblt).1 heq)

/-- The header that the list starts from keeps its size 0. -/
theorem xBlockSize_insertAfter {l : List Extent} (hp0 : xBlockSize mem p = 0) (hpb : Clear p (addr b))
    (hp : ∀ e ∈ l, Clear p (addr e)) : xBlockSize (insertAfter pxEnd (lastBlock p l) (addr b) mem) p = 0 := by
  rcases lastBlock_eq_or_mem p l with h | ⟨e, he, h⟩
  · have hlink : xBlockSize (linkToNext pxEnd p (addr b) mem) p = 0 :=
      (sameHeader_of_clear hpb.symm fun a ha => linkToNext_of_outside ha).2.trans hp0
    unfold insertAfter
    rw [h, hp0, UInt32.add_zero, if_neg hpb.ne]
    dsimp only
    rw [if_pos hpb.ne, xBlockSize_setNextFreeBlock, hlink]
  · rw [h]
    refine (sameHeader_of_bytes fun a ha ha' => insertAfter_of_outside ?_ ?_).2.trans hp0
    · have := hp e he; unfold Clear at this; unfold Outside; omega
    · unfold Clear at hpb; unfold Outside; omega

theorem prvInsertBlockIntoFreeList_eq {l : List Extent} {fuel : ℕ} (h : Linked mem p l pxEnd)
    (hb : xBlockSize mem (addr b) = .ofNat b.size) (hs : Sorted 8 l) (hapart : ∀ e ∈ l, e.Apart 8 b)
    (hlt : ∀ e ∈ b :: l, e.hi < 2 ^ 32) (hp : ∀ e ∈ b :: l, Clear p (addr e))
    (hend : ∀ e ∈ b :: l, e.lo < pxEnd.toNat) (hp0 : xBlockSize mem p = 0) (hfuel : l.length < fuel) :
    ∃ mem', prvInsertBlockIntoFreeList p fuel pxEnd (addr b) mem = .ok mem' ∧
      Linked mem' p (release b l) pxEnd ∧ xBlockSize mem' p = 0 ∧
      ∀ a, Outside p a → (∀ e ∈ b :: l, Outside (addr e) a) → mem' a = mem a := by
  obtain ⟨l₁, l₂, rfl, hsorted⟩ := exists_sorted_insert hs (by decide) hapart
  have hperm : ∀ e ∈ l₁ ++ b :: l₂, e ∈ b :: (l₁ ++ l₂) := fun e he => by simpa [or_left_comm] using he
  have hlo : ∀ e ∈ b :: (l₁ ++ l₂), e.lo < 2 ^ 32 := fun e he => lt_of_le_of_lt e.lo_le_hi (hlt e he)
  have hne : ∀ e ∈ l₂, addr e ≠ pxEnd := by
    rintro e he rfl
    have := hend e (by simp [he])
    rw [addr_toNat (hlo e (by simp [he]))] at this
    omega
  have hpos : insertPosition mem (addr b) fuel p = .ok (lastBlock p l₁) := by
    unfold Sorted at hsorted
    rw [List.pairwise_append, List.pairwise_cons] at hsorted
    obtain ⟨-, ⟨hbefore, -⟩, hcross⟩ := hsorted
    refine insertPosition_eq (linked_append.1 h).1 (fun e he => ?_) ?_ (by rw [List.length_append] at hfuel; omega)
    · rw [UInt32.lt_iff_toNat_lt, addr_toNat (hlo e (by simp [he])), addr_toNat (hlo b (by simp))]
      have := (hcross e he b List.mem_cons_self).1
      omega
    · rw [UInt32.lt_iff_toNat_lt, addr_toNat (hlo b (by simp))]
      cases l₂ with
      | nil =>
        rw [(linked_append.1 h).2]
        have := hend b (by simp)
        omega
      | cons e l₂ =>
        rw [(linked_append.1 h).2.1, addr_toNat (hlo e (by simp))]
        have := (hbefore e List.mem_cons_self).1
        omega
  refine ⟨insertAfter pxEnd (lastBlock p l₁) (addr b) mem, ?_, ?_, ?_, fun a hpa ha => ?_⟩
  · unfold prvInsertBlockIntoFreeList
    rw [hpos]
    rfl
  · exact linked_insertAfter h hb hsorted (fun e he => hlt e (hperm e he)) (fun e he => hp e (hperm e he)) hne hp0
  · exact xBlockSize_insertAfter hp0 (hp b (by simp)) fun e he => hp e (by simp [he])
  · refine insertAfter_of_outside ?_ (ha b (by simp))
    rcases lastBlock_eq_or_mem p l₁ with h' | ⟨e, he, h'⟩
    · rwa [h']
    · rw [h']; exact ha e (by simp [he])

end Insert

/-! ### Splitting a block -/

theorem xHeapStructSize_eq : xHeapStructSize = 8 := by decide

theorem heapMinimumBlockSize_eq : heapMinimumBlockSize = 16 := by decide

theorem and_portByteAlignmentMask (x : UInt32) : x &&& portByteAlignmentMask = .ofNat (x.toNat % 8) := by
  rw [← UInt32.toNat_inj, UInt32.toNat_and, UInt32.toNat_ofNat_of_lt' (by simp [UInt32.size]; omega)]
  exact Nat.and_two_pow_sub_one_eq_mod _ 3

theorem and_portByteAlignmentMask_eq_zero {x : UInt32} : x &&& portByteAlignmentMask = 0 ↔ x.toNat % 8 = 0 := by
  rw [and_portByteAlignmentMask, ← UInt32.toNat_inj, UInt32.toNat_ofNat_of_lt' (by simp [UInt32.size]; omega)]
  rfl

/-- The header at `p` as an extent. -/
def header (p : UInt32) : Extent := ⟨p.toNat, 8⟩

theorem clear_of_apart {e : Extent} (h : (header p).Apart 8 e) (he : e.lo < 2 ^ 32) : Clear p (addr e) := by
  unfold Clear
  rw [addr_toNat he]
  rcases h with h | h
  · exact .inl h.1
  · exact .inr h.1

theorem outside_of_not_mem {e : Extent} {a : ℕ} (he : e.lo < 2 ^ 32) (hsize : 8 ≤ e.size) (ha : a ∉ e.cells) :
    Outside (addr e) a := by
  unfold Outside
  rw [addr_toNat he]
  have hhi : e.hi = e.lo + e.size := rfl
  rw [Extent.mem_cells] at ha
  omega

section Split

variable {pxEnd n : UInt32} {e : Extent} {pre post : List Extent}

/-- The headers written when a new block is put behind the `n` bytes taken. -/
theorem linked_split {R : Extent} (h : Linked mem p (pre ++ post) pxEnd) (hpre : (p :: pre.map addr).Pairwise Clear)
    (hR : ∀ x ∈ pre ++ post, Clear (addr R) (addr x)) (hpR : Clear (addr R) p)
    (hlast : ∀ x ∈ post, Clear (lastBlock p pre) (addr x)) (hsize : xBlockSize mem (addr R) = .ofNat R.size) :
    Linked (setNextFreeBlock (setNextFreeBlock mem (addr R) (pxNextFreeBlock mem (lastBlock p pre)))
      (lastBlock p pre) (addr R)) p (pre ++ R :: post) pxEnd := by
  obtain ⟨hl, hl'⟩ := linked_append.1 h
  have hRl : Clear (lastBlock p pre) (addr R) :=
    clear_lastBlock hpR.symm fun x hx => (hR x (List.mem_append_left _ hx)).symm
  refine linked_append_cons.2 ⟨?_, ?_, ?_⟩
  · have hl₁ : Linked (setNextFreeBlock mem (addr R) (pxNextFreeBlock mem (lastBlock p pre))) p pre
        (pxNextFreeBlock mem (lastBlock p pre)) :=
      hl.congr (sameHeader_setNextFreeBlock _ _ hpR).1 fun x hx =>
        sameHeader_setNextFreeBlock _ _ (hR x (List.mem_append_left _ hx))
    exact hl₁.redirect hpre (fun r hr => sameHeader_setNextFreeBlock _ _ hr)
      (fun _ => xBlockSize_setNextFreeBlock _ _ _) (pxNextFreeBlock_setNextFreeBlock _ _ _)
  · rw [(sameHeader_setNextFreeBlock _ _ hRl).2, xBlockSize_setNextFreeBlock, hsize]
  · refine hl'.congr ?_ fun x hx => ?_
    · rw [(sameHeader_setNextFreeBlock _ _ hRl).1, pxNextFreeBlock_setNextFreeBlock]
    · have h₁ := sameHeader_setNextFreeBlock mem (pxNextFreeBlock mem (lastBlock p pre))
        (hR x (List.mem_append_right _ hx))
      have h₂ := sameHeader_setNextFreeBlock (setNextFreeBlock mem (addr R) (pxNextFreeBlock mem (lastBlock p pre)))
        (addr R) (hlast x hx)
      exact ⟨h₂.1.trans h₁.1, h₂.2.trans h₁.2⟩

theorem splitBlock_eq (h : Linked mem p (pre ++ post) pxEnd) (he : xBlockSize mem (addr e) = .ofNat e.size)
    (hn : n.toNat ≤ e.size) (hn8 : 8 ≤ n.toNat) (hs : Sorted 8 (pre ++ e :: post))
    (hlt : ∀ x ∈ pre ++ e :: post, x.hi < 2 ^ 32) (hp : ∀ x ∈ pre ++ e :: post, (header p).Apart 8 x)
    (healign : e.lo % 8 = 0) (hnalign : n.toNat % 8 = 0) :
    ∃ mem', splitBlock (lastBlock p pre) (addr e) n mem = .ok mem' ∧
      Linked mem' p (pre ++ ((e.cut n.toNat 16).2 ++ post)) pxEnd ∧
      xBlockSize mem' (addr e) = .ofNat (e.cut n.toNat 16).1.size ∧ xBlockSize mem' p = xBlockSize mem p ∧
      ∀ a, Outside p a → (∀ x ∈ pre, Outside (addr x) a) → a ∉ e.cells → mem' a = mem a := by
  have hehi := hlt e (by simp)
  have hhi : e.hi = e.lo + e.size := rfl
  have hsize : (UInt32.ofNat e.size).toNat = e.size := UInt32.toNat_ofNat_of_lt' (by simp [UInt32.size]; omega)
  have hunder : ¬ heapSubtractWillUnderflow (xBlockSize mem (addr e)) n := by
    unfold heapSubtractWillUnderflow
    rw [he, UInt32.lt_iff_toNat_lt, hsize]
    omega
  have hrest : xBlockSize mem (addr e) - n = .ofNat (e.size - n.toNat) := by
    rw [he, UInt32.ofNat_sub hn, UInt32.ofNat_toNat]
  have hspare : heapMinimumBlockSize < UInt32.ofNat (e.size - n.toNat) ↔ 16 < e.size - n.toNat := by
    rw [UInt32.lt_iff_toNat_lt, heapMinimumBlockSize_eq, UInt32.toNat_ofNat_of_lt' (by simp [UInt32.size]; omega)]
    rfl
  -- `e` and its rest do not overlap what stays in the list
  have hsorted := hs
  unfold Sorted at hsorted
  rw [List.pairwise_append, List.pairwise_cons] at hsorted
  obtain ⟨hpre, ⟨hbehind, -⟩, hcross⟩ := hsorted
  have hmem : ∀ x ∈ pre ++ post, x ∈ pre ++ e :: post := fun x hx => by simp at hx ⊢; tauto
  have hapart : ∀ x ∈ pre ++ post, x.Apart 8 e := by
    intro x hx
    rcases List.mem_append.1 hx with hx | hx
    · exact .inl (hcross x hx e List.mem_cons_self)
    · exact .inr (hbehind x hx)
  have hlo : ∀ x ∈ pre ++ e :: post, x.lo < 2 ^ 32 := fun x hx => lt_of_le_of_lt x.lo_le_hi (hlt x hx)
  have hclear : ∀ f : Extent, e.lo ≤ f.lo → f.hi ≤ e.hi → 8 ≤ f.size →
      Clear (addr f) p ∧ ∀ x ∈ pre ++ post, Clear (addr f) (addr x) := by
    intro f hflo hfhi hfsize
    have hf : f.lo < 2 ^ 32 := by have := f.lo_le_hi; omega
    exact ⟨(clear_of_apart ((hp e (by simp)).of_subset hflo hfhi hfsize) hf).symm,
      fun x hx => (clear_addr ((hapart x hx).of_subset hflo hfhi hfsize) (hlo x (hmem x hx)) hf).symm⟩
  obtain ⟨hep, hex⟩ := hclear e (le_refl _) (le_refl _) (by omega)
  unfold splitBlock
  simp only [configASSERT, if_pos hunder, hrest]
  by_cases hcut : 16 < e.size - n.toNat
  · -- the rest becomes a block
    obtain ⟨R, hRdef⟩ : ∃ R : Extent, R = ⟨e.lo + n.toNat, e.size - n.toNat⟩ := ⟨_, rfl⟩
    have hRlo : R.lo = e.lo + n.toNat := by rw [hRdef]
    have hRsize : R.size = e.size - n.toNat := by rw [hRdef]
    have hRhi : R.hi = R.lo + R.size := rfl
    have hcut_eq : e.cut n.toNat 16 = (⟨e.lo, n.toNat⟩, [R]) := by rw [hRdef]; exact if_pos hcut
    have hnew : addr e + n = addr R := by
      rw [hRdef]
      unfold addr
      rw [UInt32.ofNat_add, UInt32.ofNat_toNat]
    obtain ⟨hRp, hRx⟩ := hclear R (by omega) (by omega) (by omega)
    have hRalign : addr R &&& portByteAlignmentMask = 0 := by
      rw [and_portByteAlignmentMask_eq_zero, addr_toNat (by omega)]
      omega
    have heR : Clear (addr e) (addr R) := by
      unfold Clear
      rw [addr_toNat (hlo e (by simp)), addr_toNat (by omega)]
      omega
    rw [if_pos (hspare.2 hcut), hnew, if_pos hRalign, ← hRsize, hcut_eq]
    obtain ⟨memA, hA⟩ : ∃ m, m = setBlockSize (setBlockSize mem (addr R) (.ofNat R.size)) (addr e) n := ⟨_, rfl⟩
    have hAheader : ∀ r, Clear (addr R) r → Clear (addr e) r → SameHeader mem memA r := by
      intro r hRr her
      rw [hA]
      have h₁ := sameHeader_setBlockSize mem (UInt32.ofNat R.size) hRr
      have h₂ := sameHeader_setBlockSize (setBlockSize mem (addr R) (.ofNat R.size)) n her
      exact ⟨h₂.1.trans h₁.1, h₂.2.trans h₁.2⟩
    have hAlinked : Linked memA p (pre ++ post) pxEnd :=
      h.congr (hAheader p hRp hep).1 fun x hx => hAheader _ (hRx x hx) (hex x hx)
    have hAsize : xBlockSize memA (addr R) = .ofNat R.size := by
      rw [hA, (sameHeader_setBlockSize _ _ heR).2, xBlockSize_setBlockSize]
    have hprev : Clear (lastBlock p pre) (addr e) :=
      clear_lastBlock hep.symm fun x hx => (hex x (List.mem_append_left _ hx)).symm
    have hlast : ∀ x ∈ post, Clear (lastBlock p pre) (addr x) := by
      intro x hx
      refine clear_lastBlock (clear_of_apart (hp x (by simp [hx])) (hlo x (by simp [hx]))) fun y hy => ?_
      exact clear_addr (.inl (hcross y hy x (List.mem_cons_of_mem _ hx))) (hlo y (by simp [hy])) (hlo x (by simp [hx]))
    have hprepair : (p :: pre.map addr).Pairwise Clear := by
      refine List.pairwise_cons.2 ⟨fun r hr => ?_, pairwise_clear_addr hpre fun x hx => hlo x (by simp [hx])⟩
      obtain ⟨x, hx, rfl⟩ := List.mem_map.1 hr
      exact clear_of_apart (hp x (by simp [hx])) (hlo x (by simp [hx]))
    refine ⟨setNextFreeBlock (setNextFreeBlock memA (addr R) (pxNextFreeBlock memA (lastBlock p pre)))
      (lastBlock p pre) (addr R), by rw [hA]; rfl, ?_, ?_, ?_, fun a hpa hxa ha => ?_⟩
    · exact linked_split hAlinked hprepair hRx hRp hlast hAsize
    · rw [(sameHeader_setNextFreeBlock _ _ hprev).2, (sameHeader_setNextFreeBlock _ _ heR.symm).2, hA,
        xBlockSize_setBlockSize, UInt32.ofNat_toNat]
    · rw [xBlockSize_setNextFreeBlock_lastBlock hprepair, (sameHeader_setNextFreeBlock _ _ hRp).2, (hAheader p hRp hep).2]
    · have hRa : Outside (addr R) a := by
        refine outside_of_not_mem (by omega) (by omega) fun h => ha ?_
        rw [Extent.mem_cells] at h ⊢
        omega
      have hea : Outside (addr e) a := outside_of_not_mem (hlo e (by simp)) (by omega) ha
      have hla : Outside (lastBlock p pre) a := by
        rcases lastBlock_eq_or_mem p pre with h' | ⟨x, hx, h'⟩
        · rwa [h']
        · rw [h']; exact hxa x hx
      rw [setNextFreeBlock_of_outside _ _ hla, setNextFreeBlock_of_outside _ _ hRa, hA,
        setBlockSize_of_outside _ _ hea, setBlockSize_of_outside _ _ hRa]
  · have hcut_eq : e.cut n.toNat 16 = (e, []) := if_neg hcut
    rw [if_neg (fun hc => hcut (hspare.1 hc)), hcut_eq]
    exact ⟨mem, rfl, h, he, rfl, fun _ _ _ _ => rfl⟩

end Split

end LcdKeypad
