import Mathlib.Data.Set.Card
import Mathlib.Order.Interval.Finset.Nat

/-!
# Lists of extents

An extent is a stretch of consecutive cells.  A free list is a list of extents in the order of their addresses, no
two of them overlapping (`Sorted`) and none starting where an earlier one ends (`Coalesced`); every extent has
`room` cells of its own for a record, so that an empty extent can stand in the list as well.  `release` puts an
extent back and merges it with its neighbours, `allocate` cuts an extent off the first one that is large enough.
Both keep the two properties and account for every cell (`cover_release`, `cover_allocate`).

In a list of this kind every interval of cells lies in one extent (`exists_mem_of_Ico_subset`).  So the nonempty
extents are the runs of the cells covered (`mem_starts_cover`, `hi_notMem_cover`), and `allocate` finds the lowest
place at which the request fits (`isLeast_allocate`) and fails only if there is none (`allocate_eq_none_iff`).
-/

namespace Extents

structure Extent where
  lo : ℕ
  size : ℕ
  deriving DecidableEq, Repr

namespace Extent

def hi (e : Extent) : ℕ := e.lo + e.size

def cells (e : Extent) : Set ℕ := Set.Ico e.lo e.hi

/-- Two extents of which the second starts where the first ends, as one. -/
def join (e f : Extent) : Extent := ⟨e.lo, e.size + f.size⟩

/-- `e` ends before `f` starts, and so does its record. -/
def Before (room : ℕ) (e f : Extent) : Prop := e.lo + room ≤ f.lo ∧ e.hi ≤ f.lo

def Apart (room : ℕ) (e f : Extent) : Prop := e.Before room f ∨ f.Before room e

@[simp] theorem mem_cells {e : Extent} {a : ℕ} : a ∈ e.cells ↔ e.lo ≤ a ∧ a < e.hi := Iff.rfl

theorem lo_le_hi (e : Extent) : e.lo ≤ e.hi := Nat.le_add_right _ _

@[simp] theorem join_lo (e f : Extent) : (e.join f).lo = e.lo := rfl

@[simp] theorem join_size (e f : Extent) : (e.join f).size = e.size + f.size := rfl

theorem join_hi {e f : Extent} (h : e.hi = f.lo) : (e.join f).hi = f.hi := by
  simp only [hi, join] at h ⊢
  omega

theorem cells_join {e f : Extent} (h : e.hi = f.lo) : (e.join f).cells = e.cells ∪ f.cells := by
  ext a
  have he := e.lo_le_hi
  have hf := f.lo_le_hi
  simp only [Set.mem_union, mem_cells, join_lo, join_hi h]
  omega

theorem Apart.symm {room : ℕ} {e f : Extent} (h : e.Apart room f) : f.Apart room e := Or.symm h

theorem Apart.before_of_lt {room : ℕ} {e f : Extent} (h : e.Apart room f) (hlt : e.lo < f.lo) : e.Before room f := by
  rcases h with h | h
  · exact h
  · have := h.1; omega

theorem Apart.before_of_le {room : ℕ} {e f : Extent} (h : e.Apart room f) (hr : 0 < room) (hle : f.lo ≤ e.lo) :
    f.Before room e := by
  rcases h with h | h
  · have := h.1; omega
  · exact h

/-- What is apart from an extent is apart from its parts. -/
theorem Apart.of_subset {room : ℕ} {x e f : Extent} (h : x.Apart room e) (hlo : e.lo ≤ f.lo) (hhi : f.hi ≤ e.hi)
    (hroom : room ≤ f.size) : x.Apart room f := by
  have hf : f.hi = f.lo + f.size := rfl
  rcases h with h | h
  · exact .inl ⟨by have := h.1; omega, by have := h.2; omega⟩
  · exact .inr ⟨by have := h.2; omega, by have := h.2; omega⟩

theorem Apart.join {room : ℕ} {x e f : Extent} (he : x.Apart room e) (hf : x.Apart room f) (hr : 0 < room)
    (h : e.hi = f.lo) : x.Apart room (e.join f) := by
  rcases he with he | he
  · exact .inl he
  · refine .inr ⟨he.1, ?_⟩
    rw [join_hi h]
    rcases hf with hf | hf
    · have := he.2; have := hf.1; omega
    · exact hf.2

end Extent

open Extent

def cover (l : List Extent) : Set ℕ := {a | ∃ e ∈ l, a ∈ e.cells}

def total (l : List Extent) : ℕ := (l.map Extent.size).sum

/-- How many extents have no cells. -/
def empties (l : List Extent) : ℕ := l.countP fun e => decide (e.size = 0)

def Sorted (room : ℕ) (l : List Extent) : Prop := l.Pairwise (Before room)

def Coalesced (l : List Extent) : Prop := l.Pairwise fun e f => 0 < f.size → e.hi < f.lo

variable {room : ℕ}

theorem mem_cover {l : List Extent} {a : ℕ} : a ∈ cover l ↔ ∃ e ∈ l, a ∈ e.cells := Iff.rfl

@[simp] theorem cover_nil : cover [] = ∅ := by
  ext a; simp [mem_cover]

@[simp] theorem cover_cons (e : Extent) (l : List Extent) : cover (e :: l) = e.cells ∪ cover l := by
  ext a; simp only [mem_cover, List.mem_cons, Set.mem_union, exists_eq_or_imp]

@[simp] theorem cover_append (l l' : List Extent) : cover (l ++ l') = cover l ∪ cover l' := by
  induction l with
  | nil => simp
  | cons e l ih => rw [List.cons_append, cover_cons, ih, cover_cons, Set.union_assoc]

@[simp] theorem total_nil : total [] = 0 := rfl

@[simp] theorem total_cons (e : Extent) (l : List Extent) : total (e :: l) = e.size + total l := rfl

@[simp] theorem total_append (l l' : List Extent) : total (l ++ l') = total l + total l' := by
  simp [total]

theorem Sorted.before_or_before {l : List Extent} (h : Sorted room l) {e f : Extent} (he : e ∈ l) (hf : f ∈ l) :
    e = f ∨ e.Before room f ∨ f.Before room e := by
  induction l with
  | nil => cases he
  | cons a l ih =>
    unfold Sorted at h
    rw [List.pairwise_cons] at h
    rcases List.mem_cons.1 he with rfl | he' <;> rcases List.mem_cons.1 hf with rfl | hf'
    · exact .inl rfl
    · exact .inr (.inl (h.1 f hf'))
    · exact .inr (.inr (h.1 e he'))
    · exact ih h.2 he' hf'

/-- Of two extents with a record each, only one comes before the other. -/
theorem Coalesced.lt_of_before {l : List Extent} (hs : Sorted room l) (hc : Coalesced l) (hr : 0 < room)
    {e f : Extent} (he : e ∈ l) (hf : f ∈ l) (hef : e.Before room f) (h0 : 0 < f.size) : e.hi < f.lo := by
  induction l with
  | nil => cases he
  | cons a l ih =>
    unfold Sorted at hs
    unfold Coalesced at hc
    rw [List.pairwise_cons] at hs hc
    rcases List.mem_cons.1 he with rfl | he' <;> rcases List.mem_cons.1 hf with rfl | hf'
    · have := hef.1; omega
    · exact hc.1 f hf' h0
    · have := hef.1; have := (hs.1 e he').1; omega
    · exact ih hs.2 hc.2 he' hf'

/-- An interval of cells of the list lies in one of its extents. -/
theorem exists_mem_of_Ico_subset {l : List Extent} (hs : Sorted room l) (hc : Coalesced l) (hr : 0 < room)
    {a b : ℕ} (hab : a < b) (h : Set.Ico a b ⊆ cover l) : ∃ e ∈ l, e.lo ≤ a ∧ b ≤ e.hi := by
  obtain ⟨e, he, hea, hae⟩ := h ⟨le_refl a, hab⟩
  refine ⟨e, he, hea, Nat.le_of_not_lt fun hb => ?_⟩
  obtain ⟨f, hf, hfe, hef⟩ := h ⟨Nat.le_of_lt hae, hb⟩
  have h0 : 0 < f.size := by have : f.hi = f.lo + f.size := rfl; omega
  rcases hs.before_or_before he hf with rfl | h' | h'
  · omega
  · have := hc.lt_of_before hs hr he hf h' h0; omega
  · have := h'.2; have := e.lo_le_hi; omega

/-- Where the runs of a set of cells start. -/
def starts (F : Set ℕ) : Set ℕ := {x | x ∈ F ∧ ∀ y ∈ F, y + 1 ≠ x}

/-- An extent with cells is one run of the cells covered: no cell before it or after it is. -/
theorem mem_starts_cover {l : List Extent} (hs : Sorted room l) (hc : Coalesced l) (hr : 0 < room) {x : ℕ} :
    x ∈ starts (cover l) ↔ ∃ e ∈ l, 0 < e.size ∧ e.lo = x := by
  constructor
  · rintro ⟨⟨e, he, hx⟩, hno⟩
    rw [mem_cells] at hx
    have hhi : e.hi = e.lo + e.size := rfl
    refine ⟨e, he, by omega, ?_⟩
    by_contra hne
    exact hno (x - 1) ⟨e, he, by omega, by omega⟩ (by omega)
  · rintro ⟨e, he, h0, rfl⟩
    have hhi : e.hi = e.lo + e.size := rfl
    refine ⟨⟨e, he, by omega, by omega⟩, ?_⟩
    rintro y ⟨f, hf, hy⟩ hye
    rw [mem_cells] at hy
    rcases hs.before_or_before he hf with rfl | h | h
    · omega
    · have := h.2; omega
    · have := hc.lt_of_before hs hr hf he h h0; omega

theorem hi_notMem_cover {l : List Extent} (hs : Sorted room l) (hc : Coalesced l) (hr : 0 < room) {e : Extent}
    (he : e ∈ l) : e.hi ∉ cover l := by
  rintro ⟨f, hf, hef⟩
  rw [mem_cells] at hef
  have hfhi : f.hi = f.lo + f.size := rfl
  rcases hs.before_or_before he hf with rfl | h | h
  · omega
  · have := hc.lt_of_before hs hr he hf h (by omega); omega
  · have := h.2; have := e.lo_le_hi; omega

theorem ncard_starts_cover {l : List Extent} (hs : Sorted room l) (hc : Coalesced l) (hr : 0 < room) :
    (starts (cover l)).ncard + empties l = l.length := by
  have hset : starts (cover l) = ↑(((l.filter fun e => decide (0 < e.size)).map Extent.lo).toFinset) := by
    ext x
    rw [mem_starts_cover hs hc hr, List.coe_toFinset]
    simp [and_assoc]
  have hnodup : ((l.filter fun e => decide (0 < e.size)).map Extent.lo).Nodup := by
    rw [List.nodup_iff_pairwise_ne, List.pairwise_map]
    refine (List.Pairwise.imp ?_ hs).filter _
    intro e f hef
    have := hef.1
    omega
  have hlength := l.length_eq_countP_add_countP fun e => decide (e.size = 0)
  rw [hset, Set.ncard_coe_finset, List.toFinset_card_of_nodup hnodup, List.length_map, hlength, Nat.add_comm,
    List.countP_eq_length_filter (l := l) (p := fun a => decide ¬decide (a.size = 0) = true)]
  simp [empties, Nat.pos_iff_ne_zero]

/-- Extents one after the other between `a` and `b` have at most `b - a` cells. -/
theorem Sorted.total_le {l : List Extent} (h : Sorted room l) {a b : ℕ} (hab : a ≤ b) (ha : ∀ e ∈ l, a ≤ e.lo)
    (hb : ∀ e ∈ l, e.hi ≤ b) : a + total l ≤ b := by
  induction l generalizing a with
  | nil => exact hab
  | cons e l ih =>
    unfold Sorted at h
    rw [List.pairwise_cons] at h
    have hae := ha e List.mem_cons_self
    have heb := hb e List.mem_cons_self
    have hl := ih h.2 heb (fun f hf => (h.1 f hf).2) fun f hf => hb f (List.mem_cons_of_mem _ hf)
    rw [total_cons]
    unfold hi at hl
    omega

theorem finite_cover (l : List Extent) : (cover l).Finite := by
  induction l with
  | nil => rw [cover_nil]; exact Set.finite_empty
  | cons e l ih => rw [cover_cons]; exact (Set.finite_Ico e.lo e.hi).union ih

theorem ncard_cover {l : List Extent} (h : Sorted room l) : (cover l).ncard = total l := by
  induction l with
  | nil => simp
  | cons e l ih =>
    unfold Sorted at h
    rw [List.pairwise_cons] at h
    have hcells : e.cells = ↑(Finset.Ico e.lo e.hi) := (Finset.coe_Ico e.lo e.hi).symm
    have hdisjoint : Disjoint e.cells (cover l) := by
      rw [Set.disjoint_left]
      rintro x hx ⟨f, hf, hxf⟩
      have := (h.1 f hf).2
      have := hx.2
      have := hxf.1
      omega
    rw [cover_cons, Set.ncard_union_eq hdisjoint (Set.finite_Ico _ _) (finite_cover l), ih h.2, total_cons, hcells,
      Set.ncard_coe_finset, Nat.card_Ico]
    unfold hi
    omega

/-- The records alone bound the number of extents. -/
theorem Sorted.length_le {l : List Extent} (h : Sorted room l) {a b : ℕ} (hab : a ≤ b) (ha : ∀ e ∈ l, a ≤ e.lo)
    (hb : ∀ e ∈ l, e.lo + room ≤ b) : a + l.length * room ≤ b := by
  induction l generalizing a with
  | nil => simpa using hab
  | cons e l ih =>
    unfold Sorted at h
    rw [List.pairwise_cons] at h
    have hae := ha e List.mem_cons_self
    have hl := ih h.2 (hb e List.mem_cons_self) (fun f hf => (h.1 f hf).1)
      fun f hf => hb f (List.mem_cons_of_mem _ hf)
    rw [List.length_cons, Nat.add_mul]
    omega

/-! ### Release -/

/-- `b` in front of a list of extents after it. -/
def prepend (b : Extent) : List Extent → List Extent
  | [] => [b]
  | e :: l => if b.hi = e.lo then b.join e :: l else b :: e :: l

def release (b : Extent) : List Extent → List Extent
  | [] => [b]
  | e :: l =>
    if e.lo < b.lo then
      if e.hi = b.lo then prepend (e.join b) l else e :: release b l
    else prepend b (e :: l)

theorem cover_prepend (b : Extent) (l : List Extent) : cover (prepend b l) = b.cells ∪ cover l := by
  cases l with
  | nil => simp [prepend]
  | cons e l =>
    simp only [prepend]
    split
    · next h => rw [cover_cons, cells_join h, cover_cons, Set.union_assoc]
    · rw [cover_cons]

theorem cover_release (b : Extent) (l : List Extent) : cover (release b l) = b.cells ∪ cover l := by
  induction l with
  | nil => simp [release]
  | cons e l ih =>
    unfold release
    split
    · split
      · next h => rw [cover_prepend, cells_join h, cover_cons, Set.union_comm e.cells, Set.union_assoc]
      · rw [cover_cons, ih, cover_cons, Set.union_left_comm]
    · exact cover_prepend b _

theorem total_prepend (b : Extent) (l : List Extent) : total (prepend b l) = b.size + total l := by
  cases l with
  | nil => rfl
  | cons e l =>
    simp only [prepend]
    split <;> simp [Nat.add_assoc]

theorem total_release (b : Extent) (l : List Extent) : total (release b l) = b.size + total l := by
  induction l with
  | nil => rfl
  | cons e l ih =>
    unfold release
    split
    · split
      · rw [total_prepend, join_size, total_cons]; omega
      · rw [total_cons, ih, total_cons]; omega
    · exact total_prepend b _

theorem empties_prepend_le {b : Extent} (hb : 0 < b.size) (l : List Extent) : empties (prepend b l) ≤ empties l := by
  have hb' : b.size ≠ 0 := by omega
  unfold empties
  cases l with
  | nil => simp [prepend, hb']
  | cons e l =>
    simp only [prepend]
    split
    · have hjoin : ¬ (b.size + e.size = 0) := by omega
      rw [List.countP_cons, List.countP_cons, join_size, decide_eq_false hjoin]
      simp
    · simp [List.countP_cons, hb']

theorem empties_release_le {b : Extent} (hb : 0 < b.size) (l : List Extent) : empties (release b l) ≤ empties l := by
  induction l with
  | nil => exact empties_prepend_le hb []
  | cons e l ih =>
    unfold release
    split
    · split
      · have hjoin := empties_prepend_le (b := e.join b) (by rw [join_size]; omega) l
        refine le_trans hjoin ?_
        unfold empties
        rw [List.countP_cons]
        omega
      · unfold empties at ih ⊢
        rw [List.countP_cons, List.countP_cons]
        omega
    · exact empties_prepend_le hb _

/-- Where `release` splits the list: it goes on while the next extent starts before `b`. -/
theorem release_append {b : Extent} {l₁ l₂ : List Extent} (h₁ : ∀ e ∈ l₁, e.lo < b.lo ∧ e.hi ≠ b.lo)
    (h₂ : ∀ e ∈ l₂, b.lo ≤ e.lo) : release b (l₁ ++ l₂) = l₁ ++ prepend b l₂ := by
  induction l₁ with
  | nil =>
    cases l₂ with
    | nil => rfl
    | cons e l₂ =>
      have := h₂ e List.mem_cons_self
      simp only [List.nil_append, release]
      rw [if_neg (by omega)]
  | cons e l₁ ih =>
    obtain ⟨hlt, hne⟩ := h₁ e List.mem_cons_self
    simp only [List.cons_append, release, if_pos hlt, if_neg hne]
    rw [ih fun f hf => h₁ f (List.mem_cons_of_mem _ hf)]

theorem release_append_cons {b c : Extent} {l₁ l₂ : List Extent} (h₁ : ∀ e ∈ l₁, e.lo < b.lo ∧ e.hi ≠ b.lo)
    (hc : c.lo < b.lo) (hcb : c.hi = b.lo) :
    release b (l₁ ++ c :: l₂) = l₁ ++ prepend (c.join b) l₂ := by
  induction l₁ with
  | nil => simp only [List.nil_append, release, if_pos hc, if_pos hcb]
  | cons e l₁ ih =>
    obtain ⟨hlt, hne⟩ := h₁ e List.mem_cons_self
    simp only [List.cons_append, release, if_pos hlt, if_neg hne]
    rw [ih fun f hf => h₁ f (List.mem_cons_of_mem _ hf)]

theorem mem_prepend_lo {b x : Extent} {l : List Extent} (hx : x ∈ prepend b l) :
    x ∈ l ∨ x.lo = b.lo ∧ b.size ≤ x.size := by
  cases l with
  | nil => simp_all [prepend]
  | cons e l =>
    simp only [prepend] at hx
    split at hx
    · rcases List.mem_cons.1 hx with rfl | hx
      · exact .inr ⟨rfl, Nat.le_add_right _ _⟩
      · exact .inl (List.mem_cons_of_mem _ hx)
    · rcases List.mem_cons.1 hx with rfl | hx
      · exact .inr ⟨rfl, le_refl _⟩
      · exact .inl hx

/-- Where an extent of `release b l` starts: with `b`, or with an extent of `l`, which `b` may have been merged into. -/
theorem mem_release_lo {b x : Extent} {l : List Extent} (hx : x ∈ release b l) :
    x.lo = b.lo ∨ ∃ e ∈ l, x.lo = e.lo ∧ (x = e ∨ e.lo < b.lo ∧ e.hi = b.lo) := by
  induction l with
  | nil => simp_all [release]
  | cons e l ih =>
    simp only [release] at hx
    split at hx
    · next hlt =>
      split at hx
      · next hhi =>
        rcases mem_prepend_lo hx with hx | ⟨hx, _⟩
        · exact .inr ⟨x, List.mem_cons_of_mem _ hx, rfl, .inl rfl⟩
        · exact .inr ⟨e, List.mem_cons_self, hx, .inr ⟨hlt, hhi⟩⟩
      · rcases List.mem_cons.1 hx with rfl | hx
        · exact .inr ⟨x, List.mem_cons_self, rfl, .inl rfl⟩
        · rcases ih hx with hx | ⟨f, hf, hx⟩
          · exact .inl hx
          · exact .inr ⟨f, List.mem_cons_of_mem _ hf, hx⟩
    · rcases mem_prepend_lo hx with hx | ⟨hx, _⟩
      · exact .inr ⟨x, hx, rfl, .inl rfl⟩
      · exact .inl hx

theorem sorted_prepend {b : Extent} {l : List Extent} (hl : Sorted room l) (hb : ∀ e ∈ l, b.Before room e) :
    Sorted room (prepend b l) := by
  cases l with
  | nil => simp [prepend, Sorted]
  | cons e l =>
    unfold Sorted at hl ⊢
    have hbe := hb e List.mem_cons_self
    simp only [prepend]
    split
    · next h =>
      rw [List.pairwise_cons] at hl ⊢
      refine ⟨fun f hf => ?_, hl.2⟩
      have hef := hl.1 f hf
      exact ⟨le_trans hbe.1 (le_trans (Nat.le_add_right _ _) hef.1), by rw [join_hi h]; exact hef.2⟩
    · exact List.pairwise_cons.2 ⟨hb, hl⟩

theorem coalesced_prepend {b : Extent} {l : List Extent} (hs : Sorted room l) (hc : Coalesced l) (hr : 0 < room)
    (hb : ∀ e ∈ l, b.Before room e) : Coalesced (prepend b l) := by
  cases l with
  | nil => simp [prepend, Coalesced]
  | cons e l =>
    unfold Coalesced at hc ⊢
    unfold Sorted at hs
    have hbe := hb e List.mem_cons_self
    rw [List.pairwise_cons] at hs
    simp only [prepend]
    split
    · next h =>
      rw [List.pairwise_cons] at hc ⊢
      refine ⟨fun f hf h0 => ?_, hc.2⟩
      rw [join_hi h]
      exact hc.1 f hf h0
    · next h =>
      refine List.pairwise_cons.2 ⟨fun f hf h0 => ?_, hc⟩
      rcases List.mem_cons.1 hf with rfl | hf
      · have := hbe.2; omega
      · have := (hs.1 f hf).1; have := hbe.2; omega

/-- `b` lies before what follows an extent that it lies before, or whose end it starts at. -/
theorem before_of_apart {b e f : Extent} (hr : 0 < room) (hef : e.Before room f) (he : b.lo ≤ e.lo ∨ e.hi = b.lo)
    (hbf : f.Apart room b) : b.Before room f := by
  rcases hbf with hbf | hbf
  · have h1 := hef.1; have h2 := hef.2; have h3 := hbf.1; omega
  · exact hbf

theorem sorted_release {b : Extent} {l : List Extent} (hl : Sorted room l) (hr : 0 < room)
    (hb : ∀ e ∈ l, e.Apart room b) : Sorted room (release b l) := by
  induction l with
  | nil => simp [release, Sorted]
  | cons e l ih =>
    have hbe := hb e List.mem_cons_self
    have hl' := hl
    unfold Sorted at hl'
    rw [List.pairwise_cons] at hl'
    simp only [release]
    split
    · next hlt =>
      have heb := hbe.before_of_lt hlt
      split
      · next hhi =>
        refine sorted_prepend hl'.2 fun f hf => ?_
        have hbf := before_of_apart hr (hl'.1 f hf) (.inr hhi) (hb f (List.mem_cons_of_mem _ hf))
        exact ⟨(hl'.1 f hf).1, by rw [join_hi hhi]; exact hbf.2⟩
      · refine List.pairwise_cons.2 ⟨fun x hx => ?_, ih hl'.2 fun f hf => hb f (List.mem_cons_of_mem _ hf)⟩
        rcases mem_release_lo hx with hx | ⟨f, hf, hx, _⟩
        · exact ⟨hx ▸ heb.1, hx ▸ heb.2⟩
        · exact ⟨hx ▸ (hl'.1 f hf).1, hx ▸ (hl'.1 f hf).2⟩
    · next hlt =>
      refine sorted_prepend hl fun f hf => ?_
      rcases List.mem_cons.1 hf with rfl | hf
      · exact hbe.before_of_le hr (by omega)
      · exact before_of_apart hr (hl'.1 f hf) (.inl (by omega)) (hb f (List.mem_cons_of_mem _ hf))

theorem coalesced_release {b : Extent} {l : List Extent} (hs : Sorted room l) (hc : Coalesced l) (hr : 0 < room)
    (hb : ∀ e ∈ l, e.Apart room b) : Coalesced (release b l) := by
  induction l with
  | nil => simp [release, Coalesced]
  | cons e l ih =>
    have hbe := hb e List.mem_cons_self
    have hs' := hs
    have hc' := hc
    unfold Sorted at hs'
    unfold Coalesced at hc'
    rw [List.pairwise_cons] at hs' hc'
    simp only [release]
    split
    · next hlt =>
      have heb := hbe.before_of_lt hlt
      split
      · next hhi =>
        refine coalesced_prepend hs'.2 hc'.2 hr fun f hf => ?_
        have hbf := before_of_apart hr (hs'.1 f hf) (.inr hhi) (hb f (List.mem_cons_of_mem _ hf))
        exact ⟨(hs'.1 f hf).1, by rw [join_hi hhi]; exact hbf.2⟩
      · next hhi =>
        refine List.pairwise_cons.2 ⟨fun x hx h0 => ?_, ih hs'.2 hc'.2 fun f hf => hb f (List.mem_cons_of_mem _ hf)⟩
        rcases mem_release_lo hx with hx | ⟨f, hf, hx, rfl | hf'⟩
        · have := heb.2; omega
        · exact hc'.1 x hf h0
        · -- a neighbour that ends where `b` starts has cells of its own
          have hfb := (hb f (List.mem_cons_of_mem _ hf)).before_of_lt hf'.1
          have hf0 : 0 < f.size := by
            have := hfb.1
            have : f.hi = f.lo + f.size := rfl
            omega
          rw [hx]
          exact hc'.1 f hf hf0
    · next hlt =>
      refine coalesced_prepend hs hc hr fun f hf => ?_
      rcases List.mem_cons.1 hf with rfl | hf
      · exact hbe.before_of_le hr (by omega)
      · exact before_of_apart hr (hs'.1 f hf) (.inl (by omega)) (hb f (List.mem_cons_of_mem _ hf))

/-- What holds of the extents of the list and of `b`, and is kept by merging, holds after `release`. -/
theorem forall_mem_release {P : Extent → Prop} (hjoin : ∀ e f, P e → P f → e.hi = f.lo → P (e.join f)) {b : Extent}
    {l : List Extent} (hb : P b) (hl : ∀ e ∈ l, P e) : ∀ x ∈ release b l, P x := by
  have hprepend : ∀ {c : Extent} {k : List Extent}, P c → (∀ e ∈ k, P e) → ∀ x ∈ prepend c k, P x := by
    intro c k hc hk x hx
    cases k with
    | nil => exact (List.mem_singleton.1 hx) ▸ hc
    | cons e k =>
      rw [List.forall_mem_cons] at hk
      simp only [prepend] at hx
      split at hx
      · next h =>
        rcases List.mem_cons.1 hx with rfl | hx
        · exact hjoin c e hc hk.1 h
        · exact hk.2 x hx
      · rcases List.mem_cons.1 hx with rfl | hx
        · exact hc
        · exact List.forall_mem_cons.2 hk x hx
  induction l with
  | nil => exact fun x hx => (List.mem_singleton.1 hx) ▸ hb
  | cons e l ih =>
    rw [List.forall_mem_cons] at hl
    simp only [release]
    split
    · split
      · next h => exact hprepend (hjoin e b hl.1 hb h) hl.2
      · exact List.forall_mem_cons.2 ⟨hl.1, ih hl.2⟩
    · exact hprepend hb (List.forall_mem_cons.2 hl)

/-! What `release` does at the place that `b` has in the order -/

theorem exists_sorted_insert {b : Extent} {l : List Extent} (hs : Sorted room l) (hr : 0 < room)
    (hb : ∀ e ∈ l, e.Apart room b) : ∃ l₁ l₂, l = l₁ ++ l₂ ∧ Sorted room (l₁ ++ b :: l₂) := by
  induction l with
  | nil => exact ⟨[], [], rfl, List.pairwise_singleton _ _⟩
  | cons e l ih =>
    have hs' := hs
    unfold Sorted at hs'
    rw [List.pairwise_cons] at hs'
    have hbe := hb e List.mem_cons_self
    have hbl : ∀ f ∈ l, f.Apart room b := fun f hf => hb f (List.mem_cons_of_mem _ hf)
    by_cases hlt : e.lo < b.lo
    · obtain ⟨l₁, l₂, rfl, hl⟩ := ih hs'.2 hbl
      refine ⟨e :: l₁, l₂, rfl, List.pairwise_cons.2 ⟨fun f hf => ?_, hl⟩⟩
      rcases List.mem_append.1 hf with hf | hf
      · exact hs'.1 f (List.mem_append_left _ hf)
      · rcases List.mem_cons.1 hf with rfl | hf
        · exact hbe.before_of_lt hlt
        · exact hs'.1 f (List.mem_append_right _ hf)
    · refine ⟨[], e :: l, rfl, List.pairwise_cons.2 ⟨fun f hf => ?_, hs⟩⟩
      rcases List.mem_cons.1 hf with rfl | hf
      · exact hbe.before_of_le hr (by omega)
      · exact before_of_apart hr (hs'.1 f hf) (.inl (by omega)) (hbl f hf)

theorem release_eq_join {b c : Extent} {l₁ l₂ : List Extent} (hs : Sorted room (l₁ ++ c :: b :: l₂)) (hr : 0 < room)
    (hcb : c.hi = b.lo) : release b (l₁ ++ c :: l₂) = l₁ ++ prepend (c.join b) l₂ := by
  unfold Sorted at hs
  rw [List.pairwise_append, List.pairwise_cons] at hs
  have hc := hs.2.1.1 b List.mem_cons_self
  refine release_append_cons (fun e he => ?_) (by have := hc.1; omega) hcb
  have heb := hs.2.2 e he b (by simp)
  have hec := hs.2.2 e he c (by simp)
  have := hec.2
  have := hc.1
  exact ⟨by have := heb.1; omega, by omega⟩

theorem release_eq_append {b : Extent} {l₁ l₂ : List Extent} (hs : Sorted room (l₁ ++ b :: l₂)) (hr : 0 < room)
    (hne : ∀ l c, l₁ = l ++ [c] → c.hi ≠ b.lo) : release b (l₁ ++ l₂) = l₁ ++ prepend b l₂ := by
  unfold Sorted at hs
  rw [List.pairwise_append, List.pairwise_cons] at hs
  refine release_append (fun e he => ?_) fun e he => by have := (hs.2.1.1 e he).1; omega
  have heb := hs.2.2 e he b List.mem_cons_self
  refine ⟨by have := heb.1; omega, ?_⟩
  rcases List.eq_nil_or_concat l₁ with rfl | ⟨l, c, rfl⟩
  · cases he
  · rw [List.concat_eq_append] at *
    rcases List.mem_append.1 he with he | he
    · have hec := (List.pairwise_append.1 hs.1).2.2 e he c (by simp)
      have hcb := hs.2.2 c (by simp) b List.mem_cons_self
      have := hec.2
      have := hcb.1
      omega
    · obtain rfl := List.mem_singleton.1 he
      exact hne l e rfl

theorem mem_of_prepend_eq {b y : Extent} {l l' : List Extent} (h : prepend b l = y :: l') {e : Extent} (he : e ∈ l') :
    e ∈ l := by
  cases l with
  | nil =>
    obtain ⟨-, rfl⟩ := List.cons.inj h
    exact he
  | cons f l =>
    simp only [prepend] at h
    split at h
    · obtain ⟨-, rfl⟩ := List.cons.inj h
      exact List.mem_cons_of_mem _ he
    · obtain ⟨-, rfl⟩ := List.cons.inj h
      exact he

/-! ### Allocation -/

/-- `n` cells from the front of an extent of at least `n`, and what is left of it.  The rest stays with the cells
handed out if it has no more than `spare` cells. -/
def Extent.cut (n spare : ℕ) (e : Extent) : Extent × List Extent :=
  if spare < e.size - n then (⟨e.lo, n⟩, [⟨e.lo + n, e.size - n⟩]) else (e, [])

/-- The extent handed out and the list without it. -/
def allocate (n spare : ℕ) : List Extent → Option (Extent × List Extent)
  | [] => none
  | e :: l =>
    if e.size < n then (allocate n spare l).map fun p => (p.1, e :: p.2)
    else some ((e.cut n spare).1, (e.cut n spare).2 ++ l)

variable {n spare : ℕ}

theorem allocate_eq_some {l l' : List Extent} {b : Extent} (h : allocate n spare l = some (b, l')) :
    ∃ pre e post, l = pre ++ e :: post ∧ (∀ x ∈ pre, x.size < n) ∧ n ≤ e.size ∧
      b = (e.cut n spare).1 ∧ l' = pre ++ ((e.cut n spare).2 ++ post) := by
  induction l generalizing l' with
  | nil => cases h
  | cons e l ih =>
    simp only [allocate] at h
    split at h
    · next hlt =>
      obtain ⟨⟨b', k⟩, hk, hb⟩ := Option.map_eq_some_iff.1 h
      obtain ⟨rfl, rfl⟩ := Prod.mk.inj hb
      obtain ⟨pre, f, post, rfl, hpre, hf, hbf, rfl⟩ := ih hk
      exact ⟨e :: pre, f, post, rfl, List.forall_mem_cons.2 ⟨hlt, hpre⟩, hf, hbf, rfl⟩
    · next hlt =>
      obtain ⟨rfl, rfl⟩ := Prod.mk.inj (Option.some.inj h)
      exact ⟨[], e, l, rfl, by simp, Nat.le_of_not_lt hlt, rfl, rfl⟩

theorem allocate_eq_none {l : List Extent} : allocate n spare l = none ↔ ∀ e ∈ l, e.size < n := by
  induction l with
  | nil => simp [allocate]
  | cons e l ih =>
    simp only [allocate]
    split
    · next h => simp [ih, h]
    · next h => simp [h]

theorem cut_lo (e : Extent) : (e.cut n spare).1.lo = e.lo := by
  unfold Extent.cut; split <;> rfl

theorem le_cut_size {e : Extent} (he : n ≤ e.size) : n ≤ (e.cut n spare).1.size := by
  unfold Extent.cut; split
  · exact le_refl n
  · exact he

theorem cut_size_le (e : Extent) : (e.cut n spare).1.size ≤ n + spare := by
  unfold Extent.cut; split
  · exact Nat.le_add_right n spare
  · show e.size ≤ n + spare; omega

theorem cut_size_eq (e : Extent) : (e.cut n spare).1.size = n ∨ (e.cut n spare).1.size = e.size := by
  unfold Extent.cut; split
  · exact .inl rfl
  · exact .inr rfl

theorem cut_hi_le {e : Extent} (he : n ≤ e.size) : (e.cut n spare).1.hi ≤ e.hi := by
  unfold Extent.cut; split
  · simp only [hi]; omega
  · exact le_refl e.hi

theorem cells_cut (spare : ℕ) {e : Extent} (he : n ≤ e.size) :
    (e.cut n spare).1.cells ∪ cover (e.cut n spare).2 = e.cells := by
  unfold Extent.cut; split
  · ext a
    simp only [cover_cons, cover_nil, Set.union_empty, Set.mem_union, mem_cells, hi]
    omega
  · simp

theorem total_cut (spare : ℕ) {e : Extent} (he : n ≤ e.size) :
    (e.cut n spare).1.size + total (e.cut n spare).2 = e.size := by
  unfold Extent.cut; split
  · simp only [total_cons, total_nil]; omega
  · simp

/-- The rest of the extent lies behind the cells handed out, up to the end of the extent. -/
theorem mem_cut {e x : Extent} (he : n ≤ e.size) (hx : x ∈ (e.cut n spare).2) :
    (e.cut n spare).1.hi = x.lo ∧ x.lo = e.lo + n ∧ x.hi = e.hi ∧ spare < x.size := by
  unfold Extent.cut at hx ⊢
  split at hx
  · next h =>
    obtain rfl := List.mem_singleton.1 hx
    rw [if_pos h]
    refine ⟨rfl, rfl, ?_, h⟩
    simp only [hi]
    omega
  · cases hx

theorem pairwise_cut (R : Extent → Extent → Prop) (e : Extent) : (e.cut n spare).2.Pairwise R := by
  unfold Extent.cut; split
  · exact List.pairwise_singleton R _
  · exact List.Pairwise.nil

theorem cover_allocate {l l' : List Extent} {b : Extent} (h : allocate n spare l = some (b, l')) :
    b.cells ∪ cover l' = cover l := by
  obtain ⟨pre, e, post, rfl, -, he, rfl, rfl⟩ := allocate_eq_some h
  simp only [cover_append, cover_cons]
  rw [← cells_cut spare he]
  ac_rfl

theorem total_allocate {l l' : List Extent} {b : Extent} (h : allocate n spare l = some (b, l')) :
    b.size + total l' = total l := by
  obtain ⟨pre, e, post, rfl, -, he, rfl, rfl⟩ := allocate_eq_some h
  have := total_cut spare he
  simp only [total_append, total_cons]
  omega

theorem sorted_allocate {l l' : List Extent} {b : Extent} (hs : Sorted room l) (hr : room ≤ spare)
    (h : allocate n spare l = some (b, l')) : Sorted room l' := by
  obtain ⟨pre, e, post, rfl, -, he, -, rfl⟩ := allocate_eq_some h
  unfold Sorted at hs ⊢
  rw [List.pairwise_append, List.pairwise_cons] at hs
  obtain ⟨hpre, ⟨hepost, hpost⟩, hcross⟩ := hs
  refine List.pairwise_append.2 ⟨hpre, List.pairwise_append.2 ⟨pairwise_cut _ e, hpost, fun x hx y hy => ?_⟩,
    fun x hx y hy => ?_⟩
  · obtain ⟨-, -, hhi, hsize⟩ := mem_cut he hx
    have hxhi : x.hi = x.lo + x.size := rfl
    have := (hepost y hy).2
    exact ⟨by omega, by omega⟩
  · rcases List.mem_append.1 hy with hy | hy
    · obtain ⟨-, hlo, -, -⟩ := mem_cut he hy
      have hxe := hcross x hx e List.mem_cons_self
      exact ⟨by have := hxe.1; omega, by have := hxe.2; omega⟩
    · exact hcross x hx y (List.mem_cons_of_mem _ hy)

theorem coalesced_allocate {l l' : List Extent} {b : Extent} (hc : Coalesced l)
    (h : allocate n spare l = some (b, l')) : Coalesced l' := by
  obtain ⟨pre, e, post, rfl, -, he, -, rfl⟩ := allocate_eq_some h
  unfold Coalesced at hc ⊢
  rw [List.pairwise_append, List.pairwise_cons] at hc
  obtain ⟨hpre, ⟨hepost, hpost⟩, hcross⟩ := hc
  refine List.pairwise_append.2 ⟨hpre, List.pairwise_append.2 ⟨pairwise_cut _ e, hpost, fun x hx y hy h0 => ?_⟩,
    fun x hx y hy h0 => ?_⟩
  · obtain ⟨-, -, hhi, -⟩ := mem_cut he hx
    rw [hhi]
    exact hepost y hy h0
  · rcases List.mem_append.1 hy with hy | hy
    · obtain ⟨-, hlo, hhi, hsize⟩ := mem_cut he hy
      unfold hi at hhi
      have := hcross x hx e List.mem_cons_self (by omega)
      omega
    · exact hcross x hx y (List.mem_cons_of_mem _ hy) h0

theorem apart_allocate {l l' : List Extent} {b : Extent} (hs : Sorted room l) (hr : room ≤ n)
    (h : allocate n spare l = some (b, l')) {x : Extent} (hx : x ∈ l') : x.Apart room b := by
  obtain ⟨pre, e, post, rfl, -, he, rfl, rfl⟩ := allocate_eq_some h
  unfold Sorted at hs
  rw [List.pairwise_append, List.pairwise_cons] at hs
  obtain ⟨-, ⟨hepost, -⟩, hcross⟩ := hs
  have hlo : (e.cut n spare).1.lo = e.lo := cut_lo e
  have hhi : (e.cut n spare).1.hi ≤ e.hi := cut_hi_le he
  rcases List.mem_append.1 hx with hx | hx
  · have hxe := hcross x hx e List.mem_cons_self
    exact .inl ⟨by have := hxe.1; omega, by have := hxe.2; omega⟩
  · rcases List.mem_append.1 hx with hx | hx
    · obtain ⟨hbx, hxlo, -, -⟩ := mem_cut he hx
      exact .inr ⟨by omega, by omega⟩
    · have hex := hepost x hx
      exact .inr ⟨by have := hex.1; omega, by have := hex.2; omega⟩

/-- The extent handed out lies within one of the list. -/
theorem exists_of_allocate {l l' : List Extent} {b : Extent} (h : allocate n spare l = some (b, l')) :
    ∃ e ∈ l, n ≤ e.size ∧ b = (e.cut n spare).1 := by
  obtain ⟨pre, e, post, rfl, -, he, rfl, -⟩ := allocate_eq_some h
  exact ⟨e, by simp, he, rfl⟩

/-- What is left in the list was there before, or is the rest of an extent. -/
theorem mem_allocate {l l' : List Extent} {b x : Extent} (h : allocate n spare l = some (b, l')) (hx : x ∈ l') :
    x ∈ l ∨ ∃ e ∈ l, n ≤ e.size ∧ x ∈ (e.cut n spare).2 := by
  obtain ⟨pre, e, post, rfl, -, he, -, rfl⟩ := allocate_eq_some h
  rcases List.mem_append.1 hx with hx | hx
  · exact .inl (List.mem_append_left _ hx)
  · rcases List.mem_append.1 hx with hx | hx
    · exact .inr ⟨e, by simp, he, hx⟩
    · exact .inl (List.mem_append_right _ (List.mem_cons_of_mem _ hx))

theorem empties_allocate_le {l l' : List Extent} {b : Extent} (h : allocate n spare l = some (b, l')) :
    empties l' ≤ empties l := by
  obtain ⟨pre, e, post, rfl, -, -, -, rfl⟩ := allocate_eq_some h
  have hcut : ((e.cut n spare).2.countP fun e => decide (e.size = 0)) = 0 := by
    unfold Extent.cut
    split
    · next hlt => simp; omega
    · rfl
  unfold empties
  rw [List.countP_append, List.countP_append, List.countP_append, List.countP_cons, hcut]
  omega

/-- `allocate` fails only if the request fits nowhere. -/
theorem allocate_eq_none_iff {l : List Extent} (hs : Sorted room l) (hc : Coalesced l) (hr : 0 < room) (hn : 0 < n) :
    allocate n spare l = none ↔ ∀ a, ¬ Set.Ico a (a + n) ⊆ cover l := by
  rw [allocate_eq_none]
  constructor
  · intro h a ha
    obtain ⟨e, he, hea, hae⟩ := exists_mem_of_Ico_subset hs hc hr (by omega) ha
    have := h e he
    have : e.hi = e.lo + e.size := rfl
    omega
  · intro h e he
    by_contra hlt
    refine h e.lo fun a ha => ⟨e, he, ha.1, ?_⟩
    have := ha.2
    have : e.hi = e.lo + e.size := rfl
    omega

/-- What `allocate` hands out starts at the lowest place at which the request fits. -/
theorem isLeast_allocate {l l' : List Extent} {b : Extent} (hs : Sorted room l) (hc : Coalesced l) (hr : 0 < room)
    (hn : 0 < n) (h : allocate n spare l = some (b, l')) :
    IsLeast {a | Set.Ico a (a + n) ⊆ cover l} b.lo := by
  obtain ⟨pre, e, post, rfl, hpre, he, rfl, -⟩ := allocate_eq_some h
  rw [cut_lo]
  have hehi : e.hi = e.lo + e.size := rfl
  refine ⟨fun a ha => ⟨e, by simp, ha.1, by have := ha.2; omega⟩, fun a ha => ?_⟩
  obtain ⟨f, hf, hfa, haf⟩ := exists_mem_of_Ico_subset hs hc hr (by omega) ha
  have hfhi : f.hi = f.lo + f.size := rfl
  unfold Sorted at hs
  rw [List.pairwise_append, List.pairwise_cons] at hs
  rcases List.mem_append.1 hf with hf | hf
  · have := hpre f hf; omega
  · rcases List.mem_cons.1 hf with rfl | hf
    · exact hfa
    · have := (hs.2.1.1 f hf).1; omega

end Extents
