import LcdKeypad.General.LinkedRing
import LcdKeypad.Port
import Mathlib.Algebra.Group.Nat.Defs
import Mathlib.Data.List.Nodup
import Mathlib.Data.List.TakeWhile

/-!
# The lists of the kernel (`list.c`)

A `List_t` is a ring of list items with its end marker as the head.  All the lists that the links of the items lead
through lie in one memory; `Lists m L` says that the memory holds the list `L i` of items for every list `i`.  Then
`vListInsert`, `vListInsertEnd` and `uxListRemove` insert an item into one of them and take it out again.
-/

namespace LcdKeypad

open LinkedRing

/-- What a link leads to: the end marker of a `List_t`, or a `ListItem_t`. -/
inductive ListNode (ι α : Type)
  | xListEnd (pxList : ι)
  | item (pxItem : α)
  deriving DecidableEq

/-- The fields of all lists and items; the owner of an item is known from the item. -/
structure ListMemory (ι α : Type) where
  xItemValue : ListNode ι α → UInt32
  pxNext : ListNode ι α → ListNode ι α
  pxPrevious : ListNode ι α → ListNode ι α
  pxContainer : α → Option ι
  uxNumberOfItems : ι → UInt32
  pxIndex : ι → ListNode ι α

variable {ι α : Type}

/-- The item that a link leads to. -/
def ListNode.toItem : ListNode ι α → Except KernelStop α
  | item x => .ok x
  | xListEnd _ => .error .wildPointer

section Operations

variable [DecidableEq ι] [DecidableEq α]

namespace ListMemory

def setNext (m : ListMemory ι α) (p q : ListNode ι α) : ListMemory ι α :=
  { m with pxNext := Function.update m.pxNext p q }

def setPrevious (m : ListMemory ι α) (p q : ListNode ι α) : ListMemory ι α :=
  { m with pxPrevious := Function.update m.pxPrevious p q }

end ListMemory

def vListInitialise (pxList : ι) (m : ListMemory ι α) : ListMemory ι α :=
  { m with
    pxIndex := Function.update m.pxIndex pxList (.xListEnd pxList)
    xItemValue := Function.update m.xItemValue (.xListEnd pxList) portMAX_DELAY
    pxNext := Function.update m.pxNext (.xListEnd pxList) (.xListEnd pxList)
    pxPrevious := Function.update m.pxPrevious (.xListEnd pxList) (.xListEnd pxList)
    uxNumberOfItems := Function.update m.uxNumberOfItems pxList 0 }

def vListInitialiseItem (pxItem : α) (m : ListMemory ι α) : ListMemory ι α :=
  { m with pxContainer := Function.update m.pxContainer pxItem none }

/-- The item is recorded as being in the list. -/
def ListMemory.enter (m : ListMemory ι α) (pxList : ι) (pxNewListItem : α) : ListMemory ι α :=
  { m with
    pxContainer := Function.update m.pxContainer pxNewListItem (some pxList)
    uxNumberOfItems := Function.update m.uxNumberOfItems pxList (m.uxNumberOfItems pxList + 1) }

def vListInsertEnd (pxList : ι) (pxNewListItem : α) (m : ListMemory ι α) : ListMemory ι α :=
  let pxIndex := m.pxIndex pxList
  let m := m.setNext (.item pxNewListItem) pxIndex
  let m := m.setPrevious (.item pxNewListItem) (m.pxPrevious pxIndex)
  let m := m.setNext (m.pxPrevious pxIndex) (.item pxNewListItem)
  let m := m.setPrevious pxIndex (.item pxNewListItem)
  m.enter pxList pxNewListItem

/-- The `for` loop: from `pxIterator` on to the last item with a value not above the one that is inserted. -/
def listIterator (m : ListMemory ι α) (xValueOfInsertion : UInt32) : ℕ → ListNode ι α → Except KernelStop (ListNode ι α)
  | 0, _ => .error .fuel
  | fuel + 1, pxIterator =>
    if m.xItemValue (m.pxNext pxIterator) ≤ xValueOfInsertion then
      listIterator m xValueOfInsertion fuel (m.pxNext pxIterator)
    else .ok pxIterator

/-- The item that the new one is inserted behind. -/
def insertionIterator (m : ListMemory ι α) (fuel : ℕ) (pxList : ι) (xValueOfInsertion : UInt32) :
    Except KernelStop (ListNode ι α) :=
  if xValueOfInsertion = portMAX_DELAY then .ok (m.pxPrevious (.xListEnd pxList))
  else listIterator m xValueOfInsertion fuel (.xListEnd pxList)

def vListInsert (fuel : ℕ) (pxList : ι) (pxNewListItem : α) (m : ListMemory ι α) :
    Except KernelStop (ListMemory ι α) := do
  let pxIterator ← insertionIterator m fuel pxList (m.xItemValue (.item pxNewListItem))
  let m := m.setNext (.item pxNewListItem) (m.pxNext pxIterator)
  let m := m.setPrevious (m.pxNext (.item pxNewListItem)) (.item pxNewListItem)
  let m := m.setPrevious (.item pxNewListItem) pxIterator
  let m := m.setNext pxIterator (.item pxNewListItem)
  return m.enter pxList pxNewListItem

/-- The number of items left in the list as well. -/
def uxListRemove (pxItemToRemove : α) (m : ListMemory ι α) : Except KernelStop (ListMemory ι α × UInt32) :=
  match m.pxContainer pxItemToRemove with
  | none => .error .wildPointer
  | some pxList =>
    let pxItem := .item pxItemToRemove
    let m := m.setPrevious (m.pxNext pxItem) (m.pxPrevious pxItem)
    let m := m.setNext (m.pxPrevious pxItem) (m.pxNext pxItem)
    let m := if m.pxIndex pxList = pxItem then
      { m with pxIndex := Function.update m.pxIndex pxList (m.pxPrevious pxItem) } else m
    let m : ListMemory ι α := { m with
      pxContainer := Function.update m.pxContainer pxItemToRemove none
      uxNumberOfItems := Function.update m.uxNumberOfItems pxList (m.uxNumberOfItems pxList - 1) }
    .ok (m, m.uxNumberOfItems pxList)

def listLIST_IS_EMPTY (pxList : ι) (m : ListMemory ι α) : Prop := m.uxNumberOfItems pxList = 0

instance (pxList : ι) (m : ListMemory ι α) : Decidable (listLIST_IS_EMPTY pxList m) := inferInstanceAs (Decidable (_ = _))

/-- `pxIndex` moves on to the next item, past the end marker; the item stands for its owner. -/
def listGET_OWNER_OF_NEXT_ENTRY (pxList : ι) (m : ListMemory ι α) : Except KernelStop (ListMemory ι α × α) := do
  let pxIndex := m.pxNext (m.pxIndex pxList)
  let pxIndex := if pxIndex = .xListEnd pxList then m.pxNext (.xListEnd pxList) else pxIndex
  let pxItem ← pxIndex.toItem
  return ({ m with pxIndex := Function.update m.pxIndex pxList pxIndex }, pxItem)

def listGET_OWNER_OF_HEAD_ENTRY (pxList : ι) (m : ListMemory ι α) : Except KernelStop α :=
  (m.pxNext (.xListEnd pxList)).toItem

end Operations

/-! ### The lists in memory -/

namespace ListMemory

def links (m : ListMemory ι α) : Links (ListNode ι α) := ⟨m.pxNext, m.pxPrevious⟩

end ListMemory

/-- The list `i` holds the items `L i`, in this order. -/
structure Lists (m : ListMemory ι α) (L : ι → List α) : Prop where
  ring : ∀ i, IsRing m.links (.xListEnd i) ((L i).map .item)
  container : ∀ x i, m.pxContainer x = some i ↔ x ∈ L i
  number : ∀ i, m.uxNumberOfItems i = .ofNat (L i).length
  index : ∀ i, m.pxIndex i ∈ .xListEnd i :: (L i).map .item
  end_value : ∀ i, m.xItemValue (.xListEnd i) = portMAX_DELAY

/-- The item values do not decrease along the list. -/
def ListMemory.Ascending (m : ListMemory ι α) (l : List α) : Prop :=
  l.Pairwise fun x y => m.xItemValue (.item x) ≤ m.xItemValue (.item y)

/-- The items of the list up to the one that `pxIndex` stands at, and those behind it. -/
def IndexAt (m : ListMemory ι α) (L : ι → List α) (i : ι) (s₁ s₂ : List α) : Prop :=
  L i = s₁ ++ s₂ ∧ m.pxIndex i = last (.xListEnd i) (s₁.map .item)

/-- The item `x` has been taken out of its list. -/
structure Removed [DecidableEq α] (m m' : ListMemory ι α) (L L' : ι → List α) (x : α) : Prop where
  mem : ∀ y j, y ∈ L' j ↔ y ∈ L j ∧ y ≠ x
  sublist : ∀ j, (L' j).Sublist (L j)
  value : m'.xItemValue = m.xItemValue
  container : m'.pxContainer = Function.update m.pxContainer x none
  index : ∀ {j s₁ s₂}, IndexAt m L j s₁ s₂ → IndexAt m' L' j (s₁.erase x) (s₂.erase x)

/-- The item `x` is in the list `i` as well. -/
structure Inserted [DecidableEq α] (m m' : ListMemory ι α) (L L' : ι → List α) (x : α) (i : ι) : Prop where
  mem : ∀ y j, y ∈ L' j ↔ y ∈ L j ∨ (y = x ∧ j = i)
  other : ∀ j, j ≠ i → L' j = L j
  value : m'.xItemValue = m.xItemValue
  container : m'.pxContainer = Function.update m.pxContainer x (some i)
  index : m'.pxIndex = m.pxIndex

namespace Lists

variable {m : ListMemory ι α} {L : ι → List α} {i : ι} {x : α} {l₁ l₂ : List α}

theorem nodup (h : Lists m L) (i : ι) : (L i).Nodup :=
  List.Nodup.of_map _ (List.nodup_cons.1 (h.ring i).nodup).2

/-- An item is in one list only. -/
theorem eq_of_mem (h : Lists m L) {j : ι} (hi : x ∈ L i) (hj : x ∈ L j) : i = j := by
  have hi' := (h.container x i).2 hi
  rw [(h.container x j).2 hj] at hi'
  exact (Option.some.inj hi').symm

theorem item_mem {l : List α} : (ListNode.item x : ListNode ι α) ∈ .xListEnd i :: l.map .item ↔ x ∈ l := by
  simp

theorem disjoint_rings (h : Lists m L) {j : ι} (hij : j ≠ i) :
    ∀ u ∈ ListNode.xListEnd j :: (L j).map .item, u ∉ ListNode.xListEnd i :: (L i).map .item := by
  intro u hu hu'
  cases u with
  | xListEnd k =>
    simp at hu hu'
    exact hij (hu ▸ hu')
  | item y =>
    rw [item_mem] at hu hu'
    exact hij (h.eq_of_mem hu hu')

theorem next_end (h : Lists m L) (i : ι) : m.pxNext (.xListEnd i) = first (.xListEnd i) ((L i).map .item) := by
  have hring : IsRing m.links (.xListEnd i) ([] ++ (L i).map .item) := h.ring i
  exact hring.links_at.1

theorem previous_end (h : Lists m L) (i : ι) : m.pxPrevious (.xListEnd i) = last (.xListEnd i) ((L i).map .item) := by
  have hring : IsRing m.links (.xListEnd i) ((L i).map .item ++ []) := by
    rw [List.append_nil]
    exact h.ring i
  exact hring.links_at.2

theorem links_at (h : Lists m L) (hi : L i = l₁ ++ l₂) :
    m.pxNext (last (.xListEnd i) (l₁.map .item)) = first (.xListEnd i) (l₂.map .item) ∧
      m.pxPrevious (first (.xListEnd i) (l₂.map .item)) = last (.xListEnd i) (l₁.map .item) := by
  have hring := h.ring i
  rw [hi, List.map_append] at hring
  exact hring.links_at

theorem next_item (h : Lists m L) (hi : L i = l₁ ++ x :: l₂) :
    m.pxNext (.item x) = first (.xListEnd i) (l₂.map .item) := by
  have hi' : L i = (l₁ ++ [x]) ++ l₂ := by simpa using hi
  have hnext := (h.links_at hi').1
  rwa [show last (ListNode.xListEnd i) ((l₁ ++ [x]).map .item) = ListNode.item x by simp [last]] at hnext

theorem previous_item (h : Lists m L) (hi : L i = l₁ ++ x :: l₂) :
    m.pxPrevious (.item x) = last (.xListEnd i) (l₁.map .item) := (h.links_at hi).2

theorem exists_indexAt (h : Lists m L) (i : ι) : ∃ s₁ s₂, IndexAt m L i s₁ s₂ := by
  rcases List.mem_cons.1 (h.index i) with hend | hitem
  · exact ⟨[], L i, rfl, hend⟩
  · obtain ⟨y, hy, hyi⟩ := List.mem_map.1 hitem
    obtain ⟨l₁, l₂, hl⟩ := List.append_of_mem hy
    refine ⟨l₁ ++ [y], l₂, by simp [hl], ?_⟩
    rw [← hyi]
    simp [last]

theorem last_map_concat (i : ι) (l : List α) (x : α) :
    last (ListNode.xListEnd i) ((l ++ [x]).map .item) = ListNode.item x := by
  simp [last]

/-- The place right before the one of `pxIndex`. -/
theorem exists_before_index (h : Lists m L) (i : ι) :
    ∃ l₁ l₂, L i = l₁ ++ l₂ ∧ m.pxIndex i = first (.xListEnd i) (l₂.map .item) := by
  obtain ⟨s₁, s₂, hs, hsi⟩ := h.exists_indexAt i
  rcases List.eq_nil_or_concat s₁ with rfl | ⟨s, p, rfl⟩
  · exact ⟨L i, [], by simp, hsi⟩
  · rw [List.concat_eq_append] at hs hsi
    rw [last_map_concat] at hsi
    exact ⟨s, p :: s₂, by simpa using hs, hsi⟩

/-- An item stands at one place only. -/
theorem not_mem_split (h : Lists m L) (hl : L i = l₁ ++ x :: l₂) : x ∉ l₁ ∧ x ∉ l₂ := by
  have hnodup := h.nodup i
  rw [hl] at hnodup
  have hnot := (List.nodup_cons.1 (List.perm_middle.nodup_iff.1 hnodup)).1
  rwa [List.mem_append, not_or] at hnot

theorem split_unique (h : Lists m L) {k₁ k₂ : List α} (hl : L i = l₁ ++ x :: l₂) (hk : L i = k₁ ++ x :: k₂) :
    l₁ = k₁ ∧ l₂ = k₂ := by
  obtain ⟨hx₁, hx₂⟩ := h.not_mem_split hl
  rw [hl] at hk
  exact ((List.append_cons_inj_of_notMem hx₁ hx₂).1 hk).imp_right And.right

theorem indexAt_unique (h : Lists m L) {s₁ s₂ r₁ r₂ : List α} (hs : IndexAt m L i s₁ s₂) (hr : IndexAt m L i r₁ r₂) :
    s₁ = r₁ ∧ s₂ = r₂ := by
  obtain ⟨hs, hsi⟩ := hs
  obtain ⟨hr, hri⟩ := hr
  rw [hsi] at hri
  rcases List.eq_nil_or_concat s₁ with rfl | ⟨s, p, rfl⟩
  · rcases List.eq_nil_or_concat r₁ with rfl | ⟨r, q, rfl⟩
    · exact ⟨rfl, by rw [← List.nil_append s₂, ← hs, hr, List.nil_append]⟩
    · rw [List.concat_eq_append, last_map_concat] at hri
      cases hri
  · rw [List.concat_eq_append] at hs hri ⊢
    rw [last_map_concat] at hri
    rcases List.eq_nil_or_concat r₁ with rfl | ⟨r, q, rfl⟩
    · cases hri
    · rw [List.concat_eq_append] at hr hri ⊢
      rw [last_map_concat] at hri
      cases hri
      obtain ⟨rfl, rfl⟩ := h.split_unique (by simpa using hs : L i = s ++ p :: s₂)
        (by simpa using hr : L i = r ++ p :: r₂)
      exact ⟨rfl, rfl⟩

theorem listLIST_IS_EMPTY_iff (h : Lists m L) (hlength : (L i).length < 2 ^ 32) :
    listLIST_IS_EMPTY i m ↔ L i = [] := by
  unfold listLIST_IS_EMPTY
  rw [h.number i, ← UInt32.toNat_inj, UInt32.toNat_ofNat_of_lt' (by simpa [UInt32.size] using hlength)]
  exact List.length_eq_zero_iff

theorem listGET_OWNER_OF_HEAD_ENTRY_eq (h : Lists m L) {l : List α} (hi : L i = x :: l) :
    listGET_OWNER_OF_HEAD_ENTRY i m = .ok x := by
  unfold listGET_OWNER_OF_HEAD_ENTRY
  rw [h.next_end, hi]
  rfl

/-- The loop stops behind the items at the front of `t` with values not above `v`. -/
theorem listIterator_eq (h : Lists m L) {v : UInt32} (hv : v ≠ portMAX_DELAY) {s t : List α} (hi : L i = s ++ t)
    {fuel : ℕ} (hfuel : t.length < fuel) :
    listIterator m v fuel (last (.xListEnd i) (s.map .item)) =
      .ok (last (.xListEnd i) ((s ++ t.takeWhile fun y => decide (m.xItemValue (.item y) ≤ v)).map .item)) := by
  induction t generalizing s fuel with
  | nil =>
    obtain ⟨fuel, rfl⟩ : ∃ k, fuel = k + 1 := ⟨fuel - 1, by omega⟩
    have hnot : ¬ portMAX_DELAY ≤ v := by
      intro hle
      refine hv (UInt32.toNat_inj.1 ?_)
      rw [UInt32.le_iff_toNat_le] at hle
      have hmax : portMAX_DELAY.toNat = 2 ^ 32 - 1 := by decide
      have := v.toNat_lt
      omega
    have hnext : m.pxNext (last (.xListEnd i) (s.map .item)) = .xListEnd i := (h.links_at hi).1
    rw [listIterator, hnext, h.end_value, if_neg hnot, List.takeWhile_nil, List.append_nil]
  | cons y t ih =>
    obtain ⟨fuel, rfl⟩ : ∃ k, fuel = k + 1 := ⟨fuel - 1, by omega⟩
    rw [List.length_cons] at hfuel
    have hnext : m.pxNext (last (.xListEnd i) (s.map .item)) = .item y := (h.links_at hi).1
    rw [listIterator, hnext]
    by_cases hy : m.xItemValue (.item y) ≤ v
    · have hlast : last (ListNode.xListEnd i) ((s ++ [y]).map .item) = ListNode.item y := by simp [last]
      have hstep := ih (by rw [hi]; simp : L i = (s ++ [y]) ++ t) (by omega : t.length < fuel)
      rw [if_pos hy, ← hlast, hstep, List.takeWhile_cons_of_pos (by simpa using hy), List.append_assoc]
      rfl
    · rw [if_neg hy, List.takeWhile_cons_of_neg (by simpa using hy), List.append_nil]

/-- Behind all items with values that are not greater, an item stands in order. -/
theorem ascending_insert {l : List α} (hl : m.Ascending l) :
    m.Ascending (l.takeWhile (fun y => decide (m.xItemValue (.item y) ≤ m.xItemValue (.item x))) ++
      x :: l.dropWhile fun y => decide (m.xItemValue (.item y) ≤ m.xItemValue (.item x))) := by
  induction l with
  | nil => exact List.pairwise_singleton _ _
  | cons y l ih =>
    unfold ListMemory.Ascending at hl ih ⊢
    rw [List.pairwise_cons] at hl
    by_cases hy : m.xItemValue (.item y) ≤ m.xItemValue (.item x)
    · rw [List.takeWhile_cons_of_pos (by simpa using hy), List.dropWhile_cons_of_pos (by simpa using hy),
        List.cons_append, List.pairwise_cons]
      refine ⟨fun z hz => ?_, ih hl.2⟩
      rcases List.mem_append.1 hz with hz | hz
      · exact hl.1 z ((List.takeWhile_sublist _).subset hz)
      · rcases List.mem_cons.1 hz with rfl | hz
        · exact hy
        · exact hl.1 z ((List.dropWhile_sublist _).subset hz)
    · rw [List.takeWhile_cons_of_neg (by simpa using hy), List.dropWhile_cons_of_neg (by simpa using hy),
        List.nil_append, List.pairwise_cons]
      have hxy : m.xItemValue (.item x) ≤ m.xItemValue (.item y) := by
        rw [UInt32.le_iff_toNat_le] at hy ⊢
        omega
      refine ⟨fun z hz => ?_, List.pairwise_cons.2 hl⟩
      rcases List.mem_cons.1 hz with rfl | hz
      · exact hxy
      · exact UInt32.le_trans hxy (hl.1 z hz)

variable [DecidableEq ι]

/-- Where `pxIndex` stands once an item has been taken out: at the item before it, if it has stood at that item. -/
theorem indexAt_erase [DecidableEq α] (h : Lists m L) (hi : L i = l₁ ++ x :: l₂) {m' : ListMemory ι α}
    (hindex : m'.pxIndex = Function.update m.pxIndex i
      (if m.pxIndex i = .item x then last (.xListEnd i) (l₁.map .item) else m.pxIndex i))
    {j : ι} {s₁ s₂ : List α} (hs : IndexAt m L j s₁ s₂) :
    IndexAt m' (Function.update L i (l₁ ++ l₂)) j (s₁.erase x) (s₂.erase x) := by
  obtain ⟨hs, hsi⟩ := hs
  unfold IndexAt
  rw [hindex]
  by_cases hj : j = i
  · subst hj
    rw [Function.update_self, Function.update_self]
    obtain ⟨hx₁, hx₂⟩ := h.not_mem_split hi
    constructor
    · have herase : (L j).erase x = l₁ ++ l₂ := by
        rw [hi, List.erase_append_right _ hx₁, List.erase_cons_head]
      have hnodup := h.nodup j
      rw [hs, List.nodup_append] at hnodup
      rw [← herase, hs, List.erase_append]
      split
      · next hx => rw [List.erase_of_not_mem fun hx' => hnodup.2.2 x hx x hx' rfl]
      · next hx => rw [List.erase_of_not_mem hx]
    · rcases List.eq_nil_or_concat s₁ with rfl | ⟨s, p, rfl⟩
      · rw [hsi]
        exact if_neg (by simp [last])
      · rw [List.concat_eq_append] at hs hsi ⊢
        rw [last_map_concat] at hsi
        rw [hsi]
        split
        · next hp =>
          cases hp
          obtain ⟨rfl, -⟩ := h.split_unique hi (by simpa using hs : L j = s ++ x :: s₂)
          rw [List.erase_append_right _ hx₁, List.erase_cons_head, List.append_nil]
        · next hp =>
          have hpx : p ≠ x := fun hpx => hp (by rw [hpx])
          rw [List.erase_append]
          split
          · rw [last_map_concat]
          · rw [List.erase_of_not_mem (by simpa using hpx.symm), last_map_concat]
  · have hxj : x ∉ L j := fun hxj => hj (h.eq_of_mem hxj (by rw [hi]; simp))
    rw [hs, List.mem_append, not_or] at hxj
    rw [Function.update_of_ne hj, Function.update_of_ne hj, List.erase_of_not_mem hxj.1, List.erase_of_not_mem hxj.2]
    exact ⟨hs, hsi⟩

theorem mem_removed (h : Lists m L) (hi : L i = l₁ ++ x :: l₂) (y : α) (j : ι) :
    y ∈ Function.update L i (l₁ ++ l₂) j ↔ y ∈ L j ∧ y ≠ x := by
  have hxi : x ∈ L i := by rw [hi]; simp
  have hnot : x ∉ l₁ ++ l₂ := by
    rw [List.mem_append, not_or]
    exact h.not_mem_split hi
  by_cases hj : j = i
  · subst hj
    rw [Function.update_self, hi]
    constructor
    · intro hy
      refine ⟨?_, fun hyx => hnot (hyx ▸ hy)⟩
      simp at hy ⊢
      tauto
    · rintro ⟨hy, hyx⟩
      simp [hyx] at hy ⊢
      exact hy
  · rw [Function.update_of_ne hj]
    exact ⟨fun hy => ⟨hy, fun hyx => hj (h.eq_of_mem (hyx ▸ hy) hxi)⟩, fun hy => hy.1⟩

theorem sublist_removed (hi : L i = l₁ ++ x :: l₂) (j : ι) :
    (Function.update L i (l₁ ++ l₂) j).Sublist (L j) := by
  by_cases hj : j = i
  · subst hj
    rw [Function.update_self, hi]
    exact (List.sublist_cons_self x l₂).append_left l₁
  · rw [Function.update_of_ne hj]

theorem mem_inserted (hi : L i = l₁ ++ l₂) (y : α) (j : ι) :
    y ∈ Function.update L i (l₁ ++ x :: l₂) j ↔ y ∈ L j ∨ (y = x ∧ j = i) := by
  by_cases hj : j = i
  · subst hj
    rw [Function.update_self, hi]
    simp
    tauto
  · rw [Function.update_of_ne hj]
    simp [hj]

/-- An item inserted there is behind all others, up to the one that `pxIndex` stands at. -/
theorem indexAt_insertEnd (h : Lists m L) (hl : L i = l₁ ++ l₂)
    (hindex : m.pxIndex i = first (.xListEnd i) (l₂.map .item)) {m' : ListMemory ι α} (hm' : m'.pxIndex = m.pxIndex)
    {s₁ s₂ : List α} (hs : IndexAt m L i s₁ s₂) :
    ∃ s₁' s₂', IndexAt m' (Function.update L i (l₁ ++ x :: l₂)) i s₁' s₂' ∧
      ((s₁ ⊆ s₁' ∧ s₂' = s₂) ∨ (s₁ = [] ∧ s₁' = [] ∧ s₂' = s₂ ++ [x])) := by
  unfold IndexAt at hs ⊢
  rw [hm', Function.update_self]
  cases l₂ with
  | nil =>
    have hend : IndexAt m L i [] (L i) := ⟨rfl, hindex⟩
    obtain ⟨rfl, rfl⟩ := h.indexAt_unique hs hend
    refine ⟨[], L i ++ [x], ⟨by rw [hl]; simp, hs.2⟩, Or.inr ⟨rfl, rfl, rfl⟩⟩
  | cons p l₂ =>
    have hp : IndexAt m L i (l₁ ++ [p]) l₂ := ⟨by simpa using hl, by rw [last_map_concat]; exact hindex⟩
    obtain ⟨rfl, rfl⟩ := h.indexAt_unique hs hp
    refine ⟨l₁ ++ [x] ++ [p], s₂, ⟨by simp, by rw [last_map_concat]; exact hindex⟩, Or.inl ⟨?_, rfl⟩⟩
    intro y hy
    simp at hy ⊢
    tauto

variable [DecidableEq α]

/-- The lists after an item has been linked in at a place of one of them. -/
theorem enter (h : Lists m L) (hi : L i = l₁ ++ l₂) (hx : ∀ j, x ∉ L j) {m' : ListMemory ι α}
    (hlinks : m'.links = linkAfter m.links (last (.xListEnd i) (l₁.map .item)) (.item x))
    (hcontainer : m'.pxContainer = Function.update m.pxContainer x (some i))
    (hnumber : m'.uxNumberOfItems = Function.update m.uxNumberOfItems i (m.uxNumberOfItems i + 1))
    (hindex : m'.pxIndex = m.pxIndex) (hvalue : ∀ j, m'.xItemValue (.xListEnd j) = m.xItemValue (.xListEnd j)) :
    Lists m' (Function.update L i (l₁ ++ x :: l₂)) := by
  have hring := h.ring i
  rw [hi, List.map_append] at hring
  have hxi : (ListNode.item x : ListNode ι α) ∉ .xListEnd i :: (l₁.map .item ++ l₂.map .item) := by
    rw [← List.map_append, item_mem, ← hi]
    exact hx i
  constructor
  · intro j
    by_cases hj : j = i
    · subst hj
      rw [Function.update_self, hlinks, List.map_append, List.map_cons]
      exact hring.insert hxi
    · rw [Function.update_of_ne hj, hlinks]
      refine hring.insert_other (h.ring j) fun u hu => ⟨?_, ?_⟩
      · rw [← List.map_append, ← hi]
        exact h.disjoint_rings hj u hu
      · rintro rfl
        exact hx j (item_mem.1 hu)
  · intro y j
    rw [hcontainer]
    by_cases hy : y = x
    · subst hy
      rw [Function.update_self]
      by_cases hj : j = i
      · subst hj
        simp
      · rw [Function.update_of_ne hj]
        have := hx j
        simp [Ne.symm hj, this]
    · rw [Function.update_of_ne hy, h.container]
      by_cases hj : j = i
      · subst hj
        rw [Function.update_self, hi]
        simp [hy]
      · rw [Function.update_of_ne hj]
  · intro j
    rw [hnumber]
    by_cases hj : j = i
    · subst hj
      rw [Function.update_self, Function.update_self, h.number, hi, List.length_append, List.length_append,
        List.length_cons, ← Nat.add_assoc, UInt32.ofNat_add (l₁.length + l₂.length) 1]
      rfl
    · rw [Function.update_of_ne hj, Function.update_of_ne hj, h.number]
  · intro j
    rw [hindex]
    have hmem := h.index j
    by_cases hj : j = i
    · subst hj
      rw [Function.update_self]
      rw [hi] at hmem
      simp only [List.map_append, List.map_cons, List.mem_cons, List.mem_append] at hmem ⊢
      tauto
    · rw [Function.update_of_ne hj]
      exact hmem
  · intro j
    rw [hvalue, h.end_value]

/-- The lists after an item has been taken out. -/
theorem leave (h : Lists m L) (hi : L i = l₁ ++ x :: l₂) {m' : ListMemory ι α}
    (hlinks : m'.links = unlink m.links (.item x)) (hcontainer : m'.pxContainer = Function.update m.pxContainer x none)
    (hnumber : m'.uxNumberOfItems = Function.update m.uxNumberOfItems i (m.uxNumberOfItems i - 1))
    (hindex : m'.pxIndex = Function.update m.pxIndex i
      (if m.pxIndex i = .item x then last (.xListEnd i) (l₁.map .item) else m.pxIndex i))
    (hvalue : m'.xItemValue = m.xItemValue) : Lists m' (Function.update L i (l₁ ++ l₂)) := by
  have hring := h.ring i
  rw [hi, List.map_append, List.map_cons] at hring
  have hxi : x ∈ L i := by rw [hi]; simp
  have hnot := h.not_mem_split hi
  constructor
  · intro j
    by_cases hj : j = i
    · subst hj
      rw [Function.update_self, hlinks, List.map_append]
      exact hring.unlink
    · rw [Function.update_of_ne hj, hlinks]
      refine hring.unlink_other (h.ring j) fun u hu => ?_
      rw [← List.map_cons, ← List.map_append, ← hi]
      exact h.disjoint_rings hj u hu
  · intro y j
    rw [hcontainer]
    by_cases hy : y = x
    · subst hy
      rw [Function.update_self]
      by_cases hj : j = i
      · subst hj
        simpa using hnot
      · rw [Function.update_of_ne hj]
        have : y ∉ L j := fun hyj => hj (h.eq_of_mem hyj hxi)
        simpa using this
    · rw [Function.update_of_ne hy, h.container]
      by_cases hj : j = i
      · subst hj
        rw [Function.update_self, hi]
        simp [hy]
      · rw [Function.update_of_ne hj]
  · intro j
    rw [hnumber]
    by_cases hj : j = i
    · subst hj
      rw [Function.update_self, Function.update_self, h.number, hi, List.length_append, List.length_append,
        List.length_cons, ← Nat.add_assoc, UInt32.ofNat_add (l₁.length + l₂.length) 1]
      exact UInt32.add_sub_cancel _ _
    · rw [Function.update_of_ne hj, Function.update_of_ne hj, h.number]
  · intro j
    rw [hindex]
    have hmem := h.index j
    by_cases hj : j = i
    · subst hj
      rw [Function.update_self, Function.update_self]
      split
      · have hlast := last_mem (ListNode.xListEnd j) (l₁.map (ListNode.item (α := α)))
        simp only [List.map_append, List.mem_cons, List.mem_append] at hlast ⊢
        tauto
      · next hne =>
        rw [hi] at hmem
        simp only [List.map_append, List.map_cons, List.mem_cons, List.mem_append] at hmem ⊢
        tauto
    · rw [Function.update_of_ne hj, Function.update_of_ne hj]
      exact hmem
  · intro j
    rw [hvalue, h.end_value]

/-! ### The operations -/

theorem vListInsertEnd_eq (h : Lists m L) (hx : ∀ j, x ∉ L j) (i : ι) :
    ∃ L', Lists (vListInsertEnd i x m) L' ∧ Inserted m (vListInsertEnd i x m) L L' x i ∧
      ∀ s₁ s₂, IndexAt m L i s₁ s₂ → ∃ s₁' s₂', IndexAt (vListInsertEnd i x m) L' i s₁' s₂' ∧
        ((s₁ ⊆ s₁' ∧ s₂' = s₂) ∨ (s₁ = [] ∧ s₁' = [] ∧ s₂' = s₂ ++ [x])) := by
  obtain ⟨l₁, l₂, hl, hindex⟩ := h.exists_before_index i
  refine ⟨_, h.enter hl hx ?_ rfl rfl rfl (fun _ => rfl),
    ⟨mem_inserted hl, fun j hj => Function.update_of_ne hj _ _, rfl, rfl, rfl⟩,
    fun s₁ s₂ hs => h.indexAt_insertEnd hl hindex rfl hs⟩
  obtain ⟨hnext, hprev⟩ := h.links_at hl
  have hxf : first (ListNode.xListEnd i) (l₂.map .item) ≠ ListNode.item x := by
    intro hf
    have hmem := first_mem (ListNode.xListEnd i) (l₂.map ListNode.item)
    rw [hf, item_mem] at hmem
    exact hx i (by rw [hl]; exact List.mem_append_right _ hmem)
  unfold vListInsertEnd ListMemory.links linkAfter ListMemory.setNext ListMemory.setPrevious ListMemory.enter
  dsimp only
  rw [hindex, hprev, hnext, Function.update_of_ne hxf, hprev, Function.update_comm hxf.symm]

theorem vListInsert_eq (h : Lists m L) (hx : ∀ j, x ∉ L j) (i : ι) {fuel : ℕ} (hfuel : (L i).length < fuel) :
    ∃ m' L', vListInsert fuel i x m = .ok m' ∧ Lists m' L' ∧ Inserted m m' L L' x i ∧
      (m.Ascending (L i) → m.Ascending (L' i)) := by
  obtain ⟨p, hp⟩ : ∃ p : α → Bool, p = fun y => decide (m.xItemValue (.item y) ≤ m.xItemValue (.item x)) := ⟨_, rfl⟩
  have hsplit : L i = (L i).takeWhile p ++ (L i).dropWhile p := (List.takeWhile_append_dropWhile).symm
  -- both ways lead to the last item with a value that is not greater
  have hiterator : insertionIterator m fuel i (m.xItemValue (.item x)) =
      .ok (last (.xListEnd i) (((L i).takeWhile p).map .item)) := by
    unfold insertionIterator
    split
    · next hmax =>
      have hall : (L i).takeWhile p = L i := by
        refine List.takeWhile_eq_self_iff.2 fun y _ => ?_
        have hle : m.xItemValue (.item y) ≤ portMAX_DELAY := by
          rw [UInt32.le_iff_toNat_le]
          have hmax : portMAX_DELAY.toNat = 2 ^ 32 - 1 := by decide
          have := (m.xItemValue (.item y)).toNat_lt
          omega
        rw [hp, hmax]
        exact decide_eq_true hle
      rw [h.previous_end, hall]
    · next hmax =>
      have hloop := h.listIterator_eq hmax (List.nil_append (L i)).symm hfuel
      rw [hp]
      exact hloop
  obtain ⟨q, hq⟩ : ∃ q, q = last (ListNode.xListEnd i) (((L i).takeWhile p).map .item) := ⟨_, rfl⟩
  rw [← hq] at hiterator
  have hinsert : vListInsert fuel i x m = .ok (((((m.setNext (.item x) (m.pxNext q)).setPrevious (m.pxNext q)
      (.item x)).setPrevious (.item x) q).setNext q (.item x)).enter i x) := by
    unfold vListInsert
    dsimp only
    rw [hiterator]
    dsimp only [bind, Except.bind, pure, Except.pure]
    rw [show (m.setNext (.item x) (m.pxNext q)).pxNext (.item x) = m.pxNext q from Function.update_self _ _ _]
  refine ⟨_, _, hinsert, h.enter hsplit hx ?_ rfl rfl rfl fun _ => rfl,
    ⟨mem_inserted hsplit, fun j hj => Function.update_of_ne hj _ _, rfl, rfl, rfl⟩, fun hl => ?_⟩
  · rw [← hq]
    rfl
  · rw [Function.update_self, hp]
    exact ascending_insert hl

theorem uxListRemove_eq (h : Lists m L) (hxi : x ∈ L i) :
    ∃ m' L', uxListRemove x m = .ok (m', .ofNat (L' i).length) ∧ Lists m' L' ∧ Removed m m' L L' x := by
  obtain ⟨l₁, l₂, hi⟩ := List.append_of_mem hxi
  have hcontainer : m.pxContainer x = some i := (h.container x i).2 (by rw [hi]; simp)
  have hprev := h.previous_item hi
  have hnext := h.next_item hi
  have hne : (ListNode.item x : ListNode ι α) ≠ first (.xListEnd i) (l₂.map .item) := by
    intro heq
    have hmem := first_mem (ListNode.xListEnd i) (l₂.map (ListNode.item (α := α)))
    rw [← heq, item_mem] at hmem
    exact (h.not_mem_split hi).2 hmem
  obtain ⟨m', hm'⟩ : ∃ m' : ListMemory ι α, m' = {
      xItemValue := m.xItemValue
      pxNext := Function.update m.pxNext (last (.xListEnd i) (l₁.map .item)) (first (.xListEnd i) (l₂.map .item))
      pxPrevious := Function.update m.pxPrevious (first (.xListEnd i) (l₂.map .item))
        (last (.xListEnd i) (l₁.map .item))
      pxContainer := Function.update m.pxContainer x none
      uxNumberOfItems := Function.update m.uxNumberOfItems i (m.uxNumberOfItems i - 1)
      pxIndex := Function.update m.pxIndex i
        (if m.pxIndex i = .item x then last (.xListEnd i) (l₁.map .item) else m.pxIndex i) } := ⟨_, rfl⟩
  have hlists : Lists m' (Function.update L i (l₁ ++ l₂)) := by
    refine h.leave hi ?_ ?_ ?_ ?_ ?_ <;> rw [hm']
    unfold ListMemory.links unlink
    dsimp only
    rw [hprev, hnext]
  have hnumber := hlists.number i
  refine ⟨m', _, ?_, hlists, ⟨h.mem_removed hi, sublist_removed hi, by rw [hm'], by rw [hm'],
    fun hs => h.indexAt_erase hi (by rw [hm']) hs⟩⟩
  unfold uxListRemove
  rw [hcontainer]
  dsimp only [ListMemory.setPrevious, ListMemory.setNext]
  rw [hprev, hnext, Function.update_of_ne hne, hprev, ← hnumber, hm']
  split
  · rfl
  · rw [Function.update_eq_self]

/-- The item behind the place of `pxIndex` is served, or the first one if there is none behind it. -/
theorem listGET_OWNER_OF_NEXT_ENTRY_eq (h : Lists m L) {s₁ s₂ : List α} (hs : IndexAt m L i s₁ s₂) (hne : L i ≠ []) :
    ∃ m' x, listGET_OWNER_OF_NEXT_ENTRY i m = .ok (m', x) ∧ Lists m' L ∧ x ∈ L i ∧
      m'.xItemValue = m.xItemValue ∧ m'.pxContainer = m.pxContainer ∧
      (∀ j t₁ t₂, j ≠ i → IndexAt m L j t₁ t₂ → IndexAt m' L j t₁ t₂) ∧
      ((∃ r, s₂ = x :: r ∧ IndexAt m' L i (s₁ ++ [x]) r) ∨ (s₂ = [] ∧ ∃ r, s₁ = x :: r ∧ IndexAt m' L i [x] r)) := by
  obtain ⟨hl, hindex⟩ := hs
  have hnext := (h.links_at hl).1
  rw [← hindex] at hnext
  have hplace : ∃ x, (if m.pxNext (m.pxIndex i) = .xListEnd i then m.pxNext (.xListEnd i)
      else m.pxNext (m.pxIndex i)) = .item x ∧ ((∃ r, s₂ = x :: r) ∨ (s₂ = [] ∧ ∃ r, s₁ = x :: r)) := by
    cases s₂ with
    | nil =>
      cases s₁ with
      | nil => exact absurd hl hne
      | cons y s₁ =>
        have hend : m.pxNext (m.pxIndex i) = .xListEnd i := hnext
        refine ⟨y, ?_, Or.inr ⟨rfl, s₁, rfl⟩⟩
        rw [if_pos hend, h.next_end, hl]
        rfl
    | cons y s₂ =>
      refine ⟨y, ?_, Or.inl ⟨s₂, rfl⟩⟩
      rw [hnext]
      exact if_neg (by simp [first])
  obtain ⟨x, hplace, hcases⟩ := hplace
  have hx : x ∈ L i := by
    rw [hl]
    rcases hcases with ⟨r, rfl⟩ | ⟨-, r, rfl⟩
    · simp
    · simp
  obtain ⟨m', hm'⟩ : ∃ m' : ListMemory ι α, m' = { m with
    pxIndex := Function.update m.pxIndex i (.item x) } := ⟨_, rfl⟩
  have hlists : Lists m' L := by
    refine ⟨fun j => ?_, fun y j => ?_, fun j => ?_, fun j => ?_, fun j => ?_⟩ <;> rw [hm']
    · exact h.ring j
    · exact h.container y j
    · exact h.number j
    · dsimp only
      by_cases hj : j = i
      · subst hj
        rw [Function.update_self, item_mem]
        exact hx
      · rw [Function.update_of_ne hj]
        exact h.index j
    · exact h.end_value j
  have hindex' : m'.pxIndex i = .item x := by rw [hm']; exact Function.update_self _ _ _
  refine ⟨m', x, ?_, hlists, hx, by rw [hm'], by rw [hm'], fun j t₁ t₂ hj ht => ?_, ?_⟩
  · unfold listGET_OWNER_OF_NEXT_ENTRY
    dsimp only
    rw [hplace, hm']
    rfl
  · refine ⟨ht.1, ?_⟩
    rw [hm', ← ht.2]
    exact Function.update_of_ne hj _ _
  · rcases hcases with ⟨r, rfl⟩ | ⟨rfl, r, rfl⟩
    · exact Or.inl ⟨r, rfl, by rw [hl]; simp, by rw [hindex', last_map_concat]⟩
    · exact Or.inr ⟨rfl, r, rfl, by rw [hl]; simp, hindex'⟩

end Lists

end LcdKeypad
