import Mathlib.Data.List.Induction
import Mathlib.Data.Set.Insert

/-!
# Sets under operations, and sets as bit masks

A set that elements are inserted into and erased from, and that is emptied now and then, contains an element exactly
if the last operation that concerns the element inserted it (`mem_run_iff`).  A bit mask of `w` bits is a set of
numbers below `w`: or-ing with one bit inserts, and-ing with the complement of one bit erases, and shifting the
mask tests.
-/

namespace BitSet

/-! ### Sets under operations -/

inductive SetOp (α : Type*)
  | insert (a : α)
  | erase (a : α)
  | clear

variable {α E S : Type*}

def SetOp.apply (s : Set α) : SetOp α → Set α
  | insert a => Insert.insert a s
  | erase a => s \ {a}
  | clear => ∅

/-- The operation decides whether `a` is in the set. -/
def SetOp.concerns [DecidableEq α] (a : α) : SetOp α → Bool
  | insert b => decide (b = a)
  | erase b => decide (b = a)
  | clear => true

/-- The set after an event, which stands for at most one operation. -/
def step (op : E → Option (SetOp α)) (s : Set α) (e : E) : Set α :=
  match op e with
  | some o => o.apply s
  | none => s

def run (op : E → Option (SetOp α)) (s : Set α) (es : List E) : Set α := es.foldl (step op) s

/-- The event stands for an operation that decides whether `a` is in the set. -/
def concerns [DecidableEq α] (op : E → Option (SetOp α)) (a : α) (e : E) : Bool := (op e).any (SetOp.concerns a)

theorem step_of_eq_some {op : E → Option (SetOp α)} {e : E} {o : SetOp α} (h : op e = some o) (s : Set α) :
    step op s e = o.apply s := by
  simp [step, h]

theorem step_of_eq_none {op : E → Option (SetOp α)} {e : E} (h : op e = none) (s : Set α) : step op s e = s := by
  simp [step, h]

theorem run_append (op : E → Option (SetOp α)) (s : Set α) (es es' : List E) :
    run op s (es ++ es') = run op (run op s es) es' := List.foldl_append

theorem SetOp.mem_apply_of_concerns [DecidableEq α] {o : SetOp α} {a : α} (h : o.concerns a = true) (s : Set α) :
    a ∈ o.apply s ↔ o = .insert a := by
  cases o with
  | insert b =>
    obtain rfl : b = a := by simpa [concerns] using h
    simp [apply]
  | erase b =>
    obtain rfl : b = a := by simpa [concerns] using h
    simp [apply]
  | clear => simp [apply]

theorem SetOp.mem_apply_of_not_concerns [DecidableEq α] {o : SetOp α} {a : α} (h : o.concerns a = false)
    (s : Set α) : a ∈ o.apply s ↔ a ∈ s := by
  cases o with
  | insert b =>
    have hne : b ≠ a := by simpa [concerns] using h
    simp [apply, hne.symm]
  | erase b =>
    have hne : b ≠ a := by simpa [concerns] using h
    simp [apply, hne.symm]
  | clear => simp [concerns] at h

theorem mem_step_of_not_concerns [DecidableEq α] {op : E → Option (SetOp α)} {a : α} {e : E}
    (h : concerns op a e = false) (s : Set α) : a ∈ step op s e ↔ a ∈ s := by
  unfold concerns at h
  rcases ho : op e with _ | o
  · rw [step_of_eq_none ho]
  · rw [ho, Option.any_some] at h
    rw [step_of_eq_some ho, o.mem_apply_of_not_concerns h]

theorem mem_step_of_concerns [DecidableEq α] {op : E → Option (SetOp α)} {a : α} {e : E}
    (h : concerns op a e = true) (s : Set α) : a ∈ step op s e ↔ op e = some (.insert a) := by
  unfold concerns at h
  rcases ho : op e with _ | o
  · simp [ho] at h
  · rw [ho, Option.any_some] at h
    rw [step_of_eq_some ho, o.mem_apply_of_concerns h, Option.some.injEq]

/-- An element is in the set after the events exactly if the last event that concerns it inserts it, or if no event
concerns it and it was in the set before. -/
theorem mem_run_iff [DecidableEq α] (op : E → Option (SetOp α)) (s : Set α) (es : List E) (a : α) :
    a ∈ run op s es ↔ (∃ e, (es.filter (concerns op a)).getLast? = some e ∧ op e = some (.insert a)) ∨
      (es.filter (concerns op a) = [] ∧ a ∈ s) := by
  induction es using List.reverseRecOn with
  | nil => simp [run]
  | append_singleton es e ih =>
    have hrun : run op s (es ++ [e]) = step op (run op s es) e := run_append op s es [e]
    rw [hrun, List.filter_append]
    cases hc : concerns op a e with
    | true => simp [mem_step_of_concerns hc, hc]
    | false => simp [mem_step_of_not_concerns hc, hc, ih]

/-- If every step of a machine does to a set that its state stands for what the event says, so does every run. -/
theorem run_of_simulation {next : S → E → S} (abs : S → Set α) {op : E → Option (SetOp α)}
    (h : ∀ s e, abs (next s e) = step op (abs s) e) (s : S) (es : List E) :
    abs (es.foldl next s) = run op (abs s) es := by
  induction es generalizing s with
  | nil => rfl
  | cons e es ih =>
    have e' : run op (abs s) (e :: es) = run op (step op (abs s) e) es := rfl
    rw [List.foldl_cons, ih, e', h]

/-! ### Bit masks -/

variable {w : Nat}

/-- The positions of the bits that are set. -/
def members (m : BitVec w) : Set Nat := {i | m.getLsbD i = true}

@[simp] theorem mem_members {m : BitVec w} {i : Nat} : i ∈ members m ↔ m.getLsbD i = true := Iff.rfl

theorem lt_of_mem_members {m : BitVec w} {i : Nat} (h : i ∈ members m) : i < w := BitVec.lt_of_getLsbD h

@[simp] theorem members_zero : members (0#w) = ∅ := by
  ext i
  simp

/-- Or-ing with one bit inserts its position. -/
theorem members_or_one_shiftLeft (m : BitVec w) {i : Nat} (hi : i < w) :
    members (m ||| 1#w <<< i) = insert i (members m) := by
  ext j
  rw [← BitVec.twoPow_eq, mem_members, BitVec.getLsbD_or, BitVec.getLsbD_twoPow, Set.mem_insert_iff, mem_members]
  by_cases hij : i = j
  · subst hij
    simp [hi]
  · simp [hij, Ne.symm hij]

/-- And-ing with the complement of one bit erases its position. -/
theorem members_and_not_one_shiftLeft (m : BitVec w) {i : Nat} (hi : i < w) :
    members (m &&& ~~~(1#w <<< i)) = members m \ {i} := by
  ext j
  rw [← BitVec.twoPow_eq, mem_members, BitVec.getLsbD_and, BitVec.getLsbD_not, BitVec.getLsbD_twoPow, Set.mem_sdiff,
    mem_members, Set.mem_singleton_iff]
  constructor
  · intro h
    simp [hi] at h
    exact ⟨h.1, fun hij => h.2.2 hij.symm⟩
  · rintro ⟨hj, hij⟩
    have hjw := lt_of_mem_members hj
    simp [hj, hjw, Ne.symm hij]

/-- Shifting the mask and keeping the lowest bit tests a position. -/
theorem ushiftRight_and_one (m : BitVec w) (i : Nat) : (m >>> i) &&& 1#w = if m.getLsbD i then 1#w else 0#w := by
  apply BitVec.eq_of_getLsbD_eq
  intro j hj
  by_cases h0 : j = 0
  · subst h0
    cases hm : m.getLsbD i <;> simp [hm]
  · cases hm : m.getLsbD i <;> simp [h0]

end BitSet
