import Mathlib.Data.Nat.Basic
import Mathlib.Algebra.Order.Ring.Nat

/-!
# Numbers in a byte memory

A memory gives every address a byte.  `load w m a` is the number in the `w` bytes from `a` on, least significant
byte first, and `store` writes one there.  What was stored is read back, and what lies elsewhere is not changed.
-/

namespace ByteMemory

abbrev Memory := ℕ → UInt8

def load (m : Memory) : ℕ → ℕ → ℕ
  | 0, _ => 0
  | w + 1, a => (m a).toNat + 256 * load m w (a + 1)

def store (m : Memory) (w a v : ℕ) : Memory :=
  fun x => if a ≤ x ∧ x < a + w then UInt8.ofNat (v / 256 ^ (x - a)) else m x

/-- The `n` bytes from `a` on, all set to `b`. -/
def fill (m : Memory) (a n : ℕ) (b : UInt8) : Memory :=
  fun x => if a ≤ x ∧ x < a + n then b else m x

theorem load_congr {m m' : Memory} {w a : ℕ} (h : ∀ x, a ≤ x → x < a + w → m' x = m x) :
    load m' w a = load m w a := by
  induction w generalizing a with
  | zero => rfl
  | succ w ih =>
    simp only [load]
    rw [h a (le_refl a) (by omega), ih fun x hx hxw => h x (by omega) (by omega)]

theorem store_of_lt {m : Memory} {w a v x : ℕ} (h : x < a) : store m w a v x = m x := by
  simp [store, Nat.not_le.2 h]

theorem store_of_le {m : Memory} {w a v x : ℕ} (h : a + w ≤ x) : store m w a v x = m x := by
  simp [store, Nat.not_lt.2 h]

theorem fill_of_mem {m : Memory} {a n x : ℕ} (b : UInt8) (h : a ≤ x) (h' : x < a + n) : fill m a n b x = b := by
  simp [fill, h, h']

theorem fill_of_not_mem {m : Memory} {a n x : ℕ} (b : UInt8) (h : x < a ∨ a + n ≤ x) : fill m a n b x = m x := by
  unfold fill
  rw [if_neg (by omega)]

/-- The bytes behind the first are those of the number without its last digit. -/
private theorem load_store_tail (m : Memory) (w a v : ℕ) :
    load (store m (w + 1) a v) w (a + 1) = load (store m w (a + 1) (v / 256)) w (a + 1) := by
  refine load_congr fun x hx hxw => ?_
  unfold store
  rw [if_pos (by omega), if_pos (by omega), Nat.div_div_eq_div_mul, ← pow_succ']
  congr 3
  omega

theorem load_store (m : Memory) (w a v : ℕ) : load (store m w a v) w a = v % 256 ^ w := by
  induction w generalizing a v with
  | zero => simp [load, Nat.mod_one]
  | succ w ih =>
    have hfirst : (store m (w + 1) a v a).toNat = v % 256 := by
      simp [store]
    rw [load, hfirst, load_store_tail, ih, pow_succ', Nat.mod_mul]

theorem load_store_of_disjoint (m : Memory) {w w' a b : ℕ} (v : ℕ) (h : a + w ≤ b ∨ b + w' ≤ a) :
    load (store m w' b v) w a = load m w a := by
  refine load_congr fun x hx hxw => ?_
  rcases h with h | h
  · exact store_of_lt (by omega)
  · exact store_of_le (by omega)

end ByteMemory
