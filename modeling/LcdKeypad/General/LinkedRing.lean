import Mathlib.Data.List.Basic
import Mathlib.Logic.Function.Basic

/-!
# Doubly linked rings

Every node links to a next and to a previous node.  `Path k a l b` says that the links lead from `a` through the
nodes of `l` to `b`, and back; a ring is a path from a head to itself that visits no node twice.  A node is inserted
behind another one and taken out by changing the links of its neighbours only, so that a ring without them stays as
it is.
-/

namespace LinkedRing

structure Links (ν : Type*) where
  next : ν → ν
  prev : ν → ν

variable {ν : Type*}

def Path (k : Links ν) : ν → List ν → ν → Prop
  | a, [], b => k.next a = b ∧ k.prev b = a
  | a, x :: l, b => k.next a = x ∧ k.prev x = a ∧ Path k x l b

structure IsRing (k : Links ν) (h : ν) (l : List ν) : Prop where
  path : Path k h l h
  nodup : (h :: l).Nodup

/-- The node before the ones that follow `l` in a ring with the head `h`. -/
def last (h : ν) (l : List ν) : ν := l.getLastD h

/-- The first node of `l`, or the head. -/
def first (h : ν) (l : List ν) : ν := l.headD h

theorem last_mem (h : ν) (l : List ν) : last h l ∈ h :: l := by
  unfold last
  rcases List.eq_nil_or_concat l with rfl | ⟨s, p, rfl⟩
  · simp
  · simp

theorem first_mem (h : ν) (l : List ν) : first h l ∈ h :: l := by
  cases l with
  | nil => exact List.mem_cons_self
  | cons x l => exact List.mem_cons_of_mem _ List.mem_cons_self

variable {k k' : Links ν} {a b h x : ν} {l l₁ l₂ : List ν}

/-- A path is read from the links onward of all nodes but the last, and back of all but the first. -/
theorem Path.congr (hp : Path k a l b) (hnext : ∀ u ∈ a :: l, k'.next u = k.next u)
    (hprev : ∀ u ∈ l ++ [b], k'.prev u = k.prev u) : Path k' a l b := by
  induction l generalizing a with
  | nil =>
    obtain ⟨h₁, h₂⟩ := hp
    exact ⟨by rw [hnext a List.mem_cons_self, h₁], by rw [hprev b (by simp), h₂]⟩
  | cons y l ih =>
    obtain ⟨h₁, h₂, h₃⟩ := hp
    refine ⟨by rw [hnext a List.mem_cons_self, h₁], by rw [hprev y (by simp), h₂], ih h₃ ?_ ?_⟩
    · intro u hu
      exact hnext u (List.mem_cons_of_mem _ hu)
    · intro u hu
      exact hprev u (List.mem_cons_of_mem _ hu)

theorem path_append_cons : Path k a (l₁ ++ x :: l₂) b ↔ Path k a l₁ x ∧ Path k x l₂ b := by
  induction l₁ generalizing a with
  | nil => simp [Path, and_assoc]
  | cons y l₁ ih => simp only [List.cons_append, Path, ih, and_assoc]

theorem Path.next_eq (hp : Path k a l b) : k.next a = first b l := by
  cases l with
  | nil => exact hp.1
  | cons y l => exact hp.1

theorem Path.prev_first (hp : Path k a l b) : k.prev (first b l) = a := by
  cases l with
  | nil => exact hp.2
  | cons y l => exact hp.2.1

/-- At any place of a ring, the nodes around the place link to each other. -/
theorem IsRing.links_at (hr : IsRing k h (l₁ ++ l₂)) :
    k.next (last h l₁) = first h l₂ ∧ k.prev (first h l₂) = last h l₁ := by
  have hp := hr.path
  rcases List.eq_nil_or_concat l₁ with rfl | ⟨s, p, rfl⟩
  · exact ⟨hp.next_eq, hp.prev_first⟩
  · have hlast : last h (s ++ [p]) = p := by simp [last]
    rw [List.concat_eq_append, List.append_assoc, List.singleton_append, path_append_cons] at hp
    rw [List.concat_eq_append, hlast]
    exact ⟨hp.2.next_eq, hp.2.prev_first⟩

theorem IsRing.congr (hr : IsRing k h l) (hk : ∀ u ∈ h :: l, k'.next u = k.next u ∧ k'.prev u = k.prev u) :
    IsRing k' h l := by
  refine ⟨hr.path.congr (fun u hu => (hk u hu).1) fun u hu => (hk u ?_).2, hr.nodup⟩
  rcases List.mem_append.1 hu with hu | hu
  · exact List.mem_cons_of_mem _ hu
  · rw [List.mem_singleton.1 hu]
    exact List.mem_cons_self

theorem nodup_insert (hx : x ∉ h :: (l₁ ++ l₂)) (hl : (h :: (l₁ ++ l₂)).Nodup) : (h :: (l₁ ++ x :: l₂)).Nodup := by
  have hperm : (h :: (l₁ ++ x :: l₂)).Perm (x :: h :: (l₁ ++ l₂)) :=
    (List.Perm.cons h List.perm_middle).trans (List.Perm.swap x h _)
  exact hperm.nodup_iff.2 (List.nodup_cons.2 ⟨hx, hl⟩)

theorem nodup_of_insert (hl : (h :: (l₁ ++ x :: l₂)).Nodup) : x ∉ h :: (l₁ ++ l₂) ∧ (h :: (l₁ ++ l₂)).Nodup := by
  have hperm : (h :: (l₁ ++ x :: l₂)).Perm (x :: h :: (l₁ ++ l₂)) :=
    (List.Perm.cons h List.perm_middle).trans (List.Perm.swap x h _)
  exact List.nodup_cons.1 (hperm.nodup_iff.1 hl)

/-- Nothing repeats behind the first node of a ring, the head at the end included. -/
theorem nodup_rotate (hl : (h :: l).Nodup) : (l ++ [h]).Nodup :=
  (List.perm_append_singleton h l).nodup_iff.2 hl

/-- A part of a ring before the place of a change. -/
theorem Path.congr_before {s : List ν} {p : ν} (hp : Path k h s p) (hnodup : (h :: (s ++ p :: l₂)).Nodup)
    (hnext : ∀ u, u ≠ p → u ∈ h :: s → k'.next u = k.next u)
    (hprev : ∀ u, u ∉ h :: l₂ → u ∈ s ++ [p] → k'.prev u = k.prev u) : Path k' h s p := by
  rw [← List.cons_append, List.nodup_append, List.nodup_cons, List.nodup_cons] at hnodup
  obtain ⟨⟨hhs, -⟩, ⟨hpl, -⟩, hcross⟩ := hnodup
  have hhp : h ≠ p := hcross h List.mem_cons_self p List.mem_cons_self
  refine hp.congr (fun u hu => hnext u ?_ hu) fun u hu => hprev u ?_ hu
  · intro hup
    exact hcross u hu p List.mem_cons_self hup
  · rw [List.mem_cons, not_or]
    rcases List.mem_append.1 hu with hus | hup
    · exact ⟨fun h => hhs (h ▸ hus), fun hul =>
        hcross u (List.mem_cons_of_mem _ hus) u (List.mem_cons_of_mem _ hul) rfl⟩
    · rw [List.mem_singleton.1 hup]
      exact ⟨hhp.symm, hpl⟩

variable [DecidableEq ν]

/-- The node `x` behind `p`. -/
def linkAfter (k : Links ν) (p x : ν) : Links ν where
  next := Function.update (Function.update k.next x (k.next p)) p x
  prev := Function.update (Function.update k.prev (k.next p) x) x p

/-- The neighbours of `x` linked to each other. -/
def unlink (k : Links ν) (x : ν) : Links ν where
  next := Function.update k.next (k.prev x) (k.next x)
  prev := Function.update k.prev (k.next x) (k.prev x)

theorem linkAfter_of_ne {p u : ν} (hp : u ≠ p) (hn : u ≠ k.next p) (hx : u ≠ x) :
    (linkAfter k p x).next u = k.next u ∧ (linkAfter k p x).prev u = k.prev u := by
  simp [linkAfter, hp, hn, hx]

theorem unlink_of_ne {u : ν} (hn : u ≠ k.next x) (hp : u ≠ k.prev x) :
    (unlink k x).next u = k.next u ∧ (unlink k x).prev u = k.prev u := by
  simp [unlink, hp, hn]

/-- Behind the first node of a path. -/
theorem Path.insert (hp : Path k a l b) (hal : a ∉ l) (hl : (l ++ [b]).Nodup) (hxa : x ≠ a) (hxl : x ∉ l ++ [b]) :
    Path (linkAfter k a x) a (x :: l) b := by
  have hnext := hp.next_eq
  have hxb : x ≠ b := fun h => hxl (by simp [h])
  have hxf : x ≠ first b l := by
    rintro rfl
    refine hxl ?_
    have := first_mem b l
    simp at this ⊢
    tauto
  refine ⟨by simp [linkAfter], by simp [linkAfter], ?_⟩
  cases l with
  | nil =>
    have hb : k.next a = b := hnext
    exact ⟨by simp [linkAfter, hxa, hb], by simp [linkAfter, hb, hxb.symm]⟩
  | cons y l =>
    have hy : k.next a = y := hnext
    have hxy : x ≠ y := hxf
    rw [List.cons_append, List.nodup_cons] at hl
    refine ⟨by simp [linkAfter, hxa, hy], by simp [linkAfter, hy, hxy.symm], hp.2.2.congr ?_ ?_⟩
    · intro u hu
      have hua : u ≠ a := fun h => hal (h ▸ hu)
      have hux : u ≠ x := fun h => hxl (by rw [← h]; exact List.mem_append_left _ hu)
      simp [linkAfter, hua, hux]
    · intro u hu
      have huy : u ≠ y := fun h => hl.1 (h ▸ hu)
      have hux : u ≠ x := fun h => hxl (by rw [← h]; exact List.mem_cons_of_mem _ hu)
      simp [linkAfter, hy, huy, hux]

/-- The node behind the first of a path leaves it. -/
theorem Path.unlink (hp : Path k a (x :: l) b) (hal : a ∉ l) (hl : (l ++ [b]).Nodup) :
    Path (unlink k x) a l b := by
  obtain ⟨hax, hxa, hrest⟩ := hp
  have hnext := hrest.next_eq
  have hfirst : (LinkedRing.unlink k x).next a = first b l ∧ (LinkedRing.unlink k x).prev (first b l) = a := by
    simp [LinkedRing.unlink, hxa, hnext]
  cases l with
  | nil => exact hfirst
  | cons y l =>
    have hy : k.next x = y := hnext
    rw [List.cons_append, List.nodup_cons] at hl
    refine ⟨hfirst.1, hfirst.2, hrest.2.2.congr ?_ ?_⟩
    · intro u hu
      have hua : u ≠ a := fun h => hal (h ▸ hu)
      simp [LinkedRing.unlink, hxa, hua]
    · intro u hu
      have huy : u ≠ y := fun h => hl.1 (h ▸ hu)
      simp [LinkedRing.unlink, hy, huy]

/-! ### Rings under changes -/

theorem IsRing.insert (hr : IsRing k h (l₁ ++ l₂)) (hx : x ∉ h :: (l₁ ++ l₂)) :
    IsRing (linkAfter k (last h l₁) x) h (l₁ ++ x :: l₂) := by
  obtain ⟨hnext, -⟩ := hr.links_at
  refine ⟨?_, nodup_insert hx hr.nodup⟩
  have hp := hr.path
  have hnodup := hr.nodup
  rcases List.eq_nil_or_concat l₁ with rfl | ⟨s, p, rfl⟩
  · rw [List.nil_append] at hp hx hnodup ⊢
    rw [List.mem_cons, not_or] at hx
    exact hp.insert (List.nodup_cons.1 hnodup).1 (nodup_rotate hnodup) hx.1 (by simp [hx.1, hx.2])
  · have hlast : last h (s ++ [p]) = p := by simp [last]
    rw [List.concat_eq_append, List.append_assoc, List.singleton_append] at hp hx hnodup ⊢
    rw [List.concat_eq_append, hlast] at hnext
    rw [hlast]
    rw [path_append_cons] at hp ⊢
    have hxs : x ≠ h ∧ x ∉ s ∧ x ≠ p ∧ x ∉ l₂ := by simpa [not_or] using hx
    obtain ⟨hxh, hxs, hxp, hxl⟩ := hxs
    refine ⟨hp.1.congr_before hnodup (fun u hup hu => ?_) fun u hnot hu => ?_, ?_⟩
    · have hux : u ≠ x := by
        rintro rfl
        simp [hxh, hxs] at hu
      simp [linkAfter, hup, hux]
    · have hux : u ≠ x := by
        rintro rfl
        simp [hxp, hxs] at hu
      have hun : u ≠ k.next p := fun h' => hnot (h' ▸ hnext ▸ first_mem h l₂)
      simp [linkAfter, hux, hun]
    · have hnodup' : (p :: (l₂ ++ [h])).Nodup := by
        have := nodup_rotate hnodup
        rw [List.append_assoc, List.nodup_append] at this
        exact this.2.1
      rw [List.nodup_cons] at hnodup'
      refine hp.2.insert (fun hpl => hnodup'.1 (List.mem_append_left _ hpl)) hnodup'.2 hxp ?_
      simp [hxl, hxh]

theorem IsRing.unlink (hr : IsRing k h (l₁ ++ x :: l₂)) : IsRing (unlink k x) h (l₁ ++ l₂) := by
  obtain ⟨hxl, hnodup'⟩ := nodup_of_insert hr.nodup
  obtain ⟨-, hprev⟩ := hr.links_at
  have hp := hr.path
  have hnodup := hr.nodup
  refine ⟨?_, hnodup'⟩
  rcases List.eq_nil_or_concat l₁ with rfl | ⟨s, p, rfl⟩
  · rw [List.nil_append] at hp hnodup' ⊢
    exact hp.unlink (List.nodup_cons.1 hnodup').1 (nodup_rotate hnodup')
  · have hlast : last h (s ++ [p]) = p := by simp [last]
    rw [List.concat_eq_append, List.append_assoc, List.singleton_append] at hp hnodup hnodup' ⊢
    rw [List.concat_eq_append, hlast] at hprev
    have hxprev : k.prev x = p := hprev
    have hxnext : k.next x = first h l₂ := by
      have hx : Path k x l₂ h := (path_append_cons.1 hp).2.2.2
      exact hx.next_eq
    rw [path_append_cons] at hp ⊢
    refine ⟨hp.1.congr_before hnodup' (fun u hup _ => ?_) fun u hnot _ => ?_, ?_⟩
    · simp [LinkedRing.unlink, hxprev, hup]
    · have hun : u ≠ k.next x := fun h' => hnot (h' ▸ hxnext ▸ first_mem h l₂)
      simp [LinkedRing.unlink, hun]
    · have hnodup'' : (p :: (l₂ ++ [h])).Nodup := by
        have := nodup_rotate hnodup'
        rw [List.append_assoc, List.nodup_append] at this
        exact this.2.1
      rw [List.nodup_cons] at hnodup''
      exact hp.2.unlink (fun hpl => hnodup''.1 (List.mem_append_left _ hpl)) hnodup''.2

/-- A ring that shares no node with the one of a change stays as it is. -/
theorem IsRing.insert_other (hr : IsRing k h (l₁ ++ l₂)) {h' : ν} {l' : List ν} (hr' : IsRing k h' l')
    (hdisj : ∀ u ∈ h' :: l', u ∉ h :: (l₁ ++ l₂) ∧ u ≠ x) : IsRing (linkAfter k (last h l₁) x) h' l' := by
  obtain ⟨hnext, -⟩ := hr.links_at
  refine hr'.congr fun u hu => linkAfter_of_ne ?_ ?_ (hdisj u hu).2
  · intro hup
    have hmem := last_mem h l₁
    refine (hdisj u hu).1 (hup ▸ ?_)
    simp at hmem ⊢
    tauto
  · intro hun
    have hmem := first_mem h l₂
    rw [← hnext, ← hun] at hmem
    refine (hdisj u hu).1 ?_
    simp at hmem ⊢
    tauto

theorem IsRing.unlink_other (hr : IsRing k h (l₁ ++ x :: l₂)) {h' : ν} {l' : List ν} (hr' : IsRing k h' l')
    (hdisj : ∀ u ∈ h' :: l', u ∉ h :: (l₁ ++ x :: l₂)) : IsRing (LinkedRing.unlink k x) h' l' := by
  have hprev := hr.links_at.2
  have hx : k.prev x = last h l₁ := hprev
  have hr₂ : IsRing k h ((l₁ ++ [x]) ++ l₂) := by simpa using hr
  have hnext := hr₂.links_at.1
  rw [show last h (l₁ ++ [x]) = x by simp [last]] at hnext
  refine hr'.congr fun u hu => unlink_of_ne ?_ ?_
  · intro hun
    have hmem := first_mem h l₂
    rw [← hnext, ← hun] at hmem
    refine hdisj u hu ?_
    simp at hmem ⊢
    tauto
  · intro hup
    have hmem := last_mem h l₁
    rw [← hx, ← hup] at hmem
    refine hdisj u hu ?_
    simp at hmem ⊢
    tauto

end LinkedRing
