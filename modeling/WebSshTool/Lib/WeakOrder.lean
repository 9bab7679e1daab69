import Mathlib.Data.List.Pairwise
import Mathlib.Data.List.Sort

/-!
# Comparators that are strict weak orders

A comparator answers a negative number, zero or a positive one. On the elements
of a list it may or may not be a strict weak order; where it is one, it is the
order of a number: `rank` counts how many of them come before an element. From
this follows what sorting is used for. The result is ordered pair by pair, and
two results for the same elements differ only in elements that compare equal.
-/

namespace WebSshTool.WeakOrder

variable {α : Type*}

structure StrictWeak (c : α → α → Int) (xs : List α) : Prop where
  /-- The signs of the two answers are opposite. -/
  antisymm : ∀ a ∈ xs, ∀ b ∈ xs, 0 < c a b ↔ c b a < 0
  trans : ∀ a ∈ xs, ∀ b ∈ xs, ∀ d ∈ xs, c a b < 0 → c b d < 0 → c a d < 0
  tie : ∀ a ∈ xs, ∀ b ∈ xs, ∀ d ∈ xs, c a b = 0 → c b d = 0 → c a d = 0

/-- `Array.prototype.sort`, which is stable. For a comparator that is no strict
weak order the language leaves the result open; this is then one that may be. -/
def sort (c : α → α → Int) (xs : List α) : List α := xs.mergeSort fun a b => c a b ≤ 0

/-- What a comparator is used for: the order it is of, and results that are in
it and do not depend on where an element stood. -/
structure Consistent (c : α → α → Int) (xs : List α) : Prop where
  strictWeak : StrictWeak c xs
  pairwise : ∀ ys, ys.Perm xs → (sort c ys).Pairwise fun a b => c a b ≤ 0
  unique : ∀ ys zs, ys.Perm xs → zs.Perm xs →
    List.Forall₂ (fun a b => c a b = 0) (sort c ys) (sort c zs)

theorem sort_perm (c : α → α → Int) (xs : List α) : (sort c xs).Perm xs :=
  List.mergeSort_perm xs _

/-- Of two elements of a list one stands before the other. -/
theorem pairwise_or {R : α → α → Prop} {xs : List α} (h : xs.Pairwise R) {a b : α} (ha : a ∈ xs)
    (hb : b ∈ xs) (hne : a ≠ b) : R a b ∨ R b a := by
  have hsymm : Std.Symm fun a b => R a b ∨ R b a := ⟨fun _ _ => Or.symm⟩
  exact (h.imp Or.inl).forall (R := fun a b => R a b ∨ R b a) ha hb hne

/-- How many elements come before `a`. -/
def rank (c : α → α → Int) (xs : List α) (a : α) : Nat := xs.countP fun x => c x a < 0

namespace StrictWeak

variable {c : α → α → Int} {xs : List α} {a b d : α}

theorem zero_comm (h : StrictWeak c xs) (ha : a ∈ xs) (hb : b ∈ xs) : c a b = 0 ↔ c b a = 0 := by
  have hab := h.antisymm a ha b hb
  have hba := h.antisymm b hb a ha
  omega

theorem self (h : StrictWeak c xs) (ha : a ∈ xs) : c a a = 0 := by
  have haa := h.antisymm a ha a ha
  omega

theorem lt_of_lt_of_le (h : StrictWeak c xs) (ha : a ∈ xs) (hb : b ∈ xs) (hd : d ∈ xs)
    (hab : c a b < 0) (hbd : c b d ≤ 0) : c a d < 0 := by
  rcases Int.lt_or_eq_of_le hbd with hlt | htie
  · exact h.trans a ha b hb d hd hab hlt
  · by_contra hnot
    rcases Int.lt_or_eq_of_le (Int.not_lt.mp hnot) with hpos | hzero
    · -- Then `d` is before `a` and `a` before `b`.
      have hdb := h.trans d hd a ha b hb ((h.antisymm a ha d hd).mp hpos) hab
      have := (h.zero_comm hb hd).mp htie
      omega
    · have := h.tie a ha d hd b hb hzero.symm ((h.zero_comm hb hd).mp htie)
      omega

theorem rank_le (h : StrictWeak c xs) (ha : a ∈ xs) (hb : b ∈ xs) (hab : c a b ≤ 0) :
    rank c xs a ≤ rank c xs b := by
  refine List.countP_mono_left fun x hx hxa => ?_
  rw [decide_eq_true_eq] at hxa ⊢
  exact h.lt_of_lt_of_le hx ha hb hxa hab

theorem rank_lt (h : StrictWeak c xs) (ha : a ∈ xs) (hb : b ∈ xs) (hab : c a b < 0) :
    rank c xs a < rank c xs b := by
  obtain ⟨before, behind, rfl⟩ := List.append_of_mem ha
  have hle : ∀ ys : List α, (∀ x ∈ ys, x ∈ before ++ a :: behind) →
      ys.countP (fun x => c x a < 0) ≤ ys.countP fun x => c x b < 0 := by
    intro ys hys
    refine List.countP_mono_left fun x hx hxa => ?_
    rw [decide_eq_true_eq] at hxa ⊢
    exact h.trans x (hys x hx) a ha b hb hxa hab
  have hbefore := hle before fun x hx => by simp [hx]
  have hbehind := hle behind fun x hx => by simp [hx]
  -- The element itself is before `b`, and not before itself.
  simp only [rank, List.countP_append, List.countP_cons, h.self ha, hab, Int.lt_irrefl,
    decide_true, decide_false, if_true]
  simp only [Bool.false_eq_true, if_false]
  omega

theorem le_zero_iff (h : StrictWeak c xs) (ha : a ∈ xs) (hb : b ∈ xs) :
    c a b ≤ 0 ↔ rank c xs a ≤ rank c xs b := by
  refine ⟨h.rank_le ha hb, fun hle => ?_⟩
  by_contra hpos
  have := h.rank_lt hb ha ((h.antisymm a ha b hb).mp (by omega))
  omega

theorem eq_zero_iff (h : StrictWeak c xs) (ha : a ∈ xs) (hb : b ∈ xs) :
    c a b = 0 ↔ rank c xs a = rank c xs b := by
  have hle := h.le_zero_iff ha hb
  have hge := h.le_zero_iff hb ha
  have hab := h.antisymm a ha b hb
  have hba := h.antisymm b hb a ha
  omega

/-- A comparator that goes by a key. -/
theorem of_key {β : Type*} [LinearOrder β] (f : α → β)
    (hlt : ∀ a ∈ xs, ∀ b ∈ xs, c a b < 0 ↔ f a < f b)
    (hgt : ∀ a ∈ xs, ∀ b ∈ xs, 0 < c a b ↔ f b < f a) : StrictWeak c xs where
  antisymm a ha b hb := by rw [hgt a ha b hb, hlt b hb a ha]
  trans a ha b hb d hd hab hbd := by
    rw [hlt a ha b hb] at hab
    rw [hlt b hb d hd] at hbd
    exact (hlt a ha d hd).mpr (lt_trans hab hbd)
  tie a ha b hb d hd hab hbd := by
    have hzero : ∀ a ∈ xs, ∀ b ∈ xs, c a b = 0 ↔ f a = f b := fun a ha b hb => by
      have heq : f a = f b ↔ ¬ f a < f b ∧ ¬ f b < f a := by
        rw [not_lt, not_lt, and_comm]
        exact le_antisymm_iff
      rw [heq, ← hlt a ha b hb, ← hgt a ha b hb]
      omega
    rw [hzero a ha d hd, (hzero a ha b hb).mp hab, (hzero b hb d hd).mp hbd]

/-! ## Sorting -/

theorem perm (h : StrictWeak c xs) {ys : List α} (hperm : ys.Perm xs) : StrictWeak c ys where
  antisymm a ha b hb := h.antisymm a (hperm.mem_iff.mp ha) b (hperm.mem_iff.mp hb)
  trans a ha b hb d hd :=
    h.trans a (hperm.mem_iff.mp ha) b (hperm.mem_iff.mp hb) d (hperm.mem_iff.mp hd)
  tie a ha b hb d hd :=
    h.tie a (hperm.mem_iff.mp ha) b (hperm.mem_iff.mp hb) d (hperm.mem_iff.mp hd)

/-- On its elements the comparator sorts by rank. -/
theorem sort_eq (h : StrictWeak c xs) :
    sort c xs = xs.mergeSort fun a b => rank c xs a ≤ rank c xs b := by
  have hmap := List.map_mergeSort (f := id) (r := fun a b => decide (c a b ≤ 0))
    (s := fun a b => decide (rank c xs a ≤ rank c xs b)) (l := xs)
    fun a ha b hb => by simp only [id, h.le_zero_iff ha hb]
  rwa [List.map_id, List.map_id] at hmap

theorem pairwise_sort (h : StrictWeak c xs) : (sort c xs).Pairwise fun a b => c a b ≤ 0 := by
  have hsorted : (xs.mergeSort fun a b => decide (rank c xs a ≤ rank c xs b)).Pairwise
      fun a b => decide (rank c xs a ≤ rank c xs b) = true :=
    List.pairwise_mergeSort (fun a b d hab hbd => by
      rw [decide_eq_true_eq] at hab hbd ⊢
      omega) (fun a b => by simp; omega) xs
  rw [← h.sort_eq] at hsorted
  refine hsorted.imp_of_mem fun ha hb hle => ?_
  exact (h.le_zero_iff ((sort_perm c xs).mem_iff.mp ha) ((sort_perm c xs).mem_iff.mp hb)).mpr
    (of_decide_eq_true hle)

theorem rank_perm {ys : List α} (hperm : ys.Perm xs) : rank c ys = rank c xs :=
  funext fun _ => hperm.countP_eq _

/-- Two results have the same ranks, place by place. -/
theorem forall₂_sort (h : StrictWeak c xs) {ys zs : List α} (hys : ys.Perm xs)
    (hzs : zs.Perm xs) : List.Forall₂ (fun a b => c a b = 0) (sort c ys) (sort c zs) := by
  have hranks : ∀ ws : List α, ws.Perm xs → ((sort c ws).map (rank c xs)).Pairwise (· ≤ ·) := by
    intro ws hws
    have hweak := h.perm hws
    refine List.pairwise_map.mpr (hweak.pairwise_sort.imp_of_mem fun ha hb hle => ?_)
    have hrank := (hweak.le_zero_iff ((sort_perm c ws).mem_iff.mp ha)
      ((sort_perm c ws).mem_iff.mp hb)).mp hle
    rwa [rank_perm hws] at hrank
  have hperm : ∀ ws : List α, ws.Perm xs → (sort c ws).Perm xs := fun ws hws =>
    (sort_perm c ws).trans hws
  have heq : (sort c ys).map (rank c xs) = (sort c zs).map (rank c xs) :=
    List.Perm.eq_of_pairwise (fun a b _ _ => Nat.le_antisymm) (hranks ys hys) (hranks zs hzs)
      (((hperm ys hys).trans (hperm zs hzs).symm).map _)
  rw [← List.forall₂_eq_eq_eq, List.forall₂_map_left_iff, List.forall₂_map_right_iff] at heq
  obtain ⟨hlen, hzip⟩ := List.forall₂_iff_zip.mp heq
  refine List.forall₂_iff_zip.mpr ⟨hlen, fun hab => ?_⟩
  obtain ⟨ha, hb⟩ := List.of_mem_zip hab
  exact (h.eq_zero_iff ((hperm ys hys).mem_iff.mp ha) ((hperm zs hzs).mem_iff.mp hb)).mpr
    (hzip hab)

theorem consistent_iff : Consistent c xs ↔ StrictWeak c xs :=
  ⟨Consistent.strictWeak, fun h => ⟨h, fun _ hys => (h.perm hys).pairwise_sort,
    fun _ _ hys hzs => h.forall₂_sort hys hzs⟩⟩

end StrictWeak

end WebSshTool.WeakOrder
