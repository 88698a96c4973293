import Mathlib.Data.List.Sort

/-! Lists in the order of a key, elements of equal key as they came. -/
namespace RedRoomRewards.Store
variable {α κ : Type} [LinearOrder κ]

/-- The first list is the second in the order of the key. -/
structure StableSorted (key : α → κ) (sorted l : List α) : Prop where
  perm : sorted.Perm l
  ordered : sorted.Pairwise fun a b => key a ≤ key b
  stable : ∀ k, sorted.filter (fun a => key a = k) = l.filter fun a => key a = k

namespace StableSorted
variable {key : α → κ} {sorted l : List α}

variable (key) (l) in
theorem insertionSort : StableSorted key (l.insertionSort fun a b => key a ≤ key b) l where
  perm := List.perm_insertionSort _ l
  ordered := List.pairwise_insertionSort _ l
  stable k := by
    -- what has the key `k` is in order already, so sorting keeps it as a sublist
    have hsame : (l.filter fun a => key a = k).Pairwise fun a b => key a ≤ key b := by
      apply List.Pairwise.imp_of_mem _ (List.pairwise_of_forall (R := fun _ _ => True) fun _ _ => trivial)
      intro a b ha hb _
      have ha' : key a = k := of_decide_eq_true (List.mem_filter.mp ha).2
      have hb' : key b = k := of_decide_eq_true (List.mem_filter.mp hb).2
      rw [ha', hb']
    have hsub := (List.sublist_insertionSort hsame List.filter_sublist).filter fun a => key a = k
    rw [List.filter_filter, funext fun a => Bool.and_self _] at hsub
    exact (hsub.eq_of_length ((List.perm_insertionSort _ l).filter _).length_eq.symm).symm

theorem trans {m : List α} (h : StableSorted key sorted m) (h' : StableSorted key m l) : StableSorted key sorted l where
  perm := h.perm.trans h'.perm
  ordered := h.ordered
  stable k := (h.stable k).trans (h'.stable k)

/-- Sorting what is sorted with one more at its end. -/
theorem insert (h : StableSorted key sorted l) (a : α) :
    StableSorted key ((sorted ++ [a]).insertionSort fun a b => key a ≤ key b) (l ++ [a]) where
  perm := (List.perm_insertionSort _ _).trans (h.perm.append_right [a])
  ordered := List.pairwise_insertionSort _ _
  stable k := by rw [(insertionSort key _).stable k, List.filter_append, List.filter_append, h.stable k]

theorem filter (h : StableSorted key sorted l) (p : α → Bool) : StableSorted key (sorted.filter p) (l.filter p) where
  perm := h.perm.filter p
  ordered := h.ordered.filter p
  stable k := by rw [List.filter_comm, h.stable k, List.filter_comm]

/-- What is in the order of a coarser key is in the order of the key itself exactly if the
key never falls. -/
theorem refine_iff {fine : α → κ} {f : κ → κ} (h : StableSorted (fun a => f (fine a)) sorted l) :
    StableSorted fine sorted l ↔ ∀ a b, [a, b].Sublist sorted → fine a ≤ fine b := by
  rw [← List.pairwise_iff_forall_sublist]
  constructor
  · exact fun hfine => hfine.ordered
  · intro hordered
    refine ⟨h.perm, hordered, fun k => ?_⟩
    have hcoarse : ∀ m : List α, m.filter (fun a => fine a = k) =
        (m.filter fun a => f (fine a) = f k).filter fun a => fine a = k := by
      intro m
      rw [List.filter_filter]
      apply List.filter_congr
      intro a _
      by_cases ha : fine a = k <;> simp [ha]
    rw [hcoarse sorted, h.stable, ← hcoarse]

/-- Elements of equal key stand in the sorted list as they came. -/
theorem sublist_iff (h : StableSorted key sorted l) {a b : α} (hkey : key a = key b) :
    [a, b].Sublist sorted ↔ [a, b].Sublist l := by
  have hfilter : ∀ m : List α, [a, b].Sublist m ↔ [a, b].Sublist (m.filter fun x => key x = key b) := by
    intro m
    constructor
    · intro hsub
      have := hsub.filter fun x => decide (key x = key b)
      simpa [hkey] using this
    · exact fun hsub => hsub.trans List.filter_sublist
  rw [hfilter sorted, hfilter l, h.stable]

/-- An element of smaller key stands first. -/
theorem sublist_of_lt (h : StableSorted key sorted l) {a b : α} (ha : a ∈ l) (hb : b ∈ l) (hlt : key a < key b) :
    [a, b].Sublist sorted := by
  obtain ⟨before, after, rfl⟩ := List.append_of_mem (h.perm.mem_iff.mpr ha)
  rcases List.mem_append.mp (h.perm.mem_iff.mpr hb) with hbefore | hafter
  · have hle := (List.pairwise_append.mp h.ordered).2.2 b hbefore a List.mem_cons_self
    exact absurd hle (not_le.mpr hlt)
  · rcases List.mem_cons.mp hafter with rfl | hmem
    · exact absurd hlt (lt_irrefl _)
    · apply List.Sublist.trans _ (List.sublist_append_right _ _)
      exact (List.singleton_sublist.mpr hmem).cons_cons a

end StableSorted
end RedRoomRewards.Store
