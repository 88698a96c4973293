import RedRoomRewards.Store.Collection
import Mathlib.Data.List.Sort

/-! Keeping a collection below a size by removing its oldest documents. -/
namespace RedRoomRewards.Store.Collection
variable {δ κ ι τ : Type} {key : δ → κ} {index : δ → ι} [DecidableEq κ] [LinearOrder τ]
variable (c : Collection δ κ ι key index) (time : δ → τ) (maxSize : ℕ)

/-- Remove the oldest documents if there are more than `maxSize`. -/
def evictOldest : Collection δ κ ι key index :=
  if c.docs.length ≤ maxSize then c else
    let oldestFirst := c.docs.insertionSort fun d d' => time d ≤ time d'
    (oldestFirst.take (oldestFirst.length - maxSize)).foldl (fun c d => c.erase (key d)) c

/-- `c'` is left of the collection: what there was too much of has been removed, nothing of
it later than anything that is left. -/
structure KeepsNewest (c' : Collection δ κ ι key index) : Prop where
  kept : c'.docs.Sublist c.docs
  removed : (c.docs.filter fun d => (c'.find (key d)).isNone).length = c.docs.length - maxSize
  oldest : ∀ d ∈ c.docs, c'.find (key d) = none → ∀ d' ∈ c'.docs, time d ≤ time d'

variable {c} {time} {maxSize}

private theorem docs_foldl_erase (ds : List δ) :
    (ds.foldl (fun c d => c.erase (key d)) c).docs = c.docs.filter fun d => key d ∉ ds.map key := by
  induction ds generalizing c with
  | nil => simp
  | cons d ds ih =>
    rw [List.foldl_cons, ih, erase, List.filter_filter]
    apply List.filter_congr
    intro d' _
    by_cases hkey : key d' = key d <;> simp [hkey]

variable (time) in
/-- What is left of it is what comes last in the order of time. -/
private theorem docs_evicted (hlarge : maxSize < c.docs.length) :
    (c.evictOldest time maxSize).docs.Perm
      ((c.docs.insertionSort fun d d' => time d ≤ time d').drop (c.docs.length - maxSize)) ∧
    (c.evictOldest time maxSize).docs.Sublist c.docs := by
  have hperm := List.perm_insertionSort (fun d d' => time d ≤ time d') c.docs
  rw [evictOldest, if_neg (Nat.not_le.mpr hlarge), docs_foldl_erase, hperm.length_eq]
  refine ⟨?_, List.filter_sublist⟩
  generalize c.docs.insertionSort (fun d d' => time d ≤ time d') = sorted at hperm
  have hnodup : ((sorted.take (c.docs.length - maxSize)).map key ++
      (sorted.drop (c.docs.length - maxSize)).map key).Nodup := by
    rw [← List.map_append, List.take_append_drop]
    exact (hperm.map key).nodup_iff.mpr c.key_nodup
  generalize htake : sorted.take (c.docs.length - maxSize) = removed at hnodup
  generalize hdrop : sorted.drop (c.docs.length - maxSize) = kept at hnodup
  have hsorted : removed ++ kept = sorted := by rw [← htake, ← hdrop, List.take_append_drop]
  rw [← hsorted] at hperm
  refine (hperm.symm.filter _).trans (List.Perm.of_eq ?_)
  have hremoved : removed.filter (fun d => key d ∉ removed.map key) = [] := by
    apply List.filter_eq_nil_iff.mpr
    intro d hd
    simpa using ⟨d, hd, rfl⟩
  have hkept : kept.filter (fun d => key d ∉ removed.map key) = kept := by
    apply List.filter_eq_self.mpr
    intro d hd
    apply decide_eq_true
    intro hmem
    exact List.disjoint_of_nodup_append hnodup hmem (List.mem_map_of_mem hd)
  rw [List.filter_append, hremoved, hkept, List.nil_append]

/-- A document is gone if it is not among those that are left. -/
private theorem find_kept {c' : Collection δ κ ι key index} (hkept : c'.docs.Sublist c.docs) {d : δ}
    (hd : d ∈ c.docs) : c'.find (key d) = none ↔ d ∉ c'.docs := by
  rw [find_eq_none]
  constructor
  · exact fun hnone hmem => hnone d hmem rfl
  · intro hnot d' hd' hkey
    have hsame : d' = d := List.inj_on_of_nodup_map c.key_nodup (hkept.subset hd') hd hkey
    exact hnot (hsame ▸ hd')

theorem length_evictOldest : (c.evictOldest time maxSize).docs.length ≤ maxSize := by
  by_cases hsize : c.docs.length ≤ maxSize
  · rwa [evictOldest, if_pos hsize]
  · have hlength := (docs_evicted time (Nat.not_le.mp hsize)).1.length_eq
    rw [List.length_drop, List.length_insertionSort] at hlength
    omega

theorem keepsNewest_evictOldest : c.KeepsNewest time maxSize (c.evictOldest time maxSize) := by
  by_cases hsize : c.docs.length ≤ maxSize
  · rw [evictOldest, if_pos hsize]
    have hstays : ∀ d ∈ c.docs, c.find (key d) = some d := fun d hd => find_of_mem hd
    refine ⟨.refl _, ?_, fun d hd hnone => ?_⟩
    · rw [Nat.sub_eq_zero_of_le hsize, List.length_eq_zero_iff, List.filter_eq_nil_iff]
      intro d hd
      simp [hstays d hd]
    · rw [hstays d hd] at hnone
      cases hnone
  · obtain ⟨hperm, hkept⟩ := docs_evicted time (Nat.not_le.mp hsize)
    refine ⟨hkept, ?_, fun d hd hnone d' hd' => ?_⟩
    · have hnodup : c.docs.Nodup := .of_map key c.key_nodup
      have hstay : (c.docs.filter fun d => !(((c.evictOldest time maxSize).find (key d)).isNone)).Perm
          (c.evictOldest time maxSize).docs := by
        apply (List.perm_ext_iff_of_nodup (hnodup.filter _) (hnodup.sublist hkept)).mpr
        intro d
        rw [List.mem_filter, Bool.not_eq_true', Option.isNone_eq_false_iff, Option.isSome_iff_ne_none]
        constructor
        · rintro ⟨hd, hsome⟩
          exact not_not.mp fun hnot => hsome ((find_kept hkept hd).mpr hnot)
        · exact fun hd => ⟨hkept.subset hd, fun hnone => (find_kept hkept (hkept.subset hd)).mp hnone hd⟩
      have hsplit := List.length_eq_length_filter_add (l := c.docs)
        fun d => ((c.evictOldest time maxSize).find (key d)).isNone
      rw [hstay.length_eq, hperm.length_eq, List.length_drop, List.length_insertionSort] at hsplit
      omega
    · have hsorted := List.pairwise_insertionSort (fun d d' => time d ≤ time d') c.docs
      rw [← List.take_append_drop (c.docs.length - maxSize) (c.docs.insertionSort _)] at hsorted
      refine (List.pairwise_append.mp hsorted).2.2 d ?_ d' (hperm.mem_iff.mp hd')
      have hmem : d ∈ c.docs.insertionSort fun d d' => time d ≤ time d' := (List.mem_insertionSort _).mpr hd
      rw [← List.take_append_drop (c.docs.length - maxSize) (c.docs.insertionSort _)] at hmem
      rcases List.mem_append.mp hmem with htaken | hleft
      · exact htaken
      · exact absurd (hperm.mem_iff.mpr hleft) ((find_kept hkept hd).mp hnone)

end RedRoomRewards.Store.Collection
