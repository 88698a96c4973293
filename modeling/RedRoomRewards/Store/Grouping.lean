import Mathlib.Data.List.Induction
import Mathlib.Data.List.Nodup

/-! Maps that keep their keys in the order in which they were first set, and the loop that
groups a list by a key: each element is added to what its key has so far. -/
namespace RedRoomRewards.Store

section alter
variable {κ α : Type} [DecidableEq κ]

/-- Set the value of a key from the one it has, if it has one; a new key comes last. -/
def alter (k : κ) (f : Option α → α) : List (κ × α) → List (κ × α)
  | [] => [(k, f none)]
  | (k', a) :: m => if k' = k then (k', f (some a)) :: m else (k', a) :: alter k f m

variable {k k' : κ} {a : α} {f : Option α → α} {m : List (κ × α)}

/-- A key that is set already keeps its place. -/
theorem keys_alter : (alter k f m).map Prod.fst = m.map Prod.fst ∨
    (alter k f m).map Prod.fst = m.map Prod.fst ++ [k] ∧ k ∉ m.map Prod.fst := by
  induction m with
  | nil => exact .inr ⟨rfl, List.not_mem_nil⟩
  | cons x m ih =>
    obtain ⟨k₀, a₀⟩ := x
    rw [alter]
    split
    · exact .inl rfl
    · rename_i hne
      rcases ih with ih | ⟨ih, hnew⟩
      · exact .inl (congrArg (k₀ :: ·) ih)
      · refine .inr ⟨congrArg (k₀ :: ·) ih, fun hmem => ?_⟩
        rcases List.mem_cons.mp hmem with heq | hmem
        · exact hne heq.symm
        · exact hnew hmem

theorem nodup_alter (h : (m.map Prod.fst).Nodup) : ((alter k f m).map Prod.fst).Nodup := by
  rcases keys_alter (k := k) (f := f) (m := m) with hkeys | ⟨hkeys, hnew⟩
  · rwa [hkeys]
  · rw [hkeys, List.nodup_append]
    refine ⟨h, by simp, fun k₀ hk₀ k₁ hk₁ heq => hnew ?_⟩
    rwa [← List.mem_singleton.mp hk₁, ← heq]

theorem mem_keys_alter : k' ∈ (alter k f m).map Prod.fst ↔ k' ∈ m.map Prod.fst ∨ k' = k := by
  induction m with
  | nil => simp [alter]
  | cons x m ih =>
    obtain ⟨k₀, a₀⟩ := x
    rw [alter]
    split
    · rename_i heq
      simp only [List.map_cons, List.mem_cons, heq]
      exact (or_iff_left_of_imp .inl).symm
    · simp only [List.map_cons, List.mem_cons, ih, or_assoc]

theorem mem_alter_of_ne (hne : k' ≠ k) : (k', a) ∈ alter k f m ↔ (k', a) ∈ m := by
  induction m with
  | nil => simp [alter, hne]
  | cons x m ih =>
    obtain ⟨k₀, a₀⟩ := x
    rw [alter]
    split
    · rename_i heq
      simp [heq, hne]
    · simp [ih]

/-- The new value of a key comes from the one it had. -/
theorem mem_alter_self (h : (m.map Prod.fst).Nodup) (hmem : (k, a) ∈ alter k f m) :
    (∃ a₀, (k, a₀) ∈ m ∧ a = f (some a₀)) ∨ k ∉ m.map Prod.fst ∧ a = f none := by
  induction m with
  | nil =>
    obtain ⟨-, rfl⟩ := Prod.mk.inj (List.mem_singleton.mp hmem)
    exact .inr ⟨List.not_mem_nil, rfl⟩
  | cons x m ih =>
    obtain ⟨k₀, a₀⟩ := x
    obtain ⟨hnew, hrest⟩ := List.nodup_cons.mp h
    rw [alter] at hmem
    split at hmem
    · rename_i heq
      subst heq
      rcases List.mem_cons.mp hmem with heq | hmem
      · exact .inl ⟨a₀, List.mem_cons_self, (Prod.mk.inj heq).2⟩
      · exact absurd (List.mem_map.mpr ⟨_, hmem, rfl⟩) hnew
    · rename_i hne
      rcases List.mem_cons.mp hmem with heq | hmem
      · exact absurd (Prod.mk.inj heq).1.symm hne
      · rcases ih hrest hmem with ⟨a₁, ha₁, ha⟩ | ⟨hnot, ha⟩
        · exact .inl ⟨a₁, List.mem_cons_of_mem _ ha₁, ha⟩
        · refine .inr ⟨fun hkey => ?_, ha⟩
          rcases List.mem_cons.mp hkey with heq | hkey
          · exact hne heq.symm
          · exact hnot hkey

end alter

section group
variable {δ κ α : Type} [DecidableEq κ] (key : δ → κ) (add : Option α → δ → α)

/-- The loop over a list that adds each element to what its key has. -/
def groupBy (ds : List δ) : List (κ × α) := ds.foldl (fun m d => alter (key d) (add · d) m) []

variable {key} {add}

private theorem groupBy_concat (ds : List δ) (d : δ) :
    groupBy key add (ds ++ [d]) = alter (key d) (add · d) (groupBy key add ds) := by
  rw [groupBy, List.foldl_append]
  rfl

theorem nodup_groupBy (ds : List δ) : ((groupBy key add ds).map Prod.fst).Nodup := by
  induction ds using List.reverseRecOn with
  | nil => exact List.nodup_nil
  | append_singleton ds d ih =>
    rw [groupBy_concat]
    exact nodup_alter ih

/-- There is a group for each key that occurs. -/
theorem mem_keys_groupBy {ds : List δ} {k : κ} : k ∈ (groupBy key add ds).map Prod.fst ↔ ∃ d ∈ ds, key d = k := by
  induction ds using List.reverseRecOn with
  | nil => simp [groupBy]
  | append_singleton ds d ih =>
    rw [groupBy_concat, mem_keys_alter, ih]
    simp [or_and_right, exists_or, eq_comm]

/-- What holds of the first element of a group, and goes on to hold when one more is added,
holds of every group. -/
theorem groupBy_induction {P : List δ → α → Prop} (hfirst : ∀ d, P [d] (add none d))
    (hnext : ∀ ds a d, P ds a → P (ds ++ [d]) (add (some a) d)) {ds : List δ} {k : κ} {a : α}
    (h : (k, a) ∈ groupBy key add ds) : P (ds.filter fun d => key d = k) a := by
  induction ds using List.reverseRecOn generalizing a with
  | nil => cases h
  | append_singleton ds d ih =>
    rw [groupBy_concat] at h
    rw [List.filter_append, List.filter_singleton]
    by_cases hk : key d = k
    · rw [decide_eq_true hk]
      subst hk
      rcases mem_alter_self (nodup_groupBy ds) h with ⟨a₀, ha₀, rfl⟩ | ⟨hnew, rfl⟩
      · exact hnext _ _ _ (ih ha₀)
      · have hnone : ds.filter (fun d' => key d' = key d) = [] :=
          List.filter_eq_nil_iff.mpr fun d' hd' heq =>
            hnew (mem_keys_groupBy.mpr ⟨d', hd', of_decide_eq_true heq⟩)
        rw [hnone]
        exact hfirst d
    · rw [decide_eq_false hk, cond_false, List.append_nil]
      exact ih ((mem_alter_of_ne (Ne.symm hk)).mp h)

end group
end RedRoomRewards.Store
