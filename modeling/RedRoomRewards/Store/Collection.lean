import Mathlib.Algebra.BigOperators.Group.Finset.Piecewise
import Mathlib.Algebra.Order.BigOperators.Group.List
import Mathlib.Data.List.Nodup
import Mathlib.Order.Lattice
import Mathlib.Order.Nat
import Mathlib.Tactic.Abel

/-! Document collections with a unique key and one further unique index. -/
namespace RedRoomRewards.Store

/-- Documents in insertion order; no two agree on the key or on the index. A
collection without a second index takes its key for it. -/
structure Collection (δ κ ι : Type) (key : δ → κ) (index : δ → ι) where
  docs : List δ
  key_nodup : (docs.map key).Nodup
  index_nodup : (docs.map index).Nodup

namespace Collection
variable {δ κ ι : Type} {key : δ → κ} {index : δ → ι}
variable (c : Collection δ κ ι key index)

def empty : Collection δ κ ι key index := ⟨[], List.nodup_nil, List.nodup_nil⟩

/-- `f` changes neither the key nor the index of a document. -/
def Keeps (key : δ → κ) (index : δ → ι) (f : δ → δ) : Prop :=
  ∀ d, key (f d) = key d ∧ index (f d) = index d

/-- The index determines the document. -/
theorem eq_of_index {c : Collection δ κ ι key index} {d d' : δ} (hd : d ∈ c.docs) (hd' : d' ∈ c.docs)
    (h : index d = index d') : d = d' := List.inj_on_of_nodup_map c.index_nodup hd hd' h

/-- Change every document where neither its key nor its index lies. -/
def mapDocs (f : δ → δ) (hf : Keeps key index f) : Collection δ κ ι key index where
  docs := c.docs.map f
  key_nodup := by simpa only [List.map_map, Function.comp_def, fun d => (hf d).1] using c.key_nodup
  index_nodup := by simpa only [List.map_map, Function.comp_def, fun d => (hf d).2] using c.index_nodup

section keyed
variable [DecidableEq κ]

def find (k : κ) : Option δ := c.docs.find? (fun d => key d = k)

/-- Update the document with key `k`, if there is one. -/
def modify (k : κ) (f : δ → δ) (hf : Keeps key index f) : Collection δ κ ι key index where
  docs := c.docs.map (fun d => if key d = k then f d else d)
  key_nodup := by
    have h : ∀ d, key (if key d = k then f d else d) = key d := by
      intro d
      split
      · exact (hf d).1
      · rfl
    simpa only [List.map_map, Function.comp_def, h] using c.key_nodup
  index_nodup := by
    have h : ∀ d, index (if key d = k then f d else d) = index d := by
      intro d
      split
      · exact (hf d).2
      · rfl
    simpa only [List.map_map, Function.comp_def, h] using c.index_nodup

def erase (k : κ) : Collection δ κ ι key index where
  docs := c.docs.filter (fun d => key d ≠ k)
  key_nodup := c.key_nodup.sublist (List.filter_sublist.map key)
  index_nodup := c.index_nodup.sublist (List.filter_sublist.map index)

variable {c}

theorem find_eq_some {k : κ} {d : δ} : c.find k = some d ↔ d ∈ c.docs ∧ key d = k := by
  constructor
  · intro h
    exact ⟨List.mem_of_find?_eq_some h, by simpa using List.find?_some h⟩
  · rintro ⟨hd, rfl⟩
    cases h : c.find (key d) with
    | none => simpa using List.find?_eq_none.mp h d hd
    | some d' =>
      have hk : key d' = key d := by simpa using List.find?_some h
      rw [List.inj_on_of_nodup_map c.key_nodup (List.mem_of_find?_eq_some h) hd hk]

theorem find_eq_none {k : κ} : c.find k = none ↔ ∀ d ∈ c.docs, key d ≠ k := by
  simp [find]

theorem key_of_find {k : κ} {d : δ} (h : c.find k = some d) : key d = k := (find_eq_some.mp h).2

theorem mem_of_find {k : κ} {d : δ} (h : c.find k = some d) : d ∈ c.docs := (find_eq_some.mp h).1

theorem find_of_mem {d : δ} (h : d ∈ c.docs) : c.find (key d) = some d := find_eq_some.mpr ⟨h, rfl⟩

theorem find_modify (k k' : κ) (f : δ → δ) (hf : Keeps key index f) :
    (c.modify k f hf).find k' = if k' = k then (c.find k).map f else c.find k' := by
  have hkey : ∀ d, key (if key d = k then f d else d) = key d := by
    intro d
    split
    · exact (hf d).1
    · rfl
  simp only [find, modify, List.find?_map, Function.comp_def, hkey]
  split
  · rename_i h
    subst h
    cases hfind : c.docs.find? (fun d => key d = k') with
    | none => rfl
    | some d => simp [show key d = k' by simpa using List.find?_some hfind]
  · rename_i h
    cases hfind : c.docs.find? (fun d => key d = k') with
    | none => rfl
    | some d =>
      have hd : key d = k' := by simpa using List.find?_some hfind
      simp [hd, h]

theorem find_modify_self {k : κ} {d : δ} {f : δ → δ} (hf : Keeps key index f) (h : c.find k = some d) :
    (c.modify k f hf).find k = some (f d) := by rw [find_modify, if_pos rfl, h, Option.map_some]

theorem find_modify_ne {k k' : κ} (h : k' ≠ k) (f : δ → δ) (hf : Keeps key index f) :
    (c.modify k f hf).find k' = c.find k' := by rw [find_modify, if_neg h]

theorem modify_congr {k : κ} {f g : δ → δ} {hf : Keeps key index f} {hg : Keeps key index g}
    (h : ∀ d, c.find k = some d → f d = g d) : c.modify k f hf = c.modify k g hg := by
  have hdocs : c.docs.map (fun d => if key d = k then f d else d) =
      c.docs.map (fun d => if key d = k then g d else d) := by
    apply List.map_congr_left
    intro d hd
    split
    · rename_i hk
      exact h d (find_eq_some.mpr ⟨hd, hk⟩)
    · rfl
  simp only [modify, hdocs]

theorem mem_modify {k : κ} {f : δ → δ} {hf : Keeps key index f} {d' : δ} :
    d' ∈ (c.modify k f hf).docs ↔ ∃ d ∈ c.docs, (if key d = k then f d else d) = d' := by
  simp [modify]

theorem mem_erase {k : κ} {d : δ} : d ∈ (c.erase k).docs ↔ d ∈ c.docs ∧ key d ≠ k := by
  simp [erase]

theorem find_erase (k k' : κ) : (c.erase k).find k' = if k' = k then none else c.find k' := by
  split
  · rename_i h
    exact find_eq_none.mpr fun d hd => h ▸ (mem_erase.mp hd).2
  · rename_i h
    cases hfind : c.find k' with
    | none =>
      exact find_eq_none.mpr fun d hd => find_eq_none.mp hfind d (mem_erase.mp hd).1
    | some d =>
      have hd := find_eq_some.mp hfind
      exact find_eq_some.mpr ⟨mem_erase.mpr ⟨hd.1, hd.2 ▸ h⟩, hd.2⟩

theorem find_erase_ne {k k' : κ} (h : k' ≠ k) : (c.erase k).find k' = c.find k' := by
  rw [find_erase, if_neg h]

theorem erase_of_find_none {k : κ} (h : c.find k = none) : c.erase k = c := by
  have hdocs : c.docs.filter (fun d => key d ≠ k) = c.docs :=
    List.filter_eq_self.mpr fun d hd => decide_eq_true (find_eq_none.mp h d hd)
  cases c
  simp only [erase, mk.injEq]
  exact hdocs

end keyed

section insert
variable [DecidableEq κ] [DecidableEq ι]

/-- Neither unique index has an entry for `d` yet. -/
def Free (d : δ) : Prop := (∀ d' ∈ c.docs, key d' ≠ key d) ∧ ∀ d' ∈ c.docs, index d' ≠ index d

instance (d : δ) : Decidable (c.Free d) := inferInstanceAs (Decidable (_ ∧ _))

private theorem nodup_append {γ : Type} {f : δ → γ} {docs : List δ} {d : δ} (hd : (docs.map f).Nodup)
    (h : ∀ d' ∈ docs, f d' ≠ f d) : ((docs ++ [d]).map f).Nodup := by
  rw [List.map_append, List.map_singleton, List.nodup_append]
  refine ⟨hd, by simp, ?_⟩
  intro k hk k' hk'
  obtain ⟨d', hd', rfl⟩ := List.mem_map.mp hk
  rw [List.mem_singleton.mp hk']
  exact h d' hd'

/-- Add `d` at the end; a document that is not free leaves the collection as it is. -/
def insert (d : δ) : Collection δ κ ι key index :=
  if h : c.Free d then ⟨c.docs ++ [d], nodup_append c.key_nodup h.1, nodup_append c.index_nodup h.2⟩
  else c

variable {c}

omit [DecidableEq ι] in
theorem Free.find {d : δ} (h : c.Free d) : c.find (key d) = none := find_eq_none.mpr h.1

theorem docs_insert {d : δ} (h : c.Free d) : (c.insert d).docs = c.docs ++ [d] := by
  rw [insert, dif_pos h]

theorem mem_insert {d d' : δ} (h : c.Free d) : d' ∈ (c.insert d).docs ↔ d' ∈ c.docs ∨ d' = d := by
  simp [docs_insert h]

theorem find_insert {d : δ} (h : c.Free d) (k : κ) :
    (c.insert d).find k = if k = key d then some d else c.find k := by
  split
  · rename_i hk
    exact find_eq_some.mpr ⟨(mem_insert h).mpr (.inr rfl), hk.symm⟩
  · rename_i hk
    simp [Collection.find, docs_insert h, List.find?_append, Ne.symm hk]

theorem find_insert_ne {d : δ} (h : c.Free d) {k : κ} (hk : k ≠ key d) :
    (c.insert d).find k = c.find k := by rw [find_insert h, if_neg hk]

/-- What is found is still found. -/
theorem find_insert_of_find {d d' : δ} (h : c.Free d) {k : κ} (hfind : c.find k = some d') :
    (c.insert d).find k = some d' := by
  rw [find_insert_ne h, hfind]
  rintro rfl
  rw [h.find] at hfind
  cases hfind

end insert

/-- Without a second index, only the key has to be free. -/
theorem free_iff_find [DecidableEq κ] {c : Collection δ κ κ key key} {d : δ} :
    c.Free d ↔ c.find (key d) = none := by
  rw [find_eq_none]
  exact and_self_iff

section total
variable {A : Type} [AddCommGroup A]

/-- The sum of `f` over all documents. -/
def total (c : Collection δ κ ι key index) (f : δ → A) : A := (c.docs.map f).sum

variable {c}

theorem total_insert [DecidableEq κ] [DecidableEq ι] {d : δ} (h : c.Free d) (f : δ → A) :
    (c.insert d).total f = c.total f + f d := by
  simp [total, docs_insert h]

theorem total_nonneg [PartialOrder A] [IsOrderedAddMonoid A] {f : δ → A} (h : ∀ d ∈ c.docs, 0 ≤ f d) :
    0 ≤ c.total f := List.sum_nonneg fun a ha => by
  obtain ⟨d, hd, rfl⟩ := List.mem_map.mp ha
  exact h d hd

variable [DecidableEq κ]

private theorem sum_keys (f : δ → A) (K : Finset κ) (docs : List δ) (hnodup : (docs.map key).Nodup)
    (hK : ∀ d ∈ docs, key d ∈ K) :
    (docs.map f).sum = ∑ k ∈ K, (docs.find? (fun d => key d = k)).elim 0 f := by
  induction docs with
  | nil => simp
  | cons d docs ih =>
    rw [List.map_cons, List.nodup_cons] at hnodup
    have hhead : ∀ k, ((d :: docs).find? (fun d => key d = k)).elim 0 f =
        (if key d = k then f d else 0) + (docs.find? (fun d => key d = k)).elim 0 f := by
      intro k
      by_cases hk : key d = k
      · have hnone : docs.find? (fun d' => key d' = k) = none := by
          refine List.find?_eq_none.mpr fun d' hd' heq => hnodup.1 ?_
          rw [hk, ← of_decide_eq_true heq]
          exact List.mem_map_of_mem hd'
        simp [hk, hnone]
      · simp [hk]
    rw [List.map_cons, List.sum_cons, ih hnodup.2 fun d' hd' => hK d' (.tail _ hd')]
    rw [Finset.sum_congr rfl fun k _ => hhead k, Finset.sum_add_distrib, Finset.sum_ite_eq,
      if_pos (hK d (.head _))]

/-- A total is a sum over any keys that include those of the documents. -/
theorem total_eq_sum (f : δ → A) {K : Finset κ} (hK : ∀ d ∈ c.docs, key d ∈ K) :
    c.total f = ∑ k ∈ K, (c.find k).elim 0 f := sum_keys f K c.docs c.key_nodup hK

/-- Totals that agree at every key but one differ by what stands there. -/
theorem total_of_find {c c' : Collection δ κ ι key index} {f g : δ → A} (k : κ)
    (h : ∀ k' ≠ k, (c'.find k').elim 0 g = (c.find k').elim 0 f) :
    c'.total g = c.total f - (c.find k).elim 0 f + (c'.find k).elim 0 g := by
  let K : Finset κ := {k} ∪ ((c.docs ++ c'.docs).map key).toFinset
  have hk : k ∈ K := Finset.mem_union_left _ (Finset.mem_singleton_self k)
  have hmem : ∀ d ∈ c.docs ++ c'.docs, key d ∈ K := fun d hd =>
    Finset.mem_union_right _ (List.mem_toFinset.mpr (List.mem_map_of_mem hd))
  have hK : ∀ d ∈ c.docs, key d ∈ K := fun d hd => hmem d (List.mem_append_left _ hd)
  have hK' : ∀ d ∈ c'.docs, key d ∈ K := fun d hd => hmem d (List.mem_append_right _ hd)
  have hrest : ∑ k' ∈ K.erase k, (c'.find k').elim 0 g = ∑ k' ∈ K.erase k, (c.find k').elim 0 f :=
    Finset.sum_congr rfl fun k' hk' => h k' (Finset.ne_of_mem_erase hk')
  rw [total_eq_sum f hK, total_eq_sum g hK', ← Finset.add_sum_erase K _ hk,
    ← Finset.add_sum_erase K _ hk, hrest]
  abel

theorem total_modify {k : κ} {u : δ → δ} {hu : Keeps key index u} {d : δ} (hd : c.find k = some d)
    (f : δ → A) : (c.modify k u hu).total f = c.total f - f d + f (u d) := by
  have h : ∀ k' ≠ k, ((c.modify k u hu).find k').elim 0 f = (c.find k').elim 0 f := fun k' hk' => by
    rw [find_modify, if_neg hk']
  rw [total_of_find k h, find_modify, if_pos rfl, hd]
  rfl

end total

/-! Optimistic locking: a document read earlier is still the current one if its
version is, as long as every change raises the version. -/

section versions
variable [DecidableEq κ] (version : δ → ℕ)

/-- `d` was read from the collection at some time: the document with its key has
only moved on to later versions since. -/
def Snapshot (d : δ) : Prop :=
  ∃ w, c.find (key d) = some w ∧ version d ≤ version w ∧ (version d = version w → w = d)

variable {version} {c}

theorem Snapshot.of_find {k : κ} {d : δ} (h : c.find k = some d) : c.Snapshot version d :=
  ⟨d, key_of_find h ▸ h, le_rfl, fun _ => rfl⟩

/-- A guarded update that finds the version unchanged acts on the snapshot itself. -/
theorem Snapshot.current {d w : δ} (h : c.Snapshot version d) (hw : c.find (key d) = some w)
    (hv : version w = version d) : w = d := by
  obtain ⟨w', hw', -, hcur⟩ := h
  obtain rfl : w = w' := Option.some.inj (hw.symm.trans hw')
  exact hcur hv.symm

theorem Snapshot.insert [DecidableEq ι] {d d' : δ} (h : c.Snapshot version d) (hfree : c.Free d') :
    (c.insert d').Snapshot version d := by
  obtain ⟨w, hw, hle, hcur⟩ := h
  have hne : key d ≠ key d' := by
    intro heq
    rw [heq, hfree.find] at hw
    cases hw
  refine ⟨w, ?_, hle, hcur⟩
  rwa [find_insert hfree, if_neg hne]

/-- An update that raises the version of the document it changes keeps snapshots. -/
theorem Snapshot.modify {d w : δ} {k : κ} {f : δ → δ} {hf : Keeps key index f}
    (h : c.Snapshot version d) (hw : c.find k = some w) (hlt : version w < version (f w)) :
    (c.modify k f hf).Snapshot version d := by
  obtain ⟨w', hw', hle, hcur⟩ := h
  by_cases hk : key d = k
  · subst hk
    obtain rfl : w = w' := Option.some.inj (hw.symm.trans hw')
    refine ⟨f w, ?_, by omega, by omega⟩
    rw [find_modify, if_pos rfl, hw, Option.map_some]
  · refine ⟨w', ?_, hle, hcur⟩
    rwa [find_modify, if_neg hk]

end versions
end Collection
end RedRoomRewards.Store
