import Mathlib.Data.List.Basic

/-! Brackets in a sequence: what is balanced, and where an opened bracket is closed. A count
of the brackets that are open finds the same place. -/
namespace RedRoomRewards.Text
variable {α : Type} (l r : α)

/-- Every bracket is closed by one behind it, and they are nested. -/
inductive Balanced : List α → Prop
  | nil : Balanced []
  | other {a s} (hl : a ≠ l) (hr : a ≠ r) (h : Balanced s) : Balanced (a :: s)
  | nest {s t} (hs : Balanced s) (ht : Balanced t) : Balanced (l :: (s ++ r :: t))

/-- The bracket that the sequence begins with is closed at `n`. -/
def ClosedAt (s : List α) (n : ℕ) : Prop :=
  ∃ inner rest, s = l :: (inner ++ r :: rest) ∧ Balanced l r inner ∧ n = inner.length + 1

/-- The place where the last of `depth` open brackets is closed. -/
def closing [DecidableEq α] : ℕ → List α → Option ℕ
  | _, [] => none
  | depth, a :: s =>
    if a = l then (closing (depth + 1) s).map (· + 1)
    else if a = r then if depth = 1 then some 0 else (closing (depth - 1) s).map (· + 1)
    else (closing depth s).map (· + 1)

/-- The sequence closes `depth` brackets that are open before it, and all of its own. -/
inductive Falls : ℕ → List α → Prop
  | nil : Falls 0 []
  | other {depth a s} (hl : a ≠ l) (hr : a ≠ r) (h : Falls depth s) : Falls depth (a :: s)
  | opened {depth s} (h : Falls (depth + 1) s) : Falls depth (l :: s)
  | closed {depth s} (h : Falls depth s) : Falls (depth + 1) (r :: s)

variable {l r}

private theorem Balanced.falls_append {b s : List α} {depth : ℕ} (hb : Balanced l r b) (hs : Falls l r depth s) :
    Falls l r depth (b ++ s) := by
  induction hb generalizing depth s with
  | nil => exact hs
  | other hl hr _ ih => exact .other hl hr (ih hs)
  | @nest inner t _ _ ihinner iht =>
    rw [List.cons_append, List.append_assoc, List.cons_append]
    exact .opened (ihinner (.closed (iht hs)))

/-- The first bracket that is closed was open before. -/
private theorem falls_split {s : List α} : ∀ {depth : ℕ}, Falls l r (depth + 1) s →
    ∃ b t, s = b ++ r :: t ∧ Balanced l r b ∧ Falls l r depth t := by
  induction hlength : s.length using Nat.strongRecOn generalizing s with
  | ind n ih =>
    intro depth h
    cases h with
    | @other _ a s hl hr h =>
      obtain ⟨b, t, rfl, hb, ht⟩ := ih s.length (by simp at hlength; omega) rfl h
      exact ⟨a :: b, t, rfl, .other hl hr hb, ht⟩
    | @opened _ s h =>
      obtain ⟨b, t, rfl, hb, ht⟩ := ih s.length (by simp at hlength; omega) rfl h
      obtain ⟨b', t', rfl, hb', ht'⟩ := ih t.length (by simp at hlength; omega) rfl ht
      exact ⟨l :: (b ++ r :: b'), t', by simp, .nest hb hb', ht'⟩
    | closed h => exact ⟨[], _, rfl, .nil, h⟩

theorem falls_zero_iff {s : List α} : Falls l r 0 s ↔ Balanced l r s := by
  constructor
  · intro h
    induction hlength : s.length using Nat.strongRecOn generalizing s with
    | ind n ih =>
      cases h with
      | nil => exact .nil
      | @other _ _ s hl hr h => exact .other hl hr (ih s.length (by simp at hlength; omega) h rfl)
      | @opened _ s h =>
        obtain ⟨b, t, rfl, hb, ht⟩ := falls_split h
        exact .nest hb (ih t.length (by simp at hlength; omega) ht rfl)
  · intro h
    simpa using h.falls_append .nil

variable [DecidableEq α]

/-- The count of open brackets finds the end of what closes them all but one. -/
theorem closing_iff (hne : l ≠ r) {s : List α} : ∀ {depth n : ℕ}, closing l r (depth + 1) s = some n ↔
    ∃ inner rest, s = inner ++ r :: rest ∧ Falls l r depth inner ∧ n = inner.length := by
  induction s with
  | nil =>
    intro depth n
    simp [closing]
  | cons a s ih =>
    intro depth n
    rw [closing]
    constructor
    · intro h
      split at h
      · rename_i hl
        subst hl
        obtain ⟨m, hm, rfl⟩ := Option.map_eq_some_iff.mp h
        obtain ⟨inner, rest, rfl, hfalls, rfl⟩ := ih.mp hm
        exact ⟨a :: inner, rest, rfl, .opened hfalls, rfl⟩
      · rename_i hl
        split at h
        · rename_i hr
          subst hr
          split at h
          · rename_i hdepth
            obtain rfl : depth = 0 := by omega
            exact ⟨[], s, rfl, .nil, (Option.some.inj h).symm⟩
          · rename_i hdepth
            obtain ⟨m, hm, rfl⟩ := Option.map_eq_some_iff.mp h
            obtain ⟨k, rfl⟩ : ∃ k, depth = k + 1 := ⟨depth - 1, by omega⟩
            obtain ⟨inner, rest, rfl, hfalls, rfl⟩ := ih.mp hm
            exact ⟨a :: inner, rest, rfl, .closed hfalls, rfl⟩
        · rename_i hr
          obtain ⟨m, hm, rfl⟩ := Option.map_eq_some_iff.mp h
          obtain ⟨inner, rest, rfl, hfalls, rfl⟩ := ih.mp hm
          exact ⟨a :: inner, rest, rfl, .other hl hr hfalls, rfl⟩
    · rintro ⟨inner, rest, hs, hfalls, rfl⟩
      cases hfalls with
      | nil =>
        obtain ⟨rfl, rfl⟩ := List.cons.inj hs
        rw [if_neg hne.symm, if_pos rfl, if_pos rfl]
        rfl
      | @other _ a' inner hl hr h =>
        obtain ⟨rfl, rfl⟩ := List.cons.inj hs
        rw [if_neg hl, if_neg hr, ih.mpr ⟨inner, rest, rfl, h, rfl⟩]
        rfl
      | @opened _ inner h =>
        obtain ⟨rfl, rfl⟩ := List.cons.inj hs
        rw [if_pos rfl, ih.mpr ⟨inner, rest, rfl, h, rfl⟩]
        rfl
      | @closed depth inner h =>
        obtain ⟨rfl, rfl⟩ := List.cons.inj hs
        rw [if_neg hne.symm, if_pos rfl, if_neg (by omega), Nat.add_sub_cancel,
          ih.mpr ⟨inner, rest, rfl, h, rfl⟩]
        rfl

/-- What is no bracket is passed over. -/
theorem closing_append {s t : List α} (hs : ∀ a ∈ s, a ≠ l ∧ a ≠ r) (depth : ℕ) :
    closing l r depth (s ++ t) = (closing l r depth t).map (· + s.length) := by
  induction s with
  | nil => simp
  | cons a s ih =>
    obtain ⟨⟨hl, hr⟩, hrest⟩ := List.forall_mem_cons.mp hs
    rw [List.cons_append, closing, if_neg hl, if_neg hr, ih hrest, Option.map_map]
    rfl

/-- Counting from the opened bracket on finds where it is closed. -/
theorem closing_start_iff (hne : l ≠ r) {s : List α} {n : ℕ} :
    closing l r 0 (l :: s) = some n ↔ ClosedAt l r (l :: s) n := by
  rw [closing, if_pos rfl, Option.map_eq_some_iff]
  constructor
  · rintro ⟨m, hm, rfl⟩
    obtain ⟨inner, rest, rfl, hfalls, rfl⟩ := (closing_iff hne).mp hm
    exact ⟨inner, rest, rfl, falls_zero_iff.mp hfalls, rfl⟩
  · rintro ⟨inner, rest, hs, hbalanced, rfl⟩
    obtain ⟨-, rfl⟩ := List.cons.inj hs
    exact ⟨inner.length, (closing_iff hne).mpr ⟨inner, rest, rfl, falls_zero_iff.mpr hbalanced, rfl⟩, rfl⟩

end RedRoomRewards.Text
