import Mathlib.Data.List.DropRight
import Mathlib.Data.List.Induction

/-! Texts that are joined with a mark between them: when two such joins are the same, and
where the last part of one begins. -/
namespace RedRoomRewards.Text
variable {α : Type}

section joined
variable [DecidableEq α] {mark : α} {texts texts' : List (List α)}

/-- The texts cut at every mark. -/
def pieces (mark : α) (texts : List (List α)) : List (List α) := texts.flatMap (List.splitOn mark)

private theorem splitOn_joined (h : texts ≠ []) : ([mark].intercalate texts).splitOn mark = pieces mark texts := by
  induction texts with
  | nil => exact absurd rfl h
  | cons text rest ih =>
    cases rest with
    | nil => simp [pieces]
    | cons next rest =>
      rw [List.intercalate_cons_of_ne_nil (List.cons_ne_nil _ _), List.append_assoc, List.singleton_append,
        List.splitOn_append_cons_self, ih (List.cons_ne_nil _ _)]
      exact List.flatMap_cons.symm

/-- Joins are the same exactly if the texts have the same pieces. -/
theorem joined_eq_iff (h : texts ≠ []) (h' : texts' ≠ []) :
    [mark].intercalate texts = [mark].intercalate texts' ↔ pieces mark texts = pieces mark texts' := by
  rw [← splitOn_joined h, ← splitOn_joined h']
  constructor
  · exact congrArg _
  · intro hsame
    have hback : ∀ l : List α, [mark].intercalate (l.splitOn mark) = l := fun l => List.intercalate_splitOn mark
    rw [← hback ([mark].intercalate texts), hsame, hback]

omit [DecidableEq α] in
/-- The last text of a join. -/
theorem joined_concat (texts : List (List α)) (last : List α) :
    mark :: [mark].intercalate (texts ++ [last]) = texts.flatMap (mark :: ·) ++ mark :: last := by
  induction texts with
  | nil => simp
  | cons text rest ih =>
    rw [List.cons_append, List.intercalate_cons_of_ne_nil (by simp), List.flatMap_cons, List.append_assoc, List.append_assoc, ← ih]
    rfl

/-- A text without the mark is its only piece; else what stands before the first mark is
the first piece. -/
theorem splitOn_cases (mark : α) (l : List α) : mark ∉ l ∧ l.splitOn mark = [l] ∨
    ∃ first rest, mark ∉ first ∧ l = first ++ mark :: rest ∧ l.splitOn mark = first :: rest.splitOn mark := by
  by_cases hmark : mark ∈ l
  · obtain ⟨first, rest, rfl, hfirst⟩ := List.eq_append_cons_of_mem hmark
    refine .inr ⟨first, rest, hfirst, rfl, ?_⟩
    rw [List.splitOn_append_cons_self, List.splitOn_eq_singleton hfirst, List.singleton_append]
  · exact .inl ⟨hmark, List.splitOn_eq_singleton hmark⟩

end joined

section ends
variable {l l' r r' : List α} {a a' : α}

/-- The last element that breaks a property divides a list in one way only. -/
theorem last_break {p : α → Prop} (ha : ¬ p a) (ha' : ¬ p a') (hr : ∀ b ∈ r, p b) (hr' : ∀ b ∈ r', p b)
    (h : l ++ a :: r = l' ++ a' :: r') : l = l' ∧ a = a' ∧ r = r' := by
  rcases List.append_eq_append_iff.mp h with ⟨m, hl, hm⟩ | ⟨m, hl, hm⟩
  · cases m with
    | nil =>
      rw [List.nil_append, List.cons.injEq] at hm
      rw [List.append_nil] at hl
      exact ⟨hl.symm, hm⟩
    | cons b m =>
      rw [List.cons_append, List.cons.injEq] at hm
      exact absurd (hr a' (hm.2 ▸ List.mem_append_right m List.mem_cons_self)) ha'
  · cases m with
    | nil =>
      rw [List.nil_append, List.cons.injEq] at hm
      rw [List.append_nil] at hl
      exact ⟨hl, hm.1.symm, hm.2.symm⟩
    | cons b m =>
      rw [List.cons_append, List.cons.injEq] at hm
      exact absurd (hr' a (hm.2 ▸ List.mem_append_right m List.mem_cons_self)) ha

/-- So does the first one. -/
theorem first_break {p : α → Prop} (ha : ¬ p a) (ha' : ¬ p a') (hl : ∀ b ∈ l, p b) (hl' : ∀ b ∈ l', p b)
    (h : l ++ a :: r = l' ++ a' :: r') : l = l' ∧ a = a' ∧ r = r' := by
  have hback : r.reverse ++ a :: l.reverse = r'.reverse ++ a' :: l'.reverse := by simpa using congrArg List.reverse h
  obtain ⟨hr, rfl, hl⟩ := last_break ha ha' (by simpa using hl) (by simpa using hl') hback
  exact ⟨List.reverse_injective hl, rfl, List.reverse_injective hr⟩

/-- Texts that begin differently are different. -/
theorem append_ne_of_not_prefix (h : ¬ l <+: l') (h' : ¬ l' <+: l) (r r' : List α) : l ++ r ≠ l' ++ r' := by
  intro heq
  rcases List.prefix_or_prefix_of_prefix (List.prefix_append l r) (heq ▸ List.prefix_append l' r') with hp | hp
  · exact h hp
  · exact h' hp

/-- Texts that end differently are different. -/
theorem append_ne_of_not_suffix (h : ¬ r <:+ r') (h' : ¬ r' <:+ r) (l l' : List α) : l ++ r ≠ l' ++ r' := by
  intro heq
  rcases List.suffix_or_suffix_of_suffix (List.suffix_append l r) (heq ▸ List.suffix_append l' r') with hs | hs
  · exact h hs
  · exact h' hs

/-- What is dropped from the end of a text does not reach beyond an element that stays. -/
theorem rdropWhile_append_cons {p : α → Bool} (ha : p a = false) (l r : List α) :
    (l ++ a :: r).rdropWhile p = l ++ a :: r.rdropWhile p := by
  induction r using List.reverseRecOn with
  | nil => rw [List.rdropWhile_nil, List.rdropWhile_concat_neg p l a (by simp [ha])]
  | append_singleton r b ih =>
    rw [← List.cons_append, ← List.append_assoc, List.rdropWhile_concat, List.rdropWhile_concat]
    split
    · exact ih
    · rw [List.append_assoc, List.cons_append]

end ends
end RedRoomRewards.Text
