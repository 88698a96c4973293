import RedRoomRewards.Text.Joined

/-! Texts that can be read off the front of a longer one: what is written, and what follows
it, are told by the whole. -/
namespace RedRoomRewards.Text
variable {α γ : Type}

/-- Written in front of something admitted, `a` can be read off. -/
def ReadsOff (write : α → List γ) (admitted : List γ → Prop) (a : α) : Prop :=
  ∀ b r r', admitted r → admitted r' → write a ++ r = write b ++ r' → a = b ∧ r = r'

section sequences
variable {write : α → List γ} {admitted : List γ → Prop} {as bs : List α} {mark stop : γ} {r r' : List γ}

/-- Elements that are written one behind the other, up to a mark that none begins with. -/
theorem readsOff_flatMap (h : ∀ a ∈ as, ReadsOff write admitted a) (hnext : ∀ a t, admitted (write a ++ t))
    (hend : ∀ t, admitted (stop :: t)) (hstop : ∀ a t t', write a ++ t ≠ stop :: t')
    (heq : as.flatMap write ++ stop :: r = bs.flatMap write ++ stop :: r') : as = bs ∧ r = r' := by
  have hadmitted : ∀ (cs : List α) (t : List γ), admitted (cs.flatMap write ++ stop :: t) := by
    intro cs t
    cases cs with
    | nil => exact hend t
    | cons c cs =>
      rw [List.flatMap_cons, List.append_assoc]
      exact hnext c _
  induction as generalizing bs with
  | nil =>
    cases bs with
    | nil => exact ⟨rfl, (List.cons.inj heq).2⟩
    | cons b bs =>
      rw [List.flatMap_cons, List.append_assoc] at heq
      exact absurd heq.symm (hstop b _ _)
  | cons a as ih =>
    cases bs with
    | nil =>
      rw [List.flatMap_cons, List.append_assoc] at heq
      exact absurd heq (hstop a _ _)
    | cons b bs =>
      rw [List.flatMap_cons, List.append_assoc, List.flatMap_cons, List.append_assoc] at heq
      obtain ⟨rfl, hrest⟩ := h a List.mem_cons_self b _ _ (hadmitted as r) (hadmitted bs r') heq
      obtain ⟨rfl, hr⟩ := ih (fun a ha => h a (List.mem_cons_of_mem _ ha)) hrest
      exact ⟨rfl, hr⟩

private theorem joined_cons (texts : List (List γ)) (text : List γ) :
    [mark].intercalate (text :: texts) = text ++ texts.flatMap (mark :: ·) := by
  induction texts generalizing text with
  | nil => simp
  | cons next texts ih =>
    rw [List.intercalate_cons_of_ne_nil (List.cons_ne_nil _ _), ih next, List.flatMap_cons, List.append_assoc]
    rfl

/-- Elements that are joined with a mark, up to another mark. -/
theorem readsOff_joined (h : ∀ a ∈ as, ReadsOff write admitted a) (hmark : ∀ t, admitted (mark :: t))
    (hend : ∀ t, admitted (stop :: t)) (hne : mark ≠ stop) (hstop : ∀ a t t', write a ++ t ≠ stop :: t')
    (heq : [mark].intercalate (as.map write) ++ stop :: r = [mark].intercalate (bs.map write) ++ stop :: r') :
    as = bs ∧ r = r' := by
  have hmarked : ∀ cs : List α, (cs.map write).flatMap (mark :: ·) = cs.flatMap fun c => mark :: write c := by
    intro cs
    rw [List.flatMap_map]
  cases as with
  | nil =>
    cases bs with
    | nil => exact ⟨rfl, (List.cons.inj heq).2⟩
    | cons b bs =>
      rw [List.map_cons, joined_cons, List.append_assoc] at heq
      exact absurd heq.symm (hstop b _ _)
  | cons a as =>
    cases bs with
    | nil =>
      rw [List.map_cons, joined_cons, List.append_assoc] at heq
      exact absurd heq (hstop a _ _)
    | cons b bs =>
      rw [List.map_cons, joined_cons, List.map_cons, joined_cons, hmarked, hmarked, List.append_assoc, List.append_assoc] at heq
      have hadmitted : ∀ (cs : List α) (t : List γ), admitted (cs.flatMap (fun c => mark :: write c) ++ stop :: t) := by
        intro cs t
        cases cs with
        | nil => exact hend t
        | cons c cs => exact hmark _
      obtain ⟨rfl, hrest⟩ := h a List.mem_cons_self b _ _ (hadmitted as r) (hadmitted bs r') heq
      have hmarkedReads : ∀ a ∈ as, ReadsOff (fun c => mark :: write c) admitted a := by
        intro a' ha' b' t t' ht ht' heq'
        exact h a' (List.mem_cons_of_mem _ ha') b' t t' ht ht' (List.cons.inj heq').2
      obtain ⟨rfl, hr⟩ := readsOff_flatMap hmarkedReads (fun _ _ => hmark _) hend
        (fun _ _ _ heq' => hne (List.cons.inj heq').1) hrest
      exact ⟨rfl, hr⟩

end sequences

/-- A text whose elements all have a property, in front of something that does not begin with
one that has it. -/
theorem readsOff_of_run {p : γ → Prop} {a b r r' : List γ} (ha : ∀ c ∈ a, p c) (hb : ∀ c ∈ b, p c)
    (hr : ∀ c ∈ r.head?, ¬ p c) (hr' : ∀ c ∈ r'.head?, ¬ p c) (heq : a ++ r = b ++ r') : a = b ∧ r = r' := by
  rcases List.append_eq_append_iff.mp heq with ⟨m, hm, hrest⟩ | ⟨m, hm, hrest⟩
  · cases m with
    | nil =>
      rw [List.append_nil] at hm
      exact ⟨hm.symm, hrest⟩
    | cons c m =>
      rw [hrest] at hr
      exact absurd (hb c (hm ▸ List.mem_append_right a List.mem_cons_self)) (hr c rfl)
  · cases m with
    | nil =>
      rw [List.append_nil] at hm
      exact ⟨hm, hrest.symm⟩
    | cons c m =>
      rw [hrest] at hr'
      exact absurd (ha c (hm ▸ List.mem_append_right b List.mem_cons_self)) (hr' c rfl)

end RedRoomRewards.Text
