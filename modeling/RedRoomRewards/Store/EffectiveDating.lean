import Mathlib.Data.List.Sort

/-! Rows that are in force from one instant to another, or until further notice. A lookup at
an instant should find the newest row in force then; a query that knows only which rows are
open does so under a condition on their dates. -/
namespace RedRoomRewards.Store

section lookup
variable {ρ τ : Type} [LinearOrder τ] (effective : ρ → τ) (superseded : ρ → Option τ)

/-- The row is in force: `effective ≤ now < superseded`, where no end means still in force. -/
def InForce (now : τ) (r : ρ) : Prop := effective r ≤ now ∧ ∀ t ∈ superseded r, now < t

instance (now : τ) (r : ρ) : Decidable (InForce effective superseded now r) :=
  inferInstanceAs (Decidable (_ ∧ _))

/-- The lookup has found the newest row in force, or there is none. -/
def Selects (now : τ) (rows : List ρ) : Option ρ → Prop
  | some r => r ∈ rows ∧ InForce effective superseded now r ∧
      ∀ r' ∈ rows, InForce effective superseded now r' → effective r' ≤ effective r
  | none => ∀ r ∈ rows, ¬ InForce effective superseded now r

/-- No date of the rows lies ahead. -/
def Past (now : τ) (rows : List ρ) : Prop := ∀ r ∈ rows, effective r ≤ now ∧ ∀ t ∈ superseded r, t ≤ now

instance [DecidableEq ρ] (now : τ) (rows : List ρ) :
    ∀ found, Decidable (Selects effective superseded now rows found)
  | some _ => inferInstanceAs (Decidable (_ ∧ _ ∧ _))
  | none => inferInstanceAs (Decidable (∀ r ∈ rows, ¬ InForce effective superseded now r))

/-- The newest of some rows. -/
def newest (rows : List ρ) : Option ρ := (rows.insertionSort fun r r' => effective r' ≤ effective r).head?

/-- No row in force whose end is set already is newer than all rows that have none and meet `p`. -/
def OpenNewest (now : τ) (p : ρ → Prop) (rows : List ρ) : Prop :=
  ∀ r ∈ rows, InForce effective superseded now r → superseded r ≠ none →
    ∃ r' ∈ rows, superseded r' = none ∧ p r' ∧ effective r ≤ effective r'

variable {effective} {superseded} {now : τ} {rows : List ρ} {r : ρ}

theorem newest_eq_none : newest effective rows = none ↔ rows = [] := by
  rw [newest, List.head?_eq_none_iff]
  constructor
  · intro h
    exact List.nil_perm.mp (h ▸ List.perm_insertionSort _ rows)
  · rintro rfl
    rfl

theorem newest_eq_some (h : newest effective rows = some r) : r ∈ rows ∧ ∀ r' ∈ rows, effective r' ≤ effective r := by
  have htotal : Std.Total fun r r' : ρ => effective r' ≤ effective r := ⟨fun r r' => le_total _ _⟩
  have htrans : IsTrans ρ fun r r' => effective r' ≤ effective r := ⟨fun _ _ _ h h' => h'.trans h⟩
  have hsorted := List.pairwise_insertionSort (fun r r' : ρ => effective r' ≤ effective r) rows
  have hmem : ∀ r', r' ∈ rows.insertionSort (fun r r' => effective r' ≤ effective r) ↔ r' ∈ rows :=
    fun r' => (List.perm_insertionSort _ rows).mem_iff
  rw [newest] at h
  generalize rows.insertionSort (fun r r' => effective r' ≤ effective r) = sorted at h hsorted hmem
  cases sorted with
  | nil => cases h
  | cons r₀ rest =>
    obtain rfl := Option.some.inj h
    refine ⟨(hmem r₀).mp List.mem_cons_self, fun r' hr' => ?_⟩
    rcases List.mem_cons.mp ((hmem r').mpr hr') with rfl | hrest
    · exact le_rfl
    · exact (List.pairwise_cons.mp hsorted).1 r' hrest

/-- The row with no end is in force once it has taken effect. -/
theorem inForce_of_open (h : superseded r = none) : InForce effective superseded now r ↔ effective r ≤ now := by
  rw [InForce, h]
  exact and_iff_left nofun

/-- Where no date lies ahead, a row that has an end is not in force. -/
theorem Past.openNewest {p : ρ → Prop} (h : Past effective superseded now rows) :
    OpenNewest effective superseded now p rows := by
  intro r hr hforce hend
  obtain ⟨t, ht⟩ := Option.ne_none_iff_exists'.mp hend
  exact absurd (hforce.2 t ht) (not_lt.mpr ((h r hr).2 t ht))

/-- Taking the newest row without an end is right exactly if no such row has still to take
effect, and no row in force that has an end is newer than they are. -/
theorem selects_newest_iff : Selects effective superseded now rows (newest effective
      (rows.filter fun r => superseded r = none)) ↔
    (∀ r ∈ rows, superseded r = none → effective r ≤ now) ∧
      OpenNewest effective superseded now (fun _ => True) rows := by
  have hopen : ∀ r, r ∈ rows.filter (fun r => superseded r = none) ↔ r ∈ rows ∧ superseded r = none := by
    intro r
    simp
  cases hnewest : newest effective (rows.filter fun r => superseded r = none) with
  | none =>
    have hnone : ∀ r ∈ rows, superseded r ≠ none := by
      intro r hr hend
      have hmem := (hopen r).mpr ⟨hr, hend⟩
      rw [newest_eq_none.mp hnewest] at hmem
      cases hmem
    constructor
    · intro hselects
      exact ⟨fun r hr hend => absurd hend (hnone r hr), fun r hr hforce => absurd hforce (hselects r hr)⟩
    · intro h r hr hforce
      obtain ⟨r', hr', hend', -⟩ := h.2 r hr hforce (hnone r hr)
      exact hnone r' hr' hend'
  | some r =>
    obtain ⟨hr, hmax⟩ := newest_eq_some hnewest
    obtain ⟨hmem, hend⟩ := (hopen r).mp hr
    constructor
    · rintro ⟨-, hforce, hleast⟩
      refine ⟨fun r' hr' hend' => ?_, fun r' hr' hforce' _ => ⟨r, hmem, hend, trivial, hleast r' hr' hforce'⟩⟩
      exact (hmax r' ((hopen r').mpr ⟨hr', hend'⟩)).trans hforce.1
    · rintro ⟨hahead, hopenNewest⟩
      refine ⟨hmem, (inForce_of_open hend).mpr (hahead r hmem hend), fun r' hr' hforce' => ?_⟩
      by_cases hend' : superseded r' = none
      · exact hmax r' ((hopen r').mpr ⟨hr', hend'⟩)
      · obtain ⟨r₀, hr₀, hend₀, -, hle⟩ := hopenNewest r' hr' hforce' hend'
        exact hle.trans (hmax r₀ ((hopen r₀).mpr ⟨hr₀, hend₀⟩))

/-- Where at most one row has no end, taking it once it has taken effect is right exactly if
no row in force that has an end is newer. -/
theorem selects_find_iff (honly : ∀ r ∈ rows, ∀ r' ∈ rows, superseded r = none → superseded r' = none → r = r') :
    Selects effective superseded now rows (rows.find? fun r => effective r ≤ now ∧ superseded r = none) ↔
      OpenNewest effective superseded now (effective · ≤ now) rows := by
  cases hfind : rows.find? fun r => effective r ≤ now ∧ superseded r = none with
  | none =>
    have hnone : ∀ r ∈ rows, effective r ≤ now → superseded r ≠ none := by
      intro r hr heffective hend
      exact List.find?_eq_none.mp hfind r hr (decide_eq_true ⟨heffective, hend⟩)
    constructor
    · exact fun hselects r hr hforce => absurd hforce (hselects r hr)
    · intro hopenNewest r hr hforce
      obtain ⟨r', hr', hend', heffective', -⟩ := hopenNewest r hr hforce (hnone r hr hforce.1)
      exact hnone r' hr' heffective' hend'
  | some r =>
    have hmem := List.mem_of_find?_eq_some hfind
    have hfound : decide (effective r ≤ now ∧ superseded r = none) = true :=
      List.find?_some (p := fun r => decide (effective r ≤ now ∧ superseded r = none)) hfind
    obtain ⟨heffective, hend⟩ := of_decide_eq_true hfound
    constructor
    · rintro ⟨-, -, hleast⟩ r' hr' hforce' -
      exact ⟨r, hmem, hend, heffective, hleast r' hr' hforce'⟩
    · intro hopenNewest
      refine ⟨hmem, (inForce_of_open hend).mpr heffective, fun r' hr' hforce' => ?_⟩
      by_cases hend' : superseded r' = none
      · exact (congrArg effective (honly r' hr' r hmem hend' hend)).le
      · obtain ⟨r₀, hr₀, hend₀, -, hle⟩ := hopenNewest r' hr' hforce' hend'
        exact hle.trans_eq (congrArg effective (honly r₀ hr₀ r hmem hend₀ hend))

end lookup

section answers
variable {ρ τ α : Type} [LinearOrder τ] (effective : ρ → τ) (superseded : ρ → Option τ)

/-- The answer is that of the newest row in force, or of none where there is none. -/
def FromActive (now : τ) (rows : List ρ) (answer : Option ρ → α) (a : α) : Prop :=
  ∃ found, Selects effective superseded now rows found ∧ a = answer found

variable {effective} {superseded} {now : τ} {rows : List ρ} {found : Option ρ}

theorem Selects.mem (h : Selects effective superseded now rows found) : ∀ r ∈ found, r ∈ rows := by
  rintro r rfl
  exact h.1

instance [DecidableEq ρ] [DecidableEq α] (answer : Option ρ → α) (a : α) :
    Decidable (FromActive effective superseded now rows answer a) :=
  decidable_of_iff (∃ found ∈ none :: rows.map some, Selects effective superseded now rows found ∧ a = answer found) <| by
    constructor
    · rintro ⟨found, -, h⟩
      exact ⟨found, h⟩
    · rintro ⟨found, hselects, ha⟩
      refine ⟨found, ?_, hselects, ha⟩
      cases found with
      | none => exact List.mem_cons_self
      | some r => exact List.mem_cons_of_mem _ (List.mem_map_of_mem (hselects.mem r rfl))

variable {edit : ρ → ρ} (hedit : ∀ r, effective (edit r) = effective r ∧ superseded (edit r) = superseded r)
include hedit

theorem newest_map : newest effective (rows.map edit) = (newest effective rows).map edit := by
  rw [newest, newest, ← List.head?_map, List.map_insertionSort _ (s := fun r r' => effective r' ≤ effective r)]
  intro r _ r' _
  rw [(hedit r).1, (hedit r').1]

theorem inForce_edit {r : ρ} : InForce effective superseded now (edit r) ↔ InForce effective superseded now r := by
  rw [InForce, (hedit r).1, (hedit r).2, InForce]

/-- What a row says beside its dates does not matter to which row is selected. -/
theorem selects_map_iff {found' : Option ρ} : Selects effective superseded now (rows.map edit) found' ↔
    ∃ found, found' = found.map edit ∧ Selects effective superseded now rows found := by
  have hnone : Selects effective superseded now (rows.map edit) none ↔ Selects effective superseded now rows none := by
    simp only [Selects, List.forall_mem_map, inForce_edit hedit]
  have hsome : ∀ r, (∀ r' ∈ rows.map edit, InForce effective superseded now r' → effective r' ≤ effective (edit r)) ↔
      ∀ r' ∈ rows, InForce effective superseded now r' → effective r' ≤ effective r := fun r => by
    simp only [List.forall_mem_map, inForce_edit hedit, hedit]
  constructor
  · intro h
    cases found' with
    | none => exact ⟨none, rfl, hnone.mp h⟩
    | some r' =>
      obtain ⟨r, hr, rfl⟩ := List.mem_map.mp h.1
      exact ⟨some r, rfl, hr, (inForce_edit hedit).mp h.2.1, (hsome r).mp h.2.2⟩
  · rintro ⟨found, rfl, h⟩
    cases found with
    | none => exact hnone.mpr h
    | some r => exact ⟨List.mem_map_of_mem h.1, (inForce_edit hedit).mpr h.2.1, (hsome r).mpr h.2.2⟩

end answers

section terms
variable {ρ τ α κ π : Type} [LinearOrder τ] [DecidableEq κ] {effective : ρ → τ} {superseded : ρ → Option τ}
variable {now : τ} {rows : List ρ} {found : Option ρ} {edit : (κ → π) → ρ → ρ}

/-- A lookup answers from the newest row in force, whatever terms the rows have, exactly if
that is the row it finds. -/
theorem fromActive_iff (answer : Option ρ → α) (say : π → α) (name : ρ → κ) (a b : π)
    (hedit : ∀ p r, effective (edit p r) = effective r ∧ superseded (edit p r) = superseded r)
    (hfound : ∀ r ∈ found, r ∈ rows) (hname : ∀ r ∈ rows, ∀ r' ∈ rows, name r = name r' → r = r')
    (hsay : ∀ p r, answer (some (edit p r)) = say (p (name r))) (hab : say a ≠ say b) (hnone : say a ≠ answer none) :
    (∀ p, FromActive effective superseded now (rows.map (edit p)) answer (answer (found.map (edit p)))) ↔
      Selects effective superseded now rows found := by
  constructor
  · intro h
    -- the row found says `a`, all others `b`
    obtain ⟨found', hselects, hanswer⟩ := h fun k => if some k = found.map name then a else if found = none then a else b
    obtain ⟨row, rfl, hrow⟩ := (selects_map_iff (hedit _)).mp hselects
    cases found with
    | none =>
      cases row with
      | none => exact hrow
      | some r =>
        rw [Option.map_some, hsay] at hanswer
        exact absurd hanswer.symm (by simpa using hnone)
    | some r =>
      rw [Option.map_some, hsay, Option.map_some, if_pos rfl] at hanswer
      cases row with
      | none => exact absurd hanswer hnone
      | some r' =>
        rw [Option.map_some, hsay] at hanswer
        by_cases hsame : name r' = name r
        · rwa [← hname r' (hrow.mem r' rfl) r (hfound r rfl) hsame]
        · exact absurd hanswer (by simpa [hsame] using hab)
  · intro h p
    exact ⟨_, (selects_map_iff (hedit p)).mpr ⟨found, rfl, h⟩, rfl⟩

end terms
end RedRoomRewards.Store
