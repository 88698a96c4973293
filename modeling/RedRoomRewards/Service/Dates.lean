import RedRoomRewards.Service.Types
import RedRoomRewards.Text.Joined

/-! The dates of the calendar: every day has its own date, and a text that ends with a date
has it in one way only. -/
namespace RedRoomRewards.Time

section calendar

/-- The year of an era and the day of that year, which begins in March. -/
private theorem year_of_era {doe yoe : ℤ} (h0 : 0 ≤ doe) (h1 : doe ≤ 146096)
    (hyoe : yoe = (doe - doe / 1460 + doe / 36524 - doe / 146096) / 365) :
    (0 ≤ yoe ∧ yoe ≤ 399) ∧ 0 ≤ doe - (365 * yoe + yoe / 4 - yoe / 100) ∧
      doe - (365 * yoe + yoe / 4 - yoe / 100) ≤ 365 := by
  have hyears : 0 ≤ yoe ∧ yoe ≤ 399 := by omega
  have hcenturies : doe / 36524 = 0 ∨ doe / 36524 = 1 ∨ doe / 36524 = 2 ∨ doe / 36524 = 3 ∨ doe / 36524 = 4 := by omega
  have hcentury : yoe / 100 = 0 ∨ yoe / 100 = 1 ∨ yoe / 100 = 2 ∨ yoe / 100 = 3 := by omega
  refine ⟨hyears, ?_⟩
  rcases hcenturies with h | h | h | h | h <;> rcases hcentury with h' | h' | h' | h' <;> omega

/-- A date tells its day. -/
theorem civil_injective : Function.Injective civil := by
  intro day day' h
  unfold civil at h
  dsimp only at h
  generalize hz : day + 719468 = z at h
  generalize hz' : day' + 719468 = z' at h
  have hdoe : 0 ≤ z - z / 146097 * 146097 ∧ z - z / 146097 * 146097 ≤ 146096 := by omega
  have hdoe' : 0 ≤ z' - z' / 146097 * 146097 ∧ z' - z' / 146097 * 146097 ≤ 146096 := by omega
  generalize hera : z / 146097 = era at h hdoe
  generalize hera' : z' / 146097 = era' at h hdoe'
  generalize hd : z - era * 146097 = doe at h hdoe
  generalize hd' : z' - era' * 146097 = doe' at h hdoe'
  obtain ⟨hyears, hdays⟩ := year_of_era hdoe.1 hdoe.2 rfl
  obtain ⟨hyears', hdays'⟩ := year_of_era hdoe'.1 hdoe'.2 rfl
  generalize (doe - doe / 1460 + doe / 36524 - doe / 146096) / 365 = yoe at h hyears hdays
  generalize (doe' - doe' / 1460 + doe' / 36524 - doe' / 146096) / 365 = yoe' at h hyears' hdays'
  generalize hdoy : doe - (365 * yoe + yoe / 4 - yoe / 100) = doy at h hdays
  generalize hdoy' : doe' - (365 * yoe' + yoe' / 4 - yoe' / 100) = doy' at h hdays'
  have hmonths : 0 ≤ (5 * doy + 2) / 153 ∧ (5 * doy + 2) / 153 ≤ 11 := by omega
  have hmonths' : 0 ≤ (5 * doy' + 2) / 153 ∧ (5 * doy' + 2) / 153 ≤ 11 := by omega
  generalize (5 * doy + 2) / 153 = mp at h hmonths
  generalize (5 * doy' + 2) / 153 = mp' at h hmonths'
  rw [Prod.mk.injEq, Prod.mk.injEq] at h
  obtain ⟨hyear, hmonth, hday⟩ := h
  -- month, day and year are read in turn, each with those before it
  have hmp : mp = mp' := by split at hmonth <;> split at hmonth <;> omega
  subst hmp
  have hdoy_eq : doy = doy' := by omega
  rw [hmonth] at hyear
  have hsame : yoe = yoe' ∧ era = era' := by split at hyear <;> omega
  obtain ⟨rfl, rfl⟩ := hsame
  omega

/-- Months and days of the month are counted from 1. -/
private theorem civil_pos (day : ℤ) : 0 ≤ (civil day).2.1 ∧ 0 ≤ (civil day).2.2 := by
  unfold civil
  dsimp only
  generalize day + 719468 = z
  have hdoe : 0 ≤ z - z / 146097 * 146097 ∧ z - z / 146097 * 146097 ≤ 146096 := by omega
  generalize z - z / 146097 * 146097 = doe at hdoe
  have hdays := (year_of_era hdoe.1 hdoe.2 rfl).2
  generalize (doe - doe / 1460 + doe / 36524 - doe / 146096) / 365 = yoe at hdays
  generalize doe - (365 * yoe + yoe / 4 - yoe / 100) = doy at hdays
  constructor
  · split <;> omega
  · omega

end calendar

section digits
variable {width width' : ℕ} {n n' : ℤ}

private theorem toList_digits (width : ℕ) (h : 0 ≤ n) :
    (digits width n).toList =
      List.replicate (width - (Nat.toDigits 10 n.toNat).length) '0' ++ Nat.toDigits 10 n.toNat := by
  have hrepr : toString n = n.toNat.repr := by rw [Int.toString_eq_repr, Int.repr_eq_if, if_pos h]
  have hlength : (toString n).length = (Nat.toDigits 10 n.toNat).length := by
    rw [hrepr, ← String.length_toList, Nat.toList_repr]
  unfold digits
  rw [String.toList_append, String.toList_ofList, hlength, hrepr, Nat.toList_repr]

private theorem digits_injective (h : 0 ≤ n) (h' : 0 ≤ n') (heq : (digits width n).toList = (digits width' n').toList) :
    n = n' := by
  rw [toList_digits width h, toList_digits width' h'] at heq
  have hvalue := congrArg (fun cs => Nat.ofDigitChars 10 cs 0) heq
  simp only [Nat.ofDigitChars_append, Nat.ofDigitChars_replicate_zero, Nat.mul_zero, Nat.ofDigitChars_ten_toDigits] at hvalue
  omega

private theorem isDigit_digits (h : 0 ≤ n) : ∀ c ∈ (digits width n).toList, c.isDigit = true := by
  intro c hc
  rw [toList_digits width h] at hc
  rcases List.mem_append.mp hc with hzero | hdigit
  · rw [List.eq_of_mem_replicate hzero]
    decide
  · exact Nat.isDigit_of_mem_toDigits (by decide) (by decide) hdigit

private theorem length_digits (h : 0 ≤ n) : (digits width n).toList.length = max width (Nat.toDigits 10 n.toNat).length := by
  rw [toList_digits width h, List.length_append, List.length_replicate]
  omega

end digits

section text

/-- The text of a year: four digits, or a sign and at least six. -/
private def yearText (y : ℤ) : List Char :=
  if 0 ≤ y ∧ y ≤ 9999 then (digits 4 y).toList
  else (if y < 0 then '-' else '+') :: (digits 6 y.natAbs).toList

private theorem toList_isoDate (t : Time) :
    t.isoDate.toList = yearText (civil (t / 86400000)).1 ++ '-' :: ((digits 2 (civil (t / 86400000)).2.1).toList ++
      '-' :: (digits 2 (civil (t / 86400000)).2.2).toList) := by
  unfold isoDate yearText
  obtain ⟨y, m, d⟩ := civil (t / 86400000)
  dsimp only
  split
  · simp
  · split <;> simp

/-- Where the digits at the end of a text begin. -/
private theorem last_sign {l l' r r' : List Char} {a a' : Char} (ha : ¬ a.isDigit = true) (ha' : ¬ a'.isDigit = true)
    (hr : ∀ c ∈ r, c.isDigit = true) (hr' : ∀ c ∈ r', c.isDigit = true) (h : l ++ a :: r = l' ++ a' :: r') :
    l = l' ∧ a = a' ∧ r = r' :=
  Text.last_break (p := fun c => c.isDigit = true) ha ha' hr hr' h

private def yearSign (y : ℤ) : Char := if y < 0 then '-' else '+'

private theorem yearSign_not_digit (y : ℤ) : ¬ (yearSign y).isDigit = true := by
  unfold yearSign
  split
  · decide
  · decide

private theorem yearText_short {y : ℤ} (h : 0 ≤ y ∧ y ≤ 9999) : yearText y = (digits 4 y).toList := if_pos h

private theorem yearText_signed {y : ℤ} (h : ¬ (0 ≤ y ∧ y ≤ 9999)) : yearText y = yearSign y :: (digits 6 y.natAbs).toList :=
  if_neg h

/-- Four digits behind a `-` are not a sign with at least six behind it. -/
private theorem short_ne_signed {l l' : List Char} {y y' : ℤ} (hy : 0 ≤ y ∧ y ≤ 9999) :
    l ++ '-' :: (digits 4 y).toList ≠ l' ++ yearSign y' :: (digits 6 y'.natAbs).toList := by
  intro h
  have hfour : (digits 4 y).toList.length = 4 := by
    have hle : (Nat.toDigits 10 y.toNat).length ≤ 4 := (Nat.length_toDigits_le_iff (by decide) (by decide)).mpr (by omega)
    rw [length_digits hy.1]
    omega
  have hsix : 6 ≤ (digits 6 y'.natAbs).toList.length := by
    rw [length_digits (Int.natCast_nonneg _)]
    exact le_max_left _ _
  obtain ⟨-, -, hdigits⟩ := last_sign (by decide) (yearSign_not_digit y') (isDigit_digits hy.1)
    (isDigit_digits (Int.natCast_nonneg _)) h
  rw [hdigits] at hfour
  omega

/-- Behind a `-`, the text of a year tells the year and what stands before it. -/
private theorem yearText_injective {l l' : List Char} {y y' : ℤ}
    (h : l ++ '-' :: yearText y = l' ++ '-' :: yearText y') : l = l' ∧ y = y' := by
  by_cases hy : 0 ≤ y ∧ y ≤ 9999 <;> by_cases hy' : 0 ≤ y' ∧ y' ≤ 9999
  · rw [yearText_short hy, yearText_short hy'] at h
    obtain ⟨hl, -, hdigits⟩ := last_sign (by decide) (by decide) (isDigit_digits hy.1) (isDigit_digits hy'.1) h
    exact ⟨hl, digits_injective hy.1 hy'.1 hdigits⟩
  · rw [yearText_short hy, yearText_signed hy', List.append_cons l'] at h
    exact absurd h (short_ne_signed hy)
  · rw [yearText_signed hy, yearText_short hy', List.append_cons l] at h
    exact absurd h.symm (short_ne_signed hy')
  · rw [yearText_signed hy, yearText_signed hy', List.append_cons l, List.append_cons l'] at h
    obtain ⟨hl, hsame, hdigits⟩ := last_sign (yearSign_not_digit y) (yearSign_not_digit y')
      (isDigit_digits (Int.natCast_nonneg _)) (isDigit_digits (Int.natCast_nonneg _)) h
    have habs := digits_injective (Int.natCast_nonneg _) (Int.natCast_nonneg _) hdigits
    have hsigns : y < 0 ↔ y' < 0 := by
      by_cases hneg : y < 0 <;> by_cases hneg' : y' < 0 <;> simp [yearSign, hneg, hneg'] at hsame ⊢
    refine ⟨List.append_cancel_right hl, ?_⟩
    omega

/-- Behind a `-`, a date tells its day and what stands before it. -/
theorem isoDate_injective {l l' : List Char} {t t' : Time}
    (h : l ++ '-' :: t.isoDate.toList = l' ++ '-' :: t'.isoDate.toList) : l = l' ∧ t / 86400000 = t' / 86400000 := by
  obtain ⟨hm, hd⟩ := civil_pos (t / 86400000)
  obtain ⟨hm', hd'⟩ := civil_pos (t' / 86400000)
  rw [toList_isoDate, toList_isoDate] at h
  have hregroup : ∀ l y m d : List Char, l ++ '-' :: (y ++ '-' :: (m ++ '-' :: d)) = (l ++ '-' :: y ++ '-' :: m) ++ '-' :: d := by
    intro l y m d
    simp
  rw [hregroup, hregroup] at h
  obtain ⟨h, -, hday⟩ := last_sign (by decide) (by decide)
    (isDigit_digits hd) (isDigit_digits hd') h
  obtain ⟨h, -, hmonth⟩ := last_sign (by decide) (by decide)
    (isDigit_digits hm) (isDigit_digits hm') h
  obtain ⟨hl, hyear⟩ := yearText_injective h
  refine ⟨hl, civil_injective ?_⟩
  exact Prod.ext hyear (Prod.ext (digits_injective hm hm' hmonth) (digits_injective hd hd' hday))

theorem isoDate_chars (t : Time) : ∀ c ∈ t.isoDate.toList, c.isDigit = true ∨ c = '-' ∨ c = '+' := by
  intro c hc
  have hyear : ∀ c ∈ yearText (civil (t / 86400000)).1, c.isDigit = true ∨ c = '-' ∨ c = '+' := by
    intro c hc
    unfold yearText at hc
    split at hc
    next hy => exact .inl (isDigit_digits hy.1 c hc)
    next =>
      rcases List.mem_cons.mp hc with rfl | hdigit
      · right
        split
        · exact .inl rfl
        · exact .inr rfl
      · exact .inl (isDigit_digits (Int.natCast_nonneg _) c hdigit)
  obtain ⟨hm, hd⟩ := civil_pos (t / 86400000)
  rw [toList_isoDate] at hc
  rcases List.mem_append.mp hc with hc | hc
  · exact hyear c hc
  rcases List.mem_cons.mp hc with rfl | hc
  · exact .inr (.inl rfl)
  rcases List.mem_append.mp hc with hc | hc
  · exact .inl (isDigit_digits hm c hc)
  rcases List.mem_cons.mp hc with rfl | hc
  · exact .inr (.inl rfl)
  · exact .inl (isDigit_digits hd c hc)

/-- The date of an instant is that of its day. -/
theorem isoDate_of_day (t : Time) : isoDate (t / 86400000 * 86400000) = t.isoDate := by
  have hday : t / 86400000 * 86400000 / 86400000 = t / 86400000 :=
    Int.mul_ediv_cancel _ (by decide)
  unfold isoDate
  rw [hday]

end text
end RedRoomRewards.Time
