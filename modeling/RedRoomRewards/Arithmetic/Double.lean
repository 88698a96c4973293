import Mathlib.Algebra.Order.BigOperators.Group.List
import Mathlib.Data.Rat.Floor
import Mathlib.Tactic.FieldSimp
import Mathlib.Tactic.Linarith
import Mathlib.Tactic.NormNum

/-! Binary floating point numbers of 53 bits: to which of them a rational is rounded, and which
need no rounding. There is no largest one. -/
namespace RedRoomRewards.Arithmetic

section rounding

/-- `2 ^ e`. -/
def power (e : ℤ) : ℚ := if 0 ≤ e then ((2 ^ e.toNat : ℕ) : ℚ) else 1 / ((2 ^ (-e).toNat : ℕ) : ℚ)

/-- The largest exponent of a power of two that is not above `|x|`. -/
def exponent (x : ℚ) : ℤ :=
  let e : ℤ := (Nat.log2 x.num.natAbs : ℤ) - Nat.log2 x.den
  if power e ≤ |x| then e else e - 1

/-- The exponent of the last place of the numbers next to `x`. -/
def place (x : ℚ) : ℤ := max (exponent x - 52) (-1074)

/-- The nearest whole number, the even one of two that are equally near. -/
def nearest (x : ℚ) : ℤ :=
  let n := ⌊x⌋
  if x - n < 1 / 2 then n
  else if 1 / 2 < x - n then n + 1
  else if n % 2 = 0 then n
  else n + 1

/-- The double that `x` is rounded to. -/
def double (x : ℚ) : ℚ := nearest (x / power (place x)) * power (place x)

end rounding

section whole
variable {x y : ℚ}

/-- A whole number. -/
def Whole (x : ℚ) : Prop := x.den = 1

instance (x : ℚ) : Decidable (Whole x) := inferInstanceAs (Decidable (_ = _))

theorem Whole.eq_intCast (h : Whole x) : x = (x.num : ℚ) := (Rat.den_eq_one_iff x).mp h |>.symm

theorem whole_intCast (n : ℤ) : Whole n := Rat.den_intCast n

theorem Whole.add (hx : Whole x) (hy : Whole y) : Whole (x + y) := by
  rw [hx.eq_intCast, hy.eq_intCast, ← Int.cast_add]
  exact whole_intCast _

theorem Whole.neg (hx : Whole x) : Whole (-x) := by
  rw [hx.eq_intCast, ← Int.cast_neg]
  exact whole_intCast _

theorem Whole.sub (hx : Whole x) (hy : Whole y) : Whole (x - y) := sub_eq_add_neg x y ▸ hx.add hy.neg

theorem Whole.abs (hx : Whole x) : Whole |x| := by
  rw [hx.eq_intCast, ← Int.cast_abs]
  exact whole_intCast _

theorem whole_sum {xs : List ℚ} (h : ∀ x ∈ xs, Whole x) : Whole xs.sum := by
  induction xs with
  | nil => exact whole_intCast 0
  | cons x xs ih =>
    rw [List.sum_cons]
    exact (h x (.head _)).add (ih fun y hy => h y (.tail _ hy))

/-- Whole numbers less than a hundredth apart are equal. -/
theorem Whole.near_iff (hx : Whole x) (hy : Whole y) : |x - y| < 1 / 100 ↔ x = y := by
  rw [hx.eq_intCast, hy.eq_intCast, ← Int.cast_sub, ← Int.cast_abs, Int.cast_inj]
  constructor
  · intro h
    have hone : |x.num - y.num| < 1 := by
      exact_mod_cast h.trans (by norm_num : (1 / 100 : ℚ) < 1)
    exact Int.sub_eq_zero.mp (Int.abs_lt_one_iff.mp hone)
  · rintro heq
    simp [heq]

end whole

section safe

/-- A whole number of at most 53 bits. -/
structure Safe (x : ℚ) : Prop where
  whole : Whole x
  bound : |x| < 2 ^ 53

theorem power_pos (e : ℤ) : 0 < power e := by
  unfold power
  split
  · exact_mod_cast Nat.two_pow_pos _
  · exact one_div_pos.mpr (by exact_mod_cast Nat.two_pow_pos _)

theorem nearest_intCast (n : ℤ) : nearest n = n := by
  unfold nearest
  rw [Int.floor_intCast, if_pos (by norm_num)]

/-- The last place of a whole number of at most 53 bits is not left of the unit. -/
private theorem place_nonpos {n : ℤ} (h : n.natAbs < 2 ^ 53) : place n ≤ 0 := by
  have hlog : Nat.log2 n.natAbs ≤ 52 := by
    by_cases hzero : n.natAbs = 0
    · simp [hzero]
    · have := (Nat.log2_lt hzero).mpr h
      omega
  have hone : Nat.log2 1 = 0 := by decide
  have hexponent : exponent n ≤ 52 := by
    unfold exponent
    rw [Rat.num_intCast, Rat.den_intCast, hone]
    dsimp only
    by_cases hpower : power ((n.natAbs.log2 : ℤ) - (0 : ℕ)) ≤ |(n : ℚ)|
    · rw [if_pos hpower]
      omega
    · rw [if_neg hpower]
      omega
  unfold place
  omega

/-- Whole numbers of at most 53 bits are doubles. -/
theorem Safe.double_eq {x : ℚ} (h : Safe x) : double x = x := by
  obtain ⟨hwhole, hbound⟩ := h
  rw [hwhole.eq_intCast] at hbound ⊢
  generalize x.num = n at hbound
  have hplace := place_nonpos (n := n) (by
    rw [← Int.cast_abs, Int.abs_eq_natAbs] at hbound
    exact_mod_cast hbound)
  generalize hp : place n = p at hplace
  have hpower : ∃ m : ℤ, (n : ℚ) / power p = m := by
    unfold power
    by_cases hzero : 0 ≤ p
    · obtain rfl : p = 0 := by omega
      exact ⟨n, by simp⟩
    · exact ⟨n * 2 ^ (-p).toNat, by simp [hzero]⟩
  obtain ⟨m, hm⟩ := hpower
  rw [double, hp, hm, nearest_intCast, ← hm, div_mul_cancel₀ _ (power_pos p).ne']

/-- Adding up whole numbers rounds nothing as long as they are small together. -/
theorem foldl_double_eq {xs : List ℚ} {total : ℚ} (hxs : ∀ x ∈ xs, Whole x) (htotal : Whole total)
    (hbound : |total| + (xs.map fun x => |x|).sum < 2 ^ 53) :
    xs.foldl (fun total x => double (total + x)) total = total + xs.sum := by
  induction xs generalizing total with
  | nil => exact (add_zero total).symm
  | cons x xs ih =>
    have hwhole : Whole (total + x) := htotal.add (hxs x (.head _))
    have htriangle : |total + x| ≤ |total| + |x| := abs_add_le total x
    have hrest : 0 ≤ (xs.map fun x => |x|).sum := List.sum_nonneg fun y hy => by
      obtain ⟨z, -, rfl⟩ := List.mem_map.mp hy
      exact abs_nonneg z
    rw [List.map_cons, List.sum_cons] at hbound
    have hdouble : double (total + x) = total + x := Safe.double_eq ⟨hwhole, by linarith⟩
    rw [List.foldl_cons, hdouble, ih (fun y hy => hxs y (.tail _ hy)) hwhole (by linarith), List.sum_cons, add_assoc]

end safe

section small

/-- A whole number within a bound. -/
structure Small (bound x : ℚ) : Prop where
  whole : Whole x
  bounded : |x| ≤ bound

theorem Small.add {b c x y : ℚ} (hx : Small b x) (hy : Small c y) : Small (b + c) (x + y) :=
  ⟨hx.whole.add hy.whole, (abs_add_le x y).trans (add_le_add hx.bounded hy.bounded)⟩

theorem Small.sub {b c x y : ℚ} (hx : Small b x) (hy : Small c y) : Small (b + c) (x - y) :=
  ⟨hx.whole.sub hy.whole, (abs_sub x y).trans (add_le_add hx.bounded hy.bounded)⟩

theorem Small.double_eq {b x : ℚ} (hx : Small b x) (hb : b < 2 ^ 53) : double x = x :=
  Safe.double_eq ⟨hx.whole, hx.bounded.trans_lt hb⟩

end small
end RedRoomRewards.Arithmetic
