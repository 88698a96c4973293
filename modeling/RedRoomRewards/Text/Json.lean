import RedRoomRewards.Text.CodePoints
import RedRoomRewards.Text.Reading

/-! JSON values and the text that `JSON.stringify` writes for them. -/
namespace RedRoomRewards

def numberChars : List Char := ['0', '1', '2', '3', '4', '5', '6', '7', '8', '9', '+', '-', '.', 'e']

/-- A number as it is printed. -/
structure NumberText where
  chars : List Char
  nonempty : chars ≠ []
  printed : ∀ c ∈ chars, c ∈ numberChars
deriving DecidableEq

/-- The fields of an object stand in the order its keys are enumerated in. -/
inductive JsonValue where
  | null
  | bool (b : Bool)
  | num (n : NumberText)
  | str (s : List CodeUnit)
  | arr (items : List JsonValue)
  | obj (fields : List (List CodeUnit × JsonValue))

namespace JsonValue

/-- What holds of a value when it holds of the values in it holds of all. -/
theorem induct {motive : JsonValue → Prop} (null : motive .null) (bool : ∀ b, motive (.bool b))
    (num : ∀ n, motive (.num n)) (str : ∀ s, motive (.str s))
    (arr : ∀ items, (∀ v ∈ items, motive v) → motive (.arr items))
    (obj : ∀ fields, (∀ field ∈ fields, motive field.2) → motive (.obj fields)) (v : JsonValue) : motive v := by
  apply JsonValue.rec (motive_1 := motive) (motive_2 := fun items => ∀ v ∈ items, motive v)
    (motive_3 := fun fields => ∀ field ∈ fields, motive field.2) (motive_4 := fun field => motive field.2)
  · exact null
  · exact bool
  · exact num
  · exact str
  · exact arr
  · exact obj
  · exact fun _ h => nomatch h
  · exact fun _ _ hv hvs => List.forall_mem_cons.mpr ⟨hv, hvs⟩
  · exact fun _ h => nomatch h
  · exact fun _ _ hfield hfields => List.forall_mem_cons.mpr ⟨hfield, hfields⟩
  · exact fun _ _ hv => hv

end JsonValue

namespace Text

def quotationMark : Char := .ofNat 34

def reverseSolidus : Char := .ofNat 92

/-- The code points that are written with a letter of their own behind a reverse solidus. -/
def singleEscapes : List (ℕ × Char) :=
  [(8, 'b'), (9, 't'), (10, 'n'), (12, 'f'), (13, 'r'), (34, quotationMark), (92, reverseSolidus)]

def hexDigits (n : ℕ) : List Char :=
  [Nat.digitChar (n / 4096 % 16), Nat.digitChar (n / 256 % 16), Nat.digitChar (n / 16 % 16), Nat.digitChar (n % 16)]

def escape (c : CodePoint) : List Char :=
  match singleEscapes.lookup c.val with
  | some letter => [reverseSolidus, letter]
  | none =>
    if c.val < 0x20 ∨ c.Surrogate then reverseSolidus :: 'u' :: hexDigits c.val
    else [.ofNat c.val]

def quote (s : List CodeUnit) : List Char :=
  quotationMark :: ((codePoints s).flatMap escape ++ [quotationMark])

mutual

def stringify : JsonValue → List Char
  | .null => ['n', 'u', 'l', 'l']
  | .bool true => ['t', 'r', 'u', 'e']
  | .bool false => ['f', 'a', 'l', 's', 'e']
  | .num n => n.chars
  | .str s => quote s
  | .arr items => '[' :: ([','].intercalate (stringifyItems items) ++ [']'])
  | .obj fields => '{' :: ([','].intercalate (stringifyFields fields) ++ ['}'])

def stringifyItems : List JsonValue → List (List Char)
  | [] => []
  | v :: rest => stringify v :: stringifyItems rest

def stringifyFields : List (List CodeUnit × JsonValue) → List (List Char)
  | [] => []
  | (key, v) :: rest => (quote key ++ ':' :: stringify v) :: stringifyFields rest

end

def stringifyField (field : List CodeUnit × JsonValue) : List Char := quote field.1 ++ ':' :: stringify field.2

theorem stringify_arr (items : List JsonValue) :
    stringify (.arr items) = '[' :: ([','].intercalate (items.map stringify) ++ [']']) := by
  have hitems : stringifyItems items = items.map stringify := by
    induction items with
    | nil => rfl
    | cons v rest ih => rw [stringifyItems, ih, List.map_cons]
  rw [stringify, hitems]

theorem stringify_obj (fields : List (List CodeUnit × JsonValue)) :
    stringify (.obj fields) = '{' :: ([','].intercalate (fields.map stringifyField) ++ ['}']) := by
  have hfields : stringifyFields fields = fields.map stringifyField := by
    induction fields with
    | nil => rfl
    | cons field rest ih => rw [stringifyFields, ih, List.map_cons, stringifyField]
  rw [stringify, hfields]

def hexValue (c : Char) : ℕ := if c.toNat < 58 then c.toNat - 48 else c.toNat - 87

/-- The code point that a text begins with, read back. -/
def unescape (text : List Char) : Option (ℕ × List Char) :=
  match text with
  | [] => none
  | c :: rest =>
    if c ≠ reverseSolidus then some (c.toNat, rest)
    else match rest with
      | 'u' :: a :: b :: c :: d :: rest =>
        some (((hexValue a * 16 + hexValue b) * 16 + hexValue c) * 16 + hexValue d, rest)
      | letter :: rest => (singleEscapes.find? fun entry => entry.2 = letter).map fun entry => (entry.1, rest)
      | [] => none

private theorem hexValue_digitChar {n : ℕ} (h : n < 16) : hexValue (Nat.digitChar n) = n := by
  have hall : ∀ d : Fin 16, hexValue (Nat.digitChar d.val) = d.val := by decide
  exact hall ⟨n, h⟩

private theorem unescape_hex (n : ℕ) (h : n < 0x10000) (rest : List Char) :
    unescape (reverseSolidus :: 'u' :: (hexDigits n ++ rest)) = some (n, rest) := by
  have hdigit : ∀ m, hexValue (Nat.digitChar (m % 16)) = m % 16 := fun m => hexValue_digitChar (Nat.mod_lt m (by omega))
  have hvalue : ((n / 4096 % 16 * 16 + n / 256 % 16) * 16 + n / 16 % 16) * 16 + n % 16 = n := by omega
  simp only [unescape, hexDigits, List.cons_append, List.nil_append, ne_eq, not_true_eq_false, if_false, hdigit, hvalue]

private theorem unescape_single : ∀ entry ∈ singleEscapes, ∀ rest,
    unescape (reverseSolidus :: entry.2 :: rest) = some (entry.1, rest) := by
  intro entry hentry rest
  simp only [singleEscapes, List.mem_cons, List.not_mem_nil, or_false] at hentry
  rcases hentry with rfl | rfl | rfl | rfl | rfl | rfl | rfl <;> rfl

theorem unescape_escape (c : CodePoint) (rest : List Char) : unescape (escape c ++ rest) = some (c.val, rest) := by
  unfold escape
  split
  · next letter hletter =>
    obtain ⟨before, after, hentries, -⟩ := List.lookup_eq_some_iff.mp hletter
    have hmem : (c.val, letter) ∈ singleEscapes := hentries ▸ List.mem_append_right before List.mem_cons_self
    exact unescape_single _ hmem rest
  · next hnone =>
    have hsolidus : c.val ≠ 92 := by
      simpa using List.lookup_eq_none_iff.mp hnone (92, reverseSolidus) (by decide)
    split_ifs with hhex
    · apply unescape_hex
      have := c.isLt
      rcases hhex with hlow | ⟨_, hhigh⟩
      · omega
      · omega
    · -- what is written as it is has the code point for its number
      have hvalid : c.val.isValidChar := by
        have hlt := c.isLt
        rw [CodePoint.Surrogate] at hhex
        rw [Nat.isValidChar]
        omega
      have hself : (Char.ofNat c.val).toNat = c.val := by
        rw [Char.ofNat, dif_pos hvalid]
        rfl
      have hne : Char.ofNat c.val ≠ reverseSolidus := by
        intro heq
        rw [heq] at hself
        exact hsolidus hself.symm
      simp only [List.singleton_append, unescape, if_pos hne, hself]

section reading
variable {r r' : List Char}

theorem readsOff_escape (c : CodePoint) : ReadsOff escape (fun _ => True) c := by
  intro c' r r' _ _ heq
  have hread := unescape_escape c r
  rw [heq, unescape_escape c' r'] at hread
  obtain ⟨hval, hrest⟩ := Prod.mk.inj (Option.some.inj hread)
  exact ⟨Fin.ext hval.symm, hrest.symm⟩

private theorem escape_ne_quotationMark (c : CodePoint) (t t' : List Char) : escape c ++ t ≠ quotationMark :: t' := by
  intro heq
  have hread := unescape_escape c t
  have hmark : unescape (quotationMark :: t') = some (34, t') := rfl
  rw [heq, hmark] at hread
  have hc : c.val = 34 := (Prod.mk.inj (Option.some.inj hread)).1.symm
  have hwritten : escape c = [reverseSolidus, quotationMark] := by
    rw [escape, hc]
    rfl
  rw [hwritten] at heq
  exact absurd (List.cons.inj heq).1 (by decide)

theorem readsOff_quote (s : List CodeUnit) : ReadsOff quote (fun _ => True) s := by
  intro s' r r' _ _ heq
  simp only [quote, List.cons_append, List.append_assoc, List.nil_append] at heq
  obtain ⟨hpoints, hrest⟩ := readsOff_flatMap (fun c _ => readsOff_escape c) (fun _ _ => trivial) (fun _ => trivial)
    escape_ne_quotationMark (List.cons.inj heq).2
  exact ⟨codePoints_injective hpoints, hrest⟩

/-- What may follow a value: nothing that could belong to a number. -/
def AfterValue (r : List Char) : Prop := ∀ c ∈ r.head?, c ∉ numberChars

inductive JsonForm where
  | null | bool | num | str | arr | obj

def JsonForm.of : JsonValue → JsonForm
  | .null => .null
  | .bool _ => .bool
  | .num _ => .num
  | .str _ => .str
  | .arr _ => .arr
  | .obj _ => .obj

/-- The form of the values that begin with a character. -/
def formOf (c : Char) : Option JsonForm :=
  if c ∈ numberChars then some .num
  else if c = 'n' then some .null
  else if c = 't' ∨ c = 'f' then some .bool
  else if c = quotationMark then some .str
  else if c = '[' then some .arr
  else if c = '{' then some .obj
  else none

theorem stringify_head (v : JsonValue) : ∃ c t, stringify v = c :: t ∧ formOf c = some (.of v) := by
  cases v with
  | null => exact ⟨_, _, rfl, rfl⟩
  | bool b => cases b <;> exact ⟨_, _, rfl, rfl⟩
  | num n =>
    obtain ⟨c, t, hchars⟩ := List.exists_cons_of_ne_nil n.nonempty
    have hc : c ∈ numberChars := n.printed c (hchars ▸ List.mem_cons_self)
    exact ⟨c, t, by rw [stringify, hchars], if_pos hc⟩
  | str s => exact ⟨_, _, rfl, rfl⟩
  | arr items => exact ⟨_, _, stringify_arr items, rfl⟩
  | obj fields => exact ⟨_, _, stringify_obj fields, rfl⟩

private theorem stringify_ne_cons {stop : Char} (hstop : formOf stop = none) (v : JsonValue) (t t' : List Char) :
    stringify v ++ t ≠ stop :: t' := by
  obtain ⟨c, s, hv, hform⟩ := stringify_head v
  intro heq
  rw [hv, List.cons_append] at heq
  rw [(List.cons.inj heq).1, hstop] at hform
  cases hform

private theorem same_form {v w : JsonValue} (heq : stringify v ++ r = stringify w ++ r') : JsonForm.of v = .of w := by
  obtain ⟨c, s, hv, hform⟩ := stringify_head v
  obtain ⟨c', s', hw, hform'⟩ := stringify_head w
  rw [hv, hw, List.cons_append, List.cons_append] at heq
  rw [(List.cons.inj heq).1, hform'] at hform
  exact (Option.some.inj hform).symm

private theorem readsOff_bool (b : Bool) : ReadsOff stringify AfterValue (.bool b) := by
  intro w r r' _ _ heq
  have hform := same_form heq
  cases w with
  | bool b' =>
    cases b <;> cases b'
    · exact ⟨rfl, List.append_cancel_left heq⟩
    · exact absurd (List.cons.inj heq).1 (by decide)
    · exact absurd (List.cons.inj heq).1 (by decide)
    · exact ⟨rfl, List.append_cancel_left heq⟩
  | _ => cases hform

private theorem readsOff_num (n : NumberText) : ReadsOff stringify AfterValue (.num n) := by
  intro w r r' hr hr' heq
  have hform := same_form heq
  cases w with
  | num n' =>
    obtain ⟨hchars, hrest⟩ := readsOff_of_run n.printed n'.printed hr hr' heq
    obtain ⟨chars, _, _⟩ := n
    cases hchars
    exact ⟨rfl, hrest⟩
  | _ => cases hform

private theorem readsOff_str (s : List CodeUnit) : ReadsOff stringify AfterValue (.str s) := by
  intro w r r' _ _ heq
  have hform := same_form heq
  cases w with
  | str s' =>
    obtain ⟨rfl, hrest⟩ := readsOff_quote s s' r r' trivial trivial heq
    exact ⟨rfl, hrest⟩
  | _ => cases hform

private theorem afterValue_of_not_mem {c : Char} (hc : c ∉ numberChars) (t : List Char) : AfterValue (c :: t) := by
  intro c' hc'
  obtain rfl := Option.some.inj hc'
  exact hc

private theorem readsOff_arr {items : List JsonValue} (h : ∀ v ∈ items, ReadsOff stringify AfterValue v) :
    ReadsOff stringify AfterValue (.arr items) := by
  intro w r r' _ _ heq
  have hform := same_form heq
  cases w with
  | arr items' =>
    simp only [stringify_arr, List.cons_append, List.append_assoc, List.nil_append] at heq
    obtain ⟨rfl, hrest⟩ := readsOff_joined h (afterValue_of_not_mem (by decide)) (afterValue_of_not_mem (by decide)) (by decide)
      (stringify_ne_cons rfl) (List.cons.inj heq).2
    exact ⟨rfl, hrest⟩
  | _ => cases hform

private theorem readsOff_field {field : List CodeUnit × JsonValue} (h : ReadsOff stringify AfterValue field.2) :
    ReadsOff stringifyField AfterValue field := by
  intro field' t t' ht ht' heq
  simp only [stringifyField, List.append_assoc, List.cons_append] at heq
  obtain ⟨hkey, hrest⟩ := readsOff_quote _ _ _ _ trivial trivial heq
  obtain ⟨hvalue, ht⟩ := h _ t t' ht ht' (List.cons.inj hrest).2
  exact ⟨Prod.ext hkey hvalue, ht⟩

private theorem readsOff_obj {fields : List (List CodeUnit × JsonValue)}
    (h : ∀ field ∈ fields, ReadsOff stringify AfterValue field.2) : ReadsOff stringify AfterValue (.obj fields) := by
  intro w r r' _ _ heq
  have hform := same_form heq
  cases w with
  | obj fields' =>
    have hstop : ∀ (field : List CodeUnit × JsonValue) (t t' : List Char), stringifyField field ++ t ≠ '}' :: t' := by
      intro field t t' heq
      exact absurd (List.cons.inj heq).1 (by decide)
    simp only [stringify_obj, List.cons_append, List.append_assoc, List.nil_append] at heq
    obtain ⟨rfl, hrest⟩ := readsOff_joined (fun field hfield => readsOff_field (h field hfield))
      (afterValue_of_not_mem (by decide)) (afterValue_of_not_mem (by decide)) (by decide) hstop (List.cons.inj heq).2
    exact ⟨rfl, hrest⟩
  | _ => cases hform

theorem readsOff_stringify (v : JsonValue) : ReadsOff stringify AfterValue v := by
  induction v using JsonValue.induct with
  | null =>
    intro w r r' _ _ heq
    have hform := same_form heq
    cases w with
    | null => exact ⟨rfl, List.append_cancel_left heq⟩
    | _ => cases hform
  | bool b => exact readsOff_bool b
  | num n => exact readsOff_num n
  | str s => exact readsOff_str s
  | arr items ih => exact readsOff_arr ih
  | obj fields ih => exact readsOff_obj ih

end reading

/-- No two values are written alike. -/
theorem stringify_injective : Function.Injective stringify := by
  intro v w h
  have hend : AfterValue [] := fun _ hc => nomatch hc
  exact (readsOff_stringify v w [] [] hend hend (by rw [h])).1

end Text
end RedRoomRewards
