import RedRoomRewards.Text.Json

/-! Scanning the text of a JSON value: a scan that begins in front of it is outside of all strings at its end, and one
that begins in one of its strings is not. So a text, a full stop and an object are told by the whole. -/
namespace RedRoomRewards.Text

/-- Where a scan stands: outside of strings, there behind a character of a number, in a string, in it behind a reverse
solidus, or where no text of a value goes on. -/
inductive Scan where
  | outside
  | number
  | inside
  | escaped
  | broken
  deriving DecidableEq

namespace Scan

def next : Scan → Char → Scan
  | outside, c =>
    if c = quotationMark then inside
    else if c = reverseSolidus then broken
    else if c ∈ numberChars then number
    else outside
  | number, c =>
    if c ∈ numberChars then number
    else if c = quotationMark ∨ c = reverseSolidus ∨ c = '{' then broken
    else outside
  | inside, c => if c = quotationMark then outside else if c = reverseSolidus then escaped else inside
  | escaped, _ => inside
  | broken, _ => broken

def scanned (s : Scan) (text : List Char) : Scan := text.foldl next s

/-- No string is open. -/
def Between (s : Scan) : Prop := s = outside ∨ s = number

/-- Exactly one of two scans is in a string, or one is broken. -/
def Opposed (s s' : Scan) : Prop := s.Between ∧ s' = inside ∨ s = inside ∧ s'.Between ∨ s = broken ∨ s' = broken

variable {s s' : Scan} {c : Char}

@[simp] theorem scanned_nil : s.scanned [] = s := rfl
@[simp] theorem scanned_cons (text : List Char) : s.scanned (c :: text) = (s.next c).scanned text := rfl

theorem scanned_append (text rest : List Char) : s.scanned (text ++ rest) = (s.scanned text).scanned rest := List.foldl_append

theorem broken_scanned (text : List Char) : broken.scanned text = broken := by
  induction text with
  | nil => rfl
  | cons c text ih => exact ih

/-- The characters that stand between values. -/
def separators : List Char := [',', ':', '[', ']', '}']

theorem Between.separated (h : s.Between) (hc : c ∈ separators) : s.next c = outside := by
  have hnumber : c ∉ numberChars ∧ c ≠ quotationMark ∧ c ≠ reverseSolidus ∧ c ≠ '{' := by
    simp only [separators, List.mem_cons, List.not_mem_nil, or_false] at hc
    rcases hc with rfl | rfl | rfl | rfl | rfl <;> decide
  obtain ⟨hn, hq, hr, hb⟩ := hnumber
  rcases h with rfl | rfl
  · simp [next, hq, hr, hn]
  · simp [next, hq, hr, hn, hb]

theorem Between.in_number (h : s.Between) (hc : c ∈ numberChars) : s.next c = number := by
  rcases h with rfl | rfl
  · have hquote : c ≠ quotationMark := by
      rintro rfl
      exact absurd hc (by decide)
    have hsolidus : c ≠ reverseSolidus := by
      rintro rfl
      exact absurd hc (by decide)
    simp [next, hquote, hsolidus, hc]
  · exact if_pos hc

/-- Scans that are opposed stay so: what opens a string for one of them closes it for the other, and a reverse solidus
breaks the one that is outside. -/
theorem Opposed.next (h : Opposed s s') (c : Char) : Opposed (s.next c) (s'.next c) := by
  have hother : ∀ s s' : Scan, s.Between → s' = inside → Opposed (s.next c) (s'.next c) := by
    rintro s _ hs rfl
    by_cases hquote : c = quotationMark
    · subst hquote
      rcases hs with rfl | rfl
      · exact .inr (.inl ⟨rfl, .inl rfl⟩)
      · exact .inr (.inr (.inl rfl))
    · by_cases hsolidus : c = reverseSolidus
      · subst hsolidus
        rcases hs with rfl | rfl <;> exact .inr (.inr (.inl rfl))
      · have hin : inside.next c = inside := by simp [Scan.next, hquote, hsolidus]
        rw [hin]
        rcases hs with rfl | rfl
        · by_cases hnumber : c ∈ numberChars <;> simp [Scan.next, Opposed, Between, hquote, hsolidus, hnumber]
        · by_cases hnumber : c ∈ numberChars
          · simp [Scan.next, Opposed, Between, hnumber]
          · by_cases hbrace : c = '{'
            · subst hbrace
              exact .inr (.inr (.inl rfl))
            · simp [Scan.next, Opposed, Between, hquote, hsolidus, hnumber, hbrace]
  rcases h with ⟨hs, hs'⟩ | ⟨hs, hs'⟩ | rfl | rfl
  · exact hother s s' hs hs'
  · rcases hother s' s hs' hs with ⟨h₁, h₂⟩ | ⟨h₁, h₂⟩ | h₁ | h₁
    · exact .inr (.inl ⟨h₂, h₁⟩)
    · exact .inl ⟨h₂, h₁⟩
    · exact .inr (.inr (.inr h₁))
    · exact .inr (.inr (.inl h₁))
  · exact .inr (.inr (.inl rfl))
  · exact .inr (.inr (.inr rfl))

theorem Opposed.scanned (h : Opposed s s') (text : List Char) : Opposed (s.scanned text) (s'.scanned text) := by
  induction text generalizing s s' with
  | nil => exact h
  | cons c text ih => exact ih (h.next c)

theorem Opposed.not_between (h : Opposed s s') (hs : s.Between) : ¬ s'.Between := by
  rcases h with ⟨-, rfl⟩ | ⟨rfl, -⟩ | rfl | rfl
  · rintro (h' | h') <;> cases h'
  · rcases hs with h' | h' <;> cases h'
  · rcases hs with h' | h' <;> cases h'
  · rintro (h' | h') <;> cases h'

end Scan

section values
open Scan

private theorem inside_scanned_plain {text : List Char} (h : ∀ c ∈ text, c ≠ quotationMark ∧ c ≠ reverseSolidus) :
    inside.scanned text = inside := by
  induction text with
  | nil => rfl
  | cons c text ih =>
    obtain ⟨⟨hquote, hsolidus⟩, hrest⟩ := List.forall_mem_cons.mp h
    rw [scanned_cons, next, if_neg hquote, if_neg hsolidus, ih hrest]

private theorem digitChar_plain (n : ℕ) : Nat.digitChar (n % 16) ≠ quotationMark ∧ Nat.digitChar (n % 16) ≠ reverseSolidus := by
  have hall : ∀ d : Fin 16, Nat.digitChar d.val ≠ quotationMark ∧ Nat.digitChar d.val ≠ reverseSolidus := by decide
  exact hall ⟨n % 16, Nat.mod_lt n (by omega)⟩

/-- What is written for a code point leaves the scan in the string. -/
theorem inside_scanned_escape (c : CodePoint) : inside.scanned (escape c) = inside := by
  unfold escape
  split
  · rfl
  · next hnone =>
    split_ifs with hhex
    · have hdigits : ∀ d ∈ hexDigits c.val, d ≠ quotationMark ∧ d ≠ reverseSolidus := by
        simp only [hexDigits, List.mem_cons, List.not_mem_nil, or_false]
        rintro d (rfl | rfl | rfl | rfl) <;> exact digitChar_plain _
      have hbegin : (inside.next reverseSolidus).next 'u' = inside := rfl
      rw [scanned_cons, scanned_cons, hbegin]
      exact inside_scanned_plain hdigits
    · -- the character has the code point for its number, which is none of the two
      have hvalid : c.val.isValidChar := by
        have hlt := c.isLt
        rw [CodePoint.Surrogate] at hhex
        rw [Nat.isValidChar]
        omega
      have hself : (Char.ofNat c.val).toNat = c.val := by
        rw [Char.ofNat, dif_pos hvalid]
        rfl
      have hlookup := List.lookup_eq_none_iff.mp hnone
      have hquote : c.val ≠ 34 := by simpa using hlookup (34, quotationMark) (by decide)
      have hsolidus : c.val ≠ 92 := by simpa using hlookup (92, reverseSolidus) (by decide)
      refine inside_scanned_plain fun d hd => ?_
      obtain rfl := List.mem_singleton.mp hd
      constructor
      · intro heq
        rw [heq] at hself
        exact hquote hself.symm
      · intro heq
        rw [heq] at hself
        exact hsolidus hself.symm

theorem outside_scanned_quote (s : List CodeUnit) : outside.scanned (quote s) = outside := by
  have hpoints : ∀ points : List CodePoint, inside.scanned (points.flatMap escape) = inside := by
    intro points
    induction points with
    | nil => rfl
    | cons c points ih => rw [List.flatMap_cons, scanned_append, inside_scanned_escape, ih]
  have hopen : outside.next quotationMark = inside := rfl
  rw [quote, scanned_cons, hopen, scanned_append, hpoints]
  rfl

private theorem scanned_number {chars : List Char} (h : ∀ c ∈ chars, c ∈ numberChars) {s : Scan} (hs : s.Between) :
    (s.scanned chars).Between := by
  induction chars generalizing s with
  | nil => exact hs
  | cons c chars ih =>
    obtain ⟨hc, hrest⟩ := List.forall_mem_cons.mp h
    rw [scanned_cons, hs.in_number hc]
    exact ih hrest (.inr rfl)

private theorem scanned_joined {texts : List (List Char)} (h : ∀ text ∈ texts, (outside.scanned text).Between) :
    (outside.scanned ([','].intercalate texts)).Between := by
  induction texts with
  | nil => exact .inl rfl
  | cons text rest ih =>
    obtain ⟨htext, hrest⟩ := List.forall_mem_cons.mp h
    cases rest with
    | nil =>
      rw [List.intercalate_singleton]
      exact htext
    | cons next rest =>
      rw [List.intercalate_cons_of_ne_nil (List.cons_ne_nil _ _), scanned_append, scanned_append, scanned_cons,
        htext.separated (by decide)]
      exact ih hrest

/-- At the end of a value no string is open. -/
theorem between_scanned_stringify (v : JsonValue) : (outside.scanned (stringify v)).Between := by
  induction v using JsonValue.induct with
  | null => exact .inl rfl
  | bool b => cases b <;> exact .inr rfl
  | num n => exact scanned_number n.printed (.inl rfl)
  | str s => exact .inl (outside_scanned_quote s)
  | arr items ih =>
    have hopen : outside.next '[' = outside := rfl
    have hitems : ∀ text ∈ items.map stringify, (outside.scanned text).Between := by
      intro text htext
      obtain ⟨v, hv, rfl⟩ := List.mem_map.mp htext
      exact ih v hv
    rw [stringify_arr, scanned_cons, hopen, scanned_append, scanned_cons, (scanned_joined hitems).separated (by decide)]
    exact .inl rfl
  | obj fields ih =>
    have hopen : outside.next '{' = outside := rfl
    have hcolon : outside.next ':' = outside := rfl
    have hfields : ∀ text ∈ fields.map stringifyField, (outside.scanned text).Between := by
      intro text htext
      obtain ⟨field, hfield, rfl⟩ := List.mem_map.mp htext
      rw [stringifyField, scanned_append, outside_scanned_quote, scanned_cons, hcolon]
      exact ih field hfield
    rw [stringify_obj, scanned_cons, hopen, scanned_append, scanned_cons, (scanned_joined hfields).separated (by decide)]
    exact .inl rfl

variable {fields fields' : List (List CodeUnit × JsonValue)}

/-- Behind no full stop in the text of a value does the text of an object go on to its end. -/
theorem stringify_ne_append_stop (v : JsonValue) (front : List Char) : stringify v ≠ front ++ '.' :: stringify (.obj fields) := by
  intro heq
  have hend : (outside.scanned (stringify v)).Between := between_scanned_stringify v
  have hobject : (outside.scanned (stringify (.obj fields))).Between := between_scanned_stringify _
  obtain ⟨rest, hrest⟩ : ∃ rest, stringify (.obj fields) = '{' :: rest := ⟨_, stringify_obj fields⟩
  have hinside : ¬ (inside.scanned (stringify (.obj fields))).Between := by
    have hopposed : Opposed outside inside := .inl ⟨.inl rfl, rfl⟩
    exact (hopposed.scanned _).not_between hobject
  have hnumber : number.scanned ('{' :: rest) = broken := broken_scanned rest
  rw [heq, scanned_append, scanned_cons] at hend
  cases hfront : outside.scanned front with
  | outside | number =>
    rw [hfront, Between.in_number (by simp [Between]) (by decide), hrest, hnumber] at hend
    rcases hend with h | h <;> cases h
  | inside | escaped =>
    rw [hfront] at hend
    exact hinside hend
  | broken =>
    rw [hfront] at hend
    have hbroken : (broken.next '.').scanned (stringify (.obj fields)) = broken := broken_scanned _
    rw [hbroken] at hend
    rcases hend with h | h <;> cases h

/-- A text, a full stop and an object behind it are told by the whole. -/
theorem stopped_object_injective {front front' : List Char}
    (heq : front ++ '.' :: stringify (.obj fields) = front' ++ '.' :: stringify (.obj fields')) :
    front = front' ∧ fields = fields' := by
  have hsame : ∀ {fields fields'}, '.' :: stringify (.obj fields) = '.' :: stringify (.obj fields') → fields = fields' :=
    fun h => JsonValue.obj.inj (stringify_injective (List.cons.inj h).2)
  rcases List.append_eq_append_iff.mp heq with ⟨m, hfront, hrest⟩ | ⟨m, hfront, hrest⟩
  · cases m with
    | nil => exact ⟨by simpa using hfront.symm, hsame hrest⟩
    | cons c m => exact absurd (List.cons.inj hrest).2 (stringify_ne_append_stop _ m)
  · cases m with
    | nil => exact ⟨by simpa using hfront, (hsame hrest).symm⟩
    | cons c m => exact absurd (List.cons.inj hrest).2 (stringify_ne_append_stop _ m)

end values
end RedRoomRewards.Text
