import Mathlib.Data.List.Basic

/-! Texts as JavaScript has them, sequences of UTF-16 code units, and the code points of a text: a surrogate pair is one, a surrogate that stands alone is one too. -/
namespace RedRoomRewards

abbrev CodeUnit := UInt16

namespace CodeUnit

def newline : CodeUnit := 10
def doubleQuote : CodeUnit := 34
def singleQuote : CodeUnit := 39
def openParen : CodeUnit := 40
def closeParen : CodeUnit := 41
def asterisk : CodeUnit := 42
def slash : CodeUnit := 47
def openBracket : CodeUnit := 91
def backslash : CodeUnit := 92
def closeBracket : CodeUnit := 93
def backtick : CodeUnit := 96
def openBrace : CodeUnit := 123
def closeBrace : CodeUnit := 125

def Leading (u : CodeUnit) : Prop := 0xD800 ≤ u.toNat ∧ u.toNat ≤ 0xDBFF

def Trailing (u : CodeUnit) : Prop := 0xDC00 ≤ u.toNat ∧ u.toNat ≤ 0xDFFF

instance : DecidablePred Leading := fun _ => inferInstanceAs (Decidable (_ ∧ _))

instance : DecidablePred Trailing := fun _ => inferInstanceAs (Decidable (_ ∧ _))

end CodeUnit

abbrev CodePoint := Fin 0x110000

namespace CodePoint

def ofUnit (u : CodeUnit) : CodePoint := ⟨u.toNat, by have := u.toNat_lt; omega⟩

def ofPair (lead trail : CodeUnit) (h : lead.Leading ∧ trail.Trailing) : CodePoint :=
  ⟨0x10000 + (lead.toNat - 0xD800) * 0x400 + (trail.toNat - 0xDC00), by
    obtain ⟨⟨_, _⟩, _, _⟩ := h
    omega⟩

def ofChar (c : Char) : CodePoint := ⟨c.toNat, by
  rcases c.valid with h | h
  · exact Nat.lt_trans h (by decide)
  · exact h.2⟩

def Surrogate (c : CodePoint) : Prop := 0xD800 ≤ c.val ∧ c.val ≤ 0xDFFF

instance : DecidablePred Surrogate := fun _ => inferInstanceAs (Decidable (_ ∧ _))

/-- The code units a code point is written with. -/
def units (c : CodePoint) : List CodeUnit :=
  if c.val < 0x10000 then [.ofNat c.val]
  else [.ofNat (0xD800 + (c.val - 0x10000) / 0x400), .ofNat (0xDC00 + (c.val - 0x10000) % 0x400)]

theorem units_ofUnit (u : CodeUnit) : (ofUnit u).units = [u] := by
  have hlt : u.toNat < 0x10000 := u.toNat_lt
  rw [units, ofUnit, if_pos hlt, UInt16.ofNat_toNat]

theorem units_ofPair (lead trail : CodeUnit) (h : lead.Leading ∧ trail.Trailing) :
    (ofPair lead trail h).units = [lead, trail] := by
  obtain ⟨⟨hlead, hlead'⟩, htrail, htrail'⟩ := id h
  have hval : (ofPair lead trail h).val = 0x10000 + (lead.toNat - 0xD800) * 0x400 + (trail.toNat - 0xDC00) := rfl
  have hhigh : 0xD800 + ((ofPair lead trail h).val - 0x10000) / 0x400 = lead.toNat := by omega
  have hlow : 0xDC00 + ((ofPair lead trail h).val - 0x10000) % 0x400 = trail.toNat := by omega
  rw [units, if_neg (by omega), hhigh, hlow, UInt16.ofNat_toNat, UInt16.ofNat_toNat]

end CodePoint

def utf16 (s : String) : List CodeUnit := s.toList.flatMap fun c => (CodePoint.ofChar c).units

def codePoints : List CodeUnit → List CodePoint
  | [] => []
  | [u] => [.ofUnit u]
  | u :: next :: rest =>
    if h : u.Leading ∧ next.Trailing then .ofPair u next h :: codePoints rest
    else .ofUnit u :: codePoints (next :: rest)

theorem codePoints_units (s : List CodeUnit) : (codePoints s).flatMap CodePoint.units = s := by
  induction s using codePoints.induct with
  | case1 => rfl
  | case2 u => rw [codePoints, List.flatMap_cons, CodePoint.units_ofUnit, List.flatMap_nil]; rfl
  | case3 u next rest h ih =>
    rw [codePoints, dif_pos h, List.flatMap_cons, CodePoint.units_ofPair, ih]
    rfl
  | case4 u next rest h ih =>
    rw [codePoints, dif_neg h, List.flatMap_cons, CodePoint.units_ofUnit, ih]
    rfl

/-- No two texts have the same code points. -/
theorem codePoints_injective : Function.Injective codePoints := by
  intro s t h
  rw [← codePoints_units s, h, codePoints_units]

end RedRoomRewards
