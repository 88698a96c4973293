import RedRoomRewards.Text.CodePoints
import Mathlib.Data.List.Basic

/-! Bytes as hexadecimal text: two digits a byte, and back. -/
namespace RedRoomRewards.Text

/-- The digit of a number below 16. -/
def hexDigit (n : ℕ) : CodeUnit := if n < 10 then .ofNat (48 + n) else .ofNat (87 + n)

def hex (bytes : List UInt8) : List CodeUnit :=
  bytes.flatMap fun b => [hexDigit (b.toNat / 16), hexDigit (b.toNat % 16)]

/-- What a digit stands for, in either case. -/
def digitValue (ch : CodeUnit) : Option ℕ :=
  if 48 ≤ ch.toNat ∧ ch.toNat ≤ 57 then some (ch.toNat - 48)
  else if 97 ≤ ch.toNat ∧ ch.toNat ≤ 102 then some (ch.toNat - 87)
  else if 65 ≤ ch.toNat ∧ ch.toNat ≤ 70 then some (ch.toNat - 55)
  else none

/-- `Buffer.from(text, 'hex')`, which stops at the first pair that is not two digits. -/
def fromHex : List CodeUnit → List UInt8
  | a :: b :: rest =>
    match digitValue a, digitValue b with
    | some x, some y => .ofNat (16 * x + y) :: fromHex rest
    | _, _ => []
  | _ => []

theorem hexDigit_toNat {n : ℕ} (h : n < 16) : (hexDigit n).toNat = if n < 10 then 48 + n else 87 + n := by
  unfold hexDigit
  split
  · rw [UInt16.toNat_ofNat_of_lt' (by simp only [UInt16.size]; omega)]
  · rw [UInt16.toNat_ofNat_of_lt' (by simp only [UInt16.size]; omega)]

theorem digitValue_hexDigit {n : ℕ} (h : n < 16) : digitValue (hexDigit n) = some n := by
  unfold digitValue
  rw [hexDigit_toNat h]
  by_cases hsmall : n < 10
  · rw [if_pos hsmall, if_pos (by omega)]
    congr 1
    omega
  · rw [if_neg hsmall, if_neg (by omega), if_pos (by omega)]
    congr 1
    omega

theorem fromHex_hex (bytes : List UInt8) : fromHex (hex bytes) = bytes := by
  induction bytes with
  | nil => rfl
  | cons b bytes ih =>
    have hb := b.toNat_lt
    have hcons : hex (b :: bytes) = hexDigit (b.toNat / 16) :: hexDigit (b.toNat % 16) :: hex bytes := rfl
    have hvalue : 16 * (b.toNat / 16) + b.toNat % 16 = b.toNat := by omega
    rw [hcons, fromHex, digitValue_hexDigit (by omega), digitValue_hexDigit (by omega)]
    simp only [ih, hvalue, UInt8.ofNat_toNat]

theorem hex_injective : Function.Injective hex := fun a b h => by
  rw [← fromHex_hex a, h, fromHex_hex]

theorem mem_hex {bytes : List UInt8} {ch : CodeUnit} (h : ch ∈ hex bytes) : ∃ n < 16, ch = hexDigit n := by
  obtain ⟨b, -, hch⟩ := List.mem_flatMap.mp h
  have hb := b.toNat_lt
  rcases List.mem_pair.mp hch with rfl | rfl
  · exact ⟨_, by omega, rfl⟩
  · exact ⟨_, by omega, rfl⟩

end RedRoomRewards.Text
