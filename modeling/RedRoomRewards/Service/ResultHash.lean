import RedRoomRewards.Text.JsonKeys
import RedRoomRewards.Store.StableSort
import RedRoomRewards.Service.WalletController
import Mathlib.Data.List.Lex

/-! The hash of a result, and the serialisation with sorted keys that it is taken of. -/
namespace RedRoomRewards
namespace IdempotencyService
open Store Text

section values
variable (print : ℚ → NumberText)

mutual

/-- The JSON value of a result, its numbers printed by `print`. -/
def jsonValue : Json → JsonValue
  | .undefined | .null => .null
  | .bool b => .bool b
  | .num n => .num (print n)
  | .str s => .str (utf16 s)
  | .date t => .str (utf16 t.toISOString)
  | .arr items => .arr (jsonItems items)
  | .obj fields => .obj (jsonFields fields)

def jsonItems : List Json → List JsonValue
  | [] => []
  | v :: rest => jsonValue v :: jsonItems rest

/-- A field without a value is not written. -/
def jsonFields : List (String × Json) → List (JsonKey × JsonValue)
  | [] => []
  | (_, .undefined) :: rest => jsonFields rest
  | (key, v) :: rest => (utf16 key, jsonValue v) :: jsonFields rest

end
end values

/-- What `sort` compares keys by. -/
def sortUnits (key : JsonKey) : List ℕ := key.map UInt16.toNat

def sortKey {β : Type} (field : JsonKey × β) : List ℕ := sortUnits field.1

/-- The object that the replacer builds: its keys sorted, then assigned one by one. -/
def sorted {β : Type} (value : List (JsonKey × β)) : List (JsonKey × β) :=
  (value.insertionSort fun a b => sortKey a ≤ sortKey b).foldl assign []

mutual

/-- What the replacer makes of a value and of everything in it. -/
def replaced : JsonValue → JsonValue
  | .arr items => .arr (replacedItems items)
  | .obj fields => .obj (sorted (replacedFields fields))
  | .null => .null
  | .bool b => .bool b
  | .num n => .num n
  | .str s => .str s

def replacedItems : List JsonValue → List JsonValue
  | [] => []
  | v :: rest => replaced v :: replacedItems rest

def replacedFields : List (JsonKey × JsonValue) → List (JsonKey × JsonValue)
  | [] => []
  | (key, v) :: rest => (key, replaced v) :: replacedFields rest

end

def stable (result : JsonValue) : String := .ofList (stringify (replaced result))

/-- `sha256` stands for the hexadecimal SHA-256 digest of a text. -/
def hashResult (sha256 : String → String) (result : JsonValue) : String := sha256 (stable result)

def resultHash (sha256 : String → String) (print : ℚ → NumberText) (result : Json) : String :=
  hashResult sha256 (jsonValue print result)

section sorting
variable {β : Type} {value value' : List (JsonKey × β)}

private theorem sortUnits_injective : Function.Injective sortUnits :=
  List.map_injective_iff.mpr fun _ _ h => UInt16.toNat_inj.mp h

/-- The order the keys came in is forgotten. -/
theorem sorted_eq_of_perm (h : value.Perm value') (hkeys : (value.map Prod.fst).Nodup) : sorted value = sorted value' := by
  have hsorted := StableSorted.insertionSort sortKey value
  have hsorted' := StableSorted.insertionSort sortKey value'
  have honly : ∀ a b, a ∈ value.insertionSort (fun a b => sortKey a ≤ sortKey b) →
      b ∈ value'.insertionSort (fun a b => sortKey a ≤ sortKey b) → sortKey a ≤ sortKey b → sortKey b ≤ sortKey a → a = b := by
    intro a b ha hb hab hba
    have hkey : a.1 = b.1 := sortUnits_injective (le_antisymm hab hba)
    have hb' : b ∈ value := h.mem_iff.mpr (hsorted'.perm.mem_iff.mp hb)
    exact List.inj_on_of_nodup_map hkeys (hsorted.perm.mem_iff.mp ha) hb' hkey
  have hperm := (hsorted.perm.trans h).trans hsorted'.perm.symm
  rw [sorted, sorted, hperm.eq_of_pairwise honly hsorted.ordered hsorted'.ordered]

theorem sorted_perm (hkeys : (value.map Prod.fst).Nodup) (hproto : protoKey ∉ value.map Prod.fst) : (sorted value).Perm value := by
  have hperm := List.perm_insertionSort (fun a b : JsonKey × β => sortKey a ≤ sortKey b) value
  have hproto' : protoKey ∉ (value.insertionSort fun a b => sortKey a ≤ sortKey b).map Prod.fst :=
    fun hmem => hproto ((hperm.map Prod.fst).mem_iff.mp hmem)
  have hkeys' : (([] ++ value.insertionSort fun a b => sortKey a ≤ sortKey b).map Prod.fst).Nodup :=
    (hperm.map Prod.fst).nodup_iff.mpr hkeys
  exact (foldl_assign_perm hproto' hkeys').trans hperm

theorem sorted_map {γ : Type} (f : β → γ) (value : List (JsonKey × β)) :
    sorted (value.map (Prod.map id f)) = (sorted value).map (Prod.map id f) := by
  have hsort := List.map_insertionSort (fun a b : JsonKey × β => sortKey a ≤ sortKey b)
    (fun a b : JsonKey × γ => sortKey a ≤ sortKey b) (Prod.map id f) value (fun _ _ _ _ => Iff.rfl)
  rw [sorted, ← hsort, ← List.map_nil, foldl_assign_map, sorted]

end sorting

theorem replaced_arr (items : List JsonValue) : replaced (.arr items) = .arr (items.map replaced) := by
  have hitems : replacedItems items = items.map replaced := by
    induction items with
    | nil => rfl
    | cons v rest ih => rw [replacedItems, ih, List.map_cons]
  rw [replaced, hitems]

/-- The replacer is called for the fields of the object that it has built. -/
theorem replaced_obj (fields : List (JsonKey × JsonValue)) :
    replaced (.obj fields) = .obj ((sorted fields).map (Prod.map id replaced)) := by
  have hfields : replacedFields fields = fields.map (Prod.map id replaced) := by
    induction fields with
    | nil => rfl
    | cons field rest ih => rw [replacedFields, ih, List.map_cons, Prod.map, id]
  rw [replaced, hfields, sorted_map]

theorem stable_eq_iff (a b : JsonValue) : stable a = stable b ↔ replaced a = replaced b := by
  constructor
  · intro h
    exact stringify_injective (String.ofList_injective h)
  · intro h
    rw [stable, stable, h]
end IdempotencyService
end RedRoomRewards
