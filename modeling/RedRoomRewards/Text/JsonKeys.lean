import RedRoomRewards.Text.Json
import Mathlib.Data.List.Perm.Basic

/-! The keys of objects: how an object gets its fields, and values that differ in the order of
their keys only. -/
namespace RedRoomRewards

abbrev JsonKey := List CodeUnit

/-- `__proto__` names no field: assigning to it sets the object's prototype. -/
def protoKey : JsonKey := [95, 95, 112, 114, 111, 116, 111, 95, 95]

def decimalDigit (u : CodeUnit) : Bool := 48 ≤ u && u ≤ 57

/-- The number that a key writes, when it is an array index in its canonical form. -/
def arrayIndex (key : JsonKey) : Option ℕ :=
  let n := key.foldl (fun n u => n * 10 + (u.toNat - 48)) 0
  if key ≠ [] ∧ key.all decimalDigit ∧ (key.head? = some 48 → key = [48]) ∧ n < 4294967295 then some n else none

section fields
variable {β : Type}

/-- An array index that is smaller. -/
def indexBelow (n : ℕ) (field : JsonKey × β) : Bool := (arrayIndex field.1).any (· < n)

/-- `object[key] = value`: array indices are enumerated first, in ascending order, the other
keys in the order they were made in. -/
def assign (fields : List (JsonKey × β)) (field : JsonKey × β) : List (JsonKey × β) :=
  if field.1 = protoKey then fields
  else if field.1 ∈ fields.map Prod.fst then fields.map fun old => if old.1 = field.1 then field else old
  else match arrayIndex field.1 with
    | some n => fields.takeWhile (indexBelow n) ++ field :: fields.dropWhile (indexBelow n)
    | none => fields ++ [field]

theorem assign_perm {fields : List (JsonKey × β)} {field : JsonKey × β} (hproto : field.1 ≠ protoKey)
    (hnew : field.1 ∉ fields.map Prod.fst) : (assign fields field).Perm (fields ++ [field]) := by
  rw [assign, if_neg hproto, if_neg hnew]
  split
  · next n hindex =>
    have hfront : (fields.takeWhile (indexBelow n) ++ field :: fields.dropWhile (indexBelow n)).Perm
        (field :: (fields.takeWhile (indexBelow n) ++ fields.dropWhile (indexBelow n))) := List.perm_middle
    rw [List.takeWhile_append_dropWhile] at hfront
    exact hfront.trans (List.perm_append_singleton field fields).symm
  · exact List.Perm.refl _

/-- Fields of distinct keys are all there once they are assigned. -/
theorem foldl_assign_perm {news fields : List (JsonKey × β)} (hproto : protoKey ∉ news.map Prod.fst)
    (hkeys : ((fields ++ news).map Prod.fst).Nodup) : (news.foldl assign fields).Perm (fields ++ news) := by
  induction news generalizing fields with
  | nil => rw [List.foldl_nil, List.append_nil]
  | cons field news ih =>
    rw [List.map_cons, List.mem_cons, not_or] at hproto
    have hnew : field.1 ∉ fields.map Prod.fst := by
      rw [List.map_append, List.map_cons] at hkeys
      exact fun hmem => (List.nodup_append.mp hkeys).2.2 _ hmem _ List.mem_cons_self rfl
    have hperm : (assign fields field ++ news).Perm (fields ++ field :: news) := by
      have := (assign_perm (Ne.symm hproto.1) hnew).append_right news
      rwa [List.append_assoc] at this
    exact (ih hproto.2 ((hperm.map Prod.fst).nodup_iff.mpr hkeys)).trans hperm

/-- Where a field is put is for its key to say. -/
theorem assign_map {γ : Type} (f : β → γ) (fields : List (JsonKey × β)) (field : JsonKey × β) :
    assign (fields.map (Prod.map id f)) (Prod.map id f field) = (assign fields field).map (Prod.map id f) := by
  have hkeys : (fields.map (Prod.map id f)).map Prod.fst = fields.map Prod.fst := by
    rw [List.map_map]
    rfl
  have hbelow : ∀ n, indexBelow n ∘ Prod.map id f = (indexBelow n : JsonKey × β → Bool) := fun _ => rfl
  simp only [assign, hkeys, Prod.map_fst, id_eq]
  split_ifs with hproto hold
  · rfl
  · rw [List.map_map, List.map_map]
    apply List.map_congr_left
    intro old _
    simp only [Function.comp_apply, Prod.map_fst, id_eq]
    split_ifs <;> rfl
  · split
    · rw [List.takeWhile_map, List.dropWhile_map, hbelow, List.map_append, List.map_cons]
    · rw [List.map_append, List.map_singleton]

theorem foldl_assign_map {γ : Type} (f : β → γ) (news fields : List (JsonKey × β)) :
    (news.map (Prod.map id f)).foldl assign (fields.map (Prod.map id f)) =
      (news.foldl assign fields).map (Prod.map id f) := by
  induction news generalizing fields with
  | nil => rfl
  | cons field news ih => rw [List.map_cons, List.foldl_cons, List.foldl_cons, assign_map, ih]

end fields

namespace JsonValue

/-- Every object has its keys once, and `__proto__` is none of them. -/
inductive WellFormed : JsonValue → Prop where
  | null : WellFormed .null
  | bool (b : Bool) : WellFormed (.bool b)
  | num (n : NumberText) : WellFormed (.num n)
  | str (s : List CodeUnit) : WellFormed (.str s)
  | arr {items : List JsonValue} (hitems : ∀ v ∈ items, WellFormed v) : WellFormed (.arr items)
  | obj {fields : List (JsonKey × JsonValue)} (hkeys : (fields.map Prod.fst).Nodup)
      (hproto : protoKey ∉ fields.map Prod.fst) (hfields : ∀ field ∈ fields, WellFormed field.2) : WellFormed (.obj fields)

/-- The same value up to the order of the keys, at every depth. -/
inductive Same : JsonValue → JsonValue → Prop where
  | refl (v : JsonValue) : Same v v
  | trans {u v w : JsonValue} : Same u v → Same v w → Same u w
  | item {before after : List JsonValue} {v w : JsonValue} :
      Same v w → Same (.arr (before ++ v :: after)) (.arr (before ++ w :: after))
  | field {before after : List (JsonKey × JsonValue)} {key : JsonKey} {v w : JsonValue} :
      Same v w → Same (.obj (before ++ (key, v) :: after)) (.obj (before ++ (key, w) :: after))
  | reorder {fields fields' : List (JsonKey × JsonValue)} : fields.Perm fields' → Same (.obj fields) (.obj fields')

namespace Same

theorem symm {v w : JsonValue} (h : Same v w) : Same w v := by
  induction h with
  | refl v => exact .refl v
  | trans _ _ ih ih' => exact ih'.trans ih
  | item _ ih => exact .item ih
  | field _ ih => exact .field ih
  | reorder hperm => exact .reorder hperm.symm

theorem items {f : JsonValue → JsonValue} {items : List JsonValue} (h : ∀ v ∈ items, Same v (f v)) (before : List JsonValue) :
    Same (.arr (before ++ items)) (.arr (before ++ items.map f)) := by
  induction items generalizing before with
  | nil => exact .refl _
  | cons v items ih =>
    have hrest := ih (fun v hv => h v (List.mem_cons_of_mem _ hv)) (before ++ [f v])
    simp only [List.append_assoc, List.singleton_append] at hrest
    exact (Same.item (h v List.mem_cons_self)).trans hrest

theorem fields {f : JsonValue → JsonValue} {fields : List (JsonKey × JsonValue)} (h : ∀ field ∈ fields, Same field.2 (f field.2))
    (before : List (JsonKey × JsonValue)) :
    Same (.obj (before ++ fields)) (.obj (before ++ fields.map (Prod.map id f))) := by
  induction fields generalizing before with
  | nil => exact .refl _
  | cons field fields ih =>
    have hrest := ih (fun field hfield => h field (List.mem_cons_of_mem _ hfield)) (before ++ [(field.1, f field.2)])
    simp only [List.append_assoc, List.singleton_append] at hrest
    exact (Same.field (h field List.mem_cons_self)).trans hrest

end Same
end JsonValue
end RedRoomRewards
