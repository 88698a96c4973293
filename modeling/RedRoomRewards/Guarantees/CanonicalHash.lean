import RedRoomRewards.Process.Program
import RedRoomRewards.Service.ResultHash

/-! The hash of a stored result tells values apart up to the order of their keys. -/
namespace RedRoomRewards
namespace IdempotencyService
open JsonValue Text Process Prog

/-- Replacing reorders the keys of a value, and nothing else. -/
theorem same_replaced {v : JsonValue} (hv : v.WellFormed) : v.Same (replaced v) := by
  induction hv with
  | null | bool | num | str => exact .refl _
  | arr _ ih =>
    rw [replaced_arr]
    exact Same.items ih []
  | obj hkeys hproto _ ih =>
    rw [replaced_obj]
    have hperm := sorted_perm hkeys hproto
    apply (Same.reorder hperm.symm).trans
    exact Same.fields (fun field hfield => ih field (hperm.mem_iff.mp hfield)) []

/-- Values that differ in the order of their keys only are replaced by the same value. -/
theorem replaced_eq_of_same {v w : JsonValue} (h : v.Same w) (hv : v.WellFormed) : w.WellFormed ∧ replaced v = replaced w := by
  induction h with
  | refl v => exact ⟨hv, rfl⟩
  | trans _ _ ih ih' =>
    obtain ⟨hmid, heq⟩ := ih hv
    obtain ⟨hw, heq'⟩ := ih' hmid
    exact ⟨hw, heq.trans heq'⟩
  | item _ ih =>
    cases hv with
    | arr hitems =>
      obtain ⟨hbefore, hitems⟩ := List.forall_mem_append.mp hitems
      obtain ⟨hv, hafter⟩ := List.forall_mem_cons.mp hitems
      obtain ⟨hw, heq⟩ := ih hv
      constructor
      · exact .arr (List.forall_mem_append.mpr ⟨hbefore, List.forall_mem_cons.mpr ⟨hw, hafter⟩⟩)
      · simp only [replaced_arr, List.map_append, List.map_cons, heq]
  | field _ ih =>
    cases hv with
    | obj hkeys hproto hfields =>
      obtain ⟨hbefore, hfields⟩ := List.forall_mem_append.mp hfields
      obtain ⟨hv, hafter⟩ := List.forall_mem_cons.mp hfields
      obtain ⟨hw, heq⟩ := ih hv
      rw [List.map_append, List.map_cons] at hkeys hproto
      constructor
      · apply WellFormed.obj
        · rwa [List.map_append, List.map_cons]
        · rwa [List.map_append, List.map_cons]
        · exact List.forall_mem_append.mpr ⟨hbefore, List.forall_mem_cons.mpr ⟨hw, hafter⟩⟩
      · rw [replaced_obj, replaced_obj, ← sorted_map, ← sorted_map]
        simp only [List.map_append, List.map_cons, Prod.map, heq]
  | reorder hperm =>
    cases hv with
    | obj hkeys hproto hfields =>
      have hkeys' := (hperm.map Prod.fst).nodup_iff.mp hkeys
      have hproto' : protoKey ∉ _ := fun hmem => hproto ((hperm.map Prod.fst).mem_iff.mpr hmem)
      constructor
      · exact .obj hkeys' hproto' fun field hfield => hfields field (hperm.mem_iff.mpr hfield)
      · rw [replaced_obj, replaced_obj, sorted_eq_of_perm hperm hkeys]

/-- Two values are hashed alike exactly when they are the same up to the order of the keys at
every depth; `recordKey` stores the hash of the result's value. -/
theorem canonical_hash_iff {sha256 : String → String} (hinjective : Function.Injective sha256) :
    (∀ a b : JsonValue, a.WellFormed → b.WellFormed → (hashResult sha256 a = hashResult sha256 b ↔ a.Same b)) ∧
      ∀ (print : ℚ → NumberText) (key tenantId operation : String) (result : Json),
        (recordKey (resultHash sha256 print) key tenantId operation result).Issues fun c : Cmd => ∀ record,
          c = .createIdempotencyRecord record → record.resultHash = hashResult sha256 (jsonValue print result) := by
  constructor
  · intro a b ha hb
    rw [hashResult, hashResult, hinjective.eq_iff, stable_eq_iff]
    constructor
    · intro heq
      exact (same_replaced ha).trans (heq ▸ (same_replaced hb).symm)
    · intro hsame
      exact (replaced_eq_of_same hsame ha).2
  · intro print key tenantId operation result
    refine ⟨fun record hrecord => ?_, fun reply => ?_⟩
    · cases hrecord
      rfl
    · cases reply <;> trivial

private def two : NumberText := ⟨['2'], by decide, List.forall_mem_singleton.mpr (by decide)⟩

/-- A nested result with the array indices 10 and 9 for its keys. -/
private def nested : JsonValue := .obj [([49, 48], .arr [.obj [([100], .null), ([99], .str [120])]]), ([57], .num two)]

private def reordered : JsonValue := .obj [([57], .num two), ([49, 48], .arr [.obj [([99], .str [120]), ([100], .null)]])]

private def nestedText : String := "\x7b\"9\":2,\"10\":[\x7b\"c\":\"x\",\"d\":null\x7d]\x7d"

private def nestedDigest : String := "a075299027bc57a5b94beaaf2cd569b98e8b4a0faded80d28c349530bcbdfedf"

/-- SHA-256 on one text, and no digest of it on any other. -/
private def sampleDigest (text : String) : String := if text = nestedText then nestedDigest else "-" ++ text

private theorem sampleDigest_injective : Function.Injective sampleDigest := by
  have hmarked : ∀ text : String, ("-" ++ text).toList = '-' :: text.toList := by
    intro text
    rw [String.toList_append]
    rfl
  have hapart : ∀ text, nestedDigest ≠ "-" ++ text := by
    intro text heq
    have hchars := congrArg String.toList heq
    rw [hmarked] at hchars
    exact absurd (List.cons.inj hchars).1 (by decide)
  intro text text' heq
  unfold sampleDigest at heq
  split_ifs at heq with h h' h'
  · rw [h, h']
  · exact absurd heq (hapart text')
  · exact absurd heq.symm (hapart text)
  · have hchars := congrArg String.toList heq
    rw [hmarked, hmarked] at hchars
    exact String.toList_injective (List.cons.inj hchars).2

private theorem nested_wellFormed : nested.WellFormed := by
  have hinner : (JsonValue.obj [([100], .null), ([99], .str [120])]).WellFormed := by
    apply WellFormed.obj (by decide) (by decide)
    exact List.forall_mem_cons.mpr ⟨.null, List.forall_mem_singleton.mpr (.str _)⟩
  apply WellFormed.obj (by decide) (by decide)
  exact List.forall_mem_cons.mpr ⟨.arr (List.forall_mem_singleton.mpr hinner), List.forall_mem_singleton.mpr (.num two)⟩

private theorem reordered_same : nested.Same reordered := by
  have hinner : (JsonValue.obj [([100], .null), ([99], .str [120])]).Same (.obj [([99], .str [120]), ([100], .null)]) :=
    .reorder (.swap _ _ _)
  have hfield := @Same.field [] [([57], .num two)] [49, 48] _ _ (@Same.item [] [] _ _ hinner)
  exact hfield.trans (.reorder (.swap _ _ _))

theorem nested_hashed_alike : stable nested = nestedText ∧
    hashResult sampleDigest nested = hashResult sampleDigest reordered := by
  have hreordered := (replaced_eq_of_same reordered_same nested_wellFormed).1
  exact ⟨by decide, ((canonical_hash_iff sampleDigest_injective).1 nested reordered nested_wellFormed hreordered).mpr reordered_same⟩

end IdempotencyService
end RedRoomRewards
