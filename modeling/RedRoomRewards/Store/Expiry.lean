import Mathlib.Algebra.Order.Group.Defs
import Mathlib.Data.List.AList

/-! Keys remembered for a time. What is offered is admitted if none of its keys is
remembered, and then its keys are; a tick of the clock forgets the keys that were last
seen more than `ttl` before. -/
namespace RedRoomRewards.Store

/-- The remembered keys, each with the time at which it was seen. -/
abbrev Seen (κ τ : Type) := AList fun _ : κ => τ

namespace Seen
variable {κ τ : Type} [DecidableEq κ]

def mark (keys : List κ) (now : τ) (s : Seen κ τ) : Seen κ τ := keys.foldl (fun s k => s.insert k now) s

theorem lookup_mark (keys : List κ) (now : τ) (s : Seen κ τ) (k : κ) :
    (s.mark keys now).lookup k = if k ∈ keys then some now else s.lookup k := by
  induction keys generalizing s with
  | nil => rfl
  | cons k' keys ih =>
    rw [mark, List.foldl_cons, ← mark, ih]
    by_cases hk : k = k'
    · subst hk
      simp
    · simp [hk, AList.lookup_insert_ne hk]

variable [AddCommGroup τ] [LinearOrder τ]

def forget (ttl now : τ) (s : Seen κ τ) : Seen κ τ where
  entries := s.entries.filter fun x => ¬ ttl < now - x.2
  nodupKeys := s.nodupKeys.sublist List.filter_sublist

theorem mem_lookup_forget {ttl now t : τ} {s : Seen κ τ} {k : κ} :
    t ∈ (s.forget ttl now).lookup k ↔ t ∈ s.lookup k ∧ now - t ≤ ttl := by
  rw [AList.mem_lookup_iff, AList.mem_lookup_iff, forget, List.mem_filter]
  simp

end Seen

section runs
variable {ε κ τ : Type}

/-- What happens at a time: something offered is admitted or refused, or the clock ticks. -/
inductive Occasion (ε τ : Type) where
  | admitted (e : ε) (t : τ)
  | refused (e : ε) (t : τ)
  | ticked (t : τ)

namespace Occasion

def time : Occasion ε τ → τ
  | admitted _ t | refused _ t | ticked t => t

/-- What is offered, whether it is admitted or not. -/
def offer : Occasion ε τ → Option ε
  | admitted e _ | refused e _ => some e
  | ticked _ => none

def tick : Occasion ε τ → Option τ
  | ticked t => some t
  | _ => none

end Occasion

variable [DecidableEq κ] [AddCommGroup τ] [LinearOrder τ]

/-- The remembered keys after occasions in the order of time, newest first. -/
inductive Remembers (keys : ε → List κ) (ttl : τ) : List (Occasion ε τ) → Seen κ τ → Prop
  | start : Remembers keys ttl [] ∅
  | taken {log s} {e : ε} {t : τ} (h : Remembers keys ttl log s) (hclock : ∀ x ∈ log, x.time ≤ t)
      (hnew : ∀ k ∈ keys e, k ∉ s) : Remembers keys ttl (.admitted e t :: log) (s.mark (keys e) t)
  | refuse {log s} {e : ε} {t : τ} (h : Remembers keys ttl log s) (hclock : ∀ x ∈ log, x.time ≤ t)
      (hseen : ∃ k ∈ keys e, k ∈ s) : Remembers keys ttl (.refused e t :: log) s
  | tick {log s} {t : τ} (h : Remembers keys ttl log s) (hclock : ∀ x ∈ log, x.time ≤ t) :
      Remembers keys ttl (.ticked t :: log) (s.forget ttl t)

namespace Remembers
variable {keys : ε → List κ} {ttl : τ} {log : List (Occasion ε τ)} {s : Seen κ τ}

theorem of_suffix {newer older : List (Occasion ε τ)} (h : Remembers keys ttl (newer ++ older) s) :
    ∃ s', Remembers keys ttl older s' := by
  induction newer generalizing s with
  | nil => exact ⟨s, h⟩
  | cons x newer ih =>
    cases h with
    | taken h | refuse h | tick h => exact ih h

/-- The occasions come in the order of time. -/
theorem ordered (h : Remembers keys ttl log s) : log.Pairwise fun new old => old.time ≤ new.time := by
  induction h with
  | start => exact .nil
  | taken _ hclock _ ih | refuse _ hclock _ ih | tick _ hclock ih => exact ih.cons hclock

variable [IsOrderedAddMonoid τ]

/-- A remembered key is one of something admitted at that time, and no tick since came
more than `ttl` later. -/
theorem admitted_of_mem (h : Remembers keys ttl log s) (httl : 0 ≤ ttl) {k : κ} {t : τ} (hk : t ∈ s.lookup k) :
    (∃ e, .admitted e t ∈ log ∧ k ∈ keys e) ∧ ∀ c, .ticked c ∈ log → c - t ≤ ttl := by
  induction h with
  | start => cases hk
  | @taken log s e now _ hclock _ ih =>
    rw [Seen.lookup_mark] at hk
    split at hk
    · rename_i hmem
      obtain rfl : now = t := Option.some.inj hk
      refine ⟨⟨e, .head _, hmem⟩, fun c hc => ?_⟩
      have hle : c ≤ now := hclock _ ((List.mem_cons.mp hc).resolve_left nofun)
      exact (sub_nonpos.mpr hle).trans httl
    · obtain ⟨⟨e', he', hmem⟩, hticks⟩ := ih hk
      exact ⟨⟨e', .tail _ he', hmem⟩, fun c hc => hticks c ((List.mem_cons.mp hc).resolve_left nofun)⟩
  | refuse _ _ _ ih =>
    obtain ⟨⟨e', he', hmem⟩, hticks⟩ := ih hk
    exact ⟨⟨e', .tail _ he', hmem⟩, fun c hc => hticks c ((List.mem_cons.mp hc).resolve_left nofun)⟩
  | tick _ _ ih =>
    obtain ⟨hold, hrecent⟩ := Seen.mem_lookup_forget.mp hk
    obtain ⟨⟨e', he', hmem⟩, hticks⟩ := ih hold
    refine ⟨⟨e', .tail _ he', hmem⟩, fun c hc => ?_⟩
    rcases List.mem_cons.mp hc with heq | hc
    · obtain rfl := Occasion.ticked.inj heq
      exact hrecent
    · exact hticks c hc

/-- A key of something admitted is remembered until a tick comes more than `ttl` later. -/
theorem mem_of_admitted (h : Remembers keys ttl log s) {e : ε} {t : τ} (he : .admitted e t ∈ log) {k : κ}
    (hk : k ∈ keys e) : (∃ t' ∈ s.lookup k, t ≤ t') ∨ ∃ c, .ticked c ∈ log ∧ ttl < c - t := by
  induction h with
  | start => cases he
  | @taken log s e' now _ hclock _ ih =>
    by_cases hmem : k ∈ keys e'
    · refine .inl ⟨now, by rw [Seen.lookup_mark, if_pos hmem]; exact rfl, ?_⟩
      rcases List.mem_cons.mp he with heq | hold
      · obtain ⟨rfl, rfl⟩ := Occasion.admitted.inj heq
        exact le_rfl
      · exact hclock _ hold
    · rw [Seen.lookup_mark, if_neg hmem]
      have hold : .admitted e t ∈ log := by
        rcases List.mem_cons.mp he with heq | hold
        · obtain ⟨rfl, -⟩ := Occasion.admitted.inj heq
          exact absurd hk hmem
        · exact hold
      exact (ih hold).imp_right fun ⟨c, hc, hlate⟩ => ⟨c, .tail _ hc, hlate⟩
  | refuse _ _ _ ih =>
    exact (ih ((List.mem_cons.mp he).resolve_left nofun)).imp_right fun ⟨c, hc, hlate⟩ => ⟨c, .tail _ hc, hlate⟩
  | @tick log s now _ _ ih =>
    rcases ih ((List.mem_cons.mp he).resolve_left nofun) with ⟨t', ht', hle⟩ | ⟨c, hc, hlate⟩
    · by_cases hlate : ttl < now - t'
      · exact .inr ⟨now, .head _, hlate.trans_le (sub_le_sub_left hle now)⟩
      · exact .inl ⟨t', Seen.mem_lookup_forget.mpr ⟨ht', not_lt.mp hlate⟩, hle⟩
    · exact .inr ⟨c, .tail _ hc, hlate⟩

/-- What is admitted shares no key with anything admitted that no late tick has followed. -/
theorem ticked_of_admitted {older : List (Occasion ε τ)} {e e' : ε} {t t' : τ}
    (h : Remembers keys ttl (.admitted e' t' :: older) s) (he : .admitted e t ∈ older) {k : κ} (hk : k ∈ keys e)
    (hk' : k ∈ keys e') : ∃ c, .ticked c ∈ older ∧ ttl < c - t := by
  cases h with
  | taken h _ hnew =>
    refine (h.mem_of_admitted he hk).resolve_left fun ⟨t'', ht'', _⟩ => hnew k hk' ?_
    exact AList.lookup_isSome.mp (Option.isSome_iff_exists.mpr ⟨t'', ht''⟩)

/-- What is refused shares a key with something admitted that no late tick has followed. -/
theorem admitted_of_refused {older : List (Occasion ε τ)} {e' : ε} {t' : τ}
    (h : Remembers keys ttl (.refused e' t' :: older) s) (httl : 0 ≤ ttl) :
    ∃ e t, .admitted e t ∈ older ∧ (∃ k ∈ keys e, k ∈ keys e') ∧ ∀ c, .ticked c ∈ older → c - t ≤ ttl := by
  cases h with
  | refuse h _ hseen =>
    obtain ⟨k, hk', hseen⟩ := hseen
    obtain ⟨t, ht⟩ := Option.isSome_iff_exists.mp (AList.lookup_isSome.mpr hseen)
    obtain ⟨⟨e, he, hk⟩, hticks⟩ := h.admitted_of_mem httl ht
    exact ⟨e, t, he, ⟨k, hk, hk'⟩, hticks⟩

/-- Two things that are admitted and share a key come more than `ttl` apart. -/
theorem apart {newer older : List (Occasion ε τ)} {e e' : ε} {t t' : τ}
    (h : Remembers keys ttl (newer ++ .admitted e' t' :: older) s) (he : .admitted e t ∈ older) {k : κ}
    (hk : k ∈ keys e) (hk' : k ∈ keys e') : ttl < t' - t := by
  obtain ⟨s', hs'⟩ := h.of_suffix
  obtain ⟨c, hc, hlate⟩ := hs'.ticked_of_admitted he hk hk'
  have hle : c ≤ t' := List.rel_of_pairwise_cons hs'.ordered hc
  exact hlate.trans_le (sub_le_sub_right hle t)

/-- Nothing is refused exactly if between any two offers that share a key there is a tick
more than `ttl` after the first. -/
theorem all_admitted_iff (h : Remembers keys ttl log s) (httl : 0 ≤ ttl) : (∀ e t, .refused e t ∉ log) ↔
    ∀ newer x older, log = newer ++ x :: older → ∀ e' ∈ x.offer, ∀ y ∈ older, ∀ e ∈ y.offer,
      (∃ k ∈ keys e, k ∈ keys e') → ∃ c, .ticked c ∈ older ∧ ttl < c - y.time := by
  constructor
  · rintro hnone newer x older rfl e' he' y hy e he ⟨k, hk, hk'⟩
    have hadmitted : ∀ z ∈ newer ++ x :: older, ∀ e ∈ z.offer, z = .admitted e z.time := by
      intro z hz e he
      cases z with
      | admitted e'' t =>
        obtain rfl : e'' = e := Option.some.inj he
        rfl
      | refused e'' t => exact absurd hz (hnone e'' t)
      | ticked t => cases he
    have hx := hadmitted x (by simp) e' he'
    have hy' := hadmitted y (by simp [hy]) e he
    rw [hx] at h
    rw [hy'] at hy
    obtain ⟨s', hs'⟩ := h.of_suffix
    exact hs'.ticked_of_admitted hy hk hk'
  · intro hticks e' t' hmem
    obtain ⟨newer, older, rfl⟩ := List.append_of_mem hmem
    obtain ⟨s', hs'⟩ := h.of_suffix
    obtain ⟨e, t, he, hshared, hrecent⟩ := hs'.admitted_of_refused httl
    obtain ⟨c, hc, hlate⟩ := hticks newer _ older rfl e' rfl _ he e rfl hshared
    exact absurd (hrecent c hc) (not_le.mpr hlate)

end Remembers

end runs
end RedRoomRewards.Store
