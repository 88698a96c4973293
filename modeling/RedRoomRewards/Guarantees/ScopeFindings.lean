import RedRoomRewards.Ci.TenantScope
import RedRoomRewards.Text.Joined

/-! What the tenant scope check finds: the calls of query methods whose arguments do not
mention the tenant, in every file that it reads. -/
namespace RedRoomRewards.TenantScopeCheck
open Text CodeUnit RegExp

section calls

/-- `[A-Z][A-Za-z0-9_]*Model`. -/
def IsModel (name : List CodeUnit) : Prop :=
  ∃ c rest, name = c :: (rest ++ utf16 "Model") ∧ upper c = true ∧ ∀ a ∈ rest, word a = true

/-- A text cut at a call of a query method, up to behind its parenthesis. -/
@[ext] structure CallSite where
  before : List CodeUnit
  model : List CodeUnit
  method : List CodeUnit
  blank : List CodeUnit
  after : List CodeUnit

namespace CallSite

/-- `Model.method (`. -/
def call (site : CallSite) : List CodeUnit :=
  site.model ++ fullStop :: (site.method ++ (site.blank ++ [openParen]))

/-- What stands in front of the parenthesis. -/
def front (site : CallSite) : List CodeUnit :=
  site.before ++ (site.model ++ fullStop :: (site.method ++ site.blank))

structure In (site : CallSite) (source : List CodeUnit) : Prop where
  reads : source = site.before ++ (site.call ++ site.after)
  starts : site.before.getLast?.any word = false
  model : IsModel site.model
  method : site.method ∈ queryMethods
  blank : ∀ c ∈ site.blank, space c = true

/-- Where the parenthesis stands. -/
def openAt (site : CallSite) : ℕ := site.front.length

end CallSite

/-- `tenant_id` stands in the text as a word. -/
def MentionsTenant (args : List CodeUnit) : Prop :=
  ∃ u v, args = u ++ (utf16 "tenant_id" ++ v) ∧ u.getLast?.any word = false ∧ v.head?.any word = false

/-- The parenthesis of the call is closed, and no tenant is mentioned in between. -/
def CallSite.Unscoped (site : CallSite) (source : List CodeUnit) : Prop :=
  ∃ args rest, site.after = args ++ closeParen :: rest ∧
    matchClosingParen source site.openAt = site.openAt + 1 + args.length ∧ ¬ MentionsTenant args

/-- What is reported of the call. -/
def CallSite.finding (site : CallSite) (rel : List CodeUnit) : Violation :=
  ⟨rel, 1 + site.before.count newline, site.model, site.method⟩

end calls

section matching
variable {x y : Place CodeUnit}

private theorem word_of_upper {c : CodeUnit} (h : upper c = true) : word c = true := by
  simp [word, h]

private theorem word_model : ∀ c ∈ utf16 "Model", word c = true :=
  List.all_eq_true.mp (show (utf16 "Model").all word = true by decide)

private theorem word_method : ∀ method ∈ queryMethods, method ≠ [] ∧ ∀ c ∈ method, word c = true := by
  have hall : (queryMethods.all fun method => !method.isEmpty && method.all word) = true := by decide
  intro method hmethod
  obtain ⟨hne, hword⟩ := Bool.and_eq_true_iff.mp (List.all_eq_true.mp hall method hmethod)
  exact ⟨by simpa using hne, List.all_eq_true.mp hword⟩

private theorem lower_method : ∀ method ∈ queryMethods, ∀ c ∈ method.head?, upper c = false := by
  have hall : (queryMethods.all fun method => !method.head?.any upper) = true := by decide
  intro method hmethod c hc
  have hhead := List.all_eq_true.mp hall method hmethod
  rw [Option.mem_def.mp hc, Option.any_some, Bool.not_eq_true'] at hhead
  exact hhead

private theorem mem_ends_name : y ∈ (seqs [unit upper, many word, text (utf16 "Model")]).ends x ↔
    ∃ name rest, x.after = name ++ rest ∧ IsModel name ∧ y = x.behind name rest := by
  simp only [seqs, List.foldr_cons, List.foldr_nil, mem_ends_seq, mem_ends_unit, mem_ends_many, mem_ends_text,
    mem_ends_empty]
  constructor
  · rintro ⟨_, ⟨c, rest, hafter, hc, rfl⟩, _, ⟨w, rest', hrest, hw, rfl⟩, _, ⟨rest'', hrest', rfl⟩, rfl⟩
    rw [Place.behind_after] at hrest hrest'
    refine ⟨c :: (w ++ utf16 "Model"), rest'', ?_, ⟨c, w, rfl, hc, hw⟩, ?_⟩
    · rw [hafter, hrest, hrest', List.cons_append, List.append_assoc]
    · rw [Place.behind_behind, Place.behind_behind]
      rfl
  · rintro ⟨_, rest, hafter, ⟨c, w, rfl, hc, hw⟩, rfl⟩
    rw [List.cons_append, List.append_assoc] at hafter
    refine ⟨_, ⟨c, _, hafter, hc, rfl⟩, _, ⟨w, _, rfl, hw, rfl⟩, _, ⟨rest, rfl, rfl⟩, ?_⟩
    rw [Place.behind_behind, Place.behind_behind]
    rfl

private theorem mem_ends_method : y ∈ (alts (queryMethods.map text)).ends x ↔
    ∃ method rest, x.after = method ++ rest ∧ method ∈ queryMethods ∧ y = x.behind method rest := by
  rw [mem_ends_alts]
  constructor
  · rintro ⟨r, hr, hy⟩
    obtain ⟨method, hmethod, rfl⟩ := List.mem_map.mp hr
    obtain ⟨rest, hafter, rfl⟩ := mem_ends_text.mp hy
    exact ⟨method, rest, hafter, hmethod, rfl⟩
  · rintro ⟨method, rest, hafter, hmethod, rfl⟩
    exact ⟨text method, List.mem_map_of_mem hmethod, mem_ends_text.mpr ⟨rest, hafter, rfl⟩⟩

/-- Where the call pattern matches, and what its groups capture. -/
private theorem mem_ends_callPattern : y ∈ callPattern.ends x ↔
    (x.before.head?.any word != x.after.head?.any word) = true ∧
    ∃ site : CallSite, x.after = site.call ++ site.after ∧ IsModel site.model ∧ site.method ∈ queryMethods ∧
      (∀ c ∈ site.blank, space c = true) ∧
      y = ⟨site.call.reverse ++ x.before, site.after, [(2, site.method), (1, site.model)] ++ x.captures⟩ := by
  rw [callPattern, seqs, List.foldr_cons, mem_ends_seq, List.foldr_cons]
  simp only [boundary, mem_ends_assertion, List.foldr_cons, List.foldr_nil, mem_ends_seq, mem_ends_group, mem_ends_name, mem_ends_method, mem_ends_many, mem_ends_text,
    mem_ends_empty]
  constructor
  · rintro ⟨_, ⟨rfl, hstarts⟩, _, ⟨_, ⟨model, rest, hafter, hmodel, rfl⟩, rfl⟩, _, ⟨rest₁, hstop, rfl⟩, _,
      ⟨_, ⟨method, rest₂, hrest₁, hmethod, rfl⟩, rfl⟩, _, ⟨blank, rest₃, hrest₂, hblank, rfl⟩, _, ⟨rest₄, hrest₃, rfl⟩, rfl⟩
    refine ⟨hstarts, ⟨[], model, method, blank, rest₄⟩, ?_, hmodel, hmethod, hblank, ?_⟩
    · simp only [Place.behind_after, Place.capture_after] at hstop hrest₁ hrest₂ hrest₃
      simp [CallSite.call, hafter, hstop, hrest₁, hrest₂, hrest₃]
    · simp [CallSite.call, Place.capture, Place.behind, Place.passed]
  · rintro ⟨hstarts, ⟨_, model, method, blank, rest⟩, hafter, hmodel, hmethod, hblank, rfl⟩
    simp only [CallSite.call, List.append_assoc, List.cons_append, List.nil_append] at hafter
    refine ⟨x, ⟨rfl, hstarts⟩, _, ⟨_, ⟨model, _, hafter, hmodel, rfl⟩, rfl⟩, _, ⟨_, rfl, rfl⟩, _,
      ⟨_, ⟨method, _, rfl, hmethod, rfl⟩, rfl⟩, _, ⟨blank, _, rfl, hblank, rfl⟩, _, ⟨rest, rfl, rfl⟩, ?_⟩
    simp [CallSite.call, Place.capture, Place.behind, Place.passed]

end matching

section sites
variable {site site' : CallSite} {source : List CodeUnit}

private theorem not_word_of_space {c : CodeUnit} (h : space c = true) : word c = false := by
  rw [space, Bool.or_eq_true, decide_eq_true_iff, Bool.and_eq_true, decide_eq_true_iff, decide_eq_true_iff] at h
  rcases h with hmem | ⟨hlow, -⟩
  · have hall : ([9, 10, 11, 12, 13, 32, 0xA0, 0x1680, 0x2028, 0x2029, 0x202F, 0x205F, 0x3000, 0xFEFF].all
        fun c : CodeUnit => !word c) = true := by decide
    exact Bool.not_eq_true' _ ▸ List.all_eq_true.mp hall c hmem
  · have hlow : 0x2000 ≤ c.toNat := UInt16.le_iff_toNat_le.mp hlow
    have hbig : ∀ n : CodeUnit, n.toNat < 0x2000 → ¬ c ≤ n := by
      intro n hn hle
      have := UInt16.le_iff_toNat_le.mp hle
      omega
    have hne : c ≠ 95 := by
      rintro rfl
      exact absurd hlow (by decide)
    simp [word, upper, hbig 90 (by decide), hbig 122 (by decide), hbig 57 (by decide), hne]

private theorem IsModel.word {name : List CodeUnit} (h : IsModel name) : name ≠ [] ∧ ∀ c ∈ name, word c = true := by
  obtain ⟨c, rest, rfl, hc, hrest⟩ := h
  refine ⟨List.cons_ne_nil _ _, ?_⟩
  intro a ha
  rcases List.mem_cons.mp ha with rfl | ha
  · exact word_of_upper hc
  · rcases List.mem_append.mp ha with ha | ha
    · exact hrest a ha
    · exact word_model a ha

/-- The match that begins with the call. -/
def CallSite.places (site : CallSite) : Place CodeUnit × Place CodeUnit :=
  (⟨site.before.reverse, site.call ++ site.after, []⟩,
    ⟨site.call.reverse ++ site.before.reverse, site.after, [(2, site.method), (1, site.model)]⟩)

/-- What follows the method. -/
private theorem behind_method (hblank : ∀ c ∈ site.blank, space c = true) :
    ∃ a rest, site.blank ++ openParen :: site.after = a :: rest ∧ word a ≠ true := by
  cases hsite : site.blank with
  | nil => exact ⟨openParen, site.after, rfl, by decide⟩
  | cons a blank =>
    refine ⟨a, blank ++ openParen :: site.after, rfl, ?_⟩
    rw [not_word_of_space (hblank a (by rw [hsite]; exact .head _))]
    decide

/-- A text begins with at most one call. -/
private theorem call_unique (hmodel : IsModel site.model) (hmodel' : IsModel site'.model)
    (hmethod : site.method ∈ queryMethods) (hmethod' : site'.method ∈ queryMethods)
    (hblank : ∀ c ∈ site.blank, space c = true) (hblank' : ∀ c ∈ site'.blank, space c = true)
    (h : site.call ++ site.after = site'.call ++ site'.after) :
    site.model = site'.model ∧ site.method = site'.method ∧ site.blank = site'.blank ∧ site.after = site'.after := by
  simp only [CallSite.call, List.append_assoc, List.cons_append, List.nil_append] at h
  have hstop : ¬ word fullStop = true := by decide
  obtain ⟨hmodels, -, h⟩ := first_break (p := fun c => word c = true) hstop hstop hmodel.word.2 hmodel'.word.2 h
  obtain ⟨a, rest, hrest, ha⟩ := behind_method hblank
  obtain ⟨a', rest', hrest', ha'⟩ := behind_method hblank'
  rw [hrest, hrest'] at h
  obtain ⟨hmethods, rfl, rfl⟩ := first_break (p := fun c => word c = true) ha ha' (word_method _ hmethod).2 (word_method _ hmethod').2 h
  rw [← hrest'] at hrest
  have hparen : ¬ space openParen = true := by decide
  obtain ⟨hblanks, -, hafter⟩ := first_break (p := fun c => space c = true) hparen hparen hblank hblank' hrest
  exact ⟨hmodels, hmethods, hblanks, hafter⟩

theorem mem_sites_callPattern {m : Place CodeUnit × Place CodeUnit} :
    m ∈ callPattern.sites [] source ↔ ∃ site : CallSite, site.In source ∧ m = site.places := by
  obtain ⟨x, y⟩ := m
  rw [mem_sites]
  constructor
  · rintro ⟨⟨w, rest, rfl, rfl⟩, hy⟩
    rw [List.append_nil] at hy ⊢
    obtain ⟨hstarts, site, hafter, hmodel, hmethod, hblank, rfl⟩ := mem_ends_callPattern.mp (List.mem_of_mem_head? hy)
    refine ⟨{ site with before := w }, ⟨?_, ?_, hmodel, hmethod, hblank⟩, ?_⟩
    · exact congrArg (w ++ ·) hafter
    · obtain ⟨c, name, hname, hc, -⟩ := hmodel
      have hhead : rest.head? = some c := by
        rw [show rest = _ from hafter, CallSite.call, hname]
        rfl
      simpa [hhead, word_of_upper hc] using hstarts
    · rw [show rest = _ from hafter]
      rfl
  · rintro ⟨site, ⟨rfl, hstarts, hmodel, hmethod, hblank⟩, heq⟩
    obtain ⟨rfl, rfl⟩ := Prod.mk.inj heq
    refine ⟨⟨site.before, _, rfl, by rw [List.append_nil]⟩, ?_⟩
    have hends : ∀ y ∈ callPattern.ends ⟨site.before.reverse, site.call ++ site.after, []⟩, y = site.places.2 := by
      intro y hy
      obtain ⟨-, site', hafter, hmodel', hmethod', hblank', rfl⟩ := mem_ends_callPattern.mp hy
      obtain ⟨hmodels, hmethods, hblanks, hafters⟩ := call_unique hmodel hmodel' hmethod hmethod' hblank hblank' hafter
      simp only [CallSite.places, CallSite.call, hmodels, hmethods, hblanks, hafters, List.append_nil]
    have hmem : site.places.2 ∈ callPattern.ends ⟨site.before.reverse, site.call ++ site.after, []⟩ := by
      refine mem_ends_callPattern.mpr ⟨?_, site, rfl, hmodel, hmethod, hblank, rfl⟩
      obtain ⟨c, name, hname, hc, -⟩ := hmodel
      have hhead : (site.call ++ site.after).head? = some c := by
        rw [CallSite.call, hname]
        rfl
      simp [hhead, word_of_upper hc, hstarts]
    obtain ⟨y, hy⟩ := Option.isSome_iff_exists.mp (List.isSome_head?.mpr (List.ne_nil_of_mem hmem))
    rw [hy, hends y (List.mem_of_mem_head? hy)]
    rfl

/-- Within a call, no capital letter stands behind a unit that is not of a word. -/
private theorem within_call (h : site.In source) {u v : List CodeUnit} {c : CodeUnit} (hcall : site.call = u ++ c :: v)
    (hne : u ≠ []) (hlast : u.getLast?.any word = false) : upper c = false := by
  have hnot : ∀ part : List CodeUnit, (∀ a ∈ part, word a = true) → part ≠ [] → ¬ part <:+ u := by
    intro part hpart hpart' hsuffix
    obtain ⟨front, rfl⟩ := hsuffix
    rw [List.getLast?_append_of_ne_nil _ hpart', List.getLast?_eq_some_getLast hpart', Option.any_some,
      hpart _ (List.getLast_mem hpart')] at hlast
    cases hlast
  obtain ⟨hmodel, hword⟩ := h.model.word
  obtain ⟨hmethod, hword'⟩ := word_method _ h.method
  rw [CallSite.call] at hcall
  rcases List.append_eq_append_iff.mp hcall with ⟨m, rfl, hm⟩ | ⟨m, hm, -⟩
  · cases m with
    | nil => exact absurd (by simp) (hnot _ hword hmodel)
    | cons a m =>
      obtain ⟨rfl, htail⟩ := List.cons.inj hm
      rcases List.append_eq_append_iff.mp htail with ⟨k, rfl, hk⟩ | ⟨k, hk, hrest⟩
      · have hmem : c ∈ site.blank ++ [openParen] := hk ▸ List.mem_append_right _ (.head _)
        have hplain : word c = false := by
          rcases List.mem_append.mp hmem with hblank | hparen
          · exact not_word_of_space (h.blank c hblank)
          · rw [List.mem_singleton.mp hparen]
            decide
        exact Bool.eq_false_iff.mpr fun hup => by rw [word_of_upper hup] at hplain; cases hplain
      · cases m with
        | nil =>
          have hhead : site.method.head? = some c := by
            cases k with
            | nil => exact absurd hk hmethod
            | cons d k =>
              rw [hk, (List.cons.inj hrest).1]
              rfl
          exact lower_method _ h.method c hhead
        | cons a m =>
          refine absurd ?_ (hnot (a :: m) (fun b hb => hword' b (hk ▸ List.mem_append_left _ hb)) (List.cons_ne_nil _ _))
          exact ⟨site.model ++ [fullStop], by simp⟩
  · refine absurd (List.suffix_refl u) (hnot u (fun a ha => hword a ?_) hne)
    rw [hm]
    exact List.mem_append_left _ ha

private theorem apart_callPattern (source : List CodeUnit) : callPattern.Apart source where
  nonempty := by
    intro x y hy
    obtain ⟨-, site, -, -, -, -, rfl⟩ := mem_ends_callPattern.mp hy
    simp [CallSite.call]
    omega
  separate := by
    intro m m' hm hm' hlater
    obtain ⟨site, h, rfl⟩ := mem_sites_callPattern.mp hm
    obtain ⟨site', h', rfl⟩ := mem_sites_callPattern.mp hm'
    simp only [CallSite.places, List.length_reverse, List.length_append] at hlater ⊢
    by_contra hwithin
    -- the later call would begin within the earlier one
    have hreads := h.reads.symm.trans h'.reads
    rcases List.append_eq_append_iff.mp hreads with ⟨u, hu, hrest⟩ | ⟨u, hu, -⟩
    · rcases List.append_eq_append_iff.mp hrest with ⟨v, hv, -⟩ | ⟨v, hv, hrest'⟩
      · have := congrArg List.length hu
        have := congrArg List.length hv
        simp only [List.length_append] at *
        omega
      · obtain ⟨c, name, hname, hc, -⟩ := h'.model
        have hlength : u.length ≠ 0 := by
          have := congrArg List.length hu
          simp only [List.length_append] at this
          omega
        cases v with
        | nil =>
          have := congrArg List.length hu
          have := congrArg List.length hv
          simp only [List.length_append, List.length_nil] at *
          omega
        | cons d v =>
          have hd : d = c := by
            rw [CallSite.call, hname] at hrest'
            exact (List.cons.inj hrest').1.symm
          have hne : u ≠ [] := fun hnil => hlength (by rw [hnil]; rfl)
          have hstarts := h'.starts
          rw [hu, List.getLast?_append_of_ne_nil _ hne] at hstarts
          rw [hd] at hv
          rw [within_call h hv hne hstarts] at hc
          cases hc
    · have := congrArg List.length hu
      simp only [List.length_append] at this
      omega

end sites

section findings
variable {site : CallSite} {source rel : List CodeUnit}

private theorem iteration_found {st : ScanState} {ch : CodeUnit} {next : Option CodeUnit}
    (h : iteration st ch next = .found) : ch = closeParen := by
  by_contra hother
  have hbranches : ∀ {p : Prop} [Decidable p] {a b : Iteration}, a ≠ .found → b ≠ .found →
      (if p then a else b) ≠ .found := by
    intro p _ a b ha hb
    by_cases hp : p
    · rwa [if_pos hp]
    · rwa [if_neg hp]
  revert h
  unfold iteration
  rw [if_neg hother]
  repeat' apply hbranches
  all_goals exact fun h => by cases h

/-- The scanner returns -1 or the place of a parenthesis. -/
private theorem scan_cases (text : List CodeUnit) : ∀ (skip : Bool) (st : ScanState) (i : ℕ), scan skip st i text = -1 ∨
    ∃ pre rest, text = pre ++ closeParen :: rest ∧ scan skip st i text = i + pre.length := by
  induction text with
  | nil =>
    intro skip st i
    cases skip <;> exact .inl rfl
  | cons ch text ih =>
    intro skip st i
    have hlater : ∀ skip st', scan skip st' (i + 1) text = -1 ∨ ∃ pre rest, ch :: text = pre ++ closeParen :: rest ∧
        scan skip st' (i + 1) text = i + pre.length := by
      intro skip st'
      rcases ih skip st' (i + 1) with hnone | ⟨pre, rest, rfl, hfound⟩
      · exact .inl hnone
      · refine .inr ⟨ch :: pre, rest, rfl, hfound.trans ?_⟩
        simp only [List.length_cons]
        omega
    cases skip with
    | true => exact hlater false st
    | false =>
      rw [scan]
      split
      · exact hlater false _
      · exact hlater true _
      · rename_i hfound
        exact .inr ⟨[], text, by rw [iteration_found hfound]; rfl, by simp⟩

private theorem lineFor_eq (source : List CodeUnit) (idx : ℕ) : lineFor source idx = 1 + (source.take idx).count newline := by
  have hfold : ∀ (l : List CodeUnit) (line : ℕ),
      l.foldl (fun line c => if c = newline then line + 1 else line) line = line + l.count newline := by
    intro l
    induction l with
    | nil => exact fun line => rfl
    | cons c l ih =>
      intro line
      rw [List.foldl_cons, ih, List.count_cons]
      by_cases hc : c = newline
      · simp [hc]
        omega
      · simp [hc]
  exact hfold _ _

/-- The test for the word in the arguments. -/
theorem tenantPattern_test (args : List CodeUnit) : tenantPattern.test args = true ↔ MentionsTenant args := by
  rw [test_iff]
  constructor
  · rintro ⟨u, rest, rfl, hne⟩
    obtain ⟨y, hy⟩ := List.exists_mem_of_ne_nil _ hne
    simp only [tenantPattern, seqs, List.foldr_cons, List.foldr_nil, mem_ends_seq, boundary, mem_ends_assertion,
      mem_ends_text, mem_ends_empty] at hy
    obtain ⟨_, ⟨rfl, hstarts⟩, _, ⟨v, rfl, rfl⟩, _, ⟨rfl, hstops⟩, rfl⟩ := hy
    refine ⟨u, v, rfl, ?_, ?_⟩
    · have hhead : (utf16 "tenant_id" ++ v).head? = some 116 := rfl
      simpa [hhead, show word 116 = true by decide] using hstarts
    · have hbefore : ((utf16 "tenant_id").reverse ++ u.reverse).head? = some 100 := rfl
      simp only [Place.behind_before, Place.behind_after, hbefore, Option.any_some, show word 100 = true by decide] at hstops
      simpa using hstops
  · rintro ⟨u, v, rfl, hstarts, hstops⟩
    refine ⟨u, utf16 "tenant_id" ++ v, rfl, List.ne_nil_of_mem (a := ?_) ?_⟩
    · exact Place.behind ⟨u.reverse, utf16 "tenant_id" ++ v, []⟩ (utf16 "tenant_id") v
    · simp only [tenantPattern, seqs, List.foldr_cons, List.foldr_nil, mem_ends_seq, boundary, mem_ends_assertion,
        mem_ends_text, mem_ends_empty]
      refine ⟨_, ⟨rfl, ?_⟩, _, ⟨v, rfl, rfl⟩, _, ⟨rfl, ?_⟩, rfl⟩
      · have hhead : (utf16 "tenant_id" ++ v).head? = some 116 := rfl
        simp [hhead, show word 116 = true by decide, hstarts]
      · have hbefore : ((utf16 "tenant_id").reverse ++ u.reverse).head? = some 100 := rfl
        simp [hbefore, show word 100 = true by decide, hstops]

private theorem front_call (site : CallSite) : site.before ++ site.call = site.front ++ [openParen] := by
  simp [CallSite.call, CallSite.front]

private theorem In.split (h : site.In source) : source = site.front ++ openParen :: site.after := by
  rw [h.reads, ← List.append_assoc, front_call, List.append_assoc]
  rfl

private theorem In.drop (h : site.In source) : source.drop (site.openAt + 1) = site.after := by
  rw [In.split h, CallSite.openAt, List.drop_length_add_append]
  rfl

/-- Where the parenthesis of a call is closed, if it is. -/
private theorem closing_cases (h : site.In source) : matchClosingParen source site.openAt = -1 ∨
    ∃ args rest, site.after = args ++ closeParen :: rest ∧
      matchClosingParen source site.openAt = ((site.openAt + 1 + args.length : ℕ) : ℤ) := by
  rcases scan_cases (source.drop site.openAt) false {} site.openAt with hnone | ⟨pre, rest, hpre, hfound⟩
  · exact .inl hnone
  · rw [In.split h, CallSite.openAt, List.drop_left] at hpre
    cases pre with
    | nil => exact absurd (List.cons.inj hpre).1 (by decide)
    | cons c args =>
      refine .inr ⟨args, rest, (List.cons.inj hpre).2, hfound.trans ?_⟩
      rw [List.length_cons]
      omega

private theorem unscoped_iff {args rest : List CodeUnit} (hafter : site.after = args ++ closeParen :: rest)
    (hclose : matchClosingParen source site.openAt = ((site.openAt + 1 + args.length : ℕ) : ℤ)) :
    site.Unscoped source ↔ ¬ MentionsTenant args := by
  constructor
  · rintro ⟨args', rest', hafter', hclose', hnot⟩
    have hsame : args' = args := by
      refine (List.append_inj (hafter'.symm.trans hafter) ?_).1
      omega
    exact hsame ▸ hnot
  · intro hnot
    exact ⟨args, rest, hafter, by rw [hclose]; omega, hnot⟩

/-- What a round of the loop finds at a call. -/
private theorem violation_places (h : site.In source) (rel : List CodeUnit) (v : Violation) :
    violation rel source site.places = some v ↔ site.Unscoped source ∧ v = site.finding rel := by
  have hopenAt : site.places.2.before.length - 1 = site.openAt := by
    have hlength := congrArg List.length (front_call site)
    simp only [List.length_append, List.length_singleton] at hlength
    simp only [CallSite.places, CallSite.openAt, List.length_append, List.length_reverse]
    omega
  have hline : lineFor source site.places.1.before.length = 1 + site.before.count newline := by
    rw [lineFor_eq, h.reads, CallSite.places, List.length_reverse, List.take_left]
  unfold violation
  rw [hopenAt, hline]
  dsimp only
  rcases closing_cases h with hnone | ⟨args, rest, hafter, hclose⟩
  · rw [hnone, if_pos (by decide)]
    constructor
    · intro hv
      cases hv
    · rintro ⟨⟨args, rest, -, hclose, -⟩, -⟩
      rw [hnone] at hclose
      omega
  · have hargs : (source.take (site.openAt + 1 + args.length)).drop (site.openAt + 1) = args := by
      rw [List.drop_take, In.drop h, hafter, Nat.add_sub_cancel_left, List.take_left]
    rw [hclose, if_neg (by omega), Int.toNat_natCast, hargs, unscoped_iff hafter hclose, ← tenantPattern_test]
    cases tenantPattern.test args with
    | true => simp
    | false => exact ⟨fun hv => ⟨Bool.false_ne_true, (Option.some.inj hv).symm⟩, fun hv => congrArg some hv.2.symm⟩

private theorem exists_calls : ∀ {found : List (Place CodeUnit × Place CodeUnit)},
    (∀ m ∈ found, ∃ site : CallSite, site.In source ∧ m = site.places) →
      ∃ sites : List CallSite, (∀ site ∈ sites, site.In source) ∧ found = sites.map CallSite.places := by
  intro found h
  induction found with
  | nil => exact ⟨[], fun site hsite => (List.not_mem_nil hsite).elim, rfl⟩
  | cons m found ih =>
    obtain ⟨⟨site, hsite, rfl⟩, hfound⟩ := List.forall_mem_cons.mp h
    obtain ⟨sites, hsites, rfl⟩ := ih hfound
    exact ⟨site :: sites, List.forall_mem_cons.mpr ⟨hsite, hsites⟩, rfl⟩

private theorem places_injective (h : site.In source) {site' : CallSite} (h' : site'.In source)
    (heq : site.places = site'.places) : site = site' := by
  obtain ⟨hstart, -⟩ := Prod.mk.inj heq
  obtain ⟨hbefore, hcall, -⟩ := Place.mk.inj hstart
  replace hbefore := List.reverse_injective hbefore
  obtain ⟨hmodel, hmethod, hblank, hafter⟩ := call_unique h.model h'.model h.method h'.method h.blank h'.blank hcall
  exact CallSite.ext hbefore hmodel hmethod hblank hafter

/-- A file is reported with exactly its unscoped calls, in their order, each once. -/
theorem fileViolations_eq (rel source : List CodeUnit) : ∃ sites : List CallSite,
    sites.Pairwise (fun site site' => site.before.length < site'.before.length) ∧
    (∀ site, site ∈ sites ↔ site.In source ∧ site.Unscoped source) ∧
    fileViolations rel source = some (sites.map (·.finding rel)) := by
  classical
  have hcalls : ∀ m ∈ callPattern.sites [] source, ∃ site : CallSite, site.In source ∧ m = site.places :=
    fun m hm => mem_sites_callPattern.mp hm
  obtain ⟨all, hall, hsites⟩ := exists_calls hcalls
  have hall' : ∀ site, site ∈ all ↔ site.In source := by
    refine fun site => ⟨hall site, fun hin => ?_⟩
    have hplaces := mem_sites_callPattern.mpr ⟨site, hin, rfl⟩
    rw [hsites] at hplaces
    obtain ⟨site', hsite', heq⟩ := List.mem_map.mp hplaces
    exact places_injective (hall site' hsite') hin heq ▸ hsite'
  have hround : ∀ site ∈ all, violation rel source site.places =
      (Option.guard (fun site => decide (CallSite.Unscoped site source)) site).map (·.finding rel) := by
    intro site hsite
    apply Option.ext
    intro v
    rw [violation_places (hall site hsite)]
    by_cases hunscoped : site.Unscoped source
    · simp [Option.guard, hunscoped, eq_comm]
    · simp [Option.guard, hunscoped]
  refine ⟨all.filter fun site => site.Unscoped source, ?_, ?_, ?_⟩
  · have hpairs := sites_ordered callPattern [] source
    rw [hsites, List.pairwise_map] at hpairs
    apply List.Pairwise.filter
    exact hpairs.imp fun h => by simpa [CallSite.places] using h
  · intro site
    rw [List.mem_filter, hall', decide_eq_true_iff]
  · rw [fileViolations, execLoop_eq (apart_callPattern source), hsites, Option.map_some, List.filterMap_map,
      ← List.filterMap_eq_filter, List.map_filterMap]
    exact congrArg some (List.filterMap_congr hround)

end findings

section trees

/-- The file stands below the directory `path` with these entries. -/
inductive Below : List CodeUnit → List Entry → List CodeUnit → List CodeUnit → Prop
  | file {path entries name source} (h : .file name source ∈ entries) (hname : utf16 ".ts" <:+ name) :
      Below path entries (path ++ slash :: name) source
  | directory {path entries name inner rel source} (h : .directory name inner ∈ entries)
      (hinner : Below (path ++ slash :: name) inner rel source) : Below path entries rel source

private theorem below_cons {path rel source : List CodeUnit} {entry : Entry} {entries : List Entry} :
    Below path (entry :: entries) rel source ↔ Below path [entry] rel source ∨ Below path entries rel source := by
  constructor
  · intro h
    cases h with
    | file h hname =>
      rcases List.mem_cons.mp h with rfl | h
      · exact .inl (.file (.head _) hname)
      · exact .inr (.file h hname)
    | directory h hinner =>
      rcases List.mem_cons.mp h with rfl | h
      · exact .inl (.directory (.head _) hinner)
      · exact .inr (.directory h hinner)
  · rintro (h | h)
    · cases h with
      | file h hname => exact .file (List.mem_singleton.mp h ▸ .head _) hname
      | directory h hinner => exact .directory (List.mem_singleton.mp h ▸ .head _) hinner
    · cases h with
      | file h hname => exact .file (.tail _ h) hname
      | directory h hinner => exact .directory (.tail _ h) hinner

mutual

private theorem mem_walkEntry (path : List CodeUnit) : ∀ (entry : Entry) (rel source : List CodeUnit),
    (rel, source) ∈ walkEntry path entry ↔ Below path [entry] rel source
  | .file name text, rel, source => by
    rw [walkEntry]
    constructor
    · intro h
      split at h
      · rename_i hname
        obtain ⟨rfl, rfl⟩ := Prod.mk.inj (List.mem_singleton.mp h)
        exact .file (.head _) (List.isSuffixOf_iff_suffix.mp hname)
      · cases h
    · intro h
      cases h with
      | file h hname =>
        obtain ⟨rfl, rfl⟩ := Entry.file.inj (List.mem_singleton.mp h)
        rw [if_pos (List.isSuffixOf_iff_suffix.mpr hname)]
        exact .head _
      | directory h hinner => cases List.mem_singleton.mp h
  | .directory name entries, rel, source => by
    rw [walkEntry, mem_walkTs (path ++ slash :: name) entries rel source]
    constructor
    · exact fun h => .directory (.head _) h
    · intro h
      cases h with
      | file h hname => cases List.mem_singleton.mp h
      | directory h hinner =>
        obtain ⟨rfl, rfl⟩ := Entry.directory.inj (List.mem_singleton.mp h)
        exact hinner
  | .other name, rel, source => by
    rw [walkEntry]
    constructor
    · intro h
      cases h
    · intro h
      cases h with
      | file h hname => cases List.mem_singleton.mp h
      | directory h hinner => cases List.mem_singleton.mp h

/-- The walk comes to every file below the directory, and to no other. -/
private theorem mem_walkTs (path : List CodeUnit) : ∀ (entries : List Entry) (rel source : List CodeUnit),
    (rel, source) ∈ walkTs path entries ↔ Below path entries rel source
  | [], rel, source => by
    rw [walkTs]
    constructor
    · intro h
      cases h
    · intro h
      cases h with
      | file h hname => cases h
      | directory h hinner => cases h
  | entry :: entries, rel, source => by
    rw [walkTs, List.mem_append, mem_walkEntry path entry rel source, mem_walkTs path entries rel source]
    exact below_cons.symm

end

/-- Where the findings come from. -/
def Finds (dirs : List (List CodeUnit × List Entry)) (v : Violation) : Prop :=
  ∃ dir ∈ dirs, ∃ rel source, Below dir.1 dir.2 rel source ∧ isExcludedFile rel = false ∧
    ∃ site : CallSite, site.In source ∧ site.Unscoped source ∧ v = site.finding rel

/-- The names are words. -/
def Violation.Words (v : Violation) : Prop :=
  (∀ c ∈ v.model, word c = true) ∧ ∀ c ∈ v.method, word c = true

theorem Finds.words {dirs : List (List CodeUnit × List Entry)} {v : Violation} (h : Finds dirs v) : v.Words := by
  obtain ⟨dir, -, rel, source, -, -, site, hsite, -, rfl⟩ := h
  exact ⟨hsite.model.word.2, (word_method _ hsite.method).2⟩

private theorem mapM_some {α β : Type} {f : α → Option β} {g : α → β} {l : List α} (h : ∀ a ∈ l, f a = some (g a)) :
    l.mapM f = some (l.map g) := by
  induction l with
  | nil => rfl
  | cons a l ih =>
    obtain ⟨ha, hl⟩ := List.forall_mem_cons.mp h
    rw [List.mapM_cons, ha, ih hl]
    rfl

/-- The findings in a file, none if it is left out. -/
private theorem exists_fileFindings (rel source : List CodeUnit) : ∃ vs,
    (if isExcludedFile rel then some [] else fileViolations rel source) = some vs ∧
      ∀ v, v ∈ vs ↔ isExcludedFile rel = false ∧
        ∃ site : CallSite, site.In source ∧ site.Unscoped source ∧ v = site.finding rel := by
  by_cases hexcluded : isExcludedFile rel = true
  · exact ⟨[], if_pos hexcluded, fun v => by simp [hexcluded]⟩
  · obtain ⟨sites, -, hsites, heq⟩ := fileViolations_eq rel source
    refine ⟨_, (if_neg hexcluded).trans heq, fun v => ?_⟩
    rw [List.mem_map]
    constructor
    · rintro ⟨site, hsite, rfl⟩
      obtain ⟨hin, hunscoped⟩ := (hsites site).mp hsite
      exact ⟨Bool.eq_false_iff.mpr hexcluded, site, hin, hunscoped, rfl⟩
    · rintro ⟨-, site, hin, hunscoped, rfl⟩
      exact ⟨site, (hsites site).mpr ⟨hin, hunscoped⟩, rfl⟩

/-- The search puts together what it finds in the files. -/
private theorem findViolations_eq {findings : List CodeUnit → List CodeUnit → List Violation}
    (h : ∀ rel source, (if isExcludedFile rel then some [] else fileViolations rel source) = some (findings rel source))
    (dirs : List (List CodeUnit × List Entry)) : findViolations dirs =
      some ((dirs.flatMap fun dir => walkTs dir.1 dir.2).map fun file => findings file.1 file.2).flatten := by
  rw [findViolations, mapM_some fun file _ => h file.1 file.2]
  rfl

/-- The search of every tree ends. -/
theorem search_ends (dirs : List (List CodeUnit × List Entry)) : ∃ found, findViolations dirs = some found := by
  choose findings hfindings _ using exists_fileFindings
  exact ⟨_, findViolations_eq hfindings dirs⟩

/-- What a search has found are the calls that do not mention a tenant. -/
theorem mem_search {dirs : List (List CodeUnit × List Entry)} {found : List Violation}
    (h : findViolations dirs = some found) (v : Violation) : v ∈ found ↔ Finds dirs v := by
  choose findings hfindings hmem using exists_fileFindings
  obtain rfl := Option.some.inj ((findViolations_eq hfindings dirs).symm.trans h)
  rw [List.mem_flatten]
  constructor
  · rintro ⟨vs, hvs, hv⟩
    obtain ⟨⟨rel, source⟩, hwalked, rfl⟩ := List.mem_map.mp hvs
    obtain ⟨dir, hdir, hwalk⟩ := List.mem_flatMap.mp hwalked
    obtain ⟨hexcluded, hsite⟩ := (hmem _ _ v).mp hv
    exact ⟨dir, hdir, rel, source, (mem_walkTs ..).mp hwalk, hexcluded, hsite⟩
  · rintro ⟨dir, hdir, rel, source, hbelow, hexcluded, hsite⟩
    refine ⟨findings rel source, List.mem_map.mpr ⟨(rel, source), ?_, rfl⟩, (hmem rel source v).mpr ⟨hexcluded, hsite⟩⟩
    exact List.mem_flatMap.mpr ⟨dir, hdir, (mem_walkTs ..).mpr hbelow⟩

/-- The check ends for every tree, and it finds the calls that do not mention a tenant in all
the files that it does not leave out. -/
theorem calls_found (dirs : List (List CodeUnit × List Entry)) :
    ∃ found, findViolations dirs = some found ∧ ∀ v, v ∈ found ↔ Finds dirs v := by
  obtain ⟨found, hfound⟩ := search_ends dirs
  exact ⟨found, hfound, mem_search hfound⟩

end trees

end RedRoomRewards.TenantScopeCheck
