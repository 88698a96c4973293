import Mathlib.Data.List.Basic
import Mathlib.Data.Nat.Notation

/-! Regular expressions as JavaScript matches them: by backtracking, which tries a repetition
as long as it can and an alternative in its order, with groups that capture what they match. -/
namespace RedRoomRewards.Text

/-- A pattern; an assertion looks at the unit in front of it and at the one behind it. A
repetition is greedy. -/
inductive RegExp (α : Type) where
  | empty
  | unit (p : α → Bool)
  | assertion (p : Option α → Option α → Bool)
  | seq (r s : RegExp α)
  | alt (r s : RegExp α)
  | star (r : RegExp α)
  | group (n : ℕ) (r : RegExp α)

namespace RegExp
variable {α β : Type}

section patterns

/-- The patterns one after the other. -/
def seqs (rs : List (RegExp α)) : RegExp α := rs.foldr seq empty

/-- The first of the patterns that leads on. -/
def alts : List (RegExp α) → RegExp α
  | [] => unit fun _ => false
  | [r] => r
  | r :: rs => alt r (alts rs)

def text [DecidableEq α] (w : List α) : RegExp α := seqs (w.map fun a => unit fun b => a = b)

def many (p : α → Bool) : RegExp α := star (unit p)

/-- `p+`. -/
def some1 (p : α → Bool) : RegExp α := seq (unit p) (many p)

/-- `\b`, where `word` tells the units of a word. -/
def boundary (word : α → Bool) : RegExp α := assertion fun a b => a.any word != b.any word

/-- `^` and `$` without the flag `m`. -/
def first : RegExp α := assertion fun a _ => a.isNone
def last : RegExp α := assertion fun _ b => b.isNone

end patterns

/-- A place in a text, with what stands before it, the nearest first, what stands behind it,
and what the groups have captured on the way. -/
@[ext] structure Place (α : Type) where
  before : List α
  after : List α
  captures : List (ℕ × List α)

namespace Place

/-- What stands between the places. -/
def passed (x y : Place α) : List α := (y.before.take (y.before.length - x.before.length)).reverse

def capture (n : ℕ) (x y : Place α) : Place α := { y with captures := (n, x.passed y) :: y.captures }

/-- What group `n` has captured last. -/
def captured (y : Place α) (n : ℕ) : Option (List α) := y.captures.lookup n

/-- The place behind `w`, where the text goes on with `rest`. -/
def behind (x : Place α) (w rest : List α) : Place α := ⟨w.reverse ++ x.before, rest, x.captures⟩

@[simp] theorem behind_after (x : Place α) (w rest : List α) : (x.behind w rest).after = rest := rfl
@[simp] theorem behind_before (x : Place α) (w rest : List α) : (x.behind w rest).before = w.reverse ++ x.before := rfl
@[simp] theorem behind_captures (x : Place α) (w rest : List α) : (x.behind w rest).captures = x.captures := rfl
@[simp] theorem capture_after (n : ℕ) (x y : Place α) : (capture n x y).after = y.after := rfl
@[simp] theorem capture_before (n : ℕ) (x y : Place α) : (capture n x y).before = y.before := rfl

@[simp] theorem behind_behind (x : Place α) (w w' rest rest' : List α) :
    (x.behind w rest).behind w' rest' = x.behind (w ++ w') rest' := by simp [behind]

theorem behind_nil {x : Place α} {rest : List α} (h : x.after = rest) : x.behind [] rest = x := by rw [← h]; rfl

@[simp] theorem passed_behind (x : Place α) (w rest : List α) : x.passed (x.behind w rest) = w := by
  simp [passed, behind]

end Place

section matching

/-- A repetition of `m`, which is given up where it passes nothing; the number bounds the
repetitions. -/
def repeating (m : (Place α → Option β) → Place α → Option β) : ℕ → (Place α → Option β) → Place α → Option β
  | 0, k, x => k x
  | n + 1, k, x =>
    (m (fun y => if y.after.length < x.after.length then repeating m n k y else none) x).or (k x)

/-- The matcher, with what is to be matched behind the pattern as its continuation. -/
def run : RegExp α → (Place α → Option β) → Place α → Option β
  | empty, k, x => k x
  | unit p, k, x =>
    match x.after with
    | [] => none
    | c :: rest => if p c then k (x.behind [c] rest) else none
  | assertion p, k, x => if p x.before.head? x.after.head? then k x else none
  | seq r s, k, x => r.run (s.run k) x
  | alt r s, k, x => (r.run k x).or (s.run k x)
  | star r, k, x => repeating r.run x.after.length k x
  | group n r, k, x => r.run (fun y => k (.capture n x y)) x

/-- The first place from `before` on where the pattern matches, and where its match ends. -/
def search (r : RegExp α) : List α → List α → Option (Place α × Place α)
  | before, [] => (r.run some ⟨before, [], []⟩).map (⟨before, [], []⟩, ·)
  | before, c :: rest =>
    ((r.run some ⟨before, c :: rest, []⟩).map (⟨before, c :: rest, []⟩, ·)).or (r.search (c :: before) rest)

/-- `r.exec(source)` with the flag `g`. -/
def exec (r : RegExp α) (source : List α) (lastIndex : ℕ) : Option (Place α × Place α) :=
  r.search (source.take lastIndex).reverse (source.drop lastIndex)

/-- `r.test(source)`. -/
def test (r : RegExp α) (source : List α) : Bool := (r.exec source 0).isSome

/-- `while ((m = r.exec(source)))`, where the number bounds the rounds; `none` if it does not
suffice. -/
def execLoop (r : RegExp α) (source : List α) : ℕ → ℕ → Option (List (Place α × Place α))
  | 0, _ => none
  | n + 1, lastIndex =>
    match r.exec source lastIndex with
    | none => some []
    | some m => (r.execLoop source n m.2.before.length).map (m :: ·)

end matching

section ends

/-- The places where up to `n` repetitions of `f` can end, in the order in which they are
tried. -/
def closure (f : Place α → List (Place α)) : ℕ → Place α → List (Place α)
  | 0, x => [x]
  | n + 1, x => ((f x).filter fun y => y.after.length < x.after.length).flatMap (closure f n) ++ [x]

/-- The places where a match that begins at `x` can end, in the order in which they are
tried. -/
def ends : RegExp α → Place α → List (Place α)
  | empty, x => [x]
  | unit p, x =>
    match x.after with
    | [] => []
    | c :: rest => if p c then [x.behind [c] rest] else []
  | assertion p, x => if p x.before.head? x.after.head? then [x] else []
  | seq r s, x => (r.ends x).flatMap s.ends
  | alt r s, x => r.ends x ++ s.ends x
  | star r, x => closure r.ends x.after.length x
  | group n r, x => (r.ends x).map (.capture n x)

private theorem findSome?_filter (p : Place α → Prop) [DecidablePred p] (k : Place α → Option β) (l : List (Place α)) :
    (l.filter (p ·)).findSome? k = l.findSome? fun y => if p y then k y else none := by
  induction l with
  | nil => rfl
  | cons y l ih =>
    by_cases hy : p y
    · simp only [List.filter_cons, hy, decide_true, if_true, List.findSome?_cons, ih]
    · simp only [List.filter_cons, hy, decide_false, Bool.false_eq_true, if_false, List.findSome?_cons, ih]

private theorem findSome?_flatMap (f : Place α → List (Place α)) (k : Place α → Option β) (l : List (Place α)) :
    (l.flatMap f).findSome? k = l.findSome? fun y => (f y).findSome? k := by
  induction l with
  | nil => rfl
  | cons y l ih =>
    rw [List.flatMap_cons, List.findSome?_append, ih, List.findSome?_cons]
    cases (f y).findSome? k <;> rfl

private theorem repeating_eq {m : (Place α → Option β) → Place α → Option β} {f : Place α → List (Place α)}
    (hm : ∀ k x, m k x = (f x).findSome? k) (n : ℕ) (k : Place α → Option β) (x : Place α) :
    repeating m n k x = (closure f n x).findSome? k := by
  induction n generalizing x with
  | zero => simp [repeating, closure]
  | succ n ih =>
    have htail : [x].findSome? k = k x := by simp
    rw [repeating, closure, hm, List.findSome?_append, findSome?_flatMap, findSome?_filter, htail]
    simp only [ih]

/-- Backtracking finds the first of the ends from which the continuation succeeds. -/
theorem run_eq (r : RegExp α) (k : Place α → Option β) (x : Place α) : r.run k x = (r.ends x).findSome? k := by
  induction r generalizing k x with
  | empty => simp [run, ends]
  | unit p =>
    simp only [run, ends]
    cases x.after with
    | nil => rfl
    | cons c rest => by_cases hc : p c <;> simp [hc]
  | assertion p => by_cases hp : p x.before.head? x.after.head? <;> simp [run, ends, hp]
  | seq r s ihr ihs =>
    rw [run, ihr, ends, findSome?_flatMap]
    exact congrArg (fun f => (r.ends x).findSome? f) (funext fun y => ihs k y)
  | alt r s ihr ihs => rw [run, ihr, ihs, ends, List.findSome?_append]
  | star r ih => exact repeating_eq ih _ k x
  | group n r ih => rw [run, ih, ends, List.findSome?_map]; rfl

theorem run_some (r : RegExp α) (x : Place α) : r.run some x = (r.ends x).head? := by
  rw [run_eq]
  cases r.ends x <;> rfl

end ends

section members
variable {r s : RegExp α} {p : α → Bool} {n : ℕ} {x y : Place α}

theorem mem_ends_empty : y ∈ (empty : RegExp α).ends x ↔ y = x := List.mem_singleton

theorem mem_ends_unit : y ∈ (unit p).ends x ↔ ∃ c rest, x.after = c :: rest ∧ p c = true ∧ y = x.behind [c] rest := by
  simp only [ends]
  cases hafter : x.after with
  | nil => simp
  | cons c rest =>
    by_cases hc : p c = true
    · simp only [hc, if_true, List.mem_singleton]
      constructor
      · intro hy
        exact ⟨c, rest, rfl, hc, hy⟩
      · rintro ⟨c', rest', heq, -, rfl⟩
        obtain ⟨rfl, rfl⟩ := List.cons.inj heq
        rfl
    · simp only [hc, Bool.false_eq_true, if_false, List.not_mem_nil, false_iff]
      rintro ⟨c', rest', heq, hc', -⟩
      exact hc ((List.cons.inj heq).1 ▸ hc')

theorem mem_ends_assertion {p : Option α → Option α → Bool} :
    y ∈ (assertion p).ends x ↔ y = x ∧ p x.before.head? x.after.head? = true := by
  by_cases hp : p x.before.head? x.after.head? = true <;> simp [ends, hp]

theorem mem_ends_seq : y ∈ (seq r s).ends x ↔ ∃ z ∈ r.ends x, y ∈ s.ends z := List.mem_flatMap

theorem mem_ends_alt : y ∈ (alt r s).ends x ↔ y ∈ r.ends x ∨ y ∈ s.ends x := List.mem_append

theorem mem_ends_group : y ∈ (group n r).ends x ↔ ∃ z ∈ r.ends x, y = .capture n x z := by
  simp only [ends, List.mem_map, eq_comm]

theorem mem_ends_alts {rs : List (RegExp α)} : y ∈ (alts rs).ends x ↔ ∃ r ∈ rs, y ∈ r.ends x := by
  induction rs with
  | nil =>
    rw [alts, mem_ends_unit]
    simp
  | cons r rs ih =>
    cases rs with
    | nil => simp [alts]
    | cons r' rs => simp only [alts, mem_ends_alt, ih, List.mem_cons, exists_eq_or_imp]

theorem mem_ends_text [DecidableEq α] {w : List α} :
    y ∈ (text w).ends x ↔ ∃ rest, x.after = w ++ rest ∧ y = x.behind w rest := by
  induction w generalizing x with
  | nil =>
    rw [text, List.map_nil, seqs, List.foldr_nil, mem_ends_empty]
    constructor
    · rintro rfl
      exact ⟨y.after, rfl, rfl⟩
    · rintro ⟨rest, hafter, rfl⟩
      exact Place.behind_nil hafter
  | cons a w ih =>
    have hcons : text (a :: w) = seq (unit fun b => a = b) (text w) := rfl
    rw [hcons, mem_ends_seq]
    constructor
    · rintro ⟨z, hz, hy⟩
      obtain ⟨c, rest, hafter, hc, rfl⟩ := mem_ends_unit.mp hz
      obtain rfl := of_decide_eq_true hc
      obtain ⟨rest', hrest, rfl⟩ := ih.mp hy
      rw [Place.behind_after] at hrest
      exact ⟨rest', by rw [hafter, hrest]; rfl, Place.behind_behind ..⟩
    · rintro ⟨rest, hafter, rfl⟩
      refine ⟨x.behind [a] (w ++ rest), mem_ends_unit.mpr ⟨a, _, hafter, decide_eq_true rfl, rfl⟩, ?_⟩
      exact ih.mpr ⟨rest, rfl, by rw [Place.behind_behind]; rfl⟩

theorem ends_many_nil (h : x.after = []) : (many p).ends x = [x] := by
  rw [many, ends, h]
  rfl

/-- A repetition goes on as far as it can before it is tried to end. -/
theorem ends_many_cons {c : α} {rest : List α} (h : x.after = c :: rest) :
    (many p).ends x = (if p c then (many p).ends (x.behind [c] rest) else []) ++ [x] := by
  rw [many, ends, h, List.length_cons, closure]
  congr 1
  by_cases hc : p c = true
  · simp only [ends, h, hc, if_true]
    simp
  · simp [ends, h, hc]

theorem mem_ends_many : y ∈ (many p).ends x ↔
    ∃ w rest, x.after = w ++ rest ∧ (∀ c ∈ w, p c = true) ∧ y = x.behind w rest := by
  generalize hafter : x.after = after
  induction after generalizing x with
  | nil =>
    rw [ends_many_nil hafter, List.mem_singleton]
    constructor
    · rintro rfl
      exact ⟨[], [], rfl, fun c hc => (List.not_mem_nil hc).elim, (Place.behind_nil hafter).symm⟩
    · rintro ⟨w, rest, heq, -, rfl⟩
      obtain ⟨rfl, rfl⟩ := List.append_eq_nil_iff.mp heq.symm
      exact Place.behind_nil hafter
  | cons c after ih =>
    rw [ends_many_cons hafter, List.mem_append, List.mem_singleton]
    constructor
    · rintro (hmore | rfl)
      · by_cases hc : p c = true
        · rw [if_pos hc] at hmore
          obtain ⟨w, rest, rfl, hw, rfl⟩ := (ih rfl).mp hmore
          exact ⟨c :: w, rest, rfl, List.forall_mem_cons.mpr ⟨hc, hw⟩, Place.behind_behind ..⟩
        · rw [if_neg hc] at hmore
          cases hmore
      · exact ⟨[], c :: after, rfl, fun c hc => (List.not_mem_nil hc).elim, (Place.behind_nil hafter).symm⟩
    · rintro ⟨w, rest, heq, hw, rfl⟩
      cases w with
      | nil =>
        exact .inr (Place.behind_nil (hafter.trans heq))
      | cons c' w =>
        obtain ⟨rfl, rfl⟩ := List.cons.inj heq
        left
        rw [if_pos (hw c List.mem_cons_self)]
        exact (ih rfl).mpr ⟨w, rest, rfl, fun c hc => hw c (.tail _ hc), by rw [Place.behind_behind]; rfl⟩

theorem mem_ends_some1 : y ∈ (some1 p).ends x ↔
    ∃ w rest, x.after = w ++ rest ∧ w ≠ [] ∧ (∀ c ∈ w, p c = true) ∧ y = x.behind w rest := by
  rw [some1, mem_ends_seq]
  constructor
  · rintro ⟨z, hz, hy⟩
    obtain ⟨c, rest, hafter, hc, rfl⟩ := mem_ends_unit.mp hz
    obtain ⟨w, rest', hrest, hw, rfl⟩ := mem_ends_many.mp hy
    rw [Place.behind_after] at hrest
    refine ⟨c :: w, rest', by rw [hafter, hrest]; rfl, List.cons_ne_nil _ _, ?_, Place.behind_behind ..⟩
    exact List.forall_mem_cons.mpr ⟨hc, hw⟩
  · rintro ⟨w, rest, hafter, hne, hw, rfl⟩
    cases w with
    | nil => exact absurd rfl hne
    | cons c w =>
      obtain ⟨hc, hw⟩ := List.forall_mem_cons.mp hw
      exact ⟨x.behind [c] (w ++ rest), mem_ends_unit.mpr ⟨c, _, hafter, hc, rfl⟩,
        mem_ends_many.mpr ⟨w, rest, rfl, hw, by rw [Place.behind_behind]; rfl⟩⟩

/-- A match goes on from where it begins. -/
theorem ends_onward (h : y ∈ r.ends x) : ∃ w, x.after = w ++ y.after ∧ y.before = w.reverse ++ x.before := by
  induction r generalizing x y with
  | empty =>
    rw [mem_ends_empty.mp h]
    exact ⟨[], rfl, rfl⟩
  | unit p =>
    obtain ⟨c, rest, hafter, -, rfl⟩ := mem_ends_unit.mp h
    exact ⟨[c], hafter, rfl⟩
  | assertion p =>
    rw [(mem_ends_assertion.mp h).1]
    exact ⟨[], rfl, rfl⟩
  | seq r s ihr ihs =>
    obtain ⟨z, hz, hy⟩ := mem_ends_seq.mp h
    obtain ⟨w, hw, hbefore⟩ := ihr hz
    obtain ⟨w', hw', hbefore'⟩ := ihs hy
    exact ⟨w ++ w', by rw [hw, hw', List.append_assoc], by rw [hbefore', hbefore]; simp⟩
  | alt r s ihr ihs =>
    rcases mem_ends_alt.mp h with h | h
    · exact ihr h
    · exact ihs h
  | star r ih =>
    rw [ends] at h
    generalize x.after.length = n at h
    induction n generalizing x with
    | zero =>
      rw [closure, List.mem_singleton] at h
      rw [h]
      exact ⟨[], rfl, rfl⟩
    | succ n ihn =>
      rw [closure, List.mem_append, List.mem_flatMap, List.mem_singleton] at h
      rcases h with ⟨z, hz, hy⟩ | rfl
      · obtain ⟨w, hw, hbefore⟩ := ih (List.mem_of_mem_filter hz)
        obtain ⟨w', hw', hbefore'⟩ := ihn hy
        exact ⟨w ++ w', by rw [hw, hw', List.append_assoc], by rw [hbefore', hbefore]; simp⟩
      · exact ⟨[], rfl, rfl⟩
  | group n r ih =>
    obtain ⟨z, hz, rfl⟩ := mem_ends_group.mp h
    obtain ⟨w, hw, hbefore⟩ := ih hz
    exact ⟨w, hw, hbefore⟩

end members

section sites
variable {r : RegExp α} {before after : List α} {x y : Place α} {source : List α}

/-- The match that backtracking finds at this place. -/
def found (r : RegExp α) (x : Place α) : Option (Place α × Place α) := (r.ends x).head?.map (x, ·)

/-- All places from `before` on where the pattern matches, with the match found there. -/
def sites (r : RegExp α) : List α → List α → List (Place α × Place α)
  | before, [] => (r.found ⟨before, [], []⟩).toList
  | before, c :: rest => (r.found ⟨before, c :: rest, []⟩).toList ++ r.sites (c :: before) rest

theorem search_eq (r : RegExp α) (before after : List α) : r.search before after = (r.sites before after).head? := by
  induction after generalizing before with
  | nil =>
    rw [search, sites, run_some, found]
    cases (r.ends ⟨before, [], []⟩).head? <;> rfl
  | cons c rest ih =>
    rw [search, sites, run_some, found, ih]
    cases (r.ends ⟨before, c :: rest, []⟩).head? <;> rfl

theorem mem_sites : (x, y) ∈ r.sites before after ↔
    (∃ w rest, after = w ++ rest ∧ x = ⟨w.reverse ++ before, rest, []⟩) ∧ (r.ends x).head? = some y := by
  have hfound : ∀ x' : Place α, (x, y) ∈ (r.found x').toList ↔ x = x' ∧ (r.ends x).head? = some y := by
    intro x'
    rw [found, Option.mem_toList, Option.map_eq_some_iff]
    constructor
    · rintro ⟨y', hy', heq⟩
      obtain ⟨rfl, rfl⟩ := Prod.mk.inj heq
      exact ⟨rfl, hy'⟩
    · rintro ⟨rfl, hy⟩
      exact ⟨y, hy, rfl⟩
  induction after generalizing before with
  | nil =>
    rw [sites, hfound]
    apply and_congr_left
    intro _
    constructor
    · rintro rfl
      exact ⟨[], [], rfl, rfl⟩
    · rintro ⟨w, rest, heq, rfl⟩
      obtain ⟨rfl, rfl⟩ := List.append_eq_nil_iff.mp heq.symm
      rfl
  | cons c after ih =>
    rw [sites, List.mem_append, hfound, or_congr_right ih, ← or_and_right]
    apply and_congr_left
    intro _
    constructor
    · rintro (rfl | ⟨w, rest, rfl, rfl⟩)
      · exact ⟨[], c :: after, rfl, rfl⟩
      · exact ⟨c :: w, rest, rfl, by simp⟩
    · rintro ⟨w, rest, heq, rfl⟩
      cases w with
      | nil => exact .inl (by rw [show rest = c :: after from heq.symm]; rfl)
      | cons c' w =>
        obtain ⟨rfl, rfl⟩ := List.cons.inj heq
        exact .inr ⟨w, rest, rfl, by simp⟩

/-- Sites stand in the order of the text. -/
theorem sites_ordered (r : RegExp α) (before after : List α) :
    (r.sites before after).Pairwise fun m m' => m.1.before.length < m'.1.before.length := by
  induction after generalizing before with
  | nil =>
    rw [sites]
    cases r.found ⟨before, [], []⟩ <;> simp
  | cons c rest ih =>
    rw [sites, List.pairwise_append]
    refine ⟨by cases r.found ⟨before, c :: rest, []⟩ <;> simp, ih _, ?_⟩
    rintro ⟨x, y⟩ hx ⟨x', y'⟩ hx'
    rw [found, Option.mem_toList, Option.map_eq_some_iff] at hx
    obtain ⟨y'', -, heq⟩ := hx
    obtain ⟨rfl, rfl⟩ := Prod.mk.inj heq
    obtain ⟨⟨w, rest', -, rfl⟩, -⟩ := mem_sites.mp hx'
    simp only [List.length_append, List.length_cons]
    omega

theorem test_iff : r.test source = true ↔ ∃ w rest, source = w ++ rest ∧ r.ends ⟨w.reverse, rest, []⟩ ≠ [] := by
  rw [test, exec, search_eq, List.take_zero, List.drop_zero, List.reverse_nil, List.isSome_head?]
  constructor
  · intro hne
    obtain ⟨⟨x, y⟩, hmem⟩ := List.exists_mem_of_ne_nil _ (by simpa using hne)
    obtain ⟨⟨w, rest, rfl, rfl⟩, hy⟩ := mem_sites.mp hmem
    rw [List.append_nil] at hy
    exact ⟨w, rest, rfl, fun hnil => by rw [hnil] at hy; cases hy⟩
  · rintro ⟨w, rest, rfl, hne⟩
    obtain ⟨y, hy⟩ := Option.isSome_iff_exists.mp (List.isSome_head?.mpr hne)
    have hmem : ((⟨w.reverse ++ [], rest, []⟩ : Place α), y) ∈ r.sites [] (w ++ rest) :=
      mem_sites.mpr ⟨⟨w, rest, rfl, rfl⟩, by rw [List.append_nil]; exact hy⟩
    simpa using List.ne_nil_of_mem hmem

/-- No match is empty, and none begins within another. -/
structure Apart (r : RegExp α) (source : List α) : Prop where
  nonempty : ∀ {x y : Place α}, y ∈ r.ends x → x.before.length < y.before.length
  separate : ∀ {m m'}, m ∈ r.sites [] source → m' ∈ r.sites [] source →
    m.1.before.length < m'.1.before.length → m.2.before.length ≤ m'.1.before.length

/-- The sites from a place on. -/
private theorem sites_from (h : before.reverse ++ after = source) :
    r.sites before after = (r.sites [] source).filter fun m => before.length ≤ m.1.before.length := by
  have hsplit : ∀ before' after', ∃ skipped, r.sites before' (after' ++ after) =
      skipped ++ r.sites (after'.reverse ++ before') after ∧
        ∀ m ∈ skipped, m.1.before.length < (after'.reverse ++ before').length := by
    intro before' after'
    induction after' generalizing before' with
    | nil => exact ⟨[], rfl, fun m hm => (List.not_mem_nil hm).elim⟩
    | cons c after' ih =>
      obtain ⟨skipped, hsites, hskipped⟩ := ih (c :: before')
      have hback : after'.reverse ++ c :: before' = (c :: after').reverse ++ before' := by simp
      rw [hback] at hsites hskipped
      refine ⟨(r.found ⟨before', c :: (after' ++ after), []⟩).toList ++ skipped, ?_, ?_⟩
      · rw [List.cons_append, sites, hsites, List.append_assoc]
      · intro m hm
        rcases List.mem_append.mp hm with hhere | hthere
        · rw [found, Option.mem_toList, Option.map_eq_some_iff] at hhere
          obtain ⟨y, -, rfl⟩ := hhere
          simp
          omega
        · exact hskipped m hthere
  obtain ⟨skipped, hsites, hskipped⟩ := hsplit [] before.reverse
  rw [h, List.reverse_reverse, List.append_nil] at hsites
  rw [List.reverse_reverse, List.append_nil] at hskipped
  rw [hsites, List.filter_append, List.filter_eq_nil_iff.mpr, List.nil_append, List.filter_eq_self.mpr]
  · rintro ⟨x, y⟩ hm
    obtain ⟨⟨w, rest, -, rfl⟩, -⟩ := mem_sites.mp hm
    simp
  · intro m hm
    simpa using hskipped m hm

private theorem exec_eq {n : ℕ} (hn : n ≤ source.length) :
    r.exec source n = ((r.sites [] source).filter fun m => n ≤ m.1.before.length).head? := by
  have hsplit : (source.take n).reverse.reverse ++ source.drop n = source := by simp
  rw [exec, search_eq, sites_from hsplit]
  simp [hn]

theorem Apart.grows (h : r.Apart source) {m : Place α × Place α} (hm : m ∈ r.sites [] source) :
    m.1.before.length < m.2.before.length ∧ m.2.before.length ≤ source.length := by
  obtain ⟨⟨w, rest, rfl, hx⟩, hy⟩ := mem_sites.mp hm
  have hy := List.mem_of_mem_head? hy
  refine ⟨h.nonempty hy, ?_⟩
  obtain ⟨v, hv, hbefore⟩ := ends_onward hy
  have hlength := congrArg List.length hv
  simp only [hx, hbefore, List.length_append, List.length_reverse, List.length_nil] at hlength ⊢
  omega

/-- The loop finds every site of a text in which matches stay apart. -/
private theorem execLoop_from (h : r.Apart source) {k n : ℕ} (hn : n ≤ source.length) (hk : source.length < n + k) :
    r.execLoop source k n = some ((r.sites [] source).filter fun m => n ≤ m.1.before.length) := by
  induction k generalizing n with
  | zero => omega
  | succ k ih =>
    rw [execLoop, exec_eq hn]
    have hordered := (sites_ordered r [] source).filter fun m => decide (n ≤ m.1.before.length)
    generalize hfrom : (r.sites [] source).filter (fun m => n ≤ m.1.before.length) = here at hordered
    cases here with
    | nil => rfl
    | cons m later =>
      have hmem : ∀ m' ∈ m :: later, m' ∈ r.sites [] source ∧ n ≤ m'.1.before.length := by
        intro m' hm'
        rw [← hfrom, List.mem_filter] at hm'
        exact ⟨hm'.1, of_decide_eq_true hm'.2⟩
      obtain ⟨hm, hstart⟩ := hmem m List.mem_cons_self
      obtain ⟨hgrows, hbound⟩ := h.grows hm
      have hlater : (r.sites [] source).filter (fun m' => m.2.before.length ≤ m'.1.before.length) = later := by
        have hnarrow : (r.sites [] source).filter (fun m' => m.2.before.length ≤ m'.1.before.length) =
            (m :: later).filter (fun m' => m.2.before.length ≤ m'.1.before.length) := by
          rw [← hfrom, List.filter_filter]
          apply List.filter_congr
          intro m' _
          by_cases hm' : m.2.before.length ≤ m'.1.before.length
          · have : n ≤ m'.1.before.length := by omega
            simp [hm', this]
          · simp [hm']
        rw [hnarrow, List.filter_cons_of_neg (by simpa using hgrows), List.filter_eq_self]
        intro m' hm'
        have hbehind := (List.pairwise_cons.mp hordered).1 m' hm'
        exact decide_eq_true (h.separate hm (hmem m' (.tail _ hm')).1 hbehind)
      show (r.execLoop source k m.2.before.length).map (m :: ·) = _
      rw [ih hbound (by omega), hlater]
      rfl

/-- In a text where matches stay apart the loop ends, and it has found them all. -/
theorem execLoop_eq (h : r.Apart source) : r.execLoop source (source.length + 1) 0 = some (r.sites [] source) := by
  rw [execLoop_from h (Nat.zero_le _) (by omega), List.filter_eq_self.mpr]
  exact fun _ _ => decide_eq_true (Nat.zero_le _)

end sites

end RegExp
end RedRoomRewards.Text
