import RedRoomRewards.Guarantees.ScopeFindings

/-! The baseline of the tenant scope check: which findings it lets pass later on. -/
namespace RedRoomRewards.TenantScopeCheck
open Text

section baseline

private theorem digit_bounds {n : ℕ} {c : Char} (h : c ∈ Nat.toDigits 10 n) : 48 ≤ c.toNat ∧ c.toNat ≤ 57 := by
  have hdigit := Nat.isDigit_of_mem_toDigits (by decide) (by decide) h
  rw [Char.isDigit, Bool.and_eq_true, decide_eq_true_iff, decide_eq_true_iff] at hdigit
  exact ⟨UInt32.le_iff_toNat_le.mp hdigit.1, UInt32.le_iff_toNat_le.mp hdigit.2⟩

private theorem utf16_digits (n : ℕ) : utf16 (toString n) = (Nat.toDigits 10 n).map fun c => UInt16.ofNat c.toNat := by
  have hlist : (toString n).toList = Nat.toDigits 10 n := Nat.toList_repr
  rw [utf16, hlist, ← List.flatMap_pure_eq_map]
  apply List.flatMap_congr
  intro c hc
  have hbounds := digit_bounds hc
  exact if_pos (show c.toNat < 0x10000 by omega)

private theorem word_digits (n : ℕ) : ∀ c ∈ utf16 (toString n), word c = true := by
  intro c hc
  rw [utf16_digits] at hc
  obtain ⟨d, hd, rfl⟩ := List.mem_map.mp hc
  obtain ⟨hlow, hhigh⟩ := digit_bounds hd
  have hvalue : (UInt16.ofNat d.toNat).toNat = d.toNat := by
    rw [UInt16.toNat_ofNat']
    omega
  have hle : (48 : CodeUnit) ≤ UInt16.ofNat d.toNat ∧ UInt16.ofNat d.toNat ≤ 57 := by
    rw [UInt16.le_iff_toNat_le, UInt16.le_iff_toNat_le, hvalue]
    exact ⟨hlow, hhigh⟩
  simp [word, hle]

private theorem digits_injective {n n' : ℕ} (h : utf16 (toString n) = utf16 (toString n')) : n = n' := by
  have hback : ∀ m, (utf16 (toString m)).map UInt16.toNat = (Nat.toDigits 10 m).map Char.toNat := by
    intro m
    rw [utf16_digits, List.map_map]
    apply List.map_congr_left
    intro c hc
    have hbounds := digit_bounds hc
    rw [Function.comp_apply, UInt16.toNat_ofNat']
    omega
  have hchars : (Nat.toDigits 10 n).map Char.toNat = (Nat.toDigits 10 n').map Char.toNat := by rw [← hback, ← hback, h]
  have hdigits : Nat.toDigits 10 n = Nat.toDigits 10 n' :=
    List.map_injective_iff.mpr (fun a b hab => Char.toNat_inj.mp hab) hchars
  have hvalue := congrArg (fun cs => Nat.ofDigitChars 10 cs 0) hdigits
  simpa only [Nat.ofDigitChars_ten_toDigits] using hvalue

/-- Whatever the path is, the key of a finding is that of no other. -/
private theorem keyOf_injective {v v' : Violation} (h : v.Words) (h' : v'.Words) (heq : keyOf v = keyOf v') : v = v' := by
  have hstop : ¬ word fullStop = true := by decide
  have hcolon : ¬ word colon = true := by decide
  have hkey : ∀ v : Violation, keyOf v =
      (((v.file ++ colon :: utf16 (toString v.line)) ++ colon :: v.model) ++ fullStop :: v.method) := by
    intro v
    simp [keyOf]
  rw [hkey, hkey] at heq
  obtain ⟨heq, -, hmethod⟩ := last_break (p := fun c => word c = true) hstop hstop h.2 h'.2 heq
  obtain ⟨heq, -, hmodel⟩ := last_break (p := fun c => word c = true) hcolon hcolon h.1 h'.1 heq
  obtain ⟨hfile, -, hline⟩ := last_break (p := fun c => word c = true) hcolon hcolon (word_digits _) (word_digits _) heq
  cases v
  cases v'
  exact Violation.mk.injEq .. ▸ ⟨hfile, digits_injective hline, hmodel, hmethod⟩

variable (localeCompare : List CodeUnit → List CodeUnit → Bool)

/-- Runs of the script one after the other, on whatever the tree has become. -/
def session : List Violation → List (List (List CodeUnit × List Entry) × Mode) → Option (List Violation)
  | allowlist, [] => some allowlist
  | allowlist, (dirs, mode) :: runs => do
    let (_, allowlist) ← main localeCompare dirs allowlist mode
    session allowlist runs

private theorem main_checks (dirs : List (List CodeUnit × List Entry)) (allowlist : List Violation) {mode : Mode}
    (hmode : mode ≠ .updateBaseline) : ∃ code, main localeCompare dirs allowlist mode = some (code, allowlist) ∧
      (code = 0 ↔ ∀ v, Finds dirs v → keyOf v ∈ allowlist.map keyOf) := by
  obtain ⟨found, hfound⟩ := search_ends dirs
  have hmem := mem_search hfound
  refine ⟨if found.filter (fun x => !(allowlist.map keyOf).contains (keyOf x)) = [] then 0 else 1, ?_, ?_⟩
  · rw [main, hfound]
    cases mode with
    | updateBaseline => exact absurd rfl hmode
    | check => rfl
    | report => rfl
  · have hcode : ∀ p : Prop, ∀ _ : Decidable p, ((if p then 0 else 1 : ℕ) = 0 ↔ p) := by
      intro p _
      by_cases hp : p <;> simp [hp]
    rw [hcode, List.filter_eq_nil_iff]
    constructor
    · intro hnone v hv
      simpa using hnone v ((hmem v).mpr hv)
    · intro hall v hv
      simpa using hall v ((hmem v).mp hv)

private theorem session_append (allowlist : List Violation) (runs runs' : List (List (List CodeUnit × List Entry) × Mode)) :
    session localeCompare allowlist (runs ++ runs') =
      (session localeCompare allowlist runs).bind fun allowlist => session localeCompare allowlist runs' := by
  induction runs generalizing allowlist with
  | nil => rfl
  | cons run runs ih =>
    obtain ⟨dirs, mode⟩ := run
    rw [List.cons_append, session, session]
    cases main localeCompare dirs allowlist mode with
    | none => rfl
    | some result => exact ih result.2

private theorem session_ends (allowlist : List Violation) (runs : List (List (List CodeUnit × List Entry) × Mode)) :
    ∃ allowlist', session localeCompare allowlist runs = some allowlist' ∧
      ((∀ run ∈ runs, run.2 ≠ .updateBaseline) → allowlist' = allowlist) := by
  induction runs generalizing allowlist with
  | nil => exact ⟨allowlist, rfl, fun _ => rfl⟩
  | cons run runs ih =>
    obtain ⟨dirs, mode⟩ := run
    by_cases hmode : mode = .updateBaseline
    · obtain ⟨found, hfound⟩ := search_ends dirs
      obtain ⟨allowlist', hsession, -⟩ := ih (found.mergeSort fun a b => localeCompare (keyOf a) (keyOf b))
      refine ⟨allowlist', ?_, fun hnone => absurd hmode (hnone _ List.mem_cons_self)⟩
      rw [session, main, hfound, hmode]
      exact hsession
    · obtain ⟨code, hmain, -⟩ := main_checks localeCompare dirs allowlist hmode
      obtain ⟨allowlist', hsession, hkept⟩ := ih allowlist
      refine ⟨allowlist', ?_, fun hnone => hkept fun run hrun => hnone run (.tail _ hrun)⟩
      rw [session, hmain]
      exact hsession

/-- However often the script has run before and since, a check passes exactly if all that it
finds was found in the tree from which the baseline was last written: at the same line of
the same file, with the same model and method. -/
theorem baseline_honoured (allowlist : List Violation) (earlier later : List (List (List CodeUnit × List Entry) × Mode))
    (written dirs : List (List CodeUnit × List Entry)) {mode : Mode} (hlater : ∀ run ∈ later, run.2 ≠ .updateBaseline)
    (hmode : mode ≠ .updateBaseline) :
    ∃ baseline code, session localeCompare allowlist (earlier ++ (written, .updateBaseline) :: later) = some baseline ∧
      main localeCompare dirs baseline mode = some (code, baseline) ∧
      (code = 0 ↔ ∀ v, Finds dirs v → Finds written v) := by
  obtain ⟨before, hbefore, -⟩ := session_ends localeCompare allowlist earlier
  obtain ⟨found, hfound⟩ := search_ends written
  have hmem := mem_search hfound
  have hbaseline : ∀ v, v ∈ found.mergeSort (fun a b => localeCompare (keyOf a) (keyOf b)) ↔ Finds written v :=
    fun v => List.mem_mergeSort.trans (hmem v)
  generalize hsorted : found.mergeSort (fun a b => localeCompare (keyOf a) (keyOf b)) = baseline at hbaseline
  obtain ⟨after, hafter, hkept⟩ := session_ends localeCompare baseline later
  obtain rfl := hkept hlater
  obtain ⟨code, hmain, hcode⟩ := main_checks localeCompare dirs after hmode
  refine ⟨after, code, ?_, hmain, hcode.trans ?_⟩
  · rw [session_append, hbefore, Option.bind_some, session, main, hfound]
    show session localeCompare (found.mergeSort _) later = _
    rw [hsorted, hafter]
  · constructor
    · intro hkeys v hv
      obtain ⟨v', hv', heq⟩ := List.mem_map.mp (hkeys v hv)
      have hwritten := (hbaseline v').mp hv'
      exact keyOf_injective hwritten.words hv.words heq ▸ hwritten
    · intro hfinds v hv
      exact List.mem_map_of_mem ((hbaseline v).mpr (hfinds v hv))

/-- One file with one call that does not mention the tenant. -/
def unscopedTree : List (List CodeUnit × List Entry) :=
  [(utf16 "src/ledger", [.file (utf16 "a.ts") (utf16 "await AModel.find ({ id })")])]

/-- The tree is checked once while it is empty, and passes when it is as it was. -/
theorem baseline_honoured_unchanged : ∃ baseline,
    session (fun _ _ => true) [] ([] ++ (unscopedTree, .updateBaseline) :: [([], .check)]) = some baseline ∧
      main (fun _ _ => true) unscopedTree baseline .report = some (0, baseline) := by
  have hchecked : ∀ run ∈ [(([] : List (List CodeUnit × List Entry)), Mode.check)], run.2 ≠ .updateBaseline := by
    intro run hrun
    rw [List.mem_singleton.mp hrun]
    exact fun h => by cases h
  have hreport : Mode.report ≠ .updateBaseline := fun h => by cases h
  obtain ⟨baseline, code, hsession, hmain, hcode⟩ :=
    baseline_honoured (fun _ _ => true) [] [] [([], .check)] unscopedTree unscopedTree hchecked hreport
  obtain rfl := hcode.mpr fun v hv => hv
  exact ⟨baseline, hsession, hmain⟩

end baseline
end RedRoomRewards.TenantScopeCheck
