import RedRoomRewards.Guarantees.BalanceLaw
import RedRoomRewards.Protocol.Credits

/-! A signup books the welcome bonus before it answers, and nothing where it is refused. -/
namespace RedRoomRewards
open Process LedgerService

namespace MemberService
open Text RegExp

section email

/-- A part, an `@`, and two parts with a full stop between them; no part is empty, and none
has a blank or another `@`. -/
def EmailForm (email : List Char) : Prop :=
  ∃ user host suffix, email = user ++ '@' :: (host ++ '.' :: suffix) ∧ (user ≠ [] ∧ host ≠ [] ∧ suffix ≠ []) ∧
    ∀ c ∈ user ++ host ++ suffix, emailChar c = true

theorem emailPattern_test (email : List Char) : emailPattern.test email = true ↔ EmailForm email := by
  rw [test_iff]
  constructor
  · rintro ⟨w, rest, rfl, hne⟩
    obtain ⟨y, hy⟩ := List.exists_mem_of_ne_nil _ hne
    simp only [emailPattern, seqs, List.foldr_cons, List.foldr_nil, mem_ends_seq, first, last, mem_ends_assertion,
      mem_ends_some1, mem_ends_text, mem_ends_empty] at hy
    obtain ⟨_, ⟨rfl, hfirst⟩, _, ⟨user, _, rfl, huser, hchars, rfl⟩, _, ⟨_, rfl, rfl⟩, _, ⟨host, _, rfl, hhost, hchars', rfl⟩,
      _, ⟨_, rfl, rfl⟩, _, ⟨suffix, rest, rfl, hsuffix, hchars'', rfl⟩, _, ⟨rfl, hlast⟩, rfl⟩ := hy
    have hw : w = [] := by simpa using hfirst
    have hrest : rest = [] := by simpa using hlast
    subst hw hrest
    refine ⟨user, host, suffix, by simp, ⟨huser, hhost, hsuffix⟩, ?_⟩
    intro c hc
    rcases List.mem_append.mp hc with hc | hc
    · rcases List.mem_append.mp hc with hc | hc
      · exact hchars c hc
      · exact hchars' c hc
    · exact hchars'' c hc
  · rintro ⟨user, host, suffix, rfl, ⟨huser, hhost, hsuffix⟩, hchars⟩
    have hall : ∀ c, (c ∈ user ∨ c ∈ host ∨ c ∈ suffix) → emailChar c = true := by
      intro c hc
      apply hchars c
      simpa [or_assoc] using hc
    refine ⟨[], _, rfl, List.ne_nil_of_mem (a := ⟨(user ++ '@' :: (host ++ '.' :: suffix)).reverse, [], []⟩) ?_⟩
    simp only [emailPattern, seqs, List.foldr_cons, List.foldr_nil, mem_ends_seq, first, last, mem_ends_assertion,
      mem_ends_some1, mem_ends_text, mem_ends_empty]
    refine ⟨_, ⟨rfl, rfl⟩, _, ⟨user, _, rfl, huser, fun c hc => hall c (.inl hc), rfl⟩, _, ⟨_, rfl, rfl⟩, _,
      ⟨host, _, rfl, hhost, fun c hc => hall c (.inr (.inl hc)), rfl⟩, _, ⟨_, rfl, rfl⟩, _,
      ⟨suffix, [], (List.append_nil _).symm, hsuffix, fun c hc => hall c (.inr (.inr hc)), rfl⟩, _, ⟨rfl, rfl⟩, ?_⟩
    simp [Place.behind]

end email

section signup
variable {ledger : LedgerService.Config} {thresholds : WelfareGuardianScoreService.Thresholds}

/-- The welcome bonus of a member. -/
def welcome (memberId : String) : PromotionalRequest := ⟨memberId, 1000, "REDROOM_REWARDS", "WELCOME_BONUS", none⟩

/-- How a signup ends. -/
inductive SignedUp (request : MemberSignupRequest) : List Attempt → Except ServiceError FrontResponse → Prop
  | refused (h : ¬ EmailForm request.email.toList) :
      SignedUp request [] (.error (.error ["Valid email is required for signup"]))
  | failed {e} (h : EmailForm request.email.toList) : SignedUp request [.error e] (.error (.ledger (.mongo e)))
  | known {id verifiedAt} (h : EmailForm request.email.toList) :
      SignedUp request [.error (.duplicateKey ["idempotencyKey"])]
        (.ok (.signup ⟨"rr-" ++ id, .redDesire, 1000, 1000, verifiedAt⟩))
  | joined {id verifiedAt e} (h : EmailForm request.email.toList) (he : CreditOf (welcome ("rr-" ++ id)) e) :
      SignedUp request [.ok e] (.ok (.signup ⟨"rr-" ++ id, .redDesire, 1000, 1000, verifiedAt⟩))

private theorem pii_welcome (memberId : String) : piiOf (welcome memberId) = none := by
  show piiIn [("reason", .str "WELCOME_BONUS"), ("source", .str "REDROOM_REWARDS")] = none
  decide +kernel

private theorem tier_welcome : (TierEngineService.calculateTier welcomeBonusPoints).currentTier = .redDesire := by
  decide +kernel

/-- How a call ends that may be a signup. -/
private def Joined : FrontCall → List Attempt → Except ServiceError FrontResponse → Prop
  | .signup request, made, r => SignedUp request made r
  | _, _, _ => True

private theorem attempts_signup (request : MemberSignupRequest) :
    Attempts (fun made r => SignedUp request made (r.map FrontResponse.signup)) [] (signup ledger thresholds request) := by
  have hform : request.email = "" ∨ emailPattern.test request.email.toList = false ↔ ¬ EmailForm request.email.toList := by
    rw [← emailPattern_test, Bool.not_eq_true]
    constructor
    · rintro (hempty | htest)
      · rw [hempty]
        decide +kernel
      · exact htest
    · exact .inr
  refine attempts_throwIf (fun h => .refused (hform.mp h)) fun h => ?_
  have hemail := not_not.mp (hform.not.mp h)
  refine attempts_issue rfl fun verifiedAt => attempts_throwIf (fun h => by cases h) fun _ => ?_
  refine attempts_issue rfl fun id => attempts_bind ?_
  refine attempts_issue rfl fun _ => attempts_throwIf (fun h => by cases h) fun _ => ?_
  have hscore : RedRoomLedgerService.scoreAward thresholds ("rr-" ++ id) welcomeBonusPoints "WELCOME_BONUS" = .ret () :=
    if_neg (lt_irrefl welcomeBonusPoints)
  rw [hscore]
  have hsource : blank "REDROOM_REWARDS" = false := by decide +kernel
  have hpositive : ¬ (1000 : ℚ) ≤ 0 := by decide +kernel
  refine (attempts_creditPoints (welcome ("rr-" ++ id)) hsource).imp ?_
  rintro made (e | done) ⟨now, hmade, hcredited⟩ <;> obtain rfl : made = now := hmade
  · cases hcredited with
    | refused hamount => exact absurd hamount hpositive
    | rejected _ hpii =>
      rw [pii_welcome] at hpii
      cases hpii
    | failed _ _ => exact .failed hemail
  · show SignedUp request made (.ok (.signup ⟨_, (TierEngineService.calculateTier welcomeBonusPoints).currentTier, _, _, _⟩))
    rw [tier_welcome]
    cases hcredited with
    | written _ _ he => exact .joined hemail he
    | known _ _ => exact .known hemail

private theorem attempts_body (call : FrontCall) :
    Attempts ((endingAs Joined).settles call) [] (call.body ledger thresholds) := by
  cases call with
  | signup request =>
    refine attempts_bind ((attempts_signup request).imp ?_)
    rintro made (e | profile) hends
    · exact hends
    · exact hends
  | upload rows merchantId => exact attempts_bind (attempts_any fun made r => by cases r <;> trivial)
  | other program => exact attempts_bind (attempts_any fun made r => by cases r <;> trivial)

variable {A : State Mongo Db FrontCall FrontResponse ServiceError → Label Oracle FrontCall → Prop}
variable {d : Db} {s : State Mongo Db FrontCall FrontResponse ServiceError}

end signup
end MemberService
end RedRoomRewards
