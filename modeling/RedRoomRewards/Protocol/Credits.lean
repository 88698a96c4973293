import RedRoomRewards.Alone.Commands
import RedRoomRewards.Protocol.Entries
import RedRoomRewards.Service.Membership

/-! What one promotional credit does to the ledger: at most one attempt to write, whose reply
decides how the credit ends. So the calls of the front office can be told by their attempts. -/
namespace RedRoomRewards
open Process LedgerService

section attempts

/-- The reply to a write to the ledger. -/
abbrev Attempt := Except MongoError LedgerEntry

def Cmd.attempt : (c : Cmd) → c.Reply → Option Attempt
  | .createLedgerEntry _, r => some r
  | _, _ => none

theorem Cmd.attempt_eq_none {c : Cmd} (hc : c.ledgerKey = none) (r : c.Reply) : c.attempt r = none := by
  cases c with
  | createLedgerEntry e => cases hc
  | _ => rfl

/-- The attempts on record, the latest last. -/
def attempting : Prog.Rules Mongo (List Attempt) where
  possible := Possible
  next := fun made c r => made ++ (c.attempt r).toList
  may := fun _ _ => True

/-- The program ends as `ends` says of the attempts made and its result. -/
abbrev Attempts {α : Type} (ends : List Attempt → Except ServiceError α → Prop) (made : List Attempt) (p : Service α) :
    Prop := Prog.Obeys attempting ends made p

end attempts

section credits

/-- The entry is a credit of this request. -/
structure CreditOf (request : PromotionalRequest) (e : LedgerEntry) : Prop where
  account : e.accountId = request.accountId ∧ e.accountType = .user ∧ e.balanceState = .available
  amount : e.amount = request.amount ∧ e.type = .credit
  after : e.balanceAfter = e.balanceBefore + request.amount
  reason : e.reason = .promotionalAward ∧
    e.metadata = some [("reason", .str request.reason), ("source", .str request.source)]
  correlated : e.correlationId = some request.source

/-- The complaint about the texts of a request. -/
def piiOf (request : PromotionalRequest) : Option Message :=
  piiIn [("reason", .str request.reason), ("source", .str request.source)]

/-- How a credit ends: the attempts it makes, and its result. -/
inductive Credited (request : PromotionalRequest) : List Attempt → Except ServiceError Unit → Prop
  | refused (h : request.amount ≤ 0) :
      Credited request [] (.error (.error ["creditPoints: amount must be positive, got ", request.amount]))
  | rejected {message} (h : 0 < request.amount) (hpii : piiOf request = some message) :
      Credited request [] (.error (.ledger (.error message)))
  | written {e} (h : 0 < request.amount) (hpii : piiOf request = none) (he : CreditOf request e) :
      Credited request [.ok e] (.ok ())
  | known (h : 0 < request.amount) (hpii : piiOf request = none) :
      Credited request [.error (.duplicateKey ["idempotencyKey"])] (.ok ())
  | failed {e} (h : 0 < request.amount) (hpii : piiOf request = none) :
      Credited request [.error e] (.error (.ledger (.mongo e)))

end credits

section rules
variable {config : LedgerService.Config} {α β : Type} {made : List Attempt}
variable {ends : List Attempt → Except ServiceError α → Prop}

theorem attempts_issue {c : Cmd} {k : c.Reply → Service α} (hc : c.ledgerKey = none) (hk : ∀ r, Attempts ends made (k r)) :
    Attempts ends made (issue c >>= k) := by
  refine ⟨trivial, fun r _ => ?_⟩
  show Attempts ends (made ++ (c.attempt r).toList) (k r)
  rw [Cmd.attempt_eq_none hc, Option.toList_none, List.append_nil]
  exact hk r

theorem attempts_bind {ends : List Attempt → Except ServiceError β → Prop} {p : Service α} {f : α → Service β}
    (h : Attempts (Prog.andThen attempting ends f) made p) : Attempts ends made (p >>= f) :=
  (Prog.obeys_bind p f made).mpr h

theorem attempts_throwIf {p : Prop} [Decidable p] {e : ServiceError} {f : Unit → Service α}
    (hthrow : p → ends made (.error e)) (hf : ¬ p → Attempts ends made (f ())) :
    Attempts ends made (Prog.throwIf p e >>= f) := (Prog.obeys_throwIf_bind _ _ _ _).mpr ⟨hthrow, hf⟩

/-- Programs of which nothing is asked. -/
theorem attempts_any {p : Service α} (h : ∀ made r, ends made r) : Attempts ends made p :=
  Prog.obeys_stable (P := fun _ => True) p trivial (fun _ _ _ _ => trivial) (fun _ _ _ => trivial) fun made r _ => h made r

private theorem attempts_givenOrFresh {id : Option String} {k : String → Service α}
    (hk : ∀ id, Attempts ends made (k id)) : Attempts ends made (givenOrFresh id >>= k) := by
  unfold givenOrFresh
  split
  · split
    · exact attempts_issue rfl hk
    · exact hk _
  · exact attempts_issue rfl hk

private theorem attempts_keyOr {request : PromotionalRequest} {kind : String} {k : String → Service α}
    (hk : ∀ key, Attempts ends made (k key)) : Attempts ends made (keyOr request kind >>= k) := by
  unfold keyOr
  cases request.idempotencyKey with
  | some key => exact hk key
  | none => exact attempts_issue rfl fun id => hk _

/-- How an insert ends. -/
private inductive Inserted (e : LedgerEntry) : List Attempt → Except ServiceError LedgerEntry → Prop
  | written : Inserted e [.ok e] (.ok e)
  | known (e') : Inserted e [.error (.duplicateKey ["idempotencyKey"])] (.ok e')
  | failed (error) : Inserted e [.error error] (.error (.ledger (.mongo error)))

private theorem attempts_insertEntry (e : LedgerEntry) :
    Attempts (fun made' r => ∃ now, made' = made ++ now ∧ Inserted e now r) made (insertEntry e) := by
  refine ⟨trivial, fun r hr => ?_⟩
  cases r with
  | ok e' =>
    obtain rfl := hr.createLedgerEntry
    exact ⟨_, rfl, .written⟩
  | error error =>
    show Attempts _ (made ++ [.error error]) (if error = .duplicateKey ["idempotencyKey"] then _ else _)
    split
    · rename_i hknown
      subst hknown
      refine attempts_issue rfl fun existing => ?_
      cases existing with
      | some e' => exact ⟨_, rfl, .known e'⟩
      | none => exact ⟨_, rfl, .failed _⟩
    · exact ⟨_, rfl, .failed error⟩

/-- A credit whose source is not blank. -/
theorem attempts_creditPoints (request : PromotionalRequest) (hsource : blank request.source = false) :
    Attempts (fun made' r => ∃ now, made' = made ++ now ∧ Credited request now (r.map fun _ => ())) made
      (creditPoints config request) := by
  apply attempts_throwIf
  · intro hamount
    exact ⟨[], (List.append_nil made).symm, .refused hamount⟩
  intro hamount
  have hpositive := not_le.mp hamount
  refine attempts_issue rfl fun entries => attempts_issue rfl fun now => ?_
  refine attempts_keyOr fun key => attempts_issue rfl fun requestId => ?_
  apply attempts_bind
  refine attempts_throwIf (fun h => by cases h.2) fun _ => attempts_throwIf (fun h => by cases h.1) fun _ => ?_
  split
  case h_1 message hpii => exact ⟨[], (List.append_nil made).symm, .rejected hpositive hpii⟩
  case h_2 hpii =>
    refine attempts_issue rfl fun entryId => attempts_givenOrFresh fun transactionId => attempts_issue rfl fun timestamp => ?_
    have hcorrelated : (if blank request.source = true then transactionId else request.source) = request.source := by
      rw [hsource, if_neg Bool.false_ne_true]
    have hblank : ¬ blank (if blank request.source = true then transactionId else request.source) = true := by
      rw [hcorrelated, hsource]
      exact Bool.false_ne_true
    refine attempts_throwIf (fun h => absurd h hblank) fun _ => (attempts_insertEntry _).imp ?_
    rintro made' r ⟨now', rfl, hinserted⟩
    cases hinserted with
    | written =>
      refine ⟨_, rfl, .written hpositive hpii ⟨⟨rfl, rfl, rfl⟩, ⟨rfl, rfl⟩, rfl, ⟨rfl, rfl⟩, ?_⟩⟩
      exact congrArg some hcorrelated
    | known e' => exact ⟨_, rfl, .known hpositive hpii⟩
    | failed error => exact ⟨_, rfl, .failed hpositive hpii⟩

end rules

section front
variable {ledger : LedgerService.Config} {thresholds : WelfareGuardianScoreService.Thresholds}
variable {A : State Mongo Db FrontCall FrontResponse ServiceError → Label Oracle FrontCall → Prop}
variable {d : Db} {s : State Mongo Db FrontCall FrontResponse ServiceError}

/-- The attempts in these events, of which the newest comes first. -/
def writeAttempts (hist : List (Event Mongo FrontCall)) : List Attempt := hist.reverse.filterMap fun ev => ev.cmd.attempt ev.reply

/-- The calls end as `ends` says of their attempts. -/
def endingAs (ends : FrontCall → List Attempt → Except ServiceError FrontResponse → Prop) :
    Contract Mongo FrontCall FrontResponse ServiceError (List Attempt) where
  start := fun _ => []
  next := fun _ => attempting.next
  may := fun _ _ _ => True
  ends := ends
  resumes := fun call call' made => call' = call ∧ made = []

private theorem record_attempts (ends : FrontCall → List Attempt → Except ServiceError FrontResponse → Prop)
    (call : FrontCall) (hist : List (Event Mongo FrontCall)) : (endingAs ends).record call hist = writeAttempts hist := by
  induction hist with
  | nil => rfl
  | cons ev hist ih =>
    show (endingAs ends).record call hist ++ (ev.cmd.attempt ev.reply).toList = _
    rw [ih, writeAttempts, writeAttempts, List.reverse_cons, List.filterMap_append, List.filterMap_cons]
    cases ev.cmd.attempt ev.reply <;> rfl

/-- If every call ends so by itself, it does in every run. -/
theorem ends_of_attempts {ends : FrontCall → List Attempt → Except ServiceError FrontResponse → Prop}
    (hbody : ∀ call : FrontCall, Attempts ((endingAs ends).settles call) [] (call.body ledger thresholds))
    (h : (frontOffice ledger thresholds).Reaches A (.start d) s) {t : ℕ} {call : FrontCall} (hcall : s.calls t = some call)
    {r : Except ServiceError FrontResponse} (hr : s.result t = some r) : ends call (writeAttempts (s.history t)) r := by
  have hkept : (endingAs ends).Kept (frontOffice ledger thresholds) :=
    ⟨fun _ => ⟨rfl, rfl⟩, by
      rintro call call' made ⟨rfl, rfl⟩
      exact hbody call'⟩
  rw [← record_attempts ends call]
  exact hkept.ends h (by rw [Contract.track, hcall]; rfl) hr

/-- What has been written is in the ledger. -/
theorem ledger_of_attempts (h : (frontOffice ledger thresholds).Reaches A (.start d) s) {t : ℕ} {e : LedgerEntry}
    (he : .ok e ∈ writeAttempts (s.history t)) : e ∈ s.db.ledger.docs := by
  have hlog : ∀ ev ∈ s.log, ∀ e, ev.cmd.attempt ev.reply = some (.ok e) → e ∈ s.db.ledger.docs := by
    clear he
    induction h using Machine.Reaches.by_steps with
    | start => exact fun ev hev => by cases hev
    | spawn s t c _ _ _ ih => exact ih
    | act s t o call c k _ _ _ ih =>
      intro ev hev e he
      show e ∈ (exec o s.db c).2.ledger.docs
      rw [exec_ledger, List.mem_append]
      rcases List.mem_cons.mp hev with rfl | hold
      · right
        cases c with
        | createLedgerEntry e' =>
          have hreply : (exec o s.db (.createLedgerEntry e')).1 = .ok e := Option.some.inj he
          rw [hreply]
          exact .head _
        | _ => cases he
      · exact .inl (ih ev hold e he)
    | restart s t o call c _ _ _ ih => exact ih
  obtain ⟨ev, hev, hattempt⟩ := List.mem_filterMap.mp he
  exact hlog ev ((s.mem_history).mp (List.mem_reverse.mp hev)).1 e hattempt

end front
end RedRoomRewards
