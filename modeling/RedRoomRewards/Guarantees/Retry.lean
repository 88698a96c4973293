import RedRoomRewards.Alone.Commands
import RedRoomRewards.Guarantees.Conservation
import RedRoomRewards.Guarantees.OncePerKey

/-! An escrow operation that is issued once more with the same key: as long as the record of
the key is on file the second call throws, however the first one ended. -/
namespace RedRoomRewards
open Process Store WalletService

/-- The calls of the escrow operations themselves. -/
def Call.isEscrowRequest : Call → Bool
  | .hold _ | .settle .. | .refund .. | .partialSettle .. => true
  | _ => false

/-- A settlement or refund without a token. -/
def Call.unauthorized : Call → Bool
  | .settle _ authorization => authorization.all (·.token = "")
  | .refund _ authorization => authorization.all (·.token = "")
  | .partialSettle _ authorization => authorization.all (·.token = "")
  | _ => false

section programs
variable (config : Config) {call : Call}

private theorem guarded_body {α : Type} {p : Prop} [Decidable p] {e : ServiceError} {key scope : String}
    {rest : Unit → Service α} {response : α → Response} {body : Service (Next Call Response)}
    (hbody : body = returning response (Prog.throwIf p e >>= fun _ => claim key scope >>= rest)) :
    (p → ∃ e, body = Prog.throw e) ∧ (¬ p → ∃ rest, body = claim key scope >>= rest) := by
  subst hbody
  constructor
  · intro hp
    rw [Prog.throwIf_pos hp]
    exact ⟨e, rfl⟩
  · intro hp
    rw [Prog.throwIf_neg hp, Prog.ret_bind]
    exact ⟨_, Prog.bind_assoc _ _ _⟩

/-- An escrow operation starts by claiming its key, unless it lacks its token. -/
theorem Call.body_of_isEscrowRequest (h : call.isEscrowRequest = true) :
    ∃ key scope, call.operation.claim = some (key, scope) ∧
      (call.unauthorized = true → ∃ e, call.body config = Prog.throw e) ∧
      (¬ call.unauthorized = true → ∃ rest, call.body config = claim key scope >>= rest) := by
  cases call with
  | hold request => exact ⟨_, _, rfl, nofun, fun _ => ⟨_, Prog.bind_assoc _ _ _⟩⟩
  | settle request authorization | refund request authorization | partialSettle request authorization =>
    exact ⟨_, _, rfl, guarded_body rfl⟩
  | _ => cases h

end programs

section offers

/-- The command offers to reserve the key of the call. -/
def Call.Offers (call : Call) (c : Cmd) : Prop :=
  ∃ key scope t t', call.operation.claim = some (key, scope) ∧
    c = .createIdempotencyRecord (reservation key scope t t')

/-- An escrow operation with its token does not end before it has offered to reserve
its key. -/
def offering : Contract Mongo Call Response ServiceError Prop where
  start := fun _ => False
  next := fun call offered c _ => offered ∨ call.Offers c
  may := fun _ _ _ => True
  ends := fun call offered _ => call.isEscrowRequest = true → ¬ call.unauthorized = true → offered
  resumes := fun call call' offered => call.isEscrowRequest = true → call' = call ∨ offered

private theorem offering_stable {config : Config} {call : Call} {offered : Prop} (hoffered : offered)
    (p : Service (Next Call Response)) :
    Prog.Obeys (offering.rules (system config) call) (offering.settles call) offered p := by
  refine Prog.obeys_stable (P := fun offered => offered) p hoffered (fun _ _ _ => .inl) (fun _ _ _ => trivial) ?_
  rintro offered (e | a | a) hoffered
  · exact fun _ _ => hoffered
  · exact fun _ _ => hoffered
  · exact fun _ => .inr hoffered

private theorem offering_kept (config : Config) : offering.Kept (system config) where
  starts := fun _ _ => .inl rfl
  body := by
    intro call call' offered hresumes
    by_cases hescrow : call.isEscrowRequest = true
    · rcases hresumes hescrow with rfl | hoffered
      · obtain ⟨key, scope, hclaim, hnone, hbody⟩ := call'.body_of_isEscrowRequest config hescrow
        show Prog.Obeys _ _ _ (call'.body config)
        by_cases hunauthorized : call'.unauthorized = true
        · obtain ⟨e, he⟩ := hnone hunauthorized
          rw [he]
          exact fun _ hauthorized => absurd hunauthorized hauthorized
        · obtain ⟨rest, hrest⟩ := hbody hunauthorized
          rw [hrest]
          refine ⟨trivial, fun t _ => ⟨trivial, fun t' _ => ⟨trivial, fun r _ => offering_stable ?_ _⟩⟩⟩
          exact .inr ⟨key, scope, t, t', hclaim, rfl⟩
      · exact offering_stable hoffered _
    · apply Prog.obeys_stable (P := fun _ => True) _ trivial (fun _ _ _ _ => trivial) (fun _ _ _ => trivial)
      rintro offered (e | a | a) -
      · exact fun h => absurd h hescrow
      · exact fun h => absurd h hescrow
      · exact fun h => absurd h hescrow

variable {config : Config} {A : Schedule} {d : Db} {s : Run}

/-- An ended call with its token has offered to reserve its key. -/
theorem offered_of_ended (h : (system config).Reaches A (.start d) s) {t : ℕ} {call : Call}
    (hcall : s.calls t = some call) (hescrow : call.isEscrowRequest = true)
    (hauthorized : ¬ call.unauthorized = true) (hended : (s.result t).isSome) :
    ∃ ev ∈ s.log, call.Offers ev.cmd := by
  obtain ⟨r, hr⟩ := Option.isSome_iff_exists.mp hended
  have htrack : offering.track s t = some (call, offering.record call (s.history t)) := by
    rw [Contract.track, hcall, Option.map_some]
  have hoffered := (offering_kept config).ends h htrack hr hescrow hauthorized
  have hhistory : ∀ hist : List (Event Mongo Call), offering.record call hist →
      ∃ ev ∈ hist, call.Offers ev.cmd := by
    intro hist
    induction hist with
    | nil => exact False.elim
    | cons ev hist ih =>
      rintro (hbefore | hnow)
      · obtain ⟨ev', hev', hoffers⟩ := ih hbefore
        exact ⟨ev', .tail _ hev', hoffers⟩
      · exact ⟨ev, .head _, hnow⟩
  obtain ⟨ev, hev, hoffers⟩ := hhistory _ hoffered
  exact ⟨ev, (s.mem_history.mp hev).1, hoffers⟩

end offers

section spent
variable {config : Config} {A : Schedule} {d : Db} {s s' : Run} {key scope : String}

private theorem exec_spent (o : Oracle) {db : Db} (c : Cmd) (h : ¬ db.Claimable key scope) :
    ¬ (exec o db c).2.Claimable key scope := by
  rintro ⟨hkey, hscope, hfind⟩
  have hnone : db.records.find (key, scope) ≠ none := fun hnone => h ⟨hkey, hscope, hnone⟩
  have hstays := records_stay (c := c) (o := o) (Option.isSome_iff_ne_none.mpr hnone)
  rw [hfind] at hstays
  cases hstays

private theorem exec_reservation (o : Oracle) (db : Db) (t t' : Time) :
    ¬ (exec o db (.createIdempotencyRecord (reservation key scope t t'))).2.Claimable key scope := by
  by_cases hclaim : db.Claimable key scope
  · obtain ⟨hvalid, hfree⟩ := (reservation_storable t t').mpr hclaim
    simp only [exec]
    rw [create_of_free hvalid hfree]
    rintro ⟨-, -, hfind⟩
    rw [Collection.find_insert hfree] at hfind
    simp [reservation, IdempotencyRecord.claim] at hfind
  · exact exec_spent o _ hclaim

/-- A key that cannot be claimed never can be again. -/
theorem stays_spent (h : (system config).Reaches A s s') (hspent : ¬ s.db.Claimable key scope) :
    ¬ s'.db.Claimable key scope := by
  induction h using Machine.Reaches.by_steps with
  | start => exact hspent
  | spawn s t c _ _ _ ih => exact ih
  | act s t o call c k _ _ _ ih => exact exec_spent o c ih
  | restart s t o call c _ _ _ ih => exact ih

/-- An offer to reserve a key leaves it spent, whether it was accepted or not. -/
theorem spent_of_offered (h : (system config).Reaches A (.start d) s) {call : Call}
    (hclaim : call.operation.claim = some (key, scope)) {ev : Event Mongo Call} (hev : ev ∈ s.log)
    (hoffers : call.Offers ev.cmd) : ¬ s.db.Claimable key scope := by
  induction h using Machine.Reaches.by_steps with
  | start => cases hev
  | spawn s t c _ _ _ ih => exact ih hev
  | act s t o call' c k _ _ _ ih =>
    rcases List.mem_cons.mp hev with rfl | hold
    · obtain ⟨key', scope', t₁, t₂, hclaim', rfl⟩ := hoffers
      obtain ⟨rfl, rfl⟩ := Prod.mk.inj (Option.some.inj (hclaim'.symm.trans hclaim))
      exact exec_reservation o s.db t₁ t₂
    · exact exec_spent o c (ih hold)
  | restart s t o call' c _ _ _ ih => exact ih hev

end spent

section retry
variable {config : Config} {A : Schedule} {d : Db} {s s' : Run} {call : Call}

private theorem alone_spent {key scope : String} (rest : Unit → Service (Next Call Response)) {db : Db}
    (hspent : ¬ db.Claimable key scope) :
    Alone (fun _ => True) (fun r db' => (∃ e, r = .error e) ∧ db' = db) (claim key scope >>= rest) db :=
  alone_bind (alone_claim (fun hclaim => absurd hclaim hspent) fun _ e => ⟨⟨e, rfl⟩, rfl⟩)

/-- Where the key cannot be claimed, the call throws and changes nothing. -/
theorem throws_of_spent {key scope : String} {db : Db} (hescrow : call.isEscrowRequest = true)
    (hclaim : call.operation.claim = some (key, scope)) (hspent : ¬ db.Claimable key scope) (os : ℕ → Oracle) :
    ∃ e, (call.body config).solo exec os db = (.error e, db) := by
  obtain ⟨key', scope', hclaim', hnone, hbody⟩ := call.body_of_isEscrowRequest config hescrow
  obtain ⟨rfl, rfl⟩ := Prod.mk.inj (Option.some.inj (hclaim.symm.trans hclaim'))
  by_cases hunauthorized : call.unauthorized = true
  · obtain ⟨e, he⟩ := hnone hunauthorized
    exact ⟨e, by rw [he]; rfl⟩
  · obtain ⟨rest, hrest⟩ := hbody hunauthorized
    obtain ⟨⟨e, he⟩, hdb⟩ := (alone_spent rest hspent).always os
    exact ⟨e, by rw [hrest]; exact Prod.ext he hdb⟩

/-- Where the database is reached throughout and keeps its records, an escrow operation that is
issued again after it has ended throws and changes nothing. -/
theorem reissued_throws (h : (system config).Reaches A (.start d) s)
    (hlater : (system config).Reaches A s s') {t : ℕ} (hcall : s.calls t = some call)
    (hescrow : call.isEscrowRequest = true) (hended : (s.result t).isSome) (os : ℕ → Oracle) :
    ∃ e, (call.body config).solo exec os s'.db = (.error e, s'.db) := by
  obtain ⟨key, scope, hclaim, hnone, -⟩ := call.body_of_isEscrowRequest config hescrow
  by_cases hunauthorized : call.unauthorized = true
  · obtain ⟨e, he⟩ := hnone hunauthorized
    exact ⟨e, by rw [he]; rfl⟩
  · obtain ⟨ev, hev, hoffers⟩ := offered_of_ended h hcall hescrow hunauthorized hended
    exact throws_of_spent hescrow hclaim (stays_spent hlater (spent_of_offered h hclaim hev hoffers)) os

/-- The record of the call's key is on file. -/
def Db.Files (db : Db) (call : Call) : Prop := ∃ k ∈ call.operation.claim, db.records.find k ≠ none

/-- The store without the record of the call's key. -/
def Db.without (db : Db) (call : Call) : Db :=
  match call.operation.claim with
  | some k => { db with records := db.records.erase k }
  | none => db

/-- The call would go through on this store if its key had not been used. -/
def Payable (config : Config) (db : Db) (call : Call) (os : ℕ → Oracle) : Prop :=
  ((call.body config).solo exec os (db.without call)).1.isOk = true

/-- The thread has committed no balance update. -/
def Unpaid (s : Run) (t : ℕ) : Prop :=
  ∀ ev ∈ s.history t, ev.cmd.walletCommit ev.reply = none ∧ ev.cmd.modelCommit ev.reply = none

/-- What the contract for keys promises of the call of thread `t`, ended in `s`, when it is
issued again alone in `s'`: the first response once more and no change; or, if the first call
threw and moved nothing, all that a call with an unused key does. -/
structure SafeRetry (config : Config) (s s' : Run) (t : ℕ) (call : Call) (os : ℕ → Oracle) : Prop where
  returned : ∀ response, s.result t = some (.ok response) →
    (call.body config).solo exec os s'.db = (.ok (.done response), s'.db)
  thrown : (∃ e, s.result t = some (.error e)) → Unpaid s t → Payable config s'.db call os →
    (call.body config).solo exec os s'.db = (call.body config).solo exec os (s'.db.without call)

theorem without_of_not_files {db : Db} (h : ¬ db.Files call) : db.without call = db := by
  unfold Db.without
  cases hclaim : call.operation.claim with
  | none => rfl
  | some k =>
    have hnone : db.records.find k = none := not_not.mp fun hfound => h ⟨k, hclaim, hfound⟩
    show { db with records := db.records.erase k } = db
    rw [Collection.erase_of_find_none hnone]

variable (config) in
/-- A call alone that does not throw leaves the record of its key behind. -/
private theorem files_of_returned {db : Db} (hescrow : call.isEscrowRequest = true) (os : ℕ → Oracle)
    (hok : ((call.body config).solo exec os db).1.isOk = true) :
    ((call.body config).solo exec os db).2.Files call := by
  obtain ⟨key, scope, hclaim, hnone, hbody⟩ := call.body_of_isEscrowRequest config hescrow
  have hunauthorized : ¬ call.unauthorized = true := by
    intro hunauthorized
    obtain ⟨e, he⟩ := hnone hunauthorized
    rw [he] at hok
    cases hok
  obtain ⟨rest, hrest⟩ := hbody hunauthorized
  have hyields : Alone (fun _ => True) (fun r db' => r.isOk = true → db'.records.find (key, scope) ≠ none)
      (claim key scope >>= rest) db := by
    refine alone_bind (alone_reserve (fun t t' hclaimable => ?_) fun _ e h => by cases h)
    have hfree := ((reservation_storable t t').mpr hclaimable).2
    have htaken : ((db.records.insert (reservation key scope t t')).find (key, scope)).isSome = true := by
      rw [Collection.find_insert hfree, if_pos (by simp [reservation, IdempotencyRecord.claim])]
      rfl
    exact (Prog.yields_invariant (fun o db c h => records_stay h) (rest ()) htaken).imp
      fun _ _ h _ => Option.isSome_iff_ne_none.mp h
  rw [hrest] at hok ⊢
  exact ⟨_, hclaim, hyields.always os hok⟩

/-- A call issued again keeps the promise exactly if the first one did not return, and, if it threw,
moved nothing and could be paid now, no record of its key is on file: its claim failed on an error
of the database, or the record has expired since. The two states are any two, whatever other calls,
failures and expired records lie between them. Keys are trimmed. -/
theorem safe_retry_iff (hescrow : call.isEscrowRequest = true) (s s' : Run) (t : ℕ) (os : ℕ → Oracle) :
    SafeRetry config s s' t call os ↔
      (∀ response, s.result t ≠ some (.ok response)) ∧
      ((∃ e, s.result t = some (.error e)) → Unpaid s t → Payable config s'.db call os → ¬ s'.db.Files call) := by
  have hthrows : ∀ {db : Db}, db.Files call → ∃ e, (call.body config).solo exec os db = (.error e, db) := by
    rintro db ⟨⟨key, scope⟩, hclaim, hfound⟩
    exact throws_of_spent hescrow hclaim (fun hclaimable => hfound hclaimable.2.2) os
  constructor
  · intro hsafe
    refine ⟨fun response hr => ?_, fun hthrown hunpaid hpayable hfiles => ?_⟩
    · -- the first call returned: the second one throws, or files the record of its key
      have hagain := hsafe.returned response hr
      by_cases hfiles : s'.db.Files call
      · obtain ⟨e, he⟩ := hthrows hfiles
        cases (Prod.mk.inj (he.symm.trans hagain)).1
      · have hfiled := files_of_returned config hescrow os (by rw [hagain]; rfl)
        rw [hagain] at hfiled
        exact hfiles hfiled
    · obtain ⟨e, he⟩ := hthrows hfiles
      rw [Payable, ← hsafe.thrown hthrown hunpaid hpayable, he] at hpayable
      cases hpayable
  · rintro ⟨hnever, hfree⟩
    refine ⟨fun response hr => absurd hr (hnever response), fun hthrown hunpaid hpayable => ?_⟩
    rw [without_of_not_files (hfree hthrown hunpaid hpayable)]

/-- Where the database is reached throughout and keeps its records, no escrow operation can be
retried: if the first call has returned, or has thrown without moving a balance, the second one
breaks the promise. -/
theorem retry_never_safe (h : (system config).Reaches A (.start d) s)
    (hlater : (system config).Reaches A s s') {t : ℕ} (hcall : s.calls t = some call)
    (hescrow : call.isEscrowRequest = true) (os : ℕ → Oracle)
    (hfirst : (∃ response, s.result t = some (.ok response)) ∨
      (∃ e, s.result t = some (.error e)) ∧ Unpaid s t ∧ Payable config s'.db call os) :
    ¬ SafeRetry config s s' t call os := by
  intro hsafe
  have hended : (s.result t).isSome := by
    rcases hfirst with ⟨response, hr⟩ | ⟨⟨e, hr⟩, -⟩ <;> rw [hr] <;> rfl
  obtain ⟨e, he⟩ := reissued_throws h hlater hcall hescrow hended os
  rcases hfirst with ⟨response, hr⟩ | ⟨hthrown, hunpaid, hpayable⟩
  · cases (Prod.mk.inj (he.symm.trans (hsafe.returned response hr))).1
  · rw [Payable, ← hsafe.thrown hthrown hunpaid hpayable, he] at hpayable
    cases hpayable

end retry

section weather

/-- What may befall the idempotency records at a step: some expire, and the database may fail
when one is to be stored. -/
structure Weather where
  oracle : Oracle
  expired : List (String × String)
  outage : Option String

/-- One command, once the expired records are gone. -/
def execUnder (w : Weather) (db : Db) (c : Cmd) : c.Reply × Db :=
  let db := { db with records := w.expired.foldl (fun records k => records.erase k) db.records }
  match c, w.outage with
  | .createIdempotencyRecord _, some message => (.error (.unavailable message), db)
  | c, _ => exec w.oracle db c

/-- The services over a database that may fail and in which records expire. -/
def hosted (config : Config) : Machine Mongo Db Weather Call Response ServiceError where
  exec := execUnder
  body := Call.body config

end weather

section scenario

/-- The claim of the first hold fails on an error of the database: the hold can be issued again. -/
theorem safe_retry_after_outage :
    ∃ s, (hosted (defaultConfig fun _ => none)).Reaches (fun _ _ => True) (.start fundedDb) s ∧
      s.result 0 = some (.error (.mongo (.unavailable "not primary"))) ∧
      Payable (defaultConfig fun _ => none) s.db (.hold sampleHold) tick ∧
      SafeRetry (defaultConfig fun _ => none) s s 0 (.hold sampleHold) tick := by
  have hrun := (hosted (defaultConfig fun _ => none)).exists_reaches (A := fun _ _ => True) (.start fundedDb)
    (.spawn 0 (.hold sampleHold) :: (List.range 3).map fun n => .run 0 ⟨tick n, [], some "not primary"⟩)
    (fun s => ((s.result 0).map fun r => match r with
        | .ok _ => none
        | .error e => some e, decide (s.db.records.docs = []),
      (((Call.hold sampleHold).body (defaultConfig fun _ => none)).solo exec tick
        (s.db.without (.hold sampleHold))).1.isOk))
    (a := (some (some (.mongo (.unavailable "not primary"))), true, true)) (by decide +kernel)
  obtain ⟨s, hs, hfacts⟩ := hrun
  obtain ⟨hfailed, hrest⟩ := Prod.mk.inj hfacts
  obtain ⟨hempty, hpayable⟩ := Prod.mk.inj hrest
  have hthrown : s.result 0 = some (.error (.mongo (.unavailable "not primary"))) := by
    obtain ⟨r, hr, he⟩ := Option.map_eq_some_iff.mp hfailed
    cases r with
    | ok response => cases he
    | error e => rw [hr, Option.some.inj he]
  refine ⟨s, hs, hthrown, hpayable, (safe_retry_iff rfl s s 0 tick).mpr ⟨fun response hr => ?_, fun _ _ _ => ?_⟩⟩
  · rw [hthrown] at hr
    cases hr
  · rintro ⟨k, -, hfound⟩
    exact hfound (Collection.find_eq_none.mpr fun r hr => by
      rw [of_decide_eq_true hempty] at hr
      cases hr)

/-- A hold of 30 points that the user does not have is issued again when an award has
made it payable. -/
theorem retry_not_safe_after_refusal :
    ∃ s s', (hosted (defaultConfig fun _ => none)).Reaches (fun _ _ => True)
        (.start { Db.empty with wallets := Collection.empty.insert ⟨"user-1", 10, 0, "points", 0⟩ }) s ∧
      (hosted (defaultConfig fun _ => none)).Reaches (fun _ _ => True) s s' ∧
      s.calls 0 = some (.hold sampleHold) ∧
      ¬ SafeRetry (defaultConfig fun _ => none) s s' 0 (.hold sampleHold) tick := by
  obtain ⟨s, s', hs, hs', hfacts, hcalls⟩ := (hosted (defaultConfig fun _ => none)).exists_reaches_twice
    (fun _ _ => True) { Db.empty with wallets := Collection.empty.insert ⟨"user-1", 10, 0, "points", 0⟩ }
    (.spawn 0 (.hold sampleHold) :: (List.range 4).map fun n => .run 0 ⟨tick n, [], none⟩)
    (.spawn 1 (.award sampleAward) :: (List.range 8).map fun n => .run 1 ⟨tick n, [], none⟩)
    (fun s s' => ((s.result 0).all Except.isOk,
      (s.history 0).all fun ev => (ev.cmd.walletCommit ev.reply).isNone && (ev.cmd.modelCommit ev.reply).isNone,
      (((Call.hold sampleHold).body (defaultConfig fun _ => none)).solo exec tick
        (s'.db.without (.hold sampleHold))).1.isOk,
      (((Call.hold sampleHold).body (defaultConfig fun _ => none)).solo exec tick s'.db).1.isOk))
    (a := (false, true, true, false)) (by decide +kernel)
  obtain ⟨hthrown, hrest⟩ := Prod.mk.inj hfacts
  obtain ⟨hunpaid, hrest⟩ := Prod.mk.inj hrest
  obtain ⟨hpayable, hagain⟩ := Prod.mk.inj hrest
  refine ⟨s, s', hs, hs', hcalls 0 _ (.head _), fun hsafe => ?_⟩
  cases hr : s.result 0 with
  | none => simp [hr] at hthrown
  | some r =>
    cases r with
    | ok response => simp [hr, Except.isOk, Except.toBool] at hthrown
    | error e =>
      rw [hsafe.thrown ⟨e, hr⟩ (by simpa [Unpaid, List.all_eq_true] using hunpaid) hpayable, hpayable] at hagain
      cases hagain

end scenario
end RedRoomRewards
