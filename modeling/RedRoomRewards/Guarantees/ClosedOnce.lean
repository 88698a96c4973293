import RedRoomRewards.Service.Reservations
import RedRoomRewards.Process.History
import RedRoomRewards.Process.Execution

/-! Reservations leave `ACTIVE` once, by one call that reports it. A commit does not look at
`expiresAt`, so that one in time depends on the sweeps. -/
namespace RedRoomRewards.Reservations
open Process Store

section reports

/-- The reservation that the command has closed, by its reply. -/
def Cmd.reports : (c : Cmd) → c.Reply → Option String
  | .close id .., some _ => some id
  | .expire id _, true => some id
  | _, _ => none

variable (s : Run)

/-- The reservations that calls have closed, by the replies they got. -/
def reported : List String := s.log.filterMap fun ev => ev.cmd.reports ev.reply

/-- Those that the call of thread `t` has closed. -/
def caused (t : ℕ) : List String := (s.history t).filterMap fun ev => ev.cmd.reports ev.reply

/-- What a call that returns says of what it has closed. -/
def Call.Reports : Call → Response → List String → Prop
  | commit request, .closed r, ids => ids = if r.isSome then [request.reservationId] else []
  | release request, .closed r, ids => ids = if r.isSome then [request.reservationId] else []
  | markExpired _, .expired n, ids => n = ids.length
  | create _, .created _, ids => ids = []
  | _, _, _ => False

/-- The reservation exists and is not active. -/
def Closed (c : PointsReservations) (id : String) : Prop := ∃ r ∈ c.find id, r.status ≠ .active

instance (c : PointsReservations) (id : String) : Decidable (Closed c id) :=
  inferInstanceAs (Decidable (∃ r ∈ c.find id, _))

end reports

section condition

/-- A command that closes the reservation, or a sweep that comes to it when it is due. -/
def Cmd.settles (id : String) (expiresAt : Time) : (c : Cmd) → c.Reply → Bool
  | .close i .., some _ => i = id
  | .expire i t, _ => i = id && expiresAt ≤ t
  | _, _ => false

/-- The command has created the reservation. -/
def Cmd.creates (id : String) : (c : Cmd) → c.Reply → Bool
  | .create r, .ok _ => r.reservationId = id
  | _, _ => false

/-- Since the reservation was created, another call has closed it or a sweep has come to
it when it was due. -/
def settled (id : String) (expiresAt : Time) : List (Event Store Call) → Bool
  | [] => false
  | ev :: log => !ev.cmd.creates id ev.reply && (ev.cmd.settles id expiresAt ev.reply || settled id expiresAt log)

variable (s : Run)

/-- A commit comes before the reservation expires, or when it has been settled. -/
def InTime (o : Oracle) : Call → Cmd → Prop
  | .commit _, .close id .. => ∀ r ∈ s.db.find id, o.now < r.expiresAt ∨ settled id r.expiresAt s.log = true
  | _, _ => True

def Timely : Schedule
  | _, .spawn _ _ => True
  | s, .run t o => ∀ x ∈ s.pending t, InTime s o x.1 x.2

instance (o : Oracle) (call : Call) (c : Cmd) : Decidable (InTime s o call c) := by
  unfold InTime
  split <;> infer_instance

instance (l : Label Oracle Call) : Decidable (Timely s l) :=
  match l with
  | .spawn .. | .run .. => by dsimp only [Timely]; infer_instance

/-- The instant that a command reads from the clock. -/
def Cmd.reads : (c : Cmd) → c.Reply → Option Time
  | .now, t => some t
  | _, _ => none

/-- Runs with a clock that does not go back. -/
def Clocked : Schedule
  | _, .spawn _ _ => True
  | s, .run _ o => ∀ ev ∈ s.log, ∀ now ∈ ev.cmd.reads ev.reply, now ≤ o.now

instance (l : Label Oracle Call) : Decidable (Clocked s l) :=
  match l with
  | .spawn .. | .run .. => by dsimp only [Clocked]; infer_instance

end condition

section commands
variable {c : PointsReservations} {o : Oracle} {id : String} {r : Reservation}

theorem close_cases (c : PointsReservations) (id : String) (status : ReservationStatus) (t : Time) :
    (∃ r, c.find id = some r ∧ r.status = .active ∧ close c id status t =
      (some (r.closed status t), c.modify id _ (Reservation.closed_keeps status t))) ∨
    (∀ r ∈ c.find id, r.status ≠ .active) ∧ close c id status t = (none, c) := by
  unfold close
  cases hfind : c.find id with
  | none => exact .inr ⟨(fun _ h => by cases h), rfl⟩
  | some r =>
    by_cases hactive : r.status = .active
    · exact .inl ⟨r, rfl, hactive, if_pos hactive⟩
    · refine .inr ⟨fun r' h => ?_, if_neg hactive⟩
      rwa [← Option.some.inj h]

theorem expire_cases (c : PointsReservations) (id : String) (now : Time) :
    (∃ r, c.find id = some r ∧ r.status = .active ∧ r.expiresAt ≤ now ∧ expire c id now =
      (true, c.modify id _ (Reservation.closed_keeps .expired now))) ∨
    (∀ r ∈ c.find id, r.status = .active → ¬ r.expiresAt ≤ now) ∧ expire c id now = (false, c) := by
  unfold expire
  cases hfind : c.find id with
  | none => exact .inr ⟨(fun _ h => by cases h), rfl⟩
  | some r =>
    by_cases hdue : r.status = .active ∧ r.expiresAt ≤ now
    · exact .inl ⟨r, rfl, hdue.1, hdue.2, if_pos hdue⟩
    · refine .inr ⟨fun r' h hactive hle => ?_, if_neg hdue⟩
      rw [← Option.some.inj h] at hactive hle
      exact hdue ⟨hactive, hle⟩

/-- Reservations are created active, and closed with another status. -/
def Cmd.Final : Cmd → Prop
  | .close _ status _ => status ≠ .active
  | .create r => r.status = .active
  | _ => True

private theorem closed_modify {status : ReservationStatus} {t : Time} (hfinal : status ≠ .active)
    (hfind : c.find id = some r) (id' : String) :
    Closed (c.modify id _ (Reservation.closed_keeps status t)) id' ↔ Closed c id' ∨ id = id' := by
  by_cases hid : id = id'
  · subst hid
    exact ⟨fun _ => .inr rfl, fun _ => ⟨_, Collection.find_modify_self _ hfind, hfinal⟩⟩
  · rw [Closed, Collection.find_modify_ne (Ne.symm hid)]
    exact ⟨.inl, fun h => h.resolve_right hid⟩

private theorem not_closed (hfind : c.find id = some r) (hactive : r.status = .active) : ¬ Closed c id := by
  rintro ⟨r', hfind', hnot⟩
  obtain rfl : r = r' := Option.some.inj (hfind.symm.trans hfind')
  exact hnot hactive

/-- A command closes exactly the reservation that it reports, which was not closed before. -/
theorem closed_exec (o : Oracle) {cmd : Cmd} (hfinal : cmd.Final) (id : String) :
    (Closed (exec o c cmd).2 id ↔ Closed c id ∨ cmd.reports (exec o c cmd).1 = some id) ∧
      (cmd.reports (exec o c cmd).1 = some id → ¬ Closed c id) := by
  cases cmd with
  | create r =>
    simp only [exec]
    rcases create_cases c r r.invalid ["reservationId"] with ⟨e, he⟩ | ⟨-, hfree, hok⟩
    · rw [he]
      simp [Cmd.reports]
    · rw [hok]
      refine ⟨?_, fun hnone => by cases hnone⟩
      simp only [Cmd.reports, reduceCtorEq, or_false]
      rw [Closed, Closed, Collection.find_insert hfree]
      by_cases hid : id = r.reservationId
      · subst hid
        have hactive : r.status = .active := hfinal
        simp [hfree.find, hactive]
      · rw [if_neg hid]
  | close i status t =>
    simp only [exec]
    rcases close_cases c i status t with ⟨r, hfind, hactive, heq⟩ | ⟨-, heq⟩
    · rw [heq]
      refine ⟨(closed_modify hfinal hfind id).trans (by simp [Cmd.reports]), fun hreports => ?_⟩
      obtain rfl := Option.some.inj hreports
      exact not_closed hfind hactive
    · rw [heq]
      simp [Cmd.reports]
  | expire i now =>
    simp only [exec]
    rcases expire_cases c i now with ⟨r, hfind, hactive, -, heq⟩ | ⟨-, heq⟩
    · rw [heq]
      refine ⟨(closed_modify (by decide) hfind id).trans (by simp [Cmd.reports]), fun hreports => ?_⟩
      obtain rfl := Option.some.inj hreports
      exact not_closed hfind hactive
    · rw [heq]
      simp [Cmd.reports]
  | visit now batchSize => simp [exec, Cmd.reports]
  | now => simp [exec, Cmd.reports]

/-- A reservation stays, with its expiry, and once it is closed nothing changes it. -/
theorem kept_exec (o : Oracle) (cmd : Cmd) (hfind : c.find id = some r) :
    ∃ r', (exec o c cmd).2.find id = some r' ∧ r'.expiresAt = r.expiresAt ∧ (r.status ≠ .active → r' = r) := by
  have hmodified : ∀ i status t r₀, c.find i = some r₀ → r₀.status = .active →
      ∃ r', (c.modify i _ (Reservation.closed_keeps status t)).find id = some r' ∧ r'.expiresAt = r.expiresAt ∧
        (r.status ≠ .active → r' = r) := by
    intro i status t r₀ hfind₀ hactive
    by_cases hid : id = i
    · subst hid
      obtain rfl : r = r₀ := Option.some.inj (hfind.symm.trans hfind₀)
      exact ⟨_, Collection.find_modify_self _ hfind, rfl, absurd hactive⟩
    · exact ⟨r, (Collection.find_modify_ne hid _ _).trans hfind, rfl, fun _ => rfl⟩
  cases cmd with
  | create new =>
    simp only [exec]
    rcases create_cases c new new.invalid ["reservationId"] with ⟨e, he⟩ | ⟨-, hfree, hok⟩
    · rw [he]
      exact ⟨r, hfind, rfl, fun _ => rfl⟩
    · rw [hok]
      exact ⟨r, Collection.find_insert_of_find hfree hfind, rfl, fun _ => rfl⟩
  | close i status t =>
    simp only [exec]
    rcases close_cases c i status t with ⟨r₀, hfind₀, hactive, heq⟩ | ⟨-, heq⟩
    · rw [heq]
      exact hmodified i status t r₀ hfind₀ hactive
    · rw [heq]
      exact ⟨r, hfind, rfl, fun _ => rfl⟩
  | expire i now =>
    simp only [exec]
    rcases expire_cases c i now with ⟨r₀, hfind₀, hactive, -, heq⟩ | ⟨-, heq⟩
    · rw [heq]
      exact hmodified i .expired now r₀ hfind₀ hactive
    · rw [heq]
      exact ⟨r, hfind, rfl, fun _ => rfl⟩
  | visit now batchSize => exact ⟨r, hfind, rfl, fun _ => rfl⟩
  | now => exact ⟨r, hfind, rfl, fun _ => rfl⟩

private theorem none_of_modified {i : String} {status : ReservationStatus} {t : Time} (hfind : c.find i = some r)
    (hnone : c.find id = none) : (c.modify i _ (Reservation.closed_keeps status t)).find id = none := by
  have hne : id ≠ i := by
    rintro rfl
    cases hnone.symm.trans hfind
  exact (Collection.find_modify_ne hne _ _).trans hnone

/-- A reservation that a command has made is a new one. -/
private theorem creates_of_new (cmd : Cmd) (hnone : c.find id = none) (hfind : (exec o c cmd).2.find id = some r) :
    cmd.creates id (exec o c cmd).1 = true := by
  cases cmd with
  | create new =>
    simp only [exec] at hfind ⊢
    rcases create_cases c new new.invalid ["reservationId"] with ⟨e, he⟩ | ⟨-, hfree, hok⟩
    · rw [he, hnone] at hfind
      cases hfind
    · rw [hok] at hfind ⊢
      by_contra hother
      have hne : id ≠ new.reservationId := by
        rintro rfl
        exact hother (decide_eq_true rfl)
      cases hnone.symm.trans ((Collection.find_insert_ne hfree hne).symm.trans hfind)
  | close i status t =>
    simp only [exec] at hfind
    rcases close_cases c i status t with ⟨r₀, hfind₀, -, heq⟩ | ⟨-, heq⟩
    · rw [heq] at hfind
      cases (none_of_modified hfind₀ hnone).symm.trans hfind
    · rw [heq, hnone] at hfind
      cases hfind
  | expire i now =>
    simp only [exec] at hfind
    rcases expire_cases c i now with ⟨r₀, hfind₀, -, -, heq⟩ | ⟨-, heq⟩
    · rw [heq] at hfind
      cases (none_of_modified hfind₀ hnone).symm.trans hfind
    · rw [heq, hnone] at hfind
      cases hfind
  | visit now batchSize => cases hnone.symm.trans hfind
  | now => cases hnone.symm.trans hfind

/-- A reservation that a command settles is closed then. -/
private theorem closed_of_settles {cmd : Cmd} (hfinal : cmd.Final) (hfind : c.find id = some r)
    (hsettles : cmd.settles id r.expiresAt (exec o c cmd).1 = true) : Closed (exec o c cmd).2 id := by
  cases cmd with
  | close i status t =>
    refine (closed_exec o hfinal id).1.mpr (.inr ?_)
    cases hreply : (exec o c (.close i status t)).1 with
    | none =>
      rw [hreply] at hsettles
      cases hsettles
    | some r' =>
      rw [hreply] at hsettles
      obtain rfl : i = id := of_decide_eq_true hsettles
      rfl
  | expire i now =>
    obtain ⟨hid, hdue⟩ := Bool.and_eq_true_iff.mp hsettles
    obtain rfl : i = id := of_decide_eq_true hid
    have hle : r.expiresAt ≤ now := of_decide_eq_true hdue
    apply (closed_exec o hfinal i).1.mpr
    simp only [exec]
    rcases expire_cases c i now with ⟨r₀, hfind₀, -, -, heq⟩ | ⟨hnot, heq⟩
    · rw [heq]
      exact .inr rfl
    · exact .inl ⟨r, hfind, fun hactive => hnot r hfind hactive hle⟩
  | _ => cases hsettles

end commands

section calls

/-- The commands of each call. -/
def Call.May : Call → Cmd → Prop
  | _, .now => True
  | create _, .create r => r.status = .active
  | commit request, .close id status _ => id = request.reservationId ∧ status = .committed
  | release request, .close id status _ => id = request.reservationId ∧ status = .released
  | markExpired _, .visit .. | markExpired _, .expire .. => True
  | _, _ => False

theorem Call.May.final {call : Call} {c : Cmd} (h : call.May c) : c.Final := by
  cases call with
  | create request => cases c <;> first | exact h | exact h.elim
  | commit request =>
    cases c with
    | close id status t =>
      obtain ⟨-, rfl⟩ := h
      exact fun hactive => by cases hactive
    | _ => first | exact h.elim | trivial
  | release request =>
    cases c with
    | close id status t =>
      obtain ⟨-, rfl⟩ := h
      exact fun hactive => by cases hactive
    | _ => first | exact h.elim | trivial
  | markExpired batchSize => cases c <;> first | exact h.elim | trivial

/-- Calls keep to their commands, and say truly what they have closed. -/
private def reporting : Contract Store Call Response MongoError (List String) where
  start := fun _ => []
  next := fun _ ids c r => (c.reports r).toList ++ ids
  may := fun call _ c => call.May c
  ends := fun call ids r => ∀ response, r = .ok response → call.Reports response ids
  resumes := fun call call' ids => call' = call ∧ ids = []

private theorem obeys_expireEach (batchSize : ℕ) (now : Time) (visited ids : List String) :
    Prog.Obeys (reporting.rules service (.markExpired batchSize)) (fun ids r => ∀ n, r = .ok n → n = ids.length) ids
      (expireEach now visited ids.length) := by
  induction visited generalizing ids with
  | nil =>
    intro n hn
    exact (Except.ok.inj hn).symm
  | cons id rest ih =>
    refine ⟨trivial, fun modified _ => ?_⟩
    cases modified with
    | false => exact ih ids
    | true => exact ih (id :: ids)

private theorem reporting_kept : reporting.Kept service where
  starts := fun _ => ⟨rfl, rfl⟩
  body := by
    rintro call call' ids ⟨rfl, rfl⟩
    cases call' with
    | create request =>
      refine ⟨trivial, fun now _ => ⟨rfl, fun r _ => ?_⟩⟩
      cases r with
      | error e => exact fun _ herror => by cases herror
      | ok reservation =>
        rintro _ ⟨⟩
        exact rfl
    | commit request | release request =>
      refine ⟨trivial, fun now _ => ⟨⟨rfl, rfl⟩, fun r _ => ?_⟩⟩
      rintro _ ⟨⟩
      cases r <;> exact rfl
    | markExpired batchSize =>
      refine ⟨trivial, fun now _ => ⟨trivial, fun visited _ => ?_⟩⟩
      refine (Prog.obeys_bind _ _ _).mpr ((obeys_expireEach batchSize now visited []).imp ?_)
      rintro ids (error | n) hcount
      · exact fun _ herror => by cases herror
      · rintro _ ⟨⟩
        exact hcount n rfl

private theorem record_reporting (call : Call) (history : List (Event Store Call)) :
    reporting.record call history = history.filterMap fun ev => ev.cmd.reports ev.reply := by
  induction history with
  | nil => rfl
  | cons ev history ih =>
    have hrecord : reporting.record call (ev :: history) =
        (ev.cmd.reports ev.reply).toList ++ reporting.record call history := rfl
    rw [hrecord, ih]
    cases hreports : ev.cmd.reports ev.reply <;> simp [hreports]

end calls

section runs
variable {A : Schedule} {s s' : Run}

/-- How often a reservation has been reported as closed. -/
private theorem reported_once (h : service.Reaches A (.start .empty) s) (id : String) :
    (reported s).count id = if Closed s.db id then 1 else 0 := by
  induction h using Machine.Reaches.by_steps with
  | start => simp [reported, State.start, Closed, Collection.empty, Collection.find]
  | spawn s t call _ _ _ ih => exact ih
  | act s t o call c k hs hA ht ih =>
    obtain ⟨hclosed, hopen⟩ := closed_exec (c := s.db) o (reporting_kept.may hs ht).final id
    have hreported : reported (service.acted s t o call c k) = (c.reports (exec o s.db c).1).toList ++ reported s := by
      cases hreports : c.reports (exec o s.db c).1 <;> simp [reported, hreports]
    have hcount : (c.reports (exec o s.db c).1).toList.count id =
        if c.reports (exec o s.db c).1 = some id then 1 else 0 := by
      cases hreports : c.reports (exec o s.db c).1 <;> simp [List.count_singleton]
    rw [hreported, List.count_append, ih, hcount]
    show _ = if Closed (exec o s.db c).2 id then 1 else 0
    by_cases hthis : c.reports (exec o s.db c).1 = some id
    · rw [if_pos hthis, if_neg (hopen hthis), if_pos (hclosed.mpr (.inr hthis))]
    · rw [if_neg hthis, Nat.zero_add]
      by_cases hbefore : Closed s.db id
      · rw [if_pos hbefore, if_pos (hclosed.mpr (.inl hbefore))]
      · rw [if_neg hbefore, if_neg fun hafter => (hclosed.mp hafter).elim hbefore hthis]
  | restart s t o call c _ _ _ ih => exact ih

/-- A reservation that has been settled is not active. -/
private theorem closed_of_settled (h : service.Reaches A (.start .empty) s) : ∀ id r, s.db.find id = some r →
    settled id r.expiresAt s.log = true → Closed s.db id := by
  induction h using Machine.Reaches.by_steps with
  | start => exact fun _ _ _ hsettled => by cases hsettled
  | spawn s t call _ _ _ ih => exact ih
  | act s t o call c k hs hA ht ih =>
    intro id r' hfind' hsettled
    have hfinal := (reporting_kept.may hs ht).final
    obtain ⟨hnew, hrest⟩ := Bool.and_eq_true_iff.mp hsettled
    cases hfind : s.db.find id with
    | none => simp [creates_of_new c hfind hfind'] at hnew
    | some r =>
      obtain ⟨r₁, hfind₁, hexpires, -⟩ := kept_exec o c hfind
      obtain rfl : r₁ = r' := Option.some.inj (hfind₁.symm.trans hfind')
      rw [hexpires] at hrest
      rcases Bool.or_eq_true_iff.mp hrest with hnow | hbefore
      · exact closed_of_settles hfinal hfind hnow
      · exact (closed_exec o hfinal id).1.mpr (.inl (ih id r hfind hbefore))
  | restart s t o call c _ _ _ ih => exact ih

/-- Whatever happens, a reservation stays, and in its status once it is closed. -/
private theorem kept_later (h : service.Reaches A s s') {id : String} {r : Reservation} (hfind : s.db.find id = some r) :
    ∃ r', s'.db.find id = some r' ∧ (r.status ≠ .active → r'.status = r.status) := by
  induction h using Machine.Reaches.by_steps with
  | start => exact ⟨r, hfind, fun _ => rfl⟩
  | spawn s t call _ _ _ ih => exact ih
  | act s t o call c k hs hA ht ih =>
    obtain ⟨r₁, hfind₁, hstatus₁⟩ := ih
    obtain ⟨r₂, hfind₂, -, hsame⟩ := kept_exec o c hfind₁
    refine ⟨r₂, hfind₂, fun hclosed => ?_⟩
    rw [hsame (by rwa [hstatus₁ hclosed]), hstatus₁ hclosed]
  | restart s t o call c _ _ _ ih => exact ih

/-- Reservations leave `ACTIVE` once and stay in the status they get, exactly one call reports it,
and a commit that succeeds is in time, as long as late commits find settled reservations.
Identifiers are trimmed. -/
theorem closed_once_in_time (h : service.Reaches Timely (.start .empty) s) :
    (∀ id, (reported s).count id = if Closed s.db id then 1 else 0) ∧
    (∀ t call response, s.calls t = some call → s.result t = some (.ok response) →
      call.Reports response (caused s t)) ∧
    (∀ s', service.Reaches Timely s s' → ∀ id r, s.db.find id = some r →
      ∃ r', s'.db.find id = some r' ∧ (r.status ≠ .active → r'.status = r.status)) ∧
    ∀ t o request c id r, Timely s (.run t o) → s.pending t = some (.commit request, c) →
      c.reports (exec o s.db c).1 = some id → s.db.find id = some r → o.now < r.expiresAt := by
  refine ⟨reported_once h, fun t call response hcall hresult => ?_, fun s' h' id r => kept_later h', ?_⟩
  · have htrack : reporting.track s t = some (call, caused s t) := by
      rw [Contract.track, hcall, Option.map_some, record_reporting]
      rfl
    exact reporting_kept.ends h htrack hresult response rfl
  · intro t o request c id r hA hpending hreports hfind
    have hmay := reporting_kept.may_pending h (Contract.track_of_pending hpending) hpending
    have hopen := (closed_exec o hmay.final id).2 hreports
    cases c with
    | close i status t' =>
      obtain rfl : i = id := by
        cases hreply : (exec o s.db (.close i status t')).1 with
        | none =>
          rw [hreply] at hreports
          cases hreports
        | some r' =>
          rw [hreply] at hreports
          exact Option.some.inj hreports
      exact (hA _ hpending r hfind).resolve_right fun hsettled => hopen (closed_of_settled h i r hfind hsettled)
    | now => cases hreports
    | _ => exact hmay.elim

end runs

section scenario

/-- The oracle at the given instant; a sweep comes to the one reservation. -/
private def atInstant (now : Time) : Oracle := ⟨now, ["reservation-1"]⟩

private def turnsAt (now : Time) (threads : List ℕ) : List (Label Oracle Call) :=
  threads.map fun t => .run t (atInstant now)

/-- A reservation is created at instant 1000 that expires at 1500. -/
private def reserved : List (Label Oracle Call) :=
  [.spawn 0 (.create ⟨"reservation-1", "user-1", 50, 1500, none⟩)] ++ turnsAt 1000 [0, 0]

/-- Two commits race at 1200, and a sweep follows at 2000. -/
private def committedInTime : List (Label Oracle Call) :=
  reserved ++ [.spawn 1 (.commit ⟨"reservation-1"⟩), .spawn 2 (.commit ⟨"reservation-1"⟩)] ++
    turnsAt 1200 [1, 2, 2, 1] ++ [.spawn 3 (.markExpired 1000)] ++ turnsAt 2000 [3, 3, 3]

theorem closed_once_in_time_commit : ∃ s, service.Reaches Timely (.start .empty) s ∧ Closed s.db "reservation-1" ∧
    (reported s).count "reservation-1" = 1 := by
  obtain ⟨s, hs, hclosed⟩ := Machine.exists_reaches service Timely (.start .empty) committedInTime
    (fun s => decide (Closed s.db "reservation-1")) (a := true) (by decide +kernel)
  have hclosed := of_decide_eq_true hclosed
  exact ⟨s, hs, hclosed, ((closed_once_in_time hs).1 "reservation-1").trans (if_pos hclosed)⟩

/-- Thread `t` is about to commit the reservation, at the given instant. -/
private def commits (now : Time) (s : Run) (t : ℕ) (id : String) : Bool :=
  match s.pending t with
  | some (.commit _, c) => c.reports (exec (atInstant now) s.db c).1 = some id
  | _ => false

/-- The reservation has expired at 1500, no sweep has run, and a commit succeeds at 2000. -/
theorem committed_late : ∃ s request c r, service.Reaches Clocked (.start .empty) s ∧
    Clocked s (.run 1 (atInstant 2000)) ∧ s.pending 1 = some (.commit request, c) ∧
    c.reports (exec (atInstant 2000) s.db c).1 = some "reservation-1" ∧
    s.db.find "reservation-1" = some r ∧ ¬ (atInstant 2000).now < r.expiresAt := by
  obtain ⟨s, hs, hfacts⟩ := Machine.exists_reaches service Clocked (.start .empty)
    (reserved ++ [.spawn 1 (.commit ⟨"reservation-1"⟩)] ++ turnsAt 2000 [1])
    (fun s => (commits 2000 s 1 "reservation-1", decide (Clocked s (.run 1 (atInstant 2000))),
      (s.db.find "reservation-1").map (·.expiresAt))) (a := (true, true, some 1500)) (by decide +kernel)
  obtain ⟨hcommits, hrest⟩ := Prod.mk.inj hfacts
  obtain ⟨hclocked, hexpires⟩ := Prod.mk.inj hrest
  obtain ⟨r, hfind, hr⟩ := Option.map_eq_some_iff.mp hexpires
  unfold commits at hcommits
  split at hcommits
  · rename_i request c hpending
    refine ⟨s, request, c, r, hs, of_decide_eq_true hclocked, hpending, of_decide_eq_true hcommits, hfind, ?_⟩
    rw [hr]
    decide
  · cases hcommits

end scenario
end RedRoomRewards.Reservations
