import RedRoomRewards.Protocol.Points

/-! Every call of the services keeps the protocol, in any interleaving. -/
namespace RedRoomRewards
open Process

/-- The protocol as a contract; other programs are not bound by it. -/
def protocol : Contract Mongo Call Response ServiceError Track where
  start := fun _ => {}
  next := fun call tr c r => tr.after call.operation c r
  may := fun call tr c => call.operation = .other ∨ call.operation.Permits tr c
  ends := fun call tr r => call.operation = .other ∨ call.operation.Ends tr r
  resumes := fun call call' tr => call' = call ∧ tr.stage = .opening ∧ tr.entries = []

@[simp] theorem protocol_start (call : Call) : protocol.start call = {} := rfl
@[simp] theorem protocol_next (call : Call) (tr : Track) (c : Cmd) (r : c.Reply) :
    protocol.next call tr c r = tr.after call.operation c r := rfl

variable {config : Config}

/-- A program that follows the protocol obeys the contract. -/
private theorem Follows.obeys {call : Call} {tr : Track}
    {ends : Track → Except ServiceError (Next Call Response) → Prop}
    {p : Service (Next Call Response)} (h : Follows call.operation ends tr p) :
    Prog.Obeys (protocol.rules (system config) call) ends tr p := by
  induction p generalizing tr with
  | ret a => exact h
  | throw e => exact h
  | call c k ih => exact ⟨.inr h.1, fun r hr => ih r (h.2 r hr)⟩

private theorem follows_returning {α : Type} {call : Call} {response : α → Response} {tr : Track}
    {p : Service α} (h : Follows call.operation (fun tr r => call.operation.Ends tr r) tr p) :
    Prog.Obeys (protocol.rules (system config) call) (protocol.settles call) tr
      (returning response p) := by
  refine Follows.obeys (follows_bind (h.imp ?_))
  rintro tr' (e | a) hends
  · exact .inr hends
  · exact .inr hends

private theorem follows_retrying {α : Type} {call : Call} {response : α → Response} {tr : Track}
    {p : Service (Next Unit α)}
    (h : Follows call.operation (fun tr r => call.operation.EndsOrAgain tr r) tr p) :
    Prog.Obeys (protocol.rules (system config) call) (protocol.settles call) tr
      (retrying call response p) := by
  refine Follows.obeys (follows_bind (h.imp ?_))
  rintro tr' (e | a | _) hends
  · exact .inr hends
  · exact .inr hends
  · exact ⟨rfl, hends⟩

theorem protocol_kept (config : Config) : protocol.Kept (system config) where
  starts := fun _ => ⟨rfl, rfl, rfl⟩
  body := by
    rintro _ call tr ⟨rfl, hstage, hentries⟩
    cases call with
    | hold request => exact follows_returning (follows_holdInEscrow hstage hentries)
    | settle request authorization => exact follows_returning (follows_settleEscrow hstage)
    | refund request authorization => exact follows_returning (follows_refundEscrow hstage hentries)
    | partialSettle request authorization =>
      exact follows_returning (follows_partialSettleEscrow hstage hentries)
    | award request => exact follows_returning (follows_awardPoints hstage hentries)
    | deduct request => exact follows_returning (follows_deductFromAvailable hstage hentries)
    | expire userId requestId =>
      exact follows_retrying (follows_processUserExpiration hstage hentries)
    | adjust request => exact follows_retrying (follows_manualAdjustment hstage hentries)
    | redeem request => exact follows_returning (follows_redeemPoints hstage hentries)
    | other program =>
      refine (Prog.obeys_bind _ _ _).mpr (Prog.obeys_stable (P := fun _ => True) program trivial
        (fun _ _ _ _ => trivial) (fun _ _ _ => .inl rfl) ?_)
      rintro tr' (e | a) -
      · exact .inl rfl
      · exact .inl rfl

end RedRoomRewards
