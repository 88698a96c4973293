import RedRoomRewards.Alone.Points
import RedRoomRewards.Service.Doubles

/-! Awards and deductions run alone over doubles: when nothing is rounded that they store. -/
namespace RedRoomRewards
open Process Store Arithmetic LedgerService

/-- Each number that the program stores is a double without being rounded. -/
abbrev Unrounded {α : Type} (p : Service α) (os : ℕ → Oracle) (db : Db) : Prop :=
  Prog.Along exec (Cmd.Exact double) p os db

/-- A change of a user's available balance that leads from doubles to doubles. -/
structure Db.Representable (db : Db) (userId : String) (change : ℚ) : Prop where
  moved : double change = change
  before : double (db.balances userId).1 = (db.balances userId).1
  escrow : double (db.balances userId).2 = (db.balances userId).2
  after : double ((db.balances userId).1 + change) = (db.balances userId).1 + change

section commands
variable {α : Type} {db : Db} {os : ℕ → Oracle}

/-- The command stores no numbers that would have to be rounded, in any store. -/
def Cmd.Plain (c : Cmd) : Prop := ∀ db, c.Exact double db

theorem Cmd.plain_of_reads (c : Cmd) (hc : c.touches = none) : c.Plain := fun _ => Cmd.exact_of_reads hc

theorem unrounded_of_within {p : Service α} (hp : Within Cmd.Plain p) (os : ℕ → Oracle) (db : Db) : Unrounded p os db :=
  along_of_within hp (fun db _ hc => hc db) os db

/-- What solo runs on equal terms store is the same over doubles. -/
theorem Unrounded.solo_eq {p : Service α} (h : Unrounded p os db) : p.solo (execWith double) os db = p.solo exec os db :=
  Prog.Along.solo_eq h fun o _ _ hc => execWith_eq hc o

theorem unrounded_updateWallet {f : WalletFilter} {u : WalletUpdate} {w : Wallet} {k : Option Wallet → Service α}
    (hfind : db.wallets.find f.userId = some w) (haccepts : f.accepts w = true)
    (hexact : (u.apply w).rounded double = u.apply w) (hk : ∀ os db, Unrounded (k (some (u.apply w))) os db) :
    Unrounded (issue (.updateWallet f u) >>= k) os db := by
  refine ⟨fun w' hw' _ => ?_, ?_⟩
  · obtain rfl : w = w' := Option.some.inj (hfind.symm.trans hw')
    exact hexact
  · rw [exec_updateWallet hfind haccepts]
    exact hk _ _

theorem unrounded_booking {config : LedgerService.Config} {entry : String → Time → CreateLedgerEntryRequest}
    {response : String → Time → α} (hentry : ∀ id t, double (entry id t).amount = (entry id t).amount ∧
      double (entry id t).balanceBefore = (entry id t).balanceBefore ∧
      double (entry id t).balanceAfter = (entry id t).balanceAfter) (os : ℕ → Oracle) (db : Db) :
    Unrounded (booking config entry response) os db := by
  refine unrounded_of_within (within_issue (Cmd.plain_of_reads _ rfl) fun id =>
    within_issue (Cmd.plain_of_reads _ rfl) fun t => within_bind (within_createEntry Cmd.plain_of_reads ?_) ?_) os db
  · rintro e ⟨_, _, _, _, _, rfl⟩ _
    exact hentry id t
  · exact fun _ => trivial

/-- The update of an opened wallet and the booking of its change. -/
private theorem unrounded_posting {currency userId : String} {wallets : Wallets} {w : Wallet} {f : WalletFilter}
    {change : ℚ} {k : Option Wallet → Service α} {db' : Db} (hopened : Opened currency userId db.wallets w wallets)
    (hdb' : db'.wallets = wallets) (hf : f.userId = userId) (haccepts : f.accepts w = true)
    (h : db.Representable userId change)
    (hk : double change = change → double w.availableBalance = w.availableBalance →
      double (w.availableBalance + change) = w.availableBalance + change →
        ∀ os db, Unrounded (k (some ((WalletUpdate.inc change 0 1).apply w))) os db) :
    Unrounded (issue (.updateWallet f (.inc change 0 1)) >>= k) os db' := by
  have hbalances : (w.availableBalance, w.escrowBalance) = db.balances userId := by
    rw [← hopened.balances userId, hopened.find]
    rfl
  obtain ⟨hchange, hbefore, hescrow, hafter⟩ := h
  rw [← hbalances] at hbefore hescrow hafter
  refine unrounded_updateWallet (w := w) (by rw [hdb', hf, hopened.find]) haccepts ?_ (hk hchange hbefore hafter)
  simp only [WalletUpdate.apply, Wallet.rounded, hafter, add_zero, hescrow]

theorem unrounded_getOrCreateWallet {currency userId : String} {f : Wallet → Service α}
    (hf : ∀ w wallets os, ¬ db.Unopenable currency userId → Opened currency userId db.wallets w wallets →
      Unrounded (f w) os { db with wallets }) :
    Unrounded (WalletService.getOrCreateWallet currency userId >>= f) os db := by
  refine ⟨trivial, ?_⟩
  rw [exec]
  cases hfind : db.wallets.find userId with
  | some w => exact hf w _ _ (fun h => by simp [h.1] at hfind) (.found hfind)
  | none =>
    have hzero : double 0 = 0 := by decide +kernel
    refine ⟨by simp only [Cmd.Exact, Wallet.rounded, WalletService.newWallet, hzero], ?_⟩
    simp only [exec]
    by_cases hvalid : (WalletService.newWallet currency userId).invalid = []
    · have hfree : db.wallets.Free (WalletService.newWallet currency userId) := Collection.free_iff_find.mpr hfind
      rw [create_of_free hvalid hfree]
      exact hf _ _ _ (fun h => h.2 hvalid) (.created hfree)
    · obtain ⟨e, he⟩ : ∃ e, create db.wallets (WalletService.newWallet currency userId)
          (WalletService.newWallet currency userId).invalid ["userId"] = (.error e, db.wallets) :=
        create_of_not (mt And.left hvalid)
      rw [he]
      trivial

end commands

section award
variable {config : PointAccrualService.Config} {request : AwardPointsRequest} {db : Db} {os : ℕ → Oracle}

private theorem unrounded_validateAmount {α : Type} {amount : ℚ} {f : Unit → Service α}
    (hf : config.Accepts amount → Unrounded (f ()) os db) :
    Unrounded (PointAccrualService.validateAmount config amount >>= f) os db := by
  rw [PointAccrualService.validateAmount, Prog.bind_assoc]
  refine Prog.along_throwIf_bind fun hmin => ?_
  rw [Prog.bind_assoc]
  exact Prog.along_throwIf_bind fun hmax => Prog.along_throwIf_bind fun hpos =>
    hf ⟨not_lt.mp hmin, not_lt.mp hmax, not_le.mp hpos⟩

private theorem unrounded_checkFirst {α : Type} {scope : String} {first : Prop} [Decidable first] (hfirst : first)
    {f : Unit → Service α} (hf : ∀ os, ¬ db.Used request.tenantId request.idempotencyKey scope → Unrounded (f ()) os db) :
    Unrounded (PointAccrualService.checkFirst first request scope >>= f) os db := by
  rw [PointAccrualService.checkFirst, if_pos hfirst]
  refine ⟨trivial, ?_⟩
  refine Prog.along_throwIf_bind fun hunused => hf _ ?_
  rintro ⟨r, hr, htenant⟩
  exact hunused (by simp [exec, hr, htenant])

/-- An award stores what it is given, if that is a double and so is what it leads to. -/
theorem unrounded_awardPoints (h : AwardGoes config request db → db.Representable request.userId request.amount) :
    Unrounded (PointAccrualService.awardPoints config request) os db := by
  unfold PointAccrualService.awardPoints PointAccrualService.awardAttempts
  cases hattempts : config.maxRetryAttempts with
  | zero => trivial
  | succ left =>
    refine unrounded_validateAmount fun hamount => ?_
    refine Prog.along_throwIf_bind fun hreason => ?_
    refine unrounded_checkFirst hattempts.symm fun os hunused => ?_
    refine unrounded_getOrCreateWallet fun w wallets os hwallet hopened => ?_
    have hexact := h ⟨by omega, hamount, not_not.mp hreason, hunused, hwallet⟩
    refine unrounded_posting hopened rfl rfl (by simp [WalletFilter.accepts]) hexact fun hchange hbefore hafter => ?_
    exact unrounded_booking fun _ _ => ⟨hchange, hbefore, hafter⟩

/-- The same of a deduction. -/
theorem unrounded_deductFromAvailable
    (h : DeductGoes config request db → db.Representable request.userId (-request.amount)) :
    Unrounded (PointAccrualService.deductFromAvailable config request) os db := by
  unfold PointAccrualService.deductFromAvailable
  cases hattempts : config.maxRetryAttempts with
  | zero => trivial
  | succ left =>
    refine unrounded_validateAmount fun hamount => ?_
    refine Prog.along_throwIf_bind fun hreason => ?_
    refine unrounded_checkFirst hattempts.symm fun os hunused => ?_
    refine ⟨trivial, Prog.along_orThrow_bind fun w hw => Prog.along_throwIf_bind fun hless => ?_⟩
    have hexact := h ⟨by omega, hamount, not_not.mp hreason, hunused, w, hw, not_lt.mp hless⟩
    have hopened : Opened "" request.userId db.wallets w db.wallets := .found hw
    refine unrounded_posting hopened rfl rfl (by simpa [WalletFilter.accepts] using not_lt.mp hless) hexact
      fun hchange hbefore hafter => ?_
    exact unrounded_booking fun _ _ => ⟨hchange, hbefore, by rw [← sub_eq_add_neg] at hafter; exact hafter⟩

end award
end RedRoomRewards
