import RedRoomRewards.Arithmetic.Double
import RedRoomRewards.Process.History
import RedRoomRewards.Service.Calls

/-! The services with amounts as the language has them. Each balance and each amount that a
command stores is one sum or difference of doubles, which is rounded to a double; what is only
reported, in events, responses, results on record and texts of errors, is left exact. -/
namespace RedRoomRewards
open Process Store Arithmetic

section rounding
variable (round : ℚ → ℚ)

def Wallet.rounded (w : Wallet) : Wallet :=
  { w with availableBalance := round w.availableBalance, escrowBalance := round w.escrowBalance }

def ModelWallet.rounded (m : ModelWallet) : ModelWallet := { m with earnedBalance := round m.earnedBalance }

def EscrowItem.rounded (i : EscrowItem) : EscrowItem := { i with amount := round i.amount }

def LedgerEntry.rounded (e : LedgerEntry) : LedgerEntry :=
  { e with
    amount := round e.amount
    balanceBefore := round e.balanceBefore
    balanceAfter := round e.balanceAfter }

/-- The update of a wallet with the balances that it leads to rounded. -/
def WalletUpdate.rounded (u : WalletUpdate) (w : Wallet) : WalletUpdate :=
  .set (round (u.apply w).availableBalance) (round (u.apply w).escrowBalance) (u.apply w).version

def ModelWalletUpdate.rounded (u : ModelWalletUpdate) : ModelWalletUpdate := ⟨round u.earnedBalance, u.version⟩

/-- One atomic command that stores rounded numbers. -/
def execWith (o : Oracle) (db : Db) : (c : Cmd) → c.Reply × Db
  | .createWallet w => exec o db (.createWallet (w.rounded round))
  | .updateWallet f u =>
    match db.wallets.find f.userId with
    | some w => exec o db (.updateWallet f (u.rounded round w))
    | none => (none, db)
  | .createModelWallet m => exec o db (.createModelWallet (m.rounded round))
  | .updateModelWallet f u => exec o db (.updateModelWallet f (u.rounded round))
  | .createEscrowItem i => exec o db (.createEscrowItem (i.rounded round))
  | .createLedgerEntry e => exec o db (.createLedgerEntry (e.rounded round))
  | c => exec o db c

/-- The numbers that the command stores need no rounding. -/
def Cmd.Exact (db : Db) : Cmd → Prop
  | .createWallet w => w.rounded round = w
  | .updateWallet f u => ∀ w ∈ db.wallets.find f.userId, f.accepts w = true → (u.apply w).rounded round = u.apply w
  | .createModelWallet m => round m.earnedBalance = m.earnedBalance
  | .updateModelWallet _ u => round u.earnedBalance = u.earnedBalance
  | .createEscrowItem i => round i.amount = i.amount
  | .createLedgerEntry e => round e.amount = e.amount ∧ round e.balanceBefore = e.balanceBefore ∧
      round e.balanceAfter = e.balanceAfter
  | _ => True

instance (db : Db) (c : Cmd) : Decidable (c.Exact round db) :=
  match c with
  | .findIdempotencyRecord .. | .findIdempotencyResult .. | .createIdempotencyRecord .. | .findWallet ..
  | .createWallet .. | .updateWallet .. | .findModelWallet .. | .createModelWallet .. | .updateModelWallet ..
  | .findEscrowItem .. | .createEscrowItem .. | .lockEscrowItem .. | .updateEscrowItem ..
  | .deleteEscrowItem .. | .createLedgerEntry .. | .findLedgerEntry .. | .findLedgerEntries ..
  | .countLedgerEntries .. | .listLedgerEntries .. | .uuidv4 | .now | .publish .. => by
    dsimp only [Cmd.Exact]
    infer_instance

end rounding

section exact
variable {round : ℚ → ℚ} {db : Db}

theorem Cmd.exact_of_reads {c : Cmd} (h : c.touches = none) : c.Exact round db := by
  cases c with
  | createWallet | updateWallet | createModelWallet | updateModelWallet | createEscrowItem | createLedgerEntry => cases h
  | _ => trivial

private theorem updateWallet_rounded {f : WalletFilter} {u : WalletUpdate} {w : Wallet}
    (hw : db.wallets.find f.userId = some w)
    (h : f.accepts w = true → (u.apply w).rounded round = u.apply w) :
    db.updateWallet f (u.rounded round w) = db.updateWallet f u := by
  unfold Db.updateWallet
  rw [hw]
  by_cases haccepts : f.accepts w = true
  · have happly : (u.rounded round w).apply w = u.apply w := by
      rw [← h haccepts]
      cases u <;> rfl
    have hwallets : ∀ w', db.wallets.find f.userId = some w' → (u.rounded round w).apply w' = u.apply w' := by
      intro w' hw'
      obtain rfl : w = w' := Option.some.inj (hw.symm.trans hw')
      exact happly
    have hmodify : db.wallets.modify f.userId (u.rounded round w).apply
          (fun w' => ⟨(u.rounded round w).apply_userId w', (u.rounded round w).apply_userId w'⟩) =
        db.wallets.modify f.userId u.apply (fun w' => ⟨u.apply_userId w', u.apply_userId w'⟩) :=
      Collection.modify_congr hwallets
    simp only [if_pos haccepts, happly, hmodify]
  · simp only [if_neg haccepts]

/-- A command that stores exact numbers is executed as before. -/
theorem execWith_eq {c : Cmd} (h : c.Exact round db) (o : Oracle) : execWith round o db c = exec o db c := by
  cases c with
  | createWallet w => rw [execWith, show w.rounded round = w from h]
  | createModelWallet m =>
    have hm : round m.earnedBalance = m.earnedBalance := h
    rw [execWith, ModelWallet.rounded, hm]
  | updateModelWallet f u =>
    have hu : round u.earnedBalance = u.earnedBalance := h
    rw [execWith, ModelWalletUpdate.rounded, hu]
  | createEscrowItem i =>
    have hi : round i.amount = i.amount := h
    rw [execWith, EscrowItem.rounded, hi]
  | createLedgerEntry e =>
    obtain ⟨hamount, hbefore, hafter⟩ := h
    rw [execWith, LedgerEntry.rounded, hamount, hbefore, hafter]
  | updateWallet f u =>
    cases hw : db.wallets.find f.userId with
    | none => simp only [execWith, exec, Db.updateWallet, hw]
    | some w =>
      have hexact : f.accepts w = true → (u.apply w).rounded round = u.apply w := h w hw
      simp only [execWith, exec, hw, updateWallet_rounded hw hexact]
  | _ => rfl

end exact

section machine

/-- The services over doubles. -/
def doubles (config : Config) : Machine Mongo Db Oracle Call Response ServiceError where
  exec := execWith double
  body := Call.body config.inDoubles

/-- Each number that the step stores is a double without being rounded. -/
def Exactly : Schedule := State.Issues fun s _ _ c => c.Exact double s.db

instance (s : Run) (l : Label Oracle Call) : Decidable (Exactly s l) := by
  unfold Exactly
  infer_instance

/-- As long as nothing is rounded the services do as they would with exact amounts. -/
theorem exact_run {config : Config} {A : Schedule} {s₀ s : Run}
    (h : (doubles config).Reaches (fun s l => A s l ∧ Exactly s l) s₀ s) :
    (system config.inDoubles).Reaches A s₀ s := by
  refine (h.transfer (N := system config.inDoubles) rfl fun s t o call c k hA ht => ?_).mono fun _ _ _ hA => hA.1
  exact execWith_eq (hA.2.command ht) o

end machine
end RedRoomRewards
