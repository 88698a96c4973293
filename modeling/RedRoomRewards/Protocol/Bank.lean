import RedRoomRewards.Process.Linearization
import RedRoomRewards.Protocol.Readings

/-! The bank that the services are for: one book of balances, on which each committed
update of a wallet is one posting. -/
namespace RedRoomRewards
open Process Store

section bank

/-- A user's available and escrowed balance; of a model, what is earned and 0. -/
abbrev Book := Account → ℚ × ℚ

inductive Posting where
  | hold (amount : ℚ)
  | spend (amount : ℚ)
  | release (amount : ℚ)
  /-- Of what is in escrow, `total`, a part is refunded. -/
  | split (refund total : ℚ)
  | credit (amount : ℚ)
  | debit (amount : ℚ)
  | adjust (amount : ℚ) (force : Bool)
  | earn (amount : ℚ)
  deriving DecidableEq

namespace Posting

def delta : Posting → ℚ × ℚ
  | hold amount => (-amount, amount)
  | spend amount => (0, -amount)
  | release amount => (amount, -amount)
  | split refund total => (refund, -total)
  | credit amount => (amount, 0)
  | debit amount => (-amount, 0)
  | adjust amount _ => (amount, 0)
  | earn amount => (amount, 0)

/-- Which balances admit the posting. -/
def Admitted (balances : ℚ × ℚ) : Posting → Prop
  | hold amount => amount ≤ balances.1
  | credit amount => 0 < amount
  | debit amount => 0 < amount ∧ amount ≤ balances.1
  | adjust amount force => 0 ≤ balances.1 + amount ∨ force = true
  | spend _ | release _ | split .. | earn _ => True

end Posting

/-- What a posting tells of the balances of its account. -/
structure Statement where
  before : ℚ × ℚ
  after : ℚ × ℚ
  deriving DecidableEq

def Posting.statement (p : Posting) (balances : ℚ × ℚ) : Statement := ⟨balances, balances + p.delta⟩

/-- The book, with one posting at a time. -/
def bank : Object Book (Account × Posting) Statement where
  admits book p := p.2.Admitted (book p.1)
  result book p := Function.update book p.1 (book p.1 + p.2.delta)
  answer book p := p.2.statement (book p.1)

end bank

section postings

/-- The posting that a committed update of a user's wallet is. -/
def Operation.posting : Operation → WalletUpdate → Posting
  | hold request, _ => .hold request.amount
  | settle request, _ => .spend request.amount
  | refund request, _ => .release request.amount
  | partialSettle request, u => .split request.refundAmount (-u.escrowChange)
  | award request, _ => .credit request.amount
  | deduct request, _ => .debit request.amount
  | expire _, u => .debit (-u.availableChange)
  | adjust request, _ => .adjust request.amount (AdminOpsService.allowNegative request)
  | other, _ => .adjust 0 true

/-- The posting that a command and its reply stand for. -/
def Operation.performs (op : Operation) (c : Cmd) (r : c.Reply) : Option (Account × Posting) :=
  match c.walletCommit r, c.modelCommit r with
  | some (f, u), _ => some (.user f.userId, op.posting u)
  | none, some (f, _) => some (.model f.modelId, .earn op.earned)
  | none, none => none

def Wallet.balances (w : Wallet) : ℚ × ℚ := (w.availableBalance, w.escrowBalance)

def ModelWallet.balances (m : ModelWallet) : ℚ × ℚ := (m.earnedBalance, 0)

/-- The posting of a committed update, and what the document that it was computed from
tells of the balances. -/
def Commit.posting (op : Operation) : Commit → (Account × Posting) × Statement
  | .wallet f u w => ((.user f.userId, op.posting u), (op.posting u).statement w.balances)
  | .model f _ m => ((.model f.modelId, .earn op.earned), (Posting.earn op.earned).statement m.balances)

theorem Operation.posting_delta (op : Operation) (u : WalletUpdate) : (op.posting u).delta = op.delta u := by
  cases op <;> simp [posting, delta, Posting.delta]

/-- What the protocol asks for before an update, the bank asks for too. -/
theorem Operation.MayPay.admitted {op : Operation} {tr : Track} {w : Wallet} {u : WalletUpdate}
    (h : op.MayPay tr w u) : (op.posting u).Admitted w.balances := by
  cases op with
  | hold request => exact h.2.2
  | award request => exact h.2.2
  | deduct request => exact h.2.2
  | expire userId =>
    obtain ⟨-, -, hnegative, hcovered⟩ := h
    exact ⟨neg_pos.mpr hnegative, hcovered⟩
  | adjust request => exact h.2.2
  | _ => trivial

end postings
end RedRoomRewards
