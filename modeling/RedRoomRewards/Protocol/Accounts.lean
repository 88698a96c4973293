import RedRoomRewards.Protocol.System

/-! What one command of a service call does to the user and model wallets, in any
reachable state: a guarded update that commits acts on the document it was
computed from. -/
namespace RedRoomRewards
open Process Store

section commits

/-- The guarded user wallet update that was committed, if one was. -/
def Cmd.walletCommit : (c : Cmd) → c.Reply → Option (WalletFilter × WalletUpdate)
  | .updateWallet f u, r => if Option.isSome r then some (f, u) else none
  | _, _ => none

def Cmd.modelCommit : (c : Cmd) → c.Reply → Option (ModelWalletFilter × ModelWalletUpdate)
  | .updateModelWallet f u, r => if Option.isSome r then some (f, u) else none
  | _, _ => none

end commits

section effects
variable (op : Operation) (tr : Track)

/-- What a command does to the user wallets. -/
inductive WalletEffect (ws : Wallets) (c : Cmd) (r : c.Reply) : Wallets → Prop where
  | kept (hcommit : c.walletCommit r = none) : WalletEffect ws c r ws
  | opened (currency userId : String) (hcommit : c.walletCommit r = none)
      (hfree : ws.Free (WalletService.newWallet currency userId)) :
      WalletEffect ws c r (ws.insert (WalletService.newWallet currency userId))
  | posted (f : WalletFilter) (u : WalletUpdate) (w : Wallet)
      (hu : Collection.Keeps Wallet.userId Wallet.userId u.apply)
      (hcommit : c.walletCommit r = some (f, u)) (hfind : ws.find f.userId = some w)
      (happly : u.apply w = w.post (op.delta u)) (hpay : op.MayPay tr w u) :
      WalletEffect ws c r (ws.modify f.userId u.apply hu)

/-- What a command does to the model wallets. -/
inductive ModelEffect (ms : ModelWallets) (c : Cmd) (r : c.Reply) : ModelWallets → Prop where
  | kept (hcommit : c.modelCommit r = none) : ModelEffect ms c r ms
  | opened (currency modelId : String) (hcommit : c.modelCommit r = none)
      (hfree : ms.Free (WalletService.newModelWallet currency modelId)) :
      ModelEffect ms c r (ms.insert (WalletService.newModelWallet currency modelId))
  | posted (f : ModelWalletFilter) (u : ModelWalletUpdate) (m : ModelWallet)
      (hu : Collection.Keeps ModelWallet.modelId ModelWallet.modelId u.apply)
      (hcommit : c.modelCommit r = some (f, u)) (hfind : ms.find f.modelId = some m)
      (happly : u.apply m = m.post op.earned) (hcredit : op.MayCredit tr m) :
      ModelEffect ms c r (ms.modify f.modelId u.apply hu)

variable {op} {tr}

theorem wallet_effect {db : Db} {c : Cmd} (o : Oracle) (hmay : op.Permits tr c)
    (hsnap : ∀ w ∈ tr.wallets, db.wallets.Snapshot Wallet.version w) :
    WalletEffect op tr db.wallets c (exec o db c).1 (exec o db c).2.wallets := by
  cases c with
  | createWallet w =>
    obtain ⟨-, currency, userId, rfl⟩ := hmay
    simp only [exec]
    rcases create_cases db.wallets (WalletService.newWallet currency userId)
      (WalletService.newWallet currency userId).invalid ["userId"] with ⟨e, he⟩ | ⟨-, hfree, hok⟩
    · rw [he]
      exact .kept rfl
    · rw [hok]
      exact .opened currency userId rfl hfree
  | updateWallet f u =>
    obtain ⟨w, hw, ⟨huser, hversion⟩, happly, hpay⟩ := hmay
    have hu : Collection.Keeps Wallet.userId Wallet.userId u.apply :=
      fun w => ⟨u.apply_userId w, u.apply_userId w⟩
    simp only [exec, Db.updateWallet]
    cases hfind : db.wallets.find f.userId with
    | none => exact .kept rfl
    | some w' =>
      by_cases haccepts : f.accepts w' = true
      · have hv : w'.version = w.version := by
          have hv' : w'.version = f.version := by
            simp only [WalletFilter.accepts, Bool.and_eq_true, decide_eq_true_eq] at haccepts
            exact haccepts.1
          rw [hv', hversion]
        obtain rfl : w' = w := (hsnap w hw).current (huser ▸ hfind) hv
        simp only [haccepts, if_true]
        exact .posted f u w' hu rfl hfind happly hpay
      · simp only [haccepts]
        exact .kept rfl
  | _ =>
    rw [(exec_frame o db _).wallets]
    · exact .kept rfl
    · simp [Cmd.touches]

theorem model_effect {db : Db} {c : Cmd} (o : Oracle) (hmay : op.Permits tr c)
    (hsnap : ∀ m ∈ tr.models, db.modelWallets.Snapshot ModelWallet.version m) :
    ModelEffect op tr db.modelWallets c (exec o db c).1 (exec o db c).2.modelWallets := by
  cases c with
  | createModelWallet m =>
    obtain ⟨-, currency, modelId, rfl⟩ := hmay
    simp only [exec]
    rcases create_cases db.modelWallets (WalletService.newModelWallet currency modelId)
      (WalletService.newModelWallet currency modelId).invalid ["modelId"]
      with ⟨e, he⟩ | ⟨-, hfree, hok⟩
    · rw [he]
      exact .kept rfl
    · rw [hok]
      exact .opened currency modelId rfl hfree
  | updateModelWallet f u =>
    obtain ⟨m, hm, ⟨hmodel, hversion⟩, happly, hcredit⟩ := hmay
    have hu : Collection.Keeps ModelWallet.modelId ModelWallet.modelId u.apply := fun _ => ⟨rfl, rfl⟩
    simp only [exec, Db.updateModelWallet]
    cases hfind : db.modelWallets.find f.modelId with
    | none => exact .kept rfl
    | some m' =>
      by_cases hv : m'.version = f.version
      · obtain rfl : m' = m := (hsnap m hm).current (hmodel ▸ hfind) (hv.trans hversion)
        simp only [hv, if_true]
        exact .posted f u m' hu rfl hfind happly hcredit
      · simp only [hv, if_false]
        exact .kept rfl
  | _ =>
    rw [(exec_frame o db _).modelWallets]
    · exact .kept rfl
    · simp [Cmd.touches]

/-- A committed update acts on a wallet as the protocol allows. -/
theorem WalletEffect.committed {ws ws' : Wallets} {c : Cmd} {r : c.Reply} {f : WalletFilter}
    {u : WalletUpdate} (h : WalletEffect op tr ws c r ws') (hcommit : c.walletCommit r = some (f, u)) :
    ∃ w, ws.find f.userId = some w ∧ u.apply w = w.post (op.delta u) ∧ op.MayPay tr w u := by
  cases h with
  | kept hnone | opened _ _ hnone =>
    rw [hnone] at hcommit
    cases hcommit
  | posted f' u' w hu hcommit' hfind happly hpay =>
    rw [hcommit'] at hcommit
    obtain ⟨rfl, rfl⟩ := Prod.mk.inj (Option.some.inj hcommit)
    exact ⟨w, hfind, happly, hpay⟩

end effects

section snapshots
variable {op : Operation} {tr : Track} {w : Wallet} {m : ModelWallet}

theorem WalletEffect.snapshot {ws ws' : Wallets} {c : Cmd} {r : c.Reply}
    (h : WalletEffect op tr ws c r ws') (hw : ws.Snapshot Wallet.version w) :
    ws'.Snapshot Wallet.version w := by
  cases h with
  | kept => exact hw
  | opened currency userId _ hfree => exact hw.insert hfree
  | posted f u w' hu _ hfind happly =>
    apply hw.modify hfind
    rw [happly]
    exact Nat.lt_succ_self _

theorem ModelEffect.snapshot {ms ms' : ModelWallets} {c : Cmd} {r : c.Reply}
    (h : ModelEffect op tr ms c r ms') (hm : ms.Snapshot ModelWallet.version m) :
    ms'.Snapshot ModelWallet.version m := by
  cases h with
  | kept => exact hm
  | opened currency modelId _ hfree => exact hm.insert hfree
  | posted f u m' hu _ hfind happly =>
    apply hm.modify hfind
    rw [happly]
    exact Nat.lt_succ_self _

/-- A wallet a command returns is the one the database then holds. -/
theorem wallet_seen {o : Oracle} {db : Db} {c : Cmd}
    (h : w ∈ (tr.after op c (exec o db c).1).wallets) :
    w ∈ tr.wallets ∨ (exec o db c).2.wallets.find w.userId = some w := by
  cases c with
  | findWallet userId =>
    rcases List.mem_append.mp h with hw | hw
    · have hfind : db.wallets.find userId = some w := Option.mem_toList.mp hw
      exact .inr (Collection.key_of_find hfind ▸ hfind)
    · exact .inl hw
  | createWallet w' =>
    simp only [exec, Track.after] at h ⊢
    rcases create_cases db.wallets w' w'.invalid ["userId"] with ⟨e, he⟩ | ⟨-, hfree, hok⟩
    · rw [he] at h
      exact .inl h
    · rw [hok] at h ⊢
      rcases List.mem_cons.mp h with rfl | hmem
      · exact .inr (by rw [Collection.find_insert hfree, if_pos rfl])
      · exact .inl hmem
  | _ => exact .inl h

theorem model_seen {o : Oracle} {db : Db} {c : Cmd}
    (h : m ∈ (tr.after op c (exec o db c).1).models) :
    m ∈ tr.models ∨ (exec o db c).2.modelWallets.Snapshot ModelWallet.version m := by
  cases c with
  | findModelWallet modelId =>
    rcases List.mem_append.mp h with hm | hm
    · exact .inr (.of_find (Option.mem_toList.mp hm))
    · exact .inl hm
  | createModelWallet m' =>
    simp only [exec, Track.after] at h ⊢
    rcases create_cases db.modelWallets m' m'.invalid ["modelId"] with ⟨e, he⟩ | ⟨-, hfree, hok⟩
    · rw [he] at h
      exact .inl h
    · rw [hok] at h ⊢
      rcases List.mem_cons.mp h with rfl | hmem
      · exact .inr (.of_find (by rw [Collection.find_insert hfree, if_pos rfl]))
      · exact .inl hmem
  | _ => exact .inl h

end snapshots

section runs
variable {config : Config} {A : Schedule} {d : Db} {s : Run}

/-- Only the services' own operations run. -/
def Serves (A : Schedule) : Prop := ∀ s t c, A s (.spawn t c) → c.operation ≠ .other

/-- Any interleaving of calls that satisfy `p`. -/
def only (p : Call → Bool) : Schedule
  | _, .spawn _ c => p c
  | _, .run _ _ => True

instance (p : Call → Bool) (s : Run) (l : Label Oracle Call) : Decidable (only p s l) :=
  match l with
  | .spawn .. | .run .. => by dsimp only [only]; infer_instance

theorem serves_only {p : Call → Bool} (h : ∀ c, p c = true → c.operation ≠ .other) :
    Serves (only p) := fun _ _ c hc => h c hc

theorem operation_ne_other (hA : Serves A) (h : (system config).Reaches A (.start d) s) {t : ℕ}
    {call : Call} (hcall : s.calls t = some call) : call.operation ≠ .other := h.calls_satisfy hA hcall

/-- A service call issues only what the protocol permits. -/
theorem permitted (hA : Serves A) (h : (system config).Reaches A (.start d) s) {t : ℕ} {call : Call}
    {c : Cmd} {k : c.Reply → Service (Next Call Response)}
    (ht : s.threads t = some ⟨call, .call (I := Mongo) c k⟩) :
    call.operation.Permits (protocol.record call (s.history t)) c := by
  have hne := operation_ne_other hA h (State.calls_of_thread ht)
  rcases (protocol_kept config).may h ht with hother | hmay
  · exact absurd hother hne
  · exact hmay

/-- Every document a call has seen is a snapshot of the present database. -/
theorem snapshots (hA : Serves A) (h : (system config).Reaches A (.start d) s) :
    ∀ t call tr, protocol.track s t = some (call, tr) →
      (∀ w ∈ tr.wallets, s.db.wallets.Snapshot Wallet.version w) ∧
        ∀ m ∈ tr.models, s.db.modelWallets.Snapshot ModelWallet.version m := by
  refine Contract.tracks_invariant (K := protocol) (P := fun db _ _ tr =>
    (∀ w ∈ tr.wallets, db.wallets.Snapshot Wallet.version w) ∧
      ∀ m ∈ tr.models, db.modelWallets.Snapshot ModelWallet.version m) h (fun _ _ _ _ => ⟨by simp, by simp⟩) ?_
  intro s t o call c k hs _ ht ih
  have hmay := permitted hA hs ht
  obtain ⟨hw, hm⟩ := ih t _ _ (Contract.track_of_thread ht)
  have hwallets := wallet_effect o hmay hw
  have hmodels := model_effect o hmay hm
  refine ⟨⟨fun w hmem => ?_, fun m hmem => ?_⟩, fun t' call' tr _ htr => ?_⟩
  · rcases wallet_seen hmem with hold | hnew
    · exact hwallets.snapshot (hw w hold)
    · exact .of_find hnew
  · rcases model_seen hmem with hold | hnew
    · exact hmodels.snapshot (hm m hold)
    · exact hnew
  · obtain ⟨hw', hm'⟩ := ih t' call' tr htr
    exact ⟨fun w hmem => hwallets.snapshot (hw' w hmem), fun m hmem => hmodels.snapshot (hm' m hmem)⟩

variable {t : ℕ} {call : Call} {c : Cmd} {k : c.Reply → Service (Next Call Response)}

/-- What a step of a run does to the user wallets. -/
theorem acted_wallets (hA : Serves A) (h : (system config).Reaches A (.start d) s)
    (ht : s.threads t = some ⟨call, .call (I := Mongo) c k⟩) (o : Oracle) :
    WalletEffect call.operation (protocol.record call (s.history t)) s.db.wallets c (exec o s.db c).1
      (exec o s.db c).2.wallets :=
  wallet_effect o (permitted hA h ht) (snapshots hA h t _ _ (Contract.track_of_thread ht)).1

theorem acted_modelWallets (hA : Serves A) (h : (system config).Reaches A (.start d) s)
    (ht : s.threads t = some ⟨call, .call (I := Mongo) c k⟩) (o : Oracle) :
    ModelEffect call.operation (protocol.record call (s.history t)) s.db.modelWallets c
      (exec o s.db c).1 (exec o s.db c).2.modelWallets :=
  model_effect o (permitted hA h ht) (snapshots hA h t _ _ (Contract.track_of_thread ht)).2

end runs
end RedRoomRewards
