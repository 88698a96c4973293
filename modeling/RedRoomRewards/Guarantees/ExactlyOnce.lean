import RedRoomRewards.Guarantees.ApiBalance
import RedRoomRewards.Protocol.Api

/-! Requests with one idempotency key that race for the wallet: when they change it
exactly once and all get the same answer. -/
namespace RedRoomRewards
open Process Store IdempotencyService

section effect
variable {call : ApiCall}

/-- What the requests for one key share: the record of the key, and the user's wallet. -/
structure ApiView where
  record : Option IdempotencyRecord
  balances : ℚ × ℚ
  version : ℕ

def Db.apiView (db : Db) (call : ApiCall) : ApiView where
  record := db.records.find (call.request.idempotencyKey, call.scope)
  balances := db.balances call.userId
  version := db.version call.userId

/-- How one command of a request changes its stage and what it shares with the others. -/
inductive ApiEffect (call : ApiCall) (v : ApiView) : ApiStage → ApiStage → ApiView → Prop where
  | nothing {x : ApiStage} : ApiEffect call v x x v
  | lookup : ApiEffect call v .fresh ((storedResult v.record).elim .working .answered) v
  | charge : ApiEffect call v .working .charged
      { v with balances := v.balances + (call.change, 0), version := v.version + 1 }
  | store {r : IdempotencyRecord} {fields : List (String × Json)} (hnone : v.record = none)
      (hresult : r.storedResult = .obj fields) :
      ApiEffect call v .charged (.stored r.storedResult) { v with record := some r }

private theorem apiView_congr {db db' : Db} (hrecords : db'.records = db.records) (hwallets : db'.wallets = db.wallets) :
    db'.apiView call = db.apiView call := by
  simp [Db.apiView, Db.balances, Db.version, hrecords, hwallets]

private theorem updateWallet_effect (o : Oracle) (db : Db) {f : WalletFilter} (hf : f.userId = call.userId) :
    ApiEffect call (db.apiView call) .working
      (ApiStage.next .working (.updateWallet f (.inc call.change 0 1)) (exec o db (.updateWallet f (.inc call.change 0 1))).1)
      ((exec o db (.updateWallet f (.inc call.change 0 1))).2.apiView call) := by
  by_cases haccepts : ∃ w, db.wallets.find f.userId = some w ∧ f.accepts w = true
  · obtain ⟨w, hfind, haccepts⟩ := haccepts
    have hexec : exec o db (.updateWallet f (.inc call.change 0 1)) =
        (some _, db.posting db.wallets f.userId call.change) := exec_updateWallet hfind haccepts
    have hcharged : (db.posting db.wallets f.userId call.change).apiView call =
        { db.apiView call with
          balances := (db.apiView call).balances + (call.change, 0)
          version := (db.apiView call).version + 1 } := by
      rw [hf] at hfind
      simp only [Db.apiView, Db.balances, Db.version, hf, Db.posting_find _ hfind, hfind]
      rfl
    rw [hexec]
    rw [hcharged]
    exact .charge
  · rw [exec_updateWallet_missed fun w hw ha => haccepts ⟨w, hw, ha⟩]
    exact .nothing

/-- A new wallet has the balances and the version that the user had without one. -/
private theorem createWallet_view (o : Oracle) (db : Db) (currency : String) :
    (exec o db (.createWallet (WalletService.newWallet currency call.userId))).2.apiView call = db.apiView call := by
  simp only [exec]
  rcases create_cases db.wallets (WalletService.newWallet currency call.userId)
    (WalletService.newWallet currency call.userId).invalid ["userId"] with ⟨e, he⟩ | ⟨-, hfree, he⟩
  · rw [he]
  · have hnone : db.wallets.find call.userId = none := hfree.find
    rw [he]
    simp only [Db.apiView, Db.balances, Db.version, Collection.find_insert hfree, hnone]
    rw [if_pos (show call.userId = (WalletService.newWallet currency call.userId).userId from rfl)]
    rfl

theorem api_effect {x : ApiStage} {c : Cmd} (hmay : call.may x c) (o : Oracle) (db : Db) :
    ApiEffect call (db.apiView call) x (x.next c (exec o db c).1) ((exec o db c).2.apiView call) := by
  have hincidental : x ≠ .fresh → c.incidental → ApiEffect call (db.apiView call) x
      (x.next c (exec o db c).1) ((exec o db c).2.apiView call) := by
    intro hx hc
    have hframe := exec_frame o db c
    have htouches : c.touches ≠ some .records ∧ c.touches ≠ some .wallets := by
      cases c <;> simp_all [Cmd.touches, Cmd.incidental]
    rw [ApiStage.next_incidental hx hc, apiView_congr (hframe.records htouches.1) (hframe.wallets htouches.2)]
    exact .nothing
  cases c with
  | findIdempotencyResult key scope =>
    by_cases hx : x = .fresh
    · obtain ⟨rfl, rfl⟩ := hmay hx
      subst hx
      exact .lookup
    · exact hincidental hx rfl
  | createWallet w =>
    obtain ⟨rfl, currency, rfl⟩ := hmay
    rw [createWallet_view]
    exact .nothing
  | updateWallet f u =>
    obtain ⟨rfl, hf, rfl⟩ := hmay
    exact updateWallet_effect o db hf
  | createIdempotencyRecord r =>
    obtain ⟨rfl, hclaim, fields, hresult⟩ := hmay
    simp only [exec]
    rcases create_cases db.records r r.invalid ["pointsIdempotencyKey", "eventScope"] with ⟨e, he⟩ | ⟨-, hfree, he⟩
    · rw [he]
      exact .nothing
    · have hnone : (db.apiView call).record = none := by
        have hfind := hfree.find
        rwa [hclaim] at hfind
      have hstored : Db.apiView { db with records := db.records.insert r } call =
          { db.apiView call with record := some r } := by
        simp only [Db.apiView, Collection.find_insert hfree, hclaim, if_true]
        rfl
      rw [he, hstored]
      exact .store hnone hresult
  | _ => exact hincidental hmay.1 hmay.2

end effect

section serving

/-- The request has changed the wallet. -/
def ApiStage.moved : ApiStage → Prop
  | charged | stored _ => True
  | _ => False

/-- The request has found no result on record. -/
def ApiStage.opened : ApiStage → Prop
  | working | charged | stored _ => True
  | _ => False

/-- The request has found or recorded this result. -/
def ApiStage.shows (result : Json) : ApiStage → Prop
  | answered result' | stored result' => result' = result
  | _ => False

/-- At most one request is served, and it alone changes the wallet; `ended` are the
requests that have returned or thrown. -/
structure Serving (call : ApiCall) (v₀ : ApiView) (stages : ℕ → Option ApiStage) (ended : ℕ → Prop) (v : ApiView) :
    Prop where
  alone : ∀ t t' x x', t ≠ t' → stages t = some x → stages t' = some x' → x.opened → x'.opened →
    x = .working ∧ ended t ∨ x' = .working ∧ ended t'
  shown : ∀ t x result, stages t = some x → x.shows result → ∃ r, v.record = some r ∧ r.storedResult = result
  made : ∀ r, v.record = some r → (∃ fields, r.storedResult = .obj fields) ∧
    ∃ t, stages t = some (.stored r.storedResult)
  untouched : (∀ t x, stages t = some x → ¬ x.moved) → v.balances = v₀.balances ∧ v.version = v₀.version
  once : ∀ t x, stages t = some x → x.moved →
    v.balances = v₀.balances + (call.change, 0) ∧ v.version = v₀.version + 1

namespace Serving
variable {call : ApiCall} {v₀ v v' : ApiView} {stages : ℕ → Option ApiStage} {ended ended' : ℕ → Prop} {t : ℕ}
variable {x y : ApiStage}

/-- Requests of which one takes a step look at what the others have done. -/
private theorem others (h : Serving call v₀ stages ended v) (ht : stages t = some x) (hnot : ¬ ended t)
    (hx : x.opened) {t' : ℕ} {x' : ApiStage} (hne : t' ≠ t) (ht' : stages t' = some x') (hx' : x'.opened) :
    x' = .working ∧ ended t' :=
  (h.alone t t' x x' hne.symm ht ht' hx hx').resolve_left fun hidle => hnot hidle.2

/-- The requests that were open before and the one that has just acted. -/
private theorem alone_update (h : Serving call v₀ stages ended v) (hended : ∀ t' ≠ t, ended t' → ended' t')
    (hothers : ∀ t' ≠ t, ∀ x', stages t' = some x' → y.opened → x'.opened → x' = .working ∧ ended t') :
    ∀ t₁ t₂ x₁ x₂, t₁ ≠ t₂ → Function.update stages t (some y) t₁ = some x₁ →
      Function.update stages t (some y) t₂ = some x₂ → x₁.opened → x₂.opened →
        x₁ = .working ∧ ended' t₁ ∨ x₂ = .working ∧ ended' t₂ := by
  intro t₁ t₂ x₁ x₂ hne h₁ h₂ hx₁ hx₂
  by_cases ht₁ : t₁ = t
  · subst ht₁
    rw [Function.update_self] at h₁
    rw [Function.update_of_ne hne.symm] at h₂
    obtain rfl : y = x₁ := Option.some.inj h₁
    obtain ⟨hworking, hend⟩ := hothers t₂ hne.symm x₂ h₂ hx₁ hx₂
    exact .inr ⟨hworking, hended t₂ hne.symm hend⟩
  · rw [Function.update_of_ne ht₁] at h₁
    by_cases ht₂ : t₂ = t
    · subst ht₂
      rw [Function.update_self] at h₂
      obtain rfl : y = x₂ := Option.some.inj h₂
      obtain ⟨hworking, hend⟩ := hothers t₁ hne x₁ h₁ hx₂ hx₁
      exact .inl ⟨hworking, hended t₁ hne hend⟩
    · rw [Function.update_of_ne ht₂] at h₂
      exact (h.alone t₁ t₂ x₁ x₂ hne h₁ h₂ hx₁ hx₂).imp (fun hidle => ⟨hidle.1, hended t₁ ht₁ hidle.2⟩)
        fun hidle => ⟨hidle.1, hended t₂ ht₂ hidle.2⟩

/-- A fact about every stage after an update of one of them. -/
private theorem forall_update {P : ApiStage → Prop} (hy : P y) (hold : ∀ t' ≠ t, ∀ x', stages t' = some x' → P x') :
    ∀ t' x', Function.update stages t (some y) t' = some x' → P x' := by
  intro t' x' hx'
  by_cases htt : t' = t
  · subst htt
    rw [Function.update_self] at hx'
    exact Option.some.inj hx' ▸ hy
  · rw [Function.update_of_ne htt] at hx'
    exact hold t' htt x' hx'

/-- The request that recorded the result is still there. -/
private theorem made_update (h : Serving call v₀ stages ended v) (ht : stages t = some x)
    (hx : ∀ result, x ≠ .stored result) : ∀ r, v.record = some r → (∃ fields, r.storedResult = .obj fields) ∧
      ∃ t', Function.update stages t (some y) t' = some (.stored r.storedResult) := by
  intro r hr
  obtain ⟨hfields, t', ht'⟩ := h.made r hr
  refine ⟨hfields, t', ?_⟩
  rw [Function.update_of_ne]
  · exact ht'
  · rintro rfl
    cases ht.symm.trans ht'
    exact hx _ rfl

private theorem exists_record {record : Option IdempotencyRecord} {result : Json}
    (h : storedResult record = some result) : ∃ r, record = some r ∧ r.storedResult = result := by
  cases record with
  | none => cases h
  | some r =>
    refine ⟨r, rfl, ?_⟩
    simp only [storedResult] at h
    split at h
    · cases h
    · cases h
    · exact Option.some.inj h

/-- A request that finds nothing on record begins after requests that have done nothing. -/
private theorem lookup (h : Serving call v₀ stages ended v) (ht : stages t = some .fresh)
    (hended : ∀ t' ≠ t, ended t' → ended' t')
    (hbegin : ∀ t' ≠ t, ∀ x', stages t' = some x' → x' ≠ .fresh → ended t' ∧ x' ≠ .charged) :
    Serving call v₀ (Function.update stages t (some ((storedResult v.record).elim .working .answered))) ended' v := by
  refine ⟨alone_update h hended fun t' hne x' hx' hopen hopen' => ?_, ?_, made_update h ht nofun,
    fun huntouched => h.untouched fun t' x' hx' => ?_, ?_⟩
  · have hnone : storedResult v.record = none := by
      cases hrecord : storedResult v.record with
      | none => rfl
      | some result =>
        rw [hrecord] at hopen
        exact absurd hopen id
    cases x' with
    | fresh | answered _ => exact absurd hopen' id
    | working => exact ⟨rfl, (hbegin t' hne _ hx' nofun).1⟩
    | charged => exact absurd rfl (hbegin t' hne _ hx' nofun).2
    | stored result =>
      obtain ⟨r, hr, -⟩ := h.shown t' _ result hx' rfl
      obtain ⟨⟨fields, hfields⟩, -⟩ := h.made r hr
      rw [hr, storedResult, hfields] at hnone
      cases hnone
  · suffices hshown : ∀ t' x', Function.update stages t (some _) t' = some x' → ∀ result, x'.shows result → _ from
      fun t' x' result hx' => hshown t' x' hx' result
    refine forall_update (fun result hresult => ?_) fun t' _ x' hx' result => h.shown t' x' result hx'
    cases hrecord : storedResult v.record with
    | none =>
      rw [hrecord] at hresult
      exact absurd hresult id
    | some result' =>
      rw [hrecord] at hresult
      obtain ⟨r, hr, hr'⟩ := exists_record hrecord
      exact ⟨r, hr, hr'.trans hresult⟩
  · by_cases htt : t' = t
    · subst htt
      cases ht.symm.trans hx'
      exact id
    · exact huntouched t' x' (by rwa [Function.update_of_ne htt])
  · refine forall_update (fun hmoved => ?_) fun t' _ x' hx' => h.once t' x' hx'
    cases hrecord : storedResult v.record <;> rw [hrecord] at hmoved <;> exact absurd hmoved id

private theorem charge (h : Serving call v₀ stages ended v) (ht : stages t = some .working) (hnot : ¬ ended t)
    (hended : ∀ t' ≠ t, ended t' → ended' t') :
    Serving call v₀ (Function.update stages t (some .charged)) ended'
      { v with balances := v.balances + (call.change, 0), version := v.version + 1 } := by
  have hfirst : ∀ t' x', stages t' = some x' → ¬ x'.moved := by
    intro t' x' hx' hmoved
    by_cases htt : t' = t
    · subst htt
      cases ht.symm.trans hx'
      exact hmoved
    · have hopen : x'.opened := by cases x' <;> first | exact hmoved | trivial
      rw [(others h ht hnot trivial htt hx' hopen).1] at hmoved
      exact hmoved
  obtain ⟨hbalances, hversion⟩ := h.untouched hfirst
  refine ⟨alone_update h hended fun t' hne x' hx' _ => others h ht hnot trivial hne hx', ?_,
    fun r hr => made_update h ht nofun r hr, fun huntouched => absurd trivial (huntouched t .charged (Function.update_self ..)), ?_⟩
  · suffices hshown : ∀ t' x', Function.update stages t (some .charged) t' = some x' → ∀ result, x'.shows result → _
      from fun t' x' result hx' => hshown t' x' hx' result
    exact forall_update (fun result hresult => absurd hresult id) fun t' _ x' hx' result => h.shown t' x' result hx'
  · intro _ _ _ _
    simp only [hbalances, hversion, and_self]

private theorem store (h : Serving call v₀ stages ended v) (ht : stages t = some .charged) (hnot : ¬ ended t)
    (hended : ∀ t' ≠ t, ended t' → ended' t') {r : IdempotencyRecord} {fields : List (String × Json)}
    (hnone : v.record = none) (hresult : r.storedResult = .obj fields) :
    Serving call v₀ (Function.update stages t (some (.stored r.storedResult))) ended' { v with record := some r } := by
  refine ⟨alone_update h hended fun t' hne x' hx' _ => others h ht hnot trivial hne hx', ?_, ?_,
    fun huntouched => absurd trivial (huntouched t (.stored _) (Function.update_self ..)), ?_⟩
  · suffices hshown : ∀ t' x', Function.update stages t (some (.stored r.storedResult)) t' = some x' →
        ∀ result, x'.shows result → _ from fun t' x' result hx' => hshown t' x' hx' result
    refine forall_update (fun result hshows => ⟨r, rfl, hshows⟩) fun t' _ x' hx' result hshows => ?_
    obtain ⟨r', hr', -⟩ := h.shown t' x' result hx' hshows
    cases hnone.symm.trans hr'
  · rintro _ ⟨rfl⟩
    exact ⟨⟨fields, hresult⟩, t, Function.update_self ..⟩
  · intro _ _ _ _
    exact h.once t _ ht trivial

/-- What one step of a request keeps; it begins only when the others have ended and have
recorded what they did. -/
theorem act (h : Serving call v₀ stages ended v) (ht : stages t = some x) (hnot : ¬ ended t)
    (heffect : ApiEffect call v x y v') (hended : ∀ t' ≠ t, ended t' → ended' t')
    (hbegin : x = .fresh → ∀ t' ≠ t, ∀ x', stages t' = some x' → x' ≠ .fresh → ended t' ∧ x' ≠ .charged) :
    Serving call v₀ (Function.update stages t (some y)) ended' v' := by
  cases heffect with
  | nothing =>
    have hsame : Function.update stages t (some x) = stages := by rw [← ht, Function.update_eq_self]
    have halone := alone_update h hended fun t' hne x' hx' hopen => others h ht hnot hopen hne hx'
    rw [hsame] at halone ⊢
    exact ⟨halone, h.shown, h.made, h.untouched, h.once⟩
  | lookup => exact lookup h ht hended (hbegin rfl)
  | charge => exact charge h ht hnot hended
  | store hnone hresult => exact store h ht hnot hended hnone hresult

/-- A request that has been sent has done nothing yet. -/
theorem spawn (h : Serving call v₀ stages ended v) (ht : stages t = none) (hended : ∀ t' ≠ t, ended t' → ended' t') :
    Serving call v₀ (Function.update stages t (some .fresh)) ended' v := by
  have hother : ∀ t' x', stages t' = some x' → t' ≠ t := by
    rintro t' x' hx' rfl
    cases ht.symm.trans hx'
  refine ⟨alone_update h hended fun _ _ _ _ hopen _ => absurd hopen id, ?_, fun r hr => ?_,
    fun huntouched => h.untouched fun t' x' hx' => huntouched t' x' ?_, ?_⟩
  · suffices hshown : ∀ t' x', Function.update stages t (some .fresh) t' = some x' → ∀ result, x'.shows result → _
      from fun t' x' result hx' => hshown t' x' hx' result
    exact forall_update (fun result hresult => absurd hresult id) fun t' _ x' hx' result => h.shown t' x' result hx'
  · obtain ⟨hfields, t', ht'⟩ := h.made r hr
    exact ⟨hfields, t', (Function.update_of_ne (hother t' _ ht') _ _).trans ht'⟩
  · rw [Function.update_of_ne (hother t' x' hx')]
    exact hx'
  · exact forall_update (fun hmoved => absurd hmoved id) fun t' _ x' hx' => h.once t' x' hx'

theorem mono (h : Serving call v₀ stages ended v) (hended : ∀ t, ended t → ended' t) :
    Serving call v₀ stages ended' v where
  alone := fun t t' x x' hne hx hx' hopen hopen' => (h.alone t t' x x' hne hx hx' hopen hopen').imp
    (fun hidle => ⟨hidle.1, hended t hidle.2⟩) fun hidle => ⟨hidle.1, hended t' hidle.2⟩
  shown := h.shown
  made := h.made
  untouched := h.untouched
  once := h.once

end Serving
end serving

section runs
variable {config : WalletController.Config} {call : ApiCall} {d : Db}

/-- A state of the requests. -/
abbrev Requests := State Mongo Db Unit Json ServiceError

/-- The event is a committed wallet update. -/
def ChargesWallet (ev : Event Mongo Unit) : Bool := (ev.cmd.walletCommit ev.reply).isSome

/-- The event has put a record of the result into the store. -/
def StoresResult (ev : Event Mongo Unit) : Bool :=
  match ev.cmd, ev.reply with
  | .createIdempotencyRecord _, .ok _ => true
  | _, _ => false

/-- A request begins only when every other one that has begun has ended, and has recorded
its result if it has changed the wallet. -/
def BeginsAlone : Requests → Label Oracle Unit → Prop
  | _, .spawn _ _ => True
  | s, .run t _ => s.history t = [] → ∀ ev ∈ s.log, (s.result ev.thread).isSome = true ∧
      ((s.history ev.thread).any ChargesWallet = true → (s.history ev.thread).any StoresResult = true)

/-- The stage of each request. -/
private def stages (call : ApiCall) (s : Requests) (t : ℕ) : Option ApiStage :=
  ((answering call).track s t).map Prod.snd

/-- What the events of a request say about its stage. -/
private structure RequestRecorded (h : List (Event Mongo Unit)) (x : ApiStage) : Prop where
  begun : x = .fresh ↔ h = []
  charged : x.moved → h.any ChargesWallet = true
  stored : h.any StoresResult = true → ∃ result, x = .stored result

/-- An event that says nothing about the stage. -/
private theorem RequestRecorded.same {h : List (Event Mongo Unit)} {x : ApiStage} {ev : Event Mongo Unit} (hx : RequestRecorded h x)
    (hfresh : x ≠ .fresh) (hev : StoresResult ev = false) : RequestRecorded (ev :: h) x where
  begun := ⟨fun h => absurd h hfresh, nofun⟩
  charged := fun hmoved => by rw [List.any_cons, hx.charged hmoved, Bool.or_true]
  stored := fun hstores => hx.stored (by rwa [List.any_cons, hev, Bool.false_or] at hstores)

private theorem recorded_step {h : List (Event Mongo Unit)} {x : ApiStage} {c : Cmd} {t : ℕ} (r : c.Reply)
    (hx : RequestRecorded h x) (hmay : call.may x c) : RequestRecorded (⟨t, (), c, r⟩ :: h) (x.next c r) := by
  cases c with
  | findIdempotencyResult key scope =>
    by_cases hfresh : x = .fresh
    · subst hfresh
      obtain rfl : h = [] := hx.begun.mp rfl
      show RequestRecorded _ ((storedResult r).elim .working .answered)
      cases storedResult r <;> exact ⟨⟨nofun, nofun⟩, fun hmoved => absurd hmoved id, nofun⟩
    · rw [ApiStage.next_incidental hfresh (show Cmd.incidental (.findIdempotencyResult key scope) from rfl)]
      exact hx.same hfresh rfl
  | createWallet w =>
    obtain ⟨rfl, -⟩ := hmay
    exact hx.same nofun rfl
  | updateWallet f u =>
    obtain ⟨rfl, -⟩ := hmay
    cases r with
    | none => exact hx.same nofun rfl
    | some w =>
      refine ⟨⟨nofun, nofun⟩, fun _ => rfl, fun hstores => ?_⟩
      obtain ⟨result, hresult⟩ := hx.stored hstores
      cases hresult
  | createIdempotencyRecord record =>
    obtain ⟨rfl, -⟩ := hmay
    cases r with
    | error e => exact hx.same nofun rfl
    | ok _ =>
      refine ⟨⟨nofun, nofun⟩, fun _ => ?_, fun _ => ⟨_, rfl⟩⟩
      rw [List.any_cons, hx.charged trivial, Bool.or_true]
  | _ =>
    rw [ApiStage.next_incidental hmay.1 hmay.2]
    exact hx.same hmay.1 rfl

private theorem track_eq {s : Requests} {t : ℕ} {x : ApiStage} (h : stages call s t = some x) :
    (answering call).track s t = some ((), x) := by
  obtain ⟨⟨⟨⟩, x'⟩, htrack, rfl⟩ := Option.map_eq_some_iff.mp h
  exact htrack

variable {s : Requests}

private theorem request_recorded (h : (requests config call).Reaches BeginsAlone (.start d) s) {t : ℕ} {x : ApiStage}
    (hx : stages call s t = some x) : RequestRecorded (s.history t) x :=
  (answering_kept config call).invariant (P := fun _ => RequestRecorded)
    (fun _ => ⟨⟨fun _ => rfl, fun _ => rfl⟩, fun hmoved => absurd hmoved id, nofun⟩)
    (fun _ _ _ _ _ r ih hmay _ => recorded_step r ih hmay) h t () x (track_eq hx)

private theorem serving (hnew : d.records.find (call.request.idempotencyKey, call.scope) = none)
    (h : (requests config call).Reaches BeginsAlone (.start d) s) :
    Serving call (d.apiView call) (stages call s) (fun t => (s.result t).isSome = true) (s.db.apiView call) := by
  induction h using Machine.Reaches.by_steps with
  | start =>
    refine ⟨nofun, nofun, fun r hr => ?_, fun _ => ⟨rfl, rfl⟩, nofun⟩
    cases hnew.symm.trans hr
  | spawn s t c hs _ ht ih =>
    have hstages : stages call ((requests config call).spawned s t c) =
        Function.update (stages call s) t (some .fresh) := by
      funext t'
      rw [stages, Contract.track_spawned hs ht]
      by_cases htt : t' = t
      · subst htt
        simp [answering]
      · simp [htt, stages]
    rw [hstages]
    apply ih.spawn (by simp [stages, Contract.track, State.calls, ht])
    intro t' hne hend
    rwa [State.result_congr (Function.update_of_ne hne _ _)]
  | act s t o call' c k hs hA ht ih =>
    have hmay : call.may _ c := (answering_kept config call).may hs ht
    have hx : stages call s t = some ((answering call).record () (s.history t)) := by
      rw [stages, Contract.track_of_thread ht]
      rfl
    have hstages : stages call ((requests config call).acted s t o call' c k) = Function.update (stages call s) t
        (some (((answering call).record () (s.history t)).next c (exec o s.db c).1)) := by
      funext t'
      rw [stages, Contract.track_acted ht]
      by_cases htt : t' = t
      · subst htt
        simp [answering]
      · simp [htt, stages]
    rw [hstages]
    refine ih.act hx ?_ (api_effect hmay o s.db) (fun t' hne hend => ?_) fun hfresh t' hne x' hx' hbegun => ?_
    · simp [State.result, ht]
    · rwa [State.result_congr (Function.update_of_ne hne _ _)]
    · have hhistory : s.history t = [] := (request_recorded hs hx).begun.mp hfresh
      have hrecorded := request_recorded hs hx'
      obtain ⟨ev, hev⟩ := List.exists_mem_of_ne_nil _ (mt hrecorded.begun.mpr hbegun)
      obtain ⟨hmem, rfl⟩ := s.mem_history.mp hev
      obtain ⟨hended, hstores⟩ := hA hhistory ev hmem
      refine ⟨hended, ?_⟩
      rintro rfl
      obtain ⟨result, hresult⟩ := hrecorded.stored (hstores (hrecorded.charged trivial))
      cases hresult
  | restart s t o call' c hs _ ht ih =>
    have hstages : stages call ((requests config call).restarted s t call' c) = stages call s := by
      funext t'
      rw [stages, Contract.track_restarted ht]
      rfl
    rw [hstages]
    apply ih.mono
    intro t' hend
    by_cases htt : t' = t
    · subst htt
      simp [State.result, ht] at hend
    · rwa [State.result_congr (Function.update_of_ne htt _ _)]

/-- Requests with one key and one body: if any of them succeeds, the wallet is changed exactly once,
and all that succeed return the same, as long as none begins before the others have finished what
they had begun. Amounts are exact, identifiers trimmed and dates valid. -/
theorem exactly_once (h : (requests config call).Reaches BeginsAlone (.start d) s)
    (hnew : d.records.find (call.request.idempotencyKey, call.scope) = none) {t : ℕ} {result : Json}
    (hok : s.result t = some (.ok result)) :
    s.db.balances call.userId = d.balances call.userId + (call.change, 0) ∧
      s.db.version call.userId = d.version call.userId + 1 ∧
      ∀ t' result', s.result t' = some (.ok result') → result' = result := by
  have hserving := serving hnew h
  have hshown : ∀ t' result', s.result t' = some (.ok result') →
      ∃ r, (s.db.apiView call).record = some r ∧ r.storedResult = result' := by
    intro t' result' hok'
    have hspawned : ∃ x, stages call s t' = some x := by
      cases ht : s.threads t' with
      | none => simp [State.result, ht] at hok'
      | some th => exact ⟨_, by rw [stages, Contract.track_of_thread ht, Option.map_some]⟩
    obtain ⟨x, hx⟩ := hspawned
    have hends : x.ends (.ok result') := (answering_kept config call).ends h (track_eq hx) hok'
    apply hserving.shown t' x result' hx
    rcases hends with rfl | rfl <;> rfl
  obtain ⟨r, hr, rfl⟩ := hshown t result hok
  obtain ⟨-, t₀, ht₀⟩ := hserving.made r hr
  obtain ⟨hbalances, hversion⟩ := hserving.once t₀ _ ht₀ trivial
  refine ⟨hbalances, hversion, fun t' result' hok' => ?_⟩
  obtain ⟨r', hr', rfl⟩ := hshown t' result' hok'
  cases hr.symm.trans hr'
  rfl

end runs

section scenario

instance (s : Requests) (l : Label Oracle Unit) : Decidable (BeginsAlone s l) :=
  match l with
  | .spawn .. | .run .. => by dsimp only [BeginsAlone]; infer_instance

/-- Two requests are sent and take their steps in the given order. -/
private def sent (threads : List ℕ) : List (Label Oracle Unit) :=
  [.spawn 0 (), .spawn 1 ()] ++ threads.zipIdx.map fun x => .run x.1 (tick x.2)

private theorem exists_ok {s : Requests} {t : ℕ} (h : (s.result t).any Except.isOk = true) :
    ∃ result, s.result t = some (.ok result) := by
  cases hr : s.result t with
  | none => simp [hr] at h
  | some r =>
    cases r with
    | error e => simp [hr, Except.isOk, Except.toBool] at h
    | ok result => exact ⟨result, rfl⟩

/-- The second request comes when the first has ended, and gets its result. -/
theorem exactly_once_in_turn :
    ∃ s, (requests apiConfig (.credit "user-1" sampleTransaction)).Reaches BeginsAlone (.start fundedDb) s ∧
      ∃ result, s.result 0 = some (.ok result) ∧ s.result 1 = some (.ok result) ∧
        s.db.balances "user-1" = fundedDb.balances "user-1" + (20, 0) ∧ s.db.version "user-1" = 1 := by
  obtain ⟨s, hs, hfacts⟩ := Machine.exists_reaches (requests apiConfig (.credit "user-1" sampleTransaction))
    BeginsAlone (.start fundedDb) (sent (List.replicate 14 0 ++ [1]))
    (fun s => ((s.result 0).any Except.isOk, (s.result 1).any Except.isOk)) (a := (true, true)) (by decide +kernel)
  obtain ⟨result, hfirst⟩ := exists_ok (congrArg Prod.fst hfacts)
  obtain ⟨result', hsecond⟩ := exists_ok (congrArg Prod.snd hfacts)
  obtain ⟨hbalances, hversion, hsame⟩ := exactly_once hs rfl hfirst
  exact ⟨s, hs, result, hfirst, hsame 1 result' hsecond ▸ hsecond, hbalances, hversion⟩

/-- Both requests look the key up before either has recorded a result: the wallet is
credited twice. -/
theorem not_exactly_once_in_race :
    ∃ s, (requests apiConfig (.credit "user-1" sampleTransaction)).Reaches (fun _ _ => True) (.start fundedDb) s ∧
      fundedDb.records.find ("key-1", ApiCall.scope (.credit "user-1" sampleTransaction)) = none ∧
      (∃ t result, s.result t = some (.ok result)) ∧
      (s.db.balances "user-1" = fundedDb.balances "user-1" + (40, 0) ∧ s.db.version "user-1" = 2) := by
  obtain ⟨s, hs, hfacts⟩ := Machine.exists_reaches (requests apiConfig (.credit "user-1" sampleTransaction))
    (fun _ _ => True) (.start fundedDb) (sent ([0] ++ List.replicate 14 1 ++ List.replicate 14 0))
    (fun s => ((s.result 1).any Except.isOk, s.db.balances "user-1", s.db.version "user-1"))
    (a := (true, (140, 0), 2)) (by decide +kernel)
  simp only [Prod.mk.injEq] at hfacts
  obtain ⟨hok, hbalances, hversion⟩ := hfacts
  obtain ⟨result, hresult⟩ := exists_ok hok
  refine ⟨s, hs, rfl, ⟨1, result, hresult⟩, ?_, hversion⟩
  rw [hbalances]
  decide +kernel

end scenario
end RedRoomRewards
