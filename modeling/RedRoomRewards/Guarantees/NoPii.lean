import RedRoomRewards.Alone.Entries
import RedRoomRewards.Guarantees.Reconciliation

/-! Personal data in the metadata of a ledger entry. The check of `createEntry` reads the
keys of the metadata and the strings that stand directly under them, so what a nested
object or array holds goes into the ledger unread. -/
namespace RedRoomRewards
open Process Store LedgerService

section inside

/-- The values that occur in a value, itself included. -/
inductive Inside : Json → Json → Prop
  | here {v : Json} : Inside v v
  | item {v item : Json} {items : List Json} (hitem : item ∈ items) (h : Inside v item) : Inside v (.arr items)
  | field {v value : Json} {key : String} {fields : List (String × Json)} (hfield : (key, value) ∈ fields)
      (h : Inside v value) : Inside v (.obj fields)

/-- No object in the value has a key that names personal data, and no string in it has an
e-mail address. -/
structure Json.Clean (value : Json) : Prop where
  keys : ∀ fields, Inside (.obj fields) value → ∀ kv ∈ fields, isPiiField kv.1 = false
  strings : ∀ s, Inside (.str s) value → emailPattern s = false

/-- Objects and arrays. -/
def Json.nested : Json → Bool
  | .arr _ | .obj _ => true
  | _ => false

theorem clean_str {s : String} (h : emailPattern s = false) : (Json.str s).Clean where
  keys := fun fields hinside => by cases hinside
  strings := fun s' hinside => by
    cases hinside
    exact h

/-- A value that has no parts and is no string is clean. -/
theorem clean_of_flat {value : Json} (hflat : value.nested = false) (hstr : ∀ s, value ≠ .str s) : value.Clean where
  keys := fun fields hinside => by
    cases hinside with
    | here => cases hflat
    | item _ _ => cases hflat
    | field _ _ => cases hflat
  strings := fun s hinside => by
    cases hinside with
    | here => exact absurd rfl (hstr s)
    | item _ _ => cases hflat
    | field _ _ => cases hflat

theorem clean_obj {fields : List (String × Json)} : (Json.obj fields).Clean ↔
    (∀ kv ∈ fields, isPiiField kv.1 = false) ∧ ∀ kv ∈ fields, kv.2.Clean := by
  constructor
  · intro h
    refine ⟨h.keys fields .here, fun kv hkv => ⟨fun fields' hinside => ?_, fun s hinside => ?_⟩⟩
    · exact h.keys fields' (.field hkv hinside)
    · exact h.strings s (.field hkv hinside)
  · rintro ⟨hkeys, hvalues⟩
    refine ⟨fun fields' hinside => ?_, fun s hinside => ?_⟩
    · cases hinside with
      | here => exact hkeys
      | field hfield h => exact (hvalues _ hfield).keys fields' h
    · cases hinside with
      | field hfield h => exact (hvalues _ hfield).strings s h

end inside

section check
variable {metadata : Metadata}

/-- The check passes exactly if no key names personal data and no string directly under a
key has an e-mail address. -/
theorem piiIn_eq_none : piiIn metadata = none ↔
    ∀ kv ∈ metadata, isPiiField kv.1 = false ∧ ∀ s, kv.2 = .str s → emailPattern s = false := by
  induction metadata with
  | nil => simp [piiIn]
  | cons kv rest ih =>
    obtain ⟨key, value⟩ := kv
    rw [List.forall_mem_cons, ← ih, piiIn.eq_def]
    by_cases hkey : isPiiField key = true
    · simp [hkey]
    · cases value with
      | str s => by_cases hs : emailPattern s = true <;> simp [hkey, hs]
      | _ => simp [hkey]

/-- Metadata that passes the check is clean where its nested values are. -/
theorem clean_of_check (hcheck : piiIn metadata = none)
    (hnested : ∀ kv ∈ metadata, kv.2.nested = true → kv.2.Clean) : (Json.obj metadata).Clean := by
  have htop := piiIn_eq_none.mp hcheck
  refine clean_obj.mpr ⟨fun kv hkv => (htop kv hkv).1, fun kv hkv => ?_⟩
  cases hkind : kv.2.nested with
  | true => exact hnested kv hkv hkind
  | false =>
    by_cases hstr : ∃ s, kv.2 = .str s
    · obtain ⟨s, hs⟩ := hstr
      rw [hs]
      exact clean_str ((htop kv hkv).2 s hs)
    · exact clean_of_flat hkind fun s hs => hstr ⟨s, hs⟩

end check

section stored
variable {config : LedgerService.Config} {request : CreateLedgerEntryRequest} {db : Db} {metadata : Metadata}

/-- The call stores an entry with this metadata. -/
def Admits (config : LedgerService.Config) (request : CreateLedgerEntryRequest) (os : ℕ → Oracle) (db : Db)
    (metadata : Metadata) : Prop :=
  ∃ e, ((createEntry config request).solo exec os db).2.ledger.docs = db.ledger.docs ++ [e] ∧
    e.metadata = some metadata

/-- Only metadata that passes the check is stored. -/
private theorem check_of_admits {os : ℕ → Oracle} (h : Admits config request os db metadata) :
    piiIn metadata = none := by
  have hrequest : Alone (fun _ => True) (fun _ db' => db'.ledger.docs = db.ledger.docs ∨
      request.metadata.bind piiIn = none ∧ ∃ e, db'.ledger.docs = db.ledger.docs ++ [e] ∧ e.metadata = request.metadata)
      (createEntry config request) db := by
    cases hpii : request.metadata.bind piiIn with
    | some message =>
      refine alone_throwIf (fun _ => .inl rfl) fun _ => alone_throwIf (fun _ => .inl rfl) fun _ => ?_
      rw [hpii]
      exact .inl rfl
    | none =>
      refine alone_createEntry (fun e hdescribes hfree => .inr ⟨rfl, e, Collection.docs_insert hfree, ?_⟩)
        (fun _ _ _ => .inl rfl) fun _ => .inl rfl
      obtain ⟨_, _, _, _, _, rfl⟩ := hdescribes
      rfl
  obtain ⟨e, hdocs, hmetadata⟩ := h
  rcases hrequest.always os with hsame | ⟨hpii, e', hdocs', hmetadata'⟩
  · simpa using hdocs.symm.trans hsame
  · obtain rfl : e = e' := by simpa using hdocs.symm.trans hdocs'
    rwa [← hmetadata', hmetadata] at hpii

def awardWith (metadata : Metadata) : CreateLedgerEntryRequest :=
  { sampleEntry with transactionId := some "transaction-1", metadata := some metadata }

/-- Whatever passes the check is stored with an award. -/
private theorem admits_of_check (hcheck : piiIn metadata = none) :
    Admits LedgerService.defaultConfig (awardWith metadata) (fun _ => tick 1) .empty metadata := by
  have hvalid : ValidId (tick 1).uuid := by decide +kernel
  have htexts : requiredText 128 "transaction-1" = true ∧ requiredText 128 "user-1" = true ∧
      requiredText 128 "award→available" = true ∧ requiredText 256 (trim "entry-1") = true ∧
      requiredText 128 "request-1" = true ∧ requiredText 16 "points" = true := by decide +kernel
  obtain ⟨htransaction, haccount, hstate, hkey, hrequest, hcurrency⟩ := htexts
  have hstorable : (awardWith metadata).Storable LedgerService.defaultConfig "transaction-1" .empty :=
    { state := ⟨rfl, nofun⟩
      metadata := hcheck
      transaction := rfl
      correlation := nofun
      fresh := fun e he => by cases he
      reason := rfl
      valid := fun _ _ _ hid => entry_valid hid.1 htransaction haccount hstate hkey hrequest hcurrency rfl
        ⟨rfl, rfl, rfl, rfl⟩ }
  have hstored : Alone (· = tick 1) (fun _ db' => ∃ e, db'.ledger.docs = Db.empty.ledger.docs ++ [e] ∧
      e.metadata = some metadata) (createEntry LedgerService.defaultConfig (awardWith metadata)) .empty := by
    refine alone_createEntry_storable hstorable (by decide +kernel) ?_ ?_
    · rintro o rfl
      exact ⟨rfl, hvalid, rfl⟩
    · rintro e ⟨_, _, _, _, _, rfl⟩ hfree
      exact ⟨_, Collection.docs_insert hfree, rfl⟩
  exact hstored.solo fun _ => rfl

/-- Metadata is stored only if it is clean at every depth exactly if the check stops it, or
if what it has in nested objects and arrays is clean. -/
theorem stored_clean_iff (metadata : Metadata) :
    (∀ config request os db, Admits config request os db metadata → (Json.obj metadata).Clean) ↔
      (piiIn metadata).isSome = true ∨ ∀ kv ∈ metadata, kv.2.nested = true → kv.2.Clean := by
  constructor
  · intro h
    cases hcheck : piiIn metadata with
    | some message => exact .inl rfl
    | none =>
      have hclean := h _ _ _ _ (admits_of_check hcheck)
      exact .inr fun kv hkv _ => (clean_obj.mp hclean).2 kv hkv
  · rintro (hstopped | hnested) config request os db hadmits
    · rw [check_of_admits hadmits] at hstopped
      cases hstopped
    · exact clean_of_check (check_of_admits hadmits) hnested

/-- An address under a key of a nested object. -/
def contact : Metadata := [("contact", .obj [("email", .str "user@example.org")])]

/-- It is stored. -/
theorem contact_stored : Admits LedgerService.defaultConfig (awardWith contact) (fun _ => tick 1) .empty contact ∧
    ¬ (Json.obj contact).Clean := by
  refine ⟨admits_of_check (by decide +kernel), fun hclean => ?_⟩
  have hkey := hclean.keys _ (.field (.head _) .here) _ (.head _)
  exact absurd hkey (by decide +kernel)

end stored
end RedRoomRewards
