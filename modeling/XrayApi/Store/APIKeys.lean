import XrayApi.Store.Schema

/-!
# API keys

The table `api_keys` and the calls of `internal/store/apikeys.go`. Only the hash of a key is stored.
Revoking a key keeps its row, so that the hash stays taken: no call makes a revoked hash live again,
and a hash becomes live by an insert only.

`now` is the reading of the database's clock.
-/

set_option autoImplicit false

namespace XrayApi.Store

open XrayApi.Relational

/-- An admin credential. -/
structure APIKey where
  id : ID
  name : String
  keyHash : String
  lastUsedAt : Option Time
  revokedAt : Option Time
  deriving DecidableEq, Repr

/-- The table, with its `PRIMARY KEY` and its `UNIQUE` constraint. -/
structure APIKeys where
  rows : List APIKey
  rows_id : (rows.map APIKey.id).Nodup
  rows_keyHash : (rows.map APIKey.keyHash).Nodup

namespace APIKeys

/-- No key at all. -/
def empty : APIKeys := ⟨[], List.nodup_nil, List.nodup_nil⟩

/-- `UPDATE api_keys` of columns that are no keys. -/
def touch (t : APIKeys) (p : APIKey → Bool) (f : APIKey → APIKey) (hid : ∀ k, (f k).id = k.id)
    (hhash : ∀ k, (f k).keyHash = k.keyHash) : APIKeys where
  rows := updateWhere p f t.rows
  rows_id := by
    rw [map_updateWhere p f APIKey.id fun k _ => hid k]
    exact t.rows_id
  rows_keyHash := by
    rw [map_updateWhere p f APIKey.keyHash fun k _ => hhash k]
    exact t.rows_keyHash

/-- Insert a key; it has not been used nor revoked. -/
def create (t : APIKeys) (k : APIKey) : Except StoreErr APIKeys :=
  if hid : k.id ∈ t.rows.map APIKey.id then .error (.conflict "api_keys_pkey")
  else if hhash : k.keyHash ∈ t.rows.map APIKey.keyHash then
    .error (.conflict "api_keys_key_hash_key")
  else .ok {
    rows := t.rows ++ [{ k with lastUsedAt := none, revokedAt := none }]
    rows_id := nodup_map_append_singleton t.rows_id hid
    rows_keyHash := nodup_map_append_singleton t.rows_keyHash hhash }

/-- The key has the hash and is not revoked. -/
def liveAt (hash : String) (k : APIKey) : Bool :=
  decide (k.keyHash = hash ∧ k.revokedAt = none)

theorem liveAt_iff {hash : String} {k : APIKey} :
    liveAt hash k = true ↔ k.keyHash = hash ∧ k.revokedAt = none :=
  decide_eq_true_iff

/-- Find a live key by its hash, and note that it was used. -/
def findByHash (t : APIKeys) (hash : String) (now : Time) : Except StoreErr (APIKey × APIKeys) :=
  match t.rows.find? (liveAt hash) with
  | none => .error .notFound
  | some k =>
    .ok ({ k with lastUsedAt := some now },
      t.touch (liveAt hash) (fun k => { k with lastUsedAt := some now }) (fun _ => rfl)
        fun _ => rfl)

/-- Mark a live key revoked. -/
def revoke (t : APIKeys) (id : ID) (now : Time) : Except StoreErr APIKeys :=
  if ∃ k ∈ t.rows, k.id = id ∧ k.revokedAt = none then
    .ok (t.touch (fun k => decide (k.id = id ∧ k.revokedAt = none))
      (fun k => { k with revokedAt := some now }) (fun _ => rfl) fun _ => rfl)
  else .error .notFound

/-! ## Live and revoked hashes -/

/-- Some key with the hash is not revoked. -/
def Live (t : APIKeys) (hash : String) : Prop :=
  ∃ k ∈ t.rows, k.keyHash = hash ∧ k.revokedAt = none

/-- The key with the hash is revoked. -/
def Revoked (t : APIKeys) (hash : String) : Prop :=
  ∃ k ∈ t.rows, k.keyHash = hash ∧ k.revokedAt ≠ none

section Facts

variable {t t' : APIKeys} {hash : String} {k : APIKey} {now : Time} {id : ID}

/-- The hash has one row. -/
theorem Revoked.not_live (h : t.Revoked hash) : ¬ t.Live hash := by
  rintro ⟨k, hk, hkh, hlive⟩
  obtain ⟨k', hk', hkh', hrevoked⟩ := h
  have heq : k' = k := List.inj_on_of_nodup_map t.rows_keyHash hk' hk (hkh'.trans hkh.symm)
  rw [heq] at hrevoked
  exact hrevoked hlive

theorem create_eq_ok (h : t.create k = .ok t') :
    k.keyHash ∉ t.rows.map APIKey.keyHash ∧
      t'.rows = t.rows ++ [{ k with lastUsedAt := none, revokedAt := none }] := by
  unfold create at h
  split_ifs at h with hid hhash
  cases h
  exact ⟨hhash, rfl⟩

/-- An insert makes its own hash live, and no other. -/
theorem live_create (h : t.create k = .ok t') : t'.Live hash ↔ t.Live hash ∨ hash = k.keyHash := by
  obtain ⟨-, hrows⟩ := create_eq_ok h
  unfold Live
  rw [hrows]
  constructor
  · rintro ⟨r, hr, hrh, hlive⟩
    obtain hr | hr := List.mem_append.1 hr
    · exact Or.inl ⟨r, hr, hrh, hlive⟩
    · rw [List.mem_singleton.1 hr] at hrh
      exact Or.inr hrh.symm
  · rintro (⟨r, hr, hrh, hlive⟩ | rfl)
    · exact ⟨r, List.mem_append_left _ hr, hrh, hlive⟩
    · exact ⟨_, List.mem_append_right _ (List.mem_singleton.2 rfl), rfl, rfl⟩

theorem Revoked.create (hr : t.Revoked hash) (h : t.create k = .ok t') : t'.Revoked hash := by
  obtain ⟨r, hmem, hrest⟩ := hr
  refine ⟨r, ?_, hrest⟩
  rw [(create_eq_ok h).2]
  exact List.mem_append_left _ hmem

/-- A lookup that succeeds finds a live key with the hash. -/
theorem findByHash_eq_ok (h : t.findByHash hash now = .ok (k, t')) :
    t.Live hash ∧ k.keyHash = hash ∧ t'.rows = updateWhere (liveAt hash)
      (fun k => { k with lastUsedAt := some now }) t.rows := by
  unfold findByHash at h
  split at h
  · cases h
  · next r hr =>
      cases h
      have hlive := liveAt_iff.1 (List.find?_some hr)
      exact ⟨⟨r, List.mem_of_find?_eq_some hr, hlive⟩, hlive.1, rfl⟩

/-- An update that does not touch the hash or the revocation changes no hash's standing. -/
theorem exists_mem_updateWhere {p : APIKey → Bool} {f : APIKey → APIKey} {Q : APIKey → Prop}
    (hf : ∀ k, p k = true → (Q (f k) ↔ Q k)) {rows : List APIKey} :
    (∃ k ∈ updateWhere p f rows, Q k) ↔ ∃ k ∈ rows, Q k := by
  constructor
  · rintro ⟨k, hk, hQ⟩
    obtain ⟨r, hr, rfl⟩ := mem_updateWhere.1 hk
    refine ⟨r, hr, ?_⟩
    split_ifs at hQ with hp
    · exact (hf r hp).1 hQ
    · exact hQ
  · rintro ⟨r, hr, hQ⟩
    refine ⟨_, mem_updateWhere.2 ⟨r, hr, rfl⟩, ?_⟩
    split_ifs with hp
    · exact (hf r hp).2 hQ
    · exact hQ

theorem live_findByHash {hash' : String} (h : t.findByHash hash' now = .ok (k, t')) :
    t'.Live hash ↔ t.Live hash := by
  unfold Live
  rw [(findByHash_eq_ok h).2.2]
  refine exists_mem_updateWhere ?_
  exact fun _ _ => Iff.rfl

theorem revoked_findByHash {hash' : String} (h : t.findByHash hash' now = .ok (k, t')) :
    t'.Revoked hash ↔ t.Revoked hash := by
  unfold Revoked
  rw [(findByHash_eq_ok h).2.2]
  refine exists_mem_updateWhere ?_
  exact fun _ _ => Iff.rfl

theorem revoke_eq_ok (h : t.revoke id now = .ok t') :
    t'.rows = updateWhere (fun k => decide (k.id = id ∧ k.revokedAt = none))
      (fun k => { k with revokedAt := some now }) t.rows := by
  unfold revoke at h
  split_ifs at h
  cases h
  rfl

/-- A revocation makes no hash live. -/
theorem Live.of_revoke (h : t.revoke id now = .ok t') (hl : t'.Live hash) : t.Live hash := by
  obtain ⟨k, hk, hkh, hlive⟩ := hl
  rw [revoke_eq_ok h] at hk
  obtain ⟨r, hr, rfl⟩ := mem_updateWhere.1 hk
  split_ifs at hkh hlive
  exact ⟨r, hr, hkh, hlive⟩

theorem Revoked.revoke (hr : t.Revoked hash) (h : t.revoke id now = .ok t') : t'.Revoked hash := by
  obtain ⟨r, hmem, hrh, hrevoked⟩ := hr
  refine ⟨r, ?_, hrh, hrevoked⟩
  rw [revoke_eq_ok h]
  refine mem_updateWhere.2 ⟨r, hmem, (if_neg fun hp => ?_).symm⟩
  exact hrevoked (of_decide_eq_true hp).2

/-- The revoked key's hash is revoked. -/
theorem revoked_of_revoke (h : t.revoke id now = .ok t') (hk : k ∈ t.rows) (hid : k.id = id) :
    t'.Revoked k.keyHash := by
  by_cases hlive : k.revokedAt = none
  · refine ⟨{ k with revokedAt := some now }, ?_, rfl, Option.some_ne_none now⟩
    rw [revoke_eq_ok h]
    exact mem_updateWhere.2 ⟨k, hk, (if_pos (decide_eq_true ⟨hid, hlive⟩)).symm⟩
  · exact Revoked.revoke ⟨k, hk, rfl, hlive⟩ h

end Facts

end APIKeys

end XrayApi.Store
