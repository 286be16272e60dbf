import Tethra.Gateway.Origin
import Tethra.Lib.Keyed
import Tethra.Lib.Runs

set_option autoImplicit false

/-! # Approved origins (`tracking/src/origin.rs`)

The approval of an origin is a row of the vault's database, with a keyed MAC over the vault, the
origin, the provider and the time. Someone who can write the database but has no key can put a row
back that an earlier approval had stored. A revocation deletes the row and leaves nothing behind, so
the row verifies again; in runs without such an edit an approval is always the latest call
(`approved_only_by_call`). -/

namespace Tethra.OriginApprovals

open Gateway Observe Framing Keyed Runs

/-- `SecretBytes` and `blake3` are parameters: the key, and the keyed hash as bytes. -/
structure ApprovalEnv where
  lowercase : Str → Str
  keyedHash : List UInt8 → List UInt8 → List UInt8
  macKey : List UInt8
  vaultId : Str
  vaultFits : Framing.Fits (utf8 vaultId)

/-- Canonical form for comparison and storage. -/
def canonicalize (lowercase : Str → Str) (origin : Str) : Except CoreError Str :=
  match validateOrigin lowercase origin with
  | .error message => .error (.invalidInput message)
  | .ok (host, port) => .ok ("https://".toList ++ host ++ ':' :: (toString port).toList)

/-- `Hash::to_hex`. -/
def toHex (bytes : List UInt8) : Str :=
  bytes.flatMap fun b => [Nat.digitChar (b.toNat / 16), Nat.digitChar (b.toNat % 16)]

/-- The bytes that `approval_mac` hashes. -/
def approvalMessage (vaultId canonical providerId «at» : Str) : List UInt8 :=
  utf8 "tethra:origin-approval-mac:v1".toList
    ++ frames ([vaultId, canonical, providerId, «at»].map utf8)

/-- Keyed MAC over an approval's identity fields; the key must have 32 bytes. -/
def ApprovalEnv.approvalMac (env : ApprovalEnv) (canonical providerId «at» : Str) :
    Except CoreError Str :=
  if env.macKey.length = 32 then
    .ok (toHex (env.keyedHash env.macKey (approvalMessage env.vaultId canonical providerId «at»)))
  else .error (.crypto "gateway MAC key length")

/-- One stored approval, as it is answered. -/
structure ApprovedOrigin where
  origin : Str
  providerId : Str
  approvedAt : Str
  deriving DecidableEq, Repr

/-- A row of `tracking_approved_origins`; the primary key is the pair. -/
structure ApprovalRow where
  origin : Str
  providerId : Str
  approvedAt : Str
  mac : Str
  deriving DecidableEq, Repr

def ApprovalRow.pair (row : ApprovalRow) : Str × Str := (row.origin, row.providerId)

/-- The row that an approval stores. -/
def ApprovalEnv.approvalRow (env : ApprovalEnv) (origin providerId «at» : Str) :
    Except CoreError ApprovalRow := do
  let canonical ← canonicalize env.lowercase origin
  let mac ← env.approvalMac canonical providerId «at»
  return ⟨canonical, providerId, «at», mac⟩

/-- Record the user's approval of one exact origin. -/
def ApprovalEnv.approve (env : ApprovalEnv) (rows : List ApprovalRow) (origin providerId «at» : Str) :
    Except CoreError (ApprovedOrigin × List ApprovalRow) := do
  let row ← env.approvalRow origin providerId «at»
  return (⟨row.origin, providerId, «at»⟩,
    upsert ApprovalRow.pair row.pair
      (fun old => { old with approvedAt := row.approvedAt, mac := row.mac }) row rows)

/-- Whether this exact origin is already approved for this provider. -/
def ApprovalEnv.isApproved (env : ApprovalEnv) (rows : List ApprovalRow) (origin providerId : Str) :
    Except CoreError (Option ApprovedOrigin) :=
  match canonicalize env.lowercase origin with
  | .error _ => .ok none
  | .ok canonical =>
      match rows.find? (·.pair = (canonical, providerId)) with
      | none => .ok none
      | some row => do
          let expected ← env.approvalMac canonical providerId row.approvedAt
          return if expected = row.mac then some ⟨canonical, providerId, row.approvedAt⟩ else none

/-- The origin that `revoke` deletes under: one that is not valid is taken as it is written. -/
def revokedOrigin (lowercase : Str → Str) (origin : Str) : Str :=
  match canonicalize lowercase origin with
  | .ok canonical => canonical
  | .error _ => origin

/-- Withdraw an approval. -/
def revoke (lowercase : Str → Str) (rows : List ApprovalRow) (origin providerId : Str) :
    Bool × List ApprovalRow :=
  let pair := (revokedOrigin lowercase origin, providerId)
  (rows.any (·.pair = pair), rows.filter (·.pair ≠ pair))

/-! ## Runs -/

/-- A call that succeeded: an approval with the row it stored, or a revocation of a pair. -/
inductive ApprovalCall where
  | approve (row : ApprovalRow)
  | revoke (origin providerId : Str)
  deriving DecidableEq, Repr

def ApprovalCall.pair : ApprovalCall → Str × Str
  | .approve row => row.pair
  | .revoke origin providerId => (origin, providerId)

/-- The table, the calls so far with the latest first, and the messages whose MAC was stored under the
    vault's key. -/
structure Approvals where
  rows : List ApprovalRow
  calls : List ApprovalCall
  hashed : List (List UInt8)
  deriving Repr

def Approvals.latest (w : Approvals) (pair : Str × Str) : Option ApprovalCall :=
  w.calls.find? (·.pair = pair)

def ApprovalRow.texts (row : ApprovalRow) : List Str := [row.origin, row.providerId, row.approvedAt]

/-- The lengths are those of strings in memory. -/
def ApprovalRow.Fits (row : ApprovalRow) : Prop := ∀ field ∈ row.texts, Framing.Fits (utf8 field)

section

variable (env : ApprovalEnv)

def ApprovalEnv.message (row : ApprovalRow) : List UInt8 :=
  approvalMessage env.vaultId row.origin row.providerId row.approvedAt

/-- The row's MAC is the one of its fields. -/
def ApprovalEnv.Verifies (row : ApprovalRow) : Prop :=
  env.approvalMac row.origin row.providerId row.approvedAt = .ok row.mac

/-- What an edit of the table can be: any rows under distinct primary keys, with no MAC that verifies
    unless the key's holder had computed it for these fields. -/
structure ApprovalEnv.Edits (w : Approvals) (rows : List ApprovalRow) : Prop where
  distinct : (rows.map ApprovalRow.pair).Nodup
  fits : ∀ row ∈ rows, row.Fits
  unforged : ∀ row ∈ rows, env.Verifies row → env.message row ∈ w.hashed

/-- One call, or one edit. The gateway hashes its routes under the same key. -/
inductive ApprovalEnv.Step : Approvals → Approvals → Prop
  | approve {w : Approvals} {origin providerId «at» : Str} {row : ApprovalRow} {answer : ApprovedOrigin}
      {rows : List ApprovalRow} (hrow : env.approvalRow origin providerId «at» = .ok row)
      (hfits : row.Fits) (hcall : env.approve w.rows origin providerId «at» = .ok (answer, rows)) :
      Step w ⟨rows, .approve row :: w.calls, env.message row :: w.hashed⟩
  | revoke {w : Approvals} {origin providerId : Str} {deleted : Bool} {rows : List ApprovalRow}
      (hcall : revoke env.lowercase w.rows origin providerId = (deleted, rows)) :
      Step w ⟨rows, .revoke (revokedOrigin env.lowercase origin) providerId :: w.calls, w.hashed⟩
  | sealRoute {w : Approvals} {fields : MacFields} :
      Step w { w with hashed := macMessage fields :: w.hashed }
  | edit {w : Approvals} {rows : List ApprovalRow} (hedits : env.Edits w rows) :
      Step w { w with rows }

/-- Before the first call. -/
def Approvals.empty : Approvals := ⟨[], [], []⟩

/-- An approval is answered only for a pair whose latest call was an approval. -/
def ApprovalEnv.ApprovedByCall (w : Approvals) : Prop :=
  ∀ origin providerId answer, env.isApproved w.rows origin providerId = .ok (some answer) →
    ∃ canonical row, canonicalize env.lowercase origin = .ok canonical ∧
      w.latest (canonical, providerId) = some (.approve row)

/-- An approval had stored the row, and the pair was revoked since. -/
def ApprovalRow.Withdrawn (row : ApprovalRow) (w : Approvals) : Prop :=
  .approve row ∈ w.calls ∧ w.latest row.pair = some (.revoke row.origin row.providerId)

/-- A step that is no call leaves no row in the table that is withdrawn. -/
def NonePutBack (w w' : Approvals) : Prop :=
  w'.calls = w.calls → ∀ row ∈ w'.rows, ¬row.Withdrawn w

end

variable {env : ApprovalEnv} {w w' : Approvals} {row row' : ApprovalRow} {origin providerId «at» : Str}

/-! ## The message -/

theorem approvalMessage_inj {vaultId : Str} (hvault : Framing.Fits (utf8 vaultId)) (hrow : row.Fits)
    (hrow' : row'.Fits)
    (h : approvalMessage vaultId row.origin row.providerId row.approvedAt
      = approvalMessage vaultId row'.origin row'.providerId row'.approvedAt) :
    row.origin = row'.origin ∧ row.providerId = row'.providerId ∧ row.approvedAt = row'.approvedAt := by
  have hfits : ∀ r : ApprovalRow, r.Fits →
      ∀ b ∈ (vaultId :: r.texts).map utf8, Framing.Fits b := by
    intro r hr b hb
    obtain ⟨field, hfield, rfl⟩ := List.mem_map.1 hb
    rcases List.mem_cons.1 hfield with rfl | hfield
    · exact hvault
    · exact hr field hfield
  have hframes := frames_inj (hfits row hrow) (hfits row' hrow') (List.append_cancel_left h)
  have htexts := (List.map_injective_iff.2 fun _ _ => utf8_inj) hframes
  simpa [ApprovalRow.texts] using htexts

/-- The MAC of a route is never the MAC of an approval: the two messages begin differently. -/
theorem approvalMessage_ne_macMessage (vaultId canonical providerId «at» : Str) (fields : MacFields) :
    approvalMessage vaultId canonical providerId «at» ≠ macMessage fields := by
  intro h
  have hhead := congrArg (List.take 8) h
  have hleft : 8 ≤ (utf8 "tethra:origin-approval-mac:v1".toList).length := by decide
  have hright : 8 ≤ (utf8 "tethra:gateway-route-mac:v2".toList).length := by decide
  rw [approvalMessage, macMessage, List.take_append_of_le_length hleft,
    List.take_append_of_le_length hright] at hhead
  exact absurd hhead (by decide)

/-! ## What one call does -/

theorem canonicalRow (h : env.approvalRow origin providerId «at» = .ok row) :
    canonicalize env.lowercase origin = .ok row.origin ∧ row.providerId = providerId ∧
      env.Verifies row := by
  unfold ApprovalEnv.approvalRow at h
  obtain ⟨canonical, hcanonical, h⟩ := bind_eq_ok.1 h
  obtain ⟨mac, hmac, hrow⟩ := bind_eq_ok.1 h
  obtain rfl := Except.ok.inj hrow
  exact ⟨hcanonical, rfl, hmac⟩

theorem approve_rows {rows rows' : List ApprovalRow} {answer : ApprovedOrigin}
    (hrow : env.approvalRow origin providerId «at» = .ok row)
    (h : env.approve rows origin providerId «at» = .ok (answer, rows')) :
    rows' = upsert ApprovalRow.pair row.pair
      (fun old => { old with approvedAt := row.approvedAt, mac := row.mac }) row rows := by
  unfold ApprovalEnv.approve at h
  rw [hrow] at h
  exact (Prod.mk.inj (Except.ok.inj h)).2.symm

/-- An approval is answered from a row that verifies. -/
theorem isApproved_eq_some {rows : List ApprovalRow} {answer : ApprovedOrigin}
    (h : env.isApproved rows origin providerId = .ok (some answer)) :
    ∃ canonical row, canonicalize env.lowercase origin = .ok canonical ∧
      row ∈ rows ∧ row.pair = (canonical, providerId) ∧ env.Verifies row := by
  unfold ApprovalEnv.isApproved at h
  split at h
  · cases Except.ok.inj h
  rename_i canonical hcanonical
  split at h
  · cases Except.ok.inj h
  rename_i row hfind
  obtain ⟨expected, hexpected, hanswer⟩ := bind_eq_ok.1 h
  have hpair : row.pair = (canonical, providerId) := by simpa using List.find?_some hfind
  obtain ⟨rfl, rfl⟩ := Prod.mk.inj hpair
  refine ⟨row.origin, row, hcanonical, List.mem_of_find?_eq_some hfind, hpair, ?_⟩
  split_ifs at hanswer with hmac
  · rw [ApprovalEnv.Verifies, hexpected, hmac]
  · cases Except.ok.inj hanswer

theorem find?_of_mem {rows : List ApprovalRow} (hdistinct : (rows.map ApprovalRow.pair).Nodup)
    (hrow : row ∈ rows) : rows.find? (·.pair = row.pair) = some row := by
  induction rows with
  | nil => cases hrow
  | cons first rest ih =>
      obtain ⟨hfirst, hrest⟩ := List.nodup_cons.1 hdistinct
      rcases List.mem_cons.1 hrow with rfl | hrow
      · simp
      · have hne : first.pair ≠ row.pair :=
          fun heq => hfirst (heq ▸ List.mem_map_of_mem hrow)
        simp [hne, ih hrest hrow]

/-- A row that verifies is answered as an approval, where its pair is a primary key. -/
theorem isApproved_of_verifies {rows : List ApprovalRow}
    (hdistinct : (rows.map ApprovalRow.pair).Nodup) (hrow : row ∈ rows) (hverifies : env.Verifies row)
    (hcanonical : canonicalize env.lowercase origin = .ok row.origin) :
    env.isApproved rows origin row.providerId
      = .ok (some ⟨row.origin, row.providerId, row.approvedAt⟩) := by
  have hfind := find?_of_mem hdistinct hrow
  rw [ApprovalRow.pair] at hfind
  unfold ApprovalEnv.Verifies at hverifies
  simp [ApprovalEnv.isApproved, hcanonical, hfind, hverifies, bind, Except.bind, pure, Except.pure]

/-! ## Runs -/

/-- What holds in every run: an approval's row verifies, and a stored MAC is one of a call or of a
    route. -/
structure ApprovalEnv.Inv (env : ApprovalEnv) (w : Approvals) : Prop where
  distinct : (w.rows.map ApprovalRow.pair).Nodup
  called : ∀ row, .approve row ∈ w.calls →
    row.Fits ∧ env.Verifies row ∧ ∃ origin, canonicalize env.lowercase origin = .ok row.origin
  hashed : ∀ m ∈ w.hashed,
    (∃ fields, m = macMessage fields) ∨ ∃ row, .approve row ∈ w.calls ∧ m = env.message row

theorem ApprovalEnv.Inv.step (h : env.Inv w) (hstep : env.Step w w') : env.Inv w' := by
  cases hstep with
  | @approve origin providerId time row answer rows hrow hfits hcall =>
      obtain ⟨hcanonical, -, hverifies⟩ := canonicalRow hrow
      refine ⟨?_, ?_, ?_⟩
      · rw [approve_rows hrow hcall]
        exact nodup_keys_upsert (fun _ hx => hx) rfl h.distinct
      · intro row' hrow'
        rcases List.mem_cons.1 hrow' with heq | hrow'
        · obtain rfl := ApprovalCall.approve.inj heq
          exact ⟨hfits, hverifies, origin, hcanonical⟩
        · exact h.called row' hrow'
      · intro m hm
        rcases List.mem_cons.1 hm with rfl | hm
        · exact .inr ⟨row, List.mem_cons_self, rfl⟩
        · exact (h.hashed m hm).imp_right fun ⟨r, hr, heq⟩ => ⟨r, List.mem_cons_of_mem _ hr, heq⟩
  | revoke hcall =>
      obtain ⟨-, rfl⟩ := Prod.mk.inj hcall
      refine ⟨?_, ?_, ?_⟩
      · exact h.distinct.sublist (List.filter_sublist.map _)
      · intro row hrow
        exact h.called row (by simpa using hrow)
      · intro m hm
        exact (h.hashed m hm).imp_right fun ⟨r, hr, heq⟩ => ⟨r, List.mem_cons_of_mem _ hr, heq⟩
  | @sealRoute fields =>
      refine ⟨h.distinct, h.called, ?_⟩
      intro m hm
      rcases List.mem_cons.1 hm with rfl | hm
      · exact .inl ⟨fields, rfl⟩
      · exact h.hashed m hm
  | edit hedits => exact ⟨hedits.distinct, h.called, h.hashed⟩

theorem inv_of_steps (h : Steps env.Step .empty w) : env.Inv w := by
  refine Steps.invariant (fun _ _ hinv hstep => hinv.step hstep) ⟨?_, ?_, ?_⟩ h
  · exact List.nodup_nil
  · intro row hrow
    cases hrow
  · intro m hm
    cases hm

/-- Every row that verifies is of a pair whose latest call was an approval. -/
def ApprovalEnv.Sound (env : ApprovalEnv) (w : Approvals) : Prop :=
  ∀ row ∈ w.rows, env.Verifies row → ∃ called, w.latest row.pair = some (.approve called)

theorem latest_cons (w : Approvals) (rows : List ApprovalRow) (hashed : List (List UInt8))
    (call : ApprovalCall) (pair : Str × Str) :
    Approvals.latest ⟨rows, call :: w.calls, hashed⟩ pair
      = if call.pair = pair then some call else w.latest pair := by
  by_cases h : call.pair = pair <;> simp [Approvals.latest, h]

/-- A row that an edit wrote and that verifies is one that an approval had stored. -/
theorem called_of_verifies {rows : List ApprovalRow} (hinv : env.Inv w) (hedits : env.Edits w rows)
    (hrow : row ∈ rows) (hverifies : env.Verifies row) : .approve row ∈ w.calls := by
  rcases hinv.hashed _ (hedits.unforged row hrow hverifies) with ⟨fields, hfields⟩ | ⟨called, hcalled, h⟩
  · exact absurd hfields (approvalMessage_ne_macMessage _ _ _ _ _)
  · obtain ⟨hfits, hcalledMac, -⟩ := hinv.called called hcalled
    obtain ⟨horigin, hprovider, hat⟩ :=
      approvalMessage_inj env.vaultFits (hedits.fits row hrow) hfits h
    -- The fields are the same, so the MAC is.
    have hmac : row.mac = called.mac := by
      unfold ApprovalEnv.Verifies at hverifies hcalledMac
      rw [horigin, hprovider, hat, hcalledMac] at hverifies
      exact (Except.ok.inj hverifies).symm
    have heq : row = called := by
      cases row
      cases called
      simp_all
    exact heq ▸ hcalled

theorem sound_edit {rows : List ApprovalRow} (hinv : env.Inv w) (hedits : env.Edits w rows)
    (hback : NonePutBack w { w with rows }) : env.Sound { w with rows } := by
  intro row hrow hverifies
  have hcalled := called_of_verifies hinv hedits hrow hverifies
  obtain ⟨call, hcall⟩ : ∃ call, w.latest row.pair = some call := by
    apply Option.isSome_iff_exists.1
    rw [Approvals.latest, List.find?_isSome]
    exact ⟨_, hcalled, by simp [ApprovalCall.pair]⟩
  cases call with
  | approve called => exact ⟨called, hcall⟩
  | revoke origin providerId =>
      have hpair := List.find?_some (show w.calls.find? (·.pair = row.pair) = _ from hcall)
      obtain ⟨rfl, rfl⟩ := Prod.mk.inj (of_decide_eq_true hpair)
      exact absurd ⟨hcalled, hcall⟩ (hback rfl row hrow)

theorem sound_step (hinv : env.Inv w) (hsound : env.Sound w) (hstep : env.Step w w')
    (hback : NonePutBack w w') : env.Sound w' := by
  cases hstep with
  | @approve origin providerId time called answer rows hrow hfits hcall =>
      intro row hmem hverifies
      rw [latest_cons]
      by_cases hpair : (ApprovalCall.approve called).pair = row.pair
      · exact ⟨called, if_pos hpair⟩
      rw [if_neg hpair]
      -- A row of another pair is an old one.
      rw [approve_rows hrow hcall] at hmem
      rcases mem_upsert hmem with hold | ⟨old, -, hold, rfl⟩ | rfl
      · exact hsound row hold hverifies
      · exact absurd hold.symm hpair
      · exact absurd rfl hpair
  | @revoke origin providerId deleted rows hcall =>
      obtain ⟨-, rfl⟩ := Prod.mk.inj hcall
      intro row hmem hverifies
      obtain ⟨hold, hpair⟩ := List.mem_filter.1 hmem
      have hne : row.pair ≠ (revokedOrigin env.lowercase origin, providerId) := by simpa using hpair
      rw [latest_cons, if_neg fun h => hne h.symm]
      exact hsound row hold hverifies
  | sealRoute => exact hsound
  | edit hedits => exact sound_edit hinv hedits hback

theorem ApprovalEnv.Sound.approvedByCall (h : env.Sound w) : env.ApprovedByCall w := by
  intro origin providerId answer hanswer
  obtain ⟨canonical, row, hcanonical, hrow, hpair, hverifies⟩ := isApproved_eq_some hanswer
  obtain ⟨called, hlatest⟩ := h row hrow hverifies
  exact ⟨canonical, called, hcanonical, hpair ▸ hlatest⟩

/-- In a run that puts no withdrawn row back, an approval is answered only for a pair whose latest call
    was an approval; and any step that puts one back makes the answer wrong. -/
theorem approved_only_by_call (env : ApprovalEnv) :
    (∀ w, Steps (Restrict env.Step NonePutBack) .empty w → env.ApprovedByCall w) ∧
    ∀ w w', Steps env.Step .empty w → env.Step w w' → ¬NonePutBack w w' → ¬env.ApprovedByCall w' := by
  refine ⟨?_, ?_⟩
  · intro w hsteps
    refine ApprovalEnv.Sound.approvedByCall (Steps.invariant_of (I := env.Sound) (J := env.Inv)
      (fun _ _ hinv hstep => hinv.step hstep) (fun _ _ => sound_step) ?_ ?_ hsteps)
    · exact inv_of_steps .refl
    · intro row hrow
      cases hrow
  · intro w w' hsteps hstep hback hcall
    simp only [NonePutBack, not_forall, not_not] at hback
    obtain ⟨hcalls, row, hrow, hwithdrawn⟩ := hback
    have hinv := (inv_of_steps hsteps).step hstep
    obtain ⟨-, hverifies, origin, hcanonical⟩ := (inv_of_steps hsteps).called row hwithdrawn.1
    obtain ⟨canonical, called, hcanonical', hlatest⟩ :=
      hcall origin row.providerId _ (isApproved_of_verifies hinv.distinct hrow hverifies hcanonical)
    obtain rfl : row.origin = canonical := Except.ok.inj (hcanonical.symm.trans hcanonical')
    have hrevoked := hwithdrawn.2
    rw [ApprovalRow.pair, Approvals.latest, ← hcalls] at hrevoked
    rw [Approvals.latest, hrevoked] at hlatest
    cases hlatest

/-! ## A row put back -/

/-- A hash that is the message itself, so that nothing is forged. -/
def plainEnv : ApprovalEnv where
  lowercase := id
  keyedHash := fun _ message => message
  macKey := List.replicate 32 0
  vaultId := "vault".toList
  vaultFits := by unfold Framing.Fits; decide

def acmeOrigin : Str := "https://api.acme.example:443".toList

def acmeTime : Str := "2026-05-01T10:00:00Z".toList

def acmeRow : ApprovalRow :=
  { origin := acmeOrigin
    providerId := "acme".toList
    approvedAt := acmeTime
    mac := toHex (approvalMessage plainEnv.vaultId acmeOrigin "acme".toList acmeTime) }

theorem acmeRow_fits : acmeRow.Fits := by
  unfold ApprovalRow.Fits Framing.Fits
  decide

/-- Approve `https://api.acme.example`. -/
def acmeApproved : Approvals := ⟨[acmeRow], [.approve acmeRow], [plainEnv.message acmeRow]⟩

theorem acmeApproved_step : plainEnv.Step .empty acmeApproved :=
  @ApprovalEnv.Step.approve plainEnv .empty "https://api.acme.example".toList "acme".toList acmeTime
    acmeRow ⟨acmeOrigin, "acme".toList, acmeTime⟩ _ (by decide +kernel) acmeRow_fits (by decide +kernel)

/-- Revoke it. -/
def acmeRevoked : Approvals :=
  ⟨[], [.revoke acmeOrigin "acme".toList, .approve acmeRow], [plainEnv.message acmeRow]⟩

/-- The row as it was before the revocation is approved again. -/
theorem put_back_row_approved :
    ∃ w, Steps plainEnv.Step .empty w ∧ ¬plainEnv.ApprovedByCall w := by
  have hrevoke : plainEnv.Step acmeApproved acmeRevoked :=
    @ApprovalEnv.Step.revoke plainEnv acmeApproved acmeOrigin "acme".toList true [] (by decide)
  have hedit : plainEnv.Step acmeRevoked { acmeRevoked with rows := [acmeRow] } := by
    refine .edit ⟨List.nodup_singleton _, ?_, ?_⟩
    · intro row hrow
      exact List.mem_singleton.1 hrow ▸ acmeRow_fits
    · intro row hrow _
      obtain rfl := List.mem_singleton.1 hrow
      exact List.mem_singleton_self _
  refine ⟨_, .tail (.tail (.tail .refl acmeApproved_step) hrevoke) hedit, ?_⟩
  intro h
  obtain ⟨canonical, row, hcanonical, hlatest⟩ :=
    h acmeOrigin "acme".toList ⟨acmeOrigin, "acme".toList, acmeTime⟩ (by decide +kernel)
  have hown : canonicalize plainEnv.lowercase acmeOrigin = .ok acmeOrigin := by decide
  obtain rfl := Except.ok.inj (hown.symm.trans hcanonical)
  have hrevoked : Approvals.latest { acmeRevoked with rows := [acmeRow] } (acmeOrigin, "acme".toList)
      = some (.revoke acmeOrigin "acme".toList) := by decide
  rw [hrevoked] at hlatest
  cases hlatest

/-- An approval that is not revoked is answered. -/
theorem approved_only_by_call_acme :
    plainEnv.isApproved acmeApproved.rows acmeOrigin "acme".toList
        = .ok (some ⟨acmeOrigin, "acme".toList, acmeTime⟩) ∧
      plainEnv.ApprovedByCall acmeApproved := by
  refine ⟨by decide +kernel, (approved_only_by_call plainEnv).1 acmeApproved ?_⟩
  refine .tail .refl ⟨acmeApproved_step, ?_⟩
  intro hcalls
  cases hcalls

end Tethra.OriginApprovals
