import Tethra.Core.Error

set_option autoImplicit false

/-! # Session attribution (`core/src/runtime/attribution.rs`)

What `attribute_session` writes about a finished session: the statements for each service that the
session reached (`serviceWrites`), performed in order up to the first one that is refused. The evidence is
summed over a service, and a stamp goes to all of the service's events, so a service with mixed traffic
breaks the first law (`stamps_only_authorized`); candidates are counted with their repetitions, so a
credential that is injected twice breaks the second one (`attribution_of_set`). -/

namespace Tethra.Attribution

inductive AttributionConfidence where
  | confirmed
  | high
  | possible
  | ambiguous
  | unattributed
  | matchedFingerprint
  deriving DecidableEq, Repr

/-! ## The tables -/

structure CredentialRow where
  id : Str
  provider : Str
  environment : Str
  valueVersion : Int
  linkedCredentialId : Option Str
  lastUsedAt : Option Str
  deriving DecidableEq, Repr

structure ServiceRow where
  id : Str
  host : Str
  providerId : Option Str
  deriving DecidableEq, Repr

/-- The columns of `runtime_request_events` that an attribution reads and writes. -/
structure EventRow where
  sessionId : Str
  serviceId : Str
  hadAuthorization : Bool
  credentialId : Option Str
  attributionConfidence : Option AttributionConfidence
  credentialVersion : Option Int
  usedCurrentVersion : Option Bool
  attributionMethod : Option Str
  deriving DecidableEq, Repr

/-- A row of `credential_traffic_attributions`, without the time of its last change. -/
structure AttributionRow where
  sessionId : Str
  credentialId : Str
  serviceId : Str
  requestCount : Nat
  confidence : AttributionConfidence
  evidence : Str
  credentialVersion : Option Int
  usedCurrentVersion : Option Bool
  deriving DecidableEq, Repr

structure Db where
  credentials : List CredentialRow
  services : List ServiceRow
  events : List EventRow
  attributions : List AttributionRow
  deriving DecidableEq, Repr

/-- The functions outside: the provider of a host, and the id of a provider's name. -/
structure ProviderEnv where
  providerForHost : Str → Option Str
  normalize : Str → Str

structure InjectedCredential where
  credentialId : Str
  provider : Str
  environment : Str
  launchVersion : Int
  currentVersion : Int
  deriving DecidableEq, Repr

def Db.credential (db : Db) (id : Str) : Option CredentialRow := db.credentials.find? (·.id = id)

/-- The row that bears the value of a credential. -/
def Db.root (db : Db) (id : Str) : Option CredentialRow := do
  let ref ← db.credential id
  db.credential (ref.linkedCredentialId.getD ref.id)

/-- The injected credentials as their roots; unknown ids are skipped. -/
def observeInjected (env : ProviderEnv) (db : Db) (credentialIds : List Str) : List InjectedCredential :=
  credentialIds.filterMap fun id => (db.root id).map fun root =>
    { credentialId := root.id
      provider := env.normalize root.provider
      environment := root.environment
      launchVersion := root.valueVersion
      currentVersion := root.valueVersion }

/-! ## The traffic of a session -/

structure SvcTraffic where
  serviceId : Str
  host : Str
  providerId : Option Str
  count : Nat
  authCount : Nat
  deriving DecidableEq, Repr

/-- The events of a session to one service. -/
def Db.eventsOf (db : Db) (sessionId serviceId : Str) : List EventRow :=
  db.events.filter fun e => e.sessionId = sessionId && e.serviceId = serviceId

/-- The services that the session reached, each once. -/
def Db.traffic (db : Db) (sessionId : Str) : List SvcTraffic :=
  ((db.events.filter fun e => e.sessionId = sessionId).map EventRow.serviceId).dedup.filterMap fun id =>
    (db.services.find? (·.id = id)).map fun service =>
      { serviceId := id
        host := service.host
        providerId := service.providerId
        count := (db.eventsOf sessionId id).length
        authCount := (db.eventsOf sessionId id).countP EventRow.hadAuthorization }

/-! ## What is written -/

/-- A stamp on all events of a service. -/
structure Stamp where
  serviceId : Str
  credentialId : Str
  confidence : AttributionConfidence
  credentialVersion : Option Int
  usedCurrentVersion : Option Bool
  deriving DecidableEq, Repr

inductive Write where
  | upsertAttribution (row : AttributionRow)
  | setEventAttribution (stamp : Stamp)
  deriving DecidableEq, Repr

def currentValueVersion (db : Db) (c : InjectedCredential) : Int :=
  ((db.credential c.credentialId).map CredentialRow.valueVersion).getD c.currentVersion

def attributionRow (db : Db) (sessionId : Str) (svc : SvcTraffic) (c : InjectedCredential)
    (confidence : AttributionConfidence) (evidence : String) : AttributionRow where
  sessionId := sessionId
  credentialId := c.credentialId
  serviceId := svc.serviceId
  requestCount := svc.count
  confidence := confidence
  evidence := evidence.toList
  credentialVersion := some c.launchVersion
  usedCurrentVersion := some (decide (currentValueVersion db c ≤ c.launchVersion))

/-- The rollup row of a chosen credential, and its stamp on the events. -/
def chosenWrites (db : Db) (sessionId : Str) (svc : SvcTraffic) (c : InjectedCredential)
    (confidence : AttributionConfidence) (evidence : String) : List Write :=
  [.upsertAttribution (attributionRow db sessionId svc c confidence evidence),
    .setEventAttribution
      { serviceId := svc.serviceId
        credentialId := c.credentialId
        confidence := confidence
        credentialVersion := some c.launchVersion
        usedCurrentVersion := some (decide (currentValueVersion db c ≤ c.launchVersion)) }]

def ambiguousEvidence : String :=
  "multiple injected credentials of this provider could explain the traffic"

def SvcTraffic.provider (env : ProviderEnv) (svc : SvcTraffic) : Option Str :=
  svc.providerId <|> env.providerForHost svc.host

/-- The injected credentials of the service's provider. -/
def candidates (env : ProviderEnv) (injected : List InjectedCredential) (svc : SvcTraffic) :
    List InjectedCredential :=
  match svc.provider env with
  | some p => injected.filter (·.provider = p)
  | none => []

/-- The statements for one service. -/
def serviceWrites (env : ProviderEnv) (db : Db) (sessionId : Str) (injected : List InjectedCredential)
    (svc : SvcTraffic) : List Write :=
  match candidates env injected svc with
  | [c] =>
      if 0 < svc.authCount then
        chosenWrites db sessionId svc c .confirmed
          "single injected credential of the matching provider; an authorization header was observed"
      else
        chosenWrites db sessionId svc c .possible
          "single injected credential of the matching provider, but no authorization header was observed"
  | [] =>
      match svc.provider env, injected with
      | none, [c] =>
          -- an unknown provider: the only credential may explain the traffic, if a header was seen
          if 0 < svc.authCount then
            chosenWrites db sessionId svc c .possible
              ("one credential was injected and an authorization header was observed; "
                ++ "the API's provider is unknown")
          else []
      | _, _ => []
  | several =>
      several.map fun c =>
        .upsertAttribution (attributionRow db sessionId svc c .ambiguous ambiguousEvidence)

def sessionWrites (env : ProviderEnv) (db : Db) (sessionId : Str) (injected : List InjectedCredential) :
    List Write :=
  (db.traffic sessionId).flatMap (serviceWrites env db sessionId injected)

/-! ## Performing the writes -/

def AttributionRow.key (row : AttributionRow) : Str × Str × Str :=
  (row.sessionId, row.credentialId, row.serviceId)

def Db.upsert (db : Db) (row : AttributionRow) : Db :=
  if db.attributions.any (·.key = row.key) then
    { db with attributions := db.attributions.map fun r => if r.key = row.key then row else r }
  else { db with attributions := db.attributions ++ [row] }

def Stamp.on (sessionId : Str) (s : Stamp) (e : EventRow) : EventRow :=
  if e.sessionId = sessionId ∧ e.serviceId = s.serviceId then
    { e with
      credentialId := some s.credentialId
      attributionConfidence := some s.confidence
      credentialVersion := s.credentialVersion
      usedCurrentVersion := s.usedCurrentVersion
      attributionMethod := some "injected".toList }
  else e

/-- The credential that a statement refers to. -/
def Write.credentialId : Write → Str
  | .upsertAttribution row => row.credentialId
  | .setEventAttribution s => s.credentialId

/-- The foreign key of a statement holds. -/
def Db.admits (db : Db) (w : Write) : Bool := (db.credential w.credentialId).isSome

def Db.write (db : Db) (sessionId : Str) : Write → Db
  | .upsertAttribution row => db.upsert row
  | .setEventAttribution s => { db with events := db.events.map (s.on sessionId) }

/-- The statements one after the other, up to the first that is refused, and its error. -/
def perform (sessionId : Str) : Db → List Write → Option CoreError × Db
  | db, [] => (none, db)
  | db, w :: ws =>
      if db.admits w then perform sessionId (db.write sessionId w) ws
      else (some (.db "FOREIGN KEY constraint failed".toList), db)

/-- The credentials with a strong attribution in the session were used now. -/
def Db.touchUsed (db : Db) (sessionId now : Str) : Db :=
  { db with credentials := db.credentials.map fun c =>
      if db.attributions.any fun a => a.sessionId = sessionId && a.credentialId = c.id
          && (a.confidence = .confirmed || a.confidence = .high) then
        { c with lastUsedAt := some now }
      else c }

def Write.isRow : Write → Bool
  | .upsertAttribution _ => true
  | .setEventAttribution _ => false

/-- Attribute a completed session: the number of attributions written, and the database. -/
def attributeSession (env : ProviderEnv) (now : Str) (db : Db) (sessionId : Str)
    (injected : List InjectedCredential) : Except CoreError Nat × Db :=
  let ws := sessionWrites env db sessionId injected
  match perform sessionId db ws with
  | (some e, db') => (.error e, db')
  | (none, db') => (.ok (ws.countP Write.isRow), db'.touchUsed sessionId now)

/-! ## What a call has written -/

/-- The statements that are performed. -/
def performed (db : Db) (ws : List Write) : List Write := ws.takeWhile db.admits

def Write.serviceId : Write → Str
  | .upsertAttribution row => row.serviceId
  | .setEventAttribution s => s.serviceId

def Write.confidence : Write → AttributionConfidence
  | .upsertAttribution row => row.confidence
  | .setEventAttribution s => s.confidence

/-- A confirmed statement is about the only candidate of a service with an authorized request. -/
theorem confirmed_of_mem {env : ProviderEnv} {db : Db} {sessionId : Str}
    {injected : List InjectedCredential} {svc : SvcTraffic} {w : Write}
    (h : w ∈ serviceWrites env db sessionId injected svc) (hconfirmed : w.confidence = .confirmed) :
    ∃ c, candidates env injected svc = [c] ∧ 0 < svc.authCount ∧
      serviceWrites env db sessionId injected svc = chosenWrites db sessionId svc c .confirmed
        ("single injected credential of the matching provider; an authorization header was "
          ++ "observed") := by
  have hpossible : ∀ {c : InjectedCredential} {evidence : String},
      w ∈ chosenWrites db sessionId svc c .possible evidence → False := by
    intro c evidence hw
    unfold chosenWrites at hw
    rcases List.mem_cons.1 hw with rfl | hw
    · cases hconfirmed
    · rw [List.mem_singleton.1 hw] at hconfirmed
      cases hconfirmed
  unfold serviceWrites at h
  split at h
  · rename_i c hc
    split at h
    · rename_i hauth
      refine ⟨c, hc, hauth, ?_⟩
      unfold serviceWrites
      rw [hc]
      exact if_pos hauth
    · exact absurd h hpossible
  · split at h
    · split at h
      · exact absurd h hpossible
      · cases h
    · cases h
  · obtain ⟨c, -, rfl⟩ := List.mem_map.1 h
    cases hconfirmed

/-! ## Only authorized events are stamped as confirmed -/

/-- A prefix of a list made block by block: whole blocks, and a part of the first other one. -/
theorem mem_takeWhile_flatMap {α β : Type} {p : β → Bool} {f : α → List β} {as : List α} {b : β}
    (h : b ∈ (as.flatMap f).takeWhile p) :
    (∃ a ∈ as.takeWhile (fun a => (f a).all p), b ∈ f a) ∨
      ∃ a ∈ as, (f a).all p = false ∧ b ∈ (f a).takeWhile p := by
  induction as with
  | nil => cases h
  | cons a as ih =>
      rw [List.flatMap_cons] at h
      by_cases hall : (f a).all p = true
      · rw [List.takeWhile_append_of_pos (List.all_eq_true.1 hall)] at h
        rw [List.takeWhile_cons_of_pos (p := fun a => (f a).all p) hall]
        rcases List.mem_append.1 h with h | h
        · exact .inl ⟨a, List.mem_cons_self .., h⟩
        · rcases ih h with ⟨c, hc, hb⟩ | ⟨c, hc, hb⟩
          · exact .inl ⟨c, List.mem_cons_of_mem _ hc, hb⟩
          · exact .inr ⟨c, List.mem_cons_of_mem _ hc, hb⟩
      · rw [List.takeWhile_append, if_neg] at h
        · exact .inr ⟨a, List.mem_cons_self .., Bool.eq_false_of_not_eq_true hall, h⟩
        · intro hlen
          refine hall (List.all_eq_true.2 fun x hx => ?_)
          rw [← (List.takeWhile_prefix p).eq_of_length hlen] at hx
          exact List.mem_takeWhile_imp hx

theorem takeWhile_flatMap_mem {α β : Type} {p : β → Bool} {f : α → List β} {as : List α} {a : α} {b : β}
    (ha : a ∈ as.takeWhile fun a => (f a).all p) (hb : b ∈ f a) :
    b ∈ (as.flatMap f).takeWhile p := by
  induction as with
  | nil => cases ha
  | cons x as ih =>
      by_cases hall : (f x).all p = true
      · rw [List.takeWhile_cons_of_pos (p := fun a => (f a).all p) hall] at ha
        rw [List.flatMap_cons, List.takeWhile_append_of_pos (List.all_eq_true.1 hall)]
        rcases List.mem_cons.1 ha with rfl | ha
        · exact List.mem_append_left _ hb
        · exact List.mem_append_right _ (ih ha)
      · rw [List.takeWhile_cons_of_neg (p := fun a => (f a).all p) hall] at ha
        cases ha

/-- The services up to the first whose statements are not all admitted. -/
def reached (env : ProviderEnv) (db : Db) (sessionId : Str) (injected : List InjectedCredential) :
    List SvcTraffic :=
  (db.traffic sessionId).takeWhile fun svc =>
    (serviceWrites env db sessionId injected svc).all db.admits

/-- A call stamps no event without authorization as confirmed, and counts for a confirmed row no more
    requests than carried one. -/
structure StampsAuthorized (env : ProviderEnv) (db : Db) (sessionId : Str)
    (injected : List InjectedCredential) : Prop where
  stamps : ∀ s, .setEventAttribution s ∈ performed db (sessionWrites env db sessionId injected) →
    s.confidence = .confirmed → ∀ e ∈ db.eventsOf sessionId s.serviceId, e.hadAuthorization = true
  counts : ∀ row, .upsertAttribution row ∈ performed db (sessionWrites env db sessionId injected) →
    row.confidence = .confirmed →
      row.requestCount ≤ (db.eventsOf sessionId row.serviceId).countP EventRow.hadAuthorization

/-- A service with one candidate and an authorized request had authorized requests only. -/
def Unmixed (env : ProviderEnv) (db : Db) (sessionId : Str) (injected : List InjectedCredential) : Prop :=
  ∀ svc ∈ reached env db sessionId injected, ∀ c, candidates env injected svc = [c] → 0 < svc.authCount →
    ∀ e ∈ db.eventsOf sessionId svc.serviceId, e.hadAuthorization = true

theorem mem_traffic {db : Db} {sessionId : Str} {svc : SvcTraffic} (h : svc ∈ db.traffic sessionId) :
    svc.count = (db.eventsOf sessionId svc.serviceId).length ∧
      svc.authCount = (db.eventsOf sessionId svc.serviceId).countP EventRow.hadAuthorization := by
  obtain ⟨id, -, hsvc⟩ := List.mem_filterMap.1 h
  obtain ⟨service, -, rfl⟩ := Option.map_eq_some_iff.1 hsvc
  exact ⟨rfl, rfl⟩

/-- A performed confirmed statement is of a reached service. -/
theorem reached_of_confirmed {env : ProviderEnv} {db : Db} {sessionId : Str}
    {injected : List InjectedCredential} {w : Write}
    (h : w ∈ performed db (sessionWrites env db sessionId injected)) (hconfirmed : w.confidence = .confirmed) :
    ∃ svc ∈ reached env db sessionId injected, w ∈ serviceWrites env db sessionId injected svc := by
  rcases mem_takeWhile_flatMap h with hreached | ⟨svc, -, hrefused, hw⟩
  · exact hreached
  · -- the two statements of a chosen credential are refused together
    obtain ⟨c, -, -, hwrites⟩ := confirmed_of_mem (List.takeWhile_subset _ hw) hconfirmed
    rw [hwrites] at hrefused hw
    have hrow : ¬db.admits (.upsertAttribution (attributionRow db sessionId svc c .confirmed
        ("single injected credential of the matching provider; an authorization header was "
          ++ "observed"))) = true := by
      intro hadmits
      have hstamp := hadmits
      unfold Db.admits Write.credentialId at hadmits hstamp
      simp only [chosenWrites, List.all_cons, List.all_nil, Bool.and_true, Db.admits, Write.credentialId,
        attributionRow] at hrefused hadmits
      rw [hadmits] at hrefused
      cases hrefused
    unfold chosenWrites at hw
    rw [List.takeWhile_cons_of_neg hrow] at hw
    cases hw

/-- Unauthenticated traffic is not asserted as credential use exactly when no service mixes it with
    authenticated traffic that is confirmed. -/
theorem stamps_authorized_iff (env : ProviderEnv) (db : Db) (sessionId : Str)
    (injected : List InjectedCredential) :
    StampsAuthorized env db sessionId injected ↔ Unmixed env db sessionId injected := by
  constructor
  · intro h svc hsvc c hc hauth
    have htraffic := List.takeWhile_subset _ hsvc
    obtain ⟨hcount, hauthCount⟩ := mem_traffic htraffic
    have hwrites : serviceWrites env db sessionId injected svc = chosenWrites db sessionId svc c .confirmed
        ("single injected credential of the matching provider; an authorization header was "
          ++ "observed") := by
      unfold serviceWrites
      rw [hc]
      exact if_pos hauth
    have hrow := h.counts _ (takeWhile_flatMap_mem hsvc (by rw [hwrites]; exact List.mem_cons_self ..)) rfl
    have hle : svc.count ≤ svc.authCount := by
      rw [hauthCount]
      exact hrow
    rw [hcount, hauthCount] at hle
    exact List.countP_eq_length.1 (le_antisymm List.countP_le_length hle)
  · intro h
    constructor
    · intro s hs hconfirmed
      obtain ⟨svc, hsvc, hmem⟩ := reached_of_confirmed hs hconfirmed
      obtain ⟨c, hc, hauth, hwrites⟩ := confirmed_of_mem hmem hconfirmed
      rw [hwrites] at hmem
      have hservice : s.serviceId = svc.serviceId := by
        unfold chosenWrites at hmem
        rcases List.mem_cons.1 hmem with heq | hmem
        · cases heq
        · rw [Write.setEventAttribution.inj (List.mem_singleton.1 hmem)]
      rw [hservice]
      exact h svc hsvc c hc hauth
    · intro row hrow hconfirmed
      obtain ⟨svc, hsvc, hmem⟩ := reached_of_confirmed hrow hconfirmed
      obtain ⟨c, hc, hauth, hwrites⟩ := confirmed_of_mem hmem hconfirmed
      rw [hwrites] at hmem
      have hheld : row.serviceId = svc.serviceId ∧ row.requestCount = svc.count := by
        unfold chosenWrites at hmem
        rcases List.mem_cons.1 hmem with heq | hmem
        · rw [Write.upsertAttribution.inj heq]
          exact ⟨rfl, rfl⟩
        · cases List.mem_singleton.1 hmem
      obtain ⟨hcount, -⟩ := mem_traffic (List.takeWhile_subset _ hsvc)
      rw [hheld.1, hheld.2, hcount, List.countP_eq_length.2 (h svc hsvc c hc hauth)]

/-- The manifests' name of a provider, and no host known by itself. -/
def plainProviders : ProviderEnv := ⟨fun _ => none, id⟩

def openaiCredential : CredentialRow := ⟨"c1".toList, "openai".toList, "production".toList, 1, none, none⟩

def requestOf (hadAuthorization : Bool) : EventRow :=
  ⟨"s1".toList, "svc".toList, hadAuthorization, none, none, none, none, none⟩

/-- A session with an authorized request to a provider and one that carried no header. -/
def mixedDb : Db where
  credentials := [openaiCredential]
  services := [⟨"svc".toList, "api.openai.com".toList, some "openai".toList⟩]
  events := [requestOf true, requestOf false]
  attributions := []

/-- The request without a header is stamped as confirmed, and counted. -/
theorem mixed_service_confirmed :
    ¬StampsAuthorized plainProviders mixedDb "s1".toList
        (observeInjected plainProviders mixedDb ["c1".toList]) ∧
      (attributeSession plainProviders "now".toList mixedDb "s1".toList
        (observeInjected plainProviders mixedDb ["c1".toList])).2.events.map
          (fun e => (e.hadAuthorization, e.attributionConfidence))
        = [(true, some .confirmed), (false, some .confirmed)] := by
  refine ⟨fun h => ?_, by decide⟩
  let svc : SvcTraffic := ⟨"svc".toList, "api.openai.com".toList, some "openai".toList, 2, 1⟩
  let c : InjectedCredential := ⟨"c1".toList, "openai".toList, "production".toList, 1, 1⟩
  have hcount := h.counts (attributionRow mixedDb "s1".toList svc c .confirmed
    "single injected credential of the matching provider; an authorization header was observed")
    (by decide) rfl
  exact absurd hcount (by decide)

/-! ## Attribution of a set of credentials -/

/-- The statements of two lists of injected credentials are the same. -/
def SameWrites (env : ProviderEnv) (db : Db) (sessionId : Str) (xs ys : List InjectedCredential) : Prop :=
  ∀ w, w ∈ sessionWrites env db sessionId xs ↔ w ∈ sessionWrites env db sessionId ys

/-- A credential that would be the only one to explain a service's traffic was injected once. -/
def InjectedOnce (env : ProviderEnv) (injected : List InjectedCredential) (svc : SvcTraffic) : Prop :=
  (∀ c, candidates env injected.dedup svc = [c] → candidates env injected svc = [c]) ∧
    (svc.provider env = none → 0 < svc.authCount → ∀ c, injected.dedup = [c] → injected = [c])

theorem mem_candidates {env : ProviderEnv} {injected : List InjectedCredential} {svc : SvcTraffic}
    {c : InjectedCredential} :
    c ∈ candidates env injected svc ↔ c ∈ injected ∧ svc.provider env = some c.provider := by
  unfold candidates
  cases hprovider : svc.provider env with
  | none => simp
  | some p => simp [eq_comm]

theorem nodup_candidates {env : ProviderEnv} {injected : List InjectedCredential} (svc : SvcTraffic)
    (h : injected.Nodup) : (candidates env injected svc).Nodup := by
  unfold candidates
  cases svc.provider env with
  | none => exact List.nodup_nil
  | some p => exact h.filter _

/-- Nodup lists with the members of a list of at most one element are that list. -/
theorem eq_of_same_mem {α : Type} {xs : List α} {ys : List α} (hnodup : ys.Nodup)
    (hmem : ∀ a, a ∈ ys ↔ a ∈ xs) (hlen : xs.length ≤ 1) : ys = xs := by
  cases xs with
  | nil => exact List.eq_nil_iff_forall_not_mem.2 fun a ha => by simpa using (hmem a).1 ha
  | cons x xs =>
      obtain rfl := List.eq_nil_of_length_eq_zero (by simpa using hlen)
      exact List.perm_singleton.1 ((List.perm_ext_iff_of_nodup hnodup (List.nodup_singleton x)).2 hmem)

section
variable {env : ProviderEnv} {db : Db} {sessionId : Str} {injected : List InjectedCredential}
  {svc : SvcTraffic}

/-- The statements about the only candidate of a service depend on the candidate. -/
theorem serviceWrites_single {other : List InjectedCredential} {c : InjectedCredential}
    (h : candidates env injected svc = [c]) (h' : candidates env other svc = [c]) :
    serviceWrites env db sessionId injected svc = serviceWrites env db sessionId other svc := by
  unfold serviceWrites
  rw [h, h']

theorem exists_chosenWrites {c : InjectedCredential} (h : candidates env injected svc = [c]) :
    ∃ confidence evidence, confidence ≠ .ambiguous ∧
      serviceWrites env db sessionId injected svc
        = chosenWrites db sessionId svc c confidence evidence := by
  unfold serviceWrites
  rw [h]
  dsimp only
  split
  · exact ⟨_, _, by decide, rfl⟩
  · exact ⟨_, _, by decide, rfl⟩

theorem serviceWrites_several (h : 2 ≤ (candidates env injected svc).length) :
    serviceWrites env db sessionId injected svc = (candidates env injected svc).map fun c =>
      .upsertAttribution (attributionRow db sessionId svc c .ambiguous ambiguousEvidence) := by
  unfold serviceWrites
  split
  · rename_i c hc
    rw [hc] at h
    exact absurd h (by simp)
  · rename_i hc
    rw [hc] at h
    exact absurd h (by simp)
  · rfl

/-- Without candidates nothing is written, unless one credential was injected and the provider is
    unknown. -/
theorem serviceWrites_nil (h : candidates env injected svc = [])
    (hnone : svc.provider env = none → injected.length = 1 → svc.authCount = 0) :
    serviceWrites env db sessionId injected svc = [] := by
  unfold serviceWrites
  rw [h]
  dsimp only
  split
  · rename_i c hprovider
    rw [hnone hprovider rfl]
    rfl
  · rfl

theorem serviceWrites_unknown {c : InjectedCredential} (hprovider : svc.provider env = none)
    (hauth : 0 < svc.authCount) :
    ∃ evidence, serviceWrites env db sessionId [c] svc
      = chosenWrites db sessionId svc c .possible evidence := by
  have hnone : candidates env [c] svc = [] := by
    unfold candidates
    rw [hprovider]
  unfold serviceWrites
  rw [hnone, hprovider]
  exact ⟨_, if_pos hauth⟩

/-- No chosen credential is reported as ambiguous. -/
theorem ambiguous_not_chosen {c c' : InjectedCredential} {confidence : AttributionConfidence}
    {evidence evidence' : String} (h : confidence ≠ .ambiguous) :
    .upsertAttribution (attributionRow db sessionId svc c' .ambiguous evidence')
      ∉ chosenWrites db sessionId svc c confidence evidence := by
  intro hmem
  unfold chosenWrites at hmem
  rcases List.mem_cons.1 hmem with heq | hmem
  · have hconfidence := congrArg Write.confidence heq
    exact h hconfidence.symm
  · cases List.mem_singleton.1 hmem

theorem mem_candidates_dedup (c : InjectedCredential) :
    c ∈ candidates env injected.dedup svc ↔ c ∈ candidates env injected svc := by
  rw [mem_candidates, mem_candidates, List.mem_dedup]

/-- For one service: the same statements as for the set, exactly when it was injected once. -/
theorem serviceWrites_dedup_iff :
    (∀ w, w ∈ serviceWrites env db sessionId injected svc ↔
      w ∈ serviceWrites env db sessionId injected.dedup svc) ↔ InjectedOnce env injected svc := by
  constructor
  · intro hsame
    refine ⟨fun c hc => ?_, fun hprovider hauth c hc => ?_⟩
    · have hmem : c ∈ candidates env injected svc := by
        rw [← mem_candidates_dedup, hc]
        exact List.mem_singleton_self c
      by_cases hlen : 2 ≤ (candidates env injected svc).length
      · obtain ⟨confidence, evidence, hconfidence, hwrites⟩ :=
          @exists_chosenWrites env db sessionId injected.dedup svc c hc
        have hambiguous : .upsertAttribution (attributionRow db sessionId svc c .ambiguous ambiguousEvidence)
            ∈ serviceWrites env db sessionId injected svc := by
          rw [serviceWrites_several hlen]
          exact List.mem_map_of_mem hmem
        rw [hsame, hwrites] at hambiguous
        exact absurd hambiguous (ambiguous_not_chosen hconfidence)
      · refine (eq_of_same_mem (List.nodup_singleton c) (fun a => ?_) (by omega)).symm
        rw [← mem_candidates_dedup, hc]
    · by_cases hlen : injected.length = 1
      · obtain ⟨x, rfl⟩ := List.length_eq_one_iff.1 hlen
        rw [← hc]
        rfl
      · have hnone : candidates env injected svc = [] := by
          unfold candidates
          rw [hprovider]
        have hnil : serviceWrites env db sessionId injected svc = [] :=
          serviceWrites_nil hnone fun _ h => absurd h hlen
        obtain ⟨evidence, hwrites⟩ := @serviceWrites_unknown env db sessionId svc c hprovider hauth
        have hrow := (hsame _).2 (by rw [hc, hwrites]; exact List.mem_cons_self ..)
        rw [hnil] at hrow
        cases hrow
  · rintro ⟨honce, hunknown⟩
    have hnodup := @nodup_candidates env _ svc (List.nodup_dedup injected)
    rcases Nat.lt_or_ge (candidates env injected svc).length 2 with hlen | hlen
    · have hcandidates : candidates env injected.dedup svc = candidates env injected svc :=
        eq_of_same_mem hnodup mem_candidates_dedup (by omega)
      cases hc : candidates env injected svc with
      | cons c cs =>
          obtain rfl : cs = [] := by
            rw [hc] at hlen
            exact List.eq_nil_of_length_eq_zero (by simpa using hlen)
          intro w
          rw [serviceWrites_single hc (hcandidates.trans hc)]
      | nil =>
          rw [hc] at hcandidates
          by_cases hone : svc.provider env = none ∧ 0 < svc.authCount ∧ injected.dedup.length = 1
          · obtain ⟨hprovider, hauth, hlen'⟩ := hone
            obtain ⟨c, hdedup⟩ := List.length_eq_one_iff.1 hlen'
            intro w
            rw [hunknown hprovider hauth c hdedup]
            rfl
          · have hcounts : injected.length = 1 → injected.dedup.length = 1 := by
              intro h
              obtain ⟨x, rfl⟩ := List.length_eq_one_iff.1 h
              rfl
            intro w
            rw [serviceWrites_nil hc, serviceWrites_nil hcandidates]
            · intro hprovider h
              by_contra hauth
              exact hone ⟨hprovider, Nat.pos_of_ne_zero hauth, h⟩
            · intro hprovider h
              by_contra hauth
              exact hone ⟨hprovider, Nat.pos_of_ne_zero hauth, hcounts h⟩
    · have hlen' : 2 ≤ (candidates env injected.dedup svc).length := by
        by_contra hshort
        cases hc : candidates env injected.dedup svc with
        | nil =>
            obtain ⟨c, hmem⟩ := List.exists_mem_of_length_pos (show 0 < _ by omega :
              0 < (candidates env injected svc).length)
            rw [← mem_candidates_dedup, hc] at hmem
            cases hmem
        | cons c cs =>
            obtain rfl : cs = [] := by
              rw [hc, List.length_cons] at hshort
              exact List.eq_nil_of_length_eq_zero (by omega)
            rw [honce c hc] at hlen
            exact absurd hlen (by simp)
      intro w
      rw [serviceWrites_several hlen, serviceWrites_several hlen', List.mem_map, List.mem_map]
      simp only [mem_candidates_dedup]

end

theorem serviceId_of_mem {env : ProviderEnv} {db : Db} {sessionId : Str}
    {injected : List InjectedCredential} {svc : SvcTraffic} {w : Write}
    (h : w ∈ serviceWrites env db sessionId injected svc) : w.serviceId = svc.serviceId := by
  have hchosen : ∀ {c : InjectedCredential} {confidence : AttributionConfidence} {evidence : String},
      w ∈ chosenWrites db sessionId svc c confidence evidence → w.serviceId = svc.serviceId := by
    intro c confidence evidence hw
    unfold chosenWrites at hw
    rcases List.mem_cons.1 hw with rfl | hw
    · rfl
    · rw [List.mem_singleton.1 hw]
      rfl
  unfold serviceWrites at h
  split at h
  · split at h
    · exact hchosen h
    · exact hchosen h
  · split at h
    · split at h
      · exact hchosen h
      · cases h
    · cases h
  · obtain ⟨c, -, rfl⟩ := List.mem_map.1 h
    rfl

/-- Each service is in the traffic once. -/
theorem traffic_inj {db : Db} {sessionId : Str} {svc svc' : SvcTraffic}
    (h : svc ∈ db.traffic sessionId) (h' : svc' ∈ db.traffic sessionId)
    (hid : svc.serviceId = svc'.serviceId) : svc = svc' := by
  obtain ⟨id, -, hsvc⟩ := List.mem_filterMap.1 h
  obtain ⟨id', -, hsvc'⟩ := List.mem_filterMap.1 h'
  obtain ⟨service, hfind, rfl⟩ := Option.map_eq_some_iff.1 hsvc
  obtain ⟨service', hfind', rfl⟩ := Option.map_eq_some_iff.1 hsvc'
  obtain rfl : id = id' := hid
  rw [Option.some.inj (hfind.symm.trans hfind')]

/-- The attributions of a session are those of the set of the injected roots exactly when a credential that
    would be the only one to explain some service's traffic was injected once. -/
theorem attribution_of_set (env : ProviderEnv) (db : Db) (sessionId : Str) (credentialIds : List Str) :
    SameWrites env db sessionId (observeInjected env db credentialIds)
        (observeInjected env db credentialIds).dedup ↔
      ∀ svc ∈ db.traffic sessionId, InjectedOnce env (observeInjected env db credentialIds) svc := by
  constructor
  · intro hsame svc hsvc
    refine (@serviceWrites_dedup_iff env db sessionId _ svc).1 fun w => ?_
    -- a statement about this service comes from this service on both sides
    have hlocal : ∀ {xs : List InjectedCredential}, w.serviceId = svc.serviceId →
        w ∈ sessionWrites env db sessionId xs → w ∈ serviceWrites env db sessionId xs svc := by
      intro xs hid hw
      obtain ⟨svc', hsvc', hw'⟩ := List.mem_flatMap.1 hw
      rw [traffic_inj hsvc hsvc' (hid.symm.trans (serviceId_of_mem hw'))]
      exact hw'
    refine ⟨fun hw => ?_, fun hw => ?_⟩
    · exact hlocal (serviceId_of_mem hw) ((hsame w).1 (List.mem_flatMap.2 ⟨svc, hsvc, hw⟩))
    · exact hlocal (serviceId_of_mem hw) ((hsame w).2 (List.mem_flatMap.2 ⟨svc, hsvc, hw⟩))
  · intro honce w
    unfold sessionWrites
    rw [List.mem_flatMap, List.mem_flatMap]
    refine ⟨fun ⟨svc, hsvc, hw⟩ => ⟨svc, hsvc, ?_⟩, fun ⟨svc, hsvc, hw⟩ => ⟨svc, hsvc, ?_⟩⟩
    · exact (serviceWrites_dedup_iff.2 (honce svc hsvc) w).1 hw
    · exact (serviceWrites_dedup_iff.2 (honce svc hsvc) w).2 hw

/-- The credential under a second variable, as a reference to the first. -/
def sharedDb : Db :=
  { mixedDb with
    credentials := [openaiCredential,
      ⟨"c2".toList, "openai".toList, "production".toList, 1, some "c1".toList, none⟩] }

/-- One credential under two variables is reported as ambiguous with itself. -/
theorem shared_credential_ambiguous :
    ¬SameWrites plainProviders sharedDb "s1".toList
        (observeInjected plainProviders sharedDb ["c1".toList, "c2".toList])
        (observeInjected plainProviders sharedDb ["c1".toList, "c2".toList]).dedup ∧
      (attributeSession plainProviders "now".toList sharedDb "s1".toList
        (observeInjected plainProviders sharedDb ["c1".toList, "c2".toList])).2.attributions.map
          (fun row => (row.credentialId, row.confidence)) = [("c1".toList, .ambiguous)] := by
  refine ⟨fun h => ?_, by decide⟩
  have hrow := (h (.setEventAttribution
    ⟨"svc".toList, "c1".toList, .confirmed, some 1, some true⟩)).2 (by decide)
  exact absurd hrow (by decide)

end Tethra.Attribution
