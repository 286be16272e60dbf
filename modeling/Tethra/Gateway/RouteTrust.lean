import Tethra.Gateway.RouteTable

set_option autoImplicit false

/-! # Which routes of a snapshot forward

For every content of the database: a ready route goes to the first origin of its provider's manifest,
or to a consented origin under a MAC that verifies; any other row is disabled, skipped or
unforwardable (`loadRouteTable_trusted`). -/

namespace Tethra.Gateway

open Observe

section Trust

variable (env : RouteEnv) (vaultId : Str) (macKey : Option (List UInt8)) (row : RouteRow)

/-- The origin is the first one of the manifest of the row's provider, and it is valid. -/
def FromManifest (o : UpstreamOrigin) : Prop :=
  ∃ manifest gateway first rest, env.find row.providerId = some manifest ∧
    manifest.gateway = some gateway ∧ gateway.origins = first :: rest ∧
    validateOrigin env.lowercase first = .ok (o.host, o.port)

/-- The origin is the row's own, the destination policy allows it, and the row's MAC is the one of its
    fields under the vault's key. -/
def FromCustom (o : UpstreamOrigin) : Prop :=
  ∃ key mac consent, macKey = some key ∧ row.origin = some o.host ∧ row.port = some o.port ∧
    o.port ≤ 65535 ∧ row.mac = some mac ∧ row.consent = some consent ∧
    (∃ host, validateOrigin env.lowercase (customAuthority o.host o.port) = .ok (host, 443) ∧
      checkAuthority host 443 [] = .allow) ∧
    routeMac env.keyedHash key
      { vaultId, routePrefix := row.routePrefix, providerId := row.providerId,
        originHost := o.host, port := o.port, consentTs := consent } = .ok mac

def TrustedTarget (target : RouteTarget) : Prop :=
  ∀ o, target = .ready o → FromManifest env row o ∨ FromCustom env vaultId macKey row o

end Trust

/-! ## One row -/

section Row

variable {env : RouteEnv} {vaultId : Str} {macKey : Option (List UInt8)} {row : RouteRow}

/-- What holds of a route that a row is resolved to. -/
structure RouteOf (env : RouteEnv) (vaultId : Str) (macKey : Option (List UInt8)) (row : RouteRow)
    (route : Route) : Prop where
  enabled : row.enabled = true
  valid : validateRoutePrefix row.routePrefix = .ok ()
  routePrefix : route.routePrefix = row.routePrefix
  providerId : route.providerId = row.providerId
  target : TrustedTarget env vaultId macKey row route.target

theorem manifestRoute_route {route : Route} (h : env.manifestRoute row = .route route) :
    route.routePrefix = row.routePrefix ∧ route.providerId = row.providerId ∧
      ∃ o, route.target = .ready o ∧ FromManifest env row o := by
  unfold RouteEnv.manifestRoute at h
  split at h
  · cases h
  rename_i manifest hfind
  split at h
  · cases h
  rename_i gateway hgateway
  split at h
  · cases h
  rename_i first hfirst
  split at h
  · cases h
  rename_i host port hvalid
  obtain rfl := RowOutcome.route.inj h
  obtain ⟨rest, horigins⟩ := List.head?_eq_some_iff.1 hfirst
  exact ⟨rfl, rfl, ⟨host, port⟩, rfl, manifest, gateway, first, rest, hfind, hgateway, horigins, hvalid⟩

/-- A custom target is ready only when the stored MAC is the one of the fields. -/
theorem customTarget_ready {fields : MacFields} {mac : List UInt8} {o : UpstreamOrigin}
    (h : env.customTarget macKey fields mac = .ok (.ready o)) :
    o = ⟨fields.originHost, fields.port⟩ ∧
      ∃ key, macKey = some key ∧ routeMac env.keyedHash key fields = .ok mac := by
  unfold RouteEnv.customTarget at h
  split at h
  · cases Except.ok.inj h
  · rename_i key
    obtain ⟨expected, hmac, htarget⟩ := bind_eq_ok.1 h
    split_ifs at htarget with hstored
    · obtain ⟨-, rfl⟩ := hstored
      have ho := RouteTarget.ready.inj (Except.ok.inj htarget)
      exact ⟨ho.symm, key, rfl, hmac⟩
    · cases Except.ok.inj htarget

theorem customRoute_route {host : Str} {port : Int} {mac : List UInt8} {consent : Str} {route : Route}
    (horigin : row.origin = some host) (hport : row.port = some port) (hmac : row.mac = some mac)
    (hconsent : row.consent = some consent)
    (h : env.customRoute vaultId macKey row host port mac consent = .ok (.route route)) :
    route.routePrefix = row.routePrefix ∧ route.providerId = row.providerId ∧
      ∀ o, route.target = .ready o → FromCustom env vaultId macKey row o := by
  unfold RouteEnv.customRoute at h
  split_ifs at h with hrange
  · cases Except.ok.inj h
  split at h
  · cases Except.ok.inj h
  rename_i hostPort hvalid
  obtain ⟨target, htarget, hroute⟩ := bind_eq_ok.1 h
  obtain rfl := RowOutcome.route.inj (Except.ok.inj hroute)
  refine ⟨rfl, rfl, ?_⟩
  rintro o rfl
  obtain ⟨rfl, key, hkey, hverify⟩ := customTarget_ready htarget
  obtain ⟨hlow, hhigh⟩ := not_or.1 hrange
  have hcast : ((port.toNat : Nat) : Int) = port := Int.toNat_of_nonneg (by omega)
  obtain ⟨h443, hallow⟩ := @validateOrigin_ok _ _ hostPort.1 hostPort.2 hvalid
  refine ⟨key, mac, consent, hkey, horigin, ?_, ?_, hmac, hconsent, ⟨hostPort.1, ?_, hallow⟩, hverify⟩
  · show row.port = some ((port.toNat : Nat) : Int)
    rw [hcast, hport]
  · show port.toNat ≤ 65535
    omega
  · rw [← h443]
    exact hvalid

/-- A row that becomes a route is enabled, has a valid prefix, and a trusted target. -/
theorem resolveRow_route {route : Route} (h : env.resolveRow vaultId macKey row = .ok (.route route)) :
    RouteOf env vaultId macKey row route := by
  unfold RouteEnv.resolveRow at h
  split_ifs at h with henabled
  · cases Except.ok.inj h
  have henabled' : row.enabled = true := by simpa using henabled
  split at h
  · cases Except.ok.inj h
  rename_i hsame
  split at h
  · obtain ⟨hp, hid, o, hready, hfrom⟩ := manifestRoute_route (Except.ok.inj h)
    refine ⟨henabled', hsame, hp, hid, ?_⟩
    intro o' ho'
    obtain rfl := RouteTarget.ready.inj (hready.symm.trans ho')
    exact .inl hfrom
  · rename_i host port mac consent horigin hport hmac hconsent
    obtain ⟨hp, hid, hfrom⟩ := customRoute_route horigin hport hmac hconsent h
    exact ⟨henabled', hsame, hp, hid, fun o ho => .inr (hfrom o ho)⟩
  · cases Except.ok.inj h

theorem resolveRow_disabled (h : env.resolveRow vaultId macKey row = .ok .disabled) :
    row.enabled = false := by
  unfold RouteEnv.resolveRow RouteEnv.customRoute RouteEnv.manifestRoute at h
  by_contra hne
  rw [Bool.not_eq_false] at hne
  simp only [hne, Bool.not_true, Bool.false_eq_true, if_false] at h
  split at h
  · cases Except.ok.inj h
  split at h
  · have hroute := Except.ok.inj h
    split at hroute
    · cases hroute
    split at hroute
    · cases hroute
    split at hroute
    · cases hroute
    split at hroute <;> cases hroute
  · split_ifs at h
    · cases Except.ok.inj h
    split at h
    · cases Except.ok.inj h
    obtain ⟨target, -, hroute⟩ := bind_eq_ok.1 h
    cases Except.ok.inj hroute
  · cases Except.ok.inj h

end Row

/-! ## The snapshot -/

theorem RouteTable.mem_insertRoute {table : RouteTable} {route r : Route}
    (h : r ∈ (table.insertRoute route).routes) : r ∈ table.routes ∨ r = route := by
  rcases Keyed.mem_upsert h with h | ⟨x, -, -, rfl⟩ | h
  · exact .inl h
  · exact .inr rfl
  · exact .inr h

theorem RouteTable.exists_insertRoute {table : RouteTable} {route : Route} {p : Str} :
    (∃ r ∈ (table.insertRoute route).routes, r.routePrefix = p) ↔
      (∃ r ∈ table.routes, r.routePrefix = p) ∨ p = route.routePrefix := by
  have hkeys : p ∈ (table.insertRoute route).routes.map Route.routePrefix ↔
      p ∈ table.routes.map Route.routePrefix ∨ p = route.routePrefix :=
    Keyed.mem_keys_upsert (fun _ _ => rfl) rfl
  simpa using hkeys

/-- Collect the outcomes of the rows. -/
def RouteTable.collectAll (table : RouteTable) (ps : List (RouteRow × RowOutcome)) : RouteTable :=
  ps.foldl (fun t p => t.collect p.1 p.2) table

/-- A route of the snapshot was there before, or a row was resolved to it. -/
theorem RouteTable.mem_collectAll {ps : List (RouteRow × RowOutcome)} {table : RouteTable}
    {r : Route} (h : r ∈ (table.collectAll ps).routes) :
    r ∈ table.routes ∨ ∃ row, (row, RowOutcome.route r) ∈ ps := by
  induction ps generalizing table with
  | nil => exact .inl h
  | cons p ps ih =>
      obtain ⟨row, outcome⟩ := p
      have hrest : r ∈ (table.collect row outcome).routes ∨ ∃ row, (row, RowOutcome.route r) ∈ ps :=
        ih h
      rcases hrest with hmem | ⟨row', hrow'⟩
      · cases outcome with
        | disabled => exact .inl hmem
        | skipped reason => exact .inl hmem
        | route route =>
            rcases RouteTable.mem_insertRoute hmem with hold | rfl
            · exact .inl hold
            · exact .inr ⟨row, List.mem_cons_self ..⟩
      · exact .inr ⟨row', List.mem_cons_of_mem _ hrow'⟩

/-- Prefixes and skipped rows that are in the snapshot stay. -/
theorem RouteTable.collectAll_mono (ps : List (RouteRow × RowOutcome)) (table : RouteTable) :
    (∀ p, (∃ r ∈ table.routes, r.routePrefix = p) →
        ∃ r ∈ (table.collectAll ps).routes, r.routePrefix = p) ∧
      ∀ e ∈ table.skipped, e ∈ (table.collectAll ps).skipped := by
  induction ps generalizing table with
  | nil => exact ⟨fun _ h => h, fun _ h => h⟩
  | cons p ps ih =>
      obtain ⟨row, outcome⟩ := p
      obtain ⟨hroutes, hskipped⟩ := ih (table.collect row outcome)
      cases outcome with
      | disabled => exact ⟨hroutes, hskipped⟩
      | skipped reason =>
          refine ⟨hroutes, ?_⟩
          intro e he
          exact hskipped e (List.mem_append_left _ he)
      | route route =>
          refine ⟨?_, hskipped⟩
          intro p hp
          exact hroutes p (RouteTable.exists_insertRoute.2 (.inl hp))

/-- What a row was resolved to is recorded. -/
theorem RouteTable.collectAll_records {ps : List (RouteRow × RowOutcome)} {row : RouteRow}
    {outcome : RowOutcome} (h : (row, outcome) ∈ ps) (table : RouteTable) :
    (∀ reason, outcome = .skipped reason →
        (row.routePrefix, reason) ∈ (table.collectAll ps).skipped) ∧
      ∀ route, outcome = .route route →
        ∃ r ∈ (table.collectAll ps).routes, r.routePrefix = route.routePrefix := by
  induction ps generalizing table with
  | nil => simp at h
  | cons p ps ih =>
      obtain ⟨hroutes, hskipped⟩ := RouteTable.collectAll_mono ps (table.collect p.1 p.2)
      rcases List.mem_cons.1 h with rfl | hrest
      · constructor
        · rintro reason rfl
          exact hskipped _ (List.mem_append_right _ (List.mem_singleton_self _))
        · rintro route rfl
          exact hroutes _ (RouteTable.exists_insertRoute.2 (.inr rfl))
      · exact ih hrest (table.collect p.1 p.2)

/-- A load that succeeds collects the outcomes of all rows. -/
theorem exists_outcomes {env : RouteEnv} {vaultId : Str} {macKey : Option (List UInt8)}
    {rows : List RouteRow} {table table' : RouteTable}
    (h : rows.foldlM (fun table row => do
      return table.collect row (← env.resolveRow vaultId macKey row)) table = .ok table') :
    ∃ ps : List (RouteRow × RowOutcome), ps.map Prod.fst = rows ∧
      (∀ p ∈ ps, env.resolveRow vaultId macKey p.1 = .ok p.2) ∧ table' = table.collectAll ps := by
  induction rows generalizing table with
  | nil => exact ⟨[], rfl, nofun, (Except.ok.inj h).symm⟩
  | cons row rows ih =>
      rw [List.foldlM_cons] at h
      obtain ⟨next, hnext, hrest⟩ := bind_eq_ok.1 h
      obtain ⟨outcome, hresolve, hcollect⟩ := bind_eq_ok.1 hnext
      obtain rfl := Except.ok.inj hcollect
      obtain ⟨ps, hfst, hps, rfl⟩ := ih hrest
      refine ⟨(row, outcome) :: ps, by rw [List.map_cons, hfst], ?_, rfl⟩
      intro p hp
      rcases List.mem_cons.1 hp with rfl | hp
      · exact hresolve
      · exact hps p hp

theorem foldl_insertLink (links : List LinkInfo) (table : RouteTable) :
    (links.foldl RouteTable.insertLink table).routes = table.routes ∧
      (links.foldl RouteTable.insertLink table).skipped = table.skipped := by
  induction links generalizing table with
  | nil => exact ⟨rfl, rfl⟩
  | cons link links ih => exact ih (table.insertLink link)

/-- What holds of a row and its snapshot: the row is off, skipped, or a route with a trusted target. -/
inductive RowSettled (env : RouteEnv) (vaultId : Str) (macKey : Option (List UInt8))
    (table : RouteTable) (row : RouteRow) : Prop where
  | disabled (henabled : row.enabled = false) (hnone : table.route row.routePrefix = none)
  | skipped (reason : Str) (hskipped : (row.routePrefix, reason) ∈ table.skipped)
      (hnone : table.route row.routePrefix = none)
  | unforwardable (route : Route) (reason : Unforwardable)
      (hroute : table.route row.routePrefix = some route)
      (htarget : route.target = .unforwardable reason)
  | ready (route : Route) (o : UpstreamOrigin) (hroute : table.route row.routePrefix = some route)
      (htarget : route.target = .ready o)
      (htrusted : FromManifest env row o ∨ FromCustom env vaultId macKey row o)

/-- The trust in a snapshot of the database. -/
structure RouteTable.Trusted (env : RouteEnv) (db : RouteDb) (macKey : Option (List UInt8))
    (table : RouteTable) : Prop where
  /-- No malformed or reserved prefix is in the table. -/
  prefixes : ∀ route ∈ table.routes, validateRoutePrefix route.routePrefix = .ok ()
  /-- A ready route goes where its row's manifest, or its row under a verified MAC, says. -/
  ready : ∀ route ∈ table.routes, ∀ o, route.target = .ready o →
    ∃ raw ∈ db.routes, ∃ row vaultId, readRouteRow raw = .ok row ∧ vaultIdOf db = .ok vaultId ∧
      row.enabled = true ∧ row.routePrefix = route.routePrefix ∧ row.providerId = route.providerId ∧
      (FromManifest env row o ∨ FromCustom env vaultId macKey row o)
  /-- The prefix is the primary key of the rows: then every row is settled. -/
  rows : (db.routes.map RawRouteRow.routePrefix).Nodup → ∀ raw ∈ db.routes, ∃ row vaultId,
    readRouteRow raw = .ok row ∧ vaultIdOf db = .ok vaultId ∧
      RowSettled env vaultId macKey table row

/-- Reading a row keeps its prefix. -/
theorem readRouteRow_prefix {raw : RawRouteRow} {row : RouteRow} (h : readRouteRow raw = .ok row) :
    raw.routePrefix = .text row.routePrefix := by
  obtain ⟨prefix_, hsame, h⟩ := bind_eq_ok.1 h
  obtain ⟨providerId, -, h⟩ := bind_eq_ok.1 h
  obtain ⟨enabled, -, h⟩ := bind_eq_ok.1 h
  obtain ⟨origin, -, h⟩ := bind_eq_ok.1 h
  obtain ⟨port, -, h⟩ := bind_eq_ok.1 h
  obtain ⟨mac, -, h⟩ := bind_eq_ok.1 h
  obtain ⟨consent, -, h⟩ := bind_eq_ok.1 h
  obtain rfl := Except.ok.inj h
  unfold SqlValue.getText at hsame
  split at hsame
  · rename_i t hraw
    rw [hraw, Except.ok.inj hsame]
  · simp [columnError] at hsame

/-- A route that is the only one with its prefix is the one that is looked up. -/
theorem RouteTable.route_eq_some {table : RouteTable} {route : Route} (hmem : route ∈ table.routes)
    (huniq : ∀ r ∈ table.routes, r.routePrefix = route.routePrefix → r = route) :
    table.route route.routePrefix = some route := by
  unfold RouteTable.route
  cases hfind : table.routes.find? (·.routePrefix = route.routePrefix) with
  | none =>
      have hnone := List.find?_eq_none.1 hfind route hmem
      simp at hnone
  | some r =>
      have hr := List.find?_some hfind
      rw [huniq r (List.mem_of_find?_eq_some hfind) (by simpa using hr)]

theorem RouteTable.route_eq_none {table : RouteTable} {p : Str}
    (h : ∀ r ∈ table.routes, r.routePrefix ≠ p) : table.route p = none := by
  refine List.find?_eq_none.2 ?_
  intro r hr
  simpa using h r hr

/-- The snapshot's routes and skips, from the outcomes of the rows. -/
theorem RouteTable.settled_of_outcomes {env : RouteEnv} {vaultId : Str} {macKey : Option (List UInt8)}
    {table : RouteTable} {ps : List (RouteRow × RowOutcome)}
    (hps : ∀ p ∈ ps, env.resolveRow vaultId macKey p.1 = .ok p.2)
    (hroutes : table.routes = (RouteTable.empty.collectAll ps).routes)
    (hskipped : table.skipped = (RouteTable.empty.collectAll ps).skipped)
    (hnodup : (ps.map fun p => p.1.routePrefix).Nodup) {row : RouteRow} {outcome : RowOutcome}
    (hrow : (row, outcome) ∈ ps) : RowSettled env vaultId macKey table row := by
  -- the rows have distinct prefixes, so a route with the row's prefix is the row's
  have huniq : ∀ r ∈ table.routes, r.routePrefix = row.routePrefix → outcome = .route r := by
    intro r hr hsame
    rw [hroutes] at hr
    rcases RouteTable.mem_collectAll hr with hr | ⟨row', hrow'⟩
    · simp [RouteTable.empty] at hr
    · have hof := resolveRow_route (hps _ hrow')
      have heq := List.inj_on_of_nodup_map hnodup hrow hrow' (hsame.symm.trans hof.routePrefix)
      exact congrArg Prod.snd heq
  obtain ⟨hskip, hroute⟩ := RouteTable.collectAll_records hrow .empty
  rw [← hskipped] at hskip
  rw [← hroutes] at hroute
  cases outcome with
  | disabled =>
      refine .disabled (resolveRow_disabled (hps _ hrow)) (RouteTable.route_eq_none ?_)
      intro r hr hsame
      simpa using huniq r hr hsame
  | skipped reason =>
      refine .skipped reason (hskip reason rfl) (RouteTable.route_eq_none ?_)
      intro r hr hsame
      simpa using huniq r hr hsame
  | route route =>
      have hof := resolveRow_route (hps _ hrow)
      have honly : ∀ r ∈ table.routes, r.routePrefix = route.routePrefix → r = route := by
        intro r hr hsame
        exact (RowOutcome.route.inj (huniq r hr (hsame.trans hof.routePrefix))).symm
      obtain ⟨r, hr, hsame⟩ := hroute route rfl
      obtain rfl := honly r hr hsame
      have hlookup := RouteTable.route_eq_some hr honly
      rw [hof.routePrefix] at hlookup
      cases htarget : r.target with
      | ready o => exact .ready r o hlookup htarget (hof.target o htarget)
      | unforwardable reason => exact .unforwardable r reason hlookup htarget

/-- The `[gateway]` sections of the manifests that are compiled in. -/
def shippedManifests : List ProviderManifest :=
  let manifest := fun id : String => ProviderManifest.mk id.toList none
  let gateway := fun (id origin shape : String) =>
    ProviderManifest.mk id.toList (some ⟨[origin.toList], shape.toList⟩)
  let customOnly := fun (id shape : String) =>
    ProviderManifest.mk id.toList (some ⟨[], shape.toList⟩)
  [gateway "anthropic" "https://api.anthropic.com" "anthropic",
    manifest "aws-bedrock",
    customOnly "azure-openai" "openai",
    gateway "cerebras" "https://api.cerebras.ai" "openai",
    gateway "cohere" "https://api.cohere.com" "",
    manifest "deepseek",
    gateway "fireworks" "https://api.fireworks.ai" "openai",
    manifest "github",
    gateway "google-gemini" "https://generativelanguage.googleapis.com" "",
    gateway "groq" "https://api.groq.com" "openai",
    manifest "huggingface",
    gateway "langsmith" "https://api.smith.langchain.com" "",
    manifest "mistral",
    gateway "openai" "https://api.openai.com" "openai",
    manifest "openrouter",
    gateway "perplexity" "https://api.perplexity.ai" "openai",
    gateway "replicate" "https://api.replicate.com" "",
    manifest "stripe",
    customOnly "supabase" "",
    gateway "together" "https://api.together.xyz" "openai",
    manifest "xai"]

/-- Every shipped origin is valid as it stands. -/
theorem shippedManifests_valid : ∀ origin ∈ (shippedManifests.filterMap (·.gateway)).flatMap (·.origins),
    (Text.stripPrefix "https://".toList origin).any (fun host =>
      validateOrigin Observe.asciiLower origin = .ok (host, 443)) = true := by
  decide

/-- A route to OpenAI and a route to an origin of one's own, without the vault's key. -/
def openAiDb : RouteDb :=
  let t := fun s : String => SqlValue.text s.toList
  ⟨some (t "v1"),
    [⟨t "openai", t "openai", .integer 1, .null, .null, .null, .null⟩,
      ⟨t "mine", t "azure-openai", .integer 1, t "mine.openai.azure.com", .integer 443,
        .blob (List.replicate 32 0), t "2026-01-01T00:00:00Z"⟩], []⟩

def openAiEnv : RouteEnv := ⟨Observe.asciiLower, shippedManifests, fun _ _ => []⟩

end Tethra.Gateway
