import Tethra.Tracking.Health

set_option autoImplicit false

/-! # A status never claims more than the evidence

What stands behind each part of a reading, and what a refresh that reports present success has found
(`refreshWith_verified`), whatever the database holds. -/

namespace Tethra.Tracking

/-! ## Times of a host -/

theorem textMax_or (a b : Str) : textMax a b = a ∨ textMax a b = b := by
  unfold textMax
  split_ifs
  · exact Or.inr rfl
  · exact Or.inl rfl

theorem textMin_or (a b : Str) : textMin a b = a ∨ textMin a b = b := by
  unfold textMin
  split_ifs
  · exact Or.inr rfl
  · exact Or.inl rfl

/-- A fold that picks one of two ends at one of its texts. -/
theorem foldl_mem {pick : Str → Str → Str} (hpick : ∀ a b, pick a b = a ∨ pick a b = b) (a : Str)
    (more : List Str) : more.foldl pick a ∈ a :: more := by
  induction more generalizing a with
  | nil => exact List.mem_cons_self ..
  | cons b more ih =>
      rw [List.foldl_cons]
      rcases hpick a b with h | h
      · rw [h]
        rcases List.mem_cons.1 (ih a) with hmem | hmem
        · rw [hmem]
          exact List.mem_cons_self ..
        · exact List.mem_cons_of_mem _ (List.mem_cons_of_mem _ hmem)
      · rw [h]
        exact List.mem_cons_of_mem _ (ih b)

/-- The first and the last time of a host are times of its events. -/
theorem hostRows_times {events : List EventRow} {row : HostRow} (h : row ∈ hostRows events) :
    (∃ e ∈ events, e.host = row.host ∧ e.at_ = row.firstAt) ∧
      ∃ e ∈ events, e.host = row.host ∧ e.at_ = row.lastAt := by
  obtain ⟨host, -, hrow⟩ := List.mem_filterMap.1 h
  unfold hostRow at hrow
  split at hrow
  · cases hrow
  rename_i at_ more htimes
  obtain rfl := Option.some.inj hrow
  have hevent : ∀ t ∈ at_ :: more, ∃ e ∈ events, e.host = host ∧ e.at_ = t := by
    intro t ht
    rw [← htimes] at ht
    obtain ⟨e, he, rfl⟩ := List.mem_map.1 ht
    obtain ⟨hmem, hhost⟩ := List.mem_filter.1 he
    exact ⟨e, hmem, by simpa using hhost, rfl⟩
  exact ⟨hevent _ (foldl_mem textMin_or at_ more), hevent _ (foldl_mem textMax_or at_ more)⟩

/-! ## Times of a provider -/

/-- Every time that was kept is the time of an event of its provider. -/
structure Seen.Backed (providerOf : Str → Option Str) (events : List EventRow) (s : Seen) : Prop where
  slots : ∀ p ∈ s.perProvider, ∀ t, p.2 = some t →
    ∃ e ∈ events, providerOf e.host = some p.1 ∧ e.at_ = t
  earliest : ∀ t, s.earliest = some t →
    ∃ e ∈ events, (∃ p ∈ s.perProvider, providerOf e.host = some p.1) ∧ e.at_ = t

variable {providerOf : Str → Option Str} {events : List EventRow}

theorem keys_see (s : Seen) (row : HostRow) :
    (s.see providerOf row).perProvider.map Prod.fst = s.perProvider.map Prod.fst := by
  unfold Seen.see
  split
  · rfl
  split_ifs
  · rw [List.map_map]
    refine List.map_congr_left ?_
    intro p _
    simp only [Function.comp_apply]
    split_ifs <;> rfl
  · rfl

theorem newer_eq_some {slot : Option Str} {lastAt t : Str} (h : newer slot lastAt = some t) :
    t = lastAt ∨ slot = some t := by
  unfold newer at h
  split at h
  · rename_i cur
    rcases textMax_or cur lastAt with hpick | hpick
    · exact Or.inr (by rw [← h, hpick])
    · exact Or.inl (by rw [← Option.some.inj h, hpick])
  · exact Or.inl (Option.some.inj h).symm

theorem older_eq_some {slot : Option Str} {firstAt t : Str} (h : older slot firstAt = some t) :
    t = firstAt ∨ slot = some t := by
  unfold older at h
  split at h
  · rename_i cur
    rcases textMin_or cur firstAt with hpick | hpick
    · exact Or.inr (by rw [← h, hpick])
    · exact Or.inl (by rw [← Option.some.inj h, hpick])
  · exact Or.inl (Option.some.inj h).symm

theorem Seen.Backed.see {s : Seen} (h : s.Backed providerOf events) {row : HostRow}
    (hrow : row ∈ hostRows events) : (s.see providerOf row).Backed providerOf events := by
  obtain ⟨⟨first, hfirst, hfirstHost, hfirstAt⟩, last, hlast, hlastHost, hlastAt⟩ :=
    hostRows_times hrow
  have hkeys := @keys_see providerOf s row
  unfold Seen.see at hkeys ⊢
  split at hkeys
  · exact h
  rename_i provider hprovider
  split_ifs at hkeys ⊢ with hconfigured
  · refine ⟨?_, ?_⟩
    · intro q hq t ht
      obtain ⟨p, hp, rfl⟩ := List.mem_map.1 hq
      split_ifs at ht ⊢ with hsame
      · rcases newer_eq_some ht with rfl | hslot
        · refine ⟨last, hlast, ?_, hlastAt⟩
          rw [hlastHost, hprovider, hsame]
        · exact h.slots p hp t hslot
      · exact h.slots p hp t ht
    · intro t ht
      have hin : ∀ {e : EventRow}, (∃ p ∈ s.perProvider, providerOf e.host = some p.1) →
          ∃ p ∈ s.perProvider.map fun p =>
            if p.1 = provider then (p.1, newer p.2 row.lastAt) else p, providerOf e.host = some p.1 := by
        rintro e ⟨p, hp, hof⟩
        refine ⟨_, List.mem_map.2 ⟨p, hp, rfl⟩, ?_⟩
        split_ifs <;> exact hof
      rcases older_eq_some ht with rfl | hearliest
      · refine ⟨first, hfirst, hin ?_, hfirstAt⟩
        obtain ⟨p, hp, hname⟩ := List.any_eq_true.1 hconfigured
        refine ⟨p, hp, ?_⟩
        rw [hfirstHost, hprovider, of_decide_eq_true hname]
      · obtain ⟨e, he, hof, hat⟩ := h.earliest t hearliest
        exact ⟨e, he, hin hof, hat⟩
  · exact h

theorem backed_foldl {rows : List HostRow} (hrows : ∀ row ∈ rows, row ∈ hostRows events) {s : Seen}
    (h : s.Backed providerOf events) :
    (rows.foldl (Seen.see providerOf) s).Backed providerOf events ∧
      (rows.foldl (Seen.see providerOf) s).perProvider.map Prod.fst = s.perProvider.map Prod.fst := by
  induction rows generalizing s with
  | nil => exact ⟨h, rfl⟩
  | cons row rows ih =>
      have hsee := h.see (hrows row (List.mem_cons_self ..))
      obtain ⟨hbacked, hkeys⟩ := ih (fun r hr => hrows r (List.mem_cons_of_mem _ hr)) hsee
      exact ⟨hbacked, hkeys.trans (keys_see s row)⟩

/-- The seen times are backed by the events, and there is a slot for each configured provider. -/
theorem seenOf_backed (providers : List Str) :
    (seenOf providerOf providers events).Backed providerOf events ∧
      (seenOf providerOf providers events).perProvider.map Prod.fst = orderedProviders providers := by
  have hstart : Seen.Backed providerOf events
      ⟨(orderedProviders providers).map fun p => (p, none), none⟩ := by
    refine ⟨?_, nofun⟩
    intro p hp t ht
    obtain ⟨name, -, rfl⟩ := List.mem_map.1 hp
    cases ht
  obtain ⟨hbacked, hkeys⟩ := backed_foldl (fun _ h => h) hstart
  refine ⟨hbacked, hkeys.trans ?_⟩
  rw [List.map_map]
  exact List.map_id _

theorem mem_orderedProviders {providers : List Str} {p : Str} :
    p ∈ orderedProviders providers ↔ p ∈ providers := by
  simp [orderedProviders]

/-! ## A reading -/

/-- The observation may verify the row's session: it was recorded after the apply, and claims a time
    since it that has come. -/
def Admissible (env : TrackEnv) (now : Str) (row : TrackingSetup) (e : EventRow) : Prop :=
  ∃ appliedAt, row.appliedAt = some appliedAt ∧ e.projectId = row.projectId ∧ e.fromGateway = true ∧
    row.appliedEventRowid < e.rowid ∧ appliedAt ≤ e.at_ ∧
    e.at_ ≤ env.minusSeconds now (-maxClockSkewSecs)

def Fresh (env : TrackEnv) (now : Str) (e : EventRow) : Prop :=
  env.minusSeconds now observationFreshnessSecs ≤ e.at_ ∧
    e.at_ ≤ env.minusSeconds now (-maxClockSkewSecs)

/-- What has to stand behind a claim that a setup is verified and active. -/
structure Verified (env : TrackEnv) (db : TrackDb) (now : Str) (row : TrackingSetup) : Prop where
  configured : configuredProviders row ≠ []
  providers : ∀ p ∈ configuredProviders row,
    (∃ r ∈ db.routes, r.enabled = true ∧ (r.providerId = p ∨ r.routePrefix = p)) ∧
    (∃ l ∈ db.links, l.projectId = row.projectId ∧ l.routePrefix = p) ∧
    ∃ e ∈ db.events, Admissible env now row e ∧ env.providerOfHost db e.host = some p ∧
      Fresh env now e
  /-- An observation is at least as new as the recorded failure. -/
  failure : ∀ failed, row.attentionAt = some failed →
    ∃ e ∈ db.events, Admissible env now row e ∧
      (∃ p ∈ configuredProviders row, env.providerOfHost db e.host = some p) ∧
      ∃ i j, env.parse failed = some i ∧ env.parse e.at_ = some j ∧ i ≤ j

section Reading

variable {env : TrackEnv} {db : TrackDb} {now appliedAt : Str} {setup : TrackingSetup}

theorem admissible_of_admits (happlied : setup.appliedAt = some appliedAt) {e : EventRow}
    (h : setup.admits appliedAt (env.minusSeconds now (-maxClockSkewSecs)) e = true) :
    Admissible env now setup e := by
  simp only [TrackingSetup.admits, Bool.and_eq_true, decide_eq_true_eq] at h
  obtain ⟨⟨⟨⟨hproject, hgateway⟩, hrowid⟩, hafter⟩, hbefore⟩ := h
  exact ⟨appliedAt, happlied, hproject, hgateway, hrowid, hafter, hbefore⟩

/-- A provider's time in a reading is the time of an admissible observation of that provider. -/
theorem read_lastObserved (happlied : setup.appliedAt = some appliedAt) {f : ProviderFreshness}
    (hf : f ∈ (env.read db now appliedAt setup).freshness) {t : Str}
    (ht : f.lastObservedAt = some t) :
    ∃ e ∈ db.events, Admissible env now setup e ∧
      env.providerOfHost db e.host = some f.providerId ∧ e.at_ = t := by
  obtain ⟨p, hp, rfl⟩ := List.mem_map.1 hf
  obtain ⟨e, he, hof, hat⟩ := (seenOf_backed (configuredProviders setup)).1.slots p hp t ht
  obtain ⟨hmem, hadmits⟩ := List.mem_filter.1 he
  exact ⟨e, hmem, admissible_of_admits happlied hadmits, hof, hat⟩

theorem read_earliest (happlied : setup.appliedAt = some appliedAt) {t : Str}
    (ht : (env.read db now appliedAt setup).earliest = some t) :
    ∃ e ∈ db.events, Admissible env now setup e ∧ e.at_ = t := by
  obtain ⟨e, he, -, hat⟩ := (seenOf_backed (configuredProviders setup)).1.earliest t ht
  obtain ⟨hmem, hadmits⟩ := List.mem_filter.1 he
  exact ⟨e, hmem, admissible_of_admits happlied hadmits, hat⟩

theorem map_providerId_read :
    (env.read db now appliedAt setup).freshness.map ProviderFreshness.providerId
      = orderedProviders (configuredProviders setup) := by
  rw [← (seenOf_backed (configuredProviders setup)).2, TrackEnv.read, List.map_map]
  rfl

theorem exists_read {p : Str} (hp : p ∈ configuredProviders setup) :
    ∃ f ∈ (env.read db now appliedAt setup).freshness, f.providerId = p := by
  rw [← mem_orderedProviders, ← @map_providerId_read env db now appliedAt] at hp
  exact List.mem_map.1 hp

theorem providerId_mem {f : ProviderFreshness}
    (hf : f ∈ (env.read db now appliedAt setup).freshness) :
    f.providerId ∈ configuredProviders setup := by
  rw [← mem_orderedProviders, ← @map_providerId_read env db now appliedAt]
  exact List.mem_map_of_mem hf

theorem newest_mem {r : Reading} {t : Str} (h : r.newest = some t) :
    ∃ f ∈ r.freshness, f.lastObservedAt = some t := by
  unfold Reading.newest at h
  split at h
  · cases h
  rename_i at_ more htimes
  have hmem := foldl_mem textMax_or at_ more
  rw [Option.some.inj h, ← htimes] at hmem
  exact List.mem_filterMap.1 hmem

/-- A provider that works now has its route, its link and a fresh admissible observation. -/
theorem read_working (happlied : setup.appliedAt = some appliedAt) {f : ProviderFreshness}
    (hf : f ∈ (env.read db now appliedAt setup).freshness)
    (hworks : (f.fresh && f.routePresent && f.linkPresent) = true) :
    (∃ r ∈ db.routes, r.enabled = true ∧
      (r.providerId = f.providerId ∨ r.routePrefix = f.providerId)) ∧
    (∃ l ∈ db.links, l.projectId = setup.projectId ∧ l.routePrefix = f.providerId) ∧
    ∃ e ∈ db.events, Admissible env now setup e ∧
      env.providerOfHost db e.host = some f.providerId ∧ Fresh env now e := by
  have hlast := fun t => @read_lastObserved env db now appliedAt setup happlied f hf t
  obtain ⟨p, hp, rfl⟩ := List.mem_map.1 hf
  simp only [Bool.and_eq_true, TrackDb.routePresent, TrackDb.linkPresent, List.any_eq_true,
    decide_eq_true_eq, Bool.or_eq_true] at hworks
  obtain ⟨⟨hfresh, r, hr, hroute⟩, l, hl, hlink⟩ := hworks
  refine ⟨⟨r, hr, hroute⟩, ⟨l, hl, hlink⟩, ?_⟩
  obtain ⟨t, ht, hwindow⟩ := (Option.any_eq_true _ _).1 hfresh
  obtain ⟨e, he, hadmissible, hof, rfl⟩ := hlast t ht
  simp only [Bool.and_eq_true, decide_eq_true_eq] at hwindow
  exact ⟨e, he, hadmissible, hof, hwindow⟩

/-- A failure that is not newer than the evidence is not later than its newest time. -/
theorem newest_of_failureIsNewer {r : Reading} {failed : Str} (hfailed : setup.attentionAt = some failed)
    (h : env.failureIsNewer setup r = false) :
    ∃ seen i j, r.newest = some seen ∧ env.parse failed = some i ∧ env.parse seen = some j ∧ i ≤ j := by
  unfold TrackEnv.failureIsNewer at h
  rw [hfailed] at h
  cases hnewest : r.newest with
  | none =>
      rw [hnewest] at h
      cases h
  | some seen =>
      rw [hnewest] at h
      simp only [TrackEnv.instantIsAfter] at h
      split at h
      · rename_i i j hi hj
        exact ⟨seen, i, j, rfl, hi, hj, not_lt.1 (of_decide_eq_false h)⟩
      · cases h

/-- Nor is it later than some admissible observation. -/
theorem failure_answered (happlied : setup.appliedAt = some appliedAt)
    (h : env.failureIsNewer setup (env.read db now appliedAt setup) = false) {failed : Str}
    (hfailed : setup.attentionAt = some failed) :
    ∃ e ∈ db.events, Admissible env now setup e ∧
      (∃ p ∈ configuredProviders setup, env.providerOfHost db e.host = some p) ∧
      ∃ i j, env.parse failed = some i ∧ env.parse e.at_ = some j ∧ i ≤ j := by
  obtain ⟨seen, i, j, hnewest, hi, hj, hle⟩ := newest_of_failureIsNewer hfailed h
  obtain ⟨f, hf, hlast⟩ := newest_mem hnewest
  obtain ⟨e, he, hadmissible, hof, rfl⟩ := read_lastObserved happlied hf hlast
  exact ⟨e, he, hadmissible, ⟨_, providerId_mem hf, hof⟩, i, j, hi, hj, hle⟩

end Reading

/-! ## The conclusion -/

theorem idleOrWaiting_not_working (setup : TrackingSetup) (r : Reading) :
    (idleOrWaiting setup r).isCurrentlyWorking = false := by
  unfold idleOrWaiting
  split
  · rfl
  · split_ifs <;> rfl

/-- A present success comes from the providers that work now, and no newer failure. -/
theorem deriveHealth_working {setup : TrackingSetup} {liveness : GatewayLiveness} {r : Reading}
    {failed : Bool} (h : (deriveHealth setup liveness r failed).isCurrentlyWorking = true) :
    failed = false ∧ deriveHealth setup liveness r failed = healthByLiveness setup liveness r := by
  unfold deriveHealth at h ⊢
  dsimp only at h ⊢
  split_ifs at h ⊢ with hfailed hmissing
  · cases h
  · cases h
  · exact ⟨by simpa using hfailed, rfl⟩

/-- Only a verified listener makes a present success. -/
theorem healthByLiveness_working {setup : TrackingSetup} {liveness : GatewayLiveness} {r : Reading}
    (h : (healthByLiveness setup liveness r).isCurrentlyWorking = true) : liveness = .verified := by
  unfold healthByLiveness at h
  split at h
  · split_ifs at h <;> cases h
  · rw [idleOrWaiting_not_working] at h
    cases h
  · rfl

theorem healthByLiveness_verified {setup : TrackingSetup} {liveness : GatewayLiveness} {r : Reading}
    (h : healthByLiveness setup liveness r = .verifiedAndActive) :
    0 < r.total ∧ r.workingNow = r.total := by
  have hverified : liveness = .verified := healthByLiveness_working (by rw [h]; rfl)
  subst hverified
  unfold healthByLiveness at h
  dsimp only at h
  split_ifs at h with hall
  · exact hall
  · have hidle := idleOrWaiting_not_working setup r
    rw [h] at hidle
    cases hidle

theorem healthWithoutEvidence_not_working (setup : TrackingSetup) (liveness : GatewayLiveness) :
    (healthWithoutEvidence setup liveness).isCurrentlyWorking = false := by
  unfold healthWithoutEvidence
  split <;> first | rfl | (split_ifs <;> rfl)

/-- When all providers of a reading work and no failure is newer, everything the claim needs is there. -/
theorem verified_of_reading {env : TrackEnv} {db : TrackDb} {now appliedAt : Str}
    {setup : TrackingSetup} (happlied : setup.appliedAt = some appliedAt)
    (hfailure : env.failureIsNewer setup (env.read db now appliedAt setup) = false)
    (htotal : 0 < (env.read db now appliedAt setup).total)
    (hall : (env.read db now appliedAt setup).workingNow = (env.read db now appliedAt setup).total) :
    Verified env db now setup := by
  refine ⟨?_, ?_, fun failed => failure_answered happlied hfailure⟩
  · intro hnone
    obtain ⟨f, hf⟩ := List.exists_mem_of_length_pos htotal
    have hmem := providerId_mem hf
    rw [hnone] at hmem
    cases hmem
  · intro p hp
    obtain ⟨f, hf, rfl⟩ := exists_read hp
    have hworks := List.countP_eq_length.1 hall f hf
    exact read_working happlied hf hworks

/-! ## The refresh -/

theorem appliedAt_of_checkedFrom {setup : TrackingSetup} {appliedAt : Str}
    (h : setup.checkedFrom = some appliedAt) : setup.appliedAt = some appliedAt := by
  unfold TrackingSetup.checkedFrom at h
  split_ifs at h
  exact h

/-- What an attempt that reports a present success has found. -/
theorem refreshOnce_working {env : TrackEnv} {db db' : TrackDb} {now : Str}
    {setup setup' : TrackingSetup} {liveness : GatewayLiveness} {mayWrite : Bool}
    {report : TrackingStatusReport}
    (h : env.refreshOnce db now setup liveness mayWrite = .ok (report, db', setup'))
    (hworking : report.current.isCurrentlyWorking = true) :
    liveness = .verified ∧ (report.current = .verifiedAndActive → Verified env db now setup) := by
  unfold TrackEnv.refreshOnce at h
  split at h
  · obtain ⟨⟨db₁, setup₁⟩, -, hreport⟩ := bind_eq_ok.1 h
    obtain ⟨rfl, -⟩ := Prod.mk.inj (Except.ok.inj hreport)
    rw [healthWithoutEvidence_not_working] at hworking
    cases hworking
  · rename_i appliedAt hchecked
    have happlied := appliedAt_of_checkedFrom hchecked
    obtain ⟨⟨db₁, setup₁⟩, -, hreport⟩ := bind_eq_ok.1 h
    obtain ⟨rfl, -⟩ := Prod.mk.inj (Except.ok.inj hreport)
    obtain ⟨hfailed, heq⟩ := deriveHealth_working hworking
    rw [heq] at hworking
    refine ⟨healthByLiveness_working hworking, ?_⟩
    intro hactive
    have hactive' : healthByLiveness _ liveness _ = .verifiedAndActive := heq.symm.trans hactive
    obtain ⟨htotal, hall⟩ := healthByLiveness_verified hactive'
    exact verified_of_reading happlied hfailed htotal hall

/-- What the attempts that are left find: the row they judge is the copy at hand or one they re-read. -/
theorem attempts_working {env : TrackEnv} {view : Nat → View} {liveness : GatewayLiveness} {n i : Nat}
    {setup setup' : TrackingSetup} {report : TrackingStatusReport} {db' : TrackDb}
    (h : env.attempts view liveness n i setup = .ok (report, db', setup'))
    (hworking : report.current.isCurrentlyWorking = true) :
    liveness = .verified ∧ (report.current = .verifiedAndActive →
      ∃ j row, i ≤ j ∧ (row = setup ∨ ∃ k ≤ j, (view k).db.row = some row) ∧
        Verified env (view j).db (view j).now row) := by
  induction n generalizing i setup with
  | zero =>
      obtain ⟨hverified, hactive⟩ := refreshOnce_working h hworking
      refine ⟨hverified, fun hreport => ⟨i, _, le_rfl, ?_, hactive hreport⟩⟩
      cases hget : (view i).db.getSetup setup.id with
      | none => exact Or.inl rfl
      | some row => exact Or.inr ⟨i, le_rfl, (Option.filter_eq_some_iff.1 hget).1⟩
  | succ n ih =>
      unfold TrackEnv.attempts at h
      split at h
      · split at h
        · cases h
        · rename_i fresh hget
          obtain ⟨hverified, hactive⟩ := ih h
          refine ⟨hverified, fun hreport => ?_⟩
          obtain ⟨j, row, hj, hrow, hfound⟩ := hactive hreport
          refine ⟨j, row, (Nat.le_succ i).trans hj, Or.inr ?_, hfound⟩
          rcases hrow with rfl | hrow
          · exact ⟨i + 1, hj, (Option.filter_eq_some_iff.1 hget).1⟩
          · exact hrow
      · obtain ⟨hverified, hactive⟩ := refreshOnce_working h hworking
        exact ⟨hverified, fun hreport => ⟨i, setup, le_rfl, Or.inl rfl, hactive hreport⟩⟩

def openai : Str := "openai".toList

/-- A calendar in which the times at hand are fresh, and instants are read off as lengths. -/
def plainEnv : TrackEnv where
  minusSeconds _ secs := if secs < 0 then "2026-07-24T12:05:00Z".toList else "2026-07-24T06:00:00Z".toList
  parse t := some t.length
  providerForHost host := if host = "api.openai.com".toList then some openai else none

def openaiPlan : PlanSummary := { PlanSummary.empty with providers := [openai], applyCompleted := true }

def appliedSetup : TrackingSetup :=
  { newRow "p1".toList .awaitingFirstRequest 1 1 4 "2026-07-24T11:00:00Z".toList with
    planSummary := some openaiPlan
    appliedAt := some "2026-07-24T11:00:00Z".toList }

def observedDb : TrackDb where
  row := some appliedSetup
  routes := [⟨openai, openai, none, true⟩]
  links := [⟨"p1".toList, openai⟩]
  events := [⟨5, "p1".toList, true, "api.openai.com".toList, "2026-07-24T11:59:00Z".toList⟩]

def noon : Str := "2026-07-24T12:00:00Z".toList

def noonView (_ : Nat) : View := ⟨observedDb, "2026-07-24T12:00:00Z".toList⟩

end Tethra.Tracking
