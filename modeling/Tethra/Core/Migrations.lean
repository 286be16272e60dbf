import Tethra.Core.Error

set_option autoImplicit false

/-! # The migration scripts (`core/src/db.rs`)

A script is a list of statements, and here a statement keeps the names of what it makes and of what it
needs to be there: they decide whether it can be run, and whether it can be run again. No script but the
fourteenth can be run on a schema that has it already (`runScript_again`). -/

namespace Tethra.Migrations

inductive Statement where
  | createTable (table : String) (columns : List String)
  | dropTable (table : String)
  | createIndex (index table : String) (columns : List String)
  | createIndexIfNotExists (index table : String) (columns : List String)
  | addColumn (table column : String)
  | update (table : String) (columns : List String)
  /-- `INSERT INTO table (columns) SELECT ... FROM source`. -/
  | insertFrom (table : String) (columns : List String) (source : String)

structure Table where
  name : String
  columns : List String
  deriving DecidableEq

structure Index where
  name : String
  table : String
  deriving DecidableEq

structure Schema where
  tables : List Table
  indexes : List Index
  deriving DecidableEq

def Schema.empty : Schema := ⟨[], []⟩

/-- Tables and indexes share their names. -/
def Schema.named (s : Schema) (name : String) : Bool :=
  s.tables.any (·.name == name) || s.indexes.any (·.name == name)

/-- The schema has the table with the columns. -/
def Schema.has (s : Schema) (table : String) (columns : List String) : Bool :=
  s.tables.any fun t => t.name == table && columns.all t.columns.contains

def Schema.createIndex (s : Schema) (index table : String) (columns : List String) : Option Schema :=
  if s.has table columns then some { s with indexes := s.indexes ++ [⟨index, table⟩] } else none

/-- Run a statement; none is an error of the database. -/
def Statement.run (s : Schema) : Statement → Option Schema
  | .createTable table columns =>
      if s.named table then none else some { s with tables := s.tables ++ [⟨table, columns⟩] }
  | .dropTable table =>
      if s.has table [] then
        some ⟨s.tables.filter (·.name != table), s.indexes.filter (·.table != table)⟩
      else none
  | .createIndex index table columns =>
      if s.named index then none else s.createIndex index table columns
  | .createIndexIfNotExists index table columns =>
      if s.indexes.any (·.name == index) then some s
      else if s.named index then none
      else s.createIndex index table columns
  | .addColumn table column =>
      if s.has table [] && !s.has table [column] then
        some { s with tables := s.tables.map fun t =>
          if t.name == table then { t with columns := t.columns ++ [column] } else t }
      else none
  | .update table columns => if s.has table columns then some s else none
  | .insertFrom table columns source =>
      if s.has table columns && s.has source [] then some s else none

/-- `execute_batch`. -/
def runScript (sql : List Statement) (s : Schema) : Option Schema := sql.foldlM Statement.run s

structure Migration where
  version : Nat
  sql : List Statement

/-! ## The scripts -/

/-- Initial schema. -/
def migration1 : Migration where
  version := 1
  sql :=
    [.createTable "vault_meta" ["key", "value"],
      .createTable "projects" ["id", "name", "description", "notes", "environments", "archived",
          "created_at", "updated_at", "wrapped_project_key", "key_wrap_mode",
          "project_kdf_params", "project_salt"],
      .createTable "project_repos" ["project_id", "path"],
      .createTable "credentials" ["id", "project_id", "provider", "name", "environment",
          "credential_type", "ciphertext", "linked_credential_id", "fingerprint", "masked_value",
          "created_at", "updated_at", "key_created_at", "expires_at", "last_validated_at",
          "last_used_at", "docs_url", "notes", "manually_disabled", "revoked", "marked_invalid",
          "possibly_exposed", "exposure_note"],
      .createIndex "idx_credentials_fingerprint" "credentials" ["fingerprint"],
      .createIndex "idx_credentials_project" "credentials" ["project_id"],
      .createTable "audit_events" ["id", "at", "event", "project_id", "credential_id", "detail"]]

/-- Scanning, alerts, and documentation watches. -/
def migration2 : Migration where
  version := 2
  sql :=
    [.createTable "scan_suppressions" ["id", "suppression_key", "rule", "path", "reason",
          "created_at"],
      .createTable "alerts" ["id", "kind", "severity", "dedup_key", "title", "detail", "evidence",
          "confidence", "recommended_action", "project_id", "credential_id", "created_at",
          "observed_at", "acknowledged_at", "resolved_at"],
      .createIndex "idx_alerts_open_dedup" "alerts" ["dedup_key"],
      .createIndex "idx_alerts_open" "alerts" ["resolved_at"],
      .createTable "doc_watches" ["id", "provider", "url", "etag", "last_modified",
          "content_hash", "last_checked_at", "last_changed_at", "last_status", "created_at"]]

/-- Provider integrations: usage, pricing, permissions, activity, injection. -/
def migration3 : Migration where
  version := 3
  sql :=
    [.addColumn "projects" "monthly_budget_micros",
      .addColumn "credentials" "monthly_budget_micros",
      .createTable "provider_connections" ["provider", "admin_credential_id", "last_synced_at",
          "last_status", "detail"],
      .createTable "usage_snapshots" ["id", "credential_id", "project_id", "provider", "model",
          "window_start", "window_end", "request_count", "input_tokens", "output_tokens",
          "total_tokens", "credits", "reported_cost_micros", "estimated_cost_micros", "currency",
          "source", "attribution", "collected_at"],
      .createIndex "idx_usage_credential" "usage_snapshots" ["credential_id"],
      .createIndex "idx_usage_project" "usage_snapshots" ["project_id"],
      .createIndex "idx_usage_window" "usage_snapshots" ["window_start"],
      .createTable "pricing_overrides" ["id", "provider", "model", "unit",
          "input_price_per_m_micros", "output_price_per_m_micros", "currency", "note",
          "created_at"],
      .createTable "credential_permissions" ["credential_id", "raw_scopes", "normalized",
          "source", "precision", "confidence", "synced_at"],
      .createTable "activity_events" ["id", "at", "source", "kind", "credential_id", "project_id",
          "detail", "measurements"],
      .createTable "credential_env_mappings" ["project_id", "credential_id", "env_var"],
      .createTable "process_sessions" ["id", "project_id", "started_at", "ended_at", "command",
          "injected_vars", "exit_code"]]

/-- Openai admin connection, sync checkpoints, provider key mapping. -/
def migration4 : Migration where
  version := 4
  sql :=
    [.addColumn "provider_connections" "admin_key_ciphertext",
      .addColumn "provider_connections" "admin_key_masked",
      .addColumn "provider_connections" "org_label",
      .addColumn "provider_connections" "connected_at",
      .addColumn "provider_connections" "last_success_at",
      .addColumn "provider_connections" "last_failure_at",
      .addColumn "provider_connections" "last_error",
      .addColumn "usage_snapshots" "provider_account_id",
      .addColumn "usage_snapshots" "provider_project_id",
      .addColumn "usage_snapshots" "provider_api_key_id",
      .addColumn "usage_snapshots" "line_item",
      .createIndex "idx_usage_provider_key" "usage_snapshots" ["provider_api_key_id"],
      .createTable "provider_key_links" ["provider", "provider_api_key_id", "credential_id",
          "source", "evidence", "created_at"],
      .createTable "provider_side_projects" ["provider", "project_id", "name", "status",
          "synced_at"],
      .createTable "provider_side_keys" ["provider", "api_key_id", "provider_project_id", "name",
          "redacted_value", "created_at", "last_used_at", "synced_at"],
      .createTable "provider_sync_state" ["provider", "kind", "window_start", "window_end",
          "synced_at"]]

/-- Env governance, credential versions, destinations, sync plans. -/
def migration5 : Migration where
  version := 5
  sql :=
    [.createTable "credential_versions" ["credential_id", "version", "ciphertext", "masked_value",
          "fingerprint", "created_at", "reason"],
      .addColumn "credentials" "value_version",
      .createTable "env_exports" ["id", "project_id", "path", "var_names", "content_hash",
          "created_at", "expires_at", "cleaned_at"],
      .createTable "destinations" ["id", "kind", "name", "config", "auth_ciphertext",
          "auth_masked", "created_at", "updated_at", "last_verified_at", "last_error"],
      .createTable "credential_destinations" ["credential_id", "destination_id", "secret_name",
          "environment", "last_synced_version", "last_synced_at", "last_verified_at", "drift"],
      .createTable "sync_plans" ["id", "credential_id", "from_version", "to_version",
          "created_at", "status", "note"],
      .createTable "sync_plan_steps" ["plan_id", "destination_id", "secret_name", "environment",
          "action", "status", "detail", "executed_at", "verified_at", "rolled_back_at"]]

/-- Rotation workflows, access grants, provider expiry, schedules. -/
def migration6 : Migration where
  version := 6
  sql :=
    [.addColumn "credentials" "provider_expires_at",
      .createTable "rotations" ["id", "credential_id", "provider", "state", "mode", "note",
          "created_at", "updated_at", "approved_at", "old_version", "new_version", "sync_plan_id",
          "grace_minutes", "grace_ends_at", "old_provider_key_id", "new_provider_key_id",
          "provider_project_id", "new_value_validated", "old_disabled_at", "old_revoked_at",
          "last_error", "manual_instructions"],
      .createIndex "idx_rotations_credential" "rotations" ["credential_id"],
      .createTable "rotation_events" ["id", "rotation_id", "at", "from_state", "to_state",
          "detail"],
      .createTable "rotation_schedules" ["credential_id", "interval_days", "next_due_at",
          "enabled", "paused_reason", "created_at", "last_completed_rotation_id"],
      .addColumn "process_sessions" "pid",
      .addColumn "process_sessions" "grant_id",
      .createTable "access_grants" ["id", "project_id", "label", "credential_ids", "expires_at",
          "max_launches", "launches_used", "max_duration_secs", "budget_warn_micros",
          "created_at", "revoked_at"]]

/-- Observability: units, first-seen, doc history, repo state, channels. -/
def migration7 : Migration where
  version := 7
  sql :=
    [.addColumn "usage_snapshots" "quantity",
      .addColumn "usage_snapshots" "unit",
      .addColumn "provider_side_keys" "first_seen_at",
      .addColumn "provider_side_projects" "first_seen_at",
      .update "provider_side_keys" ["first_seen_at"],
      .update "provider_side_projects" ["first_seen_at"],
      .createTable "doc_watch_history" ["id", "url", "provider", "at", "outcome", "detail"],
      .createIndex "idx_doc_history_url" "doc_watch_history" ["url"],
      .createTable "repo_scan_state" ["repo_path", "last_scanned_commit", "last_scan_at",
          "last_findings"],
      .createTable "notification_channels" ["id", "name", "kind", "url_ciphertext", "url_masked",
          "min_severity", "enabled", "created_at", "last_delivery_at", "last_error"],
      .createTable "notification_deliveries" ["channel_id", "alert_id", "delivered_severity",
          "delivered_at"]]

/-- Versioned pricing records. -/
def migration8 : Migration where
  version := 8
  sql :=
    [.createTable "pricing_records" ["id", "provider", "model", "unit",
          "input_price_per_m_micros", "cached_input_price_per_m_micros",
          "output_price_per_m_micros", "batch_input_price_per_m_micros",
          "batch_output_price_per_m_micros", "per_request_micros", "currency", "source",
          "effective_from", "last_verified", "origin", "version", "note", "created_at"],
      .insertFrom "pricing_records" ["id", "provider", "model", "unit",
          "input_price_per_m_micros", "output_price_per_m_micros", "currency", "source",
          "effective_from", "last_verified", "origin", "version", "note",
          "created_at"] "pricing_overrides",
      .dropTable "pricing_overrides"]

/-- Project templates and local stack-detection preferences. -/
def migration9 : Migration where
  version := 9
  sql :=
    [.createTable "project_templates" ["project_id", "template_id", "applied_at"],
      .createTable "stack_preferences" ["repo_path", "template_id", "decision", "decided_at"]]

/-- Provider-account metadata (official endpoints only). -/
def migration10 : Migration where
  version := 10
  sql :=
    [.addColumn "provider_connections" "account_id",
      .addColumn "provider_connections" "account_email",
      .addColumn "provider_connections" "account_name",
      .addColumn "provider_connections" "account_plan",
      .addColumn "provider_connections" "account_source",
      .addColumn "provider_connections" "account_synced_at"]

/-- Process start identity for safe termination. -/
def migration11 : Migration where
  version := 11
  sql :=
    [.addColumn "process_sessions" "proc_identity"]

/-- Runtime api observability (metadata-only). -/
def migration12 : Migration where
  version := 12
  sql :=
    [.createTable "observation_sessions" ["id", "project_id", "mode", "source", "status",
          "interrupt_reason", "command", "credential_names", "runtime_detected", "trust_level",
          "partial_coverage", "proxy_port", "pid", "proc_identity", "started_at", "ended_at",
          "exit_code"],
      .createIndex "idx_obs_sessions_project" "observation_sessions" ["project_id"],
      .createIndex "idx_obs_sessions_status" "observation_sessions" ["status"],
      .createTable "observed_api_services" ["id", "host", "provider_id", "source",
          "classification", "is_internal", "user_provider", "user_api_name", "user_notes",
          "confirmed", "first_seen_at", "last_seen_at"],
      .createTable "observed_endpoints" ["id", "service_id", "method", "path_template",
          "template_confidence", "first_seen_at", "last_seen_at"],
      .createTable "runtime_request_events" ["id", "session_id", "project_id", "service_id",
          "endpoint_id", "at", "host", "port", "method", "path_template", "template_confidence",
          "status_code", "status_class", "outcome", "latency_ms", "request_bytes",
          "response_bytes", "req_content_kind", "resp_content_kind", "had_authorization",
          "protocol", "observation_source", "transport_error", "previously_known",
          "credential_id", "attribution_confidence", "credential_version", "used_current_version"],
      .createIndex "idx_rre_session" "runtime_request_events" ["session_id"],
      .createIndex "idx_rre_service_at" "runtime_request_events" ["service_id", "at"],
      .createIndex "idx_rre_at" "runtime_request_events" ["at"],
      .createIndex "idx_rre_project" "runtime_request_events" ["project_id"],
      .createIndex "idx_rre_credential" "runtime_request_events" ["credential_id"],
      .createTable "runtime_metric_buckets" ["id", "granularity", "bucket_start", "project_id",
          "service_id", "endpoint_id", "credential_id", "credential_version", "total", "c2xx",
          "c3xx", "c4xx", "c5xx", "auth_errors", "forbidden", "rate_limited", "server_errors",
          "transport_errors", "tls_errors", "request_bytes", "response_bytes", "lat_le_1",
          "lat_le_2", "lat_le_5", "lat_le_10", "lat_le_25", "lat_le_50", "lat_le_100",
          "lat_le_250", "lat_le_500", "lat_le_1000", "lat_le_2500", "lat_le_5000", "lat_le_10000",
          "lat_gt_10000", "first_at", "last_at"],
      .createIndex "idx_rmb_lookup" "runtime_metric_buckets" ["service_id", "granularity",
          "bucket_start"],
      .createIndex "idx_rmb_project" "runtime_metric_buckets" ["project_id"],
      .createTable "credential_traffic_attributions" ["session_id", "credential_id", "service_id",
          "request_count", "confidence", "evidence", "credential_version", "used_current_version",
          "updated_at"],
      .createTable "observation_compatibility_results" ["session_id", "check_name", "status",
          "detail", "at"],
      .createTable "observe_certificate_state" ["id", "ca_cert_pem", "key_ciphertext",
          "fingerprint_sha256", "serial", "created_at", "not_after", "system_trust",
          "system_trust_at"],
      .createTable "observe_internal_allowlist" ["project_id", "host", "port", "note",
          "created_at"]]

/-- Local gateway (loopback reverse gateway, metadata-only). -/
def migration13 : Migration where
  version := 13
  sql :=
    [.createTable "gateway_config" ["id", "enabled", "port", "match_while_locked",
          "service_version", "usage_event_retention_days", "usage_daily_retention_days",
          "created_at", "updated_at"],
      .createTable "gateway_routes" ["route_prefix", "provider_id", "enabled", "custom_origin",
          "custom_origin_port", "custom_origin_mac", "custom_origin_consent_at", "created_at",
          "updated_at"],
      .createTable "gateway_project_links" ["link_slug", "project_id", "route_prefix", "env_path",
          "prior_env_json", "created_at"],
      .createIndex "idx_gpl_project" "gateway_project_links" ["project_id"],
      .createTable "gateway_usage_events" ["id", "event_id", "at", "route_prefix", "provider_id",
          "project_id", "model", "input_tokens", "output_tokens", "total_tokens",
          "cached_input_tokens", "usage_available", "usage_state", "estimated_cost_micros",
          "was_streamed"],
      .createIndex "idx_gue_at" "gateway_usage_events" ["at"],
      .createIndex "idx_gue_project" "gateway_usage_events" ["project_id"],
      .createTable "gateway_usage_daily" ["day", "provider_id", "project_id", "model",
          "request_count", "usage_event_count", "input_tokens", "output_tokens",
          "cached_input_tokens", "estimated_cost_micros", "updated_at"],
      .createTable "gateway_route_counters" ["route_prefix", "day", "counter", "count"],
      .addColumn "runtime_request_events" "attribution_method"]

/-- Index gateway_usage_events.event_id (FK-scan cost). -/
def migration14 : Migration where
  version := 14
  sql :=
    [.createIndexIfNotExists "idx_gue_event" "gateway_usage_events" ["event_id"]]

/-- Tracking_setups (zero-friction tracking state machine). -/
def migration15 : Migration where
  version := 15
  sql :=
    [.createTable "tracking_setups" ["id", "project_id", "folder_path", "state", "detection_json",
          "plan_summary_json", "applied_at", "first_traffic_at", "last_transition_at",
          "attention_reason"],
      .createIndexIfNotExists "idx_tracking_setups_project" "tracking_setups" ["project_id"]]

/-- Tracking verification sessions (current health vs historical verification). -/
def migration16 : Migration where
  version := 16
  sql :=
    [.addColumn "tracking_setups" "verification_session",
      .addColumn "tracking_setups" "config_generation",
      .addColumn "tracking_setups" "first_verified_at",
      .addColumn "tracking_setups" "attention_at",
      .update "tracking_setups" ["first_verified_at"],
      .update "tracking_setups" ["attention_at"],
      .createIndexIfNotExists "idx_rre_project_source_at" "runtime_request_events" ["project_id",
          "observation_source", "at"]]

/-- Approved route origins (repository content is not authorization). -/
def migration17 : Migration where
  version := 17
  sql :=
    [.createTable "tracking_approved_origins" ["origin", "provider_id", "approved_at", "mac"]]

/-- Insertion-ordered verification watermark (timestamps are untrusted input). -/
def migration18 : Migration where
  version := 18
  sql :=
    [.addColumn "tracking_setups" "applied_event_rowid"]

/-- Tracking setup row version (compare-and-swap, not last-writer-wins). -/
def migration19 : Migration where
  version := 19
  sql :=
    [.addColumn "tracking_setups" "row_version"]

/-- Projects-first folder linkage, detected credential stubs, unknown API labels. -/
def migration20 : Migration where
  version := 20
  sql :=
    [.createTable "project_folder_links" ["project_id", "folder_path", "tracking_enabled",
          "linked_at", "last_scan_at", "scan_fingerprint", "applied_generation",
          "last_activity_refresh_at", "row_version"],
      .createTable "detected_credentials" ["id", "project_id", "env_var", "suggested_provider",
          "suggested_name", "suggested_environment", "source_kind", "source_file", "status",
          "resolved_credential_id", "first_detected_at", "last_detected_at", "row_version"],
      .createIndex "idx_detcred_project" "detected_credentials" ["project_id"],
      .createIndex "idx_detcred_resolved" "detected_credentials" ["resolved_credential_id"],
      .createIndexIfNotExists "idx_gue_project_at" "gateway_usage_events" ["project_id", "at"],
      .createIndexIfNotExists "idx_rre_project_at" "runtime_request_events" ["project_id", "at"]]

def migrations : List Migration :=
  [migration1, migration2, migration3, migration4, migration5, migration6, migration7, migration8,
    migration9, migration10, migration11, migration12, migration13, migration14, migration15,
    migration16, migration17, migration18, migration19, migration20]

/-- The schema version that this build reads and writes. -/
def currentSchemaVersion : Nat := (migrations.getLast?.map Migration.version).getD 0

/-- The result of the migrations 1 to `v`, once each. -/
def schemaAt : Nat → Option Schema
  | 0 => some Schema.empty
  | v + 1 => do
      let m ← migrations[v]?
      runScript m.sql (← schemaAt v)

theorem versions_eq : migrations.map Migration.version = List.range' 1 20 := rfl

theorem getElem?_version {i : Nat} {m : Migration} (h : migrations[i]? = some m) :
    m.version = i + 1 := by
  have hi : i < 20 := (List.getElem?_eq_some_iff.1 h).1
  have hv : (migrations.map Migration.version)[i]? = some m.version := by rw [List.getElem?_map, h]; rfl
  rw [versions_eq, List.getElem?_range' hi] at hv
  have heq := Option.some.inj hv
  omega

/-- Every script applies to the schema before it. -/
theorem schemaAt_next {i : Nat} {m : Migration} (h : migrations[i]? = some m) :
    schemaAt (i + 1) = (schemaAt i).bind (runScript m.sql) := by
  rw [schemaAt, h]
  rfl

theorem le_of_schemaAt {v : Nat} {s : Schema} (h : schemaAt v = some s) : v ≤ 20 := by
  cases v with
  | zero => exact Nat.zero_le _
  | succ v =>
      obtain ⟨m, hm, -⟩ := Option.bind_eq_some_iff.1 h
      exact (List.getElem?_eq_some_iff.1 hm).1

/-! ## Running a script again -/

/-- A statement that changes nothing when it is run again. -/
def Statement.rerunnable : Statement → Bool
  | .createIndexIfNotExists _ _ _ => true
  | _ => false

def Migration.rerunnable (m : Migration) : Bool := m.sql.all Statement.rerunnable

example : (migrations.filter Migration.rerunnable).map Migration.version = [14] := by decide

/-- Each script that is left runs on what those before it have made, and then none of those that have run
    runs again, unless it is rerunnable. -/
def runsOnce (done : List Migration) (s : Schema) : List Migration → Bool
  | [] => true
  | m :: rest =>
      match runScript m.sql s with
      | none => false
      | some t =>
          (done ++ [m]).all (fun d => d.rerunnable || (runScript d.sql t).isNone) &&
            runsOnce (done ++ [m]) t rest

theorem runsOnce_spec {done rest : List Migration} {s : Schema} (hall : migrations = done ++ rest)
    (hs : schemaAt done.length = some s) (h : runsOnce done s rest = true) {v : Nat}
    (hlow : done.length < v) (hhigh : v ≤ 20) :
    ∃ t, schemaAt v = some t ∧
      ∀ m ∈ migrations.take v, m.rerunnable = false → runScript m.sql t = none := by
  induction rest generalizing done s with
  | nil =>
      have hlen := congrArg List.length hall
      rw [List.append_nil] at hlen
      exact absurd (hlow.trans_le (hhigh.trans hlen.le)) (lt_irrefl _)
  | cons m rest ih =>
      have hm : migrations[done.length]? = some m := by
        rw [hall]
        simp
      have hall' : migrations = (done ++ [m]) ++ rest := by rw [hall, List.append_assoc, List.singleton_append]
      have hlen : (done ++ [m]).length = done.length + 1 := List.length_append
      unfold runsOnce at h
      cases hrun : runScript m.sql s with
      | none =>
          rw [hrun] at h
          cases h
      | some t =>
          rw [hrun] at h
          dsimp only at h
          rw [Bool.and_eq_true, List.all_eq_true] at h
          have hnext : schemaAt (done ++ [m]).length = some t := by
            rw [hlen, schemaAt_next hm, hs, Option.bind_some, hrun]
          by_cases hv : v = (done ++ [m]).length
          · refine ⟨t, by rw [hv, hnext], fun d hd hrerun => ?_⟩
            rw [hv, hall', List.take_left] at hd
            simpa [hrerun] using h.1 d hd
          · exact ih hall' hnext h.2 (by omega)

theorem runsOnce_migrations : runsOnce [] .empty migrations = true := by decide +kernel

theorem schemaAt_isSome {v : Nat} (h : v ≤ 20) : (schemaAt v).isSome := by
  rcases Nat.eq_zero_or_pos v with rfl | hpos
  · rfl
  · obtain ⟨s, hs, -⟩ := runsOnce_spec rfl rfl runsOnce_migrations hpos h
    exact Option.isSome_of_eq_some hs

/-- A script that is not rerunnable fails on every schema that has it. -/
theorem runScript_again : ∀ v ≤ 20, ∀ m ∈ migrations, m.version ≤ v → m.rerunnable = false →
    (schemaAt v).bind (runScript m.sql) = none := by
  intro v hv m hm hversion hrerun
  obtain ⟨i, hi⟩ := List.mem_iff_getElem?.1 hm
  have hplace := getElem?_version hi
  have hpos : 0 < v := by omega
  obtain ⟨s, hs, hfails⟩ := runsOnce_spec rfl rfl runsOnce_migrations hpos hv
  rw [hs, Option.bind_some]
  refine hfails m (List.mem_of_getElem? (i := i) ?_) hrerun
  rw [List.getElem?_take_of_lt (by omega), hi]

end Tethra.Migrations
