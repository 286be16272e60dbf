import Tethra.Gateway.LinkSlots

set_option autoImplicit false

/-! # The provider manifests (`provider-manifests/*.toml`)

The manifests are compiled into the binary, so the variables that a link without `--var` writes are
those of this table. The origins and the usage shape are not read by the link writer. -/

namespace Tethra.Gateway

/-- The `[gateway]` sections, under their provider ids. -/
def manifestSections : List (Str × GatewaySection) :=
  [("anthropic".toList, ⟨["ANTHROPIC_BASE_URL".toList], []⟩),
   ("azure-openai".toList, ⟨["AZURE_OPENAI_ENDPOINT".toList], []⟩),
   ("cerebras".toList, ⟨["CEREBRAS_BASE_URL".toList], []⟩),
   ("cohere".toList, ⟨["CO_API_URL".toList], []⟩),
   ("fireworks".toList, ⟨["FIREWORKS_BASE_URL".toList], []⟩),
   ("google-gemini".toList, ⟨["GOOGLE_GEMINI_BASE_URL".toList], []⟩),
   ("groq".toList, ⟨["GROQ_BASE_URL".toList], []⟩),
   ("langsmith".toList, ⟨["LANGSMITH_ENDPOINT".toList, "LANGCHAIN_ENDPOINT".toList], []⟩),
   ("openai".toList, ⟨["OPENAI_BASE_URL".toList, "OPENAI_API_BASE".toList], "/v1".toList⟩),
   ("perplexity".toList, ⟨["PERPLEXITY_BASE_URL".toList], []⟩),
   ("replicate".toList, ⟨["REPLICATE_BASE_URL".toList], []⟩),
   ("supabase".toList, ⟨["SUPABASE_URL".toList], []⟩),
   ("together".toList, ⟨["TOGETHER_BASE_URL".toList], "/v1".toList⟩)]

/-- The section of a provider, if its manifest has one. -/
def manifestSection (providerId : Str) : Option GatewaySection := manifestSections.lookup providerId

instance (vars : List Str) : Decidable (LinkVars vars) :=
  decidable_of_iff ((∀ v ∈ vars, Core.EnvFile.validKey v = true) ∧ vars.Nodup ∧
      ∀ v ∈ vars, isNoProxy v = false)
    ⟨fun h => ⟨h.1, h.2.1, h.2.2⟩, fun h => ⟨h.valid, h.nodup, h.proxyFree⟩⟩

theorem linkVars_manifestSections :
    (manifestSections.all fun e => decide (LinkVars e.2.envVars)) = true := by
  decide

/-- What a link without an override writes are proper link variables. -/
theorem linkVars_of_manifest {env : Env} (henv : env.gateway = manifestSection) {providerId : Str}
    {vars : List Str} (h : linkVars env providerId none = .ok vars) : LinkVars vars := by
  unfold linkVars at h
  simp only [henv] at h
  cases hs : manifestSection providerId with
  | none => simp [hs] at h
  | some s =>
      have hvars : vars = s.envVars := by
        cases hd : s.envVars with
        | nil => simp [hs, hd] at h
        | cons v vs => simpa [hs, hd] using h.symm
      have hmem : (providerId, s) ∈ manifestSections := by
        obtain ⟨l₁, l₂, heq, -⟩ := List.lookup_eq_some_iff.1 hs
        rw [heq]
        simp
      rw [hvars]
      exact of_decide_eq_true (List.all_eq_true.1 linkVars_manifestSections _ hmem)

/-- An override is a proper link variable when it is a variable name other than `NO_PROXY`. -/
theorem linkVars_of_override {env : Env} {providerId var : Str} {vars : List Str}
    (h : linkVars env providerId (some var) = .ok vars)
    (hvalid : Core.EnvFile.validKey (Text.trim var) = true)
    (hproxy : isNoProxy (Text.trim var) = false) : LinkVars vars := by
  unfold linkVars at h
  simp only at h
  split at h
  · cases h
  · obtain rfl := Except.ok.inj h
    exact ⟨by simpa using hvalid, List.nodup_singleton _, by simpa using hproxy⟩

end Tethra.Gateway
