import Tethra.Lib.Url
import Tethra.Tracking.Consent

set_option autoImplicit false

/-! # Detection of a project's providers (`tracking/src/detect.rs`)

A folder's `.env` files, manifests and lockfiles, and the vault's credentials, are evidence of providers.
A provider with a fixed origin is set up without a question unless a base-URL variable of the project
already points elsewhere (`Customises`). A value that `isGatewayLinkValue` takes for a link of the program
itself does not count. It looks for the host after the last `@`, where clients end the authority at a
backslash (`attacker_before_backslash`); no other value escapes (`repointed_iff`). -/

namespace Tethra.Detect

open Text Url Core.EnvFile Gateway Tracking

/-! ## The manifests -/

structure ManifestGateway where
  origins : List Str
  envVars : List Str
  deriving DecidableEq, Repr

/-- What detection reads of a provider's manifest. -/
structure ProviderManifest where
  id : Str
  name : Str
  envVars : List Str
  gateway : Option ManifestGateway
  deriving DecidableEq, Repr

def ProviderManifest.origins (m : ProviderManifest) : List Str :=
  (m.gateway.map ManifestGateway.origins).getD []

def ProviderManifest.baseUrlVars (m : ProviderManifest) : List Str :=
  (m.gateway.map ManifestGateway.envVars).getD []

def manifest (id name : String) (envVars : List String) (origins baseUrlVars : List String) :
    ProviderManifest :=
  ⟨id.toList, name.toList, envVars.map String.toList,
    if baseUrlVars = [] then none else some ⟨origins.map String.toList, baseUrlVars.map String.toList⟩⟩

/-- `provider-manifests/*.toml`. A manifest without a `[gateway]` section has no base-URL variables. -/
def manifests : List ProviderManifest :=
  [manifest "anthropic" "Anthropic" ["ANTHROPIC_API_KEY", "ANTHROPIC_ADMIN_KEY"]
    ["https://api.anthropic.com"] ["ANTHROPIC_BASE_URL"],
   manifest "aws-bedrock" "Amazon Bedrock"
    ["AWS_BEARER_TOKEN_BEDROCK", "AWS_SECRET_ACCESS_KEY", "AWS_SESSION_TOKEN"] [] [],
   manifest "azure-openai" "Azure OpenAI" ["AZURE_OPENAI_API_KEY", "AZURE_OPENAI_AD_TOKEN"]
    [] ["AZURE_OPENAI_ENDPOINT"],
   manifest "cerebras" "Cerebras" ["CEREBRAS_API_KEY"] ["https://api.cerebras.ai"] ["CEREBRAS_BASE_URL"],
   manifest "cohere" "Cohere" ["CO_API_KEY", "COHERE_API_KEY"] ["https://api.cohere.com"] ["CO_API_URL"],
   manifest "deepseek" "DeepSeek" ["DEEPSEEK_API_KEY"] [] [],
   manifest "fireworks" "Fireworks AI" ["FIREWORKS_API_KEY"]
    ["https://api.fireworks.ai"] ["FIREWORKS_BASE_URL"],
   manifest "github" "GitHub" ["GITHUB_TOKEN", "GH_TOKEN", "GH_ENTERPRISE_TOKEN", "GITHUB_ENTERPRISE_TOKEN"]
    [] [],
   manifest "google-gemini" "Google Gemini" ["GEMINI_API_KEY", "GOOGLE_API_KEY"]
    ["https://generativelanguage.googleapis.com"] ["GOOGLE_GEMINI_BASE_URL"],
   manifest "groq" "Groq" ["GROQ_API_KEY"] ["https://api.groq.com"] ["GROQ_BASE_URL"],
   manifest "huggingface" "Hugging Face" ["HF_TOKEN", "HUGGING_FACE_HUB_TOKEN"] [] [],
   manifest "langsmith" "LangSmith" ["LANGSMITH_API_KEY", "LANGCHAIN_API_KEY"]
    ["https://api.smith.langchain.com"] ["LANGSMITH_ENDPOINT", "LANGCHAIN_ENDPOINT"],
   manifest "mistral" "Mistral AI" ["MISTRAL_API_KEY"] [] [],
   manifest "openai" "OpenAI" ["OPENAI_API_KEY", "OPENAI_ADMIN_KEY"]
    ["https://api.openai.com"] ["OPENAI_BASE_URL", "OPENAI_API_BASE"],
   manifest "openrouter" "OpenRouter" ["OPENROUTER_API_KEY"] [] [],
   manifest "perplexity" "Perplexity" ["PERPLEXITY_API_KEY"]
    ["https://api.perplexity.ai"] ["PERPLEXITY_BASE_URL"],
   manifest "replicate" "Replicate" ["REPLICATE_API_TOKEN"]
    ["https://api.replicate.com"] ["REPLICATE_BASE_URL"],
   manifest "stripe" "Stripe" ["STRIPE_SECRET_KEY", "STRIPE_API_KEY", "STRIPE_RESTRICTED_KEY"] [] [],
   manifest "supabase" "Supabase"
    ["SUPABASE_SERVICE_ROLE_KEY", "SUPABASE_SECRET_KEY", "SUPABASE_ACCESS_TOKEN"] [] ["SUPABASE_URL"],
   manifest "together" "Together AI" ["TOGETHER_API_KEY"]
    ["https://api.together.xyz"] ["TOGETHER_BASE_URL"],
   manifest "xai" "xAI" ["XAI_API_KEY", "XAI_MANAGEMENT_KEY", "XAI_MANAGEMENT_API_KEY"] [] []]

/-- `providers::find`. -/
def findManifest (id : Str) : Option ProviderManifest :=
  manifests.find? fun m => eqIgnoreAsciiCase m.id (trim id)

/-- `base_url_vars`: the manifests that declare a base-URL variable. -/
def baseUrlVars (key : Str) : List ProviderManifest :=
  manifests.flatMap fun m => (m.baseUrlVars.filter (· = key)).map fun _ => m

/-! ## Judging a base-URL value -/

/-- `str::split_once` at a text. -/
def splitOnceText (p : Str) : Str → Option (Str × Str)
  | [] => none
  | c :: cs =>
      match stripPrefix p (c :: cs) with
      | some rest => some ([], rest)
      | none => (splitOnceText p cs).map fun r => (c :: r.1, r.2)

/-- Everything between `scheme://` and the first `/`, `?` or `#`. -/
def authorityOf (value : Str) : Option Str :=
  match splitOnceText "://".toList value with
  | none => none
  | some (scheme, rest) =>
      if !isScheme scheme then none else some (rest.takeWhile fun c => !isDelimiter c)

/-- The bare authority of a base URL, for the origin policy. -/
def originAuthority (value : Str) : Str :=
  if !"https://".toList.isPrefixOf value then value
  else
    match authorityOf value with
    | some authority => "https://".toList ++ authority
    | none => value

def loopback : Str := "127.0.0.1".toList

theorem isSchemeChar_loopback : ∀ c ∈ loopback, isSchemeChar c = true :=
  List.all_eq_true.1 (by decide +kernel)

/-- Whether the program itself wrote the value: `http://127.0.0.1:<port>/p/<slug>/…`. -/
def isGatewayLinkValue (value : Str) : Bool :=
  match authorityOf (trim value) with
  | none => false
  | some authority =>
      match splitOnce ':' (afterUserinfo authority) with
      | some (host, port) => host = loopback && !port.isEmpty && port.all isAsciiDigit
      | none => false

/-- `trim_end_matches('/')` and `to_ascii_lowercase`. -/
def bare (value : Str) : Str := (value.rdropWhile (· == '/')).map Char.toLower

/-- `matches_manifest`. -/
def matchesManifest (m : ProviderManifest) (value : Str) : Bool :=
  (m.origins.map bare).any fun o => bare value = o || (o ++ ['/']).isPrefixOf (bare value)

/-! ## Signals -/

inductive Evidence where
  | secretEnvVarName (var file : Str)
  | sdkDependency (dep manifest : Str)
  | baseUrlVar (var file : Str)
  | assignedCredential (credentialName : Str)
  | lockfileMention (file : Str)
  | configFile (file : Str)
  deriving DecidableEq, Repr

structure Signals where
  s1SecretEnv : List Evidence
  s2SdkDep : List Evidence
  s3BaseUrl : List Evidence
  s4Credential : List Evidence
  s5Mention : List Evidence
  credentialNames : List Str
  targetEnvFiles : List Str
  inferredOrigins : List Str
  rejectedOrigins : Nat
  existingBaseUrls : List Str
  deriving DecidableEq, Repr

def Signals.empty : Signals := ⟨[], [], [], [], [], [], [], [], 0, []⟩

/-- The signals of each provider; one that is not in the map has the default. -/
abbrev SignalMap : Type := Str → Signals

/-- `signals.entry(id).or_default()`, and a change of it. -/
def SignalMap.modify (signals : SignalMap) (id : Str) (f : Signals → Signals) : SignalMap :=
  Function.update signals id (f (signals id))

/-- Functions of other modules: `scanner::is_placeholder_value` and `str::to_lowercase`. -/
structure Reader where
  isPlaceholder : Str → Bool
  lowercase : Str → Str

inductive EnvFileClass where
  | values
  | template
  deriving DecidableEq, Repr

/-- A discovered `.env` file with what `read_bounded` gives: nothing out of bounds or not UTF-8. -/
structure EnvFile where
  relPath : Str
  fileClass : EnvFileClass
  content : Option Str

inductive StackConfidence where
  | low
  | medium
  | high
  deriving DecidableEq, Repr

structure StackSignal where
  file : Str
  evidence : Str
  provider : Option Str
  confidence : StackConfidence

/-- What detection reads: the bounded discovery, the signals of `stackdetect`, the lockfiles by name, and
the provider and name of the project's credentials. -/
structure Folder where
  envFiles : List EnvFile
  stackSignals : List StackSignal
  lockfile : Str → Option Str
  credentials : List (Str × Str)

def EnvFile.entries (file : EnvFile) : List EnvEntry :=
  if file.fileClass ≠ .values then []
  else
    match file.content with
    | none => []
    | some content => (EnvDocument.parse content).entries

/-- S1: a known secret variable with a value that is no placeholder. -/
def secretSignal (r : Reader) (file : Str) (entry : EnvEntry) (signals : SignalMap)
    (m : ProviderManifest) : SignalMap :=
  if m.envVars.any (eqIgnoreAsciiCase · entry.key) && !r.isPlaceholder entry.value then
    signals.modify m.id fun sig => { sig with
      s1SecretEnv := sig.s1SecretEnv ++ [.secretEnvVarName entry.key file]
      targetEnvFiles := sig.targetEnvFiles.insert file }
  else signals

def hostUrl (host : Str) (port : Nat) : Str :=
  "https://".toList ++ host ++ ':' :: Nat.toDigits 10 port

/-- What a base-URL value says about its provider. -/
def Signals.readValue (r : Reader) (m : ProviderManifest) (value : Str) (sig : Signals) : Signals :=
  let value := trim value
  if m.origins ≠ [] then
    if value ≠ [] && !isGatewayLinkValue value then
      if !matchesManifest m value then
        match validateOrigin r.lowercase (originAuthority value) with
        | .ok (host, port) =>
            { sig with existingBaseUrls := sig.existingBaseUrls.insert (hostUrl host port) }
        -- The value is refused as an origin, and is a customisation all the same.
        | .error _ => { sig with rejectedOrigins := sig.rejectedOrigins + 1 }
      else sig
    else sig
  else if value = [] || isGatewayLinkValue value then sig
  else
    match validateOrigin r.lowercase (originAuthority value) with
    | .ok (host, port) =>
        { sig with inferredOrigins := sig.inferredOrigins.insert (hostUrl host port) }
    | .error _ => { sig with rejectedOrigins := sig.rejectedOrigins + 1 }

/-- S3: a base-URL variable. -/
def baseUrlSignal (r : Reader) (file : Str) (entry : EnvEntry) (signals : SignalMap)
    (m : ProviderManifest) : SignalMap :=
  signals.modify m.id fun sig =>
    Signals.readValue r m entry.value { sig with
      s3BaseUrl := sig.s3BaseUrl ++ [.baseUrlVar entry.key file]
      targetEnvFiles := sig.targetEnvFiles.insert file }

def entrySignals (r : Reader) (file : Str) (signals : SignalMap) (entry : EnvEntry) : SignalMap :=
  let signals := manifests.foldl (secretSignal r file entry) signals
  if isGatewayLinkValue entry.value then signals
  else (baseUrlVars entry.key).foldl (baseUrlSignal r file entry) signals

def fileSignals (r : Reader) (signals : SignalMap) (file : EnvFile) : SignalMap :=
  file.entries.foldl (entrySignals r file.relPath) signals

def StackSignal.isManifestDep (s : StackSignal) : Bool :=
  ["package.json".toList, "requirements.txt".toList, "pyproject.toml".toList].contains s.file

def StackSignal.isEnvFile (s : StackSignal) : Bool := ".env".toList.isPrefixOf s.file

def stackSignal (signals : SignalMap) (s : StackSignal) : SignalMap :=
  match s.provider with
  | none => signals
  | some provider =>
      if s.isManifestDep && s.confidence = .high then
        signals.modify provider fun sig => { sig with
          s2SdkDep := sig.s2SdkDep ++
            [.sdkDependency ((s.evidence.splitOn '"')[1]?.getD s.evidence) s.file] }
      else if s.isEnvFile then signals
      else
        signals.modify provider fun sig => { sig with
          s5Mention := sig.s5Mention ++ [.configFile s.file] }

/-- `LOCKFILES`. -/
def lockfiles : List Str := ["package-lock.json".toList, "pnpm-lock.yaml".toList, "yarn.lock".toList]

/-- `LOCKFILE_NEEDLES`. -/
def lockfileNeedles : List (Str × Str) :=
  [("openai", "\"openai\""), ("anthropic", "\"@anthropic-ai/"), ("anthropic", "\"anthropic\""),
   ("supabase", "\"@supabase/"), ("stripe", "\"stripe\""), ("github", "\"@octokit/"),
   ("groq", "\"groq-sdk\""), ("groq", "\"groq\""), ("together", "\"together-ai\""),
   ("together", "\"together\""), ("cerebras", "\"@cerebras/"), ("cerebras", "\"cerebras-cloud-sdk\""),
   ("cohere", "\"cohere-ai\""), ("cohere", "\"cohere\""), ("replicate", "\"replicate\""),
   ("langsmith", "\"langsmith\""), ("mistral", "\"@mistralai/"), ("mistral", "\"mistralai\""),
   ("google-gemini", "\"@google/genai\""), ("google-gemini", "\"google-genai\""),
   ("huggingface", "\"@huggingface/"), ("huggingface", "\"huggingface-hub\"")].map
    fun (provider, needle) => (provider.toList, needle.toList)

def needleSignal (lockfile content : Str) (signals : SignalMap) (needle : Str × Str) : SignalMap :=
  if needle.2 <:+: content then
    signals.modify needle.1 fun sig =>
      if sig.s5Mention.contains (.lockfileMention lockfile) then sig
      else { sig with s5Mention := sig.s5Mention ++ [.lockfileMention lockfile] }
  else signals

def lockfileSignal (folder : Folder) (signals : SignalMap) (lockfile : Str) : SignalMap :=
  match folder.lockfile lockfile with
  | none => signals
  | some content => lockfileNeedles.foldl (needleSignal lockfile content) signals

/-- `providers::normalize`. -/
def normalizeProvider (r : Reader) (provider : Str) : Str :=
  match findManifest provider with
  | some m => m.id
  | none => r.lowercase (trim provider)

def credentialSignal (r : Reader) (signals : SignalMap) (row : Str × Str) : SignalMap :=
  let provider := normalizeProvider r row.1
  if provider = [] then signals
  else
    signals.modify provider fun sig => { sig with
      s4Credential := sig.s4Credential ++ [.assignedCredential row.2]
      credentialNames := sig.credentialNames ++ [row.2] }

def gatherSignals (r : Reader) (folder : Folder) : SignalMap :=
  let signals := folder.envFiles.foldl (fileSignals r) fun _ => Signals.empty
  let signals := folder.stackSignals.foldl stackSignal signals
  let signals := lockfiles.foldl (lockfileSignal folder) signals
  folder.credentials.foldl (credentialSignal r) signals

/-! ## Fusion -/

/-- Without the confidence. -/
structure Detection where
  providerId : Str
  displayName : Str
  configurability : Configurability
  evidence : List Evidence
  credentialCandidates : List Str
  targetEnvFiles : List Str
  limitations : List Str
  deriving DecidableEq, Repr

def Signals.evidence (sig : Signals) : List Evidence :=
  sig.s1SecretEnv ++ sig.s2SdkDep ++ sig.s4Credential ++ sig.s3BaseUrl ++ sig.s5Mention

/-- A provider with a fixed origin: automatic, unless the project points its variable elsewhere. -/
def fixedOrigin (m : ProviderManifest) (sig : Signals) : Configurability × List Str :=
  match sig.existingBaseUrls with
  | [inferred] =>
      (.needsOriginConfirm inferred,
        ["This project already sets ".toList ++ m.name ++ "'s base URL to ".toList ++ inferred ++
          ". Tethra will not silently re-point it at ".toList ++ m.origins.headD [] ++
          ": approve ".toList ++ inferred ++ (" to keep sending traffic there through the gateway, or remove the variable " ++
            "to use the provider directly.").toList])
  | _ :: _ :: _ =>
      (.needsOriginInput,
        ["This project sets ".toList ++ m.name ++
          "'s base URL to more than one destination; pick one before tracking it.".toList])
  | [] =>
      if 0 < sig.rejectedOrigins then
        (.needsOriginInput,
          ["This project already customises ".toList ++ m.name ++ ("'s base URL to a destination Tethra " ++
            "cannot route to safely, so it was left alone.").toList])
      else (.automatic, [])

/-- A provider whose origin is the project's own. -/
def customOrigin (sig : Signals) : Configurability × List Str :=
  let refused := if 0 < sig.rejectedOrigins then
    [Nat.toDigits 10 sig.rejectedOrigins ++ (" base-URL value(s) found in this project failed origin " ++
      "validation and were not used.").toList] else []
  match sig.inferredOrigins with
  | [inferred] => (.needsOriginConfirm inferred, refused)
  | [] => (.needsOriginInput, refused)
  | _ :: _ :: _ =>
      (.needsOriginInput, refused ++ ["Multiple conflicting project URLs were found; pick one.".toList])

def configure (id : Str) (sig : Signals) : Configurability × List Str :=
  match findManifest id with
  | none => (.unsupported, [])
  | some m =>
      if m.gateway = none then
        (.unsupported, ["The ".toList ++ m.name ++
          (" SDK does not read a base-URL environment variable, so Tethra cannot observe it this way yet. " ++
            "Everything else still works.").toList])
      else if m.origins ≠ [] then fixedOrigin m sig
      else customOrigin sig

/-- The detection of one provider; none without evidence. -/
def fuse (id : Str) (sig : Signals) : Option Detection :=
  if sig.evidence = [] then none
  else
    let (configurability, limitations) := configure id sig
    some ⟨id, ((findManifest id).map ProviderManifest.name).getD id, configurability, sig.evidence,
      sig.credentialNames, sig.targetEnvFiles, limitations⟩

/-- `detect`, as the report on each provider. -/
def detect (r : Reader) (folder : Folder) (id : Str) : Option Detection :=
  fuse id (gatherSignals r folder id)

/-! ## What the passes leave in the signals -/

section

variable {P : Signals → Prop} {R : Prop}

/-- A pass adds what its steps add. -/
theorem foldl_iff {X : Type} {Q : X → Prop} {f : SignalMap → X → SignalMap} {xs : List X} {id : Str}
    (h : ∀ x ∈ xs, ∀ signals, P (f signals x id) ↔ P (signals id) ∨ Q x) (signals : SignalMap) :
    P (xs.foldl f signals id) ↔ P (signals id) ∨ ∃ x ∈ xs, Q x := by
  induction xs generalizing signals with
  | nil => simp
  | cons x xs ih =>
      rw [List.foldl_cons, ih fun y hy => h y (List.mem_cons_of_mem x hy), h x List.mem_cons_self]
      simp [or_assoc]

theorem foldl_same {X : Type} {f : SignalMap → X → SignalMap} {id : Str}
    (h : ∀ x signals, P (f signals x id) ↔ P (signals id)) (xs : List X) (signals : SignalMap) :
    P (xs.foldl f signals id) ↔ P (signals id) := by
  induction xs generalizing signals with
  | nil => rfl
  | cons x xs ih => rw [List.foldl_cons, ih, h]

theorem modify_iff {f : Signals → Signals} {i p : Str} (h : i = p → ∀ sig, P (f sig) ↔ P sig ∨ R)
    (signals : SignalMap) : P (signals.modify i f p) ↔ P (signals p) ∨ i = p ∧ R := by
  unfold SignalMap.modify
  by_cases hid : p = i
  · subst hid
    simp [h rfl]
  · rw [Function.update_of_ne hid]
    simp [Ne.symm hid]

theorem modify_same {f : Signals → Signals} (h : ∀ sig, P (f sig) ↔ P sig) (signals : SignalMap)
    (id p : Str) : P (signals.modify id f p) ↔ P (signals p) := by
  have := modify_iff (P := P) (R := False) (f := f) (i := id) (p := p)
    (fun _ sig => by simp [h]) signals
  simpa using this

end

/-- The project points the provider's variable elsewhere. -/
def Signals.Customised (sig : Signals) : Prop := sig.existingBaseUrls ≠ [] ∨ 0 < sig.rejectedOrigins

def Signals.Evident (sig : Signals) : Prop := sig.evidence ≠ []

/-- A value counts as a customisation: neither empty, nor a link of the program, nor the manifest's. -/
def Customises (m : ProviderManifest) (value : Str) : Prop :=
  trim value ≠ [] ∧ isGatewayLinkValue value = false ∧ matchesManifest m (trim value) = false

theorem trim_trim (t : Str) : trim (trim t) = trim t :=
  trim_of_noWs (noLeadingWs_trim t) (noTrailingWs_trim t)

theorem customised_readValue {m : ProviderManifest} (hfixed : m.origins ≠ []) (r : Reader) (value : Str)
    (sig : Signals) :
    (Signals.readValue r m value sig).Customised ↔ sig.Customised ∨ Customises m value := by
  have hlink : isGatewayLinkValue (trim value) = isGatewayLinkValue value := by
    simp only [isGatewayLinkValue, trim_trim]
  unfold Signals.readValue Customises
  simp only [hfixed, ne_eq, not_false_eq_true, if_true, hlink]
  by_cases hempty : trim value = []
  · simp [hempty]
  cases hown : isGatewayLinkValue value with
  | true => simp
  | false =>
      cases hmatch : matchesManifest m (trim value) with
      | true => simp [hempty]
      | false =>
          cases validateOrigin r.lowercase (originAuthority (trim value)) with
          | ok origin => 
              have hne : sig.existingBaseUrls.insert (hostUrl origin.1 origin.2) ≠ [] :=
                List.ne_nil_of_mem (List.mem_insert_self ..)
              simp [Signals.Customised, hempty, hne]
          | error _ => simp [Signals.Customised, hempty]

theorem evidence_readValue (r : Reader) (m : ProviderManifest) (value : Str) (sig : Signals) :
    (Signals.readValue r m value sig).evidence = sig.evidence := by
  unfold Signals.readValue
  simp only
  split_ifs
  all_goals first | rfl | (split <;> rfl)

theorem manifest_eq_of_id {m p : ProviderManifest} (hm : m ∈ manifests) (hp : p ∈ manifests)
    (h : m.id = p.id) : m = p :=
  List.inj_on_of_nodup_map (by decide) hm hp h

/-- The ids are spelled plainly, so they are told apart without regard to case and white space. -/
theorem plainId {p : ProviderManifest} (hp : p ∈ manifests) :
    trim p.id = p.id ∧ p.id.map toAsciiLower = p.id :=
  (by decide +kernel : ∀ p ∈ manifests, trim p.id = p.id ∧ p.id.map toAsciiLower = p.id) p hp

theorem findManifest_id {p : ProviderManifest} (hp : p ∈ manifests) : findManifest p.id = some p := by
  rw [findManifest, (plainId hp).1]
  cases hfind : manifests.find? fun m => eqIgnoreAsciiCase m.id p.id with
  | none => simpa [eqIgnoreAsciiCase] using List.find?_eq_none.1 hfind p hp
  | some m =>
      have hm := List.mem_of_find?_eq_some hfind
      have hid : m.id.map toAsciiLower = p.id.map toAsciiLower := by
        simpa [eqIgnoreAsciiCase] using List.find?_some hfind
      rw [(plainId hm).2, (plainId hp).2] at hid
      rw [manifest_eq_of_id hm hp hid]

theorem mem_baseUrlVars {m : ProviderManifest} {key : Str} :
    m ∈ baseUrlVars key ↔ m ∈ manifests ∧ key ∈ m.baseUrlVars := by
  unfold baseUrlVars
  simp only [List.mem_flatMap, List.mem_map, List.mem_filter, decide_eq_true_eq]
  constructor
  · rintro ⟨_, hm, _, ⟨hkey, rfl⟩, rfl⟩
    exact ⟨hm, hkey⟩
  · rintro ⟨hm, hkey⟩
    exact ⟨m, hm, key, ⟨hkey, rfl⟩, rfl⟩

/-! ### Customisations -/

section

variable (r : Reader) {p : ProviderManifest}

theorem customised_secretSignal (file : Str) (entry : EnvEntry) (m : ProviderManifest)
    (signals : SignalMap) (id : Str) :
    (secretSignal r file entry signals m id).Customised ↔ (signals id).Customised := by
  unfold secretSignal
  split_ifs
  · exact modify_same (P := Signals.Customised) (fun _ => by simp [Signals.Customised]) signals m.id id
  · rfl

/-- An entry customises the provider when it sets the provider's variable to a customisation. -/
theorem customised_entrySignals (hp : p ∈ manifests) (hfixed : p.origins ≠ []) (file : Str)
    (entry : EnvEntry) (signals : SignalMap) :
    (entrySignals r file signals entry p.id).Customised ↔
      (signals p.id).Customised ∨ entry.key ∈ p.baseUrlVars ∧ Customises p entry.value := by
  have hsecret := foldl_same (P := Signals.Customised)
    (fun m signals => customised_secretSignal r file entry m signals p.id) manifests signals
  unfold entrySignals
  split_ifs with hown
  · -- A link of the program is no signal, and no customisation either.
    rw [hsecret]
    simp [Customises, hown]
  · rw [foldl_iff (P := Signals.Customised) (Q := fun m => m.id = p.id ∧ Customises p entry.value), hsecret]
    · refine or_congr_right ⟨?_, fun ⟨hkey, hvalue⟩ => ⟨p, mem_baseUrlVars.2 ⟨hp, hkey⟩, rfl, hvalue⟩⟩
      rintro ⟨m, hm, hid, hvalue⟩
      obtain ⟨hmem, hkey⟩ := mem_baseUrlVars.1 hm
      exact ⟨manifest_eq_of_id hmem hp hid ▸ hkey, hvalue⟩
    · intro m hm signals
      refine modify_iff (P := Signals.Customised) (fun hid sig => ?_) signals
      obtain rfl := manifest_eq_of_id (mem_baseUrlVars.1 hm).1 hp hid
      exact customised_readValue hfixed r entry.value _

theorem customised_stackSignal (s : StackSignal) (signals : SignalMap) (id : Str) :
    (stackSignal signals s id).Customised ↔ (signals id).Customised := by
  unfold stackSignal
  cases s.provider with
  | none => rfl
  | some provider =>
      simp only
      split_ifs
      · exact modify_same (P := Signals.Customised) (fun _ => by simp [Signals.Customised]) signals
          provider id
      · rfl
      · exact modify_same (P := Signals.Customised) (fun _ => by simp [Signals.Customised]) signals
          provider id

theorem customised_lockfileSignal (folder : Folder) (lockfile : Str) (signals : SignalMap) (id : Str) :
    (lockfileSignal folder signals lockfile id).Customised ↔ (signals id).Customised := by
  unfold lockfileSignal
  cases folder.lockfile lockfile with
  | none => rfl
  | some content =>
      refine foldl_same (P := Signals.Customised) (fun needle s => ?_) _ _
      unfold needleSignal
      split_ifs
      · refine modify_same (P := Signals.Customised) (fun sig => ?_) s needle.1 id
        split_ifs <;> rfl
      · rfl

theorem customised_credentialSignal (row : Str × Str) (signals : SignalMap) (id : Str) :
    (credentialSignal r signals row id).Customised ↔ (signals id).Customised := by
  unfold credentialSignal
  split_ifs
  · rfl
  · exact modify_same (P := Signals.Customised) (fun _ => by simp [Signals.Customised]) signals _ id

theorem customised_fileSignals (hp : p ∈ manifests) (hfixed : p.origins ≠ []) (file : EnvFile)
    (signals : SignalMap) :
    (fileSignals r signals file p.id).Customised ↔ (signals p.id).Customised ∨
      ∃ entry ∈ file.entries, entry.key ∈ p.baseUrlVars ∧ Customises p entry.value :=
  foldl_iff (fun entry _ signals => customised_entrySignals r hp hfixed file.relPath entry signals) signals

/-- The value is set for the provider's base-URL variable, in an env file that is read. -/
def Folder.Sets (folder : Folder) (m : ProviderManifest) (value : Str) : Prop :=
  ∃ file ∈ folder.envFiles, ∃ entry ∈ file.entries, entry.key ∈ m.baseUrlVars ∧ entry.value = value

theorem customised_gatherSignals (hp : p ∈ manifests) (hfixed : p.origins ≠ []) (folder : Folder) :
    (gatherSignals r folder p.id).Customised ↔ ∃ value, folder.Sets p value ∧ Customises p value := by
  unfold gatherSignals
  rw [foldl_same fun row signals => customised_credentialSignal r row signals p.id,
    foldl_same fun lockfile signals => customised_lockfileSignal folder lockfile signals p.id,
    foldl_same fun s signals => customised_stackSignal s signals p.id,
    foldl_iff fun file _ signals => customised_fileSignals r hp hfixed file signals]
  have hempty : ¬Signals.empty.Customised := by simp [Signals.Customised, Signals.empty]
  rw [or_iff_right hempty]
  constructor
  · rintro ⟨file, hfile, entry, hentry, hkey, hvalue⟩
    exact ⟨_, ⟨file, hfile, entry, hentry, hkey, rfl⟩, hvalue⟩
  · rintro ⟨_, ⟨file, hfile, entry, hentry, hkey, rfl⟩, hvalue⟩
    exact ⟨file, hfile, entry, hentry, hkey, hvalue⟩

/-! ### Evidence -/

/-- The entry names one of the provider's secrets. -/
def ProviderManifest.Names (r : Reader) (m : ProviderManifest) (entry : EnvEntry) : Prop :=
  m.envVars.any (eqIgnoreAsciiCase · entry.key) = true ∧ r.isPlaceholder entry.value = false

def StackSignal.Counts (s : StackSignal) (id : Str) : Prop :=
  s.provider = some id ∧
    (s.isManifestDep = true ∧ s.confidence = .high ∨ s.isEnvFile = false)

/-- Something in the folder or in the vault is evidence of the provider. -/
def Folder.Mentioned (r : Reader) (folder : Folder) (m : ProviderManifest) : Prop :=
  (∃ file ∈ folder.envFiles, ∃ entry ∈ file.entries,
      m.Names r entry ∨ entry.key ∈ m.baseUrlVars ∧ isGatewayLinkValue entry.value = false) ∨
    (∃ s ∈ folder.stackSignals, s.Counts m.id) ∨
    (∃ lockfile ∈ lockfiles, ∃ content, folder.lockfile lockfile = some content ∧
      ∃ needle ∈ lockfileNeedles, needle.1 = m.id ∧ needle.2 <:+: content) ∨
    ∃ row ∈ folder.credentials, normalizeProvider r row.1 = m.id

theorem evident_secretSignal (file : Str) (entry : EnvEntry) (m : ProviderManifest)
    (signals : SignalMap) (id : Str) :
    (secretSignal r file entry signals m id).Evident ↔
      (signals id).Evident ∨ m.id = id ∧ m.Names r entry := by
  unfold secretSignal
  split_ifs with h
  · have hnames : m.Names r entry := by simpa [ProviderManifest.Names] using h
    rw [modify_iff (P := Signals.Evident) (R := True) fun _ sig => by
      simp [Signals.Evident, Signals.evidence]]
    simp [hnames]
  · have hnot : ¬m.Names r entry := fun hnames => h (by simpa [ProviderManifest.Names] using hnames)
    simp [hnot]

/-- An entry is evidence when it names a secret, or sets the base-URL variable to something that is not a
link of the program. -/
theorem evident_entrySignals (hp : p ∈ manifests) (file : Str) (entry : EnvEntry) (signals : SignalMap) :
    (entrySignals r file signals entry p.id).Evident ↔ (signals p.id).Evident ∨
      (p.Names r entry ∨ entry.key ∈ p.baseUrlVars ∧ isGatewayLinkValue entry.value = false) := by
  have hsecret : ((manifests.foldl (secretSignal r file entry) signals) p.id).Evident ↔
      (signals p.id).Evident ∨ p.Names r entry := by
    rw [foldl_iff fun m _ signals => evident_secretSignal r file entry m signals p.id]
    refine or_congr_right ⟨?_, fun h => ⟨p, hp, rfl, h⟩⟩
    rintro ⟨m, hm, hid, h⟩
    exact manifest_eq_of_id hm hp hid ▸ h
  unfold entrySignals
  split_ifs with hown
  · rw [hsecret]
    simp [hown]
  · rw [foldl_iff (P := Signals.Evident) (Q := fun m => m.id = p.id),
      hsecret, or_assoc]
    · refine or_congr_right (or_congr_right ⟨?_, fun h => ⟨p, mem_baseUrlVars.2 ⟨hp, h.1⟩, rfl⟩⟩)
      rintro ⟨m, hm, hid⟩
      obtain ⟨hmem, hkey⟩ := mem_baseUrlVars.1 hm
      exact ⟨manifest_eq_of_id hmem hp hid ▸ hkey, by simpa using hown⟩
    · intro m hm signals
      have := modify_iff (P := Signals.Evident) (R := True) (i := m.id) (p := p.id)
        (f := fun sig => Signals.readValue r m entry.value { sig with
          s3BaseUrl := sig.s3BaseUrl ++ [.baseUrlVar entry.key file]
          targetEnvFiles := sig.targetEnvFiles.insert file })
        (fun _ sig => by
          rw [Signals.Evident, evidence_readValue]
          simp [Signals.Evident, Signals.evidence]) signals
      simpa [baseUrlSignal] using this

theorem evident_fileSignals (hp : p ∈ manifests) (file : EnvFile) (signals : SignalMap) :
    (fileSignals r signals file p.id).Evident ↔ (signals p.id).Evident ∨ ∃ entry ∈ file.entries,
      (p.Names r entry ∨ entry.key ∈ p.baseUrlVars ∧ isGatewayLinkValue entry.value = false) :=
  foldl_iff (fun entry _ signals => evident_entrySignals r hp file.relPath entry signals) signals

theorem evident_stackSignal (s : StackSignal) (signals : SignalMap) (id : Str) :
    (stackSignal signals s id).Evident ↔ (signals id).Evident ∨ s.Counts id := by
  unfold stackSignal StackSignal.Counts
  cases s.provider with
  | none => simp
  | some provider =>
      simp only [Option.some.injEq]
      split_ifs with hdep henv
      · rw [modify_iff (P := Signals.Evident) (R := True) fun _ sig => by
          simp [Signals.Evident, Signals.evidence]]
        simp only [Bool.and_eq_true, decide_eq_true_eq] at hdep
        simp [hdep]
      · simp only [Bool.and_eq_true, decide_eq_true_eq] at hdep
        simp [hdep, henv]
      · rw [modify_iff (P := Signals.Evident) (R := True) fun _ sig => by
          simp [Signals.Evident, Signals.evidence]]
        simp [henv]

theorem evident_lockfileSignal (folder : Folder) (lockfile : Str) (signals : SignalMap) (id : Str) :
    (lockfileSignal folder signals lockfile id).Evident ↔ (signals id).Evident ∨
      ∃ content, folder.lockfile lockfile = some content ∧
        ∃ needle ∈ lockfileNeedles, needle.1 = id ∧ needle.2 <:+: content := by
  unfold lockfileSignal
  cases folder.lockfile lockfile with
  | none => simp
  | some content =>
      simp only [Option.some.injEq, exists_eq_left']
      refine foldl_iff (P := Signals.Evident) (fun needle _ signals => ?_) _
      unfold needleSignal
      split_ifs with hin
      · rw [modify_iff (P := Signals.Evident) (R := True)]
        · simp [hin]
        · intro _ sig
          split_ifs with hmem
          · have hne : sig.s5Mention ≠ [] := by
              rintro hnil
              simp [hnil] at hmem
            simp [Signals.Evident, Signals.evidence, hne]
          · simp [Signals.Evident, Signals.evidence]
      · simp [hin]

theorem evident_credentialSignal (row : Str × Str) (signals : SignalMap) {id : Str} (hid : id ≠ []) :
    (credentialSignal r signals row id).Evident ↔
      (signals id).Evident ∨ normalizeProvider r row.1 = id := by
  unfold credentialSignal
  split_ifs with hempty
  · simp [hempty, Ne.symm hid]
  · rw [modify_iff (P := Signals.Evident) (R := True) fun _ sig => by
      simp [Signals.Evident, Signals.evidence]]
    simp

theorem evident_gatherSignals (hp : p ∈ manifests) (folder : Folder) :
    (gatherSignals r folder p.id).Evident ↔ folder.Mentioned r p := by
  have hid : p.id ≠ [] := (by decide +kernel : ∀ p ∈ manifests, p.id ≠ []) p hp
  have hempty : ¬Signals.empty.Evident := by simp [Signals.Evident, Signals.evidence, Signals.empty]
  unfold gatherSignals
  rw [foldl_iff fun row _ signals => evident_credentialSignal r row signals hid,
    foldl_iff fun lockfile _ signals => evident_lockfileSignal folder lockfile signals p.id,
    foldl_iff fun s _ signals => evident_stackSignal s signals p.id,
    foldl_iff fun file _ signals => evident_fileSignals r hp file signals,
    or_iff_right hempty, or_assoc, or_assoc]
  rfl

/-! ## The report -/

/-- A provider with a fixed origin is automatic when there is evidence of it and no customisation. -/
theorem detect_automatic_iff (hp : p ∈ manifests) (hfixed : p.origins ≠ []) (folder : Folder) :
    (∃ d, detect r folder p.id = some d ∧ d.configurability = .automatic) ↔
      folder.Mentioned r p ∧ ¬∃ value, folder.Sets p value ∧ Customises p value := by
  rw [← evident_gatherSignals r hp, ← customised_gatherSignals r hp hfixed]
  have hgateway : p.gateway ≠ none := by
    intro hnone
    exact hfixed (by simp [ProviderManifest.origins, hnone])
  unfold detect fuse
  generalize gatherSignals r folder p.id = sig
  simp only [configure, findManifest_id hp, hgateway, if_false, hfixed, ne_eq, not_false_eq_true, if_true]
  unfold Signals.Evident Signals.Customised
  by_cases hevidence : sig.evidence = []
  · simp [hevidence]
  rw [if_neg hevidence]
  simp only [Option.some.injEq, exists_eq_left']
  unfold fixedOrigin
  match sig.existingBaseUrls with
  | [inferred] => simp [hevidence]
  | _ :: _ :: _ => simp [hevidence]
  | [] =>
      split_ifs with hrejected
      · simp [hrejected]
      · simp [hrejected, hevidence]

end

/-! ## What the judgement of a value rests on -/

def ProviderManifest.hosts (m : ProviderManifest) : List Str := m.origins.filterMap rfcHost

/-- An origin `https://<name>`, in lower case and without a slash at its end. -/
def plainOrigin (m : ProviderManifest) (origin : Str) : Bool :=
  match stripPrefix "https://".toList origin with
  | some name => name ≠ [] && name.all isSchemeChar && bare origin = origin && m.hosts.contains name
  | none => false

theorem plainOrigin_manifests : ∀ m ∈ manifests, ∀ origin ∈ m.origins, plainOrigin m origin = true := by
  decide +kernel

theorem splitOnceText_eq_some {p t a b : Str} (h : splitOnceText p t = some (a, b)) :
    t = a ++ (p ++ b) := by
  induction t generalizing a with
  | nil => cases h
  | cons c t ih =>
      rw [splitOnceText] at h
      split at h
      · rename_i rest hrest
        obtain ⟨rfl, rfl⟩ := Prod.mk.inj (Option.some.inj h)
        rw [List.nil_append]
        exact stripPrefix_eq_some.1 hrest
      · obtain ⟨⟨a', b'⟩, hsplit, hab⟩ := Option.map_eq_some_iff.1 h
        obtain ⟨rfl, rfl⟩ := Prod.mk.inj hab
        rw [ih hsplit, List.cons_append]

theorem isSchemeChar_of_isAsciiDigit {c : Char} (h : isAsciiDigit c = true) : isSchemeChar c = true := by
  have hrange : 0x30 ≤ c.toNat ∧ c.toNat ≤ 0x39 := by
    simpa [isAsciiDigit, Char.le_def, UInt32.le_iff_toNat_le] using h
  simp [isSchemeChar, isAsciiAlphanumeric, hrange]

theorem exists_of_authorityOf {value authority : Str} (h : authorityOf value = some authority) :
    ∃ scheme tail, value = scheme ++ ':' :: '/' :: '/' :: (authority ++ tail) ∧ isScheme scheme = true ∧
      (∀ c ∈ authority, isDelimiter c = false) ∧ ∀ c ∈ tail.head?, isDelimiter c = true := by
  unfold authorityOf at h
  cases hsplit : splitOnceText "://".toList value with
  | none =>
      simp only [hsplit] at h
      cases h
  | some r =>
      obtain ⟨scheme, rest⟩ := r
      simp only [hsplit] at h
      split_ifs at h with hscheme
      obtain rfl := Option.some.inj h
      refine ⟨scheme, rest.dropWhile fun c => !isDelimiter c, ?_, by simpa using hscheme, fun c hc => ?_,
        fun c hc => ?_⟩
      · rw [List.takeWhile_append_dropWhile]
        exact splitOnceText_eq_some hsplit
      · simpa using List.mem_takeWhile_imp hc
      · have hstop := List.head?_dropWhile_not (fun c => !isDelimiter c) rest
        simpa [Option.mem_def.1 hc] using hstop

theorem exists_of_isGatewayLinkValue {value : Str} (h : isGatewayLinkValue value = true) :
    ∃ scheme authority tail port, trim value = scheme ++ ':' :: '/' :: '/' :: (authority ++ tail) ∧
      isScheme scheme = true ∧ (∀ c ∈ authority, isDelimiter c = false) ∧
      (∀ c ∈ tail.head?, isDelimiter c = true) ∧ afterUserinfo authority = loopback ++ ':' :: port ∧
      port ≠ [] ∧ ∀ c ∈ port, isAsciiDigit c = true := by
  unfold isGatewayLinkValue at h
  cases hauthority : authorityOf (trim value) with
  | none => simp [hauthority] at h
  | some authority =>
      simp only [hauthority] at h
      cases hsplit : splitOnce ':' (afterUserinfo authority) with
      | none => simp [hsplit] at h
      | some r =>
          obtain ⟨host, port⟩ := r
          simp only [hsplit, Bool.and_eq_true, decide_eq_true_eq, Bool.not_eq_true',
            List.isEmpty_eq_false_iff, List.all_eq_true] at h
          obtain ⟨⟨rfl, hne⟩, hdigits⟩ := h
          obtain ⟨scheme, tail, heq, hscheme, hchars, htail⟩ := exists_of_authorityOf hauthority
          exact ⟨scheme, authority, tail, port, heq, hscheme, hchars, htail,
            (splitOnce_eq_some hsplit).1, hne, hdigits⟩

/-- What a text begins with once its slashes at the end are off, and it is in lower case. -/
theorem exists_of_bare {value origin : Str} (rest : Str) (h : bare value = origin ++ rest)
    (hrest : ∀ c ∈ rest.head?, c = '/') :
    ∃ start tail, value = start ++ tail ∧ start.map Char.toLower = origin ∧
      ∀ c ∈ tail.head?, isDelimiter c = true := by
  obtain ⟨start, tail, heq, hstart, htail⟩ := List.map_eq_append_iff.1 h
  refine ⟨start, tail ++ value.rtakeWhile (· == '/'), ?_, hstart, fun c hc => ?_⟩
  · rw [← List.append_assoc, ← heq, List.rdropWhile_append_rtakeWhile]
  · obtain rfl : c = '/' := by
      cases tail with
      | nil => simpa using List.mem_rtakeWhile_imp (List.mem_of_head? hc)
      | cons d tail =>
          have hd : d.toLower = '/' := hrest _ (by simp [← htail])
          obtain rfl : d = c := by simpa using hc
          exact eq_of_toLower_eq hd (by decide)
    decide +kernel

/-- A value under a manifest's origin is spelled like it, in any case of the letters. -/
theorem exists_of_matchesManifest {m : ProviderManifest} (hm : m ∈ manifests) {value : Str}
    (h : matchesManifest m value = true) :
    ∃ scheme name tail, value = scheme ++ ':' :: '/' :: '/' :: (name ++ tail) ∧
      scheme.map Char.toLower = "https".toList ∧ name.map Char.toLower ∈ m.hosts ∧ name ≠ [] ∧
      (∀ c ∈ name, isSchemeChar c = true) ∧ ∀ c ∈ tail.head?, isDelimiter c = true := by
  unfold matchesManifest at h
  obtain ⟨_, hmem, hmatch⟩ := List.any_eq_true.1 h
  obtain ⟨origin, horigin, rfl⟩ := List.mem_map.1 hmem
  have hplain := plainOrigin_manifests m hm origin horigin
  unfold plainOrigin at hplain
  cases hname : stripPrefix "https://".toList origin with
  | none =>
      simp only [hname] at hplain
      cases hplain
  | some host =>
      simp only [hname, Bool.and_eq_true, decide_eq_true_eq, List.all_eq_true,
        List.contains_iff_mem] at hplain
      obtain ⟨⟨⟨hne, hchars⟩, hbare⟩, hhost⟩ := hplain
      rw [hbare] at hmatch
      obtain ⟨start, tail, heq, hstart, htail⟩ : ∃ start tail, value = start ++ tail ∧
          start.map Char.toLower = origin ∧ ∀ c ∈ tail.head?, isDelimiter c = true := by
        simp only [Bool.or_eq_true, decide_eq_true_eq, List.isPrefixOf_iff_prefix] at hmatch
        obtain hmatch | ⟨rest, hmatch⟩ := hmatch
        · exact exists_of_bare [] (by simp [hmatch]) (by simp)
        · exact exists_of_bare ('/' :: rest) (by simp [← hmatch]) (by simp)
      have horigin : origin = "https".toList ++ (':' :: '/' :: '/' :: host) := by
        rw [stripPrefix_eq_some.1 hname]
        rfl
      rw [horigin] at hstart
      obtain ⟨scheme, rest, rfl, hscheme, hrest⟩ := List.map_eq_append_iff.1 hstart
      obtain ⟨c₁, rest, rfl, h₁, hrest⟩ := List.map_eq_cons_iff.1 hrest
      obtain ⟨c₂, rest, rfl, h₂, hrest⟩ := List.map_eq_cons_iff.1 hrest
      obtain ⟨c₃, name, rfl, h₃, rfl⟩ := List.map_eq_cons_iff.1 hrest
      obtain rfl := eq_of_toLower_eq h₁ (by decide)
      obtain rfl := eq_of_toLower_eq h₂ (by decide)
      obtain rfl := eq_of_toLower_eq h₃ (by decide)
      refine ⟨scheme, name, tail, by simp [heq], hscheme, hhost, by simpa using hne, fun c hc => ?_, htail⟩
      exact isSchemeChar_of_toLower (hchars _ (List.mem_map_of_mem hc))

/-- What the URL standard says of its host parser: the manifests' names and the loopback address are read as
they are, letters in lower case; white space and a colon outside brackets are refused. -/
structure HostParser (hostParser : Bool → Str → Option Str) : Prop where
  name : ∀ m ∈ manifests, ∀ t, t.map Char.toLower ∈ m.hosts →
    hostParser false t = some (t.map Char.toLower)
  address : ∀ isOpaque, hostParser isOpaque loopback = some loopback
  whitespace : ∀ t, (∃ c ∈ t, isWhitespace c = true) → hostParser false t = none
  colon : ∀ t, ':' ∈ t → t.getLast? ≠ some ']' → hostParser false t = none

/-- A value whose host, by one of the standards, is neither the manifest's nor this machine. -/
def Foreign (hostParser : Bool → Str → Option Str) (m : ProviderManifest) (value : Str) : Prop :=
  ∃ host, (rfcHost (trim value) = some host ∨ whatwgHost hostParser value = some host) ∧
    host ≠ loopback ∧ host ∉ m.hosts

section

variable {hostParser : Bool → Str → Option Str} {p : ProviderManifest} {value : Str}

theorem trim_ne_nil_of_foreign (h : Foreign hostParser p value) : trim value ≠ [] := by
  intro hempty
  obtain ⟨host, hread | hread, _⟩ := h
  · rw [hempty] at hread
    cases hread
  · obtain ⟨l, w, heq, hl, hw⟩ := exists_eq_append_trim value
    have hcolon : ':' ∉ cleaned value := by
      intro hmem
      have hmem' := mem_of_mem_cleaned hmem
      rw [hempty, List.append_nil] at heq
      rw [heq] at hmem'
      obtain hmem' | hmem' := List.mem_append.1 hmem'
      · exact absurd (hl _ hmem') (by decide)
      · exact absurd (hw _ hmem') (by decide)
    rw [whatwgHost, splitScheme_of_not_mem hcolon] at hread
    cases hread

theorem not_matchesManifest_of_foreign (hparser : HostParser hostParser) (hp : p ∈ manifests)
    (h : Foreign hostParser p value) : matchesManifest p (trim value) = false := by
  by_contra hmatch
  obtain ⟨scheme, name, tail, heq, hscheme, hhost, hne, hname, htail⟩ :=
    exists_of_matchesManifest hp (by simpa using hmatch)
  have hschemeok : isScheme scheme = true := isScheme_of_toLower (by rw [hscheme]; decide)
  obtain ⟨host, hread | hread, _, hforeign⟩ := h
  · have hlacks : ∀ d : Char, isSchemeChar d = false → d ∉ name := fun d hd hmem =>
      absurd (hname d hmem) (by simp [hd])
    have hsplit : splitPort false (afterUserinfo name) = (name, none) := by
      rw [afterUserinfo_of_not_mem (hlacks '@' (by decide)), splitPort_of_not_mem (hlacks ':' (by decide))]
    rw [heq] at hread
    have hhost' := rfcHost_eq hschemeok (fun c hc => ?_) htail hsplit hread
    · exact hforeign (hhost' ▸ hhost)
    · have := endsAuthority_of_isSchemeChar (hname c hc) false
      simpa [endsAuthority] using this
  · have hspecial : specialSchemes.contains (scheme.map Char.toLower) = true := by
      rw [hscheme]
      decide
    have hhost' := whatwgHost_of_name hparser.whitespace hspecial hschemeok heq hname hne htail hread
    rw [hparser.name p hp name hhost] at hhost'
    exact hforeign (Option.some.inj hhost' ▸ hhost)

/-- A foreign value that passes for a link of the program has a backslash. -/
theorem backslash_of_foreign (hparser : HostParser hostParser) (h : Foreign hostParser p value)
    (hown : isGatewayLinkValue value = true) : '\\' ∈ value := by
  obtain ⟨scheme, authority, tail, port, heq, hscheme, hauthority, htail, hsplit, hne, hdigits⟩ :=
    exists_of_isGatewayLinkValue hown
  obtain ⟨host, hread, hlocal, _⟩ := h
  by_contra hbackslash
  refine hlocal ?_
  obtain hread | hread := hread
  · have hport : splitPort false (afterUserinfo authority) = (loopback, some port) := by
      rw [hsplit, splitPort_append (by decide) (by decide)]
    rw [heq] at hread
    rw [rfcHost_eq hscheme hauthority htail hport hread]
    decide
  · have hauthority' : ∀ c ∈ authority, endsAuthority true c = false := by
      intro c hc
      have hmem : c ∈ trim value := by simp [heq, hc]
      have hnot : c ≠ '\\' := fun hc' => hbackslash (mem_of_mem_trim (hc' ▸ hmem))
      simp [endsAuthority, hauthority c hc, hnot]
    obtain ⟨isOpaque, hhost⟩ := whatwgHost_of_port hparser.colon hscheme heq hauthority' htail hsplit
      isSchemeChar_loopback (fun c hc => isSchemeChar_of_isAsciiDigit (hdigits c hc)) (by decide) hne hread
    rw [hparser.address isOpaque] at hhost
    exact (Option.some.inj hhost).symm

/-- A foreign value counts as a customisation unless it passes for a link of the program. -/
theorem customises_of_foreign (hparser : HostParser hostParser) (hp : p ∈ manifests)
    (h : Foreign hostParser p value) : Customises p value ↔ isGatewayLinkValue value = false := by
  refine ⟨fun hcustom => hcustom.2.1, fun hown => ⟨trim_ne_nil_of_foreign h, hown, ?_⟩⟩
  exact not_matchesManifest_of_foreign hparser hp h

/-- A provider whose variable the project sets to a foreign host is not automatic, if and only if one of
the values counts as a customisation (or nothing is evidence of the provider). A foreign value counts
unless it passes for a link of the program, which takes a backslash. -/
theorem repointed_iff (hparser : HostParser hostParser) (r : Reader) (hp : p ∈ manifests)
    (hfixed : p.origins ≠ []) (folder : Folder) :
    (((∃ value, folder.Sets p value ∧ Foreign hostParser p value) →
        ¬∃ d, detect r folder p.id = some d ∧ d.configurability = .automatic) ↔
      ((∃ value, folder.Sets p value ∧ Foreign hostParser p value) →
        (∃ value, folder.Sets p value ∧ Customises p value) ∨ ¬folder.Mentioned r p)) ∧
      ∀ value, Foreign hostParser p value →
        (Customises p value ↔ isGatewayLinkValue value = false) ∧
          (isGatewayLinkValue value = true → '\\' ∈ value) := by
  refine ⟨imp_congr_right fun _ => ?_, fun value hforeign =>
    ⟨customises_of_foreign hparser hp hforeign, backslash_of_foreign hparser hforeign⟩⟩
  rw [detect_automatic_iff r hp hfixed folder, not_and, not_not]
  constructor
  · intro h
    by_cases hmentioned : folder.Mentioned r p
    · exact .inl (h hmentioned)
    · exact .inr hmentioned
  · intro h hmentioned
    exact h.resolve_right fun hnot => hnot hmentioned

end

/-! ## A destination before a backslash -/

/-- A host parser for names in ASCII: no escapes, no addresses in brackets. -/
def asciiHost (_ : Bool) (t : Str) : Option Str :=
  if t.all isSchemeChar then some (t.map Char.toLower) else none

theorem hostParser_asciiHost : HostParser asciiHost where
  name := by
    intro m hm t ht
    have hplain : ∀ m ∈ manifests, (m.hosts.all fun host => host.all isSchemeChar) = true := by
      decide
    have hhost := List.all_eq_true.1 (List.all_eq_true.1 (hplain m hm) _ ht)
    refine if_pos (List.all_eq_true.2 fun c hc => ?_)
    exact isSchemeChar_of_toLower (hhost _ (List.mem_map_of_mem hc))
  address := by
    intro isOpaque
    have hplain : asciiHost false loopback = some loopback := by decide
    exact hplain
  whitespace := by
    rintro t ⟨c, hc, hspace⟩
    refine if_neg fun h => ?_
    have hnot := isWhitespace_of_isSchemeChar (List.all_eq_true.1 h c hc)
    exact absurd hspace (by simp [hnot])
  colon := by
    intro t hc _
    exact if_neg fun h => absurd (List.all_eq_true.1 h _ hc) (by decide)

def openai : ProviderManifest :=
  manifest "openai" "OpenAI" ["OPENAI_API_KEY", "OPENAI_ADMIN_KEY"]
    ["https://api.openai.com"] ["OPENAI_BASE_URL", "OPENAI_API_BASE"]

/-- A `.env` file that sets one value, with a credential of the provider in the vault. -/
def oneFile (content : String) : Folder where
  envFiles := [⟨".env".toList, .values, some content.toList⟩]
  stackSignals := []
  lockfile := fun _ => none
  credentials := [("openai".toList, "work key".toList)]

def plainReader : Reader := ⟨fun value => value.length < 8, fun t => t.map Char.toLower⟩

theorem sets_oneFile {content : String} {value : Str}
    (h : ((EnvFile.entries ⟨".env".toList, .values, some content.toList⟩).any fun entry =>
      openai.baseUrlVars.contains entry.key && entry.value = value) = true) :
    (oneFile content).Sets openai value := by
  obtain ⟨entry, hentry, hset⟩ := List.any_eq_true.1 h
  simp only [Bool.and_eq_true, List.contains_iff_mem, decide_eq_true_eq] at hset
  exact ⟨_, List.mem_singleton_self _, entry, hentry, hset⟩

/-- A project behind its own gateway is asked about. -/
theorem repointed_iff_litellm :
    ¬∃ d, detect plainReader (oneFile "OPENAI_BASE_URL=https://litellm.corp.example/v1") openai.id =
      some d ∧ d.configurability = .automatic := by
  have hsets : (oneFile "OPENAI_BASE_URL=https://litellm.corp.example/v1").Sets openai
      "https://litellm.corp.example/v1".toList := sets_oneFile (by decide +kernel)
  have hforeign : Foreign asciiHost openai "https://litellm.corp.example/v1".toList :=
    ⟨"litellm.corp.example".toList, .inl (by decide +kernel), by decide +kernel, by decide +kernel⟩
  have hiff := repointed_iff hostParser_asciiHost plainReader (by decide +kernel : openai ∈ manifests)
    (by decide +kernel) (oneFile "OPENAI_BASE_URL=https://litellm.corp.example/v1")
  refine hiff.1.2 (fun _ => .inl ⟨_, hsets, ?_⟩) ⟨_, hsets, hforeign⟩
  exact ((hiff.2 _ hforeign).1).2 (by decide +kernel)

/-- Clients end the authority at the backslash, and detection looks behind the last `@`. -/
theorem attacker_before_backslash :
    ∃ value, (oneFile "OPENAI_BASE_URL=http://attacker.example\\@127.0.0.1:1/v1").Sets openai value ∧
      Foreign asciiHost openai value ∧
      ∃ d, detect plainReader (oneFile "OPENAI_BASE_URL=http://attacker.example\\@127.0.0.1:1/v1")
        openai.id = some d ∧ d.configurability = .automatic := by
  refine ⟨"http://attacker.example\\@127.0.0.1:1/v1".toList, sets_oneFile (by decide +kernel),
    ⟨"attacker.example".toList, .inr (by decide +kernel), by decide +kernel, by decide +kernel⟩, ?_⟩
  have hautomatic : (detect plainReader (oneFile "OPENAI_BASE_URL=http://attacker.example\\@127.0.0.1:1/v1")
      openai.id).map Detection.configurability = some .automatic := by
    decide +kernel
  exact Option.map_eq_some_iff.1 hautomatic

end Tethra.Detect
