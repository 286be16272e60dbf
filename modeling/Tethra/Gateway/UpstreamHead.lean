import Tethra.Gateway.Forward
import Tethra.Gateway.WireHead

set_option autoImplicit false

/-! # What the upstream reads

The head that is written for a request is read back by any strict recipient, and says what the gateway
does (`forwardedHead_unambiguous`). The only hop-by-hop fields in it are the gateway's own. -/

namespace Tethra.Gateway

open Observe (asciiLower)

/-! ## The fields that are sent -/

/-- The fields of the request that are copied. -/
def RequestHead.copied (head : RequestHead) (forceIdentity : Bool) : List WireField :=
  (head.headers.filter fun f => !dropsField (connectionNamed head.headers) forceIdentity f).map
    fun f => ⟨utf8 f.name, f.value⟩

def framingFields : BodyFraming → List WireField
  | .contentLength n => [⟨wire "Content-Length", wire (toString n)⟩]
  | .chunked => [⟨wire "Transfer-Encoding", wire "chunked"⟩]
  | .none | .untilClose => []

def encodingFields (forceIdentity : Bool) : List WireField :=
  if forceIdentity then [⟨wire "Accept-Encoding", wire "identity"⟩] else []

def hostField (host : Str) : WireField := ⟨wire "Host", utf8 host⟩

def connectionField : WireField := ⟨wire "Connection", wire "keep-alive"⟩

/-- The fields of the gateway's own making, behind the copied ones. -/
def RequestHead.ownFields (head : RequestHead) (forceIdentity : Bool) : List WireField :=
  encodingFields forceIdentity ++ framingFields head.framing ++ [connectionField]

def RequestHead.sentFields (head : RequestHead) (host : Str) (forceIdentity : Bool) :
    List WireField :=
  hostField host :: (head.copied forceIdentity ++ head.ownFields forceIdentity)

theorem flatMap_ite_nil {α β : Type} (p : α → Bool) (g : α → List β) (as : List α) :
    (as.flatMap fun a => if p a then [] else g a) = (as.filter fun a => !p a).flatMap g := by
  induction as with
  | nil => rfl
  | cons a as ih =>
      rw [List.flatMap_cons, ih, List.filter_cons]
      cases p a <;> simp

theorem buildUpstreamHead_eq (head : RequestHead) (target host : Str) (forceIdentity : Bool) :
    buildUpstreamHead head target host true forceIdentity
      = utf8 head.method ++ wire " " ++ utf8 target ++ wire " HTTP/1.1" ++ crlf ++
        ((head.sentFields host forceIdentity).flatMap WireField.line ++ crlf) := by
  unfold buildUpstreamHead
  simp only [flatMap_ite_nil]
  cases hframing : head.framing <;> cases forceIdentity <;>
    simp [RequestHead.sentFields, RequestHead.copied, RequestHead.ownFields, encodingFields,
      framingFields, hframing, hostField, connectionField, WireField.line, List.flatMap_map]

/-! ## Names -/

theorem asciiLower_asciiLower (t : Str) : asciiLower (asciiLower t) = asciiLower t := by
  simp [asciiLower, Function.comp_def]

theorem lower_utf8 (name : Str) (value : Bytes) :
    (⟨utf8 name, value⟩ : WireField).lower = some (asciiLower name) := by
  simp [WireField.lower, fromUtf8_utf8]

@[simp] theorem lower_trimmed (f : WireField) : f.trimmed.lower = f.lower := rfl

@[simp] theorem lower_hostField (host : Str) : (hostField host).lower = some "host".toList :=
  lower_utf8 _ _

/-! ## Blanks and breaks -/

theorem trimBlanks_of_visible {value : Bytes} (h : value.all isVisible = true) :
    trimBlanks value = value := by
  have hblank : ∀ b : UInt8, isVisible b = true → isBlank b = false := by decide +kernel
  have hnone : ∀ b ∈ value, isBlank b = false := fun b hb => hblank b (List.all_eq_true.1 h b hb)
  have hstart : value.dropWhile isBlank = value := by
    cases value with
    | nil => rfl
    | cons b value => simp [hnone b (List.mem_cons_self ..)]
  unfold trimBlanks
  rw [hstart]
  refine List.rdropWhile_eq_self_iff.2 ?_
  intro hne
  simp [hnone _ (List.getLast_mem hne)]

theorem any_isBreak_trimBlanks {value : Bytes} (h : value.any isBreak = false) :
    (trimBlanks value).any isBreak = false := by
  rw [List.any_eq_false] at h ⊢
  intro b hb
  refine h b ?_
  have hsub : trimBlanks value <:+: value :=
    (List.rdropWhile_prefix _ _).isInfix.trans (List.dropWhile_suffix _).isInfix
  exact hsub.mem hb

theorem not_break_of_visible : ∀ b : UInt8, isVisible b = true → isBreak b = false := by
  decide +kernel

theorem any_isBreak_of_visible {bytes : Bytes} (h : bytes.all isVisible = true) :
    bytes.any isBreak = false := by
  rw [List.any_eq_false]
  intro b hb
  simp [not_break_of_visible b (List.all_eq_true.1 h b hb)]

theorem all_visible_of_token {name : Bytes} (h : name.all isTokenByte = true) :
    name.all isVisible = true := by
  rw [List.all_eq_true] at h ⊢
  intro b hb
  exact (Bool.and_eq_true_iff.1 (h b hb)).1

/-- A string of visible bytes has a character for each of them. -/
theorem eq_map_charOf_of_visible {t : Str} (h : (utf8 t).all isVisible = true) :
    t = (utf8 t).map charOf := by
  have hascii : ∀ b ∈ utf8 t, b < 128 := by
    intro b hb
    have hvisible := List.all_eq_true.1 h b hb
    unfold isVisible at hvisible
    rw [Bool.and_eq_true, decide_eq_true_eq, decide_eq_true_eq] at hvisible
    exact UInt8.lt_trans hvisible.2 (by decide)
  have hdecode := fromUtf8_ascii hascii
  rw [fromUtf8_utf8] at hdecode
  exact Option.some.inj hdecode

theorem all_visible_of_target (head : RequestHead) : (utf8 head.target).all isVisible = true := by
  have htarget := head.targetVisible
  unfold validateTargetCharset at htarget
  split_ifs at htarget with hempty hchars
  simpa using hchars

theorem validateToken_ok {s : Str} {what : String} (h : validateToken s what = .ok ()) :
    s ≠ [] ∧ (utf8 s).all isTokenByte = true := by
  unfold validateToken at h
  split_ifs at h with hbad
  rw [not_or, not_or] at hbad
  exact ⟨hbad.1, by simpa using hbad.2.2⟩

theorem utf8_ne_nil {s : Str} (h : s ≠ []) : utf8 s ≠ [] := by
  intro hnil
  have := fromUtf8_utf8 s
  rw [hnil] at this
  exact h (Option.some.inj (this.symm.trans (fromUtf8_eq_some.2 utf8_nil)))

theorem plain_copied {head : RequestHead} {forceIdentity : Bool} {f : WireField}
    (h : f ∈ head.copied forceIdentity) : f.Plain := by
  obtain ⟨field, -, rfl⟩ := List.mem_map.1 h
  obtain ⟨hne, htoken⟩ := validateToken_ok field.token
  exact ⟨utf8_ne_nil hne, htoken, field.clean⟩

theorem all_visible_toString (n : Nat) : (wire (toString n)).all isVisible = true := by
  have hdigits : (toString n).toList = Nat.toDigits 10 n := Nat.toList_repr
  have hdigit : ∀ k < 58, 48 ≤ k → (utf8 [Char.ofNat k]).all isVisible = true := by decide
  rw [List.all_eq_true]
  intro b hb
  rw [wire, hdigits] at hb
  obtain ⟨c, hc, hb⟩ := mem_utf8.1 hb
  have hc' := Nat.isDigit_of_mem_toDigits (by decide) (by decide) hc
  have hrange : 48 ≤ c.toNat ∧ c.toNat < 58 := by
    simp only [Char.isDigit, ge_iff_le, Bool.and_eq_true, decide_eq_true_eq, UInt32.le_iff_toNat_le]
      at hc'
    exact ⟨hc'.1, Nat.lt_succ_of_le hc'.2⟩
  have hall := hdigit c.toNat hrange.2 hrange.1
  rw [Char.ofNat_toNat] at hall
  exact List.all_eq_true.1 hall b hb

/-! ## Copied fields -/

/-- What a copied field is, and that nothing dropped is copied. -/
theorem mem_copied {head : RequestHead} {forceIdentity : Bool} {f : WireField}
    (h : f ∈ head.copied forceIdentity) : ∃ field ∈ head.headers,
      f.lower = some field.lower ∧
        dropsField (connectionNamed head.headers) forceIdentity field = false := by
  obtain ⟨field, hfield, rfl⟩ := List.mem_map.1 h
  obtain ⟨hmem, hkept⟩ := List.mem_filter.1 hfield
  exact ⟨field, hmem, lower_utf8 _ _, by simpa using hkept⟩

/-- No field with a name that is always dropped is copied. -/
theorem copied_lower_ne {head : RequestHead} {forceIdentity : Bool} {name : Str}
    (hdrop : ∀ field : HeaderField, field.lower = name →
      dropsField (connectionNamed head.headers) forceIdentity field = true)
    {f : WireField} (h : f ∈ head.copied forceIdentity) : f.lower ≠ some name := by
  obtain ⟨field, -, hlower, hkept⟩ := mem_copied h
  intro hname
  rw [hlower] at hname
  rw [hdrop field (Option.some.inj hname)] at hkept
  cases hkept

theorem dropsField_hopByHop {named : List Str} {forceIdentity : Bool} {field : HeaderField}
    (h : field.lower ∈ hopByHop) : dropsField named forceIdentity field = true := by
  simp [dropsField, h]

theorem dropsField_named {named : List Str} {forceIdentity : Bool} {field : HeaderField}
    (h : field.lower ∈ named) : dropsField named forceIdentity field = true := by
  simp [dropsField, h]

/-- The client's Connection header, with a value in UTF-8, names a field. -/
def Nominated (headers : List HeaderField) (name : Str) : Prop :=
  ∃ c ∈ headers, c.lower = "connection".toList ∧ ∃ v, c.valueStr = some v ∧
    ∃ option ∈ v.splitOn ',', asciiLower (Text.trim option) = name

theorem mem_connectionNamed {headers : List HeaderField} {name : Str} (hne : name ≠ [])
    (h : Nominated headers name) : name ∈ connectionNamed headers := by
  obtain ⟨c, hc, hlower, v, hv, option, hoption, rfl⟩ := h
  refine List.mem_flatMap.2 ⟨c, hc, ?_⟩
  rw [if_pos hlower, hv]
  refine List.mem_filter.2 ⟨List.mem_map.2 ⟨option, hoption, rfl⟩, ?_⟩
  simpa using hne

/-! ## The fields that are read -/

theorem trimmed_own {head : RequestHead} {forceIdentity : Bool} :
    (head.ownFields forceIdentity).map WireField.trimmed = head.ownFields forceIdentity := by
  have hwords : ∀ word ∈ [wire "identity", wire "chunked", wire "keep-alive"],
      trimBlanks word = word := by decide
  have hnumber := fun n => trimBlanks_of_visible (all_visible_toString n)
  unfold RequestHead.ownFields encodingFields connectionField
  cases head.framing <;> cases forceIdentity <;>
    simp only [framingFields, WireField.trimmed, hnumber, List.map_append, List.map_cons,
      List.map_nil, List.nil_append, List.append_nil, if_true, Bool.false_eq_true, if_false,
      hwords _ (List.mem_cons_self ..), hwords (wire "chunked") (by simp),
      hwords (wire "keep-alive") (by simp)]

/-- The fields of the head as they are read back. -/
def RequestHead.readFields (head : RequestHead) (host : Str) (forceIdentity : Bool) :
    List WireField :=
  hostField host :: ((head.copied forceIdentity).map WireField.trimmed ++ head.ownFields forceIdentity)

theorem trimmed_sentFields {head : RequestHead} {host : Str} {forceIdentity : Bool}
    (hhost : (utf8 host).all isVisible = true) :
    (head.sentFields host forceIdentity).map WireField.trimmed
      = head.readFields host forceIdentity := by
  have hfield : (hostField host).trimmed = hostField host := by
    unfold WireField.trimmed hostField
    rw [trimBlanks_of_visible hhost]
  rw [RequestHead.sentFields, List.map_cons, List.map_append, trimmed_own, hfield]
  rfl

/-- Of a name that is always dropped only the gateway's own fields are left. -/
theorem filter_readFields {head : RequestHead} {host name : Str} {forceIdentity : Bool}
    (hdrop : ∀ field : HeaderField, field.lower = name →
      dropsField (connectionNamed head.headers) forceIdentity field = true) :
    (head.readFields host forceIdentity).filter (fun f => f.lower = some name)
      = (hostField host :: head.ownFields forceIdentity).filter fun f => f.lower = some name := by
  have hcopied : ((head.copied forceIdentity).map WireField.trimmed).filter
      (fun f => f.lower = some name) = [] := by
    rw [List.filter_eq_nil_iff]
    intro f hf
    obtain ⟨g, hg, rfl⟩ := List.mem_map.1 hf
    simp [copied_lower_ne hdrop hg]
  rw [RequestHead.readFields, List.filter_cons, List.filter_append, hcopied, List.nil_append,
    List.filter_cons]

theorem framing_ne_untilClose (head : RequestHead) : head.framing ≠ .untilClose := by
  intro hclose
  have hframed := head.framed
  rw [hclose] at hframed
  obtain ⟨seen, -, hframed⟩ := bind_eq_ok.1 hframed
  split at hframed <;> cases hframed

theorem lower_own : (⟨wire "Accept-Encoding", wire "identity"⟩ : WireField).lower
      = some "accept-encoding".toList ∧
    (⟨wire "Transfer-Encoding", wire "chunked"⟩ : WireField).lower
      = some "transfer-encoding".toList ∧
    ∀ value, (⟨wire "Content-Length", value⟩ : WireField).lower = some "content-length".toList :=
  ⟨lower_utf8 _ _, lower_utf8 _ _, fun value => lower_utf8 _ value⟩

/-- What a strict recipient finds in the fields. -/
structure UpstreamFields (head : RequestHead) (origin : UpstreamOrigin) (forceIdentity : Bool)
    (fields : List WireField) : Prop where
  host : fields.filter (fun f => f.lower = some "host".toList) = [hostField origin.host]
  oneFraming : (valuesOf "content-length" fields ++ valuesOf "transfer-encoding" fields).length ≤ 1
  /-- The gateway's own connection field, and the one that frames a chunked body. -/
  hopByHop : ∀ f ∈ fields, ∀ name ∈ hopByHop, f.lower = some name →
    f = connectionField ∨
      head.framing = .chunked ∧ f = ⟨wire "Transfer-Encoding", wire "chunked"⟩
  nominated : ∀ f ∈ fields, ∀ name, f.lower = some name → Nominated head.headers name →
    f ∈ hostField origin.host :: head.ownFields forceIdentity
  clean : ∀ f ∈ fields, f.name.any isBreak = false ∧ f.value.any isBreak = false
  framing : wireFraming fields = some head.framing

theorem filter_host (head : RequestHead) (host : Str) (forceIdentity : Bool) :
    (head.readFields host forceIdentity).filter (fun f => f.lower = some "host".toList)
      = [hostField host] := by
  rw [filter_readFields fun field h => by simp [dropsField, h]]
  have hlength := lower_own.2.2
  unfold RequestHead.ownFields encodingFields
  cases head.framing <;> cases forceIdentity <;> simp +decide [framingFields, hlength]

/-- The framing fields are the gateway's. -/
theorem valuesOf_contentLength (head : RequestHead) (host : Str) (forceIdentity : Bool) :
    valuesOf "content-length" (head.readFields host forceIdentity) =
      match head.framing with
      | .contentLength n => [wire (toString n)]
      | _ => [] := by
  unfold valuesOf
  rw [filter_readFields fun field h => by simp [dropsField, h]]
  have hlength := lower_own.2.2
  unfold RequestHead.ownFields encodingFields
  cases head.framing <;> cases forceIdentity <;> simp +decide [framingFields, hlength]

theorem valuesOf_transferEncoding (head : RequestHead) (host : Str) (forceIdentity : Bool) :
    valuesOf "transfer-encoding" (head.readFields host forceIdentity) =
      match head.framing with
      | .chunked => [wire "chunked"]
      | _ => [] := by
  have hhop : "transfer-encoding".toList ∈ hopByHop := by decide
  unfold valuesOf
  rw [filter_readFields fun field h => dropsField_hopByHop (h ▸ hhop)]
  have hlength := lower_own.2.2
  unfold RequestHead.ownFields encodingFields
  cases head.framing <;> cases forceIdentity <;> simp +decide [framingFields, hlength]

theorem wireFraming_readFields (head : RequestHead) (host : Str) (forceIdentity : Bool) :
    wireFraming (head.readFields host forceIdentity) = some head.framing := by
  unfold wireFraming
  rw [valuesOf_contentLength, valuesOf_transferEncoding]
  cases hframing : head.framing with
  | none => rfl
  | contentLength n => exact congrArg (Option.map BodyFraming.contentLength) (decimal_toString n)
  | chunked => simp
  | untilClose => exact absurd hframing (framing_ne_untilClose head)

theorem mem_ownFields {head : RequestHead} {forceIdentity : Bool} {f : WireField}
    (h : f ∈ head.ownFields forceIdentity) :
    f = ⟨wire "Accept-Encoding", wire "identity"⟩ ∨ f ∈ framingFields head.framing ∨
      f = connectionField := by
  unfold RequestHead.ownFields encodingFields at h
  rcases List.mem_append.1 h with h | h
  · rcases List.mem_append.1 h with h | h
    · split_ifs at h
      · exact Or.inl (List.mem_singleton.1 h)
      · cases h
    · exact Or.inr (Or.inl h)
  · exact Or.inr (Or.inr (List.mem_singleton.1 h))

/-- A hop-by-hop field of the gateway's own is its connection field or frames a chunked body. -/
theorem ownFields_hopByHop {head : RequestHead} {forceIdentity : Bool} {f : WireField}
    (h : f ∈ head.ownFields forceIdentity) {name : Str} (hname : name ∈ hopByHop)
    (hlower : f.lower = some name) :
    f = connectionField ∨
      head.framing = .chunked ∧ f = ⟨wire "Transfer-Encoding", wire "chunked"⟩ := by
  obtain ⟨hencoding, -, hlength⟩ := lower_own
  rcases mem_ownFields h with rfl | hframing | rfl
  · rw [hencoding] at hlower
    rw [← Option.some.inj hlower] at hname
    exact absurd hname (by decide)
  · right
    cases hcase : head.framing with
    | none => simp [hcase, framingFields] at hframing
    | untilClose => simp [hcase, framingFields] at hframing
    | chunked =>
        rw [hcase] at hframing
        exact ⟨rfl, List.mem_singleton.1 hframing⟩
    | contentLength n =>
        rw [hcase] at hframing
        rw [List.mem_singleton.1 hframing, hlength] at hlower
        rw [← Option.some.inj hlower] at hname
        exact absurd hname (by decide)
  · exact Or.inl rfl

theorem ownFields_plain {head : RequestHead} {forceIdentity : Bool} {f : WireField}
    (h : f ∈ head.ownFields forceIdentity) : f.Plain := by
  have hwords : ∀ word ∈ [wire "Accept-Encoding", wire "Content-Length", wire "Transfer-Encoding",
      wire "Connection"], word ≠ [] ∧ word.all isTokenByte = true := by decide
  have hvalues : ∀ word ∈ [wire "identity", wire "chunked", wire "keep-alive"],
      word.any isBreak = false := by decide
  have hplain : ∀ name value, name ∈ [wire "Accept-Encoding", wire "Content-Length",
      wire "Transfer-Encoding", wire "Connection"] → value.any isBreak = false →
      (⟨name, value⟩ : WireField).Plain := fun name value hname hvalue =>
    ⟨(hwords name hname).1, (hwords name hname).2, hvalue⟩
  rcases mem_ownFields h with rfl | hframing | rfl
  · exact hplain _ _ (by simp) (hvalues _ (by simp))
  · cases hcase : head.framing with
    | none => simp [hcase, framingFields] at hframing
    | untilClose => simp [hcase, framingFields] at hframing
    | chunked =>
        rw [hcase] at hframing
        rw [List.mem_singleton.1 hframing]
        exact hplain _ _ (by simp) (hvalues _ (by simp))
    | contentLength n =>
        rw [hcase] at hframing
        rw [List.mem_singleton.1 hframing]
        exact hplain _ _ (by simp) (any_isBreak_of_visible (all_visible_toString n))
  · exact hplain _ _ (by simp) (hvalues _ (by simp))

theorem hostField_plain {host : Str} (hhost : (utf8 host).all isVisible = true) :
    (hostField host).Plain := by
  have hname : wire "Host" ≠ [] ∧ (wire "Host").all isTokenByte = true := by decide
  exact ⟨hname.1, hname.2, any_isBreak_of_visible hhost⟩

theorem sentFields_plain {head : RequestHead} {host : Str} {forceIdentity : Bool}
    (hhost : (utf8 host).all isVisible = true) :
    ∀ f ∈ head.sentFields host forceIdentity, f.Plain := by
  intro f hf
  rcases List.mem_cons.1 hf with rfl | hf
  · exact hostField_plain hhost
  · rcases List.mem_append.1 hf with hf | hf
    · exact plain_copied hf
    · exact ownFields_plain hf

theorem WireField.Plain.clean_trimmed {f : WireField} (h : f.Plain) :
    f.trimmed.name.any isBreak = false ∧ f.trimmed.value.any isBreak = false :=
  ⟨any_isBreak_of_visible (all_visible_of_token h.token), any_isBreak_trimBlanks h.clean⟩

theorem readFields_upstream {head : RequestHead} {origin : UpstreamOrigin} {forceIdentity : Bool}
    (hhost : (utf8 origin.host).all isVisible = true) :
    UpstreamFields head origin forceIdentity (head.readFields origin.host forceIdentity) := by
  refine ⟨filter_host head origin.host forceIdentity, ?_, ?_, ?_, ?_,
    wireFraming_readFields head origin.host forceIdentity⟩
  · rw [valuesOf_contentLength, valuesOf_transferEncoding]
    cases head.framing <;> simp
  · intro f hf name hname hlower
    rcases List.mem_cons.1 hf with rfl | hf
    · rw [lower_hostField] at hlower
      rw [← Option.some.inj hlower] at hname
      exact absurd hname (by decide)
    · rcases List.mem_append.1 hf with hf | hf
      · obtain ⟨g, hg, rfl⟩ := List.mem_map.1 hf
        have hlower' : g.lower = some name := hlower
        refine absurd hlower' (copied_lower_ne ?_ hg)
        rintro field rfl
        exact dropsField_hopByHop hname
      · exact ownFields_hopByHop hf hname hlower
  · intro f hf name hlower hnominated
    rcases List.mem_cons.1 hf with rfl | hf
    · exact List.mem_cons_self ..
    · rcases List.mem_append.1 hf with hf | hf
      · obtain ⟨g, hg, rfl⟩ := List.mem_map.1 hf
        have hlower' : g.lower = some name := hlower
        refine absurd hlower' (copied_lower_ne ?_ hg)
        rintro field rfl
        have hne : field.lower ≠ [] := by
          simpa [HeaderField.lower, asciiLower] using (validateToken_ok field.token).1
        exact dropsField_named (mem_connectionNamed hne hnominated)
      · exact List.mem_cons_of_mem _ hf
  · intro f hf
    rw [← trimmed_sentFields hhost] at hf
    obtain ⟨g, hg, rfl⟩ := List.mem_map.1 hf
    exact (sentFields_plain hhost g hg).clean_trimmed

/-! ## The head -/

/-- The start line of the head for the upstream. -/
def startLine (method target : Str) : Bytes :=
  utf8 method ++ wire " " ++ utf8 target ++ wire " HTTP/1.1"

theorem cr_notMem_of_visible {bytes : Bytes} (h : bytes.all isVisible = true) : cr ∉ bytes := by
  intro hmem
  have := List.all_eq_true.1 h cr hmem
  simp +decide at this

theorem cr_notMem_startLine {table : RouteTable} {head : RequestHead} {res : Resolution}
    (h : resolve table head.pathOnly = some res) :
    cr ∉ startLine head.method (upstreamTarget head res) := by
  have hmethod : cr ∉ utf8 head.method :=
    cr_notMem_of_visible (all_visible_of_token (validateToken_ok head.methodToken).2)
  have hvisible := List.all_eq_true.1 (all_visible_of_target head)
  have htarget : cr ∉ utf8 (upstreamTarget head res) := by
    refine cr_notMem_of_visible (List.all_eq_true.2 ?_)
    intro b hb
    obtain ⟨c, hc, hb⟩ := mem_utf8.1 hb
    have hmarks : (utf8 ['/', '?']).all isVisible = true := by decide
    rw [List.all_eq_true] at hmarks
    rcases mem_upstreamTarget h hc with rfl | rfl | hin
    · exact hmarks b (mem_utf8.2 ⟨'/', by simp, hb⟩)
    · exact hmarks b (mem_utf8.2 ⟨'?', by simp, hb⟩)
    · exact hvisible b (mem_utf8.2 ⟨c, hin, hb⟩)
  have hblank : cr ∉ wire " " := by decide
  have hversion : cr ∉ wire " HTTP/1.1" := by decide
  simp [startLine, hmethod, htarget, hblank, hversion]

/-- The characters of a host are brackets and those of its name for TLS. -/
theorem mem_sniHost {host : Str} {c : Char} (hc : c ∈ host) :
    c = '[' ∨ c = ']' ∨ c ∈ sniHost host := by
  rw [← List.takeWhile_append_dropWhile (p := fun c => decide (c = '[')) (l := host)] at hc
  rcases List.mem_append.1 hc with hc | hc
  · have hbracket := List.mem_takeWhile_imp hc
    exact Or.inl (of_decide_eq_true hbracket)
  · refine Or.inr ?_
    rw [← List.rdropWhile_append_rtakeWhile (p := fun c => decide (c = ']'))
      (l := host.dropWhile fun c => decide (c = '['))] at hc
    rcases List.mem_append.1 hc with hc | hc
    · exact Or.inr hc
    · have hbracket := List.mem_rtakeWhile_imp hc
      exact Or.inl (of_decide_eq_true hbracket)

/-- The origin that was reached has a host without blanks and line ends. -/
theorem host_visible {dialer : Dialer}
    (hname : ∀ name, dialer.serverName name = true → (utf8 name).all isVisible = true)
    {origin : UpstreamOrigin} (h : dialer.connect origin = true) :
    (utf8 origin.host).all isVisible = true := by
  have hserver := hname _ (Bool.and_eq_true_iff.1 h).2
  have hbrackets : (utf8 ['[', ']']).all isVisible = true := by decide
  rw [List.all_eq_true] at hserver hbrackets ⊢
  intro b hb
  obtain ⟨c, hc, hb⟩ := mem_utf8.1 hb
  rcases mem_sniHost hc with rfl | rfl | hin
  · exact hbrackets b (mem_utf8.2 ⟨'[', by simp, hb⟩)
  · exact hbrackets b (mem_utf8.2 ⟨']', by simp, hb⟩)
  · exact hserver b (mem_utf8.2 ⟨c, hin, hb⟩)

/-- For every accepted request, and every route whose origin was reached: a strict recipient of the
    head, whatever is sent behind it, reads the fields the gateway meant, and takes the same bytes for
    the body. A server name has no blanks and no control characters. -/
theorem forwardedHead_unambiguous {dialer : Dialer}
    (hname : ∀ name, dialer.serverName name = true → (utf8 name).all isVisible = true)
    {table : RouteTable} {head : RequestHead} {forceIdentity : Bool} {origin : UpstreamOrigin}
    {out : Bytes} (h : forwardedHead dialer table head forceIdentity = some (origin, out)) :
    ∃ res start fields, resolve table head.pathOnly = some res ∧ res.route.target = .ready origin ∧
      (∀ body, readHead (out ++ body) = some (start, fields, body)) ∧
      UpstreamFields head origin forceIdentity fields := by
  obtain ⟨res, hres, h⟩ := Option.bind_eq_some_iff.1 h
  split at h
  · cases h
  rename_i o htarget
  split_ifs at h with hconnect
  obtain ⟨rfl, rfl⟩ := Prod.mk.inj (Option.some.inj h)
  have hhost := host_visible hname hconnect
  refine ⟨res, startLine head.method (upstreamTarget head res), head.readFields o.host forceIdentity,
    hres, htarget, ?_, readFields_upstream hhost⟩
  intro body
  rw [buildUpstreamHead_eq, ← trimmed_sentFields hhost]
  exact readHead_lines (cr_notMem_startLine hres) (sentFields_plain hhost) body

/-! ## One request -/

/-- A request with a chunked body whose Connection header names a field. -/
def chatRequest : Bytes :=
  wire ("POST /openai/v1/chat?stream=1 HTTP/1.1\r\nHost: 127.0.0.1:4317\r\n" ++
    "Connection: close, X-Trace\r\nX-Trace: 1\r\nTransfer-Encoding: chunked\r\n\r\n")

def chatStatus : ParseStatus :=
  .complete chatRequest.length (some "POST".toList) (some "/openai/v1/chat?stream=1".toList) (some 1)
    [("Host".toList, wire "127.0.0.1:4317"), ("Connection".toList, wire "close, X-Trace"),
      ("X-Trace".toList, wire "1"), ("Transfer-Encoding".toList, wire "chunked")]

def chatOrigin : UpstreamOrigin := ⟨"api.openai.com".toList, 443⟩

def chatTable : RouteTable :=
  RouteTable.empty.insertRoute ⟨"openai".toList, "openai".toList, .ready chatOrigin, false, []⟩

/-- Every origin is reached, and a server name is visible text. -/
def openDialer : Dialer := ⟨fun name => (utf8 name).all isVisible, fun _ => true⟩

/-- What a recipient reads of the head that is sent for the request. -/
def chatSent : Option (Bytes × List WireField × Bytes) := do
  let (head, _) ← (acceptRequestHead (fun _ => chatStatus) chatRequest).toOption.join
  let (_, out) ← forwardedHead openDialer chatTable head false
  readHead out

theorem chat_accepted : ∃ head out,
    acceptRequestHead (fun _ => chatStatus) chatRequest = .ok (some (head, [])) ∧
      forwardedHead openDialer chatTable head false = some (chatOrigin, out) := by
  have haccept : ((acceptRequestHead (fun _ => chatStatus) chatRequest).toOption.map fun r =>
      r.map fun p => (p.2, (forwardedHead openDialer chatTable p.1 false).map Prod.fst))
        = some (some ([], some chatOrigin)) := by decide +kernel
  obtain ⟨r, hr, hmap⟩ := exists_ok_of_map haccept
  obtain ⟨⟨head, carry⟩, rfl, hpair⟩ := Option.map_eq_some_iff.1 hmap
  obtain ⟨rfl, hout⟩ := Prod.mk.inj hpair
  obtain ⟨⟨origin, out⟩, hforward, rfl⟩ := Option.map_eq_some_iff.1 hout
  exact ⟨head, out, hr, hforward⟩

/-- The request's head is read back with its chunked framing. -/
theorem forwardedHead_unambiguous_chat : ∃ head out res start fields,
    acceptRequestHead (fun _ => chatStatus) chatRequest = .ok (some (head, [])) ∧
      resolve chatTable head.pathOnly = some res ∧ res.route.target = .ready chatOrigin ∧
      (∀ body, readHead (out ++ body) = some (start, fields, body)) ∧
      UpstreamFields head chatOrigin false fields := by
  obtain ⟨head, out, haccept, hforward⟩ := chat_accepted
  obtain ⟨res, start, fields, hsent⟩ := forwardedHead_unambiguous (fun _ h => h) hforward
  exact ⟨head, out, res, start, fields, haccept, hsent⟩

/-- The head that is sent has hop-by-hop fields: the gateway's own `Connection: keep-alive`, and the
    `Transfer-Encoding` of the body. -/
theorem forwardedHead_hopByHop : chatSent.map (fun r => (r.2.1.filter fun f =>
      hopByHop.any fun name => f.lower = some name))
    = some [⟨wire "Transfer-Encoding", wire "chunked"⟩, ⟨wire "Connection", wire "keep-alive"⟩] := by
  decide +kernel

end Tethra.Gateway
