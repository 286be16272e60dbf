import Tethra.Gateway.Attribution

set_option autoImplicit false

/-! # A digest resolved against tables in other orders (`gateway/src/attribution.rs`)

Where the hits of a candidate name one credential, the first of them decides whether the current value was
used, and whether it is revoked. The order of the table does not matter exactly when they all say the same
(`resolve_of_order`). -/

namespace Tethra.Gateway

def FingerprintEntry.hits (e : FingerprintEntry) (candidate : List UInt8) : Bool :=
  e.fingerprint.length = 32 && e.fingerprint = candidate

/-- What the entry says when it is the only hit. -/
def FingerprintEntry.attribution (e : FingerprintEntry) : Attribution :=
  match e.retainedVersion with
  | some version => .matchedOldVersion e.credentialId version
  | none => .matched e.credentialId e.revoked

/-- The first candidate that an entry has. -/
def decidingCandidate (entries : List FingerprintEntry) (digest : CredentialDigest) : Option (List UInt8) :=
  digest.candidates.find? fun candidate => entries.any (·.hits candidate)

/-- Hits that name one credential say the same of it. -/
def Agreed (hits : List FingerprintEntry) : Prop :=
  (∀ e ∈ hits, ∀ f ∈ hits, e.credentialId = f.credentialId) →
    ∀ e ∈ hits, ∀ f ∈ hits, e.attribution = f.attribution

section

variable {entries entries' hits : List FingerprintEntry} {e : FingerprintEntry} {digest : CredentialDigest}

theorem resolve_eq :
    Matcher.resolve ⟨entries⟩ digest =
      match decidingCandidate entries digest with
      | some candidate => resolveHits (entries.filter (·.hits candidate))
      | none => .unmatched := by
  unfold Matcher.resolve decidingCandidate
  induction digest.candidates with
  | nil => rfl
  | cons candidate rest ih =>
      rw [List.findSome?_cons, List.find?_cons]
      cases hfilter : entries.filter (·.hits candidate) with
      | nil =>
          have hany : entries.any (·.hits candidate) = false := by
            rw [List.any_eq_false]
            exact fun e he => List.filter_eq_nil_iff.1 hfilter e he
          simp only [FingerprintEntry.hits] at hfilter
          simp only [hfilter, hany, ih]
      | cons f hits =>
          have hany : entries.any (·.hits candidate) = true := by
            rw [List.any_eq_true]
            exact ⟨f, List.mem_filter.1 (hfilter ▸ List.mem_cons_self)⟩
          have hfilter' := hfilter
          simp only [FingerprintEntry.hits] at hfilter'
          simp only [hfilter', hany, hfilter]

/-- The credentials that hits name. -/
def namedIds (hits : List FingerprintEntry) : List Str :=
  ((hits.map FingerprintEntry.credentialId).insertionSort (· ≤ ·)).dedup

theorem mem_namedIds {id : Str} : id ∈ namedIds hits ↔ ∃ e ∈ hits, e.credentialId = id := by
  simp [namedIds, List.mem_insertionSort]

theorem one_lt_namedIds :
    1 < (namedIds hits).length ↔ ¬∀ e ∈ hits, ∀ f ∈ hits, e.credentialId = f.credentialId := by
  have hnodup : (namedIds hits).Nodup := List.nodup_dedup _
  constructor
  · intro hlen hsame
    obtain ⟨a, b, rest, hids⟩ : ∃ a b rest, namedIds hits = a :: b :: rest := by
      match hids : namedIds hits with
      | [] => simp [hids] at hlen
      | [a] => simp [hids] at hlen
      | a :: b :: rest => exact ⟨a, b, rest, rfl⟩
    obtain ⟨e, he, rfl⟩ := mem_namedIds.1 (show a ∈ namedIds hits by simp [hids])
    obtain ⟨f, hf, rfl⟩ := mem_namedIds.1 (show b ∈ namedIds hits by simp [hids])
    rw [hids, hsame e he f hf] at hnodup
    simp at hnodup
  · intro hdiffer
    push_neg at hdiffer
    obtain ⟨e, he, f, hf, hne⟩ := hdiffer
    have hpair : [e.credentialId, f.credentialId] ⊆ namedIds hits := by
      intro id hid
      simp only [List.mem_cons, List.not_mem_nil, or_false] at hid
      rcases hid with rfl | rfl
      · exact mem_namedIds.2 ⟨e, he, rfl⟩
      · exact mem_namedIds.2 ⟨f, hf, rfl⟩
    have hlen := (List.subperm_of_subset (by simpa using hne) hpair).length_le
    exact hlen

theorem resolveHits_cons :
    resolveHits (e :: hits) =
      if 1 < (namedIds (e :: hits)).length then .ambiguousDuplicate (namedIds (e :: hits))
      else e.attribution := rfl

theorem namedIds_perm (h : entries.Perm entries') : namedIds entries = namedIds entries' := by
  have hperm : ((entries.map FingerprintEntry.credentialId).insertionSort (· ≤ ·)).Perm
      ((entries'.map FingerprintEntry.credentialId).insertionSort (· ≤ ·)) :=
    (List.perm_insertionSort _ _).trans ((h.map _).trans (List.perm_insertionSort _ _).symm)
  exact congrArg List.dedup
    (List.Perm.eq_of_pairwise' (List.pairwise_insertionSort _ _) (List.pairwise_insertionSort _ _) hperm)

theorem resolveHits_perm (h : entries.Perm entries') (hagreed : Agreed entries) :
    resolveHits entries = resolveHits entries' := by
  cases entries with
  | nil => rw [List.nil_perm.1 h]
  | cons e hits =>
      cases entries' with
      | nil => exact absurd h.length_eq (by simp)
      | cons f hits' =>
          rw [resolveHits_cons, resolveHits_cons, namedIds_perm h]
          split_ifs with hlen
          · rfl
          · rw [← namedIds_perm h, one_lt_namedIds, not_not] at hlen
            exact hagreed hlen e List.mem_cons_self f (h.mem_iff.2 List.mem_cons_self)

theorem decidingCandidate_perm (h : entries.Perm entries') :
    decidingCandidate entries digest = decidingCandidate entries' digest := by
  have hany : ∀ candidate, entries.any (·.hits candidate) = entries'.any (·.hits candidate) := by
    intro candidate
    rw [Bool.eq_iff_iff, List.any_eq_true, List.any_eq_true]
    simp only [h.mem_iff]
  simp only [decidingCandidate, hany]

/-- The entry can be put first. -/
theorem resolveHits_filter_cons {candidate : List UInt8} (he : e ∈ entries.filter (·.hits candidate))
    (hsame : ∀ e ∈ entries.filter (·.hits candidate), ∀ f ∈ entries.filter (·.hits candidate),
      e.credentialId = f.credentialId) :
    resolveHits ((e :: entries.erase e).filter (·.hits candidate)) = e.attribution := by
  obtain ⟨hmem, hhits⟩ := List.mem_filter.1 he
  have hperm : (e :: entries.erase e).Perm entries := (List.perm_cons_erase hmem).symm
  have hids := namedIds_perm (hperm.filter (·.hits candidate))
  have hcons : (e :: entries.erase e).filter (·.hits candidate)
      = e :: (entries.erase e).filter (·.hits candidate) := List.filter_cons_of_pos hhits
  rw [hcons] at hids ⊢
  rw [resolveHits_cons, if_neg]
  rw [hids, one_lt_namedIds, not_not]
  exact hsame

end

/-- In every order of the table the attribution is the same exactly when the hits of the first candidate
    that has one name several credentials, or all say the same. -/
theorem resolve_of_order (entries : List FingerprintEntry) (digest : CredentialDigest) :
    (∀ entries', entries'.Perm entries →
      Matcher.resolve ⟨entries'⟩ digest = Matcher.resolve ⟨entries⟩ digest) ↔
      ∀ candidate, decidingCandidate entries digest = some candidate →
        Agreed (entries.filter (·.hits candidate)) := by
  constructor
  · intro h candidate hcandidate hsame
    -- Whatever entry is put first decides.
    have hfirst : ∀ e ∈ entries.filter (·.hits candidate),
        e.attribution = Matcher.resolve ⟨entries⟩ digest := by
      intro e he
      have hperm : (e :: entries.erase e).Perm entries :=
        (List.perm_cons_erase (List.mem_filter.1 he).1).symm
      rw [← h _ hperm, resolve_eq, decidingCandidate_perm hperm, hcandidate]
      exact (resolveHits_filter_cons he hsame).symm
    intro e he f hf
    rw [hfirst e he, hfirst f hf]
  · intro h entries' hperm
    rw [resolve_eq, resolve_eq, decidingCandidate_perm hperm]
    cases hcandidate : decidingCandidate entries digest with
    | none => rfl
    | some candidate =>
        exact (resolveHits_perm (hperm.symm.filter _) (h candidate hcandidate)).symm

/-- A reference that was revoked, and the credential that it refers to. -/
def sharedKey (revoked : Bool) : FingerprintEntry where
  credentialId := "k1".toList
  fingerprint := List.replicate 32 7
  retainedVersion := none
  revoked := revoked

theorem resolve_by_order :
    Matcher.resolve ⟨[sharedKey true, sharedKey false]⟩ ⟨[List.replicate 32 7]⟩
        ≠ Matcher.resolve ⟨[sharedKey false, sharedKey true]⟩ ⟨[List.replicate 32 7]⟩ := by
  decide

end Tethra.Gateway
