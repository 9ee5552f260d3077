import Xahau.Change.UNLReport
import Xahau.Data.Checked

/-! # The manifest cache (`Manifest.cpp`)

A validator's master key names a signing key in a manifest. The cache keeps the last manifest of
each master key, and beside it the master key of each signing key. The second map is the inverse of
the first, whatever manifests arrive: `Sound` is kept by every call, and the calls only ever replace
a manifest by one with a greater sequence number (`Grows`). -/

namespace Xahau.Validator

open Function

/-- The sequence number of a revocation: the greatest `std::uint32_t`. -/
def revokedSequence : UInt32 := 0xFFFFFFFF

/-- `Manifest`, as `deserializeManifest` returns it: a revocation names no signing key, any other
manifest names one that is not its master key. -/
structure Manifest where
  masterKey : PublicKey
  sequence : UInt32
  signingKey : Option PublicKey
  names : signingKey = none ↔ sequence = revokedSequence
  distinct : signingKey ≠ some masterKey

/-- `Manifest::revoked`. -/
def Manifest.revoked (m : Manifest) : Bool := m.sequence == revokedSequence

/-- The fields of a parsed manifest; `sfVersion` is zero if it is absent. -/
structure ManifestFields where
  version : UInt16
  publicKey : Blob
  sequence : UInt32
  domain : Option Blob
  signingPubKey : Option Blob
  signature : Option Blob

/-- `deserializeManifest`, after the bytes were parsed. -/
def deserializeManifest (isProperlyFormedTomlDomain : Blob → Bool) (st : ManifestFields) :
    Option Manifest := do
  guard (st.version = 0)
  let masterKey ← Change.publicKeyOf st.publicKey
  guard (st.domain.all isProperlyFormedTomlDomain = true)
  if h : st.sequence = revokedSequence then
    guard (st.signingPubKey = none ∧ st.signature = none)
    some ⟨masterKey, st.sequence, none, by simp [h], nofun⟩
  else
    let spk ← st.signingPubKey
    guard (st.signature.isSome = true)
    let signingKey ← Change.publicKeyOf spk
    if hne : signingKey = masterKey then none
    else some ⟨masterKey, st.sequence, some signingKey, by simp [h], by simpa using hne⟩

/-- `ManifestDisposition`. -/
inductive ManifestDisposition : Type where
  | accepted | stale | badMasterKey | badEphemeralKey | invalid
  deriving DecidableEq, Repr

/-- `ManifestCache`. -/
structure ManifestCache where
  map : PublicKey → Option Manifest
  signingToMasterKeys : PublicKey → Option PublicKey
  seq : Nat

namespace ManifestCache

/-- The cache of a server that has seen no manifest. -/
def empty : ManifestCache := ⟨fun _ => none, fun _ => none, 0⟩

section

variable (verify : Manifest → Bool) (seen cache : ManifestCache)

/-- `ManifestCache::getSigningKey`. -/
def getSigningKey (pk : PublicKey) : PublicKey :=
  match cache.map pk with
  | some m => m.signingKey.getD pk
  | none => pk

/-- `ManifestCache::getMasterKey`. -/
def getMasterKey (pk : PublicKey) : PublicKey :=
  (cache.signingToMasterKeys pk).getD pk

/-- `ManifestCache::revoked`. -/
def revoked (pk : PublicKey) : Bool := (cache.map pk).any Manifest.revoked

/-- `prewriteCheck`: why a manifest is refused, if it is. Only a manifest that is not a revocation
has a signing key to look up. -/
def prewriteCheck (verify : Manifest → Bool) (cache : ManifestCache) (m : Manifest)
    (checkSignature : Bool) : Option ManifestDisposition :=
  if ∃ old ∈ cache.map m.masterKey, m.sequence ≤ old.sequence then some .stale
  else if checkSignature && !verify m then some .invalid
  else if cache.signingToMasterKeys m.masterKey ≠ none then some .badMasterKey
  else if ∃ key ∈ m.signingKey, cache.signingToMasterKeys key ≠ none then some .badEphemeralKey
  else if ∃ key ∈ m.signingKey, (cache.map key).isSome then some .badEphemeralKey
  else none

/-- Set what is stored for a signing key, if there is one. -/
def setKey (keys : PublicKey → Option PublicKey) (key : Option PublicKey)
    (master : Option PublicKey) : PublicKey → Option PublicKey :=
  key.elim keys fun key => update keys key master

/-- `ManifestCache::applyManifest`. The first check is made on the cache as `seen` under the shared
lock, the second one and the update under the unique lock; other calls may come between. -/
def applyManifest (m : Manifest) : ManifestDisposition × ManifestCache :=
  match seen.prewriteCheck verify m true with
  | some d => (d, cache)
  | none =>
    match cache.prewriteCheck verify m false with
    | some d => (d, cache)
    | none =>
      let map := update cache.map m.masterKey (some m)
      match cache.map m.masterKey with
      | none =>
        (.accepted, ⟨map, setKey cache.signingToMasterKeys m.signingKey m.masterKey, cache.seq⟩)
      | some old =>
        (.accepted, ⟨map, setKey (setKey cache.signingToMasterKeys old.signingKey none)
          m.signingKey m.masterKey, cache.seq + 1⟩)

/-- A sequence of calls, each with what its first check has seen. -/
def applyManifests (calls : List (ManifestCache × Manifest)) : ManifestCache :=
  calls.foldl (fun cache call => (applyManifest verify call.1 cache call.2).2) cache

end

variable {verify : Manifest → Bool} {seen cache : ManifestCache} {m : Manifest}

theorem setKey_apply (keys : PublicKey → Option PublicKey) (key master : Option PublicKey)
    (k : PublicKey) : setKey keys key master k = if key = some k then master else keys k := by
  cases key with
  | none => simp [setKey]
  | some key => simp [setKey, update_apply, eq_comm]

/-- **What a call does**: nothing, or it stores a newer manifest whose keys were free. -/
theorem applyManifest_cases :
    (applyManifest verify seen cache m).2 = cache ∨
    ((∀ old, cache.map m.masterKey = some old → old.sequence < m.sequence) ∧
      cache.signingToMasterKeys m.masterKey = none ∧
      (∀ key, m.signingKey = some key →
        cache.signingToMasterKeys key = none ∧ cache.map key = none) ∧
      (applyManifest verify seen cache m).2.map = update cache.map m.masterKey (some m) ∧
      ∀ k, (applyManifest verify seen cache m).2.signingToMasterKeys k =
        if m.signingKey = some k then some m.masterKey
        else if (cache.map m.masterKey).bind Manifest.signingKey = some k then none
        else cache.signingToMasterKeys k) := by
  cases hseen : seen.prewriteCheck verify m true with
  | some d => exact .inl (by simp [applyManifest, hseen])
  | none =>
    cases hnow : cache.prewriteCheck verify m false with
    | some d => exact .inl (by simp [applyManifest, hseen, hnow])
    | none =>
      refine .inr ?_
      have hfree := hnow
      unfold prewriteCheck at hfree
      split_ifs at hfree with hold hver hmas hkey hmap
      simp only [not_exists, not_and, UInt32.not_le, not_not, Option.mem_def] at hold hmas hkey hmap
      refine ⟨hold, hmas, fun key h => ⟨hkey key h, by simpa using hmap key h⟩, ?_⟩
      cases hmap : cache.map m.masterKey with
      | none => simp [applyManifest, hseen, hnow, hmap, setKey_apply]
      | some old => simp [applyManifest, hseen, hnow, hmap, setKey_apply]

/-- The master key of a signing key is the one whose manifest names it, and no key is of both
kinds. -/
structure Sound (cache : ManifestCache) : Prop where
  inverse : ∀ k mk, cache.signingToMasterKeys k = some mk ↔
    (cache.map mk).bind Manifest.signingKey = some k
  apart : ∀ k, cache.map k ≠ none → cache.signingToMasterKeys k = none

/-- A newer manifest replaces an older one, and nothing replaces a revocation. -/
structure Grows (cache cache' : ManifestCache) : Prop where
  sequence : ∀ mk m, cache.map mk = some m →
    ∃ m', cache'.map mk = some m' ∧ (m' = m ∨ m.sequence < m'.sequence)

theorem Grows.trans {cache' cache'' : ManifestCache} (h : cache.Grows cache')
    (h' : cache'.Grows cache'') : cache.Grows cache'' := by
  refine ⟨fun mk m hm => ?_⟩
  obtain ⟨m₁, hm₁, h₁⟩ := h.sequence mk m hm
  obtain ⟨m₂, hm₂, h₂⟩ := h'.sequence mk m₁ hm₁
  refine ⟨m₂, hm₂, ?_⟩
  rcases h₁ with rfl | h₁
  · exact h₂
  rcases h₂ with rfl | h₂
  · exact .inr h₁
  · exact .inr (UInt32.lt_trans h₁ h₂)

theorem grows_applyManifest : cache.Grows (applyManifest verify seen cache m).2 := by
  rcases applyManifest_cases with h | ⟨hnew, -, -, hmap, -⟩
  · exact ⟨fun mk m' hm => ⟨m', by rw [h, hm], .inl rfl⟩⟩
  refine ⟨fun mk m' hm => ?_⟩
  rw [hmap]
  by_cases hmk : mk = m.masterKey
  · subst hmk
    exact ⟨m, update_self .., .inr (hnew m' hm)⟩
  · exact ⟨m', by rw [update_of_ne hmk, hm], .inl rfl⟩

theorem Sound.applyManifest (h : cache.Sound) : (applyManifest verify seen cache m).2.Sound := by
  rcases applyManifest_cases with hs | ⟨-, hmas, hfree, hmap, hkeys⟩
  · rwa [hs]
  constructor
  · intro k mk
    rw [hkeys, hmap]
    by_cases hk : m.signingKey = some k
    · by_cases hmk : mk = m.masterKey
      · simp [hk, hmk]
      · -- the key was free, so no other master key has it
        have hoth := h.inverse k mk
        simp only [(hfree k hk).1, reduceCtorEq, false_iff] at hoth
        simp [hk, hmk, hoth, Ne.symm hmk]
    · rw [if_neg hk]
      by_cases hold : (cache.map m.masterKey).bind Manifest.signingKey = some k
      · have hkeep := h.inverse k
        rw [if_pos hold]
        by_cases hmk : mk = m.masterKey
        · simp [hmk, hk]
        · simp [hmk, ← hkeep, (hkeep _).mpr hold, Ne.symm hmk]
      · rw [if_neg hold, h.inverse]
        by_cases hmk : mk = m.masterKey
        · simp [hmk, hk, hold]
        · simp [hmk]
  · intro k hk
    rw [hkeys]
    rw [hmap] at hk
    by_cases hmk : k = m.masterKey
    · simp [hmk, m.distinct, hmas]
    · rw [update_of_ne hmk] at hk
      rw [if_neg fun hkey => hk (hfree k hkey).2, h.apart k hk, ite_self]

section

variable (verify : Manifest → Bool) (calls : List (ManifestCache × Manifest))

theorem sound_applyManifests (h : cache.Sound) : (applyManifests verify cache calls).Sound := by
  induction calls generalizing cache with
  | nil => exact h
  | cons call calls ih => exact ih h.applyManifest

theorem grows_applyManifests : cache.Grows (applyManifests verify cache calls) := by
  induction calls generalizing cache with
  | nil => exact ⟨fun mk m hm => ⟨m, hm, .inl rfl⟩⟩
  | cons call calls ih => exact grows_applyManifest.trans ih

end

theorem revoked_iff {mk : PublicKey} : cache.revoked mk = true ↔
    ∃ m, cache.map mk = some m ∧ m.sequence = revokedSequence := by
  cases h : cache.map mk <;> simp [revoked, Manifest.revoked, h]

/-- **The manifest cache, after any calls and any later ones.** The signing keys are exactly the
inverse of those of the manifests that are not revoked, no key is a master key and a signing key,
sequence numbers only increase, and a revoked master key stays revoked and has no signing key. -/
theorem manifests_consistent (verify : Manifest → Bool) (calls later : List (ManifestCache × Manifest)) :
    let cache := applyManifests verify empty calls
    (∀ k mk, cache.signingToMasterKeys k = some mk ↔
      ∃ m, cache.map mk = some m ∧ m.revoked = false ∧ m.signingKey = some k) ∧
    (∀ mk m, cache.map mk = some m → m.revoked = false →
      cache.getMasterKey (cache.getSigningKey mk) = mk) ∧
    (∀ k mk mk' m m', cache.map mk = some m → cache.map mk' = some m' → m.signingKey = some k →
      m'.signingKey = some k → mk = mk') ∧
    (∀ k mk m, cache.map k ≠ none → cache.map mk = some m → m.signingKey ≠ some k) ∧
    (∀ mk m, cache.map mk = some m → ∃ m', (applyManifests verify cache later).map mk = some m' ∧
      (m' = m ∨ m.sequence < m'.sequence)) ∧
    (∀ mk, cache.revoked mk = true → cache.getSigningKey mk = mk ∧
      (∀ k, cache.signingToMasterKeys k ≠ some mk) ∧
      (applyManifests verify cache later).revoked mk = true) := by
  intro cache
  have h : cache.Sound := sound_applyManifests verify calls ⟨by simp [empty], by simp [empty]⟩
  have hgrows := (grows_applyManifests verify later : cache.Grows _).sequence
  have hinverse : ∀ k mk, cache.signingToMasterKeys k = some mk ↔
      ∃ m, cache.map mk = some m ∧ m.signingKey = some k := fun k mk => by
    rw [h.inverse, Option.bind_eq_some_iff]
  have hlive : ∀ {m : Manifest} {k}, m.signingKey = some k → m.revoked = false := by
    intro m k hk
    have hnames := m.names
    simpa [hk, Manifest.revoked] using hnames
  refine ⟨fun k mk => ?_, fun mk m hm hrev => ?_, fun k mk mk' m m' hm hm' hk hk' => ?_,
    fun k mk m hk hm hkey => ?_, fun mk m hm => hgrows mk m hm, fun mk hrev => ?_⟩
  · rw [hinverse]
    exact exists_congr fun m => and_congr_right fun _ => ⟨fun hk => ⟨hlive hk, hk⟩, And.right⟩
  · have hnames : m.signingKey ≠ none := by
      simpa [m.names, Manifest.revoked] using hrev
    obtain ⟨k, hk⟩ := Option.ne_none_iff_exists'.mp hnames
    simp [getSigningKey, getMasterKey, hm, hk, (hinverse k mk).mpr ⟨m, hm, hk⟩]
  · have hmk := (hinverse k mk).mpr ⟨m, hm, hk⟩
    exact Option.some.inj (hmk.symm.trans ((hinverse k mk').mpr ⟨m', hm', hk'⟩))
  · exact Option.some_ne_none mk (((hinverse k mk).mpr ⟨m, hm, hkey⟩).symm.trans (h.apart k hk))
  obtain ⟨m, hm, hseq⟩ := revoked_iff.mp hrev
  have hnone : m.signingKey = none := m.names.mpr hseq
  refine ⟨by simp [getSigningKey, hm, hnone], fun k hk => ?_, ?_⟩
  · simp [h.inverse, hm, hnone] at hk
  obtain ⟨m', hm', rfl | hlt⟩ := hgrows mk m hm
  · exact revoked_iff.mpr ⟨m', hm', hseq⟩
  · rw [hseq] at hlt
    exact absurd m'.sequence.toNat_lt (not_lt.mpr (UInt32.lt_iff_toNat_lt.mp hlt))

end ManifestCache

end Xahau.Validator
