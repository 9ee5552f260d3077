import Xahau.Basics.Protocol
import Xahau.Data.Assignments
import Xahau.Import.Proof

/-! # The quorum of an XPOP (`Import.cpp`, `Import.h`)

`Import::preflight` reads the validator list into two maps, from node keys to signing keys and from
master keys to node keys, and walks over the validations, each under a node key or a master key. It
accepts if those it counts reach the quorum. Parsers and signature checks are `Readers`.

* `lookup_validators` says what the first map holds, whatever keys the list repeats;
* `Tallied` is what the walk keeps: the counted node keys are different, and each has a validation
  by its signing key;
* `count_le_card_endorsers`: if no master key is listed with two signing keys, no validator is
  counted twice;
* `quorate_iff` compares the quorum with four fifths of the list. It is rounded down, so three of
  four validators are enough. -/

namespace Xahau

open Assignments Hex List

variable {data : Json} {key : PublicKey} {rules : Rules}

/-- `strUnHex`: the first digit of an odd number of them is a byte of its own. -/
def strUnHex (text : String) : Option (List UInt8) :=
  match text.toList.length % 2, text.toList with
  | 1, first :: rest => do
    let c ← Hex.value? first
    let bytes ← Hex.decode rest
    some (UInt8.ofNat c :: bytes)
  | _, digits => Hex.decode digits

theorem length_encode (bytes : List UInt8) : (encode bytes).length = 2 * bytes.length := by
  induction bytes with
  | nil => rfl
  | cons b bytes ih =>
    rw [encode, flatMap_cons, length_append, ← encode, ih, length_cons]
    simp
    omega

@[simp] theorem strUnHex_strHex (bytes : List UInt8) : strUnHex (strHex bytes) = some bytes := by
  have heven : (encode bytes).length % 2 = 0 := by
    rw [length_encode]
    exact Nat.mul_mod_right 2 _
  rw [strUnHex, strHex, String.toList_ofList, heven]
  exact decode_encode bytes

theorem strHex_injective : Function.Injective strHex := by
  intro a b h
  have hread := congrArg strUnHex h
  simpa using hread

theorem isHex_strHex (bytes : List UInt8) : isHex (strHex bytes) = true := by
  rw [isHex, strHex, String.toList_ofList, all_eq_true]
  intro c hc
  obtain ⟨b, -, hb⟩ := mem_flatMap.mp hc
  have hlt := b.toNat_lt
  rcases mem_cons.mp hb with rfl | hb
  · rw [value?_digit (by omega)]
    rfl
  · rw [mem_singleton.mp hb, value?_digit (Nat.mod_lt _ (by decide))]
    rfl

theorem PublicKey.eq_of_data_eq {a b : PublicKey} (h : a.data = b.data) : a = b := by
  cases a
  cases b
  cases h
  rfl

/-- `isBase58`. -/
def isBase58 (str : String) : Bool :=
  str.toList.all fun c =>
    "rpshnaf39wBUDNEGHJKLM4PQRST7VWXYZ2bcdeCg65jkm8oFqi1tuvAxyz".toList.contains c

namespace Import

/-- `Manifest`: a master key names another key for signing. A revocation has none. -/
structure Manifest where
  masterKey : PublicKey
  signingKey : Option PublicKey
  distinct : signingKey ≠ some masterKey
  deriving DecidableEq

instance : Inhabited Manifest := ⟨⟨.ofByte 0, none, nofun⟩⟩

/-- The bytes of `signingKey`, none for a key that was not set. -/
def Manifest.signingBytes (m : Manifest) : List UInt8 :=
  match m.signingKey with
  | some key => key.data
  | none => []

/-- `STValidation`, with the outcome of its signature check. -/
structure Validation where
  getLedgerHash : UInt256
  getSignerPublic : PublicKey
  isValid : Bool

/-- What the code calls to read keys, manifests and validations. -/
structure Readers where
  /-- `deserializeManifest(base64_decode(text))`. -/
  deserializeManifest : String → Option Manifest
  /-- `Manifest::verify`. -/
  verify : Manifest → Bool
  /-- `toBase58(TokenType::NodePublic, key)`. -/
  toBase58 : List UInt8 → String
  /-- The constructor of `STValidation`; nothing if it throws. -/
  readValidation : List UInt8 → Option Validation

/-! ## The validator list -/

/-- The manifest of an entry of the list, unless the entry is skipped. -/
def entryManifest (readers : Readers) (val : Json) : Option Manifest :=
  if !val.isObject || !val.isMember "validation_public_key" ||
      !(val.get "validation_public_key").isString || !val.isMember "manifest" ||
      !(val.get "manifest").isString then none
  else
    match strUnHex (val.get "validation_public_key").asString with
    | none => none
    | some ret =>
      if (publicKeyType ret).isNone then none
      else
        match readers.deserializeManifest (val.get "manifest").asString with
        | none => none
        | some m =>
          if !(val.get "validation_public_key").isText (strHex m.masterKey.data) then none
          else if !readers.verify m then none
          else some m

/-- The maps that the list is read into. -/
structure Listed where
  /-- From node keys to signing keys. -/
  validators : AList fun _ : String => String
  /-- From master keys to node keys. -/
  validatorsMaster : AList fun _ : String => String
  totalValidatorCount : Nat

section

variable (readers : Readers) (rules : Rules) (list : List Json)

/-- One entry of the list. A skipped entry counts too. -/
def addEntry (listed : Listed) (val : Json) : Listed :=
  let listed := { listed with totalValidatorCount := listed.totalValidatorCount + 1 }
  match entryManifest readers val with
  | none => listed
  | some m =>
    let nodepub := readers.toBase58 m.signingBytes
    let nodemaster := readers.toBase58 m.masterKey.data
    { listed with
      validators := listed.validators.insert nodepub (strHex m.signingBytes)
      validatorsMaster := listed.validatorsMaster.insert nodemaster nodepub }

/-- The list, read into empty maps. -/
def parseList : Listed :=
  list.foldl (addEntry readers) ⟨∅, ∅, 0⟩

/-- `quorum`: `totalValidatorCount * 0.8` as a `uint64_t`, rounded down. The `double` is just above
four fifths; the two agree for all lists that fit into memory. -/
def quorum (totalValidatorCount : Nat) : Nat :=
  let quorum := 4 * totalValidatorCount / 5
  if quorum = 0 then 1 else quorum

/-! ## The validations -/

/-- The check of `syntaxCheckXPOP` on `validation.data`. -/
def syntaxCheckData (data : Json) : Bool :=
  data.isObject && data.getMemberNames.all fun key =>
    isBase58 key && (data.get key).isString && isHex (data.get key).asString

/-- Whether a member of `data` is a correctly signed validation by the signing key. -/
def validates (computedLedgerHash : UInt256) (signingKey : String) (datum : Json) : Bool :=
  match strUnHex datum.asString with
  | none => false
  | some valBlob =>
    match readers.readValidation valBlob with
    | none => false
    | some val =>
      val.getLedgerHash == computedLedgerHash &&
      strHex val.getSignerPublic.data == signingKey && val.isValid

/-- The state of the walk over `data`. -/
structure Walk where
  usedKey : List String
  validationCount : Nat

section

variable (listed : Listed) (data : Json) (computedLedgerHash : UInt256) (walk : Walk) (key : String)

/-- The node key that is listed for a master key. -/
def Listed.regular : Option String :=
  (listed.validatorsMaster.lookup key).filter fun nodepub =>
    (listed.validators.lookup nodepub).isSome

/-- One member of `data`. A member under a master key is that of the regular key. -/
def countKey : Walk :=
  let usedKey := if (listed.regular key).isSome then key :: walk.usedKey else walk.usedKey
  let nodepub := (listed.regular key).getD key
  match listed.validators.lookup nodepub with
  | none => { walk with usedKey := usedKey }
  | some signingKey =>
    if nodepub ∈ usedKey then { walk with usedKey := usedKey }
    else
      { usedKey := nodepub :: usedKey
        validationCount := walk.validationCount +
          if validates readers computedLedgerHash signingKey (data.get key) then 1 else 0 }

/-- The number of validations of the ledger hash. -/
def countValidations : Nat :=
  (data.getMemberNames.foldl (countKey readers listed data computedLedgerHash)
    ⟨[], 0⟩).validationCount

end

/-- `hasInsufficientQuorum`. -/
def hasInsufficientQuorum (quorum validationCount : Nat) : Bool :=
  if rules.enabled .fixXahauV1 then decide (quorum > validationCount)
  else decide (quorum ≥ validationCount)

section

variable (data : Json) (computedLedgerHash : UInt256)

/-- The part of `preflight` that reads the list and the validations. -/
def checkQuorum : Ter :=
  let listed := parseList readers list
  if !syntaxCheckData data then .temMALFORMED
  else if hasInsufficientQuorum rules (quorum listed.totalValidatorCount)
      (countValidations readers listed data computedLedgerHash) then .temMALFORMED
  else .tesSUCCESS

/-! ## What the quorum is for -/

/-- The verified manifests of a list. -/
def manifests : List Manifest :=
  list.filterMap (entryManifest readers)

/-- Some member of `data` is a validation by the signing key of the manifest. -/
def Manifest.endorses (m : Manifest) : Bool :=
  data.getMemberNames.any fun key =>
    validates readers computedLedgerHash (strHex m.signingBytes) (data.get key)

/-- The listed validators, by master keys, with a validation of the ledger by the signing key of a
verified manifest. -/
def endorsers : Finset PublicKey :=
  (((manifests readers list).filter fun m => m.endorses readers data computedLedgerHash).map
    Manifest.masterKey).toFinset

end

/-- Four fifths of the listed validators endorse whatever is accepted, and none is counted twice. -/
def Quorate : Prop :=
  ∀ data computedLedgerHash, checkQuorum readers rules list data computedLedgerHash = .tesSUCCESS →
    4 * list.length ≤ 5 * (endorsers readers list data computedLedgerHash).card ∧
      countValidations readers (parseList readers list) data computedLedgerHash
        ≤ (endorsers readers list data computedLedgerHash).card

/-- No master key is listed with two signing keys. -/
def SingleKeyed : Prop :=
  ∀ m ∈ manifests readers list, ∀ m' ∈ manifests readers list, m.masterKey = m'.masterKey →
    m.signingKey = m'.signingKey

def signingKeys : Finset PublicKey :=
  ((manifests readers list).filterMap Manifest.signingKey).toFinset

/-- Four fifths of the list are a whole number, or it has one entry, or too few signing keys for
anything to be accepted. -/
def WholeQuorum : Prop :=
  5 ∣ list.length ∨ list.length = 1 ∨
    (signingKeys readers list).card < quorum list.length

end

/-- A list as publishers make them: each validator has its own master and signing keys, and no key
is both. -/
structure Plain (readers : Readers) (list : List Json) : Prop where
  /-- One signing key a validator. -/
  singleKeyed : SingleKeyed readers list
  /-- One validator a signing key. -/
  ownKey : ∀ m ∈ manifests readers list, ∀ m' ∈ manifests readers list, ∀ key ∈ m.signingKey,
    key ∈ m'.signingKey → m.masterKey = m'.masterKey
  /-- No signing key is a master key. -/
  apart : ∀ m ∈ manifests readers list, ∀ m' ∈ manifests readers list,
    m.signingKey ≠ some m'.masterKey

/-- To show that a rounded quorum is reached: node keys have different texts, in base 58, and
signing keys can sign. -/
structure CanSign (readers : Readers) (list : List Json) : Prop where
  injective : Function.Injective readers.toBase58
  base58 : ∀ key, isBase58 (readers.toBase58 key) = true
  sign : ∀ key ∈ signingKeys readers list, ∀ computedLedgerHash, ∃ valBlob val,
    readers.readValidation valBlob = some val ∧ val.getLedgerHash = computedLedgerHash ∧
      val.getSignerPublic = key ∧ val.isValid = true

/-! ## The maps of a list -/

section

variable (readers : Readers) (val : Json) (list : List Json)

theorem totalValidatorCount_parseList :
    (parseList readers list).totalValidatorCount = list.length := by
  suffices h : ∀ listed, (list.foldl (addEntry readers) listed).totalValidatorCount
      = listed.totalValidatorCount + list.length by
    rw [parseList, h, Nat.zero_add]
  induction list with
  | nil => exact fun _ => rfl
  | cons val list ih =>
    intro listed
    have hone : (addEntry readers listed val).totalValidatorCount
        = listed.totalValidatorCount + 1 := by
      rw [addEntry]
      cases entryManifest readers val <;> rfl
    rw [foldl_cons, ih, hone, length_cons]
    omega

/-- What a manifest writes into the first map. -/
def Manifest.node (m : Manifest) : String × String :=
  (readers.toBase58 m.signingBytes, strHex m.signingBytes)

/-- What a manifest writes into the second map. -/
def Manifest.nodeMaster (m : Manifest) : String × String :=
  (readers.toBase58 m.masterKey.data, readers.toBase58 m.signingBytes)

theorem manifests_cons :
    manifests readers (val :: list) = (entryManifest readers val).toList ++ manifests readers list := by
  rw [manifests, filterMap_cons]
  cases entryManifest readers val <;> rfl

theorem maps_parseList :
    (parseList readers list).validators
        = ((manifests readers list).map (Manifest.node readers)).foldl
          (fun map p => map.insert p.1 p.2) ∅ ∧
      (parseList readers list).validatorsMaster
        = ((manifests readers list).map (Manifest.nodeMaster readers)).foldl
          (fun map p => map.insert p.1 p.2) ∅ := by
  suffices h : ∀ listed,
      (list.foldl (addEntry readers) listed).validators
          = ((manifests readers list).map (Manifest.node readers)).foldl
            (fun map p => map.insert p.1 p.2) listed.validators ∧
        (list.foldl (addEntry readers) listed).validatorsMaster
          = ((manifests readers list).map (Manifest.nodeMaster readers)).foldl
            (fun map p => map.insert p.1 p.2) listed.validatorsMaster from h _
  induction list with
  | nil => exact fun _ => ⟨rfl, rfl⟩
  | cons val list ih =>
    intro listed
    rw [foldl_cons, (ih _).1, (ih _).2, addEntry, manifests_cons]
    cases entryManifest readers val <;> exact ⟨rfl, rfl⟩

theorem lookup_validators (nodepub : String) :
    (parseList readers list).validators.lookup nodepub
      = lastValue ((manifests readers list).map (Manifest.node readers)) nodepub := by
  rw [(maps_parseList readers list).1, lookup_foldl_insert]
  exact Option.or_none

end

variable {list : List Json} {listed : Listed} {m : Manifest} {n : Nat} {readers : Readers}
  {hash : UInt256} {walk : Walk}

theorem exists_of_lookup_validators {nodepub signingKey : String}
    (h : (parseList readers list).validators.lookup nodepub = some signingKey) :
    ∃ m ∈ manifests readers list, readers.toBase58 m.signingBytes = nodepub ∧
      strHex m.signingBytes = signingKey := by
  rw [lookup_validators] at h
  obtain ⟨m, hm, heq⟩ := mem_map.mp (mem_of_lastValue h)
  exact ⟨m, hm, congrArg Prod.fst heq, congrArg Prod.snd heq⟩

theorem lookup_validators_of_mem (hinj : Function.Injective readers.toBase58)
    (hm : m ∈ manifests readers list) :
    (parseList readers list).validators.lookup (readers.toBase58 m.signingBytes)
      = some (strHex m.signingBytes) := by
  rw [lookup_validators]
  refine lastValue_eq_some (mem_map.mpr ⟨m, hm, rfl⟩) fun w hw => ?_
  obtain ⟨m', -, heq⟩ := mem_map.mp hw
  have hkey : m'.signingBytes = m.signingBytes := hinj (congrArg Prod.fst heq)
  rw [← hkey]
  exact (congrArg Prod.snd heq).symm

/-! ## What the walk counts -/

theorem signingKey_of_validates
    {datum : Json} (h : validates readers hash (strHex m.signingBytes) datum = true) :
    ∃ valBlob val, strUnHex datum.asString = some valBlob ∧
      readers.readValidation valBlob = some val ∧ m.signingKey = some val.getSignerPublic := by
  rw [validates] at h
  split at h
  next => cases h
  next valBlob hhex =>
    split at h
    next => cases h
    next val hval =>
      refine ⟨valBlob, val, hhex, hval, ?_⟩
      rw [Bool.and_eq_true, Bool.and_eq_true, beq_iff_eq, beq_iff_eq] at h
      have hbyt := strHex_injective h.1.2
      have hkey := val.getSignerPublic.isKey
      rw [Manifest.signingBytes] at hbyt
      split at hbyt
      next key hsome =>
        rw [hsome]
        exact congrArg some (PublicKey.eq_of_data_eq hbyt.symm)
      next hn =>
        rw [hbyt] at hkey
        cases hkey

/-- What holds of the node keys counted so far. -/
structure Tallied (readers : Readers) (listed : Listed) (data : Json)
    (computedLedgerHash : UInt256) (walk : Walk) (counted : List String) : Prop where
  nodup : counted.Nodup
  length : counted.length = walk.validationCount
  /-- They are marked, so that they are not counted again. -/
  used : ∀ nodepub ∈ counted, nodepub ∈ walk.usedKey
  /-- The signing key listed for each has made a validation. -/
  validated : ∀ nodepub ∈ counted, ∃ signingKey, listed.validators.lookup nodepub = some signingKey ∧
    ∃ key ∈ data.getMemberNames,
      validates readers computedLedgerHash signingKey (data.get key) = true

theorem Tallied.countKey {counted : List String}
    (h : Tallied readers listed data hash walk counted) {key : String}
    (hkey : key ∈ data.getMemberNames) :
    ∃ counted', Tallied readers listed data hash
      (countKey readers listed data hash walk key) counted' := by
  rw [Import.countKey]
  set usedKey := if (listed.regular key).isSome then key :: walk.usedKey else walk.usedKey with hused
  have hsub : ∀ nodepub ∈ walk.usedKey, nodepub ∈ usedKey := by
    intro nodepub hmem
    rw [hused]
    split
    · exact mem_cons_of_mem _ hmem
    · exact hmem
  have hstay : Tallied readers listed data hash
      { walk with usedKey := usedKey } counted :=
    ⟨h.nodup, h.length, fun nodepub hmem => hsub _ (h.used _ hmem), h.validated⟩
  split
  next => exact ⟨counted, hstay⟩
  next signingKey hsig =>
    split
    next => exact ⟨counted, hstay⟩
    next hfre =>
      split
      next hvalid =>
        refine ⟨(listed.regular key).getD key :: counted, ?_, ?_, ?_, ?_⟩
        · exact nodup_cons.mpr ⟨fun hmem => hfre (hstay.used _ hmem), h.nodup⟩
        · rw [length_cons, h.length]
        · intro nodepub hmem
          rcases mem_cons.mp hmem with rfl | hmem
          · exact mem_cons_self
          · exact mem_cons_of_mem _ (hstay.used _ hmem)
        · intro nodepub hmem
          rcases mem_cons.mp hmem with rfl | hmem
          · exact ⟨signingKey, hsig, key, hkey, hvalid⟩
          · exact h.validated _ hmem
      next =>
        refine ⟨counted, h.nodup, h.length, fun nodepub hmem => ?_, h.validated⟩
        exact mem_cons_of_mem _ (hstay.used _ hmem)

theorem exists_tallied (readers : Readers) (listed : Listed) (data : Json) (hash : UInt256) :
    ∃ walk counted, walk.validationCount = countValidations readers listed data hash ∧
      Tallied readers listed data hash walk counted := by
  obtain ⟨counted, hcounted⟩ : ∃ counted, Tallied readers listed data hash
      (data.getMemberNames.foldl (countKey readers listed data hash) ⟨[], 0⟩)
      counted := by
    refine foldlRecOn (motive := fun walk => ∃ counted,
      Tallied readers listed data hash walk counted) _ _ ?_ ?_
    · exact ⟨[], nodup_nil, rfl, nofun, nofun⟩
    · rintro walk ⟨counted, h⟩ key hkey
      exact h.countKey hkey
  exact ⟨_, counted, rfl, hcounted⟩

theorem mem_endorsers {masterKey : PublicKey} :
    masterKey ∈ endorsers readers list data hash ↔
      ∃ m ∈ manifests readers list, m.endorses readers data hash = true ∧
        m.masterKey = masterKey := by
  simp only [endorsers, mem_toFinset, mem_map, mem_filter, and_assoc]

theorem exists_counted (readers : Readers) (list : List Json) (data : Json) (hash : UInt256) :
    ∃ counted : List Manifest,
      counted.length
          = countValidations readers (parseList readers list) data hash ∧
        (counted.map fun m => readers.toBase58 m.signingBytes).Nodup ∧
        ∀ m ∈ counted, m ∈ manifests readers list ∧ m.endorses readers data hash = true := by
  obtain ⟨walk, nodepubs, hcount, h⟩ :=
    exists_tallied readers (parseList readers list) data hash
  have hman : ∀ nodepub ∈ nodepubs, ∃ m : Manifest,
      readers.toBase58 m.signingBytes = nodepub ∧ m ∈ manifests readers list ∧
        m.endorses readers data hash = true := by
    intro nodepub hmem
    obtain ⟨signingKey, hlk, hvalid⟩ := h.validated nodepub hmem
    obtain ⟨m, hm, hnode, rfl⟩ := exists_of_lookup_validators hlk
    exact ⟨m, hnode, hm, any_eq_true.mpr hvalid⟩
  choose! manifest hnode hvalid using hman
  refine ⟨nodepubs.map manifest, ?_, ?_, ?_⟩
  · rw [length_map, h.length, hcount]
  · have hnod : nodepubs.map ((fun m => readers.toBase58 m.signingBytes) ∘ manifest) = nodepubs :=
      (map_congr_left hnode).trans (map_id _)
    rw [map_map, hnod]
    exact h.nodup
  · intro m hm
    obtain ⟨nodepub, hmem, rfl⟩ := mem_map.mp hm
    exact hvalid nodepub hmem

theorem nodup_map_of_node {counted : List Manifest} {α : Type*} {f : Manifest → α}
    (hnd : (counted.map fun m => readers.toBase58 m.signingBytes).Nodup)
    (hf : ∀ m ∈ counted, ∀ m' ∈ counted, f m = f m' → m.signingKey = m'.signingKey) :
    (counted.map f).Nodup := by
  refine List.Nodup.map_on (fun m hm m' hm' heq => ?_) (hnd.of_map _)
  refine inj_on_of_nodup_map hnd hm hm' ?_
  rw [Manifest.signingBytes, Manifest.signingBytes, hf m hm m' hm' heq]

/-- **No validator is counted twice**: each node key counted is that of an endorsing validator, who
has one. -/
theorem count_le_card_endorsers (hkeys : SingleKeyed readers list) (data : Json) (hash : UInt256) :
    countValidations readers (parseList readers list) data hash
      ≤ (endorsers readers list data hash).card := by
  obtain ⟨counted, hlen, hnd, hcou⟩ :=
    exists_counted readers list data hash
  have hmas : (counted.map Manifest.masterKey).Nodup :=
    nodup_map_of_node hnd fun m hm m' hm' => hkeys m (hcou m hm).1 m' (hcou m' hm').1
  rw [← hlen, ← length_map Manifest.masterKey, ← toFinset_card_of_nodup hmas]
  refine Finset.card_le_card fun masterKey hmem => ?_
  obtain ⟨m, hm, rfl⟩ := mem_map.mp (mem_toFinset.mp hmem)
  exact mem_endorsers.mpr ⟨m, (hcou m hm).1, (hcou m hm).2, rfl⟩

theorem mem_signingKeys :
    key ∈ signingKeys readers list ↔ ∃ m ∈ manifests readers list, m.signingKey = some key := by
  rw [signingKeys, mem_toFinset, mem_filterMap]

theorem count_le_card_signingKeys (readers : Readers) (list : List Json) (data : Json)
    (hash : UInt256) :
    countValidations readers (parseList readers list) data hash
      ≤ (signingKeys readers list).card := by
  obtain ⟨counted, hlen, hnd, hcou⟩ :=
    exists_counted readers list data hash
  have hsigne : (counted.map Manifest.signingKey).Nodup :=
    nodup_map_of_node hnd fun _ _ _ _ heq => heq
  rw [← hlen, ← length_map Manifest.signingKey, ← toFinset_card_of_nodup hsigne,
    ← Finset.card_image_of_injective _ (Option.some_injective PublicKey)]
  refine Finset.card_le_card fun signingKey hmem => ?_
  obtain ⟨m, hm, rfl⟩ := mem_map.mp (mem_toFinset.mp hmem)
  obtain ⟨hlis, hend⟩ := hcou m hm
  obtain ⟨key, -, hvalid⟩ := any_eq_true.mp hend
  obtain ⟨-, val, -, -, hsig⟩ := signingKey_of_validates hvalid
  rw [hsig, Finset.mem_image]
  exact ⟨_, mem_signingKeys.mpr ⟨m, hlis, hsig⟩, rfl⟩

/-! ## Four fifths -/

theorem checkQuorum_eq_tesSUCCESS (hfix : rules.enabled .fixXahauV1 = true) :
    checkQuorum readers rules list data hash = .tesSUCCESS ↔
      syntaxCheckData data = true ∧ quorum list.length
        ≤ countValidations readers (parseList readers list) data hash := by
  rw [checkQuorum, hasInsufficientQuorum, totalValidatorCount_parseList]
  cases syntaxCheckData data with
  | false => simp
  | true => simp [hfix]

theorem le_five_mul_quorum (h : 5 ∣ n ∨ n = 1) : 4 * n ≤ 5 * quorum n := by
  rw [quorum]
  split <;> omega

theorem five_mul_quorum_lt (hdvd : ¬ 5 ∣ n) (hone : n ≠ 1) : 5 * quorum n < 4 * n := by
  rw [quorum]
  split <;> omega

theorem quorate_of_wholeQuorum (hfix : rules.enabled .fixXahauV1 = true)
    (hkeys : SingleKeyed readers list) (hwho : WholeQuorum readers list) :
    Quorate readers rules list := by
  intro data hash hacc
  obtain ⟨-, hquo⟩ := (checkQuorum_eq_tesSUCCESS hfix).mp hacc
  have hcount := count_le_card_endorsers hkeys data hash
  refine ⟨?_, hcount⟩
  have hrea := hquo.trans hcount
  rcases or_assoc.mpr hwho with hwho | hfew
  · exact (le_five_mul_quorum hwho).trans (Nat.mul_le_mul_left 5 hrea)
  · have hsig := count_le_card_signingKeys readers list data hash
    omega

/-! ## Lists with a rounded quorum -/

/-- The data in which the holders of some signing keys each supply a validation. -/
def supply (readers : Readers) (valBlob : PublicKey → List UInt8) (keys : List PublicKey) : Json :=
  .obj (keys.map fun key => (readers.toBase58 key.data, .str (strHex (valBlob key))))

section Supply

variable {readers : Readers} {list : List Json} {valBlob : PublicKey → List UInt8}
  {keys : List PublicKey} (hinj : Function.Injective readers.toBase58)

include hinj

theorem get_supply (hkey : key ∈ keys) :
    (supply readers valBlob keys).get (readers.toBase58 key.data)
      = .str (strHex (valBlob key)) := by
  suffices h : (keys.map fun key => (readers.toBase58 key.data,
      Json.str (strHex (valBlob key)))).lookup (readers.toBase58 key.data)
        = some (.str (strHex (valBlob key))) by
    rw [supply, Json.get, h, Option.getD_some]
  induction keys with
  | nil => cases hkey
  | cons first keys ih =>
    rw [map_cons, lookup_cons]
    by_cases heq : key = first
    · subst heq
      simp
    have hne : readers.toBase58 key.data ≠ readers.toBase58 first.data :=
      fun h => heq (PublicKey.eq_of_data_eq (hinj h))
    rw [beq_eq_false_iff_ne.mpr hne]
    exact ih ((mem_cons.mp hkey).resolve_left heq)

omit hinj in
theorem mem_names_supply {name : String} :
    name ∈ (supply readers valBlob keys).getMemberNames ↔
      ∃ key ∈ keys, readers.toBase58 key.data = name := by
  rw [supply, Json.getMemberNames, List.mem_insertionSort, List.mem_dedup, List.map_map,
    List.mem_map]
  rfl

theorem length_names_supply (hkeys : keys.Nodup) :
    (supply readers valBlob keys).getMemberNames.length = keys.length := by
  have hnd : (keys.map fun key => readers.toBase58 key.data).Nodup :=
    hkeys.map fun _ _ h => PublicKey.eq_of_data_eq (hinj h)
  rw [supply, Json.getMemberNames, length_insertionSort, map_map]
  change (keys.map fun key => readers.toBase58 key.data).dedup.length = _
  rw [hnd.dedup, length_map]

theorem syntaxCheckData_supply (hbase : ∀ key, isBase58 (readers.toBase58 key) = true) :
    syntaxCheckData (supply readers valBlob keys) = true := by
  rw [syntaxCheckData, Bool.and_eq_true, all_eq_true]
  refine ⟨rfl, fun name hname => ?_⟩
  obtain ⟨key, hkey, rfl⟩ := mem_names_supply.mp hname
  rw [get_supply hinj hkey, hbase]
  exact isHex_strHex _

end Supply

theorem count_foldl {names : List String} (hnd : names.Nodup)
    (hname : ∀ name ∈ names, listed.regular name = none ∧ ∃ signingKey,
      listed.validators.lookup name = some signingKey ∧
        validates readers hash signingKey (data.get name) = true)
    (hfre : ∀ name ∈ names, name ∉ walk.usedKey) :
    (names.foldl (countKey readers listed data hash) walk).validationCount
      = walk.validationCount + names.length := by
  induction names generalizing walk with
  | nil => rfl
  | cons name names ih =>
    obtain ⟨hreg, signingKey, hlk, hvalid⟩ := hname name mem_cons_self
    have hstep : countKey readers listed data hash walk name
        = ⟨name :: walk.usedKey, walk.validationCount + 1⟩ := by
      rw [countKey, hreg]
      simp only [Option.isSome_none, Bool.false_eq_true, if_false, Option.getD_none, hlk,
        if_neg (hfre name mem_cons_self), hvalid, if_true]
    rw [nodup_cons] at hnd
    rw [foldl_cons, hstep, ih hnd.2
      (fun name' hmem => hname name' (mem_cons_of_mem _ hmem)), length_cons,
      Nat.add_assoc, Nat.add_comm 1]
    · intro name' hmem
      rw [mem_cons, not_or]
      refine ⟨?_, hfre name' (mem_cons_of_mem _ hmem)⟩
      rintro rfl
      exact hnd.1 hmem

theorem regular_eq_none (hinj : Function.Injective readers.toBase58)
    (hkey : ∀ m ∈ manifests readers list, m.masterKey ≠ key) :
    (parseList readers list).regular (readers.toBase58 key.data) = none := by
  have hmas : (parseList readers list).validatorsMaster.lookup (readers.toBase58 key.data)
      = none := by
    rw [(maps_parseList readers list).2, lookup_foldl_insert, AList.lookup_empty, Option.or_none,
      Option.eq_none_iff_forall_ne_some]
    intro nodepub hsome
    obtain ⟨m, hm, heq⟩ := mem_map.mp (mem_of_lastValue hsome)
    exact hkey m hm (PublicKey.eq_of_data_eq (hinj (congrArg Prod.fst heq)))
  rw [Listed.regular, hmas, Option.filter_none]

section Rounded

variable {readers : Readers} {list : List Json} {valBlob : PublicKey → List UInt8}
  {hash : UInt256} {keys : List PublicKey}
  (hinj : Function.Injective readers.toBase58)
  (hsign : ∀ key ∈ keys, ∃ val, readers.readValidation (valBlob key) = some val ∧
    val.getLedgerHash = hash ∧ val.getSignerPublic = key ∧ val.isValid = true)

include hinj hsign

theorem count_supply (hapa : ∀ m ∈ manifests readers list, ∀ m' ∈ manifests readers list,
      m.signingKey ≠ some m'.masterKey)
    (hnd : keys.Nodup) (hkeys : ∀ key ∈ keys, key ∈ signingKeys readers list) :
    countValidations readers (parseList readers list) (supply readers valBlob keys)
      hash = keys.length := by
  have hnam : (supply readers valBlob keys).getMemberNames.Nodup := by
    rw [supply, Json.getMemberNames]
    exact (perm_insertionSort _ _).nodup_iff.mpr (nodup_dedup _)
  rw [countValidations, count_foldl hnam ?_ fun _ _ => not_mem_nil, Nat.zero_add,
    length_names_supply hinj hnd]
  intro name hname
  obtain ⟨key, hkey, rfl⟩ := mem_names_supply.mp hname
  obtain ⟨m, hm, hsig⟩ := mem_signingKeys.mp (hkeys key hkey)
  refine ⟨regular_eq_none hinj fun m' hm' heq => hapa m hm m' hm' (by rw [hsig, heq]),
    strHex key.data, ?_, ?_⟩
  · have hlk := lookup_validators_of_mem hinj hm
    rwa [Manifest.signingBytes, hsig] at hlk
  obtain ⟨val, hread, hhash, hsigne, hvalid⟩ := hsign key hkey
  rw [get_supply hinj hkey, validates, Json.asString, strUnHex_strHex]
  simp [hread, hhash, hsigne, hvalid]

theorem exists_of_mem_endorsers_supply (masterKey : PublicKey)
    (hmem : masterKey ∈ endorsers readers list (supply readers valBlob keys) hash) :
    ∃ key ∈ keys, ∃ m ∈ manifests readers list, m.masterKey = masterKey ∧
      m.signingKey = some key := by
  obtain ⟨m, hm, hend, hmas⟩ := mem_endorsers.mp hmem
  obtain ⟨name, hname, hvalid⟩ := any_eq_true.mp hend
  obtain ⟨key, hkey, rfl⟩ := mem_names_supply.mp hname
  rw [get_supply hinj hkey] at hvalid
  obtain ⟨blob, val, hhex, hread, hsig⟩ := signingKey_of_validates hvalid
  rw [Json.asString, strUnHex_strHex, Option.some.injEq] at hhex
  subst hhex
  obtain ⟨val', hread', -, hkey', -⟩ := hsign key hkey
  obtain rfl : val' = val := Option.some.inj (hread'.symm.trans hread)
  exact ⟨key, hkey, m, hm, hmas, by rw [hsig, hkey']⟩

theorem card_endorsers_supply_le
    (hown : ∀ m ∈ manifests readers list, ∀ m' ∈ manifests readers list, ∀ key ∈ m.signingKey,
      key ∈ m'.signingKey → m.masterKey = m'.masterKey) :
    (endorsers readers list (supply readers valBlob keys) hash).card ≤ keys.length := by
  have : Inhabited PublicKey := ⟨.ofByte 0⟩
  choose! signer hsig hman using
    @exists_of_mem_endorsers_supply readers list valBlob hash keys hinj hsign
  refine le_trans ?_ (toFinset_card_le keys)
  refine Finset.card_le_card_of_injOn signer
    (fun master hmem => mem_toFinset.mpr (hsig master hmem)) ?_
  intro master hmem master' hmem' heq
  obtain ⟨m, hm, rfl, hkey⟩ := hman master hmem
  obtain ⟨m', hm', rfl, hkey'⟩ := hman master' hmem'
  exact hown m hm m' hm' _ hkey (hkey'.trans (congrArg some heq.symm))

end Rounded

/-- With a plain list and a rounded quorum, less than four fifths can be accepted. -/
theorem wholeQuorum_of_quorate (hfix : rules.enabled .fixXahauV1 = true) (hpla : Plain readers list)
    (hcan : CanSign readers list) (hquo : Quorate readers rules list) :
    WholeQuorum readers list := by
  by_contra hnot
  rw [WholeQuorum, not_or, not_or, not_lt] at hnot
  obtain ⟨hdvd, hone, heno⟩ := hnot
  obtain ⟨keys, hkeys, hcard⟩ := Finset.exists_subset_card_eq heno
  let hash : UInt256 := .zero
  have hlis : ∀ key ∈ keys.toList, key ∈ signingKeys readers list :=
    fun key hkey => hkeys (Finset.mem_toList.mp hkey)
  have hsign : ∀ key ∈ keys.toList, ∃ valBlob, ∃ val, readers.readValidation valBlob = some val ∧
      val.getLedgerHash = hash ∧ val.getSignerPublic = key ∧ val.isValid = true :=
    fun key hkey => hcan.sign key (hlis key hkey) hash
  choose! valBlob hblob using hsign
  have hcount := count_supply hcan.injective hblob hpla.apart keys.nodup_toList hlis
  have hcar := card_endorsers_supply_le hcan.injective hblob hpla.ownKey
  rw [Finset.length_toList, hcard] at hcount hcar
  have hacc : checkQuorum readers rules list (supply readers valBlob keys.toList)
      hash = .tesSUCCESS :=
    (checkQuorum_eq_tesSUCCESS hfix).mpr
      ⟨syntaxCheckData_supply hcan.injective hcan.base58, hcount.ge⟩
  have hfour := (hquo _ _ hacc).1
  have hless := five_mul_quorum_lt hdvd hone
  omega

/-- **The quorum of an XPOP.** If no master key is listed with two signing keys, and four fifths of
the list are a whole number (or it has one entry, or too few signing keys), four fifths of the
listed validators endorse whatever is accepted, and none is counted twice. For a plain list this is
also necessary. -/
theorem quorate_iff (readers : Readers) (rules : Rules) (hfix : rules.enabled .fixXahauV1 = true)
    (list : List Json) :
    (SingleKeyed readers list → WholeQuorum readers list → Quorate readers rules list) ∧
      (Plain readers list → CanSign readers list →
        (Quorate readers rules list ↔ WholeQuorum readers list)) :=
  ⟨quorate_of_wholeQuorum hfix, fun hplain hcan =>
    ⟨wholeQuorum_of_quorate hfix hplain hcan, quorate_of_wholeQuorum hfix hplain.singleKeyed⟩⟩

/-! ## Sample lists -/

def letterKey (letter : Char) : PublicKey := .ofByte (UInt8.ofNat letter.toNat)

/-- The manifest of two different letters. -/
def letterManifest (master signing : Char) : Option Manifest :=
  if h : some (letterKey signing) ≠ some (letterKey master) then
    some ⟨letterKey master, some (letterKey signing), h⟩
  else none

/-- A manifest is two letters, a validation a hash and a letter. Keys have hexadecimal texts, with a
digit of base 58 for zero. -/
def letterReaders : Readers where
  deserializeManifest text :=
    match text.toList with
    | [master, signing] => letterManifest master signing
    | _ => none
  verify _ := true
  toBase58 key := String.ofList ((Hex.encode key).map fun c => if c = '0' then 'r' else c)
  readValidation blob :=
    if h : blob.length = 33 then
      some ⟨⟨blob.take 32, by rw [List.length_take, h]; rfl⟩, .ofByte (blob.getD 32 0), true⟩
    else none

/-- The entry of a list for two letters. -/
def letterEntry (letters : Char × Char) : Json :=
  .obj [("validation_public_key", .str (strHex (letterKey letters.1).data)),
    ("manifest", .str (String.ofList [letters.1, letters.2]))]

/-- The validations of a hash by some letters. -/
def letterData (computedLedgerHash : UInt256) (signers : List Char) : Json :=
  supply letterReaders (fun key => computedLedgerHash.data ++ key.data.drop 32)
    (signers.map letterKey)

theorem injective_toBase58_letters : Function.Injective letterReaders.toBase58 := by
  have hback : ∀ key : List UInt8, ((encode key).map fun c => if c = '0' then 'r' else c).map
      (fun c => if c = 'r' then '0' else c) = encode key := by
    intro key
    rw [map_map]
    refine (map_congr_left fun c hc => ?_).trans (map_id _)
    have hhex := isHex_strHex key
    rw [isHex, strHex, String.toList_ofList, all_eq_true] at hhex
    have hne : c ≠ 'r' := by
      rintro rfl
      exact absurd (hhex _ hc) (by decide)
    by_cases hzero : c = '0'
    · simp [hzero]
    · simp [hzero, hne]
  intro a b h
  have hmap := String.ofList_injective h
  have henc := congrArg (List.map fun c => if c = 'r' then '0' else c) hmap
  rw [hback, hback] at henc
  exact strHex_injective (congrArg String.ofList henc)

theorem isBase58_letters (key : List UInt8) : isBase58 (letterReaders.toBase58 key) = true := by
  have hdig : ∀ n < 16, "rpshnaf39wBUDNEGHJKLM4PQRST7VWXYZ2bcdeCg65jkm8oFqi1tuvAxyz".toList.contains
      (if digit n = '0' then 'r' else digit n) = true := by
    decide
  simp only [letterReaders, isBase58, String.toList_ofList, all_map, all_eq_true]
  intro c hc
  obtain ⟨b, -, hb⟩ := mem_flatMap.mp hc
  have hlt := b.toNat_lt
  rcases mem_cons.mp hb with rfl | hb
  · exact hdig _ (by omega)
  · rw [mem_singleton.mp hb]
    exact hdig _ (Nat.mod_lt _ (by decide))

theorem readValidation_letters (computedLedgerHash : UInt256) (signing : Char) :
    letterReaders.readValidation (computedLedgerHash.data ++ (letterKey signing).data.drop 32)
      = some ⟨computedLedgerHash, letterKey signing, true⟩ := by
  have hdrop : (letterKey signing).data.drop 32 = [UInt8.ofNat signing.toNat] := rfl
  have hlen := computedLedgerHash.data_length
  have htot : (computedLedgerHash.data ++ [UInt8.ofNat signing.toNat]).length = 33 := by
    rw [length_append, hlen]
    rfl
  simp only [letterReaders, hdrop, dif_pos htot]
  congr 2
  · exact BaseUInt.ext (take_left' hlen)
  · simp [letterKey, hlen]

/-- Five validators, each with a signing key. -/
def fiveLetters : List (Char × Char) :=
  [('a', 'A'), ('b', 'B'), ('c', 'C'), ('d', 'D'), ('e', 'E')]

/-- Four validators, each with a signing key. -/
def fourLetters : List (Char × Char) := [('a', 'A'), ('b', 'B'), ('c', 'C'), ('d', 'D')]

/-- Four validators, the first of which is listed with two signing keys. -/
def twiceListed : List (Char × Char) :=
  [('a', 'A'), ('a', 'E'), ('b', 'B'), ('c', 'C'), ('d', 'D')]

def allRules : Rules := ⟨fun _ => true⟩

/-- Four of five validators are four fifths. The list of four is plain, and what is accepted with it
need not have four fifths. -/
theorem quorate_letters :
    (checkQuorum letterReaders allRules (fiveLetters.map letterEntry)
        (letterData .zero ['A', 'B', 'C', 'D']) .zero = .tesSUCCESS ∧
      4 * 5 ≤ 5 * (endorsers letterReaders (fiveLetters.map letterEntry)
        (letterData .zero ['A', 'B', 'C', 'D']) .zero).card) ∧
    ¬ Quorate letterReaders allRules (fourLetters.map letterEntry) := by
  have haccept : checkQuorum letterReaders allRules (fiveLetters.map letterEntry)
      (letterData .zero ['A', 'B', 'C', 'D']) .zero = .tesSUCCESS := by
    decide +kernel
  have hsingle : SingleKeyed letterReaders (fiveLetters.map letterEntry) := by
    rw [SingleKeyed]
    decide +kernel
  have hquorate := (quorate_iff letterReaders allRules rfl (fiveLetters.map letterEntry)).1 hsingle
    (Or.inl (by decide)) _ _ haccept
  have hman : manifests letterReaders (fourLetters.map letterEntry)
      = fourLetters.filterMap fun l => letterManifest l.1 l.2 := by
    decide +kernel
  have hplain : Plain letterReaders (fourLetters.map letterEntry) := by
    constructor
    all_goals
      simp only [SingleKeyed, hman]
      decide +kernel
  have hsigning : ∀ m ∈ manifests letterReaders (fourLetters.map letterEntry),
      m.signingKey ∈ ['A', 'B', 'C', 'D'].map fun signing => some (letterKey signing) := by
    rw [hman]
    decide +kernel
  have hcan : CanSign letterReaders (fourLetters.map letterEntry) := by
    refine ⟨injective_toBase58_letters, isBase58_letters, fun key hkey computedLedgerHash => ?_⟩
    obtain ⟨m, hm, hsome⟩ := mem_signingKeys.mp hkey
    obtain ⟨signing, -, hsome'⟩ := mem_map.mp (hsigning m hm)
    cases hsome'.trans hsome
    exact ⟨_, _, readValidation_letters computedLedgerHash signing, rfl, rfl, rfl⟩
  have hrounded : ¬ WholeQuorum letterReaders (fourLetters.map letterEntry) := by
    rw [WholeQuorum, signingKeys, hman]
    decide +kernel
  refine ⟨⟨haccept, hquorate.1⟩, fun h => hrounded ?_⟩
  exact ((quorate_iff letterReaders allRules rfl (fourLetters.map letterEntry)).2 hplain hcan).mp h

/-- **Three of four validators are accepted**, as the quorum is rounded down; so are three of five
if one is listed twice. -/
theorem quorum_too_small :
    (checkQuorum letterReaders allRules (fourLetters.map letterEntry)
        (letterData .zero ['A', 'B', 'C']) .zero = .tesSUCCESS ∧
      5 * (endorsers letterReaders (fourLetters.map letterEntry)
        (letterData .zero ['A', 'B', 'C']) .zero).card < 4 * fourLetters.length) ∧
    (checkQuorum letterReaders allRules (twiceListed.map letterEntry)
        (letterData .zero ['A', 'E', 'B', 'C']) .zero = .tesSUCCESS ∧
      5 * (endorsers letterReaders (twiceListed.map letterEntry)
        (letterData .zero ['A', 'E', 'B', 'C']) .zero).card < 4 * twiceListed.length) := by
  decide +kernel

end Import

end Xahau
