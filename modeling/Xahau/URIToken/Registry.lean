import Xahau.URIToken.Remit

/-! # The registry of URI tokens

What the ledger says about a token agrees: the token names its owner and a page, that page of the
owner's directory lists it and no other page does, and the owner's count includes it. Transactions
keep this by payments (`Settles`) and replacements of one token (`Replaces`), which move its entry
and its count together. -/

namespace Xahau.URIToken

open Checked Entry Function Holdings Token View

/-! ## What agrees -/

/-- How often a token, or its absence, is to be listed on a page. -/
def listing (entry : Option Entry) (id : AccountID) (page : ℕ) : ℕ :=
  if ∃ sleU ∈ entry, sleU.owner = id ∧ sleU.ownerNode = page then 1 else 0

/-- How many tokens an account owns. -/
noncomputable def View.tokens (view : View) (id : AccountID) : ℕ :=
  holdings (fun key => (view.token key).map Entry.owner) id

/-- Tokens are found under their keys, and listed where they say and nowhere else. -/
structure Filed (env : Env) (view : View) : Prop where
  keyed : ∀ {id sleU}, view.token id = some sleU → env.uritoken sleU.issuer sleU.uri = id
  listed : ∀ issuer uri id page,
    view.base.listed id page (env.uritoken issuer uri) =
      listing (view.token (env.uritoken issuer uri)) id page

/-- The owner counts are the numbers of tokens, of lines with a reserve, and the rest. -/
def View.Counted (view : View) (rest : AccountID → ℕ) : Prop :=
  view.base.Balanced fun id => view.tokens id + rest id

/-- The indexes of lines and the keys of tokens are different. -/
def Env.Apart (env : Env) : Prop := ∀ line issuer uri, env.lineIndex line ≠ env.uritoken issuer uri

/-- A change that keeps what agrees, and creates at most `n` objects. -/
structure Keeps (env : Env) (n : ℕ) (view view' : View) : Prop where
  filed : env.Apart → Filed env view → Filed env view'
  isSome : ∀ id, (view.base.account id).isSome → (view'.base.account id).isSome
  count_le : ∀ rest, view.Counted rest → view.base.Room n →
    ∀ id, view'.base.count id ≤ view.base.count id + n
  counted : ∀ rest, view.Counted rest → view.base.Room n → view'.Counted rest

section

variable {env : Env} {n m : ℕ} {view view' view'' : View}

theorem Keeps.refl (env : Env) (view : View) : Keeps env 0 view view :=
  ⟨fun _ h => h, fun _ h => h, fun _ _ _ _ => Nat.le_add_right _ _, fun _ h _ => h⟩

theorem Keeps.trans (h : Keeps env n view view') (h' : Keeps env m view' view'') :
    Keeps env (n + m) view view'' := by
  have hfirst : ∀ {rest}, view.Counted rest → view.base.Room (n + m) →
      view'.Counted rest ∧ view'.base.Room m ∧
        ∀ id, view'.base.count id ≤ view.base.count id + n := by
    intro rest hrest hroom
    have hroom' : view.base.Room n := fun id => by
      have hid := hroom id
      omega
    have hle := h.count_le rest hrest hroom'
    refine ⟨h.counted rest hrest hroom', fun id => ?_, hle⟩
    have hid := hroom id
    have hid' := hle id
    omega
  refine ⟨fun hapa hfil => h'.filed hapa (h.filed hapa hfil),
    fun id hid => h'.isSome id (h.isSome id hid), fun rest hrest hroom id => ?_,
    fun rest hrest hroom => ?_⟩
  · obtain ⟨hrest', hroom', hle⟩ := hfirst hrest hroom
    have hid := hle id
    have hid' := h'.count_le rest hrest' hroom' id
    omega
  · obtain ⟨hrest', hroom', -⟩ := hfirst hrest hroom
    exact h'.counted rest hrest' hroom'

theorem Keeps.mono (h : Keeps env n view view') (hle : n ≤ m) : Keeps env m view view' := by
  have hroom : view.base.Room m → view.base.Room n := fun hroom id => by
    have hid := hroom id
    omega
  refine ⟨h.filed, h.isSome, fun rest hrest hm id => ?_, fun rest hrest hm => ?_⟩
  · have hid := h.count_le rest hrest (hroom hm) id
    omega
  · exact h.counted rest hrest (hroom hm)

theorem Keeps.of_settles (h : Settles env.toEnv n view.base view'.base)
    (htok : view'.token = view.token) : Keeps env n view view' := by
  refine ⟨fun hapa hfil => ⟨fun hid => ?_, fun issuer uri id page => ?_⟩, h.isSome,
    fun rest => h.count_le _, fun rest hrest hroom => ?_⟩
  · rw [htok] at hid
    exact hfil.keyed hid
  · rw [h.listed id page _ fun line => hapa line issuer uri, hfil.listed, htok]
  have hbal := h.balanced _ hrest hroom
  simpa only [View.Counted, View.tokens, htok] using hbal

variable {sleU : Entry} {destination : Option AccountID} {amount : Option STAmount}
  {base : Token.View} {key : UInt256}

/-- **A token is replaced**: its entry moves and the counts follow. Minting, burning and
transferring are all of this kind. -/
theorem Keeps.of_replace {entry : Option Entry}
    (hn : ∀ id, entry.map owner = some id → (view.token key).map owner = some id ∨ 1 ≤ n)
    (htok : view'.token = update view.token key entry)
    (hkeye : Filed env view → ∀ sleU ∈ entry, env.uritoken sleU.issuer sleU.uri = key)
    (hlis : ∀ id page key', view'.base.listed id page key' +
        (if key' = key then listing (view.token key) id page else 0) =
      view.base.listed id page key' + if key' = key then listing entry id page else 0)
    (hline : view'.base.line = view.base.line)
    (hisSome : ∀ id, (view.base.account id).isSome → (view'.base.account id).isSome)
    (hcount : (∀ sleU ∈ view.token key, 0 < view.base.count sleU.owner) → view.base.Room n →
      ∀ id, view'.base.count id + (if (view.token key).map owner = some id then 1 else 0) =
        view.base.count id + if entry.map owner = some id then 1 else 0) :
    Keeps env n view view' := by
  have hpos : ∀ rest, view.Counted rest → ∀ sleU ∈ view.token key,
      0 < view.base.count sleU.owner := by
    intro rest hrest sleU hsleU
    have hheld : 0 < view.tokens sleU.owner :=
      holdings_pos (k := key) (by rw [show view.token key = some sleU from hsleU]; rfl)
    have hcou : view.base.count sleU.owner =
        view.tokens sleU.owner + rest sleU.owner + view.base.reserves sleU.owner := hrest sleU.owner
    omega
  refine ⟨fun hapa hfil => ⟨fun {id sleU} hid => ?_, fun issuer uri id page => ?_⟩, hisSome,
    fun rest hrest hroom id => ?_, fun rest hrest hroom id => ?_⟩
  · rw [htok] at hid
    by_cases hkey : id = key
    · subst hkey
      rw [update_self] at hid
      exact hkeye hfil sleU hid
    · rw [update_of_ne hkey] at hid
      exact hfil.keyed hid
  · have hent := hlis id page (env.uritoken issuer uri)
    have hbef := hfil.listed issuer uri id page
    rw [htok]
    by_cases hkey : env.uritoken issuer uri = key
    · rw [hkey] at hent hbef ⊢
      rw [if_pos rfl, if_pos rfl] at hent
      rw [update_self]
      omega
    · rw [if_neg hkey, if_neg hkey] at hent
      rw [update_of_ne hkey]
      omega
  · have hid := hcount (hpos rest hrest) hroom id
    have hown := hn id
    split at hid <;> split at hid <;> grind
  · have hid := hcount (hpos rest hrest) hroom id
    have hheld : view'.tokens id + (if (view.token key).map owner = some id then 1 else 0) =
        view.tokens id + if entry.map owner = some id then 1 else 0 := by
      have hown : (fun key => (view'.token key).map owner) =
          update (fun key => (view.token key).map owner) key
            (entry.map owner) := by
        funext key'
        rw [htok]
        exact apply_update (fun _ entry => Option.map owner entry) view.token key
          entry key'
      rw [tokens, hown]
      exact holdings_update _ _ _ _
    have hbef : view.base.count id = view.tokens id + rest id + view.base.reserves id := hrest id
    have hres := congrFun (reserves_congr hline) id
    change view'.base.count id = view'.tokens id + rest id + view'.base.reserves id
    omega

theorem listing_some (sleU : Entry) (id : AccountID) (page : ℕ) :
    listing (some sleU) id page = if id = sleU.owner ∧ page = sleU.ownerNode then 1 else 0 := by
  rw [listing]
  congr 1
  simp [eq_comm]

theorem listing_none (id : AccountID) (page : ℕ) : listing none id page = 0 := by
  simp [listing]

/-- **A new token** is listed and counted for its owner. -/
theorem Keeps.of_mint (hn : view.token key = none) (hkeye : env.uritoken sleU.issuer sleU.uri = key)
    (hsome : (view.base.account sleU.owner).isSome)
    (hins : view.base.dirInsert sleU.owner key = .ok (sleU.ownerNode, base))
    (hbase : view'.base = adjustOwnerCount base sleU.owner 1)
    (htok : view'.token = update view.token key (some sleU)) : Keeps env 1 view view' := by
  obtain ⟨hacc, hline⟩ := dirInsert_same hins
  refine Keeps.of_replace (fun _ _ => .inr le_rfl) htok ?_ (fun id page key' => ?_) ?_ (fun id hid => ?_)
    fun _ hroom id => ?_
  · rintro _ _ ⟨⟩
    exact hkeye
  · rw [hbase, listed_adjustOwnerCount, listed_dirInsert hins, hn, listing_none,
      listing_some, ite_self, Nat.add_zero]
    by_cases hkey : key' = key <;> simp [hkey]
  · rw [hbase, line_adjustOwnerCount, hline]
  · rw [hbase, isSome_adjustOwnerCount, hacc]
    exact hid
  · have hcount := count_congr hacc
    rw [hbase, base.count_adjustOwnerCount_up (by rw [hacc]; exact hsome)
      (by rw [hcount]; exact hroom sleU.owner), hcount, hn]
    simp

section

variable (hsleU : view.token key = some sleU)

include hsleU

/-- **A token that goes** is listed and counted no more. -/
theorem Keeps.of_burn {keepRoot : Bool}
    (hrem : view.base.dirRemove sleU.owner sleU.ownerNode key keepRoot = .ok base)
    (hbase : view'.base = adjustOwnerCount base sleU.owner (-1))
    (htok : view'.token = update view.token key none) : Keeps env 0 view view' := by
  obtain ⟨hacc, hline⟩ := dirRemove_same hrem
  refine Keeps.of_replace (fun _ h => (by cases h)) htok (fun _ _ h => (by cases h)) (fun id page key' => ?_)
    ?_ (fun id hid => ?_) fun hpos _ id => ?_
  · rw [hbase, listed_adjustOwnerCount, ← listed_dirRemove hrem id page key', hsleU,
      listing_none, listing_some, ite_self, Nat.add_zero]
    by_cases hkey : key' = key <;> simp [hkey]
  · rw [hbase, line_adjustOwnerCount, hline]
  · rw [hbase, isSome_adjustOwnerCount, hacc]
    exact hid
  · have hcount := count_congr hacc
    have hdown := base.count_adjustOwnerCount_down (by rw [hcount]; exact hpos sleU hsleU) id
    rw [hbase, hsleU, ← congrFun hcount id, ← hdown]
    simp

/-- **A token that changes hands** is listed and counted for the new owner. -/
theorem Keeps.of_transfer {owner : AccountID} {page : ℕ}
    (htok : view'.token = update view.token key (some { sleU with
      owner := owner, ownerNode := page, amount := amount, destination := destination }))
    (hlis : ∀ id page' key', view'.base.listed id page' key' +
        (if id = sleU.owner ∧ page' = sleU.ownerNode ∧ key' = key then 1 else 0) =
      view.base.listed id page' key' + if id = owner ∧ page' = page ∧ key' = key then 1 else 0)
    (hline : view'.base.line = view.base.line)
    (hisSome : ∀ id, (view.base.account id).isSome → (view'.base.account id).isSome)
    (hcount : 0 < view.base.count sleU.owner → view.base.Room 1 →
      ∀ id, view'.base.count id + (if sleU.owner = id then 1 else 0) =
        view.base.count id + if owner = id then 1 else 0) : Keeps env 1 view view' := by
  refine Keeps.of_replace (fun _ _ => .inr le_rfl) htok ?_ (fun id page' key' => ?_) hline hisSome
    fun hpos hroom id => ?_
  · rintro hfil _ ⟨⟩
    exact (hfil.keyed hsleU :)
  · have hent := hlis id page' key'
    rw [hsleU, listing_some, listing_some]
    by_cases hkey : key' = key <;> simpa [hkey] using hent
  · have hid := hcount (hpos sleU hsleU) hroom id
    simpa [hsleU] using hid

theorem Keeps.of_offer (hbase : view'.base = view.base) (htok : view'.token = update view.token key
      (some { sleU with amount := amount, destination := destination })) : Keeps env 0 view view' := by
  refine Keeps.of_replace (fun id hid => .inl ?_) htok ?_ (fun id page key' => ?_) (by rw [hbase])
    (fun id hid => ?_) fun _ _ id => ?_
  · rw [hsleU]
    exact hid
  · rintro hfil _ ⟨⟩
    exact (hfil.keyed hsleU :)
  · rw [hbase, hsleU, listing_some, listing_some]
  · rw [hbase]
    exact hid
  · rw [hbase, hsleU]
    rfl

end

end

end Xahau.URIToken
