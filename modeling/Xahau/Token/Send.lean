import Xahau.Data.Holdings
import Xahau.Token.Spending

/-! # Payments between accounts (`View.cpp`)

An amount is sent in the native currency or over the trust lines of the issuer. A payment can create
a line, which the receiver owns, or give up the reserve of a line. What it does besides is told by
how often a key is listed on a page, the owner counts, and how many lines an account has a reserve
for.

* `listed_dirInsert`, `listed_dirRemove`: one entry more, or less, in one place.
* `count_adjustOwnerCount_up`, `count_adjustOwnerCount_down`: the counts, as long as they fit.
* `Settles.accountSend`: a payment touches no entry but those of lines, and the counts follow the
  lines. -/

namespace Xahau.Token

open Checked Function Holdings RippleState View

/-! ## Sending an amount -/

/-- `noAccount`. -/
def noAccount : AccountID := .ofByte 1

section

variable (env : Env) (view : View) (sender receiver : AccountID)

/-- `isFrozen`. -/
def isFrozen (account : AccountID) (issue : Issue) : Bool :=
  (view.account issue.account).any AccountRoot.globalFreeze ||
    (decide (issue.account ≠ account) &&
      (view.line (lineKey account issue.account issue.currency)).any fun line =>
        (line.side (decide (account.data < issue.account.data))).freeze)

/-- `accountFunds` for a token, nothing if it is frozen. -/
def accountFunds (id : AccountID) (issue : Issue) (saDefault : ℚ) : ℚ :=
  if issue.account = id then saDefault
  else if isFrozen view id issue then 0
  else accountHolds view id issue.currency issue.account

/-- `rippleSend` with `featureDeletableAccounts`; a failed credit is reported. -/
def rippleSend (issue : Issue) (amount : ℚ) (senderPaysXferFees : Bool) : Except Ter View :=
  if sender = issue.account ∨ receiver = issue.account ∨ issue.account = noAccount then
    -- redeeming tokens or sending own ones
    rippleCredit env view sender receiver issue.currency amount
  else do
    let rate : ℚ := transferRate view issue.account / parityRate
    let senderPays := if senderPaysXferFees then amount * rate else amount
    let destReceives := if senderPaysXferFees then amount else amount / rate
    let view ← rippleCredit env view issue.account receiver issue.currency destReceives
    rippleCredit env view sender issue.account issue.currency senderPays

/-- A change of a native balance, if the account exists. -/
def changeBalance (id : AccountID) (amount : ℚ) : View :=
  match if id = .zero then none else view.account id with
  | none => view
  | some root => view.setAccount id { root with balance := root.balance + amount }

/-- `accountSend`. -/
def accountSend (amount : STAmount) (senderPaysXferFees : Bool) : Except Ter View :=
  if amount.value = 0 ∨ sender = receiver then .ok view
  else
    match amount.issue with
    | some issue => rippleSend env view sender receiver issue amount.value senderPaysXferFees
    | none => do
      failIf (sender ≠ .zero ∧ (view.account sender).any fun root =>
        decide (root.balance < amount.value)) .tecFAILED_PROCESSING
      .ok (changeBalance (changeBalance view sender (-amount.value)) receiver amount.value)

/-! ## Entries of directories -/

/-- How often a key is listed on a page of an owner directory. -/
def View.listed (id : AccountID) (page : ℕ) (key : UInt256) : ℕ :=
  ((view.ownerDir id).keys page).count key

end

section

variable {view view' : View} {id : AccountID} {page : ℕ} {key : UInt256}

theorem View.ownerDir_setOwnerDir (dir : Directory) :
    (view.setOwnerDir id dir).ownerDir = update view.ownerDir id dir := rfl

theorem View.listed_congr (h : view'.ownerDir = view.ownerDir) : view'.listed = view.listed := by
  funext id page key
  rw [listed, listed, h]

theorem View.listed_dirInsert (h : view.dirInsert id key = .ok (page, view')) (id' : AccountID)
    (page' : ℕ) (key' : UInt256) :
    view'.listed id' page' key' =
      view.listed id' page' key' + if id' = id ∧ page' = page ∧ key' = key then 1 else 0 := by
  rw [dirInsert] at h
  split at h
  · cases h
  · cases h
  next page dir hadd =>
    cases h
    obtain ⟨indexes, hperm, hkeys⟩ := Directory.keys_dirAdd hadd
    rw [listed, listed, ownerDir_setOwnerDir]
    by_cases hid : id' = id
    · subst hid
      rw [update_self, hkeys]
      by_cases hpage : page' = page
      · subst hpage
        rw [update_self, hperm.count_eq]
        by_cases hkey : key' = key
        · subst hkey
          simp
        · simp [hkey, List.count_cons_of_ne (Ne.symm hkey)]
      · rw [update_of_ne hpage]
        simp [hpage]
    · rw [update_of_ne hid]
      simp [hid]

theorem View.listed_dirRemove {keepRoot : Bool}
    (h : view.dirRemove id page key keepRoot = .ok view') (id' : AccountID) (page' : ℕ)
    (key' : UInt256) :
    view'.listed id' page' key' + (if id' = id ∧ page' = page ∧ key' = key then 1 else 0) =
      view.listed id' page' key' := by
  rw [dirRemove] at h
  split at h
  · cases h
  · cases h
  next dir hrem =>
    cases h
    rcases Directory.keys_dirRemove hrem with ⟨hfou, -⟩ | ⟨-, hh, hkeys⟩
    · cases hfou
    rw [Directory.holds_iff_mem_keys] at hh
    rw [listed, listed, ownerDir_setOwnerDir]
    by_cases hid : id' = id
    · subst hid
      rw [update_self, hkeys]
      by_cases hpage : page' = page
      · subst hpage
        rw [update_self]
        by_cases hkey : key' = key
        · subst hkey
          have hpos := List.count_pos_iff.2 hh
          rw [if_pos ⟨rfl, rfl, rfl⟩, List.count_erase_self]
          omega
        · rw [if_neg (by simp [hkey]), List.count_erase_of_ne hkey, Nat.add_zero]
      · rw [update_of_ne hpage, if_neg (by simp [hpage]), Nat.add_zero]
    · rw [update_of_ne hid, if_neg (by simp [hid]), Nat.add_zero]

end

/-! ## Owner counts -/

/-- The owner count of an account, zero if there is none. -/
def View.count (view : View) (id : AccountID) : ℕ :=
  ((view.account id).map fun root => root.ownerCount.toNat).getD 0

section

variable {view view' : View} {id : AccountID}

theorem View.count_adjustOwnerCount_up (view : View) (hsome : (view.account id).isSome)
    (hroom : view.count id + 1 < 2 ^ 32) (id' : AccountID) :
    (adjustOwnerCount view id 1).count id' = view.count id' + if id = id' then 1 else 0 := by
  obtain ⟨root, hroot⟩ := Option.isSome_iff_exists.1 hsome
  rw [count, hroot, Option.map_some, Option.getD_some] at hroom
  have hcon : (confineOwnerCount root.ownerCount 1).toNat = root.ownerCount.toNat + 1 := by
    have hsum : (root.ownerCount + UInt32.ofInt 1).toNat = root.ownerCount.toNat + 1 := by
      rw [UInt32.toNat_add]
      exact Nat.mod_eq_of_lt hroom
    have hle : ¬ root.ownerCount + UInt32.ofInt 1 < root.ownerCount := by
      rw [UInt32.lt_iff_toNat_lt, hsum]
      omega
    rw [confineOwnerCount, if_pos (by decide), if_neg hle, hsum]
  rw [count, count, adjustOwnerCount, hroot]
  by_cases hid : id = id'
  · subst hid
    simp [setAccount, hroot, hcon]
  · simp [setAccount, hid, Ne.symm hid]

theorem View.count_adjustOwnerCount_down (view : View) (hpos : 0 < view.count id) (id' : AccountID) :
    (adjustOwnerCount view id (-1)).count id' + (if id = id' then 1 else 0) = view.count id' := by
  cases hroot : view.account id with
  | none =>
    rw [count, hroot] at hpos
    cases hpos
  | some root =>
    rw [count, hroot, Option.map_some, Option.getD_some] at hpos
    have hlt := root.ownerCount.toNat_lt
    have hcon : (confineOwnerCount root.ownerCount (-1)).toNat = root.ownerCount.toNat - 1 := by
      have hsum : (root.ownerCount + UInt32.ofInt (-1)).toNat = root.ownerCount.toNat - 1 := by
        rw [UInt32.toNat_add, show (UInt32.ofInt (-1)).toNat = 2 ^ 32 - 1 from rfl]
        omega
      have hle : ¬ root.ownerCount < root.ownerCount + UInt32.ofInt (-1) := by
        rw [UInt32.lt_iff_toNat_lt, hsum]
        omega
      rw [confineOwnerCount, if_neg (by decide), if_neg hle, hsum]
    rw [count, count, adjustOwnerCount, hroot]
    by_cases hid : id = id'
    · subst hid
      simp [setAccount, hroot, hcon]
      omega
    · simp [setAccount, hid, Ne.symm hid]

theorem View.count_congr (h : view'.account = view.account) : view'.count = view.count := by
  funext id
  rw [count, count, h]

variable {key : UInt256} {page : ℕ}

theorem View.dirInsert_same (h : view.dirInsert id key = .ok (page, view')) :
    view'.account = view.account ∧ view'.line = view.line := by
  obtain ⟨dir, rfl⟩ := dirInsert_eq_ok h
  exact ⟨rfl, rfl⟩

theorem View.dirRemove_same {keepRoot : Bool}
    (h : view.dirRemove id page key keepRoot = .ok view') :
    view'.account = view.account ∧ view'.line = view.line := by
  obtain ⟨dir, rfl⟩ := dirRemove_eq_ok h
  exact ⟨rfl, rfl⟩

theorem View.listed_adjustOwnerCount (amount : Int) :
    (adjustOwnerCount view id amount).listed = view.listed := by
  refine listed_congr ?_
  rw [adjustOwnerCount]
  split <;> rfl

theorem View.isSome_adjustOwnerCount (amount : Int) (id' : AccountID) :
    ((adjustOwnerCount view id amount).account id').isSome = (view.account id').isSome := by
  rw [adjustOwnerCount]
  cases hroot : view.account id with
  | none => rfl
  | some root =>
    by_cases hid : id' = id
    · subst hid
      simp [setAccount, hroot]
    · simp [setAccount, hid]

theorem View.count_move (view : View) {a b : AccountID}
    (hacc : view'.account = (adjustOwnerCount view a (-1)).account)
    (hpos : 0 < view.count a) (hsome : (view.account b).isSome) (hroom : view.count b + 1 < 2 ^ 32)
    (id' : AccountID) :
    (adjustOwnerCount view' b 1).count id' + (if a = id' then 1 else 0) =
      view.count id' + if b = id' then 1 else 0 := by
  have hdown := view.count_adjustOwnerCount_down hpos
  rw [← count_congr hacc] at hdown
  have hroom' : view'.count b + 1 < 2 ^ 32 := by
    have hb := hdown b
    omega
  have hup := view'.count_adjustOwnerCount_up
    (by rw [hacc, isSome_adjustOwnerCount]; exact hsome) hroom' id'
  have hid := hdown id'
  omega

end

/-! ## Reserves for lines -/

/-- The high account of a line, or the low one. -/
def LineKey.account (key : LineKey) (high : Bool) : AccountID := if high then key.high else key.low

/-- Who has a reserve for one side of a line. -/
def reserveOwner (high : Bool) (key : LineKey) (line : Option RippleState) : Option AccountID :=
  line.bind fun line => if (line.side high).reserve then some (key.account high) else none

/-- How many lines an account has a reserve for, on either side. -/
noncomputable def View.reservesAs (view : View) (high : Bool) (id : AccountID) : ℕ :=
  holdings (fun key => reserveOwner high key (view.line key)) id

/-- How many lines an account has a reserve for. -/
noncomputable def View.reserves (view : View) (id : AccountID) : ℕ :=
  view.reservesAs false id + view.reservesAs true id

instance : Finite LineKey :=
  Finite.of_injective (fun key => (key.low, key.high, key.currency)) fun key key' h => by
    cases key
    cases key'
    simpa using h

section

variable {view view' : View} {key : LineKey}

theorem View.reserves_congr (h : view'.line = view.line) : view'.reserves = view.reserves := by
  funext id
  rw [reserves, reserves, reservesAs, reservesAs, reservesAs,
    reservesAs, h]

theorem View.reservesAs_update (high : Bool) (line : Option RippleState)
    (h : view'.line = update view.line key line) (id : AccountID) :
    view'.reservesAs high id + (if reserveOwner high key (view.line key) = some id then 1 else 0) =
      view.reservesAs high id + if reserveOwner high key line = some id then 1 else 0 := by
  have hown : (fun key => reserveOwner high key (view'.line key)) =
      update (fun key => reserveOwner high key (view.line key)) key
        (reserveOwner high key line) := by
    funext key'
    rw [h]
    exact apply_update (fun key line => reserveOwner high key line) view.line key line key'
  rw [reservesAs, hown]
  exact holdings_update _ _ _ _

theorem View.reserves_update {line : Option RippleState} (high : Bool)
    (h : view'.line = update view.line key line)
    (hoth : reserveOwner (!high) key line = reserveOwner (!high) key (view.line key))
    (id : AccountID) :
    view'.reserves id + (if reserveOwner high key (view.line key) = some id then 1 else 0) =
      view.reserves id + if reserveOwner high key line = some id then 1 else 0 := by
  have hhigh := reservesAs_update high line h id
  have hnot := reservesAs_update (!high) line h id
  rw [hoth, Nat.add_right_cancel_iff] at hnot
  rw [reserves, reserves]
  cases high <;> simp only [Bool.not_false, Bool.not_true] at hnot <;> omega

theorem lineKey_account {a b : AccountID} (h : a ≠ b) (currency : Currency) :
    (lineKey a b currency).account (decide (b.data < a.data)) = a := by
  rw [lineKey]
  rcases data_lt_or_gt h with hlt | hgt
  · rw [if_pos hlt, decide_eq_false (List.lt_asymm hlt)]
    rfl
  · rw [if_neg (List.lt_asymm hgt), decide_eq_true hgt]
    rfl

end

/-! ## What a payment leaves -/

/-- The counts are what the lines need and what others own. -/
def View.Balanced (view : View) (others : AccountID → ℕ) : Prop :=
  ∀ id, view.count id = others id + view.reserves id

/-- The counters have room for more objects. -/
def View.Room (view : View) (n : ℕ) : Prop := ∀ id, view.count id + n < 2 ^ 32

/-- A change of balances and lines only, with at most `n` new lines: other entries stay in the
directories, no account is deleted, and the counts follow the lines. -/
structure Settles (env : Env) (n : ℕ) (view view' : View) : Prop where
  listed : ∀ id page key, (∀ line, env.lineIndex line ≠ key) →
    view'.listed id page key = view.listed id page key
  isSome : ∀ id, (view.account id).isSome → (view'.account id).isSome
  count_le : ∀ others, view.Balanced others → view.Room n → ∀ id, view'.count id ≤ view.count id + n
  balanced : ∀ others, view.Balanced others → view.Room n → view'.Balanced others

section

variable {env : Env} {n m : ℕ} {view view' view'' : View}

theorem Settles.of_eq (hdir : view'.ownerDir = view.ownerDir) (hline : view'.line = view.line)
    (hisSome : ∀ id, (view.account id).isSome → (view'.account id).isSome)
    (hcount : ∀ id, view'.count id = view.count id) : Settles env n view view' where
  listed id page key _ := by rw [listed_congr hdir]
  isSome := hisSome
  count_le others _ _ id := by
    rw [hcount]
    exact Nat.le_add_right _ _
  balanced others h _ id := by rw [hcount, reserves_congr hline, h id]

theorem Settles.trans (h : Settles env n view view') (h' : Settles env m view' view'') :
    Settles env (n + m) view view'' := by
  have hfirst : ∀ {others}, view.Balanced others → view.Room (n + m) →
      view'.Balanced others ∧ view'.Room m ∧ ∀ id, view'.count id ≤ view.count id + n := by
    intro others hoths hroom
    have hroom' : view.Room n := fun id => by
      have hid := hroom id
      omega
    have hle := h.count_le others hoths hroom'
    refine ⟨h.balanced others hoths hroom', fun id => ?_, hle⟩
    have hid := hroom id
    have hid' := hle id
    omega
  refine ⟨fun id page key hkey => ?_, fun id => ?_, fun others hoths hroom id => ?_,
    fun others hoths hroom => ?_⟩
  · rw [h'.listed id page key hkey, h.listed id page key hkey]
  · exact fun hid => h'.isSome id (h.isSome id hid)
  · obtain ⟨hoths', hroom', hle⟩ := hfirst hoths hroom
    have hid := hle id
    have hid' := h'.count_le others hoths' hroom' id
    omega
  · obtain ⟨hoths', hroom', -⟩ := hfirst hoths hroom
    exact h'.balanced others hoths' hroom'

theorem Settles.mono (h : Settles env n view view') (hle : n ≤ m) : Settles env m view view' := by
  have hroom : view.Room m → view.Room n := fun hroom id => by
    have hid := hroom id
    omega
  refine ⟨h.listed, h.isSome, fun others hoths hm id => ?_, fun others hoths hm => ?_⟩
  · have hid := h.count_le others hoths (hroom hm) id
    omega
  · exact h.balanced others hoths (hroom hm)

variable {id receiver sender : AccountID} {senderPaysXferFees : Bool} {currency : Currency}
  {key : LineKey} {line : RippleState} {page : ℕ} {amount : ℚ}

theorem Settles.dirInsert {line : LineKey}
    (h : view.dirInsert id (env.lineIndex line) = .ok (page, view')) : Settles env 0 view view' := by
  obtain ⟨dir, heq⟩ := dirInsert_eq_ok h
  refine ⟨fun id' page' key hkey => ?_, fun _ hsome => by rw [heq]; exact hsome,
    fun _ _ _ _ => by rw [heq]; rfl, fun others hoths _ id' => ?_⟩
  · rw [listed_dirInsert h, if_neg fun hand => hkey line hand.2.2.symm, Nat.add_zero]
  · rw [heq]
    exact hoths id'

theorem Settles.dirRemove {line : LineKey} {keepRoot : Bool}
    (h : view.dirRemove id page (env.lineIndex line) keepRoot = .ok view') :
    Settles env 0 view view' := by
  obtain ⟨dir, heq⟩ := dirRemove_eq_ok h
  refine ⟨fun id' page' key hkey => ?_, fun _ hsome => by rw [heq]; exact hsome,
    fun _ _ _ _ => by rw [heq]; rfl, fun others hoths _ id' => ?_⟩
  · have hrem := listed_dirRemove h id' page' key
    rw [if_neg fun hand => hkey line hand.2.2.symm, Nat.add_zero] at hrem
    exact hrem
  · rw [heq]
    exact hoths id'

theorem Settles.of_create (high : Bool)
    (hsome : (view.account id).isSome) (hn : view.line key = none)
    (hself : reserveOwner high key (some line) = some id)
    (hoth : reserveOwner (!high) key (some line) = none) :
    Settles env 1 view (adjustOwnerCount (view.setLine key line) id 1) := by
  have hcount : view.Room 1 → ∀ id', (adjustOwnerCount (view.setLine key line) id 1).count id' =
      view.count id' + if id = id' then 1 else 0 := by
    intro hroom id'
    have hup := (view.setLine key line).count_adjustOwnerCount_up hsome (hroom id) id'
    exact hup
  refine ⟨fun id' page key' _ => ?_, fun id' => ?_, fun _ _ hroom id' => ?_,
    fun others hoths hroom id' => ?_⟩
  · rw [listed_adjustOwnerCount]
    rfl
  · rw [isSome_adjustOwnerCount]
    exact fun hsome => hsome
  · rw [hcount hroom]
    split <;> omega
  have hlin : (adjustOwnerCount (view.setLine key line) id 1).line =
      update view.line key (some line) := line_adjustOwnerCount _ _ _
  have hres := reserves_update high hlin (by rw [hoth, hn]; rfl) id'
  rw [hcount hroom, hoths id']
  rw [hself, hn, show reserveOwner high key none = none from rfl] at hres
  simp only [Option.some.injEq, reduceCtorEq, if_false] at hres
  omega

theorem Settles.of_release {line : Option RippleState} (high : Bool)
    (hlis : ∀ id page key, (∀ line, env.lineIndex line ≠ key) →
      view'.listed id page key = view.listed id page key)
    (hacc : view'.account = (adjustOwnerCount view id (-1)).account)
    (hline : view'.line = update view.line key line)
    (hrese : reserveOwner high key (view.line key) = some id)
    (hself : reserveOwner high key line = none)
    (hoth : reserveOwner (!high) key line = reserveOwner (!high) key (view.line key)) :
    Settles env 0 view view' := by
  have hres := reserves_update high hline hoth
  rw [hself, hrese] at hres
  have hcount : ∀ others, view.Balanced others →
      ∀ id', view'.count id' + (if id = id' then 1 else 0) = view.count id' := by
    intro others hoths id'
    have hpos : 0 < view.count id := by
      have hid := hres id
      rw [if_pos rfl, if_neg (by simp)] at hid
      rw [hoths id]
      omega
    rw [← view.count_adjustOwnerCount_down hpos id', count, count, hacc]
  refine ⟨hlis, fun id' => ?_, fun others hoths _ id' => ?_, fun others hoths _ id' => ?_⟩
  · rw [hacc]
    rw [isSome_adjustOwnerCount]
    exact fun hsome => hsome
  · have hid := hcount others hoths id'
    omega
  have hid := hcount others hoths id'
  have hid' := hres id'
  have hoths' := hoths id'
  simp only [Option.some.injEq, reduceCtorEq, if_false] at hid'
  omega

theorem Settles.of_setLine
    (h : ∀ high, reserveOwner high key (some line) = reserveOwner high key (view.line key)) :
    Settles env 0 view (view.setLine key line) := by
  refine ⟨fun _ _ _ _ => rfl, fun _ hsome => hsome, fun _ _ _ _ => le_rfl,
    fun others hoths _ id => ?_⟩
  have hlin : (view.setLine key line).line = update view.line key (some line) := rfl
  have hres := reserves_update false hlin (h true) id
  rw [h false, Nat.add_right_cancel_iff] at hres
  rw [hres]
  exact hoths id

theorem Settles.trustCreate {src dst : AccountID} {noRipple : Bool} {balance : ℚ}
    (hsome : (view.account dst).isSome) (hn : view.line (lineKey src dst currency) = none)
    (h : trustCreate env view src dst currency noRipple balance = .ok view') :
    Settles env 1 view view' := by
  rw [Token.trustCreate] at h
  obtain ⟨⟨lowNode, view₁⟩, hlow, h⟩ := bind_eq_ok.mp h
  obtain ⟨⟨highNode, view₂⟩, hhigh, h⟩ := bind_eq_ok.mp h
  obtain ⟨slePeer, -, h⟩ := bind_eq_ok.mp h
  cases h
  have hline : view₂.line = view.line := by
    obtain ⟨_, rfl⟩ := dirInsert_eq_ok hlow
    obtain ⟨_, rfl⟩ := dirInsert_eq_ok hhigh
    rfl
  have hins := (Settles.dirInsert hlow).trans (Settles.dirInsert hhigh)
  -- the receiver is the high account or the low one
  have hside : (lineKey src dst currency).high = dst ∨ (lineKey src dst currency).low = dst := by
    rw [lineKey]
    split
    · exact .inl rfl
    · exact .inr rfl
  refine hins.trans (Settles.of_create (decide ((lineKey src dst currency).high = dst))
    (hins.isSome _ hsome) (by rw [hline, hn]) ?_ ?_)
  · by_cases hdst : (lineKey src dst currency).high = dst
    · simp [reserveOwner, side, LineKey.account, hdst]
    · simp [reserveOwner, side, LineKey.account, hdst, hside.resolve_left hdst]
  · by_cases hdst : (lineKey src dst currency).high = dst
    · simp [reserveOwner, side, hdst]
    · simp [reserveOwner, side, hdst]

theorem trustDelete_spec (h : trustDelete env view key line = .ok view') :
    (∀ id page key, (∀ line, env.lineIndex line ≠ key) →
        view'.listed id page key = view.listed id page key) ∧
      view'.account = view.account ∧ view'.line = update view.line key none := by
  obtain ⟨dirs, heq⟩ := trustDelete_eq_ok h
  refine ⟨fun id page key' hkey => ?_, by rw [heq], by rw [heq]⟩
  rw [trustDelete] at h
  obtain ⟨view₁, hlow, h⟩ := bind_eq_ok.mp h
  obtain ⟨view₂, hhigh, h⟩ := bind_eq_ok.mp h
  cases h
  exact ((Settles.dirRemove hlow).trans (Settles.dirRemove hhigh)).listed id page key' hkey

theorem reserveOwner_setSide (line : RippleState) (high : Bool) (key : LineKey) (balance : ℚ) :
    reserveOwner high key
        (some (setSide { line with balance := balance } high
          { line.side high with reserve := false })) = none ∧
      reserveOwner (!high) key
        (some (setSide { line with balance := balance } high
          { line.side high with reserve := false })) = reserveOwner (!high) key (some line) := by
  cases high <;> exact ⟨rfl, rfl⟩

theorem Settles.rippleCredit
    (hne : sender ≠ receiver) (h : rippleCredit env view sender receiver currency amount = .ok view') :
    Settles env 1 view view' := by
  have hsen := lineKey_account hne currency
  rw [Token.rippleCredit] at h
  cases hline : view.line (lineKey sender receiver currency) with
  | none =>
    rw [hline] at h
    obtain ⟨sleAccount, hroot, h⟩ := bind_eq_ok.mp h
    exact Settles.trustCreate (by rw [getAccount_eq_ok hroot]; rfl) hline h
  | some line =>
    rw [hline] at h
    dsimp only at h
    generalize lineKey sender receiver currency = key at *
    generalize decide (receiver.data < sender.data) = high at *
    split at h
    next hcle =>
      rw [clearsReserve, decide_eq_true_eq] at hcle
      have hres : reserveOwner high key (view.line key) = some sender := by
        rw [hline, ← hsen]
        exact if_pos hcle.2.2.1
      obtain ⟨hself, hoth⟩ := reserveOwner_setSide line high key
        (inTerms high (inTerms high line.balance - amount))
      rw [← hline] at hoth
      refine Settles.mono ?_ (Nat.zero_le 1)
      split at h
      next hdel =>
        obtain ⟨hlis, hacc, hlin⟩ := trustDelete_spec h
        rw [line_adjustOwnerCount] at hlin
        refine Settles.of_release high (fun id page key hkey => ?_) hacc hlin hres rfl ?_
        · rw [hlis id page key hkey, listed_adjustOwnerCount]
        -- the receiver has no reserve for the line either
        rw [← hoth]
        exact (if_neg (by rw [hdel.2]; exact Bool.false_ne_true)).symm
      next =>
        cases h
        refine Settles.of_release high (fun id page key _ => ?_) rfl
          (congrArg (update · _ _) (line_adjustOwnerCount _ _ _)) hres hself hoth
        exact congrFun (congrFun (congrFun (listed_adjustOwnerCount _) id) page) key
    next =>
      cases h
      refine Settles.mono (Settles.of_setLine fun side => ?_) (Nat.zero_le 1)
      rw [hline]
      cases side <;> rfl

theorem Settles.rippleSend {issue : Issue} (hne : sender ≠ receiver)
    (h : rippleSend env view sender receiver issue amount senderPaysXferFees = .ok view') :
    Settles env 2 view view' := by
  rw [Token.rippleSend] at h
  split at h
  next => exact (Settles.rippleCredit hne h).mono (by decide)
  next hthi =>
    rw [not_or, not_or] at hthi
    obtain ⟨view₁, hcre, h⟩ := bind_eq_ok.mp h
    exact (Settles.rippleCredit (Ne.symm hthi.2.1) hcre).trans
      (Settles.rippleCredit hthi.1 h)

theorem Settles.of_balance {root root' : AccountRoot}
    (hroot : view.account id = some root) (hcount : root'.ownerCount = root.ownerCount) :
    Settles env 0 view (view.setAccount id root') := by
  refine Settles.of_eq rfl rfl (fun id' hsome => ?_) fun id' => ?_
  · by_cases hid : id' = id
    · simp [setAccount, hid]
    · simpa [setAccount, hid] using hsome
  · by_cases hid : id' = id
    · subst hid
      simp [count, setAccount, hroot, hcount]
    · simp [count, setAccount, hid]

theorem Settles.changeBalance (id : AccountID) (amount : ℚ) :
    Settles env 0 view (changeBalance view id amount) := by
  rw [Token.changeBalance]
  split
  · exact Settles.of_eq rfl rfl (fun _ hsome => hsome) fun _ => rfl
  next root hroot =>
    have hroot' : view.account id = some root := by
      split at hroot
      · cases hroot
      · exact hroot
    exact Settles.of_balance hroot' rfl

/-- **A payment** concerns balances and lines only, and makes at most two lines. -/
theorem Settles.accountSend {amount : STAmount}
    (h : accountSend env view sender receiver amount senderPaysXferFees = .ok view') :
    Settles env 2 view view' := by
  rw [Token.accountSend] at h
  split at h
  next =>
    cases h
    exact Settles.of_eq rfl rfl (fun _ hsome => hsome) fun _ => rfl
  next hsend =>
    rw [not_or] at hsend
    split at h
    next issue _ => exact Settles.rippleSend hsend.2 h
    next =>
      replace h := of_check h
      cases h
      exact ((Settles.changeBalance _ _).trans (Settles.changeBalance _ _)).mono (by decide)

end

end Xahau.Token
