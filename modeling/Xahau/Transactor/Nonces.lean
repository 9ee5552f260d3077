import Xahau.Hook.Commit
import Xahau.Hook.Nonces
import Xahau.Hook.Visits
import Xahau.Transactor.HookFees

/-! # The nonces of all executions for a transaction (`Transactor.cpp`)

`operator()` is followed to collect the visits of all hooks that it runs: of the account, the strong
stakeholders, the callback, the weak stakeholders, and again as weak. No two are given the same
nonce, unless an account is run weakly both as a stakeholder and again. -/

namespace Xahau.Transactor

open Checked FlagList Hook List Visit

variable {acc : AccountID} {visits : List Visit} {phase : StrongPhase} {vm : Vm}

/-! ## Visits -/

/-- The visits of the hooks of the account of the transaction. -/
def originatorVisits (env : Env) (tx : STTx) (view : View) : List Visit :=
  match view.hooks tx.account with
  | some hooks =>
    if tx.isEmittedTxn then []
    else chainVisits env.vm view tx tx.account true hooks 0 [] ∅ .start
  | none => []

/-- The visits before the transaction is applied. -/
def strongVisits (env : Env) (tx : STTx) (view : View) : List Visit :=
  let (result, session) := originatorHooks env tx view
  originatorVisits env tx view ++
    if result.isTesSuccess then tshVisits env.vm tx true (stakeHolders env tx view) [] view session
    else []

/-- The visits of callbacks, one after another. -/
def callbackVisits (vm : Vm) (tx : STTx) : List Invocation → View → Except String (List Visit)
  | [], _ => .ok []
  | invocation :: invocations, view => do
    let (view', _) ← runCallback vm tx invocation view
    let visits ← callbackVisits vm tx invocations view'
    .ok (⟨invocation, view, .empty⟩ :: visits)

section

variable (env : Env) (tx : STTx) (preclaimResult : Ter) (before : View)

def weakStakeHolders (view : View) : List (AccountID × Bool) :=
  if tx.isPseudoTx then []
  else stakeHolders env tx view ++ env.additionalWeakTSH.map fun acc => (acc, false)

/-- The visits that follow when it is settled that a transaction is applied. -/
def postVisits (aawMap : List (AccountID × List UInt256)) (view : View) :
    Except String (List Visit) := do
  let callback ← callbackVisits env.vm tx (callbacks tx view).1 view
  let (view, _) ← doHookCallback env.vm tx view
  let (_, view) ← removeEmissionEntry tx view
  let tsh := weakStakeHolders env tx view
  let (_, view', session) := doTSH env.vm tx false tsh [] view .start
  .ok (callback ++ tshVisits env.vm tx false tsh [] view .start ++
    aawVisits env.vm view' tx aawMap session)

/-- The visits from where the transaction is applied. -/
def finishVisits (strong : StrongPhase) :
    Except String (List Visit) := do
  let (result, view) ←
    (if strong.result.isTesSuccess then apply env tx strong.view
    else .ok (strong.result, strong.view) : Except String (Ter × View))
  match settle env tx before result view with
  | (_, none) => .ok []
  | (_, some settled) =>
    let view := rewards env settled.view
    if view.rules.enabled .featureHooks then postVisits env tx strong.aawMap view else .ok []

/-- The visits of `operator()`. -/
def operatorVisits :
    Except String (List Visit) := do
  if env.flags.preflightEmit = true ∨ (tx.isEmittedTxn = true ∧ env.routerEmitted = false) then
    .ok []
  else if before.rules.enabled .featureHooks = true ∧ preclaimResult.isTesSuccess = true then
    let strong ← strongPhase env tx before
    let visits ← finishVisits env tx before strong
    .ok (strongVisits env tx before ++ visits)
  else finishVisits env tx before ⟨preclaimResult, before, [], []⟩

end

section

variable {env : Env} {tx : STTx} {before view view' : View}

theorem executions_strongVisits (env : Env) (tx : STTx) (view : View) :
    (strongHooks env tx view).2.2.executions
      = (strongVisits env tx view).map (execution env.vm tx) := by
  have hori : (originatorHooks env tx view).2.executions
      = (originatorVisits env tx view).map (execution env.vm tx) := by
    unfold originatorHooks originatorVisits
    cases view.hooks tx.account with
    | none => rfl
    | some hooks =>
      dsimp only
      split
      · rfl
      · exact executions_chainVisits ..
  unfold strongHooks strongVisits
  generalize originatorHooks env tx view = originator at hori
  obtain ⟨result, session⟩ := originator
  dsimp only at hori ⊢
  rw [map_append, ← hori]
  split
  · exact executions_tshVisits ..
  · exact (append_nil _).symm

theorem visits_strong (env : Env) (tx : STTx) (hsho : ShortChains view.toHookRegistry) :
    (∀ visit ∈ strongVisits env tx view, visit.account = tx.account ∨
        TakenUp tx true (stakeHolders env tx view) visit.account) ∧
      OfKind true false (strongVisits env tx view) ∧ Short (strongVisits env tx view) ∧
      ((strongVisits env tx view).map place).Nodup := by
  have hori : ∃ n ≤ 256, InChain tx.account true false 0 n (originatorVisits env tx view) := by
    unfold originatorVisits
    cases hhs : view.hooks tx.account with
    | none => exact ⟨0, Nat.zero_le _, .nil⟩
    | some hooks =>
      refine ⟨0 + hooks.length, (Nat.zero_add _).trans_le (hsho _ _ hhs), ?_⟩
      dsimp only
      split
      · exact .nil
      · exact inChain_chainVisits ..
  obtain ⟨n, hn, hcha⟩ := hori
  unfold strongVisits
  generalize originatorHooks env tx view = originator
  obtain ⟨result, session⟩ := originator
  have hpha : InPhase tx true (stakeHolders env tx view) [] (if result.isTesSuccess then
      tshVisits env.vm tx true (stakeHolders env tx view) [] view session else []) := by
    split
    · exact inPhase_tshVisits _ _ _ _ hsho
    · exact .nil ..
  refine ⟨?_, ?_, ?_, ?_⟩
  · exact forall_mem_append.mpr ⟨fun visit hvis => .inl (hcha.account visit hvis),
      fun visit hvis => .inr (hpha.takenUp visit hvis).2⟩
  · exact forall_mem_append.mpr ⟨hcha.kind, hpha.kind⟩
  · refine forall_mem_append.mpr ⟨fun visit hvis => ?_, hpha.short⟩
    exact (hcha.position visit hvis).2.trans_le hn
  refine nodup_append_places hcha.nodup hpha.nodup fun visit hvis visit' hvis' heq => ?_
  rw [hcha.account visit hvis] at heq
  exact (hpha.takenUp visit' hvis').2.1 heq.symm

/-! ## Callbacks -/

theorem inChain_callbackInvocations (acc : AccountID) (hash : UInt256) (hookDef : HookDefinition)
    (hooks : List HookObj) (hookNo : Nat)
    (h : visits.map invocation = callbackInvocations tx acc hash hookDef hooks hookNo) :
    InChain acc false true hookNo (hookNo + hooks.length) visits := by
  induction hooks generalizing hookNo visits with
  | nil =>
    rw [map_eq_nil_iff.mp h]
    exact .nil
  | cons hookObj hooks ih =>
    have hlen : hookNo + (hookObj :: hooks).length = hookNo + 1 + hooks.length := by
      rw [length_cons]
      omega
    rw [hlen]
    unfold callbackInvocations at h
    split at h
    · exact (ih _ h).skip
    split at h
    · rw [map_eq_nil_iff.mp h]
      exact .nil
    obtain ⟨visit, rest, rfl, hvis, hrest⟩ := map_eq_cons_iff.mp h
    refine .cons (ih _ hrest) (by omega) ?_ ?_ ?_ ?_
    · rw [account, hvis]
      rfl
    · rw [hvis]
      rfl
    · rw [hvis]
    · rw [hvis]
      rfl

variable {invocations : List Invocation} {ids : List UInt256} {outcome : TxOutcome}

theorem invocation_callbackVisits (h : callbackVisits vm tx invocations view = .ok visits) :
    visits.map invocation = invocations := by
  induction invocations generalizing view visits with
  | nil =>
    cases h
    rfl
  | cons invocation invocations ih =>
    rw [callbackVisits] at h
    simp only [bind_eq_ok] at h
    obtain ⟨⟨view', ids⟩, -, rest, hrest, h⟩ := h
    cases h
    rw [map_cons, ih hrest]

theorem visits_callback (hsho : ShortChains view.toHookRegistry)
    (h : callbackVisits vm tx (callbacks tx view).1 view = .ok visits) :
    OfKind false true visits ∧ Short visits ∧ (visits.map place).Nodup := by
  have hnil {visits : List Visit} (h : visits = []) :
      OfKind false true visits ∧ Short visits ∧ (visits.map place).Nodup := by
    rw [h]
    exact ⟨fun _ h => absurd h not_mem_nil, fun _ h => absurd h not_mem_nil,
      nodup_nil⟩
  have hinvo := invocation_callbackVisits h
  unfold callbacks at hinvo
  cases hdet : tx.emitDetails with
  | none =>
    rw [hdet] at hinvo
    exact hnil (map_eq_nil_iff.mp hinvo)
  | some emitDetails =>
    rw [hdet] at hinvo
    dsimp only at hinvo
    split at hinvo
    · split at hinvo
      next hhs =>
        have hcha := inChain_callbackInvocations _ _ _ _ _ hinvo
        refine ⟨hcha.kind, fun visit hvis => ?_, hcha.nodup⟩
        refine (hcha.position visit hvis).2.trans_le ?_
        exact (Nat.zero_add _).trans_le (hsho _ _ hhs)
      · exact hnil (map_eq_nil_iff.mp hinvo)
    · exact hnil (map_eq_nil_iff.mp hinvo)

theorem callbackVisits_of_runCallbacks
    (h : runCallbacks vm tx invocations view = .ok (view', ids)) :
    ∃ visits, callbackVisits vm tx invocations view = .ok visits := by
  induction invocations generalizing view ids with
  | nil => exact ⟨[], rfl⟩
  | cons invocation invocations ih =>
    rw [runCallbacks] at h
    simp only [bind_eq_ok] at h
    obtain ⟨⟨view₁, ids₁⟩, hrun, ⟨view₂, ids₂⟩, hrest, h⟩ := h
    cases h
    obtain ⟨visits, hvis⟩ := ih hrest
    refine ⟨⟨invocation, view, .empty⟩ :: visits, ?_⟩
    rw [callbackVisits, hrun, ok_bind]
    dsimp only
    rw [hvis, ok_bind]

/-! ## Running again -/

theorem asked_of_mem_againMap {hookResults : List HookResult}
    (h : acc ∈ (againMap hookResults).map Prod.fst) :
    ∃ hookResult ∈ hookResults, hookResult.account = acc ∧ hookResult.executeAgainAsWeak = true := by
  -- the map holds who was in it before and who has asked since
  have hfold : ∀ aawMap : AList fun _ : AccountID => List UInt256,
      acc ∈ hookResults.foldl (fun aawMap hookResult =>
        if hookResult.executeAgainAsWeak then
          aawMap.insert hookResult.account
            (hookResult.hookHash :: (aawMap.lookup hookResult.account).getD [])
        else aawMap) aawMap →
      acc ∈ aawMap ∨ ∃ hookResult ∈ hookResults, hookResult.account = acc ∧
        hookResult.executeAgainAsWeak = true := by
    clear h
    induction hookResults with
    | nil => exact fun _ hmem => .inl hmem
    | cons hookResult hookResults ih =>
      intro aawMap hmem
      rw [foldl_cons] at hmem
      rcases ih _ hmem with hmem | ⟨other, hoth, hask⟩
      · split at hmem
        next hasks =>
          rcases (AList.mem_insert _).mp hmem with heq | hold
          · exact .inr ⟨hookResult, mem_cons_self, heq.symm, hasks⟩
          · exact .inl hold
        · exact .inl hmem
      · exact .inr ⟨other, mem_cons_of_mem _ hoth, hask⟩
  unfold againMap at h
  simp only [map_map, mem_map, Function.comp_apply] at h
  obtain ⟨entry, hent, rfl⟩ := h
  rw [mem_sortedEntries] at hent
  refine (hfold ∅ ?_).resolve_left (AList.notMem_empty _)
  rw [← AList.lookup_isSome, hent]
  rfl

theorem nodup_againMap (hookResults : List HookResult) :
    ((againMap hookResults).map Prod.fst).Nodup := by
  unfold againMap
  rw [map_map]
  exact nodup_sortedEntries _

theorem visit_of_mem_aawMap
    (h : strongPhase env tx view = .ok phase) (hacc : acc ∈ phase.aawMap.map Prod.fst) :
    ∃ visit ∈ strongVisits env tx view, visit.account = acc ∧
      (env.vm visit.invocation visit.view visit.stateMap).executeAgainAsWeak = true := by
  rw [aawMap_eq h] at hacc
  obtain ⟨hookResult, hmem, rfl, hasks⟩ := asked_of_mem_againMap hacc
  obtain ⟨execution, hexe, hres⟩ := mem_filterMap.mp hmem
  rw [executions_strongVisits] at hexe
  obtain ⟨visit, hvis, rfl⟩ := mem_map.mp hexe
  split at hres
  · cases hres
  · cases hres
    exact ⟨visit, hvis, rfl, hasks⟩

/-- Every strong stakeholder has hooks that do not ask to be run again, or stays one. -/
def AgainApart (env : Env) (tx : STTx) (before : View) : Prop :=
  ∀ acc, TakenUp tx true (stakeHolders env tx before) acc →
    (∀ invocation view stateMap, invocation.hook.account = acc →
      (env.vm invocation view stateMap).executeAgainAsWeak = false) ∨
    ∀ view, view.rules = before.rules → first acc (stakeHolders env tx view) = some true

theorem AgainApart.notWeak (hapa : AgainApart env tx before)
    (hsho : ShortChains before.toHookRegistry) (h : strongPhase env tx before = .ok phase)
    (hacc : acc ∈ phase.aawMap.map Prod.fst) (hrul : view.rules = before.rules) :
    ¬ TakenUp tx false (weakStakeHolders env tx view) acc := by
  rintro ⟨hne, hfirst⟩
  obtain ⟨visit, hvis, rfl, hasks⟩ := visit_of_mem_aawMap h hacc
  rcases (visits_strong env tx hsho).1 visit hvis with hacco | htak
  · exact hne hacco
  rcases hapa _ htak with hnev | hsta
  · rw [hnev _ _ _ rfl] at hasks
    cases hasks
  unfold weakStakeHolders at hfirst
  split at hfirst
  · cases hfirst
  · rw [first_append, hsta view hrul] at hfirst
    cases hfirst

/-! ## Keys -/

/-- The executions of the visits are told apart by their nonces. -/
def Apart (visits : List Visit) : Prop := (visits.map fun visit => visit.invocation.nonceKey).Nodup

theorem apart_of_places (hsho : Short visits) (hpla : (visits.map place).Nodup) : Apart visits := by
  unfold Apart
  rw [List.Nodup, pairwise_map]
  rw [List.Nodup, pairwise_map] at hpla
  refine hpla.imp_of_mem fun {visit visit'} hvis hvis' hne => ?_
  refine nonceKey_ne (hsho visit hvis) (hsho visit' hvis') fun hs => hne ?_
  exact Prod.ext hs.1 hs.2.2.2

theorem apart_append {visits' : List Visit} (h : Apart visits) (h' : Apart visits')
    (hsho : Short visits) (hsho' : Short visits') (hne : ∀ visit ∈ visits, ∀ visit' ∈ visits',
      ¬ (visit.invocation.isStrong = visit'.invocation.isStrong ∧
        visit.invocation.isCallback = visit'.invocation.isCallback)) :
    Apart (visits ++ visits') := by
  unfold Apart
  rw [map_append, nodup_append]
  refine ⟨h, h', ?_⟩
  rintro key hkey key' hkey' rfl
  obtain ⟨visit, hvis, rfl⟩ := mem_map.mp hkey
  obtain ⟨visit', hvis', heq⟩ := mem_map.mp hkey'
  refine nonceKey_ne (hsho visit hvis) (hsho' visit' hvis') (fun hs => ?_) heq.symm
  exact hne visit hvis visit' hvis' ⟨hs.2.1, hs.2.2.1⟩

/-- Visits of one kind that are told apart. -/
structure Group (strong callback : Bool) (visits : List Visit) : Prop where
  kind : OfKind strong callback visits
  short : Short visits
  apart : Apart visits

theorem Group.nil (strong callback : Bool) : Group strong callback [] :=
  ⟨fun _ h => absurd h not_mem_nil, fun _ h => absurd h not_mem_nil, nodup_nil⟩

theorem Group.append {callback weak : List Visit} (hcal : Group false true callback)
    (hweak : Group false false weak) :
    Apart (callback ++ weak) ∧ Short (callback ++ weak) ∧
      ∀ visit ∈ callback ++ weak, visit.invocation.isStrong = false := by
  refine ⟨?_, forall_mem_append.mpr ⟨hcal.short, hweak.short⟩, ?_⟩
  · refine apart_append hcal.apart hweak.apart hcal.short hweak.short ?_
    intro visit hvis visit' hvis' hs
    rw [(hcal.kind visit hvis).2, (hweak.kind visit' hvis').2] at hs
    cases hs.2
  · exact forall_mem_append.mpr ⟨fun visit hvis => (hcal.kind visit hvis).1,
      fun visit hvis => (hweak.kind visit hvis).1⟩

/-- **What follows for an applied transaction**: callbacks, and weak visits. -/
theorem visits_post {aawMap : List (AccountID × List UInt256)} {result : Ter}
    (hsho : ShortChains view.toHookRegistry) (hnd : (aawMap.map Prod.fst).Nodup)
    (hnot : ∀ view' : View, view'.rules = view.rules → ∀ acc ∈ aawMap.map Prod.fst,
      ¬ TakenUp tx false (weakStakeHolders env tx view') acc)
    (h : postApplication env tx aawMap result view = .ok (view', ids)) :
    ∃ callback weak, postVisits env tx aawMap view = .ok (callback ++ weak) ∧
      Group false true callback ∧ Group false false weak := by
  unfold postApplication at h
  simp only [bind_eq_ok] at h
  obtain ⟨⟨view₁, ids₁⟩, hcal, ⟨result₂, view₂⟩, hrem, -⟩ := h
  have hkept : view₂.toHookRegistry = view.toHookRegistry ∧ view₂.rules = view.rules := by
    have hfun := ((hookWrites_doHookCallback hcal).trans
      (hookWrites_removeEmissionEntry hrem)).sameFunds
    exact ⟨hfun.registry, hfun.rules⟩
  have hruns := hcal
  rw [doHookCallback_eq] at hruns
  obtain ⟨callback, hvisi⟩ := callbackVisits_of_runCallbacks hruns
  obtain ⟨hkind, hposi, hpla⟩ := visits_callback hsho hvisi
  have hsho₂ : ShortChains view₂.toHookRegistry := by
    rw [hkept.1]
    exact hsho
  have hpha : InPhase tx false (weakStakeHolders env tx view₂) []
      (tshVisits env.vm tx false (weakStakeHolders env tx view₂) [] view₂ .start) :=
    inPhase_tshVisits _ _ _ _ hsho₂
  obtain ⟨-, account, drops, -, hview⟩ :=
    run_doTSH env.vm tx false (weakStakeHolders env tx view₂) [] view₂ .start
  unfold postVisits
  rw [hvisi, ok_bind, hcal, ok_bind]
  dsimp only at hrem ⊢
  rw [hrem, ok_bind]
  generalize doTSH env.vm tx false (weakStakeHolders env tx view₂) [] view₂ .start = done at hview ⊢
  obtain ⟨tshResult, view₃, session⟩ := done
  dsimp only at hview ⊢
  have hsho₃ : ShortChains view₃.toHookRegistry := by
    rw [hview]
    exact hsho₂
  obtain ⟨hacc, haga, hposi', hpla'⟩ := visits_aaw env.vm tx view₃ aawMap session hsho₃ hnd
  rw [append_assoc]
  refine ⟨callback, _, rfl, ⟨hkind, hposi, apart_of_places hposi hpla⟩, ?_⟩
  have hweak : Short (tshVisits env.vm tx false (weakStakeHolders env tx view₂) [] view₂ .start ++
      aawVisits env.vm view₃ tx aawMap session) :=
    forall_mem_append.mpr ⟨hpha.short, hposi'⟩
  refine ⟨forall_mem_append.mpr ⟨hpha.kind, haga⟩, hweak, apart_of_places hweak ?_⟩
  refine nodup_append_places hpha.nodup hpla' fun visit hvis visit' hvis' heq => ?_
  -- an account that is run again is not taken up as a weak stakeholder
  refine hnot view₂ hkept.2 _ (hacc visit' hvis') ?_
  rw [← heq]
  exact (hpha.takenUp visit hvis).2

section

variable (hsho : ShortChains before.toHookRegistry) (hkee : KeepsHooks env tx ShortChains)

include hsho hkee

theorem visits_finish {strong : StrongPhase}
        (hfun : SameFunds before strong.view) (hnd : (strong.aawMap.map Prod.fst).Nodup)
    (hnot : ∀ view : View, view.rules = before.rules → ∀ acc ∈ strong.aawMap.map Prod.fst,
      ¬ TakenUp tx false (weakStakeHolders env tx view) acc)
    (h : finish env tx before strong = .ok outcome) :
    ∃ callback weak, finishVisits env tx before strong = .ok (callback ++ weak) ∧
      Group false true callback ∧ Group false false weak := by
  obtain ⟨⟨result, view⟩, happ, h⟩ := bind_eq_ok.mp h
  unfold finishVisits
  rw [happ, ok_bind]
  dsimp only at h ⊢
  generalize hset : settle env tx before result view = outcome₁ at h ⊢
  obtain ⟨result₁, _ | settled⟩ := outcome₁
  · exact ⟨[], [], rfl, .nil .., .nil ..⟩
  obtain ⟨⟨result₂, view₂, ids⟩, hcon, -⟩ := bind_eq_ok.mp h
  have hrew := sameFunds_rewards env settled.view
  obtain ⟨hcha, hrul⟩ := hooks_of_settle hkee hsho hfun happ hset
  obtain ⟨⟨view₃, ids₃⟩, hpost, -⟩ := bind_eq_ok.mp hcon
  dsimp only
  split at hpost
  next hena =>
    rw [if_pos hena]
    rw [← hrew.registry] at hcha
    refine visits_post hcha hnd (fun view' hview' => ?_) hpost
    exact hnot view' (hview'.trans (hrew.rules.trans hrul))
  next hdis =>
    rw [if_neg hdis]
    exact ⟨[], [], rfl, .nil .., .nil ..⟩

/-- **The executions for a transaction are told apart by their nonces**, unless an account run again
may be weak as well. -/
theorem apart_operatorVisits {preclaimResult : Ter}
        (hapa : AgainApart env tx before)
    (h : operator env tx preclaimResult before = .ok outcome) :
    ∃ visits, operatorVisits env tx preclaimResult before = .ok visits ∧ Apart visits := by
  unfold operator at h
  unfold operatorVisits
  split at h
  next hbar =>
    rw [if_pos hbar]
    exact ⟨[], rfl, nodup_nil⟩
  rename_i hbar
  rw [if_neg hbar]
  obtain ⟨phase, hpha, hfin⟩ := bind_eq_ok.mp h
  have hfun := (sameFunds_strong hpha).1
  split at hpha
  next hena =>
    rw [if_pos hena, hpha, ok_bind]
    have hnd : (phase.aawMap.map Prod.fst).Nodup := by
      rw [aawMap_eq hpha]
      exact nodup_againMap _
    obtain ⟨callback, weak, hvis, hcal, hweak⟩ :=
      visits_finish hsho hkee hfun hnd
        (fun view hrul acc hacc => hapa.notWeak hsho hpha hacc hrul) hfin
    obtain ⟨hrest, hposi', hnotStrong⟩ := hcal.append hweak
    obtain ⟨-, hkind, hposi, hpla⟩ := visits_strong env tx hsho
    rw [hvis, ok_bind]
    refine ⟨_, rfl, ?_⟩
    refine apart_append (apart_of_places hposi hpla) hrest hposi hposi' ?_
    intro visit hvisi visit' hvisi' hs
    rw [(hkind visit hvisi).1, hnotStrong visit' hvisi'] at hs
    cases hs.1
  next hdis =>
    rw [if_neg hdis]
    cases hpha
    obtain ⟨callback, weak, hvis, hcal, hweak⟩ :=
      visits_finish hsho hkee hfun nodup_nil
        (fun view hrul acc hacc => absurd hacc not_mem_nil) hfin
    exact ⟨_, hvis, (hcal.append hweak).1⟩

end

/-! ## Nonces -/

section

variable (host : HostEnv) (node : Node) (tx : STTx) (code : Invocation → Program)

/-- The nonces that the execution of a visit is given. -/
def visitNonces (visit : Visit) : List UInt256 :=
  nonces host node tx code visit.invocation visit.view visit.stateMap

/-- The nonces in the transactions that the execution of a visit emits. -/
def visitEmitNonces (visit : Visit) : List (Option UInt256) :=
  (emittedTxns host node tx code visit.invocation visit.view visit.stateMap).map fun t =>
    t.emitDetails.map EmitDetails.emitNonce

def keysOf (visits : List Visit) : Set NonceKey :=
  {key | ∃ visit ∈ visits, visit.invocation.nonceKey = key}

/-- The environment in which hooks are run as programs on a node. -/
def hosted (env : Env) : Env :=
  { env with vm := machine host node tx code }

end

/-- Chains are short, who is run again is not demoted, and a nonce is used for one transaction. -/
structure NonceSafe (host : HostEnv) (node : Node) (code : Invocation → Program) (env : Env)
    (tx : STTx) (before : View) : Prop where
  shortChains : ShortChains before.toHookRegistry
  keepsShort : KeepsHooks (hosted host node tx code env) tx ShortChains
  again : AgainApart (hosted host node tx code env) tx before
  once : ∀ visit, (visitEmitNonces host node tx code visit).Nodup

variable {host : HostEnv} {node : Node} {code : Invocation → Program}

theorem nodup_visitNonces (hapa : Apart visits)
    (hinj : Set.InjOn host.sha512Half (hashed tx (keysOf visits))) :
    (visits.flatMap (visitNonces host node tx code)).Nodup := by
  have hkey {visit : Visit} (h : visit ∈ visits) : visit.invocation.nonceKey ∈ keysOf visits :=
    ⟨visit, h, rfl⟩
  rw [nodup_flatMap]
  refine ⟨fun visit hvis => nodup_nonces hinj (hkey hvis), ?_⟩
  rw [Apart, List.Nodup, pairwise_map] at hapa
  refine hapa.imp_of_mem fun hvis hvis' hne => ?_
  exact disjoint_nonces hinj (hkey hvis) (hkey hvis') hne

theorem mem_visitEmitNonces {visit : Visit} {nonce : Option UInt256}
    (h : nonce ∈ visitEmitNonces host node tx code visit) :
    ∃ hash ∈ visitNonces host node tx code visit, nonce = some hash := by
  obtain ⟨t, ht, rfl⟩ := mem_map.mp h
  unfold emittedTxns at ht
  rw [apply_machine] at ht
  obtain ⟨d, hdet, hmem⟩ := (NonceInv.run host node tx code _ _ _).emitted t ht
  exact ⟨d.emitNonce, hmem, by rw [hdet]; rfl⟩

theorem nodup_visitEmitNonces (hapa : Apart visits)
    (hinj : Set.InjOn host.sha512Half (hashed tx (keysOf visits)))
    (honce : ∀ visit, (visitEmitNonces host node tx code visit).Nodup) :
    (visits.flatMap (visitEmitNonces host node tx code)).Nodup := by
  have hkey {visit : Visit} (h : visit ∈ visits) : visit.invocation.nonceKey ∈ keysOf visits :=
    ⟨visit, h, rfl⟩
  rw [nodup_flatMap]
  refine ⟨fun visit _ => honce visit, ?_⟩
  rw [Apart, List.Nodup, pairwise_map] at hapa
  refine hapa.imp_of_mem fun hvis hvis' hne nonce h h' => ?_
  obtain ⟨hash, hmem, rfl⟩ := mem_visitEmitNonces h
  obtain ⟨hash', hmem', heq⟩ := mem_visitEmitNonces h'
  cases heq
  exact disjoint_nonces hinj (hkey hvis) (hkey hvis') hne hmem hmem'

end

/-! ## An issuer who sells a token -/

/-- A machine whose hashes are the numbers and the flags. -/
def countingHost : HostEnv :=
  { emittingEnv with
    sha512Half := fun args => ⟨List.replicate 30 0 ++ [UInt8.ofNat args.flags,
      UInt8.ofNat args.counter], by simp⟩ }

theorem injOn_countingHost {tx : STTx} {visits : List Visit}
    (h : ∀ visit ∈ visits, visit.invocation.nonceKey.account = owner ∧
      visit.invocation.nonceKey.hookHash = ownerHook.hookHash ∧
      visit.invocation.nonceKey.flags < 256) :
    Set.InjOn countingHost.sha512Half (hashed tx (keysOf visits)) := by
  rintro args ⟨⟨account, hookHash, flags⟩, ⟨visit, hmem, hkey⟩, counter, hcou, rfl⟩ args'
    ⟨⟨account', hookHash', flags'⟩, ⟨visit', hmem', hkey'⟩, counter', hcou', rfl⟩ heq
  have hone := h visit hmem
  have htwo := h visit' hmem'
  rw [hkey] at hone
  rw [hkey'] at htwo
  obtain ⟨rfl, rfl, hfla⟩ := hone
  obtain ⟨hacc, hhash, hfla'⟩ := htwo
  dsimp only at hacc hhash hfla hfla'
  have hdata := congrArg BaseUInt.data heq
  simp only [countingHost, argsAt, append_cancel_left_eq, List.cons.injEq, and_true] at hdata
  have hs := congrArg UInt8.toNat hdata.1
  have hs' := congrArg UInt8.toNat hdata.2
  simp only [UInt8.toNat_ofNat'] at hs hs'
  unfold maxNonce at hcou hcou'
  rw [Nat.mod_eq_of_lt (by omega), Nat.mod_eq_of_lt (by omega)] at hs hs'
  rw [hacc, hhash, hs, hs']

/-- `hook_again`. -/
def hookAgain (_ : ApplyContext) (ctx : RunContext) (memory : Memory) : (Int × Memory) × Scratch :=
  if ctx.executeAgainAsWeak then ((HookReturnCode.alreadySet.code, memory), ctx.toScratch)
  else if ctx.isStrong then ((1, memory), { ctx.toScratch with executeAgainAsWeak := true })
  else ((HookReturnCode.prerequisiteNotMet.code, memory), ctx.toScratch)

/-- A hook that asks for a nonce and accepts. -/
def takeNonce : Program := .ask (List.replicate 40 0, .etxnNonce 1 32) fun _ => .done ⟨.accept, false⟩

/-- A hook that asks to be run again, and for a nonce, and accepts. -/
def againWithNonce : Program := .ask ([0], .other hookAgain) fun _ => takeNonce

theorem nonceSafe_strangerPayment :
    NonceSafe countingHost (nodeCharging 10) (fun _ => takeNonce) (acceptingEnv [(owner, true)] [])
      strangerPayment hookedLedger := by
  refine ⟨fun acc hooks hhs => ?_, fun view result view' h hP => ?_, fun acc _ => ?_,
    fun visit => ?_⟩
  · change collectRegistry.hooks acc = some hooks at hhs
    unfold collectRegistry at hhs
    dsimp only at hhs
    split at hhs
    · cases hhs
      decide
    · cases hhs
  · cases h
    exact hP
  · exact .inl fun _ _ _ _ => rfl
  · exact nodup_nil

/-- The stranger buys a token of the owner, whose hook asks to be run again. -/
def purchaseEnv : Env :=
  { hosted countingHost (nodeCharging 10) tokenPurchase (fun _ => againWithNonce)
      (acceptingEnv [] []) with
    stakeHolders := getTransactionalStakeHolders (fun _ _ => .zero) tokenPurchase
    doApply := fun view =>
      (.tesSUCCESS, { view with uriToken := (tokenLedger false tokenPurchase.account).uriToken }) }

/-- A hook's memory holds a transaction of two, with one nonce. -/
def reusingHost : HostEnv :=
  { countingHost with
    deserialize := fun blob => some { emittedByOwner with
      transactionID := .ofByte (blob.headD 0)
      fee := 20
      emitDetails := emittedByOwner.emitDetails.map fun d =>
        { d with
          emitBurden := 2
          emitNonce := countingHost.sha512Half
            (argsAt strangerPayment ownerInvocation.nonceKey 0) } } }

/-- A hook that asks for one nonce and emits two transactions. -/
def emitTwo : Program :=
  .ask (List.replicate 40 0, .etxnReserve 2) fun _ =>
    .ask (List.replicate 40 0, .etxnNonce 1 32) fun _ =>
      .ask (List.replicate 40 1, .emit 1 32 33 1) fun _ =>
        .ask (List.replicate 40 2, .emit 1 32 33 1) fun _ => .done ⟨.accept, false⟩

end Xahau.Transactor
