import Xahau.Hook.Phases

/-! # Which hooks run, and where (`Transactor.cpp`)

The functions that run hooks are followed once more, to collect the arguments of `hook::apply`.
Positions rise within a chain, and an account is taken up once in a phase, so no two executions of a
phase are at the same place. -/

namespace Xahau.Hook

open FlagList List

/-- The arguments of `hook::apply` that differ between executions. -/
structure Visit where
  invocation : Invocation
  view : View
  stateMap : HookStateMap

def Visit.execution (vm : Vm) (tx : STTx) (visit : Visit) : Execution :=
  (apply vm tx visit.invocation visit.view visit.stateMap).1

def Visit.account (visit : Visit) : AccountID := visit.invocation.hook.account

/-- The visits of `executeHookChain`, from the hook with the number `hookNo` on. -/
def chainVisits (vm : Vm) (view : View) (tx : STTx) (account : AccountID) (strong : Bool) :
    List HookObj → Nat → List UInt256 → ParamOverrides → Session → List Visit
  | [], _, _, _, _ => []
  | hookObj :: hooks, hookNo, hookSkips, overrides, session =>
    match hookObj.fires view tx strong hookSkips with
    | none => chainVisits vm view tx account strong hooks (hookNo + 1) hookSkips overrides session
    | some (hookHash, hookDef) =>
      match gatherHookParameters hookDef hookObj with
      | none => []
      | some parameters =>
        let invocation := hookObj.invocation hookHash hookDef account parameters overrides strong
          (if strong then 0 else 1) hookNo
        let (execution, session') := session.execute vm tx invocation view
        ⟨invocation, view, session.stateMap⟩ ::
          if execution.accepted = false then []
          else
            chainVisits vm view tx account strong hooks (hookNo + 1)
              (hookSkips ++ execution.result.hookSkips)
              (mergeOverrides overrides execution.result.hookParamOverrides) session'

/-- The visits of `doTSH`. -/
def tshVisits (vm : Vm) (tx : STTx) (strong : Bool) :
    List (AccountID × Bool) → List AccountID → View → Session → List Visit
  | [], _, _, _ => []
  | (tshAccountID, canRollback) :: tsh, alreadyProcessed, view, session =>
    if tshAccountID = tx.account ∨ tshAccountID ∈ alreadyProcessed then
      tshVisits vm tx strong tsh alreadyProcessed view session
    else if canRollback ≠ strong then
      tshVisits vm tx strong tsh (tshAccountID :: alreadyProcessed) view session
    else
      match chargeTSH view tx tshAccountID canRollback with
      | none => tshVisits vm tx strong tsh (tshAccountID :: alreadyProcessed) view session
      | some (hooks, view) =>
        let (tshResult, session') :=
          executeHookChain vm view tx tshAccountID strong hooks 0 [] ∅ session
        chainVisits vm view tx tshAccountID strong hooks 0 [] ∅ session ++
          if canRollback = true ∧ tshResult.isTesSuccess = false then []
          else tshVisits vm tx strong tsh (tshAccountID :: alreadyProcessed) view session'

/-- The visits of `doAgainAsWeak`, from the hook `hookNo` on. -/
def againVisits (vm : Vm) (view : View) (tx : STTx) (hookAccountID : AccountID)
    (hookHashes : List UInt256) : List HookObj → Nat → Session → List Visit
  | [], _, _ => []
  | hookObj :: hooks, hookNo, session =>
    let hookDef? := do
      let hookHash ← hookObj.hookHash
      guard (hookHash ∈ hookHashes)
      let hookDef ← view.hookDefinition hookHash
      pure (hookHash, hookDef)
    match hookDef? with
    | none => againVisits vm view tx hookAccountID hookHashes hooks (hookNo + 1) session
    | some (hookHash, hookDef) =>
      match gatherHookParameters hookDef hookObj with
      | none => []
      | some parameters =>
        let invocation :=
          hookObj.invocation hookHash hookDef hookAccountID parameters ∅ false 2 hookNo
        let (_, session') := session.execute vm tx invocation view
        ⟨invocation, view, session.stateMap⟩ ::
          againVisits vm view tx hookAccountID hookHashes hooks (hookNo + 1) session'

/-- The visits of `doAgainAsWeak`, for one account after another. -/
def aawVisits (vm : Vm) (view : View) (tx : STTx) :
    List (AccountID × List UInt256) → Session → List Visit
  | [], _ => []
  | (accID, hookHashes) :: aawMap, session =>
    (match view.hooks accID with
      | none => []
      | some hooks => againVisits vm view tx accID hookHashes hooks 0 session) ++
    aawVisits vm view tx aawMap (doAgainAsWeak vm view tx accID hookHashes session)

section

variable (vm : Vm) (tx : STTx) (view : View) (strong : Bool)

/-! ## Visits are executions -/

theorem executions_chainVisits (account : AccountID) (hooks : List HookObj) (hookNo : Nat)
    (hookSkips : List UInt256) (overrides : ParamOverrides) (session : Session) :
    (executeHookChain vm view tx account strong hooks hookNo hookSkips overrides
        session).2.executions
      = session.executions ++ (chainVisits vm view tx account strong hooks hookNo hookSkips overrides
          session).map (Visit.execution vm tx) := by
  induction hooks generalizing hookNo hookSkips overrides session with
  | nil => exact (append_nil _).symm
  | cons hookObj hooks ih =>
    unfold executeHookChain chainVisits
    cases hookObj.fires view tx strong hookSkips with
    | none => exact ih ..
    | some fired =>
      obtain ⟨hookHash, hookDef⟩ := fired
      dsimp only
      cases gatherHookParameters hookDef hookObj with
      | none => exact (append_nil _).symm
      | some parameters =>
        dsimp only
        generalize hookObj.invocation .. = invocation
        rw [map_cons]
        split
        · rfl
        rw [ih]
        simp only [Session.execute, append_assoc, singleton_append]
        rfl

/-- **The stakeholders execute their visits.** -/
theorem executions_tshVisits (tsh : List (AccountID × Bool)) (alreadyProcessed : List AccountID)
    (view : View) (session : Session) :
    (doTSH vm tx strong tsh alreadyProcessed view session).2.2.executions
      = session.executions ++ (tshVisits vm tx strong tsh alreadyProcessed view session).map
          (Visit.execution vm tx) := by
  induction tsh generalizing alreadyProcessed view session with
  | nil => exact (append_nil _).symm
  | cons p tsh ih =>
    obtain ⟨tshAccountID, canRollback⟩ := p
    unfold doTSH tshVisits
    split
    · exact ih ..
    split
    · exact ih ..
    cases chargeTSH view tx tshAccountID canRollback with
    | none => exact ih ..
    | some charged =>
      obtain ⟨hooks, view₁⟩ := charged
      have hcha := executions_chainVisits vm tx view₁ strong tshAccountID hooks 0 [] ∅ session
      dsimp only
      rw [map_append, ← append_assoc, ← hcha]
      split
      · exact (append_nil _).symm
      · exact ih ..

theorem executions_againVisits (hookAccountID : AccountID) (hookHashes : List UInt256)
    (hooks : List HookObj) (hookNo : Nat) (session : Session) :
    (againAsWeak vm view tx hookAccountID hookHashes hooks hookNo session).executions
      = session.executions ++ (againVisits vm view tx hookAccountID hookHashes hooks hookNo
          session).map (Visit.execution vm tx) := by
  induction hooks generalizing hookNo session with
  | nil => exact (append_nil _).symm
  | cons hookObj hooks ih =>
    unfold againAsWeak againVisits
    generalize (do
      let hookHash ← hookObj.hookHash
      guard (hookHash ∈ hookHashes)
      let hookDef ← view.hookDefinition hookHash
      pure (hookHash, hookDef) : Option (UInt256 × HookDefinition)) = found
    cases found with
    | none => exact ih ..
    | some found =>
      obtain ⟨hookHash, hookDef⟩ := found
      dsimp only
      cases gatherHookParameters hookDef hookObj with
      | none => exact (append_nil _).symm
      | some parameters =>
        generalize hookObj.invocation .. = invocation
        rw [ih, map_cons]
        simp only [Session.execute, append_assoc, singleton_append]
        rfl

/-- **Running again executes the visits, for one account after another.** -/
theorem executions_aawVisits (aawMap : List (AccountID × List UInt256)) (session : Session) :
    (aawMap.foldl (fun session aaw => doAgainAsWeak vm view tx aaw.1 aaw.2 session)
        session).executions
      = session.executions ++ (aawVisits vm view tx aawMap session).map (Visit.execution vm tx) := by
  induction aawMap generalizing session with
  | nil => exact (append_nil _).symm
  | cons aaw aawMap ih =>
    obtain ⟨accID, hookHashes⟩ := aaw
    have hone : (doAgainAsWeak vm view tx accID hookHashes session).executions
        = session.executions ++ (match view.hooks accID with
          | none => []
          | some hooks => againVisits vm view tx accID hookHashes hooks 0 session).map
            (Visit.execution vm tx) := by
      unfold doAgainAsWeak
      cases view.hooks accID with
      | none => exact (append_nil _).symm
      | some hooks => exact executions_againVisits ..
    rw [foldl_cons, ih, aawVisits, map_append, ← append_assoc, hone]

end

/-! ## Places -/

/-- The place of a visit: the account and the position in its chain. -/
def Visit.place (visit : Visit) : AccountID × Nat :=
  (visit.account, visit.invocation.hookChainPosition)

def OfKind (strong callback : Bool) (visits : List Visit) : Prop :=
  ∀ visit ∈ visits, visit.invocation.isStrong = strong ∧ visit.invocation.isCallback = callback

/-- Visits of the chain of one account, from one position on and up to another. -/
structure InChain (account : AccountID) (strong callback : Bool) (lo hi : Nat)
    (visits : List Visit) : Prop where
  account : ∀ visit ∈ visits, visit.account = account
  kind : OfKind strong callback visits
  position : ∀ visit ∈ visits,
    lo ≤ visit.invocation.hookChainPosition ∧ visit.invocation.hookChainPosition < hi
  nodup : (visits.map Visit.place).Nodup

namespace InChain

variable {account : AccountID} {strong callback : Bool} {lo hi : Nat} {visits : List Visit}
  {visit : Visit}

theorem nil : InChain account strong callback lo hi [] :=
  ⟨by simp, fun _ h => absurd h not_mem_nil, by simp, nodup_nil⟩

theorem skip (h : InChain account strong callback (lo + 1) hi visits) :
    InChain account strong callback lo hi visits :=
  ⟨h.account, h.kind, fun visit hvis => ⟨by have := (h.position visit hvis).1; omega,
    (h.position visit hvis).2⟩, h.nodup⟩

theorem cons (h : InChain account strong callback (lo + 1) hi visits) (hlt : lo < hi)
    (hacc : visit.account = account) (hstr : visit.invocation.isStrong = strong)
    (hcal : visit.invocation.isCallback = callback)
    (hposi : visit.invocation.hookChainPosition = lo) :
    InChain account strong callback lo hi (visit :: visits) := by
  have hrest := h.skip
  refine ⟨?_, ?_, ?_, ?_⟩
  · exact forall_mem_cons.mpr ⟨hacc, hrest.account⟩
  · exact forall_mem_cons.mpr ⟨⟨hstr, hcal⟩, hrest.kind⟩
  · exact forall_mem_cons.mpr ⟨⟨hposi.ge, hposi.symm ▸ hlt⟩, hrest.position⟩
  rw [map_cons, nodup_cons]
  refine ⟨fun hmem => ?_, h.nodup⟩
  -- the others are at later positions
  obtain ⟨visit', hvis', hpla⟩ := mem_map.mp hmem
  have hlat := (h.position visit' hvis').1
  have hs : visit'.invocation.hookChainPosition = visit.invocation.hookChainPosition :=
    congrArg Prod.snd hpla
  omega

end InChain

section

variable {vm : Vm} {tx : STTx} {view : View} {strong : Bool}

theorem inChain_chainVisits (account : AccountID) (hooks : List HookObj) (hookNo : Nat)
    (hookSkips : List UInt256) (overrides : ParamOverrides) (session : Session) :
    InChain account strong false hookNo (hookNo + hooks.length)
      (chainVisits vm view tx account strong hooks hookNo hookSkips overrides session) := by
  induction hooks generalizing hookNo hookSkips overrides session with
  | nil => exact .nil
  | cons hookObj hooks ih =>
    rw [length_cons, Nat.add_left_comm, Nat.add_comm hooks.length]
    unfold chainVisits
    split
    · exact (ih ..).skip
    split
    · exact .nil
    generalize (if strong = true then 0 else 1) = wasmParam
    refine .cons ?_ (by omega) rfl rfl rfl rfl
    split
    · exact .nil
    · exact ih ..

theorem inChain_againVisits (hookAccountID : AccountID) (hookHashes : List UInt256)
    (hooks : List HookObj) (hookNo : Nat) (session : Session) :
    InChain hookAccountID false false hookNo (hookNo + hooks.length)
      (againVisits vm view tx hookAccountID hookHashes hooks hookNo session) := by
  induction hooks generalizing hookNo session with
  | nil => exact .nil
  | cons hookObj hooks ih =>
    rw [length_cons, Nat.add_left_comm, Nat.add_comm hooks.length]
    unfold againVisits
    dsimp only
    split
    · exact (ih ..).skip
    split
    · exact .nil
    · exact .cons (ih ..) (by omega) rfl rfl rfl rfl

/-- No account has more hooks than positions fit into a byte. `SetHook` allows ten. -/
def ShortChains (registry : HookRegistry) : Prop :=
  ∀ acc hooks, registry.hooks acc = some hooks → hooks.length ≤ 256

/-- The positions fit into a byte. -/
def Short (visits : List Visit) : Prop :=
  ∀ visit ∈ visits, visit.invocation.hookChainPosition < 256

variable {tsh : List (AccountID × Bool)} {alreadyProcessed : List AccountID} {visits : List Visit}

theorem nodup_append_places {visits' : List Visit} (h : (visits.map Visit.place).Nodup)
    (h' : (visits'.map Visit.place).Nodup)
    (hne : ∀ visit ∈ visits, ∀ visit' ∈ visits', visit.account ≠ visit'.account) :
    ((visits ++ visits').map Visit.place).Nodup := by
  rw [map_append, nodup_append]
  refine ⟨h, h', ?_⟩
  rintro place hpla place' hpla' rfl
  obtain ⟨visit, hvis, rfl⟩ := mem_map.mp hpla
  obtain ⟨visit', hvis', heq⟩ := mem_map.mp hpla'
  exact hne visit hvis visit' hvis' (congrArg Prod.fst heq).symm

/-- Visits in the phase of `doTSH`. -/
structure InPhase (tx : STTx) (strong : Bool) (tsh : List (AccountID × Bool))
    (alreadyProcessed : List AccountID) (visits : List Visit) : Prop where
  takenUp : ∀ visit ∈ visits, visit.account ∉ alreadyProcessed ∧ TakenUp tx strong tsh visit.account
  kind : OfKind strong false visits
  short : Short visits
  nodup : (visits.map Visit.place).Nodup

theorem InPhase.nil (tsh : List (AccountID × Bool)) (alreadyProcessed : List AccountID) :
    InPhase tx strong tsh alreadyProcessed [] :=
  ⟨fun _ h => absurd h not_mem_nil, fun _ h => absurd h not_mem_nil,
    fun _ h => absurd h not_mem_nil, nodup_nil⟩

theorem InPhase.skip {done : List AccountID}
    {p : AccountID × Bool} (h : InPhase tx strong tsh done visits)
    (hdone : ∀ acc, TakenUp tx strong tsh acc → acc ∉ done → acc ≠ p.1 ∧ acc ∉ alreadyProcessed) :
    InPhase tx strong (p :: tsh) alreadyProcessed visits := by
  refine ⟨fun visit hvis => ?_, h.kind, h.short, h.nodup⟩
  obtain ⟨hnot, hacc, hfirst⟩ := h.takenUp visit hvis
  obtain ⟨hne, hnew⟩ := hdone _ ⟨hacc, hfirst⟩ hnot
  refine ⟨hnew, hacc, ?_⟩
  rw [first, if_neg (Ne.symm hne), hfirst]

theorem InPhase.chain {acc : AccountID} {n : Nat} {rest : List Visit}
    (hcha : InChain acc strong false 0 n visits) (hn : n ≤ 256) (hacc : acc ≠ tx.account)
    (hnew : acc ∉ alreadyProcessed) (hrest : InPhase tx strong tsh (acc :: alreadyProcessed) rest) :
    InPhase tx strong ((acc, strong) :: tsh) alreadyProcessed (visits ++ rest) := by
  have hlat : InPhase tx strong ((acc, strong) :: tsh) alreadyProcessed rest := by
    refine hrest.skip fun acc' _ hnot => ?_
    rwa [mem_cons, not_or] at hnot
  refine ⟨?_, ?_, ?_, ?_⟩
  · refine forall_mem_append.mpr ⟨fun visit hvis => ?_, hlat.takenUp⟩
    rw [hcha.account visit hvis]
    exact ⟨hnew, hacc, if_pos rfl⟩
  · exact forall_mem_append.mpr ⟨hcha.kind, hlat.kind⟩
  · refine forall_mem_append.mpr ⟨fun visit hvis => ?_, hlat.short⟩
    exact (hcha.position visit hvis).2.trans_le hn
  · refine nodup_append_places hcha.nodup hlat.nodup fun visit hvis visit' hvis' heq => ?_
    rw [hcha.account visit hvis] at heq
    exact (hrest.takenUp visit' hvis').1 (heq ▸ mem_cons_self)

/-- **The visits of a phase**: an account is taken up once, its hooks at different places. -/
theorem inPhase_tshVisits (tsh : List (AccountID × Bool)) (alreadyProcessed : List AccountID)
    (view : View) (session : Session) (hsho : ShortChains view.toHookRegistry) :
    InPhase tx strong tsh alreadyProcessed
      (tshVisits vm tx strong tsh alreadyProcessed view session) := by
  induction tsh generalizing alreadyProcessed view session with
  | nil => exact .nil ..
  | cons p tsh ih =>
    obtain ⟨tshAccountID, canRollback⟩ := p
    have hlat (acc : AccountID) (_ : TakenUp tx strong tsh acc)
        (hnot : acc ∉ tshAccountID :: alreadyProcessed) :
        acc ≠ tshAccountID ∧ acc ∉ alreadyProcessed := by
      rwa [mem_cons, not_or] at hnot
    unfold tshVisits
    split
    next hskip =>
      refine (ih _ _ _ hsho).skip fun acc htak hnot => ⟨?_, hnot⟩
      rintro rfl
      rcases hskip with hskip | hskip
      · exact htak.1 hskip
      · exact hnot hskip
    next hnew =>
      rw [not_or] at hnew
      split
      · exact (ih _ _ _ hsho).skip hlat
      rename_i hpha
      rw [not_not] at hpha
      split
      · exact (ih _ _ _ hsho).skip hlat
      rename_i hooks view₁ hchg
      have hlen := hsho _ _ (chargeTSH_cases tx hchg).1
      obtain ⟨account, drops, -, rfl⟩ := account_of_chargeTSH tx hchg
      rw [hpha]
      refine .chain (inChain_chainVisits ..) ((Nat.zero_add _).trans_le hlen) hnew.1 hnew.2 ?_
      split
      · exact .nil ..
      · exact ih _ _ _ hsho

/-- An account that a phase visits is new to it and can pay. -/
theorem charged_tshVisits {session : Session} {visit : Visit}
    (h : visit ∈ tshVisits vm tx strong tsh alreadyProcessed view session) :
    visit.account ∉ alreadyProcessed ∧ chargeTSH view tx visit.account strong ≠ none := by
  induction tsh generalizing alreadyProcessed view session with
  | nil => exact absurd h not_mem_nil
  | cons p tsh ih =>
    obtain ⟨tshAccountID, canRollback⟩ := p
    -- charging one account changes nothing for the others
    have hlat {view₁ : View} {session₁ : Session}
        (hchg : ∀ acc ≠ tshAccountID,
          chargeTSH view₁ tx acc strong = none ↔ chargeTSH view tx acc strong = none)
        (h : visit ∈ tshVisits vm tx strong tsh (tshAccountID :: alreadyProcessed) view₁ session₁) :
        visit.account ∉ alreadyProcessed ∧ chargeTSH view tx visit.account strong ≠ none := by
      obtain ⟨hnot, hpays⟩ := ih h
      rw [mem_cons, not_or] at hnot
      exact ⟨hnot.2, fun hn => hpays ((hchg _ hnot.1).mpr hn)⟩
    unfold tshVisits at h
    split at h
    · exact ih h
    rename_i hnew
    rw [not_or] at hnew
    split at h
    · exact hlat (fun _ _ => .rfl) h
    rename_i hpha
    rw [not_not] at hpha
    split at h
    · exact hlat (fun _ _ => .rfl) h
    rename_i hooks view₁ hchg
    rcases mem_append.mp h with h | h
    · rw [(inChain_chainVisits ..).account visit h, ← hpha, hchg]
      exact ⟨hnew.2, Option.some_ne_none _⟩
    split at h
    · exact absurd h not_mem_nil
    · exact hlat (fun _ hne => chargeTSH_of_ne hchg hne strong) h

/-- **The executions of a phase** are at different places, of the phase's kind, and of accounts that
the phase is to run. -/
theorem executions_of_doTSH (vm : Vm) (tx : STTx) (strong : Bool) (tsh : List (AccountID × Bool))
    (alreadyProcessed : List AccountID) (view : View) (session : Session)
    (hsho : ShortChains view.toHookRegistry) :
    ∃ visits, (doTSH vm tx strong tsh alreadyProcessed view session).2.2.executions
        = session.executions ++ visits.map (Visit.execution vm tx) ∧
      (visits.map Visit.place).Nodup ∧ OfKind strong false visits ∧
      ∀ visit ∈ visits, visit.account ∉ alreadyProcessed ∧
        RunsTSH view tx strong tsh visit.account := by
  have hin : InPhase tx strong tsh alreadyProcessed
      (tshVisits vm tx strong tsh alreadyProcessed view session) := inPhase_tshVisits _ _ _ _ hsho
  refine ⟨_, executions_tshVisits .., hin.nodup, hin.kind, fun visit hvis => ?_⟩
  obtain ⟨hnot, htaken⟩ := hin.takenUp visit hvis
  exact ⟨hnot, htaken, (charged_tshVisits hvis).2⟩

theorem shortChains_collectRegistry : ShortChains collectRegistry := by
  intro acc hooks h
  simp only [collectRegistry] at h
  split at h <;> cases h
  decide

/-- The owner is listed twice, and the hook executed once. -/
theorem executions_of_doTSH_collect :
    let phase := doTSH (rollbackVm [] []) strangerPayment false [(owner, false), (owner, false)] []
      (emptyView collectRegistry) .start
    phase.2.2.executions.length = 1 ∧ ∃ visits : List Visit,
      phase.2.2.executions = visits.map (Visit.execution (rollbackVm [] []) strangerPayment) ∧
        (visits.map Visit.place).Nodup := by
  obtain ⟨visits, hrun, hnodup, -⟩ :=
    executions_of_doTSH (rollbackVm [] []) strangerPayment false [(owner, false), (owner, false)] []
      (emptyView collectRegistry) .start shortChains_collectRegistry
  exact ⟨by decide +kernel, visits, hrun, hnodup⟩

/-- **The visits of the hooks that run again**, for accounts that differ. -/
theorem visits_aaw (vm : Vm) (tx : STTx) (view : View) (aawMap : List (AccountID × List UInt256)) (session : Session)
    (hsho : ShortChains view.toHookRegistry) (hnd : (aawMap.map Prod.fst).Nodup) :
    (∀ visit ∈ aawVisits vm view tx aawMap session, visit.account ∈ aawMap.map Prod.fst) ∧
      OfKind false false (aawVisits vm view tx aawMap session) ∧
      Short (aawVisits vm view tx aawMap session) ∧
      ((aawVisits vm view tx aawMap session).map Visit.place).Nodup := by
  induction aawMap generalizing session with
  | nil =>
    exact ⟨fun _ h => absurd h not_mem_nil, fun _ h => absurd h not_mem_nil,
      fun _ h => absurd h not_mem_nil, nodup_nil⟩
  | cons aaw aawMap ih =>
    obtain ⟨accID, hookHashes⟩ := aaw
    rw [map_cons, nodup_cons] at hnd
    obtain ⟨hacc, hkind, hposi, hpla⟩ :=
      ih (doAgainAsWeak vm view tx accID hookHashes session) hnd.2
    have hcha : ∃ n ≤ 256, InChain accID false false 0 n (match view.hooks accID with
        | none => []
        | some hooks => againVisits vm view tx accID hookHashes hooks 0 session) := by
      cases hhs : view.hooks accID with
      | none => exact ⟨0, Nat.zero_le _, .nil⟩
      | some hooks =>
        exact ⟨0 + hooks.length, (Nat.zero_add _).trans_le (hsho _ _ hhs), inChain_againVisits ..⟩
    obtain ⟨n, hn, hcha⟩ := hcha
    rw [aawVisits]
    refine ⟨?_, ?_, ?_, ?_⟩
    · refine forall_mem_append.mpr ⟨fun visit hvis => ?_, fun visit hvis => ?_⟩
      · rw [hcha.account visit hvis]
        exact mem_cons_self
      · exact mem_cons_of_mem _ (hacc visit hvis)
    · exact forall_mem_append.mpr ⟨hcha.kind, hkind⟩
    · refine forall_mem_append.mpr ⟨fun visit hvis => ?_, hposi⟩
      exact (hcha.position visit hvis).2.trans_le hn
    · refine nodup_append_places hcha.nodup hpla fun visit hvis visit' hvis' heq => ?_
      rw [hcha.account visit hvis] at heq
      exact hnd.1 (heq ▸ hacc visit' hvis')

end

end Xahau.Hook
