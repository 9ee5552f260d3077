import Xahau.Data.Run
import Xahau.Hook.StateApi

/-! # Who may set a state

Over a run of hooks that share one state cache, every modified entry can be traced to a hook that
asked to set it. To set an entry of another account a hook needs a grant, but it is not asked for
one when the entry is already modified. -/

namespace Xahau.Hook

open List

open Checked (bind_eq_ok failIf_eq_ok)

/-! ## Calls -/

/-- A call of a state function. -/
inductive Call : Type where
  | state (writePtr writeLen kreadPtr kreadLen : Nat)
  | stateForeign (args : GetArgs)
  | stateSet (readPtr readLen kreadPtr kreadLen : Nat)
  | stateForeignSet (args : SetArgs)
  deriving DecidableEq, Repr

/-- The arguments of a call that sets a state. -/
def Call.setArgs : Call → Option SetArgs
  | .stateSet readPtr readLen kreadPtr kreadLen =>
    some ⟨readPtr, readLen, kreadPtr, kreadLen, 0, 0, 0, 0⟩
  | .stateForeignSet args => some args
  | .state .. => none
  | .stateForeign .. => none

/-- A call, the hook that makes it, and what it sees of the ledger and of memory. -/
structure ApiCall where
  hook : HookId
  view : View
  memory : Memory
  call : Call

/-- The context after a call. -/
def ApiCall.run (c : ApiCall) (ctx : HookContext) : HookContext :=
  match c.call with
  | .state writePtr writeLen kreadPtr kreadLen =>
    (Hook.state c.view c.memory writePtr writeLen kreadPtr kreadLen ctx).2.2
  | .stateForeign args => (stateForeign c.view c.memory args ctx).2.2
  | .stateSet readPtr readLen kreadPtr kreadLen =>
    (stateSet c.view c.memory readPtr readLen kreadPtr kreadLen ctx).2
  | .stateForeignSet args => (stateForeignSet c.view c.memory args ctx).2

/-- The entry that a call asks to set, if its arguments are in order. -/
def ApiCall.request (c : ApiCall) : Option SetRequest := do
  let args ← c.call.setArgs
  (readSetArgs c.view c.memory c.hook args).toOption

/-- The entry that a call sets, if it succeeds. -/
def ApiCall.sets (c : ApiCall) (ctx : HookContext) : Option SetRequest := do
  let args ← c.call.setArgs
  match (stateForeignSet c.view c.memory args ctx).1 with
  | .ok _ => c.request
  | .error _ => none

/-- The hook may set states in a namespace: it is installed on the account, or a hook with the
namespace there grants it. -/
def Authorised (registry : HookRegistry) (hook : HookId) (acc : AccountID) (ns : UInt256) : Prop :=
  hook.account = acc ∨
    ∃ hooks, registry.hooks acc = some hooks ∧ ∃ hookObj ∈ hooks, hookObj.hookHash.isSome = true ∧
      registry.namespaceOf hookObj = some ns ∧ ∃ hookGrants, hookObj.hookGrants = some hookGrants ∧
        ∃ grant ∈ hookGrants, grant.hookHash = hook.hookHash ∧
          ∀ account ∈ grant.authorize, account = hook.account

variable {acc : AccountID} {hook : HookId} {registry : HookRegistry} {ns : UInt256}

theorem Authorised.of_same {hook' : HookId}
    (h : Authorised registry hook acc ns) (hacc : hook.account = hook'.account)
    (hhash : hook.hookHash = hook'.hookHash) : Authorised registry hook' acc ns := by
  unfold Authorised at h ⊢
  rwa [hacc, hhash] at h

theorem authorised_of_grants {hooks : List HookObj} (hhs : registry.hooks acc = some hooks)
    (h : (hooks.any fun hookObj => hookObj.grants registry ns hook) = true) :
    Authorised registry hook acc ns := by
  obtain ⟨hookObj, hmem, hgra⟩ := any_eq_true.mp h
  unfold HookObj.grants at hgra
  split at hgra
  next hookHash hookGrants hhash hsome =>
    rw [Bool.and_eq_true, decide_eq_true_eq, any_eq_true] at hgra
    obtain ⟨hns, grant, hgran, hall⟩ := hgra
    unfold HookGrant.allows at hall
    rw [Bool.and_eq_true, decide_eq_true_eq] at hall
    refine .inr ⟨hooks, hhs, hookObj, hmem, by rw [hhash]; rfl, hns, hookGrants, hsome, grant,
      hgran, hall.1, ?_⟩
    intro account hacc
    rw [Option.mem_def] at hacc
    have haut := hall.2
    rw [hacc] at haut
    exact of_decide_eq_true haut
  · cases hgra

/-- **What a set can do**: fail, or set the entry for an authorised hook or because it was modified
already. -/
theorem setState_cases (view : View) (request : SetRequest) {isLocal : Bool} (readLen : Nat)
    (ctx : HookContext) (hloc : isLocal = true → request.acc = ctx.account) :
    (∃ e disabled, setState view request isLocal readLen ctx
        = (.error e, { ctx with foreignStateSetDisabled := disabled })) ∨
      ∃ ctx', setState view request isLocal readLen ctx = (.ok readLen, ctx') ∧
        setStateCache view request.acc request.ns request.key request.data true ctx = .ok ctx' ∧
        (Authorised view.toHookRegistry ctx.toHookId request.acc request.ns ∨
          ctx.stateMap.isModified request.acc request.ns request.key = true) := by
  unfold setState
  cases hset : setStateCache view request.acc request.ns request.key request.data true ctx with
  | error e =>
    -- nothing is set: every branch returns the context with the same cache
    left
    dsimp only
    split
    · exact ⟨_, _, rfl⟩
    split
    · exact ⟨_, _, rfl⟩
    split
    · exact ⟨_, _, rfl⟩
    split
    · exact ⟨_, _, rfl⟩
    split <;> exact ⟨_, _, rfl⟩
  | ok ctx' =>
    dsimp only
    split
    next hown =>
      refine .inr ⟨ctx', rfl, rfl, .inl (.inl ?_)⟩
      rcases hown with hown | hown
      · exact (hloc hown).symm
      · exact hown.symm
    · split
      · exact .inl ⟨_, _, rfl⟩
      · split
        next hmod =>
          exact .inr ⟨ctx', rfl, rfl, .inr hmod⟩
        · split
          · exact .inl ⟨_, _, rfl⟩
          next hooks hhs =>
            split
            next hgra =>
              exact .inr ⟨ctx', rfl, rfl, .inl (authorised_of_grants hhs hgra)⟩
            · exact .inl ⟨_, _, rfl⟩

theorem readSetArgs_eq_ok {view : View} {memory : Memory} {args : SetArgs}
    {request : SetRequest} (h : readSetArgs view memory hook args = .ok request) :
    (args.areadLen = 0 → request.acc = hook.account) ∧
      request.data.length ≤ maxHookStateDataSize := by
  unfold readSetArgs at h
  simp only [bind_eq_ok, failIf_eq_ok] at h
  obtain ⟨-, -, -, -, -, -, -, -, -, -, -, -, -, -, -, -, -, -, -, hsize, -, -, h⟩ := h
  split at h
  · cases h
  cases h
  refine ⟨fun hloc => by rw [hloc]; rfl, ?_⟩
  unfold Memory.slice
  rw [length_take]
  omega

/-- **What a call can do**: nothing to the cache, set the entry, or cache one of the ledger. -/
theorem ApiCall.run_cases (c : ApiCall) (ctx : HookContext) (hhook : c.hook = ctx.toHookId) :
    (c.sets ctx = none ∧ ∃ disabled, c.run ctx = { ctx with foreignStateSetDisabled := disabled }) ∨
      (∃ request, c.request = some request ∧ c.sets ctx = some request ∧
        setStateCache c.view request.acc request.ns request.key request.data true ctx
          = .ok (c.run ctx) ∧
        (Authorised c.view.toHookRegistry ctx.toHookId request.acc request.ns ∨
          ctx.stateMap.isModified request.acc request.ns request.key = true)) ∨
      (c.call.setArgs = none ∧ c.sets ctx = none ∧ ∃ acc ns key hookState,
        ctx.stateMap.lookupStateCache acc ns key = none ∧
        c.view.hookState acc key ns = some hookState ∧
        setStateCache c.view acc ns key hookState.data false ctx = .ok (c.run ctx)) := by
  -- the two ways to set a state are one
  have hset : ∀ args, c.call.setArgs = some args →
      c.run ctx = (stateForeignSet c.view c.memory args ctx).2 := by
    intro args hargs
    unfold run
    cases hcall : c.call with
    | state | stateForeign => rw [hcall] at hargs; cases hargs
    | stateSet | stateForeignSet => rw [hcall] at hargs; cases hargs; rfl
  -- and so are the two ways to read one
  have hget : c.call.setArgs = none → ∃ args,
      c.run ctx = (stateForeign c.view c.memory args ctx).2.2 := by
    intro hargs
    unfold run
    cases hcall : c.call with
    | state => exact ⟨_, rfl⟩
    | stateForeign args => exact ⟨args, rfl⟩
    | stateSet | stateForeignSet => rw [hcall] at hargs; cases hargs
  cases hargs : c.call.setArgs with
  | some args =>
    rw [hset args hargs, sets, hargs, Option.bind_eq_bind, Option.bind_some]
    unfold stateForeignSet
    cases hread : readSetArgs c.view c.memory ctx.toHookId args with
    | error e => exact .inl ⟨rfl, _, rfl⟩
    | ok request =>
      have hreq : c.request = some request := by
        simp [ApiCall.request, hargs, hhook, hread, Except.toOption]
      have hloc : decide (args.areadLen = 0) = true → request.acc = ctx.account :=
        fun h => (readSetArgs_eq_ok hread).1 (of_decide_eq_true h)
      dsimp only
      rcases setState_cases c.view request args.readLen ctx hloc with
        ⟨e, disabled, heq⟩ | ⟨ctx', heq, hcac, hauth⟩
      · rw [heq]
        exact .inl ⟨rfl, disabled, rfl⟩
      · rw [heq]
        exact .inr (.inl ⟨request, hreq, hreq, hcac, hauth⟩)
  | none =>
    obtain ⟨args, hrun⟩ := hget hargs
    have hn : c.sets ctx = none := by
      rw [sets, hargs]
      rfl
    rw [hrun]
    unfold stateForeign
    cases hread : readGetArgs c.memory ctx.toHookId args with
    | error e => exact .inl ⟨hn, _, rfl⟩
    | ok place =>
      obtain ⟨acc, ns, key⟩ := place
      dsimp only
      cases hlk : ctx.stateMap.lookupStateCache acc ns key with
      | some entry => exact .inl ⟨hn, _, rfl⟩
      | none =>
        cases hst : c.view.hookState acc key ns with
        | none => exact .inl ⟨hn, _, rfl⟩
        | some hookState =>
          dsimp only
          cases hcac : setStateCache c.view acc ns key hookState.data false ctx with
          | error e => exact .inl ⟨hn, _, rfl⟩
          | ok ctx' =>
            exact .inr (.inr ⟨rfl, hn, acc, ns, key, hookState, hlk, hst, hcac⟩)

/-! ## Runs of hooks -/

/-- What happens while hooks run on a shared cache. -/
inductive Event : Type where
  /-- The next hook of a chain begins. -/
  | begin (hook : HookId)
  | call (c : ApiCall)

/-- The context in which a hook begins, with the cache left by those before. -/
def HookContext.ofHook (hook : HookId) (stateMap : HookStateMap) : HookContext :=
  { hook with stateMap, changedStateCount := 0, foreignStateSetDisabled := false }

/-- One step of a run. Hooks are not installed or removed while hooks run. -/
def Event.Step (registry : HookRegistry) (ctx : HookContext) (e : Event) (ctx' : HookContext) :
    Prop :=
  match e with
  | .begin hook => ctx' = .ofHook hook ctx.stateMap
  | .call c => c.hook = ctx.toHookId ∧ c.view.toHookRegistry = registry ∧ ctx' = c.run ctx

/-- The request of a step, with the hook that makes it. -/
def Event.request : Event → Option (HookId × SetRequest)
  | .begin _ => none
  | .call c => c.request.map fun request => (c.hook, request)

def SetRequest.SameEntry (r r' : SetRequest) : Prop := r.acc = r'.acc ∧ r.ns = r'.ns ∧ r.key = r'.key

/-- No hook asks to set another account's entry after a different hook has. -/
def SoleWriters (es : List Event) : Prop :=
  (es.filterMap Event.request).Pairwise fun p q =>
    p.2.SameEntry q.2 → q.2.acc ≠ q.1.account →
      p.1.account = q.1.account ∧ p.1.hookHash = q.1.hookHash

/-- Every modified entry was asked for by a hook that is authorised to set it. -/
def Attributed (registry : HookRegistry) (es : List Event) (stateMap : HookStateMap) : Prop :=
  ∀ acc ns key, stateMap.isModified acc ns key = true →
    ∃ p ∈ es.filterMap Event.request, p.2.acc = acc ∧ p.2.ns = ns ∧ p.2.key = key ∧
      Authorised registry p.1 acc ns

section

variable {registry : HookRegistry} {es : List Event} {ctx ctx' : HookContext}

theorem SoleWriters.of_append {e : Event} (h : SoleWriters (es ++ [e])) : SoleWriters es := by
  unfold SoleWriters at h ⊢
  rw [filterMap_append] at h
  exact (pairwise_append.mp h).1

theorem Attributed.append {stateMap : HookStateMap} (h : Attributed registry es stateMap)
    (e : Event) : Attributed registry (es ++ [e]) stateMap := by
  intro acc ns key hmod
  obtain ⟨p, hp, hent⟩ := h acc ns key hmod
  refine ⟨p, ?_, hent⟩
  rw [filterMap_append]
  exact mem_append_left _ hp

/-- **A set is authorised** when modified entries are attributed and writers are sole: the one who
finds it modified has asked for it before, with authority. -/
theorem authorised_of_attributed {c : ApiCall} {request : SetRequest}
    (hreg : c.view.toHookRegistry = registry) (hhook : c.hook = ctx.toHookId)
    (hsole : SoleWriters (es ++ [.call c])) (hatt : Attributed registry es ctx.stateMap)
    (hreq : c.request = some request)
    (h : Authorised c.view.toHookRegistry ctx.toHookId request.acc request.ns ∨
      ctx.stateMap.isModified request.acc request.ns request.key = true) :
    Authorised registry c.hook request.acc request.ns := by
  rcases h with hauth | hmod
  · rw [hreg, ← hhook] at hauth
    exact hauth
  by_cases hown : request.acc = c.hook.account
  · exact .inl hown.symm
  obtain ⟨p, hp, hacc, hns, hkey, hauth⟩ := hatt _ _ _ hmod
  unfold SoleWriters at hsole
  rw [filterMap_append] at hsole
  have hlast : (c.hook, request) ∈ [Event.call c].filterMap Event.request := by
    simp [Event.request, hreq]
  have hs := (pairwise_append.mp hsole).2.2 p hp _ hlast ⟨hacc, hns, hkey⟩ hown
  exact hauth.of_same hs.1 hs.2

theorem Attributed.call {c : ApiCall} (hhook : c.hook = ctx.toHookId)
    (hreg : c.view.toHookRegistry = registry) (hsole : SoleWriters (es ++ [.call c]))
    (h : Attributed registry es ctx.stateMap) :
    Attributed registry (es ++ [.call c]) (c.run ctx).stateMap := by
  rcases c.run_cases ctx hhook with ⟨-, disabled, hs⟩ | ⟨request, hreq, -, hcac, hauth⟩ |
    ⟨-, -, acc, ns, key, hookState, hmiss, -, hcac⟩
  · rw [hs]
    exact h.append _
  · have hwri := authorised_of_attributed hreg hhook hsole h hreq hauth
    intro acc ns key hmod
    rw [isModified_setStateCache hcac] at hmod
    by_cases hent : (acc, ns, key) = (request.acc, request.ns, request.key)
    · cases hent
      refine ⟨(c.hook, request), ?_, rfl, rfl, rfl, hwri⟩
      rw [filterMap_append]
      exact mem_append_right _ (by simp [Event.request, hreq])
    · rw [if_neg hent] at hmod
      exact h.append _ acc ns key hmod
  · intro acc' ns' key' hmod
    rw [isModified_setStateCache hcac] at hmod
    by_cases hent : (acc', ns', key') = (acc, ns, key)
    · -- an entry that is cached by a read is not modified
      rw [if_pos hent, HookStateMap.isModified, hmiss] at hmod
      cases hmod
    · rw [if_neg hent] at hmod
      exact h.append _ acc' ns' key' hmod

theorem attributed_of_run {hook : HookId}
    (hrun : Run (Event.Step registry) (.ofHook hook .empty) es ctx) (hsole : SoleWriters es) :
    Attributed registry es ctx.stateMap := by
  apply hrun.invariant (fun es ctx => SoleWriters es → Attributed registry es ctx.stateMap) _ _
    hsole
  · intro _ acc ns key hmod
    cases hmod
  intro es ctx e ctx' ih hstep hsole
  have hatt := ih hsole.of_append
  cases e with
  | begin hook =>
    rw [show ctx' = .ofHook hook ctx.stateMap from hstep]
    exact hatt.append _
  | call c =>
    obtain ⟨hhook, hreg, rfl⟩ := hstep
    exact hatt.call hhook hreg hsole

/-- **Authority of writers.** In every run on a shared cache in which no hook asks to set an entry
of another account after a different hook has, every set that changes a cached entry is made by a
hook that is installed on its account or has a grant. -/
theorem writes_authorised (registry : HookRegistry) (hook : HookId) (es : List Event)
    (ctx : HookContext) (hrun : Run (Event.Step registry) (.ofHook hook .empty) es ctx)
    (c : ApiCall) (hstep : Event.Step registry ctx (.call c) (c.run ctx))
    (hsole : SoleWriters (es ++ [.call c])) (hset : c.call.setArgs ≠ none)
    (acc : AccountID) (ns key : UInt256)
    (hchange : (c.run ctx).stateMap.lookupStateCache acc ns key
      ≠ ctx.stateMap.lookupStateCache acc ns key) :
    Authorised registry c.hook acc ns := by
  obtain ⟨hhook, hregistry, -⟩ := hstep
  rcases c.run_cases ctx hhook with ⟨-, disabled, hsame⟩ | ⟨request, hrequest, -, hcache, hauth⟩ |
    ⟨hget, -⟩
  · rw [hsame] at hchange
    exact absurd rfl hchange
  · by_cases hentry : (acc, ns, key) = (request.acc, request.ns, request.key)
    · cases hentry
      exact authorised_of_attributed hregistry hhook hsole
        (attributed_of_run hrun hsole.of_append) hrequest hauth
    · obtain ⟨available, count, n, changed, heq⟩ := setStateCache_eq_ok hcache
      rw [heq] at hchange
      exact absurd (HookStateMap.lookupStateCache_assign_of_ne _ hentry) hchange
  · exact absurd hget hset

end

/-! ## Two accounts -/

/-- The account whose state is set in the examples. -/
def owner : AccountID := .ofByte 1

def ownerHook : HookId := ⟨owner, .ofByte 4, .ofByte 3⟩

/-- A hook on another account. -/
def strangerHook : HookId := ⟨.ofByte 2, .ofByte 5, .ofByte 6⟩

/-- The owner has one hook, with the given grants. -/
def ownerRegistry (hookGrants : Option (List HookGrant)) : HookRegistry where
  hooks acc :=
    if acc = owner then
      some [{
        hookHash := some ownerHook.hookHash
        hookNamespace := some ownerHook.hookNamespace
        hookGrants
        hookOn := none
        hookCanEmit := none
        flags := none
        hookParameters := none }]
    else none
  hookDefinition _ := none

/-- A ledger without states in which every account has a balance. -/
def emptyView (registry : HookRegistry) : View where
  toHookRegistry := registry
  rules := ⟨fun _ => true⟩
  fees := { reserve := 10, increment := 1 }
  isOpen := false
  seq := 5
  txs := []
  account _ := some { balance := 1000, tshCollect := true, sequence := 1 }
  ticket _ _ := false
  hookState _ _ _ := none
  hookStateDir _ _ := .empty
  emittedTxn _ := none
  emittedDir := .empty

/-- A call that sets the owner's entry with key seven, from a memory with its arguments. -/
def setOwnerState (registry : HookRegistry) (hook : HookId) (data : UInt8) : ApiCall where
  hook
  view := emptyView registry
  memory := [0, data, 7] ++ ownerHook.hookNamespace.data ++ owner.data
  call := .stateForeignSet ⟨1, 1, 2, 1, 3, 32, 35, 20⟩

/-- A grant for its hash lets the stranger set the owner's state. -/
theorem granted_write_authorised :
    let registry := ownerRegistry (some [⟨strangerHook.hookHash, none⟩])
    Authorised registry strangerHook owner ownerHook.hookNamespace := by
  intro registry
  refine writes_authorised registry strangerHook [] _ Run.nil
    (setOwnerState registry strangerHook 9) ⟨rfl, rfl, rfl⟩ ?_ ?_ owner _ (.ofByte 7) ?_
  · exact pairwise_singleton ..
  · decide
  · decide +kernel

/-- **A hook without a grant sets another account's state** that a hook there has set before. -/
theorem ungranted_write :
    let registry := ownerRegistry none
    let own := setOwnerState registry ownerHook 8
    let foreign := setOwnerState registry strangerHook 9
    ∃ ctx, Run (Event.Step registry) (.ofHook ownerHook .empty)
        [.call own, .begin strangerHook] ctx ∧
      Event.Step registry ctx (.call foreign) (foreign.run ctx) ∧ foreign.call.setArgs ≠ none ∧
      (foreign.run ctx).stateMap.lookupStateCache owner ownerHook.hookNamespace (.ofByte 7)
        ≠ ctx.stateMap.lookupStateCache owner ownerHook.hookNamespace (.ofByte 7) ∧
      ¬ Authorised registry strangerHook owner ownerHook.hookNamespace := by
  intro registry own foreign
  refine ⟨_, (Run.nil.snoc ⟨rfl, rfl, rfl⟩).snoc rfl, ⟨rfl, rfl, rfl⟩, ?_, ?_, ?_⟩
  · decide
  · decide +kernel
  rintro (howner | ⟨hooks, hhooks, hookObj, hmem, -, -, hookGrants, hgrants, -⟩)
  · exact absurd howner (by decide)
  cases hhooks
  rw [mem_singleton] at hmem
  subst hmem
  cases hgrants

end Xahau.Hook
