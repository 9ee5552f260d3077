import Xahau.Data.Cardinality
import Xahau.SetHook.Accounting
import Xahau.SetHook.Attributes

/-! # The result of destroying namespaces

`setHook` destroys the marked namespaces in the order of their numbers, and stops when one fails. A
namespace that is only destroyed in part is no failure, so its result is overwritten: the
transaction has the result of the last namespace. -/

namespace Xahau.Hook

open Cardinality Checked Option

variable {sleAccount : AccountRoot} {toDelete : List UInt256} {st st' : Setting} {n : ℕ}

/-- The keys of the states in a namespace of an account. -/
def View.keysOf (view : View) (acc : AccountID) (ns : UInt256) : Set UInt256 :=
  { key | view.hookState acc key ns ≠ none }

/-! ## One namespace -/

/-- What the walk has marked is within the limit, and it stops only at the limit. -/
def Marking.Limited : Marking → Prop
  | .missing => True
  | .stopped toDelete => maxNamespaceDelete ≤ toDelete.length
  | .all toDelete => toDelete.length ≤ maxNamespaceDelete

section

variable {view view' : View} {acc : AccountID} {ns : UInt256} {ter : Ter}

theorem limited_markEntries (view : View) (acc : AccountID) (ns : UInt256) (entries : List UInt256)
    (h : toDelete.length ≤ maxNamespaceDelete) :
    (markEntries view acc ns true entries toDelete).Limited := by
  induction entries generalizing toDelete with
  | nil => exact h
  | cons key entries ih =>
    rw [markEntries]
    split
    next hlim => exact hlim.2
    next hlim =>
      split
      next => trivial
      next =>
        refine ih ?_
        rw [List.length_append, List.length_singleton]
        exact Nat.lt_of_not_le fun hle => hlim ⟨rfl, hle⟩

variable {pages : ℕ}

theorem limited_markPages {node : DirNode} {marking : Marking}
    (h : toDelete.length ≤ maxNamespaceDelete)
    (hmark : markPages view acc ns true pages node toDelete = some marking) : marking.Limited := by
  induction pages generalizing node toDelete with
  | zero => cases hmark
  | succ pages ih =>
    have hpage := limited_markEntries view acc ns node.indexes h
    rw [markPages] at hmark
    cases hents : markEntries view acc ns true node.indexes toDelete with
    | missing =>
      rw [hents] at hmark
      cases hmark
      trivial
    | stopped toDelete' =>
      rw [hents] at hmark hpage
      cases hmark
      exact hpage
    | all toDelete' =>
      rw [hents] at hmark hpage
      dsimp only at hmark
      split at hmark
      next =>
        cases hmark
        exact hpage
      next =>
        split at hmark
        next =>
          cases hmark
          exact hpage
        next => exact ih hpage hmark

/-- **Destroying a namespace**: at most 256 states are all destroyed, of more only some, with
`tesPARTIAL`. -/
structure Destroys (view : View) (acc : AccountID) (ns : UInt256) (ter : Ter) (view' : View) : Prop
    where
  filed : Filed view'
  rules : view'.rules = view.rules
  keysOf : ∀ ns', ns' ≠ ns → view'.keysOf acc ns' = view.keysOf acc ns'
  outcome :
    (view.keysOf acc ns).ncard ≤ maxNamespaceDelete ∧ ter = .tesSUCCESS ∧
      view'.keysOf acc ns = ∅ ∨
    maxNamespaceDelete < (view.keysOf acc ns).ncard ∧ ter = .tesPARTIAL ∧
      (view'.keysOf acc ns).Nonempty

section

variable (h : Filed view)

include h

theorem Filed.destroyMarked
    {partialDelete : Bool} (hnd : toDelete.Nodup) (hmem : ∀ key ∈ toDelete, key ∈ view.keysOf acc ns)
    (hd : destroyMarked view acc sleAccount ns toDelete partialDelete = .ok (ter, view'))
    (hok : ter.isTesSuccess = true) :
    Filed view' ∧ view'.rules = view.rules ∧
      ter = (if partialDelete then .tesPARTIAL else .tesSUCCESS) ∧
      (∀ ns', ns' ≠ ns → view'.keysOf acc ns' = view.keysOf acc ns') ∧
      view'.keysOf acc ns = { key ∈ view.keysOf acc ns | key ∉ toDelete } := by
  obtain ⟨view₁, hdel, hfil, -, hrul, hst⟩ := h.deleteEntries_eq hnd hmem
  unfold Hook.destroyMarked at hd
  rw [hdel, ok_bind] at hd
  dsimp only at hd
  rw [if_neg Bool.false_ne_true.symm] at hd
  split at hd
  next =>
    cases hd
    cases hok
  next sleAccount' _ =>
    cases hd
    refine ⟨hfil.setAccount, hrul, rfl, fun ns' hne => ?_, ?_⟩
    · ext key
      show view₁.hookState acc key ns' ≠ none ↔ _
      rw [hst, if_neg (fun hall => hne hall.2.1)]
      rfl
    ext key
    show view₁.hookState acc key ns ≠ none ↔ view.hookState acc key ns ≠ none ∧ key ∉ toDelete
    rw [hst]
    by_cases hkey : key ∈ toDelete
    · rw [if_pos ⟨rfl, rfl, hkey⟩]
      exact iff_of_false (not_not.mpr rfl) fun hboth => hboth.2 hkey
    · rw [if_neg (fun hall => hkey hall.2.2)]
      exact (and_iff_left hkey).symm

theorem Filed.mem_keysOf {key : UInt256} :
    key ∈ view.keysOf acc ns ↔ ∃ page, (view.hookStateDir acc ns).Holds page key := by
  show view.hookState acc key ns ≠ none ↔ _
  rw [ne_none_iff_exists']
  simp [h.holds_iff]

theorem Filed.destroys_stopped (hsou : (Marking.stopped toDelete).Sound (view.hookStateDir acc ns))
    (hlim : maxNamespaceDelete ≤ toDelete.length)
    (hd : Hook.destroyMarked view acc sleAccount ns toDelete true = .ok (ter, view'))
    (hok : ter.isTesSuccess = true) : Destroys view acc ns ter view' := by
  obtain ⟨hnd, hmem, page, key, hkey, hh⟩ := hsou
  have hkeys : ∀ key ∈ toDelete, key ∈ view.keysOf acc ns :=
    fun key hin => h.mem_keysOf.mpr (hmem key hin)
  have hkept : key ∈ view.keysOf acc ns := h.mem_keysOf.mpr ⟨page, hh⟩
  obtain ⟨hfil, hrul, hter, hoths, hrest⟩ := h.destroyMarked hnd hkeys hd hok
  refine ⟨hfil, hrul, hoths, .inr ⟨?_, hter, key, ?_⟩⟩
  · exact lt_of_le_of_lt hlim (length_lt_ncard hnd (Set.toFinite _) hkeys hkept hkey)
  · rw [hrest]
    exact ⟨hkept, hkey⟩

theorem Filed.destroys_all (hsou : (Marking.all toDelete).Sound (view.hookStateDir acc ns))
    (hlim : toDelete.length ≤ maxNamespaceDelete)
    (hd : Hook.destroyMarked view acc sleAccount ns toDelete false = .ok (ter, view'))
    (hok : ter.isTesSuccess = true) : Destroys view acc ns ter view' := by
  obtain ⟨hnd, hmem⟩ := hsou
  have hkeys : ∀ key, key ∈ toDelete ↔ key ∈ view.keysOf acc ns :=
    fun key => (hmem key).trans h.mem_keysOf.symm
  obtain ⟨hfil, hrul, hter, hoths, hrest⟩ := h.destroyMarked hnd (fun key => (hkeys key).mp) hd hok
  refine ⟨hfil, hrul, hoths, .inl ⟨?_, hter, ?_⟩⟩
  · rw [ncard_of_nodup hnd hkeys]
    exact hlim
  · rw [hrest]
    exact Set.sep_eq_empty_iff_mem_false.mpr fun key hin hnot => hnot ((hkeys key).mpr hin)

/-- **Destroying one namespace** of a consistent ledger. -/
theorem Filed.destroyNamespace (hfix : view.rules.enabled .fixNSDelete = true)
    (hd : destroyNamespace pages view acc ns = .ok (ter, view'))
    (hok : ter.isTesSuccess = true) : Destroys view acc ns ter view' := by
  have hlin := h.linked acc ns
  unfold Hook.destroyNamespace at hd
  split at hd
  next =>
    cases hd
    cases hok
  next sleAccount hacc =>
    dsimp only at hd
    split at hd
    next hemp =>
      have hroot := hlin.dirIsEmpty_iff.mp hemp
      cases hd
      rw [View.setHookStateDir_erase hroot]
      have hn : view.keysOf acc ns = ∅ := by
        ext key
        exact iff_of_false (fun hkey => (h.hookStateDir_ne_none_iff acc ns).mpr ⟨key, hkey⟩ hroot) id
      refine ⟨h.setAccount, rfl, fun _ _ => rfl, .inl ⟨?_, rfl, hn⟩⟩
      rw [hn, Set.ncard_empty]
      exact Nat.zero_le _
    next hemp =>
      split at hd
      next =>
        cases hd
        cases hok
      next root hroot =>
        rw [hfix] at hd
        cases hmark : markPages view acc ns true pages root [] with
        | none =>
          rw [hmark] at hd
          cases hd
        | some marking =>
          rw [hmark] at hd
          have hsou := sound_of_markPages h hroot ⟨List.nodup_nil, fun key => by simp⟩ hmark
          have hlim := limited_markPages (Nat.zero_le _) hmark
          cases marking with
          | missing => exact absurd hsou id
          | stopped toDelete => exact h.destroys_stopped hsou hlim hd hok
          | all toDelete =>
            dsimp only at hd
            split at hd
            next =>
              cases hd
              cases hok
            next => exact h.destroys_all hsou hlim hd hok

end

/-! ## All namespaces -/

/-- The result for a namespace. -/
noncomputable def namespaceResult (view : View) (acc : AccountID) (ns : UInt256) : Ter :=
  if maxNamespaceDelete < (view.keysOf acc ns).ncard then .tesPARTIAL else .tesSUCCESS

/-- **The loop over the namespaces**: states are left in those with more than 256, and the last
gives the result. -/
theorem Filed.destroyNamespaces (h : Filed view) (hfix : view.rules.enabled .fixNSDelete = true)
    {namespaces : List UInt256} (hnd : namespaces.Nodup) {ter₀ : Ter}
    (hd : destroyNamespaces pages acc namespaces ter₀ view = .ok (ter, view'))
    (hok : ter.isTesSuccess = true) :
    (∀ ns ∈ namespaces, (view'.keysOf acc ns).Nonempty ↔
      maxNamespaceDelete < (view.keysOf acc ns).ncard) ∧
    (∀ ns ∉ namespaces, view'.keysOf acc ns = view.keysOf acc ns) ∧
    ter = (namespaces.getLast?.map (namespaceResult view acc)).getD ter₀ := by
  induction namespaces generalizing view ter₀ with
  | nil =>
    cases hd
    exact ⟨nofun, fun _ _ => rfl, rfl⟩
  | cons ns namespaces ih =>
    obtain ⟨hnot, hnd⟩ := List.nodup_cons.mp hnd
    obtain ⟨⟨ter₁, view₁⟩, hone, hd⟩ := bind_eq_ok.mp hd
    dsimp only at hd
    split at hd
    next hfai =>
      cases hd
      rw [hfai] at hok
      cases hok
    next hok₁ =>
      rw [Bool.not_eq_false] at hok₁
      have hdes := h.destroyNamespace hfix hone hok₁
      obtain ⟨hleft, hoths, hter⟩ := ih hdes.filed (by rw [hdes.rules, hfix]) hnd hd
      have hres : ter₁ = namespaceResult view acc ns := by
        rw [namespaceResult]
        rcases hdes.outcome with ⟨hfew, hter₁, -⟩ | ⟨hmany, hter₁, -⟩
        · rw [if_neg (not_lt.mpr hfew), hter₁]
        · rw [if_pos hmany, hter₁]
      refine ⟨fun ns' hns' => ?_, fun ns' hns' => ?_, ?_⟩
      · rcases List.mem_cons.mp hns' with rfl | hin
        · -- the later namespaces are other ones
          rw [hoths ns' hnot]
          rcases hdes.outcome with ⟨hfew, -, hemp⟩ | ⟨hmany, -, hleft⟩
          · rw [hemp]
            exact iff_of_false Set.not_nonempty_empty (not_lt.mpr hfew)
          · exact iff_of_true hleft hmany
        · have hne : ns' ≠ ns := fun heq => hnot (heq ▸ hin)
          rw [hleft ns' hin, hdes.keysOf ns' hne]
      · rw [List.mem_cons, not_or] at hns'
        rw [hoths ns' hns'.2, hdes.keysOf ns' hns'.1]
      · rw [hter, hres]
        cases namespaces with
        | nil => rfl
        | cons ns₁ namespaces =>
          have hlast := List.getLast_mem (List.cons_ne_nil ns₁ namespaces)
          have hne : (ns₁ :: namespaces).getLast (List.cons_ne_nil ns₁ namespaces) ≠ ns :=
            fun heq => hnot (heq ▸ hlast)
          rw [List.getLast?_cons_cons, List.getLast?_eq_some_getLast (List.cons_ne_nil _ _),
            map_some, map_some, getD_some, getD_some,
            namespaceResult, namespaceResult, hdes.keysOf _ hne]

end

/-! ## The transaction -/

section

variable {env : SetHookEnv} {rules : Rules} {ownerDir : OwnerDir} {pages : ℕ} {account : AccountID}
  {hookSets : List HookSetObj} {view view' : View} {ter : Ter}

/-- The namespaces that the entries mark, each for the old hook at its position. -/
def markedNamespaces (view : View) (account : AccountID) (hookSets : List HookSetObj) :
    Set UInt256 :=
  { ns | ∃ (i : ℕ) (hookSetObj : HookSetObj), hookSets[i]? = some hookSetObj ∧
    ns ∈ (markNamespace (inferOperation hookSetObj) hookSetObj ((view.hooks account).getD [])[i]?
      { peeked := view.hookDefinition }).namespacesToDestroy }

theorem mem_markNamespace (op : HookSetOperation) (hookSetObj : HookSetObj)
    (oldHook : Option HookObj) (hst : st.Unaltered view.hookDefinition) (ns : UInt256) :
    ns ∈ (markNamespace op hookSetObj oldHook st).namespacesToDestroy ↔
      ns ∈ (markNamespace op hookSetObj oldHook
        { peeked := view.hookDefinition }).namespacesToDestroy ∨ ns ∈ st.namespacesToDestroy := by
  have hnam := hst.map_peeked (f := HookDefinition.hookNamespace) fun _ _ => rfl
  unfold markNamespace
  split
  next => simp
  next => simp [hnam]

theorem Setting.Next.namespacesToDestroy {oldHash : Option UInt256}
    (hnext : Setting.Next st oldHash st') : st'.namespacesToDestroy = st.namespacesToDestroy := by
  cases hnext with
  | kept => rfl
  | deleted | created => exact namespacesToDestroy_release
  | installed => exact namespacesToDestroy_acquire.trans namespacesToDestroy_release

variable {oldHooks : List HookObj}

theorem namespacesToDestroy_foldlM (h : oldHooks.foldlM
      (fun st oldHook => setPosition env rules account (some oldHook) none st) st = .ok st') :
    st'.namespacesToDestroy = st.namespacesToDestroy := by
  induction oldHooks generalizing st with
  | nil =>
    cases h
    rfl
  | cons oldHook oldHooks ih =>
    rw [List.foldlM_cons] at h
    obtain ⟨st₁, hposi, h⟩ := bind_eq_ok.mp h
    cases hposi
    have hrest := ih h
    exact hrest

/-- **The namespaces that the loop has marked.** -/
theorem mem_namespacesToDestroy (hst : st.Unaltered view.hookDefinition)
    (h : setPositions env rules account hookSets oldHooks st = .ok st') {ns : UInt256} :
    ns ∈ st'.namespacesToDestroy ↔ ns ∈ st.namespacesToDestroy ∨
      ∃ (i : ℕ) (hookSetObj : HookSetObj), hookSets[i]? = some hookSetObj ∧
        ns ∈ (markNamespace (inferOperation hookSetObj) hookSetObj oldHooks[i]?
          { peeked := view.hookDefinition }).namespacesToDestroy := by
  induction hookSets generalizing oldHooks st with
  | nil =>
    rw [namespacesToDestroy_foldlM h]
    simp
  | cons first hookSets ih =>
    rw [setPositions] at h
    obtain ⟨st₁, hposi, h⟩ := bind_eq_ok.mp h
    obtain ⟨namespaces, hmar, hnext⟩ := next_setPosition hposi
    have hst₁ := (hst.setPosition hposi).1
    have hmark := mem_markNamespace (inferOperation first) first oldHooks.head? hst ns
    rw [ih hst₁ h, hnext.namespacesToDestroy]
    rw [hmar, hmark, List.head?_eq_getElem?]
    constructor
    · rintro ((hns | hns) | ⟨i, hookSetObj, hi, hns⟩)
      · exact .inr ⟨0, first, rfl, hns⟩
      · exact .inl hns
      · rw [List.getElem?_tail] at hns
        exact .inr ⟨i + 1, hookSetObj, hi, hns⟩
    · rintro (hns | ⟨i, hookSetObj, hi, hns⟩)
      · exact .inl (.inr hns)
      · cases i with
        | zero =>
          cases hi
          exact .inl (.inl hns)
        | succ i => exact .inr ⟨i, hookSetObj, hi, by rwa [List.getElem?_tail]⟩

theorem sortedNamespaces_spec {marked namespaces : List UInt256}
    (h : marked.dedup.mergeSort (fun a b => decide (a.data ≤ b.data)) = namespaces) :
    namespaces.Nodup ∧ (∀ ns, ns ∈ namespaces ↔ ns ∈ marked) ∧
      ∀ last, namespaces.getLast? = some last → ∀ ns ∈ namespaces, ns.data ≤ last.data := by
  have hperm := List.mergeSort_perm marked.dedup fun a b => decide (a.data ≤ b.data)
  have hsor : namespaces.Pairwise fun a b => a.data ≤ b.data := by
    rw [← h]
    refine (List.pairwise_mergeSort ?_ ?_ marked.dedup).imp of_decide_eq_true
    · intro a b c hab hbc
      exact decide_eq_true (List.le_trans (of_decide_eq_true hab) (of_decide_eq_true hbc))
    · intro a b
      simpa using List.le_total a.data b.data
  rw [h] at hperm
  refine ⟨hperm.nodup_iff.mpr (List.nodup_dedup marked), fun ns => ?_, fun last hlast ns hns => ?_⟩
  · rw [hperm.mem_iff, List.mem_dedup]
  obtain ⟨init, rfl⟩ := List.getLast?_eq_some_iff.mp hlast
  rcases List.mem_append.mp hns with hns | hns
  · exact (List.pairwise_append.mp hsor).2.2 ns hns last List.mem_cons_self
  · rw [List.mem_singleton.mp hns]
    exact List.le_refl last.data

/-- **Namespaces are destroyed completely**: with `tesSUCCESS` none that is marked has a state left,
and with one left it is `tesPARTIAL`. -/
def DestroyedCompletely (marked : Set UInt256) (account : AccountID) (ter : Ter) (view' : View) :
    Prop :=
  (ter = .tesSUCCESS → ∀ ns ∈ marked, view'.keysOf account ns = ∅) ∧
    ((∃ ns ∈ marked, (view'.keysOf account ns).Nonempty) → ter = .tesPARTIAL)

/-- If a marked namespace has too many states, then so has the last one. -/
def LastTooLarge (marked : Set UInt256) (view : View) (account : AccountID) : Prop :=
  (∃ ns ∈ marked, maxNamespaceDelete < (view.keysOf account ns).ncard) →
    ∃ ns ∈ marked, maxNamespaceDelete < (view.keysOf account ns).ncard ∧
      ∀ ns' ∈ marked, ns'.data ≤ ns.data

theorem keysOf_written {newHooks : List HookObj} {view₁ view₂ : View} {reserveDelta : ℤ}
    (hwri : writeHooks ownerDir account newHooks view₁ = .ok view₂) :
    (if reserveDelta ≠ 0 then adjustOwnerCount view₂ account reserveDelta else view₂).keysOf
      = view₁.keysOf := by
  have hwrit : view₂.keysOf = view₁.keysOf := by
    unfold writeHooks at hwri
    dsimp only at hwri
    split at hwri
    · split at hwri
      · cases hwri
      · cases hwri
        rfl
    · cases hwri
      rfl
    · split at hwri
      · cases hwri
      · cases hwri
        rfl
    · cases hwri
      rfl
  rw [← hwrit]
  split
  · unfold adjustOwnerCount
    split <;> rfl
  · rfl

theorem lastTooLarge_iff {marked : Set UInt256} {last : UInt256} (hlast : last ∈ marked)
    (hle : ∀ ns ∈ marked, ns.data ≤ last.data) :
    LastTooLarge marked view account ↔
      ((∃ ns ∈ marked, maxNamespaceDelete < (view.keysOf account ns).ncard) →
        maxNamespaceDelete < (view.keysOf account last).ncard) := by
  refine imp_congr_right fun _ => ⟨?_, fun hmany => ⟨last, hlast, hmany, hle⟩⟩
  rintro ⟨ns, hns, hmany, hmax⟩
  have hs : ns = last := BaseUInt.ext (List.le_antisymm (hle ns hns) (hmax last hlast))
  rwa [← hs]

/-- **The outcome of destroying namespaces**: states are left in marked ones with more than 256, and
the last gives the result. -/
theorem outcome_of_setHook (hfil : Filed view) (hfix : view.rules.enabled .fixNSDelete = true)
    (hset : setHook env ownerDir pages account hookSets view = .ok (ter, view'))
    (hok : ter.isTesSuccess = true) :
    (∀ ns ∈ markedNamespaces view account hookSets, (view'.keysOf account ns).Nonempty ↔
      maxNamespaceDelete < (view.keysOf account ns).ncard) ∧
    (markedNamespaces view account hookSets = ∅ ∨
      ∃ last ∈ markedNamespaces view account hookSets,
        (∀ ns ∈ markedNamespaces view account hookSets, ns.data ≤ last.data) ∧
        ter = namespaceResult view account last) := by
  obtain ⟨st, view₁, view₂, reserveDelta, hposi, hdes, hwri, rfl⟩ := setHook_eq_ok hset hok
  have hsta := Setting.Unaltered.start view.hookDefinition
  have hfil₁ : Filed (st.writeDefinitions view) := ⟨hfil.linked, hfil.holds_iff, hfil.owned⟩
  generalize hsor : st.namespacesToDestroy.dedup.mergeSort (fun a b => decide (a.data ≤ b.data))
    = namespaces at hdes
  obtain ⟨hnd, hmem, hmax⟩ := sortedNamespaces_spec hsor
  have hmar : ∀ ns, ns ∈ namespaces ↔ ns ∈ markedNamespaces view account hookSets := by
    intro ns
    rw [hmem, mem_namespacesToDestroy hsta hposi]
    exact or_iff_right List.not_mem_nil
  obtain ⟨hrest, -, hter⟩ := hfil₁.destroyNamespaces hfix hnd hdes hok
  rw [keysOf_written hwri]
  refine ⟨fun ns hns => hrest ns ((hmar ns).mpr hns), ?_⟩
  cases hlast : namespaces.getLast? with
  | none =>
    left
    rw [Set.eq_empty_iff_forall_notMem]
    intro ns hns
    rw [← hmar, List.getLast?_eq_none_iff.mp hlast] at hns
    cases hns
  | some last =>
    right
    refine ⟨last, (hmar last).mp (List.mem_of_getLast? hlast),
      fun ns hns => hmax last hlast ns ((hmar ns).mpr hns), ?_⟩
    rw [hlast] at hter
    exact hter

/-- **A transaction that destroys namespaces** reports it right iff the last one is too large
whenever one is. -/
theorem destroyedCompletely_iff (hfiled : Filed view)
    (hfix : view.rules.enabled .fixNSDelete = true)
    (hset : setHook env ownerDir pages account hookSets view = .ok (ter, view'))
    (hsuccess : ter.isTesSuccess = true) :
    DestroyedCompletely (markedNamespaces view account hookSets) account ter view' ↔
      LastTooLarge (markedNamespaces view account hookSets) view account := by
  obtain ⟨hleft, houtcome⟩ := outcome_of_setHook hfiled hfix hset hsuccess
  generalize markedNamespaces view account hookSets = marked at hleft houtcome
  rcases houtcome with rfl | ⟨last, hlastMem, hmax, hter⟩
  · exact iff_of_true ⟨fun _ => nofun, nofun⟩ nofun
  rw [lastTooLarge_iff hlastMem hmax]
  rw [namespaceResult] at hter
  split at hter
  next hmany =>
    subst hter
    exact iff_of_true ⟨nofun, fun _ => rfl⟩ fun _ => hmany
  rename_i hmany
  constructor
  · rintro ⟨hempty, -⟩ ⟨ns, hns, hlarge⟩
    have hrest := (hleft ns hns).mpr hlarge
    rw [hempty hter ns hns] at hrest
    exact absurd hrest Set.not_nonempty_empty
  intro hnone
  have hrest : ∀ ns ∈ marked, ¬ (view'.keysOf account ns).Nonempty :=
    fun ns hns hrest => hmany (hnone ⟨ns, hns, (hleft ns hns).mp hrest⟩)
  refine ⟨fun _ ns hns => Set.not_nonempty_iff_eq_empty.mp (hrest ns hns), ?_⟩
  rintro ⟨ns, hns, hkeys⟩
  exact absurd hkeys (hrest ns hns)

end

/-! ## A namespace with too many states -/

/-- An entry that destroys a namespace. -/
def destroySet (ns : UInt256) : HookSetObj where
  hookNamespace := some ns
  flags := some 2

theorem inferOperation_destroySet (ns : UInt256) :
    inferOperation (destroySet ns) = .hsoNSDELETE := by
  have hflag : isNSDelete 2 = true := by decide
  simp [inferOperation, destroySet, hflag]

theorem markNamespace_destroySet (ns : UInt256) (oldHook : Option HookObj) (st : Setting) :
    markNamespace .hsoNSDELETE (destroySet ns) oldHook st
      = { st with namespacesToDestroy := ns :: st.namespacesToDestroy } := by
  have hflag : isNSDelete 2 = true := by decide
  simp [markNamespace, destroySet, hflag]

variable {ns : UInt256} {view : View}

theorem mem_markedNamespaces_destroySet {account : AccountID} (namespaces : List UInt256) :
    ns ∈ markedNamespaces view account (namespaces.map destroySet) ↔ ns ∈ namespaces := by
  constructor
  · rintro ⟨i, hookSetObj, hi, hns⟩
    rw [List.getElem?_map, map_eq_some_iff] at hi
    obtain ⟨ns', hi, rfl⟩ := hi
    rw [inferOperation_destroySet, markNamespace_destroySet] at hns
    rw [List.mem_singleton.mp hns]
    exact List.mem_of_getElem? hi
  · intro hns
    obtain ⟨i, hi⟩ := List.mem_iff_getElem?.mp hns
    refine ⟨i, destroySet ns, by rw [List.getElem?_map, hi, map_some], ?_⟩
    rw [inferOperation_destroySet, markNamespace_destroySet]
    exact List.mem_cons_self

/-- The only state of a namespace is destroyed. -/
theorem sampleDestroy_completely :
    ∃ r₁, setHookState (emptyView noHooks) owner (.ofByte 3) (.ofByte 7) [1] = .ok r₁ ∧
      ∃ r₂, setHook plainEnv ⟨true, true⟩ 1 owner ([.ofByte 3].map destroySet) r₁.2 = .ok r₂ ∧
        r₂.1 = .tesSUCCESS ∧ r₂.2.keysOf owner (.ofByte 3) = ∅ := by
  have hrun : ∃ r₁, setHookState (emptyView noHooks) owner (.ofByte 3) (.ofByte 7) [1] = .ok r₁ ∧
      ∃ r₂, setHook plainEnv ⟨true, true⟩ 1 owner ([.ofByte 3].map destroySet) r₁.2 = .ok r₂ ∧
        r₂.1 = .tesSUCCESS := by
    decide +kernel
  obtain ⟨r₁, hstate, r₂, hset, hter⟩ := hrun
  have haccounted := (accounted_emptyView noHooks).step rfl
    (e := .set owner (.ofByte 3) (.ofByte 7) [1]) ⟨r₁.1, hstate⟩
    ⟨fun hdata => absurd hdata (List.cons_ne_nil 1 []), fun _ _ => ⟨by decide, by
      rintro sleAccount hacc
      cases hacc
      decide⟩⟩
  have hfix : r₁.2.rules.enabled .fixNSDelete = true := by rw [haccounted.2.2]; rfl
  have hmarked : ∀ ns, ns ∈ markedNamespaces r₁.2 owner ([.ofByte 3].map destroySet) ↔
      ns = .ofByte 3 :=
    fun ns => (mem_markedNamespaces_destroySet [.ofByte 3]).trans List.mem_singleton
  have hcomplete := (destroyedCompletely_iff haccounted.1.toFiled hfix hset (by rw [hter]; rfl)).mpr (by
    rintro ⟨ns, hns, hmany⟩
    refine ⟨ns, hns, hmany, fun ns' hns' => ?_⟩
    rw [(hmarked ns).mp hns, (hmarked ns').mp hns']
    exact List.le_refl _)
  exact ⟨r₁, hstate, r₂, hset, hter, hcomplete.1 hter _ ((hmarked _).mpr rfl)⟩

def pageKey (page : ℕ) : UInt256 :=
  ⟨UInt8.ofNat page :: UInt8.ofNat (page / 256) :: List.replicate 30 0, rfl⟩

def keyPage (key : UInt256) : ℕ := (key.data.getD 0 0).toNat + 256 * (key.data.getD 1 0).toNat

/-- A directory with a key on each of 257 pages. -/
def crowdedDir : Directory := fun page =>
  if page < 257 then some ⟨[pageKey page], (page + 1) % 257, (page + 256) % 257⟩ else none

/-- A ledger where the owner has 257 states in a namespace. -/
def crowdedView : View :=
  { emptyView noHooks with
    account := Function.update (emptyView noHooks).account owner (some
      { balance := 1000, ownerCount := 257, hookNamespaces := [.ofByte 1], hookStateCount := some 257
        sequence := 1 })
    hookState := fun acc key ns =>
      if (acc = owner ∧ ns = .ofByte 1) ∧ keyPage key < 257 ∧ key = pageKey (keyPage key) then
        some ⟨[1], keyPage key⟩
      else none
    hookStateDir := fun acc ns => if acc = owner ∧ ns = .ofByte 1 then crowdedDir else .empty }

theorem keyPage_pageKey {page : ℕ} (h : page < 257) : keyPage (pageKey page) = page := by
  show (UInt8.ofNat page).toNat + 256 * (UInt8.ofNat (page / 256)).toNat = page
  simp only [UInt8.toNat_ofNat']
  omega

theorem crowdedDir_eq_some {page : ℕ} {node : DirNode} : crowdedDir page = some node ↔
    page < 257 ∧ ⟨[pageKey page], (page + 1) % 257, (page + 256) % 257⟩ = node := by
  simp [crowdedDir]

theorem holds_crowdedDir {page : ℕ} {key : UInt256} :
    crowdedDir.Holds page key ↔ page < 257 ∧ key = pageKey page := by
  simp [Directory.Holds, crowdedDir_eq_some]

theorem follows_crowdedDir {page : ℕ} (h : page < 257) :
    Follows crowdedDir.pages page ((page + 1) % 257) := by
  have hpages : crowdedDir.pages = {page | page < 257} := by
    ext page
    simp [Directory.pages, crowdedDir]
  rw [hpages]
  refine ⟨h, Nat.mod_lt _ (by decide), ?_⟩
  by_cases hlast : page = 256
  · subst hlast
    exact .inr ⟨rfl, fun r => Nat.le_of_lt_succ⟩
  · rw [Nat.mod_eq_of_lt (by omega)]
    exact .inl ⟨Nat.lt_succ_self page, fun r _ => le_or_gt r page⟩

theorem linked_crowdedDir : crowdedDir.Linked := by
  constructor
  · exact fun _ => nofun
  · intro page node h
    obtain ⟨hpage, rfl⟩ := crowdedDir_eq_some.mp h
    exact follows_crowdedDir hpage
  · intro page node h
    obtain ⟨hpage, rfl⟩ := crowdedDir_eq_some.mp h
    have hfollows : Follows crowdedDir.pages ((page + 256) % 257) _ :=
      follows_crowdedDir (Nat.mod_lt _ (by decide))
    rw [show ((page + 256) % 257 + 1) % 257 = page by omega] at hfollows
    exact hfollows
  · intro page node h _
    obtain ⟨-, rfl⟩ := crowdedDir_eq_some.mp h
    exact nofun
  · intro node h hempty
    obtain ⟨-, rfl⟩ := crowdedDir_eq_some.mp h
    cases hempty
  · intro page node h
    obtain ⟨-, rfl⟩ := crowdedDir_eq_some.mp h
    exact List.nodup_singleton _
  · intro page page' key h h'
    rw [holds_crowdedDir] at h h'
    rw [← keyPage_pageKey h.1, ← h.2, h'.2, keyPage_pageKey h'.1]

theorem hookState_crowdedView {acc : AccountID} {key ns : UInt256} {hookState : HookState} :
    crowdedView.hookState acc key ns = some hookState ↔
      (acc = owner ∧ ns = .ofByte 1) ∧ ∃ page < 257, key = pageKey page ∧ ⟨[1], page⟩ = hookState := by
  show (if _ then some _ else none) = _ ↔ _
  rw [Option.ite_none_right_eq_some, Option.some.injEq]
  constructor
  · rintro ⟨⟨hns, hpage, hkey⟩, rfl⟩
    exact ⟨hns, _, hpage, hkey, rfl⟩
  · rintro ⟨hns, page, hpage, rfl, rfl⟩
    rw [keyPage_pageKey hpage]
    exact ⟨⟨hns, hpage, rfl⟩, rfl⟩

/-- The states, by key and namespace. -/
def crowdedStates : List (UInt256 × UInt256) :=
  (List.range 257).map fun page => (pageKey page, .ofByte 1)

theorem statesOf_crowdedView (acc : AccountID) :
    crowdedView.statesOf acc = {p | acc = owner ∧ p ∈ crowdedStates} := by
  ext ⟨key, ns⟩
  show crowdedView.hookState acc key ns ≠ none ↔ acc = owner ∧ _ ∈ _
  simp only [crowdedStates, ne_none_iff_exists', hookState_crowdedView, List.mem_map,
    List.mem_range, Prod.mk.injEq]
  constructor
  · rintro ⟨_, ⟨hacc, hns⟩, page, hpage, hkey, -⟩
    exact ⟨hacc, page, hpage, hkey.symm, hns.symm⟩
  · rintro ⟨hacc, page, hpage, hkey, hns⟩
    exact ⟨_, ⟨hacc, hns.symm⟩, page, hpage, hkey.symm, rfl⟩

theorem filed_crowdedView : Filed crowdedView := by
  refine ⟨fun acc ns => ?_, fun {acc ns page key} => ?_, fun {acc key ns} hst => ?_⟩
  · show (if _ then _ else _ : Directory).Linked
    split
    · exact linked_crowdedDir
    · exact Directory.linked_empty
  · simp only [hookState_crowdedView]
    show (if _ then _ else _ : Directory).Holds _ _ ↔ _
    split
    next hns =>
      rw [holds_crowdedDir]
      constructor
      · rintro ⟨hpage, hkey⟩
        exact ⟨_, ⟨hns, page, hpage, hkey, rfl⟩, rfl⟩
      · rintro ⟨_, ⟨-, page, hpage, hkey, rfl⟩, rfl⟩
        exact ⟨hpage, hkey⟩
    next hns => exact iff_of_false Directory.not_holds_empty fun ⟨_, h, _⟩ => hns h.1
  · obtain ⟨_, hst⟩ := ne_none_iff_exists'.mp hst
    rw [(hookState_crowdedView.mp hst).1.1]
    exact nofun

theorem nodup_pageKeys : ((List.range 257).map pageKey).Nodup := by
  refine (List.nodup_map_iff_inj_on List.nodup_range).mpr fun i hi j hj heq => ?_
  rw [List.mem_range] at hi hj
  rw [← keyPage_pageKey hi, heq, keyPage_pageKey hj]

theorem accounted_crowdedView : Accounted crowdedView := by
  refine ⟨filed_crowdedView, fun {acc sleAccount} hacc => ?_⟩
  rw [statesOf_crowdedView]
  by_cases hown : acc = owner
  · subst hown
    cases hacc
    have hcard : {p | owner = owner ∧ p ∈ crowdedStates}.ncard = 257 := by
      refine (ncard_of_nodup (l := crowdedStates) ?_ fun p => (and_iff_right rfl).symm).trans
        (by rw [crowdedStates, List.length_map, List.length_range])
      refine .of_map Prod.fst ?_
      rw [crowdedStates, List.map_map]
      exact nodup_pageKeys
    refine ⟨hcard.symm, by rw [hcard]; decide, List.nodup_singleton _, fun ns => ?_, hcard.le,
      by decide⟩
    constructor
    · intro hns
      exact ⟨pageKey 0, rfl, List.mem_map.mpr ⟨0, by decide, by rw [List.mem_singleton.mp hns]⟩⟩
    · rintro ⟨key, -, hmem⟩
      obtain ⟨page, -, heq⟩ := List.mem_map.mp hmem
      exact List.mem_singleton.mpr (Prod.mk.inj heq).2.symm
  · have hroot := (accounted_emptyView noHooks).accounts
      ((Function.update_of_ne hown _ _).symm.trans hacc)
    have hnone : (emptyView noHooks).statesOf acc = {p | acc = owner ∧ p ∈ crowdedStates} := by
      ext p
      exact iff_of_false (not_not.mpr rfl) fun h => hown h.1
    rwa [← hnone]

theorem ncard_keysOf_crowdedView : (crowdedView.keysOf owner (.ofByte 1)).ncard = 257 := by
  refine (ncard_of_nodup nodup_pageKeys fun key => ?_).trans (by simp)
  rw [filed_crowdedView.mem_keysOf, List.mem_map]
  have hdir : crowdedView.hookStateDir owner (.ofByte 1) = crowdedDir := rfl
  simp only [hdir, holds_crowdedDir, List.mem_range, eq_comm]

/-- The crowded namespace is destroyed in part, and others are not touched. -/
theorem destroyNamespace_crowdedView :
    ∃ view₁ sleAccount, destroyNamespace 257 crowdedView owner (.ofByte 1)
        = .ok (.tesPARTIAL, view₁) ∧ view₁.account owner = some sleAccount ∧
      (view₁.hookStateDir owner (.ofByte 2)).dirIsEmpty = true := by
  have hroot : crowdedView.hookStateDir owner (.ofByte 1) 0 = some ⟨[pageKey 0], 1, 256⟩ := rfl
  have hfiled := filed_crowdedView
  cases hmark : markPages crowdedView owner (.ofByte 1) true 257 ⟨[pageKey 0], 1, 256⟩ [] with
  | none => exact absurd hmark (markPages_ne_none hfiled hroot (by decide))
  | some marking =>
    have hsound := sound_of_markPages hfiled hroot ⟨List.nodup_nil, fun key => by simp⟩ hmark
    have hlimited := limited_markPages (Nat.zero_le _) hmark
    cases marking with
    | missing => exact absurd hsound id
    | all toDelete =>
      -- all the keys are more than are marked
      have hcard := ncard_of_nodup hsound.1
        fun key => (hsound.2 key).trans hfiled.mem_keysOf.symm
      rw [ncard_keysOf_crowdedView] at hcard
      change toDelete.length ≤ 256 at hlimited
      omega
    | stopped toDelete =>
      obtain ⟨hnodup, hmem, -⟩ := hsound
      have hkeys : ∀ key ∈ toDelete, key ∈ crowdedView.keysOf owner (.ofByte 1) :=
        fun key hkey => hfiled.mem_keysOf.mpr (hmem key hkey)
      have hlen := length_le_ncard hnodup (Set.toFinite _) hkeys
      rw [ncard_keysOf_crowdedView] at hlen
      obtain ⟨view₁, hdelete, hfiled₁, -, -, hstates⟩ := hfiled.deleteEntries_eq hnodup hkeys
      obtain ⟨sleAccount, hacc⟩ : ∃ sleAccount, crowdedView.account owner = some sleAccount ∧
          sleAccount.stateCount = 257 := ⟨_, rfl, rfl⟩
      obtain ⟨sleAccount', hacc'⟩ : ∃ sleAccount', destroyedAccount view₁ sleAccount (.ofByte 1)
          toDelete.length true = some sleAccount' := by
        unfold destroyedAccount
        dsimp only
        rw [if_neg (by omega)]
        exact ⟨_, rfl⟩
      refine ⟨view₁.setAccount owner sleAccount', sleAccount', ?_,
        by simp [View.setAccount], ?_⟩
      · unfold destroyNamespace
        rw [hacc.1]
        dsimp only
        rw [if_neg (by decide), hroot]
        dsimp only
        rw [show crowdedView.rules.enabled .fixNSDelete = true from rfl, hmark]
        dsimp only
        rw [destroyMarked, hdelete, ok_bind]
        dsimp only
        rw [if_neg Bool.false_ne_true.symm, hacc']
        rfl
      · refine (hfiled₁.linked owner (.ofByte 2)).dirIsEmpty_iff.mpr ?_
        refine hfiled₁.hookStateDir_eq_none_iff.mpr fun key hkey => ?_
        change view₁.hookState owner key (.ofByte 2) ≠ none at hkey
        rw [hstates, if_neg (fun h => absurd h.2.1 (by decide))] at hkey
        obtain ⟨_, hstate⟩ := ne_none_iff_exists'.mp hkey
        exact absurd (hookState_crowdedView.mp hstate).1.2 (by decide)

/-- **A state is left, and the transaction reports success**: the first namespace has 257 states and
the last none. -/
theorem partial_reported_as_success :
    ∃ view pages view', Accounted view ∧ view.rules.enabled .fixNSDelete = true ∧
      setHook plainEnv ⟨true, true⟩ pages owner ([.ofByte 2, .ofByte 1].map destroySet) view
        = .ok (.tesSUCCESS, view') ∧
      .ofByte 1 ∈ markedNamespaces view owner ([.ofByte 2, .ofByte 1].map destroySet) ∧
      (view'.keysOf owner (.ofByte 1)).Nonempty := by
  have hmarked : .ofByte 1 ∈ markedNamespaces crowdedView owner
      ([.ofByte 2, .ofByte 1].map destroySet) :=
    (mem_markedNamespaces_destroySet [.ofByte 2, .ofByte 1]).mpr (by decide)
  have hsort : ([.ofByte 1, .ofByte 2] : List UInt256).dedup.mergeSort
      (fun a b => decide (a.data ≤ b.data)) = [.ofByte 1, .ofByte 2] :=
    List.mergeSort_of_pairwise (by decide)
  have hset : setHook plainEnv ⟨true, true⟩ 257 owner ([.ofByte 2, .ofByte 1].map destroySet)
      crowdedView = enactHooks ⟨true, true⟩ 257 owner 0
        { peeked := crowdedView.hookDefinition, namespacesToDestroy := [.ofByte 1, .ofByte 2]
          newHooks := [.blank, .blank] } crowdedView := rfl
  obtain ⟨view₁, sleAccount, hone, hacc, hempty⟩ := destroyNamespace_crowdedView
  obtain ⟨view₂, htwo⟩ : ∃ view₂, destroyNamespace 257 view₁ owner (.ofByte 2)
      = .ok (.tesSUCCESS, view₂) := by
    unfold destroyNamespace
    rw [hacc]
    dsimp only
    rw [if_pos hempty]
    exact ⟨_, rfl⟩
  have hrun : destroyNamespaces 257 owner [.ofByte 1, .ofByte 2] .tesSUCCESS crowdedView
      = .ok (.tesSUCCESS, view₂) := by
    simp only [destroyNamespaces, hone, htwo, ok_bind]
    rfl
  have hhooks : view₂.hooks owner = none := by
    rw [registry_destroyNamespaces hrun]
    rfl
  obtain ⟨hleft, -⟩ := filed_crowdedView.destroyNamespaces rfl (by decide) hrun rfl
  obtain ⟨view', henact, hkeys⟩ : ∃ view', enactHooks ⟨true, true⟩ 257 owner 0
      { peeked := crowdedView.hookDefinition, namespacesToDestroy := [.ofByte 1, .ofByte 2]
        newHooks := [.blank, .blank] } crowdedView = .ok (.tesSUCCESS, view') ∧
        view'.keysOf owner (.ofByte 1) = view₂.keysOf owner (.ofByte 1) := by
    rw [enactHooks]
    dsimp only
    rw [hsort, show Setting.writeDefinitions _ crowdedView = crowdedView from rfl, hrun, ok_bind]
    dsimp only [writeHooks, Setting.removeDefinitions]
    rw [hhooks]
    exact ⟨_, rfl, rfl⟩
  refine ⟨crowdedView, 257, view', accounted_crowdedView, rfl, hset.trans henact, hmarked, ?_⟩
  rw [hkeys, hleft _ List.mem_cons_self, ncard_keysOf_crowdedView]
  decide

end Xahau.Hook
