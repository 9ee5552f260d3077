import Xahau.Guard.CheckGuard
import Xahau.Hook.Api

/-! # Validating a module (`validateGuards`)

A first pass reads the import, function and export sections; a second checks the types and scans
every function body. Positions are `int`s: the end of a section is computed from a length that the
module states, and a negative position ends a loop because it is compared as a `size_t`. -/

namespace Xahau.Guard

open Checked (bind_eq_ok)

section

variable (wasm : List UInt8) (rulesVersion : Nat)

/-- `parseLeb128` at an `int` position; before the start it reads nothing. -/
def parseLeb128At (i : Int) : Check (Nat × Int) :=
  if i < 0 then .ok (0, i)
  else do
    let (n, j) ← parseLeb128 wasm i.toNat
    .ok (n, j)

/-- A number, with the position after it inside the bytes. -/
def readLeb (i : Int) : Check (Nat × Nat) := do
  let (n, i) ← parseLeb128At wasm i
  let i ← checkShortHook wasm i
  .ok (n, i)

/-- An imported function. Its index is its place among the imports. -/
structure ImportedFunc where
  name : String
  typeIdx : Int
  deriving DecidableEq, Repr

/-- What the first pass learns. -/
structure FirstPass where
  hookFuncIdx : Option Int
  cbakFuncIdx : Option Int
  /-- `func_type_map`: the type of every function of the module, in order. -/
  funcTypes : List Int
  /-- `import_type_map`: the imports in order, each with its type. -/
  imports : List ImportedFunc
  guardImportNumber : Int
  lastImportNumber : Int
  importCount : Int
  deriving DecidableEq, Repr

/-- The variables before the first section. -/
def FirstPass.init : FirstPass where
  hookFuncIdx := none
  cbakFuncIdx := none
  funcTypes := []
  imports := []
  guardImportNumber := -1
  lastImportNumber := -1
  importCount := 0

/-! ## The import section -/

/-- A length and a text of it; `bad` is the fault of a length that does not fit. -/
def readText (i : Nat) (bad : Fault) : Check (String × Nat) := do
  let (length, i) ← readLeb wasm i
  if toInt length < 1 ∨ (wasm.length : Int) - i < toInt length then .error bad
  else
    let count := (toInt length).toNat
    .ok (textOf ((wasm.drop i).take count), i + count)

/-- Whether a function may be imported. -/
def importAllowed (name : String) : Bool :=
  (Hook.importWhitelist.lookup name).isSome ||
    (0 < rulesVersion && (Hook.importWhitelist1.lookup name).isSome)

def readImport (i : Nat) : Check (ImportedFunc × Nat) := do
  let (module, i) ← readText wasm i (.reject .importModuleBad
    "Malformed transaction. Hook attempted to specify nil or invalid import module")
  rejectIf (module ≠ "env")
    (.reject .importModuleEnv
      "Malformed transaction. Hook attempted to specify import module other than 'env'")
  let i ← checkShortHook wasm i
  let (name, i) ← readText wasm i (.reject .importNameBad
    "Malformed transaction. Hook attempted to specify nil or invalid import name")
  let i ← checkShortHook wasm i
  let kind ← byteAt wasm i
  rejectIf (0 < kind)
    (.reject .importIllegal
      "Malformed transaction. Hook attempted to import an import type other than a function.")
  let i ← checkShortHook wasm (i + 1 : Nat)
  let (typeIdx, i) ← readLeb wasm i
  rejectIf (name ≠ "_g" ∧ importAllowed rulesVersion name = false)
    (.reject .importIllegal
      ("Malformed transaction. Hook attempted to import a function that does not appear in the " ++
        "hook_api function set: "))
  .ok (⟨name, toInt typeIdx⟩, i)

/-- The loop over the imports, numbered in order; the last `_g` is the guard. -/
def importLoop (wasm : List UInt8) (rulesVersion : Nat) :
    (remaining i : Nat) → List ImportedFunc → (guardImportNumber : Int) →
      Check (List ImportedFunc × Int)
  | 0, _, imports, guardImportNumber => .ok (imports, guardImportNumber)
  | remaining + 1, i, imports, guardImportNumber => do
    let (func, i) ← readImport wasm rulesVersion i
    importLoop wasm rulesVersion remaining i (imports ++ [func])
      (if func.name = "_g" then imports.length else guardImportNumber)

def importSection (i : Nat) (st : FirstPass) :
    Check FirstPass := do
  let (count, i) ← readLeb wasm i
  let importCount := toInt count
  rejectIf (importCount ≤ 0)
    (.reject .importsMissing
      ("Malformed transaction. Hook did not import any functions... required at least " ++
        "guard(uint32_t, uint32_t) and accept or rollback"))
  let (imports, guardImportNumber) ←
    importLoop wasm rulesVersion importCount.toNat i [] st.guardImportNumber
  rejectIf (guardImportNumber = -1)
    (.reject .guardImport "Malformed transaction. Hook did not import _g (guard) function")
  .ok { st with
    imports := imports
    guardImportNumber := guardImportNumber
    lastImportNumber := imports.length - 1
    importCount := importCount }

end

/-! ## The export and function sections -/

/-- Whether the bytes at `i` are the given ones, compared up to the first that differs. -/
def bytesAre (wasm : List UInt8) : (i : Nat) → List UInt8 → Check Bool
  | _, [] => .ok true
  | i, b :: bytes => do
    if (← byteAt wasm i) = b then bytesAre wasm (i + 1) bytes else .ok false

/-- The function index of an export named `hook` or `cbak`, after its name. -/
def readExportedFunc (wasm : List UInt8) (i : Nat) (notFunc : Fault) : Check (Int × Nat) := do
  let i ← checkShortHook wasm i
  let kind ← byteAt wasm i
  rejectIf (kind ≠ 0) notFunc
  let i ← checkShortHook wasm (i + 1 : Nat)
  let (idx, i) ← readLeb wasm i
  .ok (toInt idx, i)

def exportLoop (wasm : List UInt8) :
    (remaining i : Nat) → (hookFuncIdx cbakFuncIdx : Option Int) →
      Check (Option Int × Option Int)
  | 0, _, hookFuncIdx, cbakFuncIdx => .ok (hookFuncIdx, cbakFuncIdx)
  | remaining + 1, i, hookFuncIdx, cbakFuncIdx => do
    let (length, i) ← readLeb wasm i
    let nameLen := toInt length
    -- the names are "hook" and "cbak"
    let isHook ← if nameLen = 4 then bytesAre wasm i [0x68, 0x6F, 0x6F, 0x6B] else .ok false
    let isCbak ← if nameLen = 4 ∧ isHook = false then bytesAre wasm i [0x63, 0x62, 0x61, 0x6B]
      else .ok false
    if isHook then do
      let (idx, i) ← readExportedFunc wasm (i + 4) (.reject .exportHookFunc
        "Malformed transaction. Hook did not export: A valid int64_t hook(uint32_t)")
      exportLoop wasm remaining i (some idx) cbakFuncIdx
    else if isCbak then do
      let (idx, i) ← readExportedFunc wasm (i + 4) (.reject .exportCbakFunc
        "Malformed transaction. Hook did not export: A valid int64_t cbak(uint32_t)")
      exportLoop wasm remaining i hookFuncIdx (some idx)
    else do
      let skip ← addInt nameLen 1
      let i ← addInt i skip
      let (_, i) ← readLeb wasm i
      exportLoop wasm remaining i hookFuncIdx cbakFuncIdx

def exportSection (wasm : List UInt8) (i : Nat) (st : FirstPass) : Check FirstPass := do
  let (count, i) ← readLeb wasm i
  let exportCount := toInt count
  rejectIf (exportCount ≤ 0)
    (.reject .exportsMissing
      ("Malformed transaction. Hook did not export any functions... required hook(int64_t), " ++
        "callback(int64_t)."))
  let (hookFuncIdx, cbakFuncIdx) ←
    exportLoop wasm exportCount.toNat i st.hookFuncIdx st.cbakFuncIdx
  rejectIf (hookFuncIdx = none)
    (.reject .exportMissing
      "Malformed transaction. Hook did not export: int64_t hook(uint32_t); ")
  .ok { st with hookFuncIdx := hookFuncIdx, cbakFuncIdx := cbakFuncIdx }

def functionLoop (wasm : List UInt8) : (remaining i : Nat) → List Int → Check (List Int)
  | 0, _, funcTypes => .ok funcTypes
  | remaining + 1, i, funcTypes => do
    let (typeIdx, i) ← readLeb wasm i
    functionLoop wasm remaining i (funcTypes ++ [toInt typeIdx])

section

variable (wasm : List UInt8) (rulesVersion sectionType i : Nat) (st : FirstPass)

def functionSection : Check FirstPass := do
  let (count, i) ← readLeb wasm i
  let functionCount := toInt count
  rejectIf (functionCount ≤ 0)
    (.reject .funcsMissing
      ("Malformed transaction. Hook did not establish any functions... required hook(int64_t), " ++
        "callback(int64_t)."))
  let funcTypes ← functionLoop wasm functionCount.toNat i []
  .ok { st with funcTypes := funcTypes }

/-! ## The first pass -/

/-- The length of a section at `i`: where its contents and the next section start. -/
def sectionBounds : Check (Nat × Int) := do
  let (length, i) ← readLeb wasm i
  let next ← addInt i (toInt length)
  .ok (i, next)

/-- What the first pass does with the contents of a section. -/
def firstPassSection : Check FirstPass :=
  if sectionType = 2 then importSection wasm rulesVersion i st
  else if sectionType = 7 then exportSection wasm i st
  else if sectionType = 3 then functionSection wasm i st
  else .ok st

end

/-- The first loop over the sections; `j` is the position of the section before. -/
def firstPassLoop (wasm : List UInt8) (rulesVersion : Nat) :
    (fuel : Nat) → (i j : Int) → (lastSectionType : Nat) → FirstPass → Check FirstPass
  | 0, _, _, _, _ => .error .outOfFuel
  | fuel + 1, i, j, lastSectionType, st =>
    if i < 0 ∨ (wasm.length : Int) ≤ i then .ok st
    else if j = i then
      .error (.reject .wasmParseLoop "Malformed transaction: Hook is invalid WASM binary.")
    else do
      let sectionType := (← byteAt wasm i.toNat).toNat
      rejectIf (sectionType = 0)
        (.reject .customSectionDisallowed
          ("Malformed transaction. Hook contained a custom section, which is not allowed. Use " ++
            "cleaner."))
      rejectIf (sectionType ≤ lastSectionType)
        (.reject .sectionsOutOfSequence
          ("Malformed transcation. Hook contained wasm sections that were either repeated or " ++
            "were out of sequence."))
      let (start, next) ← sectionBounds wasm (i.toNat + 1)
      let st ← firstPassSection wasm rulesVersion sectionType start st
      firstPassLoop wasm rulesVersion fuel next i sectionType st

/-- The first pass; the types of the sections grow, so there are at most 255. -/
def firstPass (wasm : List UInt8) (rulesVersion : Nat) : Check FirstPass :=
  firstPassLoop wasm rulesVersion 257 8 0 0 .init

/-! ## The type section -/

/-- The signature of an imported function; the name is looked up without a test. -/
def signatureOf (name : String) : Check (List UInt8) :=
  match Hook.importSignature name with
  | some signature => .ok signature
  | none => .error (.undefined .endOfMap)

/-- All later imports of a type have the signature of the first. -/
def sameSignature (signature : List UInt8) : List ImportedFunc → Check Unit
  | [] => .ok ()
  | func :: usage => do
    let other ← signatureOf func.name
    rejectIf (other ≠ signature)
      (.reject .funcTypeInvalid
        ("Function type is inconsitent across referenced apis. This probably means one of your " ++
          "apis has the wrong signature. "))
    sameSignature signature usage

/-- The signature of the imports of type `j`; only the type of `hook` may have none. -/
def expectedSignature (imports : List ImportedFunc) (hookTypeIdx : Int) (j : Nat) :
    Check (Option (List UInt8)) :=
  match imports.filter fun func => decide (func.typeIdx = (j : Int)) with
  | [] =>
    if (j : Int) = hookTypeIdx then .ok none
    else .error (.reject .funcTypeInvalid
      "Invalid function type. Not used by any import or hook/cbak func. ")
  | func :: usage => do
    let signature ← signatureOf func.name
    sameSignature signature usage
    .ok (some signature)

/-- A value type of a function type: `i32`, `i64`, `f32` or `f64`. -/
def isNumType (t : Int) : Bool := t == 0x7F || t == 0x7E || t == 0x7D || t == 0x7C

section

variable (wasm : List UInt8) (isHook : Bool) (signature : Option (List UInt8))

/-- The type of parameter `k` of a function type. -/
def checkParam (k : Nat) (paramType : Int) : Check Unit :=
  if isNumType paramType = false then
    .error (.reject .funcParamInvalid "Invalid parameter type in function type. ")
  else if isHook then
    rejectIf (paramType ≠ 0x7F)
      (.reject .paramHookCbak
        ("Malformed transaction. hook and cbak function definition must have exactly one uint32_t " ++
          "parameter."))
  else
    match signature with
    | none => .error (.undefined .emptyOptional)
    | some signature =>
      match signature[k + 1]? with
      | none => .error (.undefined .outOfRange)
      | some t =>
        rejectIf ((t.toNat : Int) ≠ paramType)
          (.reject .funcParamInvalid
            "Malformed transaction. Hook API definition parameters incorrect.")

/-- The parameters of a function type. -/
def paramLoop (wasm : List UInt8) (isHook : Bool) (signature : Option (List UInt8)) :
    (remaining k i : Nat) → Check Nat
  | 0, _, i => .ok i
  | remaining + 1, k, i => do
    let (paramType, i) ← readLeb wasm i
    checkParam isHook signature k (toInt paramType)
    paramLoop wasm isHook signature remaining (k + 1) i

/-- The number of parameters of a function type. -/
def checkParamCount (paramCount : Int) : Check Unit :=
  if isHook then
    if paramCount ≠ 1 then
      .error (.reject .paramHookCbak
        ("Malformed transaction. hook and cbak function definition must have exactly one parameter " ++
          "(uint32_t)."))
    else .ok ()
  else
    match signature with
    | none => .error (.undefined .emptyOptional)
    | some signature =>
      -- compared as `size_t`
      if toUInt64 paramCount ≠ toUInt64 ((signature.length : Int) - 1) then
        .error (.reject .funcTypeInvalid
          "Malformed transaction. Hook API has the wrong number of parameters.")
      else .ok ()

/-- The result of a function type. -/
def checkResult (resultType : Int) : Check Unit :=
  if isNumType resultType = false then
    .error (.reject .funcReturnInvalid "Invalid return type in function type. ")
  else if isHook then
    if resultType ≠ 0x7E then
      .error (.reject .returnHookCbak
        ("Malformed transaction. hook function definition must have exactly one int64_t return " ++
          "type. "))
    else .ok ()
  else
    match signature with
    | none => .error (.undefined .emptyOptional)
    | some signature =>
      match signature[0]? with
      | none => .error (.undefined .outOfRange)
      | some t =>
        if (t.toNat : Int) ≠ resultType then
          .error (.reject .funcReturnInvalid
            "Malformed transaction. Hook API definition return type incorrect.")
        else .ok ()

end

/-- The loop over the function types. -/
def typeLoop (wasm : List UInt8) (imports : List ImportedFunc) (hookTypeIdx : Int) :
    (remaining j i : Nat) → Check Nat
  | 0, _, i => .ok i
  | remaining + 1, j, i => do
    let form ← byteAt wasm i
    rejectIf (form ≠ 0x60)
      (.reject .funcTypeInvalid "Invalid function type. ")
    let i ← checkShortHook wasm (i + 1 : Nat)
    let signature ← expectedSignature imports hookTypeIdx j
    let isHook := decide ((j : Int) = hookTypeIdx)
    let (paramCount, i) ← readLeb wasm i
    checkParamCount isHook signature (toInt paramCount)
    let i ← paramLoop wasm isHook signature (toInt paramCount).toNat 0 i
    let (resultCount, i) ← readLeb wasm i
    rejectIf (toInt resultCount ≠ 1)
      (.reject .funcReturnCount
        ("Malformed transaction. Hook declares a function type that returns fewer or more than " ++
          "one value. "))
    let (resultType, i) ← readLeb wasm i
    checkResult isHook signature (toInt resultType)
    typeLoop wasm imports hookTypeIdx remaining (j + 1) i

/-! ## The code section -/

/-- A function body that was scanned. -/
structure Body where
  codesec : Nat
  startOffset : Nat
  endOffset : Int
  checked : CheckedBody

/-- What the second pass computes; `bodies` are the function bodies it scanned. -/
structure SecondPass where
  maxInstrCountHook : Nat
  maxInstrCountCbak : Nat
  bodies : List Body

/-- The declarations of local variables. -/
def localLoop (wasm : List UInt8) : (remaining i : Nat) → Check Nat
  | 0, i => .ok i
  | remaining + 1, i => do
    let (_, i) ← readLeb wasm i
    let t ← byteAt wasm i
    rejectIf (¬ (0x7C ≤ t ∧ t ≤ 0x7F)) (.reject .typeInvalid "Invalid local type. ")
    let i ← checkShortHook wasm (i + 1 : Nat)
    localLoop wasm remaining i

/-- The functions exported as `hook` and `cbak`, among the functions of the module. -/
structure Exported where
  hookFuncIdx : Int
  cbakFuncIdx : Option Int
  deriving DecidableEq, Repr

/-- Record the worst case of a body. -/
def SecondPass.record (st : SecondPass) (exported : Exported) (body : Body) : SecondPass :=
  let st := { st with bodies := st.bodies ++ [body] }
  if exported.hookFuncIdx = body.codesec then
    { st with maxInstrCountHook := body.checked.worstCase }
  else if exported.cbakFuncIdx = some (body.codesec : Int) then
    { st with maxInstrCountCbak := body.checked.worstCase }
  else st

section

variable (scale : Nat → Nat → Nat → Nat)

/-- The loop over the function bodies. -/
def codeLoop (wasm : List UInt8) (rules : GuardRules) (exported : Exported) :
    (remaining j : Nat) → (i : Int) → SecondPass → Check SecondPass
  | 0, _, _, st => .ok st
  | remaining + 1, j, i, st => do
    let (codeSize, i) ← readLeb wasm i
    let codeEnd ← addInt i (toInt codeSize)
    let (localCount, i) ← readLeb wasm i
    let i ← localLoop wasm (toInt localCount).toNat i
    -- empty functions are allowed
    if (i : Int) = codeEnd then codeLoop wasm rules exported remaining (j + 1) i st
    else do
      let checked ← checkGuard scale wasm i codeEnd rules
      codeLoop wasm rules exported remaining (j + 1) codeEnd
        (st.record exported ⟨j, i, codeEnd, checked⟩)

/-- What the second pass does with the contents of a section. -/
def secondPassSection (wasm : List UInt8) (rules : GuardRules) (imports : List ImportedFunc)
    (hookTypeIdx : Int) (exported : Exported) (sectionType i : Nat) (st : SecondPass) :
    Check SecondPass :=
  if sectionType = 1 then do
    let (typeCount, i) ← readLeb wasm i
    let _ ← typeLoop wasm imports hookTypeIdx (toInt typeCount).toNat 0 i
    .ok st
  else if sectionType = 10 then do
    let (funcCount, i) ← readLeb wasm i
    codeLoop scale wasm rules exported (toInt funcCount).toNat 0 i st
  else .ok st

/-- The second loop over the sections. -/
def secondPassLoop (wasm : List UInt8) (rules : GuardRules) (imports : List ImportedFunc)
    (hookTypeIdx : Int) (exported : Exported) :
    (fuel : Nat) → (i : Int) → SecondPass → Check SecondPass
  | 0, _, _ => .error .outOfFuel
  | fuel + 1, i, st =>
    if i < 0 ∨ (wasm.length : Int) ≤ i then .ok st
    else do
      let sectionType := (← byteAt wasm i.toNat).toNat
      let (start, next) ← sectionBounds wasm (i.toNat + 1)
      let st ← secondPassSection scale wasm rules imports hookTypeIdx exported sectionType start st
      secondPassLoop wasm rules imports hookTypeIdx exported fuel next st

/-! ## The whole check -/

/-- The two counts that `validateGuards` returns, what the first pass learned and the bodies that
were scanned. -/
structure Report where
  hookCount : Nat
  cbakCount : Nat
  first : FirstPass
  bodies : List Body

/-- The functions exported as `hook` and `cbak`; indices count the imports first. -/
def exportedFuncs (st : FirstPass) : Check Exported := do
  match st.hookFuncIdx with
  | none => .error (.undefined .emptyOptional)
  | some hookFuncIdx => do
    let hookFuncIdx ← addInt hookFuncIdx (-st.importCount)
    match st.cbakFuncIdx with
    | none => .ok ⟨hookFuncIdx, none⟩
    | some cbakFuncIdx => do
      let cbakFuncIdx ← addInt cbakFuncIdx (-st.importCount)
      .ok ⟨hookFuncIdx, some cbakFuncIdx⟩

def funcType (st : FirstPass) (funcIdx : Int) : Option Int :=
  if funcIdx < 0 then none else st.funcTypes[funcIdx.toNat]?

/-- The type that `hook` has, and `cbak` too if it is there. -/
def hookType (st : FirstPass) (exported : Exported) : Check Int :=
  match funcType st exported.hookFuncIdx, exported.cbakFuncIdx.map (funcType st) with
  | none, _ | _, some none =>
    .error (.reject .funcTypeless
      ("Malformed transaction. hook or cbak functions did not have a corresponding type in WASM " ++
        "binary."))
  | some hookTypeIdx, none => .ok hookTypeIdx
  | some hookTypeIdx, some (some cbakTypeIdx) =>
    if cbakTypeIdx ≠ hookTypeIdx then
      .error (.reject .hookCbakDiffTypes
        ("Malformed transaction. Hook and cbak func must have the same type. int64_t " ++
          "(*)(uint32_t)."))
    else .ok hookTypeIdx

/-- The magic number and version of a module. -/
def header : List UInt8 := [0x00, 0x61, 0x73, 0x6D, 0x01, 0x00, 0x00, 0x00]

/-- `validateGuards`. Positions are `int`s; more bytes are not followed. -/
def validateGuards (wasm : List UInt8) (rulesVersion : Nat) : Check Report := do
  rejectIf (wasm.length < 63)
    (.reject .wasmTooSmall
      "Malformed transaction: Hook was not valid webassembly binary. Too small.")
  rejectIf (0x7FFFFFE0 ≤ wasm.length) (.undefined .intOverflow)
  rejectIf (wasm.take 8 ≠ header)
    (.reject .wasmBadMagic
      ("Malformed transaction: Hook was not valid webassembly binary. Missing magic number or " ++
        "version."))
  let first ← firstPass wasm rulesVersion
  let exported ← exportedFuncs first
  let hookTypeIdx ← hookType first exported
  let rules : GuardRules := ⟨first.guardImportNumber, first.lastImportNumber, rulesVersion⟩
  let second ←
    secondPassLoop scale wasm rules first.imports hookTypeIdx exported 257 8 ⟨0, 0, []⟩
  .ok ⟨second.maxInstrCountHook, second.maxInstrCountCbak, first, second.bodies⟩

/-! ## The bodies of an accepted module -/

variable {scale} {exported : Exported} {rules : GuardRules} {i : Int} {wasm : List UInt8}
  {rulesVersion : Nat} {report : Report} {st st' : SecondPass}

section

variable {P : SecondPass → Prop} (hrec : ∀ st body, P st →
  checkGuard scale wasm body.startOffset body.endOffset rules = .ok body.checked →
    P (st.record exported body))

include hrec

/-- What recording a scanned body keeps, the loop over the bodies keeps. -/
theorem codeLoop_induction {remaining j : Nat}
    (h : codeLoop scale wasm rules exported remaining j i st = .ok st') (hst : P st) : P st' := by
  induction remaining generalizing j i st with
  | zero =>
    cases h
    exact hst
  | succ remaining ih =>
    simp only [codeLoop, bind_eq_ok] at h
    obtain ⟨⟨codeSize, i⟩, -, codeEnd, -, ⟨localCount, i⟩, -, start, -, h⟩ := h
    split at h
    · exact ih h hst
    simp only [bind_eq_ok] at h
    obtain ⟨checked, hche, h⟩ := h
    exact ih h (hrec _ _ hst hche)

/-- What recording a scanned body keeps, the second pass keeps. -/
theorem secondPassLoop_induction {imports : List ImportedFunc} {hookTypeIdx : Int} {fuel : Nat}
    (h : secondPassLoop scale wasm rules imports hookTypeIdx exported fuel i st = .ok st')
    (hst : P st) : P st' := by
  induction fuel generalizing i st with
  | zero => simp [secondPassLoop] at h
  | succ fuel ih =>
    rw [secondPassLoop] at h
    split at h
    · cases h
      exact hst
    simp only [bind_eq_ok] at h
    obtain ⟨sectionType, -, ⟨start, next⟩, -, st₁, hsec, h⟩ := h
    refine ih h ?_
    rw [secondPassSection] at hsec
    split at hsec
    · simp only [bind_eq_ok] at hsec
      obtain ⟨_, -, _, -, hsec⟩ := hsec
      cases hsec
      exact hst
    split at hsec
    · simp only [bind_eq_ok] at hsec
      obtain ⟨_, -, hcode⟩ := hsec
      exact codeLoop_induction hrec hcode hst
    · cases hsec
      exact hst

end

theorem SecondPass.bodies_record (st : SecondPass) (exported : Exported) (body : Body) :
    (st.record exported body).bodies = st.bodies ++ [body] := by
  unfold SecondPass.record
  split
  · rfl
  · split <;> rfl

theorem length_lt_of_validateGuards
    (h : validateGuards scale wasm rulesVersion = .ok report) : wasm.length < 0x80000000 := by
  simp only [validateGuards, bind_eq_ok, rejectIf_eq_ok] at h
  obtain ⟨-, -, -, hlen, -⟩ := h
  omega

theorem validateGuards_spec (h : validateGuards scale wasm rulesVersion = .ok report) :
    firstPass wasm rulesVersion = .ok report.first ∧
      ∀ b ∈ report.bodies, checkGuard scale wasm b.startOffset b.endOffset
        ⟨report.first.guardImportNumber, report.first.lastImportNumber, rulesVersion⟩
          = .ok b.checked := by
  simp only [validateGuards, bind_eq_ok, rejectIf_eq_ok] at h
  obtain ⟨-, -, -, -, -, -, first, hfirst, exported, -, hookTypeIdx, -, second, hsecond, h⟩ := h
  cases h
  refine ⟨hfirst, secondPassLoop_induction (P := fun st => ∀ b ∈ st.bodies, checkGuard scale wasm
    b.startOffset b.endOffset _ = .ok b.checked) (fun st body hst hche b hb => ?_) hsecond (List.forall_mem_nil _)⟩
  rw [SecondPass.bodies_record, List.mem_append, List.mem_singleton] at hb
  rcases hb with hb | rfl
  · exact hst b hb
  · exact hche

end

end Xahau.Guard
