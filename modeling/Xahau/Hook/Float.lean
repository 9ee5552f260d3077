import Mathlib

/-! # The floats of hooks (`applyHook.cpp`)

An XFL is an `int64_t`: a mantissa of 54 bits, eight bits for the exponent, and a bit that is set if
the float is positive. Return codes are negative. -/

namespace Xahau.HookFloat

def mantissaOversized : ℤ := -26

def mantissaUndersized : ℤ := -27

def exponentOversized : ℤ := -28

def exponentUndersized : ℤ := -29

def invalidFloat : ℤ := -10024

def minMantissa : ℤ := 1000000000000000

def maxMantissa : ℤ := 9999999999999999

def minExponent : ℤ := -96

def maxExponent : ℤ := 80

section

variable (float1 exponent : ℤ) (mantissa : ℕ)

def getExponent : ℤ :=
  if float1 < 0 then invalidFloat
  else if float1 = 0 then 0
  else float1 / 2 ^ 54 % 256 - 97

def getMantissa : ℤ :=
  if float1 < 0 then invalidFloat
  else if float1 = 0 then 0
  else float1 - float1 / 2 ^ 54 * 2 ^ 54

def isNegative : Bool := float1 / 2 ^ 62 % 2 = 0

/-- `invert_sign`: bit 62 is changed. -/
def invertSign : ℤ := if isNegative float1 then float1 + 2 ^ 62 else float1 - 2 ^ 62

def setSign (setNegative : Bool) : ℤ :=
  if isNegative float1 = setNegative then float1 else invertSign float1

def setMantissa : ℤ :=
  if maxMantissa < mantissa then mantissaOversized
  else if mantissa < minMantissa then mantissaUndersized
  else float1 - getMantissa float1 + mantissa

def setExponent : ℤ :=
  if maxExponent < exponent then exponentOversized
  else if exponent < minExponent then exponentUndersized
  else float1 - float1 / 2 ^ 54 % 256 * 2 ^ 54 + (exponent + 97) * 2 ^ 54

def makeFloat (neg : Bool) : ℤ :=
  if mantissa = 0 then 0
  else if maxMantissa < mantissa then mantissaOversized
  else if mantissa < minMantissa then mantissaUndersized
  else if maxExponent < exponent then exponentOversized
  else if exponent < minExponent then exponentUndersized
  else setSign (setExponent (setMantissa 0 mantissa) exponent) neg

/-- `make_float` of an `IOUAmount`, whose mantissa is signed. -/
def makeFloatOf (manOut : ℤ) : ℤ :=
  setExponent (setMantissa (setSign 0 (manOut < 0)) manOut.natAbs) exponent

/-- `RETURN_IF_INVALID_FLOAT` goes on. -/
def IsValid : Prop :=
  ¬ float1 < 0 ∧ (float1 ≠ 0 → ¬ (getMantissa float1 < minMantissa ∨
    getMantissa float1 > maxMantissa ∨ getExponent float1 > maxExponent ∨
    getExponent float1 < minExponent))

end

def signBit (neg : Bool) : ℤ := if neg then 0 else 2 ^ 62

variable {float1 exponent : ℤ} {mantissa : ℕ} {neg : Bool}

section

variable (hman : minMantissa ≤ mantissa ∧ mantissa ≤ maxMantissa)
  (hexp : minExponent ≤ exponent ∧ exponent ≤ maxExponent)

include hman hexp

theorem makeFloat_eq :
    makeFloat exponent mantissa neg = mantissa + (exponent + 97) * 2 ^ 54 + signBit neg := by
  simp only [minMantissa, maxMantissa, minExponent, maxExponent] at hman hexp
  have hword : setExponent (setMantissa 0 mantissa) exponent
      = mantissa + (exponent + 97) * 2 ^ 54 := by
    simp only [setMantissa, setExponent, getMantissa, minMantissa, maxMantissa, minExponent,
      maxExponent]
    grind
  have hneg : isNegative (mantissa + (exponent + 97) * 2 ^ 54) = true := by
    simp only [isNegative]
    grind
  simp only [makeFloat, hword, setSign, invertSign, hneg, minMantissa, maxMantissa, minExponent,
    maxExponent, signBit]
  grind

theorem parts_makeFloat :
    0 < makeFloat exponent mantissa neg ∧ isNegative (makeFloat exponent mantissa neg) = neg ∧
      getMantissa (makeFloat exponent mantissa neg) = mantissa ∧
      getExponent (makeFloat exponent mantissa neg) = exponent := by
  rw [makeFloat_eq hman hexp]
  simp only [minMantissa, maxMantissa, minExponent, maxExponent, signBit] at *
  simp only [isNegative, getMantissa, getExponent]
  grind

theorem makeFloatOf_eq :
    makeFloatOf exponent (if neg then -mantissa else mantissa) = makeFloat exponent mantissa neg := by
  rw [makeFloat_eq hman hexp]
  simp only [minMantissa, maxMantissa, minExponent, maxExponent, signBit] at *
  simp only [makeFloatOf, setExponent, setMantissa, setSign, invertSign, getMantissa, isNegative,
    minMantissa, maxMantissa, minExponent, maxExponent]
  cases neg <;> grind

end

theorem range_of_makeFloat (h : 0 < makeFloat exponent mantissa neg) :
    (minMantissa ≤ mantissa ∧ mantissa ≤ maxMantissa) ∧
      minExponent ≤ exponent ∧ exponent ≤ maxExponent := by
  unfold makeFloat at h
  repeat' split at h
  all_goals first | exact absurd h (by decide) | omega

/-- **Packing floats**: the parts can be taken out again, and the test accepts zero and what was
packed. -/
theorem xfl_packing :
    (∀ (neg : Bool) (mantissa : ℕ) (exponent : ℤ), minMantissa ≤ mantissa ∧ mantissa ≤ maxMantissa →
      minExponent ≤ exponent ∧ exponent ≤ maxExponent →
      let float1 := makeFloat exponent mantissa neg
      (isNegative float1 = neg ∧ getMantissa float1 = mantissa ∧ getExponent float1 = exponent) ∧
        makeFloatOf exponent (if neg then -mantissa else mantissa) = float1) ∧
    ∀ float1 < (2 : ℤ) ^ 63, IsValid float1 ↔ 0 ≤ float1 ∧
      (float1 = 0 ∨ ∃ exponent mantissa neg, makeFloat exponent mantissa neg = float1) := by
  refine ⟨fun neg mantissa exponent hman hexp =>
    ⟨(parts_makeFloat hman hexp).2, makeFloatOf_eq hman hexp⟩, fun float1 hlt => ?_⟩
  constructor
  · rintro ⟨hneg, hvalid⟩
    refine ⟨not_lt.mp hneg, or_iff_not_imp_left.mpr fun hzero => ?_⟩
    have hrange := hvalid hzero
    have hman : (getMantissa float1).toNat = getMantissa float1 :=
      Int.toNat_of_nonneg (by simp only [minMantissa] at hrange; omega)
    refine ⟨getExponent float1, (getMantissa float1).toNat, isNegative float1, ?_⟩
    rw [makeFloat_eq (by omega) (by omega), hman]
    simp only [getMantissa, getExponent, signBit, isNegative]
    grind
  · rintro ⟨hneg, rfl | ⟨exponent, mantissa, neg, rfl⟩⟩
    · exact ⟨by decide, fun h => absurd rfl h⟩
    · refine ⟨not_lt.mpr hneg, fun hzero => ?_⟩
      obtain ⟨hman, hexp⟩ := range_of_makeFloat (lt_of_le_of_ne hneg (Ne.symm hzero))
      obtain ⟨-, -, hman', hexp'⟩ := parts_makeFloat hman hexp
      rw [hman', hexp']
      omega

end Xahau.HookFloat
