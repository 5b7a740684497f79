/-
Validation of the rows a panel lists, and the check of a whole list.

A row that the adapter has converted is cleaned, bounded and priced here, or
turned down. The lower case and the hash that name a category are left to
parameters, with `repr`.
-/
import Mathlib.Data.Option.Basic
import Falaron.PerfectPanel

namespace Falaron.Sync

open Py (Json Double nearest roundHalfEven)
open PerfectPanel (ProviderService)
open Text (isSpace stripL clip)

/-- What the code takes from Python for texts of all alphabets. -/
structure Builtins where
  lower : String → String
  sha1 : String → String
  repr : Json → String

def maxRatePer1000 : Rat := 10000000

def maxExternalIdLen : Nat := 24

def maxNameLen : Nat := 160

def maxCategoryLen : Nat := 120

def supportedTypes : List String := ["default", "comments", "mentions"]

def unsupported : String := "unsupported"

structure NormalizedService where
  externalId : String
  name : String
  category : String
  ratePer1000Paise : Int
  minQty : Int
  maxQty : Int
  serviceType : String
  rawType : String
  refill : Bool
  cancel : Bool

def NormalizedService.supported (n : NormalizedService) : Bool := n.serviceType ∈ supportedTypes

/-! ## Texts -/

/-- Each run of characters with `p` as one `c`; `inRun` when one has begun. -/
def squeeze (p : Char → Bool) (c : Char) (inRun : Bool) : List Char → List Char
  | [] => []
  | d :: ds =>
    if p d then if inRun then squeeze p c true ds else c :: squeeze p c true ds
    else d :: squeeze p c false ds

/-- What `[\x00-\x1f\x7f]` matches. -/
def isControl (c : Char) : Bool := c.toNat < 32 || c.toNat = 127

def cleanText (value : String) (maxLen : Nat) : String :=
  let text := value.toList.map fun c => if isControl c then ' ' else c
  clip maxLen (.ofList (stripL (squeeze isSpace ' ' false text)))

def mapServiceType (raw : String) : String :=
  let label := String.ofList ((Text.lower (cleanText raw 64)).toList.map fun c => if c = '_' then ' ' else c)
  if label ∈ ["", "default"] then "default"
  else if label = "custom comments" then "comments"
  else if label ∈ ["mentions custom list", "custom mentions"] then "mentions"
  else unsupported

def isSlugChar (c : Char) : Bool := ('a' ≤ c && c ≤ 'z') || ('0' ≤ c && c ≤ '9')

/-- `s.strip("_")` -/
def stripUnderscores (cs : List Char) : List Char :=
  ((cs.dropWhile (· == '_')).reverse.dropWhile (· == '_')).reverse

def categoryIdFor (py : Builtins) (category : String) : String :=
  let slug := (stripUnderscores (squeeze (fun c => !isSlugChar c) '_' false (py.lower category).toList)).take 18
  let slug := if slug = [] then "other" else String.ofList slug
  let digest := clip 6 (py.sha1 (py.lower (Text.strip category)))
  s!"cat_{slug}_{digest}"

def serviceIdFor (providerId externalId : String) : String := clip 64 (providerId ++ "-" ++ externalId)

/-- A character of `[A-Za-z0-9_.\-]` -/
def isIdChar (c : Char) : Bool :=
  ('A' ≤ c && c ≤ 'Z') || ('a' ≤ c && c ≤ 'z') || ('0' ≤ c && c ≤ '9') || c ∈ ['_', '.', '-']

/-! ## One row -/

/-- `int(round(rate * fx * 100))`; what is multiplied is bounded, no product is infinite. -/
def paiseOf (rate fx : Rat) : Int := roundHalfEven (nearest (nearest (rate * fx) * 100))

/-- What `normalize_service` is passed of one row; each value may be of any type. -/
structure RawFields where
  externalId : Json
  name : Json
  category : Json
  rate : Json
  minQty : Json
  maxQty : Json
  serviceType : Json
  refill : Json
  cancel : Json

/-- `_as_bool` -/
def asBool : Json → Bool
  | .str s => Text.lower (Text.strip s) ∈ ["1", "true", "yes", "y"]
  | v => v.truthy

section

variable (repr : Json → String)

/-- `clean_text` of any value -/
def cleanValue (value : Json) (maxLen : Nat) : String :=
  cleanText (match value with | .null => "" | v => v.text repr) maxLen

def normalizeFields (item : RawFields) (fxToInr : Double) : Option NormalizedService := do
  let ext := cleanValue repr item.externalId 64
  guard (ext ≠ "" ∧ ext.length ≤ maxExternalIdLen ∧ ext.toList.all isIdChar)
  let nm := cleanValue repr item.name maxNameLen
  guard (nm ≠ "")
  let cat := cleanValue repr item.category maxCategoryLen
  let cat := if cat = "" then "Other" else cat
  let rate ← item.rate.toFloat.toOption
  let lo ← item.minQty.toWhole.toOption
  let hi ← item.maxQty.toWhole.toOption
  match rate, fxToInr with
  | .finite rate, .finite fx =>
    guard (0 ≤ rate ∧ rate ≤ maxRatePer1000 ∧ 0 < fx ∧ fx ≤ 10000)
    guard (1 ≤ lo ∧ lo ≤ hi ∧ hi ≤ 1000000000)
    let paise := paiseOf rate fx
    guard (0 < paise)
    let rawType := cleanValue repr item.serviceType 64
    pure {
      externalId := ext
      name := nm
      category := cat
      ratePer1000Paise := paise
      minQty := lo
      maxQty := hi
      serviceType := mapServiceType rawType
      rawType := rawType
      refill := asBool item.refill
      cancel := asBool item.cancel }
  | _, _ => .none

end

theorem toOption_eq_some {ε α : Type} {x : Except ε α} {a : α} : x.toOption = .some a ↔ x = .ok a := by
  cases x <;> simp [Except.toOption]

section

variable {repr : Json → String} {item : RawFields} {fx : Double} {n : NormalizedService}

/-- What accepted values meet, and what they become. -/
theorem normalizeFields_eq_some : normalizeFields repr item fx = .some n ↔ ∃ lo hi rate r,
    item.minQty.toWhole = .ok lo ∧ item.maxQty.toWhole = .ok hi ∧ item.rate.toFloat = .ok (.finite rate) ∧ fx = .finite r ∧
      (cleanValue repr item.externalId 64 ≠ "" ∧ (cleanValue repr item.externalId 64).length ≤ maxExternalIdLen ∧
        (cleanValue repr item.externalId 64).toList.all isIdChar) ∧
      cleanValue repr item.name maxNameLen ≠ "" ∧
      (0 ≤ rate ∧ rate ≤ maxRatePer1000 ∧ 0 < r ∧ r ≤ 10000) ∧ (1 ≤ lo ∧ lo ≤ hi ∧ hi ≤ 1000000000) ∧ 0 < paiseOf rate r ∧
      n = {
        externalId := cleanValue repr item.externalId 64
        name := cleanValue repr item.name maxNameLen
        category :=
          if cleanValue repr item.category maxCategoryLen = "" then "Other" else cleanValue repr item.category maxCategoryLen
        ratePer1000Paise := paiseOf rate r
        minQty := lo
        maxQty := hi
        serviceType := mapServiceType (cleanValue repr item.serviceType 64)
        rawType := cleanValue repr item.serviceType 64
        refill := asBool item.refill
        cancel := asBool item.cancel } := by
  simp only [normalizeFields, Option.bind_eq_bind, Option.bind_eq_some_iff, Option.guard_eq_some', exists_const,
    toOption_eq_some]
  constructor
  · rintro ⟨hid, hname, rate, hrate, lo, hlo, hi, hhi, h⟩
    split at h
    · next rate r =>
      simp only [Option.bind_eq_some_iff, Option.guard_eq_some', exists_const] at h
      obtain ⟨hbounds, hqty, hpaise, h⟩ := h
      exact ⟨lo, hi, rate, r, hlo, hhi, hrate, rfl, hid, hname, hbounds, hqty, hpaise, (Option.some.inj h).symm⟩
    · cases h
  · rintro ⟨lo, hi, rate, r, hlo, hhi, hrate, rfl, hid, hname, hbounds, hqty, hpaise, rfl⟩
    refine ⟨hid, hname, _, hrate, lo, hlo, hi, hhi, ?_⟩
    simp only [Option.bind_eq_some_iff, Option.guard_eq_some', exists_const]
    exact ⟨hbounds, hqty, hpaise, rfl⟩

end

/-! ## One row of a list -/

/-- `int(float(n))`; nothing where it raises. -/
def wholeOf (n : Int) : Option Int := (Json.int n).toWhole.toOption

/-- `normalize_service` of a row that the adapter has converted -/
def normalizeService (item : ProviderService) (fxToInr : Double) : Option NormalizedService := do
  let ext := cleanText item.externalId 64
  guard (ext ≠ "" ∧ ext.length ≤ maxExternalIdLen ∧ ext.toList.all isIdChar)
  let nm := cleanText item.name maxNameLen
  guard (nm ≠ "")
  let cat := cleanText item.category maxCategoryLen
  let cat := if cat = "" then "Other" else cat
  let lo ← wholeOf item.minQty
  let hi ← wholeOf item.maxQty
  match item.rate, fxToInr with
  | .finite rate, .finite fx =>
    guard (0 ≤ rate ∧ rate ≤ maxRatePer1000 ∧ 0 < fx ∧ fx ≤ 10000)
    guard (1 ≤ lo ∧ lo ≤ hi ∧ hi ≤ 1000000000)
    let paise := paiseOf rate fx
    guard (0 < paise)
    let rawType := cleanText item.serviceType 64
    pure {
      externalId := ext
      name := nm
      category := cat
      ratePer1000Paise := paise
      minQty := lo
      maxQty := hi
      serviceType := mapServiceType rawType
      rawType := rawType
      refill := item.refill
      cancel := item.cancel }
  | _, _ => .none

/-- A converted row, as the values it consists of. -/
def ofRow (row : ProviderService) : RawFields where
  externalId := .str row.externalId
  name := .str row.name
  category := .str row.category
  rate := .float row.rate
  minQty := .int row.minQty
  maxQty := .int row.maxQty
  serviceType := .str row.serviceType
  refill := .bool row.refill
  cancel := .bool row.cancel

theorem normalizeFields_ofRow (repr : Json → String) (row : ProviderService) (fx : Double) :
    normalizeFields repr (ofRow row) fx = normalizeService row fx := rfl

/-- What an accepted row meets, and what it becomes. -/
theorem normalizeService_eq_some {item : ProviderService} {fx : Py.Double} {n : NormalizedService} :
    normalizeService item fx = .some n ↔ ∃ lo hi rate r, wholeOf item.minQty = .some lo ∧ wholeOf item.maxQty = .some hi ∧
      item.rate = .finite rate ∧ fx = .finite r ∧
      (cleanText item.externalId 64 ≠ "" ∧ (cleanText item.externalId 64).length ≤ maxExternalIdLen ∧
        (cleanText item.externalId 64).toList.all isIdChar) ∧
      cleanText item.name maxNameLen ≠ "" ∧
      (0 ≤ rate ∧ rate ≤ maxRatePer1000 ∧ 0 < r ∧ r ≤ 10000) ∧ (1 ≤ lo ∧ lo ≤ hi ∧ hi ≤ 1000000000) ∧ 0 < paiseOf rate r ∧
      n = {
        externalId := cleanText item.externalId 64
        name := cleanText item.name maxNameLen
        category :=
          if cleanText item.category maxCategoryLen = "" then "Other" else cleanText item.category maxCategoryLen
        ratePer1000Paise := paiseOf rate r
        minQty := lo
        maxQty := hi
        serviceType := mapServiceType (cleanText item.serviceType 64)
        rawType := cleanText item.serviceType 64
        refill := item.refill
        cancel := item.cancel } := by
  have hwhole {m k : Int} : wholeOf m = .some k ↔ (Json.int m).toWhole = .ok k := toOption_eq_some
  have hrate {x y : Double} : (Json.float x).toFloat = .ok y ↔ x = y := ⟨Except.ok.inj, congrArg _⟩
  simp only [← normalizeFields_ofRow (fun _ => "") item, normalizeFields_eq_some, hwhole]
  simp only [ofRow, hrate]
  rfl

/-! ## The whole list -/

/-- Why a list is not to replace the last trusted one. -/
def looksMalformed (previousCount validCount invalidCount : Nat) : Option String :=
  let total := validCount + invalidCount
  if validCount = 0 then .some "provider returned no valid services"
  else if 10 ≤ total ∧ nearest (3 / 10) < nearest (invalidCount / total) then
    .some s!"{invalidCount}/{total} provider rows failed validation"
  else if 20 ≤ previousCount ∧ (validCount : Rat) < nearest previousCount / 2 then
    .some s!"service count dropped from {previousCount} to {validCount}"
  else .none

example : (looksMalformed 0 6 4).isSome ∧ looksMalformed 100 95 2 = .none ∧ looksMalformed 0 5 0 = .none := by
  decide +kernel

end Falaron.Sync
