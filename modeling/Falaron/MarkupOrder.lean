/-
The order in which a markup is looked for: as documented, by the service, its
category, its provider, the most recent active global rule, and 20 per cent
in the end.

The code has no level for the provider, of which it is told nothing but the
rate and the currency, takes a category number of 0 for none, and asks the
table for the one active rule, which fails where there are two.
`markup_as_documented_iff` says for which tables nothing of this shows. The
provider's percentage is a parameter.
-/
import Falaron.PriceLaws

namespace Falaron.Core

open Py (Decimal)

section

variable (db : Db) (pricing : ServicePricing) (providerPct : Option Int)

def Db.activeGlobalRules : List PricingRule := db.pricingRules.filter fun r => r.isGlobal && r.isActive

/-- The percentage that is first in the documented order. -/
def documentedPct : Decimal :=
  match (pricing.profitPct.or (db.categoryProfit pricing.categoryId)).or providerPct with
  | some pct => money pct
  | none => (db.activeGlobalRules.maxOn? (·.id)).elim ⟨20, 0⟩ fun rule => .ofNumeric 6 rule.value

/-- The markup is found, it is the documented one, and it is what every price but a custom one is made with. -/
structure MarkupAsDocumented : Prop where
  resolves : ∃ markup minMargin scope, resolveMarkup db pricing = .ok (markup, minMargin, scope) ∧
    markup.val = (documentedPct db pricing providerPct).val
  applied : ∀ (s : Sale) d r, s.db = db → s.pricing = pricing → s.price d = .ok r → r.customPriceUsed = false →
    r.appliedPct.val = (documentedPct db pricing providerPct).val

/-- The level that is found before the rules are asked. -/
def ownPct : Option Int :=
  pricing.profitPct.or (if pricing.categoryId ≠ 0 then db.categoryProfit pricing.categoryId else none)

/-- The level that is passed over: a category numbered 0, or else the provider. -/
def passedOver : Option Int := (db.categoryProfit pricing.categoryId).or providerPct

/-- What the rules give, if they give one answer. -/
def rulePct : Decimal := db.activeGlobalRules.head?.elim ⟨20, 0⟩ fun rule => .ofNumeric 6 rule.value

end

section

variable {db : Db} {pricing : ServicePricing} {providerPct : Option Int}

theorem resolveMarkup_own {pct : Int} (h : ownPct db pricing = some pct) :
    ∃ scope, resolveMarkup db pricing = .ok (money pct, defaultMinMargin, scope) := by
  unfold ownPct at h
  unfold resolveMarkup
  cases hservice : pricing.profitPct with
  | some own =>
    rw [hservice] at h
    cases h
    exact ⟨_, rfl⟩
  | none =>
    rw [hservice, Option.none_or] at h
    simp only [h]
    exact ⟨_, rfl⟩

/-- With no level of its own a service has its markup by the one active rule, or none. -/
theorem resolveMarkup_rule (h : ownPct db pricing = none) :
    (db.activeGlobalRules.length ≤ 1 ∧ ∃ minMargin scope,
      resolveMarkup db pricing = .ok (rulePct db, minMargin, scope)) ∨
    1 < db.activeGlobalRules.length ∧ ∃ e, resolveMarkup db pricing = .error e := by
  obtain ⟨hservice, hcategory⟩ := Option.or_eq_none_iff.mp h
  unfold resolveMarkup rulePct Db.activeGlobalRules
  simp only [hservice, hcategory]
  cases db.pricingRules.filter fun r => r.isGlobal && r.isActive with
  | nil => exact .inl ⟨Nat.zero_le 1, _, _, rfl⟩
  | cons rule rest =>
    cases rest with
    | nil => exact .inl ⟨le_rfl, _, _, rfl⟩
    | cons rule' rest => exact .inr ⟨by simp, _, rfl⟩

/-- A single rule is the most recent one. -/
theorem documentedPct_rule (hservice : pricing.profitPct = none) (hover : passedOver db pricing providerPct = none)
    (h : db.activeGlobalRules.length ≤ 1) : documentedPct db pricing providerPct = rulePct db := by
  have hnone : (pricing.profitPct.or (db.categoryProfit pricing.categoryId)).or providerPct = none := by
    rw [hservice, Option.none_or]
    exact hover
  unfold documentedPct rulePct
  rw [hnone]
  match db.activeGlobalRules, h with
  | [], _ => rfl
  | [rule], _ => rfl

theorem documentedPct_over {pct : Int} (hservice : pricing.profitPct = none)
    (hover : passedOver db pricing providerPct = some pct) : documentedPct db pricing providerPct = money pct := by
  have hsome : (pricing.profitPct.or (db.categoryProfit pricing.categoryId)).or providerPct = some pct := by
    rw [hservice, Option.none_or]
    exact hover
  rw [documentedPct, hsome]

theorem documentedPct_own {pct : Int} (h : ownPct db pricing = some pct) :
    documentedPct db pricing providerPct = money pct := by
  have hsome : (pricing.profitPct.or (db.categoryProfit pricing.categoryId)).or providerPct = some pct := by
    unfold ownPct at h
    cases hservice : pricing.profitPct with
    | some own =>
      rw [hservice] at h
      exact h
    | none =>
      rw [hservice, Option.none_or] at h
      split at h
      · rw [Option.none_or, h]
        rfl
      · cases h
  rw [documentedPct, hsome]

/-- A price that is not a custom one applies what the rules resolve to. -/
theorem Sale.applied_eq {s : Sale} {d : Discounts} {r : PriceBreakdown} {markup minMargin : Decimal} {scope : String}
    (hmarkup : resolveMarkup s.db s.pricing = .ok (markup, minMargin, scope)) (h : s.price d = .ok r)
    (hcustom : r.customPriceUsed = false) : r.appliedPct = markup := by
  obtain ⟨t, ht⟩ := Sale.has_of_price h hcustom
  obtain ⟨q, -, rfl⟩ := ht.price_ok.mp h
  have heq := Except.ok.inj (ht.markup.symm.trans hmarkup)
  exact congrArg Prod.fst heq

theorem markupAsDocumented_iff : MarkupAsDocumented db pricing providerPct ↔
    ∃ markup minMargin scope, resolveMarkup db pricing = .ok (markup, minMargin, scope) ∧
      markup.val = (documentedPct db pricing providerPct).val := by
  refine ⟨fun h => h.resolves, fun h => ⟨h, ?_⟩⟩
  rintro s d r rfl rfl hr hcustom
  obtain ⟨markup, minMargin, scope, hmarkup, hval⟩ := h
  rw [Sale.applied_eq hmarkup hr hcustom, hval]

/-- **The markup is the documented one,** and found without an error, exactly
where the service has one or is in a category that does, numbered other than
0; or where no more than one global rule is active, and a level that is
passed over, if it is set, says what that rule says, or 20 without one. -/
theorem markup_as_documented_iff (db : Db) (pricing : ServicePricing) (providerPct : Option Int) :
    MarkupAsDocumented db pricing providerPct ↔
      (ownPct db pricing).isSome = true ∨
        db.activeGlobalRules.length ≤ 1 ∧
          ∀ pct, passedOver db pricing providerPct = some pct → (money pct).val = (rulePct db).val := by
  rw [markupAsDocumented_iff]
  cases hown : ownPct db pricing with
  | some pct =>
    obtain ⟨scope, hresolve⟩ := resolveMarkup_own hown
    refine ⟨fun _ => .inl rfl, fun _ => ⟨_, _, _, hresolve, ?_⟩⟩
    rw [documentedPct_own hown]
  | none =>
    have hservice := (Option.or_eq_none_iff.mp hown).1
    rcases resolveMarkup_rule hown with ⟨hfew, minMargin, scope, hresolve⟩ | ⟨hmany, e, hresolve⟩
    · constructor
      · rintro ⟨_, _, _, hok, hval⟩
        cases hresolve.symm.trans hok
        refine .inr ⟨hfew, fun pct hover => ?_⟩
        rw [hval, documentedPct_over hservice hover]
      · rintro (hsome | ⟨-, hagree⟩)
        · cases hsome
        · refine ⟨_, _, _, hresolve, ?_⟩
          cases hover : passedOver db pricing providerPct with
          | none => rw [documentedPct_rule hservice hover hfew]
          | some pct => rw [documentedPct_over hservice hover, hagree pct hover]
    · constructor
      · rintro ⟨_, _, _, hok, _⟩
        cases hresolve.symm.trans hok
      · rintro (hsome | ⟨hfew, _⟩)
        · cases hsome
        · omega

end

/-! ## Tables that show it -/

def globalRule (id value : Int) : PricingRule := ⟨id, true, value, 50000, true⟩

/-- A provider's markup of a half is not applied, and under two active rules nothing is. -/
theorem markup_not_documented :
    ¬ MarkupAsDocumented {} {} (some 500000) ∧
    ¬ MarkupAsDocumented { pricingRules := [globalRule 1 20000000, globalRule 2 25000000] } {} none := by
  constructor
  · rintro ⟨⟨_, _, _, hok, hval⟩, -⟩
    cases hok
    exact absurd hval (by decide +kernel)
  · rintro ⟨⟨_, _, _, hok, -⟩, -⟩
    cases hok

end Falaron.Core
