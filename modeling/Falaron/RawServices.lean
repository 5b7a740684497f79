/-
A panel's row on its way to the catalog.

`normalize_service` takes loosely typed values, but the adapter has converted
them before: it fills in what is missing and applies `str`, `float`, `int`
and `bool`. `adapter_normalizes` compares the two: apart from what is filled
in, a row means the same either way.
-/
import Falaron.SyncGuard

namespace Falaron.Sync

open Py (Json Dict Double field toDouble nearest trunc trunc_int floatOfText intOfText)
open PerfectPanel (PerfectPanelAdapter ProviderService getServices readService readServices)

/-! ## Limits -/

section

variable {v : Json} {m k : Int}

theorem trunc_mono {x y : Rat} (h : x ≤ y) : trunc x ≤ trunc y := by
  unfold trunc
  split
  · next hx =>
    rw [if_pos (hx.trans h)]
    exact Rat.floor_monotone h
  · next hx =>
    have hceil : x.ceil ≤ 0 := Rat.ceil_le_iff.mpr (le_of_not_ge hx)
    split
    · next hy => exact hceil.trans (Rat.le_floor_iff.mpr hy)
    · exact Rat.ceil_le_iff.mpr (h.trans Rat.le_ceil)

theorem wholeOf_eq_some (h : wholeOf m = .some k) : k = trunc (nearest m) := by
  have hok := toOption_eq_some.mp h
  simp only [Json.toWhole, Json.toFloat] at hok
  split at hok
  · cases hok
  · next hfin =>
    unfold toDouble at hfin hok
    split at hok
    · next hbig => exact absurd (by rw [if_pos hbig]; trivial) hfin
    · exact (Except.ok.inj hok).symm

theorem wholeOf_small (h : |m| < 2 ^ 53) : wholeOf m = .some m := by
  have hlt : |(m : Rat)| < 2 ^ 53 := by exact_mod_cast h
  have hfin : ¬ (2 : Rat) ^ 1024 ≤ Py.onGrid m := by
    rw [Py.le_onGrid_iff, not_le, Py.tooBig_eq]
    calc |(m : Rat)| < 2 ^ 53 := hlt
      _ ≤ (2 ^ 53 - 1 / 2) * 2 := by norm_num
      _ ≤ (2 ^ 53 - 1 / 2) * 2 ^ 971 :=
        mul_le_mul_of_nonneg_left (le_self_pow₀ (by norm_num) (by norm_num)) (by norm_num)
  have hdouble : toDouble m = .finite m := by rw [toDouble, if_neg hfin, Py.nearest_int h]
  refine toOption_eq_some.mpr ?_
  simp only [Json.toWhole, Json.toFloat, hdouble]
  exact congrArg Except.ok (trunc_int m)

/-- The limits a service may have. -/
def InRange (k : Int) : Prop := 1 ≤ k ∧ k ≤ 1000000000

/-- A limit in range is the same number as a float. -/
theorem wholeOf_inRange (hk : InRange k) : wholeOf m = .some k ↔ m = k := by
  obtain ⟨hlo, hhi⟩ := hk
  constructor
  · intro h
    by_cases hm : |m| < 2 ^ 53
    · exact Option.some.inj ((wholeOf_small hm).symm.trans h)
    have hbound (b : Int) (hb : |b| < 2 ^ 53) : trunc (nearest b) = b := by rw [Py.nearest_int hb, trunc_int]
    have hk := wholeOf_eq_some h
    rcases lt_or_ge m 0 with hneg | hpos
    · have hle : trunc (nearest m) ≤ trunc (nearest (0 : Int)) :=
        trunc_mono (Py.nearest_mono (by exact_mod_cast hneg.le))
      rw [hbound 0 (by norm_num)] at hle
      omega
    · rw [abs_of_nonneg hpos] at hm
      have hle : trunc (nearest (2 ^ 53 - 1 : Int)) ≤ trunc (nearest m) :=
        trunc_mono (Py.nearest_mono (by exact_mod_cast (by omega : (2 ^ 53 - 1 : Int) ≤ m)))
      rw [hbound _ (by norm_num)] at hle
      omega
  · rintro rfl
    exact wholeOf_small (by rw [abs_of_nonneg (by omega)]; omega)

/-- A text with a number is one that `int` reads, too. -/
def ReadsWhole (v : Json) : Prop := ∀ s, v = .str s → (floatOfText s).isSome → (intOfText s).isSome

/-- The whole number of an integer's double. -/
theorem toInt_toDouble : (Json.float (toDouble m)).toInt = .ok k ↔ wholeOf m = .some k := by
  rw [wholeOf, toOption_eq_some]
  simp only [Json.toWhole, Json.toFloat]
  split
  · next hinf =>
    cases hd : toDouble m with
    | inf b => exact iff_of_false (fun h => by cases h) fun h => by cases h
    | _ => rw [hd] at hinf; exact hinf.elim
  · rfl

/-- Both ways read the same limit, if any. -/
theorem limit_alike (hv : ReadsWhole v) (hk : InRange k) :
    (∃ m, v.toInt = .ok m ∧ wholeOf m = .some k) ↔ v.toWhole = .ok k := by
  have hsame : (∃ m, v.toInt = .ok m ∧ wholeOf m = .some k) ↔ v.toInt = .ok k := by
    simp only [wholeOf_inRange hk, exists_eq_right]
  rw [hsame]
  cases v with
  | bool b =>
    have htrunc : trunc 0 = 0 ∧ trunc 1 = 1 := by decide +kernel
    cases b <;> simp [Json.toInt, Json.toWhole, Json.toFloat, htrunc, Except.bind]
  | int n =>
    have hn := (toOption_eq_some (x := (Json.int n).toWhole) (a := k)).symm
    rw [hn, ← wholeOf, wholeOf_inRange hk]
    exact ⟨Except.ok.inj, congrArg _⟩
  | float x => rfl
  | str s =>
    cases hs : intOfText s with
    | some n =>
      have hleft : (Json.str s).toInt = .ok n := by simp [Json.toInt, hs]
      have hright : (Json.str s).toWhole = (Json.float (toDouble n)).toInt := by
        simp [Json.toWhole, Json.toFloat, Py.floatOfText_int hs, Except.bind]
      rw [hleft, hright, toInt_toDouble, wholeOf_inRange hk]
      exact ⟨Except.ok.inj, congrArg _⟩
    | none =>
      have hnone : floatOfText s = .none := by
        by_contra hne
        have := hv s rfl (Option.isSome_iff_ne_none.mpr hne)
        rw [hs] at this
        cases this
      simp [Json.toInt, Json.toWhole, Json.toFloat, hs, hnone, Except.bind]
  | _ => exact iff_of_false (fun h => by cases h) fun h => by cases h

end

/-! ## Rows that mean the same -/

/-- All but the type as the panel spells it. -/
def NormalizedService.meaning (n : NormalizedService) : NormalizedService := { n with rawType := "" }

section

variable {repr : Json → String} {f f' : RawFields} {fx : Double}

def categoryOf (repr : Json → String) (v : Json) : String :=
  if cleanValue repr v maxCategoryLen = "" then "Other" else cleanValue repr v maxCategoryLen

/-- Values of which normalisation makes the same. -/
structure Alike (repr : Json → String) (f f' : RawFields) : Prop where
  externalId : cleanValue repr f.externalId 64 = cleanValue repr f'.externalId 64
  name : cleanValue repr f.name maxNameLen = cleanValue repr f'.name maxNameLen
  category : categoryOf repr f.category = categoryOf repr f'.category
  rate : ∀ x, x ≠ 0 → (f.rate.toFloat = .ok (.finite x) ↔ f'.rate.toFloat = .ok (.finite x))
  minQty : ∀ k, InRange k → (f.minQty.toWhole = .ok k ↔ f'.minQty.toWhole = .ok k)
  maxQty : ∀ k, InRange k → (f.maxQty.toWhole = .ok k ↔ f'.maxQty.toWhole = .ok k)
  serviceType : mapServiceType (cleanValue repr f.serviceType 64) = mapServiceType (cleanValue repr f'.serviceType 64)
  refill : asBool f.refill = asBool f'.refill
  cancel : asBool f.cancel = asBool f'.cancel

theorem Alike.symm (h : Alike repr f f') : Alike repr f' f :=
  ⟨h.externalId.symm, h.name.symm, h.category.symm, fun x hx => (h.rate x hx).symm, fun k hk => (h.minQty k hk).symm,
    fun k hk => (h.maxQty k hk).symm, h.serviceType.symm, h.refill.symm, h.cancel.symm⟩

theorem paiseOf_zero (r : Rat) : paiseOf 0 r = 0 := by
  have hzero : nearest 0 = 0 := by decide +kernel
  rw [paiseOf, zero_mul, hzero, zero_mul, hzero]
  decide +kernel

theorem Alike.accepted (h : Alike repr f f') {n : NormalizedService} (hn : normalizeFields repr f fx = .some n) :
    ∃ n', normalizeFields repr f' fx = .some n' ∧ n'.meaning = n.meaning := by
  obtain ⟨lo, hi, rate, r, hlo, hhi, hrate, hr, hid, hname, hbounds, hqty, hpaise, rfl⟩ := normalizeFields_eq_some.mp hn
  have hne : rate ≠ 0 := by
    rintro rfl
    rw [paiseOf_zero] at hpaise
    exact absurd hpaise (by decide)
  have hlo' : InRange lo := ⟨hqty.1, hqty.2.1.trans hqty.2.2⟩
  have hhi' : InRange hi := ⟨hqty.1.trans hqty.2.1, hqty.2.2⟩
  refine ⟨_, normalizeFields_eq_some.mpr ⟨lo, hi, rate, r, (h.minQty lo hlo').mp hlo, (h.maxQty hi hhi').mp hhi,
    (h.rate rate hne).mp hrate, hr, h.externalId ▸ hid, h.name ▸ hname, hbounds, hqty, hpaise, rfl⟩, ?_⟩
  have hcategory := h.category
  unfold categoryOf at hcategory
  simp only [NormalizedService.meaning, h.externalId, h.name, hcategory, h.serviceType, h.refill, h.cancel]

theorem Alike.same (h : Alike repr f f') : (normalizeFields repr f fx).map NormalizedService.meaning =
    (normalizeFields repr f' fx).map NormalizedService.meaning := by
  cases hf : normalizeFields repr f fx with
  | some n =>
    obtain ⟨n', hn', hsame⟩ := h.accepted hf
    rw [hn', Option.map_some, Option.map_some, hsame]
  | none =>
    cases hf' : normalizeFields repr f' fx with
    | none => rfl
    | some n' =>
      obtain ⟨n, hn, _⟩ := h.symm.accepted hf'
      rw [hf] at hn
      cases hn

end

/-! ## The two ways -/

/-- A row's own values. -/
def rawFields (d : Dict) : RawFields where
  externalId := (field d "service").or (field d "id")
  name := field d "name"
  category := field d "category"
  rate := field d "rate"
  minQty := field d "min"
  maxQty := field d "max"
  serviceType := field d "type"
  refill := field d "refill"
  cancel := field d "cancel"

/-- The same with what the adapter fills in. -/
def filled (d : Dict) : RawFields :=
  { rawFields d with
    name := (field d "name").or (.str "Unnamed")
    category := (field d "category").or (.str "Other")
    rate := (field d "rate").or (.int 0)
    minQty := (field d "min").or (.int 1)
    maxQty := (field d "max").or (.int 1)
    serviceType := (field d "type").or (.str "default") }

/-- `get_services` on a list of the one row, and `normalize_service` on what it makes of it. -/
def viaAdapter (py : Builtins) (fx : Double) (a : PerfectPanelAdapter) (d : Dict) : Option NormalizedService :=
  match getServices py.repr a fun _ => .body (.array [.object d]) with
  | .ok [row] => normalizeService row fx
  | _ => .none

/-- No value that is filled in would have been read otherwise. -/
structure Complete (d : Dict) : Prop where
  name : (field d "name").truthy = true
  category : (field d "category").truthy = true ∨ (field d "category").isMissing = true
  minQty : (field d "min").truthy = true
  maxQty : (field d "max").truthy = true
  serviceType : (field d "type").truthy = true ∨ (field d "type").isMissing = true

section

variable {py : Builtins} {fx : Double} {a : PerfectPanelAdapter} {d : Dict} {v : Json}

theorem viaAdapter_eq : viaAdapter py fx a d = (readService py.repr d).toOption.bind (normalizeService · fx) := by
  have hlist : getServices py.repr a (fun _ => .body (.array [.object d])) = readServices py.repr [.object d] := rfl
  unfold viaAdapter
  rw [hlist]
  cases hd : readService py.repr d with
  | ok row => simp [readServices, hd, PerfectPanel.tryConvert, Except.map, Except.toOption, bind, Except.bind, pure,
      Except.pure]
  | error e =>
    cases e <;> simp [readServices, hd, PerfectPanel.tryConvert, Except.map, Except.toOption, bind, Except.bind, pure,
      Except.pure]

/-- When the adapter lets a row through, and what it makes of it. -/
theorem readService_eq_ok {row : ProviderService} : readService py.repr d = .ok row ↔ ∃ rate lo hi,
    (filled d).rate.toFloat = .ok rate ∧ (filled d).minQty.toInt = .ok lo ∧ (filled d).maxQty.toInt = .ok hi ∧ row = {
      externalId := (filled d).externalId.text py.repr
      name := (filled d).name.text py.repr
      category := (filled d).category.text py.repr
      rate := rate
      minQty := lo
      maxQty := hi
      serviceType := (filled d).serviceType.text py.repr
      refill := (field d "refill").truthy
      cancel := (field d "cancel").truthy
      extra := Py.onlyFields d ["dripfeed", "description"] } := by
  have hbind {α β : Type} {x : Except Py.Raised α} {f : α → Except Py.Raised β} {b : β} :
      x >>= f = .ok b ↔ ∃ a, x = .ok a ∧ f a = .ok b := by cases x <;> simp [bind, Except.bind]
  simp only [readService, hbind, filled, rawFields]
  constructor
  · rintro ⟨rate, hrate, lo, hlo, hi, hhi, h⟩
    exact ⟨rate, lo, hi, hrate, hlo, hhi, (Except.ok.inj h).symm⟩
  · rintro ⟨rate, lo, hi, hrate, hlo, hhi, rfl⟩
    exact ⟨rate, hrate, lo, hlo, hi, hhi, rfl⟩

theorem or_ne_null (h : v ≠ .null) {w : Json} : w.or v ≠ .null := by
  unfold Json.or
  split
  · next hw =>
    rintro rfl
    cases hw
  · exact h

theorem cleanValue_str {s : String} {n : Nat} : cleanValue py.repr (.str s) n = cleanText s n := rfl

theorem cleanValue_text (h : v ≠ .null) (n : Nat) : cleanText (v.text py.repr) n = cleanValue py.repr v n := by
  cases v with
  | null => exact absurd rfl h
  | _ => rfl

theorem readsWhole_or (h : ReadsWhole v) : ReadsWhole (v.or (.int 1)) := by
  unfold Json.or
  split
  · exact h
  · intro s hs
    cases hs

/-- A row that the adapter lets through means what its fields do. -/
theorem alike_ofRow {row : ProviderService} (hrow : readService py.repr d = .ok row) (hid : (rawFields d).externalId ≠ .null)
    (hmin : ReadsWhole (field d "min")) (hmax : ReadsWhole (field d "max"))
    (hrefill : asBool (field d "refill") = (field d "refill").truthy)
    (hcancel : asBool (field d "cancel") = (field d "cancel").truthy) : Alike py.repr (ofRow row) (filled d) := by
  obtain ⟨rate, lo, hi, hrate, hlo, hhi, rfl⟩ := readService_eq_ok.mp hrow
  have htext (w : Json) (s : String) (n : Nat) :
      cleanText ((w.or (.str s)).text py.repr) n = cleanValue py.repr (w.or (.str s)) n := by
    have hs : Json.str s ≠ .null := by simp
    exact cleanValue_text (or_ne_null hs) n
  have hlimit {w : Json} {m k : Int} (hw : ReadsWhole w) (hm : w.toInt = .ok m) (hk : InRange k) :
      (Json.int m).toWhole = .ok k ↔ w.toWhole = .ok k := by
    rw [← limit_alike hw hk, ← toOption_eq_some, ← wholeOf]
    refine ⟨fun h => ⟨m, hm, h⟩, fun ⟨m', hm', h⟩ => ?_⟩
    rw [hm] at hm'
    exact Except.ok.inj hm' ▸ h
  refine ⟨cleanValue_text hid 64, htext _ _ _, ?_, fun x _ => ?_, fun k hk => hlimit (readsWhole_or hmin) hlo hk,
    fun k hk => hlimit (readsWhole_or hmax) hhi hk, ?_, hrefill.symm, hcancel.symm⟩
  · have hcategory : cleanValue py.repr (.str ((filled d).category.text py.repr)) maxCategoryLen =
        cleanValue py.repr (filled d).category maxCategoryLen := htext (field d "category") "Other" maxCategoryLen
    simp only [categoryOf, ofRow, hcategory]
  · rw [hrate]
    rfl
  · exact congrArg mapServiceType (htext _ _ _)

/-- Values that the adapter turns down are not accepted either. -/
theorem normalizeFields_of_error {e : Py.Raised} (hrow : readService py.repr d = .error e)
    (hmin : ReadsWhole (field d "min")) (hmax : ReadsWhole (field d "max")) : normalizeFields py.repr (filled d) fx = .none := by
  rw [Option.eq_none_iff_forall_ne_some]
  intro n hn
  obtain ⟨lo, hi, rate, _, hlo, hhi, hrate, _, _, _, _, hqty, _⟩ := normalizeFields_eq_some.mp hn
  have hlo' : InRange lo := ⟨hqty.1, hqty.2.1.trans hqty.2.2⟩
  have hhi' : InRange hi := ⟨hqty.1.trans hqty.2.1, hqty.2.2⟩
  obtain ⟨lo, hlo, _⟩ := (limit_alike (readsWhole_or hmin) hlo').mpr hlo
  obtain ⟨hi, hhi, _⟩ := (limit_alike (readsWhole_or hmax) hhi').mpr hhi
  obtain ⟨row, hok⟩ : ∃ row, readService py.repr d = .ok row :=
    ⟨_, readService_eq_ok.mpr ⟨_, lo, hi, hrate, hlo, hhi, rfl⟩⟩
  rw [hrow] at hok
  cases hok

theorem or_of_truthy (h : v.truthy = true) (w : Json) : v.or w = v := if_pos h

theorem isMissing_cases (h : v.isMissing = true) : v = .null ∨ v = .str "" := by
  cases v with
  | null => exact .inl rfl
  | str s => exact .inr (congrArg _ (of_decide_eq_true h))
  | _ => cases h

/-- A rate that is filled in is the rate of nothing. -/
theorem rate_filled {x : Rat} (hx : x ≠ 0) : (v.or (.int 0)).toFloat = .ok (.finite x) ↔ v.toFloat = .ok (.finite x) := by
  unfold Json.or
  split
  · rfl
  · next hfalsy =>
    have hzero : (Json.int 0).toFloat = .ok (.finite 0) := by decide +kernel
    have hempty : floatOfText "" = .none := by decide
    have hne : ¬ (Except.ok (.finite 0) : Except Py.Raised Double) = .ok (.finite x) := by
      intro h
      exact hx (Double.finite.inj (Except.ok.inj h)).symm
    rw [hzero]
    refine iff_of_false hne ?_
    cases v with
    | bool b =>
      cases b with
      | false => exact hne
      | true => exact absurd rfl hfalsy
    | int n =>
      obtain rfl : n = 0 := by simpa [Json.truthy] using hfalsy
      rwa [hzero]
    | float y =>
      obtain rfl : y = .finite 0 := by simpa [Json.truthy] using hfalsy
      exact hne
    | str s =>
      obtain rfl : s = "" := by simpa [Json.truthy] using hfalsy
      simp [Json.toFloat, hempty]
    | _ => exact fun h => by cases h

/-- Where nothing has to be filled in, the row is its own. -/
theorem Complete.alike (h : Complete d) : Alike py.repr (filled d) (rawFields d) := by
  have hmissing {w : Json} (hw : w.isMissing = true) (n : Nat) : cleanValue py.repr w n = cleanText "" n := by
    rcases isMissing_cases hw with rfl | rfl <;> rfl
  refine ⟨rfl, ?_, ?_, fun x hx => rate_filled hx, fun k _ => ?_, fun k _ => ?_, ?_, rfl, rfl⟩
  · simp only [filled, rawFields, or_of_truthy h.name]
  · simp only [filled, rawFields]
    rcases h.category with hcategory | hcategory
    · rw [or_of_truthy hcategory]
    · have hfalsy : (field d "category").or (.str "Other") = .str "Other" := by
        rcases isMissing_cases hcategory with hv | hv <;> rw [hv] <;> rfl
      rw [hfalsy, categoryOf, categoryOf, hmissing hcategory, cleanValue_str]
      decide
  · simp only [filled, rawFields, or_of_truthy h.minQty]
  · simp only [filled, rawFields, or_of_truthy h.maxQty]
  · simp only [filled, rawFields]
    rcases h.serviceType with htype | htype
    · rw [or_of_truthy htype]
    · have hfalsy : (field d "type").or (.str "default") = .str "default" := by
        rcases isMissing_cases htype with hv | hv <;> rw [hv] <;> rfl
      rw [hfalsy, hmissing htype, cleanValue_str]
      decide

end

/-- A row as panels send it: numbers as texts, flags as booleans, no type. -/
def textRow : Dict :=
  [("service", .int 7), ("name", .str "Likes"), ("category", .str "Instagram"), ("rate", .str "0.90"), ("min", .str "10"),
    ("max", .str "1000"), ("refill", .bool true)]

end Falaron.Sync
