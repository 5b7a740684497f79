/-
The changes a provider sync finds in a service.

An incoming row is compared with the raw dict that was stored with the
service, and what differs is written to the columns. The category is
normalised and stored with the others when a service is new, but it is not
among what is compared: a service that moves to another category is reported
as unchanged and keeps its old one. `foundInFull_iff` says which changes are
found in full; for the rows that syncs store it comes down to the category,
and to rates that are no numbers (`InStep.foundInFull_iff`).

A row without its raw dict counts as new. The dict is what the code reads as
`stored.raw`, which the model of the table does not declare. Numbers are
compared by their value, and how `str` writes floats, lists and objects is a
parameter.
-/
import Falaron.Py.Json
import Falaron.Py.DecimalText

namespace Falaron.ProviderSync

open Py (Json Dict field hasField)

/-! ## Rates -/

/-- A `Decimal` by its value. -/
inductive Rate where
  | finite (x : Rat)
  | infinite (negative : Bool)
  | nan
  | signalling
  deriving DecidableEq, Repr

inductive Failure where
  /-- `decimal.InvalidOperation` -/
  | invalidOperation
  | raised (e : Py.Raised)
  deriving DecidableEq, Repr

namespace Rate

/-- `Decimal(s)` -/
def ofText (s : String) : Except Failure Rate :=
  match Py.decimalOfText s with
  | none => .error .invalidOperation
  | some (.finite x) => .ok (.finite x)
  | some .infinite => .ok (.infinite (Py.readSign (Py.stripBlanks (s.toList.map Py.plain))).1)
  | some .nan => .ok .nan
  | some .signalling => .ok .signalling

def isNan : Rate → Bool
  | nan => true
  | _ => false

def isSignalling : Rate → Bool
  | signalling => true
  | _ => false

end Rate

/-! ## Services -/

/-- The columns a sync compares and updates. -/
inductive ServiceField where
  | name | rate | minQty | maxQty | refill | cancel | dripFeed
  deriving DecidableEq, Repr

namespace ServiceField

def Value : ServiceField → Type
  | name => String
  | rate => Rate
  | minQty | maxQty => Int
  | refill | cancel | dripFeed => Bool

instance : (f : ServiceField) → DecidableEq f.Value
  | name => inferInstanceAs (DecidableEq String)
  | rate => inferInstanceAs (DecidableEq Rate)
  | minQty | maxQty => inferInstanceAs (DecidableEq Int)
  | refill | cancel | dripFeed => inferInstanceAs (DecidableEq Bool)

/-- In the order they are compared in. -/
def all : List ServiceField := [name, rate, minQty, maxQty, refill, cancel, dripFeed]

/-- A value that differs from itself. -/
def isNan : (f : ServiceField) → f.Value → Bool
  | rate, a => Rate.isNan a
  | _, _ => false

/-- A value that cannot be compared. -/
def isSignalling : (f : ServiceField) → f.Value → Bool
  | rate, a => Rate.isSignalling a
  | _, _ => false

def changed (f : ServiceField) (old new : f.Value) : Bool := f.isNan old || old ≠ new

/-- `old != new` -/
def differ (f : ServiceField) (old new : f.Value) : Except Failure Bool :=
  if f.isSignalling old || f.isSignalling new then .error .invalidOperation else .ok (f.changed old new)

theorem changed_eq_false {f : ServiceField} {a b : f.Value} : f.changed a b = false ↔ f.isNan a = false ∧ a = b := by
  simp [changed]

end ServiceField

/-- What a sync stores of a service, apart from its raw dict. -/
structure Columns where
  providerSvcId : String
  rawName : String
  category : String
  rate : Rate
  minQty : Int
  maxQty : Int
  refill : Bool
  cancel : Bool
  dripFeed : Bool
  deriving DecidableEq, Repr

namespace Columns

def get (c : Columns) : (f : ServiceField) → f.Value
  | .name => c.rawName
  | .rate => c.rate
  | .minQty => c.minQty
  | .maxQty => c.maxQty
  | .refill => c.refill
  | .cancel => c.cancel
  | .dripFeed => c.dripFeed

def set (c : Columns) : (f : ServiceField) → f.Value → Columns
  | .name, v => { c with rawName := v }
  | .rate, v => { c with rate := v }
  | .minQty, v => { c with minQty := v }
  | .maxQty, v => { c with maxQty := v }
  | .refill, v => { c with refill := v }
  | .cancel, v => { c with cancel := v }
  | .dripFeed, v => { c with dripFeed := v }

variable (c : Columns) (f g : ServiceField) (v : f.Value)

@[simp] theorem get_set : (c.set f v).get f = v := by cases f <;> rfl

theorem get_set_ne (h : g ≠ f) : (c.set f v).get g = c.get g := by
  cases f <;> cases g <;> first | rfl | exact absurd rfl h

@[simp] theorem category_set : (c.set f v).category = c.category := by cases f <;> rfl

@[simp] theorem providerSvcId_set : (c.set f v).providerSvcId = c.providerSvcId := by cases f <;> rfl

/-- What only the rate may have, no column has if the rate has not. -/
theorem only_rate {p : (f : ServiceField) → f.Value → Bool} (hp : ∀ f, f ≠ .rate → ∀ v, p f v = false) :
    (∀ f, p f (c.get f) = false) ↔ p .rate c.rate = false := by
  constructor
  · intro h
    exact h .rate
  · intro h f
    by_cases hf : f = .rate
    · subst hf
      exact h
    · exact hp f hf _

theorem isNan_iff : (∀ f : ServiceField, f.isNan (c.get f) = false) ↔ c.rate ≠ .nan := by
  rw [only_rate c fun f hf v => by cases f <;> first | rfl | exact absurd rfl hf]
  show c.rate.isNan = false ↔ _
  cases c.rate <;> simp [Rate.isNan]

theorem isSignalling_iff : (∀ f : ServiceField, f.isSignalling (c.get f) = false) ↔ c.rate ≠ .signalling := by
  rw [only_rate c fun f hf v => by cases f <;> first | rfl | exact absurd rfl hf]
  show c.rate.isSignalling = false ↔ _
  cases c.rate <;> simp [Rate.isSignalling]

/-- Two rows are the same if they have the same id, category and compared columns. -/
theorem eq_iff {a b : Columns} :
    a = b ↔ a.providerSvcId = b.providerSvcId ∧ a.category = b.category ∧ ∀ f, a.get f = b.get f := by
  constructor
  · intro h
    exact ⟨congrArg _ h, congrArg _ h, fun f => congrArg (·.get f) h⟩
  · intro ⟨hid, hcategory, hget⟩
    cases a
    cases b
    obtain rfl := hid
    obtain rfl := hcategory
    obtain rfl : _ = _ := hget .name
    obtain rfl : _ = _ := hget .rate
    obtain rfl : _ = _ := hget .minQty
    obtain rfl : _ = _ := hget .maxQty
    obtain rfl : _ = _ := hget .refill
    obtain rfl : _ = _ := hget .cancel
    obtain rfl : _ = _ := hget .dripFeed
    rfl

end Columns

structure NormalizedService where
  columns : Columns
  raw : Dict

/-- A row of `provider_services`, with the raw dict it was stored with. -/
structure StoredService where
  columns : Columns
  raw : Option Dict

/-- `d.get(key, default)` -/
def getOr (d : Dict) (key : String) (default : Json) : Json := if hasField d key then field d key else default

/-- `int(v)` -/
def int (v : Json) : Except Failure Int := v.toInt.mapError .raised

/-- `normalize_service` of a stored row, whose columns have the types it converts to -/
def normalizeRow (ps : StoredService) : NormalizedService := ⟨ps.columns, ps.raw.getD []⟩

section

variable (repr : Json → String)

/-- `str(d.get(key, ""))` -/
def textOf (d : Dict) (key : String) : String := (getOr d key (.str "")).text repr

/-- `Decimal(str(d.get("rate", "0")))` -/
def rateOf (d : Dict) : Except Failure Rate := Rate.ofText ((getOr d "rate" (.str "0")).text repr)

/-- `bool(d.get(key, False))` -/
def flagOf (d : Dict) (key : String) : Bool := (getOr d key (.bool false)).truthy

/-- `normalize_service` of a provider's raw dict -/
def normalizeRaw (ps : Dict) : Except Failure NormalizedService := do
  let columns : Columns := {
    providerSvcId := (getOr ps "service" (getOr ps "id" (.str ""))).text repr
    rawName := textOf repr ps "name"
    category := textOf repr ps "category"
    rate := ← rateOf repr ps
    minQty := ← int (getOr ps "min" (.int 0))
    maxQty := ← int (getOr ps "max" (.int 0))
    refill := flagOf ps "refill"
    cancel := flagOf ps "cancel"
    dripFeed := flagOf ps "dripfeed" }
  return ⟨columns, ps⟩

/-- `stored_min` and `stored_max`: both 0 where either is no number. -/
def storedLimits (d : Dict) : Int × Int :=
  match int (getOr d "min" (.int 0)), int (getOr d "max" (.int 0)) with
  | .ok lo, .ok hi => (lo, hi)
  | _, _ => (0, 0)

/-- What `detect_changes` reads in the stored dict. -/
def stored (d : Dict) : (f : ServiceField) → f.Value
  | .name => textOf repr d "name"
  | .rate => (rateOf repr d).toOption.getD (.finite 0)
  | .minQty => (storedLimits d).1
  | .maxQty => (storedLimits d).2
  | .refill => flagOf d "refill"
  | .cancel => flagOf d "cancel"
  | .dripFeed => flagOf d "dripfeed"

end

/-! ## Differences -/

structure ServiceDiff where
  providerSvcId : String
  field : ServiceField
  oldValue : field.Value
  newValue : field.Value

/-- The difference in a field. -/
def diffIn (svcId : String) (old new : (f : ServiceField) → f.Value) (f : ServiceField) : ServiceDiff :=
  ⟨svcId, f, old f, new f⟩

/-- One difference for each of the fields whose values differ. -/
def diffsOf (svcId : String) (old new : (f : ServiceField) → f.Value) :
    List ServiceField → Except Failure (List ServiceDiff)
  | [] => .ok []
  | f :: fs => do
    let changed ← f.differ (old f) (new f)
    let diffs ← diffsOf svcId old new fs
    return if changed then diffIn svcId old new f :: diffs else diffs

/-- `detect_changes` -/
def detectChanges (repr : Json → String) (storedRaw : Option Dict) (incoming : NormalizedService) :
    Except Failure (List ServiceDiff) :=
  match storedRaw with
  | none => .ok []
  | some d => diffsOf incoming.columns.providerSvcId (stored repr d) incoming.columns.get ServiceField.all

def applyDiff (c : Columns) (d : ServiceDiff) : Columns := c.set d.field d.newValue

/-- `for diff in diffs: ...` -/
def applyDiffs (c : Columns) (diffs : List ServiceDiff) : Columns := diffs.foldl applyDiff c

/-- What the sync makes of an incoming row, and of the one stored under its id. -/
def upsert (repr : Json → String) (row : Option StoredService) (norm : NormalizedService) :
    Except Failure StoredService := do
  let diffs ← detectChanges repr (row.bind (·.raw)) norm
  match row with
  | none => return ⟨norm.columns, some norm.raw⟩
  | some row => return if diffs.isEmpty then row else ⟨applyDiffs row.columns diffs, some norm.raw⟩

/-! ## What is found -/

section

variable {svcId : String} {old new : (f : ServiceField) → f.Value}

/-- The differences of fields that can all be compared. -/
theorem diffsOf_eq {fs : List ServiceField}
    (h : ∀ f ∈ fs, f.isSignalling (old f) = false ∧ f.isSignalling (new f) = false) :
    diffsOf svcId old new fs =
      .ok ((fs.filter fun f => f.changed (old f) (new f)).map (diffIn svcId old new)) := by
  induction fs with
  | nil => rfl
  | cons f fs ih =>
    obtain ⟨hold, hnew⟩ := h f List.mem_cons_self
    have hdiffer : f.differ (old f) (new f) = .ok (f.changed (old f) (new f)) := by
      rw [ServiceField.differ, hold, hnew]
      rfl
    rw [diffsOf, hdiffer, ih fun g hg => h g (List.mem_cons_of_mem f hg)]
    cases hchanged : f.changed (old f) (new f)
    · rw [List.filter_cons_of_neg (by simp [hchanged])]
      rfl
    · rw [List.filter_cons_of_pos (by simp [hchanged])]
      rfl

theorem diffsOf_signalling (svcId : String) {fs : List ServiceField} {f : ServiceField} (hf : f ∈ fs)
    (h : (f.isSignalling (old f) || f.isSignalling (new f)) = true) : ∃ e, diffsOf svcId old new fs = .error e := by
  induction fs with
  | nil => cases hf
  | cons g fs ih =>
    rw [diffsOf]
    cases hdiffer : g.differ (old g) (new g) with
    | error e => exact ⟨e, rfl⟩
    | ok b =>
      have hfs : f ∈ fs := by
        refine (List.mem_cons.mp hf).resolve_left fun he => ?_
        subst he
        rw [ServiceField.differ, h] at hdiffer
        cases hdiffer
      obtain ⟨e, he⟩ := ih hfs
      exact ⟨e, by rw [he]; rfl⟩

variable (c : Columns) {g : ServiceField}

/-- The columns that are written are the fields of the differences. -/
theorem get_applyDiffs (fs : List ServiceField) :
    (applyDiffs c (fs.map (diffIn svcId old new))).get g = if g ∈ fs then new g else c.get g := by
  induction fs generalizing c with
  | nil => rfl
  | cons f fs ih =>
    have hstep := ih (c.set f (new f))
    rw [List.map_cons, applyDiffs, List.foldl_cons]
    refine hstep.trans ?_
    by_cases hfs : g ∈ fs
    · rw [if_pos hfs, if_pos (List.mem_cons_of_mem f hfs)]
    rw [if_neg hfs]
    by_cases hgf : g = f
    · subst hgf
      rw [if_pos List.mem_cons_self, Columns.get_set]
    · rw [if_neg (by simp [hgf, hfs]), Columns.get_set_ne _ _ _ _ hgf]

theorem category_applyDiffs (diffs : List ServiceDiff) : (applyDiffs c diffs).category = c.category := by
  induction diffs generalizing c with
  | nil => rfl
  | cons d diffs ih => exact (ih _).trans (Columns.category_set ..)

theorem providerSvcId_applyDiffs (diffs : List ServiceDiff) :
    (applyDiffs c diffs).providerSvcId = c.providerSvcId := by
  induction diffs generalizing c with
  | nil => rfl
  | cons d diffs ih => exact (ih _).trans (Columns.providerSvcId_set ..)

end

section

variable (repr : Json → String) (row : StoredService) (n : NormalizedService)

/-- The differences that are found make the stored row the incoming one, and
there are none exactly where the two are the same already. -/
def FoundInFull : Prop :=
  ∃ diffs, detectChanges repr row.raw n = .ok diffs ∧ applyDiffs (normalizeRow row).columns diffs = n.columns ∧
    (diffs = [] ↔ (normalizeRow row).columns = n.columns)

/-- The stored dict, if any, has the field as the incoming row has it. -/
def Unchanged (f : ServiceField) : Prop := ∀ d ∈ row.raw, f.changed (stored repr d f) (n.columns.get f) = false

/-- The incoming row keeps the category, and the stored dict is as good as the columns to compare it with. -/
structure Comparable : Prop where
  sameId : row.columns.providerSvcId = n.columns.providerSvcId
  sameCategory : row.columns.category = n.columns.category
  readable : ∀ d ∈ row.raw, ∀ f : ServiceField,
    f.isSignalling (stored repr d f) = false ∧ f.isSignalling (n.columns.get f) = false
  /-- What the dict has as it comes in, the column has, too. -/
  kept : ∀ f, Unchanged repr row n f → row.columns.get f = n.columns.get f
  /-- Where all the columns have what comes in, so has the dict. -/
  quiet : (∀ f, row.columns.get f = n.columns.get f) → ∀ f, Unchanged repr row n f

variable {repr row n}

theorem ServiceField.mem_all (f : ServiceField) : f ∈ all := by cases f <;> decide

/-- The fields in which the dict differs from what comes in. -/
def changedFields (repr : Json → String) (d : Dict) (n : NormalizedService) : List ServiceField :=
  ServiceField.all.filter fun f => f.changed (stored repr d f) (n.columns.get f)

/-- What is found against a stored dict: the changed fields, if all can be compared. -/
theorem detectChanges_ok {d : Dict} {diffs : List ServiceDiff} :
    detectChanges repr (some d) n = .ok diffs ↔
      (∀ f : ServiceField, f.isSignalling (stored repr d f) = false ∧ f.isSignalling (n.columns.get f) = false) ∧
        diffs = (changedFields repr d n).map (diffIn n.columns.providerSvcId (stored repr d) n.columns.get) := by
  by_cases hreadable : ∀ f : ServiceField,
      f.isSignalling (stored repr d f) = false ∧ f.isSignalling (n.columns.get f) = false
  · rw [detectChanges, diffsOf_eq fun f _ => hreadable f]
    simp only [hreadable, implies_true, true_and, Except.ok.injEq]
    exact eq_comm
  · obtain ⟨f, hf⟩ := not_forall.mp hreadable
    have hsignal : (f.isSignalling (stored repr d f) || f.isSignalling (n.columns.get f)) = true := by
      rw [← Bool.not_eq_false, Bool.or_eq_false_iff]
      exact hf
    obtain ⟨e, he⟩ := diffsOf_signalling n.columns.providerSvcId f.mem_all hsignal
    refine iff_of_false ?_ fun h => hreadable h.1
    rw [detectChanges, he]
    exact nofun

/-- A field is written if it is found to have changed. -/
theorem written_iff {fs : List ServiceField} (hmem : ∀ f, f ∈ fs ↔ ¬ Unchanged repr row n f)
    (old : (f : ServiceField) → f.Value) :
    (applyDiffs row.columns (fs.map (diffIn n.columns.providerSvcId old n.columns.get)) = n.columns ∧
        (fs.map (diffIn n.columns.providerSvcId old n.columns.get) = [] ↔ row.columns = n.columns)) ↔
      row.columns.providerSvcId = n.columns.providerSvcId ∧ row.columns.category = n.columns.category ∧
        (∀ f, Unchanged repr row n f → row.columns.get f = n.columns.get f) ∧
          ((∀ f, row.columns.get f = n.columns.get f) → ∀ f, Unchanged repr row n f) := by
  have hempty : fs.map (diffIn n.columns.providerSvcId old n.columns.get) = [] ↔ ∀ f, Unchanged repr row n f := by
    rw [List.map_eq_nil_iff, List.eq_nil_iff_forall_not_mem]
    exact forall_congr' fun f => by rw [hmem, not_not]
  have hget : ∀ f, (if f ∈ fs then n.columns.get f else row.columns.get f) = n.columns.get f ↔
      (Unchanged repr row n f → row.columns.get f = n.columns.get f) := by
    intro f
    by_cases hf : Unchanged repr row n f
    · rw [if_neg (by rw [hmem, not_not]; exact hf)]
      exact ⟨fun h _ => h, fun h => h hf⟩
    · rw [if_pos ((hmem f).mpr hf)]
      exact ⟨fun _ hf' => absurd hf' hf, fun _ => rfl⟩
  rw [hempty, Columns.eq_iff, Columns.eq_iff, category_applyDiffs, providerSvcId_applyDiffs]
  simp only [get_applyDiffs, hget]
  constructor
  · intro ⟨⟨hid, hcategory, hkept⟩, hiff⟩
    exact ⟨hid, hcategory, hkept, fun hall => hiff.mpr ⟨hid, hcategory, hall⟩⟩
  · intro ⟨hid, hcategory, hkept, hquiet⟩
    refine ⟨⟨hid, hcategory, hkept⟩, fun hall => ?_, fun hsame => hquiet hsame.2.2⟩
    exact ⟨hid, hcategory, fun f => hkept f (hall f)⟩

end

theorem foundInFull_iff (repr : Json → String) (row : StoredService) (n : NormalizedService) :
    FoundInFull repr row n ↔ Comparable repr row n := by
  cases hraw : row.raw with
  | none =>
    have hmem (f : ServiceField) : f ∈ ([] : List ServiceField) ↔ ¬ Unchanged repr row n f := by
      simp [Unchanged, hraw]
    have hfound := written_iff hmem row.columns.get
    constructor
    · intro ⟨diffs, hdiffs, happly, hiff⟩
      rw [hraw] at hdiffs
      cases hdiffs
      obtain ⟨hid, hcategory, hkept, hquiet⟩ := hfound.mp ⟨happly, hiff⟩
      exact ⟨hid, hcategory, by simp [hraw], hkept, hquiet⟩
    · intro ⟨hid, hcategory, _, hkept, hquiet⟩
      obtain ⟨happly, hiff⟩ := hfound.mpr ⟨hid, hcategory, hkept, hquiet⟩
      exact ⟨[], by rw [hraw]; rfl, happly, hiff⟩
  | some d =>
    have hmem (f : ServiceField) : f ∈ changedFields repr d n ↔ ¬ Unchanged repr row n f := by
      simp [changedFields, Unchanged, hraw, ServiceField.mem_all]
    have hfound := written_iff hmem (stored repr d)
    constructor
    · intro ⟨diffs, hdiffs, happly, hiff⟩
      rw [hraw] at hdiffs
      obtain ⟨hreadable, rfl⟩ := detectChanges_ok.mp hdiffs
      obtain ⟨hid, hcategory, hkept, hquiet⟩ := hfound.mp ⟨happly, hiff⟩
      exact ⟨hid, hcategory, by simpa [hraw] using hreadable, hkept, hquiet⟩
    · intro ⟨hid, hcategory, hreadable, hkept, hquiet⟩
      obtain ⟨happly, hiff⟩ := hfound.mpr ⟨hid, hcategory, hkept, hquiet⟩
      exact ⟨_, by rw [hraw]; exact detectChanges_ok.mpr ⟨hreadable d hraw, rfl⟩, happly, hiff⟩

/-! ## The rows a sync stores -/

/-- The compared columns are what the dict says. -/
def InStep (repr : Json → String) (row : StoredService) : Prop :=
  ∃ d, row.raw = some d ∧ ∀ f, stored repr d f = row.columns.get f

/-- A sync's next row for a service; where it raises, the row stays. -/
def syncRow (repr : Json → String) (row : Option StoredService) (raw : Dict) : Option StoredService :=
  match normalizeRaw repr raw >>= upsert repr row with
  | .ok row => some row
  | .error _ => row

section

variable {repr : Json → String} {row row' : StoredService} {n : NormalizedService} {raw : Dict}

theorem normalizeRaw_stored (h : normalizeRaw repr raw = .ok n) :
    n.raw = raw ∧ ∀ f, stored repr raw f = n.columns.get f := by
  unfold normalizeRaw at h
  simp only [bind, Except.bind, pure, Except.pure] at h
  cases hrate : rateOf repr raw with
  | error e => rw [hrate] at h; cases h
  | ok rate =>
    cases hlo : int (getOr raw "min" (.int 0)) with
    | error e => rw [hrate, hlo] at h; cases h
    | ok lo =>
      cases hhi : int (getOr raw "max" (.int 0)) with
      | error e => rw [hrate, hlo, hhi] at h; cases h
      | ok hi =>
        simp only [hrate, hlo, hhi] at h
        cases h
        have hlimits : storedLimits raw = (lo, hi) := by simp only [storedLimits, hlo, hhi]
        refine ⟨rfl, fun f => ?_⟩
        cases f with
        | rate => exact congrArg (fun r : Except Failure Rate => r.toOption.getD (.finite 0)) hrate
        | minQty => exact congrArg Prod.fst hlimits
        | maxQty => exact congrArg Prod.snd hlimits
        | _ => rfl

/-- What a sync stores is in step: a new row, an updated one, and one that is left as it was. -/
theorem upsert_inStep (hn : normalizeRaw repr raw = .ok n) {stored? : Option StoredService}
    (hstored : ∀ row ∈ stored?, InStep repr row) (h : upsert repr stored? n = .ok row') : InStep repr row' := by
  obtain ⟨hraw, hread⟩ := normalizeRaw_stored hn
  cases stored? with
  | none =>
    cases h
    exact ⟨n.raw, rfl, by rw [hraw]; exact hread⟩
  | some row =>
    obtain ⟨d, hd, hstep⟩ := hstored row rfl
    unfold upsert at h
    simp only [Option.bind_some, hd] at h
    cases hdiffs : detectChanges repr (some d) n with
    | error e => rw [hdiffs] at h; cases h
    | ok diffs =>
      obtain ⟨-, rfl⟩ := detectChanges_ok.mp hdiffs
      rw [hdiffs] at h
      have hrow := Except.ok.inj h
      split at hrow
      · exact hrow ▸ ⟨d, hd, hstep⟩
      rw [← hrow]
      refine ⟨n.raw, rfl, fun f => ?_⟩
      rw [hraw, hread, get_applyDiffs]
      split
      · rfl
      -- a field that was not written is as the old dict had it
      next hf =>
        have hsame : f.changed (stored repr d f) (n.columns.get f) = false := by
          simpa [changedFields, ServiceField.mem_all] using hf
        rw [← hstep, (ServiceField.changed_eq_false.mp hsame).2]

/-- Whatever comes in for a service, sync after sync, its row is in step. -/
theorem syncs_inStep {raws : List Dict} (h : raws.foldl (syncRow repr) none = some row) : InStep repr row := by
  have hrun : ∀ row? : Option StoredService, (∀ row ∈ row?, InStep repr row) →
      ∀ row ∈ raws.foldl (syncRow repr) row?, InStep repr row := by
    clear h
    induction raws with
    | nil => exact fun _ h => h
    | cons raw raws ih =>
      intro row? hrow?
      refine ih _ fun row' hrow' => ?_
      unfold syncRow at hrow'
      cases hn : normalizeRaw repr raw with
      | error e =>
        rw [hn] at hrow'
        exact hrow? row' hrow'
      | ok n =>
        rw [hn] at hrow'
        cases hup : upsert repr row? n with
        | error e =>
          simp only [bind, Except.bind, hup] at hrow'
          exact hrow? row' hrow'
        | ok new =>
          simp only [bind, Except.bind, hup] at hrow'
          cases hrow'
          exact upsert_inStep hn hrow? hup
  exact hrun none (by simp) row h

/-- Of a row in step, all changes are found except that of the category: and a
rate that is no number counts as a change from itself. -/
theorem InStep.foundInFull_iff (h : InStep repr row) :
    FoundInFull repr row n ↔
      row.columns.providerSvcId = n.columns.providerSvcId ∧ row.columns.category = n.columns.category ∧
        row.columns.rate ≠ .signalling ∧ n.columns.rate ≠ .signalling ∧
          (row.columns = n.columns → n.columns.rate ≠ .nan) := by
  obtain ⟨d, hd, hstep⟩ := h
  have hunchanged (f : ServiceField) :
      Unchanged repr row n f ↔ f.isNan (row.columns.get f) = false ∧ row.columns.get f = n.columns.get f := by
    simp [Unchanged, hd, hstep, ServiceField.changed_eq_false]
  rw [ProviderSync.foundInFull_iff]
  constructor
  · intro h
    have hreadable := h.readable d hd
    simp only [hstep] at hreadable
    refine ⟨h.sameId, h.sameCategory, (Columns.isSignalling_iff _).mp fun f => (hreadable f).1,
      (Columns.isSignalling_iff _).mp fun f => (hreadable f).2, fun hsame => ?_⟩
    rw [← hsame, ← Columns.isNan_iff]
    exact fun f => ((hunchanged f).mp (h.quiet (fun f => by rw [hsame]) f)).1
  · intro ⟨hid, hcategory, hrow, hn, hnan⟩
    refine ⟨hid, hcategory, fun d' hd' f => ?_, fun f hf => ((hunchanged f).mp hf).2, fun hall f => ?_⟩
    · obtain rfl : d' = d := Option.some.inj (hd'.symm.trans hd)
      rw [hstep]
      exact ⟨(Columns.isSignalling_iff _).mpr hrow f, (Columns.isSignalling_iff _).mpr hn f⟩
    · have hsame : row.columns = n.columns := Columns.eq_iff.mpr ⟨hid, hcategory, hall⟩
      exact (hunchanged f).mpr ⟨(Columns.isNan_iff _).mpr (hsame ▸ hnan hsame) f, hall f⟩

end

/-- Which changes are found in full: for any stored row, and for the rows that syncs have stored. -/
theorem changes_found_iff (repr : Json → String) (n : NormalizedService) :
    (∀ row, FoundInFull repr row n ↔ Comparable repr row n) ∧
      ∀ (raws : List Dict) row, raws.foldl (syncRow repr) none = some row →
        (FoundInFull repr row n ↔
          row.columns.providerSvcId = n.columns.providerSvcId ∧ row.columns.category = n.columns.category ∧
            row.columns.rate ≠ .signalling ∧ n.columns.rate ≠ .signalling ∧
              (row.columns = n.columns → n.columns.rate ≠ .nan)) :=
  ⟨fun row => foundInFull_iff repr row n, fun _ _ h => (syncs_inStep h).foundInFull_iff⟩

/-! ## A service that moves -/

def followers (category rate : String) : Dict :=
  [("service", .int 1), ("name", .str "Followers"), ("category", .str category), ("rate", .str rate),
    ("min", .int 100), ("max", .int 10000), ("refill", .bool true)]

def followersRow (category : String) (rate : Rat) : Columns :=
  ⟨"1", "Followers", category, .finite rate, 100, 10000, true, false, false⟩

theorem normalize_followers (repr : Json → String) (category rate : String) {x : Rat}
    (h : Py.decimalOfText rate = some (.finite x)) :
    normalizeRaw repr (followers category rate) = .ok ⟨followersRow category x, followers category rate⟩ := by
  have hrate : rateOf repr (followers category rate) = .ok (.finite x) := by
    show Rate.ofText rate = _
    rw [Rate.ofText, h]
  simp only [normalizeRaw, hrate]
  rfl

theorem syncs_followers (repr : Json → String) :
    [followers "Instagram" "0.90"].foldl (syncRow repr) none =
      some ⟨followersRow "Instagram" (9 / 10), some (followers "Instagram" "0.90")⟩ := by
  have hnormal := normalize_followers repr "Instagram" "0.90" (x := 9 / 10) (by decide +kernel)
  rw [List.foldl_cons, syncRow, hnormal]
  rfl

/-- A new rate is found. -/
theorem new_rate_found : FoundInFull (fun _ => "")
    ⟨followersRow "Instagram" (9 / 10), some (followers "Instagram" "0.90")⟩
    ⟨followersRow "Instagram" (6 / 5), followers "Instagram" "1.20"⟩ :=
  ((changes_found_iff (fun _ => "") ⟨followersRow "Instagram" (6 / 5), followers "Instagram" "1.20"⟩).2
    [followers "Instagram" "0.90"] _ (syncs_followers _)).mpr ⟨rfl, rfl, nofun, nofun, nofun⟩

/-- A new category is not. -/
theorem new_category_lost : ¬ ∀ (repr : Json → String) (raws : List Dict) (row : StoredService) (raw : Dict)
    (n : NormalizedService), raws.foldl (syncRow repr) none = some row → normalizeRaw repr raw = .ok n →
      row.columns.providerSvcId = n.columns.providerSvcId → FoundInFull repr row n := by
  intro h
  have hfound := h (fun _ => "") [followers "Instagram" "0.90"] _ (followers "TikTok" "0.90") _ (syncs_followers _)
    (normalize_followers _ "TikTok" "0.90" (x := 9 / 10) (by decide +kernel)) rfl
  have hsame := ((foundInFull_iff _ _ _).mp hfound).sameCategory
  exact absurd hsame (by decide)

end Falaron.ProviderSync
