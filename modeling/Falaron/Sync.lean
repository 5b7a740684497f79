/-
Synchronisation of a provider's catalog.

One run asks the panel for its list, validates it row by row, and either
keeps the catalog as it is or brings it up to date. The tables here are those
of the catalog with the columns a run reads and writes. The run's session
holds the objects it has loaded: a category that has been seen is in the
run's cache, and the services are read once.
-/
import Falaron.SyncNormalize
import Falaron.Txn.Frame
import Falaron.Txn.Table

namespace Falaron.Sync

open Py (Double)
open PerfectPanel (HttpAnswer PanelFailure PerfectPanelAdapter ProviderService getServices)
open Text (Extra clip)

/-! ## Tables -/

structure ServiceRow extends Service where
  description : Option String
  externalName : Option String
  externalCategory : Option String
  isRemovedUpstream : Bool
  lastSyncedAt : Option Time
  createdAt : Time

structure CategoryRow extends Category where
  name : String
  emoji : String
  description : Option String
  sortOrder : Int
  isActive : Bool

structure ProviderRow extends Provider where
  fxToInr : Double
  autoActivateNew : Bool
  lastSyncAt : Option Time
  lastSyncStatus : Option String

inductive SyncStatus where
  | ok | aborted | error
  deriving DecidableEq, Repr

def SyncStatus.name : SyncStatus → String
  | .ok => "ok"
  | .aborted => "aborted"
  | .error => "error"

structure SyncRun where
  id : Nat
  providerId : String
  status : SyncStatus
  added : Nat
  updated : Nat
  removed : Nat
  skippedInvalid : Nat
  detail : Option String
  startedAt : Time
  finishedAt : Option Time

structure AuditRow where
  actor : String
  action : String
  target : Option String
  newValue : Option String
  createdAt : Time

structure SyncDb where
  services : Txn.Table fun s : ServiceRow => s.id
  categories : Txn.Table fun c : CategoryRow => c.id
  providers : Txn.Table fun p : ProviderRow => p.id
  runs : Txn.Table fun r : SyncRun => r.id
  audits : List AuditRow

inductive Row where
  | service (id : String)
  | category (id : String)
  | provider (id : String)
  | run (id : Nat)
  deriving DecidableEq

inductive SyncErr where
  | python (e : Py.Raised)
  | integrity
  deriving DecidableEq, Repr

/-- What a run does besides its one call of the panel, whose answer is an argument. -/
abbrev SM := Txn.Prog SyncDb Row SyncErr Empty

abbrev SyncStmt := Txn.Stmt SyncDb Row

namespace SyncStmt

def addService (s : ServiceRow) : SyncStmt :=
  ⟨[.service s.id], fun db => !db.services.has s.id, fun db => { db with services := db.services.add s }⟩

def setService (s : ServiceRow) : SyncStmt :=
  ⟨[.service s.id], fun _ => true, fun db => { db with services := db.services.set s }⟩

def addCategory (c : CategoryRow) : SyncStmt :=
  ⟨[.category c.id], fun db => !db.categories.has c.id, fun db => { db with categories := db.categories.add c }⟩

def setCategory (c : CategoryRow) : SyncStmt :=
  ⟨[.category c.id], fun _ => true, fun db => { db with categories := db.categories.set c }⟩

def setProvider (p : ProviderRow) : SyncStmt :=
  ⟨[.provider p.id], fun _ => true, fun db => { db with providers := db.providers.set p }⟩

def addRun (r : SyncRun) : SyncStmt :=
  ⟨[.run r.id], fun db => !db.runs.has r.id, fun db => { db with runs := db.runs.add r }⟩

def setRun (r : SyncRun) : SyncStmt :=
  ⟨[.run r.id], fun _ => true, fun db => { db with runs := db.runs.set r }⟩

def addAudit (a : AuditRow) : SyncStmt := ⟨[], fun _ => true, fun db => { db with audits := db.audits ++ [a] }⟩

end SyncStmt

def flush : SM Unit := .flushed .integrity

/-! ## Dictionaries -/

/-- `d[k] = v` -/
def assign {β : Type} (d : List (String × β)) (k : String) (v : β) : List (String × β) :=
  if d.any (·.1 == k) then d.map fun p => if p.1 == k then (k, v) else p else d ++ [(k, v)]

/-- `d.get(k)` -/
def lookup {β : Type} (d : List (String × β)) (k : String) : Option β := (d.find? (·.1 == k)).map (·.2)

section

variable {β : Type} {d : List (String × β)} {k : String} {v : β}

theorem assign_keys (h : (d.map (·.1)).Nodup) : ((assign d k v).map (·.1)).Nodup := by
  unfold assign
  split
  · have hkeys : (d.map fun p => if p.1 == k then (k, v) else p).map (·.1) = d.map (·.1) := by
      rw [List.map_map]
      refine List.map_congr_left fun p _ => ?_
      simp only [Function.comp_apply]
      split
      · next hp => exact (beq_iff_eq.mp hp).symm
      · rfl
    exact hkeys ▸ h
  · next hno =>
    simp only [Bool.not_eq_true, List.any_eq_false, beq_iff_eq] at hno
    rw [List.map_append, List.nodup_append]
    refine ⟨h, by simp, fun a ha b hb => ?_⟩
    obtain ⟨p, hp, rfl⟩ := List.mem_map.mp ha
    simp only [List.map_cons, List.map_nil, List.mem_singleton] at hb
    exact hb ▸ hno p hp

theorem lookup_mem (h : lookup d k = .some v) : (k, v) ∈ d := by
  obtain ⟨p, hp, rfl⟩ := Option.map_eq_some_iff.mp h
  have hk : p.1 = k := by simpa using List.find?_some hp
  exact hk ▸ List.mem_of_find?_eq_some hp

end

/-! ## The report -/

/-- What has changed upstream; its text is made from this. -/
inductive ChangeKind where
  | new (ratePaise : Int)
  | restored
  | rate (old new : Int)
  | limits (oldMin oldMax newMin newMax : Int)
  | capabilities
  | name (old : Option String) (new : String)
  | removed

structure Change where
  serviceId : String
  name : String
  kind : ChangeKind

structure SyncReport where
  providerId : String
  status : SyncStatus := .ok
  detail : String := ""
  added : Nat := 0
  updated : Nat := 0
  removed : Nat := 0
  restored : Nat := 0
  unchanged : Nat := 0
  skippedInvalid : Nat := 0
  unsupportedNew : Nat := 0
  changes : List Change := []

def SyncReport.summary (r : SyncReport) : String :=
  let head := s!"{r.providerId}: {r.status.name} — +{r.added} new, ~{r.updated} changed, " ++
    s!"-{r.removed} removed, {r.restored} restored, {r.skippedInvalid} invalid"
  head ++ if r.detail = "" then "" else s!" ({r.detail})"

/-! ## One service -/

/-- A loaded service as it is brought up to date, and what is noted about it. -/
structure Refresh where
  row : ServiceRow
  changes : List Change := []
  changed : Bool := false

namespace Refresh

def note (r : Refresh) (kind : ChangeKind) : Refresh :=
  { r with changes := r.changes ++ [⟨r.row.id, r.row.name, kind⟩], changed := true }

/-- It comes back inactive. -/
def restore (r : Refresh) : Refresh :=
  if r.row.isRemovedUpstream then
    let r := { r with row := { r.row with isRemovedUpstream := false } }
    r.note .restored
  else r

def reprice (n : NormalizedService) (r : Refresh) : Refresh :=
  if r.row.ratePer1000Paise ≠ n.ratePer1000Paise then
    let r := r.note (.rate r.row.ratePer1000Paise n.ratePer1000Paise)
    { r with row := { r.row with ratePer1000Paise := n.ratePer1000Paise } }
  else r

def relimit (n : NormalizedService) (r : Refresh) : Refresh :=
  if r.row.minQty ≠ n.minQty ∨ r.row.maxQty ≠ n.maxQty then
    let r := r.note (.limits r.row.minQty r.row.maxQty n.minQty n.maxQty)
    { r with row := { r.row with minQty := n.minQty, maxQty := n.maxQty } }
  else r

def equip (n : NormalizedService) (r : Refresh) : Refresh :=
  if r.row.isRefillable ≠ n.refill ∨ r.row.isCancelable ≠ n.cancel then
    let r := r.note .capabilities
    { r with row := { r.row with isRefillable := n.refill, isCancelable := n.cancel } }
  else r

/-- A type that cannot be rendered does not stay on sale. -/
def retype (n : NormalizedService) (r : Refresh) : Refresh :=
  if r.row.serviceType ≠ .some n.serviceType then
    { r with
      row := { r.row with serviceType := .some n.serviceType, isActive := r.row.isActive && n.supported }
      changed := true }
  else r

/-- A name that an admin has not touched follows upstream. -/
def rename (n : NormalizedService) (r : Refresh) : Refresh :=
  if r.row.externalName ≠ .some n.name then
    let follows := r.row.externalName = .none ∨ r.row.externalName = .some r.row.name
    let r := if follows then { r with row := { r.row with name := n.name } } else r
    let r := r.note (.name r.row.externalName n.name)
    { r with row := { r.row with externalName := .some n.name } }
  else r

def stamp (now : Time) (n : NormalizedService) (r : Refresh) : Refresh :=
  { r with row := { r.row with externalCategory := .some n.category, lastSyncedAt := .some now } }

end Refresh

def refreshService (now : Time) (svc : ServiceRow) (n : NormalizedService) : Refresh :=
  let r : Refresh := { row := svc }
  ((((((r.restore).reprice n).relimit n).equip n).retype n).rename n).stamp now n

def newService (now : Time) (providerId externalId categoryId : String) (activate : Bool)
    (n : NormalizedService) : ServiceRow where
  id := serviceIdFor providerId externalId
  categoryId := categoryId
  providerId := providerId
  providerServiceId := externalId
  name := n.name
  serviceType := .some n.serviceType
  minQty := n.minQty
  maxQty := n.maxQty
  ratePer1000Paise := n.ratePer1000Paise
  markupPercent := .none
  markupFixedPaise := .none
  isActive := activate
  isRefillable := n.refill
  isCancelable := n.cancel
  averageTime := .none
  description := .none
  externalName := .some n.name
  externalCategory := .some n.category
  isRemovedUpstream := false
  lastSyncedAt := .some now
  createdAt := now

/-! ## The run -/

/-- What the loop over the list carries along: the categories seen, and the report. -/
structure Progress where
  cache : List (String × CategoryRow)
  report : SyncReport

section

variable (py : Builtins) (now : Time)

def newCategory (id name : String) (active : Bool) : CategoryRow :=
  { id := id, markupPercent := .none, markupFixedPaise := .none, name := clip 80 name, emoji := "",
    description := .none, sortOrder := 1000, isActive := active }

/-- `_ensure_category` -/
def ensureCategory (name : String) (active : Bool) (cache : List (String × CategoryRow)) :
    SM (CategoryRow × List (String × CategoryRow)) := do
  let cid := categoryIdFor py name
  let loaded ← .query fun db => db.categories.find cid
  match (lookup cache cid).or loaded with
  | .none =>
    let cat := newCategory cid name active
    .write (SyncStmt.addCategory cat)
    flush
    pure (cat, assign cache cid cat)
  | .some cat =>
    if active && !cat.isActive then do
      let cat := { cat with isActive := true }
      .write (SyncStmt.setCategory cat)
      pure (cat, assign cache cid cat)
    else pure (cat, assign cache cid cat)

/-- A service that is not in the catalog yet. -/
def addNew (provider : ProviderRow) (ext : String) (n : NormalizedService) (p : Progress) : SM Progress := do
  let activate := provider.autoActivateNew && n.supported
  let (cat, cache) ← ensureCategory py n.category activate p.cache
  .write (SyncStmt.addService (newService now provider.id ext cat.id activate n))
  let change : Change := ⟨serviceIdFor provider.id ext, n.name, .new n.ratePer1000Paise⟩
  pure ⟨cache, { p.report with
    added := p.report.added + 1
    unsupportedNew := p.report.unsupportedNew + if n.supported then 0 else 1
    changes := p.report.changes ++ [change] }⟩

/-- A service that is. -/
def updateKnown (svc : ServiceRow) (n : NormalizedService) (p : Progress) : SM Progress := do
  let r := refreshService now svc n
  .write (SyncStmt.setService r.row)
  pure { p with report := { p.report with
    restored := p.report.restored + if svc.isRemovedUpstream then 1 else 0
    updated := p.report.updated + if r.changed then 1 else 0
    unchanged := p.report.unchanged + if r.changed then 0 else 1
    changes := p.report.changes ++ r.changes } }

def syncRow (provider : ProviderRow) (byExternal : List (String × ServiceRow)) (p : Progress)
    (row : String × NormalizedService) : SM Progress :=
  match lookup byExternal row.1 with
  | .none => addNew py now provider row.1 row.2 p
  | .some svc => updateKnown now svc row.2 p

/-- A service the list does not have any more. -/
def removeUpstream (rows : List (String × NormalizedService)) (report : SyncReport)
    (known : String × ServiceRow) : SM SyncReport :=
  let svc := known.2
  if rows.any (·.1 == known.1) || svc.isRemovedUpstream then pure report
  else do
    .write (SyncStmt.setService { svc with isRemovedUpstream := true, isActive := false })
    pure { report with
      removed := report.removed + 1
      changes := report.changes ++ if svc.isActive then [⟨svc.id, svc.name, .removed⟩] else [] }

/-- `json.dumps` of the counts, as the audit keeps them. -/
def countsText (report : SyncReport) : String :=
  "\x7b" ++ s!"\"added\":{report.added},\"updated\":{report.updated},\"removed\":{report.removed}" ++ "\x7d"

/-- `_finish` -/
def finish (provider : ProviderRow) (run : SyncRun) (report : SyncReport) : SM SyncReport := do
  .write (SyncStmt.setRun { run with
    status := report.status
    added := report.added
    updated := report.updated
    removed := report.removed
    skippedInvalid := report.skippedInvalid
    detail := if report.detail = "" then .none else .some (clip 255 report.detail)
    finishedAt := .some now })
  .write (SyncStmt.setProvider { provider with
    lastSyncAt := .some now, lastSyncStatus := .some (clip 160 report.summary) })
  if report.status = .ok ∧ (0 < report.added ∨ 0 < report.updated ∨ 0 < report.removed) then
    .write (SyncStmt.addAudit ⟨"system", "provider.sync", .some (clip 80 provider.id), .some (countsText report), now⟩)
  flush
  pure report

/-- One turn of the loop that validates the list; the last of several rows with one id wins. -/
def readUpstream (fx : Double) (acc : List (String × NormalizedService) × Nat) (item : ProviderService) :
    List (String × NormalizedService) × Nat :=
  match normalizeService item fx with
  | .none => (acc.1, acc.2 + 1)
  | .some n => (assign acc.1 n.externalId n, acc.2)

/-- The valid rows by their ids, and how many are invalid. -/
def validated (fx : Double) (upstream : List ProviderService) : List (String × NormalizedService) × Nat :=
  upstream.foldl (readUpstream fx) ([], 0)

/-- `float(provider.fx_to_inr or 1.0)` -/
def ProviderRow.fx (provider : ProviderRow) : Double :=
  if provider.fxToInr = .finite 0 then .finite 1 else provider.fxToInr

/-- The services of a provider by the ids it gives them. -/
def byExternal (existing : List ServiceRow) : List (String × ServiceRow) :=
  existing.foldl (fun d s => assign d s.providerServiceId s) []

def existingRows (provider : ProviderRow) (db : SyncDb) : List ServiceRow :=
  db.services.rows.filter (·.providerId == provider.id)

/-- Brings the catalog up to date with a list. -/
def applyRows (provider : ProviderRow) (existing : List ServiceRow) (rows : List (String × NormalizedService))
    (report : SyncReport) : SM SyncReport := do
  let known := byExternal existing
  let p ← rows.foldlM (syncRow py now provider known) ⟨[], report⟩
  known.foldlM (removeUpstream rows) p.report

/-- What `adapter_for` made of the provider's row, and what its panel then lists. -/
def fetch (adapter : Except String PerfectPanelAdapter) (panel : Extra → HttpAnswer) :
    PerfectPanel.PanelResult (List ProviderService) :=
  match adapter with
  | .error message => PerfectPanel.providerError message
  | .ok a => getServices py.repr a panel

def syncProvider (runId : Nat) (provider : ProviderRow) (adapter : Except String PerfectPanelAdapter)
    (panel : Extra → HttpAnswer) : SM SyncReport := do
  let report : SyncReport := { providerId := provider.id }
  let run : SyncRun := ⟨runId, provider.id, .ok, 0, 0, 0, 0, .none, now, .none⟩
  .write (SyncStmt.addRun run)
  flush
  match fetch py adapter panel with
  | .error (.provider e) =>
    finish now provider run { report with
      status := .error, detail := "provider request failed: " ++ clip 120 e.message }
  | .error (.python e) => .throw (.python e) -- `get_services` handles its own `ValueError`s
  | .ok upstream =>
    let (rows, invalid) := validated provider.fx upstream
    let report := { report with skippedInvalid := invalid }
    let existing ← .query (existingRows provider)
    let previousLive := existing.countP fun s => !s.isRemovedUpstream
    match looksMalformed previousLive rows.length invalid with
    | .some reason =>
      finish now provider run { report with
        status := .aborted, detail := "kept last trusted snapshot: " ++ reason }
    | .none =>
      let report ← applyRows py now provider existing rows report
      finish now provider run report

end

end Falaron.Sync
