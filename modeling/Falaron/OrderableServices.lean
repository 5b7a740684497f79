/-
Which services are on sale.

Two operations change `is_active`: a synchronisation, which may bring a
service back or give it another type, and the operator's `activate` and
`deactivate`. Each of them keeps to it that an active service can be ordered:
it has a type that can be rendered, and the panel still lists it.
-/
import Falaron.SyncGuard
import Falaron.Txn.Check
import Falaron.Txn.Run

namespace Falaron.Sync

open PerfectPanel (HttpAnswer PerfectPanelAdapter)
open Text (Extra clip)
open Txn.Prog hiding pure

/-! ## The operator's switch -/

/-- `ids`, `provider`, `category` and `all_supported` of the command line. -/
structure ToggleArgs where
  ids : List String := []
  provider : Option String := .none
  category : Option String := .none
  allSupported : Bool := false

inductive CliErr where
  /-- `_die` -/
  | exit (message : String)
  | integrity
  deriving DecidableEq, Repr

abbrev CM := Txn.Prog SyncDb Row CliErr Empty

section

variable (ilike : (name pattern : String) → Bool)

/-- The services of a provider, of the categories that the pattern matches. -/
def inCategory (provider : String) (category : Option String) (db : SyncDb) : List ServiceRow :=
  db.services.rows.filter fun s => s.providerId == provider && match category with
    | .none => true
    | .some text => (db.categories.find s.categoryId).any fun c => ilike c.name ("%" ++ text ++ "%")

/-- The services a call is about. -/
def selected (a : ToggleArgs) : CM (List ServiceRow) :=
  if a.ids ≠ [] then .query fun db => db.services.rows.filter (·.id ∈ a.ids)
  else match a.provider.filter (· ≠ "") with
    | .none => .throw (.exit "Give --ids or --provider.")
    | .some provider =>
      let category := a.category.filter (· ≠ "")
      if !(a.allSupported || category.isSome) then
        .throw (.exit "Refusing to touch a whole provider without --all-supported or --category.")
      else .query (inCategory ilike provider category)

/-- `svc.service_type not in SUPPORTED_TYPES or svc.is_removed_upstream` -/
def ServiceRow.isOrderable (s : ServiceRow) : Bool := s.serviceType.any (· ∈ supportedTypes) && !s.isRemovedUpstream

/-- One turn of the loop; `changed` counts the services it has switched. -/
def toggleService (active : Bool) (changed : Nat) (svc : ServiceRow) : CM Nat :=
  if active && !svc.isOrderable then pure changed
  else if svc.isActive ≠ active then do
    .write (SyncStmt.setService { svc with isActive := active })
    pure (changed + 1)
  else pure changed

/-- A category is visible while it has an active service, as far as the tables have been told. -/
def showCategory (id : String) : CM Unit := do
  let cat ← .query (·.categories.find id)
  let n ← .query fun db => db.services.rows.countP fun s => s.categoryId = id && s.isActive
  match cat with
  | .some cat => .write (SyncStmt.setCategory { cat with isActive := 0 < n })
  | .none => pure ()

def orNull (s : Option String) : String := s.elim "null" Text.jsonString

/-- `json.dumps` of what the audit keeps. -/
def toggleText (a : ToggleArgs) (changed : Nat) : String :=
  "\x7b" ++ s!"\"count\":{changed},\"provider\":{orNull a.provider},\"category\":{orNull a.category}" ++ "\x7d"

/-- `_toggle` -/
def toggle (now : Time) (a : ToggleArgs) (active : Bool) : CM Nat := do
  let rows ← selected ilike a
  let changed ← rows.foldlM (toggleService active) 0
  forEach showCategory (rows.map (·.categoryId)).dedup
  .write (SyncStmt.addAudit ⟨"cli", if active then "service.activate" else "service.deactivate", .none,
    .some (clip 2000 (toggleText a changed)), now⟩)
  .flushed .integrity
  pure changed

end

/-! ## Histories of the catalog -/

inductive CatalogCall where
  | sync (py : Builtins) (now : Time) (runId : Nat) (provider : ProviderRow) (adapter : Except String PerfectPanelAdapter)
    (panel : Extra → HttpAnswer)
  | toggle (ilike : (name pattern : String) → Bool) (now : Time) (a : ToggleArgs) (active : Bool)

/-- What the call commits; nothing when it raises. -/
def CatalogCall.commit (db : SyncDb) : CatalogCall → SyncDb
  | sync py now runId provider adapter panel =>
    (syncProvider py now runId provider adapter panel).commit (fun _ => false) db
  | toggle ilike now a active => (Sync.toggle ilike now a active).commit (fun _ => false) db

/-- The service can be ordered, if it is on sale. -/
def ServiceRow.Orderable (s : ServiceRow) : Prop :=
  s.isActive = true → (∃ t ∈ supportedTypes, s.serviceType = .some t) ∧ s.isRemovedUpstream = false

def SyncDb.Orderable (db : SyncDb) : Prop := ∀ s ∈ db.services.rows, s.Orderable

/-! ## One service -/

section

variable {now : Time} {svc : ServiceRow} {n : NormalizedService}

theorem refreshService_orderable (h : svc.Orderable) : (refreshService now svc n).row.Orderable := by
  intro hon
  rw [refreshService_row] at hon ⊢
  simp only [Bool.and_eq_true, Bool.or_eq_true, decide_eq_true_eq] at hon
  rcases hon.2 with hsame | hsupported
  · obtain ⟨t, ht, hst⟩ := (h hon.1).1
    exact ⟨⟨t, ht, hsame.symm.trans hst⟩, rfl⟩
  · exact ⟨⟨n.serviceType, by simpa [NormalizedService.supported] using hsupported, rfl⟩, rfl⟩

theorem newService_orderable {providerId externalId categoryId : String} {auto : Bool} :
    (newService now providerId externalId categoryId (auto && n.supported) n).Orderable := by
  intro hactive
  have hsupported : n.supported = true := (Bool.and_eq_true _ _ ▸ hactive).2
  exact ⟨⟨n.serviceType, by simpa [NormalizedService.supported] using hsupported, rfl⟩, rfl⟩

theorem orderable_of_isOrderable (h : svc.isOrderable = true) : svc.Orderable := by
  intro _
  simp only [ServiceRow.isOrderable, Bool.and_eq_true, Option.any_eq_true, decide_eq_true_eq, Bool.not_eq_true'] at h
  obtain ⟨⟨t, ht, hmem⟩, hlisted⟩ := h
  exact ⟨⟨t, hmem, ht⟩, hlisted⟩

end

/-! ## What the calls write -/

/-- A statement that puts nothing on sale that cannot be ordered. -/
abbrev SyncStmt.Fair (w : SyncStmt) : Prop := w.Keeps SyncDb.Orderable

namespace SyncStmt

variable {s : ServiceRow}

theorem fair_of_services {w : SyncStmt} (h : ∀ db, (w.apply db).services = db.services) : w.Fair := fun db hdb => by
  rw [SyncDb.Orderable, h]
  exact hdb

theorem setService_fair (h : s.Orderable) : (setService s).Fair := by
  intro db hdb t ht
  obtain ⟨u, hu, he⟩ := List.mem_map.mp ht
  split at he
  · exact he ▸ h
  · exact he ▸ hdb u hu

theorem addService_fair (h : s.Orderable) : (addService s).Fair := by
  intro db hdb t ht
  simp only [addService, Txn.Table.add] at ht
  split at ht
  · exact (List.mem_append.mp ht).elim (hdb t) fun he => List.mem_singleton.mp he ▸ h
  · exact hdb t ht

theorem addCategory_fair (c : CategoryRow) : (addCategory c).Fair := fair_of_services fun _ => rfl

theorem setCategory_fair (c : CategoryRow) : (setCategory c).Fair := fair_of_services fun _ => rfl

theorem setProvider_fair (p : ProviderRow) : (setProvider p).Fair := fair_of_services fun _ => rfl

theorem addRun_fair (r : SyncRun) : (addRun r).Fair := fair_of_services fun _ => rfl

theorem setRun_fair (r : SyncRun) : (setRun r).Fair := fair_of_services fun _ => rfl

theorem addAudit_fair (a : AuditRow) : (addAudit a).Fair := fair_of_services fun _ => rfl

end SyncStmt

section

variable {py : Builtins} {now : Time} {provider : ProviderRow} {rows : List (String × NormalizedService)}
  {known : List (String × ServiceRow)}

theorem ensureCategory_writes (name : String) (active : Bool) (cache : List (String × CategoryRow)) :
    (ensureCategory py name active cache).Writes SyncStmt.Fair := by
  refine .bind (.query _) fun loaded => ?_
  split
  · exact .bind (.write (SyncStmt.addCategory_fair _)) fun _ => .bind (.flushed _) fun _ => .pure _
  · split
    · exact .bind (.write (SyncStmt.setCategory_fair _)) fun _ => .pure _
    · exact .pure _

theorem syncRow_writes (hknown : ∀ q ∈ known, q.2.Orderable) (p : Progress) (row : String × NormalizedService) :
    (syncRow py now provider known p row).Writes SyncStmt.Fair := by
  unfold syncRow
  split
  · refine .bind (ensureCategory_writes _ _ _) fun a => ?_
    exact .bind (.write (SyncStmt.addService_fair newService_orderable)) fun _ => .pure _
  · next svc hsvc =>
    have horderable : svc.Orderable := hknown _ (lookup_mem hsvc)
    exact .bind (.write (SyncStmt.setService_fair (refreshService_orderable horderable))) fun _ => .pure _

theorem removeUpstream_writes (report : SyncReport) (q : String × ServiceRow) :
    (removeUpstream rows report q).Writes SyncStmt.Fair := by
  unfold removeUpstream
  refine .ite (.pure _) (.bind (.write (SyncStmt.setService_fair ?_)) fun _ => .pure _)
  exact fun hon => by cases hon

theorem finish_writes (run : SyncRun) (report : SyncReport) : (finish now provider run report).Writes SyncStmt.Fair := by
  refine .bind (.write (SyncStmt.setRun_fair _)) fun _ => .bind (.write (SyncStmt.setProvider_fair _)) fun _ => ?_
  refine .ite ?_ (.bind (.flushed _) fun _ => .pure _)
  exact .bind (.write (SyncStmt.addAudit_fair _)) fun _ => .bind (.flushed _) fun _ => .pure _

/-- The services a run has read are what it goes by. -/
theorem syncProvider_writes (runId : Nat) (adapter : Except String PerfectPanelAdapter) (panel : Extra → HttpAnswer) :
    (syncProvider py now runId provider adapter panel).WritesOn SyncDb.Orderable SyncStmt.Fair := by
  refine .bind (Writes.write (SyncStmt.addRun_fair _)).on fun _ => .bind (Writes.flushed _).on fun _ => ?_
  split
  · exact (finish_writes _ _).on
  · exact (Writes.throw _).on
  refine .query fun db hdb => ?_
  dsimp only
  split
  · exact (finish_writes _ _).on
  have hknown (q) (hq : q ∈ byExternal (existingRows provider db)) : q.2.Orderable := hdb _ (mem_known hq).1
  refine .bind (.bind (.foldlM (fun p row _ => (syncRow_writes hknown p row).on) _) fun p => ?_) fun report =>
    (finish_writes _ _).on
  exact .foldlM (fun report q _ => (removeUpstream_writes report q).on) _

theorem toggleService_writes {svc : ServiceRow} (active : Bool) (changed : Nat) :
    (toggleService active changed svc).Writes SyncStmt.Fair := by
  unfold toggleService
  split
  · exact .pure _
  next hgo =>
  refine .ite (.bind (.write (SyncStmt.setService_fair ?_)) fun _ => .pure _) (.pure _)
  cases active with
  | false => exact fun hon => by cases hon
  | true =>
    have hon : svc.isOrderable = true := by simpa using hgo
    exact orderable_of_isOrderable (show ({ svc with isActive := true } : ServiceRow).isOrderable = true from hon)

theorem showCategory_writes (id : String) : (showCategory id).Writes SyncStmt.Fair := by
  refine .bind (.query _) fun cat => .bind (.query _) fun n => ?_
  split
  · exact .write (SyncStmt.setCategory_fair _)
  · exact .pure _

theorem toggle_writes (ilike : (name pattern : String) → Bool) (a : ToggleArgs) (active : Bool) :
    (toggle ilike now a active).WritesOn SyncDb.Orderable SyncStmt.Fair := by
  have hselected : (selected ilike a).Writes SyncStmt.Fair := by
    refine .ite (.query _) ?_
    split
    · exact .throw _
    · exact .ite (.throw _) (.query _)
  refine .bind hselected.on fun rows => .bind (.foldlM (fun changed svc _ => (toggleService_writes active changed).on) _)
    fun changed => ?_
  exact Writes.on (.bind (.forEach showCategory_writes _) fun _ => .bind (.write (SyncStmt.addAudit_fair _)) fun _ =>
    .bind (.flushed _) fun _ => .pure _)

end

/-! ## Every history -/

theorem CatalogCall.commit_orderable {db : SyncDb} (hdb : db.Orderable) (c : CatalogCall) : (c.commit db).Orderable := by
  cases c with
  | sync py now runId provider adapter panel =>
    exact (syncProvider_writes runId adapter panel).commit (fun _ hw => hw) hdb _
  | toggle ilike now a active => exact (toggle_writes ilike a active).commit (fun _ hw => hw) hdb _

/-- **What is on sale can be ordered**: from tables in which that is so, after
any synchronisations and switches, with any answers of the panels, every
active service has a supported type and is listed upstream. -/
theorem active_services_orderable {db : SyncDb} (hdb : db.Orderable) (calls : List CatalogCall) :
    ∀ s ∈ (calls.foldl CatalogCall.commit db).services.rows, s.isActive = true →
      (∃ t ∈ supportedTypes, s.serviceType = .some t) ∧ s.isRemovedUpstream = false :=
  @Txn.foldl_keeps _ _ CatalogCall.commit SyncDb.Orderable (fun _ _ => True)
    (fun _ c h _ => CatalogCall.commit_orderable h c) _ _ hdb fun _ _ _ _ => trivial

/-- A panel's service comes on sale, is taken off by hand, put back, and is no
longer listed in the end. -/
def saleHistory : List CatalogCall :=
  let panel (items : List Py.Json) : CatalogCall := .sync plainBuiltins 0 1 { panelProvider with autoActivateNew := true }
    (.ok ⟨"k"⟩) fun _ => .body (.array items)
  let all (active : Bool) : CatalogCall :=
    .toggle (fun _ _ => true) 0 { provider := .some "panel", allSupported := true } active
  [panel [listedRow 1 goodRate, listedRow 2 goodRate], all false, all true]

theorem active_services_orderable_of_history :
    ((saleHistory.foldl CatalogCall.commit emptyCatalog).services.rows.map fun s => (s.isActive, s.serviceType)) =
      [(true, .some "default"), (true, .some "default")] ∧
    ∀ s ∈ (saleHistory.foldl CatalogCall.commit emptyCatalog).services.rows, s.isActive = true →
      (∃ t ∈ supportedTypes, s.serviceType = .some t) ∧ s.isRemovedUpstream = false :=
  ⟨by decide +kernel, active_services_orderable (fun _ h => absurd h List.not_mem_nil) saleHistory⟩

end Falaron.Sync
