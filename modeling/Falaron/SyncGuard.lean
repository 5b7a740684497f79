/-
The guard against a malformed catalog.

A row of a panel's list is validated twice: the adapter converts it, and what
it has converted is normalised. Only the second step counts what it turns
down, and the share that stops a run is a share of what the first step lets
through, with the rows of one id taken together. `malformed_guard_iff` says
on which lists the guard nevertheless does what it is for.
-/
import Falaron.CatalogMerge

namespace Falaron.Sync

open Py (Double Json)
open PerfectPanel (HttpAnswer PanelResult PerfectPanelAdapter ProviderService getServices readService readServices
  tryConvert receive_ok)
open Text (Extra)
open Txn (Table)
open Txn.Prog

/-! ## The rows of a list -/

/-- The adapter lets the row through. -/
def converts (repr : Json → String) : Json → Bool
  | .object d => (readService repr d).isOk
  | _ => false

/-- What the adapter makes of the rows it lets through. -/
def conversions (repr : Json → String) (items : List Json) : List ProviderService := items.filterMap fun item =>
  match item with
  | .object d => (readService repr d).toOption
  | _ => .none

/-- Both steps let the row through. -/
def validates (py : Builtins) (fx : Double) : Json → Bool
  | .object d =>
    match readService py.repr d with
    | .ok row => (normalizeService row fx).isSome
    | .error _ => false
  | _ => false

/-- How many rows the adapter drops. -/
def dropped (repr : Json → String) (items : List Json) : Nat := items.countP fun item => !converts repr item

/-- How many rows cannot be validated. -/
def rejected (py : Builtins) (fx : Double) (items : List Json) : Nat := items.countP fun item => !validates py fx item

section

variable {py : Builtins} {fx : Double} {items rest : List Json} {item : Json} {upstream : List ProviderService}

theorem dropped_cons : dropped py.repr (item :: rest) = dropped py.repr rest + if converts py.repr item then 0 else 1 := by
  cases h : converts py.repr item <;> simp [dropped, h]

theorem rejected_cons : rejected py fx (item :: rest) = rejected py fx rest + if validates py fx item then 0 else 1 := by
  cases h : validates py fx item <;> simp [rejected, h]

theorem dropped_eq_zero : dropped py.repr items = 0 ↔ ∀ item ∈ items, converts py.repr item = true := by
  simp [dropped, List.countP_eq_zero]

/-- What the adapter makes of one row. -/
theorem readServices_cons (fx : Double) (h : readServices py.repr (item :: rest) = .ok upstream) : ∃ rows,
    readServices py.repr rest = .ok rows ∧
      (converts py.repr item = false ∧ validates py fx item = false ∧ upstream = rows ∧
        conversions py.repr (item :: rest) = conversions py.repr rest ∨
      ∃ row, converts py.repr item = true ∧ validates py fx item = (normalizeService row fx).isSome ∧
        upstream = row :: rows ∧ conversions py.repr (item :: rest) = row :: conversions py.repr rest) := by
  cases item with
  | object d =>
    have hrest {f : List ProviderService → List ProviderService} (h : (readServices py.repr rest).map f = .ok upstream) :
        ∃ rows, readServices py.repr rest = .ok rows ∧ upstream = f rows := by
      cases hr : readServices py.repr rest with
      | error e => rw [hr] at h; cases h
      | ok rows => rw [hr] at h; exact ⟨rows, rfl, (Except.ok.inj h).symm⟩
    cases hd : readService py.repr d with
    | ok row =>
      simp only [readServices, hd, Except.map, tryConvert] at h
      obtain ⟨rows, hr, heq⟩ := hrest (f := (row :: ·)) h
      exact ⟨rows, hr, .inr ⟨row, by simp [converts, hd, Except.isOk, Except.toBool], by simp [validates, hd], heq,
        by simp [conversions, hd, Except.toOption]⟩⟩
    | error e =>
      simp only [readServices, hd, Except.map] at h
      have hno : converts py.repr (.object d) = false ∧ validates py fx (.object d) = false ∧
          conversions py.repr (.object d :: rest) = conversions py.repr rest := by
        simp [converts, validates, conversions, hd, Except.isOk, Except.toBool, Except.toOption]
      cases e with
      | overflowError => cases h
      | _ =>
        obtain ⟨rows, hr, heq⟩ := hrest (f := ([] ++ ·)) h
        exact ⟨rows, hr, .inl ⟨hno.1, hno.2.1, heq, hno.2.2⟩⟩
  | _ => exact ⟨upstream, h, .inl ⟨rfl, rfl, rfl, rfl⟩⟩

/-- A list that cannot be read raises an exception of Python's. -/
theorem readServices_error {e : PerfectPanel.PanelFailure} (h : readServices py.repr items = .error e) :
    ∃ x, e = .python x := by
  induction items with
  | nil => cases h
  | cons item rest ih =>
    cases item with
    | object d =>
      have hrest {f : List ProviderService → List ProviderService} (h : (readServices py.repr rest).map f = .error e) :
          ∃ x, e = .python x := by
        cases hr : readServices py.repr rest with
        | error e' =>
          rw [hr] at h ih
          exact ih h
        | ok rows => rw [hr] at h; cases h
      cases hd : readService py.repr d with
      | ok row =>
        simp only [readServices, hd, Except.map, tryConvert] at h
        exact hrest (f := (row :: ·)) h
      | error e' =>
        simp only [readServices, hd, Except.map] at h
        cases e' with
        | overflowError => cases h; exact ⟨_, rfl⟩
        | _ => exact hrest (f := ([] ++ ·)) h
    | _ => exact ih h

/-- A row is turned down by one step or the other. -/
theorem rejected_eq (h : readServices py.repr items = .ok upstream) : rejected py fx items =
    dropped py.repr items + upstream.countP fun row => (normalizeService row fx).isNone := by
  induction items generalizing upstream with
  | nil =>
    cases h
    rfl
  | cons item rest ih =>
    obtain ⟨rows, hrest, hcase⟩ := readServices_cons fx h
    have hcount := ih hrest
    rw [rejected_cons, dropped_cons, hcount]
    rcases hcase with ⟨hc, hv, rfl, _⟩ | ⟨row, hc, hv, rfl, _⟩
    · simp only [hc, hv, Bool.false_eq_true, if_false]
      omega
    · rw [List.countP_cons, hc, hv]
      cases normalizeService row fx with
      | none => simp; omega
      | some n => simp

theorem readServices_eq (h : readServices py.repr items = .ok upstream) : upstream = conversions py.repr items := by
  induction items generalizing upstream with
  | nil => exact (Except.ok.inj h).symm
  | cons item rest ih =>
    obtain ⟨rows, hrest, hcase⟩ := readServices_cons (.finite 1) h
    rcases hcase with ⟨_, _, rfl, hconv⟩ | ⟨row, _, _, rfl, hconv⟩
    · rw [hconv, ← ih hrest]
    · rw [hconv, ← ih hrest]

theorem readUpstream_count (acc : List (String × NormalizedService) × Nat) (row : ProviderService) :
    (readUpstream fx acc row).2 = acc.2 + if (normalizeService row fx).isNone then 1 else 0 := by
  unfold readUpstream
  cases normalizeService row fx <;> rfl

theorem readUpstream_invalid (acc : List (String × NormalizedService) × Nat) :
    (upstream.foldl (readUpstream fx) acc).2 =
      acc.2 + upstream.countP fun row => (normalizeService row fx).isNone := by
  induction upstream generalizing acc with
  | nil => rfl
  | cons item rest ih =>
    rw [List.foldl_cons, ih, List.countP_cons, readUpstream_count]
    omega

theorem validated_invalid : (validated fx upstream).2 = upstream.countP fun row => (normalizeService row fx).isNone := by
  rw [validated, readUpstream_invalid, Nat.zero_add]

end

/-! ## What a run leaves -/

/-- What `us` have come to in the tables: more services than there were, if
one was new, and else the same services, brought up to date. -/
inductive Applied (db : SyncDb) (allKnown : Prop) (us : List ServiceRow) (d : SyncDb) : Prop
  | grown : ¬ allKnown → db.services.rows.length < d.services.rows.length → Applied db allKnown us d
  | updated : allKnown → d.services = us.foldl Table.set db.services → d.categories = db.categories →
      Applied db allKnown us d

section

variable {db d d' : SyncDb} {allKnown : Prop} {us : List ServiceRow}

theorem length_foldl_set {t : Table fun s : ServiceRow => s.id} : (us.foldl Table.set t).rows.length = t.rows.length := by
  induction us generalizing t with
  | nil => rfl
  | cons u us ih => rw [List.foldl_cons, ih, Table.length_set]

theorem Applied.length_le (h : Applied db allKnown us d) : db.services.rows.length ≤ d.services.rows.length := by
  cases h with
  | grown _ h => exact h.le
  | updated _ hs _ => rw [hs, length_foldl_set]

theorem Applied.congr (h : Applied db allKnown us d) (hs : d'.services = d.services) (hc : d'.categories = d.categories) :
    Applied db allKnown us d' := by
  cases h with
  | grown hn hlt => exact .grown hn (hs ▸ hlt)
  | updated hk hset hcat => exact .updated hk (hs.trans hset) (hc.trans hcat)

theorem Applied.set (h : Applied db allKnown us d) (u : ServiceRow) :
    Applied db allKnown (us ++ [u]) { d with services := d.services.set u } := by
  cases h with
  | grown hn hlt => exact .grown hn (by rwa [Table.length_set])
  | updated hk hset hcat => exact .updated hk (by rw [List.foldl_append, ← hset]; rfl) hcat

end

/-- A run that applies a list, as updates of what there was. -/
theorem Merged.applied {now : Time} {provider : ProviderRow} {db d : SyncDb} {known : List (String × ServiceRow)}
    {rows : List (String × NormalizedService)} {us added : List ServiceRow} (h : Merged db us added d)
    (hadded : Adds now provider (unknown known rows) added) (hus : (us.map (·.id)).Nodup)
    (hin : ∀ u ∈ us, u.id ∈ db.services.rows.map (·.id)) :
    Applied db (∀ q ∈ rows, (lookup known q.1).isSome) us d := by
  cases added with
  | nil =>
    refine .updated (fun q hq => ?_) (Table.ext ?_) (h.untouched rfl)
    · by_contra hno
      obtain ⟨_, hs, _⟩ := hadded.complete q (List.mem_filter.mpr ⟨hq, by simpa using hno⟩)
      cases hs
    · rw [h.services, List.append_nil]
      exact (Table.foldl_set_after hus hin).symm
  | cons s added =>
    refine .grown (fun hall => ?_) ?_
    · obtain ⟨q, hq, _⟩ := hadded.isNew s List.mem_cons_self
      obtain ⟨hq, hnone⟩ := List.mem_filter.mp hq
      have hsome := hall q hq
      rw [Option.isNone_iff_eq_none.mp hnone] at hsome
      cases hsome
    · rw [h.services, List.length_append, List.length_map, List.length_cons]
      omega

/-! ## When nothing has to be written -/

/-- The catalog already is what the list says: every row is known and on
record exactly so, and everything on record is listed or was removed before. -/
structure UpToDate (now : Time) (known : List (String × ServiceRow)) (rows : List (String × NormalizedService)) : Prop where
  listed : ∀ p ∈ rows, ∃ svc, lookup known p.1 = .some svc ∧ (refreshService now svc p.2).row = svc
  present : ∀ q ∈ known, (∃ p ∈ rows, p.1 = q.1) ∨ q.2.isRemovedUpstream = true

section

variable {now : Time} {provider : ProviderRow} {db d : SyncDb} {rows : List (String × NormalizedService)}

/-- A run that applies a list leaves the catalog as it was exactly when it was up to date. -/
theorem Applied.same_iff (hrows : (rows.map (·.1)).Nodup)
    (h : Applied db (∀ q ∈ rows, (lookup (byExternal (existingRows provider db)) q.1).isSome)
      (rows.filterMap (refreshed now (byExternal (existingRows provider db))) ++
        (byExternal (existingRows provider db)).filterMap (retired rows)) d) :
    SameCatalog db d ↔ UpToDate now (byExternal (existingRows provider db)) rows := by
  cases h with
  | grown hn hlt =>
    refine iff_of_false (fun hsame => ?_) fun hup => hn fun q hq => ?_
    · rw [hsame.1] at hlt
      exact Nat.lt_irrefl _ hlt
    · obtain ⟨svc, hsvc, _⟩ := hup.listed q hq
      rw [hsvc]
      rfl
  | updated hall hset hcat =>
    have hwritten : d.services = db.services ↔ ∀ u ∈ rows.filterMap (refreshed now (byExternal (existingRows provider db))) ++
        (byExternal (existingRows provider db)).filterMap (retired rows), u ∈ db.services.rows := by
      rw [hset]
      refine Table.foldl_set_eq_self (nodup_written hrows) fun u hu => ?_
      rcases List.mem_append.mp hu with hu | hu
      · obtain ⟨p, _, hp⟩ := List.mem_filterMap.mp hu
        obtain ⟨svc, _, _, hm, hs, _⟩ := refreshed_eq hp
        exact hs ▸ List.mem_map_of_mem hm
      · obtain ⟨q, hq, hqu⟩ := List.mem_filterMap.mp hu
        exact (retired_eq hqu).2.2.1 ▸ List.mem_map_of_mem (mem_known hq).1
    rw [SameCatalog, hwritten, and_iff_left hcat]
    refine ⟨fun hin => ⟨fun p hp => ?_, fun q hq => ?_⟩, fun hup u hu => ?_⟩
    · obtain ⟨svc, hsvc⟩ := Option.isSome_iff_exists.mp (hall p hp)
      have hu : refreshed now (byExternal (existingRows provider db)) p = .some (refreshService now svc p.2).row := by
        simp [refreshed, hsvc]
      have hm := hin _ (List.mem_append_left _ (List.mem_filterMap.mpr ⟨p, hp, hu⟩))
      exact ⟨svc, hsvc, Table.unique hm (mem_known (lookup_mem hsvc)).1 refreshService_id⟩
    · by_contra hno
      simp only [not_or, not_exists, not_and, Bool.not_eq_true] at hno
      have hu : retired rows q = .some { q.2 with isRemovedUpstream := true, isActive := false } := by
        refine if_neg ?_
        simp only [Bool.or_eq_true, List.any_eq_true, beq_iff_eq, not_or, not_exists, not_and, Bool.not_eq_true]
        exact hno
      have hm := hin _ (List.mem_append_right _ (List.mem_filterMap.mpr ⟨q, hq, hu⟩))
      have hsame := Table.unique hm (mem_known hq).1 rfl
      rw [← hsame] at hno
      cases hno.2
    · rcases List.mem_append.mp hu with hu | hu
      · obtain ⟨p, hp, hpu⟩ := List.mem_filterMap.mp hu
        obtain ⟨svc, hsvc, rfl, hm, _⟩ := refreshed_eq hpu
        obtain ⟨svc', hsvc', hrow⟩ := hup.listed p hp
        obtain rfl := Option.some.inj (hsvc.symm.trans hsvc')
        rwa [hrow]
      · obtain ⟨q, hq, hqu⟩ := List.mem_filterMap.mp hu
        obtain ⟨hunlisted, hlive, _⟩ := retired_eq hqu
        rcases hup.present q hq with ⟨p, hp, he⟩ | hremoved
        · exact absurd he (hunlisted p hp)
        · rw [hlive] at hremoved
          cases hremoved

end

/-! ## Runs -/

section

variable {py : Builtins} {now : Time} {runId : Nat} {provider : ProviderRow} {adapter : Except String PerfectPanelAdapter}
  {panel : Extra → HttpAnswer} {db : SyncDb} {upstream : List ProviderService}

/-- A run that gets a list counts what normalisation turns down, and leaves
the catalog alone if it finds the list malformed or the catalog up to date. -/
theorem syncing_cases {report : SyncReport} {db' : SyncDb} (h : fetch py adapter panel = .ok upstream)
    (hrun : syncing py now runId provider adapter panel db = .some (report, db')) :
    report.skippedInvalid = (validated provider.fx upstream).2 ∧ (SameCatalog db db' ↔
      (refusal provider db upstream).isSome ∨
        UpToDate now (byExternal (existingRows provider db)) (validated provider.fx upstream).1) := by
  have hsame {upstream' : List ProviderService} (h' : fetch py adapter panel = .ok upstream') : upstream' = upstream :=
    Except.ok.inj (h'.symm.trans h)
  cases syncing_outcome hrun with
  | failed e he =>
    rw [h] at he
    cases he
  | refused upstream' h' hrefused _ hcount hcatalog =>
    obtain rfl := hsame h'
    exact ⟨hcount, iff_of_true hcatalog (.inl hrefused)⟩
  | applied upstream' added h' hrefusal hcounted hadded hmerged =>
    obtain rfl := hsame h'
    refine ⟨hcounted.skipped, ?_⟩
    have hkeys : ((validated provider.fx upstream').1.map (·.1)).Nodup := validated_keys
    have happlied := hmerged.applied hadded (nodup_written hkeys) fun u hu => by
      obtain ⟨s, hs, hid⟩ := mem_written hu
      exact List.mem_map.mpr ⟨s, (List.mem_filter.mp hs).1, hid.symm⟩
    simpa only [hrefusal, Option.isSome_none, Bool.false_eq_true, false_or] using happlied.same_iff hkeys

/-- A run that ends with a report was sent a list the adapter could read. -/
theorem fetch_of_syncing {a : PerfectPanelAdapter} {items : List Json} {report : SyncReport} {db' : SyncDb}
    (hpanel : panel (a.form "services" []) = .body (.array items))
    (hrun : syncing py now runId provider (.ok a) panel db = .some (report, db')) :
    ∃ upstream, readServices py.repr items = .ok upstream ∧ fetch py (.ok a) panel = .ok upstream := by
  have hreceive : PerfectPanel.receive py.repr (.body (.array items)) = .ok (.array items) := rfl
  have hfetch : fetch py (.ok a) panel = readServices py.repr items := by
    simp only [fetch, getServices, PerfectPanel.post, hpanel, hreceive]
    rfl
  cases hread : readServices py.repr items with
  | ok upstream => exact ⟨upstream, rfl, hfetch.trans hread⟩
  | error e =>
    rw [hread] at hfetch
    obtain ⟨x, rfl⟩ := readServices_error hread
    have hraises : (syncProvider py now runId provider (.ok a) panel).wp (fun _ _ => False) (fun _ _ => True) { db := db } := by
      simp only [syncProvider, wp_bind, wp_write, hfetch]
      exact wp_flush_leads (J := fun _ => True) (fun _ _ => trivial) fun _ _ => trivial
    unfold syncing at hrun
    split at hrun
    · next hs => exact (wp_ok hraises hs).elim
    · cases hrun

end

/-- **When the guard against a malformed catalog holds**: a run that ends with
a report counts every row that cannot be validated, and keeps its hands off
the catalog when there are ten rows or more and over 30% of them are such,
exactly when the adapter drops no row and, on such a list, the check of the
whole list stops the run or there is nothing to bring up to date. -/
theorem malformed_guard_iff {py : Builtins} {now : Time} {runId : Nat} {provider : ProviderRow} {a : PerfectPanelAdapter}
    {panel : Extra → HttpAnswer} {items : List Json} {db db' : SyncDb} {report : SyncReport}
    (hpanel : panel (a.form "services" []) = .body (.array items))
    (hrun : syncing py now runId provider (.ok a) panel db = .some (report, db')) :
    ((10 ≤ items.length → 3 * items.length < 10 * rejected py provider.fx items → SameCatalog db db') ∧
        report.skippedInvalid = rejected py provider.fx items) ↔
      (∀ item ∈ items, converts py.repr item = true) ∧
        (10 ≤ items.length → 3 * items.length < 10 * rejected py provider.fx items →
          (refusal provider db (conversions py.repr items)).isSome ∨
            UpToDate now (byExternal (existingRows provider db))
              (validated provider.fx (conversions py.repr items)).1) := by
  obtain ⟨upstream, hread, hfetch⟩ := fetch_of_syncing hpanel hrun
  obtain ⟨hcount, hsame⟩ := syncing_cases hfetch hrun
  obtain rfl := readServices_eq hread
  have hdropped : report.skippedInvalid = rejected py provider.fx items ↔
      ∀ item ∈ items, converts py.repr item = true := by
    rw [hcount, validated_invalid, rejected_eq hread, ← dropped_eq_zero]
    omega
  rw [hsame, hdropped]
  exact and_comm

/-! ## Ten rows -/

/-- A row of a list, with its rate. -/
def listedRow (id : Int) (rate : Json) : Json :=
  .object [("service", .int id), ("name", .str "Likes"), ("category", .str "Instagram"), ("rate", rate), ("min", .int 10),
    ("max", .int 1000)]

def goodRate : Json := .float (.finite (3 / 2))

/-- A catalog without services. -/
def emptyCatalog : SyncDb := ⟨default, default, default, default, []⟩

/-- The first run against a panel that lists `items`. -/
def firstSync (items : List Json) : Option (SyncReport × SyncDb) :=
  syncing plainBuiltins 0 1 panelProvider (.ok ⟨"k"⟩) (fun _ => .body (.array items)) emptyCatalog

/-- Six services, and four rows with the rate as given. -/
def tenRows (rate : Json) : List Json :=
  [1, 2, 3, 4, 5, 6].map (listedRow · goodRate) ++ [7, 8, 9, 10].map (listedRow · rate)

/-- Rates that normalisation turns down stop the run. -/
theorem malformed_guard_of_ten_rows : ∃ report db', firstSync (tenRows (.int (-1))) = .some (report, db') ∧
    SameCatalog emptyCatalog db' ∧ report.skippedInvalid = 4 := by
  have hrun : (firstSync (tenRows (.int (-1)))).isSome = true ∧
      (∀ item ∈ tenRows (.int (-1)), converts plainBuiltins.repr item = true) ∧
      (refusal panelProvider emptyCatalog (conversions plainBuiltins.repr (tenRows (.int (-1))))).isSome = true ∧
      rejected plainBuiltins panelProvider.fx (tenRows (.int (-1))) = 4 ∧
      3 * (tenRows (.int (-1))).length < 10 * rejected plainBuiltins panelProvider.fx (tenRows (.int (-1))) := by
    decide +kernel
  obtain ⟨hsome, hconverts, hrefused, hrejected, hshare⟩ := hrun
  obtain ⟨⟨report, db'⟩, hrun⟩ := Option.isSome_iff_exists.mp hsome
  obtain ⟨hsame, hcount⟩ := (malformed_guard_iff rfl hrun).mpr ⟨hconverts, fun _ _ => .inl hrefused⟩
  exact ⟨report, db', hrun, hsame (by decide) hshare, hcount.trans hrejected⟩

/-- Rates that the adapter cannot convert do not: four rows of ten are
dropped, none is counted, and the other six are taken into the catalog. -/
theorem dropped_rows_uncounted :
    (tenRows (.str "n/a")).length = 10 ∧ rejected plainBuiltins panelProvider.fx (tenRows (.str "n/a")) = 4 ∧
    (firstSync (tenRows (.str "n/a"))).map (fun (report, db') =>
      (report.status, report.skippedInvalid, db'.services.rows.length, db'.categories.rows.length)) =
      .some (.ok, 0, 6, 1) := by
  decide +kernel

end Falaron.Sync
