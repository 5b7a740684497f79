/-
What a run of the synchronisation may change.

A run that applies a list brings each service it knows up to date with the
row of its external id, adds the others, and retires what is listed no more.
`after` says what the updates have made of a service; the tables a run leaves
are those of before with each service so updated, and the new ones behind
them (`Merged`). `catalog_merge` reads the rules of the catalog off this.
-/
import Falaron.Sync

namespace Falaron.Sync

open Py (Double)
open PerfectPanel (HttpAnswer PerfectPanelAdapter ProviderService)
open Text (Extra)
open Txn (Table)
open Txn.Table (after after_of_mem after_of_not_mem)
open Txn.Prog

/-! ## Dictionaries that have been filled -/

section

variable {β : Type} {d : List (String × β)} {k e : String} {v : β} {key : β → String} {l : List β}

theorem lookup_assign : lookup (assign d k v) e = if k = e then .some v else lookup d e := by
  unfold assign lookup
  split
  · next hany =>
    have hsame : (fun p : String × β => (if p.1 == k then (k, v) else p).1 == e) = fun p => p.1 == e := by
      funext p
      split
      · next hp => rw [beq_iff_eq.mp hp]
      · rfl
    rw [List.find?_map, Function.comp_def, hsame]
    cases hf : d.find? (·.1 == e) with
    | some p =>
      have hp : p.1 = e := by simpa using List.find?_some hf
      by_cases hk : k = e <;> simp [hp, hk, Ne.symm]
    | none =>
      rw [if_neg]
      · rfl
      · rintro rfl
        obtain ⟨p, hp, hpk⟩ := List.any_eq_true.mp hany
        exact List.find?_eq_none.mp hf p hp hpk
  · next hno =>
    rw [List.find?_append]
    by_cases hk : k = e
    · have hnone : d.find? (·.1 == e) = .none := by
        rw [List.find?_eq_none]
        exact fun p hp hpe => hno (List.any_eq_true.mpr ⟨p, hp, hk ▸ hpe⟩)
      simp [hnone, hk]
    · simp [hk]

theorem lookup_of_mem (hd : (d.map (·.1)).Nodup) (h : (k, v) ∈ d) : lookup d k = .some v := by
  cases hl : lookup d k with
  | some w =>
    have heq := List.inj_on_of_nodup_map hd (lookup_mem hl) h rfl
    exact congrArg Option.some (Prod.mk.inj heq).2
  | none =>
    rw [lookup, Option.map_eq_none_iff, List.find?_eq_none] at hl
    exact absurd BEq.rfl (hl _ h)

theorem lookup_isSome : (lookup d k).isSome = true ↔ k ∈ d.map (·.1) := by
  simp [lookup, List.find?_isSome]

/-- Each value under its key; the last of several with one key stays. -/
def filledBy (key : β → String) (l : List β) : List (String × β) := l.foldl (fun d a => assign d (key a) a) []

theorem lookup_filledBy : lookup (filledBy key l) e = l.reverse.find? (key · == e) := by
  have hfold (d : List (String × β)) : lookup (l.foldl (fun d a => assign d (key a) a) d) e =
      (l.reverse.find? (key · == e)).or (lookup d e) := by
    induction l generalizing d with
    | nil => rfl
    | cons a l ih =>
      rw [List.foldl_cons, ih, lookup_assign, List.reverse_cons, List.find?_append]
      cases l.reverse.find? (key · == e) with
      | some b => rfl
      | none => by_cases ha : key a = e <;> simp [ha]
  exact (hfold []).trans Option.or_none

theorem filledBy_keys : ((filledBy key l).map (·.1)).Nodup := by
  have hfold (d : List (String × β)) (hd : (d.map (·.1)).Nodup) :
      ((l.foldl (fun d a => assign d (key a) a) d).map (·.1)).Nodup := by
    induction l generalizing d with
    | nil => exact hd
    | cons a l ih =>
      rw [List.foldl_cons]
      exact ih _ (assign_keys hd)
  exact hfold [] List.nodup_nil

theorem mem_filledBy (h : (e, v) ∈ filledBy key l) : v ∈ l ∧ key v = e := by
  have hfind := lookup_of_mem filledBy_keys h
  rw [lookup_filledBy] at hfind
  exact ⟨List.mem_reverse.mp (List.mem_of_find?_eq_some hfind), by simpa using List.find?_some hfind⟩

end

/-- The valid row a list has for an external id: the last one. -/
def accepted (fx : Double) (upstream : List ProviderService) (externalId : String) : Option NormalizedService :=
  (upstream.filterMap (normalizeService · fx)).reverse.find? (·.externalId == externalId)

section

variable {fx : Double} {upstream : List ProviderService} {existing : List ServiceRow} {e : String} {svc : ServiceRow}

theorem validated_eq : (validated fx upstream).1 = filledBy (·.externalId) (upstream.filterMap (normalizeService · fx)) := by
  have hfold (acc : List (String × NormalizedService) × Nat) : (upstream.foldl (readUpstream fx) acc).1 =
      (upstream.filterMap (normalizeService · fx)).foldl (fun d n => assign d n.externalId n) acc.1 := by
    induction upstream generalizing acc with
    | nil => rfl
    | cons item rest ih =>
      rw [List.foldl_cons, ih]
      unfold readUpstream
      cases hn : normalizeService item fx with
      | none => simp [hn]
      | some n => simp [hn]
  exact hfold _

theorem lookup_validated : lookup (validated fx upstream).1 e = accepted fx upstream e := by
  rw [validated_eq, lookup_filledBy, accepted]

theorem validated_keys : ((validated fx upstream).1.map (·.1)).Nodup := validated_eq ▸ filledBy_keys

/-- As many rows as there are external ids. -/
theorem validated_length : (validated fx upstream).1.length =
    ((upstream.filterMap (normalizeService · fx)).map (·.externalId)).dedup.length := by
  have hkeys : ((validated fx upstream).1.map (·.1)).Perm
      ((upstream.filterMap (normalizeService · fx)).map (·.externalId)).dedup := by
    refine (List.perm_ext_iff_of_nodup validated_keys (List.nodup_dedup _)).mpr fun e => ?_
    rw [← lookup_isSome, lookup_validated, accepted, List.find?_isSome, List.mem_dedup, List.mem_map]
    simp
  simpa using hkeys.length_eq

theorem mem_byExternal (h : (e, svc) ∈ byExternal existing) : svc ∈ existing ∧ svc.providerServiceId = e := mem_filledBy h

theorem byExternal_keys : ((byExternal existing).map (·.1)).Nodup := filledBy_keys

/-- Where external ids are unique, each service is known by its own. -/
theorem lookup_byExternal (hids : (existing.map (·.providerServiceId)).Nodup) (h : svc ∈ existing) :
    lookup (byExternal existing) svc.providerServiceId = .some svc := by
  have hfind : (existing.reverse.find? (·.providerServiceId == svc.providerServiceId)).isSome = true := by
    rw [List.find?_isSome]
    exact ⟨svc, List.mem_reverse.mpr h, BEq.rfl⟩
  obtain ⟨svc', hsvc'⟩ := Option.isSome_iff_exists.mp hfind
  have hmem : svc' ∈ existing := List.mem_reverse.mp (List.mem_of_find?_eq_some hsvc')
  have hid : svc'.providerServiceId = svc.providerServiceId := by simpa using List.find?_some hsvc'
  have hlookup : lookup (byExternal existing) svc.providerServiceId = .some svc' := lookup_filledBy.trans hsvc'
  rw [hlookup, List.inj_on_of_nodup_map hids hmem h hid]

end

/-! ## One service -/

section

variable {now : Time} {svc : ServiceRow} {n : NormalizedService} {r : Refresh}

theorem Refresh.restore_row : r.restore.row = { r.row with isRemovedUpstream := false } := by
  unfold restore
  split
  · rfl
  · next h => rw [← Bool.eq_false_iff.mpr h]

theorem Refresh.reprice_row : (r.reprice n).row = { r.row with ratePer1000Paise := n.ratePer1000Paise } := by
  unfold reprice
  split
  · rfl
  · next h => rw [← not_not.mp h]

theorem Refresh.relimit_row : (r.relimit n).row = { r.row with minQty := n.minQty, maxQty := n.maxQty } := by
  unfold relimit
  split
  · rfl
  · next h =>
    simp only [not_or, not_not] at h
    rw [← h.1, ← h.2]

theorem Refresh.equip_row : (r.equip n).row = { r.row with isRefillable := n.refill, isCancelable := n.cancel } := by
  unfold equip
  split
  · rfl
  · next h =>
    simp only [not_or, not_not] at h
    rw [← h.1, ← h.2]

theorem Refresh.retype_row : (r.retype n).row = { r.row with
    serviceType := .some n.serviceType
    isActive := r.row.isActive && (r.row.serviceType = .some n.serviceType || n.supported) } := by
  unfold retype
  split
  · next h => simp [h]
  · next h =>
    have h := not_not.mp h
    simp [← h]

/-- The name a service has once its row is read. -/
def followed (n : NormalizedService) (svc : ServiceRow) : String :=
  if svc.externalName ≠ .some n.name ∧ (svc.externalName = .none ∨ svc.externalName = .some svc.name) then n.name
  else svc.name

theorem Refresh.rename_row : (r.rename n).row = { r.row with name := followed n r.row, externalName := .some n.name } := by
  unfold rename followed
  split
  · next h =>
    simp only [note]
    split <;> simp_all
  · next h =>
    have h := not_not.mp h
    simp [← h]

/-- A service that has been brought up to date, column by column. -/
theorem refreshService_row : (refreshService now svc n).row = { svc with
    isRemovedUpstream := false
    ratePer1000Paise := n.ratePer1000Paise
    minQty := n.minQty
    maxQty := n.maxQty
    isRefillable := n.refill
    isCancelable := n.cancel
    serviceType := .some n.serviceType
    isActive := svc.isActive && (svc.serviceType = .some n.serviceType || n.supported)
    name := followed n svc
    externalName := .some n.name
    externalCategory := .some n.category
    lastSyncedAt := .some now } := by
  simp only [refreshService, Refresh.stamp, Refresh.rename_row, Refresh.retype_row, Refresh.equip_row,
    Refresh.relimit_row, Refresh.reprice_row, Refresh.restore_row]
  rfl

theorem refreshService_id : (refreshService now svc n).row.id = svc.id := by rw [refreshService_row]

theorem Refresh.changed_steps (h : r.changed = true) : (r.reprice n).changed = true ∧ (r.relimit n).changed = true ∧
    (r.equip n).changed = true ∧ (r.retype n).changed = true ∧ (r.rename n).changed = true := by
  refine ⟨?_, ?_, ?_, ?_, ?_⟩
  · unfold reprice; split <;> first | rfl | exact h
  · unfold relimit; split <;> first | rfl | exact h
  · unfold equip; split <;> first | rfl | exact h
  · unfold retype; split <;> first | rfl | exact h
  · unfold rename; split <;> first | rfl | exact h

/-- A service that comes back counts as changed. -/
theorem refreshService_changed (h : svc.isRemovedUpstream = true) : (refreshService now svc n).changed = true := by
  have hstep {r : Refresh} (hr : r.changed = true) := Refresh.changed_steps (n := n) hr
  have hrestored : Refresh.changed (Refresh.restore { row := svc }) = true := by
    rw [Refresh.restore, if_pos h]
    rfl
  exact (hstep (hstep (hstep (hstep (hstep hrestored).1).2.1).2.2.1).2.2.2.1).2.2.2.2

end

/-! ## The services a run writes -/

/-- The row a listed service is brought to, if it is known. -/
def refreshed (now : Time) (known : List (String × ServiceRow)) (p : String × NormalizedService) : Option ServiceRow :=
  (lookup known p.1).map fun svc => (refreshService now svc p.2).row

/-- The row a service is brought to that is listed no more. -/
def retired (rows : List (String × NormalizedService)) (q : String × ServiceRow) : Option ServiceRow :=
  if rows.any (·.1 == q.1) || q.2.isRemovedUpstream then .none
  else .some { q.2 with isRemovedUpstream := true, isActive := false }

/-- All the rows a run sets. -/
def written (now : Time) (known : List (String × ServiceRow)) (rows : List (String × NormalizedService)) : List ServiceRow :=
  rows.filterMap (refreshed now known) ++ known.filterMap (retired rows)

/-- What becomes of a service, by the valid row of its external id. -/
def brought (now : Time) (provider : ProviderRow) (valid : String → Option NormalizedService) (s : ServiceRow) : ServiceRow :=
  if s.providerId = provider.id then
    match valid s.providerServiceId with
    | .some n => (refreshService now s n).row
    | .none => if s.isRemovedUpstream then s else { s with isRemovedUpstream := true, isActive := false }
  else s

section

variable {now : Time} {provider : ProviderRow} {db d : SyncDb} {rows : List (String × NormalizedService)} {s : ServiceRow}

theorem mem_known {q : String × ServiceRow} (h : q ∈ byExternal (existingRows provider db)) :
    q.2 ∈ db.services.rows ∧ q.2.providerServiceId = q.1 := by
  obtain ⟨e, svc⟩ := q
  obtain ⟨hm, he⟩ := mem_byExternal h
  exact ⟨(List.mem_filter.mp hm).1, he⟩

theorem refreshed_eq {p : String × NormalizedService} {u : ServiceRow}
    (h : refreshed now (byExternal (existingRows provider db)) p = .some u) : ∃ svc,
      lookup (byExternal (existingRows provider db)) p.1 = .some svc ∧ u = (refreshService now svc p.2).row ∧
        svc ∈ db.services.rows ∧ u.id = svc.id ∧ svc.providerServiceId = p.1 := by
  obtain ⟨svc, hsvc, rfl⟩ := Option.map_eq_some_iff.mp h
  obtain ⟨hm, he⟩ := mem_known (lookup_mem hsvc)
  exact ⟨svc, hsvc, rfl, hm, refreshService_id, he⟩

theorem retired_eq {q : String × ServiceRow} {u : ServiceRow} (h : retired rows q = .some u) :
    (∀ p ∈ rows, p.1 ≠ q.1) ∧ q.2.isRemovedUpstream = false ∧ u.id = q.2.id ∧ u.isRemovedUpstream = true := by
  unfold retired at h
  split at h
  · cases h
  · next hgo =>
    cases h
    simp only [Bool.or_eq_true, List.any_eq_true, beq_iff_eq, not_or, not_exists, not_and, Bool.not_eq_true] at hgo
    exact ⟨hgo.1, hgo.2, rfl, rfl⟩

theorem nodup_filterMap {α : Type} {key : α → String} {f : α → Option ServiceRow} {l : List α}
    (hl : (l.map key).Nodup)
    (h : ∀ a a' u u', f a = .some u → f a' = .some u' → a ∈ l → a' ∈ l → u.id = u'.id → key a = key a') :
    ((l.filterMap f).map (·.id)).Nodup := by
  rw [List.Nodup, List.pairwise_map, List.pairwise_filterMap]
  exact (List.pairwise_map.mp hl).imp_of_mem fun ha ha' hne u hu u' hu' hid => hne (h _ _ u u' hu hu' ha ha' hid)

/-- No two rows that a run writes have one id. -/
theorem nodup_written (hrows : (rows.map (·.1)).Nodup) :
    ((written now (byExternal (existingRows provider db)) rows).map (·.id)).Nodup := by
  have hone {svc svc' : ServiceRow} (h : svc ∈ db.services.rows) (h' : svc' ∈ db.services.rows) (hid : svc.id = svc'.id) :
      svc.providerServiceId = svc'.providerServiceId := by rw [Table.unique h h' hid]
  rw [written, List.map_append, List.nodup_append]
  refine ⟨?_, ?_, ?_⟩
  · refine nodup_filterMap hrows fun p p' u u' hu hu' _ _ hid => ?_
    obtain ⟨svc, _, _, hm, hs, he⟩ := refreshed_eq hu
    obtain ⟨svc', _, _, hm', hs', he'⟩ := refreshed_eq hu'
    rw [← he, ← he']
    exact hone hm hm' (hs.symm.trans (hid.trans hs'))
  · refine nodup_filterMap byExternal_keys fun q q' u u' hu hu' hq hq' hid => ?_
    obtain ⟨hm, he⟩ := mem_known hq
    obtain ⟨hm', he'⟩ := mem_known hq'
    rw [← he, ← he']
    exact hone hm hm' ((retired_eq hu).2.2.1.symm.trans (hid.trans (retired_eq hu').2.2.1))
  · intro id hid id' hid' heq
    obtain ⟨u, hu, rfl⟩ := List.mem_map.mp hid
    obtain ⟨u', hu', rfl⟩ := List.mem_map.mp hid'
    obtain ⟨p, hp, hpu⟩ := List.mem_filterMap.mp hu
    obtain ⟨q, hq, hqu⟩ := List.mem_filterMap.mp hu'
    obtain ⟨svc, _, _, hm, hs, he⟩ := refreshed_eq hpu
    obtain ⟨hm', he'⟩ := mem_known hq
    obtain ⟨hunlisted, _, hs', _⟩ := retired_eq hqu
    refine hunlisted p hp ?_
    rw [← he, ← he']
    exact hone hm hm' (hs.symm.trans (heq.trans hs'))

/-- What a run writes is of the provider's own services. -/
theorem mem_written {u : ServiceRow} (h : u ∈ written now (byExternal (existingRows provider db)) rows) :
    ∃ s ∈ existingRows provider db, u.id = s.id := by
  rcases List.mem_append.mp h with h | h
  · obtain ⟨p, _, hp⟩ := List.mem_filterMap.mp h
    obtain ⟨svc, hsvc, _, _, hid, _⟩ := refreshed_eq hp
    exact ⟨svc, (mem_byExternal (lookup_mem hsvc)).1, hid⟩
  · obtain ⟨q, hq, hqu⟩ := List.mem_filterMap.mp h
    exact ⟨q.2, (mem_byExternal hq).1, (retired_eq hqu).2.2.1⟩

theorem after_written (hids : ((existingRows provider db).map (·.providerServiceId)).Nodup) (hrows : (rows.map (·.1)).Nodup)
    (hs : s ∈ db.services.rows) :
    after (fun s : ServiceRow => s.id) (written now (byExternal (existingRows provider db)) rows) s =
      brought now provider (lookup rows) s := by
  have hnodup : ((written now (byExternal (existingRows provider db)) rows).map (·.id)).Nodup := nodup_written hrows
  unfold brought
  split
  · next hown =>
    have hex : s ∈ existingRows provider db := List.mem_filter.mpr ⟨hs, by simpa using hown⟩
    have hknown := lookup_byExternal hids hex
    split
    · next n hn =>
      have hu : refreshed now (byExternal (existingRows provider db)) (s.providerServiceId, n) =
          .some (refreshService now s n).row := by simp [refreshed, hknown]
      have hmem := List.mem_append_left ((byExternal (existingRows provider db)).filterMap (retired rows))
        (List.mem_filterMap.mpr ⟨_, lookup_mem hn, hu⟩)
      exact after_of_mem hnodup hmem refreshService_id
    · next hn =>
      have hunlisted : s.providerServiceId ∉ rows.map (·.1) := by
        rw [← lookup_isSome, hn]
        exact Bool.false_ne_true
      split
      · next hremoved =>
        refine after_of_not_mem fun hm => ?_
        obtain ⟨u, hu, hid⟩ := List.mem_map.mp hm
        rcases List.mem_append.mp hu with hu | hu
        · obtain ⟨p, hp, hpu⟩ := List.mem_filterMap.mp hu
          obtain ⟨svc, _, _, hsvc, hsame, he⟩ := refreshed_eq hpu
          rw [Table.unique hsvc hs (hsame.symm.trans hid)] at he
          exact hunlisted (he ▸ List.mem_map_of_mem hp)
        · obtain ⟨q, hq, hqu⟩ := List.mem_filterMap.mp hu
          obtain ⟨_, hlive, hsame, _⟩ := retired_eq hqu
          rw [Table.unique (mem_known hq).1 hs (hsame.symm.trans hid), hremoved] at hlive
          cases hlive
      · next hlive =>
        have hu : retired rows (s.providerServiceId, s) = .some { s with isRemovedUpstream := true, isActive := false } := by
          refine if_neg ?_
          simp only [Bool.or_eq_true, not_or, List.any_eq_true, beq_iff_eq, not_exists, not_and]
          exact ⟨fun p hp he => hunlisted (he ▸ List.mem_map_of_mem hp), hlive⟩
        have hmem := List.mem_append_right (rows.filterMap (refreshed now (byExternal (existingRows provider db))))
          (List.mem_filterMap.mpr ⟨_, lookup_mem hknown, hu⟩)
        exact after_of_mem hnodup hmem rfl
  · next hother =>
    refine after_of_not_mem fun hm => ?_
    obtain ⟨u, hu, hid⟩ := List.mem_map.mp hm
    obtain ⟨svc, hsvc, hsame⟩ := mem_written hu
    obtain ⟨hsvc, hown⟩ := List.mem_filter.mp hsvc
    rw [Table.unique hsvc hs (hsame.symm.trans hid)] at hown
    exact hother (by simpa using hown)

end

/-! ## What a run leaves -/

/-- The services and categories are the same. -/
def SameCatalog (a b : SyncDb) : Prop := b.services = a.services ∧ b.categories = a.categories

/-- A service that was added for a row of the list. -/
def IsNew (now : Time) (provider : ProviderRow) (row : String × NormalizedService) (s : ServiceRow) : Prop :=
  ∃ categoryId, s = newService now provider.id row.1 categoryId (provider.autoActivateNew && row.2.supported) row.2

/-- The added services are those of the rows. -/
structure Adds (now : Time) (provider : ProviderRow) (rows : List (String × NormalizedService)) (added : List ServiceRow) :
    Prop where
  isNew : ∀ s ∈ added, ∃ row ∈ rows, IsNew now provider row s
  complete : ∀ row ∈ rows, ∃ s ∈ added, IsNew now provider row s

theorem Adds.nil {now : Time} {provider : ProviderRow} : Adds now provider [] [] :=
  ⟨fun _ h => absurd h List.not_mem_nil, fun _ h => absurd h List.not_mem_nil⟩

theorem Adds.concat {now : Time} {provider : ProviderRow} {rows : List (String × NormalizedService)}
    {added : List ServiceRow} {row : String × NormalizedService} {s : ServiceRow} (h : Adds now provider rows added)
    (hs : IsNew now provider row s) : Adds now provider (rows ++ [row]) (added ++ [s]) := by
  refine ⟨fun s' hs' => ?_, fun row' hrow' => ?_⟩
  · rcases List.mem_append.mp hs' with hs' | hs'
    · obtain ⟨row', hrow', hnew⟩ := h.isNew s' hs'
      exact ⟨row', List.mem_append_left _ hrow', hnew⟩
    · exact ⟨row, by simp, List.mem_singleton.mp hs' ▸ hs⟩
  · rcases List.mem_append.mp hrow' with hrow' | hrow'
    · obtain ⟨s', hs', hnew⟩ := h.complete row' hrow'
      exact ⟨s', List.mem_append_left _ hs', hnew⟩
    · exact ⟨s, by simp, List.mem_singleton.mp hrow' ▸ hs⟩

/-- `d` has each service of `db` as the updates `us` make it, and the added
ones. No category is lost, and none is touched unless a service is added. -/
structure Merged (db : SyncDb) (us added : List ServiceRow) (d : SyncDb) : Prop where
  services : d.services.rows = db.services.rows.map (after (fun s : ServiceRow => s.id) us) ++ added
  categories : ∀ c ∈ db.categories.rows, c.id ∈ d.categories.rows.map (·.id)
  untouched : added = [] → d.categories = db.categories

/-- The counters after `n` rows of the list. -/
structure Counted (invalid n : Nat) (report : SyncReport) : Prop where
  status : report.status = .ok
  skipped : report.skippedInvalid = invalid
  total : report.added + report.updated + report.unchanged = n
  restored : report.restored ≤ report.updated

theorem SameCatalog.merged {db d : SyncDb} (h : SameCatalog db d) : Merged db [] [] d := by
  refine ⟨?_, fun c hc => ?_, fun _ => h.2⟩
  · rw [h.1, List.append_nil]
    exact (List.map_id' _).symm
  · rw [h.2]
    exact List.mem_map_of_mem hc

section

variable {py : Builtins} {now : Time} {provider : ProviderRow} {db : SyncDb} {s : Txn.Session SyncDb Row Empty}
  {known : List (String × ServiceRow)} {rows done : List (String × NormalizedService)} {invalid : Nat} {p : Progress}
  {row : String × NormalizedService} {J K : SyncDb → Prop}

/-- Once what is staged is written, the tables meet `J`. -/
abbrev Leads (J : SyncDb → Prop) (s : Txn.Session SyncDb Row Empty) : Prop := s.Will fun s' => J s'.db

theorem wp_stmt {w : SyncStmt} {Q : Unit → Txn.Session SyncDb Row Empty → Prop} (h : Leads J s)
    (hw : ∀ d, J d → w.admits d = true → K (w.apply d)) (hQ : ∀ s', Leads K s' → Q () s') :
    (write w : SM Unit).wp Q (fun _ _ => True) s :=
  wp_write_will h (K := fun s' => K s'.db) (fun s' hJ ha => hw s'.db hJ ha) fun s' _ hK => hQ s' hK

theorem wp_flush_leads {Q : Unit → Txn.Session SyncDb Row Empty → Prop} (h : Leads J s)
    (hQ : ∀ s', Leads J s' → Q () s') : flush.wp Q (fun _ _ => True) s :=
  wp_flushed_will h trivial fun s' hst _ hJ => hQ s' (.of hst hJ)

/-- A category is added or activated, and nothing else is done. -/
theorem wp_ensureCategory {name : String} {active : Bool} {cache : List (String × CategoryRow)}
    (hadd : ∀ d c, J d → J { d with categories := d.categories.add c })
    (hset : ∀ d c, J d → J { d with categories := d.categories.set c }) (h : Leads J s) :
    (ensureCategory py name active cache).wp (fun _ s' => Leads J s') (fun _ _ => True) s := by
  simp only [ensureCategory, wp_bind, wp_query]
  split
  · simp only [wp_bind]
    exact wp_stmt h (fun d hd _ => hadd d _ hd) fun s₁ h₁ => wp_flush_leads h₁ fun s₂ h₂ => h₂
  · split
    · simp only [wp_bind]
      exact wp_stmt h (fun d hd _ => hset d _ hd) fun s₁ h₁ => h₁
    · exact h

/-- The rows of the list that are not known. -/
def unknown (known : List (String × ServiceRow)) (rows : List (String × NormalizedService)) :
    List (String × NormalizedService) := rows.filter fun row => (lookup known row.1).isNone

/-- Some of the list is worked off. -/
structure Merging (now : Time) (provider : ProviderRow) (db : SyncDb) (known : List (String × ServiceRow)) (invalid : Nat)
    (done : List (String × NormalizedService)) (p : Progress) (s : Txn.Session SyncDb Row Empty) : Prop where
  report : Counted invalid done.length p.report
  leads : Leads (fun d => ∃ added, Adds now provider (unknown known done) added ∧
    Merged db (done.filterMap (refreshed now known)) added d) s

theorem wp_addNew (h : Merging now provider db known invalid done p s) (hnew : lookup known row.1 = .none) :
    (addNew py now provider row.1 row.2 p).wp (Merging now provider db known invalid (done ++ [row]))
      (fun _ _ => True) s := by
  simp only [addNew, wp_bind]
  -- what holds between the category and the service
  have hbetween : Leads (fun d => ∃ added, Adds now provider (unknown known done) added ∧
      d.services.rows = db.services.rows.map (after (fun s : ServiceRow => s.id) (done.filterMap (refreshed now known))) ++ added ∧
      ∀ c ∈ db.categories.rows, c.id ∈ d.categories.rows.map (·.id)) s :=
    h.leads.mono fun _ hmerged => by
      obtain ⟨added, hadded, hd⟩ := hmerged
      exact ⟨added, hadded, hd.services, hd.categories⟩
  refine wp_mono (wp_ensureCategory ?_ ?_ hbetween) (fun a s₁ h₁ => ?_) fun _ _ _ => trivial
  · rintro d c ⟨added, hadded, hservices, hcategories⟩
    exact ⟨added, hadded, hservices, fun c' hc' => Table.keys_add (hcategories c' hc')⟩
  · rintro d c ⟨added, hadded, hservices, hcategories⟩
    refine ⟨added, hadded, hservices, fun c' hc' => ?_⟩
    rw [Table.keys_set]
    exact hcategories c' hc'
  refine wp_stmt h₁ (fun d hd ha => ?_) fun s₂ h₂ => ⟨?_, h₂⟩
  · obtain ⟨added, hadded, hservices, hcategories⟩ := hd
    have hfree : d.services.has (newService now provider.id row.1 a.1.id (provider.autoActivateNew && row.2.supported) row.2).id =
        false := by simpa [SyncStmt.addService] using ha
    have hus : (done ++ [row]).filterMap (refreshed now known) = done.filterMap (refreshed now known) := by
      simp [refreshed, hnew]
    have hrow : unknown known (done ++ [row]) = unknown known done ++ [row] := by simp [unknown, hnew]
    refine ⟨added ++ [newService now provider.id row.1 a.1.id (provider.autoActivateNew && row.2.supported) row.2], ?_,
      ?_, hcategories, fun h0 => absurd h0 (by simp)⟩
    · rw [hrow]
      exact hadded.concat ⟨a.1.id, rfl⟩
    · rw [hus]
      exact Table.add_after hservices hfree
  · obtain ⟨hstatus, hskipped, htotal, hrestored⟩ := h.report
    refine ⟨hstatus, hskipped, ?_, hrestored⟩
    simp only [List.length_append, List.length_singleton]
    omega

theorem wp_updateKnown {svc : ServiceRow} (h : Merging now provider db known invalid done p s)
    (hknown : lookup known row.1 = .some svc) (hsvc : svc ∈ db.services.rows)
    (hnodup : (((done ++ [row]).filterMap (refreshed now known)).map (·.id)).Nodup) :
    (updateKnown now svc row.2 p).wp (Merging now provider db known invalid (done ++ [row])) (fun _ _ => True) s := by
  simp only [updateKnown, wp_bind]
  have hus : (done ++ [row]).filterMap (refreshed now known) =
      done.filterMap (refreshed now known) ++ [(refreshService now svc row.2).row] := by
    simp [refreshed, hknown]
  refine wp_stmt h.leads (fun d hd _ => ?_) fun s₁ h₁ => ⟨?_, h₁⟩
  · obtain ⟨added, hadded, hd⟩ := hd
    have hrow : unknown known (done ++ [row]) = unknown known done := by simp [unknown, hknown]
    rw [hus, List.map_append, List.nodup_append] at hnodup
    refine ⟨added, hrow ▸ hadded, ?_, hd.categories, hd.untouched⟩
    rw [hus]
    refine Table.set_after hd.services (fun hm => ?_) ?_
    · exact hnodup.2.2 _ hm _ (List.mem_singleton_self _) rfl
    · exact List.mem_map.mpr ⟨svc, hsvc, refreshService_id.symm⟩
  · obtain ⟨hstatus, hskipped, htotal, hrestored⟩ := h.report
    have hchanged : svc.isRemovedUpstream = true → (refreshService now svc row.2).changed = true := refreshService_changed
    refine ⟨hstatus, hskipped, ?_, ?_⟩
    · simp only [List.length_append, List.length_singleton]
      split <;> omega
    · dsimp only
      by_cases hremoved : svc.isRemovedUpstream = true
      · rw [if_pos hremoved, if_pos (hchanged hremoved)]
        omega
      · rw [if_neg hremoved]
        omega

theorem wp_syncRow (h : Merging now provider db (byExternal (existingRows provider db)) invalid done p s)
    (hrows : ((done ++ [row]).map (·.1)).Nodup) :
    (syncRow py now provider (byExternal (existingRows provider db)) p row).wp
      (Merging now provider db (byExternal (existingRows provider db)) invalid (done ++ [row])) (fun _ _ => True) s := by
  unfold syncRow
  split
  · next hnew => exact wp_addNew h hnew
  · next svc hknown =>
    have hnodup : ((written now (byExternal (existingRows provider db)) (done ++ [row])).map (·.id)).Nodup := nodup_written hrows
    rw [written, List.map_append, List.nodup_append] at hnodup
    exact wp_updateKnown h hknown (mem_known (lookup_mem hknown)).1 hnodup.1

/-- The known services that a run has looked for in the list. -/
structure Retiring (now : Time) (provider : ProviderRow) (db : SyncDb) (rows : List (String × NormalizedService))
    (known : List (String × ServiceRow)) (invalid : Nat) (done : List (String × ServiceRow)) (report : SyncReport)
    (s : Txn.Session SyncDb Row Empty) : Prop where
  report : Counted invalid rows.length report
  leads : Leads (fun d => ∃ added, Adds now provider (unknown known rows) added ∧
    Merged db (rows.filterMap (refreshed now known) ++ done.filterMap (retired rows)) added d) s

theorem wp_removeUpstream {gone : List (String × ServiceRow)} {report : SyncReport} {q : String × ServiceRow}
    (h : Retiring now provider db rows known invalid gone report s) (hsvc : q.2 ∈ db.services.rows)
    (hnodup : ((rows.filterMap (refreshed now known) ++ (gone ++ [q]).filterMap (retired rows)).map (·.id)).Nodup) :
    (removeUpstream rows report q).wp (Retiring now provider db rows known invalid (gone ++ [q])) (fun _ _ => True) s := by
  unfold removeUpstream
  dsimp only
  split
  · next hskip =>
    have hnone : (gone ++ [q]).filterMap (retired rows) = gone.filterMap (retired rows) := by simp [retired, hskip]
    exact ⟨h.report, hnone ▸ h.leads⟩
  · next hgo =>
    simp only [wp_bind]
    have hsome : rows.filterMap (refreshed now known) ++ (gone ++ [q]).filterMap (retired rows) =
        (rows.filterMap (refreshed now known) ++ gone.filterMap (retired rows)) ++
          [{ q.2 with isRemovedUpstream := true, isActive := false }] := by simp [retired, hgo]
    refine wp_stmt h.leads (fun d hd _ => ?_) fun s₁ h₁ => ⟨⟨h.report.1, h.report.2, h.report.3, h.report.4⟩, h₁⟩
    obtain ⟨added, hadded, hd⟩ := hd
    rw [hsome, List.map_append, List.nodup_append] at hnodup
    refine ⟨added, hadded, ?_, hd.categories, hd.untouched⟩
    rw [hsome]
    refine Table.set_after hd.services (fun hm => ?_) (List.mem_map.mpr ⟨q.2, hsvc, rfl⟩)
    exact hnodup.2.2 _ hm _ (List.mem_singleton_self _) rfl

theorem wp_applyRows {report : SyncReport} (hrows : (rows.map (·.1)).Nodup) (hreport : Counted invalid 0 report)
    (h : Leads (SameCatalog db) s) :
    (applyRows py now provider (existingRows provider db) rows report).wp
      (Retiring now provider db rows (byExternal (existingRows provider db)) invalid (byExternal (existingRows provider db)))
      (fun _ _ => True) s := by
  simp only [applyRows, wp_bind]
  have hstart : Merging now provider db (byExternal (existingRows provider db)) invalid [] ⟨[], report⟩ s :=
    ⟨hreport, h.mono fun s' hs => ⟨[], Adds.nil, hs.merged⟩⟩
  refine wp_mono (wp_foldlM hstart fun done row rest p s hl hp => wp_syncRow hp ?_) (fun p s₁ h₁ => ?_) fun _ _ _ => trivial
  · rw [hl, List.append_cons, List.map_append] at hrows
    exact (List.nodup_append.mp hrows).1
  have hloop : Retiring now provider db rows (byExternal (existingRows provider db)) invalid [] p.report s₁ := by
    refine ⟨h₁.report, ?_⟩
    rw [List.filterMap_nil, List.append_nil]
    exact h₁.leads
  refine wp_foldlM hloop fun gone q rest report s hl hr => ?_
  have hq : q ∈ byExternal (existingRows provider db) := hl ▸ List.mem_append_right _ List.mem_cons_self
  refine wp_removeUpstream hr (mem_known hq).1 ?_
  · have hsplit : (byExternal (existingRows provider db)).filterMap (retired rows) =
        (gone ++ [q]).filterMap (retired rows) ++ rest.filterMap (retired rows) := by
      rw [hl, List.append_cons, List.filterMap_append]
    have hnodup : ((written now (byExternal (existingRows provider db)) rows).map (·.id)).Nodup := nodup_written hrows
    rw [written, hsplit, ← List.append_assoc, List.map_append] at hnodup
    exact (List.nodup_append.mp hnodup).1

/-- The end of a run leaves the catalog alone. -/
theorem wp_finish {run : SyncRun} {report : SyncReport} (hJ : ∀ d d', SameCatalog d d' → J d → J d') (h : Leads J s) :
    (finish now provider run report).wp (fun report' s' => report' = report ∧ Leads J s') (fun _ _ => True) s := by
  simp only [finish, wp_bind]
  refine wp_stmt h (fun d hd _ => hJ d _ ⟨rfl, rfl⟩ hd) fun s₁ h₁ => ?_
  refine wp_stmt h₁ (fun d hd _ => hJ d _ ⟨rfl, rfl⟩ hd) fun s₂ h₂ => ?_
  split
  · simp only [wp_bind]
    refine wp_stmt h₂ (fun d hd _ => hJ d _ ⟨rfl, rfl⟩ hd) fun s₃ h₃ => ?_
    exact wp_flush_leads h₃ fun s₄ h₄ => ⟨rfl, h₄⟩
  · simp only [wp_bind]
    exact wp_flush_leads h₂ fun s₃ h₃ => ⟨rfl, h₃⟩

end

/-! ## Runs -/

section

variable (py : Builtins) (now : Time) (runId : Nat) (provider : ProviderRow) (adapter : Except String PerfectPanelAdapter)
  (panel : Extra → HttpAnswer)

/-- The report of a run that ends with one, and the tables it then commits. -/
def syncing (db : SyncDb) : Option (SyncReport × SyncDb) :=
  match (syncProvider py now runId provider adapter panel).run { db := db } with
  | (.ok report, s) => (Txn.flushAll s.staged s.db).map fun db' => (report, db')
  | (.error _, _) => .none

/-- How many of the provider's services are not removed. -/
def previousLive (db : SyncDb) : Nat := (existingRows provider db).countP fun s => !s.isRemovedUpstream

/-- Why the list is not applied, if it is not. -/
def refusal (db : SyncDb) (upstream : List ProviderService) : Option String :=
  looksMalformed (previousLive provider db) (validated provider.fx upstream).1.length
    (validated provider.fx upstream).2

end

section

variable {py : Builtins} {now : Time} {runId : Nat} {provider : ProviderRow} {adapter : Except String PerfectPanelAdapter}
  {panel : Extra → HttpAnswer} {db : SyncDb}

/-- How a run ends that ends with a report: without a list, with one that it
takes for malformed, or with one that it has applied. -/
inductive Outcome (py : Builtins) (now : Time) (provider : ProviderRow) (adapter : Except String PerfectPanelAdapter)
    (panel : Extra → HttpAnswer) (db : SyncDb) (report : SyncReport) (d : SyncDb) : Prop
  | failed (e : ProviderError) : fetch py adapter panel = .error (.provider e) → report.status = .error →
      SameCatalog db d → Outcome py now provider adapter panel db report d
  | refused (upstream : List ProviderService) : fetch py adapter panel = .ok upstream →
      (refusal provider db upstream).isSome = true → report.status = .aborted →
      report.skippedInvalid = (validated provider.fx upstream).2 → SameCatalog db d →
      Outcome py now provider adapter panel db report d
  | applied (upstream : List ProviderService) (added : List ServiceRow) : fetch py adapter panel = .ok upstream →
      refusal provider db upstream = .none →
      Counted (validated provider.fx upstream).2 (validated provider.fx upstream).1.length report →
      Adds now provider (unknown (byExternal (existingRows provider db)) (validated provider.fx upstream).1)
        added →
      Merged db (written now (byExternal (existingRows provider db)) (validated provider.fx upstream).1) added d →
      Outcome py now provider adapter panel db report d

theorem wp_syncProvider : (syncProvider py now runId provider adapter panel).wp
    (fun report s => Leads (Outcome py now provider adapter panel db report) s) (fun _ _ => True) { db := db } := by
  have hclose {d d' : SyncDb} (hs : SameCatalog d d') (hsame : SameCatalog db d) : SameCatalog db d' :=
    ⟨hs.1.trans hsame.1, hs.2.trans hsame.2⟩
  simp only [syncProvider, wp_bind]
  have hstart : Leads (SameCatalog db) ({ db := db } : Txn.Session SyncDb Row Empty) := .of rfl ⟨rfl, rfl⟩
  refine wp_stmt hstart (fun d hd _ => hclose ⟨rfl, rfl⟩ hd) fun s₁ h₁ => ?_
  refine wp_flushed_will h₁ trivial fun s₂ hst _ hsame => ?_
  have hleads : Leads (SameCatalog db) s₂ := .of hst hsame
  split
  · next e he =>
    refine wp_mono (wp_finish (fun _ _ => hclose) hleads) (fun report s₃ h₃ => ?_) fun _ _ _ => trivial
    obtain ⟨rfl, h₃⟩ := h₃
    exact h₃.mono fun _ hd => .failed e he rfl hd
  · trivial
  · next upstream hup =>
    have hexisting : existingRows provider s₂.db = existingRows provider db := by rw [existingRows, hsame.1, existingRows]
    simp only [wp_bind, wp_query, hexisting]
    cases hreason : looksMalformed (previousLive provider db) (validated provider.fx upstream).1.length
        (validated provider.fx upstream).2 with
    | some reason =>
      have hrefusal : refusal provider db upstream = .some reason := hreason
      rw [previousLive] at hreason
      simp only [hreason]
      refine wp_mono (wp_finish (fun _ _ => hclose) hleads) (fun report s₃ h₃ => ?_) fun _ _ _ => trivial
      obtain ⟨rfl, h₃⟩ := h₃
      exact h₃.mono fun _ hd => .refused upstream hup (by rw [hrefusal]; rfl) rfl rfl hd
    | none =>
      have hrefusal : refusal provider db upstream = .none := hreason
      rw [previousLive] at hreason
      simp only [hreason, wp_bind]
      refine wp_mono (wp_applyRows validated_keys ⟨rfl, rfl, rfl, Nat.le_refl 0⟩ hleads) (fun report s₃ h₃ => ?_)
        fun _ _ _ => trivial
      refine wp_mono (wp_finish (fun d d' hs hd => ?_) h₃.leads) (fun report' s₄ h₄ => ?_) fun _ _ _ => trivial
      · obtain ⟨added, hadded, hd⟩ := hd
        exact ⟨added, hadded, hs.1 ▸ hd.services, hs.2 ▸ hd.categories, fun h0 => hs.2.trans (hd.untouched h0)⟩
      · obtain ⟨rfl, h₄⟩ := h₄
        refine h₄.mono fun _ hmerged => ?_
        obtain ⟨added, hadded, hd⟩ := hmerged
        exact .applied upstream added hup hrefusal h₃.report hadded hd

theorem syncing_outcome {report : SyncReport} {db' : SyncDb}
    (hrun : syncing py now runId provider adapter panel db = .some (report, db')) :
    Outcome py now provider adapter panel db report db' := by
  unfold syncing at hrun
  split at hrun
  · next report' s hs =>
    obtain ⟨d, hf, heq⟩ := Option.map_eq_some_iff.mp hrun
    cases heq
    exact wp_ok wp_syncProvider hs _ hf
  · cases hrun

end

/-! ## The rules of the catalog -/

/-- What a run may make of the catalog that applies a list with the valid rows
`valid`: a service keeps its row, and comes to no activity by itself. -/
structure Synced (provider : ProviderRow) (valid : String → Option NormalizedService) (db db' : SyncDb) : Prop where
  servicesKept : ∀ s ∈ db.services.rows, ∃ s' ∈ db'.services.rows, s'.id = s.id
  categoriesKept : ∀ c ∈ db.categories.rows, ∃ c' ∈ db'.categories.rows, c'.id = c.id
  notActivated : ∀ s ∈ db.services.rows, ∀ s' ∈ db'.services.rows, s'.id = s.id → s.isActive = false → s'.isActive = false
  removed : ∀ s' ∈ db'.services.rows, s'.providerId = provider.id →
    (s'.isRemovedUpstream = true ↔ valid s'.providerServiceId = .none) ∧
      (s'.isRemovedUpstream = true → s'.isActive = false)
  deactivated : ∀ s ∈ db.services.rows, ∀ s' ∈ db'.services.rows, s'.id = s.id → s.providerId = provider.id →
    ∀ n, valid s.providerServiceId = .some n → s.isActive = true → s'.isActive = false →
      s.serviceType ≠ .some n.serviceType ∧ n.supported = false
  values : ∀ s' ∈ db'.services.rows, s'.providerId = provider.id → ∀ n, valid s'.providerServiceId = .some n →
    s'.ratePer1000Paise = n.ratePer1000Paise ∧ s'.minQty = n.minQty ∧ s'.maxQty = n.maxQty ∧
      s'.isRefillable = n.refill ∧ s'.isCancelable = n.cancel
  namesKept : ∀ s ∈ db.services.rows, ∀ s' ∈ db'.services.rows, s'.id = s.id →
    (∃ e, s.externalName = .some e ∧ s.name ≠ e) → s'.name = s.name
  descriptionsKept : ∀ s ∈ db.services.rows, ∀ s' ∈ db'.services.rows, s'.id = s.id → s'.description = s.description
  othersKept : ∀ s ∈ db.services.rows, s.providerId ≠ provider.id → s ∈ db'.services.rows
  listed : ∀ e n, valid e = .some n → ∃ s' ∈ db'.services.rows, s'.providerId = provider.id ∧ s'.providerServiceId = e

section

variable {now : Time} {provider : ProviderRow} {valid : String → Option NormalizedService} {db db' : SyncDb}
  {s : ServiceRow} {added : List ServiceRow}

/-- The ways a service can go. -/
inductive Brought (now : Time) (provider : ProviderRow) (valid : String → Option NormalizedService) (s : ServiceRow) :
    ServiceRow → Prop
  | other : s.providerId ≠ provider.id → Brought now provider valid s s
  | listed (n : NormalizedService) : s.providerId = provider.id → valid s.providerServiceId = .some n →
      Brought now provider valid s (refreshService now s n).row
  | gone : s.providerId = provider.id → valid s.providerServiceId = .none → s.isRemovedUpstream = true →
      Brought now provider valid s s
  | retired : s.providerId = provider.id → valid s.providerServiceId = .none → s.isRemovedUpstream = false →
      Brought now provider valid s { s with isRemovedUpstream := true, isActive := false }

theorem brought_cases : Brought now provider valid s (brought now provider valid s) := by
  unfold brought
  split
  · next hown =>
    split
    · next n hn => exact .listed n hown hn
    · next hn =>
      split
      · next hremoved => exact .gone hown hn hremoved
      · next hlive => exact .retired hown hn (Bool.eq_false_iff.mpr hlive)
  · next hother => exact .other hother

section

variable {s' : ServiceRow} (h : Brought now provider valid s s')

include h

theorem Brought.kept : s'.id = s.id ∧ s'.providerId = s.providerId ∧ s'.providerServiceId = s.providerServiceId ∧
    s'.description = s.description := by
  cases h with
  | listed n => simp only [refreshService_row, and_self]
  | _ => exact ⟨rfl, rfl, rfl, rfl⟩

theorem Brought.inactive (hs : s.isActive = false) : s'.isActive = false := by
  cases h with
  | listed n => simp [refreshService_row, hs]
  | retired => rfl
  | _ => exact hs

theorem Brought.removed (hs : s.isRemovedUpstream = true → s.isActive = false) (hown : s.providerId = provider.id) :
    (s'.isRemovedUpstream = true ↔ valid s.providerServiceId = .none) ∧ (s'.isRemovedUpstream = true → s'.isActive = false) := by
  cases h with
  | other hne => exact absurd hown hne
  | listed n _ hn => simp [refreshService_row, hn]
  | gone _ hn hremoved => exact ⟨iff_of_true hremoved hn, hs⟩
  | retired _ hn _ => exact ⟨iff_of_true rfl hn, fun _ => rfl⟩

theorem Brought.of_valid {n : NormalizedService} (hown : s.providerId = provider.id)
    (hn : valid s.providerServiceId = .some n) : s' = (refreshService now s n).row := by
  cases h with
  | other hne => exact absurd hown hne
  | listed n' _ hn' => rw [Option.some.inj (hn.symm.trans hn')]
  | gone _ hnone | retired _ hnone =>
    rw [hn] at hnone
    cases hnone

theorem Brought.name {e : String} (he : s.externalName = .some e) (hne : s.name ≠ e) : s'.name = s.name := by
  cases h with
  | listed n =>
    rw [refreshService_row]
    refine if_neg fun hfollow => ?_
    rcases hfollow.2 with hnone | hsame
    · rw [he] at hnone
      cases hnone
    · rw [he] at hsame
      exact hne (Option.some.inj hsame).symm
  | _ => rfl

end

/-- The tables of a run that applies a list, row by row. -/
structure Follows (now : Time) (provider : ProviderRow) (valid : String → Option NormalizedService)
    (rows : List (String × NormalizedService)) (db db' : SyncDb) : Prop where
  forth : ∀ s ∈ db.services.rows, ∃ s' ∈ db'.services.rows, Brought now provider valid s s'
  back : ∀ s' ∈ db'.services.rows, (∃ s ∈ db.services.rows, Brought now provider valid s s') ∨
    ∃ row ∈ rows, IsNew now provider row s'
  listed : ∀ row ∈ rows, ∃ s' ∈ db'.services.rows, s'.providerId = provider.id ∧ s'.providerServiceId = row.1

theorem Merged.follows {rows : List (String × NormalizedService)} (hrows : (rows.map (·.1)).Nodup)
    (hids : ((existingRows provider db).map (·.providerServiceId)).Nodup)
    (hadded : Adds now provider (unknown (byExternal (existingRows provider db)) rows) added)
    (h : Merged db (written now (byExternal (existingRows provider db)) rows) added db') :
    Follows now provider (lookup rows) rows db db' := by
  have hservices : db'.services.rows = db.services.rows.map (brought now provider (lookup rows)) ++ added := by
    rw [h.services]
    congr 1
    exact List.map_congr_left fun s hs => after_written hids hrows hs
  have hforth {s : ServiceRow} (hs : s ∈ db.services.rows) : brought now provider (lookup rows) s ∈ db'.services.rows := by
    rw [hservices]
    exact List.mem_append_left _ (List.mem_map_of_mem hs)
  refine ⟨fun s hs => ⟨_, hforth hs, brought_cases⟩, fun s' hs' => ?_, fun row hrow => ?_⟩
  · rw [hservices] at hs'
    rcases List.mem_append.mp hs' with hs' | hs'
    · obtain ⟨s, hs, rfl⟩ := List.mem_map.mp hs'
      exact .inl ⟨s, hs, brought_cases⟩
    · obtain ⟨row, hrow, hnew⟩ := hadded.isNew s' hs'
      exact .inr ⟨row, List.mem_of_mem_filter hrow, hnew⟩
  · cases hknown : lookup (byExternal (existingRows provider db)) row.1 with
    | some s =>
      obtain ⟨hex, he⟩ := mem_byExternal (lookup_mem hknown)
      obtain ⟨hs, hown⟩ := List.mem_filter.mp hex
      have hb : Brought now provider (lookup rows) s (brought now provider (lookup rows) s) := brought_cases
      have hkept := hb.kept
      exact ⟨_, hforth hs, hkept.2.1.trans (by simpa using hown), hkept.2.2.1.trans he⟩
    | none =>
      obtain ⟨s, hs, _, rfl⟩ := hadded.complete row (List.mem_filter.mpr ⟨hrow, by rw [hknown]; rfl⟩)
      exact ⟨_, hservices ▸ List.mem_append_right _ hs, rfl, rfl⟩

/-- What follows a list follows the rules. -/
theorem Follows.synced {rows : List (String × NormalizedService)} (h : Follows now provider valid rows db db')
    (hvalid : ∀ e n, valid e = .some n ↔ (e, n) ∈ rows)
    (hcategories : ∀ c ∈ db.categories.rows, c.id ∈ db'.categories.rows.map (·.id))
    (hinactive : ∀ s ∈ existingRows provider db, s.isRemovedUpstream = true → s.isActive = false) :
    Synced provider valid db db' := by
  have hown {s : ServiceRow} (hs : s ∈ db.services.rows) (hp : s.providerId = provider.id) :
      s.isRemovedUpstream = true → s.isActive = false := hinactive s (List.mem_filter.mpr ⟨hs, by simpa using hp⟩)
  have hsame {s s' : ServiceRow} (hs : s ∈ db.services.rows) (hs' : s' ∈ db'.services.rows) (hid : s'.id = s.id) :
      Brought now provider valid s s' := by
    obtain ⟨s'', hs'', hb⟩ := h.forth s hs
    rwa [Table.unique hs' hs'' (hid.trans hb.kept.1.symm)]
  have hnew {s' : ServiceRow} {row : String × NormalizedService} (hrow : row ∈ rows) (hs' : IsNew now provider row s') :
      valid s'.providerServiceId = .some row.2 := by
    obtain ⟨_, rfl⟩ := hs'
    exact (hvalid _ _).mpr hrow
  refine {
    servicesKept := fun s hs => ?_
    categoriesKept := fun c hc => List.mem_map.mp (hcategories c hc)
    notActivated := fun s hs s' hs' hid => (hsame hs hs' hid).inactive
    removed := fun s' hs' hp => ?_
    deactivated := fun s hs s' hs' hid hp n hn hactive hoff => ?_
    values := fun s' hs' hp n hn => ?_
    namesKept := fun s hs s' hs' hid ⟨e, he, hne⟩ => (hsame hs hs' hid).name he hne
    descriptionsKept := fun s hs s' hs' hid => (hsame hs hs' hid).kept.2.2.2
    othersKept := fun s hs hp => ?_
    listed := fun e n hn => h.listed _ ((hvalid e n).mp hn) }
  · obtain ⟨s', hs', hb⟩ := h.forth s hs
    exact ⟨s', hs', hb.kept.1⟩
  · rcases h.back s' hs' with ⟨s, hs, hb⟩ | ⟨row, hrow, hs'⟩
    · have hps : s.providerId = provider.id := hb.kept.2.1 ▸ hp
      exact hb.kept.2.2.1 ▸ hb.removed (hown hs hps) hps
    · rw [hnew hrow hs']
      obtain ⟨_, rfl⟩ := hs'
      exact ⟨⟨nofun, nofun⟩, nofun⟩
  · obtain rfl := (hsame hs hs' hid).of_valid hp hn
    rw [refreshService_row] at hoff
    simpa [hactive] using hoff
  · rcases h.back s' hs' with ⟨s, hs, hb⟩ | ⟨row, hrow, hs'⟩
    · obtain rfl := hb.of_valid (hb.kept.2.1 ▸ hp) (hb.kept.2.2.1 ▸ hn)
      simp only [refreshService_row, and_self]
    · rw [hnew hrow hs'] at hn
      obtain ⟨_, rfl⟩ := hs'
      obtain rfl := Option.some.inj hn
      exact ⟨rfl, rfl, rfl, rfl, rfl⟩
  · obtain ⟨s', hs', hb⟩ := h.forth s hs
    cases hb with
    | other => exact hs'
    | listed _ hown => exact absurd hown hp
    | gone hown => exact absurd hown hp
    | retired hown => exact absurd hown hp

end

/-- The catalog's external ids are unique, and what is removed is inactive. -/
structure Stored (provider : ProviderRow) (db : SyncDb) : Prop where
  ids : ((existingRows provider db).map (·.providerServiceId)).Nodup
  inactive : ∀ s ∈ existingRows provider db, s.isRemovedUpstream = true → s.isActive = false

/-- **What one run may change**: without a list, or with one it takes for
malformed, it changes no service and no category. With one it applies, what
it leaves meets every rule of `Synced` for the last valid row of each external
id, and its counters count these ids. -/
theorem catalog_merge {py : Builtins} {now : Time} {runId : Nat} {provider : ProviderRow}
    {adapter : Except String PerfectPanelAdapter} {panel : Extra → HttpAnswer} {db db' : SyncDb} {report : SyncReport}
    (hstored : Stored provider db) (hrun : syncing py now runId provider adapter panel db = .some (report, db')) :
    (report.status ≠ .ok → SameCatalog db db') ∧
      (report.status = .ok → ∃ upstream, fetch py adapter panel = .ok upstream ∧
        Synced provider (accepted provider.fx upstream) db db' ∧
        report.added + report.updated + report.unchanged =
          ((upstream.filterMap (normalizeService · provider.fx)).map (·.externalId)).dedup.length ∧
        report.restored ≤ report.updated) := by
  cases syncing_outcome hrun with
  | failed e _ hstatus hsame => exact ⟨fun _ => hsame, fun hok => by rw [hstatus] at hok; cases hok⟩
  | refused upstream _ _ hstatus _ hsame => exact ⟨fun _ => hsame, fun hok => by rw [hstatus] at hok; cases hok⟩
  | applied upstream added hfetch _ hcounted hadded hmerged =>
    refine ⟨fun hno => absurd hcounted.status hno, fun _ => ⟨upstream, hfetch, ?_, ?_, hcounted.restored⟩⟩
    · have hvalid : lookup (validated provider.fx upstream).1 = accepted provider.fx upstream :=
        funext fun e => lookup_validated
      have hfollows := hvalid ▸ hmerged.follows validated_keys hstored.ids hadded
      refine hfollows.synced (fun e n => ?_) hmerged.categories hstored.inactive
      rw [← lookup_validated]
      exact ⟨lookup_mem, lookup_of_mem validated_keys⟩
    · rw [hcounted.total, validated_length]

/-! ## A catalog of two services -/

def plainBuiltins : Builtins := ⟨Text.lower, fun _ => "0", fun _ => ""⟩

def panelProvider : ProviderRow where
  id := "panel"
  isActive := true
  markupPercent := .none
  markupFixedPaise := .none
  fxToInr := .finite 80
  autoActivateNew := false
  lastSyncAt := .none
  lastSyncStatus := .none

/-- A service as an earlier run has stored it and an admin has renamed it. -/
def storedService (externalId : String) : ServiceRow where
  id := "panel-" ++ externalId
  categoryId := "cat"
  providerId := "panel"
  providerServiceId := externalId
  name := "Best likes"
  serviceType := .some "default"
  minQty := 10
  maxQty := 100
  ratePer1000Paise := 5000
  markupPercent := .none
  markupFixedPaise := .none
  isActive := true
  isRefillable := false
  isCancelable := false
  averageTime := .none
  description := .some "Fast"
  externalName := .some "Likes"
  externalCategory := .none
  isRemovedUpstream := false
  lastSyncedAt := .none
  createdAt := 0

def storedCatalog : SyncDb :=
  { services := ⟨[storedService "1", storedService "9"], by decide⟩, categories := default, providers := default,
    runs := default, audits := [] }

/-- A panel that lists the first service twice, and a new one. -/
def listingPanel : Extra → HttpAnswer := fun _ =>
  .body (.array [.object [("service", .int 1), ("name", .str "Likes"), ("rate", .int 1), ("min", .int 10), ("max", .int 100)],
    .object [("service", .int 2), ("name", .str "Views"), ("rate", .int 1), ("min", .int 10), ("max", .int 100)],
    .object [("service", .int 1), ("name", .str "Likes HQ"), ("rate", .int 2), ("min", .int 10), ("max", .int 100)]])

theorem catalog_merge_of_listing : ∃ report db' upstream,
    syncing plainBuiltins 0 1 panelProvider (.ok ⟨"k"⟩) listingPanel storedCatalog = .some (report, db') ∧
    Synced panelProvider (accepted panelProvider.fx upstream) storedCatalog db' ∧
    (accepted panelProvider.fx upstream "1").map (·.name) = .some "Likes HQ" ∧
    (report.added, report.updated, report.unchanged, report.removed) = (1, 1, 0, 1) := by
  have hstored : Stored panelProvider storedCatalog := ⟨by decide, by decide⟩
  have hend : (syncing plainBuiltins 0 1 panelProvider (.ok ⟨"k"⟩) listingPanel storedCatalog).map (fun p =>
      (p.1.status, p.1.added, p.1.updated, p.1.unchanged, p.1.removed)) = .some (.ok, 1, 1, 0, 1) := by decide +kernel
  have hlast : (fetch plainBuiltins (.ok ⟨"k"⟩) listingPanel).toOption.map (fun upstream =>
      (accepted panelProvider.fx upstream "1").map (·.name)) = .some (.some "Likes HQ") := by decide +kernel
  obtain ⟨⟨report, db'⟩, hrun, hreport⟩ := Option.map_eq_some_iff.mp hend
  obtain ⟨hstatus, hcounts⟩ := Prod.mk.inj hreport
  obtain ⟨upstream, hfetch, hsynced, _, _⟩ := (catalog_merge hstored hrun).2 hstatus
  rw [hfetch] at hlast
  exact ⟨report, db', upstream, hrun, hsynced, Option.some.inj hlast, hcounts⟩

end Falaron.Sync
