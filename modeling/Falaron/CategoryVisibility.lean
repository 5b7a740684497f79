/-
Whether a category is visible after the operator's switch.

`_toggle` sets the services first and counts the active ones of each category
then. The session does not flush by itself, so the count is of what was
active before. `categories_follow_iff` says when that is the same: the switch
must neither turn on the first active service of a category nor turn off the
last.
-/
import Falaron.OrderableServices

namespace Falaron.Sync

open Txn.Prog hiding pure

/-! ## What the switch writes -/

/-- The services a call is about; none when it refuses to. -/
def chosen (ilike : (name pattern : String) → Bool) (a : ToggleArgs) (db : SyncDb) : List ServiceRow :=
  match (selected ilike a).run { db := db } with
  | (.ok rows, _) => rows
  | (.error _, _) => []

/-- The loop sets the service. -/
def ServiceRow.isSet (active : Bool) (s : ServiceRow) : Bool := !(active && !s.isOrderable) && s.isActive ≠ active

def setRows (active : Bool) (rows : List ServiceRow) : List ServiceRow :=
  (rows.filter (·.isSet active)).map fun s => { s with isActive := active }

namespace SyncDb

/-- The category has an active service. -/
def hasActive (db : SyncDb) (categoryId : String) : Bool :=
  db.services.rows.any fun s => s.categoryId = categoryId && s.isActive

/-- The row of a category that is shown, or not, by the active services of `db`. -/
def shown (db : SyncDb) (categoryId : String) : Option CategoryRow :=
  (db.categories.find categoryId).map fun c => { c with isActive := db.hasActive categoryId }

/-- Each category of these services is active exactly if it has an active service. -/
def CategoriesFollow (db : SyncDb) (rows : List ServiceRow) : Prop :=
  ∀ s ∈ rows, ∀ c ∈ db.categories.rows, c.id = s.categoryId → c.isActive = db.hasActive c.id

/-- The switch does not change whether the category has an active service:
turned on, it has one already or gets none; turned off, it has none or keeps one. -/
def Settled (db : SyncDb) (active : Bool) (rows : List ServiceRow) (categoryId : String) : Prop :=
  if active then db.hasActive categoryId = true ∨ ∀ s ∈ rows, s.categoryId = categoryId → s.isOrderable = false
  else db.hasActive categoryId = false ∨
    ∃ s ∈ db.services.rows, s.categoryId = categoryId ∧ s.isActive = true ∧ s.id ∉ rows.map (·.id)

end SyncDb

section

variable {db : SyncDb} {active : Bool} {rows : List ServiceRow} {now : Time} {a : ToggleArgs}
  {ilike : (name pattern : String) → Bool}

theorem flushAll_sets (services : List ServiceRow) (categories : List CategoryRow) (db : SyncDb) :
    Txn.flushAll (services.map SyncStmt.setService ++ categories.map SyncStmt.setCategory) db =
      .some { db with
        services := services.foldl Txn.Table.set db.services
        categories := categories.foldl Txn.Table.set db.categories } := by
  induction services generalizing db with
  | nil =>
    induction categories generalizing db with
    | nil => rfl
    | cons c categories ih => exact (Txn.flushAll_cons rfl).trans (ih _)
  | cons s services ih => exact (Txn.flushAll_cons rfl).trans (ih _)

theorem wp_selected {Q : List ServiceRow → Txn.Session SyncDb Row Empty → Prop}
    {E : CliErr → Txn.Session SyncDb Row Empty → Prop} (hQ : Q (chosen ilike a db) { db := db })
    (hE : ∀ e s, chosen ilike a db = [] → E e s) : (selected ilike a).wp Q E { db := db } := by
  have hkeeps : (selected ilike a).run { db := db } = ((selected ilike a).run { db := db }).map id fun _ => { db := db } := by
    unfold selected
    split
    · rfl
    split
    · rfl
    · dsimp only
      split <;> rfl
  refine wp_of_run (fun rows s hr => ?_) fun e s hr => hE e s ?_
  · have hrows : chosen ilike a db = rows := by rw [chosen, hr]
    rw [hr] at hkeeps
    obtain rfl : s = { db := db } := congrArg Prod.snd hkeeps
    exact hrows ▸ hQ
  · rw [chosen, hr]

/-- A call is about rows of the table, none of them twice. -/
theorem chosen_sublist : (chosen ilike a db).Sublist db.services.rows := by
  unfold chosen selected
  split
  · next rows s h =>
    revert h
    split
    · intro h
      cases h
      exact List.filter_sublist
    split
    · exact nofun
    · dsimp only
      split
      · exact nofun
      · intro h
        cases h
        exact List.filter_sublist
  · exact List.nil_sublist _

/-- The loop over the services stages what it sets. -/
theorem wp_toggleServices {Q : Nat → Txn.Session SyncDb Row Empty → Prop}
    {E : CliErr → Txn.Session SyncDb Row Empty → Prop}
    (hQ : ∀ n, Q n { db := db, staged := (setRows active rows).map SyncStmt.setService }) :
    (rows.foldlM (toggleService active) 0).wp Q E { db := db } := by
  let I (done : List ServiceRow) (_ : Nat) (s : Txn.Session SyncDb Row Empty) : Prop :=
    s = { db := db, staged := (setRows active done).map SyncStmt.setService }
  refine wp_mono (wp_foldlM (I := I) rfl fun done s rest n t _ ht => ?_) (fun n t ht => ht ▸ hQ n) fun _ _ h => h
  subst ht
  unfold toggleService
  split
  · next hskip =>
    have hs : s.isSet active = false := by rw [ServiceRow.isSet, hskip]; rfl
    simp [I, setRows, hs]
  next hgo =>
  rw [Bool.not_eq_true] at hgo
  split
  · next hset =>
    have hs : s.isSet active = true := by rw [ServiceRow.isSet, hgo]; exact decide_eq_true hset
    simp [I, setRows, hs]
  · next hset =>
    have hs : s.isSet active = false := by rw [ServiceRow.isSet, hgo]; exact decide_eq_false hset
    simp [I, setRows, hs]

/-- The loop over the categories counts in the tables as they were. -/
theorem wp_showCategories {ids : List String} {staged : List SyncStmt} {Q : Unit → Txn.Session SyncDb Row Empty → Prop}
    {E : CliErr → Txn.Session SyncDb Row Empty → Prop}
    (hQ : Q () { db := db, staged := staged ++ (ids.filterMap db.shown).map SyncStmt.setCategory }) :
    (forEach showCategory ids).wp Q E { db := db, staged := staged } := by
  let I (rest : List String) (s : Txn.Session SyncDb Row Empty) : Prop :=
    ∃ done, ids = done ++ rest ∧
      s = { db := db, staged := staged ++ (done.filterMap db.shown).map SyncStmt.setCategory }
  have hstart : I ids { db := db, staged := staged } := ⟨[], rfl, by simp⟩
  refine wp_mono (wp_forEach hstart fun id rest s hI => ?_) (fun _ s hI => ?_) fun _ _ h => h
  · obtain ⟨done, hids, rfl⟩ := hI
    have hcount : decide (0 < db.services.rows.countP fun s => s.categoryId = id && s.isActive) = db.hasActive id := by
      rw [Bool.eq_iff_iff, decide_eq_true_iff, List.countP_pos_iff, SyncDb.hasActive, List.any_eq_true]
    simp only [showCategory, wp_bind, wp_query]
    cases hfind : db.categories.find id with
    | none => exact ⟨done ++ [id], by simp [hids], by simp [SyncDb.shown, hfind]⟩
    | some c =>
      have hshown : db.shown id = .some { c with isActive := db.hasActive id } := by rw [SyncDb.shown, hfind]; rfl
      refine ⟨done ++ [id], by simp [hids], ?_⟩
      rw [hcount, List.filterMap_append, List.map_append, ← List.append_assoc]
      simp only [List.filterMap_cons, List.filterMap_nil, hshown]
      rfl
  · obtain ⟨done, hids, rfl⟩ := hI
    rw [List.append_nil] at hids
    exact hids ▸ hQ

/-- What the switch leaves: the services set, and categories that go by the services as they were. -/
structure Toggled (active : Bool) (rows : List ServiceRow) (db db' : SyncDb) : Prop where
  services : db'.services = (setRows active rows).foldl Txn.Table.set db.services
  categories : db'.categories = ((rows.map (·.categoryId)).dedup.filterMap db.shown).foldl Txn.Table.set db.categories

theorem toggle_commit :
    Toggled active (chosen ilike a db) db ((CatalogCall.toggle ilike now a active).commit db) := by
  have hend : (Sync.toggle ilike now a active).wp
      (fun _ s => s.staged = [] ∧ Toggled active (chosen ilike a db) db s.db)
      (fun _ _ => chosen ilike a db = []) { db := db } := by
    simp only [toggle, wp_bind]
    refine wp_selected (wp_toggleServices fun n => wp_showCategories ?_) fun _ _ h => h
    simp only [wp_write, wp_flushed]
    -- The record of the call itself is staged last.
    rw [Txn.flushAll_append, flushAll_sets]
    exact ⟨rfl, rfl, rfl⟩
  show Toggled active (chosen ilike a db) db ((Sync.toggle ilike now a active).commit (fun _ => false) db)
  unfold Txn.Prog.commit
  split
  · next n s hr =>
    obtain ⟨hstaged, h⟩ := wp_ok hend hr
    rw [hstaged]
    exact h
  · next e s hr =>
    rw [wp_error hend hr, if_neg Bool.false_ne_true]
    exact ⟨rfl, rfl⟩

/-! ## When that is as it should be -/

namespace Toggled

variable {db' : SyncDb}

theorem setRows_sublist (hrows : rows.Sublist db.services.rows) :
    ((setRows active rows).map (·.id)).Sublist (db.services.rows.map (·.id)) := by
  rw [setRows, List.map_map]
  exact (List.filter_sublist.trans hrows).map _

theorem services_after (h : Toggled active rows db db') (hrows : rows.Sublist db.services.rows) :
    db'.services.rows = db.services.rows.map (Txn.Table.after (·.id) (setRows active rows)) := by
  have hsub : ((setRows active rows).map (·.id)).Sublist (db.services.rows.map (·.id)) := setRows_sublist hrows
  rw [h.services]
  exact Txn.Table.foldl_set_after (db.services.keys.sublist hsub) fun u hu => hsub.subset (List.mem_map_of_mem hu)

theorem mem_of_id (hrows : rows.Sublist db.services.rows) {s : ServiceRow} (hs : s ∈ db.services.rows)
    (hid : s.id ∈ rows.map (·.id)) : s ∈ rows := by
  obtain ⟨t, ht, hts⟩ := List.mem_map.mp hid
  exact Txn.Table.unique (hrows.subset ht) hs hts ▸ ht

/-- What a service has become: it is set if it is one of the call's and may be. -/
theorem after_eq (hrows : rows.Sublist db.services.rows) {s : ServiceRow} (hs : s ∈ db.services.rows) :
    Txn.Table.after (·.id) (setRows active rows) s =
      if s.id ∈ rows.map (·.id) ∧ (active && !s.isOrderable) = false then { s with isActive := active } else s := by
  have hnodup : ((setRows active rows).map (·.id)).Nodup := db.services.keys.sublist (setRows_sublist hrows)
  by_cases hset : s.id ∈ rows.map (·.id) ∧ s.isSet active = true
  · have hu : ({ s with isActive := active } : ServiceRow) ∈ setRows active rows :=
      List.mem_map.mpr ⟨s, List.mem_filter.mpr ⟨mem_of_id hrows hs hset.1, hset.2⟩, rfl⟩
    have hmay : (active && !s.isOrderable) = false := by
      have := hset.2
      simp only [ServiceRow.isSet, Bool.and_eq_true, Bool.not_eq_true'] at this
      exact this.1
    rw [if_pos ⟨hset.1, hmay⟩]
    exact Txn.Table.after_of_mem hnodup hu rfl
  · have hnot : s.id ∉ (setRows active rows).map (·.id) := by
      intro hin
      obtain ⟨u, hu, hus⟩ := List.mem_map.mp hin
      obtain ⟨t, ht, rfl⟩ := List.mem_map.mp hu
      obtain ⟨htr, htset⟩ := List.mem_filter.mp ht
      obtain rfl : t = s := Txn.Table.unique (hrows.subset htr) hs hus
      exact hset ⟨List.mem_map_of_mem htr, htset⟩
    rw [Txn.Table.after_of_not_mem hnot]
    split
    · next h =>
      have hsame : s.isActive = active := by
        by_contra hne
        exact hset ⟨h.1, by rw [ServiceRow.isSet, h.2]; exact decide_eq_true hne⟩
      rw [← hsame]
    · rfl

/-- The category has an active service afterwards. -/
theorem hasActive_iff (h : Toggled active rows db db') (hrows : rows.Sublist db.services.rows) (categoryId : String) :
    db'.hasActive categoryId = true ↔ ∃ s ∈ db.services.rows, s.categoryId = categoryId ∧
      if s.id ∈ rows.map (·.id) ∧ (active && !s.isOrderable) = false then active = true else s.isActive = true := by
  rw [SyncDb.hasActive, h.services_after hrows, List.any_map, List.any_eq_true]
  refine exists_congr fun s => and_congr_right fun hs => ?_
  rw [Function.comp_apply, after_eq hrows hs, Bool.and_eq_true, decide_eq_true_iff]
  split <;> rfl

theorem settled_iff (h : Toggled active rows db db') (hrows : rows.Sublist db.services.rows) (categoryId : String) :
    db.hasActive categoryId = db'.hasActive categoryId ↔ db.Settled active rows categoryId := by
  have hnew := h.hasActive_iff hrows categoryId
  have hold : db.hasActive categoryId = true ↔
      ∃ s ∈ db.services.rows, s.categoryId = categoryId ∧ s.isActive = true := by
    simp [SyncDb.hasActive]
  rw [Bool.eq_iff_iff]
  cases active with
  | true =>
    have hon : db'.hasActive categoryId = true ↔ db.hasActive categoryId = true ∨
        ¬ ∀ s ∈ rows, s.categoryId = categoryId → s.isOrderable = false := by
      rw [hnew, hold]
      simp only [Bool.true_and, Bool.not_eq_false', not_forall, Bool.not_eq_false]
      constructor
      · rintro ⟨s, hs, hcat, hactive⟩
        split at hactive
        · next hset => exact .inr ⟨s, mem_of_id hrows hs hset.1, hcat, hset.2⟩
        · exact .inl ⟨s, hs, hcat, hactive⟩
      · rintro (⟨s, hs, hcat, hactive⟩ | ⟨s, hs, hcat, horderable⟩)
        · refine ⟨s, hs, hcat, ?_⟩
          split
          · trivial
          · exact hactive
        · refine ⟨s, hrows.subset hs, hcat, ?_⟩
          rw [if_pos ⟨List.mem_map_of_mem hs, horderable⟩]
          trivial
    simp only [SyncDb.Settled, if_true, hon]
    tauto
  | false =>
    have hoff : db'.hasActive categoryId = true ↔
        ∃ s ∈ db.services.rows, s.categoryId = categoryId ∧ s.isActive = true ∧ s.id ∉ rows.map (·.id) := by
      rw [hnew]
      refine exists_congr fun s => and_congr_right fun _ => and_congr_right fun _ => ?_
      by_cases hin : s.id ∈ rows.map (·.id) <;> simp [hin]
    have hle : (∃ s ∈ db.services.rows, s.categoryId = categoryId ∧ s.isActive = true ∧ s.id ∉ rows.map (·.id)) →
        db.hasActive categoryId = true := fun ⟨s, hs, hcat, hactive, _⟩ => hold.mpr ⟨s, hs, hcat, hactive⟩
    simp only [SyncDb.Settled, Bool.false_eq_true, if_false, hoff, ← Bool.not_eq_true]
    constructor
    · intro hsame
      by_cases hon : db.hasActive categoryId = true
      · exact .inr (hsame.mp hon)
      · exact .inl hon
    · rintro (hnone | hkept)
      · exact ⟨fun hon => absurd hon hnone, hle⟩
      · exact ⟨fun _ => hkept, hle⟩

theorem shown_id {id : String} {c : CategoryRow} (h : db.shown id = .some c) :
    c.id = id ∧ id ∈ db.categories.rows.map (·.id) := by
  obtain ⟨c', hc', rfl⟩ := Option.map_eq_some_iff.mp h
  have hid : c'.id = id := by simpa using List.find?_some hc'
  exact ⟨hid, hid ▸ List.mem_map_of_mem (List.mem_of_find?_eq_some hc')⟩

theorem shown_keys (ids : List String) :
    ((ids.filterMap db.shown).map (·.id)).Sublist ids := by
  induction ids with
  | nil => exact List.Sublist.slnil
  | cons id ids ih =>
    cases h : db.shown id with
    | none =>
      rw [List.filterMap_cons_none h]
      exact ih.cons _
    | some c =>
      rw [List.filterMap_cons_some h, List.map_cons, (shown_id h).1]
      exact ih.cons_cons _

/-- What a category has become. -/
theorem categories_after (h : Toggled active rows db db') : db'.categories.rows = db.categories.rows.map fun c =>
    if c.id ∈ rows.map (·.categoryId) then { c with isActive := db.hasActive c.id } else c := by
  have hnodup : (((rows.map (·.categoryId)).dedup.filterMap db.shown).map (·.id)).Nodup :=
    (List.nodup_dedup _).sublist (shown_keys _)
  rw [h.categories, Txn.Table.foldl_set_after hnodup]
  · refine List.map_congr_left fun c hc => ?_
    split
    · next hin =>
      have hfind : db.categories.find c.id = .some c := Txn.Table.find_of_mem hc
      refine Txn.Table.after_of_mem hnodup (List.mem_filterMap.mpr ⟨c.id, List.mem_dedup.mpr hin, ?_⟩) rfl
      rw [SyncDb.shown, hfind]
      rfl
    · next hnot =>
      refine Txn.Table.after_of_not_mem fun hin => hnot ?_
      exact List.mem_dedup.mp ((shown_keys _).subset hin)
  · intro u hu
    obtain ⟨id, hid, hshown⟩ := List.mem_filterMap.mp hu
    exact (shown_id hshown).1 ▸ (shown_id hshown).2

/-- A category of the call's services goes by the services as they were. -/
theorem category_iff (h : Toggled active rows db db') : db'.CategoriesFollow rows ↔
    ∀ s ∈ rows, db.categories.has s.categoryId = true →
      db.hasActive s.categoryId = db'.hasActive s.categoryId := by
  refine forall₂_congr fun s hs => ?_
  simp only [h.categories_after, Txn.Table.has, List.any_eq_true, decide_eq_true_iff]
  constructor
  · rintro hall ⟨c, hc, hid⟩
    have hin : c.id ∈ rows.map (·.categoryId) := hid ▸ List.mem_map_of_mem hs
    have hrow := hall { c with isActive := db.hasActive c.id } (List.mem_map.mpr ⟨c, hc, if_pos hin⟩) hid
    exact hid ▸ hrow
  · intro hall c' hc' hid
    obtain ⟨c, hc, rfl⟩ := List.mem_map.mp hc'
    split at hid
    · next hin =>
      rw [if_pos hin]
      exact hid ▸ hall ⟨c, hc, hid⟩
    · next hnot => exact absurd (hid ▸ List.mem_map_of_mem hs) hnot

end Toggled

/-- **Categories follow their services** exactly where the switch leaves it at
that whether each category of the selected services has an active one. -/
theorem categories_follow_iff (ilike : (name pattern : String) → Bool) (now : Time) (a : ToggleArgs) (active : Bool)
    (db : SyncDb) :
    ((CatalogCall.toggle ilike now a active).commit db).CategoriesFollow (chosen ilike a db) ↔
      ∀ s ∈ chosen ilike a db, db.categories.has s.categoryId = true →
        db.Settled active (chosen ilike a db) s.categoryId := by
  have h : Toggled active (chosen ilike a db) db ((CatalogCall.toggle ilike now a active).commit db) := toggle_commit
  rw [h.category_iff]
  exact forall₂_congr fun s _ => imp_congr_right fun _ => h.settled_iff chosen_sublist s.categoryId

end

/-- A service that is not on sale yet, in a category of its own. -/
def unsoldService : ServiceRow := { storedService "1" with isActive := false }

def hiddenCategory : CategoryRow where
  id := "cat"
  markupPercent := .none
  markupFixedPaise := .none
  name := "Likes"
  emoji := ""
  description := .none
  sortOrder := 0
  isActive := false

def unsoldCatalog : SyncDb where
  services := ⟨[unsoldService], by decide⟩
  categories := ⟨[hiddenCategory], by decide⟩
  providers := default
  runs := default
  audits := []

/-- The first service of a category is activated, and the category stays hidden. -/
theorem first_service_hidden : ¬ ((CatalogCall.toggle (fun _ _ => true) 0 { ids := ["panel-1"] } true).commit
    unsoldCatalog).CategoriesFollow (chosen (fun _ _ => true) { ids := ["panel-1"] } unsoldCatalog) := by
  intro h
  have hrow := h unsoldService (.head _) hiddenCategory (.head _) rfl
  revert hrow
  decide +kernel

end Falaron.Sync
