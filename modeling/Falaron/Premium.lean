/-
The premium service: subscriptions, and the flag on the user that mirrors them.

A grant to a user with a subscription extends it, replaces it by a higher
plan, or, the docstring says, schedules a lower one for its end. Nothing
schedules: the lower plan's row becomes active beside the other, and from
then on every lookup of the user's subscription fails on two rows. A run
without such a grant keeps one row and the flag (`premium_run_good`).
-/
import Falaron.Engine

namespace Falaron.Core

/-! ## Plans -/

inductive Duration where
  | monthly | annual
  deriving DecidableEq, Repr

/-- `_PLAN_DURATIONS[plan][duration]`, the same for both paid plans. -/
def Duration.days : Duration → Int
  | .monthly => 30
  | .annual => 365

/-- `_plan_rank` -/
def PlanName.rank : PlanName → Nat
  | .basic => 0
  | .premium => 1
  | .vip => 2

/-- The last microsecond of the year 9999. -/
def maxTime : Time := 253402300799999999

/-- `t + timedelta(days=n)` -/
def plusDays (t : Time) (n : Int) : M Time :=
  let later := t + n * 86400000000
  if later ≤ maxTime then pure later else raise (.python "OverflowError" "date value out of range")

/-! ## Rows -/

namespace Db

variable (db : Db)

def activePremiums (userId : Int) : List UserPremium :=
  db.premiums.filter fun r => r.userId = userId && r.status = .active

def lapsedPremiums (now : Time) : List UserPremium :=
  db.premiums.filter fun r => r.status = .active && r.expiresAt.any (· < now)

/-- `UPDATE user_premiums ... WHERE id = ...` -/
def setPremium (r : UserPremium) : Db :=
  { db with premiums := db.premiums.map fun q => if q.id = r.id then r else q }

/-- `UPDATE users SET is_premium = ... WHERE id = ...` -/
def setIsPremium (userId : Int) (isPremium : Bool) : Db :=
  { db with users := fun u => if u = userId then (db.users u).map fun _ => ⟨isPremium⟩ else db.users u }

end Db

namespace Stmt

def premiumHolds (r : UserPremium) : Bool := r.paymentRef.all (shortEnough 128)

def setPremium (r : UserPremium) : Stmt := ⟨[.premium r.id], fun _ => premiumHolds r, fun db => db.setPremium r⟩

def insertPremium (r : UserPremium) : Stmt :=
  ⟨[.premium r.id], fun db => (db.users r.userId).isSome && db.premiums.all (·.id ≠ r.id) && premiumHolds r,
    fun db => { db with premiums := db.premiums ++ [r] }⟩

def setIsPremium (userId : Int) (isPremium : Bool) : Stmt :=
  ⟨[.user userId], fun _ => true, fun db => db.setIsPremium userId isPremium⟩

end Stmt

/-! ## The service -/

/-- `_expire_premium` -/
def expirePremium (record : UserPremium) : M Unit := do
  .write (Stmt.setPremium { record with status := .expired })
  .write (Stmt.setIsPremium record.userId false)
  flush

/-- `get_active_premium` -/
def getActivePremium (now : Time) (userId : Int) : M (Option UserPremium) := do
  match ← scalarOneOrNone (← .query (·.activePremiums userId)) with
  | none => pure none
  | some record =>
    if record.expiresAt.any (· < now) then
      expirePremium record
      pure none
    else pure (some record)

structure GrantArgs where
  /-- The id the row gets, if there is a new one. -/
  id : Nat
  userId : Int
  plan : PlanName
  duration : Duration := .monthly
  paymentRef : Option String := none
  autoRenew : Bool := true
  /-- The clock where the grant reads it, and where the lookup does. -/
  now : Time
  readAt : Time
  deriving DecidableEq, Repr

def GrantArgs.record (a : GrantArgs) (expiresAt : Time) : UserPremium :=
  ⟨a.id, a.userId, a.plan, .active, some expiresAt, a.paymentRef, a.autoRenew⟩

/-- The end of a grant: the new row, and the flag. -/
def createPremium (a : GrantArgs) (expiresAt : Time) : M UserPremium := do
  .write (Stmt.insertPremium (a.record expiresAt))
  .write (Stmt.setIsPremium a.userId true)
  flush
  pure (a.record expiresAt)

/-- The same plan again: its end moves on. -/
def extendPremium (a : GrantArgs) (existing : UserPremium) : M UserPremium := do
  let expiresAt ← plusDays (max (existing.expiresAt.getD a.now) a.now) a.duration.days
  let record := { existing with
    expiresAt := some expiresAt
    autoRenew := a.autoRenew
    paymentRef := if a.paymentRef.any (· ≠ "") then a.paymentRef else existing.paymentRef }
  .write (Stmt.setPremium record)
  flush
  pure record

/-- `grant_premium` -/
def grantPremium (a : GrantArgs) : M UserPremium := do
  .require (a.plan ≠ .basic)
    (.smm .validation "Cannot grant 'basic' plan — that is the default" "Basic is the default plan.")
  let expiresAt ← plusDays a.now a.duration.days
  match ← getActivePremium a.readAt a.userId with
  | none => createPremium a expiresAt
  | some existing =>
    if existing.plan = a.plan then extendPremium a existing
    else if existing.plan.rank < a.plan.rank then
      .write (Stmt.setPremium { existing with status := .cancelled })
      createPremium a expiresAt
    else createPremium a expiresAt

/-- `revoke_premium` -/
def revokePremium (now : Time) (userId : Int) (immediate : Bool := true) : M Unit := do
  match ← getActivePremium now userId with
  | none => raise (.smm (.other "PremiumError") s!"User {userId} has no active premium"
      "User does not have an active premium subscription.")
  | some record =>
    if immediate then
      .write (Stmt.setPremium { record with status := .cancelled })
      .write (Stmt.setIsPremium userId false)
      flush
    else
      .write (Stmt.setPremium { record with autoRenew := false })
      flush

/-- `expire_all_lapsed` -/
def expireAllLapsed (now : Time) : M Nat := do
  let lapsed ← .query (·.lapsedPremiums now)
  .forEach expirePremium lapsed
  flush
  pure lapsed.length

/-! ## Runs -/

inductive PremiumCall where
  | grant (a : GrantArgs)
  | revoke (now : Time) (userId : Int) (immediate : Bool)
  | expireAllLapsed (now : Time)
  | getActive (now : Time) (userId : Int)
  deriving DecidableEq, Repr

def PremiumCall.prog : PremiumCall → M Unit
  | .grant a => do let _ ← grantPremium a
  | .revoke now userId immediate => revokePremium now userId immediate
  | .expireAllLapsed now => do let _ ← Core.expireAllLapsed now
  | .getActive now userId => do let _ ← getActivePremium now userId

/-- After an error the caller rolls back, or commits what there is, unless the database has refused a flush. -/
def premiumCaught (keep : Bool) (e : Err) : Bool := keep && e ≠ .database

/-- A call, and whether its caller commits when it raises. -/
def premiumStep (db : Db) (c : PremiumCall × Bool) : Db := c.1.prog.commit (premiumCaught c.2) db

def premiumRun (db : Db) (calls : List (PremiumCall × Bool)) : Db := calls.foldl premiumStep db

/-- One active row for each user at most, and the flag says whether there is one. -/
structure PremiumGood (db : Db) : Prop where
  ids : (db.premiums.map (·.id)).Nodup
  one : ∀ u, (db.activePremiums u).length ≤ 1
  flag : ∀ u, db.users u = some ⟨true⟩ ↔ db.activePremiums u ≠ []

/-- A grant of a lower plan to a user whose subscription is running. -/
def Downgrades (db : Db) : PremiumCall → Prop
  | .grant a => ∃ r ∈ db.activePremiums a.userId, r.expiresAt.all (a.readAt ≤ ·) ∧ a.plan.rank < r.plan.rank
  | _ => False

instance (db : Db) : (c : PremiumCall) → Decidable (Downgrades db c)
  | .grant a => inferInstanceAs (Decidable (∃ r ∈ db.activePremiums a.userId,
      r.expiresAt.all (a.readAt ≤ ·) ∧ a.plan.rank < r.plan.rank))
  | .revoke .. | .expireAllLapsed _ | .getActive .. => .isFalse id

/-! ## What a write does to the subscriptions -/

section

variable {db : Db} {r q : UserPremium} {u v : Int}

@[simp] theorem activePremiums_setIsPremium (b : Bool) : (db.setIsPremium v b).activePremiums u = db.activePremiums u :=
  rfl

theorem mem_activePremiums : r ∈ db.activePremiums u ↔ r ∈ db.premiums ∧ r.userId = u ∧ r.status = .active := by
  simp [Db.activePremiums]

theorem setPremium_ids : (db.setPremium r).premiums.map (·.id) = db.premiums.map (·.id) := by
  simp only [Db.setPremium, List.map_map]
  refine List.map_congr_left fun q _ => ?_
  simp only [Function.comp]
  split
  · next h => exact h.symm
  · rfl

/-- A row that is not active leaves the subscriptions. -/
theorem activePremiums_close (hr : r.status ≠ .active) :
    (db.setPremium r).activePremiums u = (db.activePremiums u).filter (·.id ≠ r.id) := by
  simp only [Db.activePremiums, Db.setPremium]
  induction db.premiums with
  | nil => rfl
  | cons q rows ih =>
    simp only [List.map_cons, List.filter_cons]
    by_cases hq : q.id = r.id
    · simp only [if_pos hq, hr, decide_false, Bool.and_false, Bool.false_eq_true, if_false, ih]
      split
      · simp [hq]
      · rfl
    · simp only [if_neg hq, ih]
      split
      · simp [hq]
      · rfl

/-- With distinct ids a row is the one its id names. -/
theorem eq_of_id (hids : (db.premiums.map (·.id)).Nodup) (hq : q ∈ db.premiums) (hr : r ∈ db.premiums)
    (h : q.id = r.id) : q = r := List.inj_on_of_nodup_map hids hq hr h

/-- A row that keeps its user and stays active takes the place of the old one. -/
theorem activePremiums_replace (hids : (db.premiums.map (·.id)).Nodup) (hq : q ∈ db.activePremiums v)
    (hid : r.id = q.id) (hu : r.userId = q.userId) (hs : r.status = .active) :
    ((db.setPremium r).activePremiums u).length = (db.activePremiums u).length := by
  obtain ⟨hmem, -, hact⟩ := mem_activePremiums.mp hq
  simp only [Db.activePremiums, Db.setPremium, List.filter_map, List.length_map]
  congr 1
  refine List.filter_congr fun x hx => ?_
  simp only [Function.comp]
  split
  · next h =>
    obtain rfl := eq_of_id hids hx hmem (h.trans hid)
    rw [hu, hs, hact]
  · rfl

end

/-! ## One subscription for each user -/

/-- As in a good state, but the user's subscription is closed and the flag not yet set. -/
structure Vacant (u : Int) (db : Db) : Prop where
  ids : (db.premiums.map (·.id)).Nodup
  none : db.activePremiums u = []
  one : ∀ v, (db.activePremiums v).length ≤ 1
  flag : ∀ v, v ≠ u → (db.users v = some ⟨true⟩ ↔ db.activePremiums v ≠ [])

section

variable {db : Db} {r q : UserPremium} {u : Int}

theorem PremiumGood.vacant (h : PremiumGood db) (hu : db.activePremiums u = []) : Vacant u db :=
  ⟨h.ids, hu, h.one, fun v _ => h.flag v⟩

/-- A user has no active subscription, or one. -/
theorem PremiumGood.none_or_one (h : PremiumGood db) (u : Int) :
    db.activePremiums u = [] ∨ ∃ r, db.activePremiums u = [r] := by
  have hone := h.one u
  rcases hl : db.activePremiums u with _ | ⟨r, _ | ⟨r', rest⟩⟩
  · exact .inl rfl
  · exact .inr ⟨r, rfl⟩
  · rw [hl, List.length_cons, List.length_cons] at hone
    omega

theorem PremiumGood.only (h : PremiumGood db) (hr : r ∈ db.activePremiums u) : db.activePremiums u = [r] := by
  rcases h.none_or_one u with hl | ⟨x, hl⟩
  · rw [hl] at hr
    cases hr
  · rw [hl, List.mem_singleton] at hr
    rw [hl, hr]

/-- The subscription ends: its row is replaced by one that is not active. -/
theorem PremiumGood.close (h : PremiumGood db) (hq : q ∈ db.activePremiums u) (hid : r.id = q.id)
    (hr : r.status ≠ .active) : Vacant u (db.setPremium r) := by
  have hother : ∀ v, v ≠ u → (db.setPremium r).activePremiums v = db.activePremiums v := by
    intro v hv
    rw [activePremiums_close hr, List.filter_eq_self]
    intro x hx
    obtain ⟨hmem, hxu, -⟩ := mem_activePremiums.mp hx
    obtain ⟨hqmem, hqu, -⟩ := mem_activePremiums.mp hq
    refine decide_eq_true fun he => hv ?_
    rw [← hxu, ← hqu, eq_of_id h.ids hmem hqmem (he.trans hid)]
  have hnone : (db.setPremium r).activePremiums u = [] := by
    rw [activePremiums_close hr, h.only hq]
    simp [hid]
  refine ⟨by rw [setPremium_ids]; exact h.ids, hnone, fun v => ?_, fun v hv => ?_⟩
  · by_cases hv : v = u
    · rw [hv, hnone]
      exact Nat.zero_le 1
    · rw [hother v hv]
      exact h.one v
  · rw [hother v hv]
    exact h.flag v

theorem Vacant.lower (h : Vacant u db) : PremiumGood (db.setIsPremium u false) := by
  refine ⟨h.ids, h.one, fun v => ?_⟩
  rw [activePremiums_setIsPremium]
  simp only [Db.setIsPremium]
  split
  · next hv =>
    rw [hv, h.none]
    cases db.users u <;> simp
  · next hv => exact h.flag v hv

/-- A new subscription, and the flag raised. -/
theorem Vacant.open (h : Vacant u db) (hr : r.userId = u ∧ r.status = .active) (hu : (db.users u).isSome = true)
    (hid : db.premiums.all (·.id ≠ r.id) = true) :
    PremiumGood ({ db with premiums := db.premiums ++ [r] }.setIsPremium u true) := by
  have hact : ∀ v, Db.activePremiums { db with premiums := db.premiums ++ [r] } v =
      db.activePremiums v ++ if v = u then [r] else [] := by
    intro v
    simp only [Db.activePremiums, List.filter_append]
    by_cases hv : v = u
    · simp [hv, hr]
    · have : ¬ r.userId = v := fun he => hv (he.symm.trans hr.1)
      simp [hv, this]
  refine ⟨?_, fun v => ?_, fun v => ?_⟩
  · simp only [Db.setIsPremium, List.map_append, List.map_cons, List.map_nil]
    refine List.nodup_append.mpr ⟨h.ids, by simp, fun i hi j hj he => ?_⟩
    obtain ⟨x, hx, rfl⟩ := List.mem_map.mp hi
    rw [List.mem_singleton] at hj
    exact of_decide_eq_true (List.all_eq_true.mp hid x hx) (he.trans hj)
  · rw [activePremiums_setIsPremium, hact]
    by_cases hv : v = u
    · simp [hv, h.none]
    · simpa [hv] using h.one v
  · rw [activePremiums_setIsPremium, hact]
    simp only [Db.setIsPremium]
    by_cases hv : v = u
    · obtain ⟨x, hx⟩ := Option.isSome_iff_exists.mp hu
      simp [hv, hx]
    · simpa [hv] using h.flag v hv

theorem PremiumGood.replace (h : PremiumGood db) (hq : q ∈ db.activePremiums u) (hid : r.id = q.id)
    (hu : r.userId = q.userId) (hs : r.status = .active) : PremiumGood (db.setPremium r) := by
  have hlen : ∀ v, ((db.setPremium r).activePremiums v).length = (db.activePremiums v).length :=
    fun v => activePremiums_replace h.ids hq hid hu hs
  refine ⟨by rw [setPremium_ids]; exact h.ids, fun v => (hlen v).trans_le (h.one v), fun v => ?_⟩
  have hne : (db.setPremium r).activePremiums v ≠ [] ↔ db.activePremiums v ≠ [] := by
    rw [← List.length_pos_iff, ← List.length_pos_iff, hlen v]
  rw [hne]
  exact h.flag v

end

/-! ## What a call does -/

open Txn (Session.Will)
open Txn.Prog (wp wp_mono wp_bind wp_query wp_require wp_write_will wp_flushed_will)

/-- What a call may end in: nothing is staged and the state is good. -/
def PremiumDone (s : Session) : Prop := s.staged = [] ∧ PremiumGood s.db

/-- What it may raise in: the same, if anything can be committed at all. -/
def PremiumRaised (e : Err) (s : Session) : Prop := e = .database ∨ PremiumDone s

section

variable {s : Session} {u : Int} {r : UserPremium} {E : Err → Session → Prop}

/-- A subscription that is closed, and the flag lowered. -/
theorem wp_closePremium (h : PremiumDone s) (hr : r ∈ s.db.activePremiums u) (r' : UserPremium) (hid : r'.id = r.id)
    (hs : r'.status ≠ .active) {Q : Unit → Session → Prop} (hE : ∀ s', E .database s')
    (hQ : ∀ s', PremiumDone s' → s'.db = (s.db.setPremium r').setIsPremium u false → Q () s') :
    wp Q E (do
      .write (Stmt.setPremium r')
      .write (Stmt.setIsPremium u false)
      flush) s := by
  have h₀ : Session.Will (fun s' => PremiumGood s'.db ∧ s'.db = s.db) s := .of h.1 ⟨h.2, rfl⟩
  simp only [wp_bind]
  refine wp_write_will (K := fun s' => Vacant u s'.db ∧ s'.db = s.db.setPremium r') h₀ (fun s' hs' _ => ?_)
    fun s₁ _ h₁ => ?_
  · obtain ⟨hgood, hdb⟩ := hs'
    show Vacant u (s'.db.setPremium r') ∧ s'.db.setPremium r' = s.db.setPremium r'
    rw [hdb]
    exact ⟨h.2.close hr hid hs, rfl⟩
  refine wp_write_will (K := fun s' => PremiumGood s'.db ∧ s'.db = (s.db.setPremium r').setIsPremium u false) h₁
    (fun s' hs' _ => ?_) fun s₂ _ h₂ => ?_
  · obtain ⟨hvac, hdb⟩ := hs'
    show PremiumGood (s'.db.setIsPremium u false) ∧ s'.db.setIsPremium u false = _
    exact ⟨hvac.lower, by rw [hdb]⟩
  exact wp_flushed_will h₂ (hE _) fun s' hst _ hs' => hQ s' ⟨hst, hs'.1⟩ hs'.2

/-- The lookup finds one row at most; a lapsed one it closes. -/
theorem wp_getActivePremium (h : PremiumDone s) {now : Time} {Q : Option UserPremium → Session → Prop}
    (hE : ∀ s', E .database s')
    (hnone : ∀ s', PremiumDone s' → s'.db.activePremiums u = [] → Q none s')
    (hsome : ∀ r ∈ s.db.activePremiums u, r.expiresAt.all (now ≤ ·) = true → Q (some r) s) :
    (getActivePremium now u).wp Q E s := by
  simp only [getActivePremium, wp_bind, wp_query]
  rcases h.2.none_or_one u with hact | ⟨r, hact⟩
  · rw [hact]
    exact hnone s h hact
  · have hr : r ∈ s.db.activePremiums u := by simp [hact]
    rw [hact]
    show wp Q E (if _ then _ else _) s
    split
    · obtain ⟨-, rfl, -⟩ := mem_activePremiums.mp hr
      rw [wp_bind]
      refine wp_closePremium (Q := fun _ s' => Q none s') h hr { r with status := .expired } rfl (by simp) hE
        fun s' hdone hdb => hnone s' hdone ?_
      rw [hdb, activePremiums_setIsPremium]
      exact (PremiumGood.close (r := { r with status := .expired }) h.2 hr rfl (by simp)).none
    · next hlapsed =>
      refine hsome r (hact ▸ hr) ?_
      cases he : r.expiresAt with
      | none => rfl
      | some t => simpa [he] using hlapsed

theorem wp_plusDays {t : Time} {n : Int} {Q : Time → Session → Prop}
    (hQ : ∀ t', Q t' s) (hE : ∀ e, E e s) : (plusDays t n).wp Q E s := by
  simp only [plusDays]
  split
  · exact hQ _
  · exact hE _

theorem wp_createPremium {a : GrantArgs} {expiresAt : Time} (h : s.Will fun s => Vacant a.userId s.db)
    {Q : UserPremium → Session → Prop} (hQ : ∀ r s', PremiumDone s' → Q r s') :
    (createPremium a expiresAt).wp Q PremiumRaised s := by
  simp only [createPremium, wp_bind]
  refine wp_write_will (K := fun s => PremiumGood (s.db.setIsPremium a.userId true)) h (fun s' hs' hadm => ?_)
    fun s₁ _ h₁ => ?_
  · simp only [Stmt.insertPremium, Bool.and_eq_true] at hadm
    exact Vacant.open hs' ⟨rfl, rfl⟩ hadm.1.1 hadm.1.2
  refine wp_write_will (K := fun s => PremiumGood s.db) h₁ (fun s' hs' _ => hs') fun s₂ _ h₂ => ?_
  exact wp_flushed_will h₂ (.inl rfl) fun s' hst _ hs' => hQ _ s' ⟨hst, hs'⟩

theorem wp_grantPremium {a : GrantArgs} (h : PremiumDone s) (ha : ¬ Downgrades s.db (.grant a))
    {Q : UserPremium → Session → Prop} (hQ : ∀ r s', PremiumDone s' → Q r s') :
    (grantPremium a).wp Q PremiumRaised s := by
  simp only [grantPremium, wp_bind, wp_require]
  split
  case isFalse => exact .inr h
  refine wp_plusDays (fun expiresAt => ?_) fun e => .inr h
  refine wp_getActivePremium h (fun _ => .inl rfl) (fun s' hdone hnone => ?_) fun r hr hlive => ?_
  · exact wp_createPremium (.of hdone.1 (hdone.2.vacant hnone)) hQ
  · have hrank : ¬ a.plan.rank < r.plan.rank := fun hlt => ha ⟨r, hr, hlive, hlt⟩
    obtain ⟨-, hu, hact⟩ := mem_activePremiums.mp hr
    show wp Q PremiumRaised (if _ then _ else if _ then _ else _) s
    split
    · -- the same plan: the row stays active
      simp only [extendPremium, wp_bind]
      refine wp_plusDays (fun later => ?_) fun e => .inr h
      refine wp_write_will (K := fun s' => PremiumGood s'.db) (Session.Will.of (J := fun s' => s'.db = s.db) h.1 rfl)
        (fun s' hs' _ => ?_) fun s₁ _ h₁ => ?_
      · show PremiumGood (s'.db.setPremium _)
        rw [hs']
        exact h.2.replace hr rfl rfl hact
      · exact wp_flushed_will h₁ (.inl rfl) fun s' hst _ hs' => hQ _ s' ⟨hst, hs'⟩
    · next hplan =>
      split
      · rw [wp_bind]
        refine wp_write_will (Session.Will.of (J := fun s' => s'.db = s.db) h.1 rfl) (fun s' hs' _ => ?_)
          fun s₁ _ h₁ => wp_createPremium h₁ hQ
        show Vacant a.userId (s'.db.setPremium _)
        rw [hs']
        exact h.2.close hr rfl (by simp)
      · next hhigher =>
        -- plans of one rank are one plan
        refine absurd ?_ hplan
        revert hrank hhigher
        cases r.plan <;> cases a.plan <;> simp [PlanName.rank]

theorem wp_revokePremium {now : Time} {immediate : Bool} (h : PremiumDone s) {Q : Unit → Session → Prop}
    (hQ : ∀ s', PremiumDone s' → Q () s') : (revokePremium now u immediate).wp Q PremiumRaised s := by
  simp only [revokePremium, wp_bind]
  refine wp_getActivePremium h (fun _ => .inl rfl) (fun s' hdone _ => .inr hdone) fun r hr _ => ?_
  obtain ⟨-, hu, hact⟩ := mem_activePremiums.mp hr
  show wp Q PremiumRaised (if _ then _ else _) s
  split
  · exact wp_closePremium h hr { r with status := .cancelled } rfl (by simp) (fun _ => .inl rfl) fun s' hdone _ => hQ s' hdone
  · rw [wp_bind]
    refine wp_write_will (K := fun s' => PremiumGood s'.db) (Session.Will.of (J := fun s' => s'.db = s.db) h.1 rfl)
      (fun s' hs' _ => ?_) fun s₁ _ h₁ => ?_
    · show PremiumGood (s'.db.setPremium _)
      rw [hs']
      exact h.2.replace hr rfl rfl hact
    · exact wp_flushed_will h₁ (.inl rfl) fun s' hst _ hs' => hQ s' ⟨hst, hs'⟩

/-- The rows still to be expired are active, and no row is among them twice. -/
def Lapsing (rest : List UserPremium) (s : Session) : Prop :=
  PremiumDone s ∧ (rest.map (·.id)).Nodup ∧ ∀ r ∈ rest, r ∈ s.db.activePremiums r.userId

theorem wp_expireAllLapsed {now : Time} (h : PremiumDone s) {Q : Nat → Session → Prop}
    (hQ : ∀ n s', PremiumDone s' → Q n s') : (expireAllLapsed now).wp Q PremiumRaised s := by
  simp only [expireAllLapsed, wp_bind, wp_query]
  have hstart : Lapsing (s.db.lapsedPremiums now) s := by
    refine ⟨h, h.2.ids.sublist (List.filter_sublist.map _), fun r hr => ?_⟩
    simp only [Db.lapsedPremiums, List.mem_filter, Bool.and_eq_true, decide_eq_true_eq] at hr
    exact mem_activePremiums.mpr ⟨hr.1, rfl, hr.2.1⟩
  refine wp_mono (Txn.Prog.wp_forEach (I := Lapsing) hstart fun r rest s' hs' => ?_) (fun _ s' hs' => ?_) fun _ _ he => he
  · obtain ⟨hdone, hnodup, hmem⟩ := hs'
    rw [List.map_cons, List.nodup_cons] at hnodup
    have hr := hmem r List.mem_cons_self
    refine wp_closePremium hdone hr { r with status := .expired } rfl (by simp) (fun _ => .inl rfl)
      fun s₁ h₁ hdb => ⟨h₁, hnodup.2, fun q hq => ?_⟩
    rw [hdb, activePremiums_setIsPremium, activePremiums_close (by simp), List.mem_filter]
    refine ⟨hmem q (List.mem_cons_of_mem _ hq), decide_eq_true fun he => hnodup.1 ?_⟩
    exact List.mem_map.mpr ⟨q, hq, he⟩
  · exact wp_flushed_will (Session.Will.of (J := PremiumDone) hs'.1.1 hs'.1) (.inl rfl)
      fun s₁ hst _ h₁ => hQ _ s₁ h₁

end

/-! ## Every run -/

section

variable {db : Db} {c : PremiumCall}

/-- A call that is no downgrade keeps the state good, whatever its caller does with an error. -/
theorem premiumStep_good (h : PremiumGood db) (hc : ¬ Downgrades db c) (keep : Bool) :
    PremiumGood (premiumStep db (c, keep)) := by
  have hdone : PremiumDone { db := db } := ⟨rfl, h⟩
  have hcall : c.prog.wp (fun _ => PremiumDone) PremiumRaised { db := db } := by
    cases c with
    | grant a =>
      simp only [PremiumCall.prog, wp_bind]
      exact wp_grantPremium hdone hc fun _ _ hs => hs
    | revoke now u immediate => exact wp_revokePremium hdone fun _ hs => hs
    | expireAllLapsed now =>
      simp only [PremiumCall.prog, wp_bind]
      exact wp_expireAllLapsed hdone fun _ _ hs => hs
    | getActive now u =>
      simp only [PremiumCall.prog, wp_bind]
      exact wp_getActivePremium hdone (fun _ => .inl rfl) (fun _ hs _ => hs) fun _ _ _ => hdone
  have hcommit : ∀ s : Session, PremiumDone s → PremiumGood ((Txn.flushAll s.staged s.db).getD db) := by
    intro s hs
    rw [hs.1]
    exact hs.2
  refine Txn.Prog.commit_of_wp h (wp_mono hcall (fun _ s hs => hcommit s hs) fun e s he hcaught => ?_)
  rcases he with rfl | hs
  · simp [premiumCaught] at hcaught
  · exact hcommit s hs

/-- The tables before anyone has a subscription. -/
def noPremiums (users : Int → Bool) : Db where
  users u := if users u then some ⟨false⟩ else none

theorem noPremiums_good (users : Int → Bool) : PremiumGood (noPremiums users) := by
  refine ⟨List.nodup_nil, fun u => Nat.zero_le 1, fun u => ?_⟩
  simp only [noPremiums, Db.activePremiums, List.filter_nil, ne_eq, not_true_eq_false, iff_false]
  split <;> simp

/-- **One subscription per user.** After any run without a downgrade, from
the empty tables or from any good ones, each user has one active row at most,
the flag says whether, and the lookup does not fail on several rows. -/
theorem premium_run_good {start : Db} {calls : List (PremiumCall × Bool)} (hstart : PremiumGood start)
    (hcalls : ∀ done c rest, calls = done ++ c :: rest → ¬ Downgrades (premiumRun start done) c.1) :
    let db := premiumRun start calls
    PremiumGood db ∧ ∀ now u, ((getActivePremium now u).run { db := db }).1 ≠
      .error (.python "MultipleResultsFound" "Multiple rows were found when one or none was required") := by
  have hgood : PremiumGood (premiumRun start calls) := by
    induction calls using List.reverseRecOn with
    | nil => exact hstart
    | append_singleton done c ih =>
      have hdone := ih fun done' c' rest h => hcalls done' c' (rest ++ [c]) (by rw [h]; simp)
      have hstep : premiumRun start (done ++ [c]) = premiumStep (premiumRun start done) c := by
        simp [premiumRun]
      rw [hstep]
      exact premiumStep_good hdone (hcalls done c [] rfl) c.2
  refine ⟨hgood, fun now u herr => ?_⟩
  have hdone : PremiumDone { db := premiumRun start calls } := ⟨rfl, hgood⟩
  have hlookup : (getActivePremium now u).wp (fun _ _ => True) (fun e _ => e = .database) _ :=
    wp_getActivePremium hdone (fun _ => rfl) (fun _ _ _ => trivial) fun _ _ _ => trivial
  exact absurd (Txn.Prog.wp_error hlookup (Prod.ext herr rfl)) (by simp)

end

/-! ## A downgrade -/

/-- The user 7 buys a month of the highest plan, and is given a month of the other one. -/
def downgraded : List (PremiumCall × Bool) :=
  [(.grant ⟨1, 7, .vip, .monthly, none, true, 0, 0⟩, false), (.grant ⟨2, 7, .premium, .monthly, none, true, 1, 1⟩, false)]

theorem premium_run_good_of_upgrade :
    PremiumGood (premiumRun (noPremiums (· == 7))
      [(.grant ⟨1, 7, .premium, .monthly, none, true, 0, 0⟩, false), (.grant ⟨2, 7, .vip, .monthly, none, true, 1, 1⟩, false)]) := by
  refine (premium_run_good (noPremiums_good _) fun done c rest h => ?_).1
  match done, h with
  | [], h =>
    cases h
    decide +kernel
  | [d], h =>
    cases h
    decide +kernel
  | _ :: _ :: done, h => simp at h

/-- Both rows are active, and the lookup fails. -/
theorem downgrade_breaks_lookup : ¬ PremiumGood (premiumRun (noPremiums (· == 7)) downgraded) ∧
    ((getActivePremium 2 7).run { db := premiumRun (noPremiums (· == 7)) downgraded }).1 =
      .error (.python "MultipleResultsFound" "Multiple rows were found when one or none was required") := by
  have htwo : ((premiumRun (noPremiums (· == 7)) downgraded).activePremiums 7).length = 2 := by decide +kernel
  refine ⟨fun h => ?_, ?_⟩
  · have := h.one 7
    omega
  · decide +kernel

end Falaron.Core
