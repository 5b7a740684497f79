/-
The commission on a referred user's orders.

Which orders earn is decided at each completion, by the buyer's list of
completed orders as it is then: an order earns when it is among the first of
them. Nothing counts what has been earned. An order completed before those
placed earlier, or one that takes the place of an order in refill, earns on
top of the cap. In every run in which no completion does that, the cap holds;
that no order earns twice, and the share, hold of every run.
-/
import Falaron.OrderRun
import Falaron.OrderWrites

namespace Falaron

open Txn.Prog hiding pure

/-- The order an entry is a commission on. -/
def LedgerEntry.commissionOrder (e : LedgerEntry) : Option String :=
  match e.idempotencyKey with
  | .reford publicId => .some publicId
  | _ => .none

/-- The entry is the share of the order. -/
structure LedgerEntry.IsCommissionOn (e : LedgerEntry) (o : Order) : Prop where
  order : e.commissionOrder = .some o.publicId
  credit : e.entryType = .credit
  reference : e.referenceType = .some "referral" ∧ e.referenceId = .some o.publicId
  amount : e.amountPaise = o.chargePaise * referralOrderCommissionPercent / 100

namespace Db

variable (db : Db)

/-- The commissions on orders. -/
def commissions : List LedgerEntry := db.ledger.filter (·.commissionOrder.isSome)

/-- Those on the orders of one buyer. -/
def orderCommissions (u : Int) : List LedgerEntry :=
  db.commissions.filter fun e => (e.commissionOrder.bind db.findOrder).any (·.userId == u)

/-- Who referred the user. -/
def referredBy (u : Int) : Option Int := (db.users u).bind (·.referredBy)

/-- The buyer's completed orders once `o` is one of them. -/
def completedWith (o : Order) : List String :=
  (db.orders.filter fun o' => o'.userId == o.userId && (o'.status == .completed || o'.publicId == o.publicId)).map
    (·.publicId)

/-- An order that earns on top of the cap when it completes. -/
structure EarnsOver (o : Order) : Prop where
  referred : ∃ id referrer, db.referredBy o.userId = .some id ∧ db.users id = .some referrer ∧
    referrer.telegramId ≠ o.userId
  unearned : db.findEntry (.reford o.publicId) = none
  earns : 0 < commissionPaise o.chargePaise referralOrderCommissionPercent
  first : o.publicId ∈ (db.completedWith o).take referralOrderCap
  full : referralOrderCap ≤ (db.orderCommissions o.userId).length

end Db

/-- A report completes an order that earns on top of the cap. -/
inductive OrderCall.Overearns (db : Db) : OrderCall → Prop
  | report {now o status} : db.findOrder o.publicId = .some o → o.status ∉ OrderStatus.terminal →
      o.hasProviderOrder = true → (db.findProvider o.providerId).isSome → status.status = .completed →
      db.EarnsOver o → Overearns db (.sync now o.publicId (.ok status))

/-- What the tables say of the commissions on orders. With `cap`, no buyer has more than the cap. -/
structure OrderCommissions (cap : Prop) (db : Db) : Prop where
  known : ∀ e ∈ db.commissions, ∃ o ∈ db.orders, e.IsCommissionOn o ∧ db.referredBy o.userId = .some e.userId
  once : (db.commissions.map (·.commissionOrder)).Nodup
  capped : cap → ∀ u, (db.orderCommissions u).length ≤ referralOrderCap

/-- A commission that may be added. -/
structure Earns (cap : Prop) (db : Db) (e : LedgerEntry) : Prop where
  known : ∃ o ∈ db.orders, e.IsCommissionOn o ∧ db.referredBy o.userId = .some e.userId
  fresh : ∀ e' ∈ db.commissions, e'.commissionOrder ≠ e.commissionOrder
  capped : cap → ∀ o ∈ db.orders, e.IsCommissionOn o → (db.orderCommissions o.userId).length < referralOrderCap

/-! ## What becomes of them -/

section

variable {cap : Prop} {db db' : Db} {e : LedgerEntry} {o : Order}

/-- The orders are still there, and so are those who were referred. -/
structure KeepsBuyers (db db' : Db) : Prop where
  ids : (db'.orders.map (·.publicId)).Nodup
  orders : ∀ o ∈ db.orders, ∃ o' ∈ db'.orders, o.Later o'
  referred : ∀ u id, db.referredBy u = .some id → db'.referredBy u = .some id

theorem LedgerEntry.IsCommissionOn.later {o' : Order} (h : e.IsCommissionOn o) (hl : o.Later o') :
    e.IsCommissionOn o' := by
  refine ⟨?_, h.credit, ?_, ?_⟩
  · rw [h.order, hl.publicId]
  · rw [hl.publicId]
    exact h.reference
  · rw [h.amount, hl.chargePaise]

/-- A commission is one on the order it is for. -/
theorem Db.isCommissionOf (hids : (db.orders.map (·.publicId)).Nodup) (ho : o ∈ db.orders) (h : e.IsCommissionOn o)
    (u : Int) : (e.commissionOrder.bind db.findOrder).any (·.userId == u) = (o.userId == u) := by
  simp only [h.order, Option.bind_some, Db.findOrder_of_mem hids ho, Option.any_some]

/-- Whose orders the commissions are on does not change. -/
theorem KeepsBuyers.same (h : KeepsBuyers db db') (hids : (db.orders.map (·.publicId)).Nodup)
    (ho : ∃ o ∈ db.orders, e.IsCommissionOn o) (u : Int) :
    (e.commissionOrder.bind db'.findOrder).any (·.userId == u) =
      (e.commissionOrder.bind db.findOrder).any (·.userId == u) := by
  obtain ⟨o, hm, hon⟩ := ho
  obtain ⟨o', hm', hl⟩ := h.orders o hm
  rw [Db.isCommissionOf hids hm hon, Db.isCommissionOf h.ids hm' (hon.later hl), hl.userId]

theorem OrderCommissions.same (hc : OrderCommissions cap db) (h : KeepsBuyers db db')
    (hids : (db.orders.map (·.publicId)).Nodup) (heq : db'.commissions = db.commissions) :
    OrderCommissions cap db' := by
  refine ⟨fun e he => ?_, heq ▸ hc.once, fun hcap u => ?_⟩
  · obtain ⟨o, ho, hon, href⟩ := hc.known e (heq ▸ he)
    obtain ⟨o', ho', hl⟩ := h.orders o ho
    exact ⟨o', ho', hon.later hl, h.referred _ _ (hl.userId ▸ href)⟩
  · have hcount := hc.capped hcap u
    rw [Db.orderCommissions, heq]
    rwa [List.filter_congr fun e he => h.same hids ?_ u]
    obtain ⟨o, ho, hon, _⟩ := hc.known e he
    exact ⟨o, ho, hon⟩

/-- One commission more, on an order that may earn. -/
theorem OrderCommissions.earned (hc : OrderCommissions cap db) (h : KeepsBuyers db db')
    (hids : (db.orders.map (·.publicId)).Nodup) (he : Earns cap db e)
    (heq : db'.commissions = db.commissions ++ [e]) : OrderCommissions cap db' := by
  obtain ⟨o, ho, hon, href⟩ := he.known
  have hknown (e' : LedgerEntry) (he' : e' ∈ db.commissions ++ [e]) :
      ∃ o ∈ db.orders, e'.IsCommissionOn o ∧ db.referredBy o.userId = .some e'.userId := by
    rcases List.mem_append.mp he' with he' | he'
    · exact hc.known e' he'
    · exact List.mem_singleton.mp he' ▸ ⟨o, ho, hon, href⟩
  refine ⟨fun e' he' => ?_, ?_, fun hcap u => ?_⟩
  · obtain ⟨o₁, ho₁, hon₁, href₁⟩ := hknown e' (heq ▸ he')
    obtain ⟨o', ho', hl⟩ := h.orders o₁ ho₁
    exact ⟨o', ho', hon₁.later hl, h.referred _ _ (hl.userId ▸ href₁)⟩
  · rw [heq, List.map_append]
    refine List.nodup_append.mpr ⟨hc.once, by simp, fun k hk k' hk' => ?_⟩
    obtain ⟨e', he', rfl⟩ := List.mem_map.mp hk
    obtain ⟨e'', he'', rfl⟩ := List.mem_map.mp hk'
    exact List.mem_singleton.mp he'' ▸ he.fresh e' he'
  · rw [Db.orderCommissions, heq, List.filter_congr fun e' he' => h.same hids ?_ u, List.filter_append,
      List.length_append]
    · have hcount := hc.capped hcap u
      have hroom := he.capped hcap o ho hon
      simp only [Db.orderCommissions] at hcount hroom
      simp only [List.filter_cons, Db.isCommissionOf hids ho hon, List.filter_nil]
      split
      · next hu =>
        rw [← eq_of_beq hu]
        simp only [List.length_singleton]
        omega
      · simpa using hcount
    · obtain ⟨o₁, ho₁, hon₁, _⟩ := hknown e' he'
      exact ⟨o₁, ho₁, hon₁⟩

end

/-! ## A report -/

/-- A statement that makes no commission. -/
def Stmt.EarnsNothing (w : Stmt) : Prop := ∀ db, (w.apply db).commissions = db.commissions

theorem Stmt.EarnsNothing.entry {e : LedgerEntry} (h : e.commissionOrder = .none) : EarnsNothing (Stmt.insertEntry e) := by
  intro db
  simp [Db.commissions, Stmt.insertEntry, h]

theorem LedgerEntry.commissionOrder_of_orderRef {e : LedgerEntry} (h : e.idempotencyKey.orderRef.isSome) :
    e.commissionOrder = .none := by
  unfold commissionOrder
  split
  · next hk => simp [hk, Key.orderRef] at h
  · rfl

theorem OrderStmts.earnNothing : OrderStmts Stmt.EarnsNothing where
  wallet _ _ _ _ := rfl
  entry _ h _ := .entry (LedgerEntry.commissionOrder_of_orderRef h)
  order _ _ := rfl
  row _ _ _ _ := rfl
  event _ _ := rfl
  record _ _ _ _ := rfl
  resale _ _ := rfl
  usedCount _ _ _ := rfl
  redeem _ _ := rfl
  unredeem _ _ := rfl
  audit _ _ := rfl

theorem PaybackStmts.earnNothing : PaybackStmts Stmt.EarnsNothing where
  entry _ h _ := .entry (LedgerEntry.commissionOrder_of_orderRef h)
  record _ _ _ _ := rfl

/-- No commission has been added, or one that may be. -/
def Earned (cap : Prop) (db d : Db) : Prop :=
  d.commissions = db.commissions ∨ ∃ e, d.commissions = db.commissions ++ [e] ∧ Earns cap db e

theorem Stmt.EarnsNothing.keeps {cap : Prop} {db : Db} {w : Stmt} (h : w.EarnsNothing) : w.Keeps (Earned cap db) := by
  intro d hd
  simp only [Earned, h d]
  exact hd

/-- One order's row has become `o'`; money and users are as they were. -/
structure RowAt (db : Db) (o o' : Order) (d : Db) : Prop where
  ledger : d.ledger = db.ledger
  users : d.users = db.users
  same : o'.publicId = o.publicId ∧ o'.userId = o.userId ∧ o'.chargePaise = o.chargePaise
  orders : d.orders = db.orders.map fun x => if x.publicId = o.publicId then o' else x

/-- A report on its way: what is staged will make the order's row `o'`. -/
structure Reporting (cap : Prop) (db : Db) (o o' : Order) (s : Session) : Prop where
  will : s.Will fun s' => RowAt db o o' s'.db
  kept : s.Kept (Earned cap db) Stmt.EarnsNothing

section

variable {cap : Prop} {db d : Db} {o o' : Order} {s : Session} {now : Time}

theorem RowAt.start (hids : (db.orders.map (·.publicId)).Nodup) (ho : o ∈ db.orders) : RowAt db o o db := by
  refine ⟨rfl, rfl, ⟨rfl, rfl, rfl⟩, ?_⟩
  have hself : ∀ x ∈ db.orders, (if x.publicId = o.publicId then o else x) = x := by
    intro x hx
    split
    · next hp => exact List.inj_on_of_nodup_map hids ho hx hp.symm
    · rfl
  rw [List.map_congr_left hself, List.map_id']

theorem RowAt.update (h : RowAt db o o' d) {g : Order → Order} (hg : KeepsOrder g) :
    RowAt db o (g o') (d.updateOrder o'.publicId g) := by
  obtain ⟨h₁, h₂, h₃, _⟩ := hg o'
  obtain ⟨hp, hu, hc⟩ := h.same
  refine ⟨h.ledger, h.users, ⟨h₁.trans hp, h₂.trans hu, h₃.trans hc⟩, ?_⟩
  simp only [Db.updateOrder, h.orders, List.map_map]
  refine List.map_congr_left fun x _ => ?_
  simp only [Function.comp_apply]
  split
  · rw [if_pos rfl]
  · next hx => rw [if_neg (by rwa [hp])]

theorem Reporting.staged (h : Reporting cap db o o' s) {w : Stmt} {o'' : Order} (hw : w.EarnsNothing)
    (hrow : ∀ d, RowAt db o o' d → RowAt db o o'' (w.apply d)) :
    Reporting cap db o o'' { s with staged := s.staged ++ [w] } := by
  refine ⟨fun d hf => ?_, h.kept.db, fun w' hw' => ?_⟩
  · simp only [Txn.flushAll_append] at hf
    obtain ⟨d', hf', hd⟩ := Option.bind_eq_some_iff.mp hf
    simp only [Txn.flushAll] at hd
    split at hd <;> cases hd
    exact hrow d' (h.will d' hf')
  · rcases List.mem_append.mp hw' with hw' | hw'
    · exact h.kept.staged w' hw'
    · exact List.mem_singleton.mp hw' ▸ hw

theorem wp_setOrder_reporting {g : Order → Order} {Q : Order → Session → Prop} {E : Err → Session → Prop}
    (h : Reporting cap db o o' s) (hg : KeepsOrder g) (hQ : ∀ s', Reporting cap db o (g o') s' → Q (g o') s') :
    (setOrder o' g).wp Q E s := by
  simp only [setOrder, wp_bind, wp_write, wp_pure']
  exact hQ _ (h.staged (fun _ => rfl) fun d hd => hd.update hg)

theorem wp_setOrderIf_reporting {c : Bool} {g : Order → Order} {Q : Order → Session → Prop}
    {E : Err → Session → Prop} (h : Reporting cap db o o' s) (hg : KeepsOrder g)
    (hQ : ∀ o'' s', Reporting cap db o o'' s' → Q o'' s') : (setOrderIf c o' g).wp Q E s := by
  unfold setOrderIf
  split
  · exact wp_setOrder_reporting h hg fun s' => hQ _ s'
  · exact hQ _ _ h

/-- The event is written with all that is staged: the tables have the order in its new status. -/
theorem wp_recordEvent_reporting {toStatus : OrderStatus} {note : String} {Q : Order → Session → Prop}
    (h : Reporting cap db o o' s)
    (hQ : ∀ d sent, RowAt db o { o' with status := toStatus, updatedAt := now } d → Earned cap db d →
      Q { o' with status := toStatus, updatedAt := now } { db := d, sent := sent }) :
    (recordEvent now o' toStatus note).wp Q (fun _ _ => True) s := by
  simp only [recordEvent, wp_bind]
  refine wp_setOrder_reporting h (fun _ => ⟨rfl, rfl, rfl, rfl⟩) fun s₁ h₁ => ?_
  simp only [wp_write, flush, wp_flushed]
  have h₂ := h₁.staged (w := Stmt.insertOrderEvent ⟨o'.publicId, o'.status, toStatus, note, now⟩) (fun _ => rfl)
    fun d hd => ⟨hd.ledger, hd.users, hd.same, hd.orders⟩
  split
  · next d hf => exact hQ d _ (h₂.will d hf) (h₂.kept.will (fun _ hw => hw.keeps) hf)
  · trivial

/-- The buyer's completed orders, as the tables have them once `o` is completed. -/
theorem RowAt.completed (h : RowAt db o o' d) (hids : (db.orders.map (·.publicId)).Nodup) (ho : o ∈ db.orders)
    (hst : o'.status = .completed) :
    (d.orders.filter fun x => x.userId == o.userId && x.status == .completed).map (·.publicId) =
      db.completedWith o := by
  rw [h.orders, List.filter_map, List.map_map, Db.completedWith]
  have hid : ∀ x : Order, (if x.publicId = o.publicId then o' else x).publicId = x.publicId := by
    intro x
    split
    · next hp => rw [h.same.1, hp]
    · rfl
  have hpred : ∀ x ∈ db.orders, ((fun x : Order => x.userId == o.userId && x.status == .completed) ∘
      fun x => if x.publicId = o.publicId then o' else x) x =
      (x.userId == o.userId && (x.status == .completed || x.publicId == o.publicId)) := by
    intro x hx
    simp only [Function.comp_apply]
    split
    · next hp =>
      obtain rfl := List.inj_on_of_nodup_map hids hx ho hp
      simp [h.same.2.1, hst]
    · next hp => simp [beq_false_of_ne hp]
  rw [List.filter_congr hpred]
  exact List.map_congr_left fun x _ => hid x

theorem RowAt.commissions (h : RowAt db o o' d) : d.commissions = db.commissions := by
  rw [Db.commissions, Db.commissions, h.ledger]

/-- The commission on the completed order, if there is one, may be added. -/
theorem wp_creditOrderCommission_reporting {sent : List Ext} (hkeyed : db.Keyed)
    (hids : (db.orders.map (·.publicId)).Nodup) (ho : o ∈ db.orders) (h : RowAt db o o' d)
    (hst : o'.status = .completed) (hover : cap → ¬ db.EarnsOver o) :
    (creditOrderCommission o').wp (fun _ s' => s'.Kept (Earned cap db) Stmt.EarnsNothing) (fun _ _ => True)
      { db := d, sent := sent } := by
  have hearned : Earned cap db d := .inl h.commissions
  refine wp_creditOrderCommission_share ⟨hearned, by simp⟩
    fun buyer id referrer hbuyer hid hreferrer hother hpos hfirst => ?_
  simp only [h.users] at hbuyer hreferrer
  obtain ⟨hp, hu, hc⟩ := h.same
  have hbuyerId : buyer.telegramId = o.userId := (hkeyed _ _ hbuyer).trans hu
  rw [hbuyerId] at hother
  rw [hbuyerId, h.completed hids ho hst, hp] at hfirst
  rw [hc] at hpos
  have hreferred : db.referredBy o.userId = .some id := by
    simp only [Db.referredBy, ← hu, hbuyer, Option.bind_some, hid]
  refine wp_post rfl (fun _ => trivial) (fun _ _ => trivial) (fun _ _ _ => ⟨hearned, by simp⟩) fun e he => ?_
  obtain ⟨_, dr, _, hdr, hentry, -⟩ := he.drafted
  obtain rfl := Except.ok.inj hdr
  have hkey : e.idempotencyKey = .reford o.publicId := he.entry_eq.2.trans (by rw [hp]; rfl)
  have hon : e.commissionOrder = .some o.publicId := by simp only [LedgerEntry.commissionOrder, hkey]
  have hisOn : e.IsCommissionOn o := by
    subst hentry
    exact ⟨hon, rfl, ⟨rfl, congrArg some hp⟩, by rw [← commissionPaise_eq hpos, ← hc]; rfl⟩
  have hunearned : db.findEntry (.reford o.publicId) = none := by
    have hfresh := he.fresh
    rw [Db.findEntry, h.ledger, hp] at hfresh
    exact hfresh
  refine ⟨.inr ⟨e, ?_, ⟨o, ho, hisOn, ?_⟩, fun e' he' heq => ?_, fun hcap o₁ ho₁ hon₁ => ?_⟩, by simp⟩
  · rw [Db.commissions, Db.posted_ledger, List.filter_append, ← Db.commissions, h.commissions]
    simp [hon]
  · rw [he.entry_eq.1, hreferred]
    exact congrArg some (hkeyed _ _ hreferrer).symm
  · rw [hon] at heq
    obtain ⟨hm, _⟩ := List.mem_filter.mp he'
    have hnone := List.find?_eq_none.mp hunearned e' hm
    refine hnone ?_
    unfold LedgerEntry.commissionOrder at heq
    split at heq
    · next hk => rw [hk]; simpa using heq
    · cases heq
  · obtain rfl : o₁ = o := by
      refine List.inj_on_of_nodup_map hids ho₁ ho ?_
      have := hon₁.order.symm.trans hon
      simpa using this
    by_contra hfull
    exact hover hcap ⟨⟨id, referrer, hreferred, hreferrer, hother⟩, hunearned, hpos, hfirst, by omega⟩

end

/-! ## A call -/

section

variable {cap : Prop} {db : Db} {o : Order} {s : Session} {now : Time}

/-- A report adds one commission at most, and only for an order that may earn. -/
theorem wp_applyReport_earned {status : ProviderStatus} {sent : List Ext} (hkeyed : db.Keyed)
    (hids : (db.orders.map (·.publicId)).Nodup) (ho : o ∈ db.orders)
    (hover : cap → status.status = .completed → ¬ db.EarnsOver o) :
    (applyReport now o status).wp (fun _ s' => s'.Kept (Earned cap db) Stmt.EarnsNothing) (fun _ _ => True)
      { db := db, sent := sent } := by
  have hquiet {α : Type} {p : M α} (hp : p.Writes Stmt.EarnsNothing) {s : Session}
      (hs : s.Kept (Earned cap db) Stmt.EarnsNothing) :
      p.wp (fun _ s' => s'.Kept (Earned cap db) Stmt.EarnsNothing) (fun _ _ => True) s :=
    wp_mono (hp.wp (fun _ hw => hw.keeps) hs) (fun _ _ h => h) fun _ _ _ => trivial
  have hstart : Reporting cap db o o { db := db, sent := sent } :=
    ⟨.of rfl (.start hids ho), .inl rfl, by simp⟩
  simp only [applyReport, wp_bind]
  have hmapped : (if status.status = .cancelled then .canceled else status.status) = OrderStatus.completed →
      status.status = .completed := by
    split
    · exact nofun
    · exact id
  generalize (if status.status = .cancelled then OrderStatus.canceled else status.status) = mapped at hmapped
  refine wp_setOrderIf_reporting hstart (fun _ => ⟨rfl, rfl, rfl, rfl⟩) fun o₁ s₁ h₁ => ?_
  refine wp_setOrderIf_reporting h₁ (fun _ => ⟨rfl, rfl, rfl, rfl⟩) fun o₂ s₂ h₂ => ?_
  -- what follows the change of status sets fields of the order only
  have hrest {p : M Order} (hp : p.wp (fun _ s' => s'.Kept (Earned cap db) Stmt.EarnsNothing) (fun _ _ => True) s₂)
      (c : Bool) : p.wp (fun o₃ s₃ => (setOrderIf c o₃ fun o => { o with updatedAt := now }).wp
        (fun o₄ s₄ => (setOrder o₄ fun o => { o with lastSyncedAt := .some now }).wp
          (fun _ s' => s'.Kept (Earned cap db) Stmt.EarnsNothing) (fun _ _ => True) s₄) (fun _ _ => True) s₃)
        (fun _ _ => True) s₂ := by
    refine wp_mono hp (fun o₃ s₃ h₃ => ?_) fun _ _ h => h
    have hw : (setOrderIf c o₃ fun o => { o with updatedAt := now }).Writes Stmt.EarnsNothing :=
      setOrderIf_writes .earnNothing fun _ => ⟨rfl, rfl, rfl, rfl⟩
    refine wp_mono (hquiet hw h₃) (fun o₄ s₄ h₄ => ?_) fun _ _ h => h
    refine hquiet (setOrder_writes .earnNothing ?_) h₄
    exact fun _ => ⟨rfl, rfl, rfl, rfl⟩
  refine hrest ?_ _
  unfold applyStatusIf
  split
  case isFalse => exact h₂.kept
  simp only [applyStatus, wp_bind]
  refine wp_recordEvent_reporting h₂ fun d sent' hd he => ?_
  have hkept : Txn.Session.Kept (Earned cap db) Stmt.EarnsNothing { db := d, sent := sent' } := ⟨he, by simp⟩
  split
  · simp only [wp_bind]
    exact hquiet (refundRest_writes .earnNothing) hkept
  split
  · exact hquiet (refundIfNeeded_writes .earnNothing .earnNothing) hkept
  split
  · next hcompleted =>
    simp only [wp_bind]
    exact wp_creditOrderCommission_reporting hkeyed hids ho hd hcompleted fun hcap => hover hcap (hmapped hcompleted)
  · exact hkept

namespace OrderCall

variable {c : OrderCall}

/-- A call adds one commission at most, and only on an order that may earn. -/
theorem wp_earned (hkeyed : db.Keyed) (hids : (db.orders.map (·.publicId)).Nodup) (hover : cap → ¬ c.Overearns db) :
    c.prog.wp (fun _ s' => s'.Kept (Earned cap db) Stmt.EarnsNothing) (fun _ _ => True) { db := db } := by
  have h₀ : Txn.Session.Kept (Earned cap db) Stmt.EarnsNothing ({ db := db } : Session) := ⟨.inl rfl, by simp⟩
  by_cases hreports : c.Reports
  case neg =>
    have hw := c.writes .earnNothing (fun _ => .earnNothing) fun hr => absurd hr hreports
    exact wp_mono (hw.wp (fun _ hw => hw.keeps) h₀) (fun _ _ h => h) fun _ _ _ => trivial
  cases c with
  | sync now publicId answer =>
    simp only [prog, syncOrderStatus, wp_bind]
    refine wp_loadOrder trivial fun o hfind ho => ?_
    obtain rfl : o.publicId = publicId := (Db.findOrder_mem hfind).2
    simp only [syncOrder]
    split
    · exact h₀
    next hgo =>
    simp only [Bool.or_eq_true, decide_eq_true_eq, Bool.not_eq_true', not_or, Bool.not_eq_false] at hgo
    simp only [wp_bind]
    refine wp_adapterFor trivial fun hprovider => ?_
    simp only [wp_call]
    cases answer with
    | error e =>
      have hw : (setOrder o fun o => { o with lastSyncedAt := .some now }).Writes Stmt.EarnsNothing :=
        setOrder_writes .earnNothing fun _ => ⟨rfl, rfl, rfl, rfl⟩
      exact wp_mono (hw.wp (fun _ hw => hw.keeps) ⟨h₀.db, by simp⟩) (fun _ _ h => h) fun _ _ _ => trivial
    | ok status =>
      exact wp_applyReport_earned hkeyed hids ho fun hcap hcompleted hearns =>
        hover hcap (.report hfind hgo.1 hgo.2 hprovider hcompleted hearns)
  | _ => cases hreports

/-- What its caller commits. -/
theorem commit_earned {caught : Err → Bool} (hcaught : ∀ e, caught e = true → e.userFacing = true)
    (hb : OrderBooks False .none db) (hk : OrderKeys db) (hkeyed : db.Keyed) (hover : cap → ¬ c.Overearns db) :
    Earned cap db (c.prog.commit caught db) := by
  have hend (s : Session) (h : s.Kept (Earned cap db) Stmt.EarnsNothing) :
      Earned cap db ((Txn.flushAll s.staged s.db).getD db) := by
    cases hf : Txn.flushAll s.staged s.db with
    | none => exact .inl rfl
    | some d => exact h.will (fun _ hw => hw.keeps) hf
  refine commit_of_wp (.inl rfl) (wp_mono (wp_and (@wp_prog False _ _ hb hk fun h => h.elim)
    (wp_earned hkeyed hb.ids hover)) (fun _ s h => hend s h.2) fun e s h hce => ?_)
  obtain ⟨hdb, hst⟩ := h.1.1 (hcaught e hce)
  rw [hdb, hst]
  exact .inl rfl

end OrderCall

end

/-! ## Every run -/

/-- Whatever else differs, money and orders are the same, and who was referred stays so. -/
structure SameBuyers (a b : Db) : Prop extends SameMoney a b where
  keyed : b.Keyed
  referred : ∀ u id, a.referredBy u = .some id → b.referredBy u = .some id

/-- The tables after any run of calls of the engine that all meet `ok`. In
between, money comes and goes on the wallets for other reasons, and users
come, some of them on a referral link. -/
inductive CommissionRun (ok : Db → OrderCall → Prop) (db₀ : Db) : Db → Prop
  | start : CommissionRun ok db₀ db₀
  | call {db caught} (c : OrderCall) : CommissionRun ok db₀ db → (∀ e, caught e = true → e.userFacing = true) →
      ok db c → CommissionRun ok db₀ (c.prog.commit caught db)
  | wallet {db} (c : WalletCall) : CommissionRun ok db₀ db → c.Foreign → (∀ p, c.key ≠ .reford p) →
      CommissionRun ok db₀ (c.prog.commit (fun _ => false) db)
  | tables {db db'} : CommissionRun ok db₀ db → SameBuyers db db' → CommissionRun ok db₀ db'

/-- What every run keeps. -/
structure CommissionState (cap : Prop) (db : Db) : Prop where
  books : OrderBooks False .none db
  keys : OrderKeys db
  keyed : db.Keyed
  commissions : OrderCommissions cap db

section

variable {cap : Prop} {db db' db₀ : Db}

theorem SameMoney.refl (db : Db) : SameMoney db db := by
  refine ⟨rfl, rfl, rfl, fun u => ?_⟩
  cases db.users u with
  | none => trivial
  | some _ => exact ⟨rfl, rfl⟩

/-- A visitor who comes on a referral link is such a change. -/
theorem recordStartHit_sameBuyers (hkeyed : db.Keyed) {visitor : User}
    (hrow : db.users visitor.telegramId = .some visitor) (now : Time) (code : String) (caught : Err → Bool) :
    SameBuyers db ((recordStartHit now code visitor).commit caught db) := by
  have hwrites : (recordStartHit now code visitor).Writes fun w => w.Keeps (SameBuyers db) := by
    refine recordStartHit_writes (fun hnone r d hd => ?_) (fun _ d hd => ?_) _ _
    · refine ⟨⟨hd.ledger, hd.orders, hd.records, fun u => ?_⟩, fun u row hu => ?_, fun u id hid => ?_⟩
      · have hsame := hd.users u
        simp only [Stmt.setReferredBy]
        rcases eq_or_ne u visitor.telegramId with hu | hu
        · rw [if_pos hu]
          cases hd' : d.users u with
          | none => rwa [hd'] at hsame
          | some row =>
            rw [hd'] at hsame
            cases hu : db.users u with
            | none => rwa [hu] at hsame
            | some _ => rwa [hu] at hsame
        · rwa [if_neg hu]
      · simp only [Stmt.setReferredBy] at hu
        split at hu
        · obtain ⟨row', hrow', rfl⟩ := Option.map_eq_some_iff.mp hu
          exact hd.keyed u row' hrow'
        · exact hd.keyed u row hu
      · have hne : u ≠ visitor.telegramId := by
          rintro rfl
          simp [Db.referredBy, hrow, hnone] at hid
        have hkept := hd.referred u id hid
        simp only [Db.referredBy, Stmt.setReferredBy, if_neg hne]
        exact hkept
    · exact ⟨⟨hd.ledger, hd.orders, hd.records, hd.users⟩, hd.keyed, hd.referred⟩
  exact hwrites.commit (fun _ hw => hw) ⟨.refl db, hkeyed, fun _ _ h => h⟩ caught

theorem Db.SameHouse.referredBy (h : db.SameHouse db') (u : Int) : db'.referredBy u = db.referredBy u := by
  have hp := congrArg (·.bind (·.2)) (h.people u)
  simpa [Option.bind_map, Function.comp_def, Db.referredBy] using hp

theorem Opening.commissionState (h : Opening db) (hkeyed : db.Keyed) : CommissionState cap db := by
  have hnone : db.commissions = [] := by simp [Db.commissions, h.ledger]
  refine ⟨h.books, h.keys, hkeyed, ⟨by simp [hnone], by simp [hnone], fun _ u => ?_⟩⟩
  simp [Db.orderCommissions, hnone]

theorem CommissionState.call (h : CommissionState cap db) {caught : Err → Bool}
    (hcaught : ∀ e, caught e = true → e.userFacing = true) (c : OrderCall) (hover : cap → ¬ c.Overearns db) :
    CommissionState cap (c.prog.commit caught db) := by
  obtain ⟨hb, heffect⟩ := OrderCall.commit_ends (c := c) hcaught h.books h.keys fun hf => hf.elim
  have hearned := c.commit_earned hcaught h.books h.keys h.keyed hover
  have hhouse := c.sameHouse caught db
  generalize c.prog.commit caught db = db' at *
  have hkeeps : KeepsBuyers db db' := ⟨hb.ids, heffect.later, fun u id hid => (hhouse.referredBy u).trans hid⟩
  refine ⟨hb, heffect.keys h.keys, h.keyed.sameHouse hhouse, ?_⟩
  rcases hearned with hsame | ⟨e, hone, he⟩
  · exact h.commissions.same hkeeps h.books.ids hsame
  · exact h.commissions.earned hkeeps h.books.ids he hone

theorem CommissionState.wallet (h : CommissionState cap db) {c : WalletCall} (hc : c.Foreign)
    (hkey : ∀ p, c.key ≠ .reford p) : CommissionState cap (c.prog.commit (fun _ => false) db) := by
  obtain ⟨r, he⟩ := c.commit_effect db
  generalize c.prog.commit (fun _ => false) db = db' at he
  obtain ⟨hb, hk⟩ := h.books.foreign h.keys hc he
  cases he with
  | raised => exact h
  | replayed => exact h
  | @posted e hp =>
    have hhouse := (Db.SameHouse.refl db).posted e
    have hnone : e.commissionOrder = .none := by
      unfold LedgerEntry.commissionOrder
      split
      · next p hp' => exact absurd (hp.entry_eq.2.symm.trans hp') (hkey p)
      · rfl
    refine ⟨hb, hk, h.keyed.sameHouse hhouse, h.commissions.same ⟨hb.ids, fun o ho => ⟨o, ho, .refl o⟩,
      fun u id hid => (hhouse.referredBy u).trans hid⟩ h.books.ids ?_⟩
    simp [Db.commissions, hnone]

theorem CommissionState.tables (h : CommissionState cap db) (hs : SameBuyers db db') : CommissionState cap db' := by
  refine ⟨h.books.sameMoney hs.toSameMoney, h.keys.congr hs.orders hs.records, hs.keyed, ?_⟩
  refine h.commissions.same ⟨by rw [hs.orders]; exact h.books.ids, fun o ho => ⟨o, hs.orders ▸ ho, .refl o⟩,
    hs.referred⟩ h.books.ids ?_
  rw [Db.commissions, Db.commissions, hs.ledger]

theorem CommissionRun.state {ok : Db → OrderCall → Prop} (hok : cap → ∀ db c, ok db c → ¬ c.Overearns db)
    (h₀ : Opening db₀) (hkeyed : db₀.Keyed) (h : CommissionRun ok db₀ db) : CommissionState cap db := by
  induction h with
  | start => exact h₀.commissionState hkeyed
  | call c _ hcaught hc ih => exact ih.call hcaught c fun hcap => hok hcap _ c hc
  | wallet c _ hc hkey ih => exact ih.wallet hc hkey
  | tables _ hs ih => exact ih.tables hs

end

/-- **No buyer's orders earn more often than the cap**, no order earns twice,
and each commission is the exact share, credited to who referred the buyer, in
every run in which no report completes an order that earns on top of the cap. -/
theorem order_commissions_capped {db₀ db : Db} (h₀ : Opening db₀) (hkeyed : db₀.Keyed)
    (h : CommissionRun (fun db c => ¬ c.Overearns db) db₀ db) :
    (∀ u, (db.orderCommissions u).length ≤ referralOrderCap) ∧ (db.commissions.map (·.commissionOrder)).Nodup ∧
    ∀ e ∈ db.commissions, ∃ o ∈ db.orders, e.IsCommissionOn o ∧ db.referredBy o.userId = .some e.userId := by
  have hstate : CommissionState True db := h.state (fun _ _ _ hc => hc) h₀ hkeyed
  exact ⟨hstate.commissions.capped trivial, hstate.commissions.once, hstate.commissions.known⟩

/-- In any run, how ever many earn, no order earns twice, and each commission is the exact share. -/
theorem order_commissions_once {db₀ db : Db} (h₀ : Opening db₀) (hkeyed : db₀.Keyed)
    (h : CommissionRun (fun _ _ => True) db₀ db) : (db.commissions.map (·.commissionOrder)).Nodup ∧
    ∀ e ∈ db.commissions, ∃ o ∈ db.orders, e.IsCommissionOn o ∧ db.referredBy o.userId = .some e.userId := by
  have hstate : CommissionState False db := h.state (fun hf => hf.elim) h₀ hkeyed
  exact ⟨hstate.commissions.once, hstate.commissions.known⟩

/-! ## Four orders, completed last to first -/

/-- The shop, whose customer 7 was referred by customer 8. -/
def referredShop : Db :=
  { shop with users := fun u => (shop.users u).map fun r => if u = 7 then { r with referredBy := .some 8 } else r }

theorem referredShop_opening : Opening referredShop := by
  refine ⟨rfl, rfl, fun _ => rfl, fun u user hu => ?_⟩
  obtain ⟨row, hrow, rfl⟩ := Option.map_eq_some_iff.mp hu
  have hwallet := shop_opening.wallets u row hrow
  split
  · exact hwallet
  · exact hwallet

theorem referredShop_keyed : referredShop.Keyed := by
  intro u user hu
  obtain ⟨row, hrow, rfl⟩ := Option.map_eq_some_iff.mp hu
  simp only [shop] at hrow
  split at hrow <;> cases hrow
  split <;> rfl

/-- The provider is done with an order. -/
def completes (publicId : String) : OrderCall :=
  .sync 5 publicId (.ok ⟨.completed, .none, .none, by decide⟩)

theorem CommissionRun.after {ok : Db → OrderCall → Prop} {db₀ db : Db} {calls : List OrderCall}
    (h : CommissionRun ok db₀ db) (hok : ∀ c ∈ calls, ∀ db, ok db c) : CommissionRun ok db₀ (afterCalls db calls) := by
  induction calls generalizing db with
  | nil => exact h
  | cons c calls ih =>
    refine ih (.call c h (fun _ he => by cases he) (hok c (by simp) db)) fun c' hc' => hok c' (by simp [hc'])

/-- One call more, after some. -/
theorem CommissionRun.next {ok : Db → OrderCall → Prop} {db₀ db : Db} {calls : List OrderCall}
    (h : CommissionRun ok db₀ (afterCalls db calls)) (c : OrderCall) (hc : ok (afterCalls db calls) c) :
    CommissionRun ok db₀ (afterCalls db (calls ++ [c])) := by
  simp only [afterCalls, List.foldl_append, List.foldl_cons, List.foldl_nil]
  exact h.call c (fun _ he => by cases he) hc

/-- A completion is within the cap while there are fewer commissions than that. -/
theorem completes_within {db : Db} (h : db.commissions.length < referralOrderCap) (publicId : String) :
    ¬ (completes publicId).Overearns db := by
  intro hover
  cases hover with
  | report _ _ _ _ _ he => exact absurd ((List.length_filter_le _ _).trans_lt h) (not_lt.mpr he.full)

/-- Two orders, the later one completed first: both earn. -/
theorem order_commissions_capped_of_two :
    let db := afterCalls referredShop [.place 0 "A" 7 (likesFor "a") (.taken "1"),
      .place 1 "B" 7 (likesFor "b") (.taken "2"), completes "B", completes "A"]
    (db.orderCommissions 7).map (fun e => (e.referenceId, e.userId, e.amountPaise)) =
      [(.some "B", 8, 200), (.some "A", 8, 200)] ∧ (db.orderCommissions 7).length ≤ referralOrderCap := by
  intro db
  have hplaced : CommissionRun (fun db c => ¬ c.Overearns db) referredShop (afterCalls referredShop
      [.place 0 "A" 7 (likesFor "a") (.taken "1"), .place 1 "B" 7 (likesFor "b") (.taken "2")]) := by
    refine CommissionRun.start.after fun c hc db h => ?_
    cases h
    simp at hc
  have hB := hplaced.next (completes "B") (completes_within (by decide +kernel) "B")
  have hA := hB.next (completes "A") (completes_within (by decide +kernel) "A")
  exact ⟨by decide +kernel, (order_commissions_capped referredShop_opening referredShop_keyed hA).1 7⟩

/-- Four orders, completed last to first: each is among the first three when it completes, and all four earn. -/
theorem four_orders_earn :
    let db := afterCalls referredShop [.place 0 "A" 7 (likesFor "a") (.taken "1"),
      .place 1 "B" 7 (likesFor "b") (.taken "2"), .place 2 "C" 7 (likesFor "c") (.taken "3"),
      .place 3 "D" 7 (likesFor "d") (.taken "4"), completes "D", completes "C", completes "B", completes "A"]
    Opening referredShop ∧ referredShop.Keyed ∧ CommissionRun (fun _ _ => True) referredShop db ∧
      (db.orderCommissions 7).map (fun e => (e.referenceId, e.userId, e.amountPaise)) =
        [(.some "D", 8, 200), (.some "C", 8, 200), (.some "B", 8, 200), (.some "A", 8, 200)] := by
  intro db
  exact ⟨referredShop_opening, referredShop_keyed, CommissionRun.start.after fun _ _ _ => trivial, by decide +kernel⟩

end Falaron
