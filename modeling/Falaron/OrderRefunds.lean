/-
Refunds of an order of the second system.

An order is refunded by `create_order` when its submission raises, under a
key made of the request's, and by `refund_order` under a key made of the
order's id. Each key is credited once; nothing sees both. Where the caller
of a failed `create_order` commits, the order is refunded and `failed`, and
`refund_order` refunds it again. A run in which it is not called for such an
order refunds no more than the price (`refunds_within_price`).
-/
import Falaron.OrderPlacing
import Falaron.DepositRace
import Falaron.Txn.Run

namespace Falaron.Core

open Txn.Prog (wp wp_mono wp_bind wp_query)

/-! ## Runs -/

/-- A call that writes an order. The submission of a new one is answered in any way. -/
inductive OrderCall where
  | create (env : Surroundings) (answer : Except Err ProviderOrderResult) (a : OrderArgs)
  | updateStatus (orderId newStatus : String) (remains startCount : Option Int)
  | refund (orderId reason : String)

def OrderCall.prog : OrderCall → M Unit
  | .create env answer a => do let _ ← placeOrder env answer a
  | .updateStatus orderId newStatus remains startCount => do
    let _ ← updateOrderStatus orderId newStatus remains startCount
  | .refund orderId reason => refundOrderById orderId reason

/-- A call, and whether its caller commits when it raises. -/
def orderStep (db : Db) (c : OrderCall × Bool) : Db := c.1.prog.commit (keptAfter c.2) db

def orderRun (db : Db) (calls : List (OrderCall × Bool)) : Db := calls.foldl orderStep db

/-! ## What has been refunded -/

/-- The refund credits made for an order. -/
def Db.refundsOf (db : Db) (orderId : String) : List WalletTransaction :=
  db.transactions.filter fun t => t.txType = .refund && t.referenceId = some orderId

def Db.refunded (db : Db) (orderId : String) : Int := ((db.refundsOf orderId).map (·.amount)).sum

/-- An order has one refund at most, of its price, and every refund its order, as has the debit of an order's key. -/
structure RefundBooks (db : Db) : Prop where
  ids : (db.orders.map (·.id)).Nodup
  debits : ∀ k, (db.findTransaction ("order_debit:" ++ k)).isSome = true → ∃ o ∈ db.orders, o.idempotencyKey = k
  price : ∀ o ∈ db.orders, 0 ≤ o.priceCharged
  once : ∀ o ∈ db.orders, db.refundsOf o.id = [] ∨ ∃ t, db.refundsOf o.id = [t] ∧ t.amount = o.priceCharged
  known : ∀ id, db.refundsOf id ≠ [] → ∃ o ∈ db.orders, o.id = id

/-- A call of `refund_order` for an order that was refunded otherwise. -/
def RefundsAgain (db : Db) : OrderCall → Prop
  | .refund orderId _ => ∃ o ∈ db.getOrder orderId, 0 < o.priceCharged ∧
      ∃ t ∈ db.refundsOf orderId, t.idempotencyKey ≠ "manual_refund:" ++ orderId
  | _ => False

instance (db : Db) : (c : OrderCall) → Decidable (RefundsAgain db c)
  | .refund orderId _ => inferInstanceAs (Decidable (∃ o ∈ db.getOrder orderId, 0 < o.priceCharged ∧
      ∃ t ∈ db.refundsOf orderId, t.idempotencyKey ≠ "manual_refund:" ++ orderId))
  | .create .. | .updateStatus .. => .isFalse id

section

variable {db db' : Db} {c : TxArgs} {isCredit : Bool} {t : WalletTransaction} {o x : Order} {id : String}

theorem refundsOf_posted : (db.posted t).refundsOf id =
    db.refundsOf id ++ if t.txType = .refund ∧ t.referenceId = some id then [t] else [] := by
  simp only [Db.refundsOf, Db.posted_transactions, List.filter_append]
  by_cases h : t.txType = .refund ∧ t.referenceId = some id
  · simp [h]
  · rw [if_neg h]
    simpa using h

/-- The key of a refund is no debit's. -/
theorem refund_key_ne (id k : String) :
    "order_refund:" ++ id ≠ "order_debit:" ++ k ∧ "manual_refund:" ++ id ≠ "order_debit:" ++ k := by
  constructor
  · intro h
    have := congrArg String.toList h
    simp at this
  · intro h
    have := congrArg String.toList h
    simp at this

/-- A change of an order that leaves its price and its key. -/
theorem RefundBooks.setOrder (h : RefundBooks db) (ho : o ∈ db.orders) (hid : x.id = o.id)
    (hkey : x.idempotencyKey = o.idempotencyKey) (hprice : x.priceCharged = o.priceCharged) :
    RefundBooks ((Stmt.setOrder x).apply db) := by
  refine ⟨?_, fun k hk => ?_, fun q hq => ?_, fun q hq => ?_, fun id hne => ?_⟩
  · rw [setOrder_ids]
    exact h.ids
  · obtain ⟨p, hp, rfl⟩ := h.debits k hk
    refine ⟨_, mem_setOrder.mpr ⟨p, hp, rfl⟩, ?_⟩
    split
    · next he =>
      rw [List.inj_on_of_nodup_map h.ids hp ho (he.trans hid)]
      exact hkey
    · rfl
  · obtain ⟨p, hp, rfl⟩ := mem_setOrder.mp hq
    split
    · exact hprice ▸ h.price o ho
    · exact h.price p hp
  · obtain ⟨p, hp, rfl⟩ := mem_setOrder.mp hq
    show db.refundsOf _ = [] ∨ ∃ t, db.refundsOf _ = [t] ∧ _
    split
    · rw [hid, hprice]
      exact h.once o ho
    · exact h.once p hp
  · obtain ⟨p, hp, rfl⟩ := h.known id hne
    refine ⟨_, mem_setOrder.mpr ⟨p, hp, rfl⟩, ?_⟩
    split
    · next he => exact he.symm
    · rfl

/-- The first refund of an order, of its price. -/
theorem RefundBooks.refund (h : RefundBooks ((Stmt.setOrder x).apply db)) (hx : ∃ o ∈ db.orders, o.id = x.id)
    (hnone : db.refundsOf x.id = []) (ht : t.txType = .refund ∧ t.referenceId = some x.id)
    (hkey : ∀ k, t.idempotencyKey ≠ "order_debit:" ++ k) (hamount : t.amount = x.priceCharged) :
    RefundBooks (((Stmt.setOrder x).apply db).posted t) := by
  have hself : (((Stmt.setOrder x).apply db).posted t).refundsOf x.id = [t] := by
    rw [refundsOf_posted, if_pos ht]
    show db.refundsOf x.id ++ [t] = [t]
    rw [hnone, List.nil_append]
  have hother : ∀ id, id ≠ x.id → (((Stmt.setOrder x).apply db).posted t).refundsOf id =
      ((Stmt.setOrder x).apply db).refundsOf id := by
    intro id hid
    rw [refundsOf_posted, if_neg, List.append_nil]
    rintro ⟨-, href⟩
    exact hid (Option.some.inj (href.symm.trans ht.2))
  refine ⟨h.ids, fun k hk => h.debits k ?_, h.price, fun q hq => ?_, fun id hne => ?_⟩
  · rwa [Db.findTransaction_posted, if_neg (hkey k), Option.or_none] at hk
  · by_cases hid : q.id = x.id
    · obtain rfl := eq_of_mem_setOrder hq hid
      exact .inr ⟨t, hself, hamount⟩
    · rw [hother q.id hid]
      exact h.once q hq
  · by_cases hid : id = x.id
    · obtain ⟨p, hp, hpx⟩ := hx
      refine ⟨_, mem_setOrder.mpr ⟨p, hp, rfl⟩, ?_⟩
      rw [if_pos hpx, hid]
    · rw [hother id hid] at hne
      exact h.known id hne

/-- A new order, paid for, has no refund yet. -/
theorem RefundBooks.opens {env : Surroundings} {a : OrderArgs} {p : Prepared} (h : RefundBooks db)
    (ho : Opens env a db p db') :
    newOrder env a p ∈ db'.orders ∧ db'.refundsOf (newOrder env a p).id = [] ∧ RefundBooks db' := by
  obtain ⟨hprep, db₁, hentered, hadm, rfl⟩ := ho
  -- the key has no order, so no debit either: this one is posted
  obtain ⟨t, hposts, rfl⟩ : ∃ t, Posts db (debitArgs a p) false t ∧ db₁ = db.posted t := by
    refine hentered.resolve_left ?_
    rintro ⟨t, ht, -⟩
    obtain ⟨o, ho, hkey⟩ := h.debits p.key (Option.isSome_iff_exists.mpr ⟨t, ht⟩)
    have hnone := List.find?_eq_none.mp hprep.fresh o ho
    simp [hkey] at hnone
  obtain ⟨w, -, hrow, -⟩ := hposts.row
  have hrefunds : ∀ id, (db.posted t).refundsOf id = db.refundsOf id := by
    intro id
    rw [refundsOf_posted, if_neg, List.append_nil]
    rintro ⟨htype, -⟩
    simp [hrow, TxArgs.row, debitArgs] at htype
  have hprice : 0 ≤ (newOrder env a p).priceCharged := by
    refine Py.le_halfAway le_rfl ?_
    have hpos : (0 : Int) < p.price.customerPrice.coeff := hposts.pos
    have : (0 : Rat) < p.price.customerPrice.coeff := by exact_mod_cast hpos
    rw [Py.Decimal.val]
    positivity
  have hnew : ∀ o ∈ db.orders, o.id ≠ (newOrder env a p).id := by
    intro o ho
    have := List.all_eq_true.mp (Bool.and_eq_true_iff.mp hadm).1 o ho
    simp only [Bool.and_eq_true, bne_iff_ne] at this
    exact this.1.1
  have hnone : db.refundsOf (newOrder env a p).id = [] := by
    by_contra hne
    obtain ⟨o, ho, hid⟩ := h.known _ hne
    exact hnew o ho hid
  have hmem : newOrder env a p ∈ db.orders ++ [newOrder env a p] := List.mem_append_right _ List.mem_cons_self
  refine ⟨hmem, (hrefunds _).trans hnone, ?_, fun k hk => ?_, fun q hq => ?_, fun q hq => ?_, fun id hne => ?_⟩
  · show ((db.orders ++ [newOrder env a p]).map (·.id)).Nodup
    rw [List.map_append, List.map_singleton]
    refine h.ids.append (List.nodup_singleton _) fun id hid hid' => ?_
    obtain ⟨o, ho, rfl⟩ := List.mem_map.mp hid
    exact hnew o ho (List.mem_singleton.mp hid')
  · by_cases hkey : t.idempotencyKey = "order_debit:" ++ k
    · have hkeys : "order_debit:" ++ p.key = "order_debit:" ++ k := hposts.names.2.symm.trans hkey
      exact ⟨_, hmem, (String.append_right_inj _).mp hkeys⟩
    · replace hk : ((db.posted t).findTransaction ("order_debit:" ++ k)).isSome = true := hk
      rw [Db.findTransaction_posted, if_neg hkey, Option.or_none] at hk
      obtain ⟨o, ho, hok⟩ := h.debits k hk
      exact ⟨o, List.mem_append_left _ ho, hok⟩
  · rcases List.mem_append.mp hq with hq | hq
    · exact h.price q hq
    · rw [List.mem_singleton.mp hq]
      exact hprice
  · show (db.posted t).refundsOf _ = [] ∨ ∃ t', (db.posted t).refundsOf _ = [t'] ∧ _
    rw [hrefunds]
    rcases List.mem_append.mp hq with hq | hq
    · exact h.once q hq
    · rw [List.mem_singleton.mp hq]
      exact .inl hnone
  · replace hne : (db.posted t).refundsOf id ≠ [] := hne
    rw [hrefunds] at hne
    obtain ⟨o, ho, hid⟩ := h.known id hne
    exact ⟨o, List.mem_append_left _ ho, hid⟩

end

/-! ## A call without a second refund -/

/-- What a call may end in. -/
def RefundsDone (s : Session) : Prop := s.staged = [] ∧ RefundBooks s.db

section

variable {s : Session} {db : Db}

theorem placeOrder_refunds (env : Surroundings) (answer : Except Err ProviderOrderResult) (a : OrderArgs)
    (h : RefundsDone s) :
    (placeOrder env answer a).wp (fun _ => RefundsDone) (fun e s' => e = .database ∨ RefundsDone s') s := by
  refine wp_placeOrder h.1 (fun _ => .inr h) (fun _ => .inl rfl) (fun o _ => h) ?_ ?_ ?_
  · intro p db' r ho _
    obtain ⟨hmem, -, hbooks⟩ := h.2.opens ho
    exact ⟨h.1, hbooks.setOrder hmem rfl rfl rfl⟩
  · intro p db' e err ho _
    obtain ⟨hmem, -, hbooks⟩ := h.2.opens ho
    exact .inr ⟨h.1, hbooks.setOrder hmem rfl rfl rfl⟩
  · intro p db' e err db'' ho _ hentered
    obtain ⟨hmem, hnone, hbooks⟩ := h.2.opens ho
    have hfailed : RefundBooks ((Stmt.setOrder (rejected (newOrder env a p))).apply db') :=
      hbooks.setOrder hmem rfl rfl rfl
    refine .inr ⟨h.1, ?_⟩
    rcases hentered with ⟨_, _, rfl⟩ | ⟨t, ht, rfl⟩
    · exact hfailed
    · obtain ⟨w, _, rfl, _⟩ := ht.row
      exact hfailed.refund ⟨_, hmem, rfl⟩ hnone ⟨rfl, rfl⟩ (fun k => (refund_key_ne _ k).1) rfl

theorem updateOrderStatus_refunds (id status : String) (remains startCount : Option Int) (h : RefundsDone s) :
    (updateOrderStatus id status remains startCount).wp (fun _ => RefundsDone)
      (fun e s' => e = .database ∨ RefundsDone s') s := by
  refine wp_updateOrderStatus h.1 (fun _ => .inr h) (fun _ => .inl rfl) fun o ho => ?_
  exact ⟨h.1, h.2.setOrder (Db.getOrder_some ho).1 rfl rfl rfl⟩

/-- The order's first refund, or the replay of the one it has had. -/
theorem refundOrder_refunds {o : Order} {reason : String} (h : RefundsDone s) (ho : o ∈ s.db.orders)
    (honce : 0 < o.priceCharged → ∀ t ∈ s.db.refundsOf o.id, t.idempotencyKey = "manual_refund:" ++ o.id) :
    (refundOrder o reason).wp (fun _ => RefundsDone) (fun e s' => e = .database ∨ RefundsDone s') s := by
  refine wp_refundOrder h.1 (fun _ => .inr h) (fun _ => .inl rfl) (fun _ => h) fun db' hpos hentered => ?_
  have hset : RefundBooks ((Stmt.setOrder { o with status := .refunded }).apply s.db) :=
    h.2.setOrder ho rfl rfl rfl
  refine ⟨h.1, ?_⟩
  rcases hentered with ⟨_, _, rfl⟩ | ⟨t, ht, rfl⟩
  · exact hset
  have hnone : s.db.refundsOf o.id = [] := by
    refine (h.2.once o ho).resolve_right ?_
    rintro ⟨t', ht', -⟩
    have hmem : t' ∈ s.db.refundsOf o.id := ht' ▸ List.mem_cons_self
    have hfresh := List.find?_eq_none.mp ht.fresh t' (List.mem_of_mem_filter hmem)
    rw [honce hpos t' hmem] at hfresh
    simp [manualRefundArgs] at hfresh
  obtain ⟨w, _, rfl, _⟩ := ht.row
  exact hset.refund ⟨o, ho, rfl⟩ hnone ⟨rfl, rfl⟩ (fun k => (refund_key_ne _ k).2) (stored_money _)

theorem orderStep_refunds {c : OrderCall} (h : RefundBooks db) (hc : ¬ RefundsAgain db c) (keep : Bool) :
    RefundBooks (orderStep db (c, keep)) := by
  have hdone : RefundsDone { db := db } := ⟨rfl, h⟩
  have hprog : c.prog.wp (fun _ => RefundsDone) (fun e s' => e = .database ∨ RefundsDone s') { db := db } := by
    cases c with
    | create env answer a =>
      show ((placeOrder env answer a) >>= _).wp _ _ _
      rw [wp_bind]
      exact placeOrder_refunds env answer a hdone
    | updateStatus id status remains startCount =>
      show ((updateOrderStatus id status remains startCount) >>= _).wp _ _ _
      rw [wp_bind]
      exact updateOrderStatus_refunds id status remains startCount hdone
    | refund id reason =>
      show (refundOrderById id reason).wp _ _ _
      unfold refundOrderById
      rw [wp_bind, wp_query]
      cases hget : db.getOrder id with
      | none => exact .inr hdone
      | some o =>
        obtain ⟨hmem, rfl⟩ := Db.getOrder_some hget
        refine refundOrder_refunds hdone hmem fun hpos t ht => ?_
        by_contra hne
        exact hc ⟨o, hget, hpos, t, ht, hne⟩
  refine Txn.Prog.commit_of_ended h (wp_mono hprog (fun _ _ hs => hs) fun e s' he hcaught => ?_)
  refine he.resolve_left ?_
  rintro rfl
  simp [keptAfter] at hcaught

theorem RefundBooks.within (h : RefundBooks db) : ∀ o ∈ db.orders, db.refunded o.id ≤ o.priceCharged := by
  intro o ho
  rw [Db.refunded]
  rcases h.once o ho with hnone | ⟨t, ht, hamount⟩
  · rw [hnone]
    exact h.price o ho
  · rw [ht]
    simp [hamount]

/-- **An order is refunded its price at most.** In every state of a run that
never calls `refund_order` for an order that was refunded otherwise, the
refund credits of each order add up to no more than its `price_charged`. -/
theorem refunds_within_price {start : Db} {calls : List (OrderCall × Bool)} (hstart : RefundBooks start)
    (hcalls : ∀ done c rest, calls = done ++ c :: rest → ¬ RefundsAgain (orderRun start done) c.1) :
    ∀ o ∈ (orderRun start calls).orders, (orderRun start calls).refunded o.id ≤ o.priceCharged := by
  have hbooks : RefundBooks (orderRun start calls) :=
    @Txn.foldl_keeps _ _ orderStep RefundBooks (fun db c => ¬ RefundsAgain db c.1)
      (fun _ c h hc => orderStep_refunds h hc c.2) _ _ hstart hcalls
  exact hbooks.within

end

/-! ## An order refunded twice -/

theorem oneService_books : RefundBooks oneService :=
  ⟨List.nodup_nil, fun k hk => (by cases hk), fun o ho => (by cases ho), fun o ho => (by cases ho),
    fun id hne => absurd rfl hne⟩

/-- The first order, whose submission Python refuses; its caller commits. -/
def failedFirst : OrderCall × Bool := (.create openShop (.error callRefused) firstOrder, true)

def adminRefund : OrderCall × Bool := (.refund "o1" "Admin refund", false)

/-- An accepted order, cancelled and refunded. -/
def cancelledAndRefunded : List (OrderCall × Bool) :=
  [(.create openShop (.ok ⟨"9001"⟩) firstOrder, false), (.updateStatus "o1" "cancelled" none none, false), adminRefund]

theorem refunds_within_price_of_cancelled :
    (orderRun oneService cancelledAndRefunded).orders.map (·.status) = [.refunded] ∧
      ∀ o ∈ (orderRun oneService cancelledAndRefunded).orders,
        (orderRun oneService cancelledAndRefunded).refunded o.id ≤ o.priceCharged := by
  refine ⟨by decide +kernel, refunds_within_price oneService_books fun done c rest h => ?_⟩
  match done, h with
  | [], h =>
    cases h
    exact id
  | [d], h =>
    cases h
    exact id
  | [d, d'], h =>
    cases h
    decide +kernel
  | _ :: _ :: _ :: done, h => simp [cancelledAndRefunded] at h

/-- The failed order's price is credited back when it fails, and again by the admin. -/
theorem failed_order_refunded_twice :
    ¬ ∀ o ∈ (orderRun oneService [failedFirst, adminRefund]).orders,
      (orderRun oneService [failedFirst, adminRefund]).refunded o.id ≤ o.priceCharged := by
  decide +kernel

end Falaron.Core
