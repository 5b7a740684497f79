/-
The status of an order of the second system, and its three writers: the
engine's two, and the order monitor, which asks each provider for the
statuses of its open orders and writes down what it is told.

The tests hold a table of the legal transitions (`OrderStatus.next`), and no
code looks at it. `update_order_status` and the monitor write any status over
any other, `refund_order` makes any order refunded. A run is legal where each
of its calls is given a status that the table allows
(`status_changes_legal`).
-/
import Falaron.OrderPlacing
import Falaron.Deposits
import Falaron.Txn.Run

namespace Falaron.Core

open Py (Json)
open Txn.Prog (wp wp_mono wp_bind wp_query)

/-! ## The monitor -/

/-- `_map_status` -/
def mapStatus (raw : String) : Option OrderStatus :=
  (([("pending", .pending), ("in progress", .processing), ("processing", .processing), ("completed", .completed),
    ("partial", .partial_), ("cancelled", .cancelled), ("canceled", .cancelled), ("failed", .failed)] :
      List (String × OrderStatus)).find? (·.1 == Text.strip (Text.lower raw))).map (·.2)

/-- What a provider answers about these orders of its own. -/
abbrev StatusRegistry := (providerId : Int) → (providerOrderIds : List String) → Except Err Json

/-- `int(raw[key])` if the field is there, what the order had if not; `none` where that raises. -/
def reportedInt (raw : Json) (key : String) (old : Option Int) : Option (Option Int) :=
  match jsonGet raw key .null with
  | .ok .null => some old
  | .ok v => v.toInt.toOption.map some
  | .error _ => none

/-- The status a report gives, if it gives one at all that the monitor knows. -/
def reportedStatus (statuses : Json) (order : Order) : Except Err (Option (Json × OrderStatus)) := do
  match ← jsonGet statuses (order.providerOrderId.getD "") .null with
  | .null => .ok none
  | raw =>
    match ← jsonGet raw "status" (.str "") with
    | .str s => .ok ((mapStatus s).map fun status => (raw, status))
    | v => .error (.attributeError v "lower")

/-- The order's assignments, the status first, and whether an exception stops them. -/
def Order.monitored (o : Order) (raw : Json) (status : OrderStatus) : Order × Bool :=
  let o := { o with status := status }
  match reportedInt raw "remains" o.remains with
  | none => (o, true)
  | some remains =>
    let o := { o with remains := remains }
    match reportedInt raw "start_count" o.startCount with
    | none => (o, true)
    | some startCount =>
      ({ o with startCount := startCount, cancelEligible := !endsOrder status && o.cancelEligible }, false)

/-- The orders of one provider; the counts of updates and of errors. -/
def followStatuses (statuses : Json) : List Order → M (Nat × Nat)
  | [] => pure (0, 0)
  | order :: rest =>
    match reportedStatus statuses order with
    | .error _ => pure (0, 1)
    | .ok none => followStatuses statuses rest
    | .ok (some (raw, status)) =>
      if status = order.status then followStatuses statuses rest
      else do
        .write (Stmt.setOrder (order.monitored raw status).1)
        if (order.monitored raw status).2 then pure (0, 1)
        else
          let (updated, errors) ← followStatuses statuses rest
          pure (updated + 1, errors)

/-- The open orders a pass looks at. -/
def Db.openOrders (db : Db) : List Order :=
  (db.orders.filter fun o => o.status ∈ [.pending, .processing, .inProgress] && o.providerOrderId.isSome).take 500

/-- `by_provider` -/
def byProvider (orders : List Order) : List (Int × List Order) :=
  (orders.map (·.providerId)).eraseDups.map fun p => (p, orders.filter (·.providerId = p))

/-- What the registry says about the group. -/
def askStatuses (registry : StatusRegistry) (group : Int × List Order) : Except Err Json :=
  registry group.1 (group.2.map (·.providerOrderId.getD ""))

/-- One turn of the loop over the providers; its exceptions are caught. -/
def followProvider (registry : StatusRegistry) (group : Int × List Order) : M (Nat × Nat) :=
  match askStatuses registry group with
  | .error _ => pure (0, 1)
  | .ok statuses => followStatuses statuses group.2

def followProviders (registry : StatusRegistry) : List (Int × List Order) → M (Nat × Nat)
  | [] => pure (0, 0)
  | group :: rest => do
    let (updated, errors) ← followProvider registry group
    let (updated', errors') ← followProviders registry rest
    pure (updated + updated', errors + errors')

/-- A pass over these orders. -/
def followOrders (registry : StatusRegistry) (orders : List Order) : M (Nat × Nat × Nat) :=
  if orders.isEmpty then pure (0, 0, 0)
  else do
    let (updated, errors) ← followProviders registry (byProvider orders)
    flush
    pure (orders.length, updated, errors)

/-- `OrderMonitor.run_once`: how many orders were checked, how many updated, how many errors there were. -/
def monitorOnce (registry : StatusRegistry) : M (Nat × Nat × Nat) := do
  followOrders registry (← .query (·.openOrders))

/-! ## Runs -/

inductive StatusCall where
  | update (orderId newStatus : String) (remains startCount : Option Int)
  | refund (orderId reason : String)
  | monitor (registry : StatusRegistry)

def StatusCall.prog : StatusCall → M Unit
  | .update orderId newStatus remains startCount => do
    let _ ← updateOrderStatus orderId newStatus remains startCount
  | .refund orderId reason => refundOrderById orderId reason
  | .monitor registry => do let _ ← monitorOnce registry

/-- A call, and whether its caller commits when it raises. -/
def statusStep (db : Db) (c : StatusCall × Bool) : Db := c.1.prog.commit (keptAfter c.2) db

def statusRun (db : Db) (calls : List (StatusCall × Bool)) : Db := calls.foldl statusStep db

/-! ## The table of transitions -/

/-- The statuses an order may go to, from each. -/
def OrderStatus.next : OrderStatus → List OrderStatus
  | .pending => [.processing, .failed, .cancelled]
  | .processing => [.completed, .partial_, .failed, .cancelled]
  | .partial_ | .failed | .cancelled => [.refunded]
  | _ => []

/-- The status stays, or changes as the table allows. -/
def LegalChange (old new : OrderStatus) : Prop := new = old ∨ new ∈ old.next

instance (old new : OrderStatus) : Decidable (LegalChange old new) := inferInstanceAs (Decidable (_ ∨ _))

/-- The orders are the same, and each has changed its status as the table allows. -/
structure LegalChanges (db db' : Db) : Prop where
  ids : db'.orders.map (·.id) = db.orders.map (·.id)
  legal : ∀ o ∈ db.orders, ∀ o' ∈ db'.orders, o'.id = o.id → LegalChange o.status o'.status

/-- The call is given what the table allows for the orders as they are. -/
def Allowed (db : Db) : StatusCall → Prop
  | .update orderId newStatus _ _ => ∀ o ∈ db.getOrder orderId, LegalChange o.status (.ofText newStatus)
  | .refund orderId _ => ∀ o ∈ db.getOrder orderId, 0 < o.priceCharged → LegalChange o.status .refunded
  | .monitor registry => ∀ group ∈ byProvider db.openOrders, ∀ statuses, askStatuses registry group = .ok statuses →
      ∀ o ∈ group.2, ∀ raw status, reportedStatus statuses o = .ok (some (raw, status)) → LegalChange o.status status

/-! ## A call that is given legal statuses -/

section

variable {db db' : Db} {o x : Order}

theorem monitored_fields (o : Order) (raw : Json) (status : OrderStatus) :
    (o.monitored raw status).1.id = o.id ∧ (o.monitored raw status).1.status = status := by
  unfold Order.monitored
  dsimp only
  split
  · exact ⟨rfl, rfl⟩
  · split
    · exact ⟨rfl, rfl⟩
    · exact ⟨rfl, rfl⟩

theorem LegalChanges.refl (hids : (db.orders.map (·.id)).Nodup) : LegalChanges db db := by
  refine ⟨rfl, fun o ho o' ho' he => .inl ?_⟩
  rw [List.inj_on_of_nodup_map hids ho' ho he]

/-- The order's row is set to one whose status the table allows. -/
theorem LegalChanges.setOrder (hids : (db.orders.map (·.id)).Nodup) (h : LegalChanges db db') (ho : o ∈ db.orders)
    (hid : x.id = o.id) (hx : LegalChange o.status x.status) : LegalChanges db ((Stmt.setOrder x).apply db') := by
  refine ⟨setOrder_ids.trans h.ids, fun p hp q hq he => ?_⟩
  obtain ⟨q', hq', rfl⟩ := mem_setOrder.mp hq
  split at he
  · next hset =>
    rw [if_pos hset]
    obtain rfl : p = o := List.inj_on_of_nodup_map hids hp ho (he.symm.trans hid)
    exact hx
  · next hset =>
    rw [if_neg hset]
    exact h.legal p hp q' hq' he

/-- A statement that sets an order of `db` as the table allows. -/
def SetsLegally (db : Db) (w : Stmt) : Prop :=
  ∃ x, w = Stmt.setOrder x ∧ ∃ o ∈ db.orders, x.id = o.id ∧ LegalChange o.status x.status

theorem SetsLegally.keeps (hids : (db.orders.map (·.id)).Nodup) {w : Stmt} (hw : SetsLegally db w) :
    w.Keeps (LegalChanges db) := by
  obtain ⟨x, rfl, o, ho, hid, hx⟩ := hw
  exact fun _ h => h.setOrder hids ho hid hx

theorem followStatuses_writes {statuses : Json} {orders : List Order} (hmem : ∀ o ∈ orders, o ∈ db.orders)
    (hlegal : ∀ o ∈ orders, ∀ raw status, reportedStatus statuses o = .ok (some (raw, status)) →
      LegalChange o.status status) : (followStatuses statuses orders).Writes (SetsLegally db) := by
  induction orders with
  | nil => exact .pure _
  | cons o rest ih =>
    have hrest := ih (fun p hp => hmem p (List.mem_cons_of_mem _ hp))
      fun p hp => hlegal p (List.mem_cons_of_mem _ hp)
    unfold followStatuses
    split
    · exact .pure _
    · exact hrest
    · next raw status hreport =>
      split
      · exact hrest
      · have hset : SetsLegally db (Stmt.setOrder (o.monitored raw status).1) := by
          refine ⟨_, rfl, o, hmem o List.mem_cons_self, (monitored_fields o raw status).1, ?_⟩
          rw [(monitored_fields o raw status).2]
          exact hlegal o List.mem_cons_self raw status hreport
        refine .bind (.write hset) fun _ => ?_
        split
        · exact .pure _
        · exact .bind hrest fun _ => .pure _

theorem mem_byProvider {orders : List Order} {group : Int × List Order} (h : group ∈ byProvider orders) :
    ∀ o ∈ group.2, o ∈ orders := by
  obtain ⟨p, -, rfl⟩ := List.mem_map.mp h
  exact fun o ho => List.mem_of_mem_filter ho

theorem followProviders_writes {registry : StatusRegistry} {groups : List (Int × List Order)}
    (hmem : ∀ group ∈ groups, ∀ o ∈ group.2, o ∈ db.orders)
    (hlegal : ∀ group ∈ groups, ∀ statuses, askStatuses registry group = .ok statuses →
      ∀ o ∈ group.2, ∀ raw status, reportedStatus statuses o = .ok (some (raw, status)) →
        LegalChange o.status status) : (followProviders registry groups).Writes (SetsLegally db) := by
  induction groups with
  | nil => exact .pure _
  | cons group rest ih =>
    have hrest := ih (fun g hg => hmem g (List.mem_cons_of_mem _ hg))
      fun g hg => hlegal g (List.mem_cons_of_mem _ hg)
    unfold followProviders
    refine .bind ?_ fun _ => .bind hrest fun _ => .pure _
    unfold followProvider
    split
    · exact .pure _
    · next statuses hask =>
      exact followStatuses_writes (hmem group List.mem_cons_self) (hlegal group List.mem_cons_self statuses hask)

/-- Each call changes statuses as the table allows where it is given statuses that it allows. -/
theorem statusStep_legal {c : StatusCall} (hids : (db.orders.map (·.id)).Nodup) (hc : Allowed db c) (keep : Bool) :
    LegalChanges db (statusStep db (c, keep)) := by
  have hrefl : LegalChanges db db := .refl hids
  cases c with
  | monitor registry =>
    -- the pass is over the orders that are open when it starts
    show LegalChanges db ((followOrders registry db.openOrders >>= fun _ => pure ()).commit (keptAfter keep) db)
    refine Txn.Prog.Writes.commit (P := SetsLegally db) (fun _ hw => hw.keeps hids) ?_ hrefl _
    have hmem : ∀ group ∈ byProvider db.openOrders, ∀ o ∈ group.2, o ∈ db.orders := fun group hg o ho =>
      List.mem_of_mem_filter (List.mem_of_mem_take (mem_byProvider hg o ho))
    refine .bind (.ite (.pure _) ?_) fun _ => .pure _
    exact .bind (followProviders_writes hmem hc) fun _ => .bind (.flushed _) fun _ => .pure _
  | update id status remains startCount =>
    refine Txn.Prog.commit_of_ended hrefl ?_
    show (updateOrderStatus id status remains startCount >>= _).wp _ _ _
    rw [wp_bind]
    refine wp_updateOrderStatus rfl (fun _ _ => ⟨rfl, hrefl⟩) (fun _ h => by simp [keptAfter] at h) fun o ho => ?_
    exact ⟨rfl, hrefl.setOrder hids (Db.getOrder_some ho).1 rfl (hc o ho)⟩
  | refund id reason =>
    refine Txn.Prog.commit_of_ended hrefl ?_
    show (refundOrderById id reason).wp _ _ _
    unfold refundOrderById
    rw [wp_bind, wp_query]
    cases hget : db.getOrder id with
    | none => exact fun _ => ⟨rfl, hrefl⟩
    | some o =>
      refine wp_refundOrder rfl (fun _ _ => ⟨rfl, hrefl⟩) (fun _ h => by simp [keptAfter] at h) (fun _ => ⟨rfl, hrefl⟩)
        fun db' hpos hentered => ⟨rfl, ?_⟩
      have horders : LegalChanges db db' := by
        rcases hentered with ⟨_, _, rfl⟩ | ⟨t, _, rfl⟩
        · exact hrefl
        · exact ⟨rfl, hrefl.legal⟩
      exact horders.setOrder hids (Db.getOrder_some hget).1 rfl (hc o hget hpos)

/-- **Statuses change as the table allows.** In a run whose calls are given
statuses that it allows for the orders as they are, each call changes the
status of each order as it allows. -/
theorem status_changes_legal {start : Db} {calls : List (StatusCall × Bool)} (hids : (start.orders.map (·.id)).Nodup)
    (hcalls : ∀ done c rest, calls = done ++ c :: rest → Allowed (statusRun start done) c.1) :
    ∀ done c rest, calls = done ++ c :: rest →
      LegalChanges (statusRun start done) (statusRun start (done ++ [c])) := by
  intro done c rest h
  have hdone : ((statusRun start done).orders.map (·.id)).Nodup := by
    refine @Txn.foldl_keeps _ _ statusStep (fun db => (db.orders.map (·.id)).Nodup) (fun db c => Allowed db c.1)
      (fun db c hdb hc => ?_) start done hids fun done' c' rest' h' => ?_
    · rw [(statusStep_legal hdb hc c.2).ids]
      exact hdb
    · exact hcalls done' c' (rest' ++ c :: rest) (by rw [h, h', List.append_assoc, List.cons_append])
  rw [statusRun, statusRun, List.foldl_append]
  exact statusStep_legal hdone (hcalls done c rest h) c.2

end

/-! ## A completed order is refunded -/

def underWay : Order where
  id := "o1"
  publicRef := "ORD-20260101-00000001"
  userId := 7
  tenantId := none
  serviceId := 1
  providerId := 2
  providerOrderId := some "9001"
  providerSvcId := "55"
  status := .processing
  quantity := 1000
  link := some "https://t.me/x"
  priceCharged := 1000000
  providerCost := 80000000
  currency := "INR"
  idempotencyKey := "k1"
  source := "bot"
  priority := 3
  refillEligible := false
  cancelEligible := false

def oneUnderWay : Db := { oneService with orders := [underWay] }

/-- The provider gives its order this status, and what remains of it. -/
def reports (status : String) : StatusRegistry := fun _ _ =>
  .ok (.object [("9001", .object [("status", .str status), ("remains", .int 10)])])

def followAndRefund (status : String) : List (StatusCall × Bool) :=
  [(.monitor (reports status), false), (.refund "o1" "Admin refund", false)]

/-- A partial order is refunded, step by step as the table allows. -/
theorem status_changes_legal_of_partial :
    (statusRun oneUnderWay (followAndRefund "Partial")).orders.map (·.status) = [.refunded] ∧
      ∀ done c rest, followAndRefund "Partial" = done ++ c :: rest →
        LegalChanges (statusRun oneUnderWay done) (statusRun oneUnderWay (done ++ [c])) := by
  refine ⟨by decide +kernel, status_changes_legal (by decide) fun done c rest h => ?_⟩
  match done, h with
  | [], h =>
    cases h
    have hgroups : byProvider oneUnderWay.openOrders = [(2, [underWay])] := by decide +kernel
    have hreport : ∃ raw, reportedStatus (.object [("9001", .object [("status", .str "Partial"), ("remains", .int 10)])])
        underWay = .ok (some (raw, .partial_)) := ⟨_, rfl⟩
    show Allowed oneUnderWay (.monitor (reports "Partial"))
    intro group hg statuses hask o ho raw status hstatus
    rw [hgroups, List.mem_singleton] at hg
    subst hg
    cases hask
    rw [List.mem_singleton] at ho
    subst ho
    obtain ⟨raw', hraw⟩ := hreport
    cases hstatus.symm.trans hraw
    decide
  | [d], h =>
    cases h
    show ∀ o ∈ (statusRun oneUnderWay ((followAndRefund "Partial").take 1)).getOrder "o1", _
    decide +kernel
  | _ :: _ :: done, h => simp [followAndRefund] at h

/-- A completed order becomes refunded. -/
theorem completed_order_refunded : ¬ ∀ done c rest, followAndRefund "Completed" = done ++ c :: rest →
    LegalChanges (statusRun oneUnderWay done) (statusRun oneUnderWay (done ++ [c])) := by
  intro h
  exact absurd (h [_] _ [] rfl).legal (by decide +kernel)

end Falaron.Core
