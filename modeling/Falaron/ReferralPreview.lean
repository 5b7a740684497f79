/-
The preview of a referrer's commissions on orders.

The snapshot a referrer is shown tells what the open orders of the users he
referred will bring. It gives each buyer as many places as his completed
orders leave of the first three, and the places to his open orders in turn.
What an order earns when it completes goes by its place among the buyer's
completed orders as they are then, and it earns once. So the preview misses an
open order that was placed before some that are completed by now, and shows
one that earned already and is open again for a refill.
-/
import Falaron.OrderCommission
import Falaron.OrderSync
import Falaron.Txn.Run

namespace Falaron

open Txn.Prog hiding pure

/-! ## The preview -/

structure ReferralSnapshot where
  code : String
  invited : Nat
  earningsPaise : Int
  pendingPaise : Int
  converting : Nat
  deriving DecidableEq, Repr

/-- The commission on the order. -/
def Order.share (o : Order) : Int := commissionPaise o.chargePaise referralOrderCommissionPercent

def Order.isActive (o : Order) : Bool := OrderStatus.active.contains o.status

/-- Open, and of one of the users. -/
def Order.isOpenOf (users : List Int) (o : Order) : Bool := users.contains o.userId && o.isActive

def Order.isCompleted (o : Order) : Bool := o.status == .completed

/-- The ids of the table of users. -/
structure Db.UserIds (db : Db) where
  ids : List Int
  nodup : ids.Nodup
  mem_iff : ∀ u, u ∈ ids ↔ (db.users u).isSome = true

namespace Db

variable (db : Db)

def downline (ids : List Int) (userId : Int) : List Int := ids.filter fun u => db.referredBy u == .some userId

def openOrdersOf (downline : List Int) : List Order := db.orders.filter (Order.isOpenOf downline)

def completedBy (u : Int) : Nat := (db.orders.filter fun o => o.userId == u && o.isCompleted).length

def referralEarnings (u : Int) : Int :=
  ((db.ledger.filter fun e => e.userId == u && e.referenceType == .some "referral" && e.entryType == .credit).map
    (·.amountPaise)).sum

/-- How many of the referred have a completed order. -/
def converting (downline : List Int) : Nat :=
  ((db.orders.filter fun o => downline.contains o.userId && o.isCompleted).map (·.userId)).dedup.length

def remainingSlots (u : Int) : Nat := referralOrderCap - db.completedBy u

end Db

/-- The next open order, with what is pending and used up before it. -/
def previewOrder (slots : Int → Nat) (seen : Int × (Int → Nat)) (o : Order) : Int × (Int → Nat) :=
  if slots o.userId ≤ seen.2 o.userId then seen
  else (seen.1 + o.share, Function.update seen.2 o.userId (seen.2 o.userId + 1))

def Db.pending (db : Db) (downline : List Int) : Int :=
  ((db.openOrdersOf downline).foldl (previewOrder db.remainingSlots) (0, fun _ => 0)).1

/-- `referral_snapshot`, once the user has his code; `ids` are the ids of the table of users. -/
def referralSnapshot (code : String) (ids : List Int) (userId : Int) : M ReferralSnapshot := do
  let invited ← .query fun db => (db.downline ids userId).length
  let earnings ← .query (·.referralEarnings userId)
  let converting ← .query fun db => db.converting (db.downline ids userId)
  let downline ← .query (·.downline ids userId)
  if downline = [] then pure ⟨code, invited, earnings, 0, converting⟩
  else
    let openOrders ← .query (·.openOrdersOf downline)
    let slots ← .query (·.remainingSlots)
    let (pending, _) := openOrders.foldl (previewOrder slots) (0, fun _ => 0)
    pure ⟨code, invited, earnings, pending, converting⟩

/-! ## The payout -/

namespace Db

variable (db : Db)

/-- The orders complete, one after the other. -/
def afterCompletions (now : Time) (orders : List Order) : Db :=
  orders.foldl (fun db o => (applyStatus now o .completed .none).commit (fun _ => false) db) db

/-- What the user is newly credited for it. -/
def payout (now : Time) (userId : Int) (orders : List Order) : Int :=
  (db.afterCompletions now orders).referralEarnings userId - db.referralEarnings userId

/-! ## Where they differ -/

/-- How many orders of a kind the buyer had placed before `o`. -/
def placedBefore (kind : Order → Bool) (o : Order) : Nat :=
  ((db.orders.takeWhile (·.publicId != o.publicId)).filter fun o' => o'.userId == o.userId && kind o').length

/-- There is a place for the order when all that are completed take theirs first. -/
def hasSlot (o : Order) : Bool := db.completedBy o.userId + db.placedBefore Order.isActive o < referralOrderCap

/-- The order is one of the buyer's first, of those that are open or completed. -/
def isEarly (o : Order) : Bool := db.placedBefore (fun o' => o'.isActive || o'.isCompleted) o < referralOrderCap

/-- The order earned already, or the buyer is his own referrer. -/
def isSpent (userId : Int) (o : Order) : Bool := (db.findEntry (.reford o.publicId)).isSome || o.userId == userId

end Db

def totalShare (l : List Order) : Int := (l.map Order.share).sum

namespace Db

variable (db : Db)

/-- What is shown of orders that earn nothing any more. -/
def shownInVain (downline : List Int) (userId : Int) : Int :=
  totalShare ((db.openOrdersOf downline).filter fun o => db.hasSlot o && db.isSpent userId o)

/-- What orders will earn that the preview has no place for. -/
def notShown (downline : List Int) (userId : Int) : Int :=
  totalShare ((db.openOrdersOf downline).filter fun o => !db.hasSlot o && db.isEarly o && !db.isSpent userId o)

end Db

/-! ## Shares -/

section

variable {p q r : Order → Bool} {o : Order} {l : List Order}

@[simp] theorem totalShare_cons : totalShare (o :: l) = o.share + totalShare l := List.sum_cons

/-- One order more, if it is of the kind. -/
theorem totalShare_filter_snoc :
    totalShare ((l ++ [o]).filter p) = totalShare (l.filter p) + if p o then o.share else 0 := by
  simp only [totalShare, List.filter_append, List.map_append, List.sum_append, List.filter_singleton]
  cases p o <;> simp

theorem Order.share_nonneg (o : Order) : 0 ≤ o.share := by
  unfold share commissionPaise
  split
  · exact le_refl 0
  · next hc =>
    simp only [Bool.or_eq_true, decide_eq_true_eq, not_or, not_le] at hc
    exact Int.ediv_nonneg (mul_nonneg hc.1.le hc.2.le) (by decide)

/-- Two sums over parts of a list are equal when what only one of them has is. -/
theorem totalShare_eq_iff (hpq : ∀ o, p o = true → q o = true) (l : List Order) :
    totalShare (l.filter p) = totalShare (l.filter fun o => q o && !r o) ↔
      totalShare (l.filter fun o => p o && r o) = totalShare (l.filter fun o => !p o && q o && !r o) := by
  have hsum : totalShare (l.filter p) + totalShare (l.filter fun o => !p o && q o && !r o) =
      totalShare (l.filter fun o => q o && !r o) + totalShare (l.filter fun o => p o && r o) := by
    induction l with
    | nil => rfl
    | cons o l ih =>
      have hpq := hpq o
      simp only [List.filter_cons]
      cases hp : p o <;> cases hq : q o <;> cases r o <;> simp_all <;> omega
  omega

end

/-! ## What is shown -/

theorem Order.isOpenOf_iff {users : List Int} {o : Order} :
    o.isOpenOf users = true ↔ o.userId ∈ users ∧ o.isActive = true := by
  simp [isOpenOf]

/-- The orders before and after one have other ids. -/
theorem other_ids {l before after : List Order} {o : Order} (hids : (l.map (·.publicId)).Nodup)
    (h : l = before ++ o :: after) :
    (∀ o' ∈ before, o'.publicId ≠ o.publicId) ∧ ∀ o' ∈ after, o'.publicId ≠ o.publicId := by
  rw [h, List.map_append, List.map_cons] at hids
  obtain ⟨-, hafter, hne⟩ := List.nodup_append.mp hids
  have hnot := (List.nodup_cons.mp hafter).1
  refine ⟨fun o' ho' => hne _ (List.mem_map_of_mem ho') _ (by simp), fun o' ho' heq => ?_⟩
  exact hnot (heq ▸ List.mem_map_of_mem ho')

namespace Db

variable {db : Db} {o : Order} {before after : List Order} {downline ids : List Int} {u userId : Int}

theorem mem_downline : u ∈ db.downline ids userId ↔ u ∈ ids ∧ db.referredBy u = .some userId := by
  simp [downline]

theorem placedBefore_eq (hids : (db.orders.map (·.publicId)).Nodup) (h : db.orders = before ++ o :: after)
    (kind : Order → Bool) :
    db.placedBefore kind o = (before.filter fun o' => o'.userId == o.userId && kind o').length := by
  have htake : db.orders.takeWhile (·.publicId != o.publicId) = before := by
    rw [h, List.takeWhile_append_of_pos, List.takeWhile_cons_of_neg (by simp), List.append_nil]
    intro o' ho'
    exact bne_iff_ne.mpr ((other_ids hids h).1 o' ho')
  rw [placedBefore, htake]

/-- How many open orders of the user are among the orders. -/
def openCount (l : List Order) (u : Int) : Nat := (l.filter fun o => o.userId == u && o.isActive).length

theorem openCount_snoc : openCount (before ++ [o]) u =
    openCount before u + if o.userId = u ∧ o.isActive then 1 else 0 := by
  simp only [openCount, List.filter_append, List.length_append, List.filter_cons, List.filter_nil, Bool.and_eq_true,
    beq_iff_eq]
  split <;> rfl

/-- What the preview has made of the orders so far. -/
structure Previewed (db : Db) (downline : List Int) (l : List Order) (seen : Int × (Int → Nat)) : Prop where
  pending : seen.1 = totalShare ((l.filter (Order.isOpenOf downline)).filter db.hasSlot)
  used : ∀ u ∈ downline, seen.2 u = min (db.remainingSlots u) (openCount l u)

variable {seen : Int × (Int → Nat)}

theorem Previewed.skip (h : Previewed db downline before seen) (ho : o.isOpenOf downline = false) :
    Previewed db downline (before ++ [o]) seen where
  pending := by
    rw [h.pending, List.filter_append, List.filter_cons_of_neg (by simp [ho]), List.filter_nil, List.append_nil]
  used u hu := by
    rw [openCount_snoc, h.used u hu, if_neg, Nat.add_zero]
    intro ⟨hown, hactive⟩
    simp [Order.isOpenOf, hown, hu, hactive] at ho

theorem Previewed.next (h : Previewed db downline before seen) (hids : (db.orders.map (·.publicId)).Nodup)
    (heq : db.orders = before ++ o :: after) (ho : o.isOpenOf downline = true) :
    Previewed db downline (before ++ [o]) (previewOrder db.remainingSlots seen o) := by
  obtain ⟨hown, hactive⟩ := Order.isOpenOf_iff.mp ho
  have hsum := totalShare_filter_snoc (p := db.hasSlot) (o := o) (l := before.filter (Order.isOpenOf downline))
  -- the order has a place while fewer open ones came before it than there are places
  have hslot : db.hasSlot o = decide (openCount before o.userId < db.remainingSlots o.userId) := by
    rw [hasSlot, placedBefore_eq hids heq, decide_eq_decide]
    show _ + openCount before o.userId < _ ↔ _
    unfold remainingSlots
    omega
  have hused := h.used o.userId hown
  unfold previewOrder
  split
  case isTrue hfull =>
    have hno : db.hasSlot o = false := by
      rw [hslot, decide_eq_false_iff_not]
      omega
    refine ⟨?_, fun u hu => ?_⟩
    · rw [h.pending, List.filter_append, List.filter_cons_of_pos ho, List.filter_nil, hsum, hno]
      simp
    · rw [openCount_snoc, h.used u hu]
      split
      · next hc =>
        rw [← hc.1]
        omega
      · rfl
  case isFalse hfree =>
    have hyes : db.hasSlot o = true := by
      rw [hslot, decide_eq_true_iff]
      omega
    refine ⟨?_, fun u hu => ?_⟩
    · rw [List.filter_append, List.filter_cons_of_pos ho, List.filter_nil, hsum, hyes, ← h.pending]
      rfl
    · show Function.update seen.2 o.userId (seen.2 o.userId + 1) u = _
      rw [openCount_snoc]
      rcases eq_or_ne u o.userId with rfl | hne
      · rw [Function.update_self, if_pos ⟨rfl, hactive⟩]
        omega
      · rw [Function.update_of_ne hne, if_neg fun hc => hne hc.1.symm, Nat.add_zero]
        exact h.used u hu

/-- The preview shows the shares of the orders that have a place. -/
theorem pending_eq (hids : (db.orders.map (·.publicId)).Nodup) (downline : List Int) :
    db.pending downline = totalShare ((db.openOrdersOf downline).filter db.hasSlot) := by
  have h : Previewed db downline db.orders
      ((db.openOrdersOf downline).foldl (previewOrder db.remainingSlots) (0, fun _ => 0)) := by
    rw [openOrdersOf, List.foldl_filter]
    refine Txn.foldl_through ⟨rfl, fun u _ => (Nat.min_zero _).symm⟩ fun before o after seen heq hseen => ?_
    split
    · next ho => exact hseen.next hids heq ho
    · next ho => exact hseen.skip (Bool.not_eq_true _ ▸ ho)
  exact h.pending

end Db

/-! ## What is credited -/

/-- The order is one of the first of the user's that are completed. -/
def Db.EarlyDone (db : Db) (u : Int) (o : Order) : Prop :=
  o.publicId ∈ ((db.orders.filter fun o' => o'.userId == u && o'.status == .completed).map (·.publicId)).take
    referralOrderCap

/-- The commission on an order whose buyer and referrer are known. -/
theorem wp_creditOrderCommission_known {s : Session} {o : Order} {buyer referrer : User} {id : Int}
    {Q : Unit → Session → Prop} {E : Err → Session → Prop} (hdone : o.status = .completed) (hcharge : 0 < o.chargePaise)
    (hbuyer : s.db.users o.userId = .some buyer) (hid : buyer.referredBy = .some id)
    (href : s.db.users id = .some referrer)
    (hskip : ¬ (s.db.EarlyDone buyer.telegramId o ∧ referrer.telegramId ≠ buyer.telegramId ∧ 0 < o.share) → Q () s)
    (hcredit : s.db.EarlyDone buyer.telegramId o → referrer.telegramId ≠ buyer.telegramId → 0 < o.share →
      (credit ⟨referrer.telegramId, o.share, s!"Referral 8% {o.publicId}", .some "referral", .some o.publicId⟩
        (.some (.reford o.publicId))).wp (fun _ => Q ()) E s) :
    (creditOrderCommission o).wp Q E s := by
  unfold creditOrderCommission
  rw [if_neg (by simp [hdone, hcharge])]
  simp only [wp_bind, wp_query, hbuyer, Option.filter_some, hid, Option.isSome_some, if_true]
  split
  · next hlate => exact hskip fun h => hlate h.1
  next hearly =>
  simp only [wp_bind, referrerOf, hid, wp_query, href, wp_pure', Option.filter_some]
  by_cases hother : referrer.telegramId = buyer.telegramId
  · simp only [hother, ne_eq, not_true_eq_false, decide_false, Bool.false_eq_true, if_false]
    exact hskip fun h => h.2.1 hother
  simp only [hother, ne_eq, not_false_eq_true, decide_true, if_true, creditCommission]
  split
  · next hzero => exact hskip fun h => absurd h.2.2 (not_lt.mpr hzero)
  · next hpos =>
    simp only [wp_bind, wp_pure']
    exact hcredit (not_not.mp hearly) hother (not_le.mp hpos)

/-- The order is completed, if it is an open one. -/
def Order.turned (now : Time) (users : List Int) (o : Order) : Order :=
  if o.isOpenOf users then { o with status := .completed, updatedAt := now } else o

/-- The tables once the open ones of the orders `before` are completed. -/
structure Completing (db : Db) (now : Time) (downline : List Int) (userId : Int) (before after : List Order)
    (d : Db) : Prop where
  orders : d.orders = before.map (Order.turned now downline) ++ after
  house : db.SameHouse d
  payable : d.Payable
  entries : ∀ o ∈ after, d.findEntry (.reford o.publicId) = db.findEntry (.reford o.publicId)
  earned : d.referralEarnings userId = db.referralEarnings userId +
    totalShare ((before.filter (Order.isOpenOf downline)).filter fun o => db.isEarly o && !db.isSpent userId o)

section

variable {db d : Db} {now : Time} {o : Order} {before after : List Order} {downline : List Int} {userId : Int}

@[simp] theorem Order.turned_publicId (o : Order) : (o.turned now downline).publicId = o.publicId := by
  unfold turned
  split <;> rfl

@[simp] theorem Order.turned_userId (o : Order) : (o.turned now downline).userId = o.userId := by
  unfold turned
  split <;> rfl

@[simp] theorem Order.turned_chargePaise (o : Order) : (o.turned now downline).chargePaise = o.chargePaise := by
  unfold turned
  split <;> rfl

@[simp] theorem Order.turned_share (o : Order) : (o.turned now downline).share = o.share := by
  rw [share, turned_chargePaise, share]

theorem Order.turned_completed (ho : o.userId ∈ downline) :
    ((o.turned now downline).status == .completed) = (o.isActive || o.isCompleted) := by
  have hopen : o.isOpenOf downline = o.isActive := by simp [isOpenOf, ho]
  unfold turned
  rw [hopen]
  split
  · next hactive => rw [hactive, Bool.true_or, beq_self_eq_true]
  · next hdone => rw [Bool.eq_false_iff.mpr hdone, Bool.false_or, isCompleted]

theorem mem_take_middle {α : Type} [DecidableEq α] {xs ys : List α} {x : α} {n : Nat} (h : (xs ++ x :: ys).Nodup) :
    x ∈ (xs ++ x :: ys).take n ↔ xs.length < n := by
  have hx : x ∉ xs := fun hx => (List.nodup_append.mp h).2.2 x hx x (by simp) rfl
  rw [List.mem_take_iff_idxOf_lt (by simp), List.idxOf_append_of_notMem hx, List.idxOf_cons_self, Nat.add_zero]

/-- Once the open orders before it are completed, an order is as early among
the completed ones as it was among those open or completed. -/
theorem earlyDone_iff (hids : (db.orders.map (·.publicId)).Nodup) (heq : db.orders = before ++ o :: after)
    (ho : o.isOpenOf downline = true)
    (hd : d.orders = before.map (Order.turned now downline) ++ o.turned now downline :: after) :
    d.EarlyDone o.userId (o.turned now downline) ↔ db.isEarly o = true := by
  obtain ⟨hown, hactive⟩ := Order.isOpenOf_iff.mp ho
  have hnodup : (d.orders.map (·.publicId)).Nodup := by
    rw [heq] at hids
    simpa [hd, Function.comp_def] using hids
  let done (o' : Order) : Bool := o'.userId == o.userId && o'.status == .completed
  have hself : done (o.turned now downline) = true := by simp [done, Order.turned_completed hown, hactive]
  have hbefore : (before.map (Order.turned now downline)).filter done =
      (before.filter fun o' => o'.userId == o.userId && (o'.isActive || o'.isCompleted)).map
        (Order.turned now downline) := by
    rw [List.filter_map]
    refine congrArg _ (List.filter_congr fun o' _ => ?_)
    simp only [Function.comp_apply, done, Order.turned_userId]
    by_cases hu : o'.userId = o.userId
    · rw [Order.turned_completed (hu ▸ hown)]
    · rw [beq_false_of_ne hu, Bool.false_and, Bool.false_and]
  have hsplit := (hnodup.sublist ((List.filter_sublist (p := done)).map _))
  rw [hd, List.filter_append, List.filter_cons_of_pos hself, hbefore, List.map_append, List.map_cons] at hsplit
  unfold Db.EarlyDone
  rw [hd, List.filter_append, List.filter_cons_of_pos hself, hbefore, List.map_append, List.map_cons,
    mem_take_middle hsplit, Db.isEarly, Db.placedBefore_eq hids heq, decide_eq_true_iff]
  simp

theorem Completing.skip (h : Completing db now downline userId before (o :: after) d)
    (ho : o.isOpenOf downline = false) : Completing db now downline userId (before ++ [o]) after d where
  orders := by simp [h.orders, Order.turned, ho]
  house := h.house
  payable := h.payable
  entries o' ho' := h.entries o' (List.mem_cons_of_mem o ho')
  earned := by
    rw [h.earned, List.filter_append, List.filter_cons_of_neg (by simp [ho]), List.filter_nil, List.append_nil]

/-- The status is written, with its event. -/
theorem wp_recordEvent_settled {toStatus : OrderStatus} {note : String} {Q : Order → Session → Prop}
    {E : Err → Session → Prop} {sent : List Ext}
    (hQ : ∀ d', d'.ledger = d.ledger → d'.users = d.users → d.SameHouse d' →
      d'.orders = (d.updateOrder o.publicId fun o => { o with status := toStatus, updatedAt := now }).orders →
      Q { o with status := toStatus, updatedAt := now } { db := d', sent := sent }) :
    (recordEvent now o toStatus note).wp Q E { db := d, sent := sent } := by
  simp only [recordEvent, setOrder, wp_bind, wp_write, wp_pure']
  refine wp_flush rfl ?_
  exact hQ _ rfl rfl ⟨rfl, rfl, rfl, fun _ => rfl⟩ rfl

theorem Db.updateOrder_middle {g : Order → Order} (hids : (d.orders.map (·.publicId)).Nodup)
    (hd : d.orders = before ++ o :: after) : (d.updateOrder o.publicId g).orders = before ++ g o :: after := by
  obtain ⟨hbefore, hafter⟩ := other_ids hids hd
  have hsame : ∀ l : List Order, (∀ o' ∈ l, o'.publicId ≠ o.publicId) →
      (l.map fun o' => if o'.publicId = o.publicId then g o' else o') = l := by
    intro l hl
    exact (List.map_congr_left fun o' ho' => if_neg (hl o' ho')).trans (List.map_id' l)
  simp only [Db.updateOrder, hd, List.map_append, List.map_cons, if_true]
  rw [hsame before hbefore, hsame after hafter]

theorem Db.referralEarnings_posted {e : LedgerEntry} {u : Int} (hu : e.userId = u)
    (href : e.referenceType = .some "referral") (ht : e.entryType = .credit) :
    (d.posted e).referralEarnings u = d.referralEarnings u + e.amountPaise := by
  simp [referralEarnings, hu, href, ht]

/-- What a credit is made of. -/
theorem Posts.credit_eq {p : Posting} {key : Key} {e : LedgerEntry}
    (h : Posts d p .credit key (creditDraft p.amountPaise) e) : e.userId = p.userId ∧ e.amountPaise = p.amountPaise ∧
      e.referenceType = p.referenceType ∧ e.entryType = .credit := by
  obtain ⟨_, draft, _, hdraft, rfl, -⟩ := h.drafted
  cases hdraft
  exact ⟨rfl, rfl, rfl, rfl⟩

/-- The tables the orders of a user's referred users are read from. -/
structure Refers (db : Db) (downline : List Int) (userId : Int) : Prop where
  ids : (db.orders.map (·.publicId)).Nodup
  charges : ∀ o ∈ db.orders, 0 < o.chargePaise
  referred : ∀ u ∈ downline, db.referredBy u = .some userId
  row : (db.users userId).isSome = true

/-- The order's status is written. -/
theorem Completing.turned {d' : Db} (h : Completing db now downline userId before (o :: after) d)
    (hids : (db.orders.map (·.publicId)).Nodup) (heq : db.orders = before ++ o :: after)
    (ho : o.isOpenOf downline = true) (hledger : d'.ledger = d.ledger) (husers : d'.users = d.users)
    (hhouse : d.SameHouse d') (horders : d'.orders =
      (d.updateOrder o.publicId fun o => { o with status := .completed, updatedAt := now }).orders) :
    Completing db now downline userId before (o.turned now downline :: after) d' where
  orders := by
    have hids' : (d.orders.map (·.publicId)).Nodup := by
      rw [heq] at hids
      simpa [h.orders, Function.comp_def] using hids
    rw [horders, Db.updateOrder_middle hids' h.orders, Order.turned, if_pos ho]
  house := h.house.trans hhouse
  payable := ⟨h.payable.keyed.sameHouse hhouse, by rw [husers]; exact h.payable.covered⟩
  entries o' ho' := by
    rw [Db.findEntry, hledger]
    rcases List.mem_cons.mp ho' with rfl | ho'
    · rw [Order.turned_publicId]
      exact h.entries o (by simp)
    · exact h.entries o' (by simp [ho'])
  earned := by
    rw [Db.referralEarnings, hledger]
    exact h.earned

/-- The share of a completed order is credited, if there is anything to credit. -/
theorem Completing.earn {d' : Db} (h : Completing db now downline userId before (o.turned now downline :: after) d)
    (ho : o.isOpenOf downline = true) (horders : d'.orders = d.orders) (hhouse : d.SameHouse d') (hpay : d'.Payable)
    (hentries : ∀ o' ∈ after, d'.findEntry (.reford o'.publicId) = d.findEntry (.reford o'.publicId))
    (hearned : d'.referralEarnings userId = d.referralEarnings userId +
      if db.isEarly o && !db.isSpent userId o then o.share else 0) :
    Completing db now downline userId (before ++ [o]) after d' where
  orders := by simp [horders, h.orders]
  house := h.house.trans hhouse
  payable := hpay
  entries o' ho' := (hentries o' ho').trans (h.entries o' (by simp [ho']))
  earned := by
    rw [hearned, h.earned, List.filter_append, List.filter_cons_of_pos ho, List.filter_nil, totalShare_filter_snoc,
      Int.add_assoc]

/-- An order of the buyer's first earns its share, unless it earned before. -/
theorem Completing.credited (h : Completing db now downline userId before (o.turned now downline :: after) d)
    (hr : Refers db downline userId) (heq : db.orders = before ++ o :: after)
    (ho : o.isOpenOf downline = true) : (creditOrderCommission (o.turned now downline)).wp
      (fun _ s => s.staged = [] ∧ Completing db now downline userId (before ++ [o]) after s.db)
      (fun _ _ => False) { db := d } := by
  obtain ⟨hown, hactive⟩ := Order.isOpenOf_iff.mp ho
  obtain ⟨buyer, hbuyer, hid⟩ : ∃ buyer, d.users o.userId = .some buyer ∧ buyer.referredBy = .some userId :=
    Option.bind_eq_some_iff.mp ((h.house.referredBy o.userId).trans (hr.referred _ hown))
  obtain ⟨row, hrow⟩ := Option.isSome_iff_exists.mp hr.row
  obtain ⟨referrer, hreferrer, -⟩ := h.house.user hrow
  have hbuyerId : buyer.telegramId = o.userId := h.payable.keyed _ _ hbuyer
  have hreferrerId : referrer.telegramId = userId := h.payable.keyed _ _ hreferrer
  have hcharge : 0 < o.chargePaise := hr.charges o (by simp [heq])
  have hearly := earlyDone_iff hr.ids heq ho h.orders
  have hentry := h.entries (o.turned now downline) (by simp)
  have hkept (hzero : (if db.isEarly o && !db.isSpent userId o then o.share else 0) = 0) :
      Completing db now downline userId (before ++ [o]) after d :=
    h.earn ho rfl (.refl d) h.payable (fun _ _ => rfl) (by rw [hzero, Int.add_zero])
  have hdone : (o.turned now downline).status = .completed := by
    rw [Order.turned, if_pos ho]
  refine wp_creditOrderCommission_known hdone (by simpa using hcharge) (by simpa using hbuyer) hid hreferrer
    (fun hno => ⟨rfl, hkept ?_⟩) fun hfirst hother hpos => ?_
  · rw [hbuyerId, hreferrerId, hearly, Order.turned_share] at hno
    split
    · next hq =>
      -- early and not spent, and still nothing to credit: the share is less than a paisa
      simp only [Db.isSpent, Bool.and_eq_true, Bool.not_eq_true', Bool.or_eq_false_iff, beq_eq_false_iff_ne] at hq
      have hnot : ¬ 0 < o.share := fun hpos => hno ⟨hq.1, hq.2.2.symm, hpos⟩
      exact le_antisymm (not_lt.mp hnot) o.share_nonneg
    · rfl
  · rw [hbuyerId, hearly] at hfirst
    rw [hbuyerId, hreferrerId] at hother
    have huser : (d.users referrer.telegramId).isSome = true := by
      rw [hreferrerId, hreferrer]
      rfl
    refine wp_credit_lands h.payable hpos huser (fun _ => rfl) (fun e he => ⟨rfl, hkept ?_⟩) fun e he => ⟨rfl, ?_⟩
    · -- it earned before, and the old entry is returned
      rw [hentry, Order.turned_publicId] at he
      simp [Db.isSpent, he]
    · have hfresh := he.fresh
      rw [hentry, Order.turned_publicId] at hfresh
      obtain ⟨huserId, hamount, href, hcredit⟩ := he.credit_eq
      have hkey : e.idempotencyKey = .reford (o.turned now downline).publicId := he.entry_eq.2
      refine h.earn ho rfl (.posted (.refl d) e) (h.payable.posted he) (fun o' ho' => ?_) ?_
      · rw [Db.findEntry_posted, if_neg, Option.or_none]
        rw [hkey, Order.turned_publicId, Key.reford.injEq]
        exact fun hsame => (other_ids hr.ids heq).2 o' ho' hsame.symm
      · have hearns : (db.isEarly o && !db.isSpent userId o) = true := by
          simp [hfirst, Db.isSpent, hfresh, hother.symm]
        rw [hearns, if_pos rfl, ← o.turned_share]
        exact (Db.referralEarnings_posted (huserId.trans hreferrerId) href hcredit).trans (by rw [hamount])

theorem Completing.complete (h : Completing db now downline userId before (o :: after) d)
    (hr : Refers db downline userId) (heq : db.orders = before ++ o :: after)
    (ho : o.isOpenOf downline = true) : Completing db now downline userId (before ++ [o]) after
      ((applyStatus now o .completed .none).commit (fun _ => false) d) := by
  refine Txn.Prog.commit_of_ok ?_
  simp only [applyStatus, wp_bind]
  refine wp_recordEvent_settled fun d₁ hledger husers hhouse horders => ?_
  have hturned : { o with status := .completed, updatedAt := now } = o.turned now downline := (if_pos ho).symm
  rw [hturned, if_neg (by decide), if_neg (by simp), if_true]
  simp only [wp_bind]
  have h₁ := h.turned hr.ids heq ho hledger husers hhouse horders
  refine wp_mono (h₁.credited hr heq ho) (fun _ s hs => ?_) fun _ _ hf => hf
  rw [wp_pure', hs.1]
  exact hs.2

/-- What the open orders earn: the shares of those that are early, and not spent. -/
theorem Db.payout_eq (hr : Refers db downline userId) (hpay : db.Payable) :
    db.payout now userId (db.openOrdersOf downline) =
      totalShare ((db.openOrdersOf downline).filter fun o => db.isEarly o && !db.isSpent userId o) := by
  have hrun : ∀ after, db.orders = db.orders ++ after → Completing db now downline userId db.orders after
      (db.afterCompletions now (db.openOrdersOf downline)) := by
    rw [afterCompletions, openOrdersOf, List.foldl_filter]
    refine @Txn.foldl_through _ _ _
      (fun before d => ∀ after, db.orders = before ++ after → Completing db now downline userId before after d) _ _
      (fun after heq => ?_) fun before o rest d heq hd after hafter => ?_
    · exact ⟨heq, .refl db, hpay, fun _ _ => rfl, (Int.add_zero _).symm⟩
    · have hsplit : db.orders = before ++ o :: after := by rw [hafter, List.append_assoc, List.singleton_append]
      split
      · next ho => exact (hd _ hsplit).complete hr hsplit ho
      · next ho => exact (hd _ hsplit).skip (Bool.eq_false_iff.mpr ho)
  have hearned := (hrun [] (List.append_nil _).symm).earned
  rw [payout, hearned, openOrdersOf]
  exact add_sub_cancel_left _ _

end

namespace Db

variable {db : Db} {downline ids : List Int} {userId : Int}

theorem length_filter_or_le {α : Type} (p q : α → Bool) (l : List α) :
    (l.filter fun x => p x || q x).length ≤ (l.filter p).length + (l.filter q).length := by
  induction l with
  | nil => exact Nat.le_refl 0
  | cons x l ih =>
    simp only [List.filter_cons]
    cases p x <;> cases q x <;> simp <;> omega

/-- An order that has a place is early: no more are completed before it than are completed. -/
theorem isEarly_of_hasSlot (o : Order) (h : db.hasSlot o = true) : db.isEarly o = true := by
  simp only [hasSlot, isEarly, decide_eq_true_eq] at h ⊢
  have hor := length_filter_or_le (fun o' => o'.userId == o.userId && o'.isActive)
    (fun o' => o'.userId == o.userId && o'.isCompleted) (db.orders.takeWhile (·.publicId != o.publicId))
  have hcompleted : ((db.orders.takeWhile (·.publicId != o.publicId)).filter
      fun o' => o'.userId == o.userId && o'.isCompleted).length ≤ db.completedBy o.userId :=
    ((List.takeWhile_sublist _).filter _).length_le
  simp only [← Bool.and_or_distrib_left] at hor
  simp only [placedBefore] at h ⊢
  omega

end Db

/-! ## The preview and the payout -/

/-- Where nobody was referred there are no open orders either, and nothing is pending. -/
theorem wp_referralSnapshot {code : String} {ids : List Int} {userId : Int} {s : Session}
    {Q : ReferralSnapshot → Session → Prop} {E : Err → Session → Prop}
    (hQ : Q ⟨code, (s.db.downline ids userId).length, s.db.referralEarnings userId,
      s.db.pending (s.db.downline ids userId), s.db.converting (s.db.downline ids userId)⟩ s) :
    (referralSnapshot code ids userId).wp Q E s := by
  simp only [referralSnapshot, wp_bind, wp_query]
  split
  · next hnone =>
    have hno : s.db.openOrdersOf [] = [] := List.filter_eq_nil_iff.mpr fun o _ => by simp [Order.isOpenOf]
    have hzero : s.db.pending [] = 0 := by rw [Db.pending, hno]; rfl
    rw [hnone, hzero] at hQ
    rw [hnone]
    exact hQ
  · exact hQ

theorem referralSnapshot_run (code : String) (ids : List Int) (userId : Int) (s : Session) :
    (referralSnapshot code ids userId).run s = (.ok ⟨code, (s.db.downline ids userId).length,
      s.db.referralEarnings userId, s.db.pending (s.db.downline ids userId),
      s.db.converting (s.db.downline ids userId)⟩, s) := by
  have hwp : (referralSnapshot code ids userId).wp (fun shown s' => shown = ⟨code, (s.db.downline ids userId).length,
      s.db.referralEarnings userId, s.db.pending (s.db.downline ids userId),
      s.db.converting (s.db.downline ids userId)⟩ ∧ s' = s) (fun _ _ => False) s := wp_referralSnapshot ⟨rfl, rfl⟩
  cases hrun : (referralSnapshot code ids userId).run s with
  | mk res s' =>
    cases res with
    | ok shown =>
      obtain ⟨rfl, rfl⟩ := wp_ok hwp hrun
      rfl
    | error e => exact (wp_error hwp hrun).elim

theorem CommissionState.refers {cap : Prop} {db : Db} (h : CommissionState cap db) (ids : List Int)
    {userId : Int} (hrow : (db.users userId).isSome = true) : Refers db (db.downline ids userId) userId where
  ids := h.books.ids
  charges := h.books.charges
  referred _ hu := (Db.mem_downline.mp hu).2
  row := hrow

/-- **What is pending is what the open orders earn, exactly when the preview
misses as much as it shows in vain.** It shows in vain the orders with a place
that earn nothing any more, and misses those that are among their buyer's
first orders where the orders completed by now have taken all the places. -/
theorem preview_pays_iff {db₀ db : Db} (h₀ : Opening db₀) (hkeyed : db₀.Keyed)
    (h : CommissionRun (fun _ _ => True) db₀ db) (users : db.UserIds) {userId : Int}
    (hrow : (db.users userId).isSome = true) (code : String) (now : Time) :
    ∃ shown, (referralSnapshot code users.ids userId).run { db := db } = (.ok shown, { db := db }) ∧
      (shown.pendingPaise = db.payout now userId (db.openOrdersOf (db.downline users.ids userId)) ↔
        db.shownInVain (db.downline users.ids userId) userId = db.notShown (db.downline users.ids userId) userId) := by
  have hstate : CommissionState False db := h.state (fun hf => hf.elim) h₀ hkeyed
  have hrefers := hstate.refers users.ids hrow
  refine ⟨_, referralSnapshot_run code users.ids userId _, ?_⟩
  show db.pending _ = _ ↔ _
  rw [Db.pending_eq hrefers.ids, Db.payout_eq hrefers ⟨hstate.keyed, hstate.books.covered⟩]
  exact totalShare_eq_iff Db.isEarly_of_hasSlot _

/-! ## A place taken, and an order that earned -/

theorem afterCalls_sameHouse (db : Db) (calls : List OrderCall) : db.SameHouse (afterCalls db calls) :=
  @Txn.foldl_keeps _ _ _ db.SameHouse (fun _ _ => True) (fun d c hd _ => hd.trans (c.sameHouse _ d)) _ _ (.refl db)
    fun _ _ _ _ => trivial

/-- The calls bring no users. -/
def Db.UserIds.after {db : Db} (users : db.UserIds) (calls : List OrderCall) : (afterCalls db calls).UserIds where
  ids := users.ids
  nodup := users.nodup
  mem_iff u := by
    have hsame := congrArg Option.isSome ((afterCalls_sameHouse db calls).people u)
    simp only [Option.isSome_map] at hsame
    rw [users.mem_iff, hsame]

def shopUsers : referredShop.UserIds where
  ids := [7, 8]
  nodup := by decide
  mem_iff u := by
    simp only [referredShop, shop]
    split <;> simp_all

/-- One order in progress: its share is shown, and paid. -/
theorem preview_pays_of_one :
    let calls := [.place 0 "A" 7 (likesFor "a") (.taken "1")]
    let db := afterCalls referredShop calls
    ∃ shown, (referralSnapshot "EIGHT" (shopUsers.after calls).ids 8).run { db := db } = (.ok shown, { db := db }) ∧
      shown.pendingPaise = db.payout 9 8 (db.openOrdersOf (db.downline (shopUsers.after calls).ids 8)) ∧
      db.payout 9 8 (db.openOrdersOf (db.downline (shopUsers.after calls).ids 8)) = 200 := by
  intro calls db
  have hrow : (db.users 8).isSome = true := by decide +kernel
  obtain ⟨shown, hrun, hiff⟩ := preview_pays_iff referredShop_opening referredShop_keyed
    (CommissionRun.start.after fun _ _ _ => trivial) (shopUsers.after calls) hrow "EIGHT" 9
  exact ⟨shown, hrun, hiff.mpr (by decide +kernel), by decide +kernel⟩

/-- Of four orders the last three are completed: the first has no place in the
preview, and earns when it completes. And an order in refill has a place, but
earned already. -/
theorem preview_misses_and_repeats :
    let late : List OrderCall := [.place 0 "A" 7 (likesFor "a") (.taken "1"),
      .place 1 "B" 7 (likesFor "b") (.taken "2"), .place 2 "C" 7 (likesFor "c") (.taken "3"),
      .place 3 "D" 7 (likesFor "d") (.taken "4"), completes "D", completes "C", completes "B"]
    let again : List OrderCall := [.place 0 "A" 7 (likesFor "a") (.taken "1"), completes "A",
      .refill 6 "A" 7 (.ok "r1")]
    let shown (calls : List OrderCall) : Option Int :=
      ((referralSnapshot "EIGHT" (shopUsers.after calls).ids 8).run
        { db := afterCalls referredShop calls }).1.toOption.map (·.pendingPaise)
    let paid (calls : List OrderCall) : Int := (afterCalls referredShop calls).payout 9 8
      ((afterCalls referredShop calls).openOrdersOf
        ((afterCalls referredShop calls).downline (shopUsers.after calls).ids 8))
    Opening referredShop ∧ referredShop.Keyed ∧
      CommissionRun (fun _ _ => True) referredShop (afterCalls referredShop late) ∧
      shown late = .some 0 ∧ paid late = 200 ∧
      CommissionRun (fun _ _ => True) referredShop (afterCalls referredShop again) ∧
      shown again = .some 200 ∧ paid again = 0 := by
  intro late again shown paid
  exact ⟨referredShop_opening, referredShop_keyed, CommissionRun.start.after fun _ _ _ => trivial, by decide +kernel,
    by decide +kernel, CommissionRun.start.after fun _ _ _ => trivial, by decide +kernel, by decide +kernel⟩

end Falaron
