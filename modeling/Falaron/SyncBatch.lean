/-
The worker's batch: all open orders are followed in one session, and
committed together.

Each order's own failure is caught (`followOne`), so one that raises keeps
none of the others back. A flush the database refuses is different: it takes
the whole session with it. An order whose report has a number outside the
INTEGER columns does that, and then nothing of the batch is committed. The
main theorem says that this is all that can go wrong.
-/
import Falaron.OrderRun
import Falaron.OrderSync
import Falaron.Txn.Check
import Mathlib.Data.List.Sort

namespace Falaron

open Txn.Prog hiding pure

/-! ## The batch -/

/-- What asking a provider about an order comes to: an answer its adapter
accepts or rejects, or an error of the adapter's own. -/
inductive Answer where
  | given (answer : Except ProviderError ProviderStatus)
  | raised (e : Err)

structure Reply where
  now : Time
  answer : Answer

/-- A user to be told of a change. -/
structure Notice where
  userId : Int
  publicId : String
  status : OrderStatus
  deriving DecidableEq, Repr

def notifyStatuses : List OrderStatus := [.completed, .partial_, .canceled, .failed, .refunded]

/-- `list_open_orders`: those not updated for longest come first. -/
def Db.openOrders (db : Db) (limit : Nat) : List Order :=
  ((db.orders.filter fun o => o.status ∈ OrderStatus.active && o.providerOrderId.isSome).insertionSort
    fun a b => a.updatedAt ≤ b.updatedAt).take limit

/-- `sync_order_status`, whatever the adapter does. -/
def followOrder (reply : Reply) (order : Order) : M Order :=
  match reply.answer with
  | .given answer => syncOrder reply.now order answer
  | .raised e => do
    if order.status ∈ OrderStatus.terminal || !order.hasProviderOrder then pure order
    else
      adapterFor order.providerId
      .call (.orderStatus (order.providerOrderId.getD ""))
      raise e

/-- One turn of the loop: the change there was, if any. -/
def followOne (reply : Reply) (order : Order) : M (List Notice) := do
  match ← .attempt (followOrder reply order) with
  | .ok synced =>
    pure (if synced.status ≠ order.status then [⟨order.userId, order.publicId, synced.status⟩] else [])
  | .error _ => pure []

def batchLimit : Nat := 80

/-- `sync_open_orders_once`: how many orders have changed, and who is told after the commit. -/
def syncOpenOrdersOnce (replies : String → Reply) : M (Nat × List Notice) := do
  let orders ← .query (·.openOrders batchLimit)
  let changes ← .collect (fun o => followOne (replies o.publicId) o) orders
  pure (changes.length, changes.filter (·.status ∈ notifyStatuses))

/-! ## The numbers a row can hold -/

/-- A value of a column of type INTEGER. -/
def inInteger (n : Int) : Bool := -2147483648 ≤ n && n ≤ 2147483647

/-- What a row of `orders` keeps in such columns. -/
def Order.integers (o : Order) : List Int :=
  [o.quantity, o.refillCount] ++ o.startCount.toList ++ o.remains.toList

def Db.inRange (db : Db) : Bool := db.orders.all fun o => o.integers.all inInteger

/-- The numbers a reply brings. -/
def Reply.numbers (r : Reply) : List Int :=
  match r.answer with
  | .given (.ok status) => status.startCount.toList ++ status.remains.toList
  | _ => []

def Reply.fits (r : Reply) : Bool := r.numbers.all inInteger

/-! ## The run of the loop -/

/-- The row an order's turn leaves, and what the turn credits. -/
def Db.left (d : Db) (o : Order) (r : Reply) : Order :=
  match r.answer with
  | .given answer => if d.Follows o then d.synced r.now o answer else o
  | .raised _ => o

def Db.credits (d : Db) (o : Order) (r : Reply) : Int :=
  match r.answer with
  | .given answer => if d.Follows o then d.credited (d.answered o answer) else 0
  | .raised _ => 0

/-- In `D` the order is as its turn from `d` leaves it. -/
structure Told (d : Db) (o : Order) (r : Reply) (D : Db) : Prop where
  row : D.findOrder o.publicId = .some (d.left o r)
  refunded : D.refundedSoFar o = d.refundedSoFar o + d.credits o r

section

variable {d d₁ : Db} {o : Order} {s : Session} {r : Reply} {ids : String → Prop} {E : Err → Session → Prop}

theorem Followed.told {answer : Except ProviderError ProviderStatus} (hr : r.answer = .given answer) (hgo : d.Follows o)
    (h : Followed d (d.synced r.now o answer) (d.credited (d.answered o answer)) d₁) :
    d.Within (· = o.publicId) d₁ ∧ Told d o r d₁ := by
  obtain ⟨hid, huser⟩ := d.synced_id r.now o answer
  have hsum (db : Db) : db.refundedSoFar (d.synced r.now o answer) = db.refundedSoFar o := by
    simp only [Db.refundedSoFar, Db.refunds, hid, huser]
  refine ⟨hid ▸ h.within, ?_, ?_⟩
  · simp only [Db.left, hr, if_pos hgo]
    rw [← hid]
    exact h.row
  · simp only [Db.credits, hr, if_pos hgo]
    rw [← hsum, ← hsum]
    exact h.refunded

/-- An order that is not followed, or whose adapter fails, is left as it is. -/
theorem Told.unchanged (ho : d.findOrder o.publicId = .some o)
    (hnot : ¬ d.Follows o ∨ ∃ e, r.answer = .raised e) : Told d o r d := by
  have hleft : d.left o r = o ∧ d.credits o r = 0 := by
    unfold Db.left Db.credits
    cases hr : r.answer with
    | raised e => exact ⟨rfl, rfl⟩
    | given answer =>
      rcases hnot with hgo | ⟨e, he⟩
      · exact ⟨if_neg hgo, if_neg hgo⟩
      · rw [hr] at he
        cases he
  exact ⟨by rw [hleft.1, ho], by rw [hleft.2, Int.add_zero]⟩

/-- Looking the adapter up sends nothing, and the rest comes next. -/
theorem wp_attempt_adapterFor {α : Type} {k : Unit → M α} {Q : Except Err α → Session → Prop} {pid : String}
    {p : Provider} (hp : s.db.findProvider pid = .some p) (h : (attempt (k ())).wp Q E s) :
    (attempt (adapterFor pid >>= k)).wp Q E s := by
  have hrun : (attempt (adapterFor pid >>= k)).run s = (attempt (k ())).run s := by
    simp only [adapterFor, bind_eq, query, Txn.Prog.bind, attempt, Txn.Prog.run, hp]
    rfl
  unfold wp
  rw [hrun]
  exact h

theorem wp_attempt_adapterFor_missing {α : Type} {k : Unit → M α} {Q : Except Err α → Session → Prop} {pid : String}
    (hp : s.db.findProvider pid = .none) (h : Q (.error (.value s!"Unknown provider {pid}")) s) :
    (attempt (adapterFor pid >>= k)).wp Q E s := by
  have hrun : (attempt (adapterFor pid >>= k)).run s = (.ok (.error (.value s!"Unknown provider {pid}")), s) := by
    simp only [adapterFor, bind_eq, query, Txn.Prog.bind, attempt, Txn.Prog.run, hp]
    rfl
  unfold wp
  rw [hrun]
  exact h

/-- Such a turn stages nothing; where it does not raise, nothing has been asked. -/
theorem wp_attempt_unfollowed {Q : Except Err Order → Session → Prop} (hl : Lands d s)
    (hnot : ¬ d.Follows o ∨ ∃ e, r.answer = .raised e) (hQ : ∀ res s', Lands d s' → Q res s') :
    (attempt (followOrder r o)).wp Q E s := by
  have hask {k : Unit → M Order} (hk : (d.findProvider o.providerId).isSome = true → ∀ s', Lands d s' →
      (attempt (k ())).wp Q E s') : (attempt (adapterFor o.providerId >>= k)).wp Q E s := by
    have hsame : s.db.findProvider o.providerId = d.findProvider o.providerId := by
      simp only [Db.findProvider, hl.catalog]
    cases hp : d.findProvider o.providerId with
    | none => exact wp_attempt_adapterFor_missing (hsame.trans hp) (hQ _ s hl)
    | some p => exact wp_attempt_adapterFor (hsame.trans hp) (hk (by rw [hp]; rfl) s hl)
  unfold followOrder
  cases hr : r.answer with
  | raised e =>
    simp only
    split
    · exact hQ _ s hl
    · exact hask fun _ s' hl' => hQ _ _ ⟨hl'.flush, hl'.catalog⟩
  | given answer =>
    simp only [syncOrder]
    split
    · exact hQ _ s hl
    next hopen =>
    simp only [Bool.or_eq_true, decide_eq_true_eq, Bool.not_eq_true', not_or, Bool.not_eq_false] at hopen
    refine hask fun hp => ?_
    rcases hnot with hgo | ⟨e, he⟩
    · exact absurd ⟨hopen.1, hopen.2, hp⟩ hgo
    · rw [hr] at he
      cases he

theorem wp_followOne {Q : List Notice → Session → Prop} (hl : Lands d s) (ho : d.findOrder o.publicId = .some o)
    (hpay : d.Payable)
    (hQ : ∀ d' s' changes, Lands d' s' → d.Within (· = o.publicId) d' → Told d o r d' → Q changes s') :
    (followOne r o).wp Q E s := by
  simp only [followOne, wp_bind]
  by_cases hnot : ¬ d.Follows o ∨ ∃ e, r.answer = .raised e
  · refine wp_attempt_unfollowed hl hnot fun res s' hl' => ?_
    cases res <;> exact hQ d s' _ hl' (.refl d) (.unchanged ho hnot)
  · rw [not_or, not_not] at hnot
    obtain ⟨hgo, hraised⟩ := hnot
    unfold followOrder
    cases hr : r.answer with
    | raised e => exact absurd ⟨e, hr⟩ hraised
    | given answer =>
      refine wp_attempt_ok (wp_syncOrder_lands hl ho hpay hgo fun d' s' hl' h' => ?_)
      obtain ⟨hwithin, htold⟩ := h'.told hr hgo
      exact hQ d' s' _ hl' hwithin htold

/-- A refund goes under a key of its order. -/
theorem Db.answered_key {answer : Except ProviderError ProviderStatus} {pay : Key × Int}
    (h : d.answered o answer = .some pay) : pay.1.orderRef = .some o.publicId := by
  have hpays {key : Key} {amount : Int} (hkey : key.orderRef = .some o.publicId)
      (h : d.pays o key amount = .some pay) : pay.1.orderRef = .some o.publicId := by
    unfold Db.pays at h
    split at h
    · cases h
    · cases h
      exact hkey
  cases answer with
  | error _ => cases h
  | ok status =>
    simp only [Db.answered] at h
    split at h
    case isFalse => cases h
    unfold Db.paysBack at h
    split at h
    · obtain ⟨m, _, hm⟩ := Option.bind_eq_some_iff.mp h
      split at hm
      · cases hm
      · exact hpays rfl hm
    · split at h
      · exact hpays rfl h
      · cases h

/-- What a turn does is not changed by the turns of other orders. -/
theorem Db.Within.same_turn (h : d.Within ids d₁) (ho : ¬ ids o.publicId) :
    d₁.left o r = d.left o r ∧ d₁.credits o r = d.credits o r := by
  have hrec (key : Key) (hkey : key.orderRef = .some o.publicId) := h.records key _ hkey ho
  have howed : d₁.owed o = d.owed o := by simp only [Db.owed, h.refunds o ho]
  have hnone : (d₁.users o.userId).isNone = (d.users o.userId).isNone := by
    rw [← Option.not_isSome, ← Option.not_isSome, h.owners]
  have hback (mapped : OrderStatus) (remains : Option Int) : d₁.paysBack o mapped remains = d.paysBack o mapped remains := by
    simp only [Db.paysBack, Db.pays, howed, hnone, hrec (.partialRefund o.publicId) rfl,
      hrec (.refund o.publicId mapped.text) rfl]
  have hfollows : d₁.Follows o ↔ d.Follows o := by simp only [Db.Follows, Db.findProvider, h.catalog]
  unfold Db.left Db.credits
  cases r.answer with
  | raised e => exact ⟨rfl, rfl⟩
  | given answer =>
    have hanswered : d₁.answered o answer = d.answered o answer := by
      cases answer with
      | error _ => rfl
      | ok status => simp only [Db.answered, hback]
    have hsynced : d₁.synced r.now o answer = d.synced r.now o answer := by
      cases answer with
      | error _ => rfl
      | ok status => simp only [Db.synced, Db.turned, hback]
    have hcredited : d₁.credited (d.answered o answer) = d.credited (d.answered o answer) := by
      cases hpay : d.answered o answer with
      | none => rfl
      | some pay =>
        unfold Db.credited
        simp only
        rw [h.entries pay.1 _ (Db.answered_key hpay) ho]
    by_cases hgo : d.Follows o
    · simp only [if_pos hgo, if_pos (hfollows.mpr hgo), hanswered, hsynced, hcredited, and_self]
    · simp only [if_neg hgo, if_neg (mt hfollows.mp hgo), and_self]

/-- **Every turn of the batch** does what it would do alone, and the session
can be committed. -/
theorem wp_follow {replies : String → Reply} {l : List Order} (hids : (l.map (·.publicId)).Nodup) (hl : Lands d s)
    (hpay : d.Payable) (hrows : ∀ o ∈ l, d.findOrder o.publicId = .some o) :
    (collect (fun o => followOne (replies o.publicId) o) l).wp
      (fun _ s' => ∃ D, Lands D s' ∧ d.Within (· ∈ l.map (·.publicId)) D ∧
        ∀ o ∈ l, Told d o (replies o.publicId) D) (fun _ _ => False) s := by
  induction l generalizing d s with
  | nil => exact ⟨d, hl, .refl d, by simp⟩
  | cons o l ih =>
    simp only [List.map_cons, List.nodup_cons] at hids
    obtain ⟨hnot, hids⟩ := hids
    have hne (q : Order) (hq : q ∈ l) : ¬ q.publicId = o.publicId := fun he => hnot (he ▸ List.mem_map_of_mem hq)
    simp only [collect, wp_bind']
    refine wp_followOne hl (hrows o List.mem_cons_self) hpay fun d₁ s₁ _ hl₁ hw₁ ht₁ => ?_
    have hrows₁ (q : Order) (hq : q ∈ l) : d₁.findOrder q.publicId = .some q := by
      rw [hw₁.orders _ (hne q hq)]
      exact hrows q (List.mem_cons_of_mem _ hq)
    refine wp_mono (ih hids hl₁ (hw₁.payable hpay) hrows₁) (fun _ s₂ h₂ => ?_) fun _ _ h => h
    obtain ⟨D, hlD, hwD, htD⟩ := h₂
    refine ⟨D, hlD, ?_, fun q hq => ?_⟩
    · refine (hw₁.mono fun p hp => ?_).trans (hwD.mono fun p hp => ?_)
      · rw [hp]
        exact List.mem_cons_self
      · exact List.mem_cons_of_mem _ hp
    · rcases List.mem_cons.mp hq with rfl | hq
      · exact ⟨(hwD.orders _ hnot).trans ht₁.row, (hwD.refunds _ hnot).trans ht₁.refunded⟩
      · obtain ⟨hleft, hcredits⟩ := hw₁.same_turn (r := replies q.publicId) (hne q hq)
        have ht := htD q hq
        exact ⟨by rw [ht.row, hleft], by rw [ht.refunded, hcredits, hw₁.refunds q (hne q hq)]⟩

end

/-! ## The batch, committed -/

/-- The tables as the worker finds them: what the database has stored fits
its columns, each order has one row, and the wallets are sound. -/
structure Db.Stored (db : Db) : Prop where
  ids : (db.orders.map (·.publicId)).Nodup
  payable : db.Payable
  range : db.inRange = true

section

variable {db : Db} {replies : String → Reply} {o : Order}

theorem Db.mem_openOrders {limit : Nat} (h : o ∈ db.openOrders limit) :
    o ∈ db.orders ∧ o.status ∈ OrderStatus.active ∧ o.providerOrderId.isSome = true := by
  have hmem := (List.perm_insertionSort _ _).mem_iff.mp (List.mem_of_mem_take h)
  simpa [and_assoc] using hmem

theorem Db.Stored.openOrders_ids (h : db.Stored) (limit : Nat) :
    ((db.openOrders limit).map (·.publicId)).Nodup := by
  have hfilter : ((db.orders.filter fun o => o.status ∈ OrderStatus.active && o.providerOrderId.isSome).map
      (·.publicId)).Nodup := h.ids.sublist (List.filter_sublist.map _)
  have hsort := ((List.perm_insertionSort (fun a b : Order => a.updatedAt ≤ b.updatedAt) _).map
    (·.publicId)).nodup_iff.mpr hfilter
  exact hsort.sublist ((List.take_sublist _ _).map _)

/-- Without the checks the batch is always committed, with every turn's work. -/
theorem batch_commits (h : db.Stored) : ∃ D, (syncOpenOrdersOnce replies).commits db = .some D ∧
    ∀ o ∈ db.openOrders batchLimit, Told db o (replies o.publicId) D := by
  have hrows : ∀ o ∈ db.openOrders batchLimit, db.findOrder o.publicId = .some o := fun o ho =>
    Db.findOrder_of_mem h.ids (Db.mem_openOrders ho).1
  have hrun : (syncOpenOrdersOnce replies).wp (fun _ s' => ∃ D, Lands D s' ∧
      ∀ o ∈ db.openOrders batchLimit, Told db o (replies o.publicId) D) (fun _ _ => False) { db := db } := by
    simp only [syncOpenOrdersOnce, wp_bind, wp_query]
    refine wp_mono (wp_follow (h.openOrders_ids _) (.settled db []) h.payable hrows) (fun _ s' h' => ?_) fun _ _ h => h
    obtain ⟨D, hl, -, ht⟩ := h'
    exact ⟨D, hl, ht⟩
  cases hr : (syncOpenOrdersOnce replies).run { db := db } with
  | mk res s' =>
    cases res with
    | error e => exact (wp_error hrun hr).elim
    | ok a =>
      obtain ⟨D, hl, ht⟩ := wp_ok hrun hr
      exact ⟨D, commits_eq_some.mpr ⟨a, s', hr, hl.flush⟩, ht⟩

/-- An order alone: if its turn is committed, with the turn's work. -/
theorem alone_told {r : Reply} {alone : Db} (h : db.Stored) (ho : o ∈ db.orders)
    (hc : (followOrder r o).commits db = .some alone) : Told db o r alone := by
  have hrow := Db.findOrder_of_mem h.ids ho
  obtain ⟨a, s', hr, hf⟩ := commits_eq_some.mp hc
  by_cases hnot : ¬ db.Follows o ∨ ∃ e, r.answer = .raised e
  · have hrun : (attempt (followOrder r o)).wp (fun _ s' => Lands db s') (fun _ _ => False) { db := db } :=
      wp_attempt_unfollowed (.settled db []) hnot fun _ _ hl => hl
    have hl : Lands db s' := wp_ok hrun (run_attempt_ok hr)
    obtain rfl : db = alone := Option.some.inj (hl.flush.symm.trans hf)
    exact .unchanged hrow hnot
  · rw [not_or, not_not] at hnot
    obtain ⟨hgo, hraised⟩ := hnot
    unfold followOrder at hr
    cases hans : r.answer with
    | raised e => exact absurd ⟨e, hans⟩ hraised
    | given answer =>
      simp only [hans] at hr
      have hrun : (syncOrder r.now o answer).wp (fun _ s' => ∃ D, Lands D s' ∧ Told db o r D) (fun _ _ => False)
          { db := db } :=
        wp_syncOrder_lands (.settled db []) hrow h.payable hgo fun d' s' hl' h' => ⟨d', hl', (h'.told hans hgo).2⟩
      obtain ⟨D, hl, ht⟩ := wp_ok hrun hr
      obtain rfl : D = alone := Option.some.inj (hl.flush.symm.trans hf)
      exact ht

end

/-! ## Numbers that fit -/

/-- Every row fits its columns, and the catalog is the one there was. -/
def Db.Ranged (d₀ db : Db) : Prop := db.inRange = true ∧ db.catalog = d₀.catalog

/-- A change of a row that leaves it with numbers that fit. -/
def KeepsIntegers (g : Order → Order) : Prop :=
  ∀ o, o.integers.all inInteger = true → (g o).integers.all inInteger = true

abbrev KeepsRange (d₀ : Db) (w : Stmt) : Prop := w.Keeps d₀.Ranged

section

variable {d₀ : Db} {o : Order} {now : Time} {status : ProviderStatus}

theorem updateOrder_keepsRange {p : String} {g : Order → Order} (hg : KeepsIntegers g) :
    KeepsRange d₀ (Stmt.updateOrder p g) := by
  refine fun db h => ⟨?_, h.2⟩
  have hall := List.all_eq_true.mp h.1
  simp only [Stmt.updateOrder, Db.updateOrder, Db.inRange, List.all_map, List.all_eq_true, Function.comp_apply]
  intro o ho
  split
  · exact List.all_eq_true.mp (hg o (hall o ho))
  · exact List.all_eq_true.mp (hall o ho)

theorem setOrder_keepsRange {g : Order → Order} (hg : KeepsIntegers g) : (setOrder o g).Writes (KeepsRange d₀) :=
  .bind (.write (updateOrder_keepsRange hg)) fun _ => .pure _

theorem setOrderIf_keepsRange {c : Bool} {g : Order → Order} (hg : c = true → KeepsIntegers g) :
    (setOrderIf c o g).Writes (KeepsRange d₀) := by
  unfold setOrderIf
  split
  · next hc => exact setOrder_keepsRange (hg hc)
  · exact .pure _

theorem recordEvent_keepsRange {toStatus : OrderStatus} {note : String} :
    (recordEvent now o toStatus note).Writes (KeepsRange d₀) :=
  .bind (setOrder_keepsRange fun _ h => h) fun _ => .bind (.write fun _ h => h) fun _ => .bind flush_writes fun _ =>
    .pure _

theorem creditBack_keepsRange {amount : Int} {reason : String} {key : Key} :
    (creditBack o amount reason key).Writes (KeepsRange d₀) :=
  .bind (post_writes (fun _ _ _ h => h) fun _ _ h => h) fun _ => .write fun _ h => h

theorem applyStatus_keepsRange {mapped : OrderStatus} {remains : Option Int} :
    (applyStatus now o mapped remains).Writes (KeepsRange d₀) := by
  have hrest (order : Order) : (refundRest order remains).Writes (KeepsRange d₀) := by
    cases remains with
    | none => exact .pure _
    | some m =>
      refine .ite (.pure _) (.bind (.query _) fun record => ?_)
      split
      · exact .pure _
      refine .bind (.query _) fun _ => .ite (.pure _) (.bind (.query _) fun user => ?_)
      split
      · exact .pure _
      · exact creditBack_keepsRange
  have hrefund (order : Order) : (refundIfNeeded now order mapped).Writes (KeepsRange d₀) := by
    refine .bind (.query _) fun record => ?_
    split
    · exact .pure _
    refine .bind (.query _) fun user => ?_
    split
    · exact .pure _
    exact .ite (.pure _) (.bind (.query _) fun _ => .ite (.pure _) (.bind creditBack_keepsRange fun _ =>
      .ite recordEvent_keepsRange (.pure _)))
  have hcommission (order : Order) : (creditOrderCommission order).Writes (KeepsRange d₀) := by
    refine .ite (.pure _) (.bind (.query _) fun buyer => ?_)
    split
    · exact .pure _
    · exact .bind (.query _) fun _ => .ite (.pure _) (.bind (referrerOf_writes _) fun _ =>
        creditCommission_writes (fun _ => rfl) (fun _ _ _ _ h => h) (fun _ _ _ _ h => h) _ _ _ _)
  exact .bind recordEvent_keepsRange fun order => .ite (.bind (hrest order) fun _ => .pure _) (.ite (hrefund order)
    (.ite (.bind (hcommission order) fun _ => .pure _) (.pure _)))

/-- The numbers of a report that fits go into a row that fits. -/
theorem applyReport_keepsRange
    (hfits : (status.startCount.toList ++ status.remains.toList).all inInteger = true) :
    (applyReport now o status).Writes (KeepsRange d₀) := by
  rw [List.all_append, Bool.and_eq_true] at hfits
  have hstart : KeepsIntegers fun o => { o with startCount := status.startCount } := by
    intro o h
    simp only [Order.integers, List.all_append, Bool.and_eq_true] at h ⊢
    exact ⟨⟨h.1.1, hfits.1⟩, h.2⟩
  have hremains : KeepsIntegers fun o => { o with remains := status.remains } := by
    intro o h
    simp only [Order.integers, List.all_append, Bool.and_eq_true] at h ⊢
    exact ⟨h.1, hfits.2⟩
  rw [applyReport_eq]
  exact .bind (setOrderIf_keepsRange fun _ => hstart) fun _ => .bind (setOrderIf_keepsRange fun _ => hremains) fun _ =>
    .bind (.ite applyStatus_keepsRange (.pure _)) fun _ => .bind (setOrderIf_keepsRange fun _ _ h => h) fun _ =>
    setOrder_keepsRange fun _ h => h

/-- A turn keeps the rows in range, unless it follows an order into a report that does not fit. -/
theorem followOrder_keepsRange {r : Reply} (hfits : d₀.Follows o → r.fits = true) :
    (followOrder r o).WritesOn d₀.Ranged (KeepsRange d₀) := by
  have hask {k : Unit → M Order} (hopen : ¬ (o.status ∈ OrderStatus.terminal || !o.hasProviderOrder) = true)
      (hk : d₀.Follows o → (k ()).Writes (KeepsRange d₀)) :
      (adapterFor o.providerId >>= k).WritesOn d₀.Ranged (KeepsRange d₀) := by
    simp only [Bool.or_eq_true, decide_eq_true_eq, Bool.not_eq_true', not_or, Bool.not_eq_false] at hopen
    refine ⟨fun db hdb => ?_⟩
    have hsame : db.findProvider o.providerId = d₀.findProvider o.providerId := by
      simp only [Db.findProvider, hdb.2]
    dsimp only
    rw [hsame]
    cases hp : d₀.findProvider o.providerId with
    | none => exact trivial
    | some p => exact (hk ⟨hopen.1, hopen.2, by rw [hp]; rfl⟩).on.stmts
  unfold followOrder
  cases hr : r.answer with
  | raised e =>
    simp only
    split
    · exact ⟨trivial⟩
    · next hopen => exact hask hopen fun _ => .bind (.call _) fun _ => .throw _
  | given answer =>
    simp only [syncOrder]
    split
    · exact ⟨trivial⟩
    next hopen =>
    refine hask hopen fun hgo => .bind (.call _) fun _ => ?_
    have hf := hfits hgo
    cases answer with
    | error e => exact setOrder_keepsRange fun _ h => h
    | ok status =>
      simp only [Reply.fits, Reply.numbers, hr] at hf
      exact applyReport_keepsRange hf

end

/-! ## Isolation -/

/-- The tables after a transaction of `p` on a database whose columns have their types. -/
def stored {α : Type} (p : M α) (db : Db) : Option Db := (p.checked Db.inRange).commits db

/-- The tables after the batch, which is rolled back when it is not committed. -/
def afterBatch (replies : String → Reply) (db : Db) : Db := (stored (syncOpenOrdersOnce replies) db).getD db

/-- No order keeps another one back: what an order's turn would store in a
transaction of its own is in the committed batch. -/
def Isolated (replies : String → Reply) (db : Db) : Prop :=
  ∀ o ∈ db.openOrders batchLimit, ∀ alone, stored (followOrder (replies o.publicId) o) db = .some alone →
    (afterBatch replies db).findOrder o.publicId = alone.findOrder o.publicId ∧
      (afterBatch replies db).refundedSoFar o = alone.refundedSoFar o

/-- The order is asked about, and its provider gives an answer. -/
def Db.Answered (db : Db) (r : Reply) (o : Order) : Prop := db.Follows o ∧ ∃ answer, r.answer = .given answer

/-- The worker's clock has moved on since any of its orders was synced. -/
def Db.LaterThan (db : Db) (replies : String → Reply) : Prop :=
  ∀ o ∈ db.openOrders batchLimit, o.lastSyncedAt ≠ .some (replies o.publicId).now

section

variable {db D : Db} {replies : String → Reply} {o : Order} {r : Reply}

theorem Db.Stored.ranged (h : db.Stored) : db.Ranged db := ⟨h.range, rfl⟩

/-- Without the checks, the turn of an answered order commits alone. -/
theorem alone_commits (h : db.Stored) (ho : o ∈ db.orders) (hans : db.Answered r o) :
    ∃ alone, (followOrder r o).commits db = .some alone := by
  obtain ⟨hgo, answer, hr⟩ := hans
  have hrow := Db.findOrder_of_mem h.ids ho
  have hrun : (followOrder r o).wp (fun _ s' => ∃ D, Lands D s') (fun _ _ => False) { db := db } := by
    simp only [followOrder, hr]
    exact wp_syncOrder_lands (.settled db []) hrow h.payable hgo fun d' s' hl' _ => ⟨d', hl'⟩
  cases hres : (followOrder r o).run { db := db } with
  | mk res s' =>
    cases res with
    | error e => exact (wp_error hrun hres).elim
    | ok a =>
      obtain ⟨D, hl⟩ := wp_ok hrun hres
      exact ⟨D, commits_eq_some.mpr ⟨a, s', hres, hl.flush⟩⟩

theorem alone_stored (h : db.Stored) (hfits : db.Follows o → r.fits = true) :
    stored (followOrder r o) db = (followOrder r o).commits db :=
  (followOrder_keepsRange hfits).commits_checked (fun _ hw => hw) (fun _ hdb => hdb.1) h.ranged

theorem batch_stored (h : db.Stored)
    (hfits : ∀ o ∈ db.openOrders batchLimit, db.Follows o → (replies o.publicId).fits = true) :
    stored (syncOpenOrdersOnce replies) db = (syncOpenOrdersOnce replies).commits db := by
  -- the orders are the ones the first query reads
  let rest : M (Nat × List Notice) := do
    let changes ← .collect (fun o => followOne (replies o.publicId) o) (db.openOrders batchLimit)
    pure (changes.length, changes.filter (·.status ∈ notifyStatuses))
  have hrest : rest.WritesOn db.Ranged (KeepsRange db) := by
    refine .bind (.collect fun o ho => ?_) fun _ => ⟨trivial⟩
    refine .bind (.attempt (followOrder_keepsRange (hfits o ho))) fun res => ?_
    cases res <;> exact ⟨trivial⟩
  exact hrest.commits_checked (fun _ hw => hw) (fun _ hdb => hdb.1) h.ranged

/-- A row with a number that does not fit is never stored. -/
theorem Told.fits (ht : Told db o r D) (hans : db.Answered r o) (hD : D.inRange = true) : r.fits = true := by
  obtain ⟨hgo, answer, hr⟩ := hans
  have hmem := (Db.findOrder_mem ht.row).1
  have hrow : (db.left o r).integers.all inInteger = true := List.all_eq_true.mp hD _ hmem
  simp only [Db.left, hr, if_pos hgo] at hrow
  simp only [Reply.fits, Reply.numbers, hr]
  cases answer with
  | error e => rfl
  | ok status =>
    simp only [Db.synced, Order.taking, Order.integers, List.all_append, Bool.and_eq_true] at hrow ⊢
    obtain ⟨⟨-, hstart⟩, hremains⟩ := hrow
    refine ⟨?_, ?_⟩
    · cases hv : status.startCount with
      | none => rfl
      | some n => simpa [hv] using hstart
    · cases hv : status.remains with
      | none => rfl
      | some n => simpa [hv] using hremains

/-- A batch with one is not stored at all. -/
theorem batch_refused (h : db.Stored) (ho : o ∈ db.openOrders batchLimit) (hans : db.Answered (replies o.publicId) o)
    (hfits : (replies o.publicId).fits = false) : stored (syncOpenOrdersOnce replies) db = .none := by
  obtain ⟨D, hbatch, htold⟩ : ∃ D, (syncOpenOrdersOnce replies).commits db = .some D ∧
    ∀ o ∈ db.openOrders batchLimit, Told db o (replies o.publicId) D := batch_commits h
  cases hs : stored (syncOpenOrdersOnce replies) db with
  | none => rfl
  | some D' =>
    obtain ⟨hc, hrange⟩ := commits_checked hs
    obtain rfl : D' = D := Option.some.inj (hc.symm.trans hbatch)
    rw [(htold o ho).fits hans hrange] at hfits
    cases hfits

theorem Told.same {A B : Db} (h : Told db o r A) (h' : Told db o r B) :
    A.findOrder o.publicId = B.findOrder o.publicId ∧ A.refundedSoFar o = B.refundedSoFar o :=
  ⟨h.row.trans h'.row.symm, h.refunded.trans h'.refunded.symm⟩

/-- An answered order has been synced just now. -/
theorem Db.Answered.synced (hans : db.Answered r o) : (db.left o r).lastSyncedAt = .some r.now := by
  obtain ⟨hgo, answer, hr⟩ := hans
  simp only [Db.left, hr, if_pos hgo]
  cases answer <;> rfl

theorem Db.Answered.not_iff : ¬ db.Answered r o ↔ ¬ db.Follows o ∨ ∃ e, r.answer = .raised e := by
  unfold Db.Answered
  rw [not_and_or]
  refine or_congr_right ?_
  cases r.answer <;> simp

theorem Reply.fits_of_answered (h : db.Answered r o → r.fits = true) (hgo : db.Follows o) : r.fits = true := by
  by_cases hans : db.Answered r o
  · exact h hans
  · rcases Db.Answered.not_iff.mp hans with hnot | ⟨e, he⟩
    · exact absurd hgo hnot
    · simp [Reply.fits, Reply.numbers, he]

/-- **The batch isolates its orders** exactly where all the numbers its
providers give fit the columns, or none of the answers does. -/
theorem batch_isolated_iff (h : db.Stored) (hclock : db.LaterThan replies) : Isolated replies db ↔
    (∀ o ∈ db.openOrders batchLimit, db.Answered (replies o.publicId) o → (replies o.publicId).fits = true) ∨
      ∀ o ∈ db.openOrders batchLimit, db.Answered (replies o.publicId) o → (replies o.publicId).fits = false := by
  obtain ⟨D, hbatch, htold⟩ : ∃ D, (syncOpenOrdersOnce replies).commits db = .some D ∧
    ∀ o ∈ db.openOrders batchLimit, Told db o (replies o.publicId) D := batch_commits h
  have hrow {o} (ho : o ∈ db.openOrders batchLimit) : db.findOrder o.publicId = .some o :=
    Db.findOrder_of_mem h.ids (Db.mem_openOrders ho).1
  -- what the batch stores, if anything, is what it commits without the checks
  have hstored : ∀ D', stored (syncOpenOrdersOnce replies) db = .some D' → D' = D ∧ D.inRange = true := by
    intro D' hD'
    obtain ⟨hc, hrange⟩ := commits_checked hD'
    obtain rfl : D' = D := Option.some.inj (hc.symm.trans hbatch)
    exact ⟨rfl, hrange⟩
  have halone {o alone} (ho : o ∈ db.openOrders batchLimit)
      (hs : stored (followOrder (replies o.publicId) o) db = .some alone) :
      Told db o (replies o.publicId) alone ∧ alone.inRange = true := by
    obtain ⟨hc, hrange⟩ := commits_checked hs
    exact ⟨alone_told h (Db.mem_openOrders ho).1 hc, hrange⟩
  constructor
  · intro hiso
    by_contra hboth
    simp only [not_or, not_forall, Bool.not_eq_true, Bool.not_eq_false] at hboth
    obtain ⟨⟨a, ha, hansa, hafits⟩, b, hb, hansb, hbfits⟩ := hboth
    have hnone : stored (syncOpenOrdersOnce replies) db = .none := batch_refused h ha hansa hafits
    -- the answer of `b` fits, and is stored when it comes alone
    obtain ⟨alone, hc⟩ := alone_commits h (Db.mem_openOrders hb).1 hansb
    have hs := (alone_stored h fun _ => hbfits).trans hc
    have hsame := (hiso b hb alone hs).1
    rw [afterBatch, hnone, Option.getD_none, hrow hb, (halone hb hs).1.row] at hsame
    have hsynced := hansb.synced
    rw [← Option.some.inj hsame] at hsynced
    exact hclock b hb hsynced
  · rintro (hall | hnone) o ho alone hs
    · have hsome := (batch_stored h fun o ho => Reply.fits_of_answered (hall o ho)).trans hbatch
      rw [afterBatch, hsome, Option.getD_some]
      exact (htold o ho).same (halone ho hs).1
    · have hnot : ¬ db.Answered (replies o.publicId) o := by
        intro hans
        have hfits := (halone ho hs).1.fits hans (halone ho hs).2
        rw [hnone o ho hans] at hfits
        cases hfits
      unfold afterBatch
      cases hb : stored (syncOpenOrdersOnce replies) db with
      | none => exact (Told.unchanged (hrow ho) (Db.Answered.not_iff.mp hnot)).same (halone ho hs).1
      | some D' =>
        obtain rfl := (hstored D' hb).1
        exact (htold o ho).same (halone ho hs).1

end

/-! ## Two orders in a batch -/

/-- The shop with two orders of customer 7, taken on by the provider. -/
def twoOrders : Db := afterCalls shop [.place 0 "A" 7 (likesFor "a") (.taken "1"),
  .place 1 "B" 7 (likesFor "b") (.taken "2")]

theorem twoOrders_stored : twoOrders.Stored := by
  have hrun : OrderRun (fun _ _ => True) shop twoOrders := .calls .start fun _ _ _ => trivial
  have hbooks : OrderBooks False .none twoOrders := (OrderRun.sound shop_opening (fun hf => hf.elim) hrun).1
  have hkeyed : shop.Keyed := by
    intro u row hu
    simp only [shop] at hu
    split at hu <;> cases hu
    rfl
  have hhouse : shop.SameHouse twoOrders := (OrderCall.sameHouse _ _ shop).trans (OrderCall.sameHouse _ _ _)
  exact ⟨hbooks.ids, ⟨hkeyed.sameHouse hhouse, hbooks.covered⟩, by decide +kernel⟩

/-- The provider is done with both orders. -/
def bothDone : String → Reply := fun _ =>
  ⟨5, .given (.ok ⟨.completed, .some 120, .some 0, OrderStatus.completed_reported⟩)⟩

theorem batch_isolated_of_both_done : twoOrders.Stored ∧ twoOrders.LaterThan bothDone ∧ Isolated bothDone twoOrders := by
  have hclock : twoOrders.LaterThan bothDone := by
    unfold Db.LaterThan
    decide +kernel
  exact ⟨twoOrders_stored, hclock,
    (batch_isolated_iff twoOrders_stored hclock).mpr (.inl fun _ _ _ => rfl)⟩

/-- Order A starts at three billion, and order B has been canceled. -/
def largeStart : String → Reply
  | "A" => ⟨5, .given (.ok ⟨.inProgress, .some 3000000000, .none, OrderStatus.inProgress_reported⟩)⟩
  | _ => ⟨5, .given (.ok ⟨.canceled, .none, .some 1000, OrderStatus.canceled_reported⟩)⟩

/-- The large number of one order takes the refund of the other with it. -/
theorem large_start_loses_refund : ¬ Isolated largeStart twoOrders := by
  intro h
  have hb : (twoOrders.findOrder "B").map (fun o => (decide (o ∈ twoOrders.openOrders batchLimit), o.publicId,
      (stored (followOrder (largeStart "B") o) twoOrders).map fun d => (d.findOrder "B").map (·.status),
      ((afterBatch largeStart twoOrders).findOrder "B").map (·.status))) =
      .some (true, "B", .some (.some .refunded), .some .processing) := by decide +kernel
  obtain ⟨o, -, heq⟩ := Option.map_eq_some_iff.mp hb
  simp only [Prod.mk.injEq, decide_eq_true_eq] at heq
  obtain ⟨ho, hid, hs, hbatch⟩ := heq
  obtain ⟨alone, halone, hrow⟩ := Option.map_eq_some_iff.mp hs
  have hsame := (h o ho alone (by rw [hid]; exact halone)).1
  rw [hid] at hsame
  rw [hsame, hrow] at hbatch
  cases hbatch

end Falaron
