/-
What following a report makes of an order, and of nothing else.

`synced` is the row a report leaves and `Db.paysBack` what it credits. Both
are read off the order's own row, records and entries (`Db.Agree`), so it
does not matter what else the session has done before. `wp_syncOrder_lands`
is the specification: wherever the wallets are sound, following a known
provider's report succeeds, and what it has staged can be written.
-/
import Falaron.OrderWrites

namespace Falaron

open Txn.Prog hiding pure
open Py (nearest roundHalfEven)

/-! ## What a report pays back -/

/-- Pays under `key`, unless that is on record or nobody is there to be paid. -/
def Db.pays (d : Db) (o : Order) (key : Key) (amount : Int) : Option (Key × Int) :=
  if (d.records key).isSome || (d.users o.userId).isNone || amount ≤ 0 then .none else .some (key, amount)

def Db.owed (d : Db) (o : Order) : Int := max 0 (o.chargePaise - d.refundedSoFar o)

/-- The share of the charge for what was not delivered, in doubles. -/
def Order.undelivered (o : Order) (remains : Int) : Int :=
  roundHalfEven (nearest (nearest o.chargePaise * min 1 (max 0 (nearest (nearest remains / nearest o.quantity)))))

/-- What the turn to `mapped` pays back, and under which key. -/
def Db.paysBack (d : Db) (o : Order) (mapped : OrderStatus) (remains : Option Int) : Option (Key × Int) :=
  if mapped = .partial_ then
    remains.bind fun n =>
      if n ≤ 0 || o.quantity ≤ 0 then .none
      else d.pays o (.partialRefund o.publicId) (min (o.undelivered n) (d.owed o))
  else if mapped ∈ [.canceled, .failed] && 0 < o.chargePaise then
    d.pays o (.refund o.publicId mapped.text) (d.owed o)
  else .none

/-- What of it is new to the ledger. -/
def Db.credited (d : Db) : Option (Key × Int) → Int
  | .some (key, amount) => if (d.findEntry key).isNone then amount else 0
  | .none => 0

/-! ## The row a report leaves -/

/-- The status a report gives. -/
def ProviderStatus.mapped (status : ProviderStatus) : OrderStatus :=
  if status.status = .cancelled then .canceled else status.status

/-- The numbers of a report, where it has any. -/
def Order.taking (o : Order) (status : ProviderStatus) : Order :=
  { o with startCount := status.startCount.or o.startCount, remains := status.remains.or o.remains }

/-- Does the report change anything? -/
def Order.changedBy (o : Order) (status : ProviderStatus) : Bool :=
  (status.startCount.isSome && o.startCount ≠ status.startCount) ||
    (status.remains.isSome && o.remains ≠ status.remains) || status.mapped ≠ o.status

/-- The status a turn to `mapped` ends in. -/
def Db.turned (d : Db) (o : Order) (mapped : OrderStatus) (remains : Option Int) : OrderStatus :=
  if (d.paysBack o mapped remains).isSome && mapped ≠ .partial_ then .refunded else mapped

/-- The order is one that is followed: it is open, and its provider known. -/
def Db.Follows (d : Db) (o : Order) : Prop :=
  o.status ∉ OrderStatus.terminal ∧ o.hasProviderOrder = true ∧ (d.findProvider o.providerId).isSome = true

instance (d : Db) (o : Order) : Decidable (d.Follows o) := inferInstanceAs (Decidable (_ ∧ _ ∧ _))

/-- What a followed order's answer pays back. -/
def Db.answered (d : Db) (o : Order) : Except ProviderError ProviderStatus → Option (Key × Int)
  | .error _ => .none
  | .ok status => if status.mapped ≠ o.status then d.paysBack o status.mapped status.remains else .none

/-- The row a followed order's answer leaves. -/
def Db.synced (d : Db) (now : Time) (o : Order) (answer : Except ProviderError ProviderStatus) : Order :=
  match answer with
  | .error _ => { o with lastSyncedAt := .some now }
  | .ok status =>
    { o.taking status with
      status := if status.mapped ≠ o.status then d.turned o status.mapped status.remains else o.status
      updatedAt := if o.changedBy status then now else o.updatedAt
      lastSyncedAt := .some now }

theorem Db.synced_id (d : Db) (now : Time) (o : Order) (answer : Except ProviderError ProviderStatus) :
    (d.synced now o answer).publicId = o.publicId ∧ (d.synced now o answer).userId = o.userId := by
  cases answer <;> exact ⟨rfl, rfl⟩

/-! ## Sound wallets -/

/-- Every user is found under his id, and nobody's wallet is overdrawn. -/
structure Db.Payable (d : Db) : Prop where
  keyed : d.Keyed
  covered : ∀ u user, d.users u = .some user →
    0 ≤ user.cachedReservedPaise ∧ user.cachedReservedPaise ≤ user.cachedBalancePaise

/-- From `a` to `b` at most the orders of `ids` have been worked on. -/
structure Db.Within (ids : String → Prop) (a b : Db) : Prop where
  catalog : b.catalog = a.catalog
  owners : ∀ u, (b.users u).isSome = (a.users u).isSome
  payable : a.Payable → b.Payable
  orders : ∀ p, ¬ ids p → b.findOrder p = a.findOrder p
  refunds : ∀ o : Order, ¬ ids o.publicId → b.refundedSoFar o = a.refundedSoFar o
  records : ∀ (k : Key) p, k.orderRef = .some p → ¬ ids p → b.records k = a.records k
  entries : ∀ (k : Key) p, k.orderRef = .some p → ¬ ids p → b.findEntry k = a.findEntry k

namespace Db.Within

variable {ids ids' : String → Prop} {a b c : Db}

theorem refl (a : Db) : Within ids a a :=
  ⟨rfl, fun _ => rfl, id, fun _ _ => rfl, fun _ _ => rfl, fun _ _ _ _ => rfl, fun _ _ _ _ => rfl⟩

theorem trans (h : Within ids a b) (h' : Within ids b c) : Within ids a c where
  catalog := h'.catalog.trans h.catalog
  owners u := (h'.owners u).trans (h.owners u)
  payable hp := h'.payable (h.payable hp)
  orders p hp := (h'.orders p hp).trans (h.orders p hp)
  refunds o ho := (h'.refunds o ho).trans (h.refunds o ho)
  records k p hk hp := (h'.records k p hk hp).trans (h.records k p hk hp)
  entries k p hk hp := (h'.entries k p hk hp).trans (h.entries k p hk hp)

theorem mono (h : Within ids a b) (hi : ∀ p, ids p → ids' p) : Within ids' a b where
  catalog := h.catalog
  owners := h.owners
  payable := h.payable
  orders p hp := h.orders p (mt (hi p) hp)
  refunds o ho := h.refunds o (mt (hi _) ho)
  records k p hk hp := h.records k p hk (mt (hi p) hp)
  entries k p hk hp := h.entries k p hk (mt (hi p) hp)

end Db.Within

/-! ## One write at a time -/

namespace Db

variable {d : Db} {o : Order} {p : String} {ids : String → Prop}

theorem findOrder_updateOrder {g : Order → Order} (hg : ∀ o, (g o).publicId = o.publicId) (q : String) :
    (d.updateOrder p g).findOrder q = if q = p then (d.findOrder q).map g else d.findOrder q := by
  have hname (o : Order) : ((if o.publicId = p then g o else o).publicId == q) = (o.publicId == q) := by
    split
    · rw [hg]
    · rfl
  simp only [findOrder, updateOrder, List.find?_map, Function.comp_def, hname]
  cases hf : d.orders.find? (·.publicId == q) with
  | none => split <;> rfl
  | some o =>
    have hq : o.publicId = q := by simpa using List.find?_some hf
    simp only [Option.map_some, hq]
    split <;> rfl

theorem Within.updateOrder {g : Order → Order} (hg : ∀ o, (g o).publicId = o.publicId) (hp : ids p) :
    d.Within ids (d.updateOrder p g) where
  catalog := rfl
  owners _ := rfl
  payable h := ⟨h.keyed, h.covered⟩
  orders q hq := by
    rw [findOrder_updateOrder hg, if_neg]
    rintro rfl
    exact hq hp
  refunds _ _ := rfl
  records _ _ _ _ := rfl
  entries _ _ _ _ := rfl

theorem Within.record {key : Key} (hkey : key.orderRef = .some p) (hp : ids p) (r : Response) :
    d.Within ids ((Stmt.insertRecord key r).apply d) where
  catalog := rfl
  owners _ := rfl
  payable h := ⟨h.keyed, h.covered⟩
  orders _ _ := rfl
  refunds _ _ := rfl
  records k q hk hq := by
    refine if_neg ?_
    rintro rfl
    rw [hkey] at hk
    cases hk
    exact hq hp
  entries _ _ _ _ := rfl

/-- A sound wallet stays sound when it is credited. -/
theorem Payable.posted (h : d.Payable) {q : Posting} {t : EntryType} {key : Key} {draft : User → Except Err Draft}
    {e : LedgerEntry} (he : Posts d q t key draft e) : (d.posted e).Payable where
  keyed := h.keyed.sameHouse (.posted (.refl d) e)
  covered u user hu := by
    rw [posted_users] at hu
    split at hu
    · obtain ⟨_, _, _, dr, _, _, rfl, hr, hb⟩ := he
      obtain ⟨user', _, rfl⟩ := Option.map_eq_some_iff.mp hu
      exact ⟨hr, hb⟩
    · exact h.covered u user hu

theorem refundedSoFar_posted (e : LedgerEntry) : (d.posted e).refundedSoFar o = d.refundedSoFar o +
    if e.referenceType = .some "order" ∧ e.referenceId = .some o.publicId ∧ e.entryType = .credit ∧ e.userId = o.userId
    then e.amountPaise else 0 := by
  simp only [refundedSoFar, refunds, posted_ledger, List.filter_append, List.map_append, List.sum_append,
    List.filter_cons, List.filter_nil, Bool.and_eq_true, beq_iff_eq, and_assoc]
  split <;> simp

/-- A credit under a key of the order, or one that refers to no order. -/
theorem Within.posted {q : Posting} {t : EntryType} {key : Key} {draft : User → Except Err Draft} {e : LedgerEntry}
    (he : Posts d q t key draft e) (hkey : ∀ p', key.orderRef = .some p' → ids p')
    (href : e.referenceType = .some "order" → ∃ p', e.referenceId = .some p' ∧ ids p') :
    d.Within ids (d.posted e) where
  catalog := rfl
  owners u := posted_isSome u
  payable h := h.posted he
  orders _ _ := rfl
  refunds o ho := by
    rw [refundedSoFar_posted, if_neg, Int.add_zero]
    rintro ⟨ht, hid, -, -⟩
    obtain ⟨p', hp', hids⟩ := href ht
    rw [hid] at hp'
    cases hp'
    exact ho hids
  records _ _ _ _ := rfl
  entries k p' hk hp' := by
    rw [findEntry_posted, if_neg, Option.or_none]
    rw [he.entry_eq.2]
    rintro rfl
    exact hp' (hkey p' hk)

end Db

/-! ## Sessions that will land -/

/-- The session will be at `d` once it has flushed. -/
structure Lands (d : Db) (s : Session) : Prop where
  flush : Txn.flushAll s.staged s.db = .some d
  catalog : s.db.catalog = d.catalog

section

variable {d : Db} {s : Session} {o : Order} {sent : List Ext} {E : Err → Session → Prop}

theorem Lands.settled (d : Db) (sent : List Ext) : Lands d { db := d, sent := sent } := ⟨rfl, rfl⟩

theorem Lands.stage (h : Lands d s) {w : Stmt} (hw : w.admits d = true) (hc : (w.apply d).catalog = d.catalog) :
    Lands (w.apply d) { s with staged := s.staged ++ [w] } := by
  refine ⟨?_, h.catalog.trans hc.symm⟩
  simp only [Txn.flushAll_append, h.flush]
  exact if_pos hw

theorem wp_flush_lands {Q : Unit → Session → Prop} (h : Lands d s) (hQ : Q () { db := d, sent := s.sent }) :
    flush.wp Q E s := wp_flush h.flush hQ

theorem wp_setOrder_lands {g : Order → Order} {Q : Order → Session → Prop} (h : Lands d s)
    (hQ : ∀ s', Lands (d.updateOrder o.publicId g) s' → Q (g o) s') : (setOrder o g).wp Q E s := by
  simp only [setOrder, wp_bind, wp_write]
  exact hQ _ (h.stage (w := Stmt.updateOrder o.publicId g) rfl rfl)

/-- A credit to a sound wallet is not refused. -/
theorem Db.Payable.not_refused {p : Posting} {refusal : String} {key : Key} {err : Err} (hpay : d.Payable)
    (hpos : 0 < p.amountPaise) (hu : (d.users p.userId).isSome = true) :
    ¬ Refused d p refusal key (creditDraft p.amountPaise) err := by
  intro hr
  cases hr with
  | amount hn => exact hn hpos
  | missing hn =>
    rw [hn] at hu
    cases hu
  | draft _ _ hd => cases hd
  | @negative user _ hrow _ hd hn =>
    cases hd
    have := hpay.covered _ user hrow
    exact absurd ⟨by show 0 ≤ user.cachedBalancePaise + p.amountPaise; omega, this.1⟩ hn
  | @exceeds user _ hrow _ hd hn =>
    cases hd
    have := hpay.covered _ user hrow
    change user.cachedBalancePaise + p.amountPaise < user.cachedReservedPaise at hn
    omega

/-- It is made, or had been made before. -/
theorem wp_credit_lands {p : Posting} {key : Key} {Q : LedgerEntry → Session → Prop} (hpay : d.Payable)
    (hpos : 0 < p.amountPaise) (hu : (d.users p.userId).isSome = true) (hkey : ∀ k, Key.orElse (.some key) k = key)
    (hreplay : ∀ e, d.findEntry key = .some e → Q e { db := d, sent := sent })
    (hposts : ∀ e, Posts d p .credit key (creditDraft p.amountPaise) e → Q e { db := d.posted e, sent := sent }) :
    (credit p (.some key)).wp Q E { db := d, sent := sent } := by
  rw [credit, hkey]
  exact wp_post rfl (absurd hpos) (fun err hr => (hpay.not_refused hpos hu hr).elim) (fun e _ => hreplay e) hposts

/-! ## Following a report -/

/-- From `d₀` to `d` only the order has been worked on: its row is the copy
`o`, and `n` has been credited back. -/
structure Followed (d₀ : Db) (o : Order) (n : Int) (d : Db) : Prop where
  within : d₀.Within (· = o.publicId) d
  row : d.findOrder o.publicId = .some o
  refunded : d.refundedSoFar o = d₀.refundedSoFar o + n

variable {d₀ : Db} {n : Int}

theorem Followed.start (ho : d.findOrder o.publicId = .some o) : Followed d o 0 d :=
  ⟨.refl d, ho, (Int.add_zero _).symm⟩

theorem Followed.update (h : Followed d₀ o n d) {g : Order → Order}
    (hg : ∀ o, (g o).publicId = o.publicId ∧ (g o).userId = o.userId) :
    Followed d₀ (g o) n (d.updateOrder o.publicId g) := by
  have hid : ∀ o, (g o).publicId = o.publicId := fun o => (hg o).1
  have hsum (db : Db) : db.refundedSoFar (g o) = db.refundedSoFar o := by
    simp only [Db.refundedSoFar, Db.refunds, hg o]
  refine ⟨?_, ?_, ?_⟩
  · rw [hid]
    exact h.within.trans (.updateOrder hid rfl)
  · rw [hid, Db.findOrder_updateOrder hid, if_pos rfl, h.row]
    rfl
  · rw [hsum, hsum]
    exact h.refunded

theorem wp_setOrder_followed {g : Order → Order} {Q : Order → Session → Prop} (hl : Lands d s) (h : Followed d₀ o n d)
    (hg : ∀ o, (g o).publicId = o.publicId ∧ (g o).userId = o.userId)
    (hQ : ∀ d' s', Lands d' s' → Followed d₀ (g o) n d' → Q (g o) s') : (setOrder o g).wp Q E s :=
  wp_setOrder_lands hl fun s' hl' => hQ _ s' hl' (h.update hg)

theorem Followed.event (h : Followed d₀ o n d) (e : OrderEvent) :
    Followed d₀ o n ((Stmt.insertOrderEvent e).apply d) where
  within := h.within.trans ⟨rfl, fun _ => rfl, fun hp => ⟨hp.keyed, hp.covered⟩, fun _ _ => rfl, fun _ _ => rfl,
    fun _ _ _ _ => rfl, fun _ _ _ _ => rfl⟩
  row := h.row
  refunded := h.refunded

/-- The money of `b` is that of `a`, and so is what is on record of it. -/
structure Db.SamePurse (a b : Db) : Prop where
  ledger : b.ledger = a.ledger
  users : b.users = a.users
  records : b.records = a.records

/-- A change of status writes all that is pending. -/
theorem wp_recordEvent_followed {now : Time} {toStatus : OrderStatus} {note : String} {Q : Order → Session → Prop}
    (hl : Lands d s) (h : Followed d₀ o n d)
    (hQ : ∀ d', d.SamePurse d' → Followed d₀ { o with status := toStatus, updatedAt := now } n d' →
      Q { o with status := toStatus, updatedAt := now } { db := d', sent := s.sent }) :
    (recordEvent now o toStatus note).wp Q E s := by
  simp only [recordEvent, setOrder, wp_bind, wp_write, wp_pure']
  have hset := hl.stage (w := Stmt.updateOrder o.publicId fun o => { o with status := toStatus, updatedAt := now })
    rfl rfl
  refine wp_flush_lands (hset.stage (w := Stmt.insertOrderEvent ⟨o.publicId, o.status, toStatus, note, now⟩)
    rfl rfl) ?_
  have hset' := h.update (g := fun o => { o with status := toStatus, updatedAt := now }) fun _ => ⟨rfl, rfl⟩
  exact hQ _ ⟨rfl, rfl, rfl⟩ (hset'.event _)

theorem wp_creditBack_lands {amount : Int} {reason : String} {key : Key} {Q : Unit → Session → Prop}
    (h : Followed d₀ o n d) (hpay : d.Payable) (hpos : 0 < amount) (hu : (d.users o.userId).isSome = true)
    (hkey : key.orderRef = .some o.publicId) (hrec : d.records key = .none)
    (hQ : ∀ d' s', Lands d' s' → Followed d₀ o (n + d.credited (.some (key, amount))) d' → Q () s') :
    (creditBack o amount reason key).wp Q E { db := d, sent := sent } := by
  simp only [creditBack, wp_bind, wp_write]
  have hsome : ∀ p', key.orderRef = .some p' → p' = o.publicId := by
    intro p' hp'
    rw [hkey] at hp'
    exact (Option.some.inj hp').symm
  have hrecord (d' : Db) : d'.Within (· = o.publicId) ((Stmt.insertRecord key (.refund amount)).apply d') :=
    @Db.Within.record d' o.publicId (· = o.publicId) key hkey rfl _
  have hland (d' : Db) (hrec' : d'.records key = .none) : Lands ((Stmt.insertRecord key (.refund amount)).apply d')
      { db := d', staged := [Stmt.insertRecord key (.refund amount)], sent := sent } :=
    (Lands.settled d' sent).stage (Option.isNone_iff_eq_none.mpr hrec') rfl
  refine wp_credit_lands hpay hpos hu (fun _ => Key.orElse_of_orderRef hkey) (fun e he => ?_) fun e he => ?_
  · refine hQ _ _ (hland d hrec) ⟨h.within.trans (hrecord d), h.row, ?_⟩
    simp only [Db.credited, he, Option.isNone_some, Bool.false_eq_true, if_false, Int.add_zero]
    exact h.refunded
  · refine hQ _ _ (hland (d.posted e) hrec)
      ⟨(h.within.trans (.posted he hsome fun _ => ?_)).trans (hrecord _), h.row, ?_⟩
    · obtain ⟨_, _, _, _, _, _, rfl, _⟩ := he
      exact ⟨o.publicId, rfl, rfl⟩
    · have hfresh := he.fresh
      obtain ⟨_, _, _, dr, _, hdr, rfl, _⟩ := he
      cases hdr
      show (d.posted _).refundedSoFar o = _
      rw [Db.refundedSoFar_posted, if_pos ⟨rfl, rfl, rfl, rfl⟩, h.refunded]
      simp only [Db.credited, hfresh, Option.isNone_none, if_true, Posting.entry, orderPosting]
      omega

/-- A refund that is due is paid, one that is not is left. -/
theorem wp_pays {amount : Int} {reason : String} {key : Key} {Q : Unit → Session → Prop}
    (h : Followed d₀ o n d) (hpay : d.Payable) (hkey : key.orderRef = .some o.publicId)
    (hdue : d.pays o key amount = .some (key, amount))
    (hQ : ∀ d' s', Lands d' s' → Followed d₀ o (n + d.credited (d.pays o key amount)) d' → Q () s') :
    (creditBack o amount reason key).wp Q E { db := d, sent := sent } := by
  rw [hdue] at hQ
  unfold Db.pays at hdue
  split at hdue
  · cases hdue
  next hnot =>
  simp only [Bool.or_eq_true, decide_eq_true_eq, not_or, Int.not_le] at hnot
  obtain ⟨⟨hrec, hu⟩, hpos⟩ := hnot
  exact wp_creditBack_lands h hpay hpos (by simpa [Option.isSome_iff_ne_none] using hu) hkey (by simpa using hrec) hQ

theorem wp_refundRest_lands {remains : Option Int} {Q : Unit → Session → Prop} (h : Followed d₀ o n d)
    (hpay : d.Payable) (hQ : ∀ d' s', Lands d' s' →
      Followed d₀ o (n + d.credited (d.paysBack o .partial_ remains)) d' → Q () s') :
    (refundRest o remains).wp Q E { db := d, sent := sent } := by
  have hskip (hnone : d.paysBack o .partial_ remains = .none) : Q () { db := d, sent := sent } := by
    rw [hnone] at hQ
    exact hQ d _ (.settled d sent) (by simpa only [Db.credited, Int.add_zero] using h)
  cases remains with
  | none => exact hskip rfl
  | some m =>
    simp only [refundRest, maybePartialRefund]
    split
    · next hc => exact hskip (if_pos hc)
    next hc =>
    have hback : d.paysBack o .partial_ (.some m) =
        d.pays o (.partialRefund o.publicId) (min (o.undelivered m) (d.owed o)) := if_neg hc
    rw [hback] at hQ hskip
    simp only [wp_bind, wp_query]
    split
    · next r hr => exact hskip (by simp [Db.pays, hr])
    next hr =>
    simp only [wp_bind, refundedSoFar, wp_query]
    split
    · next hle => exact hskip (if_pos (by simp [Order.undelivered, Db.owed, hle]))
    next hle =>
    simp only [wp_bind, wp_query]
    split
    · next hu => exact hskip (by simp [Db.pays, hu])
    · next user hu =>
      refine wp_pays h hpay rfl ?_ hQ
      refine if_neg ?_
      simpa [hr, hu, Order.undelivered, Db.owed] using hle

theorem wp_refundIfNeeded_lands (remains : Option Int) {now : Time} {mapped : OrderStatus}
    {Q : Order → Session → Prop} (hm : mapped ∈ [OrderStatus.canceled, .failed]) (h : Followed d₀ o n d)
    (hpay : d.Payable) (hQ : ∀ d' s' o',
      o' = (if (d.paysBack o mapped remains).isSome then { o with status := .refunded, updatedAt := now } else o) →
      Lands d' s' → Followed d₀ o' (n + d.credited (d.paysBack o mapped remains)) d' → Q o' s') :
    (refundIfNeeded now o mapped).wp Q E { db := d, sent := sent } := by
  have hpart : mapped ≠ .partial_ := by
    rintro rfl
    exact absurd hm (by decide)
  have hrefunded : mapped ≠ .refunded := by
    rintro rfl
    exact absurd hm (by decide)
  have hskip (hnone : d.paysBack o mapped remains = .none) : Q o { db := d, sent := sent } := by
    rw [hnone] at hQ
    exact hQ d _ o rfl (.settled d sent) (by simpa only [Db.credited, Int.add_zero] using h)
  simp only [refundIfNeeded, wp_bind, wp_query]
  split
  · next r hr => exact hskip (by simp [Db.paysBack, Db.pays, hpart, hr])
  next hr =>
  simp only [wp_bind, wp_query]
  split
  · next hu => exact hskip (by simp [Db.paysBack, Db.pays, hpart, hu])
  next user hu =>
  split
  · next hc => exact hskip (by simp [Db.paysBack, hpart, Int.not_lt.mpr hc])
  next hc =>
  have hback : d.paysBack o mapped remains = d.pays o (.refund o.publicId mapped.text) (d.owed o) := by
    unfold Db.paysBack
    rw [if_neg hpart, if_pos (by simpa using ⟨by simpa using hm, by omega⟩)]
  rw [hback] at hQ hskip
  simp only [wp_bind, refundedSoFar, wp_query]
  split
  · next hle => exact hskip (if_pos (by simp [Db.owed, hle]))
  next hle =>
  have hdue : d.pays o (.refund o.publicId mapped.text) (d.owed o) =
      .some (.refund o.publicId mapped.text, d.owed o) := by
    refine if_neg ?_
    simpa [hr, hu, Db.owed] using hle
  simp only [wp_bind]
  refine wp_pays h hpay rfl hdue fun d' s' hl' h' => ?_
  refine wp_recordEvent_followed hl' h' fun d'' _ h'' => ?_
  exact hQ d'' _ _ (by rw [hdue]; rfl) (.settled d'' _) h''

/-- A commission is nobody's refund. -/
theorem wp_creditOrderCommission_lands {Q : Unit → Session → Prop} (h : Followed d₀ o n d) (hpay : d.Payable)
    (hQ : ∀ d' sent', Followed d₀ o n d' → Q () { db := d', sent := sent' }) :
    (creditOrderCommission o).wp Q E { db := d, sent := sent } := by
  refine wp_creditOrderCommission_share (hQ d sent h) fun buyer id referrer _ _ href _ hpos _ => ?_
  have hu : (d.users referrer.telegramId).isSome = true := by rw [hpay.keyed id referrer href, href]; rfl
  refine wp_credit_lands hpay hpos hu (fun _ => rfl) (fun _ _ => hQ d sent h) fun e he => hQ _ sent ?_
  have hwithin : d.Within (· = o.publicId) (d.posted e) := by
    refine .posted he nofun fun ht => ?_
    obtain ⟨_, _, _, _, _, _, rfl, _⟩ := he
    exact absurd ht (by decide : ¬ (Option.some "referral" = .some "order"))
  refine ⟨h.within.trans hwithin, h.row, ?_⟩
  obtain ⟨_, _, _, _, _, _, rfl, _⟩ := he
  rw [Db.refundedSoFar_posted, if_neg, Int.add_zero, h.refunded]
  exact fun hr => absurd hr.1 (by decide : ¬ (Option.some "referral" = .some "order"))

theorem Db.SamePurse.paysBack (h : d₀.SamePurse d) (now : Time) (mapped : OrderStatus) (remains : Option Int)
    (status : OrderStatus) :
    d.paysBack { o with status := status, updatedAt := now } mapped remains = d₀.paysBack o mapped remains := by
  show d.paysBack o mapped remains = _
  have howed : d.owed o = d₀.owed o := by simp only [Db.owed, Db.refundedSoFar, Db.refunds, h.ledger]
  have hpays : d.pays o = d₀.pays o := by
    funext key amount
    simp only [Db.pays, h.users, h.records]
  unfold Db.paysBack
  rw [howed, hpays]

theorem Db.SamePurse.credited (h : d₀.SamePurse d) (pay : Option (Key × Int)) : d.credited pay = d₀.credited pay := by
  have hfind : d.findEntry = d₀.findEntry := by
    funext key
    simp only [Db.findEntry, h.ledger]
  unfold Db.credited
  rw [hfind]

/-- A report of a refund pays nothing: by then the order's own status says so. -/
theorem refunding_iff (m : OrderStatus) :
    (decide (m ∈ [OrderStatus.canceled, .refunded, .failed]) && decide (m ≠ .refunded)) = true ↔
      m ∈ [OrderStatus.canceled, .failed] := by
  cases m <;> decide

theorem wp_applyStatus_followed {now : Time} {mapped : OrderStatus} {remains : Option Int}
    {Q : Order → Session → Prop} (hl : Lands d s) (h : Followed d₀ o 0 d) (hsame : d₀.SamePurse d)
    (hpay : d₀.Payable) (hQ : ∀ d' s',
      Lands d' s' → Followed d₀ { o with status := d₀.turned o mapped remains, updatedAt := now }
        (d₀.credited (d₀.paysBack o mapped remains)) d' →
      Q { o with status := d₀.turned o mapped remains, updatedAt := now } s') :
    (applyStatus now o mapped remains).wp Q E s := by
  simp only [applyStatus, wp_bind]
  refine wp_recordEvent_followed hl h fun d₁ hsame₁ h₁ => ?_
  have hpurse : d₀.SamePurse d₁ := ⟨hsame₁.ledger.trans hsame.ledger, hsame₁.users.trans hsame.users,
    hsame₁.records.trans hsame.records⟩
  have hpay₁ := h₁.within.payable hpay
  have hback := hpurse.paysBack (o := o) now mapped remains mapped
  have hcred := hpurse.credited (d₀.paysBack o mapped remains)
  have hnone (hn : d₀.paysBack o mapped remains = .none) (d' : Db) (s' : Session) (hl' : Lands d' s')
      (h' : Followed d₀ { o with status := mapped, updatedAt := now } 0 d') :
      Q { o with status := mapped, updatedAt := now } s' := by
    have hturn : d₀.turned o mapped remains = mapped := by simp [Db.turned, hn]
    rw [hturn, hn] at hQ
    exact hQ d' s' hl' h'
  split
  · next hm =>
    subst hm
    simp only [wp_bind]
    refine wp_refundRest_lands h₁ hpay₁ fun d' s' hl' h' => ?_
    rw [hback, hcred, Int.zero_add] at h'
    have hturn : d₀.turned o .partial_ remains = .partial_ := by simp [Db.turned]
    rw [hturn] at hQ
    exact hQ d' s' hl' h'
  next hpart =>
  split
  · next hm =>
    have hm' := (refunding_iff mapped).mp hm
    refine wp_refundIfNeeded_lands remains hm' h₁ hpay₁ fun d' s' o' ho' hl' h' => ?_
    rw [hback, hcred, Int.zero_add] at h'
    rw [hback] at ho'
    have hrow : o' = { o with status := d₀.turned o mapped remains, updatedAt := now } := by
      rw [ho']
      simp only [Db.turned]
      split <;> simp_all
    subst hrow
    exact hQ d' s' hl' h'
  next hm =>
  have hn : d₀.paysBack o mapped remains = .none := by
    have hm' : mapped ∉ [OrderStatus.canceled, .failed] := mt (refunding_iff mapped).mpr hm
    unfold Db.paysBack
    rw [if_neg hpart, if_neg (by simp [hm'])]
  split
  · simp only [wp_bind]
    exact wp_creditOrderCommission_lands h₁ hpay₁ fun d' sent' h' => hnone hn d' _ (.settled d' sent') h'
  · exact hnone hn d₁ _ (.settled d₁ _) h₁

theorem wp_setOrderIf_followed {c : Bool} {g : Order → Order} {Q : Order → Session → Prop} (hl : Lands d s)
    (h : Followed d₀ o n d) (hg : ∀ o, (g o).publicId = o.publicId ∧ (g o).userId = o.userId)
    (hQ : ∀ d' s' o', o' = (if c then g o else o) → d.SamePurse d' → Lands d' s' → Followed d₀ o' n d' → Q o' s') :
    (setOrderIf c o g).wp Q E s := by
  unfold setOrderIf
  split
  · next hc =>
    refine wp_setOrder_lands hl fun s' hl' => ?_
    have hsame : d.SamePurse (d.updateOrder o.publicId g) := ⟨rfl, rfl, rfl⟩
    exact hQ _ s' _ (if_pos hc).symm hsame hl' (h.update hg)
  · next hc => exact hQ d s o (if_neg hc).symm ⟨rfl, rfl, rfl⟩ hl h

/-- A number that is given takes the place of the one there is. -/
theorem ite_given {α : Type} (v x : Option Int) (f : Option Int → α) :
    (if (v.isSome && decide (x ≠ v)) = true then f v else f x) = f (v.or x) := by
  cases v with
  | none => rfl
  | some n =>
    by_cases hx : x = .some n
    · simp [hx]
    · simp [hx]

theorem applyReport_eq (now : Time) (o : Order) (status : ProviderStatus) : applyReport now o status = (do
    let order ← setOrderIf (status.startCount.isSome && o.startCount ≠ status.startCount) o fun o =>
      { o with startCount := status.startCount }
    let order ← setOrderIf (status.remains.isSome && o.remains ≠ status.remains) order fun o =>
      { o with remains := status.remains }
    let order ← applyStatusIf (status.mapped ≠ o.status) now order status.mapped status.remains
    let order ← setOrderIf (o.changedBy status) order fun o => { o with updatedAt := now }
    setOrder order fun o => { o with lastSyncedAt := .some now }) := rfl

theorem wp_applyReport_followed {now : Time} {status : ProviderStatus} {Q : Order → Session → Prop}
    (hl : Lands d₀ s) (ho : d₀.findOrder o.publicId = .some o) (hpay : d₀.Payable)
    (hQ : ∀ d' s', Lands d' s' → Followed d₀ (d₀.synced now o (.ok status))
      (d₀.credited (d₀.answered o (.ok status))) d' → Q (d₀.synced now o (.ok status)) s') :
    (applyReport now o status).wp Q E s := by
  simp only [applyReport_eq, wp_bind]
  refine wp_setOrderIf_followed hl (.start ho) (fun _ => ⟨rfl, rfl⟩) fun d₁ s₁ o₁ ho₁ hsame₁ hl₁ h₁ => ?_
  refine wp_setOrderIf_followed hl₁ h₁ (fun _ => ⟨rfl, rfl⟩) fun d₂ s₂ o₂ ho₂ hsame₂ hl₂ h₂ => ?_
  have hpurse : d₀.SamePurse d₂ := ⟨hsame₂.ledger.trans hsame₁.ledger, hsame₂.users.trans hsame₁.users,
    hsame₂.records.trans hsame₁.records⟩
  obtain rfl : o₁ = { o with startCount := status.startCount.or o.startCount } :=
    ho₁.trans (ite_given _ _ fun v => { o with startCount := v })
  obtain rfl : o₂ = o.taking status :=
    ho₂.trans (ite_given _ _ fun v => { o with startCount := status.startCount.or o.startCount, remains := v })
  -- the fields set last
  have hlast (o₃ : Order) (pay : Int) (d₃ : Db) (s₃ : Session) (hl₃ : Lands d₃ s₃) (h₃ : Followed d₀ o₃ pay d₃)
      (hrow : { o₃ with
        updatedAt := if o.changedBy status then now else o₃.updatedAt
        lastSyncedAt := .some now } = d₀.synced now o (.ok status))
      (hpaid : pay = d₀.credited (d₀.answered o (.ok status))) :
      (setOrderIf (o.changedBy status) o₃ fun o => { o with updatedAt := now }).wp
        (fun o₄ s₄ => (setOrder o₄ fun o => { o with lastSyncedAt := .some now }).wp Q E s₄) E s₃ := by
    refine wp_setOrderIf_followed hl₃ h₃ (fun _ => ⟨rfl, rfl⟩) fun d₄ s₄ o₄ ho₄ _ hl₄ h₄ => ?_
    obtain rfl : o₄ = { o₃ with updatedAt := if o.changedBy status then now else o₃.updatedAt } := by
      rw [ho₄]
      split <;> rfl
    refine wp_setOrder_followed hl₄ h₄ (fun _ => ⟨rfl, rfl⟩) fun d₅ s₅ hl₅ h₅ => ?_
    have hrow' := hrow
    subst hpaid
    rw [hrow'] at h₅
    exact hrow' ▸ hQ d₅ s₅ hl₅ h₅
  unfold applyStatusIf
  split
  · next hturn =>
    have hturn' := of_decide_eq_true hturn
    refine wp_applyStatus_followed hl₂ h₂ hpurse hpay fun d₃ s₃ hl₃ h₃ => hlast _ _ d₃ s₃ hl₃ h₃ ?_ ?_
    · have hchanged : o.changedBy status = true := by simp [Order.changedBy, hturn']
      simp only [Db.synced, if_pos hturn', hchanged, if_true]
      rfl
    · simp only [Db.answered, if_pos hturn']
      rfl
  · next hturn =>
    have hturn' : ¬ status.mapped ≠ o.status := by simpa using hturn
    refine hlast _ _ d₂ s₂ hl₂ h₂ ?_ ?_
    · simp only [Db.synced, if_neg hturn']
      rfl
    · simp only [Db.answered, if_neg hturn']
      rfl

/-- **What following an order does**: it succeeds, it can be written, and it
is about this order only. -/
theorem wp_syncOrder_lands {now : Time} {answer : Except ProviderError ProviderStatus} {Q : Order → Session → Prop}
    (hl : Lands d₀ s) (ho : d₀.findOrder o.publicId = .some o) (hpay : d₀.Payable) (hgo : d₀.Follows o)
    (hQ : ∀ d' s', Lands d' s' → Followed d₀ (d₀.synced now o answer) (d₀.credited (d₀.answered o answer)) d' →
      Q (d₀.synced now o answer) s') :
    (syncOrder now o answer).wp Q E s := by
  obtain ⟨hopen, hid, hprov⟩ := hgo
  obtain ⟨p, hp⟩ := Option.isSome_iff_exists.mp hprov
  have hp' : s.db.findProvider o.providerId = .some p := by
    simp only [Db.findProvider, hl.catalog] at hp ⊢
    exact hp
  simp only [syncOrder]
  rw [if_neg (by simp [hopen, hid])]
  simp only [wp_bind, adapterFor, wp_query, hp', wp_pure', wp_call]
  have hl' : Lands d₀ { s with sent := s.sent ++ [.orderStatus (o.providerOrderId.getD "")] } := ⟨hl.flush, hl.catalog⟩
  cases answer with
  | ok status => exact wp_applyReport_followed hl' ho hpay hQ
  | error e =>
    refine wp_setOrder_followed hl' (.start ho) (fun _ => ⟨rfl, rfl⟩) fun d' s' hl'' h' => ?_
    exact hQ d' s' hl'' h'

end

end Falaron
