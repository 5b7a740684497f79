/-
One order in the hands of a call, step by step.

A call that works on an order keeps the books open on it (`AtOrder`): the
order's row is the copy the call holds, its entries trace its money, and all
rows are what became of the rows the call began with. Each kind of statement
the order code makes has one rule here. What a session will look like once it
has flushed (`Working`) is all that is known between two flushes; right after
one nothing is pending (`Settled`).
-/
import Falaron.OrderBooks

namespace Falaron

open Txn.Prog

/-- What callers answer their user with. The bot commits after it. -/
def Err.userFacing : Err → Bool
  | .order _ | .permission _ | .value _ | .insufficientFunds _ | .notFound _ => true
  | _ => false

/-- What `capture` raises on a reserve that is too small. -/
def overCapture : Err := .wallet "Cannot capture more than the reserved amount"

/-- An error that is none of the user's: the transaction is rolled back. -/
def Internal (strict : Prop) (e : Err) : Prop := e.userFacing = false ∧ (strict → e ≠ overCapture)

theorem Internal.integrity {strict : Prop} : Internal strict .integrity := ⟨rfl, fun _ => by decide⟩

theorem Internal.missingRow {strict : Prop} : Internal strict .missingRow := ⟨rfl, fun _ => by decide⟩

/-! ## What becomes of the orders -/

/-- What may become of an order's row: a failed order stays failed. -/
structure Order.Later (o o' : Order) : Prop where
  publicId : o'.publicId = o.publicId
  userId : o'.userId = o.userId
  chargePaise : o'.chargePaise = o.chargePaise
  idempotencyKey : o'.idempotencyKey = o.idempotencyKey
  failed : o.status = .failed → o'.status = .failed

theorem Order.Later.refl (o : Order) : o.Later o := ⟨rfl, rfl, rfl, rfl, id⟩

theorem Order.Later.trans {o o' o'' : Order} (h : o.Later o') (h' : o'.Later o'') : o.Later o'' where
  publicId := h'.publicId.trans h.publicId
  userId := h'.userId.trans h.userId
  chargePaise := h'.chargePaise.trans h.chargePaise
  idempotencyKey := h'.idempotencyKey.trans h.idempotencyKey
  failed hf := h'.failed (h.failed hf)

/-- The orders of `b` are what became of those of `a`; the order keys on record are the same. -/
structure Db.Since (a b : Db) : Prop where
  orders : ∃ g : Order → Order, b.orders = a.orders.map g ∧ ∀ o ∈ a.orders, o.Later (g o)
  records : ∀ k : Key, k.orderRef = .none → b.records k = a.records k

namespace Db.Since

variable {a b b' c : Db}

theorem refl (a : Db) : a.Since a := ⟨⟨id, by simp, fun o _ => .refl o⟩, fun _ _ => rfl⟩

theorem trans (h : a.Since b) (h' : b.Since c) : a.Since c := by
  obtain ⟨g, hg, hl⟩ := h.orders
  obtain ⟨g', hg', hl'⟩ := h'.orders
  refine ⟨⟨g' ∘ g, by rw [hg', hg, List.map_map], fun o ho => ?_⟩, fun k hk => (h'.records k hk).trans (h.records k hk)⟩
  exact (hl o ho).trans (hl' (g o) (hg ▸ List.mem_map_of_mem ho))

/-- Where an order comes from. -/
theorem origin (h : a.Since b) {o : Order} (ho : o ∈ b.orders) : ∃ o₀ ∈ a.orders, o₀.Later o := by
  obtain ⟨g, hg, hl⟩ := h.orders
  rw [hg] at ho
  obtain ⟨o₀, ho₀, rfl⟩ := List.mem_map.mp ho
  exact ⟨o₀, ho₀, hl o₀ ho₀⟩

/-- What has become of an order. -/
theorem later (h : a.Since b) {o : Order} (ho : o ∈ a.orders) : ∃ o' ∈ b.orders, o.Later o' := by
  obtain ⟨g, hg, hl⟩ := h.orders
  exact ⟨g o, hg ▸ List.mem_map_of_mem ho, hl o ho⟩

theorem congr (h : a.Since b) (ho : b'.orders = b.orders)
    (hr : ∀ k : Key, k.orderRef = .none → b'.records k = b.records k) : a.Since b' :=
  ⟨by rw [ho]; exact h.orders, fun k hk => (hr k hk).trans (h.records k hk)⟩

/-- One row changes, of an order that had not failed. -/
theorem updateOrder (h : a.Since b) {p : String} {g : Order → Order} (hg : KeepsOrder g)
    (hlive : ∀ o ∈ a.orders, o.publicId = p → o.status ≠ .failed) : a.Since (b.updateOrder p g) := by
  obtain ⟨g₁, hg₁, hl⟩ := h.orders
  refine ⟨⟨fun o => if (g₁ o).publicId = p then g (g₁ o) else g₁ o, ?_, fun o ho => ?_⟩, h.records⟩
  · simp only [Db.updateOrder, hg₁, List.map_map]
    rfl
  · have h₁ := hl o ho
    simp only
    split
    · next hp =>
      obtain ⟨h₂, h₃, h₄, h₅⟩ := hg (g₁ o)
      have hne := hlive o ho (h₁.publicId ▸ hp)
      exact ⟨h₂.trans h₁.publicId, h₃.trans h₁.userId, h₄.trans h₁.chargePaise,
        h₅.trans h₁.idempotencyKey, fun hf => absurd hf hne⟩
    · exact h₁

end Db.Since

/-! ## The books, open on one order -/

/-- The copy of an order a call holds is its row, and its money is at `f`;
the rows of the other orders have not changed, and what has been written to
the ledger is about the order or a credit. -/
structure AtOrder (strict : Prop) (base : Db) (o : Order) (f : Funds) (db : Db) : Prop where
  books : OrderBooks strict (.some o.publicId) db
  mem : o ∈ db.orders
  trace : Funds.Trace o.chargePaise (db.entriesFor o.publicId) f
  since : base.Since db
  live : ∀ o' ∈ base.orders, o'.publicId = o.publicId → o'.status ≠ .failed
  others : ∀ o' ∈ base.orders, o'.publicId ≠ o.publicId → o' ∈ db.orders
  written : ∃ es, db.ledger = base.ledger ++ es ∧ ∀ e ∈ es, e.orderRef = .some o.publicId ∨ e.entryType = .credit

namespace AtOrder

variable {strict : Prop} {base db db' : Db} {o : Order} {f f' : Funds}

theorem charge_pos (h : AtOrder strict base o f db) : 0 < o.chargePaise := h.books.charges o h.mem

theorem clean (h : AtOrder strict base o f db) (hs : strict) : f.Clean := by
  obtain ⟨f', ht, hcl, _⟩ := h.books.funds o h.mem
  exact h.trace.unique ht ▸ hcl hs

/-- An order that is loaded is where its row says. -/
theorem load (hb : OrderBooks strict .none db) (ho : o ∈ db.orders) (hlive : o.status ≠ .failed) :
    ∃ f, AtOrder strict db o f db ∧ o.Fits f := by
  obtain ⟨f, ht, _, hfit⟩ := hb.funds o ho
  refine ⟨f, ⟨hb.opened _, ho, ht, .refl db, fun o' ho' hp => ?_, fun _ ho' _ => ho', [], by simp, by simp⟩,
    hfit (by simp)⟩
  rwa [List.inj_on_of_nodup_map hb.ids ho' ho hp]

theorem close (h : AtOrder strict base o f db) (hf : o.Fits f) : OrderBooks strict .none db :=
  h.books.closed h.mem h.trace hf

theorem refundedSoFar (h : AtOrder strict base o f db) : db.refundedSoFar o = f.refunded :=
  h.books.refundedSoFar h.mem h.trace

/-- A change of tables that hold neither orders nor money. -/
theorem quiet (h : AtOrder strict base o f db) (hu : db'.users = db.users) (hl : db'.ledger = db.ledger)
    (ho : db'.orders = db.orders) (hr : ∀ k : Key, k.orderRef = .none → db'.records k = db.records k) :
    AtOrder strict base o f db' where
  books := h.books.quiet hu hl ho
  mem := ho ▸ h.mem
  trace := by rw [Db.entriesFor_congr hl]; exact h.trace
  since := h.since.congr ho hr
  live := h.live
  others o' ho' hp := ho ▸ h.others o' ho' hp
  written := hl ▸ h.written

theorem update (h : AtOrder strict base o f db) {g : Order → Order} (hg : KeepsOrder g) :
    AtOrder strict base (g o) f (db.updateOrder o.publicId g) := by
  obtain ⟨h₁, h₂, h₃, _⟩ := hg o
  constructor
  case books => rw [h₁]; exact h.books.updateOrder hg
  case mem => exact List.mem_map.mpr ⟨o, h.mem, if_pos rfl⟩
  case trace => rw [h₁, h₃]; exact h.trace
  case since => exact h.since.updateOrder hg h.live
  case live => rw [h₁]; exact h.live
  case others =>
    intro o' ho' hp
    rw [h₁] at hp
    exact List.mem_map.mpr ⟨o', h.others o' ho' hp, if_neg hp⟩
  case written => rw [h₁]; exact h.written

/-- An entry under a key of the order that is in the ledger is one of the order's entries. -/
theorem entry_of_key (h : AtOrder strict base o f db) {e : LedgerEntry} {key : Key}
    (hk : key.orderRef = .some o.publicId) (he : db.findEntry key = .some e) :
    e ∈ ofType key.entryType (db.entriesFor o.publicId) := by
  obtain ⟨hm, rfl⟩ := Db.findEntry_mem he
  obtain ⟨href, htype⟩ := h.books.keys e hm
  rw [hk] at href
  simp only [ofType, Db.entriesFor, List.mem_filter, beq_iff_eq]
  exact ⟨⟨hm, href⟩, htype (by simp [href])⟩

theorem written_posted (h : AtOrder strict base o f db) {e : LedgerEntry}
    (he : e.orderRef = .some o.publicId ∨ e.entryType = .credit) :
    ∃ es, (db.posted e).ledger = base.ledger ++ es ∧
      ∀ e ∈ es, e.orderRef = .some o.publicId ∨ e.entryType = .credit := by
  obtain ⟨es, hes, hall⟩ := h.written
  refine ⟨es ++ [e], by rw [Db.posted_ledger, hes, List.append_assoc], fun e' he' => ?_⟩
  rcases List.mem_append.mp he' with he' | he'
  · exact hall e' he'
  · exact List.mem_singleton.mp he' ▸ he

/-- A posting that moves the order's money. -/
theorem posted (h : AtOrder strict base o f db) {amount : Int} {reason : String} {t : EntryType} {key : Key}
    {draft : User → Except Err Draft} {e : LedgerEntry}
    (hp : Posts db (orderPosting o amount reason) t key draft e)
    (hkey : key.orderRef = .some o.publicId) (htype : key.entryType = t) (hcl : strict → f'.Clean)
    (hmoves : ∀ user d, db.users o.userId = .some user → draft user = .ok d →
      f.Moves o.chargePaise t d.amountPaise f' ∧
      (strict → d.newReserved = user.cachedReservedPaise + (f'.hold o.chargePaise - f.hold o.chargePaise))) :
    AtOrder strict base o f' (db.posted e) := by
  obtain ⟨user, d, hrow, hd, he, _⟩ := hp.drafted
  obtain ⟨hm, hres⟩ := hmoves user d hrow hd
  have href : e.orderRef = .some o.publicId := by rw [he]; exact LedgerEntry.orderRef_iff.mpr ⟨rfl, rfl⟩
  have ht : e.entryType = t := by rw [he]; rfl
  have ha : e.amountPaise = d.amountPaise := by rw [he]; rfl
  refine ⟨?_, h.mem, ?_, h.since.congr rfl fun _ _ => rfl, h.live, h.others, h.written_posted (.inl href)⟩
  · refine h.books.posted_order h.mem h.trace hp href hkey rfl ht htype (ha ▸ hm) hcl fun hs user' hu' => ?_
    obtain rfl : user = user' := Option.some.inj (hrow.symm.trans hu')
    rw [he]
    exact hres hs
  · rw [Db.entriesFor_posted, href, if_pos rfl]
    exact h.trace.snoc (by rw [ht, ha]; exact hm)

/-- A credit that is about no order. -/
theorem credited_other (h : AtOrder strict base o f db) {p : Posting} {key : Key} {e : LedgerEntry}
    (hp : Posts db p .credit key (creditDraft p.amountPaise) e) (href : p.referenceType ≠ .some "order")
    (hkey : key.orderRef = .none) : AtOrder strict base o f (db.posted e) := by
  obtain ⟨user, d, hrow, hd, he, _⟩ := hp.drafted
  obtain rfl : _ = d := Except.ok.inj hd
  have hnone : e.orderRef = .none := by rw [he]; exact if_neg href
  have htype : e.entryType = .credit := by rw [he]; rfl
  refine ⟨?_, h.mem, ?_, h.since.congr rfl fun _ _ => rfl, h.live, h.others, h.written_posted (.inr htype)⟩
  · refine h.books.posted_other hp hnone hkey fun user' hu' => ?_
    obtain rfl : user = user' := Option.some.inj (hrow.symm.trans hu')
    rw [he]
    rfl
  · rw [Db.entriesFor_posted, hnone, if_neg (by simp), List.append_nil]
    exact h.trace

end AtOrder

/-! ## Rules -/

/-- The books will be open on the order once what is pending is written. -/
structure Working (strict : Prop) (base : Db) (sent : List Ext) (o : Order) (f : Funds) (s : Session) : Prop where
  will : s.Will fun s' => AtOrder strict base o f s'.db
  sent : s.sent = sent

/-- They are, and nothing is pending. -/
structure Settled (strict : Prop) (base : Db) (sent : List Ext) (o : Order) (f : Funds) (s : Session) : Prop where
  clear : s.staged = []
  here : AtOrder strict base o f s.db
  sent : s.sent = sent

section

variable {strict : Prop} {base : Db} {sent : List Ext} {o : Order} {f f' : Funds} {s : Session}

theorem Settled.working (h : Settled strict base sent o f s) : Working strict base sent o f s :=
  ⟨.of h.clear h.here, h.sent⟩

theorem Working.called (h : Working strict base sent o f s) (x : Ext) :
    Working strict base (sent ++ [x]) o f { s with sent := s.sent ++ [x] } := ⟨h.will, by rw [h.sent]⟩

theorem Settled.called (h : Settled strict base sent o f s) (x : Ext) :
    Settled strict base (sent ++ [x]) o f { s with sent := s.sent ++ [x] } := ⟨h.clear, h.here, by rw [h.sent]⟩

/-- What the caller then commits. -/
theorem Working.commit (h : Working strict base sent o f s) {db : Db} {P : Db → Prop} (h₀ : P db)
    (hP : ∀ db', AtOrder strict base o f db' → P db') : P ((Txn.flushAll s.staged s.db).getD db) :=
  h.will.commit h₀ fun s' => hP s'.db

/-- A statement on tables that hold neither orders nor money. -/
structure Quiet (w : Stmt) : Prop where
  users : ∀ db, (w.apply db).users = db.users
  ledger : ∀ db, (w.apply db).ledger = db.ledger
  orders : ∀ db, (w.apply db).orders = db.orders
  records : ∀ db (k : Key), k.orderRef = .none → (w.apply db).records k = db.records k

/-- What an order's code raises once it has begun to write. -/
def InternalErrors (strict : Prop) (sent : List Ext) (e : Err) (s : Session) : Prop :=
  Internal strict e ∧ s.sent = sent

theorem wp_quiet {w : Stmt} {Q : Unit → Session → Prop} (h : Working strict base sent o f s) (hw : Quiet w)
    (hQ : ∀ s', Working strict base sent o f s' → Q () s') :
    (write w : M Unit).wp Q (InternalErrors strict sent) s := by
  refine wp_write_will h.will (K := fun s' => AtOrder strict base o f s'.db) (fun s' ha _ => ?_)
    fun s' hsent hw => hQ s' ⟨hw, hsent.trans h.sent⟩
  exact ha.quiet (hw.users _) (hw.ledger _) (hw.orders _) (hw.records _)

theorem wp_setOrder {g : Order → Order} {Q : Order → Session → Prop} (h : Working strict base sent o f s)
    (hg : KeepsOrder g) (hQ : ∀ s', Working strict base sent (g o) f s' → Q (g o) s') :
    (setOrder o g).wp Q (InternalErrors strict sent) s := by
  simp only [setOrder, wp_bind]
  exact wp_write_will h.will (K := fun s' => AtOrder strict base (g o) f s'.db) (fun s' ha _ => ha.update hg)
    fun s' hsent hw => hQ s' ⟨hw, hsent.trans h.sent⟩

theorem wp_settle {Q : Unit → Session → Prop} (h : Working strict base sent o f s)
    (hQ : ∀ s', Settled strict base sent o f s' → Q () s') : flush.wp Q (InternalErrors strict sent) s :=
  wp_flushed_will h.will ⟨.integrity, h.sent⟩ fun s' hst hsent ha => hQ s' ⟨hst, ha, hsent.trans h.sent⟩

theorem wp_setOrderIf {c : Bool} {g : Order → Order} {Q : Order → Session → Prop}
    (h : Working strict base sent o f s) (hg : KeepsOrder g)
    (hQ : ∀ o' s', o' = o ∨ o' = g o → Working strict base sent o' f s' → Q o' s') :
    (setOrderIf c o g).wp Q (InternalErrors strict sent) s := by
  unfold setOrderIf
  split
  · exact wp_setOrder h hg fun s' => hQ _ s' (.inr rfl)
  · exact hQ _ _ (.inl rfl) h

theorem quiet_orderEvent (e : OrderEvent) : Quiet (Stmt.insertOrderEvent e) :=
  ⟨fun _ => rfl, fun _ => rfl, fun _ => rfl, fun _ _ _ => rfl⟩

/-- `_record_event` writes all that is pending. -/
theorem wp_recordEvent {now : Time} {toStatus : OrderStatus} {note : String} {Q : Order → Session → Prop}
    (h : Working strict base sent o f s)
    (hQ : ∀ s', Settled strict base sent { o with status := toStatus, updatedAt := now } f s' →
      Q { o with status := toStatus, updatedAt := now } s') :
    (recordEvent now o toStatus note).wp Q (InternalErrors strict sent) s := by
  simp only [recordEvent, wp_bind]
  refine wp_setOrder h (fun _ => ⟨rfl, rfl, rfl, rfl⟩) fun s₁ h₁ => ?_
  refine wp_quiet h₁ (quiet_orderEvent _) fun s₂ h₂ => ?_
  exact wp_settle h₂ hQ

theorem wp_audit {now : Time} {actor action : String} {target reason : Option String}
    {Q : Unit → Session → Prop} (h : Working strict base sent o f s)
    (hQ : ∀ s', Settled strict base sent o f s' → Q () s') :
    (audit now actor action target reason).wp Q (InternalErrors strict sent) s := by
  simp only [audit, wp_bind]
  refine wp_quiet h ⟨fun _ => rfl, fun _ => rfl, fun _ => rfl, fun _ _ _ => rfl⟩ fun s₁ h₁ => ?_
  exact wp_settle h₁ hQ

/-- The rule of the postings on an order's behalf. A key of the order that is
in the ledger is only ever that of an entry the order has had. -/
theorem wp_orderPosting (f' : Funds) {amount : Int} {reason refusal : String} {t : EntryType} {key : Key}
    {draft : User → Except Err Draft} {Q : LedgerEntry → Session → Prop}
    (h : Working strict base sent o f s) (hpos : 0 < amount) (hkey : key.orderRef = .some o.publicId)
    (htype : key.entryType = t) (hcl : strict → f'.Clean)
    (hdraft : ∀ db user, Txn.flushAll s.staged s.db = .some db → AtOrder strict base o f db →
      db.users o.userId = .some user → 0 ≤ user.cachedReservedPaise ∧ user.cachedReservedPaise ≤ user.cachedBalancePaise →
      match draft user with
      | .error err => Internal strict err
      | .ok d => d.newReserved ≤ d.newBalance ∧ f.Moves o.chargePaise t d.amountPaise f' ∧
        (strict → d.newReserved = user.cachedReservedPaise + (f'.hold o.chargePaise - f.hold o.chargePaise)))
    (hreplay : ∀ e s', e ∈ ofType t (s'.db.entriesFor o.publicId) → Settled strict base sent o f s' → Q e s')
    (hQ : ∀ e s', Settled strict base sent o f' s' → Q e s') :
    (post (orderPosting o amount reason) t refusal key draft).wp Q (InternalErrors strict sent) s := by
  cases hf : Txn.flushAll s.staged s.db with
  | none => exact wp_post_stuck hf hpos ⟨.integrity, h.sent⟩
  | some db =>
    have hat : AtOrder strict base o f db := h.will db hf
    have hd (user) (hu : db.users o.userId = .some user) := hdraft db user hf hat hu (hat.books.covered _ _ hu)
    refine wp_post hf (fun hneg => absurd hpos hneg) (fun err href => ?_) (fun e _ he => ?_) fun e hp => ?_
    · cases href with
      | amount hneg => exact absurd hpos hneg
      | missing => exact ⟨.missingRow, h.sent⟩
      | @draft user _ hu _ he =>
        have hd := hd user hu
        rw [he] at hd
        exact ⟨hd, h.sent⟩
      | negative => exact ⟨⟨rfl, fun _ => by simp [overCapture]⟩, h.sent⟩
      | @exceeds user d hu _ he hlt =>
        have hd := hd user hu
        rw [he] at hd
        exact absurd hd.1 (by omega)
    · exact hreplay e _ (htype ▸ hat.entry_of_key hkey he) ⟨rfl, hat, h.sent⟩
    · refine hQ e _ ⟨rfl, hat.posted hp hkey htype hcl fun user d hu he => ?_, h.sent⟩
      have hd := hd user hu
      rw [he] at hd
      exact hd.2

/-- The rule of a credit that is about no order. -/
theorem wp_otherCredit {p : Posting} {refusal : String} {key : Key} {Q : LedgerEntry → Session → Prop}
    (h : Working strict base sent o f s) (hpos : 0 < p.amountPaise) (href : p.referenceType ≠ .some "order")
    (hkey : key.orderRef = .none) (hQ : ∀ e s', Settled strict base sent o f s' → Q e s') :
    (post p .credit refusal key (creditDraft p.amountPaise)).wp Q (InternalErrors strict sent) s := by
  cases hf : Txn.flushAll s.staged s.db with
  | none => exact wp_post_stuck hf hpos ⟨.integrity, h.sent⟩
  | some db =>
    have hat : AtOrder strict base o f db := h.will db hf
    refine wp_post hf (fun hneg => absurd hpos hneg) (fun err hr => ?_) (fun e _ _ => ?_) fun e hp => ?_
    · cases hr with
      | amount hneg => exact absurd hpos hneg
      | missing => exact ⟨.missingRow, h.sent⟩
      | draft _ _ he => cases he
      | negative => exact ⟨⟨rfl, fun _ => by simp [overCapture]⟩, h.sent⟩
      | @exceeds user _ hu _ he hlt =>
        obtain rfl := Except.ok.inj he
        have hcov := hat.books.covered _ user hu
        simp only at hlt
        omega
    · exact hQ e _ ⟨rfl, hat, h.sent⟩
    · exact hQ e _ ⟨rfl, hat.credited_other hp href hkey, h.sent⟩

end

end Falaron
