/-
What is paid back on an order, over whole runs.

A refund key of an order stands for the rest of its charge: where an entry or
a record has been made under one, nothing is left to be paid. A call that
pays back the rest makes that so, every other call makes no such entry and
takes nothing back. With that, what a report pays back can be read off the
order's state before it: `refunded_in_full_iff` for the reports that end an
order, `partial_refund_iff` for the ones that give a count.
-/
import Falaron.OrderRun
import Falaron.OrderSync

namespace Falaron

open Txn.Prog hiding pure
open Py (nearest roundHalfEven)

/-! ## Refund keys -/

/-- There is an entry or a record under the key. -/
def Db.Uses (db : Db) (key : Key) : Prop := (db.findEntry key).isSome ∨ (db.records key).isSome

/-- Where a refund has been made, nothing is left of the charge. -/
def Db.RefundsWhole (db : Db) : Prop :=
  ∀ p t, db.Uses (.refund p t) → ∃ o ∈ db.orders, o.publicId = p ∧ o.chargePaise ≤ db.refundedSoFar o

/-- The order is the only one with new refunds, and nothing is left of its charge then. -/
def Db.Repaid (db : Db) (o : Order) (d : Db) : Prop :=
  ∀ p t, d.Uses (.refund p t) → db.Uses (.refund p t) ∨ p = o.publicId ∧ o.chargePaise ≤ d.refundedSoFar o

/-- A statement that makes no refund. -/
def Stmt.RefundsNothing (w : Stmt) : Prop := ∀ db p t, (w.apply db).Uses (.refund p t) → db.Uses (.refund p t)

/-- A statement that takes no entry back. -/
def Stmt.Appends (w : Stmt) : Prop := ∀ db, ∃ es, (w.apply db).ledger = db.ledger ++ es

section

variable {db d d' : Db} {o : Order} {e : LedgerEntry} {key : Key} {w : Stmt}

theorem Db.Uses.congr (h : d'.Uses key) (hl : d'.ledger = d.ledger) (hr : d'.records key = d.records key) :
    d.Uses key := by
  have hfind : d'.findEntry key = d.findEntry key := by simp only [Db.findEntry, hl]
  rwa [Db.Uses, hfind, hr] at h

theorem Db.uses_posted : (d.posted e).Uses key ↔ d.Uses key ∨ e.idempotencyKey = key := by
  simp only [Db.Uses, Db.findEntry_posted, Db.posted_records, Option.isSome_or, Bool.or_eq_true]
  by_cases hk : e.idempotencyKey = key
  · simp [hk]
  · simp [hk]

theorem Db.uses_record {k : Key} {r : Response} :
    ((Stmt.insertRecord k r).apply d).Uses key ↔ d.Uses key ∨ key = k := by
  show (d.findEntry key).isSome = true ∨ (if key = k then Option.some r else d.records key).isSome = true ↔ _
  split
  · next hk => simp [hk]
  · next hk => simp [Db.Uses, hk]

theorem Stmt.RefundsNothing.entry (hplain : e.idempotencyKey.isRefund = false) :
    (Stmt.insertEntry e).RefundsNothing := by
  intro db p t h
  rcases h with h | h
  · replace h : ((db.ledger ++ [e]).find? (·.idempotencyKey == Key.refund p t)).isSome = true := h
    rw [List.find?_append, Option.isSome_or, Bool.or_eq_true] at h
    refine h.elim .inl fun he => ?_
    have hk : e.idempotencyKey = .refund p t := by simpa using he
    simp [hk, Key.isRefund] at hplain
  · exact .inr h

theorem OrderStmts.refundsNothing : OrderStmts Stmt.RefundsNothing where
  wallet _ _ _ _ _ _ h := h.congr rfl rfl
  entry _ _ hplain := .entry hplain
  order _ _ _ _ h := h.congr rfl rfl
  row _ _ _ _ _ _ h := h.congr rfl rfl
  event _ _ _ _ h := h.congr rfl rfl
  record key r hplain db p t h := by
    refine (Db.uses_record.mp h).resolve_right ?_
    rintro rfl
    cases hplain
  resale _ _ _ _ h := h.congr rfl rfl
  usedCount _ _ _ _ _ h := h.congr rfl rfl
  redeem _ _ _ _ h := h.congr rfl rfl
  unredeem _ _ _ _ h := h.congr rfl rfl
  audit _ _ _ _ h := h.congr rfl rfl

theorem Stmt.refundsNothing_reford (e : LedgerEntry) (p : String) (hk : e.idempotencyKey = .reford p) :
    (Stmt.insertEntry e).RefundsNothing := Stmt.RefundsNothing.entry (by rw [hk]; rfl)

theorem OrderStmts.appends : OrderStmts Stmt.Appends where
  wallet _ _ _ _ := ⟨[], (List.append_nil _).symm⟩
  entry e _ _ _ := ⟨[e], rfl⟩
  order _ _ := ⟨[], (List.append_nil _).symm⟩
  row _ _ _ _ := ⟨[], (List.append_nil _).symm⟩
  event _ _ := ⟨[], (List.append_nil _).symm⟩
  record _ _ _ _ := ⟨[], (List.append_nil _).symm⟩
  resale _ _ := ⟨[], (List.append_nil _).symm⟩
  usedCount _ _ _ := ⟨[], (List.append_nil _).symm⟩
  redeem _ _ := ⟨[], (List.append_nil _).symm⟩
  unredeem _ _ := ⟨[], (List.append_nil _).symm⟩
  audit _ _ := ⟨[], (List.append_nil _).symm⟩

theorem PaybackStmts.appends : PaybackStmts Stmt.Appends where
  entry e _ _ _ := ⟨[e], rfl⟩
  record _ _ _ _ := ⟨[], (List.append_nil _).symm⟩

theorem Stmt.Appends.keeps (h : w.Appends) : w.Keeps fun d => ∃ es, d.ledger = db.ledger ++ es := by
  rintro d ⟨es, hes⟩
  obtain ⟨es', hes'⟩ := h d
  exact ⟨es ++ es', by rw [hes', hes, List.append_assoc]⟩

/-- No call takes an entry back. -/
theorem OrderCall.commit_appends (c : OrderCall) (caught : Err → Bool) (db : Db) :
    ∃ es, (c.prog.commit caught db).ledger = db.ledger ++ es :=
  (c.writes .appends (fun _ => .appends) fun _ e _ _ _ => ⟨[e], rfl⟩).commit (fun _ hw => hw.keeps)
    ⟨[], (List.append_nil _).symm⟩ caught

end

/-! ## Credits only add up -/

theorem Funds.Trace.credits_pos {charge : Int} {es : List LedgerEntry} {f : Funds} (h : Trace charge es f) :
    ∀ e ∈ es, e.entryType = .credit → 0 < e.amountPaise := by
  induction h with
  | nil => simp
  | @snoc es e f f' _ hm ih =>
    intro e' he' htype
    rcases List.mem_append.mp he' with he' | he'
    · exact ih e' he' htype
    · obtain rfl := List.mem_singleton.mp he'
      rw [htype] at hm
      cases hm with
      | credit hpos _ => exact hpos

section

variable {strict : Prop} {ex : Option String} {a b : Db} {o : Order} {es : List LedgerEntry}

theorem OrderBooks.refundedSoFar_mono (hb : OrderBooks strict ex b) (hl : b.ledger = a.ledger ++ es)
    (ho : o ∈ b.orders) : a.refundedSoFar o ≤ b.refundedSoFar o := by
  obtain ⟨f, ht, _, _⟩ := hb.funds o ho
  simp only [Db.refundedSoFar, Db.refunds, hl, List.filter_append, List.map_append, List.sum_append]
  refine le_add_of_nonneg_right (List.sum_nonneg fun n hn => ?_)
  obtain ⟨e, he, rfl⟩ := List.mem_map.mp hn
  simp only [List.mem_filter, Bool.and_eq_true, beq_iff_eq] at he
  obtain ⟨he, ⟨⟨htype, hid⟩, hcredit⟩, _⟩ := he
  refine (ht.credits_pos e ?_ hcredit).le
  simp only [Db.entriesFor, hl, List.mem_filter, List.mem_append, beq_iff_eq]
  exact ⟨.inr he, LedgerEntry.orderRef_iff.mpr ⟨htype, hid⟩⟩

theorem OrderBooks.refundedSoFar_bounds (hb : OrderBooks strict ex b) (ho : o ∈ b.orders) :
    0 ≤ b.refundedSoFar o ∧ b.refundedSoFar o ≤ o.chargePaise := by
  obtain ⟨f, ht, _, _⟩ := hb.funds o ho
  rw [hb.refundedSoFar ho ht]
  exact (ht.refunded_eq (hb.charges o ho).le).2

/-- An order's later rows are of the same charge, and count the same credits. -/
theorem Order.Later.refundedSoFar {o' : Order} (h : o.Later o') : b.refundedSoFar o' = b.refundedSoFar o := by
  simp only [Db.refundedSoFar, Db.refunds, h.publicId, h.userId]

theorem Db.RefundsWhole.later (h : a.RefundsWhole) (hb : OrderBooks strict .none b) (hl : b.ledger = a.ledger ++ es)
    (hlater : ∀ o ∈ a.orders, ∃ o' ∈ b.orders, o.Later o')
    (hnew : ∀ p t, b.Uses (.refund p t) → a.Uses (.refund p t) ∨
      ∃ o ∈ a.orders, o.publicId = p ∧ o.chargePaise ≤ b.refundedSoFar o) : b.RefundsWhole := by
  intro p t hused
  have hwhole : ∃ o ∈ a.orders, o.publicId = p ∧ o.chargePaise ≤ b.refundedSoFar o := by
    rcases hnew p t hused with hold | hwhole
    · obtain ⟨o, ho, hp, hle⟩ := h p t hold
      obtain ⟨o', ho', hl'⟩ := hlater o ho
      have hmono := hb.refundedSoFar_mono hl ho'
      rw [hl'.refundedSoFar, hl'.refundedSoFar] at hmono
      exact ⟨o, ho, hp, hle.trans hmono⟩
    · exact hwhole
  obtain ⟨o, ho, hp, hle⟩ := hwhole
  obtain ⟨o', ho', hl'⟩ := hlater o ho
  exact ⟨o', ho', hl'.publicId.trans hp, by rwa [hl'.chargePaise, hl'.refundedSoFar]⟩

end

/-! ## The calls that pay back -/

section

variable {db d : Db} {o o' : Order} {s : Session} {now : Time}

theorem Db.Repaid.of_old (h : ∀ p t, d.Uses (.refund p t) → db.Uses (.refund p t)) : db.Repaid o d :=
  fun p t hused => .inl (h p t hused)

theorem Db.Repaid.congr {d' : Db} (h : db.Repaid o d) (hl : d'.ledger = d.ledger) (hr : d'.records = d.records) :
    db.Repaid o d' := by
  intro p t hused
  have hsum : d'.refundedSoFar o = d.refundedSoFar o := by simp only [Db.refundedSoFar, Db.refunds, hl]
  rw [hsum]
  exact h p t (hused.congr hl (congrFun hr _))

/-- `J` is about the ledger and the records only. -/
def OfMoney (J : Db → Prop) : Prop := ∀ d d', d'.ledger = d.ledger → d'.records = d.records → J d → J d'

theorem Db.Repaid.ofMoney : OfMoney (db.Repaid o) := fun _ _ hl hr h => h.congr hl hr

theorem ofMoney_old : OfMoney fun d => ∀ p t, d.Uses (.refund p t) → db.Uses (.refund p t) :=
  fun _ _ hl hr h p t hused => h p t (hused.congr hl (congrFun hr _))

section

variable {J : Db → Prop}

theorem wp_quiet_money {w : Stmt} {Q : Unit → Session → Prop} (hJ : OfMoney J) (h : s.Will fun s' => J s'.db)
    (hl : ∀ d, (w.apply d).ledger = d.ledger) (hr : ∀ d, (w.apply d).records = d.records)
    (hQ : ∀ s', (s'.Will fun s' => J s'.db) → Q () s') : (write w : M Unit).wp Q (fun _ _ => True) s :=
  wp_write_will h (K := fun s' => J s'.db) (fun _ ha _ => hJ _ _ (hl _) (hr _) ha) fun s' _ => hQ s'

theorem wp_setOrder_money {g : Order → Order} {Q : Order → Session → Prop} (hJ : OfMoney J)
    (h : s.Will fun s' => J s'.db) (hQ : ∀ s', (s'.Will fun s' => J s'.db) → Q (g o) s') :
    (setOrder o g).wp Q (fun _ _ => True) s := by
  simp only [setOrder, wp_bind]
  exact wp_quiet_money hJ h (fun _ => rfl) (fun _ => rfl) hQ

theorem wp_setOrderIf_money {c : Bool} {g : Order → Order} {Q : Order → Session → Prop} (hJ : OfMoney J)
    (h : s.Will fun s' => J s'.db) (hQ : ∀ a s', a = o ∨ a = g o → (s'.Will fun s' => J s'.db) → Q a s') :
    (setOrderIf c o g).wp Q (fun _ _ => True) s := by
  unfold setOrderIf
  split
  · exact wp_setOrder_money hJ h fun s' => hQ _ s' (.inr rfl)
  · exact hQ _ s (.inl rfl) h

theorem wp_recordEvent_money {toStatus : OrderStatus} {note : String} {Q : Order → Session → Prop} (hJ : OfMoney J)
    (h : s.Will fun s' => J s'.db) (hQ : ∀ d sent, J d →
      Q { o with status := toStatus, updatedAt := now } { db := d, sent := sent }) :
    (recordEvent now o toStatus note).wp Q (fun _ _ => True) s := by
  simp only [recordEvent, wp_bind]
  refine wp_setOrder_money hJ h fun s₁ h₁ => ?_
  refine wp_quiet_money hJ h₁ (fun _ => rfl) (fun _ => rfl) fun s₂ h₂ => ?_
  refine wp_flushed_will h₂ trivial fun s₃ hst _ h₃ => ?_
  obtain ⟨d₃, staged, sent⟩ := s₃
  obtain rfl : staged = [] := hst
  exact hQ d₃ sent h₃

end

/-- The rest of the charge is credited, under a refund key. -/
theorem wp_credit_repaid {amount : Int} {reason tag : String} {sent : List Ext} {Q : LedgerEntry → Session → Prop}
    (h : db.Repaid o d) (hrest : o.chargePaise ≤ d.refundedSoFar o + amount)
    (hQ : ∀ e d', db.Repaid o d' → (d'.findEntry (.refund o.publicId tag)).isSome → Q e { db := d', sent := sent }) :
    (credit (orderPosting o amount reason) (.some (.refund o.publicId tag))).wp Q (fun _ _ => True)
      { db := d, sent := sent } := by
  rw [credit, Key.orElse_of_orderRef rfl]
  have hflushed : Txn.flushAll ([] : List Stmt) d = .some d := rfl
  refine wp_post hflushed (fun _ => trivial) (fun _ _ => trivial) (fun e _ he => hQ e d h (by rw [he]; rfl)) fun e he => ?_
  have hamount : (d.posted e).refundedSoFar o = d.refundedSoFar o + amount := by
    obtain ⟨_, _, _, dr, _, hdr, rfl, _⟩ := he
    cases hdr
    rw [Db.refundedSoFar_posted, if_pos ⟨rfl, rfl, rfl, rfl⟩]
    rfl
  have hkey : e.idempotencyKey = .refund o.publicId tag := he.entry_eq.2
  refine hQ e _ (fun p t hused => ?_) ?_
  · rcases Db.uses_posted.mp hused with hused | hp
    · refine (h p t hused).imp_right fun hwhole => ⟨hwhole.1, ?_⟩
      have hpos : 0 < amount := he.pos
      omega
    · rw [hkey] at hp
      cases hp
      exact .inr ⟨rfl, hamount ▸ hrest⟩
  · rw [Db.findEntry_posted, hkey, if_pos rfl]
    cases d.findEntry (.refund o.publicId tag) <;> rfl

theorem wp_refundIfNeeded_repaid {mapped : OrderStatus} {sent : List Ext} {Q : Order → Session → Prop}
    (h : db.Repaid o d) (hQ : ∀ a s', (s'.Will fun s' => db.Repaid o s'.db) → Q a s') :
    (refundIfNeeded now o mapped).wp Q (fun _ _ => True) { db := d, sent := sent } := by
  have hskip : Q o { db := d, sent := sent } := hQ o _ (.of rfl h)
  simp only [refundIfNeeded, wp_bind, wp_query]
  split
  · exact hskip
  simp only [wp_bind, wp_query]
  split
  · exact hskip
  split
  · exact hskip
  simp only [wp_bind, refundedSoFar, wp_query]
  split
  · exact hskip
  simp only [wp_bind, creditBack]
  refine wp_credit_repaid h (by omega) fun e d₁ h₁ hmade => ?_
  -- the record is of the refund there is an entry of
  refine wp_write_will (J := (·.db = d₁)) (K := fun s' => db.Repaid o s'.db) (.of rfl rfl) ?_ fun s₂ _ h₂ => ?_
  · rintro s' rfl _ p t hused
    rcases Db.uses_record.mp hused with hused | hp
    · exact h₁ p t hused
    · obtain ⟨rfl, rfl⟩ := Key.refund.injEq .. ▸ hp
      exact h₁ _ _ (.inl hmade)
  · split
    · exact wp_recordEvent_money Db.Repaid.ofMoney h₂ fun d₃ sent₃ h₃ => hQ _ _ (.of rfl h₃)
    · exact hQ _ _ h₂

/-- A program that makes no refund, from tables without a new one. -/
theorem wp_refundsNothing {α : Type} {p : M α} {sent : List Ext} (hw : p.Writes Stmt.RefundsNothing)
    (hd : ∀ p t, d.Uses (.refund p t) → db.Uses (.refund p t)) :
    p.wp (fun _ s' => s'.Will fun s' => db.Repaid o s'.db) (fun _ _ => True) { db := d, sent := sent } := by
  have hkeeps : ∀ w : Stmt, w.RefundsNothing →
      w.Keeps fun d => ∀ p t, d.Uses (.refund p t) → db.Uses (.refund p t) :=
    fun w hw d hd p t hused => hd p t (hw d p t hused)
  have hwp := hw.wp (s := { db := d, sent := sent }) hkeeps ⟨hd, by simp⟩
  exact wp_mono hwp (fun _ s' h' d' hf => .of_old (h'.will hkeeps hf)) fun _ _ _ => trivial

/-- What a change of status brings with it pays back the rest of the charge, or makes no refund. -/
theorem wp_applyStatus_repaid {mapped : OrderStatus} {remains : Option Int} {Q : Order → Session → Prop}
    (h : s.Will fun s' => ∀ p t, s'.db.Uses (.refund p t) → db.Uses (.refund p t))
    (hQ : ∀ a s', (s'.Will fun s' => db.Repaid o s'.db) → Q a s') :
    (applyStatus now o mapped remains).wp Q (fun _ _ => True) s := by
  simp only [applyStatus, wp_bind]
  refine wp_recordEvent_money ofMoney_old h fun d sent hd => ?_
  have hnothing {p : M Order} (hw : p.Writes Stmt.RefundsNothing) : p.wp Q (fun _ _ => True) { db := d, sent := sent } :=
    wp_mono (wp_refundsNothing hw hd) (fun a s' => hQ a s') fun _ _ h => h
  split
  · exact hnothing (.bind (refundRest_writes .refundsNothing) fun _ => .pure _)
  split
  · exact wp_refundIfNeeded_repaid (o := { o with status := mapped, updatedAt := now }) (.of_old hd) hQ
  split
  · exact hnothing (.bind (creditOrderCommission_writes .refundsNothing Stmt.refundsNothing_reford) fun _ => .pure _)
  · exact hnothing (.pure _)

theorem wp_syncOrder_repaid {answer : Except ProviderError ProviderStatus} :
    (syncOrder now o answer).wp (fun _ s' => s'.Will fun s' => db.Repaid o s'.db) (fun _ _ => True) { db := db } := by
  have hstart : ∀ p t, db.Uses (.refund p t) → db.Uses (.refund p t) := fun _ _ h => h
  have hrepaid : Txn.Session.Will (fun s' => db.Repaid o s'.db) ({ db := db } : Session) := .of rfl (.of_old hstart)
  simp only [syncOrder]
  split
  · exact hrepaid
  simp only [wp_bind]
  refine wp_adapterFor trivial fun _ => ?_
  simp only [wp_call]
  cases answer with
  | error e => exact wp_setOrder_money Db.Repaid.ofMoney hrepaid fun _ h => h
  | ok status =>
    simp only [applyReport_eq, wp_bind]
    refine wp_setOrderIf_money ofMoney_old (.of rfl hstart) fun o₁ s₁ ho₁ h₁ => ?_
    refine wp_setOrderIf_money ofMoney_old h₁ fun o₂ s₂ ho₂ h₂ => ?_
    -- only the numbers of the report have been set
    have hsame (d : Db) (h : db.Repaid o₂ d) : db.Repaid o d := by
      rcases ho₁ with rfl | rfl <;> rcases ho₂ with rfl | rfl <;> exact h
    refine wp_mono (Q := fun _ s' => s'.Will fun s' => db.Repaid o s'.db) ?_ (fun o₃ s₃ h₃ => ?_) fun _ _ h => h
    · unfold applyStatusIf
      split
      · exact wp_applyStatus_repaid h₂ fun _ s' h' => h'.mono fun _ => hsame _
      · have hrepaid : s₂.Will fun s' => db.Repaid o s'.db := h₂.mono fun _ => .of_old
        exact hrepaid
    · refine wp_setOrderIf_money Db.Repaid.ofMoney h₃ fun o₄ s₄ _ h₄ => ?_
      exact wp_setOrder_money Db.Repaid.ofMoney h₄ fun _ h => h

/-- A cancellation pays back the rest of the charge, or makes no refund. -/
theorem wp_cancelMoney_repaid {sent : List Ext} :
    (cancelMoney o).wp (fun _ s' => s'.Will fun s' => db.Repaid o s'.db) (fun _ _ => True) { db := db, sent := sent } := by
  have hstart : ∀ p t, db.Uses (.refund p t) → db.Uses (.refund p t) := fun _ _ h => h
  have hrepaid : Txn.Session.Will (fun s' => db.Repaid o s'.db) ({ db := db, sent := sent } : Session) :=
    .of rfl (.of_old hstart)
  simp only [cancelMoney, wp_bind, wp_query]
  split
  · exact hrepaid
  split
  · exact hrepaid
  split
  · simp only [wp_bind]
    exact wp_refundsNothing (orderPosting_writes .refundsNothing rfl rfl) hstart
  · simp only [wp_bind, refundedSoFar, wp_query]
    split
    · exact hrepaid
    · simp only [wp_bind]
      refine wp_credit_repaid (.of_old hstart) (by omega) fun _ d₁ h₁ _ => ?_
      have hdone : Txn.Session.Will (fun s' => db.Repaid o s'.db) ({ db := d₁, sent := sent } : Session) := .of rfl h₁
      exact hdone

/-- What a call pays back of a charge is all of the rest. -/
theorem OrderCall.wp_repaid (c : OrderCall) (hc : c.PaysBack) : c.prog.wp (fun _ s =>
    s.Will fun s' => ∃ o ∈ db.orders, db.Repaid o s'.db) (fun _ _ => True) { db := db } := by
  cases c with
  | sync now publicId answer =>
    simp only [prog, syncOrderStatus, wp_bind]
    refine wp_loadOrder trivial fun o _ ho => ?_
    refine wp_mono wp_syncOrder_repaid (fun _ s h => ?_) fun _ _ h => h
    have hdone : s.Will fun s' => ∃ o ∈ db.orders, db.Repaid o s'.db := h.mono fun _ h' => ⟨o, ho, h'⟩
    exact hdone
  | cancel now publicId userId answer =>
    simp only [prog, requestCancel, wp_bind]
    refine wp_loadOrder trivial fun o _ ho => wp_loadUser trivial fun user _ => ?_
    simp only [wp_require]
    split
    case isFalse => trivial
    split
    case isFalse => trivial
    split
    case isFalse => trivial
    have hrest (sent : List Ext) : (cancelMoney o).wp (fun _ s => (recordEvent now o .canceled "user cancel").wp
        (fun _ s => s.Will fun s' => ∃ o ∈ db.orders, db.Repaid o s'.db) (fun _ _ => True) s) (fun _ _ => True)
        { db := db, sent := sent } :=
      wp_mono wp_cancelMoney_repaid (fun _ _ h => wp_recordEvent_money Db.Repaid.ofMoney h fun d' _ h' =>
        Txn.Session.Will.of rfl ⟨o, ho, h'⟩) fun _ _ h => h
    simp only [cancelAtProvider]
    split
    · simp only [wp_bind]
      refine wp_adapterFor trivial fun _ => ?_
      simp only [wp_call]
      cases answer with
      | error e => trivial
      | ok _ => exact hrest _
    · exact hrest []
  | _ => cases hc

theorem OrderCall.commit_repaid {c : OrderCall} {caught : Err → Bool} (hcaught : ∀ e, caught e = true → e.userFacing = true)
    (hb : OrderBooks False .none db) (hk : OrderKeys db) (p t : String)
    (h : (c.prog.commit caught db).Uses (.refund p t)) :
    db.Uses (.refund p t) ∨ ∃ o ∈ db.orders, o.publicId = p ∧ o.chargePaise ≤ (c.prog.commit caught db).refundedSoFar o := by
  by_cases hc : c.PaysBack
  case neg =>
    have hw := c.writes .refundsNothing (fun hpays => absurd hpays hc) fun _ => Stmt.refundsNothing_reford
    have hkeeps (w : Stmt) (hw : w.RefundsNothing) : w.Keeps fun d => ∀ p t, d.Uses (.refund p t) → db.Uses (.refund p t) :=
      fun d hd p t hused => hd p t (hw d p t hused)
    exact .inl (hw.commit hkeeps (fun _ _ h => h) caught p t h)
  let J (d : Db) : Prop := d = db ∨ ∃ o ∈ db.orders, db.Repaid o d
  have hJ : J (c.prog.commit caught db) := by
    refine commit_of_wp (.inl rfl) (wp_mono (wp_and (@wp_prog False _ _ hb hk fun h => h.elim) (c.wp_repaid hc))
      (fun _ s h => h.2.commit (.inl rfl) fun _ => .inr) fun e s h hce => ?_)
    obtain ⟨hdb, hst⟩ := h.1.1 (hcaught e hce)
    rw [hdb, hst]
    exact .inl rfl
  rcases hJ with hsame | ⟨o, ho, hrepaid⟩
  · exact .inl (hsame ▸ h)
  · exact (hrepaid p t h).imp_right fun ⟨hp, hle⟩ => ⟨o, ho, hp.symm, hle⟩

end

theorem WalletCall.Foreign.orderRef {c : WalletCall} (h : c.Foreign) : c.key.orderRef = .none := by
  cases c with
  | credit => exact h.2
  | debit => exact h.2
  | _ => cases h

/-- In every state of every run, what has been refunded is the whole. -/
theorem OrderRun.refundsWhole {ok : Db → OrderCall → Prop} {db₀ db : Db} (h₀ : Opening db₀) (h : OrderRun ok db₀ db) :
    db.RefundsWhole := by
  have hsound {db : Db} (h : OrderRun ok db₀ db) : OrderBooks False .none db ∧ OrderKeys db :=
    h.sound h₀ fun hf => hf.elim
  induction h with
  | start =>
    intro p t hused
    simp [Db.Uses, Db.findEntry, h₀.ledger, h₀.records] at hused
  | call c hrun hcaught hc ih =>
    obtain ⟨hb, hk⟩ := hsound hrun
    obtain ⟨es, hes⟩ := c.commit_appends _ _
    obtain ⟨hb', he⟩ := OrderCall.commit_ends (c := c) hcaught hb hk fun hf => hf.elim
    exact ih.later hb' hes he.later fun p t hused => c.commit_repaid hcaught hb hk p t hused
  | @wallet db c hrun hc ih =>
    have hb' := (hsound (.wallet c hrun hc)).1
    obtain ⟨r, he⟩ := c.commit_effect db
    generalize c.prog.commit (fun _ => false) db = db' at he hb'
    cases he with
    | raised => exact ih
    | replayed => exact ih
    | @posted e hp =>
      refine ih.later hb' rfl (fun o ho => ⟨o, ho, .refl o⟩) fun p t hused => .inl ?_
      refine (Db.uses_posted.mp hused).resolve_right fun hkey => ?_
      have hnone := hc.orderRef
      rw [← hp.entry_eq.2, hkey] at hnone
      cases hnone
  | tables hrun hs ih =>
    refine ih.later (hsound (.tables hrun hs)).1 (by rw [hs.ledger, List.append_nil])
      (fun o ho => ⟨o, hs.orders ▸ ho, .refl o⟩) fun p t hused => .inl ?_
    exact hused.congr hs.ledger (congrFun hs.records _)

/-! ## What a report pays back -/

section

variable {db₀ db : Db} {o : Order} {status : ProviderStatus}

theorem OrderBooks.refunded_after (hb : OrderBooks False .none db) (hkeyed : db.Keyed) (ho : o ∈ db.orders)
    (hgo : db.Follows o) (now : Time) (answer : Except ProviderError ProviderStatus) :
    ((OrderCall.sync now o.publicId answer).prog.commit (fun _ => false) db).refundedSoFar o =
      db.refundedSoFar o + db.credited (db.answered o answer) := by
  have hfind := Db.findOrder_of_mem hb.ids ho
  let P (d : Db) : Prop := d.refundedSoFar o = db.refundedSoFar o + db.credited (db.answered o answer)
  have hprog : (OrderCall.sync now o.publicId answer).prog.wp (fun _ s => ∃ d, Lands d s ∧ P d) (fun _ _ => False)
      { db := db } := by
    simp only [OrderCall.prog, syncOrderStatus, loadOrder, wp_bind, wp_query, hfind, wp_pure']
    refine wp_syncOrder_lands (.settled db []) hfind ⟨hkeyed, hb.covered⟩ hgo fun d s hl h => ⟨d, hl, ?_⟩
    obtain ⟨hid, huser⟩ := db.synced_id now o answer
    have hsum (d : Db) : d.refundedSoFar (db.synced now o answer) = d.refundedSoFar o := by
      simp only [Db.refundedSoFar, Db.refunds, hid, huser]
    have hpaid := h.refunded
    rwa [hsum, hsum] at hpaid
  unfold Txn.Prog.commit
  split
  · next a s hr =>
    obtain ⟨d, hl, hd⟩ := wp_ok hprog hr
    rw [hl.flush]
    exact hd
  · next e s hr => exact (wp_error hprog hr).elim

/-- What is due is paid once under its key. -/
theorem Db.credited_pays (howner : (db.users o.userId).isSome) (key : Key) (amount : Int) :
    (db.Uses key → db.credited (db.pays o key amount) = 0) ∧
      (¬ db.Uses key → db.credited (db.pays o key amount) = max 0 amount) := by
  have hsome : (db.users o.userId).isNone = false := by simpa [Option.isSome_iff_ne_none] using howner
  unfold Db.pays
  constructor
  · intro hused
    split
    · rfl
    next hdue =>
    simp only [Bool.or_eq_true, not_or, Bool.not_eq_true, Option.isSome_eq_false_iff] at hdue
    have hentry : (db.findEntry key).isSome := hused.resolve_right (by simp [Option.isNone_iff_eq_none.mp hdue.1.1])
    exact if_neg (by simpa [Option.isSome_iff_ne_none] using hentry)
  · intro hfresh
    simp only [Db.Uses, not_or, Bool.not_eq_true, Option.isSome_eq_false_iff] at hfresh
    by_cases hpos : amount ≤ 0
    · rw [if_pos (by simp [hpos]), max_eq_left hpos]
      rfl
    · rw [if_neg (by simp [Option.isNone_iff_eq_none.mp hfresh.2, hsome, hpos]), Db.credited, if_pos hfresh.1]
      exact (max_eq_right (by omega)).symm

/-- What the customer is due where `remains` of the quantity was not delivered. -/
def Order.due (o : Order) (remains : Int) : Int :=
  min o.chargePaise (roundHalfEven (o.chargePaise * min 1 (remains / o.quantity : Rat)))

/-- A credit of an order is under its partial key or under a refund key. -/
theorem OrderBooks.credit_key (hb : OrderBooks False .none db) {e : LedgerEntry} (he : e ∈ db.ledger)
    (href : e.orderRef = .some o.publicId) (htype : e.entryType = .credit) :
    db.Uses (.partialRefund o.publicId) ∨ ∃ t, db.Uses (.refund o.publicId t) := by
  obtain ⟨hkey, hktype⟩ := hb.keys e he
  have hused : db.Uses e.idempotencyKey := by
    refine .inl (List.find?_isSome.mpr ⟨e, he, ?_⟩)
    exact beq_self_eq_true _
  rw [href] at hkey hktype
  have hcredit : e.idempotencyKey.entryType = .credit := (hktype rfl).symm.trans htype
  generalize e.idempotencyKey = key at hkey hcredit hused
  cases key with
  | partialRefund p =>
    cases hkey
    exact .inl hused
  | refund p t =>
    cases hkey
    exact .inr ⟨t, hused⟩
  | reserve | capture | release => cases hcredit
  | _ => cases hkey

/-- Before any partial refund, none or all of the charge has been credited. -/
theorem OrderRun.none_or_all (h₀ : Opening db₀) (h : OrderRun (fun _ _ => True) db₀ db) (ho : o ∈ db.orders)
    (hfresh : ¬ db.Uses (.partialRefund o.publicId)) :
    db.refundedSoFar o = 0 ∨ db.refundedSoFar o = o.chargePaise := by
  have hb : OrderBooks False .none db := (h.sound h₀ fun hf => hf.elim).1
  by_cases hany : ∃ t, db.Uses (.refund o.publicId t)
  · obtain ⟨t, ht⟩ := hany
    obtain ⟨o', ho', hp, hle⟩ := h.refundsWhole h₀ _ _ ht
    obtain rfl := List.inj_on_of_nodup_map hb.ids ho' ho hp
    exact .inr (le_antisymm (hb.refundedSoFar_bounds ho).2 hle)
  · refine .inl ?_
    have hnone : db.refunds o = [] := by
      simp only [Db.refunds, List.filter_eq_nil_iff, Bool.and_eq_true, beq_iff_eq]
      rintro e he ⟨⟨⟨htype, hid⟩, hcredit⟩, _⟩
      exact (hb.credit_key he (LedgerEntry.orderRef_iff.mpr ⟨htype, hid⟩) hcredit).elim hfresh hany
    rw [Db.refundedSoFar, hnone]
    rfl

end

/-! ## Orders at the panel -/

theorem shop_keyed : shop.Keyed := by
  intro u user hu
  simp only [shop] at hu
  split at hu <;> cases hu
  rfl

theorem afterCalls_keyed {db : Db} (h : db.Keyed) (calls : List OrderCall) : (afterCalls db calls).Keyed := by
  induction calls generalizing db with
  | nil => exact h
  | cons c calls ih => exact ih (h.sameHouse (c.sameHouse _ _))

/-- An order the provider has taken on, and what it has reported of it since. -/
def followedShop (reports : List ProviderStatus) : Db :=
  afterCalls shop (.place 0 "A" 7 (likesFor "a") (.taken "1") :: reports.map fun status => .sync 1 "A" (.ok status))

/-- The credits after one more report. -/
def creditedAfter (db : Db) (status : ProviderStatus) (o : Order) : Int :=
  ((OrderCall.sync 2 o.publicId (.ok status)).prog.commit (fun _ => false) db).refundedSoFar o

theorem followedShop_run (reports : List ProviderStatus) : OrderRun (fun _ _ => True) shop (followedShop reports) :=
  OrderRun.start.calls fun _ _ _ => trivial

theorem followedShop_keyed (reports : List ProviderStatus) : (followedShop reports).Keyed := afterCalls_keyed shop_keyed _

def partialReport (remains : Int) : ProviderStatus := ⟨.partial_, .none, .some remains, by decide⟩

end Falaron
