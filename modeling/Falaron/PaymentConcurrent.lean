/-
A payment that several transactions deal with at once.

Each loads the payment, asks the gateway, then settles or expires it. One that
goes by a copy loaded before may set a payment to expired or to review that
another transaction has credited since: `Overwrites` says when its copy and
its answer make it do so. Where no such transaction takes the row of a payment
that is paid by then, what has been credited stays paid.
-/
import Falaron.PaymentRun
import Falaron.Routine
import Falaron.Txn.Carry

namespace Falaron

open Txn.Prog hiding pure

/-! ## When a call overwrites a payment -/

/-- The answer makes a call that goes by this copy set the payment to expired or to review. -/
def Payment.isOverwritten (gateway source : String) (p : Payment) : Except String GatewayStatus → Bool
  | .error _ => false
  | .ok status =>
    match status.state with
    | .paid =>
      let r := status.report gateway source p
      !r.wrongGateway p && !r.wrongRef p && p.status ≠ .paid && r.mismatch p
    | .expired => p.status = .pending
    | .pending => false

/-- The call overwrites the payment, by the copy it has loaded from `d`. -/
def PaymentCall.overwrites (pid : String) (d : Db) : PaymentCall → Bool
  | .reconcile now pass =>
    (pass.rows now d).any fun p => p.publicId = pid && p.isOverwritten pass.gateway "reconcile" (pass.answers pid)
  | .check _ publicId userId _ gateway answer =>
    publicId = pid && (d.findPayment pid).any fun p =>
      p.userId = userId && p.isCheckable && p.isOverwritten (gateway.getD "razorpay") "user-check" answer
  | _ => false

/-- The three calls that transactions on one payment run. -/
def PaymentCall.Settles : PaymentCall → Prop
  | .webhook .. | .reconcile .. | .check .. => True
  | _ => False

def Db.rowsOf (db : Db) (pid : String) : List Payment := db.payments.filter (·.publicId == pid)

theorem Db.mem_rowsOf {db : Db} {pid : String} {p : Payment} :
    p ∈ db.rowsOf pid ↔ p ∈ db.payments ∧ p.publicId = pid := by
  simp [Db.rowsOf]

def Db.IsPaid (db : Db) (pid : String) : Prop := ∃ p ∈ db.rowsOf pid, p.status = .paid

/-- A call does not take the row of a paid payment that it overwrites. What it
has loaded, it has loaded with its first read. -/
def keepsPaid (pid : String) (c : PaymentCall) (seen : List Db) (r : Row) (db : Db) : Prop :=
  r = .payment pid → db.IsPaid pid → ∀ d ∈ seen.getLast?, c.overwrites pid d = false

instance (pid : String) (c : PaymentCall) (seen : List Db) (r : Row) (db : Db) : Decidable (keepsPaid pid c seen r db) :=
  inferInstanceAs (Decidable (r = .payment pid → (∃ p ∈ db.rowsOf pid, p.status = .paid) →
    ∀ d ∈ seen.getLast?, c.overwrites pid d = false))

/-! ## What statements do to one payment -/

namespace Stmt

variable (pid : String) (w : Stmt)

def KeepsRows : Prop := ∀ db, (w.apply db).rowsOf pid = db.rowsOf pid

def SetsPaid : Prop := ∀ db, ∀ p ∈ (w.apply db).rowsOf pid, p.status = .paid

def KeepsCredits : Prop := ∀ db, (w.apply db).depositCredits pid = db.depositCredits pid ∧
  (w.apply db).findEntry (.deposit pid) = db.findEntry (.deposit pid)

/-- The credit of the payment. -/
def Credits : Prop := ∃ e : LedgerEntry, w = Stmt.insertEntry e ∧ e.idempotencyKey = .deposit pid ∧
  e.entryType = .credit ∧ e.paymentRef = .some pid

/-- What every statement of the three calls does: nobody goes, and no row of the payment comes or goes. -/
structure Deals : Prop where
  users : ∀ db u, (db.users u).isSome = true → ((w.apply db).users u).isSome = true
  rows : ∀ db, ((w.apply db).rowsOf pid).map (·.userId) = (db.rowsOf pid).map (·.userId)
  locks : KeepsRows pid w ∨ Row.payment pid ∈ w.rows
  credits : KeepsCredits pid w ∨ Credits pid w

/-- A statement that leaves the payment as it is. -/
structure Aside : Prop extends Deals pid w where
  keeps : KeepsRows pid w
  quiet : KeepsCredits pid w

end Stmt

/-! ## What every commit keeps -/

/-- The payment has one row at most, with an owner, and is credited once at most, and only when it is paid. -/
structure SettledBook (pid : String) (db : Db) : Prop where
  row : (db.rowsOf pid).length ≤ 1
  owned : ∀ p ∈ db.rowsOf pid, (db.users p.userId).isSome = true
  once : (db.depositCredits pid).length ≤ 1
  key : db.findEntry (.deposit pid) = .none ↔ db.depositCredits pid = []
  paid : db.depositCredits pid ≠ [] → ∀ p ∈ db.rowsOf pid, p.status = .paid

structure SettledChange (pid : String) (a b : Db) : Prop where
  users : ∀ u, (a.users u).isSome = true → (b.users u).isSome = true
  rows : (b.rowsOf pid).map (·.userId) = (a.rowsOf pid).map (·.userId)
  credits : a.depositCredits pid <+: b.depositCredits pid

def settledSame (pid : String) (r : Row) (a b : Db) : Prop :=
  (r = .payment pid → b.rowsOf pid = a.rowsOf pid) ∧
    (r = .ledgerKey (.deposit pid) → b.depositCredits pid = a.depositCredits pid)

def settledRely (pid : String) : Txn.Rely Db Row where
  inv := SettledBook pid
  change := SettledChange pid
  same := settledSame pid
  change_refl _ := ⟨fun _ h => h, rfl, List.prefix_refl _⟩
  change_trans h h' := ⟨fun u hu => h'.users u (h.users u hu), h'.rows.trans h.rows, h.credits.trans h'.credits⟩
  same_refl _ _ := ⟨fun _ => rfl, fun _ => rfl⟩
  same_trans h h' := ⟨fun hr => (h'.1 hr).trans (h.1 hr), fun hr => (h'.2 hr).trans (h.2 hr)⟩

/-! ## What a transaction has done to the payment -/

section

variable {pid : String} {c : PaymentCall} {t : Local} {db : Db} {w : Stmt} {ws : List Stmt}

theorem view_rows (h : ∀ w ∈ ws, Stmt.KeepsRows pid w) (db : Db) : (Txn.view ws db).rowsOf pid = db.rowsOf pid :=
  Txn.view_keeps (I := fun d => d.rowsOf pid = db.rowsOf pid) (fun w hw d hd => (h w hw d).trans hd) rfl

theorem view_credits (h : ∀ w ∈ ws, Stmt.KeepsCredits pid w) (db : Db) :
    (Txn.view ws db).depositCredits pid = db.depositCredits pid ∧
      (Txn.view ws db).findEntry (.deposit pid) = db.findEntry (.deposit pid) :=
  Txn.view_keeps (I := fun d => d.depositCredits pid = db.depositCredits pid ∧
    d.findEntry (.deposit pid) = db.findEntry (.deposit pid))
    (fun w hw d hd => ⟨((h w hw d).1).trans hd.1, ((h w hw d).2).trans hd.2⟩) ⟨rfl, rfl⟩

theorem view_paid (h : ∀ w ∈ ws, Stmt.KeepsRows pid w ∨ Stmt.SetsPaid pid w) (hpaid : ∃ w ∈ ws, Stmt.SetsPaid pid w)
    (db : Db) : ∀ p ∈ (Txn.view ws db).rowsOf pid, p.status = .paid := by
  induction ws using List.reverseRecOn with
  | nil => obtain ⟨w, hw, _⟩ := hpaid; cases hw
  | append_singleton ws w ih =>
    rw [Txn.view_append]
    by_cases hsets : Stmt.SetsPaid pid w
    · exact hsets _
    · rw [(h w (by simp)).resolve_right hsets]
      refine ih (fun w' hw' => h w' (List.mem_append_left _ hw')) ?_
      obtain ⟨w', hw', hsets'⟩ := hpaid
      refine ⟨w', (List.mem_append.mp hw').resolve_right fun he => ?_, hsets'⟩
      exact hsets (List.mem_singleton.mp he ▸ hsets')

/-- The payment as a transaction has it: whatever it has written to its row
or for its credit, it holds the lock on. -/
structure AtPayment (pid : String) (t : Local) (db : Db) : Prop where
  inv : SettledBook pid db
  deals : ∀ w ∈ t.stmts, Stmt.Deals pid w
  rows : (∀ w ∈ t.pending, Stmt.KeepsRows pid w) ∨ t.locks (.payment pid)
  credits : (∀ w ∈ t.pending, Stmt.KeepsCredits pid w) ∨
    t.locks (.ledgerKey (.deposit pid)) ∧ db.depositCredits pid = [] ∧
      ∀ d, d.depositCredits pid = [] →
        ((t.view d).depositCredits pid).length = 1 ∧ (t.view d).findEntry (.deposit pid) ≠ .none

theorem credits_inserted {e : LedgerEntry} {d : Db} (hk : e.idempotencyKey = .deposit pid) (he : e.entryType = .credit)
    (hp : e.paymentRef = .some pid) (hd : d.depositCredits pid = []) :
    (((Stmt.insertEntry e).apply d).depositCredits pid).length = 1 ∧
      ((Stmt.insertEntry e).apply d).findEntry (.deposit pid) ≠ .none := by
  have hcredits : ((Stmt.insertEntry e).apply d).depositCredits pid = d.depositCredits pid ++ [e] := by
    rw [Db.depositCredits_append rfl]
    simp [he, hp]
  refine ⟨by rw [hcredits, hd]; rfl, ?_⟩
  simp [Db.findEntry, Stmt.insertEntry, hk]

theorem AtPayment.wrote (h : AtPayment pid t db) (hw : Stmt.Deals pid w) (ha : w.admits (t.view db) = true) :
    AtPayment pid (t.wrote w) db where
  inv := h.inv
  deals w' hw' := (Txn.Local.mem_stmts_wrote.mp hw').elim (h.deals w') fun he => he ▸ hw
  rows := by
    rcases h.rows, hw.locks with ⟨hrows | hlock, hkeeps | hrow⟩
    · refine .inl fun w' hw' => ?_
      rcases List.mem_append.mp hw' with hw' | hw'
      · exact hrows w' hw'
      · exact List.mem_singleton.mp hw' ▸ hkeeps
    · exact .inr (.inl hrow)
    · exact .inr (.inr hlock)
    · exact .inr (.inl hrow)
  credits := by
    rcases hw.credits with hkeeps | ⟨e, rfl, hk, he, hp⟩
    · rcases h.credits with hcredits | ⟨hlock, hnil, hone⟩
      · refine .inl fun w' hw' => ?_
        rcases List.mem_append.mp hw' with hw' | hw'
        · exact hcredits w' hw'
        · exact List.mem_singleton.mp hw' ▸ hkeeps
      · refine .inr ⟨.inr hlock, hnil, fun d hd => ?_⟩
        rw [Txn.Local.view_wrote, (hkeeps _).1, (hkeeps _).2]
        exact hone d hd
    · -- the key is free, so the payment is not credited: neither here nor in what is committed
      have hfree : (t.view db).findEntry (.deposit pid) = .none := by
        have := Option.isNone_iff_eq_none.mp ha
        rwa [hk] at this
      rcases h.credits with hcredits | ⟨_, hnil, hone⟩
      · refine .inr ⟨.inl ?_, h.inv.key.mp ((view_credits hcredits db).2 ▸ hfree), fun d hd => ?_⟩
        · simp [Stmt.insertEntry, hk]
        · rw [Txn.Local.view_wrote]
          exact credits_inserted hk he hp ((view_credits hcredits d).1.trans hd)
      · exact absurd hfree (hone db hnil).2

theorem atPayment_carried (pid : String) (guard : List Db → Row → Db → Prop) :
    Txn.Carried (settledRely pid) guard (Stmt.Deals pid) (AtPayment pid) where
  inv h := h.inv
  interf hi h := ⟨hi.inv, h.deals, h.rows, h.credits.imp_right fun hc =>
    ⟨hc.1, ((hi.same _ hc.1).2 rfl).trans hc.2.1, hc.2.2⟩⟩
  seen _ h := ⟨h.inv, h.deals, h.rows, h.credits⟩
  lock _ _ h := ⟨h.inv, h.deals, h.rows.imp_right .inr, h.credits.imp_right fun hc => ⟨.inr hc.1, hc.2⟩⟩
  stage hw h := ⟨h.inv, fun w' hw' => (Txn.Local.mem_stmts_stage.mp hw').elim (h.deals w') fun he => he ▸ hw,
    h.rows, h.credits⟩
  flush {t db w ws} hst _ ha h := by
    have hstmts : ∀ w', w' ∈ t.pending ++ ws ∨ w' = w → w' ∈ t.stmts := by
      intro w' hw'
      simp only [Txn.Local.stmts, hst, List.mem_append, List.mem_cons] at hw' ⊢
      rcases hw' with (hw' | hw') | rfl <;> simp_all
    have hless : AtPayment pid { t with staged := ws } db :=
      ⟨h.inv, fun w' hw' => h.deals w' (hstmts w' (.inl hw')), h.rows, h.credits⟩
    exact hless.wrote (h.deals w (hstmts w (.inr rfl))) ha
  insert hw _ h := ⟨fun ha => h.wrote hw ha,
    ⟨h.inv, h.deals, h.rows.imp_right .inr, h.credits.imp_right fun hc => ⟨.inr hc.1, hc.2⟩⟩⟩

theorem AtPayment.view (h : AtPayment pid t db) (hst : t.staged = []) : SettledChange pid db (t.view db) where
  users u hu := by
    refine Txn.view_keeps (I := fun d : Db => (d.users u).isSome = true) (fun w hw d hd => ?_) hu
    exact (h.deals w (by rwa [Txn.Local.stmts_of_nil hst])).users d u hd
  rows := by
    refine Txn.view_keeps (I := fun d : Db => (d.rowsOf pid).map (·.userId) = (db.rowsOf pid).map (·.userId))
      (fun w hw d hd => ?_) rfl
    exact ((h.deals w (by rwa [Txn.Local.stmts_of_nil hst])).rows d).trans hd
  credits := by
    rcases h.credits with hkeeps | ⟨_, hnil, _⟩
    · rw [(view_credits hkeeps db).1]
    · rw [hnil]
      exact List.nil_prefix

/-- What a transaction commits, when the payment is paid if it is credited then. -/
theorem AtPayment.commits (h : AtPayment pid t db) (hst : t.staged = [])
    (hpaid : (t.view db).depositCredits pid ≠ [] → ∀ p ∈ (t.view db).rowsOf pid, p.status = .paid) :
    Txn.commits (settledRely pid) t db := by
  have hview := h.view hst
  refine ⟨⟨?_, fun p hp => ?_, ?_, ?_, hpaid⟩, hview, fun r hr => ⟨fun he => ?_, fun he => ?_⟩⟩
  · have hlen := congrArg List.length hview.rows
    simp only [List.length_map] at hlen
    rw [hlen]
    exact h.inv.row
  · have hmem : p.userId ∈ ((t.view db).rowsOf pid).map (·.userId) := List.mem_map_of_mem hp
    rw [hview.rows] at hmem
    obtain ⟨q, hq, hu⟩ := List.mem_map.mp hmem
    rw [← hu]
    exact hview.users _ (h.inv.owned q hq)
  · rcases h.credits with hkeeps | ⟨_, hnil, hone⟩
    · rw [(view_credits hkeeps db).1]
      exact h.inv.once
    · exact Nat.le_of_eq (hone db hnil).1
  · rcases h.credits with hkeeps | ⟨_, hnil, hone⟩
    · rw [(view_credits hkeeps db).1, (view_credits hkeeps db).2]
      exact h.inv.key
    · obtain ⟨hlen, hkey⟩ := hone db hnil
      refine ⟨fun hn => absurd hn hkey, fun hn => ?_⟩
      rw [hn] at hlen
      cases hlen
  · exact view_rows (h.rows.resolve_right fun hlock => hr (he ▸ hlock)) db
  · exact (view_credits (h.credits.resolve_right fun hc => hr (he ▸ hc.1)) db).1

/-! ## The phases of a transaction -/

/-- It leaves the payment as it is. -/
def Aloof (pid : String) (t : Local) (db : Db) : Prop :=
  AtPayment pid t db ∧ ∀ w ∈ t.stmts, Stmt.KeepsRows pid w ∧ Stmt.KeepsCredits pid w

/-- It may have credited the payment, and has not set its row. -/
def Crediting (pid : String) (t : Local) (db : Db) : Prop := AtPayment pid t db ∧ ∀ w ∈ t.stmts, Stmt.KeepsRows pid w

/-- It sets the payment to paid. -/
def SettingPaid (pid : String) (t : Local) (db : Db) : Prop :=
  (AtPayment pid t db ∧ ∀ w ∈ t.stmts, Stmt.KeepsRows pid w ∨ Stmt.SetsPaid pid w) ∧
    ∃ w ∈ t.stmts, Stmt.SetsPaid pid w

/-- It does not credit the payment. What it sets its row to, it writes to a
row that is not paid: it holds the lock on it, or will see when it takes it. -/
structure Setting (pid : String) (c : PaymentCall) (t : Local) (db : Db) : Prop where
  payment : AtPayment pid t db
  quiet : ∀ w ∈ t.stmts, Stmt.KeepsCredits pid w
  unpaid : t.locks (.payment pid) ∧ ¬ db.IsPaid pid ∨
    (∀ w ∈ t.pending, Stmt.KeepsRows pid w) ∧
      ((∀ w ∈ t.staged, Stmt.KeepsRows pid w) ∨ ∃ d, t.seen.getLast? = .some d ∧ c.overwrites pid d = true)

theorem Aloof.setting (h : Aloof pid t db) : Setting pid c t db :=
  ⟨h.1, fun w hw => (h.2 w hw).2, .inr ⟨fun w hw => (h.2 w (List.mem_append_left _ hw)).1,
    .inl fun w hw => (h.2 w (List.mem_append_right _ hw)).1⟩⟩

theorem Db.IsPaid.congr {a b : Db} (h : b.rowsOf pid = a.rowsOf pid) : b.IsPaid pid ↔ a.IsPaid pid := by
  simp only [IsPaid, h]

theorem setting_carried (pid : String) (c : PaymentCall) :
    Txn.Carried (settledRely pid) (keepsPaid pid c) (Stmt.Aside pid) (Setting pid c) where
  inv h := h.payment.inv
  interf hi h := by
    have hpay := (atPayment_carried pid (keepsPaid pid c)).interf hi h.payment
    exact ⟨hpay, h.quiet, h.unpaid.imp_left fun hu => ⟨hu.1, by rw [Db.IsPaid.congr ((hi.same _ hu.1).1 rfl)]; exact hu.2⟩⟩
  seen d h := by
    refine ⟨(atPayment_carried pid (keepsPaid pid c)).seen d h.payment, h.quiet, h.unpaid.imp_right fun hu => ?_⟩
    refine ⟨hu.1, hu.2.imp_right fun ⟨d', hlast, ho⟩ => ⟨d', ?_, ho⟩⟩
    simp [List.getLast?_cons, hlast]
  lock r hg h := ⟨(atPayment_carried pid (keepsPaid pid c)).lock r hg h.payment, h.quiet,
    h.unpaid.imp_left fun hu => ⟨.inr hu.1, hu.2⟩⟩
  stage {t db w} hw h := by
    refine ⟨(atPayment_carried pid (keepsPaid pid c)).stage hw.toDeals h.payment, fun w' hw' => ?_, ?_⟩
    · exact (Txn.Local.mem_stmts_stage.mp hw').elim (h.quiet w') fun he => he ▸ hw.quiet
    · refine h.unpaid.imp_right fun hu => ⟨hu.1, hu.2.imp_left fun hst w' hw' => ?_⟩
      exact (List.mem_append.mp hw').elim (hst w') fun he => List.mem_singleton.mp he ▸ hw.keeps
  flush {t db w ws} hst hg ha h := by
    have hpay := (atPayment_carried pid (keepsPaid pid c)).flush hst hg ha h.payment
    refine ⟨hpay, fun w' hw' => h.quiet w' (Txn.Local.stmts_flush hst ▸ hw'), ?_⟩
    rcases h.unpaid with ⟨hlock, hunpaid⟩ | ⟨hpending, hstaged⟩
    · exact .inl ⟨.inr hlock, hunpaid⟩
    by_cases hkeeps : Stmt.KeepsRows pid w
    · refine .inr ⟨fun w' hw' => ?_, hstaged.imp_left fun hs w' hw' => hs w' (hst ▸ List.mem_cons_of_mem _ hw')⟩
      exact (List.mem_append.mp hw').elim (hpending w') fun he => List.mem_singleton.mp he ▸ hkeeps
    · -- it takes the row now: the row is not paid
      have hmem : w ∈ t.stmts := List.mem_append_right _ (hst ▸ List.mem_cons_self)
      have hrow := (h.payment.deals w hmem).locks.resolve_left hkeeps
      obtain ⟨d, hlast, ho⟩ := hstaged.resolve_left fun hs => hkeeps (hs w (hst ▸ List.mem_cons_self))
      exact .inl ⟨.inl hrow, fun hp => Bool.eq_false_iff.mp (hg _ hrow rfl hp d hlast) ho⟩
  insert {t db w} hw hg h := by
    obtain ⟨hwrote, hlocked⟩ := (atPayment_carried pid (keepsPaid pid c)).insert hw.toDeals hg h.payment
    refine ⟨fun ha => ⟨hwrote ha, fun w' hw' => ?_, ?_⟩, hlocked, h.quiet, h.unpaid.imp_left fun hu => ⟨.inr hu.1, hu.2⟩⟩
    · exact (Txn.Local.mem_stmts_wrote.mp hw').elim (h.quiet w') fun he => he ▸ hw.quiet
    · refine h.unpaid.imp (fun hu => ⟨.inr hu.1, hu.2⟩) fun hu => ⟨fun w' hw' => ?_, hu.2⟩
      exact (List.mem_append.mp hw').elim (hu.1 w') fun he => List.mem_singleton.mp he ▸ hw.keeps

theorem aloof_carried (pid : String) (guard : List Db → Row → Db → Prop) :
    Txn.Carried (settledRely pid) guard (Stmt.Aside pid) (Aloof pid) :=
  ((atPayment_carried pid guard).all fun w => Stmt.KeepsRows pid w ∧ Stmt.KeepsCredits pid w).mono
    fun _ hw => ⟨hw.toDeals, hw.keeps, hw.quiet⟩

theorem crediting_carried (pid : String) (guard : List Db → Row → Db → Prop) :
    Txn.Carried (settledRely pid) guard (fun w => Stmt.Deals pid w ∧ Stmt.KeepsRows pid w) (Crediting pid) :=
  (atPayment_carried pid guard).all (Stmt.KeepsRows pid)

theorem settingPaid_carried (pid : String) (guard : List Db → Row → Db → Prop) :
    Txn.Carried (settledRely pid) guard (Stmt.Aside pid) (SettingPaid pid) :=
  (((atPayment_carried pid guard).all fun w => Stmt.KeepsRows pid w ∨ Stmt.SetsPaid pid w).any (Stmt.SetsPaid pid)).mono
    fun _ hw => ⟨hw.toDeals, .inl hw.keeps⟩

/-- What a transaction is about to commit. -/
def Dealt (pid : String) (c : PaymentCall) (t : Local) (db : Db) : Prop := SettingPaid pid t db ∨ Setting pid c t db

theorem dealt_carried (pid : String) (c : PaymentCall) :
    Txn.Carried (settledRely pid) (keepsPaid pid c) (Stmt.Aside pid) (Dealt pid c) :=
  (settingPaid_carried pid _).or (setting_carried pid c)

theorem Dealt.commits (h : Dealt pid c t db) (hst : t.staged = []) : Txn.commits (settledRely pid) t db := by
  rcases h with ⟨⟨hpay, hall⟩, hsets⟩ | h
  · rw [Txn.Local.stmts_of_nil hst] at hall hsets
    exact hpay.commits hst fun _ => view_paid hall hsets db
  · refine h.payment.commits hst fun hcredits p hp => ?_
    rw [(view_credits (fun w hw => h.quiet w (List.mem_append_left _ hw)) db).1] at hcredits
    rcases h.unpaid with ⟨_, hunpaid⟩ | ⟨hrows, _⟩
    · -- a credited payment that is not paid has no row
      have hmem : p.userId ∈ ((t.view db).rowsOf pid).map (·.userId) := List.mem_map_of_mem hp
      rw [(h.payment.view hst).rows] at hmem
      obtain ⟨q, hq, _⟩ := List.mem_map.mp hmem
      exact absurd ⟨q, hq, h.payment.inv.paid hcredits q hq⟩ hunpaid
    · rw [view_rows hrows] at hp
      exact h.payment.inv.paid hcredits p hp

end

/-! ## The statements of the calls -/

section

variable {pid : String} {w : Stmt}

theorem rowsOf_updatePayment {db : Db} {publicId : String} {g : Payment → Payment}
    (hg : ∀ q, (g q).publicId = q.publicId) :
    (db.updatePayment publicId g).rowsOf pid = if publicId = pid then (db.rowsOf pid).map g else db.rowsOf pid := by
  have hid : ((fun p : Payment => p.publicId == pid) ∘ fun p => if p.publicId = publicId then g p else p) =
      fun p => p.publicId == pid := by
    funext p
    simp only [Function.comp_apply]
    split
    · rw [hg]
    · rfl
  simp only [Db.rowsOf, Db.updatePayment, List.filter_map, hid]
  split
  · next h =>
    refine List.map_congr_left fun p hp => if_pos ?_
    simpa [h] using (List.mem_filter.mp hp).2
  · next h =>
    refine (List.map_congr_left fun p hp => if_neg ?_).trans (List.map_id' _)
    have hp' : p.publicId = pid := by simpa using (List.mem_filter.mp hp).2
    exact fun he => h (he.symm.trans hp')

/-- A statement on other tables, or on wallets. -/
theorem Stmt.Aside.of_tables (h : ∀ db, (w.apply db).payments = db.payments ∧ (w.apply db).ledger = db.ledger)
    (hu : ∀ db u, (db.users u).isSome = true → ((w.apply db).users u).isSome = true) : Stmt.Aside pid w := by
  have hrows : Stmt.KeepsRows pid w := fun db => by simp only [Db.rowsOf, (h db).1]
  have hcredits : Stmt.KeepsCredits pid w := fun db =>
    ⟨Db.depositCredits_congr (h db).2, by simp only [Db.findEntry, (h db).2]⟩
  exact ⟨⟨hu, fun db => by rw [hrows], .inl hrows, .inl hcredits⟩, hrows, hcredits⟩

theorem setWallet_aside (u balance reserved : Int) : Stmt.Aside pid (Stmt.setWallet u balance reserved) := by
  refine .of_tables (fun _ => ⟨rfl, rfl⟩) fun db v hv => ?_
  simp only [Stmt.setWallet, Db.setWallet]
  split
  · rw [Option.isSome_map]
    exact hv
  · exact hv

theorem insertAudit_aside (a : AuditLog) : Stmt.Aside pid (Stmt.insertAudit a) :=
  .of_tables (fun _ => ⟨rfl, rfl⟩) fun _ _ h => h

theorem insertPaymentEvent_aside (e : PaymentEvent) : Stmt.Aside pid (Stmt.insertPaymentEvent e) :=
  .of_tables (fun _ => ⟨rfl, rfl⟩) fun _ _ h => h

theorem updatePaymentEvent_aside {gateway eventId : String} {f : PaymentEvent → PaymentEvent} :
    Stmt.Aside pid (Stmt.updatePaymentEvent gateway eventId f) := .of_tables (fun _ => ⟨rfl, rfl⟩) fun _ _ h => h

/-- An entry of something else. -/
theorem insertEntry_aside {e : LedgerEntry} (hk : e.idempotencyKey ≠ .deposit pid) (hp : e.paymentRef ≠ .some pid) :
    Stmt.Aside pid (Stmt.insertEntry e) := by
  have hcredits : Stmt.KeepsCredits pid (Stmt.insertEntry e) := by
    refine fun db => ⟨?_, ?_⟩
    · rw [Db.depositCredits_append rfl]
      simp [hp]
    · simp [Db.findEntry, Stmt.insertEntry, hk]
  exact ⟨⟨fun _ _ h => h, fun _ => rfl, .inl fun _ => rfl, .inl hcredits⟩, fun _ => rfl, hcredits⟩

theorem updatePayment_aside {publicId : String} {g : Payment → Payment} (hg : ∀ q, (g q).publicId = q.publicId)
    (hne : publicId ≠ pid) : Stmt.Aside pid (Stmt.updatePayment publicId g) := by
  have hrows : Stmt.KeepsRows pid (Stmt.updatePayment publicId g) := fun db =>
    (rowsOf_updatePayment hg).trans (if_neg hne)
  exact ⟨⟨fun _ _ h => h, fun db => by rw [hrows], .inl hrows, .inl fun _ => ⟨rfl, rfl⟩⟩, hrows, fun _ => ⟨rfl, rfl⟩⟩

/-- A write to the row of a loaded payment. -/
theorem setRow_deals {p q : Payment} : Stmt.Deals p.publicId (Stmt.updatePayment p.publicId (p.flushed q)) where
  users _ _ h := h
  rows db := by
    show ((db.updatePayment p.publicId (p.flushed q)).rowsOf p.publicId).map (·.userId) = _
    rw [rowsOf_updatePayment (g := p.flushed q) fun _ => rfl, if_pos rfl, List.map_map]
    rfl
  locks := .inr (by simp [Stmt.updatePayment])
  credits := .inl fun _ => ⟨rfl, rfl⟩

theorem setRow_setsPaid {p q : Payment} (hn : p.status ≠ .paid) (hq : q.status = .paid) :
    Stmt.SetsPaid p.publicId (Stmt.updatePayment p.publicId (p.flushed q)) := by
  intro db row hrow
  simp only [Stmt.updatePayment] at hrow
  rw [rowsOf_updatePayment (g := p.flushed q) fun _ => rfl, if_pos rfl] at hrow
  obtain ⟨row', _, rfl⟩ := List.mem_map.mp hrow
  exact (if_neg fun he => hn (he.symm.trans hq)).trans hq

theorem commission_aside (e : LedgerEntry) (u : Int) (hk : e.idempotencyKey = .refdep u)
    (href : e.referenceType = .some "referral") : Stmt.Aside pid (Stmt.insertEntry e) :=
  insertEntry_aside (by simp [hk]) (by simp [LedgerEntry.paymentRef, href])

theorem settleStmts_aside {p : Payment} (hne : p.publicId ≠ pid) : SettleStmts (Stmt.Aside pid) p where
  wallet := setWallet_aside
  deposit d := insertEntry_aside (by simpa [Posting.entry] using hne)
    (by simpa [LedgerEntry.paymentRef, Posting.entry, Payment.deposit] using hne)
  commission := commission_aside
  row q := updatePayment_aside (fun _ => rfl) hne
  audit := insertAudit_aside

/-- The credit of the payment keeps its row. -/
theorem deposit_crediting {p : Payment} (hid : p.publicId = pid) :
    (credit p.deposit (.some (.deposit p.publicId))).Writes fun w => Stmt.Deals pid w ∧ Stmt.KeepsRows pid w := by
  subst hid
  refine post_writes (fun _ _ => ⟨(setWallet_aside ..).toDeals, (setWallet_aside ..).keeps⟩) fun d => ?_
  have href : (p.deposit.entry .credit (.deposit p.publicId) d).paymentRef = .some p.publicId := rfl
  exact ⟨⟨fun _ _ h => h, fun _ => rfl, .inl fun _ => rfl, .inr ⟨_, rfl, rfl, rfl, href⟩⟩, fun _ => rfl⟩

end

/-! ## The calls on the payment -/

section

variable {pid : String} {c : PaymentCall} {t : Local} {db : Db} {p : Payment} {r : Report} {now : Time} {w : Stmt}

theorem Crediting.setPaid (h : Crediting pid t db) (hw : Stmt.Deals pid w) (hsets : Stmt.SetsPaid pid w) :
    SettingPaid pid { t with staged := t.staged ++ [w] } db := by
  refine ⟨⟨(atPayment_carried pid fun _ _ _ => True).stage hw h.1, fun w' hw' => ?_⟩, w, ?_, hsets⟩
  · exact (Txn.Local.mem_stmts_stage.mp hw').elim (fun hm => .inl (h.2 w' hm)) fun he => .inr (he ▸ hsets)
  · exact Txn.Local.mem_stmts_stage.mpr (.inr rfl)

theorem Aloof.set (h : Aloof pid t db) (hw : Stmt.Deals pid w) (hquiet : Stmt.KeepsCredits pid w)
    (hunpaid : t.locks (.payment pid) ∧ ¬ db.IsPaid pid ∨ ∃ d, t.seen.getLast? = .some d ∧ c.overwrites pid d = true) :
    Setting pid c { t with staged := t.staged ++ [w] } db := by
  refine ⟨(atPayment_carried pid fun _ _ _ => True).stage hw h.1, fun w' hw' => ?_, ?_⟩
  · exact (Txn.Local.mem_stmts_stage.mp hw').elim (fun hm => (h.2 w' hm).2) fun he => he ▸ hquiet
  · exact hunpaid.imp_right fun hd => ⟨fun w' hw' => (h.2 w' (List.mem_append_left _ hw')).1, .inr hd⟩

theorem safe_setPayment {guard : List Db → Row → Db → Prop} {J : Local → Db → Prop} {f : Payment → Payment}
    {Q : Payment → Local → Db → Prop} {E : Err → Local → Db → Prop} (hJ : Txn.Steady (settledRely pid) J)
    (h : J { t with staged := t.staged ++ [Stmt.updatePayment p.publicId (p.flushed (f p))] } db)
    (hQ : ∀ t' db', J t' db' → Q (f p) t' db') : (setPayment p f).safe (settledRely pid) guard Q E t db :=
  fun db' hi => hQ _ db' (hJ.interf hi h)

/-- Under the lock, a payment that is not paid stays so. -/
theorem not_isPaid_interf {a b : Db} (hi : (settledRely pid).Interf t.locks a b) (hlock : t.locks (.payment pid)) :
    b.IsPaid pid ↔ a.IsPaid pid := Db.IsPaid.congr ((hi.same _ hlock).1 rfl)

/-- A user who is there is in what the transaction sees. -/
theorem AtPayment.user (h : AtPayment pid t db) {a : Db} {u : Int} (hu : (a.users u).isSome = true) :
    ((t.view a).users u).isSome = true :=
  Txn.view_keeps (I := fun d : Db => (d.users u).isSome = true)
    (fun w hw d hd => (h.deals w (List.mem_append_left _ hw)).users d u hd) hu

variable {Q : Payment × SettleOutcome → Local → Db → Prop}

theorem safe_creditDeposit (h : Aloof pid t db) (hid : p.publicId = pid) (hn : p.status ≠ .paid)
    (hlock : t.locks (.payment pid)) (hu : ¬ db.IsPaid pid ∨ (db.users p.userId).isSome = true)
    (hQ : ∀ x t' db', Dealt pid c t' db' → Q x t' db') :
    (creditDeposit now p r).safe (settledRely pid) (keepsPaid pid c) Q (fun _ _ _ => True) t db := by
  subst hid
  have haloof := aloof_carried p.publicId (keepsPaid p.publicId c)
  have hdealt := dealt_carried p.publicId c
  refine haloof.bind h (Txn.Prog.safe_query fun db₁ db₂ h₁ h₂ => ?_)
  have hread : Aloof p.publicId { t with seen := db₁ :: t.seen } db₂ :=
    haloof.interf h₂ (haloof.seen db₁ (haloof.interf h₁ h))
  cases huser : (t.view db₁).users p.userId with
  | none =>
    -- somebody who owned it would still be there
    have hunpaid : ¬ db₂.IsPaid p.publicId := by
      rw [not_isPaid_interf (h₁.trans h₂) hlock]
      refine hu.resolve_right fun hsome => ?_
      have := h.1.user (h₁.change.users _ hsome)
      rw [huser] at this
      cases this
    refine haloof.bind hread (safe_setPayment (setting_carried p.publicId c).toSteady
      (hread.set setRow_deals (fun _ => ⟨rfl, rfl⟩) (.inl ⟨hlock, hunpaid⟩)) fun t' db' h' => ?_)
    exact hdealt.pure (.inr h') fun db'' h'' => hQ _ t' db'' h''
  | some user =>
    have hcrediting := crediting_carried p.publicId (keepsPaid p.publicId c)
    refine haloof.bind hread (hcrediting.safe (deposit_crediting rfl) ⟨hread.1, fun w hw => (hread.2 w hw).1⟩
      (fun e t₃ db₃ h₃ => ?_) fun _ _ _ _ => trivial)
    refine hcrediting.bind h₃ (safe_setPayment (settingPaid_carried p.publicId fun _ _ _ => True).toSteady
      (h₃.setPaid setRow_deals (setRow_setsPaid hn rfl)) fun t₄ db₄ h₄ => ?_)
    refine hdealt.bind (.inl h₄) (hdealt.safe (creditDepositCommission_writes setWallet_aside commission_aside _ _)
      (.inl h₄) (fun _ t₅ db₅ h₅ => ?_) fun _ _ _ _ => trivial)
    refine hdealt.bind h₅ (hdealt.safe (audit_writes insertAudit_aside _ _ _ _ _) h₅ (fun _ t₆ db₆ h₆ => ?_)
      fun _ _ _ _ => trivial)
    exact hdealt.pure h₆ fun db₇ h₇ => hQ _ t₆ db₇ h₇

theorem safe_settleLocked (h : Aloof pid t db) (hid : p.publicId = pid) (hlock : t.locks (.payment pid))
    (hu : p.status ≠ .paid → ¬ db.IsPaid pid ∨ (db.users p.userId).isSome = true ∧
      (!r.wrongGateway p && !r.wrongRef p && p.status ≠ .paid && r.mismatch p) = false)
    (hQ : ∀ x t' db', Dealt pid c t' db' → Q x t' db') :
    (settleLocked now p r).safe (settledRely pid) (keepsPaid pid c) Q (fun _ _ _ => True) t db := by
  have hdealt := dealt_carried pid c
  have hdone (x) : (.pure x : M (Payment × SettleOutcome)).safe (settledRely pid) (keepsPaid pid c) Q
      (fun _ _ _ => True) t db := hdealt.pure (.inr h.setting) fun db' h' => hQ _ t db' h'
  unfold settleLocked
  split
  · exact hdone _
  next hg =>
  split
  · exact hdone _
  next href =>
  split
  · exact hdone _
  next hn =>
  split
  · next hm =>
    subst hid
    have hunpaid : ¬ db.IsPaid p.publicId := by
      refine (hu hn).resolve_right fun ⟨_, hover⟩ => ?_
      simp [hg, href, hn, hm] at hover
    refine hdealt.bind (.inr h.setting) (safe_setPayment (setting_carried p.publicId c).toSteady
      (h.set setRow_deals (fun _ => ⟨rfl, rfl⟩) (.inl ⟨hlock, hunpaid⟩)) fun t₁ db₁ h₁ => ?_)
    refine hdealt.bind (.inr h₁) (hdealt.safe (audit_writes insertAudit_aside _ _ _ _ _) (.inr h₁) (fun _ t₂ db₂ h₂ => ?_)
      fun _ _ _ _ => trivial)
    exact hdealt.pure h₂ fun db₃ h₃ => hQ _ t₂ db₃ h₃
  · exact safe_creditDeposit h hid hn hlock ((hu hn).imp_right And.left) hQ

theorem eq_of_length_le_one {α : Type} {l : List α} (h : l.length ≤ 1) {a b : α} (ha : a ∈ l) (hb : b ∈ l) : a = b := by
  match l, h with
  | [], _ => cases ha
  | [_], _ => exact (List.mem_singleton.mp ha).trans (List.mem_singleton.mp hb).symm

/-- A row that is read and not paid is the only one. -/
theorem Aloof.not_isPaid (h : Aloof pid t db) {row : Payment} (hrow : (t.view db).findPayment pid = .some row)
    (hn : row.status ≠ .paid) : ¬ db.IsPaid pid := by
  rintro ⟨q, hq, hpaid⟩
  obtain ⟨hmem, hid⟩ := Db.findPayment_mem hrow
  have hview := view_rows (fun w hw => (h.2 w (List.mem_append_left _ hw)).1) db
  have hrow' : row ∈ (t.view db).rowsOf pid := Db.mem_rowsOf.mpr ⟨hmem, hid⟩
  rw [hview] at hrow'
  exact hn (eq_of_length_le_one h.1.inv.row hq hrow' ▸ hpaid)

variable {Q' : Option Payment × SettleOutcome → Local → Db → Prop}

/-- A report on a payment that the session has not loaded. -/
theorem safe_settleFresh (h : Aloof pid t db) (hr : r.publicId = pid)
    (hQ : ∀ x t' db', Dealt pid c t' db' → Q' x t' db') :
    (settlePayment now .none r).safe (settledRely pid) (keepsPaid pid c) Q' (fun _ _ _ => True) t db := by
  subst hr
  have haloof := aloof_carried r.publicId (keepsPaid r.publicId c)
  refine haloof.bind h (haloof.lockRow h fun db₁ db₂ _ h₁ hi h₂ => ?_)
  cases hrow : (t.view db₁).findPayment r.publicId with
  | none => exact (dealt_carried r.publicId c).pure (.inr h₂.setting) fun db₃ h₃ => hQ _ _ db₃ h₃
  | some row =>
    have hlock : (t.locked [.payment r.publicId]).locks (.payment r.publicId) := .inl (by simp)
    refine haloof.bind h₂ (safe_settleLocked h₂ (Db.findPayment_mem hrow).2 hlock (fun hn => .inl ?_)
      fun x t₃ db₃ h₃ => ?_)
    · rw [not_isPaid_interf hi hlock]
      exact h₁.not_isPaid hrow hn
    · exact (dealt_carried r.publicId c).pure h₃ fun db₄ h₄ => hQ _ t₃ db₄ h₄

/-- A report on a payment that the session goes by its copy of. -/
theorem safe_settleLoaded (h : Aloof pid t db) (hid : p.publicId = pid) (hr : r.publicId = pid)
    (howned : (db.users p.userId).isSome = true)
    (hover : (!r.wrongGateway p && !r.wrongRef p && p.status ≠ .paid && r.mismatch p) = true →
      ∃ d, t.seen.getLast? = .some d ∧ c.overwrites pid d = true)
    (hQ : ∀ x t' db', Dealt pid c t' db' → Q' x t' db') :
    (settlePayment now (.some p) r).safe (settledRely pid) (keepsPaid pid c) Q' (fun _ _ _ => True) t db := by
  subst hr
  have haloof := (aloof_carried r.publicId (keepsPaid r.publicId c)).and (K := fun _ a => (a.users p.userId).isSome = true)
    (fun hc hu => hc.users _ hu) fun _ hu => hu
  refine haloof.bind ⟨h, howned⟩ (haloof.lockRow ⟨h, howned⟩ fun db₁ db₂ hg h₁ hi h₂ => ?_)
  cases (t.view db₁).findPayment r.publicId with
  | none => exact (dealt_carried r.publicId c).pure (.inr h₂.1.setting) fun db₃ h₃ => hQ _ _ db₃ h₃
  | some row =>
    have hlock : (t.locked [.payment r.publicId]).locks (.payment r.publicId) := .inl (by simp)
    refine haloof.bind h₂ (safe_settleLocked h₂.1 hid hlock (fun _ => ?_) fun x t₃ db₃ h₃ => ?_)
    · rw [not_isPaid_interf hi hlock]
      by_cases hpaid : db₁.IsPaid r.publicId
      · refine .inr ⟨h₂.2, Bool.eq_false_iff.mpr fun ho => ?_⟩
        obtain ⟨d, hlast, hd⟩ := hover ho
        exact Bool.eq_false_iff.mp (hg rfl hpaid d hlast) hd
      · exact .inl hpaid
    · exact (dealt_carried r.publicId c).pure h₃ fun db₄ h₄ => hQ _ t₃ db₄ h₄

theorem safe_expireEvent (h : Aloof pid t db) {Q : WebhookOutcome → Local → Db → Prop}
    (hQ : ∀ x t' db', Dealt pid c t' db' → Q x t' db') :
    (expireEvent pid).safe (settledRely pid) (keepsPaid pid c) Q (fun _ _ _ => True) t db := by
  have haloof := aloof_carried pid (keepsPaid pid c)
  have hdealt := dealt_carried pid c
  refine haloof.bind h (haloof.lockRow h fun db₁ db₂ _ h₁ hi h₂ => ?_)
  cases hrow : (t.view db₁).findPayment pid with
  | none => exact hdealt.pure (.inr h₂.setting) fun db₃ h₃ => hQ _ _ db₃ h₃
  | some row =>
    simp only [Option.map_some, Option.getD_none]
    split
    · next hpend =>
      obtain ⟨_, rfl⟩ := Db.findPayment_mem hrow
      have hlock : (t.locked [.payment row.publicId]).locks (.payment row.publicId) := .inl (by simp)
      have hunpaid : ¬ db₂.IsPaid row.publicId := by
        rw [not_isPaid_interf hi hlock]
        exact h₁.not_isPaid hrow (by simp [hpend])
      refine haloof.bind h₂ (safe_setPayment (setting_carried row.publicId c).toSteady
        (h₂.set setRow_deals (fun _ => ⟨rfl, rfl⟩) (.inl ⟨hlock, hunpaid⟩)) fun t₃ db₃ h₃ => ?_)
      exact hdealt.pure (.inr h₃) fun db₄ h₄ => hQ _ t₃ db₄ h₄
    · exact hdealt.pure (.inr h₂.setting) fun db₃ h₃ => hQ _ _ db₃ h₃

theorem safe_askGateway {gateway source : String} {answer : Except String GatewayStatus} (h : Aloof pid t db)
    (hid : p.publicId = pid) (howned : (db.users p.userId).isSome = true)
    (hover : p.isOverwritten gateway source answer = true → ∃ d, t.seen.getLast? = .some d ∧ c.overwrites pid d = true)
    {Q : Option Payment × Option SettleOutcome → Local → Db → Prop}
    (hQ : ∀ x t' db', Dealt pid c t' db' → Q x t' db') :
    (askGateway now gateway source p answer).safe (settledRely pid) (keepsPaid pid c) Q (fun _ _ _ => True) t db := by
  subst hid
  have hdealt := dealt_carried p.publicId c
  have hdone (x) : (.pure x : M (Option Payment × Option SettleOutcome)).safe (settledRely p.publicId)
      (keepsPaid p.publicId c) Q (fun _ _ _ => True) t db := hdealt.pure (.inr h.setting) fun db' h' => hQ _ t db' h'
  show (applyAnswer now gateway source p answer).safe _ _ _ _ t db
  unfold applyAnswer
  split
  · exact hdone _
  next status =>
  split
  · next hstate =>
    refine hdealt.bind (.inr h.setting) (safe_settleLoaded h rfl rfl howned (fun ho => hover ?_) fun x t₁ db₁ h₁ => ?_)
    · simpa only [Payment.isOverwritten, hstate] using ho
    · exact hdealt.pure h₁ fun db₂ h₂ => hQ _ t₁ db₂ h₂
  · next hstate =>
    split
    · next hpend =>
      have hstale := hover (by simp [Payment.isOverwritten, hstate, hpend])
      refine hdealt.bind (.inr h.setting) (safe_setPayment (setting_carried p.publicId c).toSteady
        (h.set setRow_deals (fun _ => ⟨rfl, rfl⟩) (.inr hstale)) fun t₁ db₁ h₁ => ?_)
      exact hdealt.pure (.inr h₁) fun db₂ h₂ => hQ _ t₁ db₂ h₂
    · exact hdone _
  · exact hdone _

end

/-! ## The calls -/

section

variable {pid : String} {c : PaymentCall} {t : Local} {db : Db} {now : Time}

/-- A payment of another id is settled aside. -/
theorem safe_aside {α : Type} {m : M α} (hm : m.Writes (Stmt.Aside pid)) (h : Aloof pid t db)
    {Q : α → Local → Db → Prop} (hQ : ∀ x t' db', Dealt pid c t' db' → Q x t' db') :
    m.safe (settledRely pid) (keepsPaid pid c) Q (fun _ _ _ => True) t db :=
  (dealt_carried pid c).safe hm (.inr h.setting) hQ fun _ _ _ _ => trivial

theorem safe_applyEvent {gateway : String} {event : GatewayEvent} (h : Aloof pid t db)
    {Q : WebhookOutcome → Local → Db → Prop} (hQ : ∀ x t' db', Dealt pid c t' db' → Q x t' db') :
    (applyEvent now gateway event).safe (settledRely pid) (keepsPaid pid c) Q (fun _ _ _ => True) t db := by
  have hdealt := dealt_carried pid c
  unfold applyEvent
  dsimp only
  generalize hpub : event.reference.getD "" = publicId
  split
  · refine hdealt.bind (Q := Q) (.inr h.setting) ?_
    have hend (x : Option Payment × SettleOutcome) (t₁ db₁) (h₁ : Dealt pid c t₁ db₁) :
        (.pure x.2 : M WebhookOutcome).safe (settledRely pid) (keepsPaid pid c) Q (fun _ _ _ => True) t₁ db₁ :=
      hdealt.pure h₁ fun db₂ h₂ => hQ _ t₁ db₂ h₂
    by_cases hid : publicId = pid
    · exact safe_settleFresh h hid hend
    · refine safe_aside (settlePayment_writes (fun row hrow => settleStmts_aside ?_) now) h hend
      rw [Option.getD_none, hrow]
      exact hid
  split
  · by_cases hid : publicId = pid
    · subst hid
      exact safe_expireEvent h hQ
    · exact safe_aside (expireEvent_writes fun p q hp => updatePayment_aside (fun _ => rfl) (hp ▸ hid)) h hQ
  split
  · refine hdealt.bind (Q := Q) (.inr h.setting) (safe_aside (audit_writes insertAudit_aside _ _ _ _ _) h fun _ t₁ db₁ h₁ => ?_)
    exact hdealt.pure h₁ fun db₂ h₂ => hQ _ t₁ db₂ h₂
  · exact hdealt.pure (.inr h.setting) fun db₁ h₁ => hQ _ t db₁ h₁

theorem safe_handleWebhookEvent {gateway : String} {event : GatewayEvent} (h : Aloof pid t db) :
    (handleWebhookEvent now gateway event).safe (settledRely pid) (keepsPaid pid c) (fun _ => Dealt pid c)
      (fun _ _ _ => True) t db := by
  have hdealt := dealt_carried pid c
  have haloof := aloof_carried pid (keepsPaid pid c)
  refine haloof.bind h (haloof.safe (.savepoint (insertPaymentEvent_aside _)) h (fun new t₁ db₁ h₁ => ?_) fun _ _ _ _ => trivial)
  split
  · exact hdealt.pure (.inr h₁.setting) fun _ h' => h'
  · refine haloof.bind h₁ (safe_applyEvent h₁ fun outcome t₂ db₂ h₂ => ?_)
    refine hdealt.bind h₂ (hdealt.write updatePaymentEvent_aside h₂ fun t₃ db₃ h₃ => ?_)
    exact hdealt.pure h₃ fun _ h' => h'

/-- What a transaction has loaded with its first read: the tables `d`, in which the users of `rows` are there. -/
def LoadedFrom (d : Db) (rows : List Payment) (seen : List Db) (db : Db) : Prop :=
  seen.getLast? = .some d ∧ ∀ p ∈ rows, (db.users p.userId).isSome = true

theorem loaded_carried (pid : String) (d : Db) (rows : List Payment) (guard : List Db → Row → Db → Prop) :
    Txn.Carried (settledRely pid) guard (Stmt.Aside pid) fun t db => Aloof pid t db ∧ LoadedFrom d rows t.seen db := by
  refine (aloof_carried pid guard).and (K := LoadedFrom d rows) (fun hc h => ⟨h.1, fun p hp => hc.users _ (h.2 p hp)⟩)
    fun d' h => ⟨?_, h.2⟩
  simp [List.getLast?_cons, h.1]

theorem safe_gatewayOr {J : Local → Db → Prop} (hJ : Txn.Steady (settledRely pid) J) {gateway : Option String}
    {settings : Settings} {Q : Option String → Local → Db → Prop} (h : J t db) (hnone : ∀ db', J t db' → Q .none t db')
    (hsome : ∀ db', J t db' → Q (.some (gateway.getD "razorpay")) t db') :
    (gatewayOr gateway settings).safe (settledRely pid) (keepsPaid pid c) Q (fun _ _ _ => True) t db := by
  unfold gatewayOr
  cases gateway with
  | some name => exact hJ.pure h hsome
  | none =>
    simp only [getGateway]
    split
    · exact hJ.pure h hnone
    · exact hJ.bind h (hJ.require h (fun _ _ _ => trivial) fun db₁ h₁ => hJ.pure h₁ hsome)

theorem aloof_start (h : SettledBook pid db) : Aloof pid {} db :=
  ⟨⟨h, fun _ hw => (by cases hw), .inl fun _ hw => (by cases hw), .inl fun _ hw => (by cases hw)⟩, fun _ hw => (by cases hw)⟩

/-- A first read: what it is of, and what it sees of the payment. -/
theorem safe_firstRead {α β : Type} {q : Db → β} {f : β → M α} {Q : α → Local → Db → Prop} {l : β → List Payment}
    (h : SettledBook pid db) (hrows : ∀ d, ∀ p ∈ l (q d), p.publicId = pid → p ∈ d.payments)
    (hf : ∀ d t' db', SettledBook pid d → Aloof pid t' db' ∧ LoadedFrom d ((l (q d)).filter (·.publicId == pid)) t'.seen db' →
      (f (q d)).safe (settledRely pid) (keepsPaid pid c) Q (fun _ _ _ => True) t' db') :
    (.query q >>= f : M α).safe (settledRely pid) (keepsPaid pid c) Q (fun _ _ _ => True) {} db := by
  have haloof := aloof_carried pid (keepsPaid pid c)
  refine haloof.bind (aloof_start h) (Txn.Prog.safe_query fun d db₂ h₁ h₂ => ?_)
  refine hf d _ db₂ h₁.inv ⟨haloof.interf h₂ (haloof.seen d (haloof.interf h₁ (aloof_start h))), rfl, fun p hp => ?_⟩
  obtain ⟨hmem, hid⟩ := List.mem_filter.mp hp
  have hid : p.publicId = pid := by simpa using hid
  have hrow : p ∈ d.rowsOf pid := Db.mem_rowsOf.mpr ⟨hrows d p hmem hid, hid⟩
  exact h₂.change.users _ (h₁.inv.owned p hrow)

theorem safe_checkPayment {publicId : String} {userId : Int} {settings : Settings} {gateway : Option String}
    {answer : Except String GatewayStatus} (h : SettledBook pid db) :
    (checkPayment now publicId userId settings gateway answer).safe (settledRely pid)
      (keepsPaid pid (.check now publicId userId settings gateway answer))
      (fun _ => Dealt pid (.check now publicId userId settings gateway answer)) (fun _ _ _ => True) {} db := by
  refine safe_firstRead (l := fun p => p.toList) h (fun d p hp _ => ?_) fun d t₁ db₁ _ h₁ => ?_
  · exact (Db.findPayment_mem (Option.mem_toList.mp hp)).1
  cases hfind : (d.findPayment publicId).filter (·.userId = userId) with
  | none => exact (dealt_carried pid _).pure (.inr h₁.1.setting) fun _ h' => h'
  | some p =>
    obtain ⟨hrow, howner⟩ := Option.filter_eq_some_iff.mp hfind
    obtain rfl : p.userId = userId := by simpa using howner
    obtain ⟨_, rfl⟩ := Db.findPayment_mem hrow
    simp only
    split
    case isFalse => exact (dealt_carried pid _).pure (.inr h₁.1.setting) fun _ h' => h'
    next hcheck =>
    have hJ := loaded_carried pid d ((d.findPayment p.publicId).toList.filter (·.publicId == pid))
      (keepsPaid pid (.check now p.publicId p.userId settings gateway answer))
    refine hJ.bind h₁ (safe_gatewayOr hJ.toSteady h₁ (fun db₂ h₂ => ?_) fun db₂ h₂ => ?_)
    · exact (dealt_carried pid _).pure (.inr h₂.1.setting) fun _ h' => h'
    refine hJ.bind h₂ ?_
    have hend (x : Option Payment × Option SettleOutcome) (t₃ db₃)
        (h₃ : Dealt pid (.check now p.publicId p.userId settings gateway answer) t₃ db₃) :
        (.pure x.1 : M (Option Payment)).safe (settledRely pid)
          (keepsPaid pid (.check now p.publicId p.userId settings gateway answer))
          (fun _ => Dealt pid (.check now p.publicId p.userId settings gateway answer)) (fun _ _ _ => True) t₃ db₃ :=
      (dealt_carried pid _).pure h₃ fun _ h' => h'
    by_cases hid : p.publicId = pid
    · subst hid
      refine safe_askGateway h₂.1 rfl (h₂.2.2 p ?_) (fun ho => ⟨d, h₂.2.1, ?_⟩) hend
      · simp [hrow]
      · simp [PaymentCall.overwrites, hrow, hcheck, ho]
    · exact safe_aside (askGateway_writes (settleStmts_aside hid) _ _ _ _) h₂.1 hend

theorem safe_reconcilePending {pass : Pass} (h : SettledBook pid db) :
    (reconcilePending now pass).safe (settledRely pid) (keepsPaid pid (.reconcile now pass))
      (fun _ => Dealt pid (.reconcile now pass)) (fun _ _ _ => True) {} db := by
  have hsub (d : Db) : (pass.rows now d).Sublist d.payments := (List.take_sublist _ _).trans List.filter_sublist
  refine safe_firstRead (l := fun rows => rows) h (fun d p hp _ => (hsub d).subset hp) fun d t₁ db₁ hd h₁ => ?_
  have hJ := loaded_carried pid d ((pass.rows now d).filter (·.publicId == pid)) (keepsPaid pid (.reconcile now pass))
  have hdealt := dealt_carried pid (.reconcile now pass)
  -- what is left has the payment once, until the pass has dealt with it
  let once (rest : List Payment) : Prop :=
    (∀ p ∈ rest, p ∈ pass.rows now d) ∧ (rest.filter (·.publicId == pid)).length ≤ 1
  let others (rest : List Payment) : Prop := ∀ p ∈ rest, p.publicId ≠ pid
  have hI (rest : List Payment) := (hJ.and (K := fun _ _ => once rest) (fun _ h => h) fun _ h => h).or
    (hdealt.and (K := fun _ _ => others rest) (fun _ h => h) fun _ h => h)
  have hstart : once (pass.rows now d) := ⟨fun _ hp => hp, ((hsub d).filter _).length_le.trans hd.row⟩
  refine Txn.Steady.collect (fun rest => (hI rest).toSteady) (.inl ⟨h₁, hstart⟩) (fun p rest t db h => ?_)
    fun rs t₂ db₂ h₂ => h₂.elim (fun h => .inr h.1.1.setting) And.left
  rcases h with ⟨h, hmem, hlen⟩ | ⟨h, hne⟩
  · by_cases hid : p.publicId = pid
    · have hrest : others rest := by
        simp only [List.filter_cons, hid, beq_self_eq_true, if_true, List.length_cons] at hlen
        have hnil := List.length_eq_zero_iff.mp (Nat.le_zero.mp (by omega : (rest.filter (·.publicId == pid)).length ≤ 0))
        intro q hq he
        exact List.filter_eq_nil_iff.mp hnil q hq (by simpa using he)
      have hrow := hmem p List.mem_cons_self
      have hover (ho : p.isOverwritten pass.gateway "reconcile" (pass.answers p.publicId) = true) :
          (PaymentCall.reconcile now pass).overwrites pid d = true := by
        simp only [PaymentCall.overwrites, List.any_eq_true]
        exact ⟨p, hrow, by simp [← hid, ho]⟩
      refine hJ.bind h (safe_askGateway h.1 hid (h.2.2 p (List.mem_filter.mpr ⟨hrow, by simpa using hid⟩))
        (fun ho => ⟨d, h.2.1, hover ho⟩) fun x t₂ db₂ h₂ => ?_)
      exact hdealt.pure h₂ fun db₃ h₃ => .inr ⟨h₃, hrest⟩
    · refine hJ.safe (reconcilePayment_writes (settleStmts_aside hid) now pass) h (fun _ t₂ db₂ h₂ => .inl ⟨h₂, ?_, ?_⟩)
        fun _ _ _ _ => trivial
      · exact fun q hq => hmem q (List.mem_cons_of_mem _ hq)
      · rwa [List.filter_cons, if_neg (by simpa using hid)] at hlen
  · refine hdealt.safe (reconcilePayment_writes (settleStmts_aside (hne p List.mem_cons_self)) now pass) h
      (fun _ t₂ db₂ h₂ => .inr ⟨h₂, fun q hq => hne q (List.mem_cons_of_mem _ hq)⟩) fun _ _ _ _ => trivial

end

namespace PaymentCall

variable {pid : String} {db : Db}

theorem dealt (c : PaymentCall) (hc : c.Settles) (h : SettledBook pid db) :
    c.prog.safe (settledRely pid) (keepsPaid pid c) (fun _ => Dealt pid c) (fun _ _ _ => True) {} db := by
  have hend {α : Type} {m : M α} (hm : m.safe (settledRely pid) (keepsPaid pid c) (fun _ => Dealt pid c)
      (fun _ _ _ => True) {} db) : (do let _ ← m : M Unit).safe (settledRely pid) (keepsPaid pid c)
        (fun _ => Dealt pid c) (fun _ _ _ => True) {} db :=
    Txn.Prog.safe_bind h (Txn.Prog.safe_mono (fun _ t' db' _ h' => (dealt_carried pid c).pure h' fun _ h'' => h'')
      (fun _ _ _ _ _ => trivial) h hm)
  cases c with
  | webhook => exact hend (safe_handleWebhookEvent (aloof_start h))
  | reconcile => exact hend (safe_reconcilePending h)
  | check => exact hend (safe_checkPayment h)
  | _ => exact hc.elim

theorem safe (c : PaymentCall) (hc : c.Settles) (h : SettledBook pid db) :
    c.prog.Safe (settledRely pid) (keepsPaid pid c) {} db :=
  Txn.Prog.safe_mono (fun _ _ _ _ h' => (dealt_carried pid c).ends (fun _ _ hst h'' => h''.commits hst) h')
    (fun _ _ _ _ _ => trivial) h (c.dealt hc h)

end PaymentCall

/-! ## Every interleaving -/

theorem PaymentBooks.settledBook {db : Db} (h : PaymentBooks True .none db)
    (howners : ∀ p ∈ db.payments, (db.users p.userId).isSome = true) (pid : String) : SettledBook pid db where
  row := by
    have hcount := List.nodup_iff_count_le_one.mp h.ids pid
    rw [List.count, List.countP_map, List.countP_eq_length_filter] at hcount
    exact hcount
  owned p hp := howners p (Db.mem_rowsOf.mp hp).1
  once := by
    cases hc : db.depositCredits pid with
    | nil => simp
    | cons e es =>
      have he : e ∈ db.depositCredits pid := hc ▸ List.mem_cons_self
      obtain ⟨hmem, _, href⟩ := Db.mem_depositCredits.mp he
      obtain ⟨p, hp, rfl⟩ := h.known e hmem pid href
      rw [← hc]
      cases h.settled p hp with
      | unpaid hnil _ => simp [hnil]
      | credited hone _ _ => simp [hone]
  key := h.findEntry_deposit pid
  paid hne p hp := by
    obtain ⟨hmem, rfl⟩ := Db.mem_rowsOf.mp hp
    by_contra hn
    exact hne (h.credits_nil hmem hn)

/-- **A settled deposit stays settled**, in every interleaving in which no
call takes the row of the payment, paid as it is by then, that its copy and
its answer make it overwrite: the payment is credited once at most, and once
a credit is committed it is paid in every state that follows. -/
theorem settled_stays_settled {ι : Type} [DecidableEq ι] {start : Db} {p : Payment}
    {s : Txn.Sys ι PaymentCall Db Row Err Ext} (hbooks : PaymentBooks True .none start)
    (howners : ∀ p ∈ start.payments, (start.users p.userId).isSome = true) (hp : p ∈ start.payments)
    (h : Txn.Sys.Reach PaymentCall.prog PaymentCall.Settles (keepsPaid p.publicId) { db := start } s) :
    (s.db.depositCredits p.publicId).length ≤ 1 ∧ (s.db.depositCredits p.publicId ≠ [] →
      ∀ s', Txn.Sys.Reach PaymentCall.prog PaymentCall.Settles (keepsPaid p.publicId) s s' →
        ∃ q, s'.db.findPayment p.publicId = .some q ∧ q.status = .paid) := by
  have hgood : ({ db := start } : Txn.Sys ι PaymentCall Db Row Err Ext).Good (settledRely p.publicId)
      (keepsPaid p.publicId) := .idle_start (hbooks.settledBook howners p.publicId)
  have hcode : ∀ c : PaymentCall, c.Settles → ∀ db, (settledRely p.publicId).inv db →
      c.prog.Safe (settledRely p.publicId) (keepsPaid p.publicId c) {} db := fun c hc db hdb => c.safe hc hdb
  have hs := Txn.Sys.Reach.good hgood hcode h
  refine ⟨hs.inv.once, fun hcredited s' h' => ?_⟩
  have hinv : SettledBook p.publicId s'.db := (Txn.Sys.Reach.good hs hcode h').inv
  have hstill : s'.db.depositCredits p.publicId ≠ [] := fun hnil =>
    hcredited (List.prefix_nil.mp (hnil ▸ (Txn.Sys.Reach.change hs hcode h').credits))
  -- the row is still there, and it is what is found
  have hrow : p.userId ∈ (s'.db.rowsOf p.publicId).map (·.userId) := by
    rw [(Txn.Sys.Reach.change hgood hcode (h.trans h')).rows]
    exact List.mem_map_of_mem (Db.mem_rowsOf.mpr ⟨hp, rfl⟩)
  obtain ⟨q, hq, _⟩ := List.mem_map.mp hrow
  obtain ⟨hmem, hid⟩ := Db.mem_rowsOf.mp hq
  have hfind : ∃ q, s'.db.findPayment p.publicId = .some q :=
    Option.isSome_iff_exists.mp (List.find?_isSome.mpr ⟨q, hmem, by simpa using hid⟩)
  obtain ⟨q', hq'⟩ := hfind
  obtain ⟨hmem', hid'⟩ := Db.findPayment_mem hq'
  exact ⟨q', hq', hinv.paid hstill q' (Db.mem_rowsOf.mpr ⟨hmem', hid'⟩)⟩

/-! ## A check and an event at once -/

/-- An invoice of the customer 7, not paid yet. -/
def oneInvoice : Db := { till with payments := [invoiceRow] }

theorem oneInvoice_books : PaymentBooks True .none oneInvoice :=
  till_opening.books.inserted (p := invoiceRow) (fun q hq => (by cases hq)) (by decide)

/-- A check loads the invoice, and an event settles it before the gateway answers the check. -/
def settledMeanwhile (status : GatewayStatus) : List (Txn.Act Nat PaymentCall) :=
  [.start 0 (.check 1 "P" 7 liveSettings .none (.ok status)), .step 0,
    .start 1 (.webhook 1 "razorpay" (paidEvent "e1" "P" 50000))] ++ List.replicate 19 (.step 1)

theorem settledMeanwhile_settles {status : GatewayStatus} (i : Nat) (c : PaymentCall)
    (h : Txn.Act.start i c ∈ settledMeanwhile status) : c.Settles := by
  have hc : i = 0 ∧ c = .check 1 "P" 7 liveSettings .none (.ok status) ∨
      i = 1 ∧ c = .webhook 1 "razorpay" (paidEvent "e1" "P" 50000) := by
    simpa [settledMeanwhile] using h
  rcases hc with ⟨_, rfl⟩ | ⟨_, rfl⟩ <;> trivial

/-- The gateway tells the check of the same payment: it is settled again, under the same key. -/
theorem settled_stays_settled_of_both :
    let start : Txn.Sys Nat PaymentCall Db Row Err Ext := { db := oneInvoice }
    let guard (c : PaymentCall) (seen : List Db) (r : Row) (db : Db) : Bool := keepsPaid "P" c seen r db
    let status : GatewayStatus := { state := .paid, amountPaise := .some 50000, currency := .some "INR" }
    ∃ s s', start.execIf PaymentCall.prog guard (settledMeanwhile status) = .some s ∧
      s.execIf PaymentCall.prog guard (List.replicate 12 (.step 0)) = .some s' ∧
      (s.db.depositCredits "P").length = 1 ∧ (s'.threads 0).isNone = true ∧ (s'.db.depositCredits "P").length ≤ 1 ∧
      ∃ q, s'.db.findPayment "P" = .some q ∧ q.status = .paid := by
  intro start guard status
  have hrun : (start.execIf PaymentCall.prog guard (settledMeanwhile status)).any (fun s =>
      (s.db.depositCredits "P").length = 1 ∧
        (s.execIf PaymentCall.prog guard (List.replicate 12 (.step 0))).any fun s' => (s'.threads 0).isNone) = true := by
    decide +kernel
  obtain ⟨s, hs, hfacts⟩ := (Option.any_eq_true _ _).mp hrun
  obtain ⟨hone, hrest⟩ := of_decide_eq_true hfacts
  obtain ⟨s', hs', hended⟩ := (Option.any_eq_true _ _).mp hrest
  have howners : ∀ p ∈ oneInvoice.payments, (oneInvoice.users p.userId).isSome = true := by decide
  have hreach : Txn.Sys.Reach PaymentCall.prog PaymentCall.Settles (keepsPaid "P") start s :=
    Txn.Sys.execIf_reach _ (fun _ _ _ _ => of_decide_eq_true) .refl settledMeanwhile_settles hs
  have hreach' : Txn.Sys.Reach PaymentCall.prog PaymentCall.Settles (keepsPaid "P") s s' :=
    Txn.Sys.execIf_reach _ (fun _ _ _ _ => of_decide_eq_true) .refl (fun i c hm => by simp at hm) hs'
  obtain ⟨_, hpaid⟩ := settled_stays_settled (p := invoiceRow) oneInvoice_books howners (by decide) hreach
  obtain ⟨honce, _⟩ := settled_stays_settled (p := invoiceRow) oneInvoice_books howners (by decide) (hreach.trans hreach')
  have hcredited : s.db.depositCredits "P" ≠ [] := fun hnil => by
    rw [hnil] at hone
    cases hone
  exact ⟨s, s', hs, hs', hone, hended, honce, hpaid hcredited s' hreach'⟩

/-- The link has expired when the check asks: it sets the payment, which has been credited, to expired. -/
theorem settled_payment_expires :
    let start : Txn.Sys Nat PaymentCall Db Row Err Ext := { db := oneInvoice }
    ¬ ∀ s, Txn.Sys.Reach PaymentCall.prog PaymentCall.Settles (fun _ _ _ _ => True) start s →
      s.db.depositCredits "P" ≠ [] →
        ∀ s', Txn.Sys.Reach PaymentCall.prog PaymentCall.Settles (fun _ _ _ _ => True) s s' →
          ∃ q, s'.db.findPayment "P" = .some q ∧ q.status = .paid := by
  intro start h
  have hrun : (start.exec PaymentCall.prog (settledMeanwhile { state := .expired })).any (fun s =>
      (s.db.depositCredits "P").length = 1 ∧ (s.exec PaymentCall.prog (List.replicate 4 (.step 0))).any fun s' =>
        (s'.db.findPayment "P").map (·.status) = .some .expired) = true := by
    decide +kernel
  obtain ⟨s, hs, hfacts⟩ := (Option.any_eq_true _ _).mp hrun
  obtain ⟨hone, hrest⟩ := of_decide_eq_true hfacts
  obtain ⟨s', hs', hexpired⟩ := (Option.any_eq_true _ _).mp hrest
  have hreach' : Txn.Sys.Reach PaymentCall.prog PaymentCall.Settles (fun _ _ _ _ => True) s s' :=
    Txn.Sys.exec_reach PaymentCall.prog .refl (fun i c hm => by simp at hm) hs'
  have hreach := Txn.Sys.exec_reach PaymentCall.prog .refl settledMeanwhile_settles hs
  have hcredited : s.db.depositCredits "P" ≠ [] := fun hnil => by
    rw [hnil] at hone
    cases hone
  obtain ⟨q, hq, hpaid⟩ := h s hreach hcredited s' hreach'
  simp [hq, hpaid] at hexpired

end Falaron
