/-
The books of the house.

A run of the house is one chain of postings, each by a call of the order
engine, of the payment service, or of neither (`HouseRun.postings`). So the
ledger stays the history of every wallet, and each of its entries has a row
to show for it; and added up, what is on a wallet is what was paid in, less
what the orders cost, plus what was earned and what else was posted.
-/
import Falaron.House
import Falaron.ReferralPreview
import Falaron.Tally

namespace Falaron

/-- A call of the wallet that is made in the house. -/
def WalletCall.InHouse (c : WalletCall) : Prop := c.OfOrders ∨ c.OfPayments ∨ c.Sundry

/-- Whatever else differs, the wallets and the ledger are the same; a new user starts with an empty wallet. -/
structure SameWallets (a b : Db) : Prop where
  ledger : b.ledger = a.ledger
  users : ∀ u, match a.users u, b.users u with
    | .some x, .some y => y.cachedBalancePaise = x.cachedBalancePaise ∧ y.cachedReservedPaise = x.cachedReservedPaise
    | .none, .some y => y.cachedReservedPaise = 0 ∧ y.cachedBalancePaise = 0
    | .some _, .none => False
    | .none, .none => True

/-- Whoever an entry was posted for is a user. -/
def Db.Posters (db : Db) : Prop := ∀ e ∈ db.ledger, (db.users e.userId).isSome

section

variable {L : WalletCall → Prop} {Q : Db → Db → Prop} {a b c : Db} {e : LedgerEntry} {u : Int}

theorem SameMoney.sameWallets (h : SameMoney a b) : SameWallets a b := ⟨h.ledger, h.users⟩

theorem SameWallets.of_users (hl : b.ledger = a.ledger) (hu : b.users = a.users) : SameWallets a b :=
  ⟨hl, fun u => hu ▸ (SameMoney.refl a).users u⟩

theorem Postings.trans (h : Postings L Q a b) (h' : Postings L Q b c) : Postings L Q a c := by
  induction h' with
  | start => exact h
  | post _ hc he ih => exact ih.post hc he
  | beside _ hq ih => exact ih.beside hq

/-- An entry that is new was posted by one of the calls. -/
theorem Postings.entries (h : Postings L SameWallets a b) : ∀ e ∈ b.ledger, e ∈ a.ledger ∨
    ∃ c d, L c ∧ Posts d c.posting c.entryType c.key c.draft e := by
  induction h with
  | start => exact fun e he => .inl he
  | post _ hc hp ih =>
    intro e he
    rcases List.mem_append.mp he with he | he
    · exact ih e he
    · exact List.mem_singleton.mp he ▸ .inr ⟨_, _, hc, hp⟩
  | beside _ hq ih => exact hq.ledger ▸ ih

theorem Db.Books.sameWallets (h : a.Books) (hposters : a.Posters) (hs : SameWallets a b) : b.Books ∧ b.Posters := by
  have hentries (u : Int) : b.entriesOf u = a.entriesOf u := by rw [Db.entriesOf, hs.ledger, Db.entriesOf]
  refine ⟨⟨?_, fun u y hy => ?_⟩, fun e he => ?_⟩
  · rw [Db.KeysOnce, hs.ledger]
    exact h.keys
  · have hsame := hs.users u
    rw [hy] at hsame
    cases hx : a.users u with
    | some x =>
      rw [hx] at hsame
      obtain ⟨acc, hkeeps⟩ := h.keeps u x hx
      refine ⟨acc, hy, ⟨hsame.1.trans hkeeps.shows.balance, hsame.2.trans hkeeps.shows.reserved⟩, ?_⟩
      rw [hentries]
      exact hkeeps.history
    | none =>
      -- nobody has posted for a new user
      rw [hx] at hsame
      have hnone : a.entriesOf u = [] := by
        refine List.filter_eq_nil_iff.mpr fun e he heu => ?_
        have hsome := hposters e he
        rw [eq_of_beq heu, hx] at hsome
        cases hsome
      refine ⟨.empty, hy, ⟨hsame.2, hsame.1⟩, ?_⟩
      rw [hentries, hnone]
      exact .nil
  · have hsome := hposters e (hs.ledger ▸ he)
    have hsame := hs.users e.userId
    cases hy : b.users e.userId with
    | some _ => rfl
    | none =>
      rw [hy] at hsame
      cases hx : a.users e.userId with
      | some x =>
        rw [hx] at hsame
        exact hsame.elim
      | none =>
        rw [hx] at hsome
        cases hsome

theorem Db.Posters.posted (h : a.Posters) {p : Posting} {t : EntryType} {key : Key} {draft : User → Except Err Draft}
    (hp : Posts a p t key draft e) : (a.posted e).Posters := by
  intro e' he'
  rw [Db.posted_isSome]
  rcases List.mem_append.mp he' with he' | he'
  · exact h e' he'
  · obtain ⟨user, _, hrow, -⟩ := hp.drafted
    rw [List.mem_singleton.mp he', hp.entry_eq.1, hrow]
    rfl

/-- Postings keep the books. -/
theorem Postings.books (h : Postings L SameWallets a b) (hb : a.Books) (hp : a.Posters) : b.Books ∧ b.Posters := by
  induction h with
  | start => exact ⟨hb, hp⟩
  | @post _ c _ _ _ he ih => exact ⟨ih.1.posted (c.drafts he.pos) he, ih.2.posted he⟩
  | beside _ hs ih => exact ih.1.sameWallets ih.2 hs

end

section

variable {okOrder : Db → OrderCall → Prop} {okPayment : Db → PaymentCall → Prop} {db₀ db : Db}

theorem Fresh.books (h : Fresh db) : db.Books ∧ db.Posters := by
  refine ⟨⟨by simp [Db.KeysOnce, h.ledger], fun u user hu => ⟨.empty, hu, ⟨?_, ?_⟩, ?_⟩⟩, by simp [Db.Posters, h.ledger]⟩
  · exact h.empty u user hu
  · exact (h.wallets u user hu).1
  · rw [Db.entriesOf, h.ledger]
    exact .nil

/-- A run of the house is a chain of postings made in the house. -/
theorem HouseRun.postings (h : HouseRun okOrder okPayment db₀ db) (hkeyed : db₀.Keyed) :
    Postings WalletCall.InHouse SameWallets db₀ db := by
  induction h with
  | start => exact .start
  | order c _ _ _ ih =>
    exact ih.trans ((c.postings _ _).mono (fun _ hc => .inl hc) fun _ _ hq => .of_users hq.ledger hq.users)
  | payment c _ _ _ ih =>
    exact ih.trans ((c.postings _ _).mono (fun _ hc => .inr (.inl hc)) fun _ _ hq => .of_users hq.ledger hq.users)
  | hit now code caught hrun hrow ih =>
    exact ih.beside (recordStartHit_sameTrade (hrun.keyed hkeyed) hrow now code caught).toSameMoney.sameWallets
  | @wallet db c _ hc ih =>
    obtain ⟨r, he⟩ := c.commit_effect db
    generalize c.prog.commit (fun _ => false) db = db' at he
    cases he with
    | raised => exact ih
    | replayed => exact ih
    | posted hp => exact ih.post (.inr (.inr hc)) hp
  | tables _ hs ih => exact ih.beside hs.toSameMoney.sameWallets

theorem HouseRun.books (h₀ : Fresh db₀) (h : HouseRun okOrder okPayment db₀ db) : db.Books ∧ db.Posters :=
  (h.postings h₀.keyed).books h₀.books.1 h₀.books.2

end

/-- **The ledger is sound over every run of the house**: whatever calls come in
whatever order, no key is posted under twice, and every wallet is where the
history of its entries ends, never overdrawn and never held back beyond what
is on it. -/
theorem house_ledger_sound {okOrder : Db → OrderCall → Prop} {okPayment : Db → PaymentCall → Prop} {db₀ db : Db}
    (h₀ : Fresh db₀) (h : HouseRun okOrder okPayment db₀ db) :
    (db.ledger.map (·.idempotencyKey)).Nodup ∧
    ∀ u user, db.users u = .some user →
      0 ≤ user.cachedReservedPaise ∧ user.cachedReservedPaise ≤ user.cachedBalancePaise ∧
      user.cachedBalancePaise = ((db.entriesOf u).map (·.amountPaise)).sum ∧
      ∃ a, user.Shows a ∧ History (db.entriesOf u) a := by
  obtain ⟨hb, -⟩ := h.books h₀
  refine ⟨hb.keys, fun u user hu => ?_⟩
  obtain ⟨a, hkeeps⟩ := hb.keeps u user hu
  refine ⟨?_, ?_, hkeeps.shows.balance.trans hkeeps.history.balance, a, hkeeps.shows, hkeeps.history⟩
  · rw [hkeeps.shows.reserved]
    exact a.nonneg
  · rw [hkeeps.shows.reserved, hkeeps.shows.balance]
    exact a.covered

theorem house_ledger_sound_of_firstDay :
    (firstDay.users 7).map (fun user => (user.cachedBalancePaise, user.cachedReservedPaise)) = .some (47500, 2500) ∧
    ∀ user, firstDay.users 7 = .some user →
      user.cachedBalancePaise = ((firstDay.entriesOf 7).map (·.amountPaise)).sum :=
  ⟨by decide +kernel, fun user hu => ((house_ledger_sound market_fresh firstDay_run).2 7 user hu).2.2.1⟩

/-! ## What an entry is for -/

inductive Cause where
  | order | payment | referral | sundry
  deriving DecidableEq, Repr

def LedgerEntry.cause (e : LedgerEntry) : Cause :=
  if e.referenceType = .some "order" then .order
  else if e.referenceType = .some "payment" then .payment
  else if e.referenceType = .some "referral" then .referral
  else .sundry

/-- The row the entry is about, where its cause says there is one. -/
structure LedgerEntry.Named (e : LedgerEntry) : Prop where
  order : e.cause = .order → e.orderRef.isSome
  payment : e.cause = .payment → e.paymentRef.isSome
  referral : e.cause = .referral → e.entryType = .credit ∧
    ((∃ p, e.idempotencyKey = .reford p) ∨ ∃ u, e.idempotencyKey = .refdep u)

section

variable {e : LedgerEntry} {okOrder : Db → OrderCall → Prop} {okPayment : Db → PaymentCall → Prop} {db₀ db : Db}

theorem LedgerEntry.cause_order (h : e.referenceType = .some "order") : e.cause = .order := if_pos h

theorem LedgerEntry.cause_payment (h : e.referenceType = .some "payment") : e.cause = .payment := by
  simp [cause, h]

theorem LedgerEntry.cause_referral (h : e.referenceType = .some "referral") : e.cause = .referral := by
  simp [cause, h]

/-- An entry about an order names it. -/
theorem LedgerEntry.cause_of_orderRef {p : String} (h : e.orderRef = .some p) : e.cause = .order :=
  cause_order (orderRef_iff.mp h).1

theorem LedgerEntry.cause_of_paymentRef {p : String} (h : e.paymentRef = .some p) : e.cause = .payment := by
  unfold paymentRef at h
  split at h
  · next href => exact cause_payment href
  · cases h

theorem Posts.cause {a : Db} {p : Posting} {t : EntryType} {key : Key} {draft : User → Except Err Draft}
    (h : Posts a p t key draft e) : e.cause =
      if p.referenceType = .some "order" then .order
      else if p.referenceType = .some "payment" then .payment
      else if p.referenceType = .some "referral" then .referral
      else .sundry := by
  rw [LedgerEntry.cause, h.referenceType.1]

/-- What is posted in the house names what it is for. -/
theorem WalletCall.InHouse.named {c : WalletCall} {d : Db} (hc : c.InHouse)
    (he : Posts d c.posting c.entryType c.key c.draft e) : e.Named := by
  have hcause := he.cause
  have href := he.referenceType
  have hkey := he.entry_eq.2
  rcases hc with hc | hc | hc
  · cases hc with
    | order htype hid _ =>
      rw [htype, if_pos rfl] at hcause
      refine ⟨fun _ => ?_, fun h => by simp [hcause] at h, fun h => by simp [hcause] at h⟩
      rw [LedgerEntry.orderRef, if_pos (href.1.trans htype), href.2, hid]
      rfl
    | commission htype =>
      have hreferral := LedgerEntry.cause_referral (href.1.trans htype)
      refine ⟨fun h => by simp [hreferral] at h, fun h => by simp [hreferral] at h, fun _ => ⟨he.entryType, .inl ?_⟩⟩
      exact ⟨_, hkey⟩
  · cases hc with
    | deposit p =>
      have htype : e.referenceType = .some "payment" := href.1
      have hpayment := LedgerEntry.cause_payment htype
      refine ⟨fun h => by simp [hpayment] at h, fun _ => ?_, fun h => by simp [hpayment] at h⟩
      rw [LedgerEntry.paymentRef, if_pos htype, href.2]
      rfl
    | commission htype =>
      have hreferral := LedgerEntry.cause_referral (href.1.trans htype)
      refine ⟨fun h => by simp [hreferral] at h, fun h => by simp [hreferral] at h, fun _ => ⟨he.entryType, .inr ?_⟩⟩
      exact ⟨_, hkey⟩
  · have horder : c.posting.referenceType ≠ .some "order" := by
      have hf := hc.foreign
      cases c with
      | credit => exact hf.1
      | debit => exact hf.1
      | _ => exact hf.elim
    rw [if_neg horder, if_neg hc.reference.1, if_neg hc.reference.2] at hcause
    exact ⟨fun h => by simp [hcause] at h, fun h => by simp [hcause] at h, fun h => by simp [hcause] at h⟩

theorem HouseRun.named (h₀ : Fresh db₀) (h : HouseRun okOrder okPayment db₀ db) : ∀ e ∈ db.ledger, e.Named := by
  intro e he
  rcases (h.postings h₀.keyed).entries e he with hold | ⟨c, d, hc, hp⟩
  · rw [h₀.ledger] at hold
    cases hold
  · exact hc.named hp

end

end Falaron
