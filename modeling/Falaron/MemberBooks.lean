/-
The books of the site: what its members were given, corrected and paid out.

Every entry of the ledger that no trade made is a bonus, a payout or a
correction, and tells which by its key. So a bonus is credited once, the
payout requests are the payout debits, and the statement of account has no
line left for anything else.
-/
import Falaron.MemberCodes

namespace Falaron

/-- What an entry came about by, and the key it is then under. -/
inductive LedgerEntry.OfSite (e : LedgerEntry) : Prop
  | trade : e.cause ≠ .sundry → (∀ t, e.idempotencyKey ≠ .text t) → OfSite e
  | bonus : e.referenceType = .some "bonus" → e.idempotencyKey = welcomeKey e.userId → OfSite e
  | payout {id : String} : e.referenceType = .some "payout" → e.idempotencyKey = payoutKey id → OfSite e
  | adjustment {id : String} : e.referenceType = .some "admin" → e.idempotencyKey = adjustmentKey id → OfSite e

/-- The entry is the debit of the payout request. -/
structure LedgerEntry.PaysOut (e : LedgerEntry) (r : PayoutRequest) : Prop where
  user : e.userId = r.userId
  amount : e.amountPaise = -r.amountPaise
  entryType : e.entryType = .debit
  key : e.idempotencyKey = payoutKey r.publicId
  minimum : minPayoutPaise ≤ r.amountPaise

def Db.payoutEntries (db : Db) : List LedgerEntry := db.ledger.filter fun e => e.referenceType = .some "payout"

/-- The user has had the welcome bonus. -/
def Site.granted (s : Site) (u : Int) : Bool := (s.members u).any (·.welcomeBonusGranted)

/-- What every run keeps. -/
structure SiteBooks (s : Site) : Prop where
  entries : ∀ e ∈ s.db.ledger, e.OfSite
  bonuses : ∀ u, (∃ e ∈ s.db.ledger, e.idempotencyKey = welcomeKey u) ↔ s.granted u = true
  payouts : List.Forall₂ LedgerEntry.PaysOut s.db.payoutEntries s.payouts
  ids : (s.payouts.map (·.publicId)).Nodup

/-- The ledger goes on by entries that trade made. -/
def Traded (a b : Db) : Prop :=
  ∃ es, b.ledger = a.ledger ++ es ∧ ∀ e ∈ es, e.cause ≠ .sundry ∧ ∀ t, e.idempotencyKey ≠ .text t

section

variable {L : WalletCall → Prop} {Q : Db → Db → Prop} {P : LedgerEntry → Prop} {a b : Db} {c : WalletCall}
  {e : LedgerEntry} {env : SiteEnv} {p : Int} {s s' : Site}

/-! ## Trade -/

theorem Postings.appended (h : Postings L Q a b) (hQ : ∀ x y, Q x y → y.ledger = x.ledger)
    (hL : ∀ c x e, L c → Posts x c.posting c.entryType c.key c.draft e → P e) :
    ∃ es, b.ledger = a.ledger ++ es ∧ ∀ e ∈ es, P e := by
  induction h with
  | start => exact ⟨[], by simp, by simp⟩
  | @post x c e _ hc he ih =>
    obtain ⟨es, hes, hall⟩ := ih
    refine ⟨es ++ [e], by rw [Db.posted_ledger, hes, List.append_assoc], fun e' he' => ?_⟩
    rcases List.mem_append.mp he' with hmem | hmem
    · exact hall e' hmem
    · exact List.mem_singleton.mp hmem ▸ hL c x e hc he
  | beside _ hq ih => exact hQ _ _ hq ▸ ih

theorem WalletCall.OfOrders.traded (hc : c.OfOrders) (he : Posts a c.posting c.entryType c.key c.draft e) :
    e.cause ≠ .sundry ∧ ∀ t, e.idempotencyKey ≠ .text t := by
  have href := he.referenceType.1
  have hkey := he.entry_eq.2
  cases hc with
  | order htype _ horder =>
    refine ⟨by simp [LedgerEntry.cause_order (href.trans htype)], fun t ht => ?_⟩
    rw [← hkey, ht] at horder
    cases horder
  | commission htype =>
    refine ⟨by simp [LedgerEntry.cause_referral (href.trans htype)], fun t ht => ?_⟩
    cases hkey.symm.trans ht

theorem WalletCall.OfPayments.traded (hc : c.OfPayments) (he : Posts a c.posting c.entryType c.key c.draft e) :
    e.cause ≠ .sundry ∧ ∀ t, e.idempotencyKey ≠ .text t := by
  have href := he.referenceType.1
  have hkey := he.entry_eq.2
  cases hc with
  | deposit p =>
    refine ⟨by simp [LedgerEntry.cause_payment (href.trans rfl)], fun t ht => ?_⟩
    cases hkey.symm.trans ht
  | commission htype =>
    refine ⟨by simp [LedgerEntry.cause_referral (href.trans htype)], fun t ht => ?_⟩
    cases hkey.symm.trans ht

theorem OrderCall.traded (c : OrderCall) (caught : Err → Bool) (db : Db) : Traded db (c.prog.commit caught db) :=
  (c.postings caught db).appended (fun _ _ hq => hq.ledger) fun _ _ _ hc he => hc.traded he

theorem PaymentCall.traded (c : PaymentCall) (caught : Err → Bool) (db : Db) : Traded db (c.prog.commit caught db) :=
  (c.postings caught db).appended (fun _ _ hq => hq.ledger) fun _ _ _ hc he => hc.traded he

/-! ## What the books keep -/

theorem LedgerEntry.cause_sundry (h : e.referenceType = .some "bonus" ∨ e.referenceType = .some "payout" ∨
    e.referenceType = .some "admin") : e.cause = .sundry := by
  rcases h with h | h | h <;> simp [cause, h]

/-- A key under a heading tells what the entry is. -/
theorem LedgerEntry.OfSite.of_payoutKey (h : e.OfSite) {id : String} (hkey : e.idempotencyKey = payoutKey id) :
    e.referenceType = .some "payout" := by
  cases h with
  | trade _ hnot => exact absurd hkey (hnot _)
  | bonus _ hk => exact absurd (hk.symm.trans hkey) welcomeKey_ne_payoutKey
  | payout href _ => exact href
  | adjustment _ hk => exact absurd (hkey.symm.trans hk) payoutKey_ne_adjustmentKey

theorem SiteBooks.same (h : SiteBooks s) (hledger : s'.db.ledger = s.db.ledger)
    (hgranted : ∀ u, s'.granted u = s.granted u) (hpayouts : s'.payouts = s.payouts) : SiteBooks s' := by
  refine ⟨hledger ▸ h.entries, fun u => ?_, ?_, hpayouts ▸ h.ids⟩
  · rw [hledger, hgranted]
    exact h.bonuses u
  · rw [Db.payoutEntries, hledger, hpayouts]
    exact h.payouts

theorem SiteBooks.traded (h : SiteBooks s) {db : Db} (ht : Traded s.db db) : SiteBooks { s with db := db } := by
  obtain ⟨es, hes, hall⟩ := ht
  refine ⟨fun e he => ?_, fun u => ?_, ?_, h.ids⟩
  · rcases List.mem_append.mp (hes ▸ he) with hmem | hmem
    · exact h.entries e hmem
    · exact .trade (hall e hmem).1 (hall e hmem).2
  · rw [hes]
    refine Iff.trans ⟨fun ⟨e, he, hkey⟩ => ?_, fun ⟨e, he, hkey⟩ => ⟨e, List.mem_append_left _ he, hkey⟩⟩ (h.bonuses u)
    rcases List.mem_append.mp he with hmem | hmem
    · exact ⟨e, hmem, hkey⟩
    · exact absurd hkey ((hall e hmem).2 _)
  · have hnone : es.filter (fun e => e.referenceType = .some "payout") = [] := by
      refine List.filter_eq_nil_iff.mpr fun e he => ?_
      simp only [decide_eq_true_eq]
      exact fun href => (hall e he).1 (LedgerEntry.cause_sundry (.inr (.inl href)))
    rw [Db.payoutEntries, hes, List.filter_append, hnone, List.append_nil]
    exact h.payouts

/-- An entry of a member's call, other than a payout. -/
theorem SiteBooks.posted (h : SiteBooks s) (he : e.OfSite) (href : e.referenceType ≠ .some "payout")
    (hledger : s'.db.ledger = s.db.ledger ++ [e]) (hpayouts : s'.payouts = s.payouts)
    (hgranted : ∀ u, s'.granted u = true ↔ s.granted u = true ∨ e.idempotencyKey = welcomeKey u) : SiteBooks s' := by
  refine ⟨fun e' he' => ?_, fun u => ?_, ?_, hpayouts ▸ h.ids⟩
  · rcases List.mem_append.mp (hledger ▸ he') with hmem | hmem
    · exact h.entries e' hmem
    · exact List.mem_singleton.mp hmem ▸ he
  · rw [hledger, hgranted, ← h.bonuses u]
    simp only [List.mem_append, List.mem_singleton, or_and_right, exists_or, exists_eq_left]
  · rw [Db.payoutEntries, hledger, List.filter_append, List.filter_cons_of_neg (by simpa using href), List.filter_nil,
      List.append_nil, hpayouts]
    exact h.payouts

theorem Posts.welcome {amountPaise : Int} (h : Posts a (welcomeCall p amountPaise).posting .credit
    (welcomeCall p amountPaise).key (welcomeCall p amountPaise).draft e) :
    e.referenceType = .some "bonus" ∧ e.idempotencyKey = welcomeKey p ∧ e.userId = p := by
  obtain ⟨hid, hkey⟩ := h.entry_eq
  exact ⟨h.referenceType.1, hkey.trans welcomeCall_key, hid⟩

theorem SiteBooks.welcomed (h : SiteBooks s) {member : Member} {amountPaise : Int} {db : Db}
    (hm : s.members p = .some member) (hnot : member.welcomeBonusGranted = false)
    (hmakes : (welcomeCall p amountPaise).Makes s.db e db) :
    SiteBooks ({ s with db := db }.updateMember p fun m => { m with welcomeBonusGranted := true }) := by
  have hdue : s.granted p = false := by simp [Site.granted, hm, hnot]
  rcases hmakes.effect with ⟨-, hfound⟩ | ⟨rfl, hpost⟩
  · -- the key is not in use, as the bonus is still due
    obtain ⟨hmem, hkey⟩ := Db.findEntry_mem hfound
    rw [welcomeCall_key] at hkey
    rw [(h.bonuses p).mp ⟨e, hmem, hkey⟩] at hdue
    cases hdue
  · obtain ⟨href, hkey, hid⟩ := hpost.welcome
    refine h.posted (.bonus href (hid ▸ hkey)) (by simp [href]) rfl rfl fun u => ?_
    by_cases hu : u = p
    · subst hu
      simp [Site.granted, Site.updateMember, hm, hkey]
    · have hne : e.idempotencyKey ≠ welcomeKey u := fun hk => hu (welcomeKey_injective (hk.symm.trans hkey))
      simp [Site.granted, Site.updateMember, hu, hne]

theorem SiteBooks.adjusted (h : SiteBooks s) {target amountPaise : Int} {reason publicId : String} {db : Db}
    (hmakes : (adjustCall p target amountPaise reason publicId).Makes s.db e db) : SiteBooks { s with db := db } := by
  rcases hmakes.effect with ⟨rfl, -⟩ | ⟨rfl, hpost⟩
  · exact h
  · have href : e.referenceType = .some "admin" := by
      rw [hpost.referenceType.1, adjustCall_posting]
    have hkey : e.idempotencyKey = adjustmentKey publicId := hpost.entry_eq.2.trans adjustCall_key
    refine h.posted (.adjustment href hkey) (by simp [href]) rfl rfl fun u => ?_
    have hne : e.idempotencyKey ≠ welcomeKey u := fun hk => welcomeKey_ne_adjustmentKey (hk.symm.trans hkey)
    simp [Site.granted, hne]

theorem SiteBooks.paidOut (h : SiteBooks s) {publicId kind : String} {amountPaise : Int} {now : Time} {db : Db}
    (hmin : minPayoutPaise ≤ amountPaise) (hnew : ∀ r ∈ s.payouts, r.publicId ≠ publicId)
    (hmakes : (payoutCall p amountPaise publicId).Makes s.db e db) :
    SiteBooks ({ s with db := db }.addPayout ⟨publicId, p, kind, amountPaise, "pending", now⟩) := by
  rcases hmakes.effect with ⟨-, hfound⟩ | ⟨rfl, hpost⟩
  · -- a debit under the key would be that of a request with this id
    obtain ⟨hmem, hkey⟩ := Db.findEntry_mem hfound
    rw [payoutCall_key] at hkey
    have hin : e ∈ s.db.payoutEntries :=
      List.mem_filter.mpr ⟨hmem, by simpa using (h.entries e hmem).of_payoutKey hkey⟩
    obtain ⟨r, hr, hpays⟩ := Tally.exists_match h.payouts hin
    exact absurd (payoutKey_injective (hpays.key.symm.trans hkey)) (hnew r hr)
  · have hkey : e.idempotencyKey = payoutKey publicId := hpost.entry_eq.2.trans payoutCall_key
    have href : e.referenceType = .some "payout" := hpost.referenceType.1
    have hamount : e.amountPaise = -amountPaise := by
      obtain ⟨user, d, -, hdraft, rfl, -⟩ := hpost.drafted
      simp only [payoutCall, WalletCall.draft, debitDraft] at hdraft
      split at hdraft
      · cases hdraft
      · cases hdraft
        rfl
    refine ⟨fun e' he' => ?_, fun u => ?_, ?_, ?_⟩
    · rcases List.mem_append.mp he' with hmem | hmem
      · exact h.entries e' hmem
      · exact List.mem_singleton.mp hmem ▸ .payout href hkey
    · have hne : e.idempotencyKey ≠ welcomeKey u := fun hk => welcomeKey_ne_payoutKey (hk.symm.trans hkey)
      refine Iff.trans ?_ (h.bonuses u)
      simp [Site.addPayout, or_and_right, exists_or, hne]
    · have hentries : (s.db.posted e).payoutEntries = s.db.payoutEntries ++ [e] := by
        rw [Db.payoutEntries, Db.posted_ledger, List.filter_append, List.filter_cons_of_pos (by simpa using href)]
        rfl
      show List.Forall₂ _ (s.db.posted e).payoutEntries (s.payouts ++ [_])
      rw [hentries]
      exact List.rel_append h.payouts (.cons ⟨hpost.entry_eq.1, hamount, hpost.entryType, hkey, hmin⟩ .nil)
    · show ((s.payouts ++ [_]).map PayoutRequest.publicId).Nodup
      rw [List.map_append, List.nodup_append]
      refine ⟨h.ids, List.nodup_singleton _, fun id hid id' hid' => ?_⟩
      obtain ⟨r, hr, rfl⟩ := List.mem_map.mp hid
      obtain rfl := List.mem_singleton.mp hid'
      exact hnew r hr

/-! ## Steps -/

theorem Site.updateMember_granted {f : Member → Member} (hf : ∀ m, (f m).welcomeBonusGranted = m.welcomeBonusGranted)
    (u : Int) : (s.updateMember p f).granted u = s.granted u := by
  simp only [granted, updateMember]
  split
  · rw [Option.any_map]
    exact congrArg (fun g => (s.members u).any g) (funext hf)
  · rfl

theorem Site.setReferralCode_granted (code : String) (now : Time) (u : Int) :
    (s.setReferralCode p code now).granted u = s.granted u :=
  updateMember_granted (s := s) (f := fun m => { m with referralCode := .some code, updatedAt := now }) (fun _ => rfl) u

theorem recordStartHit_ledger (now : Time) (code : String) (visitor : User) (caught : Err → Bool) (db : Db) :
    ((recordStartHit now code visitor).commit caught db).ledger = db.ledger := by
  have hwrites : (recordStartHit now code visitor).Writes fun w => w.Keeps fun d => d.ledger = db.ledger :=
    recordStartHit_writes (fun _ _ _ hd => hd) (fun _ _ hd => hd) _ _
  exact hwrites.commit (fun _ hw => hw) rfl caught

theorem Site.partnered_books (h : SiteBooks s) (user : User) (kind : String) : SiteBooks (s.partnered user kind) := by
  unfold partnered
  dsimp only
  split
  · split
    · exact h.same rfl (fun _ => rfl) rfl
    · exact h.same rfl (fun _ => rfl) rfl
  split
  · split
    · exact h.same rfl (fun _ => rfl) rfl
    · exact h.same rfl (fun _ => rfl) rfl
  · exact h

theorem Site.Step.books (h : s.Step env p s') (hs : SiteBooks s) : SiteBooks s' := by
  cases h with
  | @joined user member code now hnew _ hm _ _ =>
    refine hs.same rfl (fun u => ?_) rfl
    rw [setReferralCode_granted]
    simp only [Site.granted, insertUser]
    split
    · next hu =>
      rw [hu, hnew.id, hm]
      exact hnew.granted
    · rfl
  | renamed => exact hs.same rfl (Site.updateMember_granted fun _ => rfl) rfl
  | coded => exact hs.same rfl (setReferralCode_granted _ _) rfl
  | hit => exact hs.traded ⟨[], by rw [recordStartHit_ledger, List.append_nil], by simp⟩
  | bonus hm hnot hmakes => exact hs.welcomed hm hnot hmakes
  | granted => exact partnered_books hs _ _
  | paidOut hmin hnew hmakes => exact hs.paidOut hmin hnew hmakes
  | adjusted _ hmakes => exact hs.adjusted hmakes
  | crowned | accepted | partnered | applied | reworded | decided | audited => exact hs.same rfl (fun _ => rfl) rfl

theorem Site.Steps.books (h : Site.Steps env p s s') (hs : SiteBooks s) : SiteBooks s' := by
  induction h with
  | refl => exact hs
  | tail _ hstep ih => exact hstep.books ih

end

section

variable {env : SiteEnv} {okOrder : Db → OrderCall → Prop} {okPayment : Db → PaymentCall → Prop} {s₀ s s' : Site}

theorem Unvisited.books (h : Unvisited s) : SiteBooks s := by
  refine ⟨by simp [h.ledger], fun u => by simp [h.ledger, Site.granted, h.members], ?_, by simp [h.payouts]⟩
  rw [Db.payoutEntries, h.ledger, h.payouts]
  exact .nil

theorem SiteRun.books (h : SiteRun env okOrder okPayment s₀ s) (hkeyed : s₀.db.Keyed) (hs : SiteBooks s₀) :
    SiteBooks s := by
  induction h with
  | start => exact hs
  | visit v hrun hv ih => exact (v.steps ((hrun.houseRun hkeyed).keyed hkeyed) hv).books ih
  | order c _ _ _ ih => exact ih.traded (c.traded _ _)
  | payment c _ _ _ ih => exact ih.traded (c.traded _ _)
  | operator _ ho ih => exact ih.same ho.trade.ledger (fun u => by rw [Site.granted, ho.members]; rfl) ho.payouts

/-! ## Bonuses and payouts -/

/-- The user's entries that are bonuses. -/
def Db.bonusesOf (db : Db) (u : Int) : List LedgerEntry :=
  (db.entriesOf u).filter fun e => e.referenceType = .some "bonus"

theorem LedgerEntry.OfSite.of_bonus {e : LedgerEntry} (h : e.OfSite) (href : e.referenceType = .some "bonus") :
    e.idempotencyKey = welcomeKey e.userId := by
  cases h with
  | trade hcause _ => exact absurd (cause_sundry (.inl href)) hcause
  | bonus _ hkey => exact hkey
  | payout hother _ => simp [href] at hother
  | adjustment hother _ => simp [href] at hother

theorem LedgerEntry.OfSite.of_welcomeKey {e : LedgerEntry} (h : e.OfSite) {u : Int}
    (hkey : e.idempotencyKey = welcomeKey u) : e.referenceType = .some "bonus" ∧ e.userId = u := by
  cases h with
  | trade _ hnot => exact absurd hkey (hnot _)
  | bonus href hown => exact ⟨href, welcomeKey_injective (hown.symm.trans hkey)⟩
  | payout _ hk => exact absurd (hkey.symm.trans hk) welcomeKey_ne_payoutKey
  | adjustment _ hk => exact absurd (hkey.symm.trans hk) welcomeKey_ne_adjustmentKey

theorem SiteBooks.bonusesOf (h : SiteBooks s) (hkeys : s.db.KeysOnce) (u : Int) :
    (s.db.bonusesOf u).length = if s.granted u then 1 else 0 := by
  have hmem : ∀ e ∈ s.db.bonusesOf u, e ∈ s.db.ledger ∧ e.idempotencyKey = welcomeKey u := by
    intro e he
    obtain ⟨hmem, href⟩ := List.mem_filter.mp he
    obtain ⟨hmem, hu⟩ := List.mem_filter.mp hmem
    exact ⟨hmem, eq_of_beq hu ▸ (h.entries e hmem).of_bonus (of_decide_eq_true href)⟩
  split
  · next hgranted =>
    -- one at most by its key, and one at least
    have hsame : (s.db.bonusesOf u).map (·.idempotencyKey) = List.replicate (s.db.bonusesOf u).length (welcomeKey u) := by
      rw [List.eq_replicate_iff]
      refine ⟨List.length_map _, fun key hkey => ?_⟩
      obtain ⟨e, he, rfl⟩ := List.mem_map.mp hkey
      exact (hmem e he).2
    have hnodup : ((s.db.bonusesOf u).map (·.idempotencyKey)).Nodup :=
      hkeys.sublist ((List.filter_sublist.trans List.filter_sublist).map _)
    have hmost : (s.db.bonusesOf u).length ≤ 1 := List.nodup_replicate.mp (hsame ▸ hnodup)
    obtain ⟨e, he, hkey⟩ := (h.bonuses u).mpr hgranted
    obtain ⟨href, hu⟩ := (h.entries e he).of_welcomeKey hkey
    have hpos : 0 < (s.db.bonusesOf u).length := List.length_pos_of_mem (a := e)
      (List.mem_filter.mpr ⟨List.mem_filter.mpr ⟨he, beq_iff_eq.mpr hu⟩, decide_eq_true href⟩)
    omega
  · next hdue =>
    refine List.length_eq_zero_iff.mpr (List.eq_nil_iff_forall_not_mem.mpr fun e he => hdue ?_)
    exact (h.bonuses u).mp ⟨e, hmem e he⟩

/-! ## The statement of account -/

/-- What the user was given as bonuses. -/
def Db.given (db : Db) (u : Int) : Int := Tally.inClass (·.referenceType) (·.amountPaise) (db.entriesOf u) (.some "bonus")

/-- What the user's wallet was corrected by. -/
def Db.corrected (db : Db) (u : Int) : Int :=
  Tally.inClass (·.referenceType) (·.amountPaise) (db.entriesOf u) (.some "admin")

/-- What the user asked to be paid out. -/
def Site.paidOut (s : Site) (u : Int) : Int := Tally.inClass (·.userId) (·.amountPaise) s.payouts u

theorem SiteBooks.paidOut_eq (h : SiteBooks s) (u : Int) :
    Tally.inClass (·.referenceType) (·.amountPaise) (s.db.entriesOf u) (.some "payout") = -s.paidOut u := by
  have hswap : (s.db.entriesOf u).filter (fun e => e.referenceType = .some "payout") =
      s.db.payoutEntries.filter fun e => e.userId = u := by
    rw [Db.entriesOf, Db.payoutEntries, List.filter_filter, List.filter_filter]
    refine List.filter_congr fun e _ => ?_
    rw [Bool.and_comm]
    rfl
  have hmatch : Tally.inClass (·.userId) (·.amountPaise) s.db.payoutEntries u =
      Tally.inClass (·.userId) (fun r => -r.amountPaise) s.payouts u :=
    Tally.inClass_match h.payouts (fun _ _ hpays => ⟨hpays.user, hpays.amount⟩) u
  have hneg : Tally.inClass (·.userId) (fun r => -r.amountPaise) s.payouts u = -s.paidOut u := by
    rw [Site.paidOut, Tally.inClass, Tally.inClass, List.sum_neg, List.map_map]
    rfl
  rw [Tally.inClass, hswap, ← hneg, ← hmatch, Tally.inClass]

/-- What was posted for no trade is a bonus, a correction or a payout. -/
theorem SiteBooks.sundry (h : SiteBooks s) (u : Int) :
    s.db.postedFor u .sundry = s.db.given u + s.db.corrected u - s.paidOut u := by
  have hkinds : ∀ e ∈ (s.db.entriesOf u).filter (fun e => e.cause = .sundry),
      e.referenceType ∈ [some "bonus", some "payout", some "admin"] := by
    intro e he
    obtain ⟨hmem, hcause⟩ := List.mem_filter.mp he
    have hsite := h.entries e (List.mem_filter.mp hmem).1
    cases hsite with
    | trade hnot _ => exact absurd (of_decide_eq_true hcause) hnot
    | bonus href _ => simp [href]
    | payout href _ => simp [href]
    | adjustment href _ => simp [href]
  have hclass {k : String} (hk : k = "bonus" ∨ k = "payout" ∨ k = "admin") :
      Tally.inClass (·.referenceType) (·.amountPaise) ((s.db.entriesOf u).filter fun e => e.cause = .sundry) (.some k) =
        Tally.inClass (·.referenceType) (·.amountPaise) (s.db.entriesOf u) (.some k) := by
    refine Tally.inClass_filter fun e _ href => decide_eq_true (LedgerEntry.cause_sundry ?_)
    rcases hk with rfl | rfl | rfl
    · exact .inl href
    · exact .inr (.inl href)
    · exact .inr (.inr href)
  rw [Db.postedFor, Tally.inClass, Tally.sum_classes (fun e : LedgerEntry => e.amountPaise) _ (by decide) hkinds]
  simp only [List.map_cons, List.map_nil, List.sum_cons, List.sum_nil, hclass (.inl rfl), hclass (.inr (.inl rfl)),
    hclass (.inr (.inr rfl)), h.paidOut_eq, Db.given, Db.corrected]
  omega

end

/-- What explains an entry of the ledger: a row of trade, a bonus its user has
had, a payout request, or a correction. -/
inductive Explained (s : Site) (e : LedgerEntry) : Prop
  | trade : e.cause ≠ .sundry → Accounted s.db e → Explained s e
  | bonus : s.granted e.userId = true → e.idempotencyKey = welcomeKey e.userId → Explained s e
  | payout {r : PayoutRequest} : r ∈ s.payouts → e.PaysOut r → Explained s e
  | correction {id : String} : e.referenceType = .some "admin" → e.idempotencyKey = adjustmentKey id → Explained s e

/-- **Every entry is explained**: in every run of the site, each entry of the
ledger is accounted for by a row of trade, or is the one bonus of a user who
has had it, or the debit of a payout request, or a correction by the staff. -/
theorem every_entry_explained {env : SiteEnv} {okOrder : Db → OrderCall → Prop} {okPayment : Db → PaymentCall → Prop}
    {s₀ s : Site} (h₀ : Unvisited s₀) (h : SiteRun env okOrder okPayment s₀ s) : ∀ e ∈ s.db.ledger, Explained s e := by
  intro e he
  have hbooks := h.books h₀.fresh.keyed h₀.books
  have haccounted := (h.houseRun h₀.fresh.keyed).accounted h₀.fresh e he
  cases hbooks.entries e he with
  | trade hcause _ => exact .trade hcause haccounted
  | bonus _ hkey => exact .bonus ((hbooks.bonuses _).mp ⟨e, he, hkey⟩) hkey
  | payout href _ =>
    obtain ⟨r, hr, hpays⟩ := Tally.exists_match hbooks.payouts (List.mem_filter.mpr ⟨he, decide_eq_true href⟩)
    exact .payout hr hpays
  | adjustment href hkey => exact .correction href hkey

theorem every_entry_explained_in_town : settledTown.db.ledger.length = 5 ∧
    ∀ e ∈ settledTown.db.ledger, Explained settledTown e := by
  have hrun : SiteRun townEnv (fun _ _ => True) (fun _ _ => True) openDoors settledTown := settledTown_run
  exact ⟨by decide +kernel, every_entry_explained openDoors_unvisited hrun⟩

/-- **The welcome bonus is credited once**: in every run of the site, a user
has one bonus on the ledger if it was granted, and none otherwise. -/
theorem welcome_bonus_once {env : SiteEnv} {okOrder : Db → OrderCall → Prop} {okPayment : Db → PaymentCall → Prop}
    {s₀ s : Site} (h₀ : Unvisited s₀) (h : SiteRun env okOrder okPayment s₀ s) (u : Int) :
    (s.db.bonusesOf u).length = if s.granted u then 1 else 0 :=
  (h.books h₀.fresh.keyed h₀.books).bonusesOf ((h.houseRun h₀.fresh.keyed).books h₀.fresh).1.keys u

theorem welcome_bonus_once_in_town : settledTown.granted 7 = true ∧
    (settledTown.db.bonusesOf 7).length = if settledTown.granted 7 then 1 else 0 := by
  have hrun : SiteRun townEnv (fun _ _ => True) (fun _ _ => True) openDoors settledTown := settledTown_run
  exact ⟨by decide +kernel, welcome_bonus_once openDoors_unvisited hrun 7⟩

/-- **Every payout request is paid once**: in every run of the site, the payout
requests are, one by one, the payout debits of the ledger, each of its amount,
from the wallet of who asked for it, and no two have the same id. -/
theorem payouts_are_debits {env : SiteEnv} {okOrder : Db → OrderCall → Prop} {okPayment : Db → PaymentCall → Prop}
    {s₀ s : Site} (h₀ : Unvisited s₀) (h : SiteRun env okOrder okPayment s₀ s) :
    List.Forall₂ LedgerEntry.PaysOut s.db.payoutEntries s.payouts ∧ (s.payouts.map (·.publicId)).Nodup :=
  have hbooks := h.books h₀.fresh.keyed h₀.books
  ⟨hbooks.payouts, hbooks.ids⟩

theorem payouts_are_debits_in_town : settledTown.payouts.map (fun r => (r.userId, r.amountPaise)) = [(7, 10000)] ∧
    List.Forall₂ LedgerEntry.PaysOut settledTown.db.payoutEntries settledTown.payouts := by
  have hrun : SiteRun townEnv (fun _ _ => True) (fun _ _ => True) openDoors settledTown := settledTown_run
  exact ⟨by decide +kernel, (payouts_are_debits openDoors_unvisited hrun).1⟩

/-- **The statement of account of a member**: in every run of the site, what is
on a wallet is what was paid in, less what orders have cost, plus what was
earned, given and corrected, less what was asked to be paid out. -/
theorem member_statement_of_account {env : SiteEnv} {okOrder : Db → OrderCall → Prop}
    {okPayment : Db → PaymentCall → Prop} {s₀ s : Site} (h₀ : Unvisited s₀) (h : SiteRun env okOrder okPayment s₀ s)
    {u : Int} {user : User} (hu : s.db.users u = .some user) : user.cachedBalancePaise =
      s.db.paidIn u - s.db.spent u + s.db.referralEarnings u + s.db.given u + s.db.corrected u - s.paidOut u := by
  have hstate : HouseState False s.db := (h.houseRun h₀.fresh.keyed).state (fun hf => hf.elim) h₀.fresh
  have hbalance := hstate.balance hu
  have hsundry := (h.books h₀.fresh.keyed h₀.books).sundry u
  omega

theorem member_statement_of_account_in_town :
    (settledTown.db.paidIn 7, settledTown.db.given 7, settledTown.paidOut 7) = (50000, 5000, 10000) ∧
    ∀ user, settledTown.db.users 7 = .some user → user.cachedBalancePaise =
      settledTown.db.paidIn 7 - settledTown.db.spent 7 + settledTown.db.referralEarnings 7 + settledTown.db.given 7 +
        settledTown.db.corrected 7 - settledTown.paidOut 7 := by
  have hrun : SiteRun townEnv (fun _ _ => True) (fun _ _ => True) openDoors settledTown := settledTown_run
  exact ⟨by decide +kernel, fun user hu => member_statement_of_account openDoors_unvisited hrun hu⟩

/-- **Nobody is paid out what is not there**: in every run in which no order
call releases a charge that was captured already, what a member's orders have
cost and hold back and what was paid out is covered by what came in. -/
theorem payouts_are_covered {env : SiteEnv} {okPayment : Db → PaymentCall → Prop} {s₀ s : Site} (h₀ : Unvisited s₀)
    (h : SiteRun env (fun db c => ¬ c.Overruns db) okPayment s₀ s) {u : Int} {user : User}
    (hu : s.db.users u = .some user) : s.db.spent u + s.db.heldSum u + s.paidOut u ≤
      s.db.paidIn u + s.db.referralEarnings u + s.db.given u + s.db.corrected u := by
  have hstate : HouseState True s.db := (h.houseRun h₀.fresh.keyed).state (fun _ _ _ hc => hc) h₀.fresh
  have hbalance := hstate.balance hu
  have hreserve := hstate.orders.reserve trivial u user hu
  have hcovered := hstate.orders.covered u user hu
  have hsundry := (h.books h₀.fresh.keyed h₀.books).sundry u
  omega

theorem payouts_are_covered_in_town : (settledTown.db.users 7).isSome ∧
    ∀ user, settledTown.db.users 7 = .some user → settledTown.db.spent 7 + settledTown.db.heldSum 7 + settledTown.paidOut 7 ≤
      settledTown.db.paidIn 7 + settledTown.db.referralEarnings 7 + settledTown.db.given 7 + settledTown.db.corrected 7 :=
  ⟨by decide +kernel, fun _ hu => payouts_are_covered openDoors_unvisited settledTown_run hu⟩

end Falaron
