/-
What a request of a member can change.

Whatever a request does, it does by steps of these (`Visit.steps`): on the
row, the code, the wallet and the applications of who makes it, or, where the
step says so, as one of the staff.
-/
import Falaron.Members
import Falaron.OrderPostings

namespace Falaron

open Txn.Request
open Relation (ReflTransGen)

/-! ## Codes -/

/-- Made of capitals and digits only. -/
def CodeText (code : String) : Prop := code ≠ "" ∧ ∀ c ∈ code.toList, (c.isUpper || c.isDigit) = true

theorem referralAlphabet_chars : referralAlphabet.all (fun c => c.isUpper || c.isDigit) = true := by decide +kernel

theorem makeReferralCode_codeText (env : SiteEnv) (u : Int) : CodeText (makeReferralCode env u) := by
  refine ⟨fun h => ?_, fun c hc => ?_⟩
  · have hlen := congrArg (fun s : String => s.toList.length) h
    simp [makeReferralCode] at hlen
  · simp only [makeReferralCode, String.toList_ofList, List.mem_map] at hc
    obtain ⟨b, -, rfl⟩ := hc
    rw [List.getD_eq_getElem?_getD]
    cases hget : referralAlphabet[b.toNat % referralAlphabet.length]? with
    | none => rfl
    | some c => exact List.all_eq_true.mp referralAlphabet_chars c (List.mem_of_getElem? hget)

theorem CodeText.digit {code : String} (h : CodeText code) (n : Int) : CodeText (code ++ toString (n % 9)) := by
  have hdigit : (toString (n % 9)).toList.all (fun c => c.isUpper || c.isDigit) = true := by
    have hcases : n % 9 = 0 ∨ n % 9 = 1 ∨ n % 9 = 2 ∨ n % 9 = 3 ∨ n % 9 = 4 ∨ n % 9 = 5 ∨ n % 9 = 6 ∨ n % 9 = 7 ∨
        n % 9 = 8 := by omega
    rcases hcases with h | h | h | h | h | h | h | h | h <;> rw [h] <;> rfl
  refine ⟨fun he => h.1 ?_, fun c hc => ?_⟩
  · have hlen := congrArg (fun s : String => s.toList.length) he
    simp only [String.toList_append, List.length_append, String.toList_empty, List.length_nil] at hlen
    exact String.toList_inj.mp (List.length_eq_zero_iff.mp (by omega))
  · rw [String.toList_append, List.mem_append] at hc
    exact hc.elim (h.2 c) (List.all_eq_true.mp hdigit c)

theorem Site.newReferralCode_codeText (s : Site) (env : SiteEnv) (u : Int) : CodeText (s.newReferralCode env u) := by
  unfold Site.newReferralCode
  dsimp only
  split
  · exact (makeReferralCode_codeText env u).digit u
  · exact makeReferralCode_codeText env u

/-! ## Steps -/

/-- The row of who makes the request says so, or the settings. -/
def Site.Staff (s : Site) (env : SiteEnv) (p : Int) : Prop :=
  ∃ user, s.db.users p = .some user ∧ env.isStaff user = true

/-- The code is nobody else's. -/
def Site.CodeFree (s : Site) (code : String) (p : Int) : Prop := ∀ u, s.db.referralCodes code = .some u → u = p

/-- The call succeeds with `e`, and leaves the tables `db'`. -/
def WalletCall.Makes (c : WalletCall) (db : Db) (e : LedgerEntry) (db' : Db) : Prop :=
  c.prog.run { db := db } = (.ok e, { db := db' })

/-- The row of a new user: an empty wallet, no code and no bonus yet. -/
structure NewRow (env : SiteEnv) (p : Int) (user : User) (member : Member) : Prop where
  id : user.telegramId = p
  balance : user.cachedBalancePaise = 0
  reserved : user.cachedReservedPaise = 0
  referredBy : user.referredBy = .none
  role : user.role = .user ∨ p = env.ownerTelegramId
  granted : member.welcomeBonusGranted = false

def welcomeCall (p amountPaise : Int) : WalletCall :=
  .credit ⟨p, amountPaise, "Welcome bonus", .some "bonus", .some "welcome"⟩ (.some (welcomeKey p))

def payoutCall (p amountPaise : Int) (publicId : String) : WalletCall :=
  .debit ⟨p, amountPaise, s!"Payout request {publicId}", .some "payout", .some publicId⟩ (.some (payoutKey publicId))

def adjustCall (p target amountPaise : Int) (reason publicId : String) : WalletCall :=
  let posting : Posting := ⟨target, |amountPaise|, s!"Admin: {reason}", .some "admin", .some (toString p)⟩
  if 0 < amountPaise then .credit posting (.some (adjustmentKey publicId))
  else .debit posting (.some (adjustmentKey publicId))

namespace Site

/-- What a request of `p` changes at a time. -/
inductive Step (env : SiteEnv) (p : Int) (s : Site) : Site → Prop
  | joined {user member code now} : NewRow env p user member → s.db.users p = .none → s.members p = .none →
      CodeText code → s.CodeFree code p → Step env p s ((s.insertUser user member).setReferralCode p code now)
  | renamed {profile now} : Step env p s (s.updateMember p fun m => { m.renamed profile with updatedAt := now })
  | coded {member code now} : s.members p = .some member → member.referralCode.getD "" = "" → CodeText code →
      s.CodeFree code p → Step env p s (s.setReferralCode p code now)
  | crowned : p = env.ownerTelegramId → Step env p s (s.updateUser p fun u => { u with role := .owner })
  | accepted : Step env p s (s.updateUser p fun u => { u with termsAccepted := true })
  | partnered {discountBp} : s.Staff env p →
      Step env p s ((s.setReseller p ⟨p, discountBp, true⟩).setPromoter p true)
  | hit {visitor now code} : s.db.users p = .some visitor → visitor.telegramId = p →
      Step env p s { s with db := (recordStartHit now code visitor).commit (fun _ => false) s.db }
  | bonus {member amountPaise e db} : s.members p = .some member → member.welcomeBonusGranted = false →
      (welcomeCall p amountPaise).Makes s.db e db →
      Step env p s ({ s with db := db }.updateMember p fun m => { m with welcomeBonusGranted := true })
  | applied {kind pitch now} : s.pendingApplication p kind = .none →
      Step env p s (s.addApplication ⟨s.applications.length + 1, p, kind, pitch, .pending, now⟩)
  | reworded {kind a pitch} : s.pendingApplication p kind = .some a →
      Step env p s (s.updateApplication a.id fun a => { a with pitch := pitch })
  | decided {a status} : s.Staff env p → a ∈ s.applications → status ≠ .pending →
      Step env p s (s.updateApplication a.id fun a => { a with status := status })
  | granted {a user} : s.Staff env p → a ∈ s.applications → s.db.users a.userId = .some user →
      Step env p s (s.partnered user a.kind)
  | paidOut {publicId kind amountPaise now e db} : minPayoutPaise ≤ amountPaise →
      (∀ r ∈ s.payouts, r.publicId ≠ publicId) → (payoutCall p amountPaise publicId).Makes s.db e db →
      Step env p s ({ s with db := db }.addPayout ⟨publicId, p, kind, amountPaise, "pending", now⟩)
  | adjusted {target amountPaise reason publicId e db} : s.Staff env p →
      (adjustCall p target amountPaise reason publicId).Makes s.db e db → Step env p s { s with db := db }
  | audited {a} : Step env p s { s with db := { s.db with audits := s.db.audits ++ [a] } }

/-- The steps of one request. -/
abbrev Steps (env : SiteEnv) (p : Int) : Site → Site → Prop := ReflTransGen (Step env p)

end Site

section

variable {env : SiteEnv} {p : Int} {s s' : Site} {α : Type} {Q : α → Site → Prop}

theorem onDb_ok {m : M α} {a : α} (h : onDb m s = .ok (a, s')) : ∃ t db, m.run { db := s.db } = (.ok a, t) ∧
    Txn.flushAll t.staged t.db = .some db ∧ s' = { s with db := db } := by
  unfold onDb at h
  split at h
  · cases h
  · next a t hrun =>
    split at h
    · next db hflush =>
      cases h
      exact ⟨t, db, hrun, hflush, rfl⟩
    · cases h

/-- What is committed when all goes well. -/
theorem onDb_commit {m : M α} {a : α} (h : onDb m s = .ok (a, s')) :
    s' = { s with db := m.commit (fun _ => false) s.db } := by
  obtain ⟨t, db, hrun, hflush, rfl⟩ := onDb_ok h
  rw [Txn.Prog.commit, hrun]
  simp only [hflush, Option.getD_some]

theorem onDb_makes {c : WalletCall} {e : LedgerEntry} (h : onDb c.prog s = .ok (e, s')) :
    ∃ db, c.Makes s.db e db ∧ s' = { s with db := db } := by
  obtain ⟨t, db, hrun, hflush, rfl⟩ := onDb_ok h
  obtain ⟨r, db', hr, -⟩ := c.run_effect s.db
  rw [hr] at hrun
  cases hrun
  obtain rfl : db' = db := Option.some.inj hflush
  exact ⟨db', hr, rfl⟩

/-! ## Registration -/

theorem ensureReferralCode_ok {now : Time} {code : String} (h : ensureReferralCode env now p s = .ok (code, s')) :
    ((s.members p).bind (·.referralCode)).getD "" ≠ "" ∧ s' = s ∨
    ((s.members p).bind (·.referralCode)).getD "" = "" ∧ CodeText code ∧ s.CodeFree code p ∧
      s' = s.setReferralCode p code now := by
  obtain ⟨_, _, hget, h⟩ := bind_ok h
  cases hget
  generalize hown : ((s.members p).bind (·.referralCode)).filter (· ≠ "") = own at h
  cases own with
  | some c =>
    cases h
    obtain ⟨hcode, hne⟩ := Option.filter_eq_some_iff.mp hown
    exact .inl ⟨by simpa [hcode] using hne, rfl⟩
  | none =>
    obtain ⟨_, t, hfree, h⟩ := bind_ok h
    rcases onlyIf_ok hfree with ⟨-, hthrow⟩ | ⟨hother, rfl⟩
    · cases hthrow
    obtain ⟨_, _, hset, h⟩ := bind_ok h
    cases hset
    cases h
    refine .inr ⟨?_, s.newReferralCode_codeText env p, fun u hu => ?_, rfl⟩
    · cases hcode : (s.members p).bind (·.referralCode) with
      | none => rfl
      | some c => simpa [hcode] using hown
    · simpa [hu] using hother

theorem ensureReferralCode_leads {now : Time} {member : Member} (hm : s.members p = .some member)
    (hnone : member.referralCode.getD "" = "") :
    Leads (Site.Step env p) (ensureReferralCode env now p) s fun _ t => t.db.users p = s.db.users p := by
  intro code s' h
  rcases ensureReferralCode_ok h with ⟨-, rfl⟩ | ⟨-, htext, hfree, rfl⟩
  · exact ⟨.refl, rfl⟩
  · exact ⟨.single (.coded hm hnone htext hfree), rfl⟩

theorem Site.updateUser_row {f : User → User} {user : User} (h : s.db.users p = .some user) :
    (s.updateUser p f).db.users p = .some (f user) := by
  simp [updateUser, h]

theorem Site.updateMember_row {f : Member → Member} {member : Member} (h : s.members p = .some member) :
    (s.updateMember p f).members p = .some (f member) := by
  simp [updateMember, h]

theorem ensureOwnerPartners_leads {user : User} (hrow : s.db.users p = .some user) (hid : user.telegramId = p) :
    Leads (Site.Step env p) (ensureOwnerPartners user) s fun _ t => t.db.users p = .some user := by
  refine leads_onlyIf (fun hrole => leads_get_bind (leads_set (.single ?_) hrow)) fun _ => hrow
  rw [hid]
  refine .partnered ⟨user, hrow, ?_⟩
  simp only [List.mem_cons, List.not_mem_nil, or_false] at hrole
  simp [SiteEnv.isStaff, hrole.symm]

/-- The row of who makes a request, once it is registered. -/
structure Registered (s : Site) (p : Int) (user : User) (t : Site) : Prop where
  row : t.db.users p = .some user
  id : user.telegramId = p
  referredBy : user.referredBy = s.db.referredBy p

theorem greetUser_leads (now : Time) (profile : Profile) {owner : Bool} {user : User} {member : Member}
    (howner : owner = true → profile.telegramId = env.ownerTelegramId) (hid : user.telegramId = profile.telegramId)
    (hu : s.db.users profile.telegramId = .some user) (hm : s.members profile.telegramId = .some member) :
    Leads (Site.Step env profile.telegramId) (greetUser env now profile owner user member) s
      (Registered s profile.telegramId) := by
  unfold greetUser
  extract_lets promoted coded greeted
  have hgreeted : greeted.telegramId = profile.telegramId := by
    unfold greeted
    split
    · exact hid
    · exact hid
  have hreferred : greeted.referredBy = s.db.referredBy profile.telegramId := by
    rw [Db.referredBy, hu]
    unfold greeted
    split
    · rfl
    · rfl
  -- the row after the first change, then the code as it was, then the row alone
  refine leads_bind (Q := fun _ t => t.db.users profile.telegramId = .some greeted ∧
    t.members profile.telegramId = .some member) (leads_onlyIf (fun hpromoted => ?_) fun hpromoted => ?_) ?_
  · have howned : owner = true := by
      simp only [promoted, Bool.and_eq_true] at hpromoted
      exact hpromoted.1
    refine leads_modify (.single (.crowned (howner howned))) ⟨(Site.updateUser_row hu).trans ?_, hm⟩
    simp [greeted, hpromoted]
  · exact ⟨hu.trans (by simp [greeted, hpromoted]), hm⟩
  rintro - t ⟨hrow, hmember⟩
  refine leads_bind (Q := fun _ t => t.db.users profile.telegramId = .some greeted ∧
    ∃ m, t.members profile.telegramId = .some m ∧ m.referralCode = member.referralCode)
    (leads_onlyIf (fun _ => leads_modify (.single .renamed) ⟨hrow, _, Site.updateMember_row hmember, rfl⟩)
      fun _ => ⟨hrow, member, hmember, rfl⟩) ?_
  rintro - t ⟨hrow, m, hmember, hcode⟩
  refine leads_bind (Q := fun _ t => t.db.users profile.telegramId = .some greeted)
    (leads_onlyIf (fun hcoded => ?_) fun _ => hrow) fun _ t hrow => ?_
  · have hnone : m.referralCode.getD "" = "" := by
      rw [hcode]
      exact eq_of_beq hcoded
    exact leads_bind (ensureReferralCode_leads hmember hnone) fun _ _ hsame => leads_pure (hsame.trans hrow)
  exact leads_bind (leads_onlyIf (fun _ => ensureOwnerPartners_leads hrow hgreeted) fun _ => hrow)
    fun _ t hrow => leads_pure ⟨hrow, hgreeted, hreferred⟩

theorem joinUser_leads (now : Time) (profile : Profile) {owner : Option Int}
    (howner : owner = .some profile.telegramId → profile.telegramId = env.ownerTelegramId)
    (hu : s.db.users profile.telegramId = .none) (hm : s.members profile.telegramId = .none) :
    Leads (Site.Step env profile.telegramId) (joinUser env now profile owner) s
      (Registered s profile.telegramId) := by
  have hnew : NewRow env profile.telegramId (profile.user owner) (profile.member now) := by
    refine ⟨rfl, rfl, rfl, rfl, ?_, rfl⟩
    by_cases ho : owner = .some profile.telegramId
    · exact .inr (howner ho)
    · exact .inl (if_neg ho)
  intro user s' h
  obtain ⟨_, t, hmodify, h⟩ := bind_ok h
  cases hmodify
  obtain ⟨code, t, hcode, h⟩ := bind_ok h
  -- the row goes in together with its code
  have hjoined : Site.Step env profile.telegramId s t ∧
      t.db.users profile.telegramId = .some (profile.user owner) := by
    rcases ensureReferralCode_ok hcode with ⟨hcoded, -⟩ | ⟨-, htext, hfree, rfl⟩
    · exact absurd (by simp [Site.insertUser, Profile.user, Profile.member]) hcoded
    · exact ⟨.joined hnew hu hm htext hfree, if_pos rfl⟩
  have hrest : Leads (Site.Step env profile.telegramId) (do
      onlyIf ((profile.user owner).role = .owner) (ensureOwnerPartners (profile.user owner))
      pure (profile.user owner)) t (Registered s profile.telegramId) :=
    leads_bind (leads_onlyIf (fun _ => ensureOwnerPartners_leads hjoined.2 rfl) fun _ => hjoined.2)
      fun _ t hrow => leads_pure ⟨hrow, rfl, by simp [Db.referredBy, hu, Profile.user]⟩
  exact (hrest user s' h).imp_left (.head hjoined.1)

theorem ensureUser_leads (now : Time) (profile : Profile) (hkeyed : s.db.Keyed) :
    Leads (Site.Step env profile.telegramId) (ensureUser env now profile) s (Registered s profile.telegramId) := by
  refine leads_get_bind ?_
  split
  · next user member hu hm => exact greetUser_leads now profile (by simp [eq_comm]) (hkeyed _ user hu) hu hm
  · next hu hm => exact joinUser_leads now profile (by simp [eq_comm]) hu hm
  · exact leads_throw _

/-! ## The requests -/

theorem cmdStart_leads (now : Time) (profile : Profile) (args : Option String) (hkeyed : s.db.Keyed) :
    Leads (Site.Step env profile.telegramId) (cmdStart env now profile args) s fun _ _ => True := by
  refine leads_bind (ensureUser_leads now profile hkeyed) fun user t hrow => leads_onlyIf (fun _ => ?_) fun _ => trivial
  refine leads_bind (Q := fun _ _ => True) (fun a t' h => ?_) fun _ _ _ => leads_pure trivial
  rw [onDb_commit h]
  exact ⟨.single (.hit hrow.row hrow.id), trivial⟩

theorem loadMember_ok {user : User} {member : Member} (h : loadMember p s = .ok ((user, member), s')) :
    s.members p = .some member ∧ s = s' := by
  obtain ⟨_, _, hget, h⟩ := bind_ok h
  cases hget
  cases hu : s.db.users p with
  | none =>
    rw [hu] at h
    cases h
  | some x =>
    cases hm : s.members p with
    | none =>
      rw [hu, hm] at h
      cases h
    | some m =>
      rw [hu, hm] at h
      cases h
      exact ⟨rfl, rfl⟩

theorem acceptTerms_leads (now : Time) (profile : Profile) (hkeyed : s.db.Keyed) :
    Leads (Site.Step env profile.telegramId) (acceptTerms env now profile) s fun _ _ => True := by
  refine leads_bind (ensureUser_leads now profile hkeyed) fun user t hrow => ?_
  refine leads_bind (Q := fun _ _ => True)
    (leads_onlyIf (fun _ => leads_modify (.single .accepted) trivial) fun _ => trivial) fun _ t _ => ?_
  intro u s' h
  obtain ⟨⟨user, member⟩, t₁, hload, h⟩ := bind_ok h
  obtain ⟨hmember, rfl⟩ := loadMember_ok hload
  obtain ⟨_, _, hget, h⟩ := bind_ok h
  cases hget
  rcases onlyIf_ok h with ⟨hdue, h⟩ | ⟨-, rfl⟩
  · obtain ⟨e, t₁, hcredit, h⟩ := bind_ok h
    obtain ⟨db, hmakes, rfl⟩ := onDb_makes (c := welcomeCall profile.telegramId (t.welcomeBonus env)) hcredit
    cases h
    simp only [Bool.and_eq_true, Bool.not_eq_true'] at hdue
    exact ⟨.single (.bonus hmember hdue.1 hmakes), trivial⟩
  · exact ⟨.refl, trivial⟩

theorem apply_leads (now : Time) (profile : Profile) (kind text : String) (hkeyed : s.db.Keyed) :
    Leads (Site.Step env profile.telegramId) (apply env now profile kind text) s fun _ _ => True := by
  refine leads_onlyIf (fun _ => ?_) fun _ => trivial
  refine leads_bind (ensureUser_leads now profile hkeyed) fun user t hrow => leads_get_bind ?_
  rw [hrow.id]
  split
  · next existing hpending => exact leads_set (.single (.reworded hpending)) trivial
  · next hpending => exact leads_set (.single (.applied hpending)) trivial

/-- The decision, then the rights that go with it. -/
theorem approveApplication_leads {a : RoleApplication} (hstaff : s.Staff env p) (ha : a ∈ s.applications) :
    Leads (Site.Step env p) (approveApplication a) s fun _ _ => True := by
  have hdecided : Site.Step env p s (s.updateApplication a.id fun a => { a with status := .approved }) :=
    .decided hstaff ha (by decide)
  have hmem : { a with status := .approved } ∈ (s.updateApplication a.id fun a => { a with status := .approved }).applications :=
    List.mem_map.mpr ⟨a, ha, if_pos rfl⟩
  refine leads_get_bind ?_
  dsimp only
  split
  · exact leads_set (.single hdecided) trivial
  · next user hu => exact leads_set (.tail (.single hdecided) (.granted (a := { a with status := .approved }) hstaff hmem hu)) trivial

theorem decideApplication_leads (now : Time) (profile : Profile) (id : Nat) (approve : Bool) (hkeyed : s.db.Keyed) :
    Leads (Site.Step env profile.telegramId) (decideApplication env now profile id approve) s fun _ _ => True := by
  refine leads_bind (ensureUser_leads now profile hkeyed) fun user t hrow => leads_onlyIf (fun hstaff => ?_) fun _ => trivial
  have hstaff : t.Staff env profile.telegramId := ⟨user, hrow.row, hstaff⟩
  refine leads_get_bind ?_
  split
  · exact leads_pure trivial
  · next a ha =>
    have hmem := List.mem_of_find?_eq_some ha
    refine leads_ite (fun _ => approveApplication_leads hstaff hmem) fun _ => ?_
    exact leads_modify (.single (.decided hstaff hmem (by decide))) trivial

theorem leads_catchWallet {m : SiteM Unit} {P : Unit → Site → Prop} (h : Leads (Site.Step env p) m s P) (h' : P () s) :
    Leads (Site.Step env p) (catchWallet m) s P := by
  intro u s' hr
  unfold catchWallet at hr
  split at hr
  · split at hr
    · cases hr
      exact ⟨.refl, h'⟩
    · cases hr
  · exact h u s' hr

theorem payout_leads (now : Time) (profile : Profile) (publicId kind : String) (amountPaise : Int)
    (hkeyed : s.db.Keyed) :
    Leads (Site.Step env profile.telegramId) (payout env now profile publicId kind amountPaise) s fun _ _ => True := by
  refine leads_bind (ensureUser_leads now profile hkeyed) fun user t hrow => leads_catchWallet ?_ trivial
  intro u s' h
  obtain ⟨_, _, hmin, h⟩ := bind_ok h
  rcases onlyIf_ok hmin with ⟨-, hthrow⟩ | ⟨hmin, rfl⟩
  · cases hthrow
  obtain ⟨_, _, hfunds, h⟩ := bind_ok h
  rcases onlyIf_ok hfunds with ⟨-, hthrow⟩ | ⟨-, rfl⟩
  · cases hthrow
  obtain ⟨e, _, hdebit, h⟩ := bind_ok h
  obtain ⟨db, hmakes, rfl⟩ := onDb_makes (c := payoutCall user.telegramId amountPaise publicId) hdebit
  obtain ⟨_, _, hget, h⟩ := bind_ok h
  cases hget
  obtain ⟨_, _, hunique, h⟩ := bind_ok h
  rcases onlyIf_ok hunique with ⟨-, hthrow⟩ | ⟨hother, rfl⟩
  · cases hthrow
  cases h
  rw [hrow.id] at hmakes ⊢
  refine ⟨.single (.paidOut (by omega) (fun r hr hid => hother ?_) hmakes), trivial⟩
  exact List.any_eq_true.mpr ⟨r, hr, by simpa using hid⟩

theorem adminGotReason_leads (now : Time) (profile : Profile) (text : String) (target amountPaise : Int)
    (publicId : String) (hkeyed : s.db.Keyed) :
    Leads (Site.Step env profile.telegramId) (adminGotReason env now profile text target amountPaise publicId) s
      fun _ _ => True := by
  refine leads_bind (ensureUser_leads now profile hkeyed) fun actor t hrow => leads_get_bind ?_
  refine leads_onlyIf (fun hstaff => leads_catchWallet ?_ trivial) fun _ => trivial
  simp only [Bool.and_eq_true] at hstaff
  have hstaff : t.Staff env profile.telegramId := ⟨actor, hrow.row, hstaff.1.1⟩
  refine leads_bind (Q := fun _ _ => True) (fun e t' h => ?_) fun _ t' _ => ?_
  · have hprog : adjust actor target amountPaise (Text.strip text) publicId =
        (adjustCall profile.telegramId target amountPaise (Text.strip text) publicId).prog := by
      unfold adjust adjustCall
      rw [hrow.id]
      split
      · rfl
      · rfl
    rw [hprog] at h
    obtain ⟨db, hmakes, rfl⟩ := onDb_makes h
    exact ⟨.single (.adjusted hstaff hmakes), trivial⟩
  · intro u s' h
    rw [onDb_commit h]
    exact ⟨.single .audited, trivial⟩

/-- The steps of a request that succeeds. -/
theorem Visit.steps {v : Visit} (hkeyed : s.db.Keyed) (h : v.prog env s = .ok ((), s')) :
    Site.Steps env v.profile.telegramId s s' := by
  cases v with
  | start now profile args => exact (cmdStart_leads now profile args hkeyed () s' h).1
  | acceptTerms now profile => exact (acceptTerms_leads now profile hkeyed () s' h).1
  | apply now profile kind text => exact (apply_leads now profile kind text hkeyed () s' h).1
  | decide now profile id approve => exact (decideApplication_leads now profile id approve hkeyed () s' h).1
  | payout now profile publicId kind amountPaise =>
    exact (payout_leads now profile publicId kind amountPaise hkeyed () s' h).1
  | adjust now profile text target amountPaise publicId =>
    exact (adminGotReason_leads now profile text target amountPaise publicId hkeyed () s' h).1

end

end Falaron
