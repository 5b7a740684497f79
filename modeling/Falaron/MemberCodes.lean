/-
Referral codes over whole runs of the site: everyone has one, nobody shares
one, none changes, and a link with it leads to whose it is.
-/
import Falaron.MemberRun

namespace Falaron

open Relation (ReflTransGen)

/-- The user's referral code. -/
def Site.codeOf (s : Site) (u : Int) : Option String := (s.members u).bind (·.referralCode)

/-- The codes of the members, and the index of their column. -/
structure Codes (s : Site) : Prop where
  rows : ∀ u, (s.members u).isSome = (s.db.users u).isSome
  index : ∀ c u, s.db.referralCodes c = .some u ↔ s.codeOf u = .some c
  coded : ∀ u, (s.members u).isSome → ∃ c, s.codeOf u = .some c ∧ CodeText c

/-- No code is given or taken, and no user comes or goes. -/
structure SameCodes (a b : Site) : Prop where
  rows : ∀ u, (b.db.users u).isSome = (a.db.users u).isSome
  index : b.db.referralCodes = a.db.referralCodes
  members : ∀ u, (b.members u).map (·.referralCode) = (a.members u).map (·.referralCode)

section

variable {a b s s' : Site} {env : SiteEnv} {p : Int} {code : String} {now : Time}

theorem SameCodes.of_users (hu : b.db.users = a.db.users) (hc : b.db.referralCodes = a.db.referralCodes)
    (hm : b.members = a.members) : SameCodes a b := ⟨fun _ => by rw [hu], hc, fun _ => by rw [hm]⟩

theorem SameCodes.codeOf (h : SameCodes a b) (u : Int) : b.codeOf u = a.codeOf u := by
  have hsame := congrArg (·.bind id) (h.members u)
  simpa [Option.bind_map, Function.comp_def, Site.codeOf] using hsame

theorem Codes.same (h : Codes a) (hs : SameCodes a b) : Codes b := by
  have hrows (u : Int) : (b.members u).isSome = (a.members u).isSome := by
    simpa using congrArg Option.isSome (hs.members u)
  refine ⟨fun u => ?_, fun c u => ?_, fun u hu => ?_⟩
  · rw [hrows, hs.rows, h.rows]
  · rw [hs.index, hs.codeOf, h.index]
  · rw [hs.codeOf]
    exact h.coded u (by rwa [← hrows])

@[simp] theorem Site.setReferralCode_codeOf (hp : (s.members p).isSome) (u : Int) :
    (s.setReferralCode p code now).codeOf u = if u = p then .some code else s.codeOf u := by
  simp only [codeOf, setReferralCode, updateMember]
  split
  · next hu =>
    obtain ⟨m, hm⟩ := Option.isSome_iff_exists.mp hp
    simp [hu, hm]
  · rfl

/-- A code that is nobody else's goes into the index of the others. -/
theorem Site.setReferralCode_index (hp : (s.members p).isSome) (hfree : s.CodeFree code p)
    (hindex : ∀ c u, u ≠ p → (s.db.referralCodes c = .some u ↔ s.codeOf u = .some c)) (c : String) (u : Int) :
    (s.setReferralCode p code now).db.referralCodes c = .some u ↔
      (s.setReferralCode p code now).codeOf u = .some c := by
  have hentry : (s.setReferralCode p code now).db.referralCodes c =
      if c = code then .some p else (s.db.referralCodes c).filter (· ≠ p) := rfl
  rw [hentry, setReferralCode_codeOf hp]
  by_cases hu : u = p
  · subst hu
    by_cases hc : c = code
    · simp [hc]
    · simp [hc, Ne.symm hc]
  · rw [if_neg hu]
    by_cases hc : c = code
    · subst hc
      rw [if_pos rfl, ← hindex c u hu]
      exact ⟨fun h => absurd (Option.some.inj h).symm hu, fun h => absurd (hfree u h) hu⟩
    · rw [if_neg hc, ← hindex c u hu, Option.filter_eq_some_iff]
      simp [hu]

/-! ## Steps -/

theorem Codes.setReferralCode (hp : (s.members p).isSome) (hrow : (s.db.users p).isSome) (htext : CodeText code)
    (hfree : s.CodeFree code p) (hrows : ∀ u, u ≠ p → (s.members u).isSome = (s.db.users u).isSome)
    (hindex : ∀ c u, u ≠ p → (s.db.referralCodes c = .some u ↔ s.codeOf u = .some c))
    (hcoded : ∀ u, u ≠ p → (s.members u).isSome → ∃ c, s.codeOf u = .some c ∧ CodeText c) :
    Codes (s.setReferralCode p code now) := by
  have hmembers (u : Int) : ((s.setReferralCode p code now).members u).isSome = (s.members u).isSome := by
    simp only [Site.setReferralCode, Site.updateMember]
    split
    · rw [Option.isSome_map]
    · rfl
  refine ⟨fun u => ?_, Site.setReferralCode_index hp hfree hindex, fun u hu => ?_⟩
  · rw [hmembers]
    by_cases hu : u = p
    · subst hu
      exact hp.trans hrow.symm
    · exact hrows u hu
  · rw [hmembers] at hu
    rw [Site.setReferralCode_codeOf hp]
    split
    · exact ⟨code, rfl, htext⟩
    · next hne => exact hcoded u hne hu

theorem Codes.joined (h : Codes s) {user : User} {member : Member} (hid : user.telegramId = p)
    (hm : s.members p = .none) (htext : CodeText code) (hfree : s.CodeFree code p) :
    Codes ((s.insertUser user member).setReferralCode p code now) ∧
      ∀ u c, s.codeOf u = .some c → ((s.insertUser user member).setReferralCode p code now).codeOf u = .some c := by
  subst hid
  have hother (u : Int) (hu : u ≠ user.telegramId) : (s.insertUser user member).members u = s.members u ∧
      (s.insertUser user member).db.users u = s.db.users u := by
    simp [Site.insertUser, hu]
  have hcode (u : Int) (hu : u ≠ user.telegramId) : (s.insertUser user member).codeOf u = s.codeOf u := by
    rw [Site.codeOf, (hother u hu).1, Site.codeOf]
  have hmember : ((s.insertUser user member).members user.telegramId).isSome := by simp [Site.insertUser]
  refine ⟨.setReferralCode hmember (by simp [Site.insertUser]) htext hfree (fun u hu => ?_) (fun c u hu => ?_)
    fun u hu hsome => ?_, fun u c hc => ?_⟩
  · rw [(hother u hu).1, (hother u hu).2]
    exact h.rows u
  · rw [hcode u hu]
    exact h.index c u
  · rw [hcode u hu]
    exact h.coded u (by rwa [(hother u hu).1] at hsome)
  · have hne : u ≠ user.telegramId := by
      intro hu
      simp [Site.codeOf, hu, hm] at hc
    rw [Site.setReferralCode_codeOf hmember, if_neg hne, hcode u hne]
    exact hc

theorem SameCodes.updateUser (f : User → User) : SameCodes s (s.updateUser p f) := by
  refine ⟨fun u => ?_, rfl, fun _ => rfl⟩
  simp only [Site.updateUser]
  split
  · rw [Option.isSome_map]
  · rfl

theorem SameCodes.updateMember {f : Member → Member} (hf : ∀ m, (f m).referralCode = m.referralCode) :
    SameCodes s (s.updateMember p f) := by
  refine ⟨fun _ => rfl, rfl, fun u => ?_⟩
  simp only [Site.updateMember]
  split
  · rw [Option.map_map]
    exact congrArg (fun g => (s.members u).map g) (funext hf)
  · rfl

theorem SameCodes.partnered (user : User) (kind : String) : SameCodes s (s.partnered user kind) := by
  unfold Site.partnered
  dsimp only
  split
  · split
    · have hrole := SameCodes.updateUser (s := s) (p := user.telegramId) fun u => { u with role := .reseller }
      exact ⟨hrole.rows, hrole.index, hrole.members⟩
    · exact .of_users rfl rfl rfl
  split
  · split
    · have hrole := SameCodes.updateUser (s := s) (p := user.telegramId) fun u => { u with role := .promoter }
      exact ⟨hrole.rows, hrole.index, hrole.members⟩
    · exact .of_users rfl rfl rfl
  · exact .of_users rfl rfl rfl

theorem WalletCall.Makes.sameCodes {c : WalletCall} {e : LedgerEntry} {db : Db} (h : c.Makes s.db e db) :
    SameCodes s { s with db := db } := by
  rcases h.effect with ⟨rfl, -⟩ | ⟨rfl, -⟩
  · exact .of_users rfl rfl rfl
  · exact ⟨fun u => Db.posted_isSome u, rfl, fun _ => rfl⟩

theorem SameCodes.hit (visitor : User) : SameCodes s { s with db := (recordStartHit now code visitor).commit (fun _ => false) s.db } := by
  have hwrites : (recordStartHit now code visitor).Writes fun w => w.Keeps fun d =>
      (∀ u, (d.users u).isSome = (s.db.users u).isSome) ∧ d.referralCodes = s.db.referralCodes := by
    refine recordStartHit_writes (fun _ r d hd => ⟨fun u => ?_, hd.2⟩) (fun _ d hd => hd) _ _
    rw [← hd.1 u]
    simp only [Stmt.setReferredBy]
    split
    · rw [Option.isSome_map]
    · rfl
  obtain ⟨hrows, hindex⟩ := hwrites.commit (fun _ hw => hw) ⟨fun _ => rfl, rfl⟩ fun _ => false
  generalize (recordStartHit now code visitor).commit (fun _ => false) s.db = db at hrows hindex
  exact ⟨hrows, hindex, fun _ => rfl⟩

/-- A new code is given to who has none. -/
theorem Site.Step.codes (h : s.Step env p s') (hs : Codes s) :
    Codes s' ∧ ∀ u c, s.codeOf u = .some c → s'.codeOf u = .some c := by
  have hsame (hs' : SameCodes s s') : Codes s' ∧ ∀ u c, s.codeOf u = .some c → s'.codeOf u = .some c :=
    ⟨hs.same hs', fun u c hc => (hs'.codeOf u).trans hc⟩
  cases h with
  | joined hnew _ hm htext hfree => exact hs.joined hnew.id hm htext hfree
  | coded hm hnone _ _ =>
    -- nobody is without a code
    obtain ⟨c, hc, htext⟩ := hs.coded p (by rw [hm]; rfl)
    simp only [Site.codeOf, hm, Option.bind_some] at hc
    rw [hc] at hnone
    exact absurd hnone htext.1
  | renamed => exact hsame (.updateMember fun _ => rfl)
  | crowned | accepted => exact hsame (.updateUser _)
  | partnered | applied | reworded | decided | audited => exact hsame (.of_users rfl rfl rfl)
  | hit => exact hsame (.hit _)
  | granted => exact hsame (.partnered _ _)
  | adjusted _ hmakes => exact hsame hmakes.sameCodes
  | bonus _ _ hmakes =>
    have hmoney := hmakes.sameCodes
    have hflag := SameCodes.updateMember (s := s) (p := p) (f := fun m => { m with welcomeBonusGranted := true }) fun _ => rfl
    exact hsame ⟨hmoney.rows, hmoney.index, hflag.members⟩
  | paidOut _ _ hmakes =>
    have hmoney := hmakes.sameCodes
    exact hsame ⟨hmoney.rows, hmoney.index, hmoney.members⟩

theorem Site.Steps.codes (h : Site.Steps env p s s') (hs : Codes s) :
    Codes s' ∧ ∀ u c, s.codeOf u = .some c → s'.codeOf u = .some c := by
  induction h with
  | refl => exact ⟨hs, fun _ _ hc => hc⟩
  | tail _ hstep ih =>
    obtain ⟨hcodes, hkept⟩ := hstep.codes ih.1
    exact ⟨hcodes, fun u c hc => hkept u c (ih.2 u c hc)⟩

theorem Db.SameHouse.isSome {a b : Db} (h : a.SameHouse b) (u : Int) : (b.users u).isSome = (a.users u).isSome := by
  simpa using congrArg Option.isSome (h.people u)

theorem PaymentCall.sameHouse (c : PaymentCall) (caught : Err → Bool) (db : Db) :
    db.SameHouse (c.prog.commit caught db) := c.routine.commit (fun _ hw => hw.keeps db) (.refl db) caught

theorem SameCodes.of_house {db : Db} (h : s.db.SameHouse db) : SameCodes s { s with db := db } :=
  ⟨h.isSome, h.codes, fun _ => rfl⟩

end

section

variable {env : SiteEnv} {okOrder : Db → OrderCall → Prop} {okPayment : Db → PaymentCall → Prop} {s₀ s s' : Site}

theorem Unvisited.noCodes (h : Unvisited s) : Codes s :=
  ⟨fun u => by rw [h.users, h.members]; rfl, fun c u => by simp [h.codes, Site.codeOf, h.members], fun u hu => by
    simp [h.members] at hu⟩

/-- A run gives codes, and takes none. -/
theorem SiteRun.codes (h : SiteRun env okOrder okPayment s₀ s) (hkeyed : s₀.db.Keyed) (hs : Codes s₀) :
    Codes s ∧ ∀ u c, s₀.codeOf u = .some c → s.codeOf u = .some c := by
  have hsame {a b : Site} (ih : Codes a ∧ ∀ u c, s₀.codeOf u = .some c → a.codeOf u = .some c)
      (hab : SameCodes a b) : Codes b ∧ ∀ u c, s₀.codeOf u = .some c → b.codeOf u = .some c :=
    ⟨ih.1.same hab, fun u c hc => (hab.codeOf u).trans (ih.2 u c hc)⟩
  induction h with
  | start => exact ⟨hs, fun _ _ hc => hc⟩
  | visit v hrun hv ih =>
    obtain ⟨hcodes, hkept⟩ := (v.steps ((hrun.houseRun hkeyed).keyed hkeyed) hv).codes ih.1
    exact ⟨hcodes, fun u c hc => hkept u c (ih.2 u c hc)⟩
  | order c _ _ _ ih => exact hsame ih (.of_house (c.sameHouse _ _))
  | payment c _ _ _ ih => exact hsame ih (.of_house (c.sameHouse _ _))
  | operator _ ho ih => exact hsame ih ⟨ho.rows, ho.codes, fun _ => by rw [ho.members]⟩

/-! ## Links -/

theorem CodeText.between {code : String} (h : CodeText code) {c : Char} (hc : c ∈ code.toList) :
    48 ≤ c.toNat ∧ c.toNat ≤ 90 := by
  have hval : c.toNat = c.val.toNat := rfl
  rcases Bool.or_eq_true_iff.mp (h.2 c hc) with hu | hd
  · have hrange : 'A'.val ≤ c.val ∧ c.val ≤ 'Z'.val := of_decide_eq_true hu
    simp only [UInt32.le_iff_toNat_le] at hrange
    have hA : 'A'.val.toNat = 65 := rfl
    have hZ : 'Z'.val.toNat = 90 := rfl
    omega
  · simp only [Char.isDigit, ge_iff_le, Bool.and_eq_true, decide_eq_true_eq, UInt32.le_iff_toNat_le] at hd
    have h0 : '0'.val.toNat = 48 := rfl
    have h9 : '9'.val.toNat = 57 := rfl
    omega

theorem CodeText.strip {code : String} (h : CodeText code) : Text.strip code = code := by
  rw [Text.strip, Text.stripL_eq_self, String.ofList_toList]
  intro c hc
  have hbetween := h.between hc
  simp only [Text.isSpace, Bool.or_eq_false_iff, Bool.and_eq_false_iff, decide_eq_false_iff_not, beq_eq_false_iff_ne]
  omega

theorem CodeText.upper {code : String} (h : CodeText code) : Text.upper code = code := by
  have hchar : ∀ c ∈ code.toList, Text.upperChar c = [c] := by
    intro c hc
    have hbetween := h.between hc
    have hsame : c.toUpper = c := by
      have ha : 'a'.val.toNat = 97 := rfl
      have hval : c.toNat = c.val.toNat := rfl
      refine dif_neg fun hlower => ?_
      have hle := UInt32.le_iff_toNat_le.mp hlower.1
      omega
    unfold Text.upperChar
    split <;> first | omega | rw [hsame]
  have hchars : code.toList.flatMap Text.upperChar = code.toList := by
    rw [List.flatMap_congr hchar]
    exact List.flatMap_singleton' _
  rw [Text.upper, hchars, String.ofList_toList]

theorem userByReferralCode_run {code : String} (h : CodeText code) (db : Db) :
    (userByReferralCode code).run { db := db } = (.ok ((db.referralCodes code).bind db.users), { db := db }) := by
  simp only [userByReferralCode, h.strip, h.upper, if_neg h.1]
  rfl

/-- Who has not been referred yet is, by whose code it is. -/
theorem recordStartHit_refers {db : Db} {visitor referrer : User} {code : String} (now : Time) (htext : CodeText code)
    (hrow : db.users visitor.telegramId = .some visitor) (hnone : visitor.referredBy = .none)
    (hcode : (db.referralCodes code).bind db.users = .some referrer) (hother : referrer.telegramId ≠ visitor.telegramId) :
    ((recordStartHit now code visitor).commit (fun _ => false) db).referredBy visitor.telegramId =
      .some referrer.telegramId := by
  refine Txn.Prog.commit_of_ok (P := fun db' : Db => db'.referredBy visitor.telegramId = .some referrer.telegramId) ?_
  simp only [recordStartHit, htext.strip, htext.upper, if_neg htext.1, Txn.Prog.wp_bind, userByReferralCode,
    Txn.Prog.wp_query, hcode]
  rw [if_neg (by simpa using hother)]
  simp only [setReferrer, hnone, Option.isNone_none, if_true, Txn.Prog.wp_bind, Txn.Prog.wp_write, List.nil_append,
    List.cons_append]
  refine wp_flush ((Txn.flushAll_cons rfl).trans (Txn.flushAll_cons rfl)) ?_
  rw [Txn.Prog.wp_pure']
  simp [Txn.flushAll, Db.referredBy, Stmt.setReferredBy, Stmt.insertReferralClick, hrow]

/-- Whose code it is, by the index. -/
theorem Codes.row (h : Codes s) {u : Int} {code : String} (hc : s.codeOf u = .some code) :
    s.db.referralCodes code = .some u ∧ CodeText code ∧ (s.db.users u).isSome := by
  have hmember : (s.members u).isSome := by
    cases hm : s.members u with
    | none => simp [Site.codeOf, hm] at hc
    | some _ => rfl
  obtain ⟨c, hown, htext⟩ := h.coded u hmember
  obtain rfl : code = c := Option.some.inj (hc.symm.trans hown)
  exact ⟨(h.index code u).mpr hc, htext, (h.rows u).symm.trans hmember⟩

theorem HouseRun.referred {db₀ db : Db} (h : HouseRun okOrder okPayment db₀ db) (hkeyed : db₀.Keyed) {u id : Int}
    (hid : db₀.referredBy u = .some id) : db.referredBy u = .some id := by
  induction h with
  | start => exact hid
  | order c _ _ _ ih => exact ((c.sameHouse _ _).referredBy u).trans ih
  | payment c _ _ _ ih => exact ((c.sameHouse _ _).referredBy u).trans ih
  | hit now code caught hrun hrow ih =>
    exact (recordStartHit_sameTrade (hrun.keyed hkeyed) hrow now code caught).referred u id ih
  | @wallet db c _ _ ih =>
    obtain ⟨r, he⟩ := c.commit_effect db
    generalize c.prog.commit (fun _ => false) db = db' at he
    cases he with
    | raised => exact ih
    | replayed => exact ih
    | posted => exact (((Db.SameHouse.refl db).posted _).referredBy u).trans ih
  | tables _ hs ih => exact hs.referred u id ih

/-- Who starts on a link and has not been referred yet is referred by whose code it is. -/
theorem cmdStart_refers {profile : Profile} {now : Time} {u : Int} {code : String} {r : Unit} (hkeyed : s.db.Keyed)
    (hcodes : Codes s) (hc : s.codeOf u = .some code) (hother : profile.telegramId ≠ u)
    (hnone : s.db.referredBy profile.telegramId = .none)
    (h : cmdStart env now profile (.some code) s = .ok (r, s')) :
    s'.db.referredBy profile.telegramId = .some u := by
  obtain ⟨user, t, huser, h⟩ := Txn.Request.bind_ok h
  obtain ⟨hsteps, hrow⟩ := ensureUser_leads now profile hkeyed user t huser
  have hrun : HouseRun (fun _ _ => True) (fun _ _ => True) s.db t.db :=
    Site.Steps.houseRun hsteps hkeyed .start
  obtain ⟨hcodes', hkept⟩ := Site.Steps.codes hsteps hcodes
  obtain ⟨hindex, htext, hsome⟩ := hcodes'.row (hkept u code hc)
  obtain ⟨referrer, hreferrer⟩ := Option.isSome_iff_exists.mp hsome
  have hid : referrer.telegramId = u := hrun.keyed hkeyed u referrer hreferrer
  have hpayload : Text.strip ((some code).getD "") = code := htext.strip
  simp only [hpayload] at h
  rcases Txn.Request.onlyIf_ok h with ⟨-, h⟩ | ⟨hempty, -⟩
  · obtain ⟨_, _, hdb, h⟩ := Txn.Request.bind_ok h
    cases h
    rw [onDb_commit hdb]
    dsimp only
    rw [← hrow.id, ← hid]
    refine recordStartHit_refers now htext (hrow.id.symm ▸ hrow.row) (hrow.referredBy.trans hnone) ?_ ?_
    · rw [hindex]
      exact hreferrer
    · rw [hid, hrow.id]
      exact Ne.symm hother
  · exact absurd htext.1 hempty

end

/-- **A referral code is its owner's for good**: in every run of the site,
every user has a code, keeps it whatever comes later, shares it with nobody,
and is who the code is looked up to. -/
theorem referral_codes_stay {env : SiteEnv} {okOrder : Db → OrderCall → Prop} {okPayment : Db → PaymentCall → Prop}
    {s₀ s s' : Site} (h₀ : Unvisited s₀) (h : SiteRun env okOrder okPayment s₀ s)
    (h' : SiteRun env okOrder okPayment s s') {u : Int} (hu : (s.db.users u).isSome) :
    ∃ code, s.codeOf u = .some code ∧ s'.codeOf u = .some code ∧ (∀ v, s'.codeOf v = .some code → v = u) ∧
      (userByReferralCode code).run { db := s'.db } = (.ok (s'.db.users u), { db := s'.db }) := by
  have hkeyed := (h.houseRun h₀.fresh.keyed).keyed h₀.fresh.keyed
  obtain ⟨hcodes, -⟩ := h.codes h₀.fresh.keyed h₀.noCodes
  obtain ⟨hcodes', hkept⟩ := h'.codes hkeyed hcodes
  obtain ⟨code, hc, htext⟩ := hcodes.coded u ((hcodes.rows u).trans hu)
  have hc' := hkept u code hc
  obtain ⟨hindex, -, -⟩ := hcodes'.row hc'
  refine ⟨code, hc, hc', fun v hv => ?_, ?_⟩
  · exact Option.some.inj ((hcodes'.row hv).1.symm.trans hindex)
  · rw [userByReferralCode_run htext, hindex]
    rfl

theorem referral_codes_stay_in_town : (arrivals.codeOf 8, arrivals.codeOf 7) = (.some "4AT24W", .some "UVU5FN") ∧
    ∃ code, arrivals.codeOf 8 = .some code ∧ settledTown.codeOf 8 = .some code ∧
      (∀ v, settledTown.codeOf v = .some code → v = 8) ∧
      (userByReferralCode code).run { db := settledTown.db } = (.ok (settledTown.db.users 8), { db := settledTown.db }) := by
  have hcodes : (arrivals.codeOf 8, arrivals.codeOf 7) = (.some "4AT24W", .some "UVU5FN") ∧
      (arrivals.db.users 8).isSome := by decide +kernel
  have hrun : SiteRun townEnv (fun _ _ => True) (fun _ _ => True) openDoors arrivals := firstArrival_run.arrivals
  exact ⟨hcodes.1, referral_codes_stay openDoors_unvisited hrun SiteRun.start.settledTown hcodes.2⟩

/-- **A link refers to whose code it carries**, however old the link is: who
has not been referred yet and starts on it is referred by the owner of the
code, and stays so in every later run. -/
theorem link_refers_for_good {env : SiteEnv} {okOrder : Db → OrderCall → Prop} {okPayment : Db → PaymentCall → Prop}
    {s₀ s a b s' : Site} (h₀ : Unvisited s₀) (h : SiteRun env okOrder okPayment s₀ s) {u : Int} {code : String}
    (hc : s.codeOf u = .some code) (ha : SiteRun env okOrder okPayment s a) {now : Time} {profile : Profile}
    (hother : profile.telegramId ≠ u) (hnone : a.db.referredBy profile.telegramId = .none)
    (hv : (Visit.start now profile (.some code)).prog env a = .ok ((), b)) (hb : SiteRun env okOrder okPayment b s') :
    s'.db.referredBy profile.telegramId = .some u := by
  have hkeyed := (h.houseRun h₀.fresh.keyed).keyed h₀.fresh.keyed
  obtain ⟨hcodes, -⟩ := h.codes h₀.fresh.keyed h₀.noCodes
  have hkeyed' := (ha.houseRun hkeyed).keyed hkeyed
  obtain ⟨hcodes', hkept⟩ := ha.codes hkeyed hcodes
  have hrefers : b.db.referredBy profile.telegramId = .some u :=
    cmdStart_refers hkeyed' hcodes' (hkept u code hc) hother hnone hv
  have hrunb : HouseRun okOrder okPayment a.db b.db := (Visit.steps hkeyed' hv).houseRun hkeyed' .start
  exact (hb.houseRun (hrunb.keyed hkeyed')).referred (hrunb.keyed hkeyed') hrefers

/-- User 7 comes on the link of user 8. -/
theorem link_refers_for_good_in_town : settledTown.db.referredBy 7 = .some 8 := by
  have hfirst : firstArrival.codeOf 8 = .some "4AT24W" ∧ firstArrival.db.referredBy 7 = .none ∧
      ((Visit.start 2 (visitor 7) (.some "4AT24W")).prog townEnv firstArrival).isOk = true := by decide +kernel
  have hrun : SiteRun townEnv (fun _ _ => True) (fun _ _ => True) openDoors firstArrival := firstArrival_run
  have hlater : SiteRun townEnv (fun _ _ => True) (fun _ _ => True)
      (afterVisits townEnv firstArrival [.start 2 (visitor 7) (.some "4AT24W")]) settledTown :=
    SiteRun.settledTown SiteRun.start.visits
  have hother : (visitor 7).telegramId ≠ 8 := by decide
  exact link_refers_for_good openDoors_unvisited hrun hfirst.1 SiteRun.start hother hfirst.2.1
    (afterVisits_ok hfirst.2.2) hlater

end Falaron
