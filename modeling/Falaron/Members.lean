/-
The people of the house: who they are, under which code they refer others,
who is a partner, and what they are given, corrected and paid out.

A request is one transaction: what it changes goes in together, and when it
raises, nothing does. `Site` is the tables of the money with the tables and
columns only these requests use.
-/
import Falaron.House
import Falaron.Py.Number
import Falaron.Txn.Request

namespace Falaron

open Text (clip strip)
open Txn.Request (onlyIf)

def minPayoutPaise : Int := 10000

/-- The columns of a user's row that the money does not read. -/
structure Member where
  username : Option String
  firstName : Option String
  lastName : Option String
  languageCode : String
  referralCode : Option String := .none
  welcomeBonusGranted : Bool := false
  updatedAt : Time
  deriving DecidableEq, Repr

inductive ApplicationStatus where
  | pending | approved | rejected
  deriving DecidableEq, Repr

structure RoleApplication where
  id : Nat
  userId : Int
  kind : String
  pitch : String
  status : ApplicationStatus
  createdAt : Time
  deriving DecidableEq, Repr

structure PayoutRequest where
  publicId : String
  userId : Int
  kind : String
  amountPaise : Int
  status : String
  createdAt : Time
  deriving DecidableEq, Repr

/-- A promoter's row says whether it is active. -/
structure Site where
  db : Db := {}
  members : Int → Option Member := fun _ => .none
  promoters : Int → Option Bool := fun _ => .none
  applications : List RoleApplication := []
  payouts : List PayoutRequest := []

/-- What the settings say. `sha256` is the digest of a text. -/
structure SiteEnv where
  sha256 : String → Vector UInt8 32
  ownerTelegramId : Int
  welcomeBonusPaise : Int

abbrev SiteM := StateT Site (Except Err)

/-- What Telegram says of who is writing. -/
structure Profile where
  telegramId : Int
  username : Option String := .none
  firstName : Option String := .none
  lastName : Option String := .none
  languageCode : Option String := .none

namespace Site

variable (s : Site)

def updateUser (u : Int) (f : User → User) : Site :=
  { s with db := { s.db with users := fun v => if v = u then (s.db.users v).map f else s.db.users v } }

def updateMember (u : Int) (f : Member → Member) : Site :=
  { s with members := fun v => if v = u then (s.members v).map f else s.members v }

/-- A new row in `users`. -/
def insertUser (user : User) (member : Member) : Site :=
  { s with
    db := { s.db with users := fun v => if v = user.telegramId then .some user else s.db.users v }
    members := fun v => if v = user.telegramId then .some member else s.members v }

/-- `user.referral_code = code`, in the row and in the index of the unique column. -/
def setReferralCode (u : Int) (code : String) (now : Time) : Site :=
  { s.updateMember u fun m => { m with referralCode := .some code, updatedAt := now } with
    db := { s.db with referralCodes := fun c =>
      if c = code then .some u else (s.db.referralCodes c).filter (· ≠ u) } }

def setReseller (u : Int) (r : Reseller) : Site :=
  { s with db := { s.db with resellers := fun v => if v = u then .some r else s.db.resellers v } }

def setPromoter (u : Int) (active : Bool) : Site :=
  { s with promoters := fun v => if v = u then .some active else s.promoters v }

def addApplication (a : RoleApplication) : Site := { s with applications := s.applications ++ [a] }

def updateApplication (id : Nat) (f : RoleApplication → RoleApplication) : Site :=
  { s with applications := s.applications.map fun a => if a.id = id then f a else a }

def addPayout (r : PayoutRequest) : Site := { s with payouts := s.payouts ++ [r] }

end Site

/-- A program on the tables of the money, all of it written. -/
def onDb {α : Type} (m : M α) : SiteM α := fun s =>
  match m.run { db := s.db } with
  | (.error e, _) => .error e
  | (.ok a, t) =>
    match Txn.flushAll t.staged t.db with
    | .some db => .ok (a, { s with db := db })
    | .none => .error .integrity

/-! ## Referral codes and partners -/

def referralAlphabet : List Char := "ABCDEFGHJKLMNPQRSTUVWXYZ23456789".toList

def makeReferralCode (env : SiteEnv) (telegramId : Int) : String :=
  .ofList (((env.sha256 s!"falaron-ref:{telegramId}").toList.take 6).map fun b =>
    referralAlphabet.getD (b.toNat % referralAlphabet.length) 'A')

/-- The code of a user who has none yet: the one made for him, with a digit when someone else has it. -/
def Site.newReferralCode (s : Site) (env : SiteEnv) (telegramId : Int) : String :=
  let code := makeReferralCode env telegramId
  if (s.db.referralCodes code).any (· ≠ telegramId) then code ++ toString (telegramId % 9) else code

def ensureReferralCode (env : SiteEnv) (now : Time) (telegramId : Int) : SiteM String := do
  let s ← get
  match ((s.members telegramId).bind (·.referralCode)).filter (· ≠ "") with
  | .some code => pure code
  | .none =>
    let code := s.newReferralCode env telegramId
    onlyIf ((s.db.referralCodes code).any (· ≠ telegramId)) (throw .integrity)
    set (s.setReferralCode telegramId code now)
    pure code

/-- Owner (and role=owner) is always an active reseller + promoter. -/
def ensureOwnerPartners (user : User) : SiteM Unit :=
  onlyIf (user.role ∈ [Role.owner, Role.admin]) do
    let s ← get
    let discountBp := ((s.db.resellers user.telegramId).map (·.discountBp)).getD defaultResellerDiscountBp
    let discountBp := if discountBp = 0 then defaultResellerDiscountBp else discountBp
    set ((s.setReseller user.telegramId ⟨user.telegramId, discountBp, true⟩).setPromoter user.telegramId true)

/-! ## Registration -/

/-- `(language_code or "en")[:8]` -/
def Profile.language (p : Profile) : String := clip 8 ((p.languageCode.filter (· ≠ "")).getD "en")

def Profile.user (p : Profile) (ownerId : Option Int) : User where
  telegramId := p.telegramId
  role := if ownerId = .some p.telegramId then .owner else .user
  termsAccepted := false

def Profile.member (p : Profile) (now : Time) : Member where
  username := p.username
  firstName := p.firstName
  lastName := p.lastName
  languageCode := p.language
  updatedAt := now

/-- What a profile says of itself goes over what is known. -/
def Member.renamed (m : Member) (p : Profile) : Member :=
  { m with
    username := p.username.or m.username
    firstName := p.firstName.or m.firstName
    lastName := p.lastName.or m.lastName
    languageCode := ((p.languageCode.filter (· ≠ "")).map (clip 8)).getD m.languageCode }

/-- `session.get(User, ...)`, of a user who is there. -/
def loadMember (telegramId : Int) : SiteM (User × Member) := do
  let s ← get
  match s.db.users telegramId, s.members telegramId with
  | .some user, .some member => pure (user, member)
  | _, _ => throw .missingRow

/-- `get_or_create_user`, of a user who is there. -/
def greetUser (env : SiteEnv) (now : Time) (p : Profile) (owner : Bool) (user : User) (member : Member) :
    SiteM User := do
  let promoted := owner && user.role ≠ .owner
  let coded := member.referralCode.getD "" == ""
  let greeted := if promoted then { user with role := .owner } else user
  onlyIf promoted (modify (·.updateUser p.telegramId fun u => { u with role := .owner }))
  onlyIf (member.renamed p ≠ member || promoted || coded)
    (modify (·.updateMember p.telegramId fun m => { m.renamed p with updatedAt := now }))
  onlyIf coded do
    let _ ← ensureReferralCode env now p.telegramId
  onlyIf (greeted.role ∈ [Role.owner, Role.admin] || owner) (ensureOwnerPartners greeted)
  pure greeted

/-- `get_or_create_user`, of a user who is not. -/
def joinUser (env : SiteEnv) (now : Time) (p : Profile) (ownerId : Option Int) : SiteM User := do
  let user := p.user ownerId
  modify (·.insertUser user (p.member now))
  let _ ← ensureReferralCode env now p.telegramId
  onlyIf (user.role = .owner) (ensureOwnerPartners user)
  pure user

/-- A user's row is in both tables or in neither. -/
def getOrCreateUser (env : SiteEnv) (now : Time) (p : Profile) (ownerId : Option Int) : SiteM User := do
  let s ← get
  match s.db.users p.telegramId, s.members p.telegramId with
  | .some user, .some member => greetUser env now p (ownerId = .some p.telegramId) user member
  | .none, .none => joinUser env now p ownerId
  | _, _ => throw .missingRow

/-- `ensure_user` -/
def ensureUser (env : SiteEnv) (now : Time) (p : Profile) : SiteM User :=
  getOrCreateUser env now p (.some env.ownerTelegramId)

def SiteEnv.isStaff (env : SiteEnv) (user : User) : Bool :=
  user.role ∈ [Role.admin, Role.owner] || user.telegramId = env.ownerTelegramId

/-! ## The requests -/

/-- `cmd_start`, up to what it answers. -/
def cmdStart (env : SiteEnv) (now : Time) (p : Profile) (args : Option String) : SiteM Unit := do
  let user ← ensureUser env now p
  let payload := strip (args.getD "")
  onlyIf (payload ≠ "") do
    let _ ← onDb (recordStartHit now payload user)

def welcomeKey (telegramId : Int) : Key := .text ("welcome:" ++ toString telegramId)

/-- The bonus as the setting has it, else as it was configured. -/
def Site.welcomeBonus (s : Site) (env : SiteEnv) : Int :=
  let raw := (s.db.catalog.settings "welcome_bonus_paise").getD (toString env.welcomeBonusPaise)
  (Py.intOfText raw).getD env.welcomeBonusPaise

/-- `accept_terms`, up to what it answers. -/
def acceptTerms (env : SiteEnv) (now : Time) (p : Profile) : SiteM Unit := do
  let user ← ensureUser env now p
  onlyIf (!user.termsAccepted) (modify (·.updateUser p.telegramId fun u => { u with termsAccepted := true }))
  let (_, member) ← loadMember p.telegramId
  let bonus := (← get).welcomeBonus env
  onlyIf (!member.welcomeBonusGranted && 0 < bonus) do
    let _ ← onDb (credit ⟨p.telegramId, bonus, "Welcome bonus", .some "bonus", .some "welcome"⟩
      (.some (welcomeKey p.telegramId)))
    modify (·.updateMember p.telegramId fun m => { m with welcomeBonusGranted := true })

/-- The last application of a kind that is still pending. -/
def Site.pendingApplication (s : Site) (userId : Int) (kind : String) : Option RoleApplication :=
  (s.applications.filter fun a => a.userId = userId && a.kind = kind && a.status = .pending).getLast?

def submitApplication (now : Time) (user : User) (kind pitch : String) : SiteM Unit := do
  let s ← get
  match s.pendingApplication user.telegramId kind with
  | .some existing => set (s.updateApplication existing.id fun a => { a with pitch := clip 2000 pitch })
  | .none => set (s.addApplication ⟨s.applications.length + 1, user.telegramId, kind, clip 2000 pitch, .pending, now⟩)

/-- A pitch of at least eight characters, as the handlers ask for. -/
def apply (env : SiteEnv) (now : Time) (p : Profile) (kind text : String) : SiteM Unit := do
  let pitch := strip text
  onlyIf (8 ≤ pitch.length) do
    let user ← ensureUser env now p
    submitApplication now user kind pitch

/-- The rights that go with a kind of partner. -/
def Site.partnered (s : Site) (user : User) (kind : String) : Site :=
  if kind = "reseller" then
    let r := (s.db.resellers user.telegramId).getD ⟨user.telegramId, defaultResellerDiscountBp, true⟩
    let s := s.setReseller user.telegramId { r with active := true }
    if user.role = .user then s.updateUser user.telegramId fun u => { u with role := .reseller } else s
  else if kind = "promoter" then
    let s := s.setPromoter user.telegramId true
    if user.role = .user then s.updateUser user.telegramId fun u => { u with role := .promoter } else s
  else s

def approveApplication (application : RoleApplication) : SiteM Unit := do
  let s := (← get).updateApplication application.id fun a => { a with status := .approved }
  match s.db.users application.userId with
  | .none => set s
  | .some user => set (s.partnered user application.kind)

def rejectApplication (application : RoleApplication) : SiteM Unit :=
  modify (·.updateApplication application.id fun a => { a with status := .rejected })

/-- `cb_app_decide` -/
def decideApplication (env : SiteEnv) (now : Time) (p : Profile) (id : Nat) (approve : Bool) : SiteM Unit := do
  let user ← ensureUser env now p
  onlyIf (env.isStaff user) do
    match (← get).applications.find? (·.id = id) with
    | .none => pure ()
    | .some application => if approve then approveApplication application else rejectApplication application

/-- `new_idempotency_key("payout", public_id)`, by the text it is the digest of. -/
def payoutKey (publicId : String) : Key := .text ("payout|" ++ publicId)

def requestPayout (now : Time) (publicId : String) (user : User) (kind : String) (amountPaise : Int) : SiteM Unit := do
  onlyIf (amountPaise < minPayoutPaise) (throw (.wallet s!"Minimum payout is {paiseToRupeesStr minPayoutPaise}"))
  onlyIf (user.availablePaise < amountPaise) (throw (.wallet "Insufficient available balance for this payout"))
  let _ ← onDb (debit ⟨user.telegramId, amountPaise, s!"Payout request {publicId}", .some "payout", .some publicId⟩
    (.some (payoutKey publicId)))
  let s ← get
  onlyIf (s.payouts.any (·.publicId = publicId)) (throw .integrity)
  set (s.addPayout ⟨publicId, user.telegramId, kind, amountPaise, "pending", now⟩)

/-- What is answered with its message, and leaves what went before as it is. -/
def Err.isWallet : Err → Bool
  | .wallet _ | .insufficientFunds _ => true
  | _ => false

def catchWallet (m : SiteM Unit) : SiteM Unit := fun s =>
  match m s with
  | .error e => if e.isWallet then .ok ((), s) else .error e
  | r => r

def payout (env : SiteEnv) (now : Time) (p : Profile) (publicId kind : String) (amountPaise : Int) : SiteM Unit := do
  let user ← ensureUser env now p
  catchWallet (requestPayout now publicId user kind amountPaise)

/-- `new_idempotency_key("admin-adj", ...)`, by the text it is the digest of. -/
def adjustmentKey (publicId : String) : Key := .text ("admin-adj|" ++ publicId)

/-- A correction by hand, up or down. -/
def adjust (actor : User) (targetId amountPaise : Int) (reason publicId : String) : M LedgerEntry :=
  let posting : Posting :=
    ⟨targetId, |amountPaise|, s!"Admin: {reason}", .some "admin", .some (toString actor.telegramId)⟩
  if 0 < amountPaise then credit posting (.some (adjustmentKey publicId))
  else debit posting (.some (adjustmentKey publicId))

/-- `admin_got_reason`; what is corrected, and whose wallet, was asked for before. -/
def adminGotReason (env : SiteEnv) (now : Time) (p : Profile) (text : String) (targetId amountPaise : Int)
    (publicId : String) : SiteM Unit := do
  let actor ← ensureUser env now p
  let reason := strip text
  let s ← get
  onlyIf (env.isStaff actor && 3 ≤ reason.length && (s.db.users targetId).isSome) do
    catchWallet do
      let _ ← onDb (adjust actor targetId amountPaise reason publicId)
      let verb := if 0 < amountPaise then "credited" else "debited"
      onDb (audit now (toString actor.telegramId) s!"wallet.admin_{verb}" (.some (toString targetId)) (.some reason))

/-- Any request of these. -/
inductive Visit where
  | start (now : Time) (p : Profile) (args : Option String)
  | acceptTerms (now : Time) (p : Profile)
  | apply (now : Time) (p : Profile) (kind text : String)
  | decide (now : Time) (p : Profile) (id : Nat) (approve : Bool)
  | payout (now : Time) (p : Profile) (publicId kind : String) (amountPaise : Int)
  | adjust (now : Time) (p : Profile) (text : String) (targetId amountPaise : Int) (publicId : String)

def Visit.profile : Visit → Profile
  | .start _ p _ | .acceptTerms _ p | .apply _ p .. | .decide _ p .. | .payout _ p .. | .adjust _ p .. => p

def Visit.prog (env : SiteEnv) : Visit → SiteM Unit
  | .start now p args => cmdStart env now p args
  | .acceptTerms now p => Falaron.acceptTerms env now p
  | .apply now p kind text => Falaron.apply env now p kind text
  | .decide now p id approve => decideApplication env now p id approve
  | .payout now p publicId kind amountPaise => Falaron.payout env now p publicId kind amountPaise
  | .adjust now p text targetId amountPaise publicId =>
    adminGotReason env now p text targetId amountPaise publicId

end Falaron
