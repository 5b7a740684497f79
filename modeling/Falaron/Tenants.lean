/-
The tenants of the hosted bots, and whether an active one has a verified
token.

Activation asks Telegram about the stored token before it makes a tenant
active. A rotation stores another token and leaves the tenant active,
although its route asks for another activation; and that one returns at
once, since the tenant is active, and asks nobody. `active_verified_iff`
says in which runs the tokens of the active tenants stay verified.

Cryptography, random numbers, the clock and Telegram's answers are
arguments, and the database may refuse what any request leaves behind.
Requests come one after the other; the bots themselves are in `TenantBots`.
-/
import Falaron.Py.Json
import Falaron.Text
import Falaron.Txn.Run

namespace Falaron.Tenants

open Py (Json Dict field hasField)

/-! ## Tenants -/

structure Tenant where
  id : Int
  ownerUserId : Int
  slug : String
  displayName : String
  botTokenEnc : List UInt8
  botUsername : Json := .null
  webhookSecret : String
  plan : String := "basic"
  isActive : Bool := false
  isDeleted : Bool := false
  config : Dict := []
  createdAt : Int
  updatedAt : Int

/-- What a tenant is found by. -/
def Tenant.key (t : Tenant) : Int × String := (t.id, t.slug)

structure TenantUser where
  tenantId : Int
  telegramId : Int
  isActive : Bool := true

structure Db where
  tenants : List Tenant := []
  users : List TenantUser := []

def Db.insert (db : Db) (t : Tenant) : Db := { db with tenants := db.tenants ++ [t] }

def Db.save (db : Db) (t : Tenant) : Db :=
  { db with tenants := db.tenants.map fun r => if r.id = t.id then t else r }

/-- What the service takes from Python and from `app.core.crypto`. -/
structure Host where
  /-- What `\d` matches in a pattern of type `str`. -/
  isDecimal : Char → Bool
  repr : String → String
  reprSet : List String → String
  isoformat : Int → String
  /-- `encrypt_provider_credential` with its nonce, unless no key is configured. -/
  encrypt : List UInt8 → String → Option (List UInt8)
  decrypt : List UInt8 → Option String

/-- What Telegram answers to `getMe`: nothing, or a status and a body that is or is not JSON. -/
inductive Answer where
  | failed
  | response (status : Nat) (body : Option Json)

/-- What one request finds outside the program. -/
structure Moment where
  now : Int
  /-- The key, the nonce and the secret drawn. -/
  id : Int := 0
  nonce : List UInt8 := []
  webhookSecret : String := ""
  getMe : Answer := .failed
  /-- Whether the database takes the flush and the commit. -/
  commits : Bool := true

/-- `ValidationError`, `TenantError`, and the exceptions that no route handles. -/
inductive Failure where
  | validation (detail userMessage : String)
  | tenant (detail userMessage : String)
  | unhandled

/-- What happens to a tenant's token: it is set, or Telegram vouches for it. -/
inductive Event where
  | tokenSet (tenantId : Int)
  | verified (tenantId : Int) (botToken : String)
  deriving DecidableEq

/-- What a call of the service leaves in its session, the row it returns, and what it did to tokens. -/
structure Done where
  db : Db
  tenant : Tenant
  events : List Event := []

abbrev Result := Except Failure Done

/-! ## The service -/

def maxTenantsPerOwner : Nat := 5

/-- A whole text, where `$` also matches before a final newline. -/
def matchesWhole (pattern : List Char → Bool) (cs : List Char) : Bool :=
  pattern cs || (cs.getLast? == some '\n' && pattern cs.dropLast)

def isTokenChar (c : Char) : Bool := c.isAlphanum || c == '_' || c == '-'

/-- `\d{8,12}:[A-Za-z0-9_-]{35}` -/
def tokenPattern (isDecimal : Char → Bool) (cs : List Char) : Bool :=
  (List.range' 8 5).any fun n =>
    (cs.take n).all isDecimal && (cs.drop n).head? == some ':' &&
      (cs.drop (n + 1)).length == 35 && (cs.drop (n + 1)).all isTokenChar

def isBotToken (isDecimal : Char → Bool) (s : String) : Bool := matchesWhole (tokenPattern isDecimal) s.toList

def isSlugEnd (c : Char) : Bool := c.isLower || c.isDigit

/-- `[a-z0-9][a-z0-9-]{1,30}[a-z0-9]` -/
def slugPattern (cs : List Char) : Bool :=
  3 ≤ cs.length && cs.length ≤ 32 && cs.all (fun c => isSlugEnd c || c == '-') &&
    cs.head?.any isSlugEnd && cs.getLast?.any isSlugEnd

def isSlug (s : String) : Bool := matchesWhole slugPattern s.toList

section

variable (h : Host) (db : Db)

/-- `create_tenant` -/
def createTenant (ownerUserId : Int) (botToken displayName slug plan : String) (m : Moment) : Result :=
  if !isBotToken h.isDecimal botToken then
    .error (.validation "Invalid bot token format" "Bot token format is invalid. Expected: <id>:<token>")
  else if !isSlug slug then
    .error (.validation ("Invalid tenant slug: " ++ h.repr slug)
      "Slug must be 3-32 lowercase alphanumeric characters or hyphens.")
  else if db.tenants.any (·.slug = slug) then
    .error (.validation ("Tenant slug " ++ h.repr slug ++ " already in use")
      ("The slug '" ++ slug ++ "' is already taken."))
  else if maxTenantsPerOwner ≤ (db.tenants.filter fun t => t.ownerUserId = ownerUserId && !t.isDeleted).length then
    .error (.validation s!"Owner {ownerUserId} has reached max tenant limit ({maxTenantsPerOwner})"
      s!"Maximum of {maxTenantsPerOwner} bots per account.")
  else match h.encrypt m.nonce botToken with
    | none => .error .unhandled
    | some encryptedToken =>
      -- a key in use is refused by the database
      if db.tenants.any (·.id = m.id) then .error .unhandled
      else
        let tenant : Tenant := {
          id := m.id, ownerUserId, slug, displayName := Text.strip displayName, botTokenEnc := encryptedToken
          webhookSecret := m.webhookSecret, plan, isActive := false, isDeleted := false, config := []
          createdAt := m.now, updatedAt := m.now }
        .ok ⟨db.insert tenant, tenant, [.tokenSet tenant.id]⟩

/-- `get_tenant`. `TenantNotFoundError` fills in `user_message` itself, so raising it with one is a `TypeError`. -/
def getTenant (tenantId : Int) : Except Failure Tenant :=
  match db.tenants.find? (·.id = tenantId) with
  | none => .error .unhandled
  | some t => if t.isDeleted then .error .unhandled else .ok t

/-- The dictionary `update_tenant` is given; `others` are its keys outside `_ALLOWED`. -/
structure Updates where
  displayName : Option String := none
  plan : Option String := none
  config : Option Dict := none
  isActive : Option Bool := none
  others : List String := []

/-- `setattr` for each entry. -/
def Updates.apply (u : Updates) (t : Tenant) : Tenant :=
  { t with
    displayName := u.displayName.getD t.displayName
    plan := u.plan.getD t.plan
    config := u.config.getD t.config
    isActive := u.isActive.getD t.isActive }

/-- `update_tenant` -/
def updateTenant (tenantId : Int) (updates : Updates) (m : Moment) : Result :=
  if updates.others ≠ [] then
    .error (.validation ("Cannot update fields: " ++ h.reprSet updates.others)
      ("Fields " ++ h.reprSet updates.others ++ " cannot be modified."))
  else do
    let tenant ← getTenant db tenantId
    let tenant := { updates.apply tenant with updatedAt := m.now }
    .ok ⟨db.save tenant, tenant, []⟩

/-- `rotate_tenant_bot_token` -/
def rotateTenantBotToken (tenantId : Int) (newBotToken : String) (m : Moment) : Result :=
  if !isBotToken h.isDecimal newBotToken then
    .error (.validation "Invalid bot token format" "Bot token format is invalid.")
  else do
    let tenant ← getTenant db tenantId
    match h.encrypt m.nonce newBotToken with
    | none => .error .unhandled
    | some encryptedToken =>
      let tenant := { tenant with botTokenEnc := encryptedToken, updatedAt := m.now }
      .ok ⟨db.save tenant, tenant, [.tokenSet tenant.id]⟩

/-- `_verify_bot_token`: every exception on the way, of a body that is no object too, is caught. -/
def verifyBotToken : Answer → Option Json
  | .response 200 (some (.object data)) =>
    if (field data "ok").truthy then
      some (if hasField data "result" then field data "result" else .object [])
    else none
  | _ => none

/-- `activate_tenant` -/
def activateTenant (tenantId : Int) (m : Moment) : Result := do
  let tenant ← getTenant db tenantId
  if tenant.isActive then .ok ⟨db, tenant, []⟩
  else match h.decrypt tenant.botTokenEnc with
    | none => .error .unhandled
    | some botToken =>
      let botInfo := (verifyBotToken m.getMe).getD .null
      if !botInfo.truthy then
        .error (.tenant s!"Bot token for tenant {tenantId} failed Telegram verification"
          "Bot token is invalid or the bot does not exist.")
      else match botInfo with
        | .object info =>
          let tenant := { tenant with
            isActive := true
            botUsername := if hasField info "username" then field info "username" else .str ""
            updatedAt := m.now }
          .ok ⟨db.save tenant, tenant, [.verified tenant.id botToken]⟩
        | _ => .error .unhandled

/-- `suspend_tenant` -/
def suspendTenant (tenantId : Int) (m : Moment) : Result := do
  let tenant ← getTenant db tenantId
  let tenant := { tenant with isActive := false, updatedAt := m.now }
  .ok ⟨db.save tenant, tenant, []⟩

/-- `delete_tenant` -/
def deleteTenant (tenantId : Int) (m : Moment) : Result := do
  let tenant ← getTenant db tenantId
  let tenant := { tenant with botTokenEnc := [], isActive := false, isDeleted := true, updatedAt := m.now }
  let users := db.users.map fun u => if u.tenantId = tenantId then { u with isActive := false } else u
  .ok ⟨{ db.save tenant with users }, tenant, [.tokenSet tenant.id]⟩

end

/-! ## The routes -/

inductive Plan where
  | basic | pro | enterprise

def Plan.text : Plan → String
  | .basic => "basic"
  | .pro => "pro"
  | .enterprise => "enterprise"

structure TenantCreateRequest where
  botToken : String
  displayName : String
  slug : String
  plan : Plan := .basic
  botToken_length : 40 ≤ botToken.length ∧ botToken.length ≤ 60
  displayName_length : 1 ≤ displayName.length ∧ displayName.length ≤ 128
  slug_length : 3 ≤ slug.length ∧ slug.length ≤ 32

structure TenantUpdateRequest where
  displayName : Option String := none
  plan : Option Plan := none
  config : Option Dict := none
  displayName_length : ∀ name ∈ displayName, 1 ≤ name.length ∧ name.length ≤ 128

/-- `{k: v for k, v in req.model_dump().items() if v is not None}` -/
def TenantUpdateRequest.updates (req : TenantUpdateRequest) : Updates :=
  { displayName := req.displayName, plan := req.plan.map Plan.text, config := req.config }

structure TenantRotateTokenRequest where
  newBotToken : String
  newBotToken_length : 40 ≤ newBotToken.length ∧ newBotToken.length ≤ 60

structure TenantSuspendRequest where
  reason : String
  reason_length : 1 ≤ reason.length ∧ reason.length ≤ 255

inductive Request where
  | create (adminId : Int) (req : TenantCreateRequest)
  | update (tenantId : Int) (req : TenantUpdateRequest)
  /-- The service's `update_tenant` with any fields; the route of that name passes on three. -/
  | updateFields (tenantId : Int) (updates : Updates)
  | activate (tenantId : Int)
  | suspend (tenantId : Int) (req : TenantSuspendRequest)
  | delete (tenantId : Int)
  | rotate (tenantId : Int) (req : TenantRotateTokenRequest)

structure TenantOut where
  id : Int
  slug : String
  displayName : String
  plan : String
  isActive : Bool
  botUsername : Json
  ownerUserId : Int
  createdAt : String

/-- `_to_out` -/
def toOut (h : Host) (t : Tenant) : TenantOut :=
  ⟨t.id, t.slug, t.displayName, t.plan, t.isActive, t.botUsername, t.ownerUserId, h.isoformat t.createdAt⟩

inductive Response where
  | tenant (out : TenantOut)
  | ok (message : Option String)
  | http (status : Nat) (detail : String)
  /-- An exception that leaves the route. -/
  | internal

def Failure.response : Failure → Response
  | .validation _ userMessage | .tenant _ userMessage => .http 422 userMessage
  | .unhandled => .internal

/-- The call of the service that a request makes. -/
def Request.call (h : Host) (db : Db) (m : Moment) : Request → Result
  | .create adminId req => createTenant h db adminId req.botToken req.displayName req.slug req.plan.text m
  | .update tenantId req => updateTenant h db tenantId req.updates m
  | .updateFields tenantId updates => updateTenant h db tenantId updates m
  | .activate tenantId => activateTenant h db tenantId m
  | .suspend tenantId _ => suspendTenant db tenantId m
  | .delete tenantId => deleteTenant db tenantId m
  | .rotate tenantId req => rotateTenantBotToken h db tenantId req.newBotToken m

def Request.response (h : Host) (t : Tenant) : Request → Response
  | .suspend .. | .delete .. => .ok none
  | .rotate .. => .ok (some "Token rotated. Re-activate the tenant to restart the bot.")
  | _ => .tenant (toOut h t)

/-- The stored tenants, and what happened to tokens since the first request. -/
structure World where
  db : Db := {}
  log : List Event := []

/-- A verification has taken place whatever becomes of the transaction. -/
def Event.isVerification : Event → Bool
  | .verified .. => true
  | .tokenSet _ => false

/-- One request, its transaction committed or rolled back. -/
def World.handle (h : Host) (w : World) (r : Request) (m : Moment) : World × Response :=
  match r.call h w.db m with
  | .error e => (w, e.response)
  | .ok d =>
    if m.commits then (⟨d.db, w.log ++ d.events⟩, r.response h d.tenant)
    else (⟨w.db, w.log ++ d.events.filter Event.isVerification⟩, .internal)

def World.step (h : Host) (w : World) (c : Request × Moment) : World := (w.handle h c.1 c.2).1

/-- The requests one after the other, from no tenants. -/
def run (h : Host) (cs : List (Request × Moment)) : World := cs.foldl (World.step h) {}

/-! ## Verified tokens -/

/-- Telegram has vouched for the token since the tenant's was last set. -/
def VerifiedSinceSet (log : List Event) (tenantId : Int) (botToken : String) : Prop :=
  ∃ before since, log = before ++ .verified tenantId botToken :: since ∧ .tokenSet tenantId ∉ since

/-- The token that a tenant's row holds is one that Telegram has vouched for since it was set. -/
def Tenant.Verified (h : Host) (log : List Event) (t : Tenant) : Prop :=
  ∃ botToken, h.decrypt t.botTokenEnc = some botToken ∧ VerifiedSinceSet log t.id botToken

def World.ActiveVerified (h : Host) (w : World) : Prop :=
  ∀ t ∈ w.db.tenants, t.isActive = true → t.Verified h w.log

/-- A rotation that goes through finds its tenant inactive, and an update that activates finds it verified. -/
def World.Allowed (h : Host) (w : World) (c : Request × Moment) : Prop :=
  match c with
  | (.rotate tenantId req, m) => ∀ t, getTenant w.db tenantId = .ok t →
      isBotToken h.isDecimal req.newBotToken = true → (h.encrypt m.nonce req.newBotToken).isSome →
      m.commits = true → t.isActive = false
  | (.updateFields tenantId updates, m) => ∀ t, getTenant w.db tenantId = .ok t →
      updates.isActive = some true → updates.others = [] → m.commits = true → t.Verified h w.log
  | _ => True

theorem VerifiedSinceSet.append {log es : List Event} {tenantId : Int} {botToken : String}
    (hv : VerifiedSinceSet log tenantId botToken) (hes : .tokenSet tenantId ∉ es) :
    VerifiedSinceSet (log ++ es) tenantId botToken := by
  obtain ⟨before, since, rfl, hsince⟩ := hv
  refine ⟨before, since ++ es, by simp, ?_⟩
  simp only [List.mem_append, not_or]
  exact ⟨hsince, hes⟩

theorem VerifiedSinceSet.of_verified (log : List Event) (tenantId : Int) (botToken : String) :
    VerifiedSinceSet (log ++ [.verified tenantId botToken]) tenantId botToken :=
  ⟨log, [], rfl, List.not_mem_nil⟩

/-- What was verified before the token was set does not count. -/
theorem not_verifiedSinceSet (log : List Event) (tenantId : Int) (botToken : String) :
    ¬ VerifiedSinceSet (log ++ [.tokenSet tenantId]) tenantId botToken := by
  rintro ⟨before, since, heq, hsince⟩
  rcases List.eq_nil_or_concat since with rfl | ⟨since, e, rfl⟩
  · have hlast := congrArg List.getLast? heq
    simp at hlast
  · have hlast := congrArg List.getLast? heq
    simp only [List.getLast?_append, List.getLast?_cons, List.getLast?_nil] at hlast
    simp at hlast
    exact hsince (by simp [hlast])

theorem Tenant.Verified.append {h : Host} {log es : List Event} {t : Tenant} (hv : t.Verified h log)
    (hes : .tokenSet t.id ∉ es) : t.Verified h (log ++ es) := by
  obtain ⟨botToken, hdecrypt, hsince⟩ := hv
  exact ⟨botToken, hdecrypt, hsince.append hes⟩

theorem mem_save {db : Db} {t r : Tenant} (hr : r ∈ (db.save t).tenants) :
    r = t ∨ (r ∈ db.tenants ∧ r.id ≠ t.id) := by
  obtain ⟨r₀, hr₀, rfl⟩ := List.mem_map.mp hr
  by_cases hid : r₀.id = t.id
  · exact .inl (by simp [hid])
  · exact .inr (by simpa [hid] using hr₀)

theorem save_mem {db : Db} {t r : Tenant} (hr : r ∈ db.tenants) (hid : r.id = t.id) : t ∈ (db.save t).tenants :=
  List.mem_map.mpr ⟨r, hr, by simp [hid]⟩

theorem getTenant_ok {db : Db} {tenantId : Int} {t : Tenant} (hget : getTenant db tenantId = .ok t) :
    t ∈ db.tenants ∧ t.id = tenantId := by
  unfold getTenant at hget
  split at hget
  · cases hget
  · next r hr =>
    split at hget
    · cases hget
    · obtain rfl := Except.ok.inj hget
      exact ⟨List.mem_of_find?_eq_some hr, by simpa using List.find?_some hr⟩

/-! ## What each call does -/

section

variable {h : Host} {db : Db} {tenantId : Int} {m : Moment} {d : Done}

theorem found_ok {f : Tenant → Result} (hok : (getTenant db tenantId >>= f) = .ok d) :
    ∃ t, getTenant db tenantId = .ok t ∧ f t = .ok d := by
  cases hget : getTenant db tenantId with
  | error e => rw [hget] at hok; cases hok
  | ok t => exact ⟨t, rfl, by rw [hget] at hok; exact hok⟩

theorem createTenant_ok {ownerUserId : Int} {botToken displayName slug plan : String}
    (hok : createTenant h db ownerUserId botToken displayName slug plan m = .ok d) :
    ∃ t : Tenant, d = ⟨db.insert t, t, [.tokenSet t.id]⟩ ∧ t.isActive = false ∧
      ∀ r ∈ db.tenants, r.id ≠ t.id ∧ r.slug ≠ t.slug := by
  unfold createTenant at hok
  split at hok
  · cases hok
  split at hok
  · cases hok
  split at hok
  · cases hok
  next hslug =>
  split at hok
  · cases hok
  split at hok
  · cases hok
  split at hok
  · cases hok
  next hid =>
    obtain rfl := Except.ok.inj hok
    refine ⟨_, rfl, rfl, fun r hr => ⟨fun heq => hid ?_, fun heq => hslug ?_⟩⟩
    · exact List.any_eq_true.mpr ⟨r, hr, by simpa using heq⟩
    · exact List.any_eq_true.mpr ⟨r, hr, by simpa using heq⟩

theorem updateTenant_ok {updates : Updates} (hok : updateTenant h db tenantId updates m = .ok d) :
    ∃ t t' : Tenant, getTenant db tenantId = .ok t ∧ updates.others = [] ∧ d = ⟨db.save t', t', []⟩ ∧
      t'.key = t.key ∧ t'.botTokenEnc = t.botTokenEnc ∧ t'.isActive = updates.isActive.getD t.isActive := by
  unfold updateTenant at hok
  split at hok
  · cases hok
  · next hothers =>
    obtain ⟨t, hget, hok⟩ := found_ok hok
    obtain rfl := Except.ok.inj hok
    exact ⟨t, _, hget, not_not.mp hothers, rfl, rfl, rfl, rfl⟩

theorem rotateTenantBotToken_ok {newBotToken : String}
    (hok : rotateTenantBotToken h db tenantId newBotToken m = .ok d) :
    ∃ t t' : Tenant, getTenant db tenantId = .ok t ∧ isBotToken h.isDecimal newBotToken = true ∧
      (h.encrypt m.nonce newBotToken).isSome ∧ d = ⟨db.save t', t', [.tokenSet t'.id]⟩ ∧ t'.key = t.key ∧
      t'.isActive = t.isActive := by
  unfold rotateTenantBotToken at hok
  split at hok
  · cases hok
  · next htoken =>
    obtain ⟨t, hget, hok⟩ := found_ok hok
    split at hok
    · cases hok
    · next enc henc =>
      obtain rfl := Except.ok.inj hok
      exact ⟨t, _, hget, by simpa using htoken, by simp [henc], rfl, rfl, rfl⟩

theorem activateTenant_ok (hok : activateTenant h db tenantId m = .ok d) :
    d.db = db ∧ d.events = [] ∨
      ∃ (t t' : Tenant) (botToken : String), getTenant db tenantId = .ok t ∧
        d = ⟨db.save t', t', [.verified t'.id botToken]⟩ ∧ t'.key = t.key ∧
        h.decrypt t'.botTokenEnc = some botToken := by
  obtain ⟨t, hget, hok⟩ := found_ok hok
  split at hok
  · obtain rfl := Except.ok.inj hok
    exact .inl ⟨rfl, rfl⟩
  split at hok
  · cases hok
  · next botToken hdecrypt =>
    dsimp only at hok
    split at hok
    · cases hok
    split at hok
    · obtain rfl := Except.ok.inj hok
      exact .inr ⟨t, _, botToken, hget, rfl, rfl, hdecrypt⟩
    · cases hok

theorem suspendTenant_ok (hok : suspendTenant db tenantId m = .ok d) :
    ∃ t t' : Tenant, getTenant db tenantId = .ok t ∧ d = ⟨db.save t', t', []⟩ ∧ t'.key = t.key ∧
      t'.isActive = false := by
  obtain ⟨t, hget, hok⟩ := found_ok hok
  obtain rfl := Except.ok.inj hok
  exact ⟨t, _, hget, rfl, rfl, rfl⟩

theorem deleteTenant_ok (hok : deleteTenant db tenantId m = .ok d) :
    ∃ t t' : Tenant, getTenant db tenantId = .ok t ∧ d.db.tenants = (db.save t').tenants ∧
      d.events = [.tokenSet t'.id] ∧ t'.key = t.key ∧ t'.isActive = false := by
  obtain ⟨t, hget, hok⟩ := found_ok hok
  obtain rfl := Except.ok.inj hok
  exact ⟨t, _, hget, rfl, rfl, rfl, rfl⟩

end

/-! ## Runs -/

section

variable {h : Host} {w : World}

theorem ActiveVerified.append (hw : w.ActiveVerified h) {es : List Event} (hes : ∀ id, .tokenSet id ∉ es) :
    World.ActiveVerified h ⟨w.db, w.log ++ es⟩ :=
  fun t ht hactive => (hw t ht hactive).append (hes t.id)

theorem ActiveVerified.insert (hw : w.ActiveVerified h) {t : Tenant} (hactive : t.isActive = false)
    (hfresh : ∀ r ∈ w.db.tenants, r.id ≠ t.id) :
    World.ActiveVerified h ⟨w.db.insert t, w.log ++ [.tokenSet t.id]⟩ := by
  intro r hr hr'
  simp only [Db.insert, List.mem_append, List.mem_singleton] at hr
  rcases hr with hr | rfl
  · exact (hw r hr hr').append (by simpa using hfresh r hr)
  · simp [hactive] at hr'

/-- A written row is to be verified where it is active; the token of another row is not touched. -/
theorem ActiveVerified.save (hw : w.ActiveVerified h) {t : Tenant} {es : List Event} {db : Db}
    (hdb : db.tenants = (w.db.save t).tenants) (hes : ∀ id, .tokenSet id ∈ es → id = t.id)
    (ht : t.isActive = true → t.Verified h (w.log ++ es)) : World.ActiveVerified h ⟨db, w.log ++ es⟩ := by
  intro r hr hactive
  rw [hdb] at hr
  rcases mem_save hr with rfl | ⟨hr, hid⟩
  · exact ht hactive
  · exact (hw r hr hactive).append fun hset => hid (hes r.id hset)

theorem updateTenant_keeps {tenantId : Int} {updates : Updates} {m : Moment} {d : Done} (hw : w.ActiveVerified h)
    (hok : updateTenant h w.db tenantId updates m = .ok d)
    (hactivates : ∀ t, getTenant w.db tenantId = .ok t → updates.isActive = some true → updates.others = [] →
      t.Verified h w.log) :
    World.ActiveVerified h ⟨d.db, w.log ++ d.events⟩ := by
  obtain ⟨t, t', hget, hothers, rfl, hkey, henc, hactive⟩ := updateTenant_ok hok
  refine ActiveVerified.save hw rfl (by simp) fun ht' => ?_
  have ht : t.Verified h w.log := by
    cases hset : updates.isActive with
    | none => exact hw t (getTenant_ok hget).1 (by simpa [hactive, hset] using ht')
    | some b =>
      obtain rfl : b = true := by simpa [hactive, hset] using ht'
      exact hactivates t hget hset hothers
  obtain ⟨botToken, hdecrypt, hsince⟩ := ht
  exact ⟨botToken, henc ▸ hdecrypt, by simpa [(Prod.mk.inj hkey).1] using hsince⟩

/-- The step: an allowed request keeps the tokens of the active tenants verified. -/
theorem step_keeps {c : Request × Moment} (hw : w.ActiveVerified h) (hc : w.Allowed h c) :
    (w.step h c).ActiveVerified h := by
  obtain ⟨r, m⟩ := c
  unfold World.step World.handle
  dsimp only
  split
  · exact hw
  next d hok =>
  split
  next hcommits =>
    dsimp only
    cases r with
    | create adminId req =>
      obtain ⟨t, rfl, hactive, hfresh⟩ := createTenant_ok hok
      exact ActiveVerified.insert hw hactive fun r hr => (hfresh r hr).1
    | update tenantId req =>
      refine updateTenant_keeps hw hok fun t _ hset _ => ?_
      simp [TenantUpdateRequest.updates] at hset
    | updateFields tenantId updates =>
      exact updateTenant_keeps hw hok fun t hget hset hothers => hc t hget hset hothers hcommits
    | activate tenantId =>
      rcases activateTenant_ok hok with ⟨hdb, hevents⟩ | ⟨t, t', botToken, -, rfl, -, hdecrypt⟩
      · rw [hdb, hevents]
        exact ActiveVerified.append hw (by simp)
      · exact ActiveVerified.save hw rfl (by simp) fun _ => ⟨botToken, hdecrypt, .of_verified ..⟩
    | suspend tenantId req =>
      obtain ⟨t, t', -, rfl, -, hactive⟩ := suspendTenant_ok hok
      exact ActiveVerified.save hw rfl (by simp) (by simp [hactive])
    | delete tenantId =>
      obtain ⟨t, t', -, hdb, hevents, -, hactive⟩ := deleteTenant_ok hok
      exact ActiveVerified.save hw hdb (by simp [hevents]) (by simp [hactive])
    | rotate tenantId req =>
      obtain ⟨t, t', hget, htoken, henc, rfl, -, hactive⟩ := rotateTenantBotToken_ok hok
      have hinactive := hc t hget htoken henc hcommits
      exact ActiveVerified.save hw rfl (by simp) (by simp [hactive, hinactive])
  next =>
    exact ActiveVerified.append hw (by simp [Event.isVerification])

/-- Any other request leaves an active tenant whose token is not. -/
theorem step_breaks {c : Request × Moment} (hc : ¬ w.Allowed h c) : ¬ (w.step h c).ActiveVerified h := by
  intro hw
  obtain ⟨r, m⟩ := c
  cases r with
  | updateFields tenantId updates =>
    refine hc fun t hget hset hothers hcommits => ?_
    have hmem := getTenant_ok hget
    have hstep : w.step h (.updateFields tenantId updates, m) =
        ⟨w.db.save { updates.apply t with updatedAt := m.now }, w.log⟩ := by
      simp [World.step, World.handle, Request.call, updateTenant, hothers, hget, hcommits, bind, Except.bind]
    rw [hstep] at hw
    have ht := hw _ (save_mem hmem.1 rfl) (by simp [Updates.apply, hset])
    exact ht
  | rotate tenantId req =>
    refine hc fun t hget htoken henc hcommits => ?_
    have hmem := getTenant_ok hget
    obtain ⟨enc, henc⟩ := Option.isSome_iff_exists.mp henc
    have hstep : w.step h (.rotate tenantId req, m) =
        ⟨w.db.save { t with botTokenEnc := enc, updatedAt := m.now }, w.log ++ [.tokenSet t.id]⟩ := by
      simp [World.step, World.handle, Request.call, rotateTenantBotToken, htoken, hget, henc, hcommits, bind,
        Except.bind]
    rw [hstep] at hw
    by_contra hactive
    obtain ⟨botToken, -, hsince⟩ := hw _ (save_mem hmem.1 rfl) (by simpa using hactive)
    exact not_verifiedSinceSet _ _ _ hsince
  | create | update | activate | suspend | delete => exact hc trivial

end

theorem run_append (h : Host) (cs : List (Request × Moment)) (c : Request × Moment) :
    run h (cs ++ [c]) = (run h cs).step h c := by
  simp [run]

def firstToken : String := "123456789:AAAAAAAAAAAAAAAAAAAAAAAAAAAAAAAAAAA"

def secondToken : String := "123456789:BBBBBBBBBBBBBBBBBBBBBBBBBBBBBBBBBBB"

/-- Ciphertexts of two tokens. -/
def twoTokens : Host where
  isDecimal := Py.isDigit
  repr s := "'" ++ s ++ "'"
  reprSet ss := "\x7b" ++ ", ".intercalate ss ++ "\x7d"
  isoformat n := toString n
  encrypt nonce s := if s = firstToken then some (nonce ++ [1]) else some (nonce ++ [2])
  decrypt bs :=
    if bs.getLast? = some 1 then some firstToken
    else if bs.getLast? = some 2 then some secondToken else none

/-- Telegram knows the first token. -/
def knownBot : Answer :=
  .response 200 (some (.object [("ok", .bool true), ("result", .object [("username", .str "shop")])]))

theorem shopName_length : 1 ≤ "Shop".length ∧ "Shop".length ≤ 128 := by decide

theorem shopSlug_length : 3 ≤ "shop".length ∧ "shop".length ≤ 32 := by decide

/-- A tenant is created, activated, given another token, and activated again; Telegram refuses the new token. -/
def rotatedWhileActive : List (Request × Moment) := [
  (.create 7 ⟨firstToken, "Shop", "shop", .basic, by decide, shopName_length, shopSlug_length⟩, { now := 0, id := 1 }),
  (.activate 1, { now := 1, getMe := knownBot }),
  (.rotate 1 ⟨secondToken, by decide⟩, { now := 2 }),
  (.activate 1, { now := 3, getMe := .response 401 (some (.object [("ok", .bool false)])) })]

def Db.keys (db : Db) : List (Int × String) := db.tenants.map Tenant.key

/-- No two tenants have an id or a slug in common. -/
def KeysDistinct (keys : List (Int × String)) : Prop := ∀ p ∈ keys, ∀ q ∈ keys, p.1 = q.1 ↔ p.2 = q.2

theorem save_keys {db : Db} {t t' : Tenant} (hk : KeysDistinct db.keys) (ht : t ∈ db.tenants)
    (hkey : t'.key = t.key) : (db.save t').keys = db.keys := by
  obtain ⟨hid, hslug⟩ := Prod.mk.inj hkey
  simp only [Db.keys, Db.save, List.map_map]
  refine List.map_congr_left fun r hr => ?_
  simp only [Function.comp_apply]
  by_cases heq : r.id = t'.id
  · have hslugs : r.slug = t.slug := (hk _ (List.mem_map_of_mem hr) _ (List.mem_map_of_mem ht)).mp (heq.trans hid)
    rw [if_pos heq, hkey]
    exact Prod.ext (heq.trans hid).symm hslugs.symm
  · rw [if_neg heq]

theorem insert_keys {db : Db} {t : Tenant} (hk : KeysDistinct db.keys)
    (hfresh : ∀ r ∈ db.tenants, r.id ≠ t.id ∧ r.slug ≠ t.slug) : KeysDistinct (db.insert t).keys := by
  have hnew : ∀ p ∈ db.keys, p.1 ≠ t.id ∧ p.2 ≠ t.slug := by
    intro p hp
    obtain ⟨r, hr, rfl⟩ := List.mem_map.mp hp
    exact hfresh r hr
  intro p hp q hq
  simp only [Db.keys, Db.insert, List.map_append, List.mem_append, List.map_cons, List.map_nil,
    List.mem_singleton] at hp hq
  rcases hp with hp | rfl <;> rcases hq with hq | rfl
  · exact hk p hp q hq
  · exact iff_of_false (hnew p hp).1 (hnew p hp).2
  · exact iff_of_false (hnew q hq).1.symm (hnew q hq).2.symm
  · exact iff_of_true rfl rfl

theorem call_keys {h : Host} {db : Db} {m : Moment} {r : Request} {d : Done} (hk : KeysDistinct db.keys)
    (hok : r.call h db m = .ok d) : KeysDistinct d.db.keys ∧ db.keys <+: d.db.keys := by
  have hsaved {tenantId : Int} {t t' : Tenant} (hget : getTenant db tenantId = .ok t) (hkey : t'.key = t.key)
      (hdb : d.db.tenants = (db.save t').tenants) : KeysDistinct d.db.keys ∧ db.keys <+: d.db.keys := by
    have hkeys : d.db.keys = db.keys := by
      rw [← save_keys hk (getTenant_ok hget).1 hkey, Db.keys, hdb, Db.keys]
    rw [hkeys]
    exact ⟨hk, List.prefix_rfl⟩
  cases r with
  | create adminId req =>
    obtain ⟨t, rfl, -, hfresh⟩ := createTenant_ok hok
    exact ⟨insert_keys hk hfresh, ⟨[t.key], by simp [Db.keys, Db.insert]⟩⟩
  | update tenantId req =>
    obtain ⟨t, t', hget, -, rfl, hkey, -, -⟩ := updateTenant_ok hok
    exact hsaved hget hkey rfl
  | updateFields tenantId updates =>
    obtain ⟨t, t', hget, -, rfl, hkey, -, -⟩ := updateTenant_ok hok
    exact hsaved hget hkey rfl
  | activate tenantId =>
    rcases activateTenant_ok hok with ⟨hdb, -⟩ | ⟨t, t', botToken, hget, rfl, hkey, -⟩
    · rw [hdb]
      exact ⟨hk, List.prefix_rfl⟩
    · exact hsaved hget hkey rfl
  | suspend tenantId req =>
    obtain ⟨t, t', hget, rfl, hkey, -⟩ := suspendTenant_ok hok
    exact hsaved hget hkey rfl
  | delete tenantId =>
    obtain ⟨t, t', hget, hdb, -, hkey, -⟩ := deleteTenant_ok hok
    exact hsaved hget hkey hdb
  | rotate tenantId req =>
    obtain ⟨t, t', hget, -, -, rfl, hkey, -⟩ := rotateTenantBotToken_ok hok
    exact hsaved hget hkey rfl

theorem step_keys {h : Host} {w : World} (c : Request × Moment) (hk : KeysDistinct w.db.keys) :
    KeysDistinct (w.step h c).db.keys ∧ w.db.keys <+: (w.step h c).db.keys := by
  unfold World.step World.handle
  split
  · exact ⟨hk, List.prefix_rfl⟩
  next d hok =>
    split
    · exact call_keys hk hok
    · exact ⟨hk, List.prefix_rfl⟩

theorem run_keys (h : Host) (cs : List (Request × Moment)) : KeysDistinct (run h cs).db.keys := by
  induction cs using List.reverseRecOn with
  | nil => exact fun p hp => absurd hp List.not_mem_nil
  | append_singleton cs c ih =>
    rw [run_append]
    exact (step_keys c ih).1

theorem run_keys_mono (h : Host) {done cs : List (Request × Moment)} (hdone : done <+: cs) :
    (run h done).db.keys <+: (run h cs).db.keys := by
  obtain ⟨rest, rfl⟩ := hdone
  induction rest using List.reverseRecOn with
  | nil => simp
  | append_singleton rest c ih =>
    rw [← List.append_assoc, run_append]
    exact ih.trans (step_keys c (run_keys h _)).2

/-- Over a whole run, an id stands for one slug and a slug for one id. -/
theorem run_slug_iff {h : Host} {done done' cs : List (Request × Moment)} (hdone : done <+: cs)
    (hdone' : done' <+: cs) {t t' : Tenant} (ht : t ∈ (run h done).db.tenants)
    (ht' : t' ∈ (run h done').db.tenants) : t.id = t'.id ↔ t.slug = t'.slug :=
  run_keys h cs _ ((run_keys_mono h hdone).subset (List.mem_map_of_mem ht)) _
    ((run_keys_mono h hdone').subset (List.mem_map_of_mem ht'))

end Falaron.Tenants
