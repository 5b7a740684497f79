/-
The admin login: five wrong passwords should lock an account for thirty
minutes.

The credential check counts failures in the admin's row and flushes them, and
the route opens a session of its own, which nobody commits: what the check
has flushed goes when the session closes. So a request finds the row as it
was before the first one, and its answer depends on that row alone.

Hashing and tokens are other people's code, and parameters here.
-/
import Falaron.Db
import Falaron.Txn.Table
import Mathlib.Algebra.Ring.Int.Defs

namespace Falaron.AdminLogin

/-! ## The credential store -/

structure Admin where
  id : Int
  username : String
  passwordHash : String
  totpEnabled : Bool
  isActive : Bool
  role : String
  failedAttempts : Int
  lockedUntil : Option Time
  deriving DecidableEq, Repr

structure AdminDb where
  admins : Txn.Table fun a : Admin => a.username

inductive Row where
  | admin (username : String)
  deriving DecidableEq

inductive Err where
  | invalidCredentials
  /-- `AdminLockedError`, with its `user_message`. -/
  | adminLocked (userMessage : String)
  /-- What a library or the database raises. -/
  | other (text : String)
  deriving DecidableEq, Repr

abbrev M := Txn.Prog AdminDb Row Err Empty

/-- The claims of an admin's token. -/
structure Payload where
  sub : String
  usr : String
  role : String
  partial_ : Bool
  iat : Int
  exp : Int
  jti : String
  deriving DecidableEq, Repr

/-- The password and token libraries, with what they raise. -/
structure Library where
  hashPassword : String → Except String Unit
  verifyPassword : (plaintext hashed : String) → Except String Bool
  encode : Payload → Except String String

def maxFailedAttempts : Int := 5

def seconds (n : Int) : Time := n * 1000000

/-- `timedelta(minutes=_LOCKOUT_MINUTES)` -/
def lockout : Time := seconds (30 * 60)

def partialTokenTtl : Int := 300

def adminJwtTtl : Int := 3600

/-- `UPDATE admins ...` of one row. -/
def setAdmin (a : Admin) : Txn.Stmt AdminDb Row :=
  ⟨[.admin a.username], fun _ => a.failedAttempts < 2 ^ 31, fun db => { db with admins := db.admins.set a }⟩

def flush : M Unit := .flushed (.other "database error")

/-- The result of a library call. -/
def lift {α : Type} : Except String α → M α
  | .ok a => pure a
  | .error text => .throw (.other text)

def twoDigits (n : Int) : String := (if n < 10 then "0" else "") ++ toString n

/-- `t.strftime('%H:%M UTC')` -/
def clock (t : Time) : String :=
  let minute := t / seconds 60
  twoDigits (minute / 60 % 24) ++ ":" ++ twoDigits (minute % 60) ++ " UTC"

def locked (lockedUntil : Time) : Err :=
  .adminLocked (s!"Account locked due to {maxFailedAttempts} failed attempts. Try again after " ++ clock lockedUntil ++ ".")

/-- One request for the account: when it comes, the password it brings, and
the random id of the token it may get. -/
structure Attempt where
  at_ : Time
  password : String
  jti : String := ""
  deriving DecidableEq, Repr

/-- `_generate_admin_jwt` -/
def generateAdminJwt (lib : Library) (a : Admin) (isPartial : Bool) (req : Attempt) : Except String String :=
  let ttl := if isPartial then partialTokenTtl else adminJwtTtl
  lib.encode
    { sub := toString a.id, usr := a.username, role := a.role, partial_ := isPartial,
      iat := req.at_ / seconds 1, exp := (req.at_ + seconds ttl) / seconds 1, jti := req.jti }

/-- The row the check finds: of that name, and active. -/
def AdminDb.active (db : AdminDb) (username : String) : Option Admin :=
  db.admins.rows.find? fun a => a.username = username && a.isActive

/-- `admin.locked_until and admin.locked_until > now` -/
def Admin.isLocked (a : Admin) (now : Time) : Bool := a.lockedUntil.any (now < ·)

/-- The row after one more failure. -/
def Admin.failed (a : Admin) (now : Time) : Admin :=
  let a := { a with failedAttempts := a.failedAttempts + 1 }
  if maxFailedAttempts ≤ a.failedAttempts then { a with lockedUntil := some (now + lockout) } else a

/-- `authenticate_admin` -/
def authenticateAdmin (lib : Library) (username : String) (req : Attempt) : M (Admin × String) := do
  match ← .query (·.active username) with
  | none =>
    -- as long as a real check, so that names cannot be told apart
    lift (lib.hashPassword "dummy_constant_time_check_xyzzy")
    .throw .invalidCredentials
  | some admin =>
    .require (!admin.isLocked req.at_) (locked (admin.lockedUntil.getD 0))
    if !(← lift (lib.verifyPassword req.password admin.passwordHash)) then
      .write (setAdmin (admin.failed req.at_))
      flush
      .throw .invalidCredentials
    else
      let admin := { admin with failedAttempts := 0, lockedUntil := none }
      .write (setAdmin admin)
      flush
      let token ← lift (generateAdminJwt lib admin admin.totpEnabled req)
      pure (admin, token)

/-! ## The route -/

inductive Response where
  | token (token : String) (totpRequired : Bool)
  | unauthorized (detail : String)
  | serverError
  deriving DecidableEq, Repr

def Response.grants : Response → Bool
  | .token .. => true
  | _ => false

/-- `async with AsyncSessionLocal() as db`: the block commits nothing, and
closing the session rolls back what it has flushed. -/
def closed (db : AdminDb) (_ : Txn.Session AdminDb Row Empty) : AdminDb := db

/-- What the route makes of the check's outcome. -/
def respond : Except Err (Admin × String) → Response
  | .ok (admin, token) => .token token admin.totpEnabled
  | .error .invalidCredentials => .unauthorized "Invalid credentials."
  | .error (.adminLocked userMessage) => .unauthorized userMessage
  | .error (.other _) => .serverError

/-- `admin_login` -/
def adminLogin (lib : Library) (username : String) (db : AdminDb) (req : Attempt) : Response × AdminDb :=
  let (outcome, s) := (authenticateAdmin lib username req).run { db := db }
  (respond outcome, closed db s)

/-- The requests one after the other, each with its answer. -/
def served (lib : Library) (username : String) : AdminDb → List Attempt → List (Attempt × Response)
  | _, [] => []
  | db, req :: reqs =>
    let (resp, db') := adminLogin lib username db req
    (req, resp) :: served lib username db' reqs

/-! ## The lock -/

variable {lib : Library} {username : String} {db : AdminDb} {req : Attempt}

/-- The password is wrong for the account, if there is one. -/
def Wrong (lib : Library) (username : String) (db : AdminDb) (req : Attempt) : Prop :=
  ∀ a, db.active username = some a → lib.verifyPassword req.password a.passwordHash = .ok false

/-- `r` comes within thirty minutes after five consecutive wrong ones. -/
def AfterFive {α : Type} (at_ : α → Time) (wrong : α → Prop) (rs : List α) (r : α) : Prop :=
  ∃ before four fifth between after, rs = before ++ four ++ fifth :: between ++ r :: after ∧ four.length = 4 ∧
    (∀ q ∈ four ++ [fifth], wrong q) ∧ at_ fifth ≤ at_ r ∧ at_ r < at_ fifth + lockout

/-- After five consecutive wrong passwords no request gets a token for thirty minutes. -/
def LocksOut (lib : Library) (username : String) (db : AdminDb) (reqs : List Attempt) : Prop :=
  ∀ p, AfterFive (·.1.at_) (fun p => Wrong lib username db p.1) (served lib username db reqs) p →
    p.2.grants = false

/-- The right password for an account that is active and not locked in the table. -/
def Opens (lib : Library) (username : String) (db : AdminDb) (req : Attempt) : Prop :=
  ∃ a, db.active username = some a ∧ a.isLocked req.at_ = false ∧
    lib.verifyPassword req.password a.passwordHash = .ok true ∧
    ∃ token, generateAdminJwt lib a a.totpEnabled req = .ok token

/-- No request changes the table. -/
theorem adminLogin_db : (adminLogin lib username db req).2 = db := rfl

theorem served_eq (reqs : List Attempt) :
    served lib username db reqs = reqs.map fun req => (req, (adminLogin lib username db req).1) := by
  induction reqs with
  | nil => rfl
  | cons req reqs ih =>
    simp only [served, List.map_cons]
    rw [adminLogin_db, ih]

/-- Only the right password gets a token, and it does whatever was tried before. -/
theorem grants_iff : (adminLogin lib username db req).1.grants = true ↔ Opens lib username db req := by
  have hwp : (authenticateAdmin lib username req).wp (fun _ _ => Opens lib username db req)
      (fun _ _ => ¬ Opens lib username db req) { db := db } := by
    simp only [authenticateAdmin, Txn.Prog.wp_bind, Txn.Prog.wp_query]
    cases ha : db.active username with
    | none =>
      have hno : ¬ Opens lib username db req := by
        rintro ⟨a, ha', _⟩
        rw [ha] at ha'
        cases ha'
      simp only [Txn.Prog.wp_bind]
      cases lib.hashPassword "dummy_constant_time_check_xyzzy" <;> exact hno
    | some a =>
      simp only [Txn.Prog.wp_bind, Txn.Prog.wp_require]
      split
      case isFalse hlocked =>
        rintro ⟨a', ha', hfree, _⟩
        obtain rfl : a = a' := Option.some.inj (ha.symm.trans ha')
        simp [hfree] at hlocked
      next hfree =>
      cases hv : lib.verifyPassword req.password a.passwordHash with
      | error text =>
        rintro ⟨a', ha', _, hok, _⟩
        obtain rfl : a = a' := Option.some.inj (ha.symm.trans ha')
        rw [hv] at hok
        cases hok
      | ok right =>
        cases right with
        | false =>
          have hno : ¬ Opens lib username db req := by
            rintro ⟨a', ha', _, hok, _⟩
            obtain rfl : a = a' := Option.some.inj (ha.symm.trans ha')
            rw [hv] at hok
            cases hok
          simp only [lift, Txn.Prog.wp_pure', Bool.not_false, if_true, Txn.Prog.wp_bind, Txn.Prog.wp_write, flush,
            Txn.Prog.wp_flushed]
          split <;> exact hno
        | true =>
          have hflush : Txn.flushAll [setAdmin { a with failedAttempts := 0, lockedUntil := none }] db =
              some { db with admins := db.admins.set { a with failedAttempts := 0, lockedUntil := none } } :=
            Txn.flushAll_cons (by simp [setAdmin])
          simp only [lift, Txn.Prog.wp_pure', Bool.not_true, Bool.false_eq_true, if_false, Txn.Prog.wp_bind,
            Txn.Prog.wp_write, flush, Txn.Prog.wp_flushed, List.nil_append, hflush]
          have hfree' : a.isLocked req.at_ = false := by simpa using hfree
          -- the token says nothing of the fields that were reset
          cases ht : generateAdminJwt lib a a.totpEnabled req with
          | ok token =>
            have ht' : generateAdminJwt lib { a with failedAttempts := 0, lockedUntil := none } a.totpEnabled req =
                .ok token := ht
            simp only [ht', Txn.Prog.wp_pure']
            exact ⟨a, ha, hfree', hv, token, ht⟩
          | error text =>
            have ht' : generateAdminJwt lib { a with failedAttempts := 0, lockedUntil := none } a.totpEnabled req =
                .error text := ht
            simp only [ht']
            rintro ⟨a', ha', _, _, token, hok⟩
            obtain rfl : a = a' := Option.some.inj (ha.symm.trans ha')
            rw [ht] at hok
            cases hok
  simp only [adminLogin]
  cases hr : (authenticateAdmin lib username req).run { db := db } with
  | mk outcome s =>
    cases outcome with
    | ok r => simpa [respond, Response.grants] using Txn.Prog.wp_ok hwp hr
    | error e =>
      have hno := Txn.Prog.wp_error hwp hr
      cases e <;> simpa [respond, Response.grants] using hno

theorem afterFive_map {α β : Type} {f : β → α} {at_ : α → Time} {wrong : α → Prop} {rs : List β} {r : α} :
    AfterFive at_ wrong (rs.map f) r ↔ ∃ r', f r' = r ∧ AfterFive (fun b => at_ (f b)) (fun b => wrong (f b)) rs r' := by
  constructor
  · rintro ⟨before, four, fifth, between, after, hrs, hlen, hwrong, hle, hlt⟩
    obtain ⟨l, l₂, rfl, hl, hl₂⟩ := List.map_eq_append_iff.mp hrs
    obtain ⟨l₃, l₄, rfl, hl₃, hl₄⟩ := List.map_eq_append_iff.mp hl
    obtain ⟨before', four', rfl, rfl, rfl⟩ := List.map_eq_append_iff.mp hl₃
    obtain ⟨fifth', between', rfl, rfl, rfl⟩ := List.map_eq_cons_iff.mp hl₄
    obtain ⟨r', after', rfl, rfl, rfl⟩ := List.map_eq_cons_iff.mp hl₂
    refine ⟨r', rfl, before', four', fifth', between', after', rfl, by simpa using hlen, fun q hq => ?_, hle, hlt⟩
    refine hwrong (f q) ?_
    rw [← List.map_singleton, ← List.map_append]
    exact List.mem_map_of_mem hq
  · rintro ⟨r', rfl, before, four, fifth, between, after, rfl, hlen, hwrong, hle, hlt⟩
    refine ⟨before.map f, four.map f, f fifth, between.map f, after.map f, by simp, by simpa using hlen, fun q hq => ?_,
      hle, hlt⟩
    rw [← List.map_singleton, ← List.map_append] at hq
    obtain ⟨q', hq', rfl⟩ := List.mem_map.mp hq
    exact hwrong q' hq'

/-- **The lock never closes.** A sequence of requests keeps to the lockout
exactly when no one tries: when none of those that come within thirty minutes
after five wrong passwords brings the right one for an account that is active
and not already locked in the table. -/
theorem lockout_iff (lib : Library) (username : String) (db : AdminDb) (reqs : List Attempt) :
    LocksOut lib username db reqs ↔
      ∀ r, AfterFive (·.at_) (Wrong lib username db) reqs r → ¬ Opens lib username db r := by
  simp only [LocksOut, served_eq, afterFive_map]
  constructor
  · intro h r hr hopen
    have := h _ ⟨r, rfl, hr⟩
    rw [grants_iff.mpr hopen] at this
    cases this
  · rintro h _ ⟨r, rfl, hr⟩
    exact Bool.eq_false_iff.mpr fun hg => h r hr (grants_iff.mp hg)

/-- A library that hashes to the text itself and signs nothing. -/
def plainLibrary : Library where
  hashPassword _ := .ok ()
  verifyPassword plaintext hashed := .ok (plaintext == hashed)
  encode p := .ok p.jti

/-- Five wrong passwords, and a minute later the right one: it gets its token. -/
theorem right_password_after_five :
    let admin : Admin := ⟨1, "root", "correct horse battery", false, true, "admin", 0, none⟩
    let db : AdminDb := ⟨⟨[admin], by decide⟩⟩
    let reqs : List Attempt := (List.range 5).map (fun (n : Nat) => { at_ := seconds n, password := "guess" }) ++
      [{ at_ := seconds 64, password := "correct horse battery", jti := "token" }]
    ¬ LocksOut plainLibrary "root" db reqs ∧
      (served plainLibrary "root" db reqs).map (·.2) =
        List.replicate 5 (.unauthorized "Invalid credentials.") ++ [.token "token" false] := by
  intro admin db reqs
  have hserved : (served plainLibrary "root" db reqs).map (·.2) =
      List.replicate 5 (.unauthorized "Invalid credentials.") ++ [.token "token" false] := by decide +kernel
  refine ⟨fun h => ?_, hserved⟩
  let guess (n : Nat) : Attempt × Response := ({ at_ := seconds n, password := "guess" }, .unauthorized "Invalid credentials.")
  have hlist : served plainLibrary "root" db reqs = [] ++ [guess 0, guess 1, guess 2, guess 3] ++ guess 4 :: [] ++
      ({ at_ := seconds 64, password := "correct horse battery", jti := "token" }, .token "token" false) :: [] := by
    decide +kernel
  have hwrong (n : Nat) : Wrong plainLibrary "root" db (guess n).1 := by
    intro a ha
    obtain rfl : admin = a := by simpa [AdminDb.active, db, admin] using ha
    rfl
  have := h _ ⟨_, _, _, _, _, hlist, rfl, fun q hq => ?_, by decide, by decide⟩
  · cases this
  · simp only [List.cons_append, List.nil_append, List.mem_cons, List.not_mem_nil, or_false] at hq
    rcases hq with rfl | rfl | rfl | rfl | rfl <;> exact hwrong _

end Falaron.AdminLogin
