/-
The profiles of resellers, and what their percentages may be.

A profile is created once for a user, and then updated or suspended. Creation
checks both percentages and an update only the discount; a suspended profile
cannot be found, and its row still holds the unique key. `profiles_valid_iff`
says which sequences of requests keep every profile valid all the same, and
are refused as they should be.
-/
import Falaron.Py.DecimalText
import Falaron.Txn.Run
import Falaron.Txn.Table

namespace Falaron.Reseller

open Py (Decimal)

/-! ## Numbers -/

inductive Number where
  | finite (d : Decimal)
  | infinite (negative : Bool)
  | nan
  deriving DecidableEq, Repr

/-- A number of a text: digits, perhaps with a point, perhaps with an exponent. -/
def readFinite (negative : Bool) (cs : List Char) : Option Decimal :=
  let whole := cs.takeWhile Py.isDigit
  let rest := cs.dropWhile Py.isDigit
  let point := rest.head? = some '.'
  let fraction := if point then rest.tail.takeWhile Py.isDigit else []
  let rest := if point then rest.tail.dropWhile Py.isDigit else rest
  if whole ++ fraction = [] then none
  else (Py.readExponent rest).map fun (e : Int) =>
    ⟨Py.signed negative (Py.natOf (whole ++ fraction)), e - fraction.length⟩

/-- `Decimal(s)`; nothing where it raises `InvalidOperation` -/
def Number.ofText (s : String) : Option Number :=
  let cs := (Py.stripBlanks (s.toList.map Py.plain)).filter (· ≠ '_')
  let (negative, cs) := Py.readSign cs
  match Py.decimalOfText s with
  | some .infinite => some (.infinite negative)
  | some .nan | some .signalling => some .nan
  | some (.finite _) => (readFinite negative cs).map .finite
  | none => none

example : Number.ofText " -12_3.50e1" = some (.finite ⟨-12350, -1⟩) := by decide +kernel

def Number.str : Number → String
  | .finite d => d.str
  | .infinite negative => (if negative then "-" else "") ++ "Infinity"
  | .nan => "NaN"

/-- What an attribute may be set to. A float is given by its exact value and
by the decimal its `repr` shows. -/
inductive Value where
  | none
  | bool (b : Bool)
  | int (n : Int)
  | decimal (x : Number)
  | float (exact shown : Decimal)
  | str (s : String)

namespace Value

/-- `Decimal(str(v))`; nothing where it raises `InvalidOperation` -/
def shown : Value → Option Number
  | none | bool _ => .none
  | int n => some (.finite ⟨n, 0⟩)
  | decimal x => some x
  | float _ shown => some (.finite shown)
  | str s => Number.ofText s

/-- The number that the driver sends to a `NUMERIC` column. -/
def number : Value → Option Number
  | none => .none
  | bool b => some (.finite ⟨if b then 1 else 0, 0⟩)
  | int n => some (.finite ⟨n, 0⟩)
  | decimal x => some x
  | float exact _ => some (.finite exact)
  | str s => Number.ofText s

end Value

/-! ## Tables -/

/-- What a `NUMERIC(8, 4)` column holds: so many ten-thousandths, or no number. -/
inductive Pct where
  | of (n : Int)
  | nan
  deriving DecidableEq, Repr

/-- What the column keeps of a number; nothing where the database refuses it. -/
def Number.column : Number → Option Pct
  | .finite d => let n := d.numeric 4; if n.natAbs < 10 ^ 8 then some (.of n) else none
  | .infinite _ => none
  | .nan => some .nan

def Value.column (v : Value) : Option Pct := v.number.bind Number.column

/-- The columns that come back as what they are. -/
def Pct.value : Pct → Value
  | .of n => .decimal (.finite (.ofNumeric 4 n))
  | .nan => .decimal .nan

/-- A profile, with its percentages as `α`: what the columns hold, or what an object is set to. -/
structure ResellerProfile (α : Type) where
  userId : Int
  planName : String
  discountPct : α
  minMarginPct : α
  isActive : Bool
  monthlyOrderLimit : Option Int
  notes : Option String
  createdAt : Int
  updatedAt : Int
  deriving DecidableEq

abbrev ProfileRow := ResellerProfile Pct

structure ProfileDb where
  users : List Int
  profiles : Txn.Table fun p : ProfileRow => p.userId

inductive Row where
  | profile (userId : Int)
  deriving DecidableEq

inductive Err where
  /-- `ValidationError` -/
  | validation (detail userMessage : String)
  /-- `decimal.InvalidOperation` -/
  | invalidOperation
  | database
  deriving DecidableEq, Repr

abbrev M := Txn.Prog ProfileDb Row Err Empty

/-- What the row of an object is; nothing where a column does not take what it is set to. -/
def ResellerProfile.stored (p : ResellerProfile Value) : Option ProfileRow := do
  let discountPct ← p.discountPct.column
  let minMarginPct ← p.minMarginPct.column
  guard (p.planName.length ≤ 64 ∧ p.monthlyOrderLimit.all fun n => -2 ^ 31 ≤ n ∧ n < 2 ^ 31)
  pure { p with discountPct := discountPct, minMarginPct := minMarginPct }

def ResellerProfile.loaded (p : ProfileRow) : ResellerProfile Value :=
  { p with discountPct := p.discountPct.value, minMarginPct := p.minMarginPct.value }

def insertProfile (p : ResellerProfile Value) : Txn.Stmt ProfileDb Row where
  rows := [.profile p.userId]
  admits db := db.users.contains p.userId && !db.profiles.has p.userId && p.stored.isSome
  apply db := (p.stored.map fun row => { db with profiles := db.profiles.add row }).getD db

def setProfile (p : ResellerProfile Value) : Txn.Stmt ProfileDb Row where
  rows := [.profile p.userId]
  admits _ := p.stored.isSome
  apply db := (p.stored.map fun row => { db with profiles := db.profiles.set row }).getD db

def flush : M Unit := .flushed .database

/-! ## The requests -/

/-- `get_reseller_profile`, which finds active profiles. -/
def ProfileDb.active (db : ProfileDb) (userId : Int) : Option ProfileRow :=
  (db.profiles.find userId).filter (·.isActive)

/-- `x < 0 or x >= 100`; a comparison with `NaN` raises. -/
def Number.outside : Number → Except Err Bool
  | .finite d => .ok (d.val < 0 || 100 ≤ d.val)
  | .infinite _ => .ok true
  | .nan => .error .invalidOperation

/-- `x < 0` -/
def Number.negative : Number → Except Err Bool
  | .finite d => .ok (d.val < 0)
  | .infinite negative => .ok negative
  | .nan => .error .invalidOperation

def Number.notAPct (x : Number) : Err :=
  .validation ("discount_pct must be 0–99.9999, got " ++ x.str) "Invalid discount percentage."

/-- Raises the error where the test is true. -/
def reject (test : Except Err Bool) (e : Err) : M Unit :=
  match test with
  | .ok true => .throw e
  | .ok false => pure ()
  | .error e' => .throw e'

def createResellerProfile (now userId : Int) (planName : String) (discountPct minMarginPct : Number)
    (monthlyOrderLimit : Option Int) : M Unit := do
  let existing ← .query (·.active userId)
  .require existing.isNone (.validation s!"User {userId} already has a reseller profile" "This user is already a reseller.")
  reject discountPct.outside discountPct.notAPct
  reject minMarginPct.negative (.validation "min_margin_pct must be non-negative" "Invalid minimum margin.")
  .write (insertProfile
    { userId := userId, planName := planName, discountPct := .decimal discountPct, minMarginPct := .decimal minMarginPct,
      isActive := true, monthlyOrderLimit := monthlyOrderLimit, notes := none, createdAt := now, updatedAt := now })
  flush

/-- `updates`: a value for each key that is there, and the keys that are not allowed. -/
structure Updates where
  planName : Option String := none
  discountPct : Option Value := none
  minMarginPct : Option Value := none
  isActive : Option Bool := none
  monthlyOrderLimit : Option (Option Int) := none
  notes : Option (Option String) := none
  invalid : List String := []

/-- `setattr` of each key -/
def ResellerProfile.updated (p : ResellerProfile Value) (now : Int) (u : Updates) : ResellerProfile Value where
  userId := p.userId
  planName := u.planName.getD p.planName
  discountPct := u.discountPct.getD p.discountPct
  minMarginPct := u.minMarginPct.getD p.minMarginPct
  isActive := u.isActive.getD p.isActive
  monthlyOrderLimit := u.monthlyOrderLimit.getD p.monthlyOrderLimit
  notes := u.notes.getD p.notes
  createdAt := p.createdAt
  updatedAt := now

/-- The check of the discount, if there is one. -/
def checkDiscount : Option Value → M Unit
  | none => pure ()
  | some v =>
    match v.shown with
    | none => .throw .invalidOperation
    | some pct => reject pct.outside pct.notAPct

def updateResellerProfile (setText : List String → String) (now userId : Int) (updates : Updates) : M Unit := do
  match ← .query (·.active userId) with
  | none => .throw (.validation s!"No reseller profile found for user {userId}" "Reseller profile not found.")
  | some profile =>
    .require updates.invalid.isEmpty
      (.validation ("Invalid update fields: " ++ setText updates.invalid) "Invalid reseller update.")
    checkDiscount updates.discountPct
    .write (setProfile (profile.loaded.updated now updates))
    flush

def suspendReseller (userId : Int) : M Unit := do
  match ← .query (·.active userId) with
  | none => .throw (.validation s!"No reseller for user {userId}" "Reseller not found.")
  | some profile =>
    .write (setProfile { profile.loaded with isActive := false })
    flush

inductive Request where
  | create (now userId : Int) (planName : String) (discountPct minMarginPct : Number) (monthlyOrderLimit : Option Int)
  | update (now userId : Int) (updates : Updates)
  | suspend (userId : Int)

/-- How Python shows a set of keys is a parameter. -/
def Request.prog (setText : List String → String) : Request → M Unit
  | create now userId planName discountPct minMarginPct monthlyOrderLimit =>
    createResellerProfile now userId planName discountPct minMarginPct monthlyOrderLimit
  | update now userId updates => updateResellerProfile setText now userId updates
  | suspend userId => suspendReseller userId

/-- The answer to a request, and what its caller commits: everything, or nothing after an error. -/
def serve (setText : List String → String) (db : ProfileDb) (r : Request) : Except Err Unit × ProfileDb :=
  match (r.prog setText).run { db := db } with
  | (.ok _, s) => (.ok (), (Txn.flushAll s.staged s.db).getD db)
  | (.error e, _) => (.error e, db)

/-! ## What a profile may be -/

/-- A discount that is at least 0 and below 100. -/
def Pct.isDiscount : Pct → Bool
  | of n => 0 ≤ n && n < 10 ^ 6
  | nan => false

def Pct.isMargin : Pct → Bool
  | of n => 0 ≤ n
  | nan => false

structure ResellerProfile.Valid (p : ProfileRow) : Prop where
  discount : p.discountPct.isDiscount = true
  margin : p.minMarginPct.isMargin = true

def ProfileDb.Valid (db : ProfileDb) : Prop := ∀ p ∈ db.profiles.rows, p.Valid

/-- A discount, to the four digits that are kept of it. -/
def Number.isDiscount : Number → Bool
  | .finite d => (Pct.of (d.numeric 4)).isDiscount
  | _ => false

def Number.isMargin : Number → Bool
  | .finite d => (Pct.of (d.numeric 4)).isMargin
  | .infinite negative => !negative
  | .nan => false

/-- What the request asks for is not valid. -/
def Request.Breaks : Request → Prop
  | create _ _ _ discountPct minMarginPct _ => ¬ (discountPct.isDiscount = true ∧ minMarginPct.isMargin = true)
  | update _ _ updates => ¬ ((∀ v ∈ updates.discountPct, v.number.any Number.isDiscount = true) ∧
      ∀ v ∈ updates.minMarginPct, v.number.any Number.isMargin = true)
  | suspend _ => False

/-- It creates a profile that is there already, suspended perhaps. -/
def Request.Recreates (db : ProfileDb) : Request → Prop
  | create _ userId .. => db.profiles.has userId = true
  | _ => False

/-- All profiles are valid after the request; and if it asks for one that is
not, or for one that exists, it is served all the same or refused as a whole. -/
def Kept (setText : List String → String) (db : ProfileDb) (r : Request) : Prop :=
  (serve setText db r).2.Valid ∧ (r.Breaks ∨ r.Recreates db → (serve setText db r).1 = .ok () ∨
    (∃ detail userMessage, (serve setText db r).1 = .error (.validation detail userMessage)) ∧
      (serve setText db r).2 = db)

/-- What creation checks of its numbers turns them down. -/
def turnsDown (discountPct minMarginPct : Number) : Prop :=
  discountPct.outside = .ok true ∨ discountPct.outside = .ok false ∧ minMarginPct.negative = .ok true

/-- The user has no suspended profile, and the percentages, `NaN` not being
one, are in range to four digits; or the request is turned down before that matters. -/
def Request.Sound (db : ProfileDb) : Request → Prop
  | create _ userId _ discountPct minMarginPct _ => (db.active userId).isSome ∨ turnsDown discountPct minMarginPct ∨
      db.profiles.has userId = false ∧ discountPct.isDiscount = true ∧ minMarginPct.isMargin = true
  | update _ userId updates => db.active userId = none ∨ updates.invalid ≠ [] ∨
      (∃ v ∈ updates.discountPct, ∃ x, v.shown = some x ∧ x.outside = .ok true) ∨
      (∀ v ∈ updates.discountPct, v.number.any Number.isDiscount = true) ∧
        ∀ v ∈ updates.minMarginPct, v.number.any Number.isMargin = true
  | suspend _ => True

/-! ## What a request does -/

section

variable {setText : List String → String} {db : ProfileDb} {r : Request} {w : Txn.Stmt ProfileDb Row}

/-- The request is turned down with `e`. -/
def Denied (setText : List String → String) (db : ProfileDb) (r : Request) (e : Err) : Prop :=
  serve setText db r = (.error e, db)

/-- The request comes to writing `w`. -/
def Writes (setText : List String → String) (db : ProfileDb) (r : Request) (w : Txn.Stmt ProfileDb Row) : Prop :=
  serve setText db r = if w.admits db then (.ok (), w.apply db) else (.error .database, db)

theorem run_written : (do .write w; flush : M Unit).run { db := db } =
    if w.admits db then (.ok (), { db := w.apply db }) else (.error .database, { db := db, staged := [w] }) := by
  by_cases hw : w.admits db = true <;>
    simp [Txn.Prog.bind_eq, Txn.Prog.run_bind, Txn.Prog.run, Txn.Prog.write, flush, Txn.Prog.flushed, Txn.flushAll, hw]

theorem writes_of_run (h : (r.prog setText).run { db := db } = (do .write w; flush : M Unit).run { db := db }) :
    Writes setText db r w := by
  simp only [Writes, serve, h, run_written]
  by_cases hw : w.admits db = true
  · simp [hw, Txn.flushAll]
  · simp [hw]

theorem denied_of_run {e : Err} {s : Txn.Session ProfileDb Row Empty}
    (h : (r.prog setText).run { db := db } = (.error e, s)) : Denied setText db r e := by
  simp only [Denied, serve, h]

theorem kept_of_denied {detail userMessage : String} (hdb : db.Valid)
    (h : Denied setText db r (.validation detail userMessage)) : Kept setText db r := by
  rw [Denied] at h
  rw [Kept, h]
  exact ⟨hdb, fun _ => .inr ⟨⟨detail, userMessage, rfl⟩, rfl⟩⟩

/-- Another error is right where nothing invalid is asked for. -/
theorem kept_iff_of_denied {e : Err} (hdb : db.Valid) (he : ∀ detail userMessage, e ≠ .validation detail userMessage)
    (h : Denied setText db r e) : Kept setText db r ↔ ¬ (r.Breaks ∨ r.Recreates db) := by
  rw [Denied] at h
  rw [Kept, h]
  refine ⟨fun ⟨_, hasks⟩ hr => ?_, fun hr => ⟨hdb, fun hasks => absurd hasks hr⟩⟩
  rcases hasks hr with hok | ⟨⟨detail, userMessage, herr⟩, _⟩
  · cases hok
  · exact he detail userMessage (Except.error.inj herr)

/-- So is a write that keeps the profiles valid exactly where nothing invalid is asked for. -/
theorem kept_iff_of_writes (hdb : db.Valid) (h : Writes setText db r w)
    (hvalid : w.admits db = true → ((w.apply db).Valid ↔ ¬ (r.Breaks ∨ r.Recreates db))) :
    Kept setText db r ↔ ¬ (r.Breaks ∨ r.Recreates db) := by
  by_cases hw : w.admits db = true
  · rw [Writes, if_pos hw] at h
    rw [Kept, h, ← hvalid hw]
    exact ⟨fun hk => hk.1, fun hv => ⟨hv, fun _ => .inl rfl⟩⟩
  · rw [Writes, if_neg hw] at h
    exact kept_iff_of_denied hdb (fun _ _ he => by cases he) h

end

/-! ## What is kept is valid -/

section

variable {db : ProfileDb} {p : ResellerProfile Value} {row : ProfileRow} {c : Pct} {x : Number} {v : Value} {userId : Int}

theorem column_law (h : x.column = some c) : x.isDiscount = c.isDiscount ∧ x.isMargin = c.isMargin := by
  cases x with
  | finite d =>
    simp only [Number.column] at h
    split at h <;> cases h
    exact ⟨rfl, rfl⟩
  | infinite negative => cases h
  | nan =>
    cases h
    exact ⟨rfl, rfl⟩

theorem Value.column_law (h : v.column = some c) :
    v.number.any Number.isDiscount = c.isDiscount ∧ v.number.any Number.isMargin = c.isMargin := by
  obtain ⟨x, hx, hc⟩ := Option.bind_eq_some_iff.mp h
  rw [hx]
  exact Reseller.column_law hc

/-- A row is valid when what its object was set to is. -/
theorem valid_iff (h : p.stored = some row) : row.Valid ↔
    p.discountPct.number.any Number.isDiscount = true ∧ p.minMarginPct.number.any Number.isMargin = true := by
  simp only [ResellerProfile.stored, Option.bind_eq_bind, Option.bind_eq_some_iff] at h
  obtain ⟨discountPct, hd, minMarginPct, hm, _, _, hrow⟩ := h
  cases hrow
  rw [(Value.column_law hd).1, (Value.column_law hm).2]
  exact ⟨fun hv => ⟨hv.discount, hv.margin⟩, fun hv => ⟨hv.1, hv.2⟩⟩

theorem stored_userId (h : p.stored = some row) : row.userId = p.userId := by
  simp only [ResellerProfile.stored, Option.bind_eq_bind, Option.bind_eq_some_iff] at h
  obtain ⟨discountPct, hd, minMarginPct, hm, _, _, hrow⟩ := h
  cases hrow
  rfl

theorem numeric_ofNumeric {n : Int} (h : 0 ≤ n) : (Decimal.ofNumeric 4 n).numeric 4 = n := by
  rw [Decimal.numeric, Decimal.val_ofNumeric, Py.halfAway_int h]

theorem isDiscount_value (h : c.isDiscount = true) : c.value.number.any Number.isDiscount = true := by
  cases c with
  | of n =>
    have hn : 0 ≤ n := by simp [Pct.isDiscount] at h; exact h.1
    simpa [Pct.value, Value.number, Number.isDiscount, numeric_ofNumeric hn] using h
  | nan => cases h

theorem isMargin_value (h : c.isMargin = true) : c.value.number.any Number.isMargin = true := by
  cases c with
  | of n =>
    have hn : 0 ≤ n := by simpa [Pct.isMargin] using h
    simpa [Pct.value, Value.number, Number.isMargin, numeric_ofNumeric hn] using h
  | nan => cases h

/-- An attribute that is not set keeps its valid value. -/
theorem getD_law {l : Number → Bool} {u : Option Value} {old : Value} (h : old.number.any l = true) :
    (u.getD old).number.any l = true ↔ ∀ v ∈ u, v.number.any l = true := by
  cases u with
  | none => simp [h]
  | some v => simp

theorem insertProfile_valid (hdb : db.Valid) (hfree : db.profiles.has p.userId = false) (h : p.stored = some row) :
    ((insertProfile p).apply db).Valid ↔ row.Valid := by
  have hrows : ((insertProfile p).apply db).profiles.rows = db.profiles.rows ++ [row] := by
    simp only [insertProfile, h, Option.map_some, Option.getD_some]
    exact Txn.Table.add_rows (by rw [stored_userId h]; exact hfree)
  simp only [ProfileDb.Valid, hrows, List.mem_append, List.mem_singleton]
  exact ⟨fun hv => hv row (.inr rfl), fun hv q hq => hq.elim (hdb q) fun he => he ▸ hv⟩

theorem setProfile_valid (hdb : db.Valid) (hmem : p.userId ∈ db.profiles.rows.map (·.userId))
    (h : p.stored = some row) : ((setProfile p).apply db).Valid ↔ row.Valid := by
  have hset : ((setProfile p).apply db).profiles = db.profiles.set row := by
    simp only [setProfile, h, Option.map_some, Option.getD_some]
  simp only [ProfileDb.Valid, hset]
  refine ⟨fun hv => hv row (Txn.Table.mem_set (by rw [stored_userId h]; exact hmem)), fun hv q hq => ?_⟩
  obtain ⟨q', hq', he⟩ := List.mem_map.mp hq
  split at he
  · exact he ▸ hv
  · exact he ▸ hdb q' hq'

/-- The row that `get_reseller_profile` finds. -/
theorem active_some (h : db.active userId = some row) :
    row ∈ db.profiles.rows ∧ row.userId = userId ∧ row.isActive = true := by
  obtain ⟨hfind, hactive⟩ := Option.filter_eq_some_iff.mp h
  exact ⟨List.mem_of_find?_eq_some hfind, by simpa using List.find?_some hfind, hactive⟩

end

/-! ## Each request -/

section

variable {setText : List String → String} {db : ProfileDb} {now userId : Int}

theorem outside_nan {x : Number} {e : Err} (h : x.outside = .error e) : x = .nan ∧ e = .invalidOperation := by
  cases x with
  | finite d => cases h
  | infinite negative => cases h
  | nan => exact ⟨rfl, (Except.error.inj h).symm⟩

theorem negative_nan {x : Number} {e : Err} (h : x.negative = .error e) : x = .nan ∧ e = .invalidOperation := by
  cases x with
  | finite d => cases h
  | infinite negative => cases h
  | nan => exact ⟨rfl, (Except.error.inj h).symm⟩

theorem run_reject {test : Except Err Bool} {e : Err} {k : M Unit} {s : Txn.Session ProfileDb Row Empty} :
    (reject test e >>= fun _ => k).run s = match test with
      | .ok true => (.error e, s)
      | .ok false => k.run s
      | .error e' => (.error e', s) := by
  cases test with
  | error e' => rfl
  | ok b => cases b <;> rfl

theorem run_require {c : Bool} {e : Err} {k : M Unit} {s : Txn.Session ProfileDb Row Empty} :
    ((.require c e : M Unit) >>= fun _ => k).run s = if c then k.run s else (.error e, s) := by
  cases c <;> rfl

/-- The object that creation adds. -/
def newProfile (now userId : Int) (planName : String) (discountPct minMarginPct : Number) (monthlyOrderLimit : Option Int) :
    ResellerProfile Value :=
  { userId := userId, planName := planName, discountPct := .decimal discountPct, minMarginPct := .decimal minMarginPct,
    isActive := true, monthlyOrderLimit := monthlyOrderLimit, notes := none, createdAt := now, updatedAt := now }

theorem create_cases (setText : List String → String) (db : ProfileDb) (now userId : Int) (planName : String)
    (discountPct minMarginPct : Number) (monthlyOrderLimit : Option Int) :
    let r := Request.create now userId planName discountPct minMarginPct monthlyOrderLimit
    (∃ detail userMessage, Denied setText db r (.validation detail userMessage)) ∧
        ((db.active userId).isSome = true ∨ turnsDown discountPct minMarginPct) ∨
      (db.active userId).isSome = false ∧ ¬ turnsDown discountPct minMarginPct ∧
        (Denied setText db r .invalidOperation ∧ (discountPct = .nan ∨ minMarginPct = .nan) ∨
          Writes setText db r (insertProfile (newProfile now userId planName discountPct minMarginPct monthlyOrderLimit)) ∧
            discountPct.outside = .ok false ∧ minMarginPct.negative = .ok false) := by
  intro r
  have hrun : (r.prog setText).run { db := db } = if (db.active userId).isNone then _ else _ := run_require
  simp only [run_reject] at hrun
  by_cases hactive : (db.active userId).isSome = true
  · rw [if_neg (by simpa [Option.isSome_iff_ne_none] using hactive)] at hrun
    exact .inl ⟨⟨_, _, denied_of_run hrun⟩, .inl hactive⟩
  rw [if_pos (by simpa using hactive)] at hrun
  have hnone : (db.active userId).isSome = false := by simpa using hactive
  cases hd : discountPct.outside with
  | error e =>
    obtain ⟨hnan, rfl⟩ := outside_nan hd
    rw [hd] at hrun
    exact .inr ⟨hnone, fun ht => by simp [turnsDown, hd] at ht, .inl ⟨denied_of_run hrun, .inl hnan⟩⟩
  | ok low =>
  cases low with
  | true =>
    rw [hd] at hrun
    exact .inl ⟨⟨_, _, denied_of_run hrun⟩, .inr (.inl hd)⟩
  | false =>
  simp only [hd] at hrun
  cases hm : minMarginPct.negative with
  | error e =>
    obtain ⟨hnan, rfl⟩ := negative_nan hm
    rw [hm] at hrun
    exact .inr ⟨hnone, fun ht => by simp [turnsDown, hd, hm] at ht, .inl ⟨denied_of_run hrun, .inr hnan⟩⟩
  | ok low =>
  cases low with
  | true =>
    rw [hm] at hrun
    exact .inl ⟨⟨_, _, denied_of_run hrun⟩, .inr (.inr ⟨hd, hm⟩)⟩
  | false =>
    rw [hm] at hrun
    exact .inr ⟨hnone, fun ht => by simp [turnsDown, hd, hm] at ht, .inr ⟨writes_of_run hrun, rfl, rfl⟩⟩

theorem create_kept_iff {planName : String} {discountPct minMarginPct : Number} {monthlyOrderLimit : Option Int}
    (hdb : db.Valid) :
    let r := Request.create now userId planName discountPct minMarginPct monthlyOrderLimit
    Kept setText db r ↔ r.Sound db := by
  intro r
  have hsound : (db.active userId).isSome = false → ¬ turnsDown discountPct minMarginPct →
      (r.Sound db ↔ ¬ (r.Breaks ∨ r.Recreates db)) := by
    intro hnone hturns
    simp only [r, Request.Sound, Request.Breaks, Request.Recreates, hnone, hturns, Bool.false_eq_true, false_or, not_or,
      not_not, Bool.not_eq_true]
    exact and_comm
  rcases create_cases setText db now userId planName discountPct minMarginPct monthlyOrderLimit with
    ⟨⟨_, _, hdenied⟩, hwhy⟩ | ⟨hnone, hturns, ⟨hdenied, _⟩ | ⟨hwrites, hd, hm⟩⟩
  · refine iff_of_true (kept_of_denied hdb hdenied) ?_
    exact hwhy.elim .inl fun ht => .inr (.inl ht)
  · rw [hsound hnone hturns]
    exact kept_iff_of_denied hdb (fun _ _ he => by cases he) hdenied
  · rw [hsound hnone hturns]
    refine kept_iff_of_writes hdb hwrites fun hw => ?_
    simp only [insertProfile, Bool.and_eq_true, Bool.not_eq_true'] at hw
    obtain ⟨row, hrow⟩ := Option.isSome_iff_exists.mp hw.2
    rw [insertProfile_valid hdb hw.1.2 hrow, valid_iff hrow]
    have hfree : ¬ r.Recreates db := fun hr => by
      have := hw.1.2
      simp only [r, Request.Recreates] at hr
      exact Bool.false_ne_true (this.symm.trans hr)
    rw [or_iff_left hfree]
    exact not_not.symm

/-- What an update's discount is turned down for. -/
def Updates.turnedDown (u : Updates) : Prop := ∃ v ∈ u.discountPct, ∃ x, v.shown = some x ∧ x.outside = .ok true

theorem update_cases (setText : List String → String) (db : ProfileDb) (now userId : Int) (updates : Updates) :
    let r := Request.update now userId updates
    (∃ detail userMessage, Denied setText db r (.validation detail userMessage)) ∧
        (db.active userId = none ∨ updates.invalid ≠ [] ∨ updates.turnedDown) ∨
      (∃ row, db.active userId = some row ∧ updates.invalid = [] ∧ ¬ updates.turnedDown ∧
        (Denied setText db r .invalidOperation ∨
          Writes setText db r (setProfile (row.loaded.updated now updates)))) := by
  intro r
  have hrun : (r.prog setText).run { db := db } = (match db.active userId with
      | none => .throw (.validation s!"No reseller profile found for user {userId}" "Reseller profile not found.")
      | some row => (.require updates.invalid.isEmpty
          (.validation ("Invalid update fields: " ++ setText updates.invalid) "Invalid reseller update.") : M Unit) >>=
        fun _ => checkDiscount updates.discountPct >>= fun _ => do
          .write (setProfile (row.loaded.updated now updates))
          flush : M Unit).run { db := db } := rfl
  cases hactive : db.active userId with
  | none =>
    rw [hactive] at hrun
    exact .inl ⟨⟨_, _, denied_of_run hrun⟩, .inl rfl⟩
  | some row =>
  simp only [hactive, run_require] at hrun
  by_cases hfields : updates.invalid = []
  case neg =>
    rw [if_neg (by simpa using hfields)] at hrun
    exact .inl ⟨⟨_, _, denied_of_run hrun⟩, .inr (.inl hfields)⟩
  rw [if_pos (by simpa using hfields)] at hrun
  have hopen (hdown : ∀ v ∈ updates.discountPct, ∀ x, v.shown = some x → x.outside ≠ .ok true) :
      ¬ updates.turnedDown := fun ⟨v, hv, x, hx, ho⟩ => hdown v hv x hx ho
  cases hdiscount : updates.discountPct with
  | none =>
    rw [hdiscount] at hrun hopen
    exact .inr ⟨row, rfl, hfields, hopen (by simp), .inr (writes_of_run hrun)⟩
  | some v =>
  rw [hdiscount] at hrun hopen
  cases hshown : v.shown with
  | none =>
    simp only [checkDiscount, hshown] at hrun
    exact .inr ⟨row, rfl, hfields, hopen (by simp [hshown]), .inl (denied_of_run hrun)⟩
  | some x =>
    simp only [checkDiscount, hshown, run_reject] at hrun
    have hother (ho : x.outside ≠ .ok true) : ¬ updates.turnedDown := hopen (by simpa [hshown] using ho)
    cases ho : x.outside with
    | error e =>
      obtain ⟨_, rfl⟩ := outside_nan ho
      rw [ho] at hrun
      exact .inr ⟨row, rfl, hfields, hother (by simp [ho]), .inl (denied_of_run hrun)⟩
    | ok low =>
      rw [ho] at hrun
      cases low with
      | true => exact .inl ⟨⟨_, _, denied_of_run hrun⟩, .inr (.inr ⟨v, hdiscount, x, hshown, ho⟩)⟩
      | false => exact .inr ⟨row, rfl, hfields, hother (by simp [ho]), .inr (writes_of_run hrun)⟩

theorem update_kept_iff {updates : Updates} (hdb : db.Valid) :
    let r := Request.update now userId updates
    Kept setText db r ↔ r.Sound db := by
  intro r
  rcases update_cases setText db now userId updates with
    ⟨⟨_, _, hdenied⟩, hwhy⟩ | ⟨row, hactive, hfields, hdown, h⟩
  · refine iff_of_true (kept_of_denied hdb hdenied) ?_
    exact hwhy.imp_right (Or.imp_right .inl)
  have hsound : r.Sound db ↔ ¬ (r.Breaks ∨ r.Recreates db) := by
    have hdown' : ¬ ∃ v ∈ updates.discountPct, ∃ x, v.shown = some x ∧ x.outside = .ok true := hdown
    simp only [r, Request.Sound, Request.Breaks, Request.Recreates, hactive, hfields, hdown', reduceCtorEq, ne_eq,
      not_true_eq_false, false_or, or_false, not_not]
  rw [hsound]
  rcases h with hdenied | hwrites
  · exact kept_iff_of_denied hdb (fun _ _ he => by cases he) hdenied
  · refine kept_iff_of_writes hdb hwrites fun hw => ?_
    obtain ⟨stored, hstored⟩ := Option.isSome_iff_exists.mp hw
    obtain ⟨hmem, hid, _⟩ := active_some hactive
    have hkey : (row.loaded.updated now updates).userId ∈ db.profiles.rows.map (·.userId) := List.mem_map_of_mem hmem
    have hvalid := hdb row hmem
    rw [setProfile_valid hdb hkey hstored, valid_iff hstored]
    simp only [r, Request.Breaks, Request.Recreates, or_false, not_not]
    exact and_congr (getD_law (isDiscount_value hvalid.discount)) (getD_law (isMargin_value hvalid.margin))

theorem suspend_kept (hdb : db.Valid) : Kept setText db (.suspend userId) := by
  have hrun : ((Request.suspend userId).prog setText).run { db := db } = (match db.active userId with
      | none => .throw (.validation s!"No reseller for user {userId}" "Reseller not found.")
      | some row => (do
          .write (setProfile { row.loaded with isActive := false })
          flush) : M Unit).run { db := db } := rfl
  cases hactive : db.active userId with
  | none =>
    rw [hactive] at hrun
    exact kept_of_denied hdb (denied_of_run hrun)
  | some row =>
    rw [hactive] at hrun
    refine (kept_iff_of_writes hdb (writes_of_run hrun) fun hw => ?_).mpr (by simp [Request.Breaks, Request.Recreates])
    obtain ⟨stored, hstored⟩ := Option.isSome_iff_exists.mp hw
    obtain ⟨hmem, _, _⟩ := active_some hactive
    have hvalid := hdb row hmem
    have hkey : ({ row.loaded with isActive := false } : ResellerProfile Value).userId ∈
        db.profiles.rows.map (·.userId) := List.mem_map_of_mem hmem
    rw [setProfile_valid hdb hkey hstored, valid_iff hstored]
    exact iff_of_true ⟨isDiscount_value hvalid.discount, isMargin_value hvalid.margin⟩
      (by simp [Request.Breaks, Request.Recreates])

/-- One request, on valid profiles. -/
theorem kept_iff (hdb : db.Valid) (r : Request) : Kept setText db r ↔ r.Sound db := by
  cases r with
  | create now userId planName discountPct minMarginPct monthlyOrderLimit => exact create_kept_iff hdb
  | update now userId updates => exact update_kept_iff hdb
  | suspend userId => exact iff_of_true (suspend_kept hdb) trivial

end

/-! ## Sequences of requests -/

/-- The tables after the requests. -/
def served (setText : List String → String) (db : ProfileDb) (rs : List Request) : ProfileDb :=
  rs.foldl (fun db r => (serve setText db r).2) db

/-- `P` holds of each request, with the tables it comes to. -/
def Throughout (setText : List String → String) (db : ProfileDb) (rs : List Request)
    (P : ProfileDb → Request → Prop) : Prop :=
  ∀ done r rest, rs = done ++ r :: rest → P (served setText db done) r

theorem throughout_nil {setText : List String → String} {db : ProfileDb} {P : ProfileDb → Request → Prop} :
    Throughout setText db [] P := fun done _ _ he => by cases done <;> cases he

theorem throughout_cons {setText : List String → String} {db : ProfileDb} {r : Request} {rs : List Request}
    {P : ProfileDb → Request → Prop} :
    Throughout setText db (r :: rs) P ↔ P db r ∧ Throughout setText (serve setText db r).2 rs P := by
  refine ⟨fun h => ⟨h [] r rs rfl, fun done r' rest he => h (r :: done) r' rest (by rw [he]; rfl)⟩, ?_⟩
  rintro ⟨hr, hrest⟩ done r' rest he
  cases done with
  | nil =>
    cases he
    exact hr
  | cons r₀ done =>
    cases he
    exact hrest done r' rest rfl

/-- **Profiles stay valid** through a sequence of requests, and requests for
invalid or existing ones are refused, exactly when each request is sound. -/
theorem profiles_valid_iff (setText : List String → String) (rs : List Request) {db : ProfileDb} (hdb : db.Valid) :
    Throughout setText db rs (Kept setText) ↔ Throughout setText db rs fun db r => r.Sound db := by
  induction rs generalizing db with
  | nil => exact iff_of_true throughout_nil throughout_nil
  | cons r rs ih =>
    rw [throughout_cons, throughout_cons, kept_iff hdb]
    refine and_congr_right fun hr => ih ?_
    exact ((kept_iff hdb r).mpr hr).1

/-- Nobody is a reseller yet. -/
def noResellers : ProfileDb := ⟨[7], ⟨[], List.nodup_nil⟩⟩

/-- A profile is created, made cheaper and suspended. -/
theorem profiles_valid_of_three :
    let pct (n : Int) : Number := .finite ⟨n, 0⟩
    let rs : List Request := [.create 0 7 "standard" (pct 10) (pct 5) none,
      .update 1 7 { discountPct := some (.str "12.5"), minMarginPct := some (.int 8) }, .suspend 7]
    (Throughout (fun _ => "") noResellers rs fun db r => r.Sound db) ∧
      Throughout (fun _ => "") noResellers rs (Kept fun _ => "") := by
  intro pct rs
  have hsound : Throughout (fun _ => "") noResellers rs fun db r => r.Sound db := by
    simp only [rs, throughout_cons]
    refine ⟨.inr (.inr (by decide +kernel)), .inr (.inr (.inr ⟨fun v hv => ?_, fun v hv => ?_⟩)), trivial,
      throughout_nil⟩
    · cases hv
      decide +kernel
    · cases hv
      decide +kernel
  have hvalid : noResellers.Valid := fun p hp => by cases hp
  exact ⟨hsound, (profiles_valid_iff (fun _ => "") rs hvalid).mpr hsound⟩

/-- A suspended reseller cannot be created again, nor can a negative margin be kept out of an update. -/
theorem invalid_profiles :
    let pct (n : Int) : Number := .finite ⟨n, 0⟩
    let new : Request := .create 0 7 "standard" (pct 10) (pct 5) none
    (¬ Throughout (fun _ => "") noResellers [new, .suspend 7, new] (Kept fun _ => "")) ∧
      ¬ Throughout (fun _ => "") noResellers [new, .update 1 7 { minMarginPct := some (.int (-1)) }]
        (Kept fun _ => "") := by
  intro pct new
  refine ⟨fun h => ?_, fun h => ?_⟩
  · have herr : (serve (fun _ => "") (served (fun _ => "") noResellers [new, .suspend 7]) new).1 = .error .database := by
      decide +kernel
    have hthere : (served (fun _ => "") noResellers [new, .suspend 7]).profiles.has 7 = true := by decide +kernel
    obtain ⟨_, hasks⟩ := h [new, .suspend 7] new [] rfl
    rw [herr] at hasks
    rcases hasks (.inr hthere) with hok | ⟨⟨_, _, hdenied⟩, _⟩
    · cases hok
    · cases hdenied
  · obtain ⟨hvalid, _⟩ := h [new] _ [] rfl
    have hall : (served (fun _ => "") noResellers [new, .update 1 7 { minMarginPct := some (.int (-1)) }]).profiles.rows.all
        (·.minMarginPct.isMargin) = false := by decide +kernel
    exact Bool.false_ne_true (hall.symm.trans (List.all_eq_true.mpr fun p hp => (hvalid p hp).margin))

end Falaron.Reseller
