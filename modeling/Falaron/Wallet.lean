/-
The wallet: five operations on one user's balance and reserve, each an entry
of the ledger.

The five differ in what they refuse and what they make of the wallet they
find (`Draft`); locking the user, looking the key up, the last checks and
the write are the same (`post`).
-/
import Falaron.Db
import Falaron.Txn.Safe

namespace Falaron

open Text (clip)

/-- Locks the user's row and reads it again; pending changes go first. -/
def lockUser (userId : Int) : M User := do
  flush
  let user ← .lockRow (.user userId) (·.users userId)
  match user with
  | .some user => pure user
  | .none => raise .missingRow

/-- `_existing` -/
def existing (idempotencyKey : Key) : M (Option LedgerEntry) := .query (·.findEntry idempotencyKey)

/-- The arguments the five operations share. -/
structure Posting where
  userId : Int
  amountPaise : Int
  reason : String
  referenceType : Option String := .none
  referenceId : Option String := .none

/-- What an operation writes: the entry's amount and the new wallet. -/
structure Draft where
  amountPaise : Int
  newBalance : Int
  newReserved : Int

def Posting.entry (p : Posting) (entryType : EntryType) (idempotencyKey : Key) (d : Draft) : LedgerEntry where
  userId := p.userId
  amountPaise := d.amountPaise
  entryType := entryType
  reason := clip 255 p.reason
  referenceType := p.referenceType
  referenceId := p.referenceId
  idempotencyKey := idempotencyKey
  balanceAfterPaise := d.newBalance
  reservedAfterPaise := d.newReserved

/-- `_append` -/
def append (p : Posting) (entryType : EntryType) (idempotencyKey : Key) (d : Draft) : M LedgerEntry := do
  .require (0 ≤ d.newBalance && 0 ≤ d.newReserved) (.wallet "Wallet invariant violated")
  .require (d.newReserved ≤ d.newBalance) (.insufficientFunds "Reserved amount exceeds balance")
  .write (Stmt.setWallet p.userId d.newBalance d.newReserved)
  .write (Stmt.insertEntry (p.entry entryType idempotencyKey d))
  flush
  pure (p.entry entryType idempotencyKey d)

/-- What the five operations have in common. -/
def post (p : Posting) (entryType : EntryType) (refusal : String) (idempotencyKey : Key)
    (draft : User → Except Err Draft) : M LedgerEntry := do
  .require (0 < p.amountPaise) (.wallet refusal)
  let user ← lockUser p.userId
  match ← existing idempotencyKey with
  | .some entry => pure entry
  | .none =>
    match draft user with
    | .error e => raise e
    | .ok d => append p entryType idempotencyKey d

/-! ## The five operations -/

def needFunds (amountPaise available : Int) : Err :=
  .insufficientFunds s!"Need {amountPaise} paise, available {available}"

def creditDraft (amountPaise : Int) (user : User) : Except Err Draft :=
  .ok ⟨amountPaise, user.cachedBalancePaise + amountPaise, user.cachedReservedPaise⟩

def debitDraft (amountPaise : Int) (user : User) : Except Err Draft :=
  if user.availablePaise < amountPaise then .error (needFunds amountPaise user.availablePaise)
  else .ok ⟨-amountPaise, user.cachedBalancePaise - amountPaise, user.cachedReservedPaise⟩

def reserveDraft (amountPaise : Int) (user : User) : Except Err Draft :=
  if user.availablePaise < amountPaise then .error (needFunds amountPaise user.availablePaise)
  else .ok ⟨0, user.cachedBalancePaise, user.cachedReservedPaise + amountPaise⟩

/-- A release takes at most what is reserved. -/
def releaseDraft (amountPaise : Int) (user : User) : Except Err Draft :=
  let reserved := user.cachedReservedPaise
  if reserved < amountPaise then
    if reserved ≤ 0 then .ok ⟨0, user.cachedBalancePaise, 0⟩
    else .ok ⟨0, user.cachedBalancePaise, reserved - reserved⟩
  else .ok ⟨0, user.cachedBalancePaise, reserved - amountPaise⟩

def captureDraft (amountPaise : Int) (user : User) : Except Err Draft :=
  let reserved := user.cachedReservedPaise
  if reserved < amountPaise then .error (.wallet "Cannot capture more than the reserved amount")
  else .ok ⟨-amountPaise, user.cachedBalancePaise - amountPaise, reserved - amountPaise⟩

def credit (p : Posting) (idempotencyKey : Option Key) : M LedgerEntry :=
  post p .credit "Credit amount must be positive"
    (Key.orElse idempotencyKey (.credit p.userId p.reason p.amountPaise)) (creditDraft p.amountPaise)

def debit (p : Posting) (idempotencyKey : Option Key) : M LedgerEntry :=
  post p .debit "Debit amount must be positive"
    (Key.orElse idempotencyKey (.debit p.userId p.reason p.amountPaise)) (debitDraft p.amountPaise)

def reserve (p : Posting) (idempotencyKey : Key) : M LedgerEntry :=
  post p .reserve "Reserve amount must be positive" idempotencyKey (reserveDraft p.amountPaise)

def release (p : Posting) (idempotencyKey : Key) : M LedgerEntry :=
  post p .release "Release amount must be positive" idempotencyKey (releaseDraft p.amountPaise)

/-- Convert a previous reserve into a real debit. -/
def capture (p : Posting) (idempotencyKey : Key) : M LedgerEntry :=
  post p .capture "Capture amount must be positive" idempotencyKey (captureDraft p.amountPaise)

/-- Any call of the wallet. -/
inductive WalletCall where
  | credit (p : Posting) (idempotencyKey : Option Key)
  | debit (p : Posting) (idempotencyKey : Option Key)
  | reserve (p : Posting) (idempotencyKey : Key)
  | release (p : Posting) (idempotencyKey : Key)
  | capture (p : Posting) (idempotencyKey : Key)

namespace WalletCall

def prog : WalletCall → M LedgerEntry
  | .credit p k => Falaron.credit p k
  | .debit p k => Falaron.debit p k
  | .reserve p k => Falaron.reserve p k
  | .release p k => Falaron.release p k
  | .capture p k => Falaron.capture p k

def posting : WalletCall → Posting
  | .credit p _ | .debit p _ | .reserve p _ | .release p _ | .capture p _ => p

/-- The key the entry is made under. -/
def key : WalletCall → Key
  | .credit p k => Key.orElse k (.credit p.userId p.reason p.amountPaise)
  | .debit p k => Key.orElse k (.debit p.userId p.reason p.amountPaise)
  | .reserve _ k | .release _ k | .capture _ k => k

end WalletCall

/-! ## What a posting does alone -/

namespace Db

/-- The ledger after the entry `e`, and the wallet it leaves. -/
def posted (db : Db) (e : LedgerEntry) : Db :=
  { db.setWallet e.userId e.balanceAfterPaise e.reservedAfterPaise with ledger := db.ledger ++ [e] }

variable {db : Db} {e : LedgerEntry}

@[simp] theorem posted_ledger : (db.posted e).ledger = db.ledger ++ [e] := rfl
@[simp] theorem posted_orders : (db.posted e).orders = db.orders := rfl
@[simp] theorem posted_records : (db.posted e).records = db.records := rfl
@[simp] theorem posted_payments : (db.posted e).payments = db.payments := rfl

theorem posted_users (u : Int) : (db.posted e).users u = if u = e.userId then
    (db.users u).map fun r =>
      { r with cachedBalancePaise := e.balanceAfterPaise, cachedReservedPaise := e.reservedAfterPaise }
    else db.users u := rfl

end Db

section

variable {p : Posting} {entryType : EntryType} {refusal : String} {key : Key}
  {draft : User → Except Err Draft} {s : Session} {db : Db}
  {Q : LedgerEntry → Session → Prop} {E : Err → Session → Prop}

/-- Why a posting raises, on the tables it finds. -/
inductive Refused (db : Db) (p : Posting) (refusal : String) (key : Key)
    (draft : User → Except Err Draft) : Err → Prop
  | amount : ¬ 0 < p.amountPaise → Refused db p refusal key draft (.wallet refusal)
  | missing : db.users p.userId = .none → Refused db p refusal key draft .missingRow
  | draft {user err} : db.users p.userId = .some user → db.findEntry key = .none → draft user = .error err →
      Refused db p refusal key draft err
  | negative {user d} : db.users p.userId = .some user → db.findEntry key = .none → draft user = .ok d →
      ¬ (0 ≤ d.newBalance ∧ 0 ≤ d.newReserved) →
      Refused db p refusal key draft (.wallet "Wallet invariant violated")
  | exceeds {user d} : db.users p.userId = .some user → db.findEntry key = .none → draft user = .ok d →
      d.newBalance < d.newReserved →
      Refused db p refusal key draft (.insufficientFunds "Reserved amount exceeds balance")

/-- What a posting writes, on the tables it finds. -/
structure Posts (db : Db) (p : Posting) (entryType : EntryType) (key : Key)
    (draft : User → Except Err Draft) (e : LedgerEntry) : Prop where
  pos : 0 < p.amountPaise
  fresh : db.findEntry key = .none
  drafted : ∃ user d, db.users p.userId = .some user ∧ draft user = .ok d ∧
    e = p.entry entryType key d ∧ 0 ≤ d.newReserved ∧ d.newReserved ≤ d.newBalance

theorem Posts.entry_eq {e : LedgerEntry} (h : Posts db p entryType key draft e) :
    e.userId = p.userId ∧ e.idempotencyKey = key := by
  obtain ⟨_, _, _, _, _, _, rfl, _⟩ := h
  exact ⟨rfl, rfl⟩

/-- A posting depends on its user's row and on its key only. -/
theorem Posts.congr {db' : Db} {e : LedgerEntry} (h : Posts db p entryType key draft e)
    (hu : db'.users p.userId = db.users p.userId) (hk : db'.findEntry key = db.findEntry key) :
    Posts db' p entryType key draft e :=
  ⟨h.pos, hk.trans h.fresh, hu ▸ h.drafted⟩

theorem wp_flush {Q : Unit → Session → Prop} (hf : Txn.flushAll s.staged s.db = .some db)
    (hQ : Q () { s with db := db, staged := [] }) : (flush : M Unit).wp Q E s := by
  rw [flush, Txn.Prog.wp_flushed, hf]
  exact hQ

theorem wp_append (hst : s.staged = []) {d : Draft} (hk : s.db.findEntry key = .none)
    (hneg : ¬ (0 ≤ d.newBalance ∧ 0 ≤ d.newReserved) → E (.wallet "Wallet invariant violated") s)
    (hexc : d.newBalance < d.newReserved → E (.insufficientFunds "Reserved amount exceeds balance") s)
    (hQ : 0 ≤ d.newReserved → d.newReserved ≤ d.newBalance →
      Q (p.entry entryType key d) { s with db := s.db.posted (p.entry entryType key d) }) :
    (append p entryType key d).wp Q E s := by
  simp only [append, Txn.Prog.wp_bind, Txn.Prog.wp_require, Bool.and_eq_true, decide_eq_true_eq]
  split
  · next h =>
    split
    · next h' =>
      simp only [Txn.Prog.wp_write, hst, List.nil_append, List.cons_append]
      refine @wp_flush _ (s.db.posted (p.entry entryType key d)) _ _ ?_ ?_
      · have hk' : ((s.db.setWallet p.userId d.newBalance d.newReserved).findEntry key).isNone = true :=
          Option.isNone_iff_eq_none.mpr hk
        exact (Txn.flushAll_cons rfl).trans (Txn.flushAll_cons hk')
      · simpa only [Txn.Prog.wp_pure', ← hst] using hQ h.2 h'
    · next h' => exact hexc (by omega)
  · next h => exact hneg h

/-- When what is staged is refused, so is the posting. -/
theorem wp_post_stuck (hf : Txn.flushAll s.staged s.db = .none) (hpos : 0 < p.amountPaise)
    (hE : E .integrity s) : (post p entryType refusal key draft).wp Q E s := by
  simp only [post, lockUser, Txn.Prog.wp_bind, Txn.Prog.wp_require]
  rw [if_pos (decide_eq_true hpos)]
  simp only [flush, Txn.Prog.wp_flushed, hf]
  exact hE

/-- The rule of the five operations: what is staged goes first, then the
operation replays its key, refuses, or posts one entry. -/
theorem wp_post (hf : Txn.flushAll s.staged s.db = .some db)
    (hE₀ : ¬ 0 < p.amountPaise → E (.wallet refusal) s)
    (hE : ∀ err, Refused db p refusal key draft err → E err { s with db := db, staged := [] })
    (hreplay : ∀ e, 0 < p.amountPaise → db.findEntry key = .some e → Q e { s with db := db, staged := [] })
    (hposts : ∀ e, Posts db p entryType key draft e →
      Q e { s with db := db.posted e, staged := [] }) :
    (post p entryType refusal key draft).wp Q E s := by
  simp only [post, Txn.Prog.wp_bind, Txn.Prog.wp_require, decide_eq_true_eq]
  split
  case isFalse h => exact hE₀ h
  next hpos =>
  simp only [lockUser, Txn.Prog.wp_bind]
  refine wp_flush hf ?_
  simp only [Txn.Prog.wp_lockRow]
  cases hu : db.users p.userId with
  | none => exact hE _ (.missing hu)
  | some user =>
    simp only [Txn.Prog.wp_pure', existing, Txn.Prog.wp_query]
    cases hk : db.findEntry key with
    | some e => exact hreplay e hpos hk
    | none =>
      simp only
      cases hd : draft user with
      | error err => exact hE err (.draft hu hk hd)
      | ok d =>
        refine wp_append rfl hk (fun h => hE _ (.negative hu hk hd h)) (fun h => hE _ (.exceeds hu hk hd h)) fun h h' => ?_
        exact hposts _ ⟨hpos, hk, user, d, hu, hd, rfl, h, h'⟩

end

/-! ## What a posting does while others commit -/

abbrev Local := Txn.Local Db Row

end Falaron

namespace Txn.Local

open Falaron

variable (t : Txn.Local Db Row)

/-- `t` once it has read the wallet of `userId` and looked a key up in `db`. -/
def looked (userId : Int) (db : Db) : Txn.Local Db Row :=
  { t.locked [.user userId] with seen := db :: t.seen }

/-- `t` after it has looked the key of `e` up in `db` and posted `e`. -/
def postedAt (e : LedgerEntry) (db : Db) : Txn.Local Db Row :=
  ((t.looked e.userId db).wrote
    (Stmt.setWallet e.userId e.balanceAfterPaise e.reservedAfterPaise)).wrote (Stmt.insertEntry e)

variable {t} {e : LedgerEntry} {userId : Int} {db db' : Db} {r : Row}

@[simp] theorem view_looked : (t.looked userId db').view db = t.view db := rfl
@[simp] theorem staged_looked : (t.looked userId db').staged = t.staged := rfl
@[simp] theorem seen_looked : (t.looked userId db').seen = db' :: t.seen := rfl
@[simp] theorem staged_postedAt : (t.postedAt e db').staged = t.staged := rfl
@[simp] theorem seen_postedAt : (t.postedAt e db').seen = db' :: t.seen := rfl

@[simp] theorem view_postedAt : (t.postedAt e db').view db = (t.view db).posted e := by
  simp only [postedAt, view_wrote]
  rfl

/-- `t'` has staged and written what `t` has, and holds at least its locks. -/
structure SameWrites (t t' : Txn.Local Db Row) : Prop where
  staged : t'.staged = t.staged
  pending : t'.pending = t.pending
  locks : ∀ r, t.locks r → t'.locks r

theorem SameWrites.refl : t.SameWrites t := ⟨rfl, rfl, fun _ h => h⟩

theorem locks_looked : (t.looked userId db).locks r ↔ r = .user userId ∨ t.locks r := by
  simp [looked, Txn.Local.locked]

theorem locks_postedAt : (t.postedAt e db).locks r ↔
    r = .ledgerKey e.idempotencyKey ∨ r = .user e.userId ∨ t.locks r := by
  simp [postedAt, locks_wrote, Stmt.setWallet, Stmt.insertEntry, locks_looked]

end Txn.Local

namespace Falaron

section

variable {R : Txn.Rely Db Row} {guard : List Db → Row → Db → Prop} {p : Posting} {entryType : EntryType}
  {refusal : String} {key : Key} {draft : User → Except Err Draft} {t : Local} {db : Db}
  {Q : LedgerEntry → Local → Db → Prop} {E : Err → Local → Db → Prop}

/-- A `Rely` under which a locked wallet and a taken key stay what they are. -/
structure KeepsWallet (R : Txn.Rely Db Row) (t : Local) (userId : Int) (key : Key) : Prop where
  user : ∀ {a b}, R.same (.user userId) a b → (t.view b).users userId = (t.view a).users userId
  key : ∀ {a b}, R.same (.ledgerKey key) a b → (t.view b).findEntry key = (t.view a).findEntry key

/-- The committed databases a posting goes by: the user's row is locked at
`db₁`, the key looked up at `db₂`. -/
structure Looked (R : Txn.Rely Db Row) (guard : List Db → Row → Db → Prop) (t : Local) (userId : Int)
    (db db₁ db₂ : Db) : Prop where
  before : R.Interf t.locks db db₁
  free : guard t.seen (.user userId) db₁
  held : R.Interf (t.looked userId db₂).locks db₁ db₂

theorem safe_flush {E : Err → Local → Db → Prop} {Q : Unit → Local → Db → Prop} (hst : t.staged = [])
    (hQ : ∀ db', R.Interf t.locks db db' → Q () t db') : (flush : M Unit).safe R guard Q E t db := by
  have ht := Txn.Local.clear_of_nil hst
  simp only [flush, Txn.Prog.flushed, Txn.Prog.safe, hst, Txn.execAll, ht]
  exact fun db' hi => hQ db' hi

theorem safe_append (hst : t.staged = []) (hdb : R.inv db) {d : Draft}
    (hE : ∀ err db', R.Interf t.locks db db' → E err t db')
    (hQ : 0 ≤ d.newReserved → d.newReserved ≤ d.newBalance → ∀ db₁, R.Interf t.locks db db₁ →
      (t.view db₁).findEntry key = .none →
      let t' := (t.wrote (Stmt.setWallet p.userId d.newBalance d.newReserved)).wrote
        (Stmt.insertEntry (p.entry entryType key d))
      ∀ db₂, R.Interf t'.locks db₁ db₂ → Q (p.entry entryType key d) t' db₂) :
    (append p entryType key d).safe R guard Q E t db := by
  refine Txn.Prog.safe_bind hdb (Txn.Prog.safe_require (fun hc db₁ h₁ => ?_) fun _ db' hi => hE _ _ hi)
  simp only [Bool.and_eq_true, decide_eq_true_eq] at hc
  refine Txn.Prog.safe_bind h₁.inv (Txn.Prog.safe_require (fun hc' db₂ h₂ => ?_) fun _ db' hi => hE _ _ (h₁.trans hi))
  simp only [decide_eq_true_eq] at hc'
  have ht := Txn.Local.clear_of_nil hst
  -- both statements wait in the session; the flush writes them one by one
  simp only [Txn.Prog.write, flush, Txn.Prog.flushed, Txn.Prog.bind_eq, Txn.Prog.pure_eq, Txn.Prog.bind,
    Txn.Prog.safe, hst, List.nil_append, List.cons_append, Txn.execAll, ht]
  intro db₃ h₃ _ _ db₄ h₄ _ ha db₅ h₅
  have h₂₄ := h₃.trans (h₄.mono fun r hr => .inr hr)
  refine hQ hc.2 hc' db₄ ((h₁.trans h₂).trans h₂₄) ?_ db₅ h₅
  rw [Txn.Local.view_wrote] at ha
  exact Option.isNone_iff_eq_none.mp ha

/-- The rule of the five operations under interference. The entry is posted
on a wallet that is locked since before the key was looked up. -/
theorem safe_post (hst : t.staged = []) (hdb : R.inv db) (hk : KeepsWallet R t p.userId key)
    (hE : ∀ err t' db', t.SameWrites t' → R.Interf t.locks db db' → E err t' db')
    (hreplay : ∀ e db₁ db₂ db₃, Looked R guard t p.userId db db₁ db₂ → (t.view db₂).findEntry key = .some e →
      R.Interf (t.looked p.userId db₂).locks db₂ db₃ → Q e (t.looked p.userId db₂) db₃)
    (hposts : ∀ e db₁ db₂ db₃, Looked R guard t p.userId db db₁ db₂ →
      R.Interf (t.looked p.userId db₂).locks db₂ db₃ → Posts (t.view db₃) p entryType key draft e →
      ∀ db₄, R.Interf (t.postedAt e db₂).locks db₃ db₄ → Q e (t.postedAt e db₂) db₄) :
    (post p entryType refusal key draft).safe R guard Q E t db := by
  refine Txn.Prog.safe_bind hdb (Txn.Prog.safe_require (fun hc db₀ h₀ => ?_) fun _ db' hi => hE _ _ _ .refl hi)
  simp only [decide_eq_true_eq] at hc
  refine Txn.Prog.safe_bind h₀.inv (Txn.Prog.safe_bind h₀.inv (safe_flush hst fun db₀' h₀' => ?_))
  refine Txn.Prog.safe_bind h₀'.inv ?_
  intro db₁ h₁ hg db₁' h₁'
  have h₀₁ := (h₀.trans h₀').trans h₁
  have hsame : t.SameWrites (t.locked [.user p.userId]) := ⟨rfl, rfl, fun r hr => .inr hr⟩
  have hmono {a b} (h : R.Interf (t.locked [.user p.userId]).locks a b) : R.Interf t.locks a b :=
    h.mono fun r hr => .inr hr
  cases hu : (t.view db₁).users p.userId with
  | none =>
    simp only [hu]
    exact fun db' hi => hE _ _ _ hsame (h₀₁.trans (hmono (h₁'.trans hi)))
  | some user =>
    simp only [hu]
    intro db₁'' h₁''
    refine Txn.Prog.safe_bind h₁''.inv (Txn.Prog.safe_query fun db₂ db₂' h₂ h₂' => ?_)
    have h₁₂ := (h₁'.trans h₁'').trans h₂
    have hlook : Looked R guard t p.userId db db₁ db₂ := ⟨h₀₁, hg, h₁₂⟩
    have hstill {b} (h : R.Interf (t.locked [.user p.userId]).locks db₁ b) :
        (t.view b).users p.userId = .some user := (hk.user (h.same _ (.inl (by simp)))).trans hu
    simp only [Txn.Local.view_locked]
    cases hkey : (t.view db₂).findEntry key with
    | some e => exact fun db₃ h₃ => hreplay e db₁ db₂ db₃ hlook hkey (h₂'.trans h₃)
    | none =>
      simp only
      cases hd : draft user with
      | error err =>
        exact fun db₃ h₃ => hE _ _ _ ⟨rfl, rfl, fun r hr => .inr hr⟩ (h₀₁.trans (hmono (h₁₂.trans (h₂'.trans h₃))))
      | ok d =>
        refine safe_append (t := t.looked p.userId db₂) hst h₂'.inv
          (fun err db₃ h₃ => hE _ _ _ ⟨rfl, rfl, fun r hr => .inr hr⟩ (h₀₁.trans (hmono (h₁₂.trans (h₂'.trans h₃)))))
          fun hr hb db₃ h₃ hfresh db₄ h₄ => ?_
        have h₁₃ := h₁₂.trans (h₂'.trans h₃)
        exact hposts _ db₁ db₂ db₃ hlook (h₂'.trans h₃)
          ⟨hc, hfresh, user, d, hstill h₁₃, hd, rfl, hr, hb⟩ db₄ h₄

end

end Falaron
