/-
What the wallet is for: an account that is never overdrawn and never has
more held back than it owns, with a ledger that tells its whole history.

`Account` cannot be built otherwise. `History` is the audit of a ledger: from
an empty account, each entry moves the account as its type allows and records
the account right after it. `Keeps` says that a user's cached balances are
where the history of the user's entries ends.
-/
import Falaron.Wallet
import Mathlib.Algebra.BigOperators.Group.List.Basic
import Mathlib.Algebra.Ring.Int.Defs
import Mathlib.Data.List.Nodup

namespace Falaron

/-- What a user owns, and what of it is held back for orders. -/
structure Account where
  balance : Int
  reserved : Int
  nonneg : 0 ≤ reserved
  covered : reserved ≤ balance

namespace Account

def empty : Account := ⟨0, 0, by decide, by decide⟩

@[ext] theorem ext {a b : Account} (h : a.balance = b.balance) (h' : a.reserved = b.reserved) : a = b := by
  cases a; cases b; simp_all

/-- How an entry of each type moves an account. -/
structure Moves (t : EntryType) (amount : Int) (a b : Account) : Prop where
  balance : b.balance = a.balance + amount
  held : match t with
    | .credit => 0 < amount ∧ b.reserved = a.reserved
    | .debit => amount < 0 ∧ b.reserved = a.reserved
    | .reserve => amount = 0 ∧ a.reserved < b.reserved
    | .release => amount = 0 ∧ b.reserved ≤ a.reserved
    | .capture => amount < 0 ∧ b.reserved = a.reserved + amount

end Account

/-- The entries of one ledger, oldest first, and the account they end with. -/
inductive History : List LedgerEntry → Account → Prop
  | nil : History [] .empty
  | snoc {es a e b} : History es a → a.Moves e.entryType e.amountPaise b →
      e.balanceAfterPaise = b.balance → e.reservedAfterPaise = b.reserved → History (es ++ [e]) b

theorem History.balance {es : List LedgerEntry} {a : Account} (h : History es a) :
    a.balance = (es.map (·.amountPaise)).sum := by
  induction h with
  | nil => rfl
  | snoc _ hm _ _ ih => simp [hm.balance, ih]

/-- The audit of a ledger has one outcome. -/
theorem History.unique {es : List LedgerEntry} {a b : Account} (h : History es a) (h' : History es b) :
    a = b := by
  cases h with
  | nil =>
    generalize hes : ([] : List LedgerEntry) = es at h'
    cases h' with
    | nil => rfl
    | snoc => simp at hes
  | @snoc es₁ _ e _ _ _ hb hr =>
    generalize hes : es₁ ++ [e] = es at h'
    cases h' with
    | nil => simp at hes
    | @snoc _ _ e' _ _ _ hb' hr' =>
      obtain rfl : e = e' := by simpa using (List.append_inj' hes rfl).2
      exact Account.ext (hb ▸ hb') (hr ▸ hr')

/-! ## The five operations move an account -/

/-- The user's cached balances are those of `a`. -/
structure User.Shows (user : User) (a : Account) : Prop where
  balance : user.cachedBalancePaise = a.balance
  reserved : user.cachedReservedPaise = a.reserved

/-- Where `entryType` entries are drafted by `draft`, a draft that passes the
last checks moves the account it was drafted on. -/
def Drafts (entryType : EntryType) (draft : User → Except Err Draft) : Prop :=
  ∀ {user : User} {a b : Account} {d : Draft}, user.Shows a → draft user = .ok d →
    d.newBalance = b.balance → d.newReserved = b.reserved → a.Moves entryType d.amountPaise b

section

variable {n : Int} (hn : 0 < n)

include hn

theorem drafts_credit : Drafts .credit (creditDraft n) := by
  intro user a b d hu hd hb hr
  simp only [creditDraft, Except.ok.injEq] at hd
  subst hd
  have := hu.balance
  have := hu.reserved
  exact ⟨by simp at *; omega, by simp at *; omega⟩

theorem drafts_debit : Drafts .debit (debitDraft n) := by
  intro user a b d hu hd hb hr
  simp only [debitDraft] at hd
  split at hd
  · cases hd
  · simp only [Except.ok.injEq] at hd
    subst hd
    have := hu.balance
    have := hu.reserved
    exact ⟨by simp at *; omega, by simp at *; omega⟩

theorem drafts_reserve : Drafts .reserve (reserveDraft n) := by
  intro user a b d hu hd hb hr
  simp only [reserveDraft] at hd
  split at hd
  · cases hd
  · simp only [Except.ok.injEq] at hd
    subst hd
    have := hu.balance
    have := hu.reserved
    exact ⟨by simp at *; omega, by simp at *; omega⟩

theorem drafts_release : Drafts .release (releaseDraft n) := by
  intro user a b d hu hd hb hr
  have := hu.balance
  have := hu.reserved
  have := a.nonneg
  simp only [releaseDraft] at hd
  split at hd
  · split at hd
    all_goals
      simp only [Except.ok.injEq] at hd
      subst hd
      exact ⟨by simp at *; omega, by simp at *; omega⟩
  · simp only [Except.ok.injEq] at hd
    subst hd
    exact ⟨by simp at *; omega, by simp at *; omega⟩

theorem drafts_capture : Drafts .capture (captureDraft n) := by
  intro user a b d hu hd hb hr
  simp only [captureDraft] at hd
  split at hd
  · cases hd
  · simp only [Except.ok.injEq] at hd
    subst hd
    have := hu.balance
    have := hu.reserved
    exact ⟨by simp at *; omega, by simp at *; omega⟩

end

namespace WalletCall

def entryType : WalletCall → EntryType
  | .credit .. => EntryType.credit
  | .debit .. => EntryType.debit
  | .reserve .. => EntryType.reserve
  | .release .. => EntryType.release
  | .capture .. => EntryType.capture

def refusal : WalletCall → String
  | .credit .. => "Credit amount must be positive"
  | .debit .. => "Debit amount must be positive"
  | .reserve .. => "Reserve amount must be positive"
  | .release .. => "Release amount must be positive"
  | .capture .. => "Capture amount must be positive"

def draft : WalletCall → User → Except Err Draft
  | .credit p _ => creditDraft p.amountPaise
  | .debit p _ => debitDraft p.amountPaise
  | .reserve p _ => reserveDraft p.amountPaise
  | .release p _ => releaseDraft p.amountPaise
  | .capture p _ => captureDraft p.amountPaise

theorem prog_eq (c : WalletCall) : c.prog = post c.posting c.entryType c.refusal c.key c.draft := by
  cases c <;> rfl

theorem drafts (c : WalletCall) (h : 0 < c.posting.amountPaise) : Drafts c.entryType c.draft := by
  cases c with
  | credit => exact drafts_credit h
  | debit => exact drafts_debit h
  | reserve => exact drafts_reserve h
  | release => exact drafts_release h
  | capture => exact drafts_capture h

end WalletCall

/-! ## The books of a database -/

namespace Db

/-- The user's part of the ledger. -/
def entriesOf (db : Db) (userId : Int) : List LedgerEntry := db.ledger.filter (·.userId == userId)

/-- The user's cached balances are where the user's ledger ends. -/
structure Keeps (db : Db) (userId : Int) (user : User) (a : Account) : Prop where
  row : db.users userId = .some user
  shows : user.Shows a
  history : History (db.entriesOf userId) a

/-- No key has been used twice. -/
def KeysOnce (db : Db) : Prop := (db.ledger.map (·.idempotencyKey)).Nodup

variable {db : Db} {e : LedgerEntry} {userId : Int}

theorem entriesOf_posted : (db.posted e).entriesOf userId =
    db.entriesOf userId ++ if e.userId = userId then [e] else [] := by
  simp only [entriesOf, posted_ledger, List.filter_append, List.filter_cons, List.filter_nil, beq_iff_eq]

theorem findEntry_posted {key : Key} : (db.posted e).findEntry key =
    (db.findEntry key).or (if e.idempotencyKey = key then .some e else .none) := by
  simp only [findEntry, posted_ledger, List.find?_append, List.find?_cons, List.find?_nil]
  congr 1
  by_cases h : e.idempotencyKey = key
  · simp [h]
  · simp [h, beq_eq_false_iff_ne.mpr h]

theorem findEntry_mem {key : Key} (h : db.findEntry key = .some e) : e ∈ db.ledger ∧ e.idempotencyKey = key := by
  refine ⟨List.mem_of_find?_eq_some h, ?_⟩
  simpa using List.find?_some h

theorem not_mem_of_findEntry {key : Key} (h : db.findEntry key = .none) (he : e ∈ db.ledger) :
    e.idempotencyKey ≠ key := by
  simpa using List.find?_eq_none.mp h e he

theorem KeysOnce.findEntry (h : db.KeysOnce) (he : e ∈ db.ledger) : db.findEntry e.idempotencyKey = .some e := by
  obtain ⟨e', he'⟩ : ∃ e', db.findEntry e.idempotencyKey = .some e' := by
    refine Option.isSome_iff_exists.mp ?_
    simp only [Db.findEntry, List.find?_isSome]
    exact ⟨e, he, by simp⟩
  obtain ⟨hm, hk⟩ := findEntry_mem he'
  rw [he', List.inj_on_of_nodup_map h hm he hk]

theorem KeysOnce.posted (h : db.KeysOnce) (hk : db.findEntry e.idempotencyKey = .none) : (db.posted e).KeysOnce := by
  simp only [KeysOnce, posted_ledger, List.map_append, List.map_cons, List.map_nil]
  refine List.nodup_append.mpr ⟨h, by simp, ?_⟩
  intro k hm k' hm'
  obtain ⟨e', he', rfl⟩ := List.mem_map.mp hm
  simp only [List.mem_cons, List.not_mem_nil, or_false] at hm'
  exact hm' ▸ not_mem_of_findEntry hk he'

/-- A posting moves the account of its own user. -/
theorem Keeps.posted {user : User} {a : Account} (h : db.Keeps userId user a) {p : Posting} {t : EntryType}
    {key : Key} {draft : User → Except Err Draft} (hd : Drafts t draft)
    (hp : Posts db p t key draft e) (hu : p.userId = userId) :
    ∃ user' b, (db.posted e).Keeps userId user' b ∧ a.Moves t e.amountPaise b ∧
      e.balanceAfterPaise = b.balance ∧ e.reservedAfterPaise = b.reserved := by
  obtain ⟨_, _, user₀, d, hrow, hdraft, rfl, hr, hb⟩ := hp
  subst hu
  obtain rfl : user₀ = user := by simpa [h.row] using hrow.symm
  let b : Account := ⟨d.newBalance, d.newReserved, hr, hb⟩
  have hm : a.Moves t d.amountPaise b := hd h.shows hdraft rfl rfl
  let user' : User := { user₀ with cachedBalancePaise := d.newBalance, cachedReservedPaise := d.newReserved }
  refine ⟨user', b, ⟨?_, ⟨rfl, rfl⟩, ?_⟩, hm, rfl, rfl⟩
  · rw [posted_users, hrow]
    exact if_pos rfl
  · rw [entriesOf_posted, if_pos (show (p.entry t key d).userId = p.userId from rfl)]
    exact .snoc h.history hm rfl rfl

/-- And leaves the others' accounts alone. -/
theorem Keeps.posted_ne {user : User} {a : Account} (h : db.Keeps userId user a) (hu : e.userId ≠ userId) :
    (db.posted e).Keeps userId user a where
  row := by rw [posted_users, if_neg (Ne.symm hu), h.row]
  shows := h.shows
  history := by rw [entriesOf_posted, if_neg hu, List.append_nil]; exact h.history

/-- The whole ledger is in order: no key twice, every wallet the end of its history. -/
structure Books (db : Db) : Prop where
  keys : db.KeysOnce
  keeps : ∀ u user, db.users u = .some user → ∃ a, db.Keeps u user a

theorem Books.posted (h : db.Books) {p : Posting} {t : EntryType} {key : Key}
    {draft : User → Except Err Draft} (hd : Drafts t draft) (hp : Posts db p t key draft e) :
    (db.posted e).Books where
  keys := h.keys.posted (hp.entry_eq.2 ▸ hp.fresh)
  keeps := by
    intro u user hu
    by_cases he : e.userId = u
    · obtain ⟨user₀, _, hrow, _⟩ := hp.drafted
      have hpu : p.userId = u := hp.entry_eq.1 ▸ he
      obtain ⟨a, ha⟩ := h.keeps u user₀ (hpu ▸ hrow)
      obtain ⟨user', b, hb, _⟩ := ha.posted hd hp hpu
      obtain rfl : user = user' := Option.some.inj (hu.symm.trans hb.row)
      exact ⟨b, hb⟩
    · rw [posted_users, if_neg (Ne.symm he)] at hu
      obtain ⟨a, ha⟩ := h.keeps u user hu
      exact ⟨a, ha.posted_ne he⟩

end Db

end Falaron
