/-
The wallet over whole runs of calls, one after the other.

A caller may catch what a call raises and go on, so a run goes on from the
session a call leaves, whatever its outcome.
-/
import Falaron.Account

namespace Falaron

/-- A run of calls on one session. -/
def walletRun (s : Session) (calls : List WalletCall) : Session :=
  calls.foldl (fun s c => (c.prog.run s).2) s

/-- What one call does to the tables. -/
inductive CallEffect (db : Db) (c : WalletCall) : Except Err LedgerEntry → Db → Prop
  | raised {err} : Refused db c.posting c.refusal c.key c.draft err → CallEffect db c (.error err) db
  | replayed {e} : 0 < c.posting.amountPaise → db.findEntry c.key = .some e → CallEffect db c (.ok e) db
  | posted {e} : Posts db c.posting c.entryType c.key c.draft e → CallEffect db c (.ok e) (db.posted e)

/-- A call on a session with nothing pending leaves one with nothing pending. -/
theorem WalletCall.run_effect (c : WalletCall) (db : Db) :
    ∃ r db', c.prog.run { db := db } = (r, { db := db' }) ∧ CallEffect db c r db' := by
  have h : c.prog.wp (fun e s => ∃ db', s = { db := db' } ∧ CallEffect db c (.ok e) db')
      (fun err s => s = { db := db } ∧ CallEffect db c (.error err) db) { db := db } := by
    rw [c.prog_eq]
    refine wp_post rfl (fun h => ⟨rfl, .raised (.amount h)⟩) (fun err h => ⟨rfl, .raised h⟩) ?_ ?_
    · exact fun e hpos he => ⟨db, rfl, .replayed hpos he⟩
    · exact fun e he => ⟨db.posted e, rfl, .posted he⟩
  cases hr : c.prog.run { db := db } with
  | mk r s =>
    cases r with
    | ok e =>
      obtain ⟨db', rfl, he⟩ := Txn.Prog.wp_ok h hr
      exact ⟨_, db', rfl, he⟩
    | error err =>
      obtain ⟨rfl, he⟩ := Txn.Prog.wp_error h hr
      exact ⟨_, db, rfl, he⟩

theorem Refused.findEntry {db : Db} {p : Posting} {refusal : String} {key : Key}
    {draft : User → Except Err Draft} {err : Err} (h : Refused db p refusal key draft err)
    (hpos : 0 < p.amountPaise) (hu : (db.users p.userId).isSome) : db.findEntry key = .none := by
  cases h with
  | amount h => exact absurd hpos h
  | missing h => simp [h] at hu
  | draft _ h _ => exact h
  | negative _ h _ _ => exact h
  | exceeds _ h _ _ => exact h

section

variable {db db' : Db} {userId : Int} {c : WalletCall} {r : Except Err LedgerEntry}

theorem CallEffect.keysOnce (h : CallEffect db c r db') (hk : db.KeysOnce) : db'.KeysOnce := by
  cases h with
  | raised => exact hk
  | replayed => exact hk
  | posted hp => exact hk.posted (hp.entry_eq.2 ▸ hp.fresh)

/-- One call keeps every user's books. -/
theorem CallEffect.keeps (h : CallEffect db c r db') {user : User} {a : Account}
    (hk : db.Keeps userId user a) : ∃ user' a', db'.Keeps userId user' a' := by
  cases h with
  | raised => exact ⟨user, a, hk⟩
  | replayed => exact ⟨user, a, hk⟩
  | @posted e hp =>
    by_cases hu : c.posting.userId = userId
    · obtain ⟨user', b, hb, _⟩ := hk.posted (c.drafts hp.pos) hp hu
      exact ⟨user', b, hb⟩
    · exact ⟨user, a, hk.posted_ne (hp.entry_eq.1 ▸ hu)⟩

end

/-- What a run of calls keeps. -/
structure WalletSound (userId : Int) (s : Session) : Prop where
  clean : s = { db := s.db }
  keys : s.db.KeysOnce
  books : ∃ user a, s.db.Keeps userId user a

theorem WalletSound.run {userId : Int} {s : Session} (h : WalletSound userId s) (calls : List WalletCall) :
    WalletSound userId (walletRun s calls) := by
  induction calls generalizing s with
  | nil => exact h
  | cons c calls ih =>
    obtain ⟨r, db', hr, he⟩ := c.run_effect s.db
    rw [← h.clean] at hr
    obtain ⟨user, a, hk⟩ := h.books
    have hnext : WalletSound userId (c.prog.run s).2 := by
      rw [hr]
      exact ⟨rfl, he.keysOnce h.keys, he.keeps hk⟩
    exact ih hnext

/-- A key of the ledger gives back its entry, whatever else the call says. -/
theorem WalletSound.replay {userId : Int} {s : Session} (h : WalletSound userId s) {c : WalletCall}
    (hu : c.posting.userId = userId) {e : LedgerEntry} (he : e ∈ s.db.ledger)
    (hk : e.idempotencyKey = c.key) (hpos : 0 < c.posting.amountPaise) : c.prog.run s = (.ok e, s) := by
  obtain ⟨user, a, hkeeps⟩ := h.books
  have hentry : s.db.findEntry c.key = .some e := hk ▸ h.keys.findEntry he
  obtain ⟨r, db', hr, heff⟩ := c.run_effect s.db
  rw [← h.clean] at hr
  cases heff with
  | raised href =>
    have hsome : (s.db.users c.posting.userId).isSome := by rw [hu, hkeeps.row]; rfl
    rw [href.findEntry hpos hsome] at hentry
    cases hentry
  | replayed _ he' =>
    obtain rfl : e = _ := Option.some.inj (hentry.symm.trans he')
    rw [hr, ← h.clean]
  | posted hp =>
    rw [hp.fresh] at hentry
    cases hentry

/-- Whatever a call does, it changes at most its user's wallet, by the one entry it returns. -/
theorem WalletSound.effect {userId : Int} {s : Session} (h : WalletSound userId s) {c : WalletCall}
    (hu : c.posting.userId = userId) :
    match c.prog.run s with
    | (.error _, s') => s' = s
    | (.ok e, s') => e.idempotencyKey = c.key ∧ (e ∈ s.db.ledger ∧ s' = s ∨
        s'.db.ledger = s.db.ledger ++ [e] ∧ e.userId = userId ∧
        ∃ user', s'.db.users userId = .some user' ∧ user'.cachedBalancePaise = e.balanceAfterPaise ∧
          user'.cachedReservedPaise = e.reservedAfterPaise) := by
  obtain ⟨user, a, hkeeps⟩ := h.books
  obtain ⟨r, db', hr, heff⟩ := c.run_effect s.db
  rw [← h.clean] at hr
  rw [hr]
  cases heff with
  | raised => exact h.clean.symm
  | replayed _ he => exact ⟨(Db.findEntry_mem he).2, .inl ⟨(Db.findEntry_mem he).1, h.clean.symm⟩⟩
  | posted hp =>
    obtain ⟨user', b, hb, _, hbal, hres⟩ := hkeeps.posted (c.drafts hp.pos) hp hu
    refine ⟨hp.entry_eq.2, .inr ⟨rfl, hp.entry_eq.1.trans hu, user', hb.row, ?_, ?_⟩⟩
    · exact hb.shows.balance.trans hbal.symm
    · exact hb.shows.reserved.trans hres.symm

/-- **The ledger is sound over every run**, of calls with any amounts and any
keys, refused and replayed ones among them. From an empty wallet: the wallet
is never overdrawn and is the sum of the user's entries, which are a history
with the right running balances, and no key occurs twice. And of whatever
call comes next: a key in the ledger gives back its entry and changes
nothing, a new entry records the wallet it leaves, and a call that raises
changes nothing. -/
theorem wallet_ledger_sound {db : Db} {userId : Int} {user : User} (hrow : db.users userId = .some user)
    (hbalance : user.cachedBalancePaise = 0) (hreserved : user.cachedReservedPaise = 0)
    (hentries : db.entriesOf userId = []) (hkeys : db.KeysOnce) (calls : List WalletCall) :
    let s := walletRun { db := db } calls
    (∃ user', s.db.users userId = .some user' ∧
      0 ≤ user'.cachedReservedPaise ∧ user'.cachedReservedPaise ≤ user'.cachedBalancePaise ∧
      user'.cachedBalancePaise = ((s.db.entriesOf userId).map (·.amountPaise)).sum ∧
      ∃ a, user'.Shows a ∧ History (s.db.entriesOf userId) a) ∧
    (s.db.ledger.map (·.idempotencyKey)).Nodup ∧
    ∀ c : WalletCall, c.posting.userId = userId →
      (∀ e ∈ s.db.ledger, e.idempotencyKey = c.key → 0 < c.posting.amountPaise →
        c.prog.run s = (.ok e, s)) ∧
      match c.prog.run s with
      | (.error _, s') => s' = s
      | (.ok e, s') => e.idempotencyKey = c.key ∧ (e ∈ s.db.ledger ∧ s' = s ∨
          s'.db.ledger = s.db.ledger ++ [e] ∧ e.userId = userId ∧
          ∃ user', s'.db.users userId = .some user' ∧ user'.cachedBalancePaise = e.balanceAfterPaise ∧
            user'.cachedReservedPaise = e.reservedAfterPaise) := by
  intro s
  have hnil : History (db.entriesOf userId) .empty := by rw [hentries]; exact .nil
  have h₀ : WalletSound userId { db := db } :=
    ⟨rfl, hkeys, user, .empty, hrow, ⟨hbalance, hreserved⟩, hnil⟩
  have h : WalletSound userId s := h₀.run calls
  obtain ⟨user', a, hk⟩ := h.books
  refine ⟨⟨user', hk.row, ?_, ?_, ?_, a, hk.shows, hk.history⟩, h.keys, fun c hu => ⟨?_, h.effect hu⟩⟩
  · exact hk.shows.reserved ▸ a.nonneg
  · exact hk.shows.reserved ▸ hk.shows.balance ▸ a.covered
  · exact hk.shows.balance.trans hk.history.balance
  · exact fun e he hkey hpos => h.replay hu he hkey hpos

/-- A run with a replay, a refused call and a clamped release. -/
theorem wallet_ledger_sound_of_one_user :
    let db : Db := { users := fun u => if u = 7 then .some { telegramId := 7 } else .none }
    let p : Posting := ⟨7, 500, "top-up", .none, .none⟩
    let s := walletRun { db := db }
      [.credit p (.some (.text "a")), .reserve { p with amountPaise := 200 } (.text "b"),
        .credit { p with amountPaise := 900 } (.some (.text "a")), .debit p .none,
        .capture { p with amountPaise := 150 } (.text "c"), .release p (.text "d")]
    ∃ user', s.db.users 7 = .some user' ∧ 0 ≤ user'.cachedReservedPaise ∧
      user'.cachedReservedPaise ≤ user'.cachedBalancePaise :=
  (wallet_ledger_sound (show _ = Option.some { telegramId := 7 } from rfl) rfl rfl rfl
    (by exact List.nodup_nil) _).1.imp fun _ h => ⟨h.1, h.2.1, h.2.2.1⟩

end Falaron
