/-
What money does, whoever moves it.

Every function that moves money does so by a call of the wallet, and writes
everything else beside the wallets and the ledger. `Postings L Q a b` says of
two databases that `b` comes from `a` by postings of calls in `L`, with
changes in `Q` between them. What a posting and a change keep, `Postings`
keeps; and a program that is made of such calls and changes commits nothing
else, however its statements wait in the session.
-/
import Falaron.WalletRun
import Falaron.Txn.Holds
import Falaron.Txn.Run

namespace Falaron

open Txn.Prog hiding pure

inductive Postings (L : WalletCall → Prop) (Q : Db → Db → Prop) (a : Db) : Db → Prop
  | start : Postings L Q a a
  | post {b c e} : Postings L Q a b → L c → Posts b c.posting c.entryType c.key c.draft e →
      Postings L Q a (b.posted e)
  | beside {b b'} : Postings L Q a b → Q b b' → Postings L Q a b'

/-- The statement makes a change in `Q`. -/
def Stmt.Beside (Q : Db → Db → Prop) (w : Stmt) : Prop := ∀ db, Q db (w.apply db)

/-- The session's tables come from `a` by postings, and no posting is staged. -/
abbrev Session.Posting (L : WalletCall → Prop) (Q : Db → Db → Prop) (a : Db) : Session → Prop :=
  Txn.Session.Kept (Postings L Q a) (Stmt.Beside Q)

section

variable {L L' : WalletCall → Prop} {Q Q' : Db → Db → Prop} {a b : Db}

theorem Stmt.Beside.keeps {w : Stmt} (h : w.Beside Q) : w.Keeps (Postings L Q a) := fun db hdb => hdb.beside (h db)

theorem Postings.mono (h : Postings L Q a b) (hL : ∀ c, L c → L' c) (hQ : ∀ b b', Q b b' → Q' b b') :
    Postings L' Q' a b := by
  induction h with
  | start => exact .start
  | post _ hc he ih => exact ih.post (hL _ hc) he
  | beside _ hq ih => exact ih.beside (hQ _ _ hq)

/-- A call of the wallet posts its entry, or nothing. -/
theorem WalletCall.holds (c : WalletCall) (hc : L c) : c.prog.Holds (Session.Posting L Q a) := by
  refine .of_wp fun s hs => ?_
  rw [c.prog_eq]
  cases hf : Txn.flushAll s.staged s.db with
  | none =>
    by_cases hpos : 0 < c.posting.amountPaise
    · exact wp_post_stuck hf hpos hs
    · simp only [post, wp_bind, wp_require, decide_eq_true_eq, if_neg hpos]
      exact hs
  | some db =>
    have hdb : Postings L Q a db := hs.will (fun _ hw => hw.keeps) hf
    exact wp_post hf (fun _ => hs) (fun _ _ => ⟨hdb, by simp⟩) (fun _ _ _ => ⟨hdb, by simp⟩)
      fun e he => ⟨hdb.post hc he, by simp⟩

/-- What only changes things beside holds whatever the postings. -/
theorem holds_of_beside {α : Type} {m : M α} (h : m.Writes (Stmt.Beside Q)) : m.Holds (Session.Posting L Q a) :=
  h.holds fun _ hw => hw.keeps

theorem commit_postings {α : Type} {m : M α} (h : ∀ a, m.Holds (Session.Posting L Q a)) (caught : Err → Bool)
    (db : Db) : Postings L Q db (m.commit caught db) :=
  (h db).commit (fun _ hw => hw.keeps) .start caught

/-- A posting is what the call commits when it comes alone. -/
theorem Posts.commit {c : WalletCall} {db : Db} {e : LedgerEntry}
    (h : Posts db c.posting c.entryType c.key c.draft e) : c.prog.commit (fun _ => false) db = db.posted e := by
  obtain ⟨user, d, hrow, hdraft, rfl, hnonneg, hcovered⟩ := h.drafted
  refine Txn.Prog.commit_of_ok (P := fun db' => db' = db.posted _) ?_
  rw [c.prog_eq]
  refine wp_post rfl (fun hn => hn h.pos) (fun err herr => ?_) (fun e _ he => ?_) fun e he => ?_
  · cases herr with
    | amount hn => exact hn h.pos
    | missing hn =>
      rw [hrow] at hn
      cases hn
    | draft hrow' _ hd =>
      obtain rfl := Option.some.inj (hrow.symm.trans hrow')
      rw [hdraft] at hd
      cases hd
    | negative hrow' _ hd hn =>
      obtain rfl := Option.some.inj (hrow.symm.trans hrow')
      obtain rfl := Except.ok.inj (hdraft.symm.trans hd)
      omega
    | exceeds hrow' _ hd hn =>
      obtain rfl := Option.some.inj (hrow.symm.trans hrow')
      obtain rfl := Except.ok.inj (hdraft.symm.trans hd)
      omega
  · rw [h.fresh] at he
    cases he
  · obtain ⟨user', d', hrow', hdraft', rfl, -⟩ := he.drafted
    obtain rfl := Option.some.inj (hrow.symm.trans hrow')
    obtain rfl := Except.ok.inj (hdraft.symm.trans hdraft')
    rfl

end

end Falaron
