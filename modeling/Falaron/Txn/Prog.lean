/-
Programs over a database session, and what one does when it runs alone.

A program reads the session's view of the database, takes row locks, stages
changes, flushes them and calls the outside world. Staged changes are what
the session has not written yet: a read does not see them, a flush writes
them, and a commit flushes what is left (the session of an object mapper
with automatic flushing switched off).

Nothing here is about one program's tables: `Db` is the database, `Row` what
a lock is taken on, `Err` what a program can raise, `Ext` what it can ask of
the outside world.
-/
import Mathlib.Logic.Function.Basic

namespace Txn

/-- A write: the rows it locks, the unique constraints it has to meet, what
it does. -/
structure Stmt (Db Row : Type) where
  rows : List Row
  admits : Db → Bool
  apply : Db → Db

inductive Prog (Db Row Err Ext : Type) (α : Type) : Type where
  | pure (a : α)
  | throw (e : Err)
  /-- One read of the session's view. -/
  | select (k : Db → Prog Db Row Err Ext α)
  /-- `SELECT ... FOR UPDATE`: waits for the row, then reads the view. -/
  | lock (r : Row) (k : Db → Prog Db Row Err Ext α)
  | stage (w : Stmt Db Row) (k : Prog Db Row Err Ext α)
  /-- Writes what is staged; raises `e` when a constraint refuses a write. -/
  | flush (e : Err) (k : Prog Db Row Err Ext α)
  /-- One write in a savepoint of its own: was it admitted? -/
  | insert (w : Stmt Db Row) (k : Bool → Prog Db Row Err Ext α)
  /-- A call to the outside world, which no rollback takes back. -/
  | send (x : Ext) (k : Prog Db Row Err Ext α)

variable {Db Row Err Ext α β γ : Type}

namespace Prog

def bind : Prog Db Row Err Ext α → (α → Prog Db Row Err Ext β) → Prog Db Row Err Ext β
  | .pure a, f => f a
  | .throw e, _ => .throw e
  | .select k, f => .select fun db => (k db).bind f
  | .lock r k, f => .lock r fun db => (k db).bind f
  | .stage w k, f => .stage w (k.bind f)
  | .flush e k, f => .flush e (k.bind f)
  | .insert w k, f => .insert w fun b => (k b).bind f
  | .send x k, f => .send x (k.bind f)

instance : Monad (Prog Db Row Err Ext) where
  pure := .pure
  bind := .bind

/-! ## The operations as single steps -/

/-- A query of the session's view. -/
def query (q : Db → α) : Prog Db Row Err Ext α := .select fun db => .pure (q db)

/-- A query made once the row's lock is held. -/
def lockRow (r : Row) (q : Db → α) : Prog Db Row Err Ext α := .lock r fun db => .pure (q db)

def write (w : Stmt Db Row) : Prog Db Row Err Ext Unit := .stage w (.pure ())

def flushed (e : Err) : Prog Db Row Err Ext Unit := .flush e (.pure ())

def savepoint (w : Stmt Db Row) : Prog Db Row Err Ext Bool := .insert w .pure

def call (x : Ext) : Prog Db Row Err Ext Unit := .send x (.pure ())

/-- Goes on only when `c` holds. -/
def require (c : Bool) (e : Err) : Prog Db Row Err Ext Unit := if c then .pure () else .throw e

/-- `try: p`, with an error as a result. A flush the database refuses is not
caught: it leaves the session unusable. -/
def attempt : Prog Db Row Err Ext α → Prog Db Row Err Ext (Except Err α)
  | .pure a => .pure (.ok a)
  | .throw e => .pure (.error e)
  | .select k => .select fun db => attempt (k db)
  | .lock r k => .lock r fun db => attempt (k db)
  | .stage w k => .stage w (attempt k)
  | .flush e k => .flush e (attempt k)
  | .insert w k => .insert w fun b => attempt (k b)
  | .send x k => .send x (attempt k)

/-- `for a in l: f a`. -/
def forEach (f : α → Prog Db Row Err Ext Unit) : List α → Prog Db Row Err Ext Unit
  | [] => .pure ()
  | a :: l => (f a).bind fun _ => forEach f l

/-- `for a in l: results += f a`. -/
def collect (f : α → Prog Db Row Err Ext (List β)) : List α → Prog Db Row Err Ext (List β)
  | [] => .pure []
  | a :: l => (f a).bind fun r => (collect f l).bind fun rs => .pure (r ++ rs)

theorem bind_eq (p : Prog Db Row Err Ext α) (f : α → Prog Db Row Err Ext β) : p >>= f = p.bind f := rfl

theorem pure_eq (a : α) : (Pure.pure a : Prog Db Row Err Ext α) = .pure a := rfl

end Prog

/-! ## One session alone -/

/-- A session: the database as the session sees it (what it has flushed
included), what it has staged, what it has sent. -/
structure Session (Db Row Ext : Type) where
  db : Db
  staged : List (Stmt Db Row) := []
  sent : List Ext := []

/-- Writes the statements in order; `none` when one is refused. -/
def flushAll : List (Stmt Db Row) → Db → Option Db
  | [], db => some db
  | w :: ws, db => if w.admits db then flushAll ws (w.apply db) else none

theorem flushAll_cons {w : Stmt Db Row} {ws : List (Stmt Db Row)} {db : Db} (h : w.admits db = true) :
    flushAll (w :: ws) db = flushAll ws (w.apply db) := if_pos h

theorem flushAll_append {ws ws' : List (Stmt Db Row)} {db : Db} :
    flushAll (ws ++ ws') db = (flushAll ws db).bind (flushAll ws') := by
  induction ws generalizing db with
  | nil => rfl
  | cons w ws ih =>
    simp only [List.cons_append, flushAll]
    split
    · exact ih
    · rfl

namespace Prog

def run : Prog Db Row Err Ext α → Session Db Row Ext → Except Err α × Session Db Row Ext
  | .pure a, s => (.ok a, s)
  | .throw e, s => (.error e, s)
  | .select k, s => (k s.db).run s
  | .lock _ k, s => (k s.db).run s
  | .stage w k, s => k.run { s with staged := s.staged ++ [w] }
  | .flush e k, s =>
    match flushAll s.staged s.db with
    | some db => k.run { s with db := db, staged := [] }
    | none => (.error e, s)
  | .insert w k, s => if w.admits s.db then (k true).run { s with db := w.apply s.db } else (k false).run s
  | .send x k, s => k.run { s with sent := s.sent ++ [x] }

/-- The database after the caller has ended the transaction: it commits after
a result, and after an error in `caught`; any other error rolls back. -/
def commit (caught : Err → Bool) (p : Prog Db Row Err Ext α) (db : Db) : Db :=
  match p.run { db := db } with
  | (.ok _, s) => (flushAll s.staged s.db).getD db
  | (.error e, s) => if caught e then (flushAll s.staged s.db).getD db else db

theorem run_flush (e : Err) (k : Prog Db Row Err Ext α) (s : Session Db Row Ext) : (Prog.flush e k).run s =
    match flushAll s.staged s.db with
    | some db => k.run { s with db := db, staged := [] }
    | none => (.error e, s) := rfl

theorem run_insert (w : Stmt Db Row) (k : Bool → Prog Db Row Err Ext α) (s : Session Db Row Ext) :
    (Prog.insert w k).run s =
      if w.admits s.db then (k true).run { s with db := w.apply s.db } else (k false).run s := rfl

theorem run_bind (p : Prog Db Row Err Ext α) (f : α → Prog Db Row Err Ext β) (s : Session Db Row Ext) :
    (p.bind f).run s = match p.run s with
      | (.ok a, s') => (f a).run s'
      | (.error e, s') => (.error e, s') := by
  induction p generalizing s with
  | pure a => rfl
  | throw e => rfl
  | select k ih => exact ih s.db s
  | lock r k ih => exact ih s.db s
  | stage w k ih => exact ih _
  | flush e k ih =>
    show (Prog.flush e (k.bind f)).run s = _
    rw [run_flush, run_flush]
    cases flushAll s.staged s.db with
    | none => rfl
    | some db => exact ih _
  | insert w k ih =>
    show (Prog.insert w fun b => (k b).bind f).run s = _
    rw [run_insert, run_insert]
    split
    · exact ih true _
    · exact ih false _
  | send x k ih => exact ih _

theorem run_collect_snoc {f : β → Prog Db Row Err Ext (List γ)} {l : List β} {b : β} {s s₁ s₂ : Session Db Row Ext}
    {rs r : List γ} (hl : (collect f l).run s = (.ok rs, s₁)) (hb : (f b).run s₁ = (.ok r, s₂)) :
    (collect f (l ++ [b])).run s = (.ok (rs ++ r), s₂) := by
  induction l generalizing s rs with
  | nil =>
    cases hl
    simp only [List.nil_append, collect, run_bind, hb, run, List.append_nil]
  | cons a l ih =>
    simp only [List.cons_append, collect, run_bind] at hl ⊢
    cases ha : (f a).run s with
    | mk res s' =>
      cases res with
      | error e => simp only [ha] at hl; cases hl
      | ok r₁ =>
        simp only [ha] at hl ⊢
        cases hrest : (collect f l).run s' with
        | mk res s'' =>
          cases res with
          | error e => simp only [hrest] at hl; cases hl
          | ok rs₁ =>
            simp only [hrest, run] at hl
            cases hl
            rw [ih hrest]
            simp only [run, List.append_assoc]

/-! ## Weakest preconditions -/

/-- Run from `s`, the program ends in a result with `Q` or in an error with `E`. -/
def wp (Q : α → Session Db Row Ext → Prop) (E : Err → Session Db Row Ext → Prop)
    (p : Prog Db Row Err Ext α) (s : Session Db Row Ext) : Prop :=
  match p.run s with
  | (.ok a, s') => Q a s'
  | (.error e, s') => E e s'

variable {Q Q' : α → Session Db Row Ext → Prop} {E E' : Err → Session Db Row Ext → Prop}
  {s : Session Db Row Ext}

theorem wp_ok {p : Prog Db Row Err Ext α} (h : p.wp Q E s) {a s'} (hr : p.run s = (.ok a, s')) :
    Q a s' := by simpa only [wp, hr] using h

theorem wp_error {p : Prog Db Row Err Ext α} (h : p.wp Q E s) {e s'} (hr : p.run s = (.error e, s')) :
    E e s' := by simpa only [wp, hr] using h

/-- What holds of every outcome has to be shown of the outcome alone. -/
theorem wp_of_run {p : Prog Db Row Err Ext α} (hQ : ∀ a s', p.run s = (.ok a, s') → Q a s')
    (hE : ∀ e s', p.run s = (.error e, s') → E e s') : p.wp Q E s := by
  unfold wp
  split
  · next a s' h => exact hQ a s' h
  · next e s' h => exact hE e s' h

theorem wp_mono {p : Prog Db Row Err Ext α} (h : p.wp Q E s) (hQ : ∀ a s', Q a s' → Q' a s')
    (hE : ∀ e s', E e s' → E' e s') : p.wp Q' E' s :=
  wp_of_run (fun a s' hr => hQ a s' (wp_ok h hr)) fun e s' hr => hE e s' (wp_error h hr)

theorem wp_and {p : Prog Db Row Err Ext α} (h : p.wp Q E s) (h' : p.wp Q' E' s) :
    p.wp (fun a s' => Q a s' ∧ Q' a s') (fun e s' => E e s' ∧ E' e s') s :=
  wp_of_run (fun _ _ hr => ⟨wp_ok h hr, wp_ok h' hr⟩) fun _ _ hr => ⟨wp_error h hr, wp_error h' hr⟩

@[simp] theorem wp_pure {a : α} : (.pure a : Prog Db Row Err Ext α).wp Q E s ↔ Q a s := Iff.rfl

@[simp] theorem wp_pure' {a : α} : (Pure.pure a : Prog Db Row Err Ext α).wp Q E s ↔ Q a s := Iff.rfl

@[simp] theorem wp_throw {e : Err} : (.throw e : Prog Db Row Err Ext α).wp Q E s ↔ E e s := Iff.rfl

@[simp] theorem wp_query {q : Db → α} : (query q : Prog Db Row Err Ext α).wp Q E s ↔ Q (q s.db) s := Iff.rfl

@[simp] theorem wp_lockRow {r : Row} {q : Db → α} :
    (lockRow r q : Prog Db Row Err Ext α).wp Q E s ↔ Q (q s.db) s := Iff.rfl

@[simp] theorem wp_write {w : Stmt Db Row} {Q : Unit → Session Db Row Ext → Prop} :
    (write w : Prog Db Row Err Ext Unit).wp Q E s ↔ Q () { s with staged := s.staged ++ [w] } := Iff.rfl

@[simp] theorem wp_call {x : Ext} {Q : Unit → Session Db Row Ext → Prop} :
    (call x : Prog Db Row Err Ext Unit).wp Q E s ↔ Q () { s with sent := s.sent ++ [x] } := Iff.rfl

theorem wp_flushed {e : Err} {Q : Unit → Session Db Row Ext → Prop} :
    (flushed e : Prog Db Row Err Ext Unit).wp Q E s ↔
      match flushAll s.staged s.db with
      | some db => Q () { s with db := db, staged := [] }
      | none => E e s := by
  rw [wp, flushed, run_flush]
  cases flushAll s.staged s.db <;> rfl

theorem wp_savepoint {w : Stmt Db Row} {Q : Bool → Session Db Row Ext → Prop} :
    (savepoint w : Prog Db Row Err Ext Bool).wp Q E s ↔
      if w.admits s.db then Q true { s with db := w.apply s.db } else Q false s := by
  rw [wp, savepoint, run_insert]
  cases w.admits s.db <;> rfl

theorem wp_require {c : Bool} {e : Err} {Q : Unit → Session Db Row Ext → Prop} :
    (require c e : Prog Db Row Err Ext Unit).wp Q E s ↔ if c then Q () s else E e s := by
  cases c <;> rfl

theorem wp_bind' {p : Prog Db Row Err Ext β} {f : β → Prog Db Row Err Ext α} :
    (p.bind f).wp Q E s ↔ p.wp (fun b s' => (f b).wp Q E s') E s := by
  unfold wp
  rw [run_bind]
  cases p.run s with
  | mk r s' => cases r <;> rfl

@[simp] theorem wp_bind {p : Prog Db Row Err Ext β} {f : β → Prog Db Row Err Ext α} :
    (p >>= f).wp Q E s ↔ p.wp (fun b s' => (f b).wp Q E s') E s := wp_bind'

/-- The loop rule: each turn takes `I` from what is left before it to what is left after it. -/
theorem wp_forEach {f : β → Prog Db Row Err Ext Unit} {I : List β → Session Db Row Ext → Prop} {l : List β}
    (hs : I l s) (hf : ∀ b l s, I (b :: l) s → (f b).wp (fun _ s' => I l s') E s) :
    (forEach f l).wp (fun _ s' => I [] s') E s := by
  induction l generalizing s with
  | nil => exact hs
  | cons b l ih =>
    rw [forEach, wp_bind']
    exact wp_mono (hf b l s hs) (fun _ s' h => ih h) fun _ _ h => h

/-- The loop rule, for a loop that keeps its turns' results. -/
theorem wp_collect {γ : Type} {f : β → Prog Db Row Err Ext (List γ)} {I : List β → Session Db Row Ext → Prop}
    {l : List β} (hs : I l s) (hf : ∀ b l s, I (b :: l) s → (f b).wp (fun _ s' => I l s') E s) :
    (collect f l).wp (fun _ s' => I [] s') E s := by
  induction l generalizing s with
  | nil => exact hs
  | cons b l ih =>
    simp only [collect, wp_bind']
    exact wp_mono (hf b l s hs) (fun _ s' h => wp_mono (ih h) (fun _ _ h' => h') fun _ _ h' => h') fun _ _ h => h

/-- The loop rule, for a loop that carries a value along; `done` are the turns taken. -/
theorem wp_foldlM {δ : Type} {f : δ → β → Prog Db Row Err Ext δ} {I : List β → δ → Session Db Row Ext → Prop}
    {l : List β} {d : δ} (hs : I [] d s)
    (hf : ∀ done b rest d s, l = done ++ b :: rest → I done d s → (f d b).wp (fun d' s' => I (done ++ [b]) d' s') E s) :
    (l.foldlM f d).wp (I l) E s := by
  have hloop (rest done : List β) (d : δ) (s : Session Db Row Ext) (hl : l = done ++ rest) (hs : I done d s) :
      (rest.foldlM f d).wp (I l) E s := by
    induction rest generalizing done d s with
    | nil =>
      rw [hl, List.append_nil]
      exact hs
    | cons b rest ih =>
      rw [List.foldlM_cons, wp_bind]
      refine wp_mono (hf done b rest d s hl hs) (fun d' s' h => ?_) fun _ _ h => h
      exact ih (done ++ [b]) d' s' (by rw [hl, List.append_assoc, List.singleton_append]) h
  exact hloop l [] d s rfl hs

/-- A result is not changed by catching errors. -/
theorem run_attempt_ok {p : Prog Db Row Err Ext α} {a : α} {s' : Session Db Row Ext}
    (h : p.run s = (.ok a, s')) : (attempt p).run s = (.ok (.ok a), s') := by
  induction p generalizing s with
  | pure b =>
    cases h
    rfl
  | throw e => cases h
  | select k ih => exact ih s.db h
  | lock r k ih => exact ih s.db h
  | stage w k ih => exact ih h
  | flush e k ih =>
    show (Prog.flush e k.attempt).run s = _
    rw [run_flush] at h ⊢
    cases hf : flushAll s.staged s.db with
    | none =>
      simp only [hf] at h
      cases h
    | some db =>
      simp only [hf] at h
      exact ih h
  | insert w k ih =>
    show (Prog.insert w fun b => (k b).attempt).run s = _
    rw [run_insert] at h ⊢
    by_cases hw : w.admits s.db = true
    · rw [if_pos hw] at h ⊢
      exact ih true h
    · rw [if_neg hw] at h ⊢
      exact ih false h
  | send x k ih => exact ih h

theorem wp_attempt_ok {p : Prog Db Row Err Ext α} {Q : Except Err α → Session Db Row Ext → Prop}
    (h : p.wp (fun a => Q (.ok a)) (fun _ _ => False) s) : (attempt p).wp Q E s := by
  cases hr : p.run s with
  | mk res s' =>
    cases res with
    | ok a =>
      have hQ := wp_ok h hr
      simpa only [wp, run_attempt_ok hr] using hQ
    | error e => exact (wp_error h hr).elim

/-- What holds of the session a program ends with holds of what its caller commits. -/
theorem commit_of_wp {p : Prog Db Row Err Ext α} {caught : Err → Bool} {db : Db} {P : Db → Prop}
    (h0 : P db)
    (h : p.wp (fun _ s => P ((flushAll s.staged s.db).getD db))
      (fun e s => caught e = true → P ((flushAll s.staged s.db).getD db)) { db := db }) :
    P (p.commit caught db) := by
  unfold commit
  split
  · next hr => exact wp_ok h hr
  · next hr =>
    split
    · next hc => exact wp_error h hr hc
    · exact h0

/-! ## Programs that only read -/

def readsOnly (S : Err → Prop) : Prog Db Row Err Ext α → Prop
  | .pure _ => True
  | .throw e => S e
  | .select k => ∀ db, (k db).readsOnly S
  | _ => False

/-- The program changes nothing of its session, and raises only errors in `S`. -/
structure Reads (S : Err → Prop) (p : Prog Db Row Err Ext α) : Prop where
  ops : p.readsOnly S

section

variable {S : Err → Prop}

theorem readsOnly_wp {p : Prog Db Row Err Ext α} (h : p.readsOnly S) (s : Session Db Row Ext) :
    p.wp (fun _ s' => s' = s) (fun e s' => s' = s ∧ S e) s := by
  induction p with
  | pure a => rfl
  | throw e => exact ⟨rfl, h⟩
  | select k ih => exact ih s.db (h s.db)
  | lock r k => cases h
  | stage w k => cases h
  | flush e k => cases h
  | insert w k => cases h
  | send x k => cases h

theorem readsOnly_bind {p : Prog Db Row Err Ext α} {f : α → Prog Db Row Err Ext β} (h : p.readsOnly S)
    (hf : ∀ a, (f a).readsOnly S) : (p.bind f).readsOnly S := by
  induction p with
  | pure a => exact hf a
  | throw e => exact h
  | select k ih => exact fun db => ih db (h db)
  | lock r k => cases h
  | stage w k => cases h
  | flush e k => cases h
  | insert w k => cases h
  | send x k => cases h

theorem Reads.wp {p : Prog Db Row Err Ext α} (h : p.Reads S) (hQ : ∀ a, Q a s) (hE : ∀ e, S e → E e s) :
    p.wp Q E s :=
  wp_mono (readsOnly_wp h.ops s) (fun a _ hs => hs ▸ hQ a) fun e _ hs => hs.1 ▸ hE e hs.2

theorem Reads.pure (a : α) : (.pure a : Prog Db Row Err Ext α).Reads S := ⟨trivial⟩

theorem Reads.throw {e : Err} (h : S e) : (.throw e : Prog Db Row Err Ext α).Reads S := ⟨h⟩

theorem Reads.query (q : Db → α) : (Prog.query q : Prog Db Row Err Ext α).Reads S := ⟨fun _ => trivial⟩

theorem Reads.require (c : Bool) {e : Err} (h : S e) :
    (Prog.require c e : Prog Db Row Err Ext Unit).Reads S := by
  cases c
  · exact .throw h
  · exact .pure ()

theorem Reads.bind {p : Prog Db Row Err Ext α} {f : α → Prog Db Row Err Ext β} (h : p.Reads S)
    (hf : ∀ a, (f a).Reads S) : (p >>= f).Reads S := ⟨readsOnly_bind h.ops fun a => (hf a).ops⟩

theorem Reads.ite {c : Prop} [Decidable c] {p q : Prog Db Row Err Ext α} (hp : p.Reads S) (hq : q.Reads S) :
    (if c then p else q).Reads S := by
  split
  · exact hp
  · exact hq

end

end Prog

/-! ## Programs stopped half way -/

namespace Prog

/-- The session when the process dies, or the caller gives up, after `n` operations. -/
def stopped : Nat → Prog Db Row Err Ext α → Session Db Row Ext → Session Db Row Ext
  | n + 1, .select k, s => (k s.db).stopped n s
  | n + 1, .lock _ k, s => (k s.db).stopped n s
  | n + 1, .stage w k, s => k.stopped n { s with staged := s.staged ++ [w] }
  | n + 1, .flush _ k, s =>
    match flushAll s.staged s.db with
    | some db => k.stopped n { s with db := db, staged := [] }
    | none => s
  | n + 1, .insert w k, s =>
    if w.admits s.db then (k true).stopped n { s with db := w.apply s.db } else (k false).stopped n s
  | n + 1, .send x k, s => k.stopped n { s with sent := s.sent ++ [x] }
  | _, _, s => s

theorem sent_le_run (p : Prog Db Row Err Ext α) (s : Session Db Row Ext) :
    s.sent <+: (p.run s).2.sent := by
  induction p generalizing s with
  | pure a => exact List.prefix_refl _
  | throw e => exact List.prefix_refl _
  | select k ih => exact ih s.db s
  | lock r k ih => exact ih s.db s
  | stage w k ih => exact ih { s with staged := s.staged ++ [w] }
  | flush e k ih =>
    rw [run_flush]
    split
    · next db _ => exact ih { s with db := db, staged := [] }
    · exact List.prefix_refl _
  | insert w k ih =>
    rw [run_insert]
    split
    · exact ih true { s with db := w.apply s.db }
    · exact ih false s
  | send x k ih => exact (List.prefix_append _ _).trans (ih { s with sent := s.sent ++ [x] })

/-- What has been sent stays sent. -/
theorem wp_sent {p : Prog Db Row Err Ext α} {s : Session Db Row Ext} {x : Ext} (h : x ∈ s.sent) :
    p.wp (fun _ s' => x ∈ s'.sent) (fun _ s' => x ∈ s'.sent) s := by
  refine wp_of_run (fun a s' hr => ?_) fun e s' hr => ?_
  · have hle := sent_le_run p s
    rw [hr] at hle
    exact hle.subset h
  · have hle := sent_le_run p s
    rw [hr] at hle
    exact hle.subset h

/-- What has been sent by then is the beginning of all that is sent. -/
theorem stopped_le (n : Nat) (p : Prog Db Row Err Ext α) (s : Session Db Row Ext) :
    (p.stopped n s).sent <+: (p.run s).2.sent := by
  induction n generalizing p s with
  | zero =>
    have h0 : p.stopped 0 s = s := by cases p <;> rfl
    exact h0 ▸ sent_le_run p s
  | succ n ih =>
    cases p with
    | pure a => exact List.prefix_refl _
    | throw e => exact List.prefix_refl _
    | select k => exact ih (k s.db) s
    | lock r k => exact ih (k s.db) s
    | stage w k => exact ih k { s with staged := s.staged ++ [w] }
    | flush e k =>
      simp only [stopped, run]
      split
      · next db _ => exact ih k { s with db := db, staged := [] }
      · exact List.prefix_refl _
    | insert w k =>
      simp only [stopped, run]
      split
      · exact ih (k true) { s with db := w.apply s.db }
      · exact ih (k false) s
    | send x k => exact ih k { s with sent := s.sent ++ [x] }

end Prog

/-! ## What will hold of a session once it has flushed -/

namespace Session

variable {J K : Session Db Row Ext → Prop} {s : Session Db Row Ext}

/-- `J` holds of the session once what it has staged is written. -/
def Will (J : Session Db Row Ext → Prop) (s : Session Db Row Ext) : Prop :=
  ∀ db, flushAll s.staged s.db = some db → J { s with db := db, staged := [] }

theorem Will.of (hst : s.staged = []) (h : J s) : s.Will J := by
  intro db hf
  simp only [hst, flushAll, Option.some.injEq] at hf
  subst hf
  rwa [← hst]

theorem Will.mono (h : s.Will J) (hJ : ∀ s', J s' → K s') : s.Will K := fun db hf => hJ _ (h db hf)

/-- What will hold is what gets committed. -/
theorem Will.commit (h : s.Will J) {db : Db} {P : Db → Prop} (h0 : P db) (hJ : ∀ s', J s' → P s'.db) :
    P ((flushAll s.staged s.db).getD db) := by
  cases hf : flushAll s.staged s.db with
  | none => exact h0
  | some db' => exact hJ _ (h db' hf)

end Session

namespace Prog

variable {J K : Session Db Row Ext → Prop} {E : Err → Session Db Row Ext → Prop} {s : Session Db Row Ext}
  {Q : Unit → Session Db Row Ext → Prop}

theorem wp_write_will {w : Stmt Db Row} (h : s.Will J)
    (hw : ∀ s', J s' → w.admits s'.db = true → K { s' with db := w.apply s'.db })
    (hQ : ∀ s', s'.sent = s.sent → s'.Will K → Q () s') : (write w : Prog Db Row Err Ext Unit).wp Q E s := by
  rw [wp_write]
  refine hQ _ rfl fun db hf => ?_
  simp only [flushAll_append] at hf
  obtain ⟨db', hf', hw'⟩ := Option.bind_eq_some_iff.mp hf
  simp only [flushAll] at hw'
  split at hw'
  · next ha =>
    cases hw'
    exact hw _ (h db' hf') ha
  · cases hw'

theorem wp_flushed_will {e : Err} (h : s.Will J) (hE : E e s)
    (hQ : ∀ s', s'.staged = [] → s'.sent = s.sent → J s' → Q () s') : (flushed e : Prog Db Row Err Ext Unit).wp Q E s := by
  rw [wp_flushed]
  split
  · next db hf => exact hQ _ rfl rfl (h db hf)
  · exact hE

end Prog

end Txn
