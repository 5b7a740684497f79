/-
What a program can write.

`Writes P` says of a program that every statement in it meets `P`. Where each such statement keeps a property of the database,
so does every run, whether it succeeds or not, and so does every commit.
-/
import Falaron.Txn.Prog

namespace Txn

variable {Db Row Err Ext α β : Type}

/-- The statement takes databases with `I` to databases with `I`. -/
def Stmt.Keeps (I : Db → Prop) (w : Stmt Db Row) : Prop := ∀ db, I db → I (w.apply db)

namespace Prog

def allStmts (P : Stmt Db Row → Prop) : Prog Db Row Err Ext α → Prop
  | .pure _ => True
  | .throw _ => True
  | .select k => ∀ db, (k db).allStmts P
  | .lock _ k => ∀ db, (k db).allStmts P
  | .stage w k => P w ∧ k.allStmts P
  | .flush _ k => k.allStmts P
  | .insert w k => P w ∧ ∀ b, (k b).allStmts P
  | .send _ k => k.allStmts P

/-- Every statement of the program, whatever it reads, meets `P`. -/
structure Writes (P : Stmt Db Row → Prop) (p : Prog Db Row Err Ext α) : Prop where
  stmts : p.allStmts P

section

variable {P : Stmt Db Row → Prop} {p : Prog Db Row Err Ext α} {f : α → Prog Db Row Err Ext β}

theorem Writes.pure (a : α) : (.pure a : Prog Db Row Err Ext α).Writes P := ⟨trivial⟩

theorem Writes.throw (e : Err) : (.throw e : Prog Db Row Err Ext α).Writes P := ⟨trivial⟩

theorem Writes.query (q : Db → α) : (Prog.query q : Prog Db Row Err Ext α).Writes P := ⟨fun _ => trivial⟩

theorem Writes.lockRow (r : Row) (q : Db → α) : (Prog.lockRow r q : Prog Db Row Err Ext α).Writes P :=
  ⟨fun _ => trivial⟩

theorem Writes.call (x : Ext) : (Prog.call x : Prog Db Row Err Ext Unit).Writes P := ⟨trivial⟩

theorem Writes.flushed (e : Err) : (Prog.flushed e : Prog Db Row Err Ext Unit).Writes P := ⟨trivial⟩

theorem Writes.write {w : Stmt Db Row} (h : P w) : (Prog.write w : Prog Db Row Err Ext Unit).Writes P :=
  ⟨h, trivial⟩

theorem Writes.savepoint {w : Stmt Db Row} (h : P w) : (Prog.savepoint w : Prog Db Row Err Ext Bool).Writes P :=
  ⟨h, fun _ => trivial⟩

theorem Writes.require (c : Bool) (e : Err) : (Prog.require c e : Prog Db Row Err Ext Unit).Writes P := by
  cases c
  · exact .throw e
  · exact .pure ()

theorem allStmts_bind (h : p.allStmts P) (hf : ∀ a, (f a).allStmts P) : (p.bind f).allStmts P := by
  induction p with
  | pure a => exact hf a
  | throw e => trivial
  | select k ih => exact fun db => ih db (h db)
  | lock r k ih => exact fun db => ih db (h db)
  | stage w k ih => exact ⟨h.1, ih h.2⟩
  | flush e k ih => exact ih h
  | insert w k ih => exact ⟨h.1, fun b => ih b (h.2 b)⟩
  | send x k ih => exact ih h

theorem Writes.bind (h : p.Writes P) (hf : ∀ a, (f a).Writes P) : (p >>= f).Writes P :=
  ⟨allStmts_bind h.stmts fun a => (hf a).stmts⟩

theorem Writes.ite {c : Prop} [Decidable c] {q : Prog Db Row Err Ext α} (hp : p.Writes P) (hq : q.Writes P) :
    (if c then p else q).Writes P := by
  split
  · exact hp
  · exact hq

theorem allStmts_attempt (h : p.allStmts P) : (Prog.attempt p).allStmts P := by
  induction p with
  | pure a => trivial
  | throw e => trivial
  | select k ih => exact fun db => ih db (h db)
  | lock r k ih => exact fun db => ih db (h db)
  | stage w k ih => exact ⟨h.1, ih h.2⟩
  | flush e k ih => exact ih h
  | insert w k ih => exact ⟨h.1, fun b => ih b (h.2 b)⟩
  | send x k ih => exact ih h

theorem Writes.attempt (h : p.Writes P) : (Prog.attempt p).Writes P := ⟨allStmts_attempt h.stmts⟩

theorem allStmts_of_readsOnly {S : Err → Prop} {p : Prog Db Row Err Ext α} (h : p.readsOnly S) :
    p.allStmts P := by
  induction p with
  | pure a => trivial
  | throw e => trivial
  | select k ih => exact fun db => ih db (h db)
  | lock r k => cases h
  | stage w k => cases h
  | flush e k => cases h
  | insert w k => cases h
  | send x k => cases h

/-- A program that only reads writes nothing. -/
theorem Reads.writes {S : Err → Prop} (h : p.Reads S) : p.Writes P := ⟨allStmts_of_readsOnly h.ops⟩

theorem Writes.forEach {f : β → Prog Db Row Err Ext Unit} (hf : ∀ b, (f b).Writes P) (l : List β) :
    (Prog.forEach f l).Writes P := by
  induction l with
  | nil => exact .pure ()
  | cons b l ih => exact .bind (hf b) fun _ => ih

theorem Writes.collect {γ : Type} {f : β → Prog Db Row Err Ext (List γ)} (hf : ∀ b, (f b).Writes P) (l : List β) :
    (Prog.collect f l).Writes P := by
  induction l with
  | nil => exact .pure []
  | cons b l ih => exact .bind (hf b) fun _ => .bind ih fun _ => .pure _

end

end Prog

/-! ## Programs that send nothing -/

namespace Prog

def sendsNothing : Prog Db Row Err Ext α → Prop
  | .pure _ => True
  | .throw _ => True
  | .select k => ∀ db, (k db).sendsNothing
  | .lock _ k => ∀ db, (k db).sendsNothing
  | .stage _ k => k.sendsNothing
  | .flush _ k => k.sendsNothing
  | .insert _ k => ∀ b, (k b).sendsNothing
  | .send _ _ => False

/-- The program asks nothing of the outside world. -/
structure Quiet (p : Prog Db Row Err Ext α) : Prop where
  ops : p.sendsNothing

section

variable {p : Prog Db Row Err Ext α} {f : α → Prog Db Row Err Ext β}

theorem Quiet.pure (a : α) : (.pure a : Prog Db Row Err Ext α).Quiet := ⟨trivial⟩

theorem Quiet.throw (e : Err) : (.throw e : Prog Db Row Err Ext α).Quiet := ⟨trivial⟩

theorem Quiet.query (q : Db → α) : (Prog.query q : Prog Db Row Err Ext α).Quiet := ⟨fun _ => trivial⟩

theorem Quiet.lockRow (r : Row) (q : Db → α) : (Prog.lockRow r q : Prog Db Row Err Ext α).Quiet :=
  ⟨fun _ => trivial⟩

theorem Quiet.flushed (e : Err) : (Prog.flushed e : Prog Db Row Err Ext Unit).Quiet := ⟨trivial⟩

theorem Quiet.write (w : Stmt Db Row) : (Prog.write w : Prog Db Row Err Ext Unit).Quiet := ⟨trivial⟩

theorem Quiet.require (c : Bool) (e : Err) : (Prog.require c e : Prog Db Row Err Ext Unit).Quiet := by
  cases c
  · exact .throw e
  · exact .pure ()

theorem sendsNothing_bind (h : p.sendsNothing) (hf : ∀ a, (f a).sendsNothing) : (p.bind f).sendsNothing := by
  induction p with
  | pure a => exact hf a
  | throw e => trivial
  | select k ih => exact fun db => ih db (h db)
  | lock r k ih => exact fun db => ih db (h db)
  | stage w k ih => exact ih h
  | flush e k ih => exact ih h
  | insert w k ih => exact fun b => ih b (h b)
  | send x k ih => exact h.elim

theorem Quiet.bind (h : p.Quiet) (hf : ∀ a, (f a).Quiet) : (p >>= f).Quiet :=
  ⟨sendsNothing_bind h.ops fun a => (hf a).ops⟩

theorem sendsNothing_attempt (h : p.sendsNothing) : (Prog.attempt p).sendsNothing := by
  induction p with
  | pure a => trivial
  | throw e => trivial
  | select k ih => exact fun db => ih db (h db)
  | lock r k ih => exact fun db => ih db (h db)
  | stage w k ih => exact ih h
  | flush e k ih => exact ih h
  | insert w k ih => exact fun b => ih b (h b)
  | send x k ih => exact h.elim

theorem Quiet.attempt (h : p.Quiet) : (Prog.attempt p).Quiet := ⟨sendsNothing_attempt h.ops⟩

theorem sent_of_sendsNothing (h : p.sendsNothing) (s : Session Db Row Ext) : (p.run s).2.sent = s.sent := by
  induction p generalizing s with
  | pure a => rfl
  | throw e => rfl
  | select k ih => exact ih s.db (h s.db) s
  | lock r k ih => exact ih s.db (h s.db) s
  | stage w k ih => exact ih h { s with staged := s.staged ++ [w] }
  | flush e k ih =>
    simp only [run]
    split
    · next db _ => exact ih h { s with db := db, staged := [] }
    · rfl
  | insert w k ih =>
    simp only [run]
    split
    · exact ih true (h true) { s with db := w.apply s.db }
    · exact ih false (h false) s
  | send x k ih => exact h.elim

/-- Nothing has been sent at its end that had not been before. -/
theorem Quiet.sent (h : p.Quiet) (s : Session Db Row Ext) : (p.run s).2.sent = s.sent :=
  sent_of_sendsNothing h.ops s

end

end Prog

/-! ## What every run keeps -/

variable {P : Stmt Db Row → Prop} {I : Db → Prop}

/-- A session over a database with `I`, that has staged statements with `P`. -/
structure Session.Kept (I : Db → Prop) (P : Stmt Db Row → Prop) (s : Session Db Row Ext) : Prop where
  db : I s.db
  staged : ∀ w ∈ s.staged, P w

theorem flushAll_keeps (hP : ∀ w, P w → w.Keeps I) {ws : List (Stmt Db Row)} (hws : ∀ w ∈ ws, P w) {db db' : Db}
    (hdb : I db) (h : flushAll ws db = some db') : I db' := by
  induction ws generalizing db with
  | nil => exact Option.some.inj h ▸ hdb
  | cons w ws ih =>
    simp only [flushAll] at h
    split at h
    · exact ih (fun w' hw' => hws w' (List.mem_cons_of_mem _ hw')) (hP w (hws w List.mem_cons_self) db hdb) h
    · cases h

/-- What the session will be once it has flushed has `I` too. -/
theorem Session.Kept.will (hP : ∀ w, P w → w.Keeps I) {s : Session Db Row Ext} (h : s.Kept I P) {db : Db}
    (hf : flushAll s.staged s.db = some db) : I db := flushAll_keeps hP h.staged h.db hf

namespace Prog

variable {p : Prog Db Row Err Ext α} {s : Session Db Row Ext}

theorem allStmts_run (hP : ∀ w, P w → w.Keeps I) (h : p.allStmts P) (hs : s.Kept I P) : (p.run s).2.Kept I P := by
  induction p generalizing s with
  | pure a => exact hs
  | throw e => exact hs
  | select k ih => exact ih s.db (h s.db) hs
  | lock r k ih => exact ih s.db (h s.db) hs
  | stage w k ih =>
    refine ih h.2 ⟨hs.db, fun w' hw' => ?_⟩
    rcases List.mem_append.mp hw' with hw' | hw'
    · exact hs.staged w' hw'
    · exact List.mem_singleton.mp hw' ▸ h.1
  | flush e k ih =>
    simp only [Prog.run]
    split
    · next db hf => exact ih h ⟨hs.will hP hf, by simp⟩
    · exact hs
  | insert w k ih =>
    simp only [Prog.run]
    split
    · exact ih true (h.2 true) ⟨hP w h.1 s.db hs.db, hs.staged⟩
    · exact ih false (h.2 false) hs
  | send x k ih => exact ih h ⟨hs.db, hs.staged⟩

theorem Writes.run (hP : ∀ w, P w → w.Keeps I) (h : p.Writes P) (hs : s.Kept I P) : (p.run s).2.Kept I P :=
  allStmts_run hP h.stmts hs

theorem Writes.wp (hP : ∀ w, P w → w.Keeps I) (h : p.Writes P) (hs : s.Kept I P) :
    p.wp (fun _ s' => s'.Kept I P) (fun _ s' => s'.Kept I P) s := by
  have hkept := h.run hP hs
  refine wp_of_run (fun a s' hr => ?_) fun e s' hr => ?_
  · rwa [hr] at hkept
  · rwa [hr] at hkept

theorem Writes.commit (hP : ∀ w, P w → w.Keeps I) (h : p.Writes P) {db : Db} (hdb : I db) (caught : Err → Bool) :
    I (p.commit caught db) := by
  have hend (s' : Session Db Row Ext) (hs' : s'.Kept I P) : I ((flushAll s'.staged s'.db).getD db) := by
    cases hf : flushAll s'.staged s'.db with
    | none => exact hdb
    | some db' => exact hs'.will hP hf
  exact commit_of_wp hdb (wp_mono (h.wp hP ⟨hdb, by simp⟩) (fun _ s' => hend s') fun _ s' hs' _ => hend s' hs')

end Prog

end Txn
