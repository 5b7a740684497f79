/-
A database that checks what it stores.

A column has a type, and a flush that would leave a value outside it is
refused as a whole. `Prog.checked` is a program on such a database. What it
commits there it would commit without the checks as well (`commits_checked`),
and where every statement keeps what is checked, the checks change nothing
(`WritesOn.commits_checked`).
-/
import Falaron.Txn.Frame

namespace Txn

variable {Db Row Err Ext α β : Type}

/-- Writes nothing, and passes where `fits` holds. -/
def Stmt.check (fits : Db → Bool) : Stmt Db Row := ⟨[], fits, id⟩

namespace Prog

/-- The program with a check at the end of each of its flushes. -/
def checkedFlushes (fits : Db → Bool) : Prog Db Row Err Ext α → Prog Db Row Err Ext α
  | .pure a => .pure a
  | .throw e => .throw e
  | .select k => .select fun db => (k db).checkedFlushes fits
  | .lock r k => .lock r fun db => (k db).checkedFlushes fits
  | .stage w k => .stage w (k.checkedFlushes fits)
  | .flush e k => .stage (Stmt.check fits) (.flush e (k.checkedFlushes fits))
  | .insert w k => .insert w fun b => .stage (Stmt.check fits) ((k b).checkedFlushes fits)
  | .send x k => .send x (k.checkedFlushes fits)

/-- The commit is a flush too. -/
def checked (fits : Db → Bool) (p : Prog Db Row Err Ext α) : Prog Db Row Err Ext α :=
  (p.checkedFlushes fits).bind fun a => .stage (Stmt.check fits) (.pure a)

/-- What is committed by a caller that commits after a result only; `none`
when the program raises, or the commit is refused. -/
def commits (p : Prog Db Row Err Ext α) (db : Db) : Option Db :=
  match p.run { db := db } with
  | (.ok _, s) => flushAll s.staged s.db
  | (.error _, _) => none

theorem commit_eq (p : Prog Db Row Err Ext α) (db : Db) :
    p.commit (fun _ => false) db = (p.commits db).getD db := by
  unfold commit commits
  rcases p.run { db := db } with ⟨_ | _, s⟩
  · rfl
  · rfl

theorem commits_eq_some {p : Prog Db Row Err Ext α} {db db' : Db} :
    p.commits db = some db' ↔ ∃ a s, p.run { db := db } = (.ok a, s) ∧ flushAll s.staged s.db = some db' := by
  unfold commits
  constructor
  · intro h
    split at h
    · next a s hr => exact ⟨a, s, hr, h⟩
    · cases h
  · rintro ⟨a, s, hr, hf⟩
    rw [hr]
    exact hf

end Prog

theorem flushAll_check {fits : Db → Bool} {ws : List (Stmt Db Row)} {db db' : Db} :
    flushAll (ws ++ [Stmt.check fits]) db = some db' ↔ flushAll ws db = some db' ∧ fits db' = true := by
  rw [flushAll_append]
  constructor
  · intro h
    obtain ⟨d, hd, hc⟩ := Option.bind_eq_some_iff.mp h
    by_cases hfits : fits d = true
    · have hd' : some d = some db' := (if_pos hfits).symm.trans hc
      cases hd'
      exact ⟨hd, hfits⟩
    · cases (if_neg hfits).symm.trans hc
  · rintro ⟨hd, hfits⟩
    rw [hd]
    exact if_pos hfits

/-! ## Without the checks -/

/-- Where what `s` has staged is written, so is what `u` has. -/
structure Session.Under (s u : Session Db Row Ext) : Prop where
  db : s.db = u.db
  sent : s.sent = u.sent
  staged : ∀ db db', flushAll s.staged db = some db' → flushAll u.staged db = some db'

namespace Session.Under

variable {s u : Session Db Row Ext}

theorem refl (s : Session Db Row Ext) : s.Under s := ⟨rfl, rfl, fun _ _ h => h⟩

theorem stage (h : s.Under u) (w : Stmt Db Row) :
    Under { s with staged := s.staged ++ [w] } { u with staged := u.staged ++ [w] } := by
  refine ⟨h.db, h.sent, fun db db' hf => ?_⟩
  rw [flushAll_append] at hf ⊢
  obtain ⟨d, hd, hw⟩ := Option.bind_eq_some_iff.mp hf
  rw [h.staged db d hd]
  exact hw

theorem at_ (h : s.Under u) (db : Db) : Under { s with db := db } { u with db := db } := ⟨rfl, h.sent, h.staged⟩

theorem cleared (h : s.Under u) (db : Db) :
    Under ({ s with db := db, staged := [] } : Session Db Row Ext) { u with db := db, staged := [] } :=
  ⟨rfl, h.sent, fun _ _ hf => hf⟩

theorem send (h : s.Under u) (x : Ext) :
    Under { s with sent := s.sent ++ [x] } { u with sent := u.sent ++ [x] } :=
  ⟨h.db, congrArg (· ++ [x]) h.sent, h.staged⟩

theorem check (h : s.Under u) (fits : Db → Bool) :
    Under { s with staged := s.staged ++ [Stmt.check fits] } u :=
  ⟨h.db, h.sent, fun db db' hf => h.staged db db' (flushAll_check.mp hf).1⟩

end Session.Under

namespace Prog

variable {fits : Db → Bool} {p : Prog Db Row Err Ext α} {s u s' : Session Db Row Ext} {a : α} {db db' : Db}

theorem checkedFlushes_run (h : s.Under u) (hr : (p.checkedFlushes fits).run s = (.ok a, s')) :
    ∃ u', p.run u = (.ok a, u') ∧ s'.Under u' := by
  induction p generalizing s u with
  | pure b =>
    cases hr
    exact ⟨u, rfl, h⟩
  | throw e => cases hr
  | select k ih => exact ih u.db h (by simpa only [checkedFlushes, run, h.db] using hr)
  | lock r k ih => exact ih u.db h (by simpa only [checkedFlushes, run, h.db] using hr)
  | stage w k ih => exact ih (h.stage w) hr
  | flush e k ih =>
    simp only [checkedFlushes, run] at hr ⊢
    split at hr
    · next db hf =>
      have hf' := h.staged _ _ (flushAll_check.mp hf).1
      rw [h.db] at hf'
      simp only [hf']
      exact ih (h.cleared db) hr
    · cases hr
  | insert w k ih =>
    simp only [checkedFlushes, run] at hr ⊢
    rw [← h.db]
    split at hr
    · next hw =>
      rw [if_pos hw]
      exact ih true ((h.at_ _).check fits) hr
    · next hw =>
      rw [if_neg hw]
      exact ih false (h.check fits) hr
  | send x k ih => exact ih (h.send x) hr

/-- A run with the checks sends what the one without them sends. -/
theorem checked_sent (hr : (p.checked fits).run { db := db } = (.ok a, s)) :
    ∃ u, p.run { db := db } = (.ok a, u) ∧ s.sent = u.sent := by
  rw [checked, run_bind] at hr
  split at hr
  · next b s' hb =>
    cases hr
    obtain ⟨u, hu, hunder⟩ := checkedFlushes_run (.refl _) hb
    exact ⟨u, hu, hunder.sent⟩
  · cases hr

/-- What the checks let through is committed without them too, and has passed. -/
theorem commits_checked (h : (p.checked fits).commits db = some db') :
    p.commits db = some db' ∧ fits db' = true := by
  obtain ⟨a, s, hr, hf⟩ := commits_eq_some.mp h
  rw [checked, run_bind] at hr
  split at hr
  · next b s' hb =>
    cases hr
    obtain ⟨hf, hfits⟩ := flushAll_check.mp hf
    obtain ⟨u, hu, hunder⟩ := checkedFlushes_run (.refl _) hb
    refine ⟨commits_eq_some.mpr ⟨a, u, hu, ?_⟩, hfits⟩
    rw [← hunder.db]
    exact hunder.staged _ _ hf
  · cases hr

end Prog

/-! ## With checks that are met -/

variable {fits : Db → Bool} {I : Db → Prop} {P : Stmt Db Row → Prop}

namespace Prog

variable {p : Prog Db Row Err Ext α} {f : α → Prog Db Row Err Ext β}

def allStmtsOn (I : Db → Prop) (P : Stmt Db Row → Prop) : Prog Db Row Err Ext α → Prop
  | .pure _ => True
  | .throw _ => True
  | .select k => ∀ db, I db → (k db).allStmtsOn I P
  | .lock _ k => ∀ db, I db → (k db).allStmtsOn I P
  | .stage w k => P w ∧ k.allStmtsOn I P
  | .flush _ k => k.allStmtsOn I P
  | .insert w k => P w ∧ ∀ b, (k b).allStmtsOn I P
  | .send _ k => k.allStmtsOn I P

/-- Every statement of the program meets `P`, as long as what it reads has `I`. -/
structure WritesOn (I : Db → Prop) (P : Stmt Db Row → Prop) (p : Prog Db Row Err Ext α) : Prop where
  stmts : p.allStmtsOn I P

theorem allStmtsOn_of_allStmts (h : p.allStmts P) : p.allStmtsOn I P := by
  induction p with
  | pure a => trivial
  | throw e => trivial
  | select k ih => exact fun db _ => ih db (h db)
  | lock r k ih => exact fun db _ => ih db (h db)
  | stage w k ih => exact ⟨h.1, ih h.2⟩
  | flush e k ih => exact ih h
  | insert w k ih => exact ⟨h.1, fun b => ih b (h.2 b)⟩
  | send x k ih => exact ih h

theorem Writes.on (h : p.Writes P) : p.WritesOn I P := ⟨allStmtsOn_of_allStmts h.stmts⟩

theorem allStmtsOn_bind (h : p.allStmtsOn I P) (hf : ∀ a, (f a).allStmtsOn I P) : (p.bind f).allStmtsOn I P := by
  induction p with
  | pure a => exact hf a
  | throw e => trivial
  | select k ih => exact fun db hdb => ih db (h db hdb)
  | lock r k ih => exact fun db hdb => ih db (h db hdb)
  | stage w k ih => exact ⟨h.1, ih h.2⟩
  | flush e k ih => exact ih h
  | insert w k ih => exact ⟨h.1, fun b => ih b (h.2 b)⟩
  | send x k ih => exact ih h

theorem WritesOn.bind (h : p.WritesOn I P) (hf : ∀ a, (f a).WritesOn I P) : (p >>= f).WritesOn I P :=
  ⟨allStmtsOn_bind h.stmts fun a => (hf a).stmts⟩

/-- Every result of the program meets `R`. -/
def allResults (R : α → Prop) : Prog Db Row Err Ext α → Prop
  | .pure a => R a
  | .throw _ => True
  | .select k => ∀ db, (k db).allResults R
  | .lock _ k => ∀ db, (k db).allResults R
  | .stage _ k => k.allResults R
  | .flush _ k => k.allResults R
  | .insert _ k => ∀ b, (k b).allResults R
  | .send _ k => k.allResults R

theorem allResults_bind {R : α → Prop} {T : β → Prop} (h : p.allResults R) (hf : ∀ a, R a → (f a).allResults T) :
    (p.bind f).allResults T := by
  induction p with
  | pure a => exact hf a h
  | throw e => trivial
  | select k ih => exact fun db => ih db (h db)
  | lock r k ih => exact fun db => ih db (h db)
  | stage w k ih => exact ih h
  | flush e k ih => exact ih h
  | insert w k ih => exact fun b => ih b (h b)
  | send x k ih => exact ih h

theorem allResults_true : p.allResults fun _ => True := by
  induction p with
  | pure a => trivial
  | throw e => trivial
  | select k ih => exact ih
  | lock r k ih => exact ih
  | stage w k ih => exact ih
  | flush e k ih => exact ih
  | insert w k ih => exact ih
  | send x k ih => exact ih

/-- A run's result is one of the program's. -/
theorem wp_of_results {R : α → Prop} (h : p.allResults R) {s : Session Db Row Ext} :
    p.wp (fun a _ => R a) (fun _ _ => True) s := by
  induction p generalizing s with
  | pure a => exact h
  | throw e => trivial
  | select k ih => exact ih s.db (h s.db)
  | lock r k ih => exact ih s.db (h s.db)
  | stage w k ih => exact ih h
  | flush e k ih =>
    simp only [wp, run]
    cases flushAll s.staged s.db with
    | none => trivial
    | some db => exact ih h
  | insert w k ih =>
    by_cases hw : w.admits s.db = true
    · simp only [wp, run, if_pos hw]
      exact ih true (h true)
    · simp only [wp, run, if_neg hw]
      exact ih false (h false)
  | send x k ih => exact ih h

/-- What follows has to meet `P` after the results there are only. -/
theorem WritesOn.bind_results {R : α → Prop} (h : p.WritesOn I P) (hr : p.allResults R)
    (hf : ∀ a, R a → (f a).WritesOn I P) : (p >>= f).WritesOn I P := by
  obtain ⟨h⟩ := h
  refine ⟨?_⟩
  show (p.bind f).allStmtsOn I P
  induction p with
  | pure a => exact (hf a hr).stmts
  | throw e => trivial
  | select k ih => exact fun db hdb => ih db (hr db) (h db hdb)
  | lock r k ih => exact fun db hdb => ih db (hr db) (h db hdb)
  | stage w k ih => exact ⟨h.1, ih hr h.2⟩
  | flush e k ih => exact ih hr h
  | insert w k ih => exact ⟨h.1, fun b => ih b (hr b) (h.2 b)⟩
  | send x k ih => exact ih hr h

/-- What follows a check has to meet `P` where the check passes only. -/
theorem WritesOn.require {c : Bool} {e : Err} {f : Unit → Prog Db Row Err Ext β} (hf : c = true → (f ()).WritesOn I P) :
    (Prog.require c e >>= f).WritesOn I P := by
  cases c with
  | false => exact ⟨trivial⟩
  | true => exact hf rfl

/-- What is read has `I`. -/
theorem WritesOn.query {q : Db → α} (hf : ∀ db, I db → (f (q db)).WritesOn I P) :
    ((Prog.query q : Prog Db Row Err Ext α) >>= f).WritesOn I P := ⟨fun db hdb => (hf db hdb).stmts⟩

theorem allStmtsOn_attempt (h : p.allStmtsOn I P) : (Prog.attempt p).allStmtsOn I P := by
  induction p with
  | pure a => trivial
  | throw e => trivial
  | select k ih => exact fun db hdb => ih db (h db hdb)
  | lock r k ih => exact fun db hdb => ih db (h db hdb)
  | stage w k ih => exact ⟨h.1, ih h.2⟩
  | flush e k ih => exact ih h
  | insert w k ih => exact ⟨h.1, fun b => ih b (h.2 b)⟩
  | send x k ih => exact ih h

theorem WritesOn.attempt (h : p.WritesOn I P) : (Prog.attempt p).WritesOn I P := ⟨allStmtsOn_attempt h.stmts⟩

theorem WritesOn.collect {γ : Type} {f : β → Prog Db Row Err Ext (List γ)} {l : List β}
    (hf : ∀ b ∈ l, (f b).WritesOn I P) : (Prog.collect f l).WritesOn I P := by
  induction l with
  | nil => exact ⟨trivial⟩
  | cons b l ih =>
    exact .bind (hf b List.mem_cons_self) fun _ => .bind (ih fun b' hb' => hf b' (List.mem_cons_of_mem _ hb')) fun _ =>
      ⟨trivial⟩

theorem WritesOn.foldlM {γ : Type} {f : γ → β → Prog Db Row Err Ext γ} {l : List β}
    (hf : ∀ d, ∀ b ∈ l, (f d b).WritesOn I P) (d : γ) : (l.foldlM f d).WritesOn I P := by
  induction l generalizing d with
  | nil => exact ⟨trivial⟩
  | cons b l ih =>
    rw [List.foldlM_cons]
    exact .bind (hf d b List.mem_cons_self) fun d' => ih (fun d b' hb' => hf d b' (List.mem_cons_of_mem _ hb')) d'

theorem allStmtsOn_run {s : Session Db Row Ext} (hP : ∀ w, P w → w.Keeps I) (h : p.allStmtsOn I P) (hs : s.Kept I P) :
    (p.run s).2.Kept I P := by
  induction p generalizing s with
  | pure a => exact hs
  | throw e => exact hs
  | select k ih => exact ih s.db (h s.db hs.db) hs
  | lock r k ih => exact ih s.db (h s.db hs.db) hs
  | stage w k ih =>
    refine ih h.2 ⟨hs.db, fun w' hw' => ?_⟩
    rcases List.mem_append.mp hw' with hw' | hw'
    · exact hs.staged w' hw'
    · exact List.mem_singleton.mp hw' ▸ h.1
  | flush e k ih =>
    simp only [Prog.run]
    split
    · next db hf => exact ih h ⟨hs.will hP hf, by simp⟩
    · exact hs
  | insert w k ih =>
    simp only [Prog.run]
    split
    · exact ih true (h.2 true) ⟨hP w h.1 s.db hs.db, hs.staged⟩
    · exact ih false (h.2 false) hs
  | send x k ih => exact ih h ⟨hs.db, hs.staged⟩

/-- What every statement keeps, given that all that is read has it, a transaction keeps. -/
theorem WritesOn.commit (hP : ∀ w, P w → w.Keeps I) (h : p.WritesOn I P) {db : Db} (hdb : I db) (caught : Err → Bool) :
    I (p.commit caught db) := by
  have hkept := allStmtsOn_run (s := { db := db }) hP h.stmts ⟨hdb, by simp⟩
  have hend : I ((flushAll (p.run { db := db }).2.staged (p.run { db := db }).2.db).getD db) := by
    cases hf : flushAll (p.run { db := db }).2.staged (p.run { db := db }).2.db with
    | none => exact hdb
    | some db' => exact hkept.will hP hf
  unfold Prog.commit
  split
  · next hr => rwa [hr] at hend
  · next hr =>
    split
    · rwa [hr] at hend
    · exact hdb

end Prog

/-- Two sessions on a database with `I`, with statements that keep it, and write the same. -/
structure Session.Alike (I : Db → Prop) (P : Stmt Db Row → Prop) (s u : Session Db Row Ext) : Prop where
  db : s.db = u.db
  sent : s.sent = u.sent
  kept : u.Kept I P
  staged : ∀ db, I db → flushAll s.staged db = flushAll u.staged db

namespace Session.Alike

variable {s u : Session Db Row Ext}

theorem at_ (h : s.Alike I P u) {db : Db} (hdb : I db) : Alike I P { s with db := db } { u with db := db } :=
  ⟨rfl, h.sent, ⟨hdb, h.kept.staged⟩, h.staged⟩

theorem cleared (h : s.Alike I P u) {db : Db} (hdb : I db) :
    Alike I P { s with db := db, staged := [] } { u with db := db, staged := [] } :=
  ⟨rfl, h.sent, ⟨hdb, by simp⟩, fun _ _ => rfl⟩

theorem send (h : s.Alike I P u) (x : Ext) :
    Alike I P { s with sent := s.sent ++ [x] } { u with sent := u.sent ++ [x] } :=
  ⟨h.db, congrArg (· ++ [x]) h.sent, ⟨h.kept.db, h.kept.staged⟩, h.staged⟩

theorem stage (h : s.Alike I P u) {w : Stmt Db Row} (hw : P w) :
    Alike I P { s with staged := s.staged ++ [w] } { u with staged := u.staged ++ [w] } := by
  refine ⟨h.db, h.sent, ⟨h.kept.db, fun w' hw' => ?_⟩, fun db hdb => ?_⟩
  · rcases List.mem_append.mp hw' with hw' | hw'
    · exact h.kept.staged w' hw'
    · exact List.mem_singleton.mp hw' ▸ hw
  · rw [flushAll_append, flushAll_append, h.staged db hdb]

theorem check (hP : ∀ w, P w → w.Keeps I) (hI : ∀ db, I db → fits db = true) (h : s.Alike I P u) :
    Alike I P { s with staged := s.staged ++ [Stmt.check fits] } u := by
  refine ⟨h.db, h.sent, h.kept, fun db hdb => ?_⟩
  rw [← h.staged db hdb]
  ext db'
  rw [flushAll_check]
  refine and_iff_left_of_imp fun hf => hI _ ?_
  rw [h.staged db hdb] at hf
  exact flushAll_keeps hP h.kept.staged hdb hf

end Session.Alike

namespace Prog

variable {p : Prog Db Row Err Ext α} {s u : Session Db Row Ext} {db : Db}

theorem checkedFlushes_alike (hP : ∀ w, P w → w.Keeps I) (hI : ∀ db, I db → fits db = true) (hp : p.allStmtsOn I P)
    (h : s.Alike I P u) :
    ((p.checkedFlushes fits).run s).1 = (p.run u).1 ∧
      ((p.checkedFlushes fits).run s).2.Alike I P (p.run u).2 := by
  induction p generalizing s u with
  | pure b => exact ⟨rfl, h⟩
  | throw e => exact ⟨rfl, h⟩
  | select k ih =>
    simp only [checkedFlushes, run, h.db]
    exact ih u.db (hp _ h.kept.db) h
  | lock r k ih =>
    simp only [checkedFlushes, run, h.db]
    exact ih u.db (hp _ h.kept.db) h
  | stage w k ih => exact ih hp.2 (h.stage hp.1)
  | flush e k ih =>
    simp only [checkedFlushes, run]
    have hsame : flushAll (s.staged ++ [Stmt.check fits]) s.db = flushAll u.staged u.db := by
      rw [← h.db]
      exact (h.check hP hI).staged _ (h.db ▸ h.kept.db)
    rw [hsame]
    cases hf : flushAll u.staged u.db with
    | none => exact ⟨rfl, h.check hP hI⟩
    | some db => exact ih hp (h.cleared (h.kept.will hP hf))
  | insert w k ih =>
    simp only [checkedFlushes, run]
    rw [← h.db]
    split
    · exact ih true (hp.2 true) ((h.at_ (hP w hp.1 _ (h.db ▸ h.kept.db))).check hP hI)
    · exact ih false (hp.2 false) (h.check hP hI)
  | send x k ih => exact ih hp (h.send x)

/-- Checks that every statement keeps are never felt. -/
theorem WritesOn.commits_checked (hp : p.WritesOn I P) (hP : ∀ w, P w → w.Keeps I)
    (hI : ∀ db, I db → fits db = true) (hdb : I db) : (p.checked fits).commits db = p.commits db := by
  have h₀ : Session.Alike I P ({ db := db } : Session Db Row Ext) { db := db } :=
    ⟨rfl, rfl, ⟨hdb, by simp⟩, fun _ _ => rfl⟩
  obtain ⟨hres, halike⟩ := checkedFlushes_alike hP hI hp.stmts h₀
  unfold commits checked
  rw [run_bind]
  generalize (p.checkedFlushes fits).run { db := db } = r at hres halike
  generalize p.run { db := db } = r' at hres halike
  obtain ⟨res, s⟩ := r
  obtain ⟨res', u⟩ := r'
  obtain rfl : res = res' := hres
  cases res with
  | error e => rfl
  | ok b =>
    have hsame := (halike.check hP hI).staged s.db (halike.db ▸ halike.kept.db)
    exact hsame.trans (by rw [halike.db])

/-! ## What only reads is not checked -/

theorem checkedFlushes_bind_reads {S : Err → Prop} (h : p.readsOnly S) {s s' : Session Db Row Ext} {a : α}
    (hr : p.run s = (.ok a, s')) : ((p.bind f).checkedFlushes fits).run s = ((f a).checkedFlushes fits).run s := by
  induction p with
  | pure b =>
    cases hr
    rfl
  | throw e => cases hr
  | select k ih => exact ih s.db (h s.db) hr
  | lock r k => cases h
  | stage w k => cases h
  | flush e k => cases h
  | insert w k => cases h
  | send x k => cases h

/-- A program that begins by reading is what follows on what has been read. -/
theorem commits_bind_reads {S : Err → Prop} (h : p.Reads S) {db : Db} {s : Session Db Row Ext} {a : α}
    (hr : p.run { db := db } = (.ok a, s)) : (p >>= f).commits db = (f a).commits db ∧
      ((p >>= f).checked fits).commits db = ((f a).checked fits).commits db := by
  have hs : s = { db := db } := wp_ok (readsOnly_wp h.ops { db := db }) hr
  constructor
  · unfold commits
    rw [bind_eq, run_bind, hr, hs]
  · unfold commits checked
    rw [bind_eq, run_bind, run_bind, checkedFlushes_bind_reads h.ops hr]

end Prog

end Txn
