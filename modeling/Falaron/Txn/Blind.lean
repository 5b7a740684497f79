/-
Programs that cannot tell two databases apart.

`R` relates databases that agree where a program looks. When each of its
reads gives the same on both, and each of its statements is admitted on both
or on neither and keeps `R`, the program ends the same way on both
(`Blind.run`).
-/
import Falaron.Txn.Prog

namespace Txn

variable {Db Row Err Ext α β : Type}

/-- The statement is admitted on related databases alike, and leaves them related. -/
structure Stmt.Alike (R : Db → Db → Prop) (w : Stmt Db Row) : Prop where
  admits : ∀ {db db'}, R db db' → w.admits db' = w.admits db
  keeps : ∀ {db db'}, R db db' → w.admits db = true → R (w.apply db) (w.apply db')

theorem flushAll_alike {R : Db → Db → Prop} {ws : List (Stmt Db Row)} (hws : ∀ w ∈ ws, w.Alike R) {db db' : Db}
    (h : R db db') : (flushAll ws db = none ∧ flushAll ws db' = none) ∨
      ∃ d d', flushAll ws db = some d ∧ flushAll ws db' = some d' ∧ R d d' := by
  induction ws generalizing db db' with
  | nil => exact .inr ⟨db, db', rfl, rfl, h⟩
  | cons w ws ih =>
    have hw := hws w List.mem_cons_self
    rw [flushAll, flushAll, hw.admits h]
    by_cases hadm : w.admits db = true
    · simp only [if_pos hadm]
      exact ih (fun w' hw' => hws w' (List.mem_cons_of_mem _ hw')) (hw.keeps h hadm)
    · rw [if_neg hadm, if_neg hadm]
      exact .inl ⟨rfl, rfl⟩

namespace Prog

def cannotTell (R : Db → Db → Prop) : Prog Db Row Err Ext α → Prop
  | .pure _ => True
  | .throw _ => True
  | .select k => (∀ db db', R db db' → k db' = k db) ∧ ∀ db, (k db).cannotTell R
  | .lock _ k => (∀ db db', R db db' → k db' = k db) ∧ ∀ db, (k db).cannotTell R
  | .stage w k => w.Alike R ∧ k.cannotTell R
  | .flush _ k => k.cannotTell R
  | .insert w k => w.Alike R ∧ ∀ b, (k b).cannotTell R
  | .send _ k => k.cannotTell R

/-- The program cannot tell databases related by `R` apart. -/
structure Blind (R : Db → Db → Prop) (p : Prog Db Row Err Ext α) : Prop where
  ops : p.cannotTell R

section

variable {R : Db → Db → Prop} {p : Prog Db Row Err Ext α} {f : α → Prog Db Row Err Ext β}

theorem Blind.pure (a : α) : (.pure a : Prog Db Row Err Ext α).Blind R := ⟨trivial⟩

theorem Blind.throw (e : Err) : (.throw e : Prog Db Row Err Ext α).Blind R := ⟨trivial⟩

theorem Blind.query {q : Db → α} (h : ∀ db db', R db db' → q db' = q db) :
    (Prog.query q : Prog Db Row Err Ext α).Blind R :=
  ⟨fun db db' hR => congrArg Prog.pure (h db db' hR), fun _ => trivial⟩

theorem Blind.lockRow {r : Row} {q : Db → α} (h : ∀ db db', R db db' → q db' = q db) :
    (Prog.lockRow r q : Prog Db Row Err Ext α).Blind R :=
  ⟨fun db db' hR => congrArg Prog.pure (h db db' hR), fun _ => trivial⟩

theorem Blind.write {w : Stmt Db Row} (h : w.Alike R) : (Prog.write w : Prog Db Row Err Ext Unit).Blind R :=
  ⟨h, trivial⟩

theorem Blind.flushed (e : Err) : (Prog.flushed e : Prog Db Row Err Ext Unit).Blind R := ⟨trivial⟩

theorem Blind.require (c : Bool) (e : Err) : (Prog.require c e : Prog Db Row Err Ext Unit).Blind R := by
  cases c
  · exact .throw e
  · exact .pure ()

theorem bind_bind {γ : Type} (p : Prog Db Row Err Ext α) (f : α → Prog Db Row Err Ext β)
    (g : β → Prog Db Row Err Ext γ) : (p >>= f) >>= g = p >>= fun a => f a >>= g := by
  show (p.bind f).bind g = p.bind fun a => (f a).bind g
  induction p with
  | pure a => rfl
  | throw e => rfl
  | select k ih => exact congrArg Prog.select (funext fun db => ih db)
  | lock r k ih => exact congrArg (Prog.lock r) (funext fun db => ih db)
  | stage w k ih => exact congrArg (Prog.stage w) ih
  | flush e k ih => exact congrArg (Prog.flush e) ih
  | insert w k ih => exact congrArg (Prog.insert w) (funext fun b => ih b)
  | send x k ih => exact congrArg (Prog.send x) ih

theorem cannotTell_bind (h : p.cannotTell R) (hf : ∀ a, (f a).cannotTell R) : (p.bind f).cannotTell R := by
  induction p with
  | pure a => exact hf a
  | throw e => trivial
  | select k ih => exact ⟨fun db db' hR => congrArg (·.bind f) (h.1 db db' hR), fun db => ih db (h.2 db)⟩
  | lock r k ih => exact ⟨fun db db' hR => congrArg (·.bind f) (h.1 db db' hR), fun db => ih db (h.2 db)⟩
  | stage w k ih => exact ⟨h.1, ih h.2⟩
  | flush e k ih => exact ih h
  | insert w k ih => exact ⟨h.1, fun b => ih b (h.2 b)⟩
  | send x k ih => exact ih h

theorem Blind.bind (h : p.Blind R) (hf : ∀ a, (f a).Blind R) : (p >>= f).Blind R :=
  ⟨cannotTell_bind h.ops fun a => (hf a).ops⟩

theorem cannotTell_attempt (h : p.cannotTell R) : (Prog.attempt p).cannotTell R := by
  induction p with
  | pure a => trivial
  | throw e => trivial
  | select k ih => exact ⟨fun db db' hR => congrArg attempt (h.1 db db' hR), fun db => ih db (h.2 db)⟩
  | lock r k ih => exact ⟨fun db db' hR => congrArg attempt (h.1 db db' hR), fun db => ih db (h.2 db)⟩
  | stage w k ih => exact ⟨h.1, ih h.2⟩
  | flush e k ih => exact ih h
  | insert w k ih => exact ⟨h.1, fun b => ih b (h.2 b)⟩
  | send x k ih => exact ih h

theorem Blind.attempt (h : p.Blind R) : (Prog.attempt p).Blind R := ⟨cannotTell_attempt h.ops⟩

theorem run_cannotTell (h : p.cannotTell R) {s s' : Session Db Row Ext} (hR : R s.db s'.db)
    (hst : s'.staged = s.staged) (hws : ∀ w ∈ s.staged, w.Alike R) : (p.run s').1 = (p.run s).1 := by
  induction p generalizing s s' with
  | pure a => rfl
  | throw e => rfl
  | select k ih =>
    simp only [run, h.1 _ _ hR]
    exact ih s.db (h.2 s.db) hR hst hws
  | lock r k ih =>
    simp only [run, h.1 _ _ hR]
    exact ih s.db (h.2 s.db) hR hst hws
  | stage w k ih =>
    refine ih h.2 hR (by rw [hst]) fun w' hw' => ?_
    rcases List.mem_append.mp hw' with hw' | hw'
    · exact hws w' hw'
    · exact List.mem_singleton.mp hw' ▸ h.1
  | flush e k ih =>
    simp only [run, hst]
    rcases flushAll_alike hws hR with ⟨hn, hn'⟩ | ⟨d, d', hd, hd', hR'⟩
    · rw [hn, hn']
    · rw [hd, hd']
      exact ih h hR' rfl (by simp)
  | insert w k ih =>
    simp only [run, h.1.admits hR]
    by_cases hadm : w.admits s.db = true
    · simp only [if_pos hadm]
      exact ih true (h.2 true) (h.1.keeps hR hadm) hst hws
    · simp only [if_neg hadm]
      exact ih false (h.2 false) hR hst hws
  | send x k ih => exact ih h hR hst hws

/-- From databases it cannot tell apart, the program has the same outcome. -/
theorem Blind.run (h : p.Blind R) {db db' : Db} (hR : R db db') :
    (p.run ({ db := db' } : Session Db Row Ext)).1 = (p.run { db := db }).1 :=
  run_cannotTell h.ops hR rfl (by simp)

end

end Prog

end Txn
