/-
What a transaction carries along through its own statements.

A steady predicate is carried by the statements of a kind `P` when it outlives
their staging and their writing, and the locks taken on the way. It then goes
through every program that writes nothing else, whatever it reads.
-/
import Falaron.Txn.Steady
import Falaron.Txn.Frame

namespace Txn

variable {Db Row Err Ext α β : Type}

/-- What each statement keeps, the view keeps. -/
theorem view_keeps {I : Db → Prop} {ws : List (Stmt Db Row)} (h : ∀ w ∈ ws, w.Keeps I) {db : Db} (hdb : I db) :
    I (view ws db) := by
  induction ws generalizing db with
  | nil => exact hdb
  | cons w ws ih => exact ih (fun w' hw' => h w' (List.mem_cons_of_mem _ hw')) (h w List.mem_cons_self db hdb)

namespace Local

variable {t : Local Db Row} {w w' : Stmt Db Row} {ws : List (Stmt Db Row)}

/-- What the transaction has written and staged, in the order in which it is applied. -/
def stmts (t : Local Db Row) : List (Stmt Db Row) := t.pending ++ t.staged

theorem mem_stmts_stage : w' ∈ stmts { t with staged := t.staged ++ [w] } ↔ w' ∈ t.stmts ∨ w' = w := by
  simp [stmts, or_assoc]

theorem stmts_flush (h : t.staged = w :: ws) : stmts ({ t with staged := ws }.wrote w) = t.stmts := by
  simp [stmts, wrote, locked, h]

theorem mem_stmts_wrote : w' ∈ stmts (t.wrote w) ↔ w' ∈ t.stmts ∨ w' = w := by
  simp only [stmts, wrote, locked, List.mem_append, List.mem_singleton]
  exact or_right_comm

theorem stmts_of_nil (h : t.staged = []) : t.stmts = t.pending := by simp [stmts, h]

end Local

structure Carried (R : Rely Db Row) (guard : List Db → Row → Db → Prop) (P : Stmt Db Row → Prop)
    (J : Local Db Row → Db → Prop) : Prop extends Steady R J where
  lock : ∀ {t db} r, guard t.seen r db → J t db → J (t.locked [r]) db
  stage : ∀ {t db w}, P w → J t db → J { t with staged := t.staged ++ [w] } db
  flush : ∀ {t db w ws}, t.staged = w :: ws → (∀ r ∈ w.rows, guard t.seen r db) → w.admits (t.view db) = true →
    J t db → J ({ t with staged := ws }.wrote w) db
  insert : ∀ {t db w}, P w → (∀ r ∈ w.rows, guard t.seen r db) → J t db →
    (w.admits (t.view db) = true → J (t.wrote w) db) ∧ J (t.locked w.rows) db

namespace Carried

variable {R : Rely Db Row} {guard : List Db → Row → Db → Prop} {P : Stmt Db Row → Prop}
  {J K : Local Db Row → Db → Prop} {Q : α → Local Db Row → Db → Prop} {E : Err → Local Db Row → Db → Prop}
  {t : Local Db Row} {db : Db}

/-- What is staged goes to the database. -/
theorem execAll (hJ : Carried R guard P J) {post : Local Db Row → Db → Prop} {ws : List (Stmt Db Row)}
    (hst : t.staged = []) (h : J { t with staged := ws } db)
    (hpost : ∀ t' db', t'.staged = [] → J t' db' → post t' db') : execAll R guard post ws t db := by
  induction ws generalizing t db with
  | nil => exact hpost t db hst (Local.clear_of_nil hst ▸ h)
  | cons w ws ih =>
    intro db' hi hg ha
    have h' : J { t with staged := w :: ws } db' := hJ.interf hi h
    refine ih (t := t.wrote w) hst ?_
    exact hJ.flush (t := { t with staged := w :: ws }) rfl hg ha h'

theorem flushed (hJ : Carried R guard P J) (h : J t db) {e : Err} {Q : Unit → Local Db Row → Db → Prop}
    (hQ : ∀ t' db', t'.staged = [] → J t' db' → Q () t' db') :
    (Prog.flushed e : Prog Db Row Err Ext Unit).safe R guard Q E t db := by
  refine hJ.execAll (t := { t with staged := [] }) rfl h fun t' db' hst h' => ?_
  exact hJ.pure h' fun db'' h'' => hQ t' db'' hst h''

theorem write (hJ : Carried R guard P J) {w : Stmt Db Row} (hw : P w) (h : J t db) {Q : Unit → Local Db Row → Db → Prop}
    (hQ : ∀ t' db', J t' db' → Q () t' db') : (Prog.write w : Prog Db Row Err Ext Unit).safe R guard Q E t db :=
  fun db' hi => hQ { t with staged := t.staged ++ [w] } db' (hJ.interf hi (hJ.stage hw h))

/-- A row is read once its lock is held. -/
theorem lockRow (hJ : Carried R guard P J) (h : J t db) {r : Row} {q : Db → α}
    (hQ : ∀ db' db'', guard t.seen r db' → J (t.locked [r]) db' → R.Interf (t.locked [r]).locks db' db'' →
      J (t.locked [r]) db'' → Q (q (t.view db')) (t.locked [r]) db'') :
    (Prog.lockRow r q : Prog Db Row Err Ext α).safe R guard Q E t db := by
  intro db' hi hg db'' hi'
  have h' := hJ.lock r hg (hJ.interf hi h)
  exact hQ db' db'' hg h' hi' (hJ.interf hi' h')

theorem safe_of_allStmts (hJ : Carried R guard P J) {p : Prog Db Row Err Ext α} (hp : p.allStmts P) (h : J t db) :
    p.safe R guard (fun _ => J) (fun _ => J) t db := by
  induction p generalizing t db with
  | pure a => exact fun db' hi => hJ.interf hi h
  | throw e => exact fun db' hi => hJ.interf hi h
  | select k ih => exact fun db' hi => ih _ (hp _) (hJ.seen db' (hJ.interf hi h))
  | lock r k ih => exact fun db' hi hg => ih _ (hp _) (hJ.lock r hg (hJ.interf hi h))
  | stage w k ih => exact ih hp.2 (hJ.stage hp.1 h)
  | flush e k ih => exact hJ.execAll (t := { t with staged := [] }) rfl h fun t' db' _ h' => ih hp h'
  | insert w k ih =>
    intro db' hi hg
    obtain ⟨hwrote, hlocked⟩ := hJ.insert hp.1 hg (hJ.interf hi h)
    split
    · next ha => exact ih true (hp.2 true) (hwrote ha)
    · exact ih false (hp.2 false) hlocked
  | send x k ih => exact ih hp h

/-- **The rule of the carried.** A program of such statements only, whatever it reads and decides. -/
theorem safe (hJ : Carried R guard P J) {p : Prog Db Row Err Ext α} (hp : p.Writes P) (h : J t db)
    (hQ : ∀ a t' db', J t' db' → Q a t' db') (hE : ∀ e t' db', J t' db' → E e t' db') : p.safe R guard Q E t db :=
  Prog.safe_mono (fun a t' db' _ h' => hQ a t' db' h') (fun e t' db' _ h' => hE e t' db' h') (hJ.inv h)
    (hJ.safe_of_allStmts hp.stmts h)

/-- At its end the rest is flushed, and what is carried then is committed. -/
theorem ends (hJ : Carried R guard P J) (hcommits : ∀ t db, t.staged = [] → J t db → commits R t db) (h : J t db) :
    Txn.execAll R guard (ends R) t.staged { t with staged := [] } db :=
  hJ.execAll (t := { t with staged := [] }) rfl h fun t' _ hst h' _ hi => hcommits t' _ hst (hJ.interf hi h')

theorem or (hJ : Carried R guard P J) (hK : Carried R guard P K) : Carried R guard P fun t db => J t db ∨ K t db where
  inv h := h.elim hJ.inv hK.inv
  interf hi h := h.imp (hJ.interf hi) (hK.interf hi)
  seen d h := h.imp (hJ.seen d) (hK.seen d)
  lock r hg h := h.imp (hJ.lock r hg) (hK.lock r hg)
  stage hw h := h.imp (hJ.stage hw) (hK.stage hw)
  flush hst hg ha h := h.imp (hJ.flush hst hg ha) (hK.flush hst hg ha)
  insert hw hg h := h.elim
    (fun h => ⟨fun ha => .inl ((hJ.insert hw hg h).1 ha), .inl (hJ.insert hw hg h).2⟩)
    fun h => ⟨fun ha => .inr ((hK.insert hw hg h).1 ha), .inr (hK.insert hw hg h).2⟩

theorem mono (hJ : Carried R guard P J) {P' : Stmt Db Row → Prop} (h : ∀ w, P' w → P w) : Carried R guard P' J where
  toSteady := hJ.toSteady
  lock := hJ.lock
  stage hw := hJ.stage (h _ hw)
  flush := hJ.flush
  insert hw := hJ.insert (h _ hw)

theorem and (hJ : Carried R guard P J) {K : List Db → Db → Prop} (hK : ∀ {l a b}, R.change a b → K l a → K l b)
    (hseen : ∀ {l a} d, K l a → K (d :: l) a) : Carried R guard P fun t db => J t db ∧ K t.seen db where
  toSteady := hJ.toSteady.and hK hseen
  lock r hg h := ⟨hJ.lock r hg h.1, h.2⟩
  stage hw h := ⟨hJ.stage hw h.1, h.2⟩
  flush hst hg ha h := ⟨hJ.flush hst hg ha h.1, h.2⟩
  insert hw hg h := ⟨fun ha => ⟨(hJ.insert hw hg h.1).1 ha, h.2⟩, (hJ.insert hw hg h.1).2, h.2⟩

/-- What holds of each statement of a transaction is carried by such statements. -/
theorem all (hJ : Carried R guard P J) (φ : Stmt Db Row → Prop) :
    Carried R guard (fun w => P w ∧ φ w) fun t db => J t db ∧ ∀ w ∈ t.stmts, φ w where
  inv h := hJ.inv h.1
  interf hi h := ⟨hJ.interf hi h.1, h.2⟩
  seen d h := ⟨hJ.seen d h.1, h.2⟩
  lock r hg h := ⟨hJ.lock r hg h.1, h.2⟩
  stage hw h := ⟨hJ.stage hw.1 h.1, fun w' hw' => (Local.mem_stmts_stage.mp hw').elim (h.2 w') fun he => he ▸ hw.2⟩
  flush hst hg ha h := ⟨hJ.flush hst hg ha h.1, fun w' hw' => h.2 w' (Local.stmts_flush hst ▸ hw')⟩
  insert hw hg h := by
    obtain ⟨hwrote, hlocked⟩ := hJ.insert hw.1 hg h.1
    refine ⟨fun ha => ⟨hwrote ha, fun w' hw' => ?_⟩, hlocked, h.2⟩
    exact (Local.mem_stmts_wrote.mp hw').elim (h.2 w') fun he => he ▸ hw.2

/-- A statement that a transaction has made is not lost. -/
theorem any (hJ : Carried R guard P J) (φ : Stmt Db Row → Prop) :
    Carried R guard P fun t db => J t db ∧ ∃ w ∈ t.stmts, φ w where
  inv h := hJ.inv h.1
  interf hi h := ⟨hJ.interf hi h.1, h.2⟩
  seen d h := ⟨hJ.seen d h.1, h.2⟩
  lock r hg h := ⟨hJ.lock r hg h.1, h.2⟩
  stage hw h := ⟨hJ.stage hw h.1, h.2.imp fun w' hw' => ⟨Local.mem_stmts_stage.mpr (.inl hw'.1), hw'.2⟩⟩
  flush hst hg ha h := ⟨hJ.flush hst hg ha h.1, h.2.imp fun w' hw' => ⟨(Local.stmts_flush hst).symm ▸ hw'.1, hw'.2⟩⟩
  insert hw hg h := by
    obtain ⟨hwrote, hlocked⟩ := hJ.insert hw hg h.1
    exact ⟨fun ha => ⟨hwrote ha, h.2.imp fun w' hw' => ⟨Local.mem_stmts_wrote.mpr (.inl hw'.1), hw'.2⟩⟩, hlocked, h.2⟩

end Carried

end Txn
