/-
Reasoning about one transaction while others commit around it.

A `Rely` says what any commit keeps (`inv`), how the committed database may
change by a commit (`change`), and when a row is as it was (`same`). Between
two of its own steps a transaction sees any number of such commits, but none
that touches a row it has locked. `safe` is the weakest precondition under
that interference; what it asks at the end (`commits`) is what the others
rely on. `Sys.Reach.inv` is the payoff: when every call's program is safe,
the invariant holds in every committed state of every interleaving.
-/
import Falaron.Txn.Sys

namespace Txn

structure Rely (Db Row : Type) where
  inv : Db → Prop
  change : Db → Db → Prop
  same : Row → Db → Db → Prop
  change_refl : ∀ db, change db db
  change_trans : ∀ {a b c}, change a b → change b c → change a c
  same_refl : ∀ r db, same r db db
  same_trans : ∀ {r a b c}, same r a b → same r b c → same r a c

/-- What a transaction holds besides its program. -/
structure Local (Db Row : Type) where
  staged : List (Stmt Db Row) := []
  pending : List (Stmt Db Row) := []
  locks : Row → Prop := fun _ => False
  seen : List Db := []

variable {Db Row Err Ext α β : Type}

namespace Rely

variable (R : Rely Db Row)

/-- The committed database goes from `db` to `db'` by others' commits, while
the rows of `L` are locked. -/
structure Interf (L : Row → Prop) (db db' : Db) : Prop where
  inv : R.inv db'
  change : R.change db db'
  same : ∀ r, L r → R.same r db db'

variable {R} {L : Row → Prop} {a b c : Db}

theorem Interf.refl (h : R.inv a) : R.Interf L a a :=
  ⟨h, R.change_refl a, fun r _ => R.same_refl r a⟩

theorem Interf.trans (h : R.Interf L a b) (h' : R.Interf L b c) : R.Interf L a c :=
  ⟨h'.inv, R.change_trans h.change h'.change, fun r hr => R.same_trans (h.same r hr) (h'.same r hr)⟩

theorem Interf.mono {L' : Row → Prop} (h : R.Interf L' a b) (hL : ∀ r, L r → L' r) : R.Interf L a b :=
  ⟨h.inv, h.change, fun r hr => h.same r (hL r hr)⟩

end Rely

namespace Local

variable (t : Local Db Row)

/-- What the transaction's next read sees when `db` is committed. -/
abbrev view (db : Db) : Db := Txn.view t.pending db

/-- `t` once it holds `rows` too. -/
def locked (rows : List Row) : Local Db Row := { t with locks := fun r => r ∈ rows ∨ t.locks r }

/-- `t` after the statement `w` has gone to the database. -/
def wrote (w : Stmt Db Row) : Local Db Row := { t.locked w.rows with pending := t.pending ++ [w] }

theorem clear_of_nil {t : Local Db Row} (h : t.staged = []) : { t with staged := [] } = t := by
  cases t
  cases h
  rfl

@[simp] theorem view_wrote (w : Stmt Db Row) (db : Db) : (t.wrote w).view db = w.apply (t.view db) := by
  simp [wrote, locked, view]

@[simp] theorem view_locked (rows : List Row) (db : Db) : (t.locked rows).view db = t.view db := rfl

@[simp] theorem staged_wrote (w : Stmt Db Row) : (t.wrote w).staged = t.staged := rfl

theorem locks_wrote {w : Stmt Db Row} {r : Row} : (t.wrote w).locks r ↔ r ∈ w.rows ∨ t.locks r := Iff.rfl

end Local

variable (R : Rely Db Row) (guard : List Db → Row → Db → Prop)

/-- The staged statements go to the database one by one, then `post`. -/
def execAll (post : Local Db Row → Db → Prop) : List (Stmt Db Row) → Local Db Row → Db → Prop
  | [], t, db => post t db
  | w :: ws, t, db => ∀ db', R.Interf t.locks db db' → (∀ r ∈ w.rows, guard t.seen r db') →
      w.admits (t.view db') = true → execAll post ws (t.wrote w) db'

/-- Under interference, the program ends in a result with `Q`, raises with
`E`, or is rolled back. -/
def Prog.safe (Q : α → Local Db Row → Db → Prop) (E : Err → Local Db Row → Db → Prop) :
    Prog Db Row Err Ext α → Local Db Row → Db → Prop
  | .pure a, t, db => ∀ db', R.Interf t.locks db db' → Q a t db'
  | .throw e, t, db => ∀ db', R.Interf t.locks db db' → E e t db'
  | .select k, t, db => ∀ db', R.Interf t.locks db db' →
      (k (t.view db')).safe Q E { t with seen := db' :: t.seen } db'
  | .lock r k, t, db => ∀ db', R.Interf t.locks db db' → guard t.seen r db' →
      (k (t.view db')).safe Q E (t.locked [r]) db'
  | .stage w k, t, db => k.safe Q E { t with staged := t.staged ++ [w] } db
  | .flush _ k, t, db => execAll R guard (fun t' db' => k.safe Q E t' db') t.staged { t with staged := [] } db
  | .insert w k, t, db => ∀ db', R.Interf t.locks db db' → (∀ r ∈ w.rows, guard t.seen r db') →
      if w.admits (t.view db') then (k true).safe Q E (t.wrote w) db'
      else (k false).safe Q E (t.locked w.rows) db'
  | .send _ k, t, db => k.safe Q E t db

/-- What a commit owes the others. -/
structure commits (t : Local Db Row) (db : Db) : Prop where
  inv : R.inv (t.view db)
  change : R.change db (t.view db)
  same : ∀ r, ¬ t.locks r → R.same r db (t.view db)

/-- A transaction with nothing left to flush may commit, whatever comes first. -/
def ends (t : Local Db Row) (db : Db) : Prop := ∀ db', R.Interf t.locks db db' → commits R t db'

/-- The whole transaction: at its end the rest is flushed and committed. -/
def Prog.Safe (p : Prog Db Row Err Ext α) (t : Local Db Row) (db : Db) : Prop :=
  p.safe R guard (fun _ t db => execAll R guard (ends R) t.staged { t with staged := [] } db)
    (fun _ _ _ => True) t db

variable {R guard}

/-! ## Rules -/

theorem execAll_stable {post : Local Db Row → Db → Prop} {ws : List (Stmt Db Row)} {t : Local Db Row}
    {db db' : Db} (hpost : ∀ t db db', R.Interf t.locks db db' → post t db → post t db')
    (h : execAll R guard post ws t db) (hi : R.Interf t.locks db db') : execAll R guard post ws t db' := by
  cases ws with
  | nil => exact hpost t db db' hi h
  | cons w ws => exact fun db'' hi' => h db'' (hi.trans hi')

theorem execAll_mono {post post' : Local Db Row → Db → Prop} {ws : List (Stmt Db Row)}
    {t : Local Db Row} {db : Db} (hpost : ∀ t db, R.inv db → post t db → post' t db) (hdb : R.inv db)
    (h : execAll R guard post ws t db) : execAll R guard post' ws t db := by
  induction ws generalizing t db with
  | nil => exact hpost t db hdb h
  | cons w ws ih => exact fun db' hi hg ha => ih hi.inv (h db' hi hg ha)

theorem execAll_imp {post post' : Local Db Row → Db → Prop} {ws : List (Stmt Db Row)}
    {t : Local Db Row} {db : Db} (hpost : ∀ t db, post t db → post' t db)
    (h : execAll R guard post ws t db) : execAll R guard post' ws t db := by
  induction ws generalizing t db with
  | nil => exact hpost t db h
  | cons w ws ih => exact fun db' hi hg ha => ih (h db' hi hg ha)

namespace Prog

variable {Q Q' : α → Local Db Row → Db → Prop} {E E' : Err → Local Db Row → Db → Prop}
  {t : Local Db Row} {db db' : Db}

theorem safe_stable {p : Prog Db Row Err Ext α} (h : p.safe R guard Q E t db)
    (hi : R.Interf t.locks db db') : p.safe R guard Q E t db' := by
  induction p generalizing t db db' with
  | pure a => exact fun _ hi' => h _ (hi.trans hi')
  | throw e => exact fun _ hi' => h _ (hi.trans hi')
  | select k => exact fun _ hi' => h _ (hi.trans hi')
  | lock r k => exact fun _ hi' => h _ (hi.trans hi')
  | stage w k ih => exact ih (t := { t with staged := t.staged ++ [w] }) h hi
  | flush e k ih => exact execAll_stable (t := { t with staged := [] }) (fun _ _ _ hi' h' => ih h' hi') h hi
  | insert w k => exact fun _ hi' => h _ (hi.trans hi')
  | send x k ih => exact ih h hi

theorem safe_mono {p : Prog Db Row Err Ext α} (hQ : ∀ a t db, R.inv db → Q a t db → Q' a t db)
    (hE : ∀ e t db, R.inv db → E e t db → E' e t db) (hdb : R.inv db) (h : p.safe R guard Q E t db) : p.safe R guard Q' E' t db := by
  induction p generalizing t db with
  | pure a => exact fun db' hi => hQ a t db' hi.inv (h db' hi)
  | throw e => exact fun db' hi => hE e t db' hi.inv (h db' hi)
  | select k ih => exact fun db' hi => ih _ hi.inv (h db' hi)
  | lock r k ih => exact fun db' hi hg => ih _ hi.inv (h db' hi hg)
  | stage w k ih => exact ih hdb h
  | flush e k ih => exact execAll_mono (fun _ _ hdb' h' => ih hdb' h') hdb h
  | insert w k ih =>
    intro db' hi hg
    have h' := h db' hi hg
    split
    · next ha => rw [if_pos ha] at h'; exact ih true hi.inv h'
    · next ha => rw [if_neg ha] at h'; exact ih false hi.inv h'
  | send x k ih => exact ih hdb h

theorem safe_bind' {p : Prog Db Row Err Ext β} {f : β → Prog Db Row Err Ext α} (hdb : R.inv db)
    (h : p.safe R guard (fun b t' db' => (f b).safe R guard Q E t' db') E t db) :
    (p.bind f).safe R guard Q E t db := by
  induction p generalizing t db with
  | pure b => exact h db (.refl hdb)
  | throw e => exact h
  | select k ih => exact fun db' hi => ih _ hi.inv (h db' hi)
  | lock r k ih => exact fun db' hi hg => ih _ hi.inv (h db' hi hg)
  | stage w k ih => exact ih hdb h
  | flush e k ih => exact execAll_mono (fun _ _ hdb' h' => ih hdb' h') hdb h
  | insert w k ih =>
    intro db' hi hg
    have h' := h db' hi hg
    split
    · next ha => rw [if_pos ha] at h'; exact ih true hi.inv h'
    · next ha => rw [if_neg ha] at h'; exact ih false hi.inv h'
  | send x k ih => exact ih hdb h

theorem safe_bind {p : Prog Db Row Err Ext β} {f : β → Prog Db Row Err Ext α} (hdb : R.inv db)
    (h : p.safe R guard (fun b t' db' => (f b).safe R guard Q E t' db') E t db) :
    (p >>= f).safe R guard Q E t db := safe_bind' hdb h

theorem safe_require {c : Bool} {e : Err} {Q : Unit → Local Db Row → Db → Prop}
    (h : c = true → ∀ db', R.Interf t.locks db db' → Q () t db')
    (he : c = false → ∀ db', R.Interf t.locks db db' → E e t db') :
    (require c e : Prog Db Row Err Ext Unit).safe R guard Q E t db := by
  cases c with
  | false => exact he rfl
  | true => exact h rfl

theorem safe_query {q : Db → α} (h : ∀ db' db'', R.Interf t.locks db db' → R.Interf t.locks db' db'' →
      Q (q (t.view db')) { t with seen := db' :: t.seen } db'') :
    (query q : Prog Db Row Err Ext α).safe R guard Q E t db :=
  fun db' hi db'' hi' => h db' db'' hi hi'

theorem safe_attempt {p : Prog Db Row Err Ext α} {Q : Except Err α → Local Db Row → Db → Prop}
    (h : p.safe R guard (fun a => Q (.ok a)) (fun e => Q (.error e)) t db) :
    (attempt p).safe R guard Q E t db := by
  induction p generalizing t db with
  | pure a => exact h
  | throw e => exact h
  | select k ih => exact fun db' hi => ih _ (h db' hi)
  | lock r k ih => exact fun db' hi hg => ih _ (h db' hi hg)
  | stage w k ih => exact ih h
  | flush e k ih => exact execAll_imp (fun _ _ h' => ih h') h
  | insert w k ih =>
    intro db' hi hg
    have h' := h db' hi hg
    split
    · next ha => rw [if_pos ha] at h'; exact ih true h'
    · next ha => rw [if_neg ha] at h'; exact ih false h'
  | send x k ih => exact ih h

end Prog

/-! ## Every interleaving -/

variable {ι κ : Type} [DecidableEq ι] [DecidableEq Row]

/-- What a thread of the system holds besides its program. -/
def Sys.local (s : Sys ι κ Db Row Err Ext) (i : ι) (t : Thread κ Db Row Err Ext) : Local Db Row :=
  { staged := t.staged, pending := t.pending, locks := fun r => s.owner r = some i, seen := t.seen }

/-- The committed database is sound and every transaction under way is safe. -/
structure Sys.Good (R : Rely Db Row) (guard : κ → List Db → Row → Db → Prop)
    (s : Sys ι κ Db Row Err Ext) : Prop where
  inv : R.inv s.db
  safe : ∀ i t, s.threads i = some t → t.prog.Safe R (guard t.call) (s.local i t) s.db
  idle : ∀ i, s.threads i = none → ∀ r, s.owner r ≠ some i

namespace Sys

variable {guard : κ → List Db → Row → Db → Prop} {s s' : Sys ι κ Db Row Err Ext} {i : ι}
  {t : Thread κ Db Row Err Ext}

theorem local_take {rows : List Row} (h : s.free i rows = true) {j : ι} (hj : j ≠ i)
    (t : Thread κ Db Row Err Ext) : (s.take i rows).local j t = s.local j t := by
  simp only [Sys.local, Local.mk.injEq, true_and, and_true]
  funext r
  simp only [take]
  by_cases hr : r ∈ rows
  · simp only [free, List.all_eq_true, Bool.or_eq_true, beq_iff_eq] at h
    rcases h r hr with h | h <;> simp [hr, h, Ne.symm hj]
  · simp [hr]

omit [DecidableEq ι] in
theorem local_take_self (rows : List Row) (t : Thread κ Db Row Err Ext) :
    (s.take i rows).local i t = (s.local i t).locked rows := by
  simp only [Sys.local, Local.locked, Local.mk.injEq, true_and, and_true]
  funext r
  by_cases hr : r ∈ rows <;> simp [take, hr]

/-- A step of `i` that commits nothing leaves the others where they are. -/
theorem Good.put (h : s.Good R guard) {rows : List Row} (hf : s.free i rows = true)
    (ht : t.prog.Safe R (guard t.call) ((s.local i t).locked rows) s.db) :
    ((s.take i rows).put i t).Good R guard where
  inv := h.inv
  safe := by
    intro j u hu
    simp only [Sys.put] at hu
    by_cases hj : j = i
    · subst hj
      simp only [Function.update_self, Option.some.injEq] at hu
      subst hu
      rw [← local_take_self rows] at ht
      exact ht
    · rw [Function.update_of_ne hj] at hu
      have := h.safe j u hu
      rwa [← local_take hf hj u] at this
  idle := by
    intro j hj r hr
    simp only [Sys.put] at hj
    by_cases hji : j = i
    · subst hji; simp at hj
    · rw [Function.update_of_ne hji] at hj
      simp only [Sys.put, Sys.take] at hr
      split at hr
      · exact hji (Option.some.inj hr).symm
      · exact h.idle j hj r hr

theorem Good.put_nil (h : s.Good R guard) (ht : t.prog.Safe R (guard t.call) (s.local i t) s.db) :
    (s.put i t).Good R guard := by
  have hnil : t.prog.Safe R (guard t.call) ((s.local i t).locked []) s.db := by
    simpa [Local.locked] using ht
  simpa [take] using h.put rfl hnil

omit [DecidableEq Row] in
theorem local_finish {db : Db} {j : ι} (hj : j ≠ i) (t : Thread κ Db Row Err Ext) :
    (s.finish i db).local j t = s.local j t := by
  simp only [Sys.local, Local.mk.injEq, true_and, and_true]
  funext r
  by_cases hr : s.owner r = some i
  · simp [finish, hr, Ne.symm hj]
  · simp [finish, hr]

omit [DecidableEq Row] in
/-- The end of a transaction: what it commits is interference to the others. -/
theorem Good.finish (h : s.Good R guard) {db : Db} (hi : R.inv db) (hc : R.change s.db db)
    (hs : ∀ r, s.owner r ≠ some i → R.same r s.db db) : (s.finish i db).Good R guard where
  inv := hi
  safe := by
    intro j u hu
    simp only [Sys.finish] at hu
    by_cases hj : j = i
    · subst hj; simp at hu
    · rw [Function.update_of_ne hj] at hu
      rw [local_finish hj]
      refine Prog.safe_stable (h.safe j u hu) ⟨hi, hc, fun r hr => hs r fun hri => ?_⟩
      simp only [Sys.local] at hr
      rw [hri, Option.some.injEq] at hr
      exact hj hr.symm
  idle := by
    intro j hj r hr
    simp only [Sys.finish] at hj hr
    split at hr
    · cases hr
    · next hri =>
      by_cases hji : j = i
      · exact hri (hji ▸ hr)
      · rw [Function.update_of_ne hji] at hj
        exact h.idle j hj r hr

omit [DecidableEq Row] in
theorem Good.rollback (h : s.Good R guard) : (s.finish i s.db).Good R guard :=
  h.finish h.inv (R.change_refl _) fun r _ => R.same_refl r _

/-- One staged statement of `i` is written, or refused. -/
theorem Good.writeNext (h : s.Good R guard) {w : Stmt Db Row} {ws : List (Stmt Db Row)}
    (ht : w.admits (Txn.view t.pending s.db) = true →
      t.prog.Safe R (guard t.call) ((s.local i { t with staged := ws }).wrote w) s.db)
    (hw : s.writeNext i t w ws = some s') : s'.Good R guard := by
  simp only [Sys.writeNext] at hw
  split at hw
  · next hf =>
    split at hw
    · next ha =>
      simp only [Option.some.injEq] at hw
      subst hw
      exact h.put (t := { t with staged := ws, pending := t.pending ++ [w] }) hf (ht ha)
    · simp only [Option.some.injEq] at hw
      subst hw
      exact h.rollback
  · cases hw

omit [DecidableEq ι] [DecidableEq Row] in
theorem ends_stable {t : Local Db Row} {db db' : Db} (hi : R.Interf t.locks db db') (h : ends R t db) :
    ends R t db' := fun db'' hi' => h db'' (hi.trans hi')

variable {code : κ → Prog Db Row Err Ext Unit} {ok : κ → Prop}

/-- A transaction at its end: what is staged goes first, then it commits. -/
theorem Good.step_pure (h : s.Good R guard) {a : Unit} (ht : s.threads i = some t) (hp : t.prog = .pure a)
    (hg : ∀ r ∈ t.takes, guard t.call t.seen r s.db)
    (hs : (match t.staged with
      | [] => some (s.finish i (Txn.view t.pending s.db))
      | w :: ws => s.writeNext i t w ws) = some s') : s'.Good R guard := by
  have hsafe := h.safe i t ht
  rw [hp] at hsafe
  have hrefl := Rely.Interf.refl (R := R) (L := (s.local i t).locks) h.inv
  have he := hsafe s.db hrefl
  split at hs
  · next hst =>
    simp only [Option.some.injEq] at hs
    subst hs
    simp only [Sys.local, hst, execAll] at he
    have hc := he s.db hrefl
    exact h.finish hc.inv hc.change hc.same
  · next w ws hst =>
    refine h.writeNext (fun ha => ?_) hs
    rw [hp]
    simp only [Sys.local, hst, execAll] at he
    have he' := he s.db hrefl (fun r hr => hg r (by simpa [Thread.takes, hp, hst] using hr)) ha
    exact fun db' hi => execAll_stable (fun _ _ _ => ends_stable) he' hi

/-- A flush under way: the next staged statement, or on with the program. -/
theorem Good.step_flush (h : s.Good R guard) {e : Err} {k : Prog Db Row Err Ext Unit}
    (ht : s.threads i = some t) (hp : t.prog = .flush e k)
    (hg : ∀ r ∈ t.takes, guard t.call t.seen r s.db)
    (hs : (match t.staged with
      | [] => some (s.put i { t with prog := k })
      | w :: ws => s.writeNext i t w ws) = some s') : s'.Good R guard := by
  have hsafe := h.safe i t ht
  rw [hp] at hsafe
  have hrefl := Rely.Interf.refl (R := R) (L := (s.local i t).locks) h.inv
  split at hs
  · next hst =>
    simp only [Option.some.injEq] at hs
    subst hs
    simp only [Prog.Safe, Prog.safe, Sys.local, hst, execAll] at hsafe
    exact h.put_nil (t := { t with prog := k }) (by simpa only [Prog.Safe, Sys.local, hst] using hsafe)
  · next w ws hst =>
    refine h.writeNext (fun ha => ?_) hs
    rw [hp]
    simp only [Prog.Safe, Prog.safe, Sys.local, hst, execAll] at hsafe
    exact hsafe s.db hrefl (fun r hr => hg r (by simpa [Thread.takes, hp, hst] using hr)) ha

theorem Good.step (h : s.Good R guard) (hm : s.Meets ok guard (.step i)) (hs : s.step i = some s') :
    s'.Good R guard := by
  simp only [Sys.step] at hs
  split at hs
  · cases hs
  next t ht =>
  have hg := hm t ht
  have hsafe := h.safe i t ht
  have hrefl := Rely.Interf.refl (R := R) (L := (s.local i t).locks) h.inv
  split at hs
  · next a hp => exact h.step_pure ht hp hg hs
  · simp only [Option.some.injEq] at hs
    exact hs ▸ h.rollback
  · next k hp =>
    simp only [Option.some.injEq] at hs
    rw [hp] at hsafe
    exact hs ▸ h.put_nil (t := { t with prog := k _, seen := s.db :: t.seen }) (hsafe s.db hrefl)
  · next r k hp =>
    rw [hp] at hsafe
    simp only [Thread.takes, hp] at hg
    split at hs
    · next hf =>
      simp only [Option.some.injEq] at hs
      exact hs ▸ h.put (t := { t with prog := k _ }) hf (hsafe s.db hrefl (hg r (by simp)))
    · cases hs
  · next w k hp =>
    simp only [Option.some.injEq] at hs
    rw [hp] at hsafe
    exact hs ▸ h.put_nil (t := { t with prog := k, staged := t.staged ++ [w] }) hsafe
  · next e k hp => exact h.step_flush ht hp hg hs
  · next w k hp =>
    rw [hp] at hsafe
    simp only [Thread.takes, hp] at hg
    have hk := hsafe s.db hrefl hg
    split at hs
    · next hf =>
      split at hs
      · next ha =>
        simp only [Option.some.injEq] at hs
        exact hs ▸ h.put (t := { t with prog := k true, pending := t.pending ++ [w] }) hf
          (by rw [if_pos (by exact ha)] at hk; exact hk)
      · next ha =>
        simp only [Option.some.injEq] at hs
        exact hs ▸ h.put (t := { t with prog := k false }) hf
          (by rw [if_neg (by exact ha)] at hk; exact hk)
    · cases hs
  · next x k hp =>
    simp only [Option.some.injEq] at hs
    rw [hp] at hsafe
    have hput := h.put_nil (t := { t with prog := k }) hsafe
    exact hs ▸ ⟨hput.inv, hput.safe, hput.idle⟩

omit [DecidableEq Row] in
/-- A step changes what is committed only where it ends a transaction. -/
theorem act_db [DecidableEq Row] {a : Act ι κ} (ha : s.act code a = some s') : s'.db = s.db ∨
    ∃ i t x, a = .step i ∧ s.threads i = some t ∧ t.prog = .pure x ∧ t.staged = [] ∧
      s' = s.finish i (Txn.view t.pending s.db) := by
  have hwrite {i t w ws} (h : s.writeNext i t w ws = some s') : s'.db = s.db := by
    simp only [writeNext] at h
    split at h
    · split at h <;> (cases h; rfl)
    · cases h
  cases a with
  | start i c =>
    simp only [act] at ha
    split at ha <;> cases ha
    exact .inl rfl
  | abort i =>
    cases ha
    exact .inl rfl
  | step i =>
    simp only [act, Sys.step] at ha
    split at ha
    · cases ha
    next t ht =>
    split at ha
    · next x hp =>
      split at ha
      · next hst =>
        cases ha
        exact .inr ⟨i, t, x, rfl, ht, hp, hst, rfl⟩
      · exact .inl (hwrite ha)
    · cases ha; exact .inl rfl
    · cases ha; exact .inl rfl
    · split at ha <;> cases ha
      exact .inl rfl
    · cases ha; exact .inl rfl
    · split at ha
      · cases ha; exact .inl rfl
      · exact .inl (hwrite ha)
    · split at ha
      · split at ha <;> (cases ha; exact .inl rfl)
      · cases ha
    · cases ha; exact .inl rfl

/-- From a good state, what a step commits is a change the others allow for. -/
theorem Good.change (h : s.Good R guard) {a : Act ι κ} (ha : s.act code a = some s') :
    R.change s.db s'.db := by
  rcases act_db ha with hdb | ⟨i, t, x, rfl, ht, hp, hst, rfl⟩
  · exact hdb ▸ R.change_refl _
  · have hrefl := Rely.Interf.refl (R := R) (L := (s.local i t).locks) h.inv
    have hsafe := h.safe i t ht
    rw [hp] at hsafe
    have he := hsafe s.db hrefl
    simp only [Sys.local, hst, execAll] at he
    exact (he s.db hrefl).change

/-- **The rule of interleavings.** When the program of every allowed call is
safe wherever the invariant holds, every state of every interleaving that
meets the condition is good. -/
theorem Reach.good {s₀ : Sys ι κ Db Row Err Ext} (h₀ : s₀.Good R guard)
    (hcode : ∀ c, ok c → ∀ db, R.inv db → (code c).Safe R (guard c) {} db)
    (h : Reach code ok guard s₀ s) : s.Good R guard := by
  induction h with
  | refl => exact h₀
  | @next s s' a _ hm ha ih =>
    cases a with
    | start i c =>
      simp only [act] at ha
      split at ha
      · next hn =>
        simp only [Option.some.injEq] at ha
        have hl : s.local i { call := c, prog := code c } = {} := by
          simp only [Sys.local, Local.mk.injEq, true_and, and_true]
          funext r
          simpa using ih.idle i (by simpa using hn) r
        exact ha ▸ ih.put_nil (t := { call := c, prog := code c }) (hl ▸ hcode c hm _ ih.inv)
      · cases ha
    | step i => exact ih.step hm ha
    | abort i =>
      simp only [act, Option.some.injEq] at ha
      exact ha ▸ ih.rollback

/-- What an interleaving has committed since it started is a change as well. -/
theorem Reach.change {s₀ : Sys ι κ Db Row Err Ext} (h₀ : s₀.Good R guard)
    (hcode : ∀ c, ok c → ∀ db, R.inv db → (code c).Safe R (guard c) {} db)
    (h : Reach code ok guard s₀ s) : R.change s₀.db s.db := by
  induction h with
  | refl => exact R.change_refl _
  | next hr _ ha ih => exact R.change_trans ih ((Reach.good h₀ hcode hr).change ha)

omit [DecidableEq ι] [DecidableEq Row] in
/-- A system no transaction of which has started. -/
theorem Good.idle_start {db : Db} (h : R.inv db) : ({ db := db } : Sys ι κ Db Row Err Ext).Good R guard where
  inv := h
  safe _ _ ht := by cases ht
  idle _ _ _ hr := by cases hr

end Sys

end Txn
