/-
What holds of every statement of a transaction when its turn comes.

`each A` runs a program over all answers its reads can get, and asks for `A`
of each statement that goes to the database, given what the transaction has
written and which committed databases it has read by then. Nothing is assumed
of the other transactions, so nothing has to be stable: `Sys.Reach.each` says
that `A` holds wherever, in any interleaving, a statement is next.
-/
import Falaron.Txn.Sys

namespace Txn

/-- What a transaction has staged, written and read so far. -/
structure Past (Db Row : Type) where
  staged : List (Stmt Db Row) := []
  pending : List (Stmt Db Row) := []
  seen : List Db := []

variable {Db Row Err Ext α β ι κ : Type}

namespace Past

variable (p : Past Db Row)

abbrev view (db : Db) : Db := Txn.view p.pending db

def wrote (w : Stmt Db Row) : Past Db Row := { p with pending := p.pending ++ [w] }

theorem clear_of_nil {p : Past Db Row} (h : p.staged = []) : { p with staged := [] } = p := by
  cases p
  cases h
  rfl

end Past

/-- The statements go to the database one by one, then `post`. -/
def eachAll (A : Past Db Row → Stmt Db Row → Prop) (post : Past Db Row → Prop) :
    List (Stmt Db Row) → Past Db Row → Prop
  | [], p => post p
  | w :: ws, p => A p w ∧ eachAll A post ws (p.wrote w)

/-- `A` of every statement written, then `Q` of a result and `E` of an error. -/
def Prog.each (A : Past Db Row → Stmt Db Row → Prop) (Q : α → Past Db Row → Prop) (E : Err → Past Db Row → Prop) :
    Prog Db Row Err Ext α → Past Db Row → Prop
  | .pure a, p => Q a p
  | .throw e, p => E e p
  | .select k, p => ∀ db, (k (p.view db)).each A Q E { p with seen := db :: p.seen }
  | .lock _ k, p => ∀ db, (k (p.view db)).each A Q E p
  | .stage w k, p => k.each A Q E { p with staged := p.staged ++ [w] }
  | .flush _ k, p => eachAll A (fun p' => k.each A Q E p') p.staged { p with staged := [] }
  | .insert w k, p => A p w ∧ (k true).each A Q E (p.wrote w) ∧ (k false).each A Q E p
  | .send _ k, p => k.each A Q E p

variable {A : Past Db Row → Stmt Db Row → Prop}

theorem eachAll_mono {post post' : Past Db Row → Prop} (h : ∀ p, post p → post' p) {ws : List (Stmt Db Row)}
    {p : Past Db Row} (hp : eachAll A post ws p) : eachAll A post' ws p := by
  induction ws generalizing p with
  | nil => exact h p hp
  | cons w ws ih => exact ⟨hp.1, ih hp.2⟩

namespace Prog

variable {Q Q' : α → Past Db Row → Prop} {E E' : Err → Past Db Row → Prop} {p : Past Db Row}

theorem each_mono {prog : Prog Db Row Err Ext α} (h : prog.each A Q E p) (hQ : ∀ a p, Q a p → Q' a p)
    (hE : ∀ e p, E e p → E' e p) : prog.each A Q' E' p := by
  induction prog generalizing p with
  | pure a => exact hQ a p h
  | throw e => exact hE e p h
  | select k ih => exact fun db => ih _ (h db)
  | lock r k ih => exact fun db => ih _ (h db)
  | stage w k ih => exact ih h
  | flush e k ih => exact eachAll_mono (fun _ => ih) h
  | insert w k ih => exact ⟨h.1, ih true h.2.1, ih false h.2.2⟩
  | send x k ih => exact ih h

theorem each_bind {prog : Prog Db Row Err Ext β} {f : β → Prog Db Row Err Ext α}
    (h : prog.each A (fun b p' => (f b).each A Q E p') E p) : (prog >>= f).each A Q E p := by
  rw [bind_eq]
  induction prog generalizing p with
  | pure b => exact h
  | throw e => exact h
  | select k ih => exact fun db => ih _ (h db)
  | lock r k ih => exact fun db => ih _ (h db)
  | stage w k ih => exact ih h
  | flush e k ih => exact eachAll_mono (fun _ => ih) h
  | insert w k ih => exact ⟨h.1, ih true h.2.1, ih false h.2.2⟩
  | send x k ih => exact ih h

theorem each_attempt {prog : Prog Db Row Err Ext α} {Q : Except Err α → Past Db Row → Prop}
    (h : prog.each A (fun a => Q (.ok a)) (fun e => Q (.error e)) p) : (attempt prog).each A Q E p := by
  induction prog generalizing p with
  | pure a => exact h
  | throw e => exact h
  | select k ih => exact fun db => ih _ (h db)
  | lock r k ih => exact fun db => ih _ (h db)
  | stage w k ih => exact ih h
  | flush e k ih => exact eachAll_mono (fun _ => ih) h
  | insert w k ih => exact ⟨h.1, ih true h.2.1, ih false h.2.2⟩
  | send x k ih => exact ih h

theorem each_query {q : Db → α} (h : ∀ db, Q (q (p.view db)) { p with seen := db :: p.seen }) :
    (query q : Prog Db Row Err Ext α).each A Q E p := h

theorem each_lockRow {r : Row} {q : Db → α} (h : ∀ db, Q (q (p.view db)) p) :
    (lockRow r q : Prog Db Row Err Ext α).each A Q E p := h

theorem each_require {c : Bool} {e : Err} {Q : Unit → Past Db Row → Prop} (h : c = true → Q () p)
    (he : c = false → E e p) : (require c e : Prog Db Row Err Ext Unit).each A Q E p := by
  cases c with
  | false => exact he rfl
  | true => exact h rfl

end Prog

/-- The whole transaction: at its end what is left is written. -/
def Prog.Each (A : Past Db Row → Stmt Db Row → Prop) (prog : Prog Db Row Err Ext Unit) (p : Past Db Row) : Prop :=
  prog.each A (fun _ p => eachAll A (fun _ => True) p.staged { p with staged := [] }) (fun _ _ => True) p

def Thread.past (t : Thread κ Db Row Err Ext) : Past Db Row := ⟨t.staged, t.pending, t.seen⟩

/-- The statement that goes to the database next. -/
def Thread.writing (t : Thread κ Db Row Err Ext) : Option (Stmt Db Row) :=
  match t.prog with
  | .insert w _ => some w
  | .flush _ _ | .pure _ => t.staged.head?
  | _ => none

namespace Sys

variable [DecidableEq ι] [DecidableEq Row] {s s' : Sys ι κ Db Row Err Ext} {i : ι}

/-- Every transaction under way has `A` ahead of it. -/
def Ahead (A : Past Db Row → Stmt Db Row → Prop) (s : Sys ι κ Db Row Err Ext) : Prop :=
  ∀ i t, s.threads i = some t → t.prog.Each A t.past

omit [DecidableEq Row] in
theorem Ahead.put (h : s.Ahead A) {t : Thread κ Db Row Err Ext} (ht : t.prog.Each A t.past) :
    (s.put i t).Ahead A := by
  intro j u hu
  simp only [Sys.put] at hu
  by_cases hj : j = i
  · subst hj
    simp only [Function.update_self, Option.some.injEq] at hu
    exact hu ▸ ht
  · rw [Function.update_of_ne hj] at hu
    exact h j u hu

omit [DecidableEq Row] in
theorem Ahead.finish (h : s.Ahead A) (db : Db) : (s.finish i db).Ahead A := by
  intro j u hu
  simp only [Sys.finish] at hu
  by_cases hj : j = i
  · subst hj; simp at hu
  · rw [Function.update_of_ne hj] at hu
    exact h j u hu

omit [DecidableEq ι] in
theorem Ahead.take (h : s.Ahead A) (rows : List Row) : (s.take i rows).Ahead A := h

theorem Ahead.writeNext (h : s.Ahead A) {t : Thread κ Db Row Err Ext} {w : Stmt Db Row} {ws : List (Stmt Db Row)}
    (ht : t.prog.Each A ⟨ws, t.pending ++ [w], t.seen⟩) (hw : s.writeNext i t w ws = some s') : s'.Ahead A := by
  simp only [Sys.writeNext] at hw
  split at hw
  · split at hw
    · cases hw
      exact (h.take w.rows).put (t := { t with staged := ws, pending := t.pending ++ [w] }) ht
    · cases hw
      exact h.finish _
  · cases hw

theorem Ahead.step (h : s.Ahead A) (hs : s.step i = some s') : s'.Ahead A := by
  simp only [Sys.step] at hs
  split at hs
  · cases hs
  next t ht =>
  have hahead := h i t ht
  split at hs
  · next a hp =>
    split at hs
    · cases hs
      exact h.finish _
    · next w ws hst =>
      refine h.writeNext ?_ hs
      simp only [Prog.Each, hp, Prog.each, Thread.past, hst] at hahead ⊢
      exact hahead.2
  · cases hs
    exact h.finish _
  · next k hp =>
    cases hs
    rw [hp] at hahead
    exact h.put (t := { t with prog := k _, seen := s.db :: t.seen }) (hahead s.db)
  · next r k hp =>
    rw [hp] at hahead
    split at hs
    · cases hs
      exact (h.take [r]).put (t := { t with prog := k _ }) (hahead s.db)
    · cases hs
  · next w k hp =>
    cases hs
    rw [hp] at hahead
    exact h.put (t := { t with prog := k, staged := t.staged ++ [w] }) hahead
  · next e k hp =>
    split at hs
    · next hst =>
      cases hs
      simp only [Prog.Each, hp, Prog.each, Thread.past, hst, eachAll] at hahead
      exact h.put (t := { t with prog := k }) (by simpa only [Prog.Each, Thread.past, hst] using hahead)
    · next w ws hst =>
      refine h.writeNext ?_ hs
      simp only [Prog.Each, hp, Prog.each, Thread.past, hst] at hahead ⊢
      exact hahead.2
  · next w k hp =>
    rw [hp] at hahead
    split at hs
    · split at hs
      · cases hs
        exact (h.take w.rows).put (t := { t with prog := k true, pending := t.pending ++ [w] }) hahead.2.1
      · cases hs
        exact (h.take w.rows).put (t := { t with prog := k false }) hahead.2.2
    · cases hs
  · next x k hp =>
    cases hs
    rw [hp] at hahead
    exact h.put (t := { t with prog := k }) hahead

variable {code : κ → Prog Db Row Err Ext Unit} {ok : κ → Prop} {guard : κ → List Db → Row → Db → Prop}

theorem Reach.ahead {s₀ : Sys ι κ Db Row Err Ext} (h₀ : s₀.Ahead A) (hcode : ∀ c, ok c → (code c).Each A {})
    (h : Reach code ok guard s₀ s) : s.Ahead A := by
  induction h with
  | refl => exact h₀
  | @next s s' a _ hm ha ih =>
    cases a with
    | start i c =>
      simp only [act] at ha
      split at ha <;> cases ha
      exact ih.put (t := { call := c, prog := code c }) (hcode c hm)
    | step i => exact ih.step ha
    | abort i =>
      cases ha
      exact ih.finish _

omit [DecidableEq ι] [DecidableEq Row] in
/-- Wherever a statement is next, `A` holds of it. -/
theorem Ahead.writing (h : s.Ahead A) {t : Thread κ Db Row Err Ext} (ht : s.threads i = some t) {w : Stmt Db Row}
    (hw : t.writing = some w) : ∃ staged, A ⟨staged, t.pending, t.seen⟩ w := by
  have hahead := h i t ht
  unfold Thread.writing at hw
  split at hw
  · next w' k hp =>
    cases hw
    rw [hp] at hahead
    exact ⟨_, hahead.1⟩
  · next e k hp =>
    obtain ⟨ws, hst⟩ := List.head?_eq_some_iff.mp hw
    simp only [Prog.Each, hp, Prog.each, Thread.past, hst] at hahead
    exact ⟨_, hahead.1⟩
  · next a hp =>
    obtain ⟨ws, hst⟩ := List.head?_eq_some_iff.mp hw
    simp only [Prog.Each, hp, Prog.each, Thread.past, hst] at hahead
    exact ⟨_, hahead.1⟩
  · cases hw

end Sys

end Txn
