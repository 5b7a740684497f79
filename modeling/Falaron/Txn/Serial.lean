/-
Transactions that take turns.

A transaction that only reads before it locks the row `r`, and that writes
and sends only afterwards, does the rest of its work alone: while it holds
`r`, every other such transaction is still reading, and none commits. So
from the lock on it runs as one session by itself would, on the tables that
are committed when it gets the lock; only what it has read before may be out
of date. `Run.turn` says so for every interleaving.
-/
import Falaron.Txn.Sys

namespace Txn

variable {Db Row Err Ext α β : Type}

/-- The session, in which `said` has been said before it began. -/
def Session.after (said : List (Ext ⊕ α)) (s : Session Db Row Ext) : Session Db Row (Ext ⊕ α) :=
  ⟨s.db, s.staged, said ++ s.sent.map .inl⟩

namespace Prog

/-! ## What a transaction says -/

/-- The program with its result as the last thing it says. -/
def reported : Prog Db Row Err Ext α → Prog Db Row Err (Ext ⊕ α) Unit
  | .pure a => .send (.inr a) (.pure ())
  | .throw e => .throw e
  | .select k => .select fun db => (k db).reported
  | .lock r k => .lock r fun db => (k db).reported
  | .stage w k => .stage w k.reported
  | .flush e k => .flush e k.reported
  | .insert w k => .insert w fun b => (k b).reported
  | .send x k => .send (.inl x) k.reported

theorem run_reported (p : Prog Db Row Err Ext α) (said : List (Ext ⊕ α)) (s : Session Db Row Ext) :
    p.reported.run (s.after said) = match p.run s with
      | (.ok a, s') => (.ok (), ⟨s'.db, s'.staged, said ++ s'.sent.map .inl ++ [.inr a]⟩)
      | (.error e, s') => (.error e, s'.after said) := by
  induction p generalizing s with
  | pure a => rfl
  | throw e => rfl
  | select k ih => exact ih s.db s
  | lock r k ih => exact ih s.db s
  | stage w k ih => exact ih { s with staged := s.staged ++ [w] }
  | flush e k ih =>
    simp only [reported, run, Session.after]
    cases flushAll s.staged s.db with
    | none => rfl
    | some db => exact ih { s with db := db, staged := [] }
  | insert w k ih =>
    simp only [reported, run, Session.after]
    split
    · exact ih true { s with db := w.apply s.db }
    · exact ih false s
  | send x k ih =>
    have hsent : said ++ s.sent.map .inl ++ [Sum.inl x] = said ++ (s.sent ++ [x]).map .inl := by simp
    simp only [reported, run, Session.after, hsent]
    exact ih { s with sent := s.sent ++ [x] }

theorem wp_reported {p : Prog Db Row Err Ext α} {said : List (Ext ⊕ α)} {s : Session Db Row Ext}
    {Q : Unit → Session Db Row (Ext ⊕ α) → Prop} {E : Err → Session Db Row (Ext ⊕ α) → Prop}
    (h : p.wp (fun a s' => Q () ⟨s'.db, s'.staged, said ++ s'.sent.map .inl ++ [.inr a]⟩)
      (fun e s' => E e (s'.after said)) s) : p.reported.wp Q E (s.after said) := by
  unfold wp at h ⊢
  rw [run_reported]
  cases hr : p.run s with
  | mk res s' =>
    rw [hr] at h
    cases res <;> exact h

/-! ## Reading before the lock -/

/-- `a` may come out of the program's reads, each of tables with `D`. -/
inductive Yields (D : Db → Prop) : Prog Db Row Err Ext α → α → Prop
  | pure {a} : Yields D (.pure a) a
  | select {k a} (db : Db) : D db → Yields D (k db) a → Yields D (.select k) a

section

variable {D : Db → Prop} {a : α}

theorem Yields.of_pure {b : α} (h : (.pure a : Prog Db Row Err Ext α).Yields D b) : b = a := by
  cases h
  rfl

theorem Yields.of_query {q : Db → α} (h : (query q : Prog Db Row Err Ext α).Yields D a) :
    ∃ db, D db ∧ a = q db := by
  cases h with
  | select db hdb h => exact ⟨db, hdb, h.of_pure⟩

theorem Yields.of_require {c : Bool} {e : Err} (h : (require c e : Prog Db Row Err Ext Unit).Yields D ()) :
    c = true := by
  cases c with
  | true => rfl
  | false => cases h

theorem Yields.of_bind {p : Prog Db Row Err Ext β} {f : β → Prog Db Row Err Ext α} (h : (p >>= f).Yields D a) :
    ∃ b, p.Yields D b ∧ (f b).Yields D a := by
  rw [bind_eq] at h
  induction p with
  | pure b => exact ⟨b, .pure, h⟩
  | select k ih =>
    cases h with
    | select db hdb h =>
      obtain ⟨b, hb, ha⟩ := ih db h
      exact ⟨b, .select db hdb hb, ha⟩
  | _ => cases h

theorem Yields.mono {D' : Db → Prop} (hD : ∀ db, D db → D' db) {p : Prog Db Row Err Ext α} (h : p.Yields D a) :
    p.Yields D' a := by
  induction h with
  | pure => exact .pure
  | select db hdb _ ih => exact .select db (hD db hdb) ih

end

/-- The program reads tables with `D` until it raises or locks `r`; what
follows the lock on tables `db` meets `K db`. -/
def opens (r : Row) (D : Db → Prop) (K : Db → Prog Db Row Err Ext α → Prop) : Prog Db Row Err Ext α → Prop
  | .throw _ => True
  | .select k => ∀ db, D db → (k db).opens r D K
  | .flush _ k => k.opens r D K
  | .lock r' k => r' = r ∧ ∀ db, D db → K db (k db)
  | _ => False

section

variable {r : Row} {D : Db → Prop}

theorem opens_bind {S : Err → Prop} {K : Db → Prog Db Row Err Ext β → Prop} {p : Prog Db Row Err Ext α}
    {f : α → Prog Db Row Err Ext β} (hp : p.Reads S) (hf : ∀ a, p.Yields D a → (f a).opens r D K) :
    (p >>= f).opens r D K := by
  obtain ⟨hops⟩ := hp
  rw [bind_eq]
  induction p with
  | pure a => exact hf a .pure
  | throw e => trivial
  | select k ih => exact fun db hdb => ih db (fun a ha => hf a (.select db hdb ha)) (hops db)
  | lock r k => cases hops
  | stage w k => cases hops
  | flush e k => cases hops
  | insert w k => cases hops
  | send x k => cases hops

theorem opens_require {K : Db → Prog Db Row Err Ext α → Prop} {c : Bool} {e : Err} {f : Unit → Prog Db Row Err Ext α}
    (h : c = true → (f ()).opens r D K) : (require c e >>= f).opens r D K := by
  cases c with
  | true => exact h rfl
  | false => trivial

theorem opens_reported {K : Db → Prog Db Row Err (Ext ⊕ α) Unit → Prop} {p : Prog Db Row Err Ext α}
    (h : p.opens r D fun db q => K db q.reported) : p.reported.opens r D K := by
  induction p with
  | pure a => cases h
  | throw e => trivial
  | select k ih => exact fun db hdb => ih db (h db hdb)
  | lock r k => exact h
  | stage w k => cases h
  | flush e k ih => exact ih h
  | insert w k => cases h
  | send x k => cases h

end

end Prog

namespace Sys

variable {ι κ : Type} [DecidableEq ι] [DecidableEq Row]

/-! ## Runs -/

/-- The action takes no transaction back: none is aborted, none raises
anything but a refusal, and no write meets a constraint. -/
def Calm (refusal : Err → Bool) (s : Sys ι κ Db Row Err Ext) : Act ι κ → Prop
  | .start _ _ => True
  | .abort _ => False
  | .step i => ∀ t, s.threads i = some t →
    (∀ e, t.prog = .throw e → refusal e = true) ∧
    ∀ w ws, t.staged = w :: ws → (∃ e k, t.prog = .flush e k) ∨ (∃ a, t.prog = .pure a) →
      w.admits (view t.pending s.db) = true

variable (code : κ → Prog Db Row Err Ext Unit) (ok : κ → Prop) (refusal : Err → Bool) (calm : Prop)

/-- The states of every interleaving of calls with `ok`, all of whose actions
are calm where that is asked for. -/
inductive Run (s₀ : Sys ι κ Db Row Err Ext) : Sys ι κ Db Row Err Ext → Prop
  | refl : Run s₀ s₀
  | next {s s' a} : Run s₀ s → (∀ i c, a = .start i c → ok c) → (calm → s.Calm refusal a) →
      s.act code a = some s' → Run s₀ s'

/-- Whether an action is calm, computed. -/
def isCalm (s : Sys ι κ Db Row Err Ext) : Act ι κ → Bool
  | .start _ _ => true
  | .abort _ => false
  | .step i =>
    match s.threads i with
    | none => true
    | some t =>
      match t.prog, t.staged with
      | .throw e, _ => refusal e
      | .flush _ _, w :: _ => w.admits (view t.pending s.db)
      | .pure _, w :: _ => w.admits (view t.pending s.db)
      | _, _ => true

/-- A schedule, of which the actions that are not calm or not possible are left out. -/
def calmly (s : Sys ι κ Db Row Err Ext) (as : List (Act ι κ)) : Sys ι κ Db Row Err Ext :=
  as.foldl (fun s a => if s.isCalm refusal a then (s.act code a).getD s else s) s

section

variable {code ok refusal calm}

omit [DecidableEq ι] [DecidableEq Row] in
theorem Calm.of_isCalm {s : Sys ι κ Db Row Err Ext} {a : Act ι κ} (h : s.isCalm refusal a = true) : s.Calm refusal a := by
  cases a with
  | start i c => trivial
  | abort i => cases h
  | step i =>
    intro t ht
    simp only [isCalm, ht] at h
    refine ⟨fun e he => ?_, fun w ws hst hends => ?_⟩
    · simpa only [he] using h
    · rcases hends with ⟨e, k, he⟩ | ⟨a, he⟩ <;> simpa only [he, hst] using h

/-- Every schedule of allowed calls, so played, is a run. -/
theorem calmly_run {s₀ s : Sys ι κ Db Row Err Ext} {as : List (Act ι κ)} (h : Run code ok refusal calm s₀ s)
    (hok : ∀ i c, Act.start i c ∈ as → ok c) : Run code ok refusal calm s₀ (s.calmly code refusal as) := by
  induction as generalizing s with
  | nil => exact h
  | cons a as ih =>
    refine ih ?_ fun i c hm => hok i c (List.mem_cons_of_mem _ hm)
    dsimp only
    split
    · next hcalm =>
      cases hact : s.act code a with
      | none => exact h
      | some s' => exact .next h (fun i c ha => hok i c (ha ▸ List.mem_cons_self)) (fun _ => .of_isCalm hcalm) hact
    · exact h

end

/-! ## Turns -/

variable (r : Row) (D : Db → Prop) (I : Db → List Ext → Prop)

/-- What the holder of the row leaves behind: `I`, unless it is taken back. -/
def Leaves (db : Db) (p : Prog Db Row Err Ext Unit) (s : Session Db Row Ext) : Prop :=
  p.wp (fun _ s' => ∀ db', flushAll s'.staged s'.db = some db' → I db' s'.sent)
    (fun e s' => calm → refusal e = true → I db s'.sent) s

/-- From the lock on, whatever has been sent before. -/
def Serves (db : Db) (p : Prog Db Row Err Ext Unit) : Prop :=
  ∀ sent, I db sent → Leaves refusal calm I db p ⟨db, [], sent⟩

variable {refusal calm} in
omit [DecidableEq Row] in
/-- What one session alone ensures, a transaction that says its result ensures. -/
theorem serves_reported {I : Db → List (Ext ⊕ α) → Prop} {db : Db} {p : Prog Db Row Err Ext α}
    (h : ∀ said, I db said → p.wp
      (fun a s => ∀ db', flushAll s.staged s.db = some db' → I db' (said ++ s.sent.map .inl ++ [.inr a]))
      (fun e s => calm → refusal e = true → I db (said ++ s.sent.map .inl)) { db := db }) :
    Serves refusal calm I db p.reported := by
  intro said hsaid
  have hafter : (⟨db, [], said⟩ : Session Db Row (Ext ⊕ α)) = Session.after said { db := db } := by simp [Session.after]
  rw [hafter]
  exact Prog.wp_reported (h said hsaid)

/-- A transaction that has not asked for the row yet. -/
structure Waiting (t : Thread κ Db Row Err Ext) : Prop where
  staged : t.staged = []
  pending : t.pending = []
  reads : t.prog.opens r (fun db => D db ∧ ∃ sent, I db sent) (Serves refusal calm I)

/-- Whose turn it is: the holder of the row, if there is one, is on its way
alone, and everyone else is reading. -/
structure Turn (holder : Option ι) (s : Sys ι κ Db Row Err Ext) : Prop where
  owner : ∀ r' j, s.owner r' = some j → holder = some j
  before : ∃ sent, I s.db sent
  free : holder = none → I s.db s.sent
  held : ∀ i, holder = some i → s.owner r = some i ∧ ∃ t, s.threads i = some t ∧
    Leaves refusal calm I s.db t.prog ⟨view t.pending s.db, t.staged, s.sent⟩
  waiting : ∀ j u, holder ≠ some j → s.threads j = some u → Waiting refusal calm r D I u

variable {code ok refusal calm r D I} {s s' : Sys ι κ Db Row Err Ext} {holder : Option ι}

/-- The step of a transaction that reads: nobody notices, or it takes the row. -/
inductive Reading (refusal : Err → Bool) (calm : Prop) (r : Row) (D : Db → Prop) (I : Db → List Ext → Prop)
    (s : Sys ι κ Db Row Err Ext) (j : ι) (s' : Sys ι κ Db Row Err Ext) : Prop
  | reads {u} : Waiting refusal calm r D I u → s' = s.put j u → Reading refusal calm r D I s j s'
  | ends : s' = s.finish j s.db → Reading refusal calm r D I s j s'
  | takes {u} : s.free j [r] = true → u.staged = [] → u.pending = [] →
      Serves refusal calm I s.db u.prog → s' = (s.take j [r]).put j u → Reading refusal calm r D I s j s'

theorem Waiting.step {j : ι} {u : Thread κ Db Row Err Ext} (hu : Waiting refusal calm r D I u)
    (hj : s.threads j = some u) (hD : D s.db ∧ ∃ sent, I s.db sent) (h : s.step j = some s') :
    Reading refusal calm r D I s j s' := by
  obtain ⟨call, prog, staged, pending, seen⟩ := u
  obtain ⟨hst, hpend, hreads⟩ := hu
  dsimp only at hst hpend hreads
  subst hst hpend
  simp only [Sys.step, hj] at h
  cases prog with
  | pure a => cases hreads
  | throw e => exact .ends (by simpa using h.symm)
  | select k =>
    simp only [view_nil, Option.some.injEq] at h
    exact .reads ⟨rfl, rfl, hreads _ hD⟩ h.symm
  | lock r' k =>
    obtain ⟨rfl, hserves⟩ := hreads
    simp only [view_nil] at h
    split at h
    · next hfree =>
      simp only [Option.some.injEq] at h
      exact .takes hfree rfl rfl (hserves _ hD) h.symm
    · cases h
  | stage w k => cases hreads
  | flush e k =>
    simp only [Option.some.injEq] at h
    exact .reads ⟨rfl, rfl, hreads⟩ h.symm
  | insert w k => cases hreads
  | send x k => cases hreads

/-- The step of the transaction that holds the row: it goes on alone, or it
ends and leaves tables with `I`. -/
inductive Holding (refusal : Err → Bool) (calm : Prop) (I : Db → List Ext → Prop)
    (s : Sys ι κ Db Row Err Ext) (i : ι) (s' : Sys ι κ Db Row Err Ext) : Prop
  | goes {t} : s'.db = s.db → s'.threads = Function.update s.threads i (some t) →
      (∀ r', s'.owner r' = s.owner r' ∨ s'.owner r' = some i) →
      Leaves refusal calm I s.db t.prog ⟨view t.pending s.db, t.staged, s'.sent⟩ → Holding refusal calm I s i s'
  | ends {db} : I db s.sent → s' = s.finish i db → Holding refusal calm I s i s'

omit [DecidableEq ι] in
theorem owner_take (i : ι) (rows : List Row) (r' : Row) :
    (s.take i rows).owner r' = s.owner r' ∨ (s.take i rows).owner r' = some i := by
  simp only [take]
  split
  · exact .inr rfl
  · exact .inl rfl

/-- The next staged statement of the holder. -/
theorem writeNext_holding {i : ι} {t : Thread κ Db Row Err Ext} {w : Stmt Db Row} {ws : List (Stmt Db Row)}
    (hI : ∃ sent, I s.db sent) (hloose : ¬ calm → ∀ sent sent', I s.db sent → I s.db sent')
    (hcalm : calm → w.admits (view t.pending s.db) = true)
    (h : w.admits (view t.pending s.db) = true →
      Leaves refusal calm I s.db t.prog ⟨w.apply (view t.pending s.db), ws, s.sent⟩)
    (hw : s.writeNext i t w ws = some s') : Holding refusal calm I s i s' := by
  unfold writeNext at hw
  split at hw
  case isFalse => cases hw
  split at hw
  · next hadmits =>
    cases hw
    refine .goes (t := { t with staged := ws, pending := t.pending ++ [w] }) rfl rfl (owner_take i w.rows) ?_
    simp only [view_append]
    exact h hadmits
  · next hrefused =>
    cases hw
    obtain ⟨sent, hsent⟩ := hI
    exact .ends (hloose (fun hc => hrefused (hcalm hc)) sent _ hsent) rfl

theorem Leaves.step {i : ι} {t : Thread κ Db Row Err Ext} (hi : s.threads i = some t) (hI : ∃ sent, I s.db sent)
    (hl : Leaves refusal calm I s.db t.prog ⟨view t.pending s.db, t.staged, s.sent⟩)
    (hloose : ¬ calm → ∀ sent sent', I s.db sent → I s.db sent') (hcalm : calm → s.Calm refusal (.step i))
    (h : s.step i = some s') : Holding refusal calm I s i s' := by
  obtain ⟨call, prog, staged, pending, seen⟩ := t
  dsimp only at hl
  simp only [Sys.step, hi] at h
  cases prog with
  | pure a =>
    have hl : ∀ db', flushAll staged (view pending s.db) = some db' → I db' s.sent := hl
    cases staged with
    | nil => exact .ends (hl _ rfl) (by simpa using h.symm)
    | cons w ws =>
      refine writeNext_holding hI hloose (fun hc => (hcalm hc _ hi).2 w ws rfl (.inr ⟨a, rfl⟩)) (fun ha => ?_) h
      exact fun db' hf => hl db' (by rwa [flushAll_cons ha])
  | throw e =>
    have hl : calm → refusal e = true → I s.db s.sent := hl
    refine .ends ?_ (by simpa using h.symm)
    by_cases hc : calm
    · exact hl hc ((hcalm hc _ hi).1 e rfl)
    · obtain ⟨sent, hsent⟩ := hI
      exact hloose hc sent _ hsent
  | select k =>
    simp only [Option.some.injEq] at h
    subst h
    exact .goes rfl rfl (fun _ => .inl rfl) hl
  | lock r' k =>
    dsimp only at h
    split at h
    · simp only [Option.some.injEq] at h
      subst h
      exact .goes rfl rfl (owner_take i [r']) hl
    · cases h
  | stage w k =>
    simp only [Option.some.injEq] at h
    subst h
    exact .goes rfl rfl (fun _ => .inl rfl) hl
  | flush e k =>
    cases staged with
    | nil =>
      simp only [Option.some.injEq] at h
      subst h
      exact .goes rfl rfl (fun _ => .inl rfl) hl
    | cons w ws =>
      refine writeNext_holding hI hloose (fun hc => (hcalm hc _ hi).2 w ws rfl (.inl ⟨e, k, rfl⟩)) (fun ha => ?_) h
      simp only [Leaves, Prog.wp, Prog.run, flushAll_cons ha] at hl ⊢
      cases hf : flushAll ws (w.apply (view pending s.db)) with
      | none => simpa only [hf] using hl
      | some db => simpa only [hf] using hl
  | insert w k =>
    simp only [Leaves, Prog.wp, Prog.run] at hl
    dsimp only at h
    split at h
    case isFalse => cases h
    split at h
    · next ha =>
      simp only [Option.some.injEq] at h
      subst h
      simp only [ha, if_true] at hl
      refine .goes (t := ⟨call, k true, staged, pending ++ [w], seen⟩) rfl rfl (owner_take i w.rows) ?_
      simp only [view_append]
      exact hl
    · next ha =>
      simp only [Option.some.injEq] at h
      subst h
      simp only [ha, if_false, Bool.false_eq_true] at hl
      exact .goes (t := ⟨call, k false, staged, pending, seen⟩) rfl rfl (owner_take i w.rows) hl
  | send x k =>
    simp only [Option.some.injEq] at h
    subst h
    exact .goes rfl rfl (fun _ => .inl rfl) hl

/-! ## Every interleaving -/

omit [DecidableEq Row] in
/-- A step of `j` that commits nothing and takes nothing. -/
theorem Turn.put (h : Turn refusal calm r D I holder s) {j : ι} {u : Thread κ Db Row Err Ext}
    (hj : holder ≠ some j) (hu : Waiting refusal calm r D I u) : Turn refusal calm r D I holder (s.put j u) where
  owner := h.owner
  before := h.before
  free := h.free
  held i hi := by
    obtain ⟨hr, t, ht, hl⟩ := h.held i hi
    have hij : i ≠ j := fun he => hj (he ▸ hi)
    exact ⟨hr, t, (Function.update_of_ne hij _ _).trans ht, hl⟩
  waiting k v hk hv := by
    simp only [Sys.put] at hv
    by_cases hkj : k = j
    · subst hkj
      rw [Function.update_self] at hv
      exact Option.some.inj hv ▸ hu
    · rw [Function.update_of_ne hkj] at hv
      exact h.waiting k v hk hv

omit [DecidableEq Row] in
theorem finish_threads {i j : ι} {db : Db} {u : Thread κ Db Row Err Ext} (h : (s.finish i db).threads j = some u) :
    j ≠ i ∧ s.threads j = some u := by
  simp only [finish] at h
  by_cases hj : j = i
  · subst hj; simp at h
  · exact ⟨hj, by rwa [Function.update_of_ne hj] at h⟩

omit [DecidableEq Row] in
/-- A transaction without the row ends. -/
theorem Turn.ends (h : Turn refusal calm r D I holder s) {j : ι} (hj : holder ≠ some j) :
    Turn refusal calm r D I holder (s.finish j s.db) where
  owner r' k hk := by
    simp only [finish] at hk
    split at hk
    · cases hk
    · exact h.owner r' k hk
  before := h.before
  free := h.free
  held i hi := by
    obtain ⟨hr, t, ht, hl⟩ := h.held i hi
    have hij : i ≠ j := fun he => hj (he ▸ hi)
    refine ⟨?_, t, (Function.update_of_ne hij _ _).trans ht, hl⟩
    simp only [finish, hr, Option.some.injEq, if_neg hij]
  waiting k v hk hv := h.waiting k v hk (finish_threads hv).2

/-- The row goes to a transaction that asks for it when it is free. -/
theorem Turn.take (h : Turn refusal calm r D I .none s) {j : ι} {u : Thread κ Db Row Err Ext} (hst : u.staged = [])
    (hpend : u.pending = []) (hs : Serves refusal calm I s.db u.prog) :
    Turn refusal calm r D I (.some j) ((s.take j [r]).put j u) where
  owner r' k hk := by
    obtain he | he := owner_take (s := s) j [r] r'
    · cases h.owner r' k (he.symm.trans hk)
    · exact he.symm.trans hk
  before := h.before
  free hn := nomatch hn
  held i hi := by
    obtain rfl := Option.some.inj hi
    refine ⟨by simp [Sys.put, Sys.take], u, Function.update_self .., ?_⟩
    rw [hst, hpend]
    exact hs _ (h.free rfl)
  waiting k v hk hv := by
    have hkj : k ≠ j := fun he => hk (he ▸ rfl)
    simp only [Sys.put, Function.update_of_ne hkj] at hv
    exact h.waiting k v nofun hv

omit [DecidableEq Row] in
/-- The holder goes on, or gives the row back. -/
theorem Turn.hold {i : ι} (h : Turn refusal calm r D I (.some i) s) (hs : Holding refusal calm I s i s') :
    ∃ holder', Turn refusal calm r D I holder' s' := by
  cases hs with
  | @goes t hdb hthreads howner hl =>
    refine ⟨.some i, fun r' j hj => ?_, hdb ▸ h.before, nofun, fun k hk => ?_, fun k v hk hv => ?_⟩
    · obtain he | he := howner r'
      · exact h.owner r' j (he.symm.trans hj)
      · exact he.symm.trans hj
    · obtain rfl := Option.some.inj hk
      refine ⟨?_, t, by rw [hthreads, Function.update_self], by rw [hdb]; exact hl⟩
      exact (howner r).elim (fun he => he.trans (h.held i rfl).1) id
    · have hki : k ≠ i := fun he => hk (he ▸ rfl)
      rw [hthreads, Function.update_of_ne hki] at hv
      exact h.waiting k v hk hv
  | @ends db hI hfin =>
    subst hfin
    refine ⟨.none, fun r' j hj => ?_, ⟨_, hI⟩, fun _ => hI, nofun, fun k v _ hv => ?_⟩
    · simp only [finish] at hj
      split at hj
      · cases hj
      · next hne => exact absurd ((h.owner r' j hj) ▸ hj) hne
    · obtain ⟨hki, hv⟩ := finish_threads hv
      exact h.waiting k v (fun he => hki (Option.some.inj he).symm) hv

theorem Turn.step (h : Turn refusal calm r D I holder s) (hD : D s.db)
    (hloose : ¬ calm → ∀ db sent sent', I db sent → I db sent') {i : ι} (hcalm : calm → s.Calm refusal (.step i))
    (hs : s.step i = some s') : ∃ holder', Turn refusal calm r D I holder' s' := by
  cases hi : s.threads i with
  | none => simp [Sys.step, hi] at hs
  | some t =>
    by_cases hh : holder = some i
    · subst hh
      obtain ⟨_, t', ht', hl⟩ := h.held i rfl
      exact h.hold (hl.step ht' h.before (fun hc => hloose hc _) hcalm hs)
    · cases (h.waiting i t hh hi).step hi ⟨hD, h.before⟩ hs with
      | reads hu hput => exact ⟨holder, hput ▸ h.put hh hu⟩
      | ends hend => exact ⟨holder, hend ▸ h.ends hh⟩
      | takes hfree hst hpend hserves htake =>
        -- the row is free, so nobody holds it
        have hnone : holder = none := by
          cases hholder : holder with
          | none => rfl
          | some k =>
            have hrow := (h.held k hholder).1
            have hki : k ≠ i := fun he => hh (he ▸ hholder)
            simp [Sys.free, hrow, hki] at hfree
        subst hnone
        exact ⟨.some i, htake ▸ h.take hst hpend hserves⟩

theorem Turn.act (h : Turn refusal calm r D I holder s) (hD : D s.db)
    (hcode : ∀ c, ok c → (code c).opens r (fun db => D db ∧ ∃ sent, I db sent) (Serves refusal calm I))
    (hloose : ¬ calm → ∀ db sent sent', I db sent → I db sent') {a : Act ι κ}
    (hok : ∀ i c, a = .start i c → ok c) (hcalm : calm → s.Calm refusal a) (hs : s.act code a = some s') :
    ∃ holder', Turn refusal calm r D I holder' s' := by
  cases a with
  | start i c =>
    simp only [Sys.act] at hs
    split at hs
    · next hnone =>
      cases hs
      have hh : holder ≠ some i := by
        intro he
        obtain ⟨_, t, ht, _⟩ := h.held i he
        rw [ht] at hnone
        cases hnone
      exact ⟨holder, h.put hh ⟨rfl, rfl, hcode c (hok i c rfl)⟩⟩
    · cases hs
  | step i => exact h.step hD hloose hcalm hs
  | abort i =>
    cases hs
    by_cases hh : holder = some i
    · subst hh
      obtain ⟨sent, hI⟩ := h.before
      exact h.hold (.ends (hloose (fun hc => hcalm hc) _ _ _ hI) rfl)
    · exact ⟨holder, h.ends hh⟩

/-- **Transactions that take turns.** In every state of every interleaving of
calls that read before they lock `r`, at most one is past the lock, on its
way alone; while none is, what is committed and what has been sent meet `I`.
The reads need only be right for tables that are committed at some time. -/
theorem Run.turn {s₀ : Sys ι κ Db Row Err Ext} (h : Run code ok refusal calm s₀ s)
    (hstart : s₀.owner = fun _ => none) (hidle : s₀.threads = fun _ => none) (hI : I s₀.db s₀.sent)
    (hD : ∀ s, Run code ok refusal calm s₀ s → D s.db)
    (hcode : ∀ c, ok c → (code c).opens r (fun db => D db ∧ ∃ sent, I db sent) (Serves refusal calm I))
    (hloose : ¬ calm → ∀ db sent sent', I db sent → I db sent') : ∃ holder, Turn refusal calm r D I holder s := by
  induction h with
  | refl =>
    exact ⟨.none, by simp [hstart], ⟨_, hI⟩, fun _ => hI, nofun, by simp [hidle]⟩
  | next hrun hok hcalm hact ih =>
    obtain ⟨holder, ih⟩ := ih
    exact ih.act (hD _ hrun) hcode hloose hok hcalm hact

end Sys

end Txn
