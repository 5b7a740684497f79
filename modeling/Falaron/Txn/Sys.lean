/-
Transactions side by side, under read-committed isolation.

Every read sees what is committed at that moment together with what the
transaction has itself flushed. A row lock is taken by `SELECT ... FOR UPDATE`
and by every write, and held until the transaction ends; a step that needs a
row another transaction holds waits. A unique key is a row too: who inserts
under a key makes the next one wait, and that one is then refused if the
first has committed. A transaction may be rolled back at any point.
-/
import Falaron.Txn.Prog

namespace Txn

/-- A transaction under way: the call it serves, what is left of its
program, what it has staged and what it has flushed, and the committed
databases its reads have seen, newest first. -/
structure Thread (κ Db Row Err Ext : Type) where
  call : κ
  prog : Prog Db Row Err Ext Unit
  staged : List (Stmt Db Row) := []
  pending : List (Stmt Db Row) := []
  seen : List Db := []

structure Sys (ι κ Db Row Err Ext : Type) where
  db : Db
  sent : List Ext := []
  owner : Row → Option ι := fun _ => none
  threads : ι → Option (Thread κ Db Row Err Ext) := fun _ => none

inductive Act (ι κ : Type) where
  | start (i : ι) (c : κ)
  | step (i : ι)
  | abort (i : ι)

variable {ι κ Db Row Err Ext : Type}

/-- The committed database with a transaction's own writes on top. -/
def view (pending : List (Stmt Db Row)) (db : Db) : Db := pending.foldl (fun d w => w.apply d) db

@[simp] theorem view_nil (db : Db) : view ([] : List (Stmt Db Row)) db = db := rfl

@[simp] theorem view_append (P : List (Stmt Db Row)) (w : Stmt Db Row) (db : Db) :
    view (P ++ [w]) db = w.apply (view P db) := by simp [view, List.foldl_append]

/-- The rows the next step of a transaction asks for. -/
def Thread.takes (t : Thread κ Db Row Err Ext) : List Row :=
  match t.prog with
  | .lock r _ => [r]
  | .insert w _ => w.rows
  | .flush _ _ | .pure _ => (t.staged.head?.map (·.rows)).getD []
  | _ => []

namespace Sys

variable [DecidableEq ι] [DecidableEq Row]

def free (s : Sys ι κ Db Row Err Ext) (i : ι) (rows : List Row) : Bool :=
  rows.all fun r => s.owner r == none || s.owner r == some i

def put (s : Sys ι κ Db Row Err Ext) (i : ι) (t : Thread κ Db Row Err Ext) : Sys ι κ Db Row Err Ext :=
  { s with threads := Function.update s.threads i (some t) }

def take (s : Sys ι κ Db Row Err Ext) (i : ι) (rows : List Row) : Sys ι κ Db Row Err Ext :=
  { s with owner := fun r => if r ∈ rows then some i else s.owner r }

/-- The transaction ends with `db` committed: its locks go. -/
def finish (s : Sys ι κ Db Row Err Ext) (i : ι) (db : Db) : Sys ι κ Db Row Err Ext :=
  { s with
    db := db
    owner := fun r => if s.owner r = some i then none else s.owner r
    threads := Function.update s.threads i none }

/-- The next staged statement of `t` goes to the database. A refused one
ends the transaction with nothing committed. -/
def writeNext (s : Sys ι κ Db Row Err Ext) (i : ι) (t : Thread κ Db Row Err Ext) (w : Stmt Db Row)
    (ws : List (Stmt Db Row)) : Option (Sys ι κ Db Row Err Ext) :=
  if s.free i w.rows then
    if w.admits (view t.pending s.db) then
      some ((s.take i w.rows).put i { t with staged := ws, pending := t.pending ++ [w] })
    else some (s.finish i s.db)
  else none

/-- The next step of transaction `i`; `none` when it has to wait. -/
def step (i : ι) (s : Sys ι κ Db Row Err Ext) : Option (Sys ι κ Db Row Err Ext) :=
  match s.threads i with
  | none => none
  | some t =>
    match t.prog with
    | .pure _ =>
      match t.staged with
      | [] => some (s.finish i (view t.pending s.db))
      | w :: ws => s.writeNext i t w ws
    | .throw _ => some (s.finish i s.db)
    | .select k => some (s.put i { t with prog := k (view t.pending s.db), seen := s.db :: t.seen })
    | .lock r k =>
      if s.free i [r] then some ((s.take i [r]).put i { t with prog := k (view t.pending s.db) }) else none
    | .stage w k => some (s.put i { t with prog := k, staged := t.staged ++ [w] })
    | .flush _ k =>
      match t.staged with
      | [] => some (s.put i { t with prog := k })
      | w :: ws => s.writeNext i t w ws
    | .insert w k =>
      if s.free i w.rows then
        if w.admits (view t.pending s.db) then
          some ((s.take i w.rows).put i { t with prog := k true, pending := t.pending ++ [w] })
        else some ((s.take i w.rows).put i { t with prog := k false })
      else none
    | .send x k => some { s.put i { t with prog := k } with sent := s.sent ++ [x] }

variable (code : κ → Prog Db Row Err Ext Unit)

/-- What one action does; `none` when it is not possible now. -/
def act (s : Sys ι κ Db Row Err Ext) : Act ι κ → Option (Sys ι κ Db Row Err Ext)
  | .start i c => if (s.threads i).isNone then some (s.put i { call := c, prog := code c }) else none
  | .step i => s.step i
  | .abort i => some (s.finish i s.db)

/-- The condition an action meets: a started call is one of `ok`, and a step
that takes a row does so where `guard` allows it. -/
def Meets (ok : κ → Prop) (guard : κ → List Db → Row → Db → Prop) (s : Sys ι κ Db Row Err Ext) :
    Act ι κ → Prop
  | .start _ c => ok c
  | .step i => ∀ t, s.threads i = some t → ∀ r ∈ t.takes, guard t.call t.seen r s.db
  | .abort _ => True

/-- The states of every interleaving whose actions all meet the condition. -/
inductive Reach (ok : κ → Prop) (guard : κ → List Db → Row → Db → Prop) (s₀ : Sys ι κ Db Row Err Ext) :
    Sys ι κ Db Row Err Ext → Prop
  | refl : Reach ok guard s₀ s₀
  | next {s s' a} : Reach ok guard s₀ s → s.Meets ok guard a → s.act code a = some s' →
      Reach ok guard s₀ s'

/-- A schedule, action by action. -/
def exec (s : Sys ι κ Db Row Err Ext) (as : List (Act ι κ)) : Option (Sys ι κ Db Row Err Ext) :=
  as.foldlM (act code) s

/-- A schedule runs the code of the calls it starts, and no other. -/
theorem exec_congr (code' : κ → Prog Db Row Err Ext Unit) {s : Sys ι κ Db Row Err Ext} {as : List (Act ι κ)}
    (h : ∀ i c, Act.start i c ∈ as → code c = code' c) : s.exec code as = s.exec code' as := by
  induction as generalizing s with
  | nil => rfl
  | cons a as ih =>
    have hact : s.act code a = s.act code' a := by
      cases a with
      | start i c => rw [act, act, h i c List.mem_cons_self]
      | step i => rfl
      | abort i => rfl
    simp only [exec, List.foldlM_cons, hact]
    exact bind_congr fun s₁ => ih fun i c hm => h i c (List.mem_cons_of_mem a hm)

/-- Every schedule of allowed calls is an interleaving. -/
theorem exec_reach {ok : κ → Prop} {s₀ s s' : Sys ι κ Db Row Err Ext} {as : List (Act ι κ)}
    (hs : Reach code ok (fun _ _ _ _ => True) s₀ s) (hok : ∀ i c, Act.start i c ∈ as → ok c)
    (h : s.exec code as = some s') : Reach code ok (fun _ _ _ _ => True) s₀ s' := by
  induction as generalizing s with
  | nil =>
    simp only [exec, List.foldlM_nil, Option.pure_def, Option.some.injEq] at h
    exact h ▸ hs
  | cons a as ih =>
    simp only [exec, List.foldlM_cons, Option.bind_eq_bind] at h
    obtain ⟨s₁, h₁, h₂⟩ := Option.bind_eq_some_iff.mp h
    refine ih (.next hs ?_ h₁) (fun i c hm => hok i c (by simp [hm])) h₂
    cases a with
    | start i c => exact hok i c (by simp)
    | step i => exact fun _ _ _ _ => trivial
    | abort i => trivial

/-- The condition, where it can be computed. -/
def meets (g : κ → List Db → Row → Db → Bool) (s : Sys ι κ Db Row Err Ext) : Act ι κ → Bool
  | .step i => (s.threads i).all fun t => t.takes.all fun r => g t.call t.seen r s.db
  | _ => true

/-- A schedule whose steps all meet the condition. -/
def execIf (g : κ → List Db → Row → Db → Bool) (s : Sys ι κ Db Row Err Ext) (as : List (Act ι κ)) :
    Option (Sys ι κ Db Row Err Ext) :=
  as.foldlM (fun s a => if s.meets g a then s.act code a else none) s

theorem execIf_reach {ok : κ → Prop} {guard : κ → List Db → Row → Db → Prop} {g : κ → List Db → Row → Db → Bool}
    {s₀ s s' : Sys ι κ Db Row Err Ext} {as : List (Act ι κ)} (hg : ∀ c seen r db, g c seen r db = true → guard c seen r db)
    (hs : Reach code ok guard s₀ s) (hok : ∀ i c, Act.start i c ∈ as → ok c) (h : s.execIf code g as = some s') :
    Reach code ok guard s₀ s' := by
  induction as generalizing s with
  | nil =>
    simp only [execIf, List.foldlM_nil, Option.pure_def, Option.some.injEq] at h
    exact h ▸ hs
  | cons a as ih =>
    simp only [execIf, List.foldlM_cons, Option.bind_eq_bind] at h
    obtain ⟨s₁, h₁, h₂⟩ := Option.bind_eq_some_iff.mp h
    split at h₁
    case isFalse => cases h₁
    next hmeets =>
    refine ih (.next hs ?_ h₁) (fun i c hm => hok i c (by simp [hm])) h₂
    cases a with
    | start i c => exact hok i c (by simp)
    | step i =>
      intro t ht r hr
      simp only [meets, ht, Option.all_some, List.all_eq_true] at hmeets
      exact hg _ _ _ _ (hmeets r hr)
    | abort i => trivial

variable {code} in
theorem Reach.trans {ok : κ → Prop} {guard : κ → List Db → Row → Db → Prop} {s₀ s s' : Sys ι κ Db Row Err Ext}
    (h : Reach code ok guard s₀ s) (h' : Reach code ok guard s s') : Reach code ok guard s₀ s' := by
  induction h' with
  | refl => exact h
  | next _ hmeets hact ih => exact .next ih hmeets hact

end Sys

end Txn
