/-
Runs of calls, one after the other, each committed or rolled back by its
caller: what every call keeps, the run keeps.
-/
import Falaron.Txn.Prog

namespace Txn

variable {Db Row Err Ext α σ : Type}

/-- The run rule: `I` holds all along a run whose steps keep it, each where `ok` says it may be taken. -/
theorem foldl_keeps {step : σ → α → σ} {I : σ → Prop} {ok : σ → α → Prop}
    (hstep : ∀ s a, I s → ok s a → I (step s a)) {s : σ} {as : List α} (hs : I s)
    (hok : ∀ done a rest, as = done ++ a :: rest → ok (done.foldl step s) a) : I (as.foldl step s) := by
  induction as generalizing s with
  | nil => exact hs
  | cons a as ih =>
    refine ih (hstep s a hs (hok [] a as rfl)) fun done b rest h => ?_
    exact hok (a :: done) b rest (by rw [h, List.cons_append])

/-- The run rule for the states on the way. -/
theorem prefixes_keep {step : σ → α → σ} {I : σ → Prop} {ok : σ → α → Prop}
    (hstep : ∀ s a, I s → ok s a → I (step s a)) {s : σ} {as : List α} (hs : I s)
    (hok : ∀ done a, done ++ [a] <+: as → ok (done.foldl step s) a) {done : List α} (hdone : done <+: as) :
    I (done.foldl step s) := by
  refine foldl_keeps hstep hs fun front a rest h => hok front a ?_
  exact List.IsPrefix.trans ⟨rest, by simp [h]⟩ hdone

/-- The run rule for what depends on the steps taken: `I` holds at the end if each step adds itself to it. -/
theorem foldl_through {step : σ → α → σ} {I : List α → σ → Prop} {as : List α} {s : σ} (hs : I [] s)
    (hstep : ∀ done a rest s, as = done ++ a :: rest → I done s → I (done ++ [a]) (step s a)) :
    I as (as.foldl step s) := by
  have hloop (rest done : List α) (s : σ) (heq : as = done ++ rest) (hs : I done s) : I as (rest.foldl step s) := by
    induction rest generalizing done s with
    | nil =>
      rw [heq, List.append_nil]
      exact hs
    | cons a rest ih =>
      refine ih (done ++ [a]) (step s a) ?_ (hstep done a rest s heq hs)
      rw [heq, List.append_assoc, List.singleton_append]
  exact hloop as [] s rfl hs

/-- What is to be shown of every step of a run that is written out. -/
theorem forall_steps {P : List α → α → Prop} (as : List α) (hP : ∀ n : Fin as.length, P (as.take n) as[n])
    (done : List α) (a : α) (h : done ++ [a] <+: as) : P done a := by
  obtain ⟨rest, rfl⟩ := h
  have hstep := hP ⟨done.length, by simp⟩
  simpa using hstep

namespace Prog

/-- A program that ends with nothing staged commits what it ends with. -/
theorem commit_of_ended {p : Prog Db Row Err Ext α} {caught : Err → Bool} {db : Db} {P : Db → Prop} (h0 : P db)
    (h : p.wp (fun _ s => s.staged = [] ∧ P s.db) (fun e s => caught e = true → s.staged = [] ∧ P s.db)
      { db := db }) : P (p.commit caught db) := by
  have hend : ∀ s : Session Db Row Ext, s.staged = [] ∧ P s.db → P ((flushAll s.staged s.db).getD db) := by
    rintro s ⟨hst, hs⟩
    rw [hst]
    exact hs
  exact commit_of_wp h0 (wp_mono h (fun _ s hs => hend s hs) fun _ s hs hc => hend s (hs hc))

/-- A program that raises nothing commits what its session ends with. -/
theorem commit_of_ok {p : Prog Db Row Err Ext α} {caught : Err → Bool} {db : Db} {P : Db → Prop}
    (h : p.wp (fun _ s => P ((flushAll s.staged s.db).getD db)) (fun _ _ => False) { db := db }) :
    P (p.commit caught db) := by
  unfold commit
  split
  · next hr => exact wp_ok h hr
  · next hr => exact (wp_error h hr).elim

end Prog

end Txn
