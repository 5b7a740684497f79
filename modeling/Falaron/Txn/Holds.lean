/-
What a program keeps of its session.

`Holds J` says of a program that it ends with `J` when it starts with it,
whether it ends in a result or in an error. Where the statements of `Writes`
have to keep a property one by one, a program that holds one may break it
between two of its writes.
-/
import Falaron.Txn.Frame

namespace Txn

variable {Db Row Err Ext α β γ : Type}

namespace Prog

structure Holds (J : Session Db Row Ext → Prop) (p : Prog Db Row Err Ext α) : Prop where
  ends : ∀ s, J s → J (p.run s).2

section

variable {J : Session Db Row Ext → Prop} {p : Prog Db Row Err Ext α} {f : α → Prog Db Row Err Ext β}

theorem Holds.of_wp (h : ∀ s, J s → p.wp (fun _ s' => J s') (fun _ s' => J s') s) : p.Holds J := by
  refine ⟨fun s hs => ?_⟩
  have hend := h s hs
  cases hr : p.run s with
  | mk r s' =>
    cases r with
    | ok a => exact wp_ok hend hr
    | error e => exact wp_error hend hr

theorem Holds.wp (h : p.Holds J) {s : Session Db Row Ext} (hs : J s) :
    p.wp (fun _ s' => J s') (fun _ s' => J s') s := by
  have hend := h.ends s hs
  refine wp_of_run (fun a s' hr => ?_) fun e s' hr => ?_
  · rwa [hr] at hend
  · rwa [hr] at hend

theorem Holds.pure (a : α) : (.pure a : Prog Db Row Err Ext α).Holds J := ⟨fun _ hs => hs⟩

theorem Holds.throw (e : Err) : (.throw e : Prog Db Row Err Ext α).Holds J := ⟨fun _ hs => hs⟩

theorem Holds.query (q : Db → α) : (Prog.query q : Prog Db Row Err Ext α).Holds J := ⟨fun _ hs => hs⟩

theorem Holds.lockRow (r : Row) (q : Db → α) : (Prog.lockRow r q : Prog Db Row Err Ext α).Holds J :=
  ⟨fun _ hs => hs⟩

theorem Holds.require (c : Bool) (e : Err) : (Prog.require c e : Prog Db Row Err Ext Unit).Holds J := by
  cases c
  · exact .throw e
  · exact .pure ()

theorem Holds.bind (h : p.Holds J) (hf : ∀ a, (f a).Holds J) : (p >>= f).Holds J := by
  refine .of_wp fun s hs => ?_
  rw [wp_bind]
  exact wp_mono (h.wp hs) (fun a s' hs' => (hf a).wp hs') fun _ _ hs' => hs'

theorem Holds.ite {c : Prop} [Decidable c] {q : Prog Db Row Err Ext α} (hp : p.Holds J) (hq : q.Holds J) :
    (if c then p else q).Holds J := by
  split
  · exact hp
  · exact hq

theorem Holds.forEach {f : β → Prog Db Row Err Ext Unit} (hf : ∀ b, (f b).Holds J) (l : List β) :
    (Prog.forEach f l).Holds J := by
  induction l with
  | nil => exact .pure ()
  | cons b l ih => exact .bind (hf b) fun _ => ih

theorem Holds.collect {f : β → Prog Db Row Err Ext (List γ)} (hf : ∀ b, (f b).Holds J) (l : List β) :
    (Prog.collect f l).Holds J := by
  induction l with
  | nil => exact .pure []
  | cons b l ih => exact .bind (hf b) fun _ => .bind ih fun _ => .pure _

end

/-! ## A property of the database, and what may be staged -/

section

variable {P : Stmt Db Row → Prop} {I : Db → Prop} {p : Prog Db Row Err Ext α}

/-- What keeps the property statement by statement holds it. -/
theorem Writes.holds (hP : ∀ w, P w → w.Keeps I) (h : p.Writes P) : p.Holds (Session.Kept I P) :=
  ⟨fun _ hs => h.run hP hs⟩

theorem Holds.commit (hP : ∀ w, P w → w.Keeps I) (h : p.Holds (Session.Kept I P)) {db : Db} (hdb : I db)
    (caught : Err → Bool) : I (p.commit caught db) := by
  have hend (s : Session Db Row Ext) (hs : s.Kept I P) : I ((flushAll s.staged s.db).getD db) := by
    cases hf : flushAll s.staged s.db with
    | none => exact hdb
    | some db' => exact hs.will hP hf
  exact commit_of_wp hdb (wp_mono (h.wp ⟨hdb, by simp⟩) (fun _ s hs => hend s hs) fun _ s hs _ => hend s hs)

end

end Prog

end Txn
