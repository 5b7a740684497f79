/-
What a transaction keeps through others' commits.

A predicate on a transaction and the committed database is steady when
neither a commit by others nor a read of the transaction's own can break it.
Such a predicate goes through every operation that writes nothing.
-/
import Falaron.Txn.Safe

namespace Txn

variable {Db Row Err Ext α β : Type}

structure Steady (R : Rely Db Row) (J : Local Db Row → Db → Prop) : Prop where
  inv : ∀ {t db}, J t db → R.inv db
  interf : ∀ {t db db'}, R.Interf t.locks db db' → J t db → J t db'
  seen : ∀ {t db} (d : Db), J t db → J { t with seen := d :: t.seen } db

namespace Steady

variable {R : Rely Db Row} {guard : List Db → Row → Db → Prop} {J : Local Db Row → Db → Prop}
  {Q : α → Local Db Row → Db → Prop} {E : Err → Local Db Row → Db → Prop} {t : Local Db Row} {db : Db}

/-- What others' commits and reads of its own keep true of what has been read and what is committed. -/
theorem and (hJ : Steady R J) {K : List Db → Db → Prop} (hK : ∀ {l a b}, R.change a b → K l a → K l b)
    (hseen : ∀ {l a} d, K l a → K (d :: l) a) : Steady R fun t db => J t db ∧ K t.seen db where
  inv h := hJ.inv h.1
  interf hi h := ⟨hJ.interf hi h.1, hK hi.change h.2⟩
  seen d h := ⟨hJ.seen d h.1, hseen d h.2⟩

theorem pure (hJ : Steady R J) (h : J t db) {a : α} (hQ : ∀ db', J t db' → Q a t db') :
    (.pure a : Prog Db Row Err Ext α).safe R guard Q E t db := fun db' hi => hQ db' (hJ.interf hi h)

theorem throw (hJ : Steady R J) (h : J t db) {e : Err} (hE : ∀ t' db', J t' db' → E e t' db') :
    (.throw e : Prog Db Row Err Ext α).safe R guard Q E t db := fun db' hi => hE t db' (hJ.interf hi h)

theorem require (hJ : Steady R J) (h : J t db) {c : Bool} {e : Err} {Q : Unit → Local Db Row → Db → Prop}
    (hE : ∀ t' db', J t' db' → E e t' db') (hQ : ∀ db', J t db' → Q () t db') :
    (Prog.require c e : Prog Db Row Err Ext Unit).safe R guard Q E t db :=
  Prog.safe_require (fun _ db' hi => hQ db' (hJ.interf hi h)) fun _ db' hi => hE t db' (hJ.interf hi h)

/-- A read sees one committed database, and its answer is used under a later one. -/
theorem query (hJ : Steady R J) (h : J t db) {q : Db → α}
    (hQ : ∀ db' db'' t', J t' db' → R.Interf t'.locks db' db'' → J t' db'' → t'.staged = t.staged →
      Q (q (t'.view db')) t' db'') :
    (Prog.query q : Prog Db Row Err Ext α).safe R guard Q E t db := by
  refine Prog.safe_query fun db' db'' hi hi' => ?_
  have h' := hJ.seen db' (hJ.interf hi h)
  exact hQ db' db'' { t with seen := db' :: t.seen } h' hi' (hJ.interf hi' h') rfl

theorem bind (hJ : Steady R J) (h : J t db) {p : Prog Db Row Err Ext β} {f : β → Prog Db Row Err Ext α}
    (hp : p.safe R guard (fun b t' db' => (f b).safe R guard Q E t' db') E t db) :
    (p >>= f).safe R guard Q E t db := Prog.safe_bind (hJ.inv h) hp

/-- The loop rule, for a loop that keeps its turns' results: each turn takes `I` from what is left before it
to what is left after it. -/
theorem collect {γ : Type} {f : β → Prog Db Row Err Ext (List γ)} {I : List β → Local Db Row → Db → Prop}
    (hI : ∀ l, Steady R (I l)) {l : List β} (h : I l t db) {Q : List γ → Local Db Row → Db → Prop}
    (hf : ∀ b l t db, I (b :: l) t db → (f b).safe R guard (fun _ t' db' => I l t' db') E t db)
    (hQ : ∀ rs t' db', I [] t' db' → Q rs t' db') : (Prog.collect f l).safe R guard Q E t db := by
  induction l generalizing t db Q with
  | nil => exact (hI []).pure h fun db' h' => hQ _ t db' h'
  | cons b l ih =>
    refine (hI (b :: l)).bind h (Prog.safe_mono (fun r t' db' _ h' => ?_) (fun _ _ _ _ h' => h') ((hI _).inv h)
      (hf b l t db h))
    refine (hI l).bind h' (ih h' fun rs t₂ db₂ h₂ => ?_)
    exact (hI []).pure h₂ fun db₃ h₃ => hQ _ t₂ db₃ h₃

/-- The loop rule: each turn keeps `J`. -/
theorem foldlM (hJ : Steady R J) {f : α → β → Prog Db Row Err Ext α} {l : List β} (h : J t db) {a : α}
    (hf : ∀ b ∈ l, ∀ a t db, J t db → (f a b).safe R guard (fun _ t' db' => J t' db') E t db)
    (hQ : ∀ a t' db', J t' db' → Q a t' db') : (l.foldlM f a).safe R guard Q E t db := by
  induction l generalizing a t db with
  | nil => exact hJ.pure h fun db' h' => hQ a t db' h'
  | cons b l ih =>
    rw [List.foldlM_cons]
    refine hJ.bind h (Prog.safe_mono (fun a' t' db' _ h' => ?_) (fun _ _ _ _ h' => h') (hJ.inv h)
      (hf b List.mem_cons_self a t db h))
    exact ih h' fun c hc => hf c (List.mem_cons_of_mem _ hc)

end Steady

end Txn
