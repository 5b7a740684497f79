/-
A crash, or a rollback, in the middle of placing an order.

`place_order` runs in its caller's transaction: what it does is committed by
the caller after it returns. The call to the provider is made before that and
cannot be taken back.
-/
import Falaron.OrderRun

namespace Falaron

/-- When the process dies, or the session is rolled back. -/
inductive CrashPoint where
  /-- After `n` operations of the call, before its caller's commit. -/
  | during (n : Nat)
  | committed
  deriving DecidableEq, Repr

/-- What is committed, and what has been asked of the provider, at a crash of
the call `p` on the tables `db`. -/
inductive CrashAt {α : Type} (p : M α) (db : Db) : CrashPoint → Db → List Ext → Prop
  | during (n : Nat) : CrashAt p db (.during n) db (p.stopped n { db := db }).sent
  | committed {a s db'} : p.run { db := db } = (.ok a, s) → Txn.flushAll s.staged s.db = .some db' →
      CrashAt p db .committed db' s.sent

/-- The provider has taken the order on. -/
def takenOn (publicId : String) (sent : List Ext) : Bool := sent.any fun
  | .createOrder p _ _ _ accepted => p == publicId && accepted
  | _ => false

/-- The order has a row, and its charge is held or captured. -/
def Db.Covers (db : Db) (publicId : String) : Prop :=
  ∃ o ∈ db.orders, o.publicId = publicId ∧
    (db.isHeld publicId = true ∨ ∃ e ∈ ofType .capture (db.entriesFor publicId), e.amountPaise = -o.chargePaise)

theorem takenOn_append {publicId : String} {sent sent' : List Ext} (h : takenOn publicId sent = true)
    (hp : sent <+: sent') : takenOn publicId sent' = true := by
  obtain ⟨l, rfl⟩ := hp
  simp only [takenOn, List.any_append, Bool.or_eq_true]
  exact .inl h

section

variable {strict : Prop} {base db : Db} {o : Order} {f : Funds}

/-- Whether an order is covered depends on where its money is. -/
theorem AtOrder.covers_iff (h : AtOrder strict base o f db) :
    db.Covers o.publicId ↔ f = .held ∨ ∃ r b, f = .captured r b := by
  have hc := h.charge_pos
  have ht := h.trace.tells (Int.le_of_lt hc)
  constructor
  · rintro ⟨o', ho', hp, hheld | ⟨e, he, _⟩⟩
    · exact .inl ((Db.isHeld_iff h.trace hc).mp hheld)
    · cases f with
      | held => exact .inl rfl
      | captured r b => exact .inr ⟨r, b, rfl⟩
      | unheld =>
        simp only [Funds.Tells] at ht
        simp [ht] at he
      | released => simp [ht.1] at he
  · rintro (rfl | ⟨r, b, rfl⟩)
    · exact ⟨o, h.mem, rfl, .inl ((Db.isHeld_iff h.trace hc).mpr rfl)⟩
    · obtain ⟨⟨e, hcap, hamt⟩, _⟩ := ht
      exact ⟨o, h.mem, rfl, .inr ⟨e, by simp [hcap], hamt⟩⟩

/-- What the provider's answer leaves covered. -/
theorem Submitted.covered_iff {submission : Submission} (h : Submitted o f submission.answer) :
    (f = .held ∨ ∃ r b, f = .captured r b) ↔ submission.refused = false := by
  unfold Submission.refused
  cases ha : submission.answer with
  | ok id =>
    simp only [ha, Submitted] at h
    simp [h]
  | error e =>
    simp only [ha, Submitted] at h
    split at h
    · next hamb => simp [h, hamb]
    · next hamb => simp [h.1, hamb]

end

section

variable {db : Db} {now : Time} {publicId : String} {userId : Int} {request : OrderRequest}
  {submission : Submission}

/-- The provider is only asked about an order whose id is new. -/
theorem placeOrder_fresh (hb : OrderBooks False .none db) (hk : OrderKeys db)
    (h : takenOn publicId ((placeOrder now publicId userId request submission).run { db := db }).2.sent = true) :
    ∀ o ∈ db.orders, o.publicId ≠ publicId := by
  have hwp : (placeOrder now publicId userId request submission).wp _ _ { db := db } := wp_placeOrder hb hk
  cases hr : (placeOrder now publicId userId request submission).run { db := db } with
  | mk r s =>
    rw [hr] at h
    cases r with
    | error e =>
      rcases (Txn.Prog.wp_error hwp hr).2 with hsent | hfree
      · rw [hsent] at h
        cases h
      · exact hfree
    | ok o =>
      cases Txn.Prog.wp_ok hwp hr with
      | replayed hs _ =>
        rw [hs] at h
        cases h
      | booked hfresh hp _ _ _ _ _ _ => exact fun o ho => hp ▸ (hfresh o ho).1

/-- **When an order the provider took on is covered**: exactly when the crash
comes after the caller's commit and the provider's answer was an order id or
left the outcome open. -/
theorem taken_order_covered_iff {db₀ db' : Db} {point : CrashPoint} {sent : List Ext} (h₀ : Opening db₀)
    (h : OrderRun (fun _ _ => True) db₀ db)
    (hcrash : CrashAt (placeOrder now publicId userId request submission) db point db' sent)
    (htaken : takenOn publicId sent = true) :
    db'.Covers publicId ↔ point = .committed ∧ submission.refused = false := by
  obtain ⟨hb, hk⟩ : OrderBooks False .none db ∧ OrderKeys db := OrderRun.sound h₀ (fun hs => hs.elim) h
  cases hcrash with
  | during n =>
    have hfree := placeOrder_fresh hb hk (takenOn_append htaken (Txn.Prog.stopped_le n _ _))
    constructor
    · rintro ⟨o, ho, hp, _⟩
      exact absurd hp (hfree o ho)
    · rintro ⟨hpt, _⟩
      cases hpt
  | committed hr hf =>
    cases Txn.Prog.wp_ok (wp_placeOrder hb hk) hr with
    | replayed hs _ =>
      rw [hs] at htaken
      cases htaken
    | booked _ _ _ _ hp _ hw hsub =>
      have hat := hw.will _ hf
      rcases hsub with ⟨hsent, _⟩ | hsub
      · rw [hsent] at htaken
        cases htaken
      · rw [← hp, hat.covers_iff, hsub.covered_iff]
        simp

end

/-- The whole call, and its caller's commit. -/
theorem taken_order_covered_of_commit :
    ((placeOrder 0 "A" 7 (likesFor "a") (.taken "1")).commit (fun _ => false) shop).Covers "A" := by
  have hok : (placeOrder 0 "A" 7 (likesFor "a") (.taken "1")).run { db := shop } |>.1.isOk := by decide +kernel
  have hflush : (Txn.flushAll ((placeOrder 0 "A" 7 (likesFor "a") (.taken "1")).run { db := shop }).2.staged
    ((placeOrder 0 "A" 7 (likesFor "a") (.taken "1")).run { db := shop }).2.db).isSome := by decide +kernel
  have hsent : takenOn "A" ((placeOrder 0 "A" 7 (likesFor "a") (.taken "1")).run { db := shop }).2.sent := by
    decide +kernel
  unfold Txn.Prog.commit
  cases hr : (placeOrder 0 "A" 7 (likesFor "a") (.taken "1")).run { db := shop } with
  | mk r s =>
    rw [hr] at hok hflush hsent
    cases r with
    | error e => cases hok
    | ok o =>
      obtain ⟨db', hdb'⟩ := Option.isSome_iff_exists.mp hflush
      simp only [hdb', Option.getD_some]
      exact (taken_order_covered_iff shop_opening .start (.committed hr hdb') hsent).mpr ⟨rfl, rfl⟩

/-- The provider has taken the order on and answered with its id; the process
dies before the commit, and nothing is left of the order. -/
theorem taken_order_lost :
    let p := placeOrder 0 "A" 7 (likesFor "a") (.taken "1")
    Opening shop ∧ CrashAt p shop (.during 34) shop (p.stopped 34 { db := shop }).sent ∧
      takenOn "A" (p.stopped 34 { db := shop }).sent = true ∧ ¬ shop.Covers "A" := by
  intro p
  refine ⟨shop_opening, .during 34, by decide +kernel, ?_⟩
  rintro ⟨o, ho, _⟩
  cases ho

end Falaron
