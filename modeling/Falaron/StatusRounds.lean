/-
The status worker, pass after pass.

`updated_at` is set whenever a row is written: where the code does not set it,
the column's `onupdate` default gives it a reading of the clock. A pass that
is committed writes every order it follows, if only to note when it was
synced. So those it has asked about go to the back, behind all who wait, and
the passes rotate the open orders (`StatusRun.rotation`).
-/
import Falaron.Queue
import Falaron.SyncBatch

namespace Falaron

open Txn.Prog hiding pure

/-- The worker follows the order. -/
def Order.isOpen (o : Order) : Bool := o.status ∈ OrderStatus.active && o.providerOrderId.isSome

/-- `onupdate=_utcnow`: the value of the column where an UPDATE does not set it itself. -/
def Order.stamped (written : Time) (old new : Order) : Order :=
  if new = old ∨ new.updatedAt ≠ old.updatedAt then new else { new with updatedAt := written }

/-- The tables with the rows that have been changed since `before` stamped. -/
def Db.stamped (before : Db) (written : String → Time) (after : Db) : Db :=
  { after with orders := after.orders.map fun o =>
      match before.findOrder o.publicId with
      | .some old => old.stamped (written o.publicId) o
      | .none => o }

/-- The tables after a pass, in which the row of an order is written at `written`. -/
def afterPass (replies : String → Reply) (written : String → Time) (db : Db) : Db :=
  db.stamped written (afterBatch replies db)

def Order.question (o : Order) : Ext := .orderStatus (o.providerOrderId.getD "")

/-- The pass asks the provider about the order. -/
def Queried (replies : String → Reply) (db : Db) (publicId : String) : Prop :=
  ∃ o ∈ db.openOrders batchLimit, o.publicId = publicId ∧
    o.question ∈ (((syncOpenOrdersOnce replies).checked Db.inRange).run { db := db }).2.sent

/-! ## What a pass sends -/

section

variable {db d : Db} {o : Order} {s : Session} {r : Reply} {replies : String → Reply}

/-- A turn begins with the question. -/
theorem wp_followOne_asks (hans : d.Answered r o) (hl : Lands d s) :
    (followOne r o).wp (fun _ s' => o.question ∈ s'.sent) (fun _ s' => o.question ∈ s'.sent) s := by
  obtain ⟨⟨hterminal, hordered, hprovider⟩, answer, hr⟩ := hans
  have hsame : s.db.findProvider o.providerId = d.findProvider o.providerId := by
    simp only [Db.findProvider, hl.catalog]
  obtain ⟨provider, hp⟩ := Option.isSome_iff_exists.mp hprovider
  rw [← hsame] at hp
  have hopen : ¬ (o.status ∈ OrderStatus.terminal || !o.hasProviderOrder) = true := by
    simp [hterminal, hordered]
  simp only [followOne, wp_bind, followOrder, hr, syncOrder, if_neg hopen]
  refine wp_attempt_adapterFor hp ?_
  refine wp_mono (wp_sent (p := attempt _) (s := { s with sent := s.sent ++ [o.question] }) (by simp))
    (fun res s' h => ?_)
    fun _ _ h => h
  cases res <;> exact h

/-- Every turn of the batch asks. -/
theorem wp_follow_asks {l : List Order} (hids : (l.map (·.publicId)).Nodup) (hl : Lands d s) (hpay : d.Payable)
    (hrows : ∀ o ∈ l, d.findOrder o.publicId = .some o) (hans : ∀ o ∈ l, d.Answered (replies o.publicId) o) :
    (collect (fun o => followOne (replies o.publicId) o) l).wp (fun _ s' => ∀ o ∈ l, o.question ∈ s'.sent)
      (fun _ _ => False) s := by
  induction l generalizing d s with
  | nil => exact fun o ho => by cases ho
  | cons o l ih =>
    simp only [List.map_cons, List.nodup_cons] at hids
    obtain ⟨hnot, hids⟩ := hids
    have hturn : (followOne (replies o.publicId) o).wp
        (fun _ s₁ => ∃ d₁, Lands d₁ s₁ ∧ d.Within (· = o.publicId) d₁)
        (fun _ _ => False) s :=
      wp_followOne hl (hrows o List.mem_cons_self) hpay fun d₁ s₁ _ hl₁ hw₁ _ => ⟨d₁, hl₁, hw₁⟩
    have hasked := wp_followOne_asks (hans o List.mem_cons_self) hl
    simp only [collect, wp_bind']
    refine wp_mono (wp_and hturn hasked) (fun _ s₁ h₁ => ?_) fun _ _ h => h.1.elim
    obtain ⟨⟨d₁, hl₁, hw₁⟩, hsent⟩ := h₁
    have hrest : (collect (fun o => followOne (replies o.publicId) o) l).wp
        (fun _ s' => ∀ q ∈ l, q.question ∈ s'.sent)
        (fun _ _ => False) s₁ := by
      refine ih hids hl₁ (hw₁.payable hpay) (fun q hq => ?_) fun q hq => ?_
      · rw [hw₁.orders _ fun he => hnot (he ▸ List.mem_map_of_mem hq)]
        exact hrows q (List.mem_cons_of_mem _ hq)
      · obtain ⟨⟨hterminal, hordered, hprovider⟩, hgiven⟩ := hans q (List.mem_cons_of_mem _ hq)
        have hsame : d₁.findProvider q.providerId = d.findProvider q.providerId := by
          simp only [Db.findProvider, hw₁.catalog]
        exact ⟨⟨hterminal, hordered, by rw [hsame]; exact hprovider⟩, hgiven⟩
    refine wp_mono (wp_and hrest (wp_sent hsent)) (fun _ s₂ h₂ q hq => ?_) fun _ _ h => h.1
    rcases List.mem_cons.mp hq with rfl | hq
    · exact h₂.2
    · exact h₂.1 q hq

/-! ## What a pass leaves -/

/-- Every order the worker follows has a provider and an answer, and the numbers it gets fit. -/
structure Db.Served (db : Db) (replies : String → Reply) : Prop where
  tables : db.Stored
  answered : ∀ o ∈ db.openOrders batchLimit, db.Answered (replies o.publicId) o
  fits : ∀ o ∈ db.openOrders batchLimit, (replies o.publicId).fits = true

/-- A pass whose orders are served is committed; it asks about each, and leaves the other orders alone. -/
theorem Db.Served.pass (h : db.Served replies) :
    (∀ o ∈ db.openOrders batchLimit, Queried replies db o.publicId ∧
      Told db o (replies o.publicId) (afterBatch replies db)) ∧
    db.Within (· ∈ (db.openOrders batchLimit).map (·.publicId)) (afterBatch replies db) := by
  have hrows : ∀ o ∈ db.openOrders batchLimit, db.findOrder o.publicId = .some o := fun o ho =>
    Db.findOrder_of_mem h.tables.ids (Db.mem_openOrders ho).1
  have hids := h.tables.openOrders_ids batchLimit
  have hlands : Lands db { db := db } := .settled db []
  have hrun : (syncOpenOrdersOnce replies).wp (fun _ s' => (∃ D, Lands D s' ∧
      db.Within (· ∈ (db.openOrders batchLimit).map (·.publicId)) D ∧
      ∀ o ∈ db.openOrders batchLimit, Told db o (replies o.publicId) D) ∧
        ∀ o ∈ db.openOrders batchLimit, o.question ∈ s'.sent) (fun _ _ => False) { db := db } := by
    simp only [syncOpenOrdersOnce, wp_bind, wp_query]
    exact wp_mono (wp_and (wp_follow hids hlands h.tables.payable hrows)
      (wp_follow_asks hids hlands h.tables.payable hrows h.answered)) (fun _ _ h' => h') fun _ _ h' => h'.1
  obtain ⟨D, hcommits, -⟩ : ∃ D, (syncOpenOrdersOnce replies).commits db = .some D ∧
    ∀ o ∈ db.openOrders batchLimit, Told db o (replies o.publicId) D := batch_commits h.tables
  have hstored : stored (syncOpenOrdersOnce replies) db = .some D :=
    (batch_stored h.tables fun o ho _ => h.fits o ho).trans hcommits
  have hafter : afterBatch replies db = D := by rw [afterBatch, hstored, Option.getD_some]
  -- the run with the checks sends, and leaves, what the run without them does
  obtain ⟨a, s₁, hchecked, -⟩ := commits_eq_some.mp hstored
  obtain ⟨u, hu, hsent⟩ := checked_sent hchecked
  obtain ⟨⟨D', hl, hwithin, htold⟩, hasked⟩ := wp_ok hrun hu
  obtain ⟨a', u', hu', hflush⟩ := commits_eq_some.mp hcommits
  rw [hu] at hu'
  cases hu'
  obtain rfl : D' = D := Option.some.inj (hl.flush.symm.trans hflush)
  rw [hafter]
  refine ⟨fun o ho => ⟨⟨o, ho, rfl, ?_⟩, htold o ho⟩, hwithin⟩
  rw [hchecked]
  exact hsent ▸ hasked o ho

theorem Order.stamped_publicId (written : Time) (old new : Order) :
    (old.stamped written new).publicId = new.publicId := by
  unfold Order.stamped
  split <;> rfl

theorem Db.findOrder_stamped {before after : Db} {written : String → Time} (p : String) :
    (before.stamped written after).findOrder p = (after.findOrder p).map fun o =>
      match before.findOrder p with
      | .some old => old.stamped (written p) o
      | .none => o := by
  let f (o : Order) : Order :=
    match before.findOrder o.publicId with
    | .some old => old.stamped (written o.publicId) o
    | .none => o
  have hid (o : Order) : (f o).publicId = o.publicId := by
    simp only [f]
    split
    · exact Order.stamped_publicId _ _ _
    · rfl
  calc (before.stamped written after).findOrder p
      = (after.orders.find? fun o => (f o).publicId == p).map f := List.find?_map ..
    _ = (after.findOrder p).map f := by simp only [hid, Db.findOrder]
    _ = _ := by
      refine Option.map_congr fun o ho => ?_
      have hp : o.publicId = p := (Db.findOrder_mem ho).2
      simp only [f, hp]

/-- A row that has not been changed is not stamped. -/
theorem Db.findOrder_stamped_same {before after : Db} {written : String → Time} {p : String}
    (h : after.findOrder p = before.findOrder p) :
    (before.stamped written after).findOrder p = before.findOrder p := by
  rw [findOrder_stamped, h]
  cases before.findOrder p with
  | none => rfl
  | some o => exact congrArg some (if_pos (.inl rfl))

/-- An order that has been asked about is written, and stamped with a reading of the pass. -/
theorem Told.stamped {D : Db} {written : String → Time} (h : Told db o r D)
    (hrow : db.findOrder o.publicId = .some o)
    (hans : db.Answered r o) (hsynced : o.lastSyncedAt ≠ .some r.now) :
    ∃ q, (db.stamped written D).findOrder o.publicId = .some q ∧
      (q.updatedAt = r.now ∨ q.updatedAt = written o.publicId) := by
  have hchanged : db.left o r ≠ o := by
    intro he
    have hlast := hans.synced
    rw [he] at hlast
    exact hsynced hlast
  have hset : (db.left o r).updatedAt = o.updatedAt ∨ (db.left o r).updatedAt = r.now := by
    obtain ⟨hgo, answer, hr⟩ := hans
    simp only [Db.left, hr, if_pos hgo]
    cases answer with
    | error e => exact .inl rfl
    | ok status =>
      simp only [Db.synced]
      split
      · exact .inr rfl
      · exact .inl rfl
  refine ⟨o.stamped (written o.publicId) (db.left o r), ?_, ?_⟩
  · rw [Db.findOrder_stamped, h.row, hrow]
    rfl
  · unfold Order.stamped
    by_cases hat : (db.left o r).updatedAt = o.updatedAt
    · rw [if_neg (by simp [hchanged, hat])]
      exact .inr rfl
    · rw [if_pos (.inr hat)]
      exact .inl (hset.resolve_left hat)

end

/-! ## Passes one after the other -/

namespace Db

variable (db : Db)

/-- The open orders. -/
def waiting : Finset String := ((db.orders.filter (·.isOpen)).map (·.publicId)).toFinset

/-- Those a pass takes. -/
def taking : Finset String := ((db.openOrders batchLimit).map (·.publicId)).toFinset

/-- When an order was last updated. -/
def updated (publicId : String) : Time := ((db.findOrder publicId).map (·.updatedAt)).getD 0

end Db

/-- The tables each pass finds, what it is answered, and when it writes the row of each order. -/
structure StatusRun where
  db : Nat → Db
  replies : Nat → String → Reply
  written : Nat → String → Time

namespace StatusRun

/-- The tables the pass `k` leaves. -/
def left (w : StatusRun) (k : Nat) : Db := afterPass (w.replies k) (w.written k) (w.db k)

/-- What the run may rely on. Between two passes orders close, others come in,
and rows are changed, with timestamps of that moment. -/
structure Sound (w : StatusRun) : Prop where
  tables : ∀ k, (w.db k).Stored
  followed : ∀ k, ∀ o ∈ (w.db k).orders, o.isOpen = true →
    o.providerOrderId ≠ .some "" ∧ ((w.db k).findProvider o.providerId).isSome = true
  answers : ∀ k p, ∃ answer, (w.replies k p).answer = .given answer
  clock : ∀ k, ∀ o ∈ (w.db k).orders, ∀ p, o.updatedAt < (w.replies k p).now ∧ o.updatedAt < w.written k p ∧
    ∀ t, o.lastSyncedAt = .some t → t < (w.replies k p).now
  between : ∀ k, ∀ o ∈ (w.db (k + 1)).orders, o.isOpen = true → (w.left k).findOrder o.publicId = .some o ∨
    ∀ p q, (w.left k).findOrder p = .some q → q.updatedAt < o.updatedAt

/-- The numbers the passes are told fit their columns. -/
def Fits (w : StatusRun) : Prop :=
  ∀ k, ∀ o ∈ (w.db k).openOrders batchLimit, (w.replies k o.publicId).fits = true

end StatusRun

section

variable {db : Db} {o : Order} {p : String} {w : StatusRun} {k : Nat}

theorem Db.mem_waiting : p ∈ db.waiting ↔ ∃ o ∈ db.orders, o.isOpen = true ∧ o.publicId = p := by
  simp [waiting, and_assoc]

theorem Db.mem_taking : p ∈ db.taking ↔ ∃ o ∈ db.openOrders batchLimit, o.publicId = p := by
  simp [taking]

theorem Db.isOpen_of_mem (h : o ∈ db.openOrders batchLimit) : o ∈ db.orders ∧ o.isOpen = true := by
  obtain ⟨ho, hactive, hid⟩ := Db.mem_openOrders h
  exact ⟨ho, by simp [Order.isOpen, hactive, hid]⟩

theorem Db.Stored.updated (h : db.Stored) (ho : o ∈ db.orders) : db.updated o.publicId = o.updatedAt := by
  rw [Db.updated, Db.findOrder_of_mem h.ids ho]
  rfl

/-- Those a pass takes have waited longest; if it leaves one, it has taken as many as it may. -/
theorem Db.taking_first (h : db.Stored) (hp : p ∈ db.waiting) (hn : p ∉ db.taking) :
    batchLimit ≤ db.taking.card ∧ ∀ q ∈ db.taking, db.updated q ≤ db.updated p := by
  obtain ⟨o, ho, hopen, rfl⟩ := Db.mem_waiting.mp hp
  let byAge (a b : Order) : Prop := a.updatedAt ≤ b.updatedAt
  obtain ⟨sorted, hsorted⟩ : ∃ l, l = (db.orders.filter (·.isOpen)).insertionSort byAge := ⟨_, rfl⟩
  have htake : db.openOrders batchLimit = sorted.take batchLimit := hsorted ▸ rfl
  have hmem : o ∈ sorted := hsorted ▸ (List.mem_insertionSort _).mpr (List.mem_filter.mpr ⟨ho, hopen⟩)
  have hdrop : o ∈ sorted.drop batchLimit := by
    rw [← List.take_append_drop batchLimit sorted] at hmem
    exact (List.mem_append.mp hmem).resolve_left fun hin => hn (Db.mem_taking.mpr ⟨o, htake ▸ hin, rfl⟩)
  refine ⟨?_, fun q hq => ?_⟩
  · have hlong : 0 < (sorted.drop batchLimit).length := List.length_pos_of_mem hdrop
    rw [List.length_drop] at hlong
    have hids : ((db.openOrders batchLimit).map (·.publicId)).Nodup := h.openOrders_ids batchLimit
    rw [Db.taking, List.toFinset_card_of_nodup hids, List.length_map, htake, List.length_take]
    omega
  · obtain ⟨row, hrow, rfl⟩ := Db.mem_taking.mp hq
    rw [h.updated ho, h.updated (Db.mem_openOrders hrow).1]
    have : Std.Total byAge := ⟨fun a b => le_total a.updatedAt b.updatedAt⟩
    have : IsTrans Order byAge := ⟨fun _ _ _ hab hbc => le_trans (α := Time) hab hbc⟩
    have hpairs : sorted.Pairwise byAge := hsorted ▸ List.pairwise_insertionSort byAge _
    rw [← List.take_append_drop batchLimit sorted] at hpairs
    exact (List.pairwise_append.mp hpairs).2.2 row (htake ▸ hrow) o hdrop

namespace StatusRun

theorem Sound.served (h : w.Sound) (hf : w.Fits) (k : Nat) : (w.db k).Served (w.replies k) := by
  refine ⟨h.tables k, fun o ho => ⟨?_, h.answers k o.publicId⟩, hf k⟩
  obtain ⟨hmem, hopen⟩ := Db.isOpen_of_mem ho
  obtain ⟨hne, hprovider⟩ := h.followed k o hmem hopen
  simp only [Order.isOpen, Bool.and_eq_true, decide_eq_true_eq] at hopen
  refine ⟨fun hterminal => ?_, ?_, hprovider⟩
  · have hdis : ∀ s ∈ OrderStatus.active, s ∉ OrderStatus.terminal := by decide
    exact hdis _ hopen.1 hterminal
  · obtain ⟨id, hid⟩ := Option.isSome_iff_exists.mp hopen.2
    rw [hid] at hne
    simpa [Order.hasProviderOrder, hid] using hne

/-- An order that a pass does not take is as it was. -/
theorem Sound.left_same (h : w.Sound) (hf : w.Fits) (hp : p ∉ (w.db k).taking) :
    (w.left k).findOrder p = (w.db k).findOrder p := by
  refine Db.findOrder_stamped_same ((h.served hf k).pass.2.orders p fun hin => hp ?_)
  exact List.mem_toFinset.mpr hin

/-- One that it takes is stamped later than all there were. -/
theorem Sound.left_taken (h : w.Sound) (hf : w.Fits) (hp : p ∈ (w.db k).taking) :
    ∃ q, (w.left k).findOrder p = .some q ∧ ∀ o ∈ (w.db k).orders, o.updatedAt < q.updatedAt := by
  obtain ⟨o, ho, rfl⟩ := Db.mem_taking.mp hp
  have hmem : o ∈ (w.db k).orders := (Db.isOpen_of_mem ho).1
  have hserved := h.served hf k
  have hrow : (w.db k).findOrder o.publicId = .some o := Db.findOrder_of_mem hserved.tables.ids hmem
  have hsynced : o.lastSyncedAt ≠ .some (w.replies k o.publicId).now := fun hlast =>
    lt_irrefl _ ((h.clock k o hmem o.publicId).2.2 _ hlast)
  obtain ⟨q, hq, hstamp⟩ : ∃ q, (w.left k).findOrder o.publicId = .some q ∧
      (q.updatedAt = (w.replies k o.publicId).now ∨ q.updatedAt = w.written k o.publicId) :=
    (hserved.pass.1 o ho).2.stamped hrow (hserved.answered o ho) hsynced
  refine ⟨q, hq, fun o' ho' => ?_⟩
  obtain ⟨hnow, hwritten, -⟩ := h.clock k o' ho' o.publicId
  rcases hstamp with hstamp | hstamp
  · rw [hstamp]
    exact hnow
  · rw [hstamp]
    exact hwritten

/-- **The passes rotate the open orders.** -/
theorem Sound.rotation (h : w.Sound) (hf : w.Fits) :
    Queue.Rotation batchLimit (fun k => (w.db k).waiting) (fun k => (w.db k).taking)
      (fun k => (w.db k).updated) where
  waits k p hp := by
    obtain ⟨o, ho, rfl⟩ := Db.mem_taking.mp hp
    obtain ⟨hmem, hopen⟩ := Db.isOpen_of_mem ho
    exact Db.mem_waiting.mpr ⟨o, hmem, hopen, rfl⟩
  first k p hp hn := Db.taking_first (h.tables k) hp hn
  back k p hp := by
    obtain ⟨o, ho, hopen, rfl⟩ := Db.mem_waiting.mp hp
    have hnow : (w.db (k + 1)).updated o.publicId = o.updatedAt := (h.tables (k + 1)).updated ho
    simp only [hnow]
    rcases h.between k o ho hopen with hleft | hlater
    · by_cases htaken : o.publicId ∈ (w.db k).taking
      · refine .inr fun z hz => ?_
        obtain ⟨row, hrow, -, rfl⟩ := Db.mem_waiting.mp hz
        obtain ⟨q, hq, hall⟩ := h.left_taken hf htaken
        rw [hleft] at hq
        cases hq
        rw [(h.tables k).updated hrow]
        exact hall row hrow
      · rw [h.left_same hf htaken] at hleft
        obtain ⟨hmem, -⟩ := Db.findOrder_mem hleft
        exact .inl ⟨Db.mem_waiting.mpr ⟨o, hmem, hopen, rfl⟩, htaken, ((h.tables k).updated hmem).symm⟩
    · refine .inr fun z hz => ?_
      obtain ⟨row, hrow, -, rfl⟩ := Db.mem_waiting.mp hz
      rw [(h.tables k).updated hrow]
      by_cases htaken : row.publicId ∈ (w.db k).taking
      · obtain ⟨q, hq, hall⟩ := h.left_taken hf htaken
        exact (hall row hrow).trans (hlater _ q hq)
      · have hsame := h.left_same hf htaken
        rw [Db.findOrder_of_mem (h.tables k).ids hrow] at hsame
        exact hlater _ row hsame

end StatusRun

/-- **No open order is starved** by passes whose answers fit. With at most `n`
open orders at a time, any `⌈n / 80⌉` passes in a row ask about every order
that stays open through them. -/
theorem open_orders_queried {w : StatusRun} (h : w.Sound) (hf : w.Fits) {n : Nat}
    (hn : ∀ k, (w.db k).waiting.card ≤ n)
    {k : Nat} {p : String} (hopen₀ : p ∈ (w.db k).waiting)
    (hopen : ∀ j < (n + 79) / 80, p ∈ (w.db (k + j)).waiting)
    (hkept : ∀ j, j + 1 < (n + 79) / 80 → (w.db (k + j + 1)).findOrder p = (w.left (k + j)).findOrder p) :
    ∃ j < (n + 79) / 80, Queried (w.replies (k + j)) (w.db (k + j)) p := by
  have hcard : (w.db k).waiting.card ≤ batchLimit * ((n + 79) / 80) := by
    have hk := hn k
    unfold batchLimit
    omega
  obtain ⟨j, hj, htaken⟩ := (h.rotation hf).taken_within hopen₀ hcard hopen fun j hj hnot => by
    rw [Db.updated, hkept j hj, h.left_same hf hnot]
    rfl
  obtain ⟨o, ho, rfl⟩ := Db.mem_taking.mp htaken
  exact ⟨j, hj, ((h.served hf (k + j)).pass.1 o ho).1⟩

end

/-! ## Two orders, and eighty-one -/

/-- The provider is done with both orders. -/
def allDone : Db := afterPass bothDone (fun _ => 6) twoOrders

/-- Nothing is open after the first pass. -/
def twoDone : StatusRun where
  db
    | 0 => twoOrders
    | _ + 1 => allDone
  replies
    | 0 => bothDone
    | k + 1 => fun _ => ⟨10 + k, .given (.error ⟨"down", true⟩)⟩
  written
    | 0 => fun _ => 6
    | k + 1 => fun _ => 10 + k

theorem bothDone_served : twoOrders.Served bothDone := by
  refine ⟨twoOrders_stored, fun o ho => ⟨?_, _, rfl⟩, fun o ho => rfl⟩
  revert o
  decide +kernel

theorem allDone_rows : (allDone.orders.map (·.publicId)).Nodup ∧ allDone.inRange = true ∧
    ∀ o ∈ allDone.orders, o.isOpen = false ∧ o.updatedAt < 10 ∧ o.lastSyncedAt = .some 5 := by
  decide +kernel

theorem twoDone_sound : twoDone.Sound where
  tables k := by
    cases k with
    | zero => exact twoOrders_stored
    | succ k =>
      have hpay : (afterBatch bothDone twoOrders).Payable :=
        bothDone_served.pass.2.payable twoOrders_stored.payable
      exact ⟨allDone_rows.1, ⟨hpay.keyed, hpay.covered⟩, allDone_rows.2.1⟩
  followed k o ho hopen := by
    cases k with
    | zero =>
      have hall : ∀ o ∈ twoOrders.orders, o.isOpen = true →
          o.providerOrderId ≠ .some "" ∧ (twoOrders.findProvider o.providerId).isSome = true := by
        decide +kernel
      exact hall o ho hopen
    | succ k =>
      rw [(allDone_rows.2.2 o ho).1] at hopen
      cases hopen
  answers k p := by
    cases k with
    | zero => exact ⟨_, rfl⟩
    | succ k => exact ⟨_, rfl⟩
  clock k o ho p := by
    cases k with
    | zero =>
      have hold : ∀ o ∈ twoOrders.orders, o.updatedAt < 5 ∧ o.lastSyncedAt = .none := by decide +kernel
      obtain ⟨hat, hlast⟩ := hold o ho
      refine ⟨hat, hat.trans (show (5 : Int) < 6 by decide), fun t ht => ?_⟩
      rw [hlast] at ht
      cases ht
    | succ k =>
      obtain ⟨-, hat, hlast⟩ := allDone_rows.2.2 o ho
      have hk : (10 : Int) ≤ 10 + k := by omega
      refine ⟨hat.trans_le hk, hat.trans_le hk, fun t ht => ?_⟩
      rw [hlast] at ht
      cases ht
      exact lt_of_lt_of_le (by decide) hk
  between k o ho hopen := by
    rw [(allDone_rows.2.2 o ho).1] at hopen
    cases hopen

theorem open_orders_queried_of_two_done :
    ∃ j < 1, Queried (twoDone.replies (0 + j)) (twoDone.db (0 + j)) "A" := by
  have hfits : twoDone.Fits := by
    intro k o _
    cases k with
    | zero => rfl
    | succ k => rfl
  have hn (k : Nat) : (twoDone.db k).waiting.card ≤ 2 := by
    cases k with
    | zero => decide +kernel
    | succ k =>
      have hempty : allDone.waiting = ∅ := by
        refine Finset.eq_empty_of_forall_notMem fun p hp => ?_
        obtain ⟨o, ho, hopen, -⟩ := Db.mem_waiting.mp hp
        rw [(allDone_rows.2.2 o ho).1] at hopen
        cases hopen
      show allDone.waiting.card ≤ 2
      rw [hempty]
      exact Nat.zero_le 2
  have hopen : "A" ∈ (twoDone.db 0).waiting := by decide +kernel
  refine open_orders_queried twoDone_sound hfits hn hopen (fun j hj => ?_) fun j hj => ?_
  · obtain rfl : j = 0 := by omega
    exact hopen
  · omega

/-- An order of customer 7 that the provider has taken on. -/
def openSince (n : Nat) : Order :=
  { newOrder n (toString n) 7 likes "https://t.me/x" {}
      { serviceId := "likes", quantity := 1000, costPer1000Paise := 2000, sellPer1000Paise := 2600,
        costPaise := 2000, subtotalPaise := 2600, discountPaise := 0, chargePaise := 2600,
        layer := "retail", markupPercent := 30, markupFixedPaise := 0, couponCode := .none,
        minQty := 10, maxQty := 10000, retailPer1000Paise := 2600, resellerDiscountPaise := 0 } (.orderKey 7 (toString n)) with
    providerOrderId := .some (toString n)
    status := .processing }

/-- Eighty-one orders under way. -/
def backlog : Db := { shop with orders := (List.range 81).map openSince }

/-- The first starts at three billion, whenever the provider is asked; the others go on. -/
def blocked : StatusRun where
  db _ := backlog
  replies k p := ⟨1000 + k, .given (.ok (if p = "0" then
    ⟨.inProgress, .some 3000000000, .none, OrderStatus.inProgress_reported⟩
    else ⟨.processing, .none, .none, OrderStatus.processing_reported⟩))⟩
  written k _ := 1000 + k

theorem openSince_injective {m n : Nat} (h : (openSince m).publicId = (openSince n).publicId) : m = n :=
  Int.ofNat.inj (Text.int_injective (congrArg String.toList h))

theorem backlog_stored : backlog.Stored := by
  have hkeyed : shop.Keyed := by
    intro u row hu
    simp only [shop] at hu
    split at hu <;> cases hu
    rfl
  have hcovered (u : Int) (user : User) (hu : shop.users u = .some user) :
      0 ≤ user.cachedReservedPaise ∧ user.cachedReservedPaise ≤ user.cachedBalancePaise := by
    simp only [shop] at hu
    split at hu <;> cases hu
    exact ⟨Int.le_refl 0, show (0 : Int) ≤ 100000 by decide⟩
  have hnodup : (backlog.orders.map (·.publicId)).Nodup := by
    rw [backlog, List.map_map]
    exact List.nodup_range.map fun m n => openSince_injective
  exact ⟨hnodup, ⟨hkeyed, hcovered⟩, by decide +kernel⟩

/-- A pass takes all but the last. -/
theorem backlog_taken : backlog.openOrders batchLimit = (List.range 80).map openSince := by
  have hopen : backlog.orders.filter (·.isOpen) = backlog.orders := by
    refine List.filter_eq_self.mpr fun o ho => ?_
    obtain ⟨n, -, rfl⟩ := List.mem_map.mp ho
    rfl
  have hsorted : backlog.orders.Pairwise fun a b => a.updatedAt ≤ b.updatedAt :=
    List.pairwise_map.mpr (List.pairwise_le_range.imp fun hle => Int.ofNat_le.mpr hle)
  calc backlog.openOrders batchLimit
      = ((backlog.orders.filter (·.isOpen)).insertionSort fun a b =>
          a.updatedAt ≤ b.updatedAt).take batchLimit := rfl
    _ = backlog.orders.take batchLimit := by rw [hopen, hsorted.insertionSort_eq]
    _ = (List.range 80).map openSince := by
      rw [backlog, ← List.map_take, List.take_range]
      rfl

theorem backlog_follows {o : Order} (ho : o ∈ backlog.orders) : backlog.Follows o := by
  obtain ⟨n, hn, rfl⟩ := List.mem_map.mp ho
  have hnamed : (openSince n).hasProviderOrder = true := decide_eq_true Nat.repr_ne_empty
  exact ⟨show OrderStatus.processing ∉ OrderStatus.terminal by decide, hnamed, rfl⟩

/-- No pass is committed. -/
theorem blocked_left (k : Nat) (p : String) : (blocked.left k).findOrder p = backlog.findOrder p := by
  have hin : openSince 0 ∈ backlog.openOrders batchLimit := by
    rw [backlog_taken]
    exact List.mem_map_of_mem (List.mem_range.mpr (by decide))
  have hans : backlog.Answered (blocked.replies k (openSince 0).publicId) (openSince 0) :=
    ⟨backlog_follows (Db.mem_openOrders hin).1, _, rfl⟩
  have hnone : stored (syncOpenOrdersOnce (blocked.replies k)) backlog = .none :=
    batch_refused backlog_stored hin hans rfl
  have hafter : afterBatch (blocked.replies k) backlog = backlog := by rw [afterBatch, hnone, Option.getD_none]
  have hsame : (afterBatch (blocked.replies k) backlog).findOrder p = backlog.findOrder p := by rw [hafter]
  exact Db.findOrder_stamped_same hsame

theorem blocked_sound : blocked.Sound where
  tables _ := backlog_stored
  followed _ o ho _ := by
    obtain ⟨n, -, rfl⟩ := List.mem_map.mp ho
    refine ⟨fun hempty => ?_, (backlog_follows ho).2.2⟩
    have hordered : (openSince n).hasProviderOrder = true := (backlog_follows ho).2.1
    rw [Order.hasProviderOrder, hempty] at hordered
    cases hordered
  answers _ _ := ⟨_, rfl⟩
  clock k o ho p := by
    obtain ⟨n, hn, rfl⟩ := List.mem_map.mp ho
    have hlt : (n : Int) < 1000 + k := by
      have hrange := List.mem_range.mp hn
      omega
    exact ⟨hlt, hlt, fun t ht => by cases ht⟩
  between k o ho _ := by
    refine .inl ?_
    rw [blocked_left]
    exact Db.findOrder_of_mem backlog_stored.ids ho

/-- Nobody ever asks about the eighty-first. -/
theorem eighty_first_starved : blocked.Sound ∧ (∀ k, (blocked.db k).waiting.card ≤ 81) ∧
    (∀ k, "80" ∈ (blocked.db k).waiting) ∧
    (∀ k, (blocked.db (k + 1)).findOrder "80" = (blocked.left k).findOrder "80") ∧
    ∀ k, ¬ Queried (blocked.replies k) (blocked.db k) "80" := by
  refine ⟨blocked_sound, fun _ => ?_, fun _ => ?_, fun k => (blocked_left k "80").symm, fun k => ?_⟩
  · refine (List.toFinset_card_le _).trans ?_
    rw [List.length_map]
    refine (List.length_filter_le _ _).trans ?_
    simp [blocked, backlog]
  · exact Db.mem_waiting.mpr ⟨openSince 80, List.mem_map_of_mem (by decide), rfl, rfl⟩
  · rintro ⟨o, ho, hid, -⟩
    change o ∈ backlog.openOrders batchLimit at ho
    rw [backlog_taken] at ho
    obtain ⟨n, hn, rfl⟩ := List.mem_map.mp ho
    obtain rfl : n = 80 := openSince_injective hid
    exact absurd (List.mem_range.mp hn) (Nat.lt_irrefl 80)

end Falaron
