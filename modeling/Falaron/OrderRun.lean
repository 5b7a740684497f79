/-
The order engine over whole runs of complete calls.

Between two calls of the engine money may come and go on the wallets for
other reasons, and the operator may change users and catalog; none of that
touches an order or a reserve.
-/
import Falaron.OrderCalls
import Falaron.WalletRun

namespace Falaron

open Text (clip)

/-- Tables in which nothing has been ordered yet. -/
structure Opening (db : Db) : Prop where
  ledger : db.ledger = []
  orders : db.orders = []
  records : ∀ k, db.records k = .none
  wallets : ∀ u user, db.users u = .some user → user.cachedReservedPaise = 0 ∧ 0 ≤ user.cachedBalancePaise

/-- A call of the wallet that has nothing to do with orders: a deposit, a commission, a correction. -/
def WalletCall.Foreign : WalletCall → Prop
  | .credit p k => p.referenceType ≠ .some "order" ∧ (WalletCall.credit p k).key.orderRef = .none
  | .debit p k => p.referenceType ≠ .some "order" ∧ (WalletCall.debit p k).key.orderRef = .none
  | _ => False

/-- Whatever else differs, orders and money are the same; a new user starts with an empty wallet. -/
structure SameMoney (a b : Db) : Prop where
  ledger : b.ledger = a.ledger
  orders : b.orders = a.orders
  records : b.records = a.records
  users : ∀ u, match a.users u, b.users u with
    | .some x, .some y => y.cachedBalancePaise = x.cachedBalancePaise ∧ y.cachedReservedPaise = x.cachedReservedPaise
    | .none, .some y => y.cachedReservedPaise = 0 ∧ y.cachedBalancePaise = 0
    | .some _, .none => False
    | .none, .none => True

/-- The tables after any run whose calls all meet `ok`. A caller may commit
after an error, as long as it is one of the user's. -/
inductive OrderRun (ok : Db → OrderCall → Prop) (db₀ : Db) : Db → Prop
  | start : OrderRun ok db₀ db₀
  | call {db caught} (c : OrderCall) : OrderRun ok db₀ db → (∀ e, caught e = true → e.userFacing = true) →
      ok db c → OrderRun ok db₀ (c.prog.commit caught db)
  | wallet {db} (c : WalletCall) : OrderRun ok db₀ db → c.Foreign →
      OrderRun ok db₀ (c.prog.commit (fun _ => false) db)
  | tables {db db'} : OrderRun ok db₀ db → SameMoney db db' → OrderRun ok db₀ db'

/-- Calls one after the other, of which only the successful ones commit. -/
def afterCalls (db : Db) (calls : List OrderCall) : Db :=
  calls.foldl (fun db c => c.prog.commit (fun _ => false) db) db

theorem OrderRun.calls {ok : Db → OrderCall → Prop} {db₀ db : Db} {calls : List OrderCall}
    (h : OrderRun ok db₀ db) (hok : ∀ c ∈ calls, ∀ db, ok db c) : OrderRun ok db₀ (afterCalls db calls) := by
  induction calls generalizing db with
  | nil => exact h
  | cons c calls ih =>
    refine ih (.call c h (fun _ he => by cases he) (hok c (by simp) db)) fun c' hc' => hok c' (by simp [hc'])

/-! ## A shop

One service at ₹25 per thousand, one provider, two customers with ₹1000 each.
-/

def likes : Service where
  id := "likes"
  categoryId := "instagram"
  providerId := "panel"
  providerServiceId := "11"
  name := "Likes"
  serviceType := .none
  minQty := 10
  maxQty := 10000
  ratePer1000Paise := 2000
  markupPercent := .none
  markupFixedPaise := .none
  isActive := true
  isRefillable := true
  isCancelable := true
  averageTime := .none

def shop : Db where
  users u := if u = 7 ∨ u = 8 then .some { telegramId := u, cachedBalancePaise := 100000 } else .none
  catalog := { services := [likes], providers := [⟨"panel", true, .none, .none⟩] }

theorem shop_opening : Opening shop := by
  refine ⟨rfl, rfl, fun _ => rfl, fun u user hu => ?_⟩
  simp only [shop] at hu
  split at hu <;> cases hu
  exact ⟨rfl, show (0 : Int) ≤ 100000 by decide⟩

/-- An order of a thousand likes under a client's key. -/
def likesFor (key : String) : OrderRequest :=
  { serviceId := "likes", link := "https://t.me/x", quantity := 1000, idempotencyKey := .some key }

namespace Submission

def taken (id : String) : Submission := ⟨true, .ok id, fun _ _ => rfl⟩

def timedOut : Submission := ⟨true, .error (.provider ⟨"timeout", true⟩), nofun⟩

def declined : Submission := ⟨false, .error (.provider ⟨"not available", false⟩), nofun⟩

end Submission

/-! ## What every run keeps -/

section

variable {strict : Prop} {db db' db₀ : Db}

theorem Opening.books (h : Opening db) : OrderBooks strict .none db := by
  constructor
  case ids => rw [h.orders]; exact List.nodup_nil
  case keys => simp [h.ledger]
  case known => simp [h.ledger]
  case owners => simp [h.orders]
  case posters => simp [h.ledger]
  case charges => simp [h.orders]
  case funds => simp [h.orders]
  case covered =>
    intro u user hu
    obtain ⟨h₁, h₂⟩ := h.wallets u user hu
    omega
  case last =>
    intro u user hu
    simp [Db.lastReserved, h.ledger, (h.wallets u user hu).1]
  case reserve =>
    intro _ u user hu
    simp [Db.heldSum, h.orders, (h.wallets u user hu).1]
  case exact => intro _ es e es' hes; simp [h.ledger] at hes

theorem Opening.keys (h : Opening db) : OrderKeys db where
  once := by rw [h.orders]; exact List.nodup_nil
  plain := by simp [h.orders]
  recorded := by simp [h.records]
  retried := by simp [h.orders]

/-- A user nobody has posted for, and who has no orders, has nothing reserved. -/
theorem OrderBooks.stranger (h : OrderBooks strict .none db) {u : Int} (hu : db.users u = .none) :
    Db.lastReserved u db.ledger = 0 ∧ db.heldSum u = 0 := by
  constructor
  · have hnone : db.ledger.filter (·.userId == u) = [] := by
      simp only [List.filter_eq_nil_iff, beq_iff_eq]
      intro e he heu
      have hsome := h.posters e he
      rw [heu, hu] at hsome
      cases hsome
    simp [Db.lastReserved, hnone]
  · have hzero : ∀ x ∈ db.orders.map (db.heldOf u), x = 0 := by
      intro x hx
      obtain ⟨o, ho, rfl⟩ := List.mem_map.mp hx
      refine if_neg fun hou => ?_
      have hsome := h.owners o ho
      rw [hou.1, hu] at hsome
      cases hsome
    exact List.sum_eq_zero hzero

theorem OrderBooks.sameMoney (h : OrderBooks strict .none db) (hs : SameMoney db db') :
    OrderBooks strict .none db' := by
  have hl := hs.ledger
  have ho := hs.orders
  have hsum : db'.heldSum = db.heldSum := by
    funext u
    simp only [Db.heldSum, ho]
    exact congrArg List.sum (List.map_congr_left fun o _ =>
      Db.heldOf_congr (congrFun (Db.entriesFor_congr hl) _))
  have hsome {u} (hu : (db.users u).isSome) : (db'.users u).isSome := by
    have := hs.users u
    cases hx : db.users u <;> cases hy : db'.users u <;> simp_all
  -- a wallet is the one it was, or a new user's
  have hwallet {u y} (hy : db'.users u = .some y) :
      (∃ x, db.users u = .some x ∧ y.cachedBalancePaise = x.cachedBalancePaise ∧
        y.cachedReservedPaise = x.cachedReservedPaise) ∨
      (db.users u = .none ∧ y.cachedReservedPaise = 0 ∧ y.cachedBalancePaise = 0) := by
    have hu := hs.users u
    rw [hy] at hu
    cases hx : db.users u with
    | some x => exact .inl ⟨x, rfl, by simpa [hx] using hu⟩
    | none => exact .inr ⟨rfl, by simpa [hx] using hu⟩
  constructor
  case ids => rw [ho]; exact h.ids
  case keys => rw [hl]; exact h.keys
  case known => rw [hl, ho]; exact h.known
  case owners => rw [ho]; exact fun o hm => hsome (h.owners o hm)
  case posters => rw [hl]; exact fun e he => hsome (h.posters e he)
  case charges => rw [ho]; exact h.charges
  case funds => rw [ho, Db.entriesFor_congr hl]; exact h.funds
  case covered =>
    intro u y hy
    rcases hwallet hy with ⟨x, hx, hb, hr⟩ | ⟨_, hr, hb⟩
    · have := h.covered u x hx
      omega
    · omega
  case last =>
    intro u y hy
    rw [hl]
    rcases hwallet hy with ⟨x, hx, _, hr⟩ | ⟨hx, hr, _⟩
    · rw [hr, h.last u x hx]
    · rw [hr, (h.stranger hx).1]
  case reserve =>
    intro hst u y hy
    rw [hsum]
    rcases hwallet hy with ⟨x, hx, _, hr⟩ | ⟨hx, hr, _⟩
    · rw [hr, h.reserve hst u x hx]
    · rw [hr, (h.stranger hx).2]
  case exact => simpa only [Db.ReleasesExact, hl, ho] using h.exact

theorem OrderKeys.congr (h : OrderKeys db) (ho : db'.orders = db.orders) (hr : db'.records = db.records) :
    OrderKeys db' := h.since ((Db.Since.refl db).congr ho fun k _ => congrFun hr k)

/-- A call of the wallet commits what it did. -/
theorem WalletCall.commit_effect (c : WalletCall) (db : Db) :
    ∃ r, CallEffect db c r (c.prog.commit (fun _ => false) db) := by
  obtain ⟨r, db', hr, he⟩ := c.run_effect db
  unfold Txn.Prog.commit
  rw [hr]
  cases r with
  | ok e => exact ⟨_, he⟩
  | error err =>
    cases he with
    | raised h => exact ⟨_, .raised h⟩

theorem OrderBooks.foreign (h : OrderBooks strict .none db) (hk : OrderKeys db) {c : WalletCall} (hc : c.Foreign)
    {r : Except Err LedgerEntry} (he : CallEffect db c r db') : OrderBooks strict .none db' ∧ OrderKeys db' := by
  cases he with
  | raised => exact ⟨h, hk⟩
  | replayed => exact ⟨h, hk⟩
  | @posted e hp =>
    obtain ⟨user, d, hrow, hd, hee, _⟩ := hp.drafted
    refine ⟨?_, hk.congr rfl rfl⟩
    cases c with
    | reserve => cases hc
    | release => cases hc
    | capture => cases hc
    | credit p k =>
      refine h.posted_other hp (by rw [hee]; exact if_neg hc.1) hc.2 fun user' hu' => ?_
      obtain rfl : user = user' := Option.some.inj (hrow.symm.trans hu')
      obtain rfl := Except.ok.inj hd
      rw [hee]
      rfl
    | debit p k =>
      refine h.posted_other hp (by rw [hee]; exact if_neg hc.1) hc.2 fun user' hu' => ?_
      obtain rfl : user = user' := Option.some.inj (hrow.symm.trans hu')
      simp only [WalletCall.draft, debitDraft] at hd
      split at hd <;> cases hd
      rw [hee]
      rfl

theorem OrderRequest.key_ne_retry {request : OrderRequest} {userId : Int} {key : Key} (h : request.Asks userId key)
    (k : Key) (t : Time) : key ≠ .retry k t := by
  obtain ⟨_, _, _, _, _, rfl⟩ := h
  unfold OrderRequest.key
  split <;> simp

theorem Effect.keys {c : OrderCall} (h : Effect db c db') (hk : OrderKeys db) : OrderKeys db' := by
  cases h with
  | moved hs => exact hk.since hs
  | placed hf hasks hn hs _ =>
    exact (hk.placed hasks.orderRef hf hn (OrderRequest.key_ne_retry hasks)).since hs

theorem Effect.later {c : OrderCall} (h : Effect db c db') : ∀ o ∈ db.orders, ∃ o' ∈ db'.orders, o.Later o' := by
  intro o ho
  cases h with
  | moved hs => exact hs.later ho
  | placed _ _ _ hs _ => exact hs.later (List.mem_append_left _ ho)

/-- Sound books stay sound. -/
theorem OrderRun.keeps {ok : Db → OrderCall → Prop} (hok : strict → ∀ db c, ok db c → ¬ c.Overruns db)
    (h₀ : OrderBooks strict .none db₀ ∧ OrderKeys db₀) (h : OrderRun ok db₀ db) :
    OrderBooks strict .none db ∧ OrderKeys db := by
  induction h with
  | start => exact h₀
  | call c _ hcaught hc ih =>
    obtain ⟨hb, he⟩ := OrderCall.commit_ends hcaught ih.1 ih.2 fun hs => hok hs _ _ hc
    exact ⟨hb, he.keys ih.2⟩
  | wallet c _ hc ih =>
    obtain ⟨r, he⟩ := c.commit_effect _
    exact ih.1.foreign ih.2 hc he
  | tables _ hs ih => exact ⟨ih.1.sameMoney hs, ih.2.congr hs.orders hs.records⟩

/-- The books are sound in every state of every run. -/
theorem OrderRun.sound {ok : Db → OrderCall → Prop} (h₀ : Opening db₀)
    (hok : strict → ∀ db c, ok db c → ¬ c.Overruns db) (h : OrderRun ok db₀ db) :
    OrderBooks strict .none db ∧ OrderKeys db := h.keeps hok ⟨h₀.books, h₀.keys⟩

theorem OrderRun.trans {ok : Db → OrderCall → Prop} {db₁ : Db} (h : OrderRun ok db₀ db₁) (h' : OrderRun ok db₁ db) :
    OrderRun ok db₀ db := by
  induction h' with
  | start => exact h
  | call c _ hcaught hc ih => exact .call c ih hcaught hc
  | wallet c _ hc ih => exact .wallet c ih hc
  | tables _ hs ih => exact .tables ih hs

/-- A call of the wallet leaves the orders alone. -/
theorem WalletCall.commit_orders (c : WalletCall) (db : Db) :
    (c.prog.commit (fun _ => false) db).orders = db.orders := by
  obtain ⟨r, he⟩ := c.commit_effect db
  generalize c.prog.commit (fun _ => false) db = db' at he
  cases he <;> rfl

/-- No order is lost. -/
theorem OrderRun.later {ok : Db → OrderCall → Prop} (h₀ : OrderBooks False .none db₀ ∧ OrderKeys db₀)
    (h : OrderRun ok db₀ db) : ∀ o ∈ db₀.orders, ∃ o' ∈ db.orders, o.Later o' := by
  induction h with
  | start => exact fun o ho => ⟨o, ho, .refl o⟩
  | call c hrun hcaught _ ih =>
    intro o ho
    obtain ⟨hb, hk⟩ := hrun.keeps (fun hf => hf.elim) h₀
    obtain ⟨o₁, ho₁, hl₁⟩ := ih o ho
    obtain ⟨o₂, ho₂, hl₂⟩ := (OrderCall.commit_ends (c := c) hcaught hb hk fun hf => hf.elim).2.later o₁ ho₁
    exact ⟨o₂, ho₂, hl₁.trans hl₂⟩
  | wallet c _ _ ih =>
    rw [c.commit_orders]
    exact ih
  | tables _ hs ih => exact fun o ho => hs.orders ▸ ih o ho

end

/-! ## The reserves -/

/-- **The reserves are exactly what is held**, in every run in which no
cancellation goes through on an order that has a provider id and is reported
as pending again. There no release is clamped, and no call ends with a
capture the reserve does not cover. -/
theorem reserve_is_held {db₀ db : Db} (h₀ : Opening db₀)
    (h : OrderRun (fun db c => ¬ c.Overruns db) db₀ db) :
    (∀ u user, db.users u = .some user → user.cachedReservedPaise = db.heldSum u) ∧ db.ReleasesExact ∧
    ∀ c : OrderCall, ¬ c.Overruns db → ∀ s, c.prog.run { db := db } ≠ (.error overCapture, s) := by
  obtain ⟨hb, hk⟩ : OrderBooks True .none db ∧ OrderKeys db := OrderRun.sound h₀ (fun _ _ _ hc => hc) h
  refine ⟨hb.reserve trivial, hb.exact trivial, fun c hc s hr => ?_⟩
  exact (Txn.Prog.wp_error (OrderCall.wp_prog hb hk fun _ => hc) hr).2 trivial rfl

/-- Two orders in a shop, one of them waiting for an operator. -/
theorem reserve_is_held_of_two_orders :
    let db := afterCalls shop [.place 0 "A" 7 (likesFor "a") (.taken "1"), .place 1 "B" 7 (likesFor "b") .timedOut,
      .sync 2 "A" (.ok ⟨.pending, .none, .some 900, by decide⟩)]
    db.heldSum 7 = 2500 ∧ ∀ user, db.users 7 = .some user → user.cachedReservedPaise = db.heldSum 7 := by
  intro db
  have hrun : OrderRun (fun db c => ¬ c.Overruns db) shop db := OrderRun.start.calls (by simp [OrderCall.Overruns])
  exact ⟨by decide +kernel, (reserve_is_held shop_opening hrun).1 7⟩

/-- The provider reports a captured order as pending, its owner cancels it,
and the cancellation takes the hold of another order: the reserve is empty
while that order is held, and its capture is then refused. -/
theorem reserve_below_held :
    let db := afterCalls shop [.place 0 "A" 7 (likesFor "a") (.taken "1"), .place 1 "B" 7 (likesFor "b") .timedOut,
      .sync 2 "A" (.ok ⟨.pending, .none, .some 900, by decide⟩), .cancel 3 "A" 7 (.ok ())]
    Opening shop ∧ OrderRun (fun _ _ => True) shop db ∧
      (db.users 7).map (·.cachedReservedPaise) = .some 0 ∧ db.heldSum 7 = 2500 ∧
      ((OrderCall.resolve 4 "B" false (.some "2") "cli").prog.run { db := db }).1 = .error overCapture := by
  intro db
  exact ⟨shop_opening, OrderRun.start.calls fun _ _ _ => trivial, by decide +kernel, by decide +kernel,
    by decide +kernel⟩

/-! ## One order's money -/

/-- **One order's money is conserved** in every run, whatever the providers
answer: at most one capture, of exactly the charge; a credit only after it;
and at every moment credits of at most what was captured. -/
theorem order_money_conserved {db₀ db : Db} (h₀ : Opening db₀) (h : OrderRun (fun _ _ => True) db₀ db) :
    ∀ o ∈ db.orders,
      (ofType .capture (db.entriesFor o.publicId)).length ≤ 1 ∧
      (∀ e ∈ ofType .capture (db.entriesFor o.publicId), e.amountPaise = -o.chargePaise) ∧
      (∀ es e es', db.ledger = es ++ e :: es' → e.orderRef = .some o.publicId → e.entryType = .credit →
        ∃ e₀ ∈ es, e₀.orderRef = .some o.publicId ∧ e₀.entryType = .capture) ∧
      ∀ es es', db.ledger = es ++ es' →
        totalOf .credit (es.filter (·.orderRef == .some o.publicId)) ≤
          -totalOf .capture (es.filter (·.orderRef == .some o.publicId)) := by
  obtain ⟨hb, _⟩ : OrderBooks False .none db ∧ OrderKeys db := OrderRun.sound h₀ (fun hs => hs.elim) h
  intro o ho
  have hc := Int.le_of_lt (hb.charges o ho)
  obtain ⟨f, ht, _⟩ := hb.funds o ho
  refine ⟨(ht.captures hc).1, (ht.captures hc).2, fun es e es' hes href htype => ?_, fun es es' hes => ?_⟩
  · have hsplit : db.entriesFor o.publicId = es.filter (·.orderRef == .some o.publicId) ++
        e :: es'.filter (·.orderRef == .some o.publicId) := by
      simp [Db.entriesFor, hes, href]
    obtain ⟨e₀, he₀⟩ := List.exists_mem_of_ne_nil _ (ht.credit_after_capture hc hsplit htype)
    simp only [ofType, List.mem_filter, beq_iff_eq] at he₀
    exact ⟨e₀, he₀.1.1, he₀.1.2, he₀.2⟩
  · have hsplit : db.entriesFor o.publicId = es.filter (·.orderRef == .some o.publicId) ++
        es'.filter (·.orderRef == .some o.publicId) := by
      rw [Db.entriesFor, hes, List.filter_append]
    obtain ⟨f₁, ht₁⟩ := ht.take hsplit
    exact ht₁.credits_le hc

/-- A partial delivery, then a cancellation of the rest. -/
theorem order_money_conserved_of_partial :
    let db := afterCalls shop [.place 0 "A" 7 (likesFor "a") (.taken "1"),
      .sync 1 "A" (.ok ⟨.partial_, .none, .some 400, by decide⟩),
      .sync 2 "A" (.ok ⟨.inProgress, .none, .none, by decide⟩), .cancel 3 "A" 7 (.ok ())]
    totalOf .credit (db.entriesFor "A") = 2500 ∧
      ∀ o ∈ db.orders, (ofType .capture (db.entriesFor o.publicId)).length ≤ 1 := by
  intro db
  have hrun : OrderRun (fun _ _ => True) shop db := OrderRun.start.calls fun _ _ _ => trivial
  exact ⟨by decide +kernel, fun o ho => (order_money_conserved shop_opening hrun o ho).1⟩

/-! ## One client key -/

/-- The key a request asked for, whichever attempt it is. -/
def Key.root : Key → Key
  | .retry k _ => k
  | k => k

/-- The orders placed under a key, or as a retry of it, that have not failed. -/
def Db.liveUnder (db : Db) (key : Key) : Nat :=
  db.orders.countP fun o => o.idempotencyKey.root == key && o.status != .failed

/-- A request under a client's key whose first order has failed while a retry
of it lives, and which the provider does not refuse. -/
def OrderCall.Repeats (u : Int) (k : String) (db : Db) : OrderCall → Prop
  | .place _ _ userId request submission =>
    userId = u ∧ (request.idempotencyKey.filter (· ≠ "")).map (clip 128) = .some k ∧
      submission.refused = false ∧
      (∃ o ∈ db.orders, o.idempotencyKey = .orderKey u k ∧ o.status = .failed) ∧
      ∃ o ∈ db.orders, (∃ t, o.idempotencyKey = .retry (.orderKey u k) t) ∧ o.status ≠ .failed
  | _ => False

section

variable {db db' : Db} {o : Order} {u : Int} {k : String}

theorem countP_later_le {l : List Order} {g : Order → Order} (h : ∀ o ∈ l, o.Later (g o)) (key : Key) :
    (l.map g).countP (fun o => o.idempotencyKey.root == key && o.status != .failed) ≤
      l.countP fun o => o.idempotencyKey.root == key && o.status != .failed := by
  rw [List.countP_map]
  refine List.countP_mono_left fun o ho hlive => ?_
  simp only [Function.comp_apply, Bool.and_eq_true, beq_iff_eq, bne_iff_ne] at hlive ⊢
  rw [(h o ho).idempotencyKey] at hlive
  exact ⟨hlive.1, fun hf => hlive.2 ((h o ho).failed hf)⟩

theorem Db.Since.liveUnder_le (h : db.Since db') (key : Key) : db'.liveUnder key ≤ db.liveUnder key := by
  obtain ⟨g, hg, hl⟩ := h.orders
  rw [Db.liveUnder, hg]
  exact countP_later_le hl key

/-- A request with a client key asks for that key only. -/
theorem OrderRequest.Asks.client {request : OrderRequest} {userId : Int} {key : Key}
    (h : request.Asks userId key) (hk : key = .orderKey u k) :
    userId = u ∧ (request.idempotencyKey.filter (· ≠ "")).map (clip 128) = .some k := by
  obtain ⟨_, _, _, _, _, rfl⟩ := h
  unfold OrderRequest.key at hk
  split at hk
  · next k' hk' =>
    rw [hk']
    cases hk
    exact ⟨rfl, rfl⟩
  · cases hk

theorem Key.root_eq {key K : Key} (h : key.root = K) : key = K ∨ ∃ t, key = .retry K t := by
  cases key with
  | retry k t => exact .inr ⟨t, by rw [← h]; rfl⟩
  | _ => exact .inl h

/-- The orders under a key are the one placed under it and its retries. -/
theorem Db.liveUnder_eq_zero (h : ∀ o ∈ db.orders, o.idempotencyKey = .orderKey u k → o.status = .failed)
    (h' : ∀ o ∈ db.orders, ∀ t, o.idempotencyKey = .retry (.orderKey u k) t → o.status = .failed) :
    db.liveUnder (.orderKey u k) = 0 := by
  simp only [Db.liveUnder, List.countP_eq_zero, Bool.and_eq_true, beq_iff_eq, bne_iff_ne, not_and, not_not]
  intro o ho hroot
  rcases Key.root_eq hroot with hk | ⟨t, hk⟩
  · exact h o ho hk
  · exact h' o ho t hk

theorem Db.liveUnder_placed (o : Order) (key : Key) : (db.placed o).liveUnder key =
    db.liveUnder key + if o.idempotencyKey.root = key ∧ o.status ≠ .failed then 1 else 0 := by
  simp only [Db.liveUnder, Db.placed, List.countP_append, List.countP_singleton, Bool.and_eq_true, beq_iff_eq,
    bne_iff_ne]

/-- No call makes a second order live under a client's key, unless it repeats. -/
theorem Effect.liveUnder {c : OrderCall} (h : Effect db c db') (hk : OrderKeys db)
    (hids : (db'.orders.map (·.publicId)).Nodup) (hc : ¬ c.Repeats u k db)
    (hle : db.liveUnder (.orderKey u k) ≤ 1) : db'.liveUnder (.orderKey u k) ≤ 1 := by
  cases h with
  | moved hs => exact (hs.liveUnder_le _).trans hle
  | @placed now publicId userId request submission o key _ hf hasks hn hs href =>
    have hplaced := hs.liveUnder_le (.orderKey u k)
    rw [Db.liveUnder_placed] at hplaced
    by_cases hroot : o.idempotencyKey.root = .orderKey u k
    case neg =>
      rw [if_neg (fun h => hroot h.1)] at hplaced
      omega
    -- none lives yet, or the new one does not
    suffices hzero : db.liveUnder (.orderKey u k) = 0 ∨ db'.liveUnder (.orderKey u k) ≤ 1 by
      rcases hzero with hzero | hzero
      · rw [hzero] at hplaced
        split at hplaced <;> omega
      · exact hzero
    generalize hko : o.idempotencyKey = ko at hn
    cases hn with
    | first hnone =>
      obtain rfl : key = .orderKey u k := by
        rcases Key.root_eq (hko ▸ hroot) with hkey | ⟨t, hkey⟩
        · exact hkey
        · exact absurd hkey (OrderRequest.key_ne_retry hasks _ t)
      refine .inl (Db.liveUnder_eq_zero (fun o' ho' hk' => absurd hk' (hnone o' ho')) fun o' ho' t hk' => ?_)
      obtain ⟨o₁, ho₁, hk₁, _⟩ := hk.retried o' ho' _ t hk'
      exact absurd hk₁ (hnone o₁ ho₁)
    | @retry o₁ t ho₁ hk₁ hfailed =>
      obtain rfl : key = .orderKey u k := by simpa [hko, Key.root] using hroot
      by_cases hr : submission.refused = true
      · refine .inr ?_
        obtain ⟨o', ho', hp', hst'⟩ := href hr
        obtain ⟨g, hg, hl⟩ := hs.orders
        have hgo : g o ∈ db'.orders := hg ▸ List.mem_map_of_mem (by simp [Db.placed])
        obtain rfl : g o = o' := List.inj_on_of_nodup_map hids hgo ho'
          (((hl o (by simp [Db.placed])).publicId).trans hp'.symm)
        have hold := countP_later_le (fun o' ho' => hl o' (List.mem_append_left _ ho')) (.orderKey u k)
        have hnew : db'.liveUnder (.orderKey u k) = (db.orders.map g).countP fun o =>
            o.idempotencyKey.root == .orderKey u k && o.status != .failed := by
          simp [Db.liveUnder, hg, Db.placed, List.countP_append, hst']
        exact hnew ▸ hold.trans hle
      · obtain ⟨hu, hck⟩ := hasks.client rfl
        refine .inl (Db.liveUnder_eq_zero (fun o' ho' hk' => ?_) fun o' ho' t' hk' => ?_)
        · rwa [List.inj_on_of_nodup_map hk.once ho' ho₁ (hk'.trans hk₁.symm)]
        · by_contra hlive
          exact hc ⟨hu, hck, by simpa using hr, ⟨o₁, ho₁, hk₁, hfailed⟩, o', ho', ⟨t', hk'⟩, hlive⟩

end

end Falaron
