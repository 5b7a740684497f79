/-
A request repeated under a client's key.

Everything a request is checked for is checked before its key is looked up:
the account, the switches, the service, the price, the coupon. So a repeated
request is answered with its order only as long as it would be accepted once
more, and the coupon it uses may be one it has used up itself. An order
placed after a failed one under the same key is not under that key, and a
repetition does not find it either. `replay_returns_order_iff` says that
these are the only ways to fail.
-/
import Falaron.MarginFloor
import Falaron.OrderRun
import Falaron.OrderWrites

namespace Falaron

open Txn.Prog
open Text (clip)

/-! ## When a request is accepted -/

namespace Db

variable (db : Db)

def killed (key : String) : Bool :=
  Text.strip ((db.catalog.settings key).getD "0") ∈ ["1", "true", "True", "yes"]

structure OrdersOpen : Prop where
  maintenance : db.killed "global_maintenance" = false
  readOnly : db.killed "read_only" = false
  newOrders : db.killed "kill_new_orders" = false

variable (now : Time) (userId : Int) (request : OrderRequest)

/-- What is asked of a request, apart from its price being positive. -/
structure Checked (service : Service) (coupon : Option Coupon) : Prop where
  user : ∃ user, db.users userId = .some user ∧ user.isBanned = false ∧ user.termsAccepted = true
  ordersOpen : db.OrdersOpen
  found : db.findService request.serviceId = .some service
  provider : (db.findProvider service.providerId).any (·.isActive) = true
  link : ∃ link, validateLink request.link = .ok link
  extra : ∃ extra, validateExtra service request.extra = .ok extra
  priced : db.Quotable service request.quantity (.some userId) now request.couponCode coupon

/-- The request would be taken on, were it new: it passes every check and costs something. -/
def Accepts : Prop :=
  ∃ service coupon, db.Checked now userId request service coupon ∧
    0 < db.chargeFor service request.quantity (.some userId) coupon

end Db

section

variable {db : Db} {now : Time} {userId : Int} {request : OrderRequest} {service : Service} {coupon : Option Coupon}

/-- A request is for one service, with one coupon. -/
theorem Db.Checked.charge_of_accepts (h : db.Checked now userId request service coupon)
    (ha : db.Accepts now userId request) : 0 < db.chargeFor service request.quantity (.some userId) coupon := by
  obtain ⟨service', coupon', h', hpos⟩ := ha
  obtain rfl := Option.some.inj (h.found.symm.trans h'.found)
  rwa [h.priced.coupon.unique h'.priced.coupon]

theorem findService_id {id : String} (h : db.findService id = .some service) : service.id = id := by
  simpa using List.find?_some h

/-! ## The checks are exact -/

variable {Q : Unit → Session → Prop} {E : Err → Session → Prop}

theorem wp_assertOrdersOpen (h : db.OrdersOpen → Q () { db := db }) (hE : ¬ db.OrdersOpen → ∀ e, E e { db := db }) :
    assertOrdersOpen.wp Q E { db := db } := by
  simp only [assertOrdersOpen, killSwitches, isKillOn, wp_bind, wp_query, wp_pure', wp_require]
  split
  case isFalse hm => exact hE (fun ho => hm (by simpa [Db.killed] using ho.maintenance)) _
  next hm =>
  split
  case isFalse hr => exact hE (fun ho => hr (by simpa [Db.killed] using ho.readOnly)) _
  next hr =>
  split
  case isFalse hn => exact hE (fun ho => hn (by simpa [Db.killed] using ho.newOrders)) _
  next hn =>
  exact h ⟨by simpa [Db.killed] using hm, by simpa [Db.killed] using hr, by simpa [Db.killed] using hn⟩

/-- A request passes exactly when each check does. -/
theorem wp_checkRequest {Q : Service × String × Text.Extra × Quoted → Session → Prop}
    (h : ∀ service link extra quoted, db.Checked now userId request service quoted.coupon →
      db.Quotes service request.quantity (.some userId) quoted →
      Q (service, link, extra, quoted) { db := db })
    (hE : (∀ service coupon, ¬ db.Checked now userId request service coupon) → ∀ e, E e { db := db }) :
    (checkRequest now userId request).wp Q E { db := db } := by
  simp only [checkRequest, wp_bind, wp_query]
  split
  · next hnone =>
    refine hE (fun service coupon hc => ?_) _
    obtain ⟨user, hu, _⟩ := hc.user
    rw [hu] at hnone
    cases hnone
  next user hu =>
  have huser {service coupon} (hc : db.Checked now userId request service coupon) :
      user.isBanned = false ∧ user.termsAccepted = true := by
    obtain ⟨user', hu', h'⟩ := hc.user
    rwa [Option.some.inj (hu.symm.trans hu')]
  simp only [wp_bind, wp_require]
  split
  case isFalse hban => exact hE (fun _ _ hc => hban (by simp [(huser hc).1])) _
  next hban =>
  split
  case isFalse hterms => exact hE (fun _ _ hc => hterms (huser hc).2) _
  next hterms =>
  have hswitches := @wp_assertOrdersOpen db
  generalize assertOrdersOpen = check at hswitches
  refine hswitches (fun hopen => ?_) fun hclosed => hE fun _ _ hc => hclosed hc.ordersOpen
  simp only [wp_query]
  split
  · next hnone =>
    refine hE (fun service coupon hc => ?_) _
    rw [hc.found, Option.filter_some, if_pos hc.priced.active] at hnone
    cases hnone
  next service hfilter =>
  obtain ⟨hservice, hactive⟩ := Option.filter_eq_some_iff.mp hfilter
  have hchecked {service' coupon} (hc : db.Checked now userId request service' coupon) :
      db.Checked now userId request service coupon := by
    rwa [← Option.some.inj (hc.found.symm.trans hservice)]
  simp only [wp_bind, wp_query, wp_require]
  split
  case isFalse hprovider => exact hE (fun _ _ hc => hprovider (hchecked hc).provider) _
  next hprovider =>
  cases hlink : validateLink request.link with
  | error e => exact hE (fun _ _ hc => by obtain ⟨_, hok⟩ := hc.link; rw [hlink] at hok; cases hok) _
  | ok link =>
  cases hextra : validateExtra service request.extra with
  | error e => exact hE (fun _ _ hc => by obtain ⟨_, hok⟩ := (hchecked hc).extra; rw [hextra] at hok; cases hok) _
  | ok extra =>
  have hid : db.findService service.id = .some service := by rw [findService_id hservice, hservice]
  refine wp_quoteOrder hid (fun quoted hpriced hquotes => ?_)
    fun hpriced => hE fun _ coupon hc => hpriced coupon (hchecked hc).priced
  exact h _ _ _ _ ⟨⟨user, hu, by simpa using hban, hterms⟩, hopen, hservice, hprovider, ⟨link, hlink⟩,
    ⟨extra, hextra⟩, hpriced⟩ hquotes

end

/-! ## A repetition -/

/-- The order a successful call returns, and the tables its caller commits. -/
def placing (db : Db) (now : Time) (publicId : String) (userId : Int) (request : OrderRequest)
    (submission : Submission) : Option (Order × Db) :=
  match (placeOrder now publicId userId request submission).run { db := db } with
  | (.ok o, s) => (Txn.flushAll s.staged s.db).map fun db' => (o, db')
  | _ => .none

/-- The repeated call returns the order, and does nothing: it changes no
table, stages no change and asks no provider. -/
def Repeats (db : Db) (now : Time) (publicId : String) (userId : Int) (request : OrderRequest)
    (submission : Submission) (o : Order) : Prop :=
  ∃ o', (placeOrder now publicId userId request submission).run { db := db } = (.ok o', { db := db }) ∧
    o'.publicId = o.publicId

section

variable {db db' : Db} {now : Time} {publicId k : String} {userId : Int} {request : OrderRequest}
  {submission : Submission} {o : Order} {Q : Order → Session → Prop} {E : Err → Session → Prop}

theorem placing_run (h : placing db now publicId userId request submission = .some (o, db')) :
    ∃ s, (placeOrder now publicId userId request submission).run { db := db } = (.ok o, s) ∧
      Txn.flushAll s.staged s.db = .some db' := by
  unfold placing at h
  split at h
  · next o' s hrun =>
    obtain ⟨d, hf, heq⟩ := Option.map_eq_some_iff.mp h
    cases heq
    exact ⟨s, hrun, hf⟩
  · cases h

theorem placing_commit (h : placing db now publicId userId request submission = .some (o, db')) :
    (OrderCall.place now publicId userId request submission).prog.commit (fun _ => false) db = db' := by
  obtain ⟨s, hrun, hf⟩ := placing_run h
  have hrun' : (OrderCall.place now publicId userId request submission).prog.run { db := db } = (.ok (), s) := by
    rw [OrderCall.prog, bind_eq, run_bind, hrun]
    rfl
  rw [commit, hrun']
  simp only [hf, Option.getD_some]

/-- Placing an order under a client's key: what is asked for, what the key
leads to, and what then happens. -/
theorem wp_placeOrder_keyed (hb : OrderBooks False .none db) (hk : OrderKeys db)
    (hkey : request.idempotencyKey = .some k) (hne : k ≠ "")
    (hE : ¬ db.Accepts now userId request → ∀ e, E e { db := db })
    (hreplay : db.Accepts now userId request → ∀ o ∈ db.orders, o.idempotencyKey = .orderKey userId (clip 128 k) →
      o.status ≠ .failed → Q o { db := db })
    (hnew : db.Accepts now userId request →
      (∀ o ∈ db.orders, o.idempotencyKey = .orderKey userId (clip 128 k) → o.status = .failed) →
      ∀ user service link extra quoted key, db.users userId = .some user → 0 < quoted.quote.chargePaise →
      (key = .orderKey userId (clip 128 k) ∨ ∃ t, key = .retry (.orderKey userId (clip 128 k)) t) →
      (placeNew now publicId userId user service link extra quoted key submission).wp Q E { db := db }) :
    (placeOrder now publicId userId request submission).wp Q E { db := db } := by
  simp only [placeOrder, wp_bind]
  refine wp_checkRequest (fun service link extra quoted hchecked hquotes => ?_) fun hno => hE fun haccepts => ?_
  case refine_2 =>
    obtain ⟨service, coupon, hc, _⟩ := haccepts
    exact hno service coupon hc
  simp only [wp_require, decide_eq_true_eq]
  split
  case isFalse hfree => exact hE (fun ha => hfree (hquotes.charge ▸ hchecked.charge_of_accepts ha)) _
  next hpos =>
  have haccepts : db.Accepts now userId request := ⟨service, quoted.coupon, hchecked, hquotes.charge ▸ hpos⟩
  obtain ⟨user, hu, _⟩ := hchecked.user
  have hkeyed : request.key now userId service.id link extra quoted.quote.couponCode = .orderKey userId (clip 128 k) := by
    have hfilter : request.idempotencyKey.filter (· ≠ "") = .some k := by
      rw [hkey, Option.filter_some, if_pos (by simpa using hne)]
    simp only [OrderRequest.key, hfilter]
  simp only [lockUser, wp_bind, hkeyed]
  refine wp_flush rfl ?_
  simp only [wp_lockRow, hu, wp_pure']
  refine hk.wp_loadIdempotentOrder hb.ids rfl (fun hnone => ?_) fun o ho hko => ?_
  · exact hnew haccepts (fun o ho hko => absurd hko (hnone o ho)) user _ _ _ _ _ hu hpos (.inl rfl)
  · by_cases hf : o.status = .failed
    · have hretry : (Option.some o).filter (·.replayable) = .none := by simp [Order.replayable, hf]
      simp only [hretry]
      refine hnew haccepts (fun o' ho' hko' => ?_) user _ _ _ _ _ hu hpos (.inr ⟨now, rfl⟩)
      rwa [List.inj_on_of_nodup_map hk.once ho' ho (hko'.trans hko.symm)]
    · have hold : (Option.some o).filter (·.replayable) = .some o := by simp [Order.replayable, hf]
      simp only [hold]
      exact hreplay haccepts o ho hko hf

/-- An order that was placed under a client's key has that key, or is a retry of it. -/
theorem placing_key (hb : OrderBooks False .none db) (hk : OrderKeys db)
    (hkey : request.idempotencyKey = .some k) (hne : k ≠ "")
    (h : placing db now publicId userId request submission = .some (o, db')) :
    o ∈ db'.orders ∧ (o.idempotencyKey = .orderKey userId (clip 128 k) ∨
      ∃ t, o.idempotencyKey = .retry (.orderKey userId (clip 128 k)) t) := by
  obtain ⟨s, hrun, hf⟩ := placing_run h
  let Q (o : Order) (s : Session) : Prop := s.Will fun s' => o ∈ s'.db.orders ∧
    (o.idempotencyKey = .orderKey userId (clip 128 k) ∨ ∃ t, o.idempotencyKey = .retry (.orderKey userId (clip 128 k)) t)
  have hwp : (placeOrder now publicId userId request submission).wp Q (fun _ _ => True) { db := db } := by
    refine wp_placeOrder_keyed hb hk hkey hne (fun _ _ => trivial) (fun _ o ho hko _ => .of rfl ⟨ho, .inl hko⟩)
      fun _ _ user service link extra quoted key hu hpos hkey => ?_
    refine wp_placeNew hb hu hpos (fun _ _ _ => trivial) fun o₀ o f s hfresh hp₀ hk₀ hp _ hw _ => ?_
    refine hw.will.mono fun s' hat => ⟨hat.mem, ?_⟩
    -- the order's row comes from the row that was inserted
    obtain ⟨o₁, ho₁, hl⟩ := hat.since.origin hat.mem
    obtain rfl : o₁ = o₀ := by
      rcases List.mem_append.mp ho₁ with ho₁ | ho₁
      · exact absurd (hl.publicId.symm.trans (hp.trans hp₀.symm)) (hfresh o₁ ho₁).1
      · exact List.mem_singleton.mp ho₁
    rw [hl.idempotencyKey, hk₀]
    exact hkey
  exact wp_ok hwp hrun db' hf

/-- A repetition that succeeds finds the order under the key, and is accepted. -/
theorem Repeats.accepted (hb : OrderBooks False .none db) (hk : OrderKeys db)
    (hkey : request.idempotencyKey = .some k) (hne : k ≠ "") (ho : o ∈ db.orders)
    (h : Repeats db now publicId userId request submission o) :
    o.idempotencyKey = .orderKey userId (clip 128 k) ∧ db.Accepts now userId request := by
  obtain ⟨o', hrun, hid⟩ := h
  let Q (o' : Order) (s : Session) : Prop := s = { db := db } → o'.publicId = o.publicId →
    o.idempotencyKey = .orderKey userId (clip 128 k) ∧ db.Accepts now userId request
  have hwp : (placeOrder now publicId userId request submission).wp Q (fun _ _ => True) { db := db } := by
    refine wp_placeOrder_keyed hb hk hkey hne (fun _ _ => trivial) (fun ha o' ho' hko' _ _ hid => ?_)
      fun _ _ user service link extra quoted key hu hpos _ => ?_
    · rw [← List.inj_on_of_nodup_map hb.ids ho' ho hid]
      exact ⟨hko', ha⟩
    · refine wp_placeNew hb hu hpos (fun _ _ _ => trivial) fun o₀ o' f s hfresh hp₀ _ hp _ _ _ _ hid => ?_
      exact absurd (hid.symm.trans (hp.trans hp₀.symm)) (hfresh o ho).1
  exact wp_ok hwp hrun rfl hid

/-- An accepted repetition finds the order that stands under the key. -/
theorem Db.Accepts.repeats (hb : OrderBooks False .none db) (hk : OrderKeys db)
    (hkey : request.idempotencyKey = .some k) (hne : k ≠ "") (ho : o ∈ db.orders) (hlive : o.status ≠ .failed)
    (hko : o.idempotencyKey = .orderKey userId (clip 128 k)) (ha : db.Accepts now userId request) :
    Repeats db now publicId userId request submission o := by
  have hwp : (placeOrder now publicId userId request submission).wp (fun o' s => s = { db := db } ∧ o' = o)
      (fun _ _ => False) { db := db } := by
    refine wp_placeOrder_keyed hb hk hkey hne (fun hno => absurd ha hno) (fun _ o' ho' hko' _ => ⟨rfl, ?_⟩)
      fun _ hfailed => absurd (hfailed o ho hko) hlive
    exact List.inj_on_of_nodup_map hk.once ho' ho (hko'.trans hko.symm)
  unfold wp at hwp
  split at hwp
  · next o' s hrun =>
    obtain ⟨rfl, rfl⟩ := hwp
    exact ⟨o', hrun, rfl⟩
  · exact hwp.elim

end

/-- **Exactly when a repeated request is answered with its order**, and with
nothing else done, in any later state in which the order has not failed: when
it would be accepted once more, and no attempt under its key has failed. -/
theorem replay_returns_order_iff {db₀ db₁ db₂ db₃ : Db} {now now' : Time} {publicId publicId' k : String} {userId : Int}
    {request : OrderRequest} {submission submission' : Submission} {o o₃ : Order} (h₀ : Opening db₀)
    (h₁ : OrderRun (fun _ _ => True) db₀ db₁) (hkey : request.idempotencyKey = .some k) (hne : k ≠ "")
    (hplaced : placing db₁ now publicId userId request submission = .some (o, db₂))
    (h₂ : OrderRun (fun _ _ => True) db₂ db₃) (ho : o₃ ∈ db₃.orders) (hid : o₃.publicId = o.publicId)
    (hlive : o₃.status ≠ .failed) :
    Repeats db₃ now' publicId' userId request submission' o ↔
      db₃.Accepts now' userId request ∧
        ∀ o' ∈ db₃.orders, o'.idempotencyKey = .orderKey userId (clip 128 k) → o'.status ≠ .failed := by
  obtain ⟨hb₁, hk₁⟩ : OrderBooks False .none db₁ ∧ OrderKeys db₁ := h₁.sound h₀ fun hf => hf.elim
  have hrun₂ : OrderRun (fun _ _ => True) db₀ db₂ := by
    have hcall : OrderRun (fun _ _ => True) db₀
        ((OrderCall.place now publicId userId request submission).prog.commit (fun _ => false) db₁) :=
      .call _ h₁ (fun _ he => by cases he) trivial
    rwa [placing_commit hplaced] at hcall
  have hsound₂ : OrderBooks False .none db₂ ∧ OrderKeys db₂ := hrun₂.sound h₀ fun hf => hf.elim
  obtain ⟨hb₃, hk₃⟩ := h₂.keeps (fun hf => hf.elim) hsound₂
  -- the order has kept its key
  obtain ⟨ho₂, hkeyed⟩ := placing_key hb₁ hk₁ hkey hne hplaced
  obtain ⟨o', ho', hl⟩ := h₂.later hsound₂ o ho₂
  obtain rfl : o' = o₃ := List.inj_on_of_nodup_map hb₃.ids ho' ho (hl.publicId.trans hid.symm)
  rw [← hl.idempotencyKey] at hkeyed
  have hsame : Repeats db₃ now' publicId' userId request submission' o ↔
      Repeats db₃ now' publicId' userId request submission' o' := by
    rw [Repeats, Repeats, hid]
  rw [hsame]
  constructor
  · intro h
    obtain ⟨hko, ha⟩ := h.accepted hb₃ hk₃ hkey hne ho
    refine ⟨ha, fun o'' ho'' hko'' => ?_⟩
    rwa [List.inj_on_of_nodup_map hk₃.once ho'' ho (hko''.trans hko.symm)]
  · rintro ⟨ha, hnone⟩
    refine ha.repeats hb₃ hk₃ hkey hne ho hlive (hkeyed.resolve_right ?_)
    rintro ⟨t, ht⟩
    obtain ⟨o₁, ho₁, hk₁, hf₁⟩ := hk₃.retried o' ho _ t ht
    exact hnone o₁ ho₁ hk₁ hf₁

/-! ## Two requests -/

/-- The shop takes an order for likes from user 7, as long as its catalog is what it was. -/
theorem shop_accepts {db : Db} {key : String} (hcatalog : db.catalog = shop.catalog) (hresellers : ∀ u, db.resellers u = .none)
    (huser : (db.users 7).map (fun u => (u.isBanned, u.termsAccepted)) = .some (false, true)) (now : Time) :
    db.Accepts now 7 (likesFor key) := by
  obtain ⟨user, hu, hflags⟩ := Option.map_eq_some_iff.mp huser
  obtain ⟨hban, hterms⟩ := Prod.mk.inj hflags
  refine ⟨likes, .none, ⟨⟨user, hu, hban, hterms⟩, ⟨?_, ?_, ?_⟩, ?_, ?_, ⟨"https://t.me/x", ?_⟩, ⟨[], ?_⟩, ?_⟩, ?_⟩
  · rw [Db.killed, hcatalog]; decide +kernel
  · rw [Db.killed, hcatalog]; decide +kernel
  · rw [Db.killed, hcatalog]; decide +kernel
  · rw [Db.findService, hcatalog]; rfl
  · rw [Db.findProvider, hcatalog]; decide +kernel
  · have hlink : (validateLink "https://t.me/x") = .ok "https://t.me/x" := by decide +kernel
    exact hlink
  · have hextra : validateExtra likes [] = .ok [] := by decide +kernel
    exact hextra
  · have hstars (u : Option Int) : starsOf likes.id u db = [] := by rw [starsOf, hcatalog]; rfl
    exact ⟨rfl, show (10 : Int) ≤ 1000 ∧ (1000 : Int) ≤ 10000 by decide, ⟨fun u _ => by simp [hstars], fun _ => by simp [hstars]⟩, rfl⟩
  · have hrate : db.sellRate likes (.some 7) = shop.sellRate likes (.some 7) := by
      simp only [Db.sellRate, Db.retailRate, Db.starFor, Db.markupFor, Db.minMargin, Db.findCategory, Db.findProvider, starsOf,
        hcatalog, Option.bind_some, hresellers]
      rfl
    have hpos : 0 < max 0 (scaleToQty (shop.sellRate likes (.some 7)) 1000 - 0) := by decide +kernel
    rw [Db.chargeFor, Db.subtotal, hrate]
    exact hpos

/-- An order under a key, repeated when it is completed. -/
theorem replay_returns_order_of_shop :
    ∃ o, placing shop 0 "A" 7 (likesFor "a") (.taken "1") =
        .some (o, afterCalls shop [.place 0 "A" 7 (likesFor "a") (.taken "1")]) ∧
      Repeats (afterCalls shop [.place 0 "A" 7 (likesFor "a") (.taken "1"),
        .sync 5 "A" (.ok ⟨.completed, .none, .none, by decide⟩)]) 6 "B" 7 (likesFor "a") (.taken "2") o := by
  have hplaced : (placing shop 0 "A" 7 (likesFor "a") (.taken "1")).map (·.1.publicId) = .some "A" := by decide +kernel
  obtain ⟨⟨o, db₂⟩, hplacing, hid⟩ := Option.map_eq_some_iff.mp hplaced
  obtain rfl : afterCalls shop [.place 0 "A" 7 (likesFor "a") (.taken "1")] = db₂ := placing_commit hplacing
  let db := afterCalls shop [.place 0 "A" 7 (likesFor "a") (.taken "1"),
    .sync 5 "A" (.ok ⟨.completed, .none, .none, by decide⟩)]
  have hhouse : shop.SameHouse db := (OrderCall.sameHouse _ _ _).trans (OrderCall.sameHouse _ _ _)
  have hrun : OrderRun (fun _ _ => True) (afterCalls shop [.place 0 "A" 7 (likesFor "a") (.taken "1")]) db :=
    .call _ .start (fun _ he => by cases he) trivial
  have hkeys : ∀ o' ∈ db.orders, o'.idempotencyKey = .orderKey 7 (clip 128 "a") ∧ o'.status ≠ .failed ∧ o'.publicId = "A" := by
    decide +kernel
  have hsome : db.orders ≠ [] := by decide +kernel
  obtain ⟨o₃, ho₃⟩ := List.exists_mem_of_ne_nil _ hsome
  obtain ⟨_, hlive, hid₃⟩ := hkeys o₃ ho₃
  refine ⟨o, hplacing, (replay_returns_order_iff shop_opening .start rfl (by decide) hplacing hrun ho₃
    (hid₃.trans hid.symm) hlive).mpr ⟨?_, fun o' ho' _ => (hkeys o' ho').2.1⟩⟩
  exact shop_accepts hhouse.catalog (fun u => congrFun hhouse.resellers u) (by decide +kernel) 6

/-- The shop with a coupon of 10%, once per user. -/
def couponShop : Db :=
  { shop with coupons := fun code =>
      if code = "ONCE" then .some ⟨"ONCE", true, 10, .none, 0, 1, 0, true, .none⟩ else .none }

/-- An order of a thousand likes with a coupon. -/
def likesWith (key coupon : String) : OrderRequest := { likesFor key with couponCode := .some coupon }

theorem couponShop_opening : Opening couponShop :=
  ⟨rfl, rfl, fun _ => rfl, shop_opening.wallets⟩

/-- An order with a coupon that each user may redeem once. The same request, sent again, is refused for the coupon. -/
theorem own_coupon_refused :
    ∃ o db₂, Opening couponShop ∧ placing couponShop 0 "A" 7 (likesWith "a" "once") (.taken "1") = .some (o, db₂) ∧
      o ∈ db₂.orders ∧ o.status ≠ .failed ∧
      ¬ Repeats db₂ 1 "B" 7 (likesWith "a" "once") (.taken "2") o ∧
      ((placeOrder 1 "B" 7 (likesWith "a" "once") (.taken "2")).run { db := db₂ }).1 =
        .error (.value "You have already used this coupon") := by
  have hplaced : (placing couponShop 0 "A" 7 (likesWith "a" "once") (.taken "1")).map (fun (o, db₂) =>
      (decide (o ∈ db₂.orders), o.status, ((placeOrder 1 "B" 7 (likesWith "a" "once") (.taken "2")).run { db := db₂ }).1)) =
      .some (true, .processing, .error (.value "You have already used this coupon")) := by decide +kernel
  obtain ⟨⟨o, db₂⟩, hplacing, heq⟩ := Option.map_eq_some_iff.mp hplaced
  simp only [Prod.mk.injEq, decide_eq_true_eq] at heq
  obtain ⟨ho, hst, hrun⟩ := heq
  refine ⟨o, db₂, couponShop_opening, hplacing, ho, by rw [hst]; decide, fun ⟨o', hrepeat, _⟩ => ?_, hrun⟩
  rw [hrepeat] at hrun
  cases hrun

end Falaron
