/-
Coupons with an owner, over runs that create coupons, transfer them and
redeem them.

Only the owner can transfer a coupon, which makes another user its owner. The
check of a redemption does not look at the owner: whoever knows the code
redeems it, a former owner included. `owners_redeem` is about runs in which
every attempt on somebody else's coupon fails on one of the other checks.

The bot creates coupons without an owner; here any row can be created that
the columns hold.
-/
import Falaron.CouponLimits

namespace Falaron.Core

open Py (Decimal)
open Txn.Prog (wp wp_bind wp_query)

namespace Err

def couponTransfer (repr : String → String) (code : String) (fromUserId : Int) : Err :=
  .smm (.other "CouponTransferError")
    ("Coupon " ++ repr code ++ " not found, not owned by " ++ toString fromUserId ++ ", or not transferable")
    "Coupon cannot be transferred."

def couponHasExpired (repr : String → String) (code : String) : Err :=
  .smm (.other "CouponExpiredError") ("Coupon " ++ repr code ++ " has expired") "This coupon has expired."

end Err

namespace Stmt

/-- The id is the next one, the code is unique. -/
def insertCoupon (c : Coupon) : Stmt :=
  ⟨[], fun db => db.coupons.all (fun x => x.id ≠ c.id && x.code ≠ c.code) && shortEnough 32 c.code &&
      fits c.discountValue && c.maxDiscount.all fits && c.minSpend.all fits,
    fun db => { db with coupons := db.coupons ++ [c] }⟩

def setCouponOwner (id owner : Int) : Stmt :=
  ⟨[], fun _ => -(2 ^ 63) ≤ owner && owner < 2 ^ 63,
    fun db => { db with
      coupons := db.coupons.map fun c => if c.id = id then { c with ownerUserId := some owner } else c }⟩

end Stmt

/-- What `code` is looked up as. -/
def couponCode (code : String) : String := Text.upper (Text.strip code)

def Db.findTransferable (db : Db) (code : String) (fromUserId : Int) : Option Coupon :=
  db.coupons.find? fun c =>
    c.code == couponCode code && c.isActive && c.isTransferable && c.ownerUserId == some fromUserId

def createCoupon (c : Coupon) : M Unit := do
  .write (Stmt.insertCoupon c)
  flush

structure TransferArgs where
  code : String
  fromUserId : Int
  toUserId : Int

/-- `transfer_coupon` -/
def transferCoupon (repr : String → String) (now : Time) (a : TransferArgs) : M Unit := do
  match ← .query (·.findTransferable a.code a.fromUserId) with
  | none => raise (.couponTransfer repr a.code a.fromUserId)
  | some coupon =>
    if coupon.expiresAt.any (· < now) then raise (.couponHasExpired repr a.code)
    else
      .write (Stmt.setCouponOwner coupon.id a.toUserId)
      flush

/-! ## Runs -/

inductive CouponCall where
  | create (coupon : Coupon) (keep : Bool)
  | transfer (now : Time) (a : TransferArgs) (keep : Bool)
  | apply (c : RedeemCall)

section

variable (repr : String → String)

def CouponCall.step (db : Db) : CouponCall → Db
  | .create coupon keep => (createCoupon coupon).commit (keptAfter keep) db
  | .transfer now a keep => (transferCoupon repr now a).commit (keptAfter keep) db
  | .apply c => c.step repr db

def couponRun (start : Db) (calls : List CouponCall) : Db := calls.foldl (CouponCall.step repr) start

/-- The call raises, and leaves the tables as they are. -/
def RedeemCall.Rejected (db : Db) (c : RedeemCall) : Prop :=
  (∃ e s, (applyCoupon repr c.now c.args).run { db := db } = (.error e, s)) ∧ c.step repr db = db

/-- The coupon is somebody else's. -/
def RedeemCall.Foreign (db : Db) (c : RedeemCall) : Prop :=
  ∃ coupon owner, db.findCoupon c.args.code = some coupon ∧ coupon.ownerUserId = some owner ∧ c.args.userId ≠ owner

/-- An attempt on somebody else's coupon is not under a used key, and fails on one of the checks there are. -/
def RedeemCall.Guarded (db : Db) (c : RedeemCall) : Prop :=
  c.Foreign db → (∀ r ∈ db.redemptions, r.idempotencyKey ≠ c.args.key) ∧
    ∀ coupon discount, ¬ c.Passes repr db coupon discount

/-- The transfer goes through. -/
def TransferArgs.Done (db : Db) (now : Time) (a : TransferArgs) : Prop :=
  ∃ s, (transferCoupon repr now a).run { db := db } = (.ok (), s)

end

/-- The keys of the coupons, by which each is found. -/
structure Db.CouponsKeyed (db : Db) : Prop where
  ids : (db.coupons.map (·.id)).Nodup
  codes : (db.coupons.map (·.code)).Nodup

/-! ## A redemption -/

section

variable {repr : String → String} {db : Db} {c : RedeemCall}

theorem RedeemCall.rejected_of (hnew : ∀ r ∈ db.redemptions, r.idempotencyKey ≠ c.args.key)
    (hnone : ∀ coupon discount, ¬ c.Passes repr db coupon discount) : c.Rejected repr db := by
  have hwp : (applyCoupon repr c.now c.args).wp (fun _ _ => False) (fun _ _ => True) { db := db } :=
    wp_applyCoupon rfl (fun _ => trivial) (fun _ => trivial) (fun r hr hk => hnew r hr hk)
      fun coupon discount hvalid hworth hadmits =>
        hnone coupon discount ((admits_iff hvalid hworth).mp hadmits).2
  constructor
  · cases hrun : (applyCoupon repr c.now c.args).run { db := db } with
    | mk result s =>
      cases result with
      | ok d => exact (Txn.Prog.wp_ok hwp hrun).elim
      | error e => exact ⟨e, s, rfl⟩
  · rcases c.step_cases repr db with hsame | ⟨coupon, discount, hpass, -, -⟩
    · exact hsame
    · exact absurd hpass (hnone coupon discount)

theorem applyCoupon_replay {a : RedeemArgs} {now : Time} {r : CouponRedemption}
    (h : db.redemptions.find? (·.idempotencyKey == a.key) = some r) :
    (applyCoupon repr now a).run { db := db } = (.ok (money r.discountApplied), { db := db }) := by
  unfold applyCoupon
  simp only [Txn.Prog.bind_eq, Txn.Prog.query, Txn.Prog.bind, Txn.Prog.run, h, Txn.Prog.pure_eq]

/-- The condition is exact: it is that attempts on somebody else's coupon are rejected. -/
theorem RedeemCall.guarded_iff : c.Guarded repr db ↔ (c.Foreign db → c.Rejected repr db) := by
  refine forall_congr' fun _ => ⟨fun h => rejected_of h.1 h.2, fun ⟨⟨e, s, hrun⟩, _⟩ => ?_⟩
  have hnew : ∀ r ∈ db.redemptions, r.idempotencyKey ≠ c.args.key := by
    intro r hr hk
    obtain ⟨x, hx⟩ : ∃ x, db.redemptions.find? (·.idempotencyKey == c.args.key) = some x :=
      Option.isSome_iff_exists.mp (List.find?_isSome.mpr ⟨r, hr, by simpa using hk⟩)
    rw [applyCoupon_replay hx] at hrun
    cases hrun
  refine ⟨hnew, fun coupon discount hpass => ?_⟩
  rw [c.run_of_passes hpass hnew] at hrun
  cases hrun

end

/-! ## The other calls -/

section

variable {repr : String → String} {db : Db} {now : Time} {a : TransferArgs}

theorem createCoupon_cases (coupon : Coupon) (keep : Bool) :
    (createCoupon coupon).commit (keptAfter keep) db = db ∨
      (∀ x ∈ db.coupons, x.id ≠ coupon.id ∧ x.code ≠ coupon.code) ∧
        (createCoupon coupon).commit (keptAfter keep) db = { db with coupons := db.coupons ++ [coupon] } := by
  refine Txn.Prog.commit_of_ended (P := fun db' => db' = db ∨
    (∀ x ∈ db.coupons, x.id ≠ coupon.id ∧ x.code ≠ coupon.code) ∧
      db' = { db with coupons := db.coupons ++ [coupon] }) (.inl rfl) ?_
  refine wp_written (k := pure ()) rfl (fun _ h => by simp [keptAfter] at h) fun hadmits => ⟨rfl, .inr ⟨?_, rfl⟩⟩
  simp only [Stmt.insertCoupon, Bool.and_eq_true, List.all_eq_true, decide_eq_true_iff] at hadmits
  exact hadmits.1.1.1.1

theorem Db.findTransferable_some {coupon : Coupon} (h : db.findTransferable a.code a.fromUserId = some coupon) :
    coupon ∈ db.coupons ∧ coupon.code = couponCode a.code ∧ coupon.isActive = true ∧
      coupon.ownerUserId = some a.fromUserId := by
  have hp := List.find?_some h
  simp only [Bool.and_eq_true, beq_iff_eq] at hp
  exact ⟨List.mem_of_find?_eq_some h, hp.1.1.1, hp.1.1.2, hp.2⟩

theorem wp_transferCoupon {Q : Unit → Session → Prop} {E : Err → Session → Prop} (hE : ∀ e, E e { db := db })
    (hdb : ∀ s', E .database s')
    (hQ : ∀ coupon, db.findTransferable a.code a.fromUserId = some coupon →
      Q () { db := (Stmt.setCouponOwner coupon.id a.toUserId).apply db }) :
    (transferCoupon repr now a).wp Q E { db := db } := by
  unfold transferCoupon
  rw [wp_bind, wp_query]
  cases hfind : db.findTransferable a.code a.fromUserId with
  | none => exact hE _
  | some coupon =>
    dsimp only
    split
    · exact hE _
    · exact wp_written (k := pure ()) rfl hdb fun _ => hQ coupon hfind

theorem transferCoupon_cases (keep : Bool) : (transferCoupon repr now a).commit (keptAfter keep) db = db ∨
    ∃ coupon, db.findTransferable a.code a.fromUserId = some coupon ∧
      (transferCoupon repr now a).commit (keptAfter keep) db = (Stmt.setCouponOwner coupon.id a.toUserId).apply db := by
  refine Txn.Prog.commit_of_ended (P := fun db' => db' = db ∨ ∃ coupon,
    db.findTransferable a.code a.fromUserId = some coupon ∧
      db' = (Stmt.setCouponOwner coupon.id a.toUserId).apply db) (.inl rfl) ?_
  exact wp_transferCoupon (fun _ _ => ⟨rfl, .inl rfl⟩) (fun _ h => by simp [keptAfter] at h)
    fun coupon hfind => ⟨rfl, .inr ⟨coupon, hfind, rfl⟩⟩

/-- A transfer that goes through makes the other user the owner. -/
theorem TransferArgs.Done.step (h : a.Done repr db now) (keep : Bool) : ∃ coupon,
    db.findTransferable a.code a.fromUserId = some coupon ∧
      (transferCoupon repr now a).commit (keptAfter keep) db = (Stmt.setCouponOwner coupon.id a.toUserId).apply db := by
  obtain ⟨s, hrun⟩ := h
  have hwp : (transferCoupon repr now a).wp (fun _ s => s.staged = [] ∧ ∃ coupon,
      db.findTransferable a.code a.fromUserId = some coupon ∧
        s.db = (Stmt.setCouponOwner coupon.id a.toUserId).apply db) (fun _ _ => True) { db := db } :=
    wp_transferCoupon (fun _ => trivial) (fun _ => trivial) fun coupon hfind => ⟨rfl, coupon, hfind, rfl⟩
  obtain ⟨hstaged, coupon, hfind, hdb⟩ := Txn.Prog.wp_ok hwp hrun
  refine ⟨coupon, hfind, ?_⟩
  rw [Txn.Prog.commit, hrun]
  simp only [hstaged]
  exact hdb

/-! ## The owner of a coupon -/

theorem findCoupon_setCouponOwner (id owner : Int) (code : String) :
    ((Stmt.setCouponOwner id owner).apply db).findCoupon code =
      (db.findCoupon code).map fun c => if c.id = id then { c with ownerUserId := some owner } else c := by
  have hsame : ((fun c : Coupon => c.code == Text.upper (Text.strip code) && c.isActive) ∘ fun c : Coupon =>
      if c.id = id then { c with ownerUserId := some owner } else c) =
      fun c => c.code == Text.upper (Text.strip code) && c.isActive := by
    funext c
    rw [Function.comp_apply]
    split <;> dsimp only
  unfold Db.findCoupon Stmt.setCouponOwner
  dsimp only
  rw [List.find?_map, hsame]

theorem Db.findCoupon_some {code : String} {coupon : Coupon} (h : db.findCoupon code = some coupon) :
    coupon ∈ db.coupons ∧ coupon.code = couponCode code := by
  have hp := List.find?_some h
  simp only [Bool.and_eq_true, beq_iff_eq] at hp
  exact ⟨List.mem_of_find?_eq_some h, hp.1⟩

/-- What can be transferred is what the code finds. -/
theorem Db.CouponsKeyed.findCoupon (h : db.CouponsKeyed) {coupon : Coupon}
    (hfind : db.findTransferable a.code a.fromUserId = some coupon) : db.findCoupon a.code = some coupon := by
  obtain ⟨hmem, hcode, hactive, -⟩ := Db.findTransferable_some hfind
  obtain ⟨found, hfound⟩ : ∃ found, db.findCoupon a.code = some found := by
    refine Option.isSome_iff_exists.mp (List.find?_isSome.mpr ⟨coupon, hmem, ?_⟩)
    simp [hactive, hcode, couponCode]
  obtain ⟨hin, hsame⟩ := Db.findCoupon_some hfound
  rw [hfound, List.inj_on_of_nodup_map h.codes hin hmem (hsame.trans hcode.symm)]

/-- The coupon of the code is owned, and not by this user. -/
def Db.OwnedByOther (db : Db) (code : String) (userId : Int) : Prop :=
  ∃ coupon owner, db.findCoupon code = some coupon ∧ coupon.ownerUserId = some owner ∧ owner ≠ userId

/-- The call makes this user the owner of the code's coupon again. -/
def CouponCall.Returns (code : String) (userId : Int) : CouponCall → Prop
  | .transfer _ a _ => couponCode a.code = couponCode code ∧ a.toUserId = userId
  | _ => False

variable {call : CouponCall}

theorem CouponCall.step_keyed (h : db.CouponsKeyed) : (call.step repr db).CouponsKeyed := by
  cases call with
  | create coupon keep =>
    show ((createCoupon coupon).commit (keptAfter keep) db).CouponsKeyed
    rcases createCoupon_cases coupon keep with hsame | ⟨hnew, hstep⟩
    · rw [hsame]
      exact h
    · rw [hstep]
      constructor
      · rw [List.map_append, List.map_singleton]
        exact List.nodup_append.mpr ⟨h.ids, List.nodup_singleton _, by
          simpa using fun x hx => (hnew x hx).1⟩
      · rw [List.map_append, List.map_singleton]
        exact List.nodup_append.mpr ⟨h.codes, List.nodup_singleton _, by
          simpa using fun x hx => (hnew x hx).2⟩
  | transfer now a keep =>
    show ((transferCoupon repr now a).commit (keptAfter keep) db).CouponsKeyed
    rcases transferCoupon_cases keep with hsame | ⟨coupon, -, hstep⟩
    · rw [hsame]
      exact h
    · have hkept : ∀ {α : Type} (f : Coupon → α) (x : Coupon),
          (∀ o, f { x with ownerUserId := o } = f x) →
          f (if x.id = coupon.id then { x with ownerUserId := some a.toUserId } else x) = f x := by
        intro α f x hf
        split
        · exact hf _
        · rfl
      rw [hstep]
      constructor
      · simp only [Stmt.setCouponOwner, List.map_map, Function.comp_def, hkept (·.id) _ fun _ => rfl]
        exact h.ids
      · simp only [Stmt.setCouponOwner, List.map_map, Function.comp_def, hkept (·.code) _ fun _ => rfl]
        exact h.codes
  | apply c =>
    show (c.step repr db).CouponsKeyed
    exact ⟨by rw [c.step_coupons]; exact h.ids, by rw [c.step_coupons]; exact h.codes⟩

/-- A coupon stays somebody else's until it is transferred back. -/
theorem Db.OwnedByOther.step {code : String} {userId : Int} (h : db.OwnedByOther code userId) (hkeyed : db.CouponsKeyed)
    (hcall : ¬ call.Returns code userId) : (call.step repr db).OwnedByOther code userId := by
  obtain ⟨coupon, owner, hfind, howner, hne⟩ := h
  cases call with
  | create new keep =>
    show ((createCoupon new).commit (keptAfter keep) db).OwnedByOther code userId
    rcases createCoupon_cases new keep with hsame | ⟨-, hstep⟩
    · rw [hsame]
      exact ⟨coupon, owner, hfind, howner, hne⟩
    · rw [hstep]
      refine ⟨coupon, owner, ?_, howner, hne⟩
      rw [Db.findCoupon, List.find?_append]
      exact (congrArg (Option.or · _) hfind).trans rfl
  | transfer now a keep =>
    show ((transferCoupon repr now a).commit (keptAfter keep) db).OwnedByOther code userId
    rcases transferCoupon_cases keep with hsame | ⟨moved, hmoved, hstep⟩
    · rw [hsame]
      exact ⟨coupon, owner, hfind, howner, hne⟩
    · rw [hstep, Db.OwnedByOther, findCoupon_setCouponOwner, hfind]
      by_cases hid : coupon.id = moved.id
      · obtain ⟨hin, hcode⟩ := Db.findCoupon_some hfind
        obtain ⟨hin', hcode', -, -⟩ := Db.findTransferable_some hmoved
        obtain rfl : coupon = moved := List.inj_on_of_nodup_map hkeyed.ids hin hin' hid
        exact ⟨_, a.toUserId, rfl, by simp, fun hback => hcall ⟨hcode'.symm.trans hcode, hback⟩⟩
      · exact ⟨coupon, owner, by simp [hid], howner, hne⟩
  | apply c =>
    refine ⟨coupon, owner, ?_, howner, hne⟩
    show (c.step repr db).findCoupon code = some coupon
    rw [Db.findCoupon, c.step_coupons]
    exact hfind

/-- After a transfer to somebody else the coupon is somebody else's. -/
theorem TransferArgs.Done.ownedByOther (h : a.Done repr db now) (hkeyed : db.CouponsKeyed)
    (hne : a.toUserId ≠ a.fromUserId) (keep : Bool) :
    ((transferCoupon repr now a).commit (keptAfter keep) db).OwnedByOther a.code a.fromUserId := by
  obtain ⟨coupon, hfind, hstep⟩ := h.step keep
  rw [hstep, Db.OwnedByOther, findCoupon_setCouponOwner, hkeyed.findCoupon hfind]
  exact ⟨_, a.toUserId, rfl, by simp, hne⟩

/-! ## Runs of calls -/

theorem couponRun_keyed {start : Db} {calls : List CouponCall} (h : start.CouponsKeyed) :
    (couponRun repr start calls).CouponsKeyed :=
  @Txn.foldl_keeps _ _ (CouponCall.step repr) Db.CouponsKeyed (fun _ _ => True)
    (fun _ _ hdb _ => CouponCall.step_keyed hdb) start calls h fun _ _ _ _ => trivial

theorem couponRun_ownedByOther {start : Db} {calls : List CouponCall} {code : String} {userId : Int}
    (h : start.OwnedByOther code userId) (hkeyed : start.CouponsKeyed)
    (hcalls : ∀ call ∈ calls, ¬ call.Returns code userId) : (couponRun repr start calls).OwnedByOther code userId := by
  refine (@Txn.foldl_keeps _ _ (CouponCall.step repr) (fun db => db.CouponsKeyed ∧ db.OwnedByOther code userId)
    (fun _ call => ¬ call.Returns code userId)
    (fun db call hdb hcall => ⟨CouponCall.step_keyed hdb.1, hdb.2.step hdb.1 hcall⟩) start calls ⟨hkeyed, h⟩ ?_).2
  rintro done call rest rfl
  exact hcalls call (by simp)

theorem couponRun_append (start : Db) (calls calls' : List CouponCall) :
    couponRun repr start (calls ++ calls') = couponRun repr (couponRun repr start calls) calls' :=
  List.foldl_append ..

end

/-! ## A coupon that was given away -/

/-- A coupon of user 7, who may give it away. -/
def ownTen : Coupon := { twiceTen with isTransferable := true, ownerUserId := some 7 }

def giveAway : CouponCall := .transfer 0 ⟨"save10", 7, 8⟩ false

def redeemedBy (userId : Int) : RedeemCall :=
  ⟨0, { code := "SAVE10", userId := userId, orderId := "o1", orderTotal := ⟨10000, -2⟩ }, false⟩

/-- The coupon is created and given away. -/
def gift : List CouponCall := [.create ownTen false, giveAway]

theorem gift_run : (couponRun id {} gift).coupons = [{ ownTen with ownerUserId := some 8 }] := by decide +kernel

theorem gift_found : (couponRun id {} gift).findCoupon "SAVE10" = some { ownTen with ownerUserId := some 8 } := by
  rw [Db.findCoupon, gift_run]
  decide +kernel

end Falaron.Core
