/-
Creating an invoice, all of it or nothing.

The row goes in before the gateway is looked for and asked. When the gateway
refuses, the row is deleted again; when it is not configured, or raises
anything but its own error, the row stays, and a caller that catches the
error commits it. An invoice left so is what a repeated request gets.
`all_or_nothing_iff` says when none of this happens.
-/
import Falaron.PaymentSpecs
import Falaron.Replay

namespace Falaron

open Txn.Prog hiding pure

/-- What comes of asking a gateway for a checkout: its answer or its error, or
an error of another kind. -/
inductive GatewayReply where
  | answers (checkout : Except String Checkout)
  | raises (e : Err)

/-- `openCheckout`, whatever the gateway does: only its own error is caught. -/
def openCheckoutWith (settings : Settings) (gateway : Option String) (p : Payment) : GatewayReply → M Payment
  | .answers checkout => openCheckout settings gateway p checkout
  | .raises e => do
    match ← gatewayOr gateway settings with
    | .none => raise (.deposit "Online payments are not configured")
    | .some _ =>
      .call (.createCheckout p.publicId p.amountPaise)
      raise e

def insertInvoiceWith (settings : Settings) (gateway : Option String) (p : Payment) (reply : GatewayReply) :
    M Payment := do
  .write (Stmt.insertPayment p)
  flush
  if settings.paymentGateway = .razorpay then openCheckoutWith settings gateway p reply
  else pure p

/-- `createDeposit`, whatever the gateway does. -/
def createDepositWith (now : Time) (publicId : String) (user : User) (amountPaise : Int) (settings : Settings)
    (idempotencyKey : Option String) (gateway : Option String) (reply : GatewayReply) : M Payment := do
  .require (!user.isBanned) (.deposit "This account is suspended")
  .require user.termsAccepted (.deposit "Please accept the Terms of Service and Privacy Policy first")
  assertPaymentsOpen
  let lo := groupedInt (settings.minDepositPaise / 100)
  let hi := groupedInt (settings.maxDepositPaise / 100)
  .require (settings.minDepositPaise ≤ amountPaise && amountPaise ≤ settings.maxDepositPaise)
    (.deposit s!"Deposit must be between ₹{lo} and ₹{hi}")
  let key := depositKey now user.telegramId amountPaise idempotencyKey
  match (← .query fun db => db.payments.find? (·.idempotencyKey == key)).filter (·.userId = user.telegramId) with
  | .some existing => pure existing
  | .none =>
    insertInvoiceWith settings gateway (newInvoice now publicId user.telegramId amountPaise settings key) reply

theorem createDepositWith_answers (now : Time) (publicId : String) (user : User) (amountPaise : Int)
    (settings : Settings) (idempotencyKey gateway : Option String) (checkout : Except String Checkout) :
    createDepositWith now publicId user amountPaise settings idempotencyKey gateway (.answers checkout) =
      createDeposit now publicId user amountPaise settings idempotencyKey gateway checkout := rfl

/-! ## All or nothing -/

/-- The invoice has a checkout to send its owner to, and the gateway's reference. -/
def Payment.hasCheckout (p : Payment) : Bool := truthy p.checkoutUrl && truthy p.providerRef

/-- An invoice comes back that is on record, with a checkout where the mode has
one; or an error, and whatever errors the caller catches and commits, the
payments are what they were. -/
def AllOrNothing (settings : Settings) (db : Db) (call : M Payment) : Prop :=
  ∀ caught : Err → Bool,
    match (call.run { db := db }).1 with
    | .ok invoice => invoice ∈ (call.commit caught db).payments ∧
        (settings.paymentGateway = .razorpay → invoice.hasCheckout = true)
    | .error _ => (call.commit caught db).payments = db.payments

/-- What `AllOrNothing` asks of the session a call ends with. -/
def Ended (settings : Settings) (db : Db) (invoice : Payment) (s : Session) : Prop :=
  invoice ∈ ((Txn.flushAll s.staged s.db).getD db).payments ∧
    (settings.paymentGateway = .razorpay → invoice.hasCheckout = true)

def Undone (db : Db) (_ : Err) (s : Session) : Prop :=
  ((Txn.flushAll s.staged s.db).getD db).payments = db.payments

theorem allOrNothing_iff_wp {settings : Settings} {db : Db} {call : M Payment} :
    AllOrNothing settings db call ↔ call.wp (Ended settings db) (Undone db) { db := db } := by
  unfold AllOrNothing wp commit
  cases call.run { db := db } with
  | mk result s =>
    cases result with
    | ok invoice => exact ⟨fun h => h fun _ => true, fun h _ => h⟩
    | error e =>
      refine ⟨fun h => h fun _ => true, fun h caught => ?_⟩
      simp only
      split
      · exact h
      · rfl

/-! ## When it is -/

def Db.paymentsOpen (db : Db) : Bool :=
  !(db.killed "global_maintenance" || db.killed "read_only" || db.killed "kill_payments")

/-- The keys of the live gateway are set. -/
def Settings.liveConfigured (s : Settings) : Bool :=
  truthy s.razorpayKeyId && truthy s.razorpayKeySecret && truthy s.razorpayWebhookSecret

/-- The gateway refuses in its own words, or answers with a url and a reference. -/
def GatewayReply.sound : GatewayReply → Bool
  | .answers (.ok checkout) => checkout.url ≠ "" && checkout.gatewayRef ≠ ""
  | .answers (.error _) => true
  | .raises _ => false

/-- What a deposit is checked for before there is a row. -/
structure DepositChecked (db : Db) (user : User) (amountPaise : Int) (settings : Settings) : Prop where
  active : user.isBanned = false
  terms : user.termsAccepted = true
  isOpen : db.paymentsOpen = true
  bounds : settings.minDepositPaise ≤ amountPaise ∧ amountPaise ≤ settings.maxDepositPaise

/-- The user's invoice under a key. -/
def Db.invoiceUnder (db : Db) (key : Key) (userId : Int) : Option Payment :=
  (db.payments.find? (·.idempotencyKey == key)).filter (·.userId = userId)

section

variable {db : Db} {settings : Settings} {gateway : Option String} {p : Payment} {reply : GatewayReply}
  {Q : Payment → Session → Prop} {E : Err → Session → Prop}

/-- A gateway is given or configured, or the lookup fails. -/
theorem wp_gatewayOr_live {Q : Option String → Session → Prop} {s : Session}
    (hmode : settings.paymentGateway = .razorpay) :
    (gatewayOr gateway settings).wp Q E s ↔
      if gateway.isSome || settings.liveConfigured then Q (.some (gateway.getD "razorpay")) s
      else E (.deposit "Online payments are not configured") s := by
  cases gateway with
  | some name => rfl
  | none =>
    simp only [gatewayOr, getGateway, hmode, ne_eq, not_true_eq_false, if_false, wp_bind, wp_require]
    rfl

theorem wp_assertPaymentsOpen {Q : Unit → Session → Prop} {s : Session} :
    assertPaymentsOpen.wp Q E s ↔
      if s.db.paymentsOpen then Q () s else E (.deposit "Deposits are temporarily paused.") s := by
  have hkilled (key : String) (R : Bool → Session → Prop) :
      (isKillOn key).wp R E s = R (s.db.killed key) s := rfl
  unfold Db.paymentsOpen
  simp only [assertPaymentsOpen, killSwitches, wp_bind, hkilled, wp_pure', wp_require]

/-- Deleting a row that was just inserted leaves the rows there were. -/
theorem delete_inserted (h : (Stmt.insertPayment p).admits db = true) :
    ((db.payments ++ [p]).filter (·.publicId != p.publicId)) = db.payments := by
  have hall := List.all_eq_true.mp h
  rw [List.filter_append, List.filter_eq_self.mpr fun q hq => (Bool.and_eq_true_iff.mp (hall q hq)).1]
  simp

/-- The row of a new invoice, set with its checkout. -/
theorem checkout_mem {f : Payment → Payment} (hf : p.SameInvoice (f p)) :
    f p ∈ (((Stmt.insertPayment p).apply db).updatePayment p.publicId (p.flushed (f p))).payments := by
  refine List.mem_map.mpr ⟨p, List.mem_append_right _ (List.mem_singleton.mpr rfl), ?_⟩
  rw [if_pos rfl, Payment.flushed_self hf]

/-- The row is in, and a checkout is asked for. -/
theorem wp_openCheckoutWith_iff (hmode : settings.paymentGateway = .razorpay)
    (h : (Stmt.insertPayment p).admits db = true) :
    (openCheckoutWith settings gateway p reply).wp (Ended settings db) (Undone db)
        { db := (Stmt.insertPayment p).apply db } ↔
      (gateway.isSome || settings.liveConfigured) = true ∧ reply.sound = true := by
  have hleft : ¬ db.payments ++ [p] = db.payments := by simp
  cases reply with
  | raises e =>
    simp only [openCheckoutWith, wp_bind, wp_gatewayOr_live hmode]
    split
    · refine iff_of_false hleft ?_
      simp [GatewayReply.sound]
    · next hnone => exact iff_of_false hleft fun hlive => hnone hlive.1
  | answers checkout =>
    simp only [openCheckoutWith, openCheckout, wp_bind, wp_gatewayOr_live hmode]
    split
    case isFalse hnone => exact iff_of_false hleft fun hlive => hnone hlive.1
    next hlive =>
    simp only [wp_call]
    cases checkout with
    | error message =>
      refine iff_of_true ?_ ⟨hlive, rfl⟩
      simp only [wp_bind, wp_write, flush, wp_flushed]
      exact delete_inserted h
    | ok checkout =>
      simp only [wp_bind, setPayment, wp_write, flush, wp_flushed, wp_pure']
      have hcheckout : Payment.hasCheckout { p with
          providerRef := .some checkout.gatewayRef, checkoutUrl := .some checkout.url } =
            (GatewayReply.answers (.ok checkout)).sound := by
        simp [Payment.hasCheckout, GatewayReply.sound, truthy]
      rw [← hcheckout]
      have hmem := @checkout_mem db p (fun p =>
        { p with providerRef := .some checkout.gatewayRef, checkoutUrl := .some checkout.url }) rfl
      exact ⟨fun hend => ⟨hlive, hend.2 hmode⟩, fun hsound => ⟨hmem, fun _ => hsound.2⟩⟩

theorem wp_insertInvoiceWith_iff :
    (insertInvoiceWith settings gateway p reply).wp (Ended settings db) (Undone db) { db := db } ↔
      (settings.paymentGateway = .razorpay → (Stmt.insertPayment p).admits db = true →
        (gateway.isSome || settings.liveConfigured) = true ∧ reply.sound = true) := by
  simp only [insertInvoiceWith, wp_bind, wp_write, flush, wp_flushed, List.nil_append, Txn.flushAll]
  by_cases hadmits : (Stmt.insertPayment p).admits db = true
  · rw [if_pos hadmits]
    simp only
    split
    · next hmode =>
      rw [wp_openCheckoutWith_iff hmode hadmits]
      exact ⟨fun h _ _ => h, fun h => h hmode hadmits⟩
    · next hmode =>
      have hmem : p ∈ db.payments ++ [p] := List.mem_append_right _ (List.mem_singleton.mpr rfl)
      exact iff_of_true ⟨hmem, fun h => absurd h hmode⟩ fun h => absurd h hmode
  · rw [if_neg hadmits]
    refine iff_of_true ?_ fun _ h => absurd h hadmits
    simp only [Undone, Txn.flushAll, if_neg hadmits, Option.getD_none]

end

/-- **A deposit is all or nothing** exactly when, in live mode, a checked
request finds an invoice of its key that has its checkout, or makes a new one
with a gateway that is given or configured and refuses in its own words or
answers with a url and a reference. -/
theorem all_or_nothing_iff (now : Time) (publicId : String) (user : User) (amountPaise : Int) (settings : Settings)
    (idempotencyKey gateway : Option String) (reply : GatewayReply) (db : Db) :
    let key := depositKey now user.telegramId amountPaise idempotencyKey
    AllOrNothing settings db
        (createDepositWith now publicId user amountPaise settings idempotencyKey gateway reply) ↔
      (settings.paymentGateway = .razorpay → DepositChecked db user amountPaise settings →
        match db.invoiceUnder key user.telegramId with
        | .some invoice => invoice.hasCheckout = true
        | .none =>
          (Stmt.insertPayment (newInvoice now publicId user.telegramId amountPaise settings key)).admits db = true →
            (gateway.isSome || settings.liveConfigured) = true ∧ reply.sound = true) := by
  intro key
  rw [allOrNothing_iff_wp]
  simp only [createDepositWith, wp_bind, wp_require, wp_assertPaymentsOpen, wp_query]
  have hundone (e : Err) : Undone db e { db := db } := rfl
  split
  case isFalse hbanned =>
    refine iff_of_true (hundone _) fun _ hc => absurd hc.active ?_
    simpa using hbanned
  next hactive =>
  split
  case isFalse hterms => exact iff_of_true (hundone _) fun _ hc => absurd hc.terms hterms
  next hterms =>
  split
  case isFalse hclosed => exact iff_of_true (hundone _) fun _ hc => absurd hc.isOpen hclosed
  next hopen =>
  split
  case isFalse hbounds =>
    refine iff_of_true (hundone _) fun _ hc => absurd ?_ hbounds
    simpa using hc.bounds
  next hbounds =>
  have hchecked : DepositChecked db user amountPaise settings :=
    ⟨by simpa using hactive, hterms, hopen, by simpa using hbounds⟩
  rw [Db.invoiceUnder]
  split
  · next invoice hfound =>
    rw [hfound]
    have hrow : invoice ∈ db.payments := List.mem_of_find?_eq_some (Option.filter_eq_some_iff.mp hfound).1
    exact ⟨fun hend hmode _ => hend.2 hmode, fun h => ⟨hrow, fun hmode => h hmode hchecked⟩⟩
  · next hnone =>
    rw [hnone, wp_insertInvoiceWith_iff]
    exact ⟨fun h hmode _ => h hmode, fun h hmode => h hmode hchecked⟩

/-! ## A live gateway without its keys -/

def keyless : Settings where
  isProduction := false
  paymentGateway := .razorpay
  enableMockPayments := false
  razorpayKeyId := .none
  razorpayKeySecret := .none
  razorpayWebhookSecret := .none
  minDepositPaise := 10000
  maxDepositPaise := 5000000
  currencyCode := "INR"

def deposit500 : M Payment :=
  createDepositWith 0 "PAY-7777" { telegramId := 7 } 50000 keyless .none .none
    (.answers (.ok ⟨"https://rzp.io/i/x", "plink_123456"⟩))

def deadInvoice : Payment := newInvoice 0 "PAY-7777" 7 50000 keyless (depositKey 0 7 50000 .none)

/-- The caller shows the error and commits: the invoice stays, and asking
again within the bucket of time returns it. -/
theorem invoice_left_behind :
    (deposit500.run { db := {} }).1 = .error (.deposit "Online payments are not configured") ∧
    (deposit500.commit Err.isDeposit {}).payments = [deadInvoice] ∧
    (deposit500.run { db := deposit500.commit Err.isDeposit {} }).1 = .ok deadInvoice ∧
    deadInvoice.hasCheckout = false ∧
    ¬ AllOrNothing keyless {} deposit500 := by
  have hraised : (deposit500.run { db := {} }).1 = .error (.deposit "Online payments are not configured") := by rfl
  have hleft : (deposit500.commit Err.isDeposit {}).payments = [deadInvoice] := by rfl
  refine ⟨hraised, hleft, by rfl, by decide, fun h => ?_⟩
  have hundone := h Err.isDeposit
  rw [hraised, hleft] at hundone
  cases hundone

end Falaron
