/-
Orders of comments and mentions: what is priced, and what is sent.

The price goes by the quantity the client names. The panel gets the client's
text, a comment or a username a line. Nothing compares the two: the comments
are counted and the count is not used. `charged_for_sent_iff` says that an
order is charged for what is sent exactly when the client's text has no more
comments or usernames than the quantity.
-/
import Falaron.OrderColumns
import Falaron.PerfectPanel
import Falaron.TextParts

namespace Falaron

open Txn.Prog hiding pure
open Text (Extra ExtraValue)

/-! ## What a client sends -/

/-- The `extra` of a request: of the two texts those that are there and not empty. -/
def clientExtra (comments mentions : Option String) : Extra :=
  ((comments.filter (· ≠ "")).map fun s => ("comments", ExtraValue.str s)).toList ++
    ((mentions.filter (· ≠ "")).map fun s => ("mentions", ExtraValue.str s)).toList

/-- The body of an order that comes through the API. -/
structure OrderIn where
  serviceId : String
  link : String
  quantity : Int
  comments : Option String := .none
  mentions : Option String := .none
  couponCode : Option String := .none
  idempotencyKey : Option String := .none

/-- The limits of the fields. -/
def OrderIn.valid (body : OrderIn) : Bool :=
  let within (n : Nat) (s : Option String) := s.all (·.length ≤ n)
  1 ≤ body.serviceId.length && body.serviceId.length ≤ 64 && 1 ≤ body.link.length && body.link.length ≤ 512 &&
    0 < body.quantity && body.quantity ≤ 1000000000 && within 20000 body.comments && within 20000 body.mentions &&
    within 32 body.couponCode && within 128 body.idempotencyKey

/-- What the bot's form has asked for. -/
structure OrderForm where
  serviceId : String
  link : String
  quantity : Int
  comments : Option String := .none
  mentions : Option String := .none
  coupon : Option String := .none

/-- The two ways in. -/
inductive ClientOrder where
  | api (body : OrderIn)
  | bot (form : OrderForm)

namespace ClientOrder

def comments : ClientOrder → Option String
  | .api body => body.comments
  | .bot form => form.comments

def mentions : ClientOrder → Option String
  | .api body => body.mentions
  | .bot form => form.mentions

/-- The order as it is asked for. -/
def request : ClientOrder → OrderRequest
  | .api body => {
      serviceId := body.serviceId
      link := body.link
      quantity := body.quantity
      extra := clientExtra body.comments body.mentions
      couponCode := body.couponCode
      idempotencyKey := body.idempotencyKey }
  | .bot form => {
      serviceId := form.serviceId
      link := form.link
      quantity := form.quantity
      extra := clientExtra form.comments form.mentions
      couponCode := form.coupon }

theorem request_extra (c : ClientOrder) : c.request.extra = clientExtra c.comments c.mentions := by cases c <;> rfl

end ClientOrder

/-! ## What is counted -/

namespace Service

variable (service : Service)

/-- `(service.service_type or "default").lower()` -/
def stype : String :=
  let given := service.serviceType.getD ""
  Text.lower (if given = "" then "default" else given)

def takesComments : Bool := service.stype ∈ ["comments", "custom_comments"]

def takesMentions : Bool := service.stype ∈ ["mentions", "comment_mentions"]

end Service

/-- The comments, or usernames, that the panel is sent with an order: one a line. -/
def sentLines (service : Service) (o : Order) : Nat :=
  let payload := PerfectPanel.orderPayload service.providerServiceId o.link o.quantity o.extra
  if service.takesComments then Text.nonEmptyLines (ExtraValue.text (payload.get? "comments"))
  else if service.takesMentions then Text.nonEmptyLines (ExtraValue.text (payload.get? "usernames"))
  else 0

/-- The comments, or usernames, in the client's text. -/
def ClientOrder.asks (c : ClientOrder) (service : Service) : Nat :=
  if service.takesComments then Text.commentsIn (c.comments.getD "")
  else if service.takesMentions then Text.usernamesIn (c.mentions.getD "")
  else 0

/-- The order is charged for a quantity that covers what the panel is sent. -/
def ChargedForSent (db : Db) (userId : Int) (service : Service) (o : Order) : Prop :=
  ∃ quantity coupon, o.chargePaise = db.chargeFor service quantity (.some userId) coupon ∧ o.quantity = quantity ∧
    (sentLines service o : Int) ≤ quantity

/-! ## From the text to the payload -/

section

variable {extra extra' : Extra} {k k' : String} {v : ExtraValue}

theorem get?_set_self : (extra.set k v).get? k = .some v := by
  unfold Text.Extra.set Text.Extra.get?
  split
  · next hany =>
    induction extra with
    | nil => cases hany
    | cons p extra ih =>
      rw [List.map_cons, List.find?_cons]
      by_cases hp : p.1 == k
      · simp [hp]
      · simp only [hp, List.any_cons, Bool.false_or] at hany
        simp only [hp, Bool.false_eq_true, if_false]
        exact ih hany
  · next hnone =>
    have hfind : extra.find? (·.1 == k) = .none :=
      List.find?_eq_none.mpr fun p hp hk => hnone (List.any_eq_true.mpr ⟨p, hp, hk⟩)
    simp [List.find?_append, hfind]

theorem get?_set_ne (h : k' ≠ k) : (extra.set k v).get? k' = extra.get? k' := by
  unfold Text.Extra.set Text.Extra.get?
  split
  · congr 1
    clear * - h
    induction extra with
    | nil => rfl
    | cons p extra ih =>
      rw [List.map_cons, List.find?_cons, List.find?_cons, ih]
      have hne : (k == k') = false := beq_eq_false_iff_ne.mpr h.symm
      by_cases hp : p.1 = k
      · simp [hp, hne]
      · simp [hp]
  · simp [List.find?_append, h.symm]

/-- The payload passes the two texts on as they are. -/
theorem text_payload {serviceId link : String} {quantity : Int} (h : k = "comments" ∨ k = "usernames") :
    ExtraValue.text ((PerfectPanel.orderPayload serviceId link quantity extra).get? k) =
      ExtraValue.text (extra.get? k) := by
  let passed (k : String) : Option (String × ExtraValue) :=
    (extra.get? k).bind fun v => if ExtraValue.text (.some v) = "" then .none else .some (k, v)
  have hkey (a : String) : (passed a).any (·.1 == k) = ((passed a).isSome && a == k) := by
    simp only [passed]
    cases extra.get? a with
    | none => rfl
    | some v =>
      simp only [Option.bind_some]
      split
      · rfl
      · rfl
  have hfind : (PerfectPanel.passedOn extra).find? (·.1 == k) = passed k := by
    have hkeys : ["comments", "usernames", "runs", "interval"].find? (fun a => (passed a).any (·.1 == k)) =
        if (passed k).isSome then .some k else .none := by
      simp only [hkey]
      rcases h with rfl | rfl
      · cases hp : passed "comments" <;> simp [hp]
      · cases hp : passed "usernames" <;> simp [hp]
    rw [PerfectPanel.passedOn, List.find?_filterMap, hkeys]
    cases hp : passed k with
    | none => rfl
    | some v => exact hp
  have hget : (PerfectPanel.orderPayload serviceId link quantity extra).get? k = (passed k).map (·.2) := by
    rw [← hfind]
    rcases h with rfl | rfl <;> rfl
  rw [hget]
  simp only [passed]
  cases extra.get? k with
  | none => rfl
  | some v =>
    simp only [Option.bind_some]
    split
    · next hv => exact hv.symm
    · rfl

theorem text_clientExtra (comments mentions : Option String) :
    ExtraValue.text ((clientExtra comments mentions).get? "comments") = comments.getD "" ∧
    ExtraValue.text ((clientExtra comments mentions).get? "mentions") = mentions.getD "" ∧
    (clientExtra comments mentions).get? "usernames" = .none := by
  have hkept (o : Option String) : o.filter (· ≠ "") = .none ∧ o.getD "" = "" ∨
      ∃ s, o.filter (· ≠ "") = .some s ∧ o.getD "" = s := by
    cases o with
    | none => exact .inl ⟨rfl, rfl⟩
    | some s =>
      by_cases hs : s = ""
      · exact .inl ⟨by simp [hs], hs⟩
      · exact .inr ⟨s, by simp [hs], rfl⟩
  unfold clientExtra
  rcases hkept comments with ⟨hc, hc'⟩ | ⟨c, hc, hc'⟩ <;> rcases hkept mentions with ⟨hm, hm'⟩ | ⟨m, hm, hm'⟩ <;>
    (rw [hc, hc', hm, hm']; exact ⟨rfl, rfl, rfl⟩)

/-! ## What the check makes of the text -/

/-- The comments are passed on line by line. -/
theorem validateComments_lines (h : validateComments extra = .ok extra') :
    Text.nonEmptyLines (ExtraValue.text (extra'.get? "comments")) =
      Text.commentsIn (ExtraValue.text (extra.get? "comments")) := by
  simp only [validateComments] at h
  split at h
  · cases h
  · cases h
    rw [get?_set_ne (by decide), get?_set_self, ExtraValue.text,
      Text.nonEmptyLines_join fun line hline => Text.newline_not_mem_lines hline]
    rw [List.filter_eq_self.mpr fun line hline => decide_eq_true (Text.lines_ne_empty hline), Text.length_lines,
      Text.commentsIn_strip]

/-- The usernames are passed on one a line. -/
theorem validateMentions_lines (hnone : extra.get? "usernames" = .none) (h : validateMentions extra = .ok extra') :
    Text.nonEmptyLines (ExtraValue.text (extra'.get? "usernames")) =
      Text.usernamesIn (ExtraValue.text (extra.get? "mentions")) := by
  have hgiven : (if ExtraValue.text (extra.get? "mentions") = "" then ExtraValue.text (extra.get? "usernames")
      else ExtraValue.text (extra.get? "mentions")) = ExtraValue.text (extra.get? "mentions") := by
    split
    · next hempty =>
      rw [hempty, hnone]
      rfl
    · rfl
  simp only [validateMentions, hgiven] at h
  split at h
  · cases h
  · cases h
    rw [get?_set_self, ExtraValue.text, Text.nonEmptyLines_join fun name hname => Text.newline_not_mem_names hname,
      Text.length_names, Text.usernamesIn_strip]

theorem Service.not_both {service : Service} (h : service.takesComments = true) : service.takesMentions = false := by
  simp only [takesComments, takesMentions, decide_eq_true_eq, decide_eq_false_iff_not, List.mem_cons, List.not_mem_nil,
    or_false] at h ⊢
  rcases h with h | h <;> rw [h] <;> decide

/-- The panel is sent what the client's text has. -/
theorem sentLines_eq {c : ClientOrder} {service : Service} {o : Order}
    (h : validateExtra service c.request.extra = .ok o.extra) : sentLines service o = c.asks service := by
  obtain ⟨hcomments, hmentions, hnone⟩ := text_clientExtra c.comments c.mentions
  rw [← ClientOrder.request_extra] at hcomments hmentions hnone
  have hcheck : (if service.takesComments then validateComments c.request.extra else .ok c.request.extra).bind
      (fun extra => if service.takesMentions then validateMentions extra else .ok extra) = .ok o.extra := by
    simp only [Service.takesComments, Service.takesMentions, decide_eq_true_eq]
    exact h
  unfold sentLines ClientOrder.asks
  simp only [text_payload (.inl rfl), text_payload (.inr rfl)]
  by_cases hc : service.takesComments = true
  · simp only [hc, Service.not_both hc, if_true, Bool.false_eq_true, if_false] at hcheck ⊢
    have hok : validateComments c.request.extra = .ok o.extra := by
      cases hv : validateComments c.request.extra with
      | error e =>
        rw [hv] at hcheck
        cases hcheck
      | ok extra =>
        rw [hv] at hcheck
        exact hcheck
    rw [validateComments_lines hok, hcomments]
  · simp only [hc, Bool.false_eq_true, if_false] at hcheck ⊢
    split
    · next hm =>
      have hok : validateMentions c.request.extra = .ok o.extra := by
        simpa only [Except.bind, hm, if_true] using hcheck
      rw [validateMentions_lines hnone hok, hmentions]
    · rfl

end

/-! ## From the request to the order -/

/-- What an order says from the start. -/
def Order.asked (o : Order) : String × Int × Extra × Int := (o.link, o.quantity, o.extra, o.chargePaise)

section

variable {db : Db} {now : Time} {publicId : String} {userId : Int} {request : OrderRequest} {submission : Submission}
  {o : Order}

theorem recordEvent_asked {toStatus : OrderStatus} {note : String} :
    (recordEvent now o toStatus note).allResults fun o' => o'.asked = o.asked := rfl

theorem setOrder_asked {α : Type} {g : Order → Order} {f : Order → M α} {R : α → Prop} (h : (f (g o)).allResults R) :
    (setOrder o g >>= f).allResults R := h

theorem failAndRelease_asked {reason tag : String} {loaded : Option Coupon} :
    (failAndRelease now o reason tag loaded).allResults fun o' => o'.asked = o.asked := by
  refine allResults_bind allResults_true fun _ _ => setOrder_asked ?_
  exact allResults_bind allResults_true fun _ _ => recordEvent_asked

theorem settleSubmission_asked {loaded : Option Coupon} {answer : Except SubmitError String} :
    (settleSubmission now o loaded answer).allResults fun o' => o'.asked = o.asked := by
  cases answer with
  | ok externalId => exact setOrder_asked (allResults_bind allResults_true fun _ _ => recordEvent_asked)
  | error e =>
    cases e with
    | provider e =>
      simp only [settleSubmission]
      split
      · exact rfl
      · exact failAndRelease_asked
    | other => exact failAndRelease_asked

theorem submitOrder_asked {service : Service} {loaded : Option Coupon} :
    (submitOrder now o service loaded submission).allResults fun o' => o'.asked = o.asked := by
  refine allResults_bind allResults_true fun provider _ => ?_
  split
  · exact settleSubmission_asked
  · exact allResults_bind allResults_true fun _ _ => settleSubmission_asked

theorem bookOrder_asked {quoted : Quoted} : (bookOrder now o quoted).allResults fun o' => o'.asked = o.asked := by
  have hrest (_ : LedgerEntry) : (recordEvent now o .awaitingProvider "Funds reserved" >>= fun order =>
      redeemCoupon order quoted.coupon >>= fun _ => Pure.pure order).allResults fun o' => o'.asked = o.asked :=
    allResults_bind recordEvent_asked fun _ ho => allResults_bind allResults_true fun _ _ => ho
  exact allResults_bind allResults_true fun _ _ => allResults_bind allResults_true fun _ _ =>
    allResults_bind allResults_true fun _ _ => allResults_bind allResults_true fun _ _ =>
    allResults_bind allResults_true fun e _ => hrest e

theorem placeNew_asked {user : User} {service : Service} {link : String} {extra : Extra} {quoted : Quoted} {key : Key} :
    (placeNew now publicId userId user service link extra quoted key submission).allResults fun o =>
      o.asked = (link, quoted.quote.quantity, extra, quoted.quote.chargePaise) := by
  refine allResults_bind allResults_true fun _ _ => allResults_bind bookOrder_asked fun o ho => ?_
  have hsubmitted := @submitOrder_asked now submission o service
    (quoted.coupon.map fun c => { c with usedCount := c.usedCount + 1 })
  rwa [ho] at hsubmitted

/-- The `extra` of an order has passed its check. -/
theorem checkRequest_extra : (checkRequest now userId request).allResults fun a =>
    validateExtra a.1 request.extra = .ok a.2.2.1 := by
  simp only [checkRequest, bind_eq]
  generalize assertOrdersOpen = check
  refine allResults_bind allResults_true fun user _ => ?_
  split
  · trivial
  refine allResults_bind allResults_true fun _ _ => ?_
  refine allResults_bind allResults_true fun _ _ => ?_
  refine allResults_bind allResults_true fun _ _ => ?_
  refine allResults_bind allResults_true fun found _ => ?_
  split
  · trivial
  next service _ =>
  have hextra : (ofExcept (validateExtra service request.extra)).allResults fun extra =>
      validateExtra service request.extra = .ok extra := by
    cases validateExtra service request.extra with
    | error e => trivial
    | ok extra => exact rfl
  generalize ofExcept (validateLink request.link) = link
  generalize ofExcept (validateExtra service request.extra) = extra at hextra
  refine allResults_bind allResults_true fun _ _ => ?_
  refine allResults_bind allResults_true fun _ _ => ?_
  refine allResults_bind allResults_true fun _ _ => ?_
  refine allResults_bind hextra fun extra hok => ?_
  exact allResults_bind allResults_true fun _ _ => hok

theorem wp_loadIdempotentOrder_mem {key : Key} {Q : Option Order → Session → Prop} {E : Err → Session → Prop}
    {s : Session} (h : ∀ existing : Option Order, (∀ o, existing = .some o → o ∈ s.db.orders) → Q existing s) :
    (loadIdempotentOrder key).wp Q E s := by
  simp only [loadIdempotentOrder, wp_bind, wp_query]
  split
  · exact h _ fun o ho => (Db.findOrder_mem ho).1
  · exact h _ fun o ho => List.mem_of_find?_eq_some ho

/-- An order that is taken on is an old one, or says what was asked for, at its price. -/
theorem wp_placeOrder_asked :
    (placeOrder now publicId userId request submission).wp (fun o _ => o ∈ db.orders ∨
      ∃ service coupon, db.findService request.serviceId = .some service ∧
        validateExtra service request.extra = .ok o.extra ∧ o.quantity = request.quantity ∧
        o.chargePaise = db.chargeFor service request.quantity (.some userId) coupon)
      (fun _ _ => True) { db := db } := by
  rw [placeOrder_eq, wp_bind]
  have hchecked : (checkRequest now userId request).wp (fun a s => s = { db := db } ∧
      db.Checked now userId request a.1 a.2.2.2.coupon ∧ db.Quotes a.1 request.quantity (.some userId) a.2.2.2)
      (fun _ _ => True) { db := db } :=
    wp_checkRequest (fun _ _ _ _ hc hq => ⟨rfl, hc, hq⟩) fun _ _ => trivial
  refine wp_mono (wp_and hchecked (wp_of_results checkRequest_extra)) (fun a s h => ?_) fun _ _ _ => trivial
  obtain ⟨⟨rfl, hc, hq⟩, hextra⟩ := h
  obtain ⟨service, link, extra, quoted⟩ := a
  simp only [wp_bind, wp_require, lockUser]
  split
  case isFalse => trivial
  refine wp_flush rfl ?_
  simp only [wp_lockRow]
  cases db.users userId with
  | none => trivial
  | some user =>
    simp only [wp_pure', placeUnder, wp_bind]
    refine wp_loadIdempotentOrder_mem fun existing hold => ?_
    split
    · next order hfound => exact .inl (hold order (Option.filter_eq_some_iff.mp hfound).1)
    refine wp_mono (wp_of_results placeNew_asked) (fun o _ hasked => .inr ?_) fun _ _ _ => trivial
    simp only [Order.asked, Prod.mk.injEq] at hasked
    obtain ⟨-, hquantity, hsame, hcharge⟩ := hasked
    refine ⟨service, quoted.coupon, hc.found, ?_, ?_, ?_⟩
    · rw [hsame]
      exact hextra
    · rw [hquantity, hq.ordered]
    · rw [hcharge, hq.charge]

end

/-- **An order is charged for what is sent** exactly when the client's text
has no more comments, or usernames, than the quantity. -/
theorem charged_for_sent_iff {db : Db} {now : Time} {publicId : String} {userId : Int} {c : ClientOrder}
    {submission : Submission} {service : Service} {o : Order} {s : Session}
    (hservice : db.findService c.request.serviceId = .some service)
    (hrun : (placeOrder now publicId userId c.request submission).run { db := db } = (.ok o, s))
    (hnew : o ∉ db.orders) :
    ChargedForSent db userId service o ↔ (c.asks service : Int) ≤ c.request.quantity := by
  obtain hold | ⟨service', coupon, hfound, hextra, hquantity, hcharge⟩ := wp_ok wp_placeOrder_asked hrun
  · exact absurd hold hnew
  obtain rfl := Option.some.inj (hfound.symm.trans hservice)
  rw [← hquantity, ← sentLines_eq hextra]
  constructor
  · rintro ⟨_, _, _, rfl, hle⟩
    exact hle
  · intro hle
    exact ⟨_, coupon, hquantity ▸ hcharge, rfl, hle⟩

/-! ## Three comments -/

/-- Comments at ₹25 per thousand, from one on. -/
def commentService : Service := { likes with serviceType := .some "Custom_Comments", minQty := 1 }

def commentShop : Db := { shop with catalog := { shop.catalog with services := [commentService] } }

def threeComments (quantity : Int) : OrderIn where
  serviceId := "likes"
  link := "https://t.me/x"
  quantity := quantity
  comments := .some "Nice\n  Great \r\n\nWow\n"

def placeComments (quantity : Int) : M Order :=
  placeOrder 0 "A" 7 (ClientOrder.api (threeComments quantity)).request (.taken "1")

theorem ok_of_map {α β : Type} {x : Except Err α × Session} {f : α → β} {b : β} (h : x.1.toOption.map f = .some b) :
    ∃ a s, x = (.ok a, s) ∧ f a = b := by
  obtain ⟨a, ha, rfl⟩ := Option.map_eq_some_iff.mp h
  obtain ⟨r, s⟩ := x
  cases r with
  | error e => cases ha
  | ok a' =>
    cases ha
    exact ⟨a, s, rfl, rfl⟩

theorem charged_for_sent_of_three : ∃ o s, (placeComments 3).run { db := commentShop } = (.ok o, s) ∧
    ChargedForSent commentShop 7 commentService o := by
  have hdone : ((placeComments 3).run { db := commentShop }).1.toOption.map (·.publicId) = .some "A" := by
    decide +kernel
  obtain ⟨o, s, hrun, -⟩ := ok_of_map hdone
  have hiff := @charged_for_sent_iff commentShop 0 "A" 7 (.api (threeComments 3)) (.taken "1") commentService o s rfl hrun
    List.not_mem_nil
  refine ⟨o, s, hrun, hiff.mpr ?_⟩
  decide +kernel

/-- Three comments are sent for the price of one. -/
theorem three_comments_for_one : (threeComments 1).valid = true ∧
    ∃ o s, (placeComments 1).run { db := commentShop } = (.ok o, s) ∧
      (o.quantity, o.chargePaise, sentLines commentService o) = (1, 3, 3) ∧
      ¬ ChargedForSent commentShop 7 commentService o := by
  refine ⟨by decide +kernel, ?_⟩
  have hdone : ((placeComments 1).run { db := commentShop }).1.toOption.map
      (fun o => (o.quantity, o.chargePaise, sentLines commentService o)) = .some (1, 3, 3) := by decide +kernel
  obtain ⟨o, s, hrun, hsaid⟩ := ok_of_map hdone
  refine ⟨o, s, hrun, hsaid, ?_⟩
  simp only [Prod.mk.injEq] at hsaid
  obtain ⟨hquantity, -, hsent⟩ := hsaid
  rintro ⟨_, _, _, rfl, hle⟩
  rw [hsent, hquantity] at hle
  omega

end Falaron
