/-
The books of the orders: what every committed database of the order engine
satisfies.

The ledger entries of each order trace its money (`Funds`), and the order's
status and provider id fit where the money is. While a call works on one
order, that last part may be off for this order alone (`ex`). What only holds
as long as no charge is released that was already captured is asked for when
`strict`: the wallets' reserves are then exactly the charges held, and every
release gives back exactly what its order held.
-/
import Falaron.Funds
import Falaron.Orders
import Mathlib.Algebra.Order.BigOperators.Group.List
import Mathlib.Algebra.Order.Ring.Int

namespace Falaron

/-- The order an entry is about. -/
def LedgerEntry.orderRef (e : LedgerEntry) : Option String :=
  if e.referenceType = .some "order" then e.referenceId else .none

theorem LedgerEntry.orderRef_iff {e : LedgerEntry} {p : String} :
    e.orderRef = .some p ↔ e.referenceType = .some "order" ∧ e.referenceId = .some p := by
  unfold orderRef
  split
  · next h => simp [h]
  · next h => simp [h]

/-- The order a ledger key belongs to. -/
def Key.orderRef : Key → Option String
  | .reserve p | .capture p | .release p _ | .partialRefund p | .refund p _ => .some p
  | _ => .none

/-- The type of the entry that is made under the key of an order. -/
def Key.entryType : Key → EntryType
  | .reserve _ => EntryType.reserve
  | .capture _ => EntryType.capture
  | .release _ _ => EntryType.release
  | _ => EntryType.credit

/-- Which statuses, and which provider id, go with where the money is. -/
def Order.Fits (o : Order) : Funds → Prop
  | .unheld => False
  | .held => o.status ∈ [.pending, .awaitingProvider, .review] ∧ o.providerOrderId = .none
  | .captured _ _ => o.status ∉ [.awaitingProvider, .review] ∧ o.providerOrderId.isSome
  | .released => o.status ∈ [.failed, .canceled] ∧ o.providerOrderId = .none

namespace Db

/-- The entries about one order. -/
def entriesFor (db : Db) (publicId : String) : List LedgerEntry :=
  db.ledger.filter (·.orderRef == .some publicId)

/-- The reserve entry has been written, and the funds are neither captured nor released. -/
def isHeld (db : Db) (publicId : String) : Bool :=
  let es := db.entriesFor publicId
  ofType .reserve es ≠ [] && ofType .capture es = [] && ofType .release es = []

def heldOf (db : Db) (userId : Int) (o : Order) : Int :=
  if o.userId = userId ∧ db.isHeld o.publicId then o.chargePaise else 0

/-- The charges of a user's orders whose funds are held. -/
def heldSum (db : Db) (userId : Int) : Int := (db.orders.map (db.heldOf userId)).sum

/-- The reserve after the user's last entry. -/
def lastReserved (userId : Int) (es : List LedgerEntry) : Int :=
  (((es.filter (·.userId == userId)).getLast?).map (·.reservedAfterPaise)).getD 0

/-- Every release took the whole charge of its order off the reserve: none was clamped. -/
def ReleasesExact (db : Db) : Prop :=
  ∀ es e es', db.ledger = es ++ e :: es' → e.entryType = .release → ∀ o ∈ db.orders,
    e.orderRef = .some o.publicId → lastReserved e.userId es - e.reservedAfterPaise = o.chargePaise

end Db

structure OrderBooks (strict : Prop) (ex : Option String) (db : Db) : Prop where
  ids : (db.orders.map (·.publicId)).Nodup
  keys : ∀ e ∈ db.ledger, e.orderRef = e.idempotencyKey.orderRef ∧
    (e.orderRef.isSome → e.entryType = e.idempotencyKey.entryType)
  known : ∀ e ∈ db.ledger, ∀ p, e.orderRef = .some p → ∃ o ∈ db.orders, o.publicId = p ∧ e.userId = o.userId
  owners : ∀ o ∈ db.orders, (db.users o.userId).isSome
  posters : ∀ e ∈ db.ledger, (db.users e.userId).isSome
  charges : ∀ o ∈ db.orders, 0 < o.chargePaise
  funds : ∀ o ∈ db.orders, ∃ f, Funds.Trace o.chargePaise (db.entriesFor o.publicId) f ∧
    (strict → f.Clean) ∧ (ex ≠ .some o.publicId → o.Fits f)
  covered : ∀ u user, db.users u = .some user →
    0 ≤ user.cachedReservedPaise ∧ user.cachedReservedPaise ≤ user.cachedBalancePaise
  last : ∀ u user, db.users u = .some user → user.cachedReservedPaise = Db.lastReserved u db.ledger
  reserve : strict → ∀ u user, db.users u = .some user → user.cachedReservedPaise = db.heldSum u
  exact : strict → db.ReleasesExact

/-! ## Looking orders up -/

namespace Db

variable {db : Db} {o : Order} {p : String}

theorem findOrder_mem (h : db.findOrder p = .some o) : o ∈ db.orders ∧ o.publicId = p :=
  ⟨List.mem_of_find?_eq_some h, by simpa using List.find?_some h⟩

theorem findOrder_of_mem (hn : (db.orders.map (·.publicId)).Nodup) (h : o ∈ db.orders) :
    db.findOrder o.publicId = .some o := find?_name hn h

/-- The credits the code counts are the credits of the order's entries. -/
theorem refundedSoFar_eq (h : ∀ e ∈ db.entriesFor o.publicId, e.userId = o.userId) :
    db.refundedSoFar o = totalOf .credit (db.entriesFor o.publicId) := by
  have hf : db.refunds o = ofType .credit (db.entriesFor o.publicId) := by
    simp only [refunds, ofType, entriesFor, List.filter_filter]
    refine List.filter_congr fun e he => ?_
    by_cases hr : e.orderRef = .some o.publicId
    · have hu := h e (by simp [entriesFor, he, hr])
      simp [hr, LedgerEntry.orderRef_iff.mp hr, hu]
    · have hne := mt LedgerEntry.orderRef_iff.mpr hr
      rw [beq_eq_false_iff_ne.mpr hr]
      by_cases ht : e.referenceType = .some "order"
      · have hi : e.referenceId ≠ .some o.publicId := fun hi => hne ⟨ht, hi⟩
        simp [beq_eq_false_iff_ne.mpr hi]
      · simp [beq_eq_false_iff_ne.mpr ht]
  simp only [refundedSoFar, totalOf, hf]

end Db

/-- A sum over rows with distinct names changes by what one row changes by. -/
theorem sum_map_update {α : Type} {name : α → String} {g g' : α → Int} {l : List α} {a : α}
    (hn : (l.map name).Nodup) (ha : a ∈ l) (hg : ∀ b ∈ l, name b ≠ name a → g' b = g b) :
    (l.map g').sum = (l.map g).sum + (g' a - g a) := by
  induction l with
  | nil => cases ha
  | cons b l ih =>
    simp only [List.map_cons, List.nodup_cons, List.mem_map, not_exists, not_and] at hn
    simp only [List.map_cons, List.sum_cons]
    rcases List.mem_cons.mp ha with rfl | ha
    · have hl : l.map g' = l.map g :=
        List.map_congr_left fun c hc => hg c (by simp [hc]) (hn.1 c hc)
      rw [hl]
      omega
    · rw [ih hn.2 ha fun c hc => hg c (by simp [hc]), hg b (by simp) fun h => hn.1 a ha h.symm]
      omega

/-! ## What a change of the tables does to the books -/

namespace Db

variable {db db' : Db} {e : LedgerEntry} {o : Order} {p : String} {u : Int}

theorem entriesFor_congr (h : db'.ledger = db.ledger) : db'.entriesFor = db.entriesFor := by
  funext p
  simp only [entriesFor, h]

theorem isHeld_congr (h : db'.entriesFor p = db.entriesFor p) : db'.isHeld p = db.isHeld p := by
  simp only [isHeld, h]

theorem heldOf_congr (hr : db'.entriesFor o.publicId = db.entriesFor o.publicId) :
    db'.heldOf u o = db.heldOf u o := by
  simp only [heldOf, isHeld_congr hr]

theorem entriesFor_posted (p : String) : (db.posted e).entriesFor p =
    db.entriesFor p ++ if e.orderRef = .some p then [e] else [] := by
  simp only [entriesFor, posted_ledger, List.filter_append, List.filter_cons, List.filter_nil, beq_iff_eq]

theorem isHeld_iff {f : Funds} (h : Funds.Trace o.chargePaise (db.entriesFor o.publicId) f)
    (hc : 0 < o.chargePaise) : db.isHeld o.publicId = true ↔ f = .held := by
  rw [h.held_iff (Int.le_of_lt hc)]
  simp [isHeld, and_assoc]

theorem heldOf_eq {f : Funds} (h : Funds.Trace o.chargePaise (db.entriesFor o.publicId) f)
    (hc : 0 < o.chargePaise) : db.heldOf o.userId o = f.hold o.chargePaise := by
  have hh := isHeld_iff h hc
  cases f with
  | held => simp [heldOf, hh.mpr rfl, Funds.hold]
  | _ => simp [heldOf, Funds.hold, show db.isHeld o.publicId = false by simpa using hh]

theorem lastReserved_snoc (u : Int) (es : List LedgerEntry) (e : LedgerEntry) :
    lastReserved u (es ++ [e]) = if e.userId = u then e.reservedAfterPaise else lastReserved u es := by
  by_cases h : e.userId = u
  · simp [lastReserved, h]
  · simp [lastReserved, h]

theorem posted_isSome (u : Int) : ((db.posted e).users u).isSome = (db.users u).isSome := by
  rw [posted_users]
  split <;> simp

end Db

/-- A change of a row that keeps whose order it is, what it cost and under which key it was placed. -/
def KeepsOrder (g : Order → Order) : Prop := ∀ o, (g o).publicId = o.publicId ∧ (g o).userId = o.userId ∧
  (g o).chargePaise = o.chargePaise ∧ (g o).idempotencyKey = o.idempotencyKey

namespace OrderBooks

variable {strict : Prop} {ex : Option String} {db db' : Db}

theorem opened (h : OrderBooks strict .none db) (p : String) : OrderBooks strict (.some p) db :=
  { h with funds := fun o ho => (h.funds o ho).imp fun _ hf => ⟨hf.1, hf.2.1, fun _ => hf.2.2 (by simp)⟩ }

/-- The books close on an order whose status fits where its money is. -/
theorem closed {o : Order} {f : Funds} (h : OrderBooks strict (.some o.publicId) db) (ho : o ∈ db.orders)
    (ht : Funds.Trace o.chargePaise (db.entriesFor o.publicId) f) (hf : o.Fits f) :
    OrderBooks strict .none db :=
  { h with
    funds := fun o' ho' => by
      obtain ⟨f', ht', hcl, hfit⟩ := h.funds o' ho'
      refine ⟨f', ht', hcl, fun _ => ?_⟩
      by_cases hp : o'.publicId = o.publicId
      · obtain rfl : o' = o := List.inj_on_of_nodup_map h.ids ho' ho hp
        exact ht'.unique ht ▸ hf
      · exact hfit (by simpa using Ne.symm hp) }

/-- A change of tables that hold no money. -/
theorem quiet (h : OrderBooks strict ex db) (hu : db'.users = db.users) (hl : db'.ledger = db.ledger)
    (ho : db'.orders = db.orders) : OrderBooks strict ex db' := by
  have hheld : db'.heldSum = db.heldSum := by
    funext u
    simp only [Db.heldSum, ho]
    exact congrArg List.sum (List.map_congr_left fun o _ =>
      Db.heldOf_congr (congrFun (Db.entriesFor_congr hl) _))
  constructor
  case ids => rw [ho]; exact h.ids
  case keys => rw [hl]; exact h.keys
  case known => rw [hl, ho]; exact h.known
  case owners => rw [ho, hu]; exact h.owners
  case posters => rw [hl, hu]; exact h.posters
  case charges => rw [ho]; exact h.charges
  case funds => rw [ho, Db.entriesFor_congr hl]; exact h.funds
  case covered => rw [hu]; exact h.covered
  case last => rw [hu, hl]; exact h.last
  case reserve => rw [hu, hheld]; exact h.reserve
  case exact => simpa only [Db.ReleasesExact, hl, ho] using h.exact

/-- Other fields of one order's row change. -/
theorem updateOrder {p : String} {g : Order → Order} (h : OrderBooks strict (.some p) db)
    (hg : KeepsOrder g) : OrderBooks strict (.some p) (db.updateOrder p g) := by
  let g' : Order → Order := fun o => if o.publicId = p then g o else o
  have hg' : KeepsOrder g' := by
    intro o
    simp only [g']
    split
    · exact hg o
    · exact ⟨rfl, rfl, rfl, rfl⟩
  have ho : (db.updateOrder p g).orders = db.orders.map g' := rfl
  have hmem {P : Order → Prop} (hP : ∀ o ∈ db.orders, P (g' o)) : ∀ o ∈ (db.updateOrder p g).orders, P o := by
    intro o hm
    obtain ⟨o', hm', rfl⟩ := List.mem_map.mp (ho ▸ hm)
    exact hP o' hm'
  have hheld : (db.updateOrder p g).heldSum = db.heldSum := by
    funext u
    simp only [Db.heldSum, ho, List.map_map]
    refine congrArg List.sum (List.map_congr_left fun o _ => ?_)
    obtain ⟨h₁, h₂, h₃, _⟩ := hg' o
    simp only [Function.comp_apply, Db.heldOf, h₁, h₂, h₃]
    rfl
  constructor
  case ids =>
    have : (db.updateOrder p g).orders.map (·.publicId) = db.orders.map (·.publicId) := by
      rw [ho, List.map_map]
      exact List.map_congr_left fun o _ => (hg' o).1
    rw [this]
    exact h.ids
  case keys => exact h.keys
  case known =>
    intro e he q hq
    obtain ⟨o, hm, h₁, h₂⟩ := h.known e he q hq
    exact ⟨g' o, ho ▸ List.mem_map_of_mem hm, (hg' o).1.trans h₁, h₂.trans (hg' o).2.1.symm⟩
  case owners => exact hmem fun o hm => by rw [(hg' o).2.1]; exact h.owners o hm
  case posters => exact h.posters
  case charges => exact hmem fun o hm => by rw [(hg' o).2.2.1]; exact h.charges o hm
  case funds =>
    refine hmem fun o hm => ?_
    obtain ⟨f, ht, hcl, hfit⟩ := h.funds o hm
    refine ⟨f, ?_, hcl, fun hne => ?_⟩
    · rw [(hg' o).2.2.1, (hg' o).1]
      exact ht
    · rw [(hg' o).1] at hne
      have hp : ¬ o.publicId = p := fun hp => hne (by rw [hp])
      simp only [g', if_neg hp]
      exact hfit hne
  case covered => exact h.covered
  case last => exact h.last
  case reserve => rw [hheld]; exact h.reserve
  case exact =>
    intro hs es e es' hes he
    refine hmem fun o hm hr => ?_
    rw [(hg' o).2.2.1]
    exact h.exact hs es e es' hes he o hm ((hg' o).1 ▸ hr)

/-- A posting leaves the other users' wallets, and its own covered, at its last reserve. -/
theorem posted_wallets (h : OrderBooks strict ex db) {p : Posting} {t : EntryType} {key : Key}
    {draft : User → Except Err Draft} {e : LedgerEntry} (hp : Posts db p t key draft e) {u : Int} {user : User}
    (hu : (db.posted e).users u = .some user) :
    (0 ≤ user.cachedReservedPaise ∧ user.cachedReservedPaise ≤ user.cachedBalancePaise) ∧
      user.cachedReservedPaise = Db.lastReserved u (db.posted e).ledger ∧
      (e.userId = u → user.cachedReservedPaise = e.reservedAfterPaise) ∧
      (e.userId ≠ u → db.users u = .some user) := by
  rw [Db.posted_users] at hu
  rw [Db.posted_ledger, Db.lastReserved_snoc]
  by_cases he : e.userId = u
  · subst he
    obtain ⟨_, _, user₀, d, hrow, _, rfl, hr, hb⟩ := hp
    rw [if_pos rfl, show (p.entry t key d).userId = p.userId from rfl, hrow] at hu
    obtain rfl := Option.some.inj hu
    rw [if_pos rfl]
    exact ⟨⟨hr, hb⟩, rfl, fun _ => rfl, fun hne => absurd rfl hne⟩
  · rw [if_neg (Ne.symm he)] at hu
    rw [if_neg he]
    exact ⟨h.covered u user hu, h.last u user hu, fun h' => absurd h' he, fun _ => hu⟩

/-- A posting that is about no order. -/
theorem posted_other (h : OrderBooks strict ex db) {p : Posting} {t : EntryType} {key : Key}
    {draft : User → Except Err Draft} {e : LedgerEntry} (hp : Posts db p t key draft e)
    (href : e.orderRef = .none) (hkey : key.orderRef = .none)
    (hres : ∀ user, db.users p.userId = .some user → e.reservedAfterPaise = user.cachedReservedPaise) :
    OrderBooks strict ex (db.posted e) := by
  have hentries : (db.posted e).entriesFor = db.entriesFor := by
    funext q
    rw [Db.entriesFor_posted, href, if_neg (by simp), List.append_nil]
  have hheld : (db.posted e).heldSum = db.heldSum := by
    funext u
    exact congrArg List.sum (List.map_congr_left fun o _ => Db.heldOf_congr (congrFun hentries _))
  obtain ⟨user₀, _, hrow, _⟩ := hp.drafted
  have heu : e.userId = p.userId := hp.entry_eq.1
  have hmem {P : LedgerEntry → Prop} (hP : ∀ e' ∈ db.ledger, P e') (he : P e) :
      ∀ e' ∈ (db.posted e).ledger, P e' := by
    intro e' hm
    rcases List.mem_append.mp hm with hm | hm
    · exact hP e' hm
    · rwa [List.mem_singleton.mp hm]
  constructor
  case ids => exact h.ids
  case keys => exact hmem h.keys ⟨by rw [href, hp.entry_eq.2, hkey], by simp [href]⟩
  case known => exact hmem h.known (by simp [href])
  case owners => exact fun o ho => (Db.posted_isSome _).trans (h.owners o ho)
  case posters =>
    simp only [Db.posted_isSome]
    exact hmem h.posters (by rw [heu, hrow]; rfl)
  case charges => exact h.charges
  case funds => rw [hentries]; exact h.funds
  case covered => exact fun u user hu => (h.posted_wallets hp hu).1
  case last => exact fun u user hu => (h.posted_wallets hp hu).2.1
  case reserve =>
    intro hs u user hu
    obtain ⟨_, _, h₁, h₂⟩ := h.posted_wallets hp hu
    rw [hheld]
    by_cases he : e.userId = u
    · obtain rfl : p.userId = u := heu ▸ he
      rw [h₁ he, hres user₀ hrow, h.reserve hs _ user₀ hrow]
    · exact h.reserve hs u user (h₂ he)
  case exact =>
    intro hs es e' es' hes he' o ho hr
    rcases List.eq_nil_or_concat es' with rfl | ⟨es₃, e₃, rfl⟩
    · obtain ⟨_, h₁⟩ := List.append_inj' hes rfl
      obtain rfl : e = e' := by simpa using h₁
      rw [href] at hr
      cases hr
    · have hes' : db.ledger ++ [e] = (es ++ e' :: es₃) ++ [e₃] := by simpa using hes
      exact h.exact hs es e' es₃ (List.append_inj' hes' rfl).1 he' o ho hr

/-- A posting that moves the money of an order. -/
theorem posted_order {o : Order} {f f' : Funds} (h : OrderBooks strict (.some o.publicId) db)
    (ho : o ∈ db.orders) (ht : Funds.Trace o.chargePaise (db.entriesFor o.publicId) f) {p : Posting}
    {t : EntryType} {key : Key} {draft : User → Except Err Draft} {e : LedgerEntry}
    (hp : Posts db p t key draft e) (href : e.orderRef = .some o.publicId)
    (hkey : key.orderRef = .some o.publicId) (hu : p.userId = o.userId) (htype : e.entryType = t)
    (htype' : key.entryType = t)
    (hm : f.Moves o.chargePaise t e.amountPaise f') (hcl : strict → f'.Clean)
    (hres : strict → ∀ user, db.users o.userId = .some user →
      e.reservedAfterPaise = user.cachedReservedPaise + (f'.hold o.chargePaise - f.hold o.chargePaise)) :
    OrderBooks strict (.some o.publicId) (db.posted e) := by
  have hself : (db.posted e).entriesFor o.publicId = db.entriesFor o.publicId ++ [e] := by
    rw [Db.entriesFor_posted, href, if_pos rfl]
  have hother {q} (hq : q ≠ o.publicId) : (db.posted e).entriesFor q = db.entriesFor q := by
    rw [Db.entriesFor_posted, href, if_neg (by simpa using Ne.symm hq), List.append_nil]
  have ht' : Funds.Trace o.chargePaise ((db.posted e).entriesFor o.publicId) f' :=
    hself ▸ ht.snoc (htype ▸ hm)
  have hc := h.charges o ho
  have heu : e.userId = o.userId := hp.entry_eq.1.trans hu
  obtain ⟨user₀, _, hrow, _⟩ := hp.drafted
  rw [hu] at hrow
  have hmem {P : LedgerEntry → Prop} (hP : ∀ e' ∈ db.ledger, P e') (he : P e) :
      ∀ e' ∈ (db.posted e).ledger, P e' := by
    intro e' hm
    rcases List.mem_append.mp hm with hm | hm
    · exact hP e' hm
    · rwa [List.mem_singleton.mp hm]
  constructor
  case ids => exact h.ids
  case keys => exact hmem h.keys ⟨by rw [href, hp.entry_eq.2, hkey], fun _ => by rw [htype, hp.entry_eq.2, htype']⟩
  case known =>
    refine hmem h.known fun q hq => ?_
    rw [href, Option.some.injEq] at hq
    exact ⟨o, ho, hq, heu⟩
  case owners => exact fun o ho => (Db.posted_isSome _).trans (h.owners o ho)
  case posters =>
    simp only [Db.posted_isSome]
    exact hmem h.posters (by rw [heu, hrow]; rfl)
  case charges => exact h.charges
  case funds =>
    intro o' ho'
    by_cases hq : o'.publicId = o.publicId
    · obtain rfl : o' = o := List.inj_on_of_nodup_map h.ids ho' ho hq
      exact ⟨f', ht', hcl, fun hne => absurd rfl hne⟩
    · rw [hother hq]
      exact h.funds o' ho'
  case covered => exact fun u user hu => (h.posted_wallets hp hu).1
  case last => exact fun u user hu => (h.posted_wallets hp hu).2.1
  case reserve =>
    intro hs u user hu
    obtain ⟨_, _, h₁, h₂⟩ := h.posted_wallets hp hu
    -- only this order's part of the sum changes
    have hsum : (db.posted e).heldSum u = db.heldSum u + ((db.posted e).heldOf u o - db.heldOf u o) :=
      sum_map_update h.ids ho fun o' _ hne => Db.heldOf_congr (hother hne)
    by_cases he : e.userId = u
    · obtain rfl : o.userId = u := heu ▸ he
      rw [hsum, Db.heldOf_eq ht' hc, Db.heldOf_eq ht hc, h₁ he, hres hs user₀ hrow, h.reserve hs _ user₀ hrow]
    · have hne : ¬ o.userId = u := fun h' => he (heu.trans h')
      rw [hsum, h.reserve hs u user (h₂ he)]
      simp [Db.heldOf, hne]
  case exact =>
    intro hs es e' es' hes he' o' ho' hr
    rcases List.eq_nil_or_concat es' with rfl | ⟨es₃, e₃, rfl⟩
    · obtain ⟨rfl, h₁⟩ := List.append_inj' hes rfl
      obtain rfl : e = e' := by simpa using h₁
      rw [href, Option.some.injEq] at hr
      obtain rfl : o' = o := List.inj_on_of_nodup_map h.ids ho' ho hr.symm
      obtain rfl : t = .release := htype ▸ he'
      have hlast := h.last _ user₀ hrow
      rw [heu, ← hlast, hres hs user₀ hrow]
      cases hm with
      | release => simp [Funds.hold]
      | overrun => cases hcl hs
    · have hes' : db.ledger ++ [e] = (es ++ e' :: es₃) ++ [e₃] := by simpa using hes
      exact h.exact hs es e' es₃ (List.append_inj' hes' rfl).1 he' o' ho' hr

/-- A new order, of which there is no entry yet. -/
theorem insertOrder {o : Order} (h : OrderBooks strict .none db) (hnew : ∀ o' ∈ db.orders, o'.publicId ≠ o.publicId)
    (hu : (db.users o.userId).isSome) (hc : 0 < o.chargePaise) :
    OrderBooks strict (.some o.publicId) { db with orders := db.orders ++ [o] } ∧
      db.entriesFor o.publicId = [] := by
  have hnone : db.entriesFor o.publicId = [] := by
    simp only [Db.entriesFor, List.filter_eq_nil_iff, beq_iff_eq]
    intro e he hr
    obtain ⟨o', ho', hp, _⟩ := h.known e he _ hr
    exact hnew o' ho' hp
  refine ⟨?_, hnone⟩
  have hmem {P : Order → Prop} (hP : ∀ o' ∈ db.orders, P o') (hPo : P o) :
      ∀ o' ∈ db.orders ++ [o], P o' := by
    intro o' hm
    rcases List.mem_append.mp hm with hm | hm
    · exact hP o' hm
    · rwa [List.mem_singleton.mp hm]
  constructor
  case ids =>
    simp only [List.map_append, List.map_cons, List.map_nil]
    refine List.nodup_append.mpr ⟨h.ids, by simp, ?_⟩
    intro q hq q' hq'
    obtain ⟨o', ho', rfl⟩ := List.mem_map.mp hq
    rw [List.mem_singleton.mp hq']
    exact hnew o' ho'
  case keys => exact h.keys
  case known =>
    intro e he q hq
    obtain ⟨o', ho', h'⟩ := h.known e he q hq
    exact ⟨o', List.mem_append_left _ ho', h'⟩
  case owners => exact hmem h.owners hu
  case posters => exact h.posters
  case charges => exact hmem h.charges hc
  case funds =>
    refine hmem (fun o' ho' => ?_) ?_
    · obtain ⟨f, ht, hcl, hfit⟩ := h.funds o' ho'
      exact ⟨f, ht, hcl, fun _ => hfit (by simp)⟩
    · exact ⟨.unheld, hnone ▸ .nil, fun _ => trivial, fun hne => absurd rfl hne⟩
  case covered => exact h.covered
  case last => exact h.last
  case reserve =>
    intro hs u user hu'
    have hzero : db.heldOf u o = 0 := by simp [Db.heldOf, Db.isHeld, hnone]
    have hsum : Db.heldSum { db with orders := db.orders ++ [o] } u = db.heldSum u + db.heldOf u o := by
      simp only [Db.heldSum, List.map_append, List.map_cons, List.map_nil, List.sum_append, List.sum_singleton]
      rfl
    rw [hsum, hzero, h.reserve hs u user hu']
    omega
  case exact =>
    intro hs es e es' hes he
    refine hmem (h.exact hs es e es' hes he) fun hr => ?_
    have : e ∈ db.entriesFor o.publicId := by
      simp [Db.entriesFor, hr, show db.ledger = es ++ e :: es' from hes]
    rw [hnone] at this
    cases this

/-- What the code takes for refunded is what is refunded. -/
theorem refundedSoFar (h : OrderBooks strict ex db) {o : Order} (ho : o ∈ db.orders) {f : Funds}
    (ht : Funds.Trace o.chargePaise (db.entriesFor o.publicId) f) : db.refundedSoFar o = f.refunded := by
  rw [Db.refundedSoFar_eq fun e he => ?_]
  · exact (ht.refunded_eq (Int.le_of_lt (h.charges o ho))).1
  · simp only [Db.entriesFor, List.mem_filter, beq_iff_eq] at he
    obtain ⟨o', ho', hp, hu⟩ := h.known e he.1 _ he.2
    rwa [List.inj_on_of_nodup_map h.ids ho' ho hp] at hu

theorem heldOf_nonneg (h : OrderBooks strict ex db) {o : Order} (ho : o ∈ db.orders) (u : Int) :
    0 ≤ db.heldOf u o := by
  have := h.charges o ho
  unfold Db.heldOf
  split <;> omega

/-- What one order holds is part of what its owner's orders hold. -/
theorem heldOf_le (h : OrderBooks strict ex db) {o : Order} (ho : o ∈ db.orders) (u : Int) :
    db.heldOf u o ≤ db.heldSum u := by
  have hall : ∀ x ∈ db.orders.map (db.heldOf u), 0 ≤ x := by
    intro x hx
    obtain ⟨o', ho', rfl⟩ := List.mem_map.mp hx
    exact h.heldOf_nonneg ho' u
  exact List.single_le_sum hall _ (List.mem_map_of_mem ho)

/-- A held charge is covered by the reserve. -/
theorem charge_le_reserved (h : OrderBooks strict ex db) (hs : strict) {o : Order} (ho : o ∈ db.orders)
    (ht : Funds.Trace o.chargePaise (db.entriesFor o.publicId) .held) {user : User}
    (hu : db.users o.userId = .some user) : o.chargePaise ≤ user.cachedReservedPaise := by
  rw [h.reserve hs _ user hu]
  have hle := h.heldOf_le ho o.userId
  rwa [Db.heldOf_eq ht (h.charges o ho)] at hle

end OrderBooks

end Falaron
