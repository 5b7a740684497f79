/-
The adapter of a panel that speaks the usual SMM API, and which failures
leave it.

Each call posts a form and converts the JSON value that comes back, field by
field; what the panel answers to a form is an argument. The callers handle
`ProviderError` only. The conversions raise three exceptions of their own,
and the adapter catches two: `panel_fails_handled_iff` says on which answers
the third, `OverflowError`, reaches the caller.
-/
import Falaron.Adapter
import Falaron.Py.Json

namespace Falaron.PerfectPanel

open Py (Json Dict Double Raised field hasField onlyFields)
open Text (Extra ExtraValue)

/-- What a call of the adapter raises. -/
inductive PanelFailure where
  | provider (e : ProviderError)
  | python (e : Raised)

abbrev PanelResult := Except PanelFailure

def providerError {α : Type} (message : String) : PanelResult α := .error (.provider ⟨message, false⟩)

/-- `try: x except (TypeError, ValueError): handler` -/
def tryConvert {α : Type} (x : Except Raised α) (handler : PanelResult α) : PanelResult α :=
  match x with
  | .ok a => .ok a
  | .error .overflowError => .error (.python .overflowError)
  | .error _ => handler

/-! ## Requests -/

/-- What comes back over HTTP: a status outside 2xx, a broken connection, or
a body that is or is not JSON. -/
inductive HttpAnswer where
  | status (code : Nat)
  | network
  | notJson
  | body (v : Json)

structure PerfectPanelAdapter where
  apiKey : String

/-- The form that `_post` sends. -/
def PerfectPanelAdapter.form (a : PerfectPanelAdapter) (action : String) (payload : Extra) : Extra :=
  payload.foldl (fun data p => data.set p.1 p.2) [("key", .str a.apiKey), ("action", .str action)]

section

variable (repr : Json → String)

/-- The end of `_post`: a body with an `error` is one. -/
def receive : HttpAnswer → PanelResult Json
  | .status code => .error (.provider ⟨s!"Panel HTTP {code}", 500 ≤ code⟩)
  | .network => .error (.provider ⟨"Panel network error", true⟩)
  | .notJson => providerError "Panel returned non-JSON"
  | .body (.object d) =>
    if (field d "error").truthy then providerError ((field d "error").text repr) else .ok (.object d)
  | .body v => .ok v

variable (a : PerfectPanelAdapter) (panel : Extra → HttpAnswer)

/-- `_post` -/
def post (action : String) (payload : Extra) : PanelResult Json := receive repr (panel (a.form action payload))

/-! ## Services and balance -/

structure ProviderService where
  externalId : String
  name : String
  category : String
  rate : Double
  minQty : Int
  maxQty : Int
  serviceType : String
  refill : Bool
  cancel : Bool
  extra : Dict

/-- One row of the list. -/
def readService (item : Dict) : Except Raised ProviderService := do
  let rate ← ((field item "rate").or (.int 0)).toFloat
  let minQty ← ((field item "min").or (.int 1)).toInt
  let maxQty ← ((field item "max").or (.int 1)).toInt
  pure {
    externalId := ((field item "service").or (field item "id")).text repr
    name := ((field item "name").or (.str "Unnamed")).text repr
    category := ((field item "category").or (.str "Other")).text repr
    rate := rate
    minQty := minQty
    maxQty := maxQty
    serviceType := ((field item "type").or (.str "default")).text repr
    refill := (field item "refill").truthy
    cancel := (field item "cancel").truthy
    extra := onlyFields item ["dripfeed", "description"] }

/-- The loop of `get_services`: a row that cannot be converted is skipped. -/
def readServices : List Json → PanelResult (List ProviderService)
  | [] => pure []
  | .object item :: rest => do
    let row : Option ProviderService ← tryConvert ((readService repr item).map .some) (.ok .none)
    let rows ← readServices rest
    pure (row.toList ++ rows)
  | _ :: rest => readServices rest

def getServices : PanelResult (List ProviderService) := do
  match ← post repr a panel "services" [] with
  | .array items => readServices repr items
  | _ => providerError "Unexpected services payload"

def getBalance : PanelResult Double := do
  match ← post repr a panel "balance" [] with
  | .object d => tryConvert ((field d "balance").or (.int 0)).toFloat (providerError "Invalid balance value")
  | _ => providerError "Unexpected balance payload"

/-! ## Orders -/

structure ProviderOrder where
  externalId : String
  raw : Dict

/-- The parts of an order's `extra` that are passed on. -/
def passedOn (extra : Extra) : Extra :=
  ["comments", "usernames", "runs", "interval"].filterMap fun k =>
    (extra.get? k).bind fun v => if ExtraValue.text (.some v) = "" then .none else .some (k, v)

def orderPayload (serviceExternalId link : String) (quantity : Int) (extra : Extra) : Extra :=
  [("service", .str serviceExternalId), ("link", .str link), ("quantity", .int quantity)] ++ passedOn extra

def createOrder (serviceExternalId link : String) (quantity : Int) (extra : Extra) : PanelResult ProviderOrder := do
  match ← post repr a panel "add" (orderPayload serviceExternalId link quantity extra) with
  | .object d =>
    if hasField d "order" then pure ⟨(field d "order").text repr, d⟩
    else providerError "Panel did not return an order id"
  | _ => providerError "Panel did not return an order id"

/-- `ProviderStatus` with the fields that only the adapter fills. -/
structure PanelStatus extends ProviderStatus where
  externalId : String
  charge : Option Double
  raw : Dict

/-- `_maybe_int` -/
def maybeInt (value : Json) : PanelResult (Option Int) :=
  if value.isMissing then pure .none else tryConvert (value.toWhole.map .some) (.ok .none)

def readCharge : Json → PanelResult (Option Double)
  | .null => pure .none
  | raw => tryConvert (raw.toFloat.map .some) (.ok .none)

/-- `_to_status` -/
def toStatus (externalId : String) (body : Dict) : PanelResult PanelStatus := do
  let charge ← readCharge (field body "charge")
  let startCount ← maybeInt (field body "start_count")
  let remains ← maybeInt (field body "remains")
  pure {
    status := normalizePanelStatus (.some (((field body "status").or (.str "")).text repr))
    startCount := startCount
    remains := remains
    reported := normalizePanelStatus_reported _
    externalId := externalId
    charge := charge
    raw := body }

def getOrderStatus (externalOrderId : String) : PanelResult PanelStatus := do
  match ← post repr a panel "status" [("order", .str externalOrderId)] with
  | .object d => toStatus repr externalOrderId d
  | _ => providerError "Unexpected status payload"

/-- A map of ids to statuses; what is no object is passed over. -/
def readStatuses : Dict → PanelResult (List PanelStatus)
  | [] => pure []
  | (oid, .object item) :: rest => do
    let status ← toStatus repr oid item
    let statuses ← readStatuses rest
    pure (status :: statuses)
  | _ :: rest => readStatuses rest

def joined (ids : List String) : ExtraValue := .str (",".intercalate ids)

def getMultipleStatus : List String → PanelResult (List PanelStatus)
  | [] => pure []
  | id :: ids => do
    match ← post repr a panel "status" [("orders", joined (id :: ids))] with
    | .object d =>
      if hasField d "status" && ids.isEmpty then do
        let status ← toStatus repr id d
        pure [status]
      else readStatuses repr d
    | _ => pure []

def refill (externalOrderId : String) : PanelResult String := do
  match ← post repr a panel "refill" [("order", .str externalOrderId)] with
  | .object d =>
    if hasField d "refill" then pure ((field d "refill").text repr) else providerError "Panel did not accept refill"
  | _ => providerError "Panel did not accept refill"

def refillStatus (refillId : String) : PanelResult PanelStatus := do
  match ← post repr a panel "refill_status" [("refill", .str refillId)] with
  | .object d => toStatus repr refillId d
  | _ => providerError "Unexpected refill status payload"

def confirms (d : Dict) : Bool := Text.lower (Text.strip ((field d "cancel").text repr)) ∈ ["1", "true"]

/-- The ids whose cancellation an answer confirms. -/
def confirmed (ids : List String) : Json → List String
  | .array items => items.filterMap fun item =>
    match item with
    | .object d => if confirms repr d then .some ((field d "order").text repr) else .none
    | _ => .none
  | .object d => if ids.length = 1 && confirms repr d then ids else []
  | _ => []

def cancel (ids : List String) : PanelResult (List String) := do
  let body ← post repr a panel "cancel" [("orders", joined ids)]
  let confirmed := confirmed repr ids body
  if ids.all (· ∈ confirmed) then pure (confirmed.dedup.mergeSort fun s t => s ≤ t)
  else providerError "The provider did not confirm the cancellation"

end

/-! ## The calls -/

inductive PanelCall where
  | getServices
  | getBalance
  | createOrder (serviceExternalId link : String) (quantity : Int) (extra : Extra)
  | getOrderStatus (externalOrderId : String)
  | getMultipleStatus (externalOrderIds : List String)
  | refill (externalOrderId : String)
  | refillStatus (refillId : String)
  | cancel (externalOrderIds : List String)

namespace PanelCall

def Result : PanelCall → Type
  | getServices => List ProviderService
  | getBalance => Double
  | createOrder .. => ProviderOrder
  | getOrderStatus _ => PanelStatus
  | getMultipleStatus _ => List PanelStatus
  | refill _ => String
  | refillStatus _ => PanelStatus
  | cancel _ => List String

def run (repr : Json → String) (a : PerfectPanelAdapter) (panel : Extra → HttpAnswer) :
    (c : PanelCall) → PanelResult c.Result
  | getServices => PerfectPanel.getServices repr a panel
  | getBalance => PerfectPanel.getBalance repr a panel
  | createOrder service link quantity extra => PerfectPanel.createOrder repr a panel service link quantity extra
  | getOrderStatus id => PerfectPanel.getOrderStatus repr a panel id
  | getMultipleStatus ids => PerfectPanel.getMultipleStatus repr a panel ids
  | refill id => PerfectPanel.refill repr a panel id
  | refillStatus id => PerfectPanel.refillStatus repr a panel id
  | cancel ids => PerfectPanel.cancel repr a panel ids

/-- What the call posts. -/
def form (a : PerfectPanelAdapter) : PanelCall → Extra
  | getServices => a.form "services" []
  | getBalance => a.form "balance" []
  | createOrder service link quantity extra => a.form "add" (orderPayload service link quantity extra)
  | getOrderStatus id => a.form "status" [("order", .str id)]
  | getMultipleStatus ids => a.form "status" [("orders", joined ids)]
  | refill id => a.form "refill" [("order", .str id)]
  | refillStatus id => a.form "refill_status" [("refill", .str id)]
  | cancel ids => a.form "cancel" [("orders", joined ids)]

end PanelCall

/-! ## Exceptions that leave a call -/

/-- An exception other than `ProviderError` comes out. -/
def Escapes {α : Type} (r : PanelResult α) : Prop := ∃ e, r = .error (.python e)

instance {α : Type} : (r : PanelResult α) → Decidable (Escapes r)
  | .ok _ => isFalse fun ⟨_, h⟩ => nomatch h
  | .error (.provider _) => isFalse fun ⟨_, h⟩ => nomatch h
  | .error (.python e) => isTrue ⟨e, rfl⟩

section

variable {α β : Type}

theorem not_escapes_ok {x : α} : ¬ Escapes (.ok x) := fun ⟨_, h⟩ => nomatch h

theorem not_escapes_providerError {message : String} : ¬ Escapes (providerError message : PanelResult α) :=
  fun ⟨_, h⟩ => nomatch h

theorem escapes_bind {x : PanelResult α} {f : α → PanelResult β} :
    Escapes (x >>= f) ↔ Escapes x ∨ ∃ a, x = .ok a ∧ Escapes (f a) := by
  cases x with
  | ok a =>
    refine ⟨fun h => .inr ⟨a, rfl, h⟩, fun h => ?_⟩
    obtain ⟨_, h⟩ | ⟨_, hx, h⟩ := h
    · cases h
    · cases hx; exact h
  | error e =>
    refine ⟨fun ⟨e', h⟩ => .inl ⟨e', by cases h; rfl⟩, fun h => ?_⟩
    obtain ⟨e', h⟩ | ⟨_, h, _⟩ := h
    · exact ⟨e', by cases h; rfl⟩
    · cases h

/-- A conversion that never ends in `ProviderError` hands over to the rest of
the call, or its exception escapes. -/
theorem escapes_bind_of {x : PanelResult α} {f : α → PanelResult β} {P : Prop} (h : ∀ a, Escapes (f a) ↔ P)
    (hx : Escapes x ∨ ∃ a, x = .ok a) : Escapes (x >>= f) ↔ Escapes x ∨ P := by
  rw [escapes_bind]
  refine or_congr_right' fun hne => ⟨fun ⟨a, _, ha⟩ => (h a).1 ha, fun hp => ?_⟩
  obtain ⟨a, ha⟩ := hx.resolve_left hne
  exact ⟨a, ha, (h a).2 hp⟩

theorem escapes_tryConvert {x : Except Raised α} {handler : PanelResult α} (hh : ¬ Escapes handler) :
    Escapes (tryConvert x handler) ↔ x = .error .overflowError := by
  cases x with
  | ok a => exact ⟨fun h => absurd h not_escapes_ok, fun h => nomatch h⟩
  | error e =>
    cases e with
    | overflowError => exact ⟨fun _ => rfl, fun _ => ⟨_, rfl⟩⟩
    | typeError => exact ⟨fun h => absurd h hh, fun h => nomatch h⟩
    | valueError => exact ⟨fun h => absurd h hh, fun h => nomatch h⟩

theorem tryConvert_ok (x : Except Raised α) (d : α) :
    Escapes (tryConvert x (.ok d)) ∨ ∃ a, tryConvert x (.ok d) = .ok a := by
  cases x with
  | ok a => exact .inr ⟨a, rfl⟩
  | error e =>
    cases e with
    | overflowError => exact .inl ⟨_, rfl⟩
    | typeError => exact .inr ⟨d, rfl⟩
    | valueError => exact .inr ⟨d, rfl⟩

theorem map_overflows {x : Except Raised α} {f : α → β} :
    x.map f = .error .overflowError ↔ x = .error .overflowError := by
  cases x <;> simp [Except.map]

theorem bind_overflows {x : Except Raised α} {f : α → Except Raised β} {P : Prop}
    (h : ∀ a, f a = .error .overflowError ↔ P) :
    x >>= f = .error .overflowError ↔ x = .error .overflowError ∨ x.isOk ∧ P := by
  cases x with
  | ok a => simpa [bind, Except.bind, Except.isOk, Except.toBool] using h a
  | error e => simp [bind, Except.bind, Except.isOk, Except.toBool]

end

section

variable {repr : Json → String}

theorem not_escapes_receive (answer : HttpAnswer) : ¬ Escapes (receive repr answer) := by
  intro ⟨e, h⟩
  unfold receive at h
  split at h
  · cases h
  · cases h
  · cases h
  · split at h <;> cases h
  · cases h

/-- What a call goes on with. -/
theorem receive_ok {answer : HttpAnswer} {v : Json} : receive repr answer = .ok v ↔
    answer = .body v ∧ ∀ d, v = .object d → (field d "error").truthy = false := by
  unfold receive
  split
  · exact ⟨nofun, nofun⟩
  · exact ⟨nofun, nofun⟩
  · exact ⟨nofun, nofun⟩
  · next d =>
    split
    · next he =>
      refine ⟨nofun, fun ⟨h, hd⟩ => ?_⟩
      cases h
      exact absurd (hd d rfl) (by simp [he])
    · next he =>
      refine ⟨fun h => ?_, fun ⟨h, _⟩ => by cases h; rfl⟩
      cases h
      exact ⟨rfl, fun d' h' => by cases h'; simpa using he⟩
  · next v' hv =>
    refine ⟨fun h => ?_, fun ⟨h, _⟩ => by cases h; rfl⟩
    cases h
    exact ⟨rfl, fun d h' => absurd h' (hv d)⟩

/-! ## The conversions of one answer -/

/-- A row whose rate is too large for a float, or, where the limits are
reached, one with an infinite limit. -/
def RowOverflows (item : Dict) : Prop :=
  (field item "rate").IsHuge ∨
    ((field item "rate").or (.int 0)).toFloat.isOk ∧
      ((field item "min").IsInfinite ∨
        ((field item "min").or (.int 1)).toInt.isOk ∧ (field item "max").IsInfinite)

/-- A count that is too large for a float or reads as an infinite one, or a
charge that is too large. -/
def StatusOverflows (body : Dict) : Prop :=
  (field body "charge").IsHuge ∨
    ((field body "start_count").IsHuge ∨ (field body "start_count").ReadsInfinite) ∨
    ((field body "remains").IsHuge ∨ (field body "remains").ReadsInfinite)

theorem readService_overflows {item : Dict} :
    readService repr item = .error .overflowError ↔ RowOverflows item := by
  have hrow : readService repr item = .error .overflowError ↔ _ :=
    bind_overflows fun rate => bind_overflows fun minQty => bind_overflows (P := False) fun maxQty => ⟨nofun, nofun⟩
  rw [hrow, Json.toFloat_overflows, Json.toInt_overflows, Json.toInt_overflows,
    Json.isHuge_or Json.not_isHuge_zero, Json.isInfinite_or id, Json.isInfinite_or id]
  simp [RowOverflows]

theorem escapes_readServices {items : List Json} :
    Escapes (readServices repr items) ↔ ∃ item, .object item ∈ items ∧ RowOverflows item := by
  induction items with
  | nil => exact ⟨fun h => absurd h not_escapes_ok, nofun⟩
  | cons v rest ih =>
    have hskip : (∀ item, v ≠ .object item) →
        ((∃ item, .object item ∈ v :: rest ∧ RowOverflows item) ↔ Escapes (readServices repr rest)) := by
      intro hv
      rw [ih]
      refine exists_congr fun item => and_congr_left fun _ => ?_
      simp [Ne.symm (hv item)]
    unfold readServices
    split
    · next h => cases h
    · next item rest' h =>
      cases h
      rw [escapes_bind_of (P := ∃ item, .object item ∈ rest ∧ RowOverflows item) _ (tryConvert_ok ..),
        escapes_tryConvert not_escapes_ok, map_overflows, readService_overflows]
      · simp [or_and_right, exists_or]
      · intro row
        rw [escapes_bind, ← ih]
        simp [not_escapes_ok, pure, Except.pure]
    · next v' rest' hv h =>
      cases h
      exact (hskip hv).symm

theorem maybeInt_ok (v : Json) : Escapes (maybeInt v) ∨ ∃ n, maybeInt v = .ok n := by
  unfold maybeInt
  split
  · exact .inr ⟨.none, rfl⟩
  · exact tryConvert_ok ..

theorem escapes_maybeInt {v : Json} : Escapes (maybeInt v) ↔ v.IsHuge ∨ v.ReadsInfinite := by
  unfold maybeInt
  split
  · next h => exact iff_of_false not_escapes_ok (Json.isMissing_reads h)
  · rw [escapes_tryConvert not_escapes_ok, map_overflows, Json.toWhole_overflows]

theorem readCharge_ok (v : Json) : Escapes (readCharge v) ∨ ∃ c, readCharge v = .ok c := by
  unfold readCharge
  split
  · exact .inr ⟨.none, rfl⟩
  · exact tryConvert_ok ..

theorem escapes_readCharge {v : Json} : Escapes (readCharge v) ↔ v.IsHuge := by
  unfold readCharge
  split
  · exact iff_of_false not_escapes_ok id
  · rw [escapes_tryConvert not_escapes_ok, map_overflows, Json.toFloat_overflows]

theorem escapes_toStatus {id : String} {body : Dict} :
    Escapes (toStatus repr id body) ↔ StatusOverflows body := by
  have hstatus : Escapes (toStatus repr id body) ↔ _ :=
    escapes_bind_of (fun charge => escapes_bind_of (fun startCount => escapes_bind_of (P := False)
      (fun remains => iff_of_false not_escapes_ok not_false) (maybeInt_ok _)) (maybeInt_ok _)) (readCharge_ok _)
  rw [hstatus, escapes_readCharge, escapes_maybeInt, escapes_maybeInt, or_false]
  rfl

theorem toStatus_ok (id : String) (body : Dict) :
    Escapes (toStatus repr id body) ∨ ∃ status, toStatus repr id body = .ok status := by
  unfold toStatus
  obtain h | ⟨charge, hc⟩ := readCharge_ok (field body "charge")
  · exact .inl (escapes_bind.2 (.inl h))
  obtain h | ⟨startCount, hs⟩ := maybeInt_ok (field body "start_count")
  · exact .inl (escapes_bind.2 (.inr ⟨charge, hc, escapes_bind.2 (.inl h)⟩))
  obtain h | ⟨remains, hr⟩ := maybeInt_ok (field body "remains")
  · exact .inl (escapes_bind.2 (.inr ⟨charge, hc, escapes_bind.2 (.inr ⟨startCount, hs, escapes_bind.2 (.inl h)⟩)⟩))
  · rw [hc, hs, hr]
    exact .inr ⟨_, rfl⟩

theorem escapes_readStatuses {d : Dict} :
    Escapes (readStatuses repr d) ↔ ∃ id item, (id, .object item) ∈ d ∧ StatusOverflows item := by
  induction d with
  | nil => exact ⟨fun h => absurd h not_escapes_ok, nofun⟩
  | cons p rest ih =>
    unfold readStatuses
    split
    · next h => cases h
    · next id item rest' h =>
      cases h
      have hrest : ∀ status, Escapes (readStatuses repr rest >>= fun statuses =>
          (pure (status :: statuses) : PanelResult (List PanelStatus))) ↔
          ∃ id item, (id, .object item) ∈ rest ∧ StatusOverflows item := fun status => by
        rw [escapes_bind, ← ih]
        simp [not_escapes_ok, pure, Except.pure]
      rw [escapes_bind_of hrest (toStatus_ok ..), escapes_toStatus]
      simp [or_and_right, exists_or]
    · next rest' hv h =>
      cases h
      rw [ih]
      refine exists_congr fun id => exists_congr fun item => and_congr_left fun _ => ?_
      have hne : (id, Json.object item) ≠ p := fun h => hv id item h.symm
      simp [hne]

/-- A call converts the body it is sent, unless that has an `error`. -/
theorem escapes_post {α : Type} {a : PerfectPanelAdapter} {panel : Extra → HttpAnswer} {action : String}
    {payload : Extra} {f : Json → PanelResult α} :
    Escapes (post repr a panel action payload >>= f) ↔ ∃ v, panel (a.form action payload) = .body v ∧
      (∀ d, v = .object d → (field d "error").truthy = false) ∧ Escapes (f v) := by
  rw [escapes_bind, post, or_iff_right (not_escapes_receive _)]
  simp only [receive_ok, and_assoc]

/-! ## The failures of a call -/

/-- An object that does not report an error. -/
def Delivers (v : Json) (d : Dict) : Prop := v = .object d ∧ (field d "error").truthy = false

/-- The answers on which a call ends with an `OverflowError`. -/
def PanelCall.Overflows (c : PanelCall) (v : Json) : Prop :=
  match c with
  | .getServices => ∃ items item, v = .array items ∧ .object item ∈ items ∧ RowOverflows item
  | .getBalance => ∃ d, Delivers v d ∧ (field d "balance").IsHuge
  | .getOrderStatus _ | .refillStatus _ => ∃ d, Delivers v d ∧ StatusOverflows d
  | .getMultipleStatus ids => ids ≠ [] ∧ ∃ d, Delivers v d ∧
      if hasField d "status" ∧ ids.length = 1 then StatusOverflows d
      else ∃ id item, (id, .object item) ∈ d ∧ StatusOverflows item
  | .createOrder .. | .refill _ | .cancel _ => False

theorem escapes_getServices {a : PerfectPanelAdapter} {panel : Extra → HttpAnswer} :
    Escapes (getServices repr a panel) ↔
      ∃ v, panel (a.form "services" []) = .body v ∧ PanelCall.getServices.Overflows v := by
  unfold getServices
  rw [escapes_post]
  refine exists_congr fun v => and_congr_right fun _ => ?_
  cases v with
  | array items => simp [escapes_readServices, PanelCall.Overflows]
  | _ => simp [not_escapes_providerError, PanelCall.Overflows]

theorem escapes_getBalance {a : PerfectPanelAdapter} {panel : Extra → HttpAnswer} :
    Escapes (getBalance repr a panel) ↔
      ∃ v, panel (a.form "balance" []) = .body v ∧ PanelCall.getBalance.Overflows v := by
  unfold getBalance
  rw [escapes_post]
  refine exists_congr fun v => and_congr_right fun _ => ?_
  cases v with
  | object d =>
    simp [escapes_tryConvert not_escapes_providerError, Json.toFloat_overflows,
      Json.isHuge_or Json.not_isHuge_zero, PanelCall.Overflows, Delivers]
  | _ => simp [not_escapes_providerError, PanelCall.Overflows, Delivers]

theorem not_escapes_createOrder {a : PerfectPanelAdapter} {panel : Extra → HttpAnswer} {service link : String}
    {quantity : Int} {extra : Extra} : ¬ Escapes (createOrder repr a panel service link quantity extra) := by
  unfold createOrder
  rw [escapes_post]
  rintro ⟨v, _, _, h⟩
  split at h
  · split at h
    · exact not_escapes_ok h
    · exact not_escapes_providerError h
  · exact not_escapes_providerError h

/-- Both calls that ask for one status go on like this. -/
theorem escapes_statusBody {id message : String} {v : Json} :
    (∀ d, v = .object d → (field d "error").truthy = false) ∧
      Escapes (match v with
        | .object d => toStatus repr id d
        | _ => providerError message) ↔
      ∃ d, Delivers v d ∧ StatusOverflows d := by
  cases v with
  | object d => simp [escapes_toStatus, Delivers]
  | _ => simp [not_escapes_providerError, Delivers]

theorem escapes_getOrderStatus {a : PerfectPanelAdapter} {panel : Extra → HttpAnswer} {id : String} :
    Escapes (getOrderStatus repr a panel id) ↔
      ∃ v, panel (a.form "status" [("order", .str id)]) = .body v ∧ (PanelCall.getOrderStatus id).Overflows v := by
  unfold getOrderStatus
  rw [escapes_post]
  exact exists_congr fun v => and_congr_right fun _ => escapes_statusBody

theorem escapes_refillStatus {a : PerfectPanelAdapter} {panel : Extra → HttpAnswer} {id : String} :
    Escapes (refillStatus repr a panel id) ↔
      ∃ v, panel (a.form "refill_status" [("refill", .str id)]) = .body v ∧ (PanelCall.refillStatus id).Overflows v := by
  unfold refillStatus
  rw [escapes_post]
  exact exists_congr fun v => and_congr_right fun _ => escapes_statusBody

/-- One status where one was asked for, else a map of them. -/
theorem escapes_statuses {id : String} {ids : List String} {d : Dict} :
    Escapes (if hasField d "status" && ids.isEmpty then do
        let status ← toStatus repr id d
        pure [status]
      else readStatuses repr d) ↔
      if hasField d "status" ∧ (id :: ids).length = 1 then StatusOverflows d
      else ∃ id item, (id, .object item) ∈ d ∧ StatusOverflows item := by
  have hiff : (hasField d "status" ∧ (id :: ids).length = 1) ↔ (hasField d "status" && ids.isEmpty) = true := by
    simp
  simp only [hiff]
  split
  · have hlast : ∀ status, Escapes (pure [status] : PanelResult (List PanelStatus)) ↔ False :=
      fun _ => iff_of_false not_escapes_ok not_false
    rw [escapes_bind_of hlast (toStatus_ok ..), escapes_toStatus, or_false]
  · exact escapes_readStatuses

theorem escapes_getMultipleStatus {a : PerfectPanelAdapter} {panel : Extra → HttpAnswer} {ids : List String} :
    Escapes (getMultipleStatus repr a panel ids) ↔
      ∃ v, panel (a.form "status" [("orders", joined ids)]) = .body v ∧
        (PanelCall.getMultipleStatus ids).Overflows v := by
  cases ids with
  | nil => exact iff_of_false not_escapes_ok fun ⟨_, _, h, _⟩ => h rfl
  | cons id ids =>
    unfold getMultipleStatus
    rw [escapes_post]
    refine exists_congr fun v => and_congr_right fun _ => ?_
    cases v with
    | object d =>
      simp only [escapes_statuses]
      simp [PanelCall.Overflows, Delivers]
    | _ => simp [not_escapes_ok, pure, Except.pure, PanelCall.Overflows, Delivers]

theorem not_escapes_refill {a : PerfectPanelAdapter} {panel : Extra → HttpAnswer} {id : String} :
    ¬ Escapes (refill repr a panel id) := by
  unfold refill
  rw [escapes_post]
  rintro ⟨v, _, _, h⟩
  split at h
  · split at h
    · exact not_escapes_ok h
    · exact not_escapes_providerError h
  · exact not_escapes_providerError h

theorem not_escapes_cancel {a : PerfectPanelAdapter} {panel : Extra → HttpAnswer} {ids : List String} :
    ¬ Escapes (cancel repr a panel ids) := by
  unfold cancel
  rw [escapes_post]
  rintro ⟨v, _, _, h⟩
  dsimp only at h
  split at h
  · exact not_escapes_ok h
  · exact not_escapes_providerError h

theorem escapes_run {a : PerfectPanelAdapter} {panel : Extra → HttpAnswer} {c : PanelCall} :
    Escapes (c.run repr a panel) ↔ ∃ v, panel (c.form a) = .body v ∧ c.Overflows v := by
  cases c with
  | getServices => exact escapes_getServices
  | getBalance => exact escapes_getBalance
  | createOrder service link quantity extra =>
    exact iff_of_false not_escapes_createOrder fun ⟨_, _, h⟩ => h
  | getOrderStatus id => exact escapes_getOrderStatus
  | getMultipleStatus ids => exact escapes_getMultipleStatus
  | refill id => exact iff_of_false not_escapes_refill fun ⟨_, _, h⟩ => h
  | refillStatus id => exact escapes_refillStatus
  | cancel ids => exact iff_of_false not_escapes_cancel fun ⟨_, _, h⟩ => h

/-- A result, or the one failure that callers handle. -/
def Handled {α : Type} (r : PanelResult α) : Prop := (∃ x, r = .ok x) ∨ ∃ e, r = .error (.provider e)

theorem handled_iff {α : Type} {r : PanelResult α} : Handled r ↔ ¬ Escapes r := by
  obtain (e | e) | x := r
  · exact iff_of_true (.inr ⟨e, rfl⟩) nofun
  · exact iff_of_false (by rintro (⟨_, h⟩ | ⟨_, h⟩) <;> cases h) fun h => h ⟨e, rfl⟩
  · exact iff_of_true (.inl ⟨x, rfl⟩) not_escapes_ok

instance {α : Type} (r : PanelResult α) : Decidable (Handled r) := decidable_of_iff _ handled_iff.symm

/-- **Which failures leave the adapter**: a call returns what it promises or
raises `ProviderError`, exactly when no number of the answer overflows a
conversion. -/
theorem panel_fails_handled_iff (repr : Json → String) (a : PerfectPanelAdapter) (panel : Extra → HttpAnswer)
    (c : PanelCall) : Handled (c.run repr a panel) ↔ ∀ v, panel (c.form a) = .body v → ¬ c.Overflows v := by
  rw [handled_iff, escapes_run]
  simp

end

/-- One service of a list. -/
def listedService (id : Int) (min : Json) : Dict :=
  [("service", .int id), ("name", .str "Likes"), ("rate", .float (.finite (3 / 2))), ("min", min),
    ("max", .int 1000)]

/-- A lower limit of `1e999` in one row takes the other row with it. -/
theorem infinite_limit_escapes :
    let a : PerfectPanelAdapter := ⟨"k"⟩
    let good : Json := .object (listedService 1 (.int 10))
    let bad : Json := .object (listedService 2 (.float (.inf false)))
    Handled (PanelCall.getServices.run (fun _ => "") a fun _ => .body (.array [good])) ∧
      ¬ Handled (PanelCall.getServices.run (fun _ => "") a fun _ => .body (.array [good, bad])) := by
  decide +kernel

end Falaron.PerfectPanel
