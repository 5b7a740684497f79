/-
What a provider can answer.

Both adapters map whatever status text a panel sends to one of eight
statuses; `ProviderStatus` carries that fact, so an answer an adapter cannot
give cannot be built.
-/
import Falaron.Db

namespace Falaron

namespace OrderStatus

/-- The statuses an adapter reports. -/
def reported : List OrderStatus :=
  [pending, inProgress, processing, completed, partial_, canceled, refunded, failed]

theorem inProgress_reported : inProgress ∈ reported := by decide
theorem processing_reported : processing ∈ reported := by decide
theorem completed_reported : completed ∈ reported := by decide
theorem partial_reported : partial_ ∈ reported := by decide
theorem canceled_reported : canceled ∈ reported := by decide

end OrderStatus

/-- `_STATUS_MAP` -/
def statusMap : List (String × OrderStatus) :=
  [("pending", .pending), ("in progress", .inProgress), ("in_progress", .inProgress),
    ("processing", .processing), ("completed", .completed), ("complete", .completed),
    ("partial", .partial_), ("canceled", .canceled), ("cancelled", .canceled),
    ("refunded", .refunded), ("fail", .failed), ("failed", .failed), ("error", .failed)]

/-- The mock panel's own table. -/
def mockStatusMap : List (String × OrderStatus) :=
  [("pending", .pending), ("in_progress", .inProgress), ("inprogress", .inProgress),
    ("processing", .processing), ("completed", .completed), ("complete", .completed),
    ("partial", .partial_), ("canceled", .canceled), ("cancelled", .canceled),
    ("refunded", .refunded), ("fail", .failed), ("failed", .failed), ("error", .failed)]

/-- `m.get(k, "processing")` -/
def lookupStatus (m : List (String × OrderStatus)) (k : String) : OrderStatus :=
  ((m.find? (·.1 == k)).map (·.2)).getD .processing

def normalizePanelStatus : Option String → OrderStatus
  | .none => .processing
  | .some raw => if raw = "" then .processing else lookupStatus statusMap (Text.lower (Text.strip raw))

/-- `_normalize_status` of the mock panel: blanks count as underscores. -/
def normalizeMockStatus (raw : String) : OrderStatus :=
  let value := (Text.lower (Text.strip raw)).toList.map fun c => if c = ' ' then '_' else c
  lookupStatus mockStatusMap (.ofList value)

theorem lookupStatus_reported {m : List (String × OrderStatus)} (h : ∀ p ∈ m, p.2 ∈ OrderStatus.reported)
    (k : String) : lookupStatus m k ∈ OrderStatus.reported := by
  unfold lookupStatus
  cases hf : m.find? (·.1 == k) with
  | none => decide
  | some p => exact h p (List.mem_of_find?_eq_some hf)

theorem normalizePanelStatus_reported (raw : Option String) :
    normalizePanelStatus raw ∈ OrderStatus.reported := by
  unfold normalizePanelStatus
  split
  · decide
  · split
    · decide
    · exact lookupStatus_reported (by decide) _

theorem normalizeMockStatus_reported (raw : String) : normalizeMockStatus raw ∈ OrderStatus.reported :=
  lookupStatus_reported (by decide) _

/-- What the order engine reads of a status answer. -/
structure ProviderStatus where
  status : OrderStatus
  startCount : Option Int := .none
  remains : Option Int := .none
  reported : status ∈ OrderStatus.reported

/-- `ProviderError`; a retryable one leaves the outcome open. -/
structure ProviderError where
  message : String
  retryable : Bool

/-- What `create_order` raises. -/
inductive SubmitError where
  | provider (e : ProviderError)
  | other

/-- One `create_order` call: whether the provider took the order on, and what
it answered. An order id is only ever given for an order taken on. -/
structure Submission where
  accepted : Bool
  answer : Except SubmitError String
  told : ∀ id, answer = .ok id → accepted = true

/-- `adapter_for`, as far as the tables decide it. -/
def adapterFor (providerId : String) : M Unit := do
  match ← .query (·.findProvider providerId) with
  | .some _ => pure ()
  | .none => raise (.value s!"Unknown provider {providerId}")

example : normalizePanelStatus (.some " In Progress ") = .inProgress := by decide

end Falaron
