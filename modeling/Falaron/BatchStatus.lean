/-
The batch status call of the second system's panel adapter, which is to
return one status an order, in the order of the ids.

Ids go out a hundred at a time. A panel that refuses a batch is asked about
its orders one by one, and an order it refuses again is left out; a panel
that answers with a list is read by position, and where the list ends the
rest of the batch is left out. `one_status_each_iff` says on which answers
nothing is left out and nothing raised.

The panel is a parameter that may answer each call as it likes, its number
included; so is how `str` writes floats, lists and objects.
-/
import Falaron.Deposits

namespace Falaron.SmmProMax

open Py (Json Dict DecimalText field hasField)

/-- What a call of the adapter raises. -/
inductive Failure where
  | providerResponse (detail : String)
  | providerUnavailable (detail : String)
  | provider (detail : String)
  | attribute (v : Json) (name : String)

/-- What comes of a request: an exception of the client's, or a response, whose body is JSON or not. -/
inductive Reply where
  | timeout
  | connectError
  | raised (exc : String)
  | response (statusCode : Nat) (text : String) (body : Option Json)

structure Adapter where
  name : String
  apiKey : String

structure ProviderOrderStatus where
  providerOrderId : String
  status : Core.OrderStatus
  startCount : Option Int
  remains : Option Int
  currency : Json := .null
  charge : Option DecimalText := none
  raw : Json

abbrev Payload := List (String × String)

/-- `OrderStatus.from_provider_string` -/
def fromProviderString (raw : String) : Core.OrderStatus :=
  ((([("pending", .pending), ("in progress", .inProgress), ("inprogress", .inProgress), ("processing", .processing),
    ("completed", .completed), ("complete", .completed), ("partial", .partial_), ("canceled", .cancelled),
    ("cancelled", .cancelled), ("failed", .failed), ("error", .failed), ("refunded", .refunded)] :
      List (String × Core.OrderStatus)).find? (·.1 == Text.strip (Text.lower raw))).map (·.2)).getD .processing

/-- `_safe_int` -/
def safeInt : Json → Option Int
  | .null => none
  | v => v.toInt.toOption

namespace Adapter

section

variable (repr : Json → String)

/-- `_safe_decimal` -/
def safeDecimal : Json → Option DecimalText
  | .null => none
  | v => Py.decimalOfText (v.text repr)

variable (a : Adapter)

/-- The end of `_post`. -/
def receive : Reply → Except Failure Json
  | .timeout => .error (.providerUnavailable ("Provider " ++ a.name ++ " timed out"))
  | .connectError => .error (.providerUnavailable ("Provider " ++ a.name ++ " connection failed"))
  | .raised exc => .error (.provider ("Provider " ++ a.name ++ " unexpected error: " ++ exc))
  | .response statusCode text body =>
    if 500 ≤ statusCode then
      .error (.providerUnavailable ("Provider " ++ a.name ++ " returned HTTP " ++ toString statusCode))
    else if 400 ≤ statusCode then
      .error (.providerResponse ("Provider " ++ a.name ++ " returned HTTP " ++ toString statusCode ++ ": " ++
        String.ofList (text.toList.take 200)))
    else
      match body with
      | none =>
        .error (.providerResponse ("Provider " ++ a.name ++ " returned non-JSON: " ++
          String.ofList (text.toList.take 200)))
      | some (.object d) =>
        if hasField d "error" then
          .error (.providerResponse ("Provider " ++ a.name ++ " API error: " ++ (field d "error").text repr))
        else .ok (.object d)
      | some v => .ok v

/-- What the status call and each entry of a batch are read into. -/
def readStatus (oid : String) : Json → Except Failure ProviderOrderStatus
  | .object d => .ok {
      providerOrderId := oid
      status := fromProviderString ((if hasField d "status" then field d "status" else .str "processing").text repr)
      startCount := safeInt (field d "start_count")
      remains := safeInt (field d "remains")
      currency := field d "currency"
      charge := safeDecimal repr (field d "charge")
      raw := .object d }
  | v => .error (.attribute v "get")

/-- An item of a list has the currency and the charge not read. -/
def readListed (oid : String) (item : Json) : Except Failure ProviderOrderStatus :=
  (readStatus repr oid item).map fun s => { s with currency := .null, charge := none }

/-- `raw.get(oid) or raw.get(str(oid)) or {}` -/
def entry (d : Dict) (oid : String) : Json := ((field d oid).or (field d oid)).or (.object [])

/-- The answer to a batch. -/
def readBatch (chunk : List String) : Json → Except Failure (List ProviderOrderStatus)
  | .object d => chunk.mapM fun oid => readStatus repr oid (entry d oid)
  | .array items => (chunk.zip items).mapM fun (oid, item) => readListed repr oid item
  | _ => .ok []

def basePayload (action : String) : Payload := [("key", a.apiKey), ("action", action)]

def statusPayload (oid : String) : Payload := a.basePayload "status" ++ [("order", oid)]

def batchPayload (chunk : List String) : Payload := a.basePayload "status" ++ [("orders", ",".intercalate chunk)]

/-- What the panel answers to the call of this number. -/
abbrev Panel := Nat → Payload → Reply

variable (panel : Panel)

/-- `_post` -/
def post (n : Nat) (data : Payload) : Except Failure Json := a.receive repr (panel n data)

def getOrderStatus (n : Nat) (oid : String) : Except Failure ProviderOrderStatus := do
  readStatus repr oid (← a.post repr panel n (a.statusPayload oid))

/-- The single calls for a batch that was refused, the first of them number `n`. -/
def fallBack : (n : Nat) → List String → Except Failure (List ProviderOrderStatus)
  | _, [] => .ok []
  | n, oid :: rest =>
    match a.getOrderStatus repr panel n oid with
    | .ok s => do return s :: (← fallBack (n + 1) rest)
    | .error (.providerResponse _) => fallBack (n + 1) rest
    | .error e => .error e

/-- What one turn of the loop adds to the results. -/
def answerBatch (n : Nat) (chunk : List String) : Except Failure (List ProviderOrderStatus) :=
  match a.post repr panel n (a.batchPayload chunk) with
  | .ok raw => readBatch repr chunk raw
  | .error (.providerResponse _) => a.fallBack repr panel (n + 1) chunk
  | .error e => .error e

/-- The number of calls it makes. -/
def callsOf (n : Nat) (chunk : List String) : Nat :=
  match a.post repr panel n (a.batchPayload chunk) with
  | .error (.providerResponse _) => 1 + chunk.length
  | _ => 1

/-- The loop, its next call number `n`. -/
def answerBatches : (n : Nat) → List (List String) → Except Failure (List ProviderOrderStatus)
  | _, [] => .ok []
  | n, chunk :: rest => do
    let statuses ← a.answerBatch repr panel n chunk
    return statuses ++ (← answerBatches (n + a.callsOf repr panel n chunk) rest)

end

def maxMultiStatus : Nat := 100

/-- `ids[i:i + 100] for i in range(0, len(ids), 100)` -/
def batches (ids : List String) : List (List String) :=
  (List.range' 0 ((ids.length + (maxMultiStatus - 1)) / maxMultiStatus) maxMultiStatus).map fun i =>
    (ids.drop i).take maxMultiStatus

def getMultipleOrderStatus (repr : Json → String) (a : Adapter) (panel : Panel) (ids : List String) :
    Except Failure (List ProviderOrderStatus) :=
  a.answerBatches repr panel 0 (batches ids)

/-! ## What is said about an order -/

/-- The ids a batch's answer is about, with what it says of each. -/
def told (chunk : List String) : Json → List (String × Json)
  | .object d => chunk.map fun oid => (oid, entry d oid)
  | .array items => chunk.zip items
  | _ => []

def isObject : Json → Bool
  | .object _ => true
  | _ => false

section

variable (repr : Json → String) (a : Adapter) (panel : Panel)

/-- The panel says this of the order, alone or among others. -/
def Says (oid : String) (raw : Json) : Prop :=
  (∃ n, a.post repr panel n (a.statusPayload oid) = .ok raw) ∨
    ∃ n chunk reply, a.post repr panel n (a.batchPayload chunk) = .ok reply ∧ (oid, raw) ∈ told chunk reply

/-- One status an order in the order of the ids, each read out of what the panel says of that order. -/
def OneEach (ids : List String) (result : Except Failure (List ProviderOrderStatus)) : Prop :=
  ∃ statuses, result = .ok statuses ∧
    List.Forall₂ (fun oid s => s.providerOrderId = oid ∧ a.Says repr panel oid s.raw) ids statuses

/-- The panel answers the call number `n` for every order of the batch, or
refuses it and answers the calls that follow. -/
def Answers (n : Nat) (chunk : List String) : Prop :=
  match a.post repr panel n (a.batchPayload chunk) with
  | .ok (.object d) => ∀ oid ∈ chunk, isObject (entry d oid) = true
  | .ok (.array items) => chunk.length ≤ items.length ∧ ∀ item ∈ items.take chunk.length, isObject item = true
  | .ok _ => chunk = []
  | .error (.providerResponse _) =>
    ∀ p ∈ chunk.zipIdx (n + 1), ∃ d, a.post repr panel p.2 (a.statusPayload p.1) = .ok (.object d)
  | .error _ => False

/-- It does so for each of these batches, the first of them call number `n`. -/
def AnswersAll : (n : Nat) → List (List String) → Prop
  | _, [] => True
  | n, chunk :: rest => a.Answers repr panel n chunk ∧ AnswersAll (n + a.callsOf repr panel n chunk) rest

end

/-! ## Reading an answer -/

section

variable {repr : Json → String} {a : Adapter} {panel : Panel} {n : Nat} {oid : String} {chunk : List String} {v : Json}
  {s : ProviderOrderStatus} {out : List ProviderOrderStatus} {f : String → Json → Except Failure ProviderOrderStatus}

/-- A reader takes objects, and keeps the id and the object. -/
structure Reads (f : String → Json → Except Failure ProviderOrderStatus) : Prop where
  kept : ∀ {oid v s}, f oid v = .ok s → isObject v = true ∧ s.providerOrderId = oid ∧ s.raw = v
  total : ∀ {oid v}, isObject v = true → ∃ s, f oid v = .ok s

theorem reads_readStatus : Reads (readStatus repr) where
  kept {oid v s} h := by
    cases v with
    | object d =>
      cases h
      exact ⟨rfl, rfl, rfl⟩
    | _ => cases h
  total {oid v} h := by
    cases v with
    | object d => exact ⟨_, rfl⟩
    | _ => cases h

theorem reads_readListed : Reads (readListed repr) where
  kept {oid v s} h := by
    cases hr : readStatus repr oid v with
    | error e =>
      rw [readListed, hr] at h
      cases h
    | ok s' =>
      rw [readListed, hr] at h
      cases h
      obtain ⟨hobject, hid, hraw⟩ := reads_readStatus.kept hr
      exact ⟨hobject, hid, hraw⟩
  total {oid v} h := by
    obtain ⟨s, hs⟩ := (reads_readStatus : Reads (readStatus repr)).total h
    exact ⟨_, by rw [readListed, hs]; rfl⟩

/-- Reading a list keeps its ids and objects, whole and in order. -/
theorem Reads.mapM_kept (hf : Reads f) {l : List (String × Json)} (h : (l.mapM fun p => f p.1 p.2) = .ok out) :
    (∀ p ∈ l, isObject p.2 = true) ∧ out.map (fun s => (s.providerOrderId, s.raw)) = l := by
  induction l generalizing out with
  | nil =>
    cases h
    exact ⟨nofun, rfl⟩
  | cons p l ih =>
    rw [List.mapM_cons] at h
    cases hp : f p.1 p.2 with
    | error e =>
      rw [hp] at h
      cases h
    | ok s =>
      cases hl : l.mapM fun p => f p.1 p.2 with
      | error e =>
        rw [hp, hl] at h
        cases h
      | ok rest =>
        rw [hp, hl] at h
        cases h
        obtain ⟨hobject, hid, hraw⟩ := hf.kept hp
        obtain ⟨hobjects, hrest⟩ := ih hl
        refine ⟨List.forall_mem_cons.mpr ⟨hobject, hobjects⟩, ?_⟩
        rw [List.map_cons, hrest, hid, hraw]

theorem Reads.mapM_total (hf : Reads f) {l : List (String × Json)} (h : ∀ p ∈ l, isObject p.2 = true) :
    ∃ out, (l.mapM fun p => f p.1 p.2) = .ok out := by
  induction l with
  | nil => exact ⟨[], rfl⟩
  | cons p l ih =>
    obtain ⟨hp, hl⟩ := List.forall_mem_cons.mp h
    obtain ⟨s, hs⟩ : ∃ s, f p.1 p.2 = .ok s := hf.total hp
    obtain ⟨out, hout⟩ := ih hl
    exact ⟨s :: out, by rw [List.mapM_cons, hs, hout]; rfl⟩

/-- A batch's answer is read by one of the two readers. -/
theorem readBatch_eq (repr : Json → String) (chunk : List String) (v : Json) :
    ∃ f, Reads f ∧ readBatch repr chunk v = (told chunk v).mapM fun p => f p.1 p.2 := by
  cases v with
  | object d => exact ⟨readStatus repr, reads_readStatus, by simp [readBatch, told, List.mapM_map, Function.comp_def]⟩
  | array items => exact ⟨readListed repr, reads_readListed, rfl⟩
  | _ => exact ⟨readStatus repr, reads_readStatus, rfl⟩

theorem told_sublist (chunk : List String) (v : Json) : ((told chunk v).map (·.1)).Sublist chunk := by
  cases v with
  | object d => simp [told, Function.comp_def]
  | array items =>
    rw [told, List.zip_eq_zip_take_min, List.map_fst_zip (by simp)]
    exact List.take_sublist ..
  | _ => exact List.nil_sublist _

/-- The answer to a batch has an object for every order. -/
def Tells (chunk : List String) (v : Json) : Prop :=
  (told chunk v).map (·.1) = chunk ∧ ∀ p ∈ told chunk v, isObject p.2 = true

theorem tells_object {d : Dict} : Tells chunk (.object d) ↔ ∀ oid ∈ chunk, isObject (entry d oid) = true := by
  simp [Tells, told, Function.comp_def]

theorem tells_array {items : List Json} : Tells chunk (.array items) ↔
    chunk.length ≤ items.length ∧ ∀ item ∈ items.take chunk.length, isObject item = true := by
  have hlong : (told chunk (.array items)).map (·.1) = chunk ↔ chunk.length ≤ items.length := by
    constructor
    · intro h
      have hlen := congrArg List.length h
      rw [told, List.length_map, List.length_zip] at hlen
      exact hlen ▸ Nat.min_le_right ..
    · exact fun h => List.map_fst_zip h
  refine Iff.trans (and_congr_left fun _ => hlong) (and_congr_right fun h => ?_)
  have htake : (told chunk (.array items)).map (·.2) = items.take chunk.length := by
    rw [told, List.zip_eq_zip_take_min, List.map_snd_zip (by simp), Nat.min_eq_left h]
  rw [← htake, List.forall_mem_map]

theorem readBatch_kept (h : readBatch repr chunk v = .ok out) :
    out.map (fun s => (s.providerOrderId, s.raw)) = told chunk v := by
  obtain ⟨f, hf, heq⟩ := readBatch_eq repr chunk v
  exact (hf.mapM_kept (heq ▸ h)).2

theorem readBatch_full : (∃ out, readBatch repr chunk v = .ok out ∧ out.map (·.providerOrderId) = chunk) ↔
    Tells chunk v := by
  obtain ⟨f, hf, heq⟩ := readBatch_eq repr chunk v
  constructor
  · rintro ⟨out, hout, hids⟩
    obtain ⟨hobjects, hkept⟩ := hf.mapM_kept (heq ▸ hout)
    refine ⟨?_, hobjects⟩
    rw [← hkept, List.map_map]
    exact hids
  · rintro ⟨hids, hobjects⟩
    obtain ⟨out, hout⟩ := hf.mapM_total hobjects
    refine ⟨out, heq ▸ hout, ?_⟩
    have hkept := (hf.mapM_kept hout).2
    rw [← hids, ← hkept, List.map_map]
    rfl

/-! ## The single calls -/

theorem getOrderStatus_ok : a.getOrderStatus repr panel n oid = .ok s →
    a.post repr panel n (a.statusPayload oid) = .ok s.raw ∧ isObject s.raw = true ∧ s.providerOrderId = oid := by
  unfold getOrderStatus
  cases hpost : a.post repr panel n (a.statusPayload oid) with
  | error e => exact nofun
  | ok v =>
    intro h
    obtain ⟨hobject, hid, rfl⟩ := reads_readStatus.kept h
    exact ⟨rfl, hobject, hid⟩

theorem getOrderStatus_total {d : Dict} (h : a.post repr panel n (a.statusPayload oid) = .ok (.object d)) :
    ∃ s, a.getOrderStatus repr panel n oid = .ok s := by
  rw [getOrderStatus, h]
  exact ⟨_, rfl⟩

theorem fallBack_kept (h : a.fallBack repr panel n chunk = .ok out) :
    (out.map (·.providerOrderId)).Sublist chunk ∧ ∀ s ∈ out, a.Says repr panel s.providerOrderId s.raw := by
  induction chunk generalizing n out with
  | nil =>
    cases h
    exact ⟨List.Sublist.slnil, fun _ h => absurd h List.not_mem_nil⟩
  | cons oid rest ih =>
    rw [fallBack] at h
    split at h
    · next s hs =>
      obtain ⟨hpost, -, hid⟩ := getOrderStatus_ok hs
      cases hrest : a.fallBack repr panel (n + 1) rest with
      | error e =>
        rw [hrest] at h
        cases h
      | ok tail =>
        rw [hrest] at h
        cases h
        obtain ⟨hsub, htells⟩ := ih hrest
        refine ⟨?_, List.forall_mem_cons.mpr ⟨.inl ⟨n, hid ▸ hpost⟩, htells⟩⟩
        rw [List.map_cons, hid]
        exact hsub.cons_cons _
    · obtain ⟨hsub, htells⟩ := ih h
      exact ⟨hsub.cons _, htells⟩
    · cases h

theorem fallBack_full : (∃ out, a.fallBack repr panel n chunk = .ok out ∧ out.map (·.providerOrderId) = chunk) ↔
    ∀ p ∈ chunk.zipIdx n, ∃ d, a.post repr panel p.2 (a.statusPayload p.1) = .ok (.object d) := by
  induction chunk generalizing n with
  | nil => exact ⟨fun _ => nofun, fun _ => ⟨[], rfl, rfl⟩⟩
  | cons oid rest ih =>
    rw [List.zipIdx_cons, List.forall_mem_cons, ← ih]
    constructor
    · rintro ⟨out, hout, hids⟩
      rw [fallBack] at hout
      split at hout
      · next s hs =>
        obtain ⟨hpost, hobject, -⟩ := getOrderStatus_ok hs
        cases hrest : a.fallBack repr panel (n + 1) rest with
        | error e =>
          rw [hrest] at hout
          cases hout
        | ok tail =>
          rw [hrest] at hout
          cases hout
          refine ⟨?_, tail, rfl, (List.cons.inj hids).2⟩
          cases hraw : s.raw with
          | object d => exact ⟨d, hraw ▸ hpost⟩
          | _ =>
            rw [hraw] at hobject
            cases hobject
      · -- An order is left out, and what is left is too short.
        have hshort := (fallBack_kept hout).1.length_le
        rw [hids] at hshort
        exact absurd hshort (by simp)
      · cases hout
    · rintro ⟨⟨d, hpost⟩, tail, hrest, hids⟩
      obtain ⟨s, hs⟩ := getOrderStatus_total hpost
      refine ⟨s :: tail, ?_, ?_⟩
      · rw [fallBack, hs]
        simp only [hrest]
        rfl
      · rw [List.map_cons, (getOrderStatus_ok hs).2.2, hids]

/-! ## The loop -/

theorem answerBatch_kept (h : a.answerBatch repr panel n chunk = .ok out) :
    (out.map (·.providerOrderId)).Sublist chunk ∧ ∀ s ∈ out, a.Says repr panel s.providerOrderId s.raw := by
  unfold answerBatch at h
  split at h
  · next v hpost =>
    have hkept := readBatch_kept h
    refine ⟨?_, fun s hs => .inr ⟨n, chunk, v, hpost, ?_⟩⟩
    · have hsub := told_sublist chunk v
      rw [← hkept, List.map_map] at hsub
      exact hsub
    · rw [← hkept]
      exact List.mem_map_of_mem (f := fun s : ProviderOrderStatus => (s.providerOrderId, s.raw)) hs
  · exact fallBack_kept h
  · cases h

/-- A turn of the loop. -/
theorem answerBatch_full : (∃ out, a.answerBatch repr panel n chunk = .ok out ∧ out.map (·.providerOrderId) = chunk) ↔
    a.Answers repr panel n chunk := by
  unfold answerBatch Answers
  cases hpost : a.post repr panel n (a.batchPayload chunk) with
  | error e =>
    cases e with
    | providerResponse detail => exact fallBack_full
    | _ => exact ⟨fun ⟨_, h, _⟩ => (nomatch h), False.elim⟩
  | ok v =>
    refine readBatch_full.trans ?_
    cases v with
    | object d => exact tells_object
    | array items => exact tells_array
    | _ => exact ⟨fun h => h.1.symm, fun h => ⟨h.symm, nofun⟩⟩

/-- The turns of a loop that returns. -/
theorem answerBatches_cons {chunks : List (List String)} : a.answerBatches repr panel n (chunk :: chunks) = .ok out ↔
    ∃ first last, a.answerBatch repr panel n chunk = .ok first ∧
      a.answerBatches repr panel (n + a.callsOf repr panel n chunk) chunks = .ok last ∧ out = first ++ last := by
  rw [answerBatches]
  cases hfirst : a.answerBatch repr panel n chunk with
  | error e => exact ⟨nofun, fun ⟨_, _, h, _⟩ => (nomatch h)⟩
  | ok first =>
    cases hlast : a.answerBatches repr panel (n + a.callsOf repr panel n chunk) chunks with
    | error e =>
      refine ⟨fun h => ?_, fun ⟨_, _, _, h, _⟩ => (nomatch h)⟩
      simp [bind, Except.bind] at h
    | ok last =>
      simp [bind, Except.bind, pure, Except.pure, eq_comm]

theorem answerBatches_kept {chunks : List (List String)} (h : a.answerBatches repr panel n chunks = .ok out) :
    (out.map (·.providerOrderId)).Sublist chunks.flatten ∧ ∀ s ∈ out, a.Says repr panel s.providerOrderId s.raw := by
  induction chunks generalizing n out with
  | nil =>
    cases h
    exact ⟨List.Sublist.slnil, fun _ h => absurd h List.not_mem_nil⟩
  | cons chunk rest ih =>
    obtain ⟨first, last, hfirst, hlast, rfl⟩ := answerBatches_cons.mp h
    obtain ⟨hsub, htells⟩ := answerBatch_kept hfirst
    obtain ⟨hsub', htells'⟩ := ih hlast
    rw [List.map_append, List.flatten_cons]
    exact ⟨hsub.append hsub', List.forall_mem_append.mpr ⟨htells, htells'⟩⟩

theorem answerBatches_full {chunks : List (List String)} :
    (∃ out, a.answerBatches repr panel n chunks = .ok out ∧ out.map (·.providerOrderId) = chunks.flatten) ↔
      a.AnswersAll repr panel n chunks := by
  induction chunks generalizing n with
  | nil => exact ⟨fun _ => trivial, fun _ => ⟨[], rfl, rfl⟩⟩
  | cons chunk rest ih =>
    rw [AnswersAll, ← answerBatch_full, ← ih]
    constructor
    · rintro ⟨out, hout, hids⟩
      obtain ⟨first, last, hfirst, hlast, rfl⟩ := answerBatches_cons.mp hout
      -- No turn adds more than its batch, so each adds all of it.
      have hlen := congrArg List.length hids
      simp only [List.map_append, List.flatten_cons, List.length_append] at hlen
      have hsub := (answerBatch_kept hfirst).1
      have hsub' := (answerBatches_kept hlast).1
      have hle := hsub.length_le
      have hle' := hsub'.length_le
      exact ⟨⟨first, hfirst, hsub.eq_of_length (by omega)⟩, last, hlast, hsub'.eq_of_length (by omega)⟩
    · rintro ⟨⟨first, hfirst, hids⟩, last, hlast, hids'⟩
      refine ⟨first ++ last, answerBatches_cons.mpr ⟨first, last, hfirst, hlast, rfl⟩, ?_⟩
      rw [List.map_append, List.flatten_cons, hids, hids']

/-! ## The batches -/

theorem flatten_slices {α : Type} (l : List α) (i m k : Nat) :
    ((List.range' i m k).map fun j => (l.drop j).take k).flatten = (l.drop i).take (m * k) := by
  induction m generalizing i with
  | zero => simp
  | succ m ih =>
    have hsplit : (m + 1) * k = k + m * k := by rw [Nat.succ_mul, Nat.add_comm]
    rw [List.range'_succ, List.map_cons, List.flatten_cons, ih, hsplit, List.take_add, List.drop_drop]

/-- The batches are the ids, in order. -/
theorem flatten_batches (ids : List String) : (batches ids).flatten = ids := by
  rw [batches, flatten_slices, List.drop_zero]
  refine List.take_of_length_le ?_
  unfold maxMultiStatus
  omega

end

/-- **One status an order, in order,** exactly where the panel answers each
batch for every order of it: with an object that holds no value of another
kind for one of them, with a list of objects that is long enough, or, where
it refuses the batch, with an object to each single call. -/
theorem one_status_each_iff (repr : Json → String) (a : Adapter) (panel : Panel) (ids : List String) :
    a.OneEach repr panel ids (a.getMultipleOrderStatus repr panel ids) ↔ a.AnswersAll repr panel 0 (batches ids) := by
  have hfull : (∃ out, a.getMultipleOrderStatus repr panel ids = .ok out ∧ out.map (·.providerOrderId) = ids) ↔
      a.AnswersAll repr panel 0 (batches ids) := by
    have h : (∃ out, a.getMultipleOrderStatus repr panel ids = .ok out ∧
        out.map (·.providerOrderId) = (batches ids).flatten) ↔ _ := answerBatches_full
    rw [flatten_batches] at h
    exact h
  rw [← hfull]
  refine exists_congr fun out => and_congr_right fun hout => ?_
  have htells := (answerBatches_kept hout).2
  constructor
  · intro h
    have heq : List.Forall₂ Eq ids (out.map (·.providerOrderId)) :=
      List.forall₂_map_right_iff.mpr (h.imp fun _ _ h => h.1.symm)
    rw [List.forall₂_eq_eq_eq] at heq
    exact heq.symm
  · rintro rfl
    exact List.forall₂_map_left_iff.mpr (List.forall₂_same.mpr fun s hs => ⟨rfl, htells s hs⟩)

/-- A panel without batches that no longer knows the second order. -/
def forgetful : Panel
  | 0, _ => .response 200 "" (some (.object [("error", .str "Invalid action")]))
  | 1, _ => .response 200 "" (some (.object [("status", .str "Completed")]))
  | _, _ => .response 200 "" (some (.object [("error", .str "Incorrect order ID")]))

/-- The answer of a panel that lists statuses and has only one of them. -/
def lists : Panel := fun _ _ => .response 200 "" (some (.array [.object [("status", .str "Completed")]]))

/-- Two orders and one status, in both of the ways. -/
theorem order_left_out :
    ¬ (Adapter.mk "panel" "k").OneEach (fun _ => "") forgetful ["1", "2"]
      ((Adapter.mk "panel" "k").getMultipleOrderStatus (fun _ => "") forgetful ["1", "2"]) ∧
    ¬ (Adapter.mk "panel" "k").OneEach (fun _ => "") lists ["1", "2"]
      ((Adapter.mk "panel" "k").getMultipleOrderStatus (fun _ => "") lists ["1", "2"]) := by
  constructor <;>
  · rintro ⟨statuses, hout, h⟩
    have hlen := h.length_eq
    cases hout
    cases hlen

end Adapter

end Falaron.SmmProMax
