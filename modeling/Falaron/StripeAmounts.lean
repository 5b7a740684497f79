/-
The amounts that go to Stripe and come back.

A PaymentIntent is asked for in hundredths of the amount, whatever the
currency, and what a webhook reports is divided by a hundred only where the
currency has hundredths. So an amount comes back as it went out exactly where
it is zero, or the currency has hundredths and 28 digits hold it
(`comes_back_iff`); a deposit of 500 yen is asked for, and reported, as 50000.

A number beyond the context's exponents, or too long for `str`, is sent here
where the code raises already; neither comes back.
-/
import Falaron.Deposits
import Falaron.Py.DecimalOrder

namespace Falaron.Core

open Py (Decimal Json)

/-! ## The request -/

namespace Err

def providerResponse (detail : String) : Err :=
  .smm (.other "ProviderResponseError") detail "Provider returned an unexpected response."

end Err

structure PaymentIntentResult where
  providerTxnId : Json
  clientSecret : Json
  amount : Decimal
  currency : String
  reference : String
  provider : String

/-- What is posted to `/v1/payment_intents`. -/
structure IntentRequest where
  headers : List (String × String)
  data : List (String × String)
  deriving DecidableEq

/-- What Stripe answers, and what comes of reading it as JSON. -/
structure IntentReply where
  statusCode : Int
  json : Except Err Json

/-- `int(amount * 100)` -/
def amountMinor (amount : Decimal) : Int := Py.trunc (amount.mul ⟨100, 0⟩).val

/-- A PaymentIntent to be made. -/
structure IntentArgs where
  userId : Int
  amount : Decimal
  currency : String := "INR"
  smmRef : String := ""
  idempotencyKey : String := ""

def IntentArgs.request (a : IntentArgs) (secretKey : String) : IntentRequest where
  headers :=
    [("Authorization", "Bearer " ++ secretKey), ("Content-Type", "application/x-www-form-urlencoded")] ++
      if a.idempotencyKey = "" then [] else [("Idempotency-Key", a.idempotencyKey)]
  data :=
    [("amount", toString (amountMinor a.amount)), ("currency", Text.lower a.currency),
      ("payment_method_types[]", "card"), ("metadata[smm_ref]", a.smmRef), ("metadata[user_id]", toString a.userId),
      ("description", "SMM Platform deposit — " ++ a.smmRef)]

/-- `v["id"]` -/
def jsonId (v : Json) : Except Err Json :=
  match v with
  | .object d => if Py.hasField d "id" then .ok (Py.field d "id") else .error (.python "KeyError" "'id'")
  | .array _ => .error (.python "TypeError" "list indices must be integers or slices, not str")
  | .str _ => .error (.python "TypeError" "string indices must be integers, not 'str'")
  | .null => .error (.python "TypeError" "'NoneType' object is not subscriptable")
  | .bool _ => .error (.python "TypeError" "'bool' object is not subscriptable")
  | .int _ => .error (.python "TypeError" "'int' object is not subscriptable")
  | .float _ => .error (.python "TypeError" "'float' object is not subscriptable")

/-- `resp.json().get("error", {}).get("message", "Unknown error")` -/
def IntentReply.errorMsg (resp : IntentReply) : Except Err Json := do
  let error ← jsonGet (← resp.json) "error" (.object [])
  jsonGet error "message" (.str "Unknown error")

/-- `create_payment_intent`, given what the client makes of a request -/
def createPaymentIntent (repr : Json → String) (secretKey : String) (post : IntentRequest → Except Err IntentReply)
    (a : IntentArgs) : Except Err PaymentIntentResult := do
  if secretKey = "" then throw (.providerResponse "Stripe secret key not configured")
  let resp ← post (a.request secretKey)
  if resp.statusCode ≠ 200 ∧ resp.statusCode ≠ 201 then
    throw (.providerResponse ("Stripe PaymentIntent creation failed: " ++ (← resp.errorMsg).text repr))
  let pi ← resp.json
  return {
    providerTxnId := ← jsonId pi
    clientSecret := ← jsonGet pi "client_secret" (.str "")
    amount := a.amount
    currency := a.currency
    reference := a.smmRef
    provider := "stripe" }

/-- The amount in the result is the one that was meant, whatever was sent. -/
theorem createPaymentIntent_ok {repr : Json → String} {secretKey : String}
    {post : IntentRequest → Except Err IntentReply} {a : IntentArgs} {r : PaymentIntentResult}
    (h : createPaymentIntent repr secretKey post a = .ok r) :
    r.amount = a.amount ∧ ∃ resp pi, post (a.request secretKey) = .ok resp ∧
      (resp.statusCode = 200 ∨ resp.statusCode = 201) ∧ resp.json = .ok pi ∧ jsonId pi = .ok r.providerTxnId := by
  unfold createPaymentIntent at h
  split at h
  · cases h
  rcases hpost : post (a.request secretKey) with e | resp
  · rw [hpost] at h
    cases h
  simp only [hpost, bind, Except.bind, pure, Except.pure] at h
  by_cases hstatus : resp.statusCode ≠ 200 ∧ resp.statusCode ≠ 201
  · rw [if_pos hstatus] at h
    cases hmsg : resp.errorMsg <;> simp only [hmsg] at h <;> cases h
  rw [if_neg hstatus] at h
  rcases hjson : resp.json with e | pi
  · rw [hjson] at h
    cases h
  simp only [hjson] at h
  rcases hid : jsonId pi with e | id
  · rw [hid] at h
    cases h
  simp only [hid] at h
  cases hsecret : jsonGet pi "client_secret" (.str "") <;> simp only [hsecret] at h <;> cases h
  exact ⟨rfl, resp, pi, rfl, by omega, hjson, hid⟩

/-! ## The way back -/

/-- The amount is in whole units of the currency's smallest coin. -/
structure Payable (amount : Decimal) (currency : String) : Prop where
  nonneg : 0 ≤ amount.val
  hundredths : ∃ n : Int, amount.val = n / 10 ^ 2
  whole : Text.upper currency ∈ zeroDecimal → ∃ n : Int, amount.val = n

/-- What the webhook makes of what was sent is what was meant. -/
def ComesBack (repr : Json → String) (amount : Decimal) (currency : String) : Prop :=
  ∃ d, stripeAmountToDecimal repr (.int (amountMinor amount)) currency = .ok (some d) ∧ d.val = amount.val

open Py.Decimal

theorem amountMinor_eq (amount : Decimal) : amountMinor amount = Py.trunc (kept (amount.val * 100)) := by
  simp [amountMinor, mul, kept, val]

/-- An amount that the context holds goes out as its hundredths. -/
theorem amountMinor_exact {amount : Decimal} {n : Nat} (hn : amount.val = n / 10 ^ 2) (h : Exact (n : Rat)) :
    amountMinor amount = n := by
  have hmul : amount.val * 100 = n := by
    rw [hn]
    norm_num
  rw [amountMinor_eq, hmul, kept_of_exact h]
  exact_mod_cast Py.trunc_int n

/-- What is reported as hundredths, or as whole units, is read as the number it is. -/
theorem majorAmount_nat (repr : Json → String) (hundredths : Bool) (n : Nat) :
    majorAmount repr hundredths (.int n) =
      match if hundredths then quantize 2 (kept (n / 100)) else quantize 0 n with
      | some d => .ok (some d)
      | none => .error .invalidOperation := by
  simp only [majorAmount, Json.text, Py.decimalOfText_nat]
  rfl

/-- The amount that comes back, where one does. -/
theorem stripeAmount_ok {repr : Json → String} {n : Nat} {currency : String} {d : Decimal} :
    stripeAmountToDecimal repr (.int n) currency = .ok (some d) ↔
      (if Text.upper currency ∈ zeroDecimal then quantize 0 n else quantize 2 (kept (n / 100))) = some d := by
  simp only [stripeAmountToDecimal, majorAmount_nat]
  by_cases hz : Text.upper currency ∈ zeroDecimal
  · simp only [List.contains_eq_mem, hz, decide_true, Bool.not_true, Bool.false_eq_true, if_false, if_true]
    cases quantize 0 n <;> simp
  · simp only [List.contains_eq_mem, hz, decide_false, Bool.not_false, if_false, if_true]
    cases quantize 2 (kept (n / 100)) <;> simp

section

variable {repr : Json → String} {amount : Decimal} {currency : String}

theorem amountMinor_nonneg (h : 0 ≤ amount.val) : ∃ k : Nat, amountMinor amount = k := by
  have hkept : 0 ≤ kept (amount.val * 100) := kept_nonneg (by positivity)
  refine Int.eq_ofNat_of_zero_le ?_
  rw [amountMinor_eq, Py.trunc, if_pos hkept]
  exact Int.floor_nonneg.mpr hkept

/-- A currency without hundredths: the amount comes back a hundred times as large. -/
theorem comesBack_whole (h0 : 0 ≤ amount.val) (hz : Text.upper currency ∈ zeroDecimal) :
    ComesBack repr amount currency ↔ amount.val = 0 := by
  obtain ⟨k, hk⟩ := amountMinor_nonneg h0
  have hquantize : quantize 0 (k : Rat) = if k < 10 ^ prec then some ⟨k, 0⟩ else none := by
    simpa using quantize_int 0 (k : Int)
  simp only [ComesBack, hk, stripeAmount_ok, if_pos hz, hquantize]
  constructor
  · intro ⟨d, hd, hval⟩
    split at hd
    · next hdigits =>
      cases hd
      have hv : amount.val = k := by rw [← hval]; simp [val]
      -- a whole number of at most 28 digits is sent as its hundredfold
      have hexact : Exact ((k * 100 : Nat) : Rat) := ⟨k, 2, by simpa using hdigits, by push_cast; norm_num⟩
      have hsent := amountMinor_exact (n := k * 100) (by rw [hv]; push_cast; ring) hexact
      have hzero : k = 0 := by omega
      rw [hv, hzero, Nat.cast_zero]
    · cases hd
  · intro hv
    have hsent : amountMinor amount = (0 : Nat) := amountMinor_exact (by simpa using hv) (by simpa using exact_zero)
    have hzero : k = 0 := by omega
    rw [hzero]
    exact ⟨⟨0, 0⟩, by decide, by rw [hv]; simp [val]⟩

/-- A currency with hundredths: the amount comes back as long as 28 digits hold its hundredths. -/
theorem comesBack_hundredths {n : Nat} (hn : amount.val = n / 10 ^ 2) (hz : Text.upper currency ∉ zeroDecimal) :
    ComesBack repr amount currency ↔ n < 10 ^ prec := by
  have hcents : (10 : Rat) ^ 2 = 100 := by norm_num
  have hwhole : amount.val * 100 = n := by rw [hn, hcents]; ring
  constructor
  · intro ⟨d, hd, _⟩
    have h0 : 0 ≤ amount.val := by
      rw [hn]
      positivity
    obtain ⟨k, hk⟩ := amountMinor_nonneg h0
    rw [hk, stripeAmount_ok, if_neg hz] at hd
    refine lt_of_not_ge fun hlong => ?_
    -- what has too many digits is sent, divided and quantized with too many digits
    have hsent : 10 ^ prec ≤ k := by
      have hkept : (10 : Rat) ^ (prec : Int) ≤ kept n :=
        le_kept (exact_zpow _) (by positivity) (by exact_mod_cast hlong)
      have hfloor : (10 ^ prec : Int) ≤ (kept n).floor := Rat.le_floor_iff.mpr (by exact_mod_cast hkept)
      rw [amountMinor_eq, hwhole, Py.trunc, if_pos ((ten_pow_pos _).le.trans hkept)] at hk
      exact_mod_cast hk ▸ hfloor
    have hback : (10 : Rat) ^ (26 : Int) ≤ kept (k / 100) := by
      refine le_kept (exact_zpow _) (by positivity) ?_
      rw [le_div_iff₀ (by norm_num)]
      have hcast : ((10 ^ prec : Nat) : Rat) ≤ k := Nat.cast_le.mpr hsent
      refine le_trans ?_ hcast
      norm_num [prec]
    have hround : ((10 ^ prec : Nat) : Int) ≤ Py.roundHalfEven (kept (k / 100) * 10 ^ 2) := by
      refine Py.le_roundHalfEven ?_
      refine le_trans ?_ (mul_le_mul_of_nonneg_right hback (by norm_num))
      norm_num [prec]
    unfold quantize at hd
    dsimp only at hd
    split at hd
    · next hshort => omega
    · cases hd
  · intro hlt
    have hexact : Exact (n : Rat) := ⟨n, 0, by simpa using hlt, by simp⟩
    have hcent : Exact (n / 100 : Rat) := ⟨n, -2, by simpa using hlt, by push_cast; norm_num [div_eq_mul_inv]⟩
    have hquantize := quantize_int 2 n
    rw [if_pos (by simpa using hlt), Int.cast_natCast, hcents] at hquantize
    simp only [ComesBack, amountMinor_exact hn hexact, stripeAmount_ok, if_neg hz, kept_of_exact hcent]
    exact ⟨⟨n, -2⟩, hquantize, by rw [hn, val, zpow_neg, div_eq_mul_inv]; norm_cast⟩

end

/-- A payable amount comes back from Stripe as it went out exactly where it is
nothing, or the currency has hundredths and the context holds the amount's. -/
theorem comes_back_iff (repr : Json → String) (amount : Decimal) (currency : String) (h : Payable amount currency) :
    ComesBack repr amount currency ↔
      amount.val = 0 ∨ Text.upper currency ∉ zeroDecimal ∧ amount.val < 10 ^ 26 := by
  by_cases hz : Text.upper currency ∈ zeroDecimal
  · simp [comesBack_whole h.nonneg hz, hz]
  obtain ⟨m, hm⟩ := h.hundredths
  have hm0 : 0 ≤ m := by
    have := h.nonneg
    rw [hm, le_div_iff₀ (by norm_num), zero_mul] at this
    exact_mod_cast this
  obtain ⟨n, rfl⟩ := Int.eq_ofNat_of_zero_le hm0
  rw [comesBack_hundredths (by simpa using hm) hz]
  have hlt : amount.val < 10 ^ 26 ↔ n < 10 ^ prec := by
    rw [hm, div_lt_iff₀ (by norm_num), ← pow_add]
    exact_mod_cast Iff.rfl
  constructor
  · intro hn
    exact .inr ⟨hz, hlt.mpr hn⟩
  · intro hv
    rcases hv with h0 | ⟨-, hv⟩
    · exact hlt.mp (by rw [h0]; norm_num)
    · exact hlt.mp hv

theorem payable_rupees : Payable ⟨12050, -2⟩ "INR" where
  nonneg := by norm_num [val]
  hundredths := ⟨12050, by norm_num [val]⟩
  whole := fun h => absurd h (by decide)

theorem payable_yen : Payable ⟨500, 0⟩ "JPY" where
  nonneg := by norm_num [val]
  hundredths := ⟨50000, by norm_num [val]⟩
  whole := fun _ => ⟨500, by norm_num [val]⟩

theorem rupees_come_back : ComesBack (fun _ => "") ⟨12050, -2⟩ "INR" :=
  (comes_back_iff (fun _ => "") ⟨12050, -2⟩ "INR" payable_rupees).mpr
    (.inr ⟨by decide, by norm_num [val]⟩)

/-- 500 yen come back as 50000. -/
theorem yen_do_not_come_back : ¬ ∀ (repr : Json → String) (amount : Decimal) (currency : String),
    Payable amount currency → ComesBack repr amount currency := by
  intro h
  obtain ⟨d, hd, hval⟩ := h (fun _ => "") ⟨500, 0⟩ "JPY" payable_yen
  have hback : stripeAmountToDecimal (fun _ => "") (.int (amountMinor ⟨500, 0⟩)) "JPY" = .ok (some ⟨50000, 0⟩) := by
    decide +kernel
  rw [hback] at hd
  cases hd
  norm_num [val] at hval

end Falaron.Core
