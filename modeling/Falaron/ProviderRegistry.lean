/-
The circuit breaker of the provider registry.

Ten failures in a row take a provider down, and the registry then refuses
orders for it. The way back is only half there: a success clears the counter
and lifts a degraded provider, but not one that is down, and the half hour
after which the breaker was to reset itself is the lifetime of a Redis key
that nothing reads. `breaker_faithful_iff` says after which histories the
breaker still tells the truth.
-/
import Falaron.Engine
import Falaron.Redis

namespace Falaron.Core

inductive ProviderHealthStatus where
  | healthy | degraded | down
  deriving DecidableEq, Repr

def ProviderHealthStatus.text : ProviderHealthStatus → String
  | .healthy => "healthy"
  | .degraded => "degraded"
  | .down => "down"

def cbDegradedThreshold : Nat := 5

def cbDownThreshold : Nat := 10

/-- In seconds. -/
def cbAutoResetS : Nat := 1800

structure ProviderEntry where
  healthStatus : ProviderHealthStatus := .healthy
  failureCount : Nat := 0
  /-- In milliseconds. -/
  lastFailureAt : Nat := 0
  deriving DecidableEq, Repr

/-- The loaded providers, and the Redis the breaker writes to, whose clock is the process's. -/
structure Registry where
  providers : Int → Option ProviderEntry
  redis : Redis.Store String String := {}

/-- `RedisKeys.circuit_breaker(provider_id)` -/
def circuitBreakerKey (providerId : Int) : String := "cb:provider:" ++ toString providerId

/-- The health of a provider after a failure, the counter counted up. -/
def ProviderHealthStatus.failed (status : ProviderHealthStatus) (count : Nat) : ProviderHealthStatus :=
  if cbDownThreshold ≤ count then .down
  else if cbDegradedThreshold ≤ count then
    if status = .healthy then .degraded else status
  else status

namespace Registry

variable (r : Registry) (providerId : Int)

def setEntry (entry : ProviderEntry) : Registry :=
  { r with providers := Function.update r.providers providerId (some entry) }

/-- `record_success` -/
def recordSuccess : Registry :=
  match r.providers providerId with
  | none => r
  | some entry => r.setEntry providerId { entry with
      failureCount := 0
      healthStatus := if entry.healthStatus = .degraded then .healthy else entry.healthStatus }

/-- `record_failure` -/
def recordFailure : Registry :=
  match r.providers providerId with
  | none => r
  | some entry =>
    let count := entry.failureCount + 1
    let status := entry.healthStatus.failed count
    { r.setEntry providerId ⟨status, count, r.redis.now⟩ with
      redis := r.redis.setEx (circuitBreakerKey providerId) (toString count ++ ":" ++ status.text) cbAutoResetS }

/-- `reset_circuit_breaker` -/
def resetCircuitBreaker : Registry :=
  match r.providers providerId with
  | none => r
  | some entry =>
    { r.setEntry providerId { entry with failureCount := 0, healthStatus := .healthy } with
      redis := r.redis.del (circuitBreakerKey providerId) }

/-- What `create_order` reads of a provider: is it loaded, and is it down? -/
def entry : Option Bool := (r.providers providerId).map fun e => e.healthStatus = .down

def health : Option ProviderHealthStatus := (r.providers providerId).map (·.healthStatus)

/-- The check in front of the adapter's call fails. -/
def refuses : Bool := r.entry providerId = some true

end Registry

section

variable {r : Registry} {providerId : Int} (env : Surroundings) (req : OrderRequest) (s : Session)

/-- A refused order is not sent. -/
theorem registryCreateOrder_refused (h : r.refuses providerId = true) :
    (registryCreateOrder { env with entry := r.entry } providerId req).run s =
      (.error (.providerUnavailable s!"Provider {providerId} circuit breaker is open (DOWN)"), s) := by
  have he : r.entry providerId = some true := by simpa [Registry.refuses] using h
  simp only [registryCreateOrder, he]
  rfl

/-- The adapter is asked where the provider is loaded and not refused. -/
theorem registryCreateOrder_sent {e : ProviderEntry} (hl : r.providers providerId = some e)
    (h : r.refuses providerId = false) :
    .createOrder providerId req ∈ ((registryCreateOrder { env with entry := r.entry } providerId req).run s).2.sent := by
  have he : r.entry providerId = some false := by
    simp only [Registry.refuses, Registry.entry, hl, Option.map_some, Option.some.injEq, decide_eq_false_iff_not] at h ⊢
    simpa using h
  simp only [registryCreateOrder, he]
  cases ha : env.adapter providerId req with
  | ok result =>
    simp [Txn.Prog.require, Txn.Prog.call, Txn.Prog.bind_eq, Txn.Prog.pure_eq, Txn.Prog.bind, Txn.Prog.run]
  | error e =>
    simp only [raise]
    split <;> simp [Txn.Prog.require, Txn.Prog.call, Txn.Prog.bind_eq, Txn.Prog.bind, Txn.Prog.run]

end

/-! ## Histories -/

/-- What happens around the breaker. -/
inductive BreakerEvent where
  | success (providerId : Int)
  | failure (providerId : Int)
  | reset (providerId : Int)
  | wait (ms : Nat)
  deriving DecidableEq, Repr

def Registry.step (r : Registry) : BreakerEvent → Registry
  | .success p => r.recordSuccess p
  | .failure p => r.recordFailure p
  | .reset p => r.resetCircuitBreaker p
  | .wait ms => { r with redis := r.redis.wait ms }

/-- What has happened since the providers were loaded, the latest first. -/
abbrev BreakerHistory := List BreakerEvent

/-- The registry after a history. -/
def Registry.after (loaded : Int → Bool) (h : BreakerHistory) : Registry :=
  h.foldr (fun e r => r.step e) { providers := fun p => if loaded p then some {} else none }

namespace BreakerHistory

variable (p : Int)

/-- The failures since the last success or reset. -/
def failures : BreakerHistory → Nat
  | [] => 0
  | .success q :: h | .reset q :: h => if q = p then 0 else failures h
  | .failure q :: h => if q = p then failures h + 1 else failures h
  | .wait _ :: h => failures h

/-- The milliseconds since the last failure. -/
def age : BreakerHistory → Nat
  | [] => 0
  | .failure q :: h => if q = p then 0 else age h
  | .wait ms :: h => age h + ms
  | _ :: h => age h

/-- Ten failures in a row were recorded since the last reset, a success since or not. -/
def tripped : BreakerHistory → Bool
  | [] => false
  | .reset q :: h => if q = p then false else tripped h
  | e :: h => tripped h || cbDownThreshold ≤ failures p (e :: h)

/-- The health an entry shows. -/
def shown (tripped : Bool) (failures : Nat) : ProviderHealthStatus :=
  if tripped then .down else if cbDegradedThreshold ≤ failures then .degraded else .healthy

/-- Ten failures or more are outstanding, the last one less than half an hour old. -/
def Fresh (h : BreakerHistory) : Prop := cbDownThreshold ≤ failures p h ∧ age p h < 1000 * cbAutoResetS

instance (h : BreakerHistory) : Decidable (Fresh p h) := inferInstanceAs (Decidable (_ ∧ _))

/-- Ten outstanding failures have tripped the breaker. -/
theorem tripped_of_failures {p : Int} {h : BreakerHistory} (hf : cbDownThreshold ≤ failures p h) :
    tripped p h = true := by
  induction h with
  | nil => simp [failures, cbDownThreshold] at hf
  | cons e h ih =>
    cases e with
    | reset q =>
      simp only [failures, tripped] at hf ⊢
      split at hf
      · simp [cbDownThreshold] at hf
      · next hq => rw [if_neg hq]; exact ih hf
    | _ => simp only [tripped, Bool.or_eq_true, decide_eq_true_eq]; exact .inr hf

/-- What leaves the counter of `p` alone leaves it tripped or not. -/
theorem tripped_or_failures {p : Int} {h : BreakerHistory} :
    (tripped p h || decide (cbDownThreshold ≤ failures p h)) = tripped p h := by
  rw [Bool.or_eq_left_iff_imp, decide_eq_true_eq]
  exact tripped_of_failures

theorem failed_shown {tripped : Bool} {n : Nat} (h : tripped = true ∨ n < cbDownThreshold) :
    (shown tripped n).failed (n + 1) = shown (tripped || cbDownThreshold ≤ n + 1) (n + 1) := by
  unfold ProviderHealthStatus.failed shown
  unfold cbDownThreshold cbDegradedThreshold at *
  cases tripped with
  | true => simp
  | false =>
    have hn : n < 10 := h.resolve_left (by simp)
    by_cases h10 : 10 ≤ n + 1
    · simp [h10]
    · by_cases h5 : 5 ≤ n
      · simp [h10, h5, show 4 ≤ n by omega]
      · by_cases h4 : 4 ≤ n
        · simp [h10, h5, h4]
        · simp [h10, h5, h4]

end BreakerHistory

open BreakerHistory

section

variable {loaded : Int → Bool} {p : Int} {h : BreakerHistory}

theorem Registry.setEntry_self {r : Registry} {e : ProviderEntry} : (r.setEntry p e).providers p = some e :=
  Function.update_self ..

theorem Registry.setEntry_ne {r : Registry} {e : ProviderEntry} {q : Int} (hq : p ≠ q) :
    (r.setEntry q e).providers p = r.providers p := Function.update_of_ne hq ..

/-- What happens to another provider leaves the entry alone. -/
theorem Registry.step_ne {r : Registry} {e : BreakerEvent}
    (he : ∀ q, e = .success q ∨ e = .failure q ∨ e = .reset q → p ≠ q) :
    (r.step e).providers p = r.providers p := by
  cases e with
  | success q =>
    simp only [Registry.step, Registry.recordSuccess]
    split
    · rfl
    · exact Registry.setEntry_ne (he q (.inl rfl))
  | failure q =>
    simp only [Registry.step, Registry.recordFailure]
    split
    · rfl
    · exact Registry.setEntry_ne (he q (.inr (.inl rfl)))
  | reset q =>
    simp only [Registry.step, Registry.resetCircuitBreaker]
    split
    · rfl
    · exact Registry.setEntry_ne (he q (.inr (.inr rfl)))
  | wait ms => rfl

/-- The entry of a loaded provider counts its outstanding failures. -/
theorem Registry.after_entry (hp : loaded p = true) (h : BreakerHistory) :
    ∃ t, (Registry.after loaded h).providers p = some ⟨shown (tripped p h) (failures p h), failures p h, t⟩ := by
  induction h with
  | nil => exact ⟨0, by simp [Registry.after, hp, shown, tripped, failures, cbDegradedThreshold]⟩
  | cons e h ih =>
    obtain ⟨t, ht⟩ := ih
    show ∃ t, ((Registry.after loaded h).step e).providers p = _
    generalize Registry.after loaded h = r at ht ⊢
    by_cases he : ∃ q, (e = .success q ∨ e = .failure q ∨ e = .reset q) ∧ p = q
    · obtain ⟨_, rfl | rfl | rfl, rfl⟩ := he
      · -- a success clears the counter, and a degraded entry with it
        refine ⟨t, ?_⟩
        simp only [Registry.step, Registry.recordSuccess, ht, Registry.setEntry_self, tripped, failures, if_true]
        cases tripped p h with
        | true => rfl
        | false =>
          unfold shown cbDegradedThreshold cbDownThreshold
          by_cases hd : 5 ≤ failures p h <;> simp [hd]
      · refine ⟨r.redis.now, ?_⟩
        simp only [Registry.step, Registry.recordFailure, ht]
        refine Registry.setEntry_self.trans ?_
        have hcase : tripped p h = true ∨ failures p h < cbDownThreshold :=
          (Nat.lt_or_ge (failures p h) cbDownThreshold).symm.imp_left tripped_of_failures
        simp only [tripped, failures, if_true, failed_shown hcase]
      · refine ⟨t, ?_⟩
        simp only [Registry.step, Registry.resetCircuitBreaker, ht]
        exact Registry.setEntry_self.trans (by simp [shown, tripped, failures, cbDegradedThreshold])
    · have hne : ∀ q, e = .success q ∨ e = .failure q ∨ e = .reset q → p ≠ q := fun q h hq => he ⟨q, h, hq⟩
      refine ⟨t, (Registry.step_ne hne).trans (ht.trans ?_)⟩
      have hkeep : tripped p (e :: h) = tripped p h ∧ failures p (e :: h) = failures p h := by
        cases e with
        | wait ms => exact ⟨tripped_or_failures, rfl⟩
        | success q =>
          have hf : failures p (.success q :: h) = failures p h := if_neg (hne q (.inl rfl)).symm
          refine ⟨?_, hf⟩
          show (tripped p h || decide (cbDownThreshold ≤ failures p (.success q :: h))) = tripped p h
          rw [hf, tripped_or_failures]
        | failure q =>
          have hf : failures p (.failure q :: h) = failures p h := if_neg (hne q (.inr (.inl rfl))).symm
          refine ⟨?_, hf⟩
          show (tripped p h || decide (cbDownThreshold ≤ failures p (.failure q :: h))) = tripped p h
          rw [hf, tripped_or_failures]
        | reset q =>
          have hq := (hne q (.inr (.inr rfl))).symm
          exact ⟨if_neg hq, if_neg hq⟩
      rw [hkeep.1, hkeep.2]

theorem Registry.refuses_after (hp : loaded p = true) (h : BreakerHistory) :
    (Registry.after loaded h).refuses p = tripped p h := by
  obtain ⟨t, ht⟩ := Registry.after_entry hp h
  simp only [Registry.refuses, Registry.entry, ht, Option.map_some, shown]
  cases tripped p h with
  | true => rfl
  | false => by_cases hd : cbDegradedThreshold ≤ failures p h <;> simp [hd]

theorem Registry.health_after (hp : loaded p = true) (h : BreakerHistory) :
    (Registry.after loaded h).health p = some .healthy ↔ tripped p h = false ∧ failures p h < cbDegradedThreshold := by
  obtain ⟨t, ht⟩ := Registry.after_entry hp h
  simp only [Registry.health, ht, Option.map_some, Option.some.injEq, shown]
  cases tripped p h with
  | true => simp
  | false => by_cases hd : cbDegradedThreshold ≤ failures p h <;> simp [hd, Nat.not_lt.mpr, not_le.mp]

/-! ## When the breaker tells the truth -/

variable (loaded h p)

/-- An order is refused only for ten outstanding failures, the last one less
than half an hour old; a provider is healthy with fewer than five. -/
structure BreakerFaithful : Prop where
  refusal : (Registry.after loaded h).refuses p = true → Fresh p h
  health : (Registry.after loaded h).health p = some .healthy ↔ failures p h < cbDegradedThreshold

variable {loaded h p}

/-- **The breaker is faithful** after exactly the histories that have not
tripped it since the last reset, or have ten fresh failures outstanding. -/
theorem breaker_faithful_iff (hp : loaded p = true) :
    BreakerFaithful loaded p h ↔ (tripped p h = true → Fresh p h) := by
  constructor
  · intro hf ht
    exact hf.refusal (by rw [Registry.refuses_after hp, ht])
  · intro hc
    refine ⟨fun hr => hc (by rwa [Registry.refuses_after hp] at hr), ?_⟩
    rw [Registry.health_after hp]
    refine ⟨And.right, fun hlt => ⟨?_, hlt⟩⟩
    by_contra ht
    have hten := (hc (by simpa using ht)).1
    unfold cbDownThreshold cbDegradedThreshold at *
    omega

theorem breaker_faithful_while_failing :
    BreakerFaithful (· == 1) 1 (.wait 60000 :: List.replicate 10 (.failure 1)) :=
  (breaker_faithful_iff rfl).2 (by decide)

/-- The provider answers again, and its orders are still refused. -/
theorem recovered_provider_refused :
    ¬ BreakerFaithful (· == 1) 1 (.success 1 :: List.replicate 10 (.failure 1)) := by
  intro hf
  have hr : (Registry.after (· == 1) (.success 1 :: List.replicate 10 (.failure 1))).refuses 1 = true := by
    decide +kernel
  exact absurd (hf.refusal hr) (by decide)

end

end Falaron.Core
