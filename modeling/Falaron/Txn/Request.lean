/-
Requests on a state: what one changes goes in together, or, when it raises,
not at all.

`Leads R m s Q` says of a request that it goes from `s`, when it succeeds, by
changes in `R`, each from the state the one before it left, to a result and a
state with `Q`.
-/
import Mathlib.Logic.Relation

namespace Txn.Request

open Relation (ReflTransGen)

variable {σ ε α β : Type}

def onlyIf (c : Prop) [Decidable c] (m : StateT σ (Except ε) Unit) : StateT σ (Except ε) Unit :=
  if c then m else pure ()

def Leads (R : σ → σ → Prop) (m : StateT σ (Except ε) α) (s : σ) (Q : α → σ → Prop) : Prop :=
  ∀ a s', m s = .ok (a, s') → ReflTransGen R s s' ∧ Q a s'

section

variable {R : σ → σ → Prop} {m : StateT σ (Except ε) α} {f : α → StateT σ (Except ε) β} {s t : σ}
  {Q Q' : α → σ → Prop} {P : β → σ → Prop}

theorem Leads.mono (h : Leads R m s Q) (hQ : ∀ a s', Q a s' → Q' a s') : Leads R m s Q' :=
  fun a s' hr => (h a s' hr).imp_right (hQ a s')

theorem leads_pure {a : α} (h : Q a s) : Leads R (pure a : StateT σ (Except ε) α) s Q := by
  intro b s' hr
  cases hr
  exact ⟨.refl, h⟩

theorem leads_throw (e : ε) : Leads R (throw e : StateT σ (Except ε) α) s Q := by
  intro b s' hr
  cases hr

theorem bind_ok {b : β} {s' : σ} (h : (m >>= f) s = .ok (b, s')) :
    ∃ a t, m s = .ok (a, t) ∧ f a t = .ok (b, s') := by
  change ((m s).bind fun r => f r.1 r.2) = _ at h
  cases hm : m s with
  | error e =>
    rw [hm] at h
    cases h
  | ok r =>
    rw [hm] at h
    exact ⟨r.1, r.2, rfl, h⟩

theorem onlyIf_ok {c : Prop} [Decidable c] {m : StateT σ (Except ε) Unit} {u : Unit} {s' : σ}
    (h : onlyIf c m s = .ok (u, s')) : c ∧ m s = .ok (u, s') ∨ ¬ c ∧ s = s' := by
  unfold onlyIf at h
  split at h
  · next hc => exact .inl ⟨hc, h⟩
  · next hc =>
    cases h
    exact .inr ⟨hc, rfl⟩

theorem leads_bind (h : Leads R m s Q) (hf : ∀ a s', Q a s' → Leads R (f a) s' P) : Leads R (m >>= f) s P := by
  intro b s' hr
  obtain ⟨a, t, hm, hrest⟩ := bind_ok hr
  obtain ⟨hfirst, hQ⟩ := h a t hm
  exact (hf a t hQ b s' hrest).imp_left hfirst.trans

/-- Reading the state is no change. -/
theorem leads_get_bind {f : σ → StateT σ (Except ε) β} (h : Leads R (f s) s P) : Leads R (get >>= f) s P := h

theorem leads_set {P : PUnit → σ → Prop} (hR : ReflTransGen R s t) (h : P ⟨⟩ t) :
    Leads R (set t : StateT σ (Except ε) PUnit) s P := by
  intro b s' hr
  cases hr
  exact ⟨hR, h⟩

theorem leads_modify {g : σ → σ} {P : PUnit → σ → Prop} (hR : ReflTransGen R s (g s)) (h : P ⟨⟩ (g s)) :
    Leads R (modify g : StateT σ (Except ε) PUnit) s P := by
  intro b s' hr
  cases hr
  exact ⟨hR, h⟩

theorem leads_ite {c : Prop} [Decidable c] {m' : StateT σ (Except ε) α} (h : c → Leads R m s Q)
    (h' : ¬ c → Leads R m' s Q) : Leads R (if c then m else m') s Q := by
  split
  · next hc => exact h hc
  · next hc => exact h' hc

theorem leads_onlyIf {c : Prop} [Decidable c] {m : StateT σ (Except ε) Unit} {P : Unit → σ → Prop}
    (h : c → Leads R m s P) (h' : ¬ c → P () s) : Leads R (onlyIf c m) s P :=
  leads_ite h fun hc => leads_pure (h' hc)

end

end Txn.Request
