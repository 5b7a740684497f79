/-
What the order engine is to do with the money of one order.

The charge is held once; what is held is captured or released, never both;
of what was captured parts are credited back, never more than the whole.
`Funds` says where the money is, `Trace` follows it through the ledger
entries of the order. A release that finds the charge captured already moves
nothing of this order: `overrun` remembers it.
-/
import Falaron.Account

namespace Falaron

inductive Funds where
  | unheld
  | held
  | captured (refunded : Int) (overrun : Bool)
  | released
  deriving DecidableEq, Repr

namespace Funds

/-- How an entry of the order moves its money. -/
inductive Moves (charge : Int) : Funds → EntryType → Int → Funds → Prop
  | reserve {a} : Moves charge .unheld .reserve a .held
  | capture {a} : a = -charge → Moves charge .held .capture a (.captured 0 false)
  | release {a} : Moves charge .held .release a .released
  | credit {r b a} : 0 < a → r + a ≤ charge → Moves charge (.captured r b) .credit a (.captured (r + a) b)
  | overrun {r b a} : Moves charge (.captured r b) .release a (.captured r true)

/-- The entries of one order, oldest first, and where they leave its money. -/
inductive Trace (charge : Int) : List LedgerEntry → Funds → Prop
  | nil : Trace charge [] .unheld
  | snoc {es e f f'} : Trace charge es f → f.Moves charge e.entryType e.amountPaise f' →
      Trace charge (es ++ [e]) f'

/-- What the order holds back of its owner's wallet. -/
def hold (charge : Int) : Funds → Int
  | .held => charge
  | _ => 0

/-- What has been credited back. -/
def refunded : Funds → Int
  | .captured r _ => r
  | _ => 0

/-- Nothing was ever released that was not held. -/
def Clean : Funds → Prop
  | .captured _ b => b = false
  | _ => True

end Funds

/-- The entries of a type, and what they add up to. -/
def ofType (t : EntryType) (es : List LedgerEntry) : List LedgerEntry := es.filter (·.entryType == t)

def totalOf (t : EntryType) (es : List LedgerEntry) : Int := ((ofType t es).map (·.amountPaise)).sum

@[simp] theorem ofType_nil (t : EntryType) : ofType t [] = [] := rfl

theorem ofType_snoc (t : EntryType) (es : List LedgerEntry) (e : LedgerEntry) :
    ofType t (es ++ [e]) = ofType t es ++ if e.entryType = t then [e] else [] := by
  simp only [ofType, List.filter_append, List.filter_cons, List.filter_nil, beq_iff_eq]

theorem totalOf_snoc (t : EntryType) (es : List LedgerEntry) (e : LedgerEntry) :
    totalOf t (es ++ [e]) = totalOf t es + if e.entryType = t then e.amountPaise else 0 := by
  simp only [totalOf, ofType_snoc]
  split <;> simp

/-- What the entries of an order say when its money is at `f`. -/
def Funds.Tells (charge : Int) (es : List LedgerEntry) : Funds → Prop
  | .unheld => es = []
  | .held => ofType .reserve es ≠ [] ∧ ofType .capture es = [] ∧ ofType .release es = [] ∧ totalOf .credit es = 0
  | .captured r overrun => (∃ e, ofType .capture es = [e] ∧ e.amountPaise = -charge) ∧
      totalOf .credit es = r ∧ 0 ≤ r ∧ r ≤ charge ∧ (overrun = false → ofType .release es = [])
  | .released => ofType .capture es = [] ∧ (∃ e, ofType .release es = [e]) ∧ totalOf .credit es = 0

theorem Funds.Moves.unique {charge a : Int} {t : EntryType} {f f₁ f₂ : Funds} (h : Moves charge f t a f₁)
    (h' : Moves charge f t a f₂) : f₁ = f₂ := by
  cases h <;> cases h' <;> rfl

namespace Funds.Trace

variable {charge : Int} {es : List LedgerEntry} {f : Funds}

theorem unique (h : Trace charge es f) : ∀ {f'}, Trace charge es f' → f = f' := by
  induction h with
  | nil =>
    intro f' h'
    generalize hes : ([] : List LedgerEntry) = es at h'
    cases h' with
    | nil => rfl
    | snoc => simp at hes
  | @snoc es₁ e f f₁ _ hm ih =>
    intro f' h'
    generalize hes : es₁ ++ [e] = es at h'
    cases h' with
    | nil => simp at hes
    | @snoc es₂ e' f₂ _ h₂ hm' =>
      obtain ⟨rfl, h₁⟩ := List.append_inj' hes rfl
      obtain rfl : e = e' := by simpa using h₁
      obtain rfl := ih h₂
      exact hm.unique hm'

theorem tells (h : Trace charge es f) (hc : 0 ≤ charge) : f.Tells charge es := by
  induction h with
  | nil => rfl
  | @snoc es e f f' _ hm ih =>
    generalize ht : e.entryType = t at hm
    generalize ha : e.amountPaise = a at hm
    cases hm with
    | reserve =>
      simp only [Tells] at ih
      subst ih
      simp [Tells, ofType, totalOf, ht]
    | capture hcharge =>
      obtain ⟨_, hcap, hrel, htot⟩ := ih
      refine ⟨⟨e, by simp [ofType_snoc, hcap, ht], ha.trans hcharge⟩, ?_, Int.le_refl 0, hc, fun _ => ?_⟩
      · simp [totalOf_snoc, htot, ht]
      · simp [ofType_snoc, hrel, ht]
    | release =>
      obtain ⟨_, hcap, hrel, htot⟩ := ih
      refine ⟨by simp [ofType_snoc, hcap, ht], ⟨e, by simp [ofType_snoc, hrel, ht]⟩, ?_⟩
      simp [totalOf_snoc, htot, ht]
    | credit hpos hle =>
      obtain ⟨⟨e', hcap, hamt⟩, htot, h₀, _, hover⟩ := ih
      refine ⟨⟨e', by simp [ofType_snoc, hcap, ht], hamt⟩, ?_, by omega, hle, fun hb => ?_⟩
      · simp [totalOf_snoc, htot, ht, ha]
      · simp [ofType_snoc, hover hb, ht]
    | overrun =>
      obtain ⟨⟨e', hcap, hamt⟩, htot, h₀, hle, _⟩ := ih
      refine ⟨⟨e', by simp [ofType_snoc, hcap, ht], hamt⟩, ?_, h₀, hle, by simp⟩
      simp [totalOf_snoc, htot, ht]

/-- A charge is held once. -/
theorem reserves (h : Trace charge es f) : if f = .unheld then es = [] else ∃ e, ofType .reserve es = [e] := by
  induction h with
  | nil => rfl
  | @snoc es e f f' _ hm ih =>
    generalize ht : e.entryType = t at hm
    cases hm with
    | reserve =>
      obtain rfl : es = [] := ih
      exact ⟨e, by simp [ofType, ht]⟩
    | _ =>
      obtain ⟨e', he'⟩ := ih
      exact ⟨e', by simp [ofType_snoc, he', ht]⟩

/-- Whether the money is held can be read off the kinds of the entries. -/
theorem held_iff (h : Trace charge es f) (hc : 0 ≤ charge) :
    f = .held ↔ (ofType .reserve es ≠ [] ∧ ofType .capture es = [] ∧ ofType .release es = []) := by
  have ht := h.tells hc
  cases f with
  | unheld =>
    simp only [Tells] at ht
    simp [ht]
  | held => simp [ht.1, ht.2.1, ht.2.2.1]
  | captured r b =>
    obtain ⟨⟨e, hcap, _⟩, _⟩ := ht
    simp [hcap]
  | released =>
    obtain ⟨_, ⟨e, hrel⟩, _⟩ := ht
    simp [hrel]

/-- What is credited back is what the ledger says, and never exceeds the charge. -/
theorem refunded_eq (h : Trace charge es f) (hc : 0 ≤ charge) :
    totalOf .credit es = f.refunded ∧ 0 ≤ f.refunded ∧ f.refunded ≤ charge := by
  have ht := h.tells hc
  cases f with
  | unheld =>
    simp only [Tells] at ht
    subst ht
    exact ⟨rfl, Int.le_refl 0, hc⟩
  | held => exact ⟨ht.2.2.2, Int.le_refl 0, hc⟩
  | captured r b => exact ⟨ht.2.1, ht.2.2.1, ht.2.2.2.1⟩
  | released => exact ⟨ht.2.2, Int.le_refl 0, hc⟩

/-- At most one capture, of exactly the charge. -/
theorem captures (h : Trace charge es f) (hc : 0 ≤ charge) : (ofType .capture es).length ≤ 1 ∧
    ∀ e ∈ ofType .capture es, e.amountPaise = -charge := by
  have ht := h.tells hc
  cases f with
  | unheld =>
    simp only [Tells] at ht
    simp [ht]
  | held => simp [ht.2.1]
  | captured r b =>
    obtain ⟨⟨e, hcap, hamt⟩, _⟩ := ht
    simp [hcap, hamt]
  | released => simp [ht.1]

/-- The money leaves its hold at most once, unless a release ran over. -/
theorem consumed (h : Trace charge es f) (hc : 0 ≤ charge) (hf : f.Clean) :
    (ofType .capture es).length + (ofType .release es).length ≤ 1 := by
  have ht := h.tells hc
  cases f with
  | unheld =>
    simp only [Tells] at ht
    simp [ht]
  | held => simp [ht.2.1, ht.2.2.1]
  | captured r b =>
    obtain ⟨⟨e, hcap, _⟩, _, _, _, hover⟩ := ht
    simp [hcap, hover hf]
  | released =>
    obtain ⟨hcap, ⟨e, hrel⟩, _⟩ := ht
    simp [hcap, hrel]

/-- A credit comes after a capture. -/
theorem credit_after_capture (h : Trace charge es f) (hc : 0 ≤ charge) {es₁ es₂ : List LedgerEntry}
    {e : LedgerEntry} (hes : es = es₁ ++ e :: es₂) (he : e.entryType = .credit) :
    ofType .capture es₁ ≠ [] := by
  induction h generalizing es₂ with
  | nil => simp at hes
  | @snoc es e' f f' ht hm ih =>
    rcases List.eq_nil_or_concat es₂ with rfl | ⟨es₃, e₃, rfl⟩
    · obtain ⟨rfl, h₁⟩ := List.append_inj' hes rfl
      obtain rfl : e' = e := by simpa using h₁
      rw [he] at hm
      cases hm with
      | credit =>
        obtain ⟨⟨e₀, hcap, _⟩, _⟩ := ht.tells hc
        simp [hcap]
    · have hes' : es ++ [e'] = (es₁ ++ e :: es₃) ++ [e₃] := by simpa using hes
      exact ih (List.append_inj' hes' rfl).1

theorem take (h : Trace charge es f) {es₁ es₂ : List LedgerEntry} (hes : es = es₁ ++ es₂) :
    ∃ f₁, Trace charge es₁ f₁ := by
  induction h generalizing es₂ with
  | nil =>
    obtain ⟨rfl, rfl⟩ := List.append_eq_nil_iff.mp hes.symm
    exact ⟨_, .nil⟩
  | @snoc es e f f' ht hm ih =>
    rcases List.eq_nil_or_concat es₂ with rfl | ⟨es₃, e₃, rfl⟩
    · rw [List.append_nil] at hes
      exact ⟨f', hes ▸ ht.snoc hm⟩
    · have hes' : es ++ [e] = (es₁ ++ es₃) ++ [e₃] := by simpa using hes
      exact ih (List.append_inj' hes' rfl).1

/-- What is credited back never exceeds what was captured. -/
theorem credits_le (h : Trace charge es f) (hc : 0 ≤ charge) : totalOf .credit es ≤ -totalOf .capture es := by
  have ht := h.tells hc
  cases f with
  | unheld =>
    simp only [Tells] at ht
    subst ht
    decide
  | held =>
    have hcap : totalOf .capture es = 0 := by simp [totalOf, ht.2.1]
    have := ht.2.2.2
    omega
  | captured r b =>
    obtain ⟨⟨e, hcap, hamt⟩, htot, _, hle, _⟩ := ht
    have hcap : totalOf .capture es = -charge := by simp [totalOf, hcap, hamt]
    omega
  | released =>
    have hcap : totalOf .capture es = 0 := by simp [totalOf, ht.1]
    have := ht.2.2
    omega

end Funds.Trace

end Falaron
