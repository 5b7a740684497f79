/-
The audit of the ledger, over runs of credits and debits.

A credit's row passes the audit as long as 28 digits hold the sum: rounding
the new balance to the column rounds the amount. A debit's row never does,
unless its amount rounds to nothing: the amount goes into the log without a
sign, and the audit adds it where the wallet lost it. The rows stay, so one
such debit is enough for good.
-/
import Falaron.Ledger

namespace Falaron.Core

open Py (Decimal)
open Py.Decimal (Exact)

/-- The audit accepts the wallet: it reports it as valid, and every row's
balances are its amount apart. -/
structure Audited (db : Db) (userId : Int) : Prop where
  valid : ∃ balance computed,
    (verifyLedgerInvariant userId).run { db := db } = (.ok (true, balance, computed), { db := db })
  rows : ∀ t ∈ db.transactionsOf userId, t.balanceBefore + t.amount = t.balanceAfter

theorem audited_iff {db : Db} {u : Int} : Audited db u ↔ (∃ w, db.wallets u = some w ∧ w.balance = db.computed u) ∧
    ∀ t ∈ db.transactionsOf u, t.balanceBefore + t.amount = t.balanceAfter := by
  have hrun : (verifyLedgerInvariant u).run { db := db } = (.ok ((db.wallets u).elim (false, 0, 0) fun w =>
      (decide (w.balance = db.computed u), w.balance, db.computed u)), { db := db }) := by
    simp only [verifyLedgerInvariant, Txn.Prog.bind_eq, Txn.Prog.run_bind, Txn.Prog.query, Txn.Prog.run]
    cases db.wallets u <;> rfl
  refine ⟨fun h => ⟨?_, h.rows⟩, fun h => ⟨?_, h.2⟩⟩
  · obtain ⟨b, c, hv⟩ := h.valid
    rw [hrun] at hv
    cases hw : db.wallets u with
    | none => simp [hw] at hv
    | some w =>
      simp only [hw, Option.elim_some, Prod.mk.injEq, Except.ok.injEq, decide_eq_true_eq, and_true] at hv
      exact ⟨w, rfl, hv.1⟩
  · obtain ⟨w, hw, hb⟩ := h.1
    refine ⟨w.balance, db.computed u, ?_⟩
    rw [hrun, hw]
    simp [hb]

/-! ## Balances in a money column -/

theorem exact_money {n : Int} (h : fits n = true) : Exact (money n).val := by
  refine ⟨n, -4, ?_, rfl⟩
  simp only [fits, decide_eq_true_eq] at h
  exact h.trans (by decide)

theorem money_scaled (n : Int) : (money n).val * 10 ^ moneyScale = n := Decimal.val_ofNumeric moneyScale n

theorem stored_nonneg {d : Decimal} (h : 0 ≤ d.val) : 0 ≤ stored d :=
  Py.le_halfAway le_rfl (by push_cast; positivity)

section

variable {n : Int} {a : Decimal}

/-- A credit moves the column by what the column makes of the amount. -/
theorem stored_add (hn : 0 ≤ n) (ha : 0 < a.coeff) (h : Exact ((money n).val + a.val)) :
    stored (balanceAfter true (money n) a) = n + stored a := by
  have ha' : 0 ≤ a.val * 10 ^ moneyScale := by
    have := Decimal.val_pos.2 ha
    positivity
  simp only [balanceAfter, if_true, stored, Decimal.numeric, Decimal.val_add h, add_mul, money_scaled]
  exact Py.halfAway_int_add hn ha'

/-- What a debit leaves, before it is rounded to 28 digits. -/
theorem val_minus : ((money n).plus a.neg).val = (money n).val - a.val := by
  rw [Decimal.val_plus, Decimal.val_neg, ← sub_eq_add_neg]

theorem money_nonneg (hn : 0 ≤ n) : 0 ≤ (money n).val := Decimal.val_nonneg.2 hn

/-- A debit never raises the column. -/
theorem stored_sub_le (hn : 0 ≤ n) (hf : fits n = true) (ha : 0 < a.coeff) :
    stored (balanceAfter false (money n) a) ≤ n := by
  have ha' := Decimal.val_pos.2 ha
  have hle : (balanceAfter false (money n) a).val ≤ (money n).val :=
    Decimal.fix_le (exact_money hf) (money_nonneg hn) (by rw [val_minus]; linarith)
  refine Py.halfAway_le hn ?_
  rw [← money_scaled n]
  exact mul_le_mul_of_nonneg_right hle (by positivity)

/-- A debit of less than half a unit leaves the column as it is. -/
theorem stored_sub_of_zero (hn : 0 ≤ n) (hf : fits n = true) (ha : 0 < a.coeff) (hz : stored a = 0)
    (hcov : 0 ≤ (balanceAfter false (money n) a).coeff) : stored (balanceAfter false (money n) a) = n := by
  refine le_antisymm (stored_sub_le hn hf ha) ?_
  rcases hn.eq_or_lt with rfl | hpos
  · exact stored_nonneg (Decimal.val_nonneg.2 hcov)
  have ha' : 0 ≤ a.val * 10 ^ moneyScale := by
    have := Decimal.val_pos.2 ha
    positivity
  have hlt := Py.lt_half_of_halfAway ha' hz
  simp only [fits, decide_eq_true_eq] at hf
  -- half a unit below the balance is a number of 28 digits
  have hexact : Exact ((money n).val - 5 * 10 ^ (-5 : Int)) := by
    refine ⟨10 * n - 5, -5, by simp only [Decimal.prec]; omega, ?_⟩
    simp only [money, Decimal.ofNumeric, Decimal.val, moneyScale]
    push_cast
    norm_num
    ring
  have hunit : (1 : Rat) ≤ n := by exact_mod_cast hpos
  have hscaled := money_scaled n
  simp only [moneyScale] at hscaled hlt
  have hle : (money n).val - 5 * 10 ^ (-5 : Int) ≤ (balanceAfter false (money n) a).val := by
    refine Decimal.le_fix hexact ?_ ?_
    · norm_num
      linarith
    · rw [val_minus]
      norm_num
      linarith
  refine Py.le_halfAway_of_half hpos ?_
  simp only [moneyScale]
  norm_num at hle
  linarith

end

/-! ## Runs -/

/-- The user has a wallet, with a balance its column can hold and not below zero. -/
def Solvent (db : Db) (userId : Int) : Prop :=
  ∃ w, db.wallets userId = some w ∧ 0 ≤ w.balance ∧ fits w.balance = true

section

variable {db : Db} {u : Int} {c : LedgerCall} {t : WalletTransaction}

theorem Posts.after_nonneg {a : TxArgs} {isCredit : Bool} (h : Posts db a isCredit t) (hs : Solvent db a.userId) :
    0 ≤ t.balanceAfter := by
  obtain ⟨w, hw, h0, hf⟩ := hs
  obtain ⟨w', hw', rfl, hcov⟩ := h.row
  obtain rfl : w = w' := Option.some.inj (hw.symm.trans hw')
  refine stored_nonneg ?_
  rcases hcov with rfl | hcov
  · have hpos := Decimal.val_pos.2 h.pos
    refine Decimal.le_fix (x := 0) ⟨0, 0, by decide, by simp⟩ le_rfl ?_
    rw [Decimal.val_plus]
    exact add_nonneg (money_nonneg h0) hpos.le
  · exact Decimal.val_nonneg.2 hcov

theorem Posts.wallets_ne {a : TxArgs} {isCredit : Bool} (h : Posts db a isCredit t) (hu : a.userId ≠ u) :
    (db.posted t).wallets u = db.wallets u ∧ (db.posted t).transactionsOf u = db.transactionsOf u := by
  have hne : t.walletId ≠ u := h.names.1 ▸ hu
  exact ⟨by rw [Db.posted_wallets, if_neg (Ne.symm hne)], by rw [Db.transactionsOf_posted, if_neg hne]⟩

theorem Posts.wallets_eq {a : TxArgs} {isCredit : Bool} (h : Posts db a isCredit t) (hu : a.userId = u) :
    (db.posted t).wallets u = some ⟨t.balanceAfter⟩ ∧
      (db.posted t).transactionsOf u = db.transactionsOf u ++ [t] := by
  have he : t.walletId = u := h.names.1.trans hu
  obtain ⟨w, hw, _⟩ := h.row
  refine ⟨?_, by rw [Db.transactionsOf_posted, if_pos he]⟩
  rw [Db.posted_wallets, if_pos he.symm, ← hu, hw]
  rfl

theorem Solvent.step (h : Solvent db u) (c : LedgerCall) : Solvent (c.step db) u := by
  rcases c.step_cases db with hs | ⟨t, ht, hs⟩
  · rwa [hs]
  rw [hs]
  by_cases hu : c.args.userId = u
  · exact ⟨_, (ht.wallets_eq hu).1, ht.after_nonneg (hu ▸ h), ht.stored.1⟩
  · obtain ⟨w, hw, hrest⟩ := h
    exact ⟨w, (ht.wallets_ne hu).1.trans hw, hrest⟩

theorem Solvent.run (h : Solvent db u) (calls : List LedgerCall) : Solvent (ledgerRun db calls) u := by
  induction calls generalizing db with
  | nil => exact h
  | cons c calls ih => exact ih (h.step c)

/-- A row that passes the audit joins rows that do. -/
theorem Audited.posted {a : TxArgs} {isCredit : Bool} (h : Audited db u) (ht : Posts db a isCredit t)
    (hrow : a.userId = u → t.balanceBefore + t.amount = t.balanceAfter) : Audited (db.posted t) u := by
  obtain ⟨⟨w, hw, hb⟩, hrows⟩ := audited_iff.mp h
  by_cases hu : a.userId = u
  · obtain ⟨hw', htx⟩ := ht.wallets_eq hu
    have hrow := hrow hu
    have hbefore : t.balanceBefore = w.balance := by
      obtain ⟨v, hv, rfl, _⟩ := ht.row
      rw [hu, hw] at hv
      exact congrArg Wallet.balance (Option.some.inj hv).symm
    refine audited_iff.mpr ⟨⟨_, hw', ?_⟩, fun r hr => ?_⟩
    · simp only [Db.computed, htx, List.map_append, List.map_cons, List.map_nil, List.sum_append, List.sum_cons,
        List.sum_nil, add_zero]
      rw [← hrow, hbefore, hb]
      rfl
    · rw [htx] at hr
      rcases List.mem_append.mp hr with hr | hr
      · exact hrows r hr
      · rw [List.mem_singleton] at hr
        exact hr ▸ hrow
  · obtain ⟨hw', htx⟩ := ht.wallets_ne hu
    refine audited_iff.mpr ⟨⟨w, hw'.trans hw, ?_⟩, ?_⟩
    · simp only [Db.computed, htx]
      exact hb
    · rw [htx]
      exact hrows

/-- On the wallet of `u`, the call is a credit whose sum 28 digits hold, or a
debit that posts nothing (or an amount its column keeps as zero). -/
structure Harmless (db : Db) (u : Int) (c : LedgerCall) : Prop where
  credit : c.args.userId = u → c.isCredit = true → ∀ w, db.wallets u = some w →
    Exact ((money w.balance).val + c.args.amount.val)
  debit : c.args.userId = u → c.isCredit = false → ∀ t, Posts db c.args false t → t.amount = 0

theorem Harmless.row (h : Harmless db u c) (hs : Solvent db u) (ht : Posts db c.args c.isCredit t)
    (hu : c.args.userId = u) : t.balanceBefore + t.amount = t.balanceAfter := by
  obtain ⟨w, hw, h0, hf⟩ := hs
  have ht' := ht
  obtain ⟨w', hw', rfl, hcov⟩ := ht.row
  rw [hu] at hw'
  obtain rfl : w = w' := Option.some.inj (hw.symm.trans hw')
  cases hc : c.isCredit with
  | true => exact (stored_add h0 ht.pos (h.credit hu hc w hw)).symm
  | false =>
    rw [hc] at ht' hcov
    have hz := h.debit hu hc _ ht'
    have hle := stored_sub_of_zero h0 hf ht.pos hz (hcov.resolve_left (by decide))
    simp only [TxArgs.row] at hz ⊢
    rw [hz, add_zero, hle]

theorem Audited.step (h : Audited db u) (hs : Solvent db u) (hc : Harmless db u c) : Audited (c.step db) u := by
  rcases c.step_cases db with hs' | ⟨t, ht, hs'⟩
  · rwa [hs']
  · rw [hs']
    exact h.posted ht (hc.row hs ht)

theorem transactionsOf_step (c : LedgerCall) (h : t ∈ db.transactionsOf u) : t ∈ (c.step db).transactionsOf u := by
  rcases c.step_cases db with hs | ⟨t', _, hs⟩
  · rwa [hs]
  · rw [hs, Db.transactionsOf_posted]
    split
    · exact List.mem_append_left _ h
    · exact h

/-- No call of a run takes a row out of the log. -/
theorem transactionsOf_run (calls : List LedgerCall) (h : t ∈ db.transactionsOf u) :
    t ∈ (ledgerRun db calls).transactionsOf u := by
  induction calls generalizing db with
  | nil => exact h
  | cons c calls ih => exact ih (transactionsOf_step c h)

/-- The row of a debit that counts does not pass the audit. -/
theorem debit_row_fails {a : TxArgs} (hs : Solvent db a.userId) (ht : Posts db a false t) (hz : t.amount ≠ 0) :
    t.balanceBefore + t.amount ≠ t.balanceAfter := by
  obtain ⟨w, hw, h0, hf⟩ := hs
  obtain ⟨w', hw', rfl, hcov⟩ := ht.row
  obtain rfl : w = w' := Option.some.inj (hw.symm.trans hw')
  have hle := stored_sub_le h0 hf ht.pos
  have hge : 0 ≤ stored a.amount := stored_nonneg (Decimal.val_pos.2 ht.pos).le
  simp only [TxArgs.row] at hz ⊢
  omega

end

/-- The calls of a run, each with the tables it is made on. -/
def MadeAt (db : Db) (calls : List LedgerCall) (c : LedgerCall) (db' : Db) : Prop :=
  ∃ before after, calls = before ++ c :: after ∧ db' = ledgerRun db before

/-- **The audit accepts credits only.** It goes on accepting a wallet along a
run in which every debit is refused, replayed or rounded to nothing (and 28
digits hold what the credits add up to); one debit that counts, and it never
accepts the wallet again. -/
theorem audit_accepts {db : Db} {u : Int} (hs : Solvent db u) (h : Audited db u) (calls : List LedgerCall) :
    ((∀ c db', MadeAt db calls c db' → Harmless db' u c) → Audited (ledgerRun db calls) u) ∧
    ((∃ a db' t, MadeAt db calls (.debit a) db' ∧ a.userId = u ∧ Posts db' a false t ∧ t.amount ≠ 0) →
      ¬ Audited (ledgerRun db calls) u) := by
  constructor
  · intro hc
    induction calls generalizing db with
    | nil => exact h
    | cons c calls ih =>
      refine ih (hs.step c) (h.step hs (hc c db ⟨[], calls, rfl, rfl⟩)) fun c' db' hm => ?_
      obtain ⟨before, after, rfl, rfl⟩ := hm
      exact hc c' _ ⟨c :: before, after, rfl, rfl⟩
  · rintro ⟨a, _, t, ⟨before, after, rfl, rfl⟩, rfl, ht, hz⟩ hA
    -- the debit's row is in the log from its call on
    have hmem : t ∈ (ledgerRun db (before ++ .debit a :: after)).transactionsOf a.userId := by
      rw [ledgerRun, List.foldl_append]
      refine transactionsOf_run after (?_ : t ∈ ((LedgerCall.debit a).step (ledgerRun db before)).transactionsOf a.userId)
      rw [Posts.step (c := .debit a) ht, (ht.wallets_eq rfl).2]
      exact List.mem_append_right _ (List.mem_singleton.mpr rfl)
    exact debit_row_fails (hs.run before) ht hz (hA.rows t hmem)

/-- A new wallet. -/
def newWallet (userId : Int) : Db := { wallets := fun u => if u = userId then some ⟨0⟩ else none }

theorem newWallet_solvent (u : Int) : Solvent (newWallet u) u := ⟨⟨0⟩, by simp [newWallet], le_rfl, rfl⟩

theorem newWallet_audited (u : Int) : Audited (newWallet u) u :=
  audited_iff.mpr ⟨⟨⟨0⟩, by simp [newWallet], rfl⟩, fun t ht => by simp [newWallet, Db.transactionsOf] at ht⟩

/-- A deposit alone passes; a deposit and a purchase do not. -/
theorem audit_accepts_of_deposit :
    let deposit : LedgerCall := .credit ⟨7, ⟨10000, -2⟩, .deposit, "a", none, none⟩
    let purchase : TxArgs := ⟨7, ⟨3000, -2⟩, .orderDebit, "b", none, none⟩
    Audited (ledgerRun (newWallet 7) [deposit]) 7 ∧ ¬ Audited (ledgerRun (newWallet 7) [deposit, .debit purchase]) 7 := by
  intro deposit purchase
  constructor
  · refine (audit_accepts (newWallet_solvent 7) (newWallet_audited 7) [deposit]).1 fun c db' hm => ?_
    obtain ⟨before, after, hcalls, rfl⟩ := hm
    cases before with
    | cons b before => simp at hcalls
    | nil =>
      obtain ⟨rfl, rfl⟩ : deposit = c ∧ [] = after := by simpa using hcalls
      refine ⟨fun _ _ w hw => ?_, fun _ hc => by cases hc⟩
      obtain rfl : (⟨0⟩ : Wallet) = w := by simpa [ledgerRun, newWallet] using hw
      exact ⟨10000, -2, by decide, by norm_num [money, Decimal.ofNumeric, Decimal.val, deposit, LedgerCall.args]⟩
  · refine (audit_accepts (newWallet_solvent 7) (newWallet_audited 7) [deposit, .debit purchase]).2 ?_
    refine ⟨purchase, ledgerRun (newWallet 7) [deposit], purchase.row false 1000000, ⟨[deposit], [], rfl, rfl⟩, rfl, ?_, ?_⟩
    · exact ⟨by decide +kernel, by decide, ⟨⟨1000000⟩, by decide +kernel, rfl, .inr (by decide +kernel)⟩,
        by decide +kernel⟩
    · decide +kernel

/-- The log of a deposit of 100 and a purchase of 30 adds up to 130. -/
theorem purchase_fails_audit :
    let calls : List LedgerCall := [.credit ⟨7, ⟨10000, -2⟩, .deposit, "a", none, none⟩,
      .debit ⟨7, ⟨3000, -2⟩, .orderDebit, "b", none, none⟩]
    ((verifyLedgerInvariant 7).run { db := ledgerRun (newWallet 7) calls }).1.toOption =
        some (false, 700000, 1300000) ∧ ¬ Audited (ledgerRun (newWallet 7) calls) 7 := by
  intro calls
  have hrun : ((verifyLedgerInvariant 7).run { db := ledgerRun (newWallet 7) calls }).1.toOption =
      some (false, 700000, 1300000) := by decide +kernel
  refine ⟨hrun, fun h => ?_⟩
  obtain ⟨b, c, hv⟩ := h.valid
  rw [hv] at hrun
  simp [Except.toOption] at hrun

end Falaron.Core
