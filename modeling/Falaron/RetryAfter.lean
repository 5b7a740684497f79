/-
What a refused client is told to wait.

`retry_after` rounds the time up until the oldest hit that counts has left the
window. A client that waits as long is let through, and one that calls again
earlier than that hit leaves the window is refused again
(`retry_after_sound`), as long as the table of the limiter is not full.
-/
import Mathlib.Tactic.Linarith
import Falaron.SlidingWindow

namespace Falaron.SlidingWindow

section

variable {a : Rounding} {l : RateLimiter} {now last : Rat} {key k : String} {q : List Rat} {c : Call} {calls : List Call}

/-! ## Runs -/

/-- No queue is longer than the limit. -/
def Short (l : RateLimiter) : Prop := ∀ k, (l.hits.queue k).length ≤ l.limit

theorem counted_length_le : (counted a l c).length ≤ (l.hits.queue c.key).length := by
  have hle : (counted a l c).length ≤ ((l.maybeGc a c.now).hits.queue c.key).length :=
    (List.dropWhile_suffix _).length_le
  rcases queue_maybeGc_cases (a := a) l c.now c.key with hq | hq <;> rw [hq] at hle
  · exact hle
  · exact hle.trans (Nat.zero_le _)

theorem Short.allow (hlimit : 1 ≤ l.limit) (h : Short l) : Short (l.allow a c.key c.now).2 := by
  have hswept (k : String) : ((l.maybeGc a c.now).hits.queue k).length ≤ l.limit := by
    rcases queue_maybeGc_cases (a := a) l c.now k with hq | hq <;> rw [hq]
    · exact h k
    · simp only [List.length_nil]
      omega
  have hstore {q : List Rat} (hq : q.length ≤ l.limit) : Short ((l.maybeGc a c.now).store c.key q) := by
    intro k
    by_cases hk : k = c.key
    · subst hk
      simpa [RateLimiter.store, Hits.queue] using hq
    · rw [store_queue_ne hk]
      simpa [RateLimiter.store] using hswept k
  have hle := counted_length_le (a := a) (l := l) (c := c)
  have hshort := h c.key
  rcases allow_cases (a := a) hlimit c with ⟨hfull, heq⟩ | ⟨hfree, heq⟩ <;> rw [heq]
  · exact hstore (by omega)
  · refine hstore ?_
    simp only [List.length_append, List.length_singleton]
    omega

theorem run_short (hlimit : 1 ≤ l.limit) (hempty : l.hits = ∅) : Short (l.after a calls) := by
  induction calls using List.reverseRecOn with
  | nil =>
    intro k
    simp only [RateLimiter.after, RateLimiter.served, List.foldl_nil, hempty, Hits.queue, AList.lookup_empty,
      Option.getD_none, List.length_nil]
    omega
  | append_singleton calls c ih =>
    rw [after_snoc]
    exact ih.allow (by rwa [(after_settings l calls).1])

theorem run_ordered (hempty : l.hits = ∅) (horder : calls.Pairwise (·.now ≤ ·.now)) (hlast : ∀ c ∈ calls, c.now ≤ last) :
    Ordered (l.after a calls) last := by
  induction calls using List.reverseRecOn generalizing last with
  | nil =>
    intro k
    simp [RateLimiter.after, RateLimiter.served, hempty, Hits.queue]
  | append_singleton calls c ih =>
    obtain ⟨hbefore, -, hc⟩ := List.pairwise_append.mp horder
    rw [after_snoc]
    exact (ih hbefore fun d hd => hc d hd c (by simp)).allow.later (hlast c (by simp))

/-! ## A refused call -/

theorem keys_popAll_le (hits : Hits) (keys : List String) : (hits.popAll keys).keys.length ≤ hits.keys.length := by
  refine ((AList.keys_nodup _).subperm fun k hk => ?_).length_le
  rw [← AList.mem_keys, ← AList.lookup_isSome, lookup_popAll] at hk
  split at hk
  · cases hk
  · exact AList.mem_keys.mp (AList.lookup_isSome.mp hk)

theorem keys_maybeGc_le : (l.maybeGc a now).hits.keys.length ≤ l.hits.keys.length := by
  unfold RateLimiter.maybeGc
  split
  · exact le_rfl
  · dsimp only
    split
    · exact Nat.zero_le _
    · exact keys_popAll_le _ _

/-- A refused call stores no new key. -/
theorem keys_store_le (h : l.hits.queue key ≠ []) : (l.store key q).hits.keys.length = l.hits.keys.length := by
  have hmem : key ∈ l.hits.keys := by
    rw [← AList.mem_keys, ← AList.lookup_isSome]
    cases hl : l.hits.lookup key with
    | none => exact absurd (by simp [Hits.queue, hl]) h
    | some q => rfl
  have hpos : 0 < l.hits.keys.length := List.length_pos_of_mem hmem
  rw [RateLimiter.store, AList.keys_insert, List.length_cons, List.length_erase_of_mem hmem]
  omega

/-- What a refused call has counted, and what it leaves behind. -/
theorem refused_call (hshort : Short l) (hordered : Ordered l now) (h : (l.allow a key now).1 = false) :
    1 ≤ l.limit ∧ ∃ oldest rest, (l.allow a key now).2.hits.queue key = oldest :: rest ∧
      ((oldest :: rest).length : Int) = l.limit ∧ l.cutoff a now < oldest ∧
      (l.allow a key now).2.hits.keys.length ≤ l.hits.keys.length := by
  have hlimit : 1 ≤ l.limit := by
    by_contra hl
    rw [allow_unlimited (by omega)] at h
    cases h
  refine ⟨hlimit, ?_⟩
  rcases allow_cases (a := a) hlimit ⟨key, now⟩ with ⟨hfull, heq⟩ | ⟨-, heq⟩ <;> rw [heq] at h
  · have hle : (counted a l ⟨key, now⟩).length ≤ (l.hits.queue key).length := counted_length_le
    have hk := hshort key
    have hfilter : counted a l ⟨key, now⟩ = ((l.maybeGc a now).hits.queue key).filter (l.cutoff a now < ·) :=
      dropWhile_eq_filter (hordered.swept.queue key)
    rw [heq, store_queue]
    cases hcounted : counted a l ⟨key, now⟩ with
    | nil =>
      rw [hcounted] at hfull
      simp only [List.length_nil] at hfull
      omega
    | cons oldest rest =>
      have hmem : oldest ∈ ((l.maybeGc a now).hits.queue key).filter (l.cutoff a now < ·) := by
        rw [← hfilter, hcounted]
        exact List.mem_cons_self
      have hne : (l.maybeGc a now).hits.queue key ≠ [] := List.ne_nil_of_mem (List.mem_of_mem_filter hmem)
      rw [hcounted] at hfull hle
      refine ⟨oldest, rest, rfl, by omega, by simpa using (List.mem_filter.mp hmem).2, ?_⟩
      rw [keys_store_le hne]
      exact keys_maybeGc_le
  · cases h

/-- A call is let through if something it looks at has left the window. -/
theorem allowed_of_left {oldest : Rat} {rest : List Rat} (hlimit : 1 ≤ l.limit) (hq : l.hits.queue key = oldest :: rest)
    (hfull : ((oldest :: rest).length : Int) = l.limit) (hleft : oldest ≤ l.cutoff a now) :
    (l.allow a key now).1 = true := by
  have hcount : ((counted a l ⟨key, now⟩).length : Int) < l.limit := by
    rw [counted]
    rcases queue_maybeGc_cases (a := a) l now key with hsame | hnone
    · rw [hsame, hq, List.dropWhile_cons_of_pos (by simpa using hleft), ← hfull]
      have hle : (rest.dropWhile (· ≤ l.cutoff a now)).length ≤ rest.length := (List.dropWhile_suffix _).length_le
      simp only [List.length_cons]
      omega
    · rw [hnone, List.dropWhile_nil, List.length_nil]
      omega
  rcases allow_cases (a := a) hlimit ⟨key, now⟩ with ⟨hno, -⟩ | ⟨-, heq⟩
  · omega
  · rw [heq]

/-- A call is refused if all it looks at still counts, and the table is not full. -/
theorem refused_of_none_left {oldest : Rat} {rest : List Rat} (hlimit : 1 ≤ l.limit)
    (hq : l.hits.queue key = oldest :: rest) (hordered : (l.hits.queue key).Pairwise (· ≤ ·))
    (hfull : ((oldest :: rest).length : Int) = l.limit) (hroom : l.hits.keys.length < l.maxKeys)
    (hcounts : l.cutoff a now < oldest) : (l.allow a key now).1 = false := by
  have hroom' : (l.hits.popAll (l.hits.stale (l.cutoff a now))).keys.length < l.maxKeys := by
    have hle := keys_popAll_le l.hits (l.hits.stale (l.cutoff a now))
    omega
  have hsame : (l.maybeGc a now).hits.queue key = l.hits.queue key := by
    rcases queue_maybeGc hroom' key with hsame | ⟨hs, -⟩
    · exact hsame
    · have hnone := filter_of_stale hs hordered
      rw [hq, List.filter_cons_of_pos (by simpa using hcounts)] at hnone
      cases hnone
  have hall : counted a l ⟨key, now⟩ = oldest :: rest := by
    rw [counted, hsame, hq, List.dropWhile_cons_of_neg (by simpa using hcounts)]
  rcases allow_cases (a := a) hlimit ⟨key, now⟩ with ⟨-, heq⟩ | ⟨hfree, -⟩
  · rw [heq]
  · rw [hall] at hfree
    omega

/-- Rounded up to whole seconds, and more than the rest of a whole one. -/
theorem trunc_add_one {w : Rat} (hw : 0 < w) :
    1 ≤ max 1 (Py.trunc w + 1) ∧ w < (max 1 (Py.trunc w + 1) : Int) ∧ (max 1 (Py.trunc w + 1) : Int) ≤ w + 1 := by
  have htrunc : Py.trunc w = w.floor := if_pos hw.le
  have hnonneg : 0 ≤ w.floor := Rat.le_floor_iff.mpr (by exact_mod_cast hw.le)
  rw [htrunc, max_eq_right (by omega)]
  refine ⟨by omega, ?_, ?_⟩
  · exact_mod_cast Rat.lt_floor_add_one w
  · push_cast
    have hfloor := Rat.floor_le w
    linarith

theorem retryAfter_cons {oldest : Rat} {rest : List Rat} (hq : l.hits.queue key = oldest :: rest) :
    l.retryAfter .exact key now = max 1 (Py.trunc (oldest + l.window - now) + 1) := by
  rw [RateLimiter.retryAfter, hq]
  rfl

/-- What is promised about `l`, the limiter that has refused `key` at `now`. -/
structure Promise (l : RateLimiter) (window : Rat) (key : String) (now oldest : Rat) : Prop where
  one_le : 1 ≤ l.retryAfter .exact key now
  le_wait : l.retryAfter .exact key now ≤ (oldest + window - now) + 1
  then_allowed : (l.allow .exact key (now + l.retryAfter .exact key now)).1 = true
  till_then_refused : ∀ t, now ≤ t → t < oldest + window → (l.allow .exact key t).1 = false

theorem promise_of_refused (hshort : Short l) (hordered : Ordered l now) (hfew : l.hits.keys.length < l.maxKeys)
    (hrefused : (l.allow .exact key now).1 = false) : ∃ oldest rest,
      (l.allow .exact key now).2.hits.queue key = oldest :: rest ∧ (∀ t ∈ rest, oldest ≤ t) ∧
      Promise (l.allow .exact key now).2 l.window key now oldest := by
  obtain ⟨hlimit, oldest, rest, hq, hfull, hcounts, hkeys⟩ := refused_call hshort hordered hrefused
  have hordered' := Ordered.queue (hordered.allow (a := .exact) (c := ⟨key, now⟩)) key
  obtain ⟨hsame, hwindow, hmax⟩ := allow_settings (a := .exact) (l := l) key now
  refine ⟨oldest, rest, hq, ?_, ?_⟩
  · have hcons : (oldest :: rest).Pairwise (· ≤ ·) := hq ▸ hordered'
    exact (List.pairwise_cons.mp hcons).1
  have hcutoff (t : Rat) : (l.allow .exact key now).2.cutoff .exact t = t - l.window := by
    rw [RateLimiter.cutoff, hwindow]
    rfl
  have hwait : 0 < oldest + l.window - now := by
    have hcounts : now - l.window < oldest := hcounts
    linarith
  obtain ⟨hone, hlt, hle⟩ := trunc_add_one hwait
  rw [← hwindow, ← retryAfter_cons hq] at hone hlt hle
  rw [hwindow] at hlt hle
  refine ⟨hone, hle, ?_, fun t _ hbefore => ?_⟩
  · refine allowed_of_left (hsame ▸ hlimit) hq (hsame ▸ hfull) ?_
    rw [hcutoff]
    linarith
  · refine refused_of_none_left (hsame ▸ hlimit) hq hordered' (hsame ▸ hfull) ?_ ?_
    · rw [hmax]
      exact lt_of_le_of_lt (Int.ofNat_le.mpr hkeys) hfew
    · rw [hcutoff]
      linarith

end

/-- **What a refused client is told**: at least one second, and at most the time
until the oldest hit that counts leaves the window and one second more. Called
again after as long, the limiter lets the key through; called at any time before
that hit has left the window, it refuses the key. -/
theorem retry_after_sound {limit maxKeys : Int} {window start now : Rat} {calls : List Call} {key : String}
    (horder : (calls ++ [Call.mk key now]).Pairwise (·.now ≤ ·.now))
    (hfew : ((RateLimiter.new limit window maxKeys start).after .exact calls).hits.keys.length < maxKeys)
    (hrefused : (((RateLimiter.new limit window maxKeys start).after .exact calls).allow .exact key now).1 = false) :
    ∃ oldest rest,
      (((RateLimiter.new limit window maxKeys start).after .exact calls).allow .exact key now).2.hits.queue key =
        oldest :: rest ∧
      (∀ t ∈ rest, oldest ≤ t) ∧
      Promise (((RateLimiter.new limit window maxKeys start).after .exact calls).allow .exact key now).2 window key now
        oldest := by
  obtain ⟨hlimit, hwindow, hmax⟩ := after_settings (a := .exact) (.new limit window maxKeys start) calls
  obtain ⟨hbefore, -, hlast⟩ := List.pairwise_append.mp horder
  have hordered : Ordered ((RateLimiter.new limit window maxKeys start).after .exact calls) now :=
    run_ordered rfl hbefore fun d hd => hlast d hd ⟨key, now⟩ (by simp)
  have hpos : 1 ≤ limit := by
    by_contra hl
    have hno : ((RateLimiter.new limit window maxKeys start).after .exact calls).limit ≤ 0 := by
      rw [hlimit]
      exact Int.lt_add_one_iff.mp (not_le.mp hl)
    rw [allow_unlimited hno] at hrefused
    cases hrefused
  obtain ⟨oldest, rest, hq, hle, hpromise⟩ := promise_of_refused (run_short hpos rfl) hordered (hmax ▸ hfew) hrefused
  rw [hwindow] at hpromise
  exact ⟨oldest, rest, hq, hle, hpromise⟩

/-- One call a minute: the second one, half a second later, is told to wait for
another 60 seconds. -/
theorem retry_after_sound_of_half : ∃ oldest rest,
    (((RateLimiter.new 1 60 10 0).after .exact [⟨"k", 0⟩]).allow .exact "k" (1 / 2)).2.hits.queue "k" = oldest :: rest ∧
    (∀ t ∈ rest, oldest ≤ t) ∧
    Promise (((RateLimiter.new 1 60 10 0).after .exact [⟨"k", 0⟩]).allow .exact "k" (1 / 2)).2 60 "k" (1 / 2) oldest :=
  retry_after_sound (by decide +kernel) (by decide +kernel) (by decide +kernel)

end Falaron.SlidingWindow
