/-
The rate limiter that lives in the process.

Each key has a queue with the times of the calls that were let through. A call
drops what has left the window from the front of its own queue; what other
keys keep beyond their window is swept now and then, and a table that stays
full is emptied. As long as the table could not fill up with live keys, all
that can be told from outside is the rule of the sliding window
(`sliding_window`).

Times are rationals, and a difference of two of them may be rounded: the
floats of the code are one instance, exact arithmetic another one.
-/
import Mathlib.Data.List.AList
import Falaron.Py.Number

namespace Falaron.SlidingWindow

/-- How the difference of two times is rounded. -/
structure Rounding where
  round : Rat → Rat
  mono : Monotone round

def Rounding.exact : Rounding := ⟨id, monotone_id⟩

def Rounding.doubles : Rounding := ⟨Py.nearest, Py.nearest_mono⟩

abbrev Hits := AList fun _ : String => List Rat

structure RateLimiter where
  limit : Int
  window : Rat
  maxKeys : Int
  hits : Hits
  lastGc : Rat

/-- One call of `allow`. -/
structure Call where
  key : String
  now : Rat
  deriving DecidableEq, Repr

def Hits.queue (hits : Hits) (key : String) : List Rat := (hits.lookup key).getD []

/-- `not q or q[-1] <= cutoff` -/
def isStale (cutoff : Rat) (q : List Rat) : Bool :=
  match q.getLast? with
  | none => true
  | some t => t ≤ cutoff

def Hits.stale (hits : Hits) (cutoff : Rat) : List String := (hits.entries.filter fun e => isStale cutoff e.2).map (·.1)

/-- `for k in ks: d.pop(k, None)` -/
def Hits.popAll (hits : Hits) (keys : List String) : Hits := keys.foldl (fun h k => h.erase k) hits

namespace RateLimiter

def new (limit : Int) (window : Rat) (maxKeys : Int) (now : Rat) : RateLimiter := ⟨limit, window, maxKeys, ∅, now⟩

variable (a : Rounding)

def cutoff (l : RateLimiter) (now : Rat) : Rat := a.round (now - l.window)

/-- `_maybe_gc` -/
def maybeGc (l : RateLimiter) (now : Rat) : RateLimiter :=
  if a.round (now - l.lastGc) < 60 ∧ l.hits.keys.length < l.maxKeys then l
  else
    let hits := l.hits.popAll (l.hits.stale (l.cutoff a now))
    { l with lastGc := now, hits := if l.maxKeys ≤ hits.keys.length then ∅ else hits }

/-- `self._hits[key] = q` -/
def store (l : RateLimiter) (key : String) (q : List Rat) : RateLimiter := { l with hits := l.hits.insert key q }

def allow (l : RateLimiter) (key : String) (now : Rat) : Bool × RateLimiter :=
  if l.limit ≤ 0 then (true, l)
  else
    let l := l.maybeGc a now
    let q := (l.hits.queue key).dropWhile (· ≤ l.cutoff a now)
    if l.limit ≤ q.length then (false, l.store key q)
    else (true, l.store key (q ++ [now]))

def retryAfter (l : RateLimiter) (key : String) (now : Rat) : Int :=
  match l.hits.queue key with
  | [] => 0
  | t :: _ => max 1 (Py.trunc (a.round (a.round (t + l.window) - now)) + 1)

/-- One call, and the calls let through so far. -/
def serve (s : RateLimiter × List Call) (c : Call) : RateLimiter × List Call :=
  let (ok, l) := s.1.allow a c.key c.now
  (l, if ok then s.2 ++ [c] else s.2)

def served (l : RateLimiter) (calls : List Call) : RateLimiter × List Call := calls.foldl (serve a) (l, [])

/-- The limiter after some calls. -/
def after (l : RateLimiter) (calls : List Call) : RateLimiter := (l.served a calls).1

/-- The calls let through. -/
def admitted (l : RateLimiter) (calls : List Call) : List Call := (l.served a calls).2

end RateLimiter

/-! ## The specification -/

/-- The calls that count at a time. -/
def inWindow (cutoff now : Rat) (log : List Call) : List Call := log.filter fun c => cutoff < c.now ∧ c.now ≤ now

/-- The times of a key's calls. -/
def timesOf (key : String) (log : List Call) : List Rat := (log.filter (·.key = key)).map (·.now)

/-- How many keys have calls that count. -/
def activeKeys (cutoff now : Rat) (log : List Call) : Nat := ((inWindow cutoff now log).map (·.key)).dedup.length

/-! ## Queues -/

section

variable {cutoff now : Rat} {q : List Rat} {hits : Hits} {key k : String} {keys : List String}

/-- In the order of time, what is dropped from the front is what is too old. -/
theorem dropWhile_eq_filter (h : q.Pairwise (· ≤ ·)) : q.dropWhile (· ≤ cutoff) = q.filter (cutoff < ·) := by
  induction q with
  | nil => rfl
  | cons t q ih =>
    rw [List.pairwise_cons] at h
    by_cases ht : t ≤ cutoff
    · rw [List.dropWhile_cons_of_pos (by simpa using ht), List.filter_cons_of_neg (by simpa using ht), ih h.2]
    · have hall : ∀ u ∈ t :: q, cutoff < u := by
        intro u hu
        rcases List.mem_cons.mp hu with rfl | hu
        · exact not_le.mp ht
        · exact (not_le.mp ht).trans_le (h.1 u hu)
      rw [List.dropWhile_cons_of_neg (by simpa using ht), List.filter_eq_self.mpr (by simpa using hall)]

theorem isStale_false (h : isStale cutoff q = false) : ∃ t ∈ q, cutoff < t := by
  unfold isStale at h
  split at h
  · cases h
  · next t ht => exact ⟨t, List.mem_of_getLast? ht, by simpa using h⟩

/-- Nothing in a stale queue counts any more. -/
theorem filter_of_stale (h : isStale cutoff q = true) (hq : q.Pairwise (· ≤ ·)) : q.filter (cutoff < ·) = [] := by
  rw [List.filter_eq_nil_iff]
  intro u hu
  rcases List.eq_nil_or_concat q with rfl | ⟨q', t, rfl⟩
  · cases hu
  · simp only [isStale, List.concat_eq_append, List.getLast?_append, List.getLast?_singleton, Option.some_or,
      decide_eq_true_eq] at h
    simp only [List.concat_eq_append, List.mem_append, List.mem_singleton, List.pairwise_append] at hu hq
    rcases hu with hu | rfl
    · simpa using (hq.2.2 u hu t rfl).trans h
    · simpa using h

theorem lookup_popAll : (hits.popAll keys).lookup k = if k ∈ keys then none else hits.lookup k := by
  induction keys generalizing hits with
  | nil => simp [Hits.popAll]
  | cons x keys ih =>
    have hstep : hits.popAll (x :: keys) = Hits.popAll (hits.erase x) keys := rfl
    rw [hstep, ih]
    by_cases hx : k = x
    · subst hx
      simp [AList.lookup_erase]
    · rw [AList.lookup_erase_ne hx]
      simp [hx]

theorem mem_stale : k ∈ hits.stale cutoff ↔ ∃ q, hits.lookup k = some q ∧ isStale cutoff q = true := by
  simp only [Hits.stale, List.mem_map, List.mem_filter]
  constructor
  · rintro ⟨⟨k', q⟩, ⟨he, hs⟩, rfl⟩
    exact ⟨q, AList.mem_lookup_iff.mpr he, hs⟩
  · rintro ⟨q, he, hs⟩
    exact ⟨⟨k, q⟩, ⟨AList.mem_lookup_iff.mp he, hs⟩, rfl⟩

/-- What the sweep leaves of a queue. -/
theorem queue_swept : (hits.popAll (hits.stale cutoff)).queue k =
    if isStale cutoff (hits.queue k) then [] else hits.queue k := by
  rw [Hits.queue, lookup_popAll, Hits.queue]
  cases hl : hits.lookup k with
  | none => simp
  | some q =>
    simp only [mem_stale, hl, Option.some.injEq, exists_eq_left', Option.getD_some]
    split <;> rfl

/-- A key that is left has a queue that is not stale. -/
theorem not_stale_of_mem (h : k ∈ (hits.popAll (hits.stale cutoff)).keys) : isStale cutoff (hits.queue k) = false := by
  rw [← AList.mem_keys, ← AList.lookup_isSome, lookup_popAll] at h
  split at h
  · cases h
  · next hno =>
    obtain ⟨q, hq⟩ := Option.isSome_iff_exists.mp h
    rw [Hits.queue, hq, Option.getD_some]
    exact Bool.eq_false_iff.mpr fun hs => hno (mem_stale.mpr ⟨q, hq, hs⟩)

theorem keys_insert_le : (AList.insert key q hits).keys.length ≤ hits.keys.length + 1 := by
  rw [AList.keys_insert, List.length_cons]
  exact Nat.add_le_add_right (List.length_erase_le) 1

end

/-! ## One call -/

section

variable {a : Rounding} {l : RateLimiter} {log : List Call} {now last : Rat} {key k : String} {q : List Rat} {c : Call}

@[simp] theorem store_cutoff : (l.store key q).cutoff a now = l.cutoff a now := rfl

@[simp] theorem store_queue : (l.store key q).hits.queue key = q := by simp [RateLimiter.store, Hits.queue]

theorem store_queue_ne (h : k ≠ key) : (l.store key q).hits.queue k = l.hits.queue k := by
  rw [Hits.queue, RateLimiter.store, AList.lookup_insert_ne h, Hits.queue]

theorem cutoff_mono (h : last ≤ now) : l.cutoff a last ≤ l.cutoff a now := a.mono (sub_le_sub_right h l.window)

@[simp] theorem maybeGc_limit : (l.maybeGc a now).limit = l.limit := by
  unfold RateLimiter.maybeGc
  split <;> rfl

@[simp] theorem maybeGc_window : (l.maybeGc a now).window = l.window := by
  unfold RateLimiter.maybeGc
  split <;> rfl

@[simp] theorem maybeGc_maxKeys : (l.maybeGc a now).maxKeys = l.maxKeys := by
  unfold RateLimiter.maybeGc
  split <;> rfl

@[simp] theorem maybeGc_cutoff (now t : Rat) : (l.maybeGc a now).cutoff a t = l.cutoff a t := by
  rw [RateLimiter.cutoff, maybeGc_window, RateLimiter.cutoff]

/-- There is always room for one more key. -/
theorem maybeGc_room (h : 1 ≤ l.maxKeys) (now : Rat) : (l.maybeGc a now).hits.keys.length < l.maxKeys := by
  unfold RateLimiter.maybeGc
  split
  · next hroom => exact hroom.2
  · dsimp only
    split
    · simp only [AList.keys_empty, List.length_nil]
      omega
    · next hroom => exact not_le.mp hroom

/-- What the sweep and the emptying of a full table leave of a queue. -/
theorem queue_maybeGc_cases (l : RateLimiter) (now : Rat) (k : String) :
    (l.maybeGc a now).hits.queue k = l.hits.queue k ∨ (l.maybeGc a now).hits.queue k = [] := by
  unfold RateLimiter.maybeGc
  split
  · exact .inl rfl
  · dsimp only
    split
    · exact .inr rfl
    · rw [queue_swept]
      split
      · exact .inr rfl
      · exact .inl rfl

/-- What the sweep leaves if the table is not emptied. -/
theorem queue_maybeGc (hroom : (l.hits.popAll (l.hits.stale (l.cutoff a now))).keys.length < l.maxKeys) (k : String) :
    (l.maybeGc a now).hits.queue k = l.hits.queue k ∨
      isStale (l.cutoff a now) (l.hits.queue k) = true ∧ (l.maybeGc a now).hits.queue k = [] := by
  unfold RateLimiter.maybeGc
  split
  · exact .inl rfl
  · dsimp only
    rw [if_neg (not_le.mpr hroom), queue_swept]
    split
    · next hs => exact .inr ⟨hs, rfl⟩
    · exact .inl rfl

/-- The queue a call looks at: what counts of it. -/
def counted (a : Rounding) (l : RateLimiter) (c : Call) : List Rat :=
  ((l.maybeGc a c.now).hits.queue c.key).dropWhile (· ≤ l.cutoff a c.now)

theorem allow_unlimited (h : l.limit ≤ 0) (key : String) (now : Rat) : l.allow a key now = (true, l) := if_pos h

/-- What a call does. -/
theorem allow_cases (hlimit : 1 ≤ l.limit) (c : Call) :
    l.limit ≤ (counted a l c).length ∧
      l.allow a c.key c.now = (false, (l.maybeGc a c.now).store c.key (counted a l c)) ∨
    (counted a l c).length < l.limit ∧
      l.allow a c.key c.now = (true, (l.maybeGc a c.now).store c.key (counted a l c ++ [c.now])) := by
  have hpos : ¬ l.limit ≤ 0 := by omega
  simp only [RateLimiter.allow, if_neg hpos, maybeGc_limit, maybeGc_cutoff]
  by_cases hfull : l.limit ≤ (counted a l c).length
  · exact .inl ⟨hfull, if_pos hfull⟩
  · exact .inr ⟨not_le.mp hfull, if_neg hfull⟩

/-- The table stays within its bound, whatever is called. -/
theorem allow_bounded (hmax : 1 ≤ l.maxKeys) (h : l.hits.keys.length ≤ l.maxKeys) (key : String) (now : Rat) :
    (l.allow a key now).2.hits.keys.length ≤ l.maxKeys := by
  have hroom := maybeGc_room (a := a) hmax now
  unfold RateLimiter.allow
  split
  · exact h
  · dsimp only
    split
    · refine le_trans (Int.ofNat_le.mpr keys_insert_le) ?_
      push_cast
      omega
    · refine le_trans (Int.ofNat_le.mpr keys_insert_le) ?_
      push_cast
      omega

end

/-! ## Runs -/

/-- The queues are in the order of time, and not ahead of it. -/
def Ordered (l : RateLimiter) (last : Rat) : Prop := ∀ k, (l.hits.queue k ++ [last]).Pairwise (· ≤ ·)

/-- The queues know which of the admitted calls count, now and from now on. -/
structure Tracks (a : Rounding) (l : RateLimiter) (log : List Call) (last : Rat) : Prop where
  ordered : Ordered l last
  past : ∀ c ∈ log, c.now ≤ last
  counts : ∀ now, last ≤ now → ∀ k,
    (l.hits.queue k).filter (l.cutoff a now < ·) = timesOf k (inWindow (l.cutoff a now) now log)

section

variable {a : Rounding} {l : RateLimiter} {log log' : List Call} {now last : Rat} {key k : String} {q : List Rat} {c : Call}

theorem Ordered.later (h : Ordered l last) (hle : last ≤ now) : Ordered l now := by
  intro k
  have hk := h k
  simp only [List.pairwise_append, List.mem_singleton, forall_eq] at hk ⊢
  exact ⟨hk.1, List.pairwise_singleton .., fun t ht => (hk.2.2 t ht).trans hle⟩

theorem Ordered.queue (h : Ordered l last) (k : String) : (l.hits.queue k).Pairwise (· ≤ ·) :=
  (List.pairwise_append.mp (h k)).1

theorem Ordered.swept (h : Ordered l last) : Ordered (l.maybeGc a now) last := by
  intro k
  rcases queue_maybeGc_cases (a := a) l now k with hq | hq <;> rw [hq]
  · exact h k
  · exact List.pairwise_singleton ..

theorem Ordered.store (h : Ordered l last) (hq : (q ++ [last]).Pairwise (· ≤ ·)) : Ordered (l.store key q) last := by
  intro k
  by_cases hk : k = key
  · subst hk
    rwa [store_queue]
  · rw [store_queue_ne hk]
    exact h k

/-- What counts of a queue is in order too. -/
theorem Ordered.counted (h : Ordered l c.now) : (counted a l c ++ [c.now]).Pairwise (· ≤ ·) :=
  (h.swept (a := a) c.key).sublist (((List.dropWhile_suffix _).sublist).append_right _)

theorem Ordered.allow (h : Ordered l c.now) : Ordered (l.allow a c.key c.now).2 c.now := by
  by_cases hlimit : 1 ≤ l.limit
  · rcases allow_cases (a := a) hlimit c with ⟨-, heq⟩ | ⟨-, heq⟩
    · rw [heq]
      exact h.swept.store h.counted
    · rw [heq]
      refine h.swept.store (List.pairwise_append.mpr ⟨h.counted, List.pairwise_singleton .., fun u hu v hv => ?_⟩)
      rw [List.mem_singleton.mp hv]
      rcases List.mem_append.mp hu with hu | hu
      · exact (List.pairwise_append.mp h.counted).2.2 u hu c.now (by simp)
      · exact (List.mem_singleton.mp hu).le
  · rw [allow_unlimited (by omega)]
    exact h

theorem Tracks.later (h : Tracks a l log last) (hle : last ≤ now) : Tracks a l log now where
  ordered := h.ordered.later hle
  past c hc := (h.past c hc).trans hle
  counts t ht k := h.counts t (hle.trans ht) k

/-- A queue that is not stale is that of an active key. -/
theorem Tracks.active (h : Tracks a l log now) (hk : isStale (l.cutoff a now) (l.hits.queue k) = false) :
    k ∈ ((inWindow (l.cutoff a now) now log).map (·.key)).dedup := by
  obtain ⟨t, ht, hlt⟩ := isStale_false hk
  have hmem : t ∈ timesOf k (inWindow (l.cutoff a now) now log) := by
    rw [← h.counts now le_rfl k, List.mem_filter]
    exact ⟨ht, by simpa using hlt⟩
  obtain ⟨c, hc, -⟩ := List.mem_map.mp hmem
  obtain ⟨hc, hkey⟩ := List.mem_filter.mp hc
  rw [List.mem_dedup, List.mem_map]
  exact ⟨c, hc, by simpa using hkey⟩

/-- With few active keys the sweep is all that happens, and it does not show. -/
theorem Tracks.swept (h : Tracks a l log now) (hfew : activeKeys (l.cutoff a now) now log < l.maxKeys) :
    Tracks a (l.maybeGc a now) log now := by
  have hsub : (l.hits.popAll (l.hits.stale (l.cutoff a now))).keys ⊆
      ((inWindow (l.cutoff a now) now log).map (·.key)).dedup := fun k hk => h.active (not_stale_of_mem hk)
  have hroom : (l.hits.popAll (l.hits.stale (l.cutoff a now))).keys.length < l.maxKeys := by
    have hle := ((AList.keys_nodup _).subperm hsub).length_le
    rw [activeKeys] at hfew
    omega
  refine ⟨h.ordered.swept, h.past, fun t ht k => ?_⟩
  rw [maybeGc_cutoff, ← h.counts t ht k]
  rcases queue_maybeGc hroom k with hq | ⟨hs, hq⟩
  · rw [hq]
  · -- what was too old then is too old now
    have hnone := filter_of_stale hs (h.ordered.queue k)
    rw [hq, List.filter_nil, eq_comm, List.filter_eq_nil_iff]
    intro u hu hlt
    have hold := List.filter_eq_nil_iff.mp hnone u hu
    simp only [decide_eq_true_eq, not_lt] at hlt hold
    exact absurd hlt (not_lt.mpr (hold.trans (cutoff_mono ht)))

theorem timesOf_snoc {cutoff : Rat} : timesOf k (inWindow cutoff now (log ++ [c])) =
    timesOf k (inWindow cutoff now log) ++ if c.key = k ∧ cutoff < c.now ∧ c.now ≤ now then [c.now] else [] := by
  simp only [timesOf, inWindow, List.filter_append, List.map_append, List.append_cancel_left_eq, List.filter_cons,
    List.filter_nil]
  by_cases hw : cutoff < c.now ∧ c.now ≤ now
  · by_cases hk : c.key = k <;> simp [hw, hk]
  · by_cases hk : c.key = k <;> simp [hw]

/-- A queue that tells what counts of its key can be stored. -/
theorem Tracks.counts_store (h : Tracks a l log last)
    (hkey : ∀ t, last ≤ t → q.filter (l.cutoff a t < ·) = timesOf key (inWindow (l.cutoff a t) t log'))
    (hrest : ∀ k, k ≠ key → ∀ cutoff t, timesOf k (inWindow cutoff t log') = timesOf k (inWindow cutoff t log))
    (t : Rat) (ht : last ≤ t) (k : String) : ((l.store key q).hits.queue k).filter ((l.store key q).cutoff a t < ·) =
      timesOf k (inWindow ((l.store key q).cutoff a t) t log') := by
  by_cases hk : k = key
  · subst hk
    rw [store_queue, store_cutoff]
    exact hkey t ht
  · rw [store_queue_ne hk, store_cutoff, hrest k hk]
    exact h.counts t ht k

/-- A call with few active keys is let through by the rule of the sliding window. -/
theorem Tracks.allow (h : Tracks a l log c.now) (hlimit : 1 ≤ l.limit)
    (hfew : activeKeys (l.cutoff a c.now) c.now log < l.maxKeys) :
    ((l.allow a c.key c.now).1 = true ↔
      (timesOf c.key (inWindow (l.cutoff a c.now) c.now log)).length < l.limit) ∧
    Tracks a (l.allow a c.key c.now).2 (if (l.allow a c.key c.now).1 then log ++ [c] else log) c.now := by
  have hs := h.swept hfew
  have hordered : Ordered (l.allow a c.key c.now).2 c.now := h.ordered.allow
  have hcounted : counted a l c = ((l.maybeGc a c.now).hits.queue c.key).filter (l.cutoff a c.now < ·) :=
    dropWhile_eq_filter (hs.ordered.queue c.key)
  have htimes : counted a l c = timesOf c.key (inWindow (l.cutoff a c.now) c.now log) := by
    rw [hcounted, ← maybeGc_cutoff c.now, hs.counts c.now le_rfl]
  have hlater (t : Rat) (ht : c.now ≤ t) : (counted a l c).filter (l.cutoff a t < ·) =
      timesOf c.key (inWindow (l.cutoff a t) t log) := by
    rw [← maybeGc_cutoff c.now, ← hs.counts t ht, hcounted, maybeGc_cutoff, List.filter_filter]
    refine List.filter_congr fun u _ => ?_
    have hle := cutoff_mono (a := a) (l := l) ht
    simp only [Bool.and_eq_left_iff_imp, decide_eq_true_eq]
    exact hle.trans_lt
  rcases allow_cases hlimit c with ⟨hfull, heq⟩ | ⟨hfree, heq⟩
  · rw [heq] at hordered ⊢
    rw [← htimes]
    refine ⟨by simpa using hfull, hordered, hs.past, hs.counts_store (fun t ht => ?_) fun _ _ _ _ => rfl⟩
    rw [maybeGc_cutoff]
    exact hlater t ht
  · rw [heq] at hordered ⊢
    rw [← htimes]
    refine ⟨by simpa using hfree, hordered, fun d hd => ?_, hs.counts_store (fun t ht => ?_) fun k hk cutoff t => ?_⟩
    · rcases List.mem_append.mp hd with hd | hd
      · exact hs.past d hd
      · rw [List.mem_singleton.mp hd]
    · rw [if_pos rfl, timesOf_snoc, List.filter_append, maybeGc_cutoff, hlater t ht]
      simp [List.filter_cons, ht]
    · rw [if_pos rfl, timesOf_snoc, if_neg (fun hc => hk hc.1.symm), List.append_nil]

theorem allow_settings (key : String) (now : Rat) : (l.allow a key now).2.limit = l.limit ∧
    (l.allow a key now).2.window = l.window ∧ (l.allow a key now).2.maxKeys = l.maxKeys := by
  unfold RateLimiter.allow
  split
  · exact ⟨rfl, rfl, rfl⟩
  · dsimp only
    split <;> simp [RateLimiter.store]

variable {calls : List Call}

theorem served_snoc : l.served a (calls ++ [c]) = RateLimiter.serve a (l.served a calls) c := by
  simp [RateLimiter.served]

theorem after_snoc : l.after a (calls ++ [c]) = ((l.after a calls).allow a c.key c.now).2 := by
  rw [RateLimiter.after, served_snoc]
  rfl

theorem admitted_snoc : l.admitted a (calls ++ [c]) =
    if ((l.after a calls).allow a c.key c.now).1 then l.admitted a calls ++ [c] else l.admitted a calls := by
  rw [RateLimiter.admitted, served_snoc]
  rfl

theorem after_settings (l : RateLimiter) (calls : List Call) : (l.after a calls).limit = l.limit ∧ (l.after a calls).window = l.window ∧
    (l.after a calls).maxKeys = l.maxKeys := by
  induction calls using List.reverseRecOn with
  | nil => exact ⟨rfl, rfl, rfl⟩
  | append_singleton calls c ih =>
    rw [after_snoc]
    obtain ⟨h₁, h₂, h₃⟩ := allow_settings (a := a) (l := l.after a calls) c.key c.now
    exact ⟨h₁.trans ih.1, h₂.trans ih.2.1, h₃.trans ih.2.2⟩

theorem after_cutoff : (l.after a calls).cutoff a now = l.cutoff a now := by
  rw [RateLimiter.cutoff, (after_settings l calls).2.1, RateLimiter.cutoff]

theorem after_bounded (hmax : 1 ≤ l.maxKeys) (hempty : l.hits = ∅) : (l.after a calls).hits.keys.length ≤ l.maxKeys := by
  induction calls using List.reverseRecOn with
  | nil =>
    simp only [RateLimiter.after, RateLimiter.served, List.foldl_nil, hempty, AList.keys_empty, List.length_nil]
    omega
  | append_singleton calls c ih =>
    have hkeys : (l.after a calls).maxKeys = l.maxKeys := (after_settings l calls).2.2
    rw [after_snoc, ← hkeys]
    exact allow_bounded (hkeys ▸ hmax) (hkeys ▸ ih) c.key c.now

/-- Few keys are active at each of the calls. -/
def FewKeys (a : Rounding) (l : RateLimiter) (calls : List Call) : Prop :=
  ∀ done c, done ++ [c] <+: calls → activeKeys (l.cutoff a c.now) c.now (l.admitted a done) < l.maxKeys

theorem FewKeys.before {more : List Call} (h : FewKeys a l (calls ++ more)) : FewKeys a l calls :=
  fun done c hd => h done c (hd.trans (List.prefix_append ..))

/-- A run whose calls come in order is tracked from its last call on. -/
theorem run_tracks (hlimit : 1 ≤ l.limit) (hempty : l.hits = ∅) (horder : calls.Pairwise (·.now ≤ ·.now))
    (hfew : FewKeys a l calls) (hlast : ∀ c ∈ calls, c.now ≤ last) : Tracks a (l.after a calls) (l.admitted a calls) last := by
  induction calls using List.reverseRecOn generalizing last with
  | nil =>
    have hqueue (k : String) : (l.after a []).hits.queue k = [] := by
      simp [RateLimiter.after, RateLimiter.served, hempty, Hits.queue]
    refine ⟨fun k => ?_, nofun, fun now _ k => ?_⟩
    · rw [hqueue]
      exact List.pairwise_singleton ..
    · rw [hqueue]
      rfl
  | append_singleton calls c ih =>
    obtain ⟨hbefore, -, hc⟩ := List.pairwise_append.mp horder
    have ht : Tracks a (l.after a calls) (l.admitted a calls) c.now :=
      ih hbefore hfew.before fun d hd => hc d hd c (by simp)
    have hc := hfew calls c (List.prefix_refl _)
    rw [← after_cutoff, ← (after_settings l calls).2.2] at hc
    have hlim : 1 ≤ (l.after a calls).limit := by rwa [(after_settings l calls).1]
    rw [after_snoc, admitted_snoc]
    exact (ht.allow hlim hc).2.later (hlast c (by simp))

end

/-- **The rate limiter is a sliding window**: in a run whose calls come in order
and at none of whose calls as many keys are active as the table may hold, a call
is let through exactly when fewer than `limit` calls of its own key count; and in
every run the table holds no more than `maxKeys` keys. -/
theorem sliding_window {a : Rounding} {limit maxKeys : Int} {window start : Rat} (hlimit : 1 ≤ limit) (hmax : 1 ≤ maxKeys) :
    let l := RateLimiter.new limit window maxKeys start
    (∀ calls c, (calls ++ [c]).Pairwise (·.now ≤ ·.now) → FewKeys a l (calls ++ [c]) →
      (((l.after a calls).allow a c.key c.now).1 = true ↔
        (timesOf c.key (inWindow (a.round (c.now - window)) c.now (l.admitted a calls))).length < limit)) ∧
    ∀ calls, (l.after a calls).hits.keys.length ≤ maxKeys := by
  intro l
  refine ⟨fun calls c horder hfew => ?_, fun calls => after_bounded hmax rfl⟩
  obtain ⟨hbefore, -, hc⟩ := List.pairwise_append.mp horder
  have ht : Tracks a (l.after a calls) (l.admitted a calls) c.now :=
    run_tracks hlimit rfl hbefore hfew.before fun d hd => hc d hd c (by simp)
  have hnow := hfew calls c (List.prefix_refl _)
  rw [← after_cutoff, ← (after_settings l calls).2.2] at hnow
  have hlim : 1 ≤ (l.after a calls).limit := by rwa [(after_settings l calls).1]
  have hallow := (ht.allow hlim hnow).1
  rwa [after_cutoff, (after_settings l calls).1] at hallow

/-- The limiter of the API's users, with the floats it runs on. -/
theorem sliding_window_of_doubles :
    (∀ calls c, (calls ++ [c]).Pairwise (·.now ≤ ·.now) → FewKeys .doubles (.new 90 60 50000 0) (calls ++ [c]) →
      ((((RateLimiter.new 90 60 50000 0).after .doubles calls).allow .doubles c.key c.now).1 = true ↔
        (timesOf c.key (inWindow (Py.nearest (c.now - 60)) c.now
          ((RateLimiter.new 90 60 50000 0).admitted .doubles calls))).length < (90 : Int)) ) ∧
    ∀ calls, ((RateLimiter.new 90 60 50000 0).after .doubles calls).hits.keys.length ≤ (50000 : Int) :=
  sliding_window (a := .doubles) (by decide) (by decide)

-- a hit that is as old as the window does not count any more
example : (((RateLimiter.new 1 60 50000 0).after .exact [⟨"k", 0⟩]).allow .exact "k" 60).1 = true ∧
    (((RateLimiter.new 1 60 50000 0).after .exact [⟨"k", 0⟩]).allow .exact "k" (119 / 2)).1 = false := by
  decide +kernel

end Falaron.SlidingWindow
