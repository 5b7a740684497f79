/-
The rate limiter of the second system.

The counter of a user's requests lives in a bucket of one clock minute,
whatever window the action promises, and a bucket counts from zero again.
A request is admitted exactly when fewer than the limit came before it in its
own minute (`admitted_eq_early`): across a boundary, and over a window of
several minutes, more than the limit pass.
-/
import Mathlib.Data.List.Basic
import Falaron.Redis
import Falaron.Text

namespace Falaron.RateLimiter

structure RateLimitConfig where
  action : String
  limit : Nat
  windowS : Nat
  deriving DecidableEq, Repr

/-- `LIMITS` -/
def limits : List RateLimitConfig :=
  [⟨"order", 10, 60⟩, ⟨"deposit", 5, 60⟩, ⟨"api_request", 120, 60⟩, ⟨"bot_message", 30, 60⟩, ⟨"auth", 10, 300⟩]

/-- `RateLimitError` -/
structure RateLimitError where
  detail : String
  retryAfter : Nat
  deriving DecidableEq, Repr

/-- `n or d` -/
def orDefault (n : Option Nat) (d : Nat) : Nat :=
  match n with
  | some n => if n = 0 then d else n
  | none => d

def configOf (action : String) (limit windowS : Option Nat) : RateLimitConfig :=
  (limits.find? (·.action == action)).getD ⟨action, orDefault limit 60, orDefault windowS 60⟩

/-- The clock minute of a time in milliseconds: `int(time.time()) // 60` -/
def minute (ms : Nat) : Nat := ms / 1000 / 60

/-- `_rl_key` -/
def rlKey (action : String) (userId : Int) (window : Nat) : String :=
  "rl:" ++ action ++ ":user:" ++ toString userId ++ ":" ++ toString window

abbrev Store := Redis.Store String Nat

/-- `check_rate_limit` -/
def checkRateLimit (s : Store) (userId : Int) (action : String) (limit windowS : Option Nat := none) :
    Except RateLimitError Unit × Store :=
  let cfg := configOf action limit windowS
  let maxRequests := orDefault limit cfg.limit
  let ttl := orDefault windowS cfg.windowS
  let key := rlKey action userId (minute s.now)
  let s := s.incr key
  let count := (s.get key).getD 0
  let s := s.expire key ttl
  if maxRequests < count then
    (.error ⟨s!"Rate limit exceeded: {action} {count}/{maxRequests} per {ttl}s", ttl⟩, s)
  else (.ok (), s)

/-! ## Sequences of requests -/

/-- A request, and the milliseconds since the one before it. -/
structure Request where
  wait : Nat
  userId : Int
  action : String
  deriving DecidableEq, Repr

structure Served where
  time : Nat
  userId : Int
  action : String
  admitted : Bool
  deriving DecidableEq, Repr

/-- The requests as they are served, one after the other. -/
def serve (s : Store) : List Request → List Served
  | [] => []
  | r :: rs =>
    let (result, s') := checkRateLimit (s.wait r.wait) r.userId r.action
    ⟨s.now + r.wait, r.userId, r.action, result.isOk⟩ :: serve s' rs

/-- The times of a user's requests for an action. -/
def times (userId : Int) (action : String) (now : Nat) : List Request → List Nat
  | [] => []
  | r :: rs =>
    if r.userId = userId ∧ r.action = action then (now + r.wait) :: times userId action (now + r.wait) rs
    else times userId action (now + r.wait) rs

/-- The times with fewer than `limit` before them in their own minute; `past` are those already gone. -/
def early (limit : Nat) (past : List Nat) : List Nat → List Nat
  | [] => []
  | t :: ts =>
    if past.countP (minute · = minute t) < limit then t :: early limit (t :: past) ts
    else early limit (t :: past) ts

/-- What an action's window and limit are where nobody overrides them. -/
def config (action : String) : RateLimitConfig := configOf action none none

/-- The times at which the user's requests were admitted. -/
def admitted (userId : Int) (action : String) (log : List Served) : List Nat :=
  (log.filter fun e => e.userId = userId && e.action = action && e.admitted).map (·.time)

/-- How many of the times lie in the `seconds` from `t` on. -/
def within (t seconds : Nat) (ts : List Nat) : Nat := ts.countP fun x => t ≤ x && x < t + 1000 * seconds

/-! ## Buckets -/

theorem colon_free {n : Int} : ':' ∉ (toString n).toList := fun h =>
  (Text.int_chars h).elim (by decide) (by decide)

theorem rlKey_toList (a : String) (u : Int) (w : Nat) : (rlKey a u w).toList =
    (("rl:".toList ++ a.toList ++ ":user".toList) ++ ':' :: (toString u).toList) ++ ':' :: (toString (w : Int)).toList := by
  have hnat : toString (w : Int) = toString w := rfl
  simp [rlKey, hnat]

theorem rlKey_injective {a a' : String} {u u' : Int} {w w' : Nat} (h : rlKey a u w = rlKey a' u' w') :
    a = a' ∧ u = u' ∧ w = w' := by
  have htext := congrArg String.toList h
  rw [rlKey_toList, rlKey_toList] at htext
  obtain ⟨hfront, hw⟩ := Text.split_last colon_free colon_free htext
  obtain ⟨hfront, hu⟩ := Text.split_last colon_free colon_free hfront
  refine ⟨?_, Text.int_injective hu, Int.ofNat_inj.mp (Text.int_injective hw)⟩
  exact String.toList_injective (List.append_cancel_left (List.append_cancel_right hfront))

theorem minute_le {a b : Nat} (h : a ≤ b) : minute a ≤ minute b := by
  unfold minute
  omega

/-- The times so far, of each user and action. -/
abbrev Past := Int → String → List Nat

def Past.push (past : Past) (userId : Int) (action : String) (t : Nat) : Past := fun u a =>
  if u = userId ∧ a = action then t :: past u a else past u a

/-- The buckets of this minute and of later ones count the requests in them,
and stay to the end of their minute. -/
def Counts (s : Store) (past : Past) : Prop :=
  ∀ u a m, minute s.now ≤ m →
    (past u a).countP (minute · = m) = 0 ∧ s.find (rlKey a u m) = none ∨
    0 < (past u a).countP (minute · = m) ∧ ∃ d, 60000 * (m + 1) ≤ d + 1 ∧
      s.find (rlKey a u m) = some ⟨.text ((past u a).countP (minute · = m)), some d⟩

theorem counts_empty : Counts {} fun _ _ => [] := fun _ _ _ _ => .inl ⟨rfl, rfl⟩

section

variable {s : Store} {past : Past} {u : Int} {a : String}

theorem Counts.wait (h : Counts s past) (ms : Nat) : Counts (s.wait ms) past := by
  intro u a m hm
  have hnow : (s.wait ms).now = s.now + ms := rfl
  rw [hnow] at hm
  rcases h u a m (Nat.le_trans (minute_le (Nat.le_add_right _ _)) hm) with ⟨h0, hf⟩ | ⟨h0, d, hd, hf⟩
  · exact .inl ⟨h0, Redis.Store.find_wait_none hf⟩
  · refine .inr ⟨h0, d, hd, Redis.Store.find_wait hf ?_⟩
    simp only [Redis.Entry.live, Option.all_some, decide_eq_true_eq]
    unfold minute at hm
    omega

theorem config_window (action : String) : 60 ≤ (config action).windowS := by
  have hall : ∀ c ∈ limits, 60 ≤ c.windowS := by decide
  unfold config configOf
  cases hf : limits.find? (·.action == action) with
  | none => exact Nat.le_refl 60
  | some c => exact hall c (List.mem_of_find?_eq_some hf)

/-- A request is admitted if fewer than the limit were before it in this minute, and is counted. -/
theorem checkRateLimit_counts (h : Counts s past) :
    ((checkRateLimit s u a).1.isOk ↔ (past u a).countP (minute · = minute s.now) < (config a).limit) ∧
      (checkRateLimit s u a).2.now = s.now ∧ Counts (checkRateLimit s u a).2 (past.push u a s.now) := by
  set key := rlKey a u (minute s.now) with hkey
  set n := (past u a).countP (minute · = minute s.now) with hn
  obtain ⟨d, hincr⟩ : ∃ d, (s.incr key).find key = some ⟨.text (n + 1), d⟩ := by
    rcases h u a _ (Nat.le_refl _) with ⟨h0, hf⟩ | ⟨h0, d, -, hf⟩
    · exact ⟨none, Redis.Store.find_incr_self (.inr ⟨hf, h0, rfl⟩)⟩
    · exact ⟨some d, Redis.Store.find_incr_self (.inl hf)⟩
  have hget : ((s.incr key).get key).getD 0 = n + 1 := by simp only [Redis.Store.get, hincr, Option.getD_some]
  have hstore : (checkRateLimit s u a).2 = (s.incr key).expire key (config a).windowS := by
    simp only [checkRateLimit]
    split <;> rfl
  have hnow : (checkRateLimit s u a).2.now = s.now := by
    rw [hstore, Redis.Store.now_expire, Redis.Store.now_incr]
  refine ⟨?_, hnow, ?_⟩
  · have hlimit : orDefault none (configOf a none none).limit = (config a).limit := rfl
    simp only [checkRateLimit, ← hkey, hget, hlimit]
    by_cases hover : (config a).limit < n + 1
    · rw [if_pos hover]
      exact iff_of_false (by simp [Except.isOk, Except.toBool]) (by omega)
    · rw [if_neg hover]
      exact iff_of_true rfl (by omega)
  · intro u' a' m hm
    rw [hnow] at hm
    rw [hstore]
    by_cases hsame : (u' = u ∧ a' = a) ∧ m = minute s.now
    · obtain ⟨⟨rfl, rfl⟩, rfl⟩ := hsame
      have hpush : ((past.push u' a' s.now) u' a').countP (minute · = minute s.now) = n + 1 := by
        simp [Past.push, hn]
      rw [hpush]
      refine .inr ⟨Nat.succ_pos n, _, ?_, Redis.Store.find_expire_self hincr _⟩
      have := config_window a'
      simp only [Redis.Store.after, Redis.Store.now_incr]
      unfold minute
      omega
    · have hne : rlKey a' u' m ≠ key := fun he => by
        obtain ⟨ha, hu, hm⟩ := rlKey_injective he
        exact hsame ⟨⟨hu, ha⟩, hm⟩
      have hpush : ((past.push u a s.now) u' a').countP (minute · = m) = (past u' a').countP (minute · = m) := by
        unfold Past.push
        split
        · next hua =>
          have hmin : minute s.now ≠ m := fun he => hsame ⟨hua, he.symm⟩
          simp [hmin]
        · rfl
      rw [hpush, Redis.Store.find_expire_ne hne, Redis.Store.find_incr_ne hne]
      exact h u' a' m hm

/-- **What is admitted** of a user's requests, whoever else sends requests in between. -/
theorem admitted_eq_early (h : Counts s past) (rs : List Request) :
    admitted u a (serve s rs) = early (config a).limit (past u a) (times u a s.now rs) := by
  induction rs generalizing s past with
  | nil => rfl
  | cons r rs ih =>
    obtain ⟨hok, hnow, hcounts⟩ := checkRateLimit_counts (u := r.userId) (a := r.action) (h.wait r.wait)
    have hrest := ih hcounts
    have hclock : (s.wait r.wait).now = s.now + r.wait := rfl
    rw [hnow, hclock] at hrest
    rw [hclock] at hok
    simp only [serve, times]
    by_cases hua : r.userId = u ∧ r.action = a
    · obtain ⟨rfl, rfl⟩ := hua
      have hpush : (past.push r.userId r.action (s.now + r.wait)) r.userId r.action =
          (s.now + r.wait) :: past r.userId r.action := by simp [Past.push]
      rw [hpush] at hrest
      rw [if_pos ⟨rfl, rfl⟩, early]
      by_cases hlt : (past r.userId r.action).countP (minute · = minute (s.now + r.wait)) < (config r.action).limit
      · rw [if_pos hlt, ← hrest]
        simp [admitted, hok.mpr hlt]
      · have hno : (checkRateLimit (s.wait r.wait) r.userId r.action).1.isOk = false := by
          simpa using fun he => hlt (hok.mp he)
        rw [if_neg hlt, ← hrest]
        simp [admitted, hno]
    · have hpush : (past.push r.userId r.action (s.now + r.wait)) u a = past u a := by
        simp only [Past.push, if_neg fun he : u = r.userId ∧ a = r.action => hua ⟨he.1.symm, he.2.symm⟩]
      rw [hpush] at hrest
      rw [if_neg hua, ← hrest]
      have hskip : (decide (r.userId = u) && decide (r.action = a)) = false := by simpa using hua
      simp [admitted, hskip]

end

/-! ## What is kept -/

/-- A minute has at most the limit of early times. -/
theorem early_minute_le (limit m : Nat) (past ts : List Nat) :
    (early limit past ts).countP (minute · = m) + past.countP (minute · = m) ≤
      max limit (past.countP (minute · = m)) := by
  induction ts generalizing past with
  | nil =>
    rw [early, List.countP_nil, Nat.zero_add]
    exact Nat.le_max_right _ _
  | cons t ts ih =>
    have hnext := ih (t :: past)
    by_cases hm : minute t = m
    · have hcons : (t :: past).countP (minute · = m) = past.countP (minute · = m) + 1 := by simp [hm]
      rw [hcons] at hnext
      simp only [early, hm]
      split
      · simp only [List.countP_cons, hm, decide_true, if_true]
        omega
      · omega
    · have hcons : (t :: past).countP (minute · = m) = past.countP (minute · = m) := by simp [hm]
      rw [hcons] at hnext
      simp only [early]
      split
      · simpa [hm] using hnext
      · exact hnext

theorem early_minutes_le (limit m k : Nat) (ts : List Nat) :
    (early limit [] ts).countP (fun x => m ≤ minute x && minute x ≤ m + k) ≤ (k + 1) * limit := by
  induction k with
  | zero =>
    have hone : (fun x => decide (m ≤ minute x) && decide (minute x ≤ m + 0)) = fun x => decide (minute x = m) := by
      funext x
      rw [Bool.eq_iff_iff]
      simp only [Bool.and_eq_true, decide_eq_true_eq]
      omega
    have := early_minute_le limit m [] ts
    rw [hone]
    simpa using this
  | succ k ih =>
    have hlast := early_minute_le limit (m + (k + 1)) [] ts
    simp only [List.countP_nil, Nat.add_zero, Nat.max_zero] at hlast
    have hsplit : (early limit [] ts).countP (fun x => m ≤ minute x && minute x ≤ m + (k + 1)) ≤
        (early limit [] ts).countP (fun x => m ≤ minute x && minute x ≤ m + k) +
          (early limit [] ts).countP (minute · = m + (k + 1)) := by
      induction early limit [] ts with
      | nil => simp
      | cons x l ihl =>
        simp only [List.countP_cons, Bool.and_eq_true, decide_eq_true_eq]
        split <;> split <;> split <;> omega
    calc _ ≤ _ := hsplit
      _ ≤ (k + 1) * limit + limit := Nat.add_le_add ih hlast
      _ = (k + 1 + 1) * limit := (Nat.succ_mul _ _).symm

/-- However the requests come, a window sees at most the limit for every clock minute it can touch. -/
theorem admitted_window_le (userId : Int) (action : String) (rs : List Request) (t seconds : Nat) :
    within t seconds (admitted userId action (serve {} rs)) ≤ ((seconds + 59) / 60 + 1) * (config action).limit := by
  rw [admitted_eq_early counts_empty]
  set ts := times userId action 0 rs
  refine Nat.le_trans (List.countP_mono_left fun x _ hx => ?_)
    (early_minutes_le _ (minute t) ((seconds + 59) / 60) ts)
  simp only [Bool.and_eq_true, decide_eq_true_eq] at hx ⊢
  unfold minute
  omega

/-! ## The promise -/

section

variable (userId : Int) (action : String) (rs : List Request)

/-- No window of the action's length sees more than the limit of admitted requests. -/
def Limited : Prop :=
  ∀ t, within t (config action).windowS (admitted userId action (serve {} rs)) ≤ (config action).limit

variable {userId action rs}

/-- **The limit holds** exactly where no window has more than the limit of
requests that are, each, among the first of their own clock minute. -/
theorem limited_iff : Limited userId action rs ↔ ∀ t, within t (config action).windowS
    (early (config action).limit [] (times userId action 0 rs)) ≤ (config action).limit := by
  have hearly : admitted userId action (serve {} rs) = early (config action).limit [] (times userId action 0 rs) :=
    admitted_eq_early counts_empty rs
  rw [Limited, hearly]

/-- Ten orders at the end of a minute, and ten at the beginning of the next. -/
def boundary : List Request :=
  ⟨59000, 7, "order"⟩ :: (List.replicate 9 ⟨0, 7, "order"⟩ ++ ⟨1000, 7, "order"⟩ :: List.replicate 9 ⟨0, 7, "order"⟩)

/-- Twenty orders pass within two seconds. -/
theorem boundary_doubles_limit : ¬ Limited 7 "order" boundary := by
  intro h
  have htwenty : within 59000 60 (admitted 7 "order" (serve {} boundary)) = 20 := by
    rw [admitted_eq_early counts_empty]
    decide +kernel
  exact absurd (h 59000) (by rw [show (config "order").windowS = 60 from rfl, htwenty]; decide)

end

end Falaron.RateLimiter
