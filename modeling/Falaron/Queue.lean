/-
Queues of which a pass takes the first `n`.

In a sweep the ones a pass is done with leave, and the others stay where they
are. So one that waits moves up as long as somebody in front of it leaves,
and it is never taken once there are `n` in front of it that stay.

In a rotation the ones a pass has taken go to the back instead, behind all who
wait and among whoever comes in. So everyone has `n` fewer in front after each
pass, and gets a turn (`Rotation.taken_within`).
-/
import Mathlib.Data.Finset.Card
import Mathlib.Data.List.Nodup
import Mathlib.Logic.Function.Iterate
import Mathlib.Order.Defs.LinearOrder

namespace Queue

variable {α : Type} {stays : α → Bool} {n : Nat} {l before after : List α} {x : α}

/-- The queue after a pass: of the first `n`, those in `stays` stay. -/
def sweep (stays : α → Bool) (n : Nat) (l : List α) : List α := (l.take n).filter stays ++ l.drop n

/-- At least `n` of those in front of `x` stay. -/
def Stuck (stays : α → Bool) (n : Nat) (x : α) (l : List α) : Prop :=
  ∃ before after, l = before ++ x :: after ∧ n ≤ before.countP stays

/-- The one `x` that is there is at some place. -/
theorem stuck_iff : Stuck stays n x l ↔ ∃ i < l.length, l[i]? = .some x ∧ n ≤ (l.take i).countP stays := by
  constructor
  · rintro ⟨before, after, rfl, hn⟩
    refine ⟨before.length, by simp, by simp, ?_⟩
    rwa [List.take_left]
  · rintro ⟨i, hi, hx, hn⟩
    have hget : l[i] = x := by rwa [List.getElem?_eq_getElem hi, Option.some.injEq] at hx
    refine ⟨l.take i, l.drop (i + 1), ?_, hn⟩
    rw [← hget, ← List.drop_eq_getElem_cons hi, List.take_append_drop]

instance [DecidableEq α] : Decidable (Stuck stays n x l) := decidable_of_iff' _ stuck_iff

theorem sweep_append (h : n ≤ before.length) :
    sweep stays n (before ++ after) = sweep stays n before ++ after := by
  simp only [sweep, List.take_append_of_le_length h, List.drop_append_of_le_length h, List.append_assoc]

theorem countP_sweep : (sweep stays n l).countP stays = l.countP stays := by
  calc (sweep stays n l).countP stays
      = (l.take n).countP stays + (l.drop n).countP stays := by
        rw [sweep, List.countP_append, List.countP_filter]
        simp only [Bool.and_self]
    _ = l.countP stays := by rw [← List.countP_append, List.take_append_drop]

theorem map_sweep {β : Type} {f : β → α} {l : List β} :
    (sweep (fun b => stays (f b)) n l).map f = sweep stays n (l.map f) := by
  rw [sweep, sweep, List.map_append, ← List.map_take, ← List.map_drop, List.filter_map]
  rfl

/-- What leaves is what the pass takes and does not stay. -/
theorem sweep_eq_filter [DecidableEq α] (h : l.Nodup) :
    sweep stays n l = l.filter fun a => a ∉ l.take n || stays a := by
  have hdis : ∀ a ∈ l.drop n, a ∉ l.take n := by
    rw [← List.take_append_drop n l] at h
    exact fun a ha ha' => (List.nodup_append.mp h).2.2 a ha' a ha rfl
  calc sweep stays n l
      = (l.take n ++ l.drop n).filter fun a => a ∉ l.take n || stays a := by
        rw [List.filter_append, sweep]
        congr 1
        · exact List.filter_congr fun a ha => by simp [ha]
        · exact (List.filter_eq_self.mpr fun a ha => by simp [hdis a ha]).symm
    _ = l.filter fun a => a ∉ l.take n || stays a := by rw [List.take_append_drop]

/-- A queue with fewer than `n` that stay gets shorter, as long as a pass does not take all of it. -/
theorem length_sweep_lt (h : l.countP stays < n) (hn : n ≤ l.length) : (sweep stays n l).length < l.length := by
  have htake : (l.take n).countP stays ≤ l.countP stays := (List.take_sublist n l).countP_le
  have hlen : (sweep stays n l).length = (l.take n).countP stays + (l.length - n) := by
    rw [sweep, List.length_append, List.length_drop, List.countP_eq_length_filter]
  omega

/-- Who has fewer than `n` in front of it that stay is taken, after at most as many passes as there
are in front of it. -/
theorem taken (x : α) (after : List α) (h : before.countP stays < n) :
    ∃ k ≤ before.length, x ∈ ((sweep stays n)^[k] (before ++ x :: after)).take n := by
  induction hlen : before.length using Nat.strongRecOn generalizing before with
  | _ len ih =>
    subst hlen
    by_cases hn : before.length < n
    · refine ⟨0, Nat.zero_le _, ?_⟩
      simp only [Function.iterate_zero, id_eq]
      obtain ⟨m, hm⟩ : ∃ m, n - before.length = m + 1 := ⟨n - before.length - 1, by omega⟩
      rw [List.take_append, hm, List.take_succ_cons]
      exact List.mem_append_right _ List.mem_cons_self
    · have hlt : (sweep stays n before).length < before.length := length_sweep_lt h (by omega)
      obtain ⟨k, hk, hx⟩ := ih _ hlt (by rwa [countP_sweep]) rfl
      refine ⟨k + 1, by omega, ?_⟩
      rw [Function.iterate_succ_apply, sweep_append (by omega)]
      exact hx

theorem Stuck.sweep (h : Stuck stays n x l) : Stuck stays n x (sweep stays n l) := by
  obtain ⟨before, after, rfl, hn⟩ := h
  have hle : before.countP stays ≤ before.length := List.countP_le_length
  refine ⟨Queue.sweep stays n before, after, sweep_append (by omega), ?_⟩
  rw [countP_sweep]
  exact hn

/-- Who is stuck is not taken. -/
theorem Stuck.not_mem_take (h : Stuck stays n x l) (hl : l.Nodup) : x ∉ l.take n := by
  obtain ⟨before, after, rfl, hn⟩ := h
  have hle : before.countP stays ≤ before.length := List.countP_le_length
  rw [List.take_append_of_le_length (by omega)]
  intro hx
  have hdis := (List.nodup_append.mp hl).2.2
  exact hdis x (List.mem_of_mem_take hx) x List.mem_cons_self rfl

/-! ## Rotations -/

/-- Passes that take those who have waited longest: `waiting k` are there at
the pass `k`, since `stamp k`, and it takes `taken k`. -/
structure Rotation {τ : Type} [LinearOrder τ] (n : Nat) (waiting taken : Nat → Finset α) (stamp : Nat → α → τ) :
    Prop where
  waits : ∀ k, taken k ⊆ waiting k
  first : ∀ k, ∀ x ∈ waiting k, x ∉ taken k → n ≤ (taken k).card ∧ ∀ y ∈ taken k, stamp k y ≤ stamp k x
  back : ∀ k, ∀ y ∈ waiting (k + 1), (y ∈ waiting k ∧ y ∉ taken k ∧ stamp (k + 1) y = stamp k y) ∨
    ∀ z ∈ waiting k, stamp k z < stamp (k + 1) y

section

variable {τ : Type} [LinearOrder τ] [DecidableEq α] {waiting taken : Nat → Finset α} {stamp : Nat → α → τ}
  {k m : Nat}

/-- Those who have waited as long as `x`. -/
def ahead (waiting : Nat → Finset α) (stamp : Nat → α → τ) (k : Nat) (x : α) : Finset α :=
  (waiting k).filter fun y => y ≠ x ∧ stamp k y ≤ stamp k x

theorem card_ahead_lt (hx : x ∈ waiting k) : (ahead waiting stamp k x).card < (waiting k).card := by
  refine Finset.card_lt_card ⟨Finset.filter_subset _ _, fun hsub => ?_⟩
  exact (Finset.mem_filter.mp (hsub hx)).2.1 rfl

namespace Rotation

variable (h : Rotation n waiting taken stamp)

include h

/-- All who are taken before `x` have waited as long. -/
theorem taken_ahead (hx : x ∈ waiting k) (hn : x ∉ taken k) : taken k ⊆ ahead waiting stamp k x := by
  intro y hy
  refine Finset.mem_filter.mpr ⟨h.waits k hy, ?_, (h.first k x hx hn).2 y hy⟩
  rintro rfl
  exact hn hy

/-- A pass that does not take `x` takes `n` who were ahead of it, and they are not ahead any more. -/
theorem card_ahead_step (hx : x ∈ waiting k) (hn : x ∉ taken k) (hs : stamp (k + 1) x = stamp k x) :
    (ahead waiting stamp (k + 1) x).card + n ≤ (ahead waiting stamp k x).card := by
  have hstays : ∀ y ∈ ahead waiting stamp (k + 1) x, y ∈ ahead waiting stamp k x ∧ y ∉ taken k := by
    intro y hy
    obtain ⟨hwait, hne, hle⟩ := Finset.mem_filter.mp hy
    rcases h.back k y hwait with ⟨hwait', hnot, hsame⟩ | hback
    · rw [hs, hsame] at hle
      exact ⟨Finset.mem_filter.mpr ⟨hwait', hne, hle⟩, hnot⟩
    · rw [hs] at hle
      exact absurd (hback x hx) (not_lt.mpr hle)
  have hdis : Disjoint (ahead waiting stamp (k + 1) x) (taken k) :=
    Finset.disjoint_left.mpr fun y hy => (hstays y hy).2
  have hsub : ahead waiting stamp (k + 1) x ∪ taken k ⊆ ahead waiting stamp k x :=
    Finset.union_subset (fun y hy => (hstays y hy).1) (h.taken_ahead hx hn)
  have hcard := Finset.card_le_card hsub
  rw [Finset.card_union_of_disjoint hdis] at hcard
  have hfull : n ≤ (taken k).card := (h.first k x hx hn).1
  omega

theorem card_ahead_run (hx : ∀ j < m, x ∈ waiting (k + j)) (hn : ∀ j < m, x ∉ taken (k + j))
    (hs : ∀ j, j + 1 < m → stamp (k + j + 1) x = stamp (k + j) x) : n * m ≤ (ahead waiting stamp k x).card := by
  induction m generalizing k with
  | zero => exact Nat.zero_le _
  | succ m ih =>
    have hx₀ : x ∈ waiting k := hx 0 (Nat.succ_pos m)
    have hn₀ : x ∉ taken k := hn 0 (Nat.succ_pos m)
    rcases Nat.eq_zero_or_pos m with rfl | hm
    · have hcard := Finset.card_le_card (h.taken_ahead hx₀ hn₀)
      have hfull : n ≤ (taken k).card := (h.first k x hx₀ hn₀).1
      omega
    · have hstep := h.card_ahead_step hx₀ hn₀ (hs 0 (by omega))
      have hrest : n * m ≤ (ahead waiting stamp (k + 1) x).card := by
        refine ih (fun j hj => ?_) (fun j hj => ?_) fun j hj => ?_
        · rw [Nat.add_right_comm]
          exact hx (j + 1) (by omega)
        · rw [Nat.add_right_comm]
          exact hn (j + 1) (by omega)
        · rw [Nat.add_right_comm k 1 j]
          exact hs (j + 1) (by omega)
      rw [Nat.mul_succ]
      omega

/-- **Nobody is starved.** Who waits through as many passes as it takes to go
through all who wait is taken by one of them, if nothing else moves it back. -/
theorem taken_within (hx₀ : x ∈ waiting k) (hcard : (waiting k).card ≤ n * m)
    (hx : ∀ j < m, x ∈ waiting (k + j))
    (hs : ∀ j, j + 1 < m → x ∉ taken (k + j) → stamp (k + j + 1) x = stamp (k + j) x) :
    ∃ j < m, x ∈ taken (k + j) := by
  by_contra hnone
  simp only [not_exists, not_and] at hnone
  have hrun : n * m ≤ (ahead waiting stamp k x).card :=
    h.card_ahead_run hx hnone fun j hj => hs j hj (hnone j (by omega))
  have hlt : (ahead waiting stamp k x).card < (waiting k).card := card_ahead_lt hx₀
  omega

end Rotation

end

end Queue
