/-
A key-value store whose keys expire, as Redis keeps one.

A key holds a text or a set, and may have a deadline. Nothing deletes a key
at its deadline: from the next millisecond on, every command treats it as
missing. `SADD` and `SREM` leave the deadline of their key alone, `SREM`
drops a set with its last member, and `SADD` to a missing key starts a set
without a deadline.

A command on a key of the other kind is refused and changes nothing.
-/
import Mathlib.Logic.Function.Basic

namespace Redis

inductive Value (α : Type) where
  | text (a : α)
  | set (members : List String)
  deriving DecidableEq, Repr

structure Entry (α : Type) where
  value : Value α
  /-- The last millisecond the key is there. -/
  deadline : Option Nat := none
  deriving DecidableEq, Repr

structure Store (Key α : Type) where
  entries : Key → Option (Entry α) := fun _ => none
  now : Nat := 0

namespace Entry

variable {α : Type}

def live (e : Entry α) (now : Nat) : Bool := e.deadline.all (now ≤ ·)

/-- `e` has a deadline, and `f` has none before it. -/
def Outlived (e f : Entry α) : Prop := ∃ x, e.deadline = some x ∧ ∀ y ∈ f.deadline, x ≤ y

theorem Outlived.live {e f : Entry α} {now : Nat} (h : e.Outlived f) (he : e.live now = true) : f.live now = true := by
  obtain ⟨x, hx, hxy⟩ := h
  unfold Entry.live at *
  cases hf : f.deadline with
  | none => rfl
  | some y =>
    have := hxy y hf
    rw [hx] at he
    simp only [Option.all_some, decide_eq_true_eq] at he ⊢
    omega

theorem live_of_le {e : Entry α} {n m : Nat} (h : e.live m = true) (hn : n ≤ m) : e.live n = true := by
  unfold Entry.live at *
  cases hd : e.deadline with
  | none => rfl
  | some y =>
    rw [hd] at h
    simp only [Option.all_some, decide_eq_true_eq] at h ⊢
    omega

end Entry

namespace Store

variable {Key α : Type} (s : Store Key α)

/-- The key's entry, unless its deadline has passed. -/
def find (k : Key) : Option (Entry α) := (s.entries k).filter (·.live s.now)

/-- `GET` -/
def get (k : Key) : Option α :=
  match s.find k with
  | some ⟨.text a, _⟩ => some a
  | _ => none

/-- `SMEMBERS` -/
def smembers (k : Key) : List String :=
  match s.find k with
  | some ⟨.set ms, _⟩ => ms
  | _ => []

/-- Milliseconds go by. -/
def wait (ms : Nat) : Store Key α := { s with now := s.now + ms }

/-- The deadline of a lifetime that starts now. -/
def after (seconds : Nat) : Nat := s.now + 1000 * seconds

variable {s} {k : Key}

theorem live_of_find {e : Entry α} (h : s.find k = some e) : e.live s.now = true :=
  (Option.filter_eq_some_iff.1 h).2

theorem after_live (v : Value α) (n : Nat) : (⟨v, some (s.after n)⟩ : Entry α).live s.now = true := by
  simp [Entry.live, after]

/-- What is there later was there before, and is the same. -/
theorem find_of_wait {e : Entry α} {n : Nat} (h : (s.wait n).find k = some e) : s.find k = some e := by
  obtain ⟨he, hlive⟩ := Option.filter_eq_some_iff.1 h
  exact Option.filter_eq_some_iff.2 ⟨he, Entry.live_of_le hlive (Nat.le_add_right _ _)⟩

theorem find_wait {e : Entry α} {n : Nat} (h : s.find k = some e) (hlive : e.live (s.now + n) = true) :
    (s.wait n).find k = some e :=
  Option.filter_eq_some_iff.2 ⟨(Option.filter_eq_some_iff.1 h).1, hlive⟩

theorem find_wait_none {n : Nat} (h : s.find k = none) : (s.wait n).find k = none := by
  cases hf : (s.wait n).find k with
  | none => rfl
  | some e => rw [find_of_wait hf] at h; cases h

theorem smembers_congr {s' : Store Key α} (h : s.find k = s'.find k) : s.smembers k = s'.smembers k := by
  simp only [smembers, h]

theorem smembers_of_find {ms : List String} {d : Option Nat} (h : s.find k = some ⟨.set ms, d⟩) :
    s.smembers k = ms := by
  simp only [smembers, h]

variable [DecidableEq Key] (s)

def put (k : Key) (e : Option (Entry α)) : Store Key α := { s with entries := Function.update s.entries k e }

/-- `SET k a EX seconds` -/
def setEx (k : Key) (a : α) (seconds : Nat) : Store Key α := s.put k (some ⟨.text a, some (s.after seconds)⟩)

/-- `DEL` -/
def del (k : Key) : Store Key α := s.put k none

/-- `EXPIRE`; nothing happens to a missing key. -/
def expire (k : Key) (seconds : Nat) : Store Key α :=
  match s.find k with
  | some e => s.put k (some { e with deadline := some (s.after seconds) })
  | none => s

def insertMember (m : String) (ms : List String) : List String := if m ∈ ms then ms else ms ++ [m]

/-- `SADD` -/
def sadd (k : Key) (m : String) : Store Key α :=
  match s.find k with
  | some ⟨.set ms, d⟩ => s.put k (some ⟨.set (insertMember m ms), d⟩)
  | some ⟨.text _, _⟩ => s
  | none => s.put k (some ⟨.set [m], none⟩)

/-- `SREM` -/
def srem (k : Key) (m : String) : Store Key α :=
  match s.find k with
  | some ⟨.set ms, d⟩ =>
    let rest := ms.filter (· ≠ m)
    s.put k (if rest = [] then none else some ⟨.set rest, d⟩)
  | _ => s

/-- `INCR`, in a store of numbers. -/
def incr (s : Store Key Nat) (k : Key) : Store Key Nat :=
  match s.find k with
  | some ⟨.text n, d⟩ => s.put k (some ⟨.text (n + 1), d⟩)
  | some ⟨.set _, _⟩ => s
  | none => s.put k (some ⟨.text 1, none⟩)

variable {s} {l : Key} {m : String}

theorem find_put (k l : Key) (e : Option (Entry α)) :
    (s.put k e).find l = if l = k then e.filter (·.live s.now) else s.find l := by
  simp only [find, put, Function.update_apply]
  split <;> rfl

@[simp] theorem find_put_self (k : Key) (e : Option (Entry α)) : (s.put k e).find k = e.filter (·.live s.now) := by
  rw [find_put, if_pos rfl]

theorem find_put_ne {e : Option (Entry α)} (h : l ≠ k) : (s.put k e).find l = s.find l := by
  rw [find_put, if_neg h]

@[simp] theorem find_setEx_self (a : α) (n : Nat) :
    (s.setEx k a n).find k = some ⟨.text a, some (s.after n)⟩ := by
  rw [setEx, find_put_self, Option.filter_some, if_pos (after_live _ n)]

theorem now_sadd : (s.sadd k m).now = s.now := by
  unfold sadd
  split <;> rfl

theorem find_setEx_ne {a : α} {n : Nat} (h : l ≠ k) : (s.setEx k a n).find l = s.find l := find_put_ne h

@[simp] theorem find_del_self : (s.del k).find k = none := by simp [del]

theorem find_del_ne (h : l ≠ k) : (s.del k).find l = s.find l := find_put_ne h

/-- What a deletion leaves was there before. -/
theorem find_of_del {e : Entry α} (h : (s.del k).find l = some e) : l ≠ k ∧ s.find l = some e := by
  have hne : l ≠ k := fun hl => by rw [hl, find_del_self] at h; cases h
  exact ⟨hne, by rwa [find_del_ne hne] at h⟩

theorem find_expire_self {e : Entry α} (h : s.find k = some e) (n : Nat) :
    (s.expire k n).find k = some { e with deadline := some (s.after n) } := by
  simp only [expire, h, find_put_self]
  rw [Option.filter_some, if_pos (after_live _ n)]

theorem find_expire_none (h : s.find k = none) (n : Nat) : s.expire k n = s := by
  simp only [expire, h]

theorem find_expire_ne {n : Nat} (h : l ≠ k) : (s.expire k n).find l = s.find l := by
  unfold expire
  split
  · exact find_put_ne h
  · rfl

theorem now_expire {n : Nat} : (s.expire k n).now = s.now := by
  unfold expire
  split <;> rfl

theorem now_incr {s : Store Key Nat} : (s.incr k).now = s.now := by
  unfold incr
  split <;> rfl

theorem find_incr_ne {s : Store Key Nat} (h : l ≠ k) : (s.incr k).find l = s.find l := by
  unfold incr
  split
  · exact find_put_ne h
  · rfl
  · exact find_put_ne h

/-- A counter counts on, and a missing one starts. -/
theorem find_incr_self {s : Store Key Nat} {n : Nat} {d : Option Nat}
    (h : s.find k = some ⟨.text n, d⟩ ∨ s.find k = none ∧ n = 0 ∧ d = none) :
    (s.incr k).find k = some ⟨.text (n + 1), d⟩ := by
  unfold incr
  rcases h with h | ⟨h, rfl, rfl⟩
  · have hlive := live_of_find h
    rw [h]
    exact (find_put_self _ _).trans (Option.filter_eq_some_iff.2 ⟨rfl, hlive⟩)
  · rw [h]
    exact (find_put_self _ _).trans (by simp [Entry.live])

theorem find_sadd_ne (h : l ≠ k) : (s.sadd k m).find l = s.find l := by
  unfold sadd
  split
  · exact find_put_ne h
  · rfl
  · exact find_put_ne h

theorem find_srem_ne (h : l ≠ k) : (s.srem k m).find l = s.find l := by
  unfold srem
  split
  · exact find_put_ne h
  · rfl

/-- A key that is not a text holds a set with the new member, and the old ones. -/
theorem find_sadd_self (h : ∀ a d, s.find k ≠ some ⟨.text a, d⟩) :
    ∃ d, (s.sadd k m).find k = some ⟨.set (insertMember m (s.smembers k)), d⟩ := by
  unfold sadd smembers
  split
  · next ms d hf =>
    refine ⟨d, ?_⟩
    have hlive := live_of_find hf
    rw [find_put_self, hf]
    exact Option.filter_eq_some_iff.2 ⟨rfl, hlive⟩
  · next a d hf => exact absurd hf (h a d)
  · next hf =>
    refine ⟨none, ?_⟩
    rw [find_put_self, hf]
    simp [Entry.live, insertMember]

/-- A member other than the removed one keeps its set, and the set its deadline. -/
theorem find_srem_self {ms : List String} {d : Option Nat} {t : String} (h : s.find k = some ⟨.set ms, d⟩)
    (ht : t ∈ ms) (hne : t ≠ m) :
    ∃ ms', (s.srem k m).find k = some ⟨.set ms', d⟩ ∧ t ∈ ms' := by
  have hmem : t ∈ ms.filter (· ≠ m) := List.mem_filter.2 ⟨ht, by simpa using hne⟩
  have hlive := live_of_find h
  refine ⟨ms.filter (· ≠ m), ?_, hmem⟩
  simp only [srem, h, if_neg (List.ne_nil_of_mem hmem), find_put_self]
  exact Option.filter_eq_some_iff.2 ⟨rfl, hlive⟩

theorem find_srem_no_text (h : ∀ a d, s.find k ≠ some ⟨.text a, d⟩) (a : α) (d : Option Nat) :
    (s.srem k m).find k ≠ some ⟨.text a, d⟩ := by
  unfold srem
  split
  · rw [find_put_self]
    split
    · simp
    · intro hf
      obtain ⟨he, -⟩ := Option.filter_eq_some_iff.1 hf
      cases he
  · exact h a d

theorem mem_insertMember {t : String} {ms : List String} : t ∈ insertMember m ms ↔ t = m ∨ t ∈ ms := by
  unfold insertMember
  split
  · next h => exact ⟨.inr, fun ht => ht.elim (fun he => he ▸ h) id⟩
  · rw [List.mem_append, List.mem_singleton, or_comm]

end Store

end Redis
