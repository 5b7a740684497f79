/-
The worker that delivers broadcasts, and how often a user gets one.

The worker counts as it sends, and every hundred users it puts the counts
into the broadcast's row; but it only flushes. The first commit follows the
last user, so what breaks a delivery off takes back all that was noted of
it, and the next pass begins with the first user again. A message whose
answer is lost is sent again at once, and a user with two premium records is
two rows of a premium segment. `broadcasts_once` says what holds of the runs
in which none of this happens.

The text of a message is left out; a failure to make it is one of the ways
to break a delivery off. A wallet only adds a column to a user's row.
-/
import Mathlib.Data.List.Sort
import Mathlib.Data.List.Dedup
import Falaron.Txn.Run

namespace Falaron.Broadcasts

/-! ## Segments -/

structure User where
  id : Int
  telegramId : Int
  isActive : Bool := true
  isBanned : Bool := false
  lastActivityAt : Option Int := none

structure UserPremium where
  userId : Int
  plan : String
  status : String := "active"

/-- The tables that a segment is read from, with their keys. -/
structure Tables where
  users : List User
  premiums : List UserPremium := []
  ids_nodup : (users.map (·.id)).Nodup
  telegramIds_nodup : (users.map (·.telegramId)).Nodup

namespace Tables

variable (t : Tables)

/-- `WHERE u.is_active = true AND u.is_banned = false ORDER BY u.id` -/
def listed : List User :=
  (t.users.filter fun u => u.isActive && !u.isBanned).insertionSort fun u v => u.id ≤ v.id

/-- `JOIN user_premiums up ON up.user_id = u.id`, with the active records of some plans. -/
def activePremiums (plans : List String) (u : User) : List UserPremium :=
  t.premiums.filter fun up => up.userId = u.id && up.status = "active" && up.plan ∈ plans

/-- The plans that a segment asks for, where it asks for one. -/
def segmentPlans : String → Option (List String)
  | "premium" => some ["premium", "vip"]
  | "vip" => some ["vip"]
  | _ => none

/-- In seconds. -/
def thirtyDays : Int := 30 * 86400

/-- `_resolve_segment`: a Telegram id for each row. -/
def resolveSegment (now : Int) (segment : String) : List Int :=
  match segmentPlans segment with
  | some plans => t.listed.flatMap fun u => (t.activePremiums plans u).map fun _ => u.telegramId
  | none =>
    if segment = "all" then t.listed.map (·.telegramId)
    else if segment = "inactive_30d" then
      (t.listed.filter fun u => u.lastActivityAt.all (· < now - thirtyDays)).map (·.telegramId)
    else []

end Tables

/-! ## Sending -/

def maxRetries : Nat := 3

def batchSize : Nat := 100

/-- One `sendMessage`: whether the message reached the user, and the status that came back, if one did. -/
structure Attempt where
  delivered : Bool
  status : Option Nat

/-- The answers after which the worker does not try again. -/
def Attempt.isFinal (a : Attempt) : Bool := a.status = some 200 || a.status = some 403

/-- The loop of `_send_with_retry`, with so many attempts left: whether it succeeds, and how many messages reach
the user. -/
def sendWithRetry (answer : Nat → Attempt) : (left attempt : Nat) → Bool × Nat
  | 0, _ => (false, 0)
  | left + 1, attempt =>
    let a := answer attempt
    let reached := if a.delivered then 1 else 0
    if a.isFinal then (a.status = some 200, reached)
    else
      let rest := sendWithRetry answer left (attempt + 1)
      (rest.1, reached + rest.2)

/-! ## Delivering -/

inductive Status where
  | pending | running | completed
  deriving DecidableEq, Repr

structure Broadcast where
  id : Int
  segment : String := "all"
  status : Status := .pending
  scheduledAt : Int
  completedAt : Option Int := none
  sentCount : Nat := 0
  failedCount : Nat := 0
  deriving DecidableEq

/-- `_update_progress` -/
def Broadcast.updateProgress (b : Broadcast) (batchSent batchFailed : Nat) : Broadcast :=
  { b with sentCount := b.sentCount + batchSent, failedCount := b.failedCount + batchFailed }

/-- The variables of `deliver_broadcast`, and the row as the session holds it. -/
structure Delivering where
  broadcast : Broadcast
  sent : Nat := 0
  failed : Nat := 0
  batchSent : Nat := 0
  batchFailed : Nat := 0

/-- `broadcast.status = "running"` -/
def Delivering.start (b : Broadcast) : Delivering := { broadcast := { b with status := .running } }

def Delivering.count (p : Delivering) (ok : Bool) : Delivering :=
  if ok then { p with sent := p.sent + 1, batchSent := p.batchSent + 1 }
  else { p with failed := p.failed + 1, batchFailed := p.batchFailed + 1 }

def Delivering.persist (p : Delivering) : Delivering :=
  { p with broadcast := p.broadcast.updateProgress p.batchSent p.batchFailed, batchSent := 0, batchFailed := 0 }

/-- The body of the loop, after the sending. -/
def Delivering.record (p : Delivering) (ok : Bool) : Delivering :=
  let p := p.count ok
  if (p.sent + p.failed) % batchSize = 0 then p.persist else p

/-- What Telegram answers to the rows from the `i`-th on, each with its attempts. -/
abbrev Answers := Nat → Nat → Attempt

/-- The loop of `deliver_broadcast`. -/
def deliverRows (answers : Answers) : Nat → List Int → Delivering → Delivering
  | _, [], p => p
  | i, _ :: rows, p => deliverRows answers (i + 1) rows (p.record (sendWithRetry (answers i) maxRetries 0).1)

/-- Whom the messages of the loop reach. -/
def reached (answers : Answers) : Nat → List Int → List Int
  | _, [] => []
  | i, user :: rows =>
    List.replicate (sendWithRetry (answers i) maxRetries 0).2 user ++ reached answers (i + 1) rows

/-- What one run of `deliver_broadcast` finds outside: the tables, the time, Telegram's answers, and where an
exception or a crash breaks it off, after so many rows and so many attempts for the next. -/
structure Delivery where
  tables : Tables
  now : Int
  answers : Answers
  brokenOff : Option (Nat × Nat) := none

def Delivery.rows (d : Delivery) (b : Broadcast) : List Int := d.tables.resolveSegment d.now b.segment

/-- What is stored, and for each user what the worker has done: the broadcasts it has begun to send to them, and
those that have reached them. -/
structure World where
  broadcasts : List Broadcast := []
  processed : List (Int × Int) := []
  delivered : List (Int × Int) := []

structure Summary where
  sent : Nat := 0
  failed : Nat := 0

namespace World

variable (w : World)

def save (b : Broadcast) : World :=
  { w with broadcasts := w.broadcasts.map fun r => if r.id = b.id then b else r }

/-- The users that the worker turns to, and those that it reaches. -/
def sending (broadcastId : Int) (users reached : List Int) : World :=
  { w with
    processed := w.processed ++ users.map (broadcastId, ·)
    delivered := w.delivered ++ reached.map (broadcastId, ·) }

/-- `deliver_broadcast`, with the `commit` or the `rollback` that follows it. -/
def deliverBroadcast (broadcastId : Int) (d : Delivery) : World × Summary :=
  match w.broadcasts.find? (·.id = broadcastId) with
  | none => (w, {})
  | some b =>
    if b.status = .completed then (w, {})
    else
      let rows := d.rows b
      match d.brokenOff with
      | some (done, attempts) =>
        -- the row goes back to what it was before
        let next := if attempts = 0 then [] else rows[done]?.toList
        (w.sending broadcastId (rows.take done ++ next)
          (reached d.answers 0 (rows.take done) ++
            next.flatMap (List.replicate (sendWithRetry (d.answers done) (min attempts maxRetries) 0).2)), {})
      | none =>
        let p := deliverRows d.answers 0 rows (.start b)
        let b := p.broadcast.updateProgress p.batchSent p.batchFailed
        ((w.save { b with status := .completed, completedAt := some d.now }).sending broadcastId rows
          (reached d.answers 0 rows), ⟨p.sent, p.failed⟩)

/-- `Broadcast.status.in_(["pending", "running"]), Broadcast.scheduled_at <= now`, ordered by `scheduled_at` -/
def due (now : Int) : List Broadcast :=
  (w.broadcasts.filter fun b => b.status ≠ .completed && b.scheduledAt ≤ now).insertionSort
    fun b c => b.scheduledAt ≤ c.scheduledAt

/-- `run_pending_broadcasts`; a crash leaves the later broadcasts without a delivery. -/
def runPendingBroadcasts (now : Int) (ds : List Delivery) : World × Summary :=
  ((w.due now).zip ds).foldl (fun (w, total) (b, d) =>
    let (w, result) := w.deliverBroadcast b.id d
    (w, ⟨total.sent + result.sent, total.failed + result.failed⟩)) (w, {})

end World

/-- What happens to the broadcasts: one is queued under the key that the database draws, or the worker passes. -/
inductive Step where
  | queue (id : Int) (segment : String) (scheduledAt : Int)
  | pass (now : Int) (ds : List Delivery)

/-- The row that `create_broadcast` inserts; a key in use is refused. -/
def World.queue (w : World) (id : Int) (segment : String) (scheduledAt : Int) : World :=
  if w.broadcasts.any (·.id = id) then w
  else { w with broadcasts := w.broadcasts ++ [{ id, segment, scheduledAt }] }

def World.step (w : World) : Step → World
  | .queue id segment scheduledAt => w.queue id segment scheduledAt
  | .pass now ds => (w.runPendingBroadcasts now ds).1

def run (steps : List Step) : World := steps.foldl World.step {}

/-! ## What is to hold -/

/-- Of the distinct users that the worker has turned to with a broadcast. -/
def World.usersProcessed (w : World) (broadcastId : Int) : List Int :=
  ((w.processed.filter (·.1 = broadcastId)).map (·.2)).dedup

/-- No user gets a broadcast twice, and a finished one has counted each user once. -/
def World.Once (w : World) : Prop :=
  w.delivered.Nodup ∧ ∀ b ∈ w.broadcasts, b.status = .completed →
    b.sentCount + b.failedCount = (w.usersProcessed b.id).length

instance (w : World) : Decidable w.Once := inferInstanceAs (Decidable (_ ∧ _))

/-- A delivery whose messages are answered once they have reached the user, that is broken off before the first of
them or not at all, and whose segment lists no user twice. -/
structure Delivery.Allowed (d : Delivery) (b : Broadcast) : Prop where
  answered : ∀ i < (d.rows b).length, ∀ j < maxRetries,
    (d.answers i j).delivered = true → (d.answers i j).isFinal = true
  whole : ∀ done attempts, d.brokenOff = some (done, attempts) → done = 0 ∧ attempts = 0
  single : ∀ plans, Tables.segmentPlans b.segment = some plans →
    ∀ u ∈ d.tables.listed, (d.tables.activePremiums plans u).length ≤ 1

def World.Allowed (w : World) : Step → Prop
  | .queue .. => True
  | .pass now ds => ∀ c ∈ (w.due now).zip ds, c.2.Allowed c.1

/-! ## Whom a delivery reaches -/

theorem listed_nodup (t : Tables) : (t.listed.map (·.telegramId)).Nodup := by
  have hperm := (List.perm_insertionSort (fun u v : User => u.id ≤ v.id)
    (t.users.filter fun u => u.isActive && !u.isBanned)).map (·.telegramId)
  refine hperm.nodup_iff.mpr (t.telegramIds_nodup.sublist ?_)
  exact List.filter_sublist.map _

/-- A join that finds at most one record for each row adds no rows. -/
theorem join_sublist {α β γ : Type} (f : α → β) (records : α → List γ) (l : List α)
    (h : ∀ a ∈ l, (records a).length ≤ 1) :
    (l.flatMap fun a => (records a).map fun _ => f a).Sublist (l.map f) := by
  induction l with
  | nil => exact .slnil
  | cons a l ih =>
    have hrest := ih fun b hb => h b (List.mem_cons_of_mem a hb)
    have hone := h a List.mem_cons_self
    rw [List.flatMap_cons, List.map_cons]
    match hrecords : records a with
    | [] => exact hrest.cons _
    | [r] => exact hrest.cons_cons _
    | r :: r' :: rest =>
      rw [hrecords] at hone
      simp at hone

theorem Delivery.Allowed.rows_nodup {d : Delivery} {b : Broadcast} (hd : d.Allowed b) : (d.rows b).Nodup := by
  have hlisted := listed_nodup d.tables
  unfold Delivery.rows Tables.resolveSegment
  split
  next plans hplans =>
    exact hlisted.sublist (join_sublist _ _ _ (hd.single plans hplans))
  · split
    · exact hlisted
    split
    · exact hlisted.sublist (List.filter_sublist.map _)
    · exact List.nodup_nil

/-- A message that is answered once it has reached the user reaches him once. -/
theorem sendWithRetry_reached {answer : Nat → Attempt} {left attempt : Nat}
    (h : ∀ j < attempt + left, (answer j).delivered = true → (answer j).isFinal = true) :
    (sendWithRetry answer left attempt).2 ≤ 1 := by
  induction left generalizing attempt with
  | zero => simp [sendWithRetry]
  | succ left ih =>
    unfold sendWithRetry
    dsimp only
    split
    · split <;> simp
    next hfinal =>
      have hnot : (answer attempt).delivered = false := by
        by_contra hreached
        exact hfinal (h attempt (by omega) (by simpa using hreached))
      have hrest : (sendWithRetry answer left (attempt + 1)).2 ≤ 1 := ih fun j hj => h j (by omega)
      simpa [hnot] using hrest

theorem reached_sublist {answers : Answers} {rows : List Int} {i : Nat}
    (h : ∀ k < i + rows.length, ∀ j < maxRetries, (answers k j).delivered = true → (answers k j).isFinal = true) :
    (reached answers i rows).Sublist rows := by
  induction rows generalizing i with
  | nil => exact .slnil
  | cons user rows ih =>
    rw [List.length_cons] at h
    have hrest := ih (i := i + 1) fun k hk => h k (by omega)
    have hone : (sendWithRetry (answers i) maxRetries 0).2 ≤ 1 :=
      sendWithRetry_reached fun j hj => h i (by omega) j (by omega)
    unfold reached
    generalize (sendWithRetry (answers i) maxRetries 0).2 = n at hone
    match n with
    | 0 => simpa using hrest.cons user
    | 1 => simpa using hrest.cons_cons user
    | n + 2 => omega

/-! ## What a delivery counts -/

/-- Every user counted so far, in the row or in the batch. -/
def Delivering.counted (p : Delivering) : Nat :=
  p.broadcast.sentCount + p.broadcast.failedCount + p.batchSent + p.batchFailed

theorem count_counted (p : Delivering) (ok : Bool) : (p.count ok).counted = p.counted + 1 := by
  unfold Delivering.count Delivering.counted
  split
  · dsimp only
    omega
  · dsimp only
    omega

theorem persist_counted (p : Delivering) : p.persist.counted = p.counted := by
  unfold Delivering.persist Delivering.counted Broadcast.updateProgress
  dsimp only
  omega

theorem record_counted (p : Delivering) (ok : Bool) : (p.record ok).counted = p.counted + 1 := by
  unfold Delivering.record
  dsimp only
  split
  · rw [persist_counted, count_counted]
  · rw [count_counted]

theorem record_broadcast (p : Delivering) (ok : Bool) :
    (p.record ok).broadcast.id = p.broadcast.id ∧ (p.record ok).broadcast.segment = p.broadcast.segment := by
  have hcount : (p.count ok).broadcast = p.broadcast := by
    unfold Delivering.count
    split <;> rfl
  unfold Delivering.record
  dsimp only
  split
  · unfold Delivering.persist Broadcast.updateProgress
    dsimp only
    rw [hcount]
    exact ⟨rfl, rfl⟩
  · rw [hcount]
    exact ⟨rfl, rfl⟩

theorem deliverRows_counted (answers : Answers) (rows : List Int) (i : Nat) (p : Delivering) :
    (deliverRows answers i rows p).counted = p.counted + rows.length := by
  induction rows generalizing i p with
  | nil => rfl
  | cons user rows ih =>
    unfold deliverRows
    rw [ih, record_counted, List.length_cons]
    omega

theorem deliverRows_broadcast (answers : Answers) (rows : List Int) (i : Nat) (p : Delivering) :
    (deliverRows answers i rows p).broadcast.id = p.broadcast.id ∧
      (deliverRows answers i rows p).broadcast.segment = p.broadcast.segment := by
  induction rows generalizing i p with
  | nil => exact ⟨rfl, rfl⟩
  | cons user rows ih =>
    unfold deliverRows
    obtain ⟨hid, hsegment⟩ := ih (i + 1) (p.record (sendWithRetry (answers i) maxRetries 0).1)
    obtain ⟨hid', hsegment'⟩ := record_broadcast p (sendWithRetry (answers i) maxRetries 0).1
    exact ⟨hid.trans hid', hsegment.trans hsegment'⟩

/-! ## What a delivery does -/

namespace World

/-- A delivery is broken off and leaves the rows, or finishes its broadcast. -/
theorem deliverBroadcast_cases (w : World) (broadcastId : Int) (d : Delivery) :
    (w.deliverBroadcast broadcastId d).1 = w ∨
      ∃ b ∈ w.broadcasts, b.id = broadcastId ∧ b.status ≠ .completed ∧
        ((∃ done attempts users reached, d.brokenOff = some (done, attempts) ∧
            (w.deliverBroadcast broadcastId d).1 = w.sending broadcastId users reached ∧
            (done = 0 → attempts = 0 → users = [] ∧ reached = [])) ∨
          ∃ b' : Broadcast, b'.id = b.id ∧ b'.segment = b.segment ∧ b'.status = .completed ∧
            b'.sentCount + b'.failedCount = b.sentCount + b.failedCount + (d.rows b).length ∧
            (w.deliverBroadcast broadcastId d).1 =
              (w.save b').sending broadcastId (d.rows b) (reached d.answers 0 (d.rows b))) := by
  unfold deliverBroadcast
  split
  · exact .inl rfl
  next b hfound =>
  split
  · exact .inl rfl
  next hstatus =>
  have hid : b.id = broadcastId := by simpa using List.find?_some hfound
  refine .inr ⟨b, List.mem_of_find?_eq_some hfound, hid, hstatus, ?_⟩
  dsimp only
  split
  next done attempts hbroken =>
    refine .inl ⟨done, attempts, _, _, hbroken, rfl, ?_⟩
    rintro rfl rfl
    exact ⟨by simp, by simp [reached]⟩
  · obtain ⟨hid, hsegment⟩ := deliverRows_broadcast d.answers (d.rows b) 0 (.start b)
    have hcounted := deliverRows_counted d.answers (d.rows b) 0 (.start b)
    have hstart : (Delivering.start b).counted = b.sentCount + b.failedCount := rfl
    rw [hstart] at hcounted
    refine .inr ⟨_, ?_, ?_, ?_, ?_, rfl⟩
    · exact hid
    · exact hsegment
    · rfl
    · simp only [Delivering.counted, Broadcast.updateProgress] at hcounted ⊢
      omega

/-- What a broadcast is found by, and its segment. -/
def keys (w : World) : List (Int × String) := w.broadcasts.map fun b => (b.id, b.segment)

/-- Each broadcast has an id of its own, and is finished if the worker has turned to anyone with it. -/
structure Tidy (w : World) : Prop where
  ids : (w.broadcasts.map (·.id)).Nodup
  known : ∀ c ∈ w.processed, ∃ b ∈ w.broadcasts, b.id = c.1
  fresh : ∀ b ∈ w.broadcasts, b.status ≠ .completed → b.sentCount = 0 ∧ b.failedCount = 0 ∧
    ∀ c ∈ w.processed, c.1 ≠ b.id
  processed : w.processed.Nodup
  delivered : w.delivered.Nodup
  sub : w.delivered ⊆ w.processed
  counted : ∀ b ∈ w.broadcasts, b.status = .completed →
    b.sentCount + b.failedCount = (w.processed.filter (·.1 = b.id)).length

section

variable {w : World}

theorem Tidy.once (hw : w.Tidy) : w.Once := by
  refine ⟨hw.delivered, fun b hb hstatus => ?_⟩
  have husers : ((w.processed.filter (·.1 = b.id)).map (·.2)).Nodup := by
    refine (hw.processed.filter _).map_on fun c hc c' hc' heq => ?_
    have hid : c.1 = b.id := by simpa using (List.mem_filter.mp hc).2
    have hid' : c'.1 = b.id := by simpa using (List.mem_filter.mp hc').2
    exact Prod.ext (hid.trans hid'.symm) heq
  rw [usersProcessed, husers.dedup, List.length_map]
  exact hw.counted b hb hstatus

/-- A row is saved over the one with its id. -/
theorem mem_saved {b r : Broadcast} (hr : r ∈ (w.save b).broadcasts) :
    r = b ∨ (r ∈ w.broadcasts ∧ r.id ≠ b.id) := by
  obtain ⟨r₀, hr₀, rfl⟩ := List.mem_map.mp hr
  by_cases hid : r₀.id = b.id
  · exact .inl (by simp [hid])
  · exact .inr (by simpa [hid] using hr₀)

theorem Tidy.keys_save (hw : w.Tidy) {b b' : Broadcast} (hb : b ∈ w.broadcasts) (hid : b'.id = b.id)
    (hsegment : b'.segment = b.segment) : (w.save b').keys = w.keys := by
  simp only [keys, save, List.map_map]
  refine List.map_congr_left fun r hr => ?_
  simp only [Function.comp_apply]
  by_cases heq : r.id = b'.id
  · obtain rfl := List.inj_on_of_nodup_map hw.ids hr hb (heq.trans hid)
    rw [if_pos heq, hid, hsegment]
  · rw [if_neg heq]

/-- A delivery that is not broken off keeps the books. -/
theorem Tidy.finish (hw : w.Tidy) {b b' : Broadcast} (hb : b ∈ w.broadcasts) (hopen : b.status ≠ .completed)
    (hid : b'.id = b.id) (hsegment : b'.segment = b.segment) (hstatus : b'.status = .completed)
    {rows reached : List Int} (hrows : rows.Nodup) (hreached : reached.Sublist rows)
    (hcounted : b'.sentCount + b'.failedCount = b.sentCount + b.failedCount + rows.length) :
    ((w.save b').sending b.id rows reached).Tidy := by
  obtain ⟨hsent, hfailed, hfresh⟩ := hw.fresh b hb hopen
  have hids : (w.save b').broadcasts.map (·.id) = w.broadcasts.map (·.id) := by
    have hkeys := congrArg (List.map (·.1)) (hw.keys_save hb hid hsegment)
    simpa [keys, Function.comp_def] using hkeys
  have hpair : Function.Injective fun user : Int => (b.id, user) := fun u v heq => (Prod.mk.inj heq).2
  have hold : (w.processed.filter (·.1 = b.id)) = [] := by
    simpa using hfresh
  refine ⟨?_, ?_, ?_, ?_, ?_, ?_, ?_⟩
  · exact hids ▸ hw.ids
  · intro c hc
    have hmem : c.1 ∈ w.broadcasts.map (·.id) := by
      rcases List.mem_append.mp hc with hc | hc
      · obtain ⟨r, hr, heq⟩ := hw.known c hc
        exact heq ▸ List.mem_map_of_mem hr
      · obtain ⟨user, -, rfl⟩ := List.mem_map.mp hc
        exact List.mem_map_of_mem hb
    rw [← hids] at hmem
    exact List.mem_map.mp hmem
  · intro r hr hropen
    rcases mem_saved hr with rfl | ⟨hr, hne⟩
    · exact absurd hstatus hropen
    · obtain ⟨hrsent, hrfailed, hrfresh⟩ := hw.fresh r hr hropen
      refine ⟨hrsent, hrfailed, fun c hc => ?_⟩
      rcases List.mem_append.mp hc with hc | hc
      · exact hrfresh c hc
      · obtain ⟨user, -, rfl⟩ := List.mem_map.mp hc
        exact fun heq => hne (heq.symm.trans hid.symm)
  · refine List.nodup_append.mpr ⟨hw.processed, hrows.map hpair, fun c hc c' hc' => ?_⟩
    obtain ⟨user, -, rfl⟩ := List.mem_map.mp hc'
    rintro rfl
    exact hfresh _ hc rfl
  · refine List.nodup_append.mpr ⟨hw.delivered, (hrows.sublist hreached).map hpair, fun c hc c' hc' => ?_⟩
    obtain ⟨user, -, rfl⟩ := List.mem_map.mp hc'
    rintro rfl
    exact hfresh _ (hw.sub hc) rfl
  · intro c hc
    rcases List.mem_append.mp hc with hc | hc
    · exact List.mem_append_left _ (hw.sub hc)
    · exact List.mem_append_right _ ((hreached.map _).subset hc)
  · intro r hr hrstatus
    show _ = ((w.processed ++ rows.map (b.id, ·)).filter (·.1 = r.id)).length
    rcases mem_saved hr with rfl | ⟨hr, hne⟩
    · simp only [hid, List.filter_append, hold, List.nil_append, List.filter_map]
      simp [Function.comp_def]
      omega
    · have hne' : b.id ≠ r.id := fun heq => hne (heq.symm.trans hid.symm)
      simp only [List.filter_append, List.filter_map]
      simp [Function.comp_def, hne', hw.counted r hr hrstatus]

theorem sending_nil (broadcastId : Int) : w.sending broadcastId [] [] = w := by
  simp [sending]

theorem deliverBroadcast_tidy (hw : w.Tidy) {b : Broadcast} {d : Delivery} (hd : d.Allowed b)
    (hb : (b.id, b.segment) ∈ w.keys) :
    (w.deliverBroadcast b.id d).1.Tidy ∧ (w.deliverBroadcast b.id d).1.keys = w.keys := by
  rcases w.deliverBroadcast_cases b.id d with hsame | ⟨r, hr, hid, hopen, hbroken | hfinished⟩
  · rw [hsame]
    exact ⟨hw, rfl⟩
  · obtain ⟨done, attempts, users, reached, hoff, hresult, hnone⟩ := hbroken
    obtain ⟨hdone, hattempts⟩ := hd.whole done attempts hoff
    obtain ⟨rfl, rfl⟩ := hnone hdone hattempts
    rw [hresult, sending_nil]
    exact ⟨hw, rfl⟩
  · obtain ⟨r', hid', hsegment', hstatus', hcounted, hresult⟩ := hfinished
    -- the row has the segment that the pass found it with
    have hsegment : r.segment = b.segment := by
      obtain ⟨r₀, hr₀, hkey⟩ := List.mem_map.mp hb
      obtain ⟨hid₀, hsegment₀⟩ := Prod.mk.inj hkey
      obtain rfl := List.inj_on_of_nodup_map hw.ids hr hr₀ (hid.trans hid₀.symm)
      exact hsegment₀
    have hrows : d.rows r = d.rows b := by rw [Delivery.rows, hsegment, Delivery.rows]
    rw [hresult, ← hid]
    refine ⟨hw.finish hr hopen hid' hsegment' hstatus' ?_ ?_ hcounted, hw.keys_save hr hid' hsegment'⟩
    · rw [hrows]
      exact hd.rows_nodup
    · rw [hrows]
      refine reached_sublist fun k hk => hd.answered k ?_
      omega

theorem deliveries_tidy {cs : List (Broadcast × Delivery)} (hw : w.Tidy) (total : Summary)
    (hcs : ∀ c ∈ cs, c.2.Allowed c.1 ∧ (c.1.id, c.1.segment) ∈ w.keys) :
    (cs.foldl (fun (w, total) (b, d) =>
      let (w, result) := World.deliverBroadcast w b.id d
      (w, (⟨total.sent + result.sent, total.failed + result.failed⟩ : Summary))) (w, total)).1.Tidy := by
  induction cs generalizing w total with
  | nil => exact hw
  | cons c cs ih =>
    obtain ⟨hd, hb⟩ := hcs c List.mem_cons_self
    obtain ⟨htidy, hkeys⟩ := deliverBroadcast_tidy hw hd hb
    refine ih htidy _ fun c' hc' => ?_
    rw [hkeys]
    exact hcs c' (List.mem_cons_of_mem c hc')

theorem queue_tidy (hw : w.Tidy) (id : Int) (segment : String) (scheduledAt : Int) :
    (w.queue id segment scheduledAt).Tidy := by
  unfold queue
  split
  · exact hw
  next hfree =>
  have hnew : ∀ b ∈ w.broadcasts, b.id ≠ id := by simpa using hfree
  refine ⟨?_, ?_, ?_, hw.processed, hw.delivered, hw.sub, ?_⟩
  · rw [List.map_append]
    refine List.nodup_append.mpr ⟨hw.ids, by simp, fun k hk k' hk' => ?_⟩
    obtain ⟨b, hb, rfl⟩ := List.mem_map.mp hk
    obtain rfl : k' = id := by simpa using hk'
    exact hnew b hb
  · intro c hc
    obtain ⟨b, hb, hid⟩ := hw.known c hc
    exact ⟨b, List.mem_append_left _ hb, hid⟩
  · intro b hb hopen
    rcases List.mem_append.mp hb with hb | hb
    · exact hw.fresh b hb hopen
    · obtain rfl := List.mem_singleton.mp hb
      refine ⟨rfl, rfl, fun c hc heq => ?_⟩
      obtain ⟨b, hb, hid⟩ := hw.known c hc
      exact hnew b hb (hid.trans heq)
  · intro b hb hstatus
    rcases List.mem_append.mp hb with hb | hb
    · exact hw.counted b hb hstatus
    · obtain rfl := List.mem_singleton.mp hb
      cases hstatus

theorem step_tidy (hw : w.Tidy) {e : Step} (he : w.Allowed e) : (w.step e).Tidy := by
  cases e with
  | queue id segment scheduledAt => exact queue_tidy hw id segment scheduledAt
  | pass now ds =>
    refine deliveries_tidy hw {} fun c hc => ⟨he c hc, ?_⟩
    have hdue : c.1 ∈ w.due now := (List.of_mem_zip hc).1
    have hmem := (List.perm_insertionSort _ _).mem_iff.mp hdue
    exact List.mem_map_of_mem (List.mem_filter.mp hmem).1

end

end World

/-- **In every run whose deliveries are all allowed, each state has sent no user a broadcast twice, and a
finished broadcast has counted each of its users once.** -/
theorem broadcasts_once (steps : List Step)
    (hallowed : ∀ done e, done ++ [e] <+: steps → (run done).Allowed e) :
    ∀ done, done <+: steps → (run done).Once := by
  intro done hdone
  have hinit : World.Tidy {} := ⟨by simp, by simp, by simp, by simp, by simp, by simp, by simp⟩
  have htidy := @Txn.prefixes_keep _ _ World.step World.Tidy World.Allowed
    (fun w e hw he => World.step_tidy hw he) {} steps hinit hallowed done hdone
  exact htidy.once

def twoUsers : Tables where
  users := [⟨1, 101, true, false, none⟩, ⟨2, 102, true, false, some 5⟩]
  premiums := [⟨1, "vip", "active"⟩, ⟨1, "premium", "expired"⟩, ⟨2, "premium", "active"⟩]
  ids_nodup := by decide
  telegramIds_nodup := by decide

/-- The first user is reached at the second attempt, the second has blocked the bot. -/
def reachesFirst : Answers
  | 0, 1 => ⟨true, some 200⟩
  | 1, 0 => ⟨false, some 403⟩
  | _, _ => ⟨false, some 500⟩

/-- A broadcast is queued; one pass crashes before it sends, and the next delivers. -/
def deliveredOnce : List Step := [.queue 1 "premium" 0,
  .pass 10 [{ tables := twoUsers, now := 10, answers := reachesFirst, brokenOff := some (0, 0) }],
  .pass 20 [{ tables := twoUsers, now := 20, answers := reachesFirst }]]

theorem deliveredOnce_once : (run deliveredOnce).Once := by
  have hallows (now : Int) (brokenOff : Option (Nat × Nat)) (hwhole : brokenOff.all (· = (0, 0))) (b : Broadcast)
      (hb : b.segment = "premium") :
      Delivery.Allowed { tables := twoUsers, now, answers := reachesFirst, brokenOff } b := by
    refine ⟨?_, ?_, ?_⟩
    · rw [Delivery.rows, hb]
      exact (by decide : ∀ i < 2, ∀ j < maxRetries,
        (reachesFirst i j).delivered = true → (reachesFirst i j).isFinal = true)
    · rintro done attempts rfl
      simpa using hwhole
    · rw [hb]
      rintro plans ⟨rfl⟩
      exact (by decide : ∀ u ∈ twoUsers.listed, (twoUsers.activePremiums ["premium", "vip"] u).length ≤ 1)
  refine broadcasts_once deliveredOnce (Txn.forall_steps _ fun n : Fin 3 => ?_) deliveredOnce List.prefix_rfl
  match n with
  | 0 => trivial
  | 1 =>
    intro c hc
    obtain rfl := List.mem_singleton.mp hc
    exact hallows 10 _ rfl _ rfl
  | 2 =>
    intro c hc
    obtain rfl := List.mem_singleton.mp hc
    exact hallows 20 _ rfl _ rfl

/-- Every message arrives, and Telegram says so. -/
def allArrive : Answers := fun _ _ => ⟨true, some 200⟩

/-- The first message arrives, but its answer is lost. -/
def answerLost : Answers
  | 0, 0 => ⟨true, none⟩
  | _, _ => ⟨true, some 200⟩

/-- One user with two active records. -/
def twoRecords : Tables where
  users := [⟨1, 101, true, false, none⟩]
  premiums := [⟨1, "vip", "active"⟩, ⟨1, "vip", "active"⟩]
  ids_nodup := by decide
  telegramIds_nodup := by decide

/-- A pass crashes after the first message, and the next one delivers. -/
def crashed : List Step := [.queue 1 "all" 0,
  .pass 10 [{ tables := twoUsers, now := 10, answers := allArrive, brokenOff := some (1, 0) }],
  .pass 20 [{ tables := twoUsers, now := 20, answers := allArrive }]]

/-- A crash after the first message, a lost answer, and a user with two records, each send a broadcast twice. -/
theorem broadcast_twice :
    ¬ (run crashed).Once ∧
      ¬ (run [.queue 1 "all" 0, .pass 10 [{ tables := twoUsers, now := 10, answers := answerLost }]]).Once ∧
      ¬ (run [.queue 1 "vip" 0, .pass 10 [{ tables := twoRecords, now := 10, answers := allArrive }]]).Once :=
  ⟨by decide, by decide, by decide⟩

end Falaron.Broadcasts
