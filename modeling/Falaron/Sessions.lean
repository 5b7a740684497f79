/-
The sessions of the second system, and the call that revokes all of a user's.

A token has a key of its own and stands in its user's index. Both expire,
and only `create_session` sets the lifetime of the index: a short session
cuts it below the tokens that are there already, and `refresh_session` takes
a token beyond it. Once the index is gone, `revoke_all_sessions` finds
nothing to revoke. It also reads the index in one round trip and deletes it
in the next, and takes with it a session created in between.

Tokens are drawn at random and never twice. A pipeline is one transaction.
-/
import Falaron.Redis
import Falaron.Py.Json
import Falaron.Text

namespace Falaron.Sessions

/-! ## The module's functions -/

/-- `_TTL.get(session_type, _TTL["miniapp"])`, in seconds -/
def ttl (sessionType : String) : Nat :=
  if sessionType = "bot" then 30 * 86400
  else if sessionType = "miniapp" then 24 * 3600
  else if sessionType = "api" then 90 * 86400
  else 24 * 3600

def skey (token : String) : String := "session:" ++ token

def uskey (userId : Int) : String := "user_sessions:" ++ toString userId

abbrev Db := Redis.Store String Py.Dict

/-- `{"user_id": user_id, "type": session_type, **extra}` -/
def payload (userId : Int) (sessionType : String) (extra : Py.Dict) : Py.Dict :=
  [("user_id", .int userId), ("type", .str sessionType)].map
      (fun p => if Py.hasField extra p.1 then (p.1, Py.field extra p.1) else p) ++
    extra.filter fun p => p.1 ≠ "user_id" && p.1 ≠ "type"

/-- `create_session`, the token drawn -/
def createSession (db : Db) (userId : Int) (sessionType : String) (extra : Py.Dict) (token : String) : Db :=
  let db := db.setEx (skey token) (payload userId sessionType extra) (ttl sessionType)
  let db := db.sadd (uskey userId) token
  db.expire (uskey userId) (ttl sessionType)

def getSession (db : Db) (token : String) : Option Py.Dict := db.get (skey token)

def revokeSession (db : Db) (token : String) (userId : Option Int) : Db :=
  let db := db.del (skey token)
  match userId with
  | some u => if u = 0 then db else db.srem (uskey u) token
  | none => db

/-- The second half of `revoke_all_sessions`: its pipeline. -/
def dropSessions (db : Db) (userId : Int) (tokens : List String) : Db :=
  (tokens.foldl (fun db token => db.del (skey token)) db).del (uskey userId)

def refreshSession (db : Db) (token sessionType : String) : Db × Bool :=
  (db.expire (skey token) (ttl sessionType), (db.find (skey token)).isSome)

/-! ## Runs -/

structure World where
  db : Db := {}
  /-- Every token drawn, with the user it was created for. -/
  created : List (String × Int) := []
  /-- The calls of `revoke_all_sessions` that have read the index, with what they read. -/
  revoking : List (Int × List String) := []

inductive Op where
  | create (userId : Int) (sessionType : String) (extra : Py.Dict) (token : String)
  | refresh (token sessionType : String)
  | revoke (token : String) (userId : Option Int)
  | readAll (userId : Int)
  | dropAll (userId : Int) (tokens : List String)
  | wait (ms : Nat)

namespace World

variable (w : World)

/-- `revoke_all_sessions` has read the index. -/
def reading (userId : Int) : World :=
  if w.db.smembers (uskey userId) = [] then w
  else { w with revoking := (userId, w.db.smembers (uskey userId)) :: w.revoking }

/-- It has run its pipeline. -/
def dropped (userId : Int) (tokens : List String) : World :=
  { w with db := dropSessions w.db userId tokens, revoking := w.revoking.erase (userId, tokens) }

end World

/-- A token is drawn once, and a pipeline follows a read. -/
def Op.Can (w : World) : Op → Prop
  | .create _ _ _ token => ∀ u, (token, u) ∉ w.created
  | .dropAll userId tokens => (userId, tokens) ∈ w.revoking
  | _ => True

def Op.next (w : World) : Op → World
  | .create userId sessionType extra token =>
    { w with db := createSession w.db userId sessionType extra token, created := (token, userId) :: w.created }
  | .refresh token sessionType => { w with db := (refreshSession w.db token sessionType).1 }
  | .revoke token userId => { w with db := revokeSession w.db token userId }
  | .readAll userId => w.reading userId
  | .dropAll userId tokens => w.dropped userId tokens
  | .wait ms => { w with db := w.db.wait ms }

/-- The runs whose steps all meet a condition. -/
inductive Runs (C : World → Op → Prop) : World → World → Prop where
  | refl (w : World) : Runs C w w
  | step {w w' : World} (op : Op) : Runs C w w' → op.Can w' → C w' op → Runs C w (op.next w')

/-- Any step. -/
abbrev Any : World → Op → Prop := fun _ _ => True

/-- `revoke_all_sessions`, from its call to its return, whatever happens between its two halves. -/
inductive RevokesAll (userId : Int) (w : World) : World → Prop where
  | nothing : w.db.smembers (uskey userId) = [] → RevokesAll userId w w
  | deleted {w' : World} : w.db.smembers (uskey userId) ≠ [] → Runs Any (w.reading userId) w' →
      RevokesAll userId w (w'.dropped userId (w.db.smembers (uskey userId)))

/-- After the call no token created for the user before it is accepted, ever. -/
def AllRevoked (w : World) (userId : Int) : Prop :=
  ∀ w' w'' token, RevokesAll userId w w' → Runs Any w' w'' → (token, userId) ∈ w.created →
    getSession w''.db token = none

/-- A login leaves the index at least as long as any token that is in it, and
comes between no call's halves; a refresh takes the token no further than the index. -/
def Keeps (w : World) : Op → Prop
  | .create userId sessionType _ _ =>
    (∀ tokens, (userId, tokens) ∉ w.revoking) ∧
      ∀ token e, (token, userId) ∈ w.created → w.db.find (skey token) = some e →
        ∀ d ∈ e.deadline, d ≤ w.db.after (ttl sessionType)
  | .refresh token sessionType =>
    ∀ userId e index, (token, userId) ∈ w.created → w.db.find (skey token) = some e →
      w.db.find (uskey userId) = some index → ∀ d ∈ index.deadline, w.db.after (ttl sessionType) ≤ d
  | _ => True

/-! ## Keys -/

theorem skey_injective {t t' : String} (h : skey t = skey t') : t = t' := by
  have := congrArg String.toList h
  simp only [skey, String.toList_append, List.append_cancel_left_eq] at this
  exact String.toList_injective this

theorem uskey_injective {u v : Int} (h : uskey u = uskey v) : u = v := by
  have := congrArg String.toList h
  simp only [uskey, String.toList_append, List.append_cancel_left_eq] at this
  exact Text.int_injective this

theorem skey_ne_uskey (t : String) (u : Int) : skey t ≠ uskey u := fun h => by
  have := congrArg (fun s => s.toList.head?) h
  simp [skey, uskey] at this

theorem skey_ne {t t' : String} (h : t ≠ t') : skey t ≠ skey t' := fun he => h (skey_injective he)

theorem uskey_ne {u v : Int} (h : u ≠ v) : uskey u ≠ uskey v := fun he => h (uskey_injective he)

/-! ## What each function leaves of a key -/

section

variable {db : Db} {k : String} {t : String} {u : Int}

theorem find_createSession_ne {ty ex} (ht : k ≠ skey t) (hu : k ≠ uskey u) :
    (createSession db u ty ex t).find k = db.find k := by
  simp only [createSession]
  rw [Redis.Store.find_expire_ne hu, Redis.Store.find_sadd_ne hu, Redis.Store.find_setEx_ne ht]

theorem find_createSession_token {ty ex} :
    (createSession db u ty ex t).find (skey t) = some ⟨.text (payload u ty ex), some (db.after (ttl ty))⟩ := by
  simp only [createSession]
  rw [Redis.Store.find_expire_ne (skey_ne_uskey t u), Redis.Store.find_sadd_ne (skey_ne_uskey t u),
    Redis.Store.find_setEx_self]

/-- The index has the new token, the old ones, and the lifetime of the new session. -/
theorem find_createSession_index {ty ex} (hidx : ∀ a d, db.find (uskey u) ≠ some ⟨.text a, d⟩) :
    (createSession db u ty ex t).find (uskey u) =
      some ⟨.set (Redis.Store.insertMember t (db.smembers (uskey u))), some (db.after (ttl ty))⟩ := by
  have hset : (db.setEx (skey t) (payload u ty ex) (ttl ty)).find (uskey u) = db.find (uskey u) :=
    Redis.Store.find_setEx_ne (skey_ne_uskey t u).symm
  obtain ⟨d, hadd⟩ := Redis.Store.find_sadd_self (m := t) (fun a d => hset.symm ▸ hidx a d)
  have hnow : ((db.setEx (skey t) (payload u ty ex) (ttl ty)).sadd (uskey u) t).after (ttl ty) =
      db.after (ttl ty) := by simp only [Redis.Store.after, Redis.Store.now_sadd]; rfl
  rw [createSession, Redis.Store.find_expire_self hadd, hnow, Redis.Store.smembers_congr hset]

theorem find_revokeSession_ne {o : Option Int} (ht : k ≠ skey t) (hu : ∀ u, k ≠ uskey u) :
    (revokeSession db t o).find k = db.find k := by
  simp only [revokeSession]
  split
  · next u =>
    split
    · exact Redis.Store.find_del_ne ht
    · rw [Redis.Store.find_srem_ne (hu u), Redis.Store.find_del_ne ht]
  · exact Redis.Store.find_del_ne ht

theorem find_revokeSession_token {o : Option Int} : (revokeSession db t o).find (skey t) = none := by
  simp only [revokeSession]
  split
  · next u =>
    split
    · exact Redis.Store.find_del_self
    · rw [Redis.Store.find_srem_ne (skey_ne_uskey t u), Redis.Store.find_del_self]
  · exact Redis.Store.find_del_self

theorem find_dels_ne {ts : List String} (h : ∀ t ∈ ts, k ≠ skey t) :
    (ts.foldl (fun db t => db.del (skey t)) db).find k = db.find k := by
  induction ts generalizing db with
  | nil => rfl
  | cons t ts ih =>
    rw [List.foldl_cons, ih fun t ht => h t (List.mem_cons_of_mem _ ht),
      Redis.Store.find_del_ne (h t List.mem_cons_self)]

theorem find_of_dels {ts : List String} {e} (h : (ts.foldl (fun db t => db.del (skey t)) db).find k = some e) :
    (∀ t ∈ ts, k ≠ skey t) ∧ db.find k = some e := by
  induction ts generalizing db with
  | nil => exact ⟨nofun, h⟩
  | cons t ts ih =>
    obtain ⟨hne, hf⟩ := ih h
    obtain ⟨ht, hf⟩ := Redis.Store.find_of_del hf
    exact ⟨List.forall_mem_cons.2 ⟨ht, hne⟩, hf⟩

theorem find_dropSessions_ne {ts : List String} (ht : ∀ t ∈ ts, k ≠ skey t) (hu : k ≠ uskey u) :
    (dropSessions db u ts).find k = db.find k := by
  rw [dropSessions, Redis.Store.find_del_ne hu, find_dels_ne ht]

theorem find_of_dropSessions {ts : List String} {e} (h : (dropSessions db u ts).find k = some e) :
    (∀ t ∈ ts, k ≠ skey t) ∧ k ≠ uskey u ∧ db.find k = some e := by
  obtain ⟨hu, hf⟩ := Redis.Store.find_of_del h
  exact ⟨(find_of_dels hf).1, hu, (find_of_dels hf).2⟩

end

/-! ## A token that is gone stays gone -/

/-- The token has been drawn, and its key is gone. -/
def Gone (w : World) (token : String) : Prop :=
  (∃ u, (token, u) ∈ w.created) ∧ w.db.find (skey token) = none

theorem Gone.next {w : World} {op : Op} {t : String} (h : Gone w t) (hop : op.Can w) : Gone (op.next w) t := by
  obtain ⟨⟨u, hu⟩, hf⟩ := h
  cases op with
  | create v ty ex t' =>
    have hne : t ≠ t' := fun he => hop u (he ▸ hu)
    exact ⟨⟨u, List.mem_cons_of_mem _ hu⟩, (find_createSession_ne (skey_ne hne) (skey_ne_uskey t v)).trans hf⟩
  | refresh t' ty =>
    refine ⟨⟨u, hu⟩, ?_⟩
    by_cases hne : t = t'
    · obtain rfl := hne
      show (Redis.Store.expire _ _ _).find _ = none
      rw [Redis.Store.find_expire_none hf, hf]
    · exact (Redis.Store.find_expire_ne (skey_ne hne)).trans hf
  | revoke t' o =>
    refine ⟨⟨u, hu⟩, ?_⟩
    by_cases hne : t = t'
    · obtain rfl := hne
      exact find_revokeSession_token
    · exact (find_revokeSession_ne (skey_ne hne) (skey_ne_uskey t)).trans hf
  | readAll v =>
    simp only [Op.next, World.reading]
    split <;> exact ⟨⟨u, hu⟩, hf⟩
  | dropAll v ts =>
    refine ⟨⟨u, hu⟩, ?_⟩
    cases he : (dropSessions w.db v ts).find (skey t) with
    | none => exact he
    | some e => rw [(find_of_dropSessions he).2.2] at hf; cases hf
  | wait ms => exact ⟨⟨u, hu⟩, Redis.Store.find_wait_none hf⟩

theorem Gone.runs {w w' : World} {t : String} {C : World → Op → Prop} (h : Gone w t) (hr : Runs C w w') :
    Gone w' t := by
  induction hr with
  | refl => exact h
  | step op _ hop _ ih => exact ih.next hop

theorem Gone.refused {w : World} {t : String} (h : Gone w t) : getSession w.db t = none := by
  simp only [getSession, Redis.Store.get, h.2]

/-! ## What the index knows -/

/-- Every token of a user is in his index, which outlives it, and the calls
under way have read it. -/
structure Indexed (w : World) : Prop where
  /-- An index is never a text. -/
  index : ∀ u a d, w.db.find (uskey u) ≠ some ⟨.text a, d⟩
  listed : ∀ t u e, (t, u) ∈ w.created → w.db.find (skey t) = some e →
    ∃ ms d, w.db.find (uskey u) = some ⟨.set ms, d⟩ ∧ t ∈ ms ∧ e.Outlived ⟨.set ms, d⟩
  read : ∀ u ts, (u, ts) ∈ w.revoking → ∀ t e, (t, u) ∈ w.created → w.db.find (skey t) = some e → t ∈ ts

theorem Indexed.empty : Indexed {} := ⟨fun _ _ _ => nofun, nofun, nofun⟩

section

variable {w : World}

theorem Indexed.create (h : Indexed w) {u : Int} {ty : String} {ex : Py.Dict} {t : String}
    (hnew : ∀ v, (t, v) ∉ w.created) (hk : Keeps w (.create u ty ex t)) :
    Indexed (Op.next w (.create u ty ex t)) := by
  obtain ⟨hidle, hlong⟩ := hk
  have hindex : (createSession w.db u ty ex t).find (uskey u) = _ := find_createSession_index (h.index u)
  have hother {v : Int} (hv : v ≠ u) :
      (createSession w.db u ty ex t).find (uskey v) = w.db.find (uskey v) :=
    find_createSession_ne (skey_ne_uskey t v).symm (uskey_ne hv)
  have hold {t' : String} {v : Int} (ht' : (t', v) ∈ w.created) :
      (createSession w.db u ty ex t).find (skey t') = w.db.find (skey t') :=
    find_createSession_ne (skey_ne fun he => hnew v (he ▸ ht')) (skey_ne_uskey t' u)
  refine ⟨fun v a d hv => ?_, fun t' v e hmem hf => ?_, fun v ts hts t' e hmem hf => ?_⟩
  · by_cases hvu : v = u
    · cases (hvu ▸ hv).symm.trans hindex
    · exact h.index v a d ((hother hvu).symm.trans hv)
  · rcases List.mem_cons.1 hmem with he | hin
    · -- the new token
      obtain ⟨rfl, rfl⟩ := Prod.mk.inj he
      obtain rfl := Option.some.inj (find_createSession_token.symm.trans hf)
      exact ⟨_, _, hindex, Redis.Store.mem_insertMember.2 (.inl rfl), _, rfl, by simp⟩
    · have hlive := (hold hin).symm.trans hf
      obtain ⟨ms, d, hms, ht', hd⟩ := h.listed t' v e hin hlive
      by_cases hvu : v = u
      · obtain rfl := hvu
        refine ⟨_, _, hindex, Redis.Store.mem_insertMember.2 (.inr ?_), ?_⟩
        · rwa [Redis.Store.smembers_of_find hms]
        · obtain ⟨x, hx, -⟩ := hd
          refine ⟨x, hx, fun y hy => ?_⟩
          obtain rfl := Option.some.inj hy
          exact hlong t' e hin hlive x hx
      · exact ⟨ms, d, (hother hvu).trans hms, ht', hd⟩
  · have hv : v ≠ u := fun he => hidle ts (he ▸ hts)
    rcases List.mem_cons.1 hmem with he | hmem
    · exact absurd (Prod.mk.inj he).2 hv
    · exact h.read v ts hts t' e hmem ((hold hmem).symm.trans hf)

theorem Indexed.refresh (h : Indexed w) {t ty : String} (hk : Keeps w (.refresh t ty)) :
    Indexed (Op.next w (.refresh t ty)) := by
  cases ht : w.db.find (skey t) with
  | none =>
    have : Op.next w (.refresh t ty) = w := by simp only [Op.next, refreshSession, Redis.Store.find_expire_none ht]
    rwa [this]
  | some e₀ =>
    have hindex (v : Int) : (w.db.expire (skey t) (ttl ty)).find (uskey v) = w.db.find (uskey v) :=
      Redis.Store.find_expire_ne (skey_ne_uskey t v).symm
    have hother {t' : String} (hne : t' ≠ t) :
        (w.db.expire (skey t) (ttl ty)).find (skey t') = w.db.find (skey t') :=
      Redis.Store.find_expire_ne (skey_ne hne)
    have hself := Redis.Store.find_expire_self ht (ttl ty)
    refine ⟨fun v a d hv => h.index v a d ((hindex v).symm.trans hv), fun t' v e hmem hf => ?_,
      fun v ts hts t' e hmem hf => ?_⟩
    · by_cases hne : t' = t
      · obtain rfl := hne
        obtain rfl := Option.some.inj (hself.symm.trans hf)
        obtain ⟨ms, d, hms, ht', -⟩ := h.listed t' v e₀ hmem ht
        exact ⟨ms, d, (hindex v).trans hms, ht', _, rfl, fun y hy => hk v e₀ _ hmem ht hms y hy⟩
      · obtain ⟨ms, d, hms, hin⟩ := h.listed t' v e hmem ((hother hne).symm.trans hf)
        exact ⟨ms, d, (hindex v).trans hms, hin⟩
    · by_cases hne : t' = t
      · obtain rfl := hne
        exact h.read v ts hts t' e₀ hmem ht
      · exact h.read v ts hts t' e hmem ((hother hne).symm.trans hf)

theorem find_of_revokeSession {db : Db} {t t' : String} {o : Option Int} {e}
    (h : (revokeSession db t o).find (skey t') = some e) : t' ≠ t ∧ db.find (skey t') = some e := by
  have hne : t' ≠ t := fun he => by rw [he, find_revokeSession_token] at h; cases h
  exact ⟨hne, (find_revokeSession_ne (skey_ne hne) (skey_ne_uskey t')).symm.trans h⟩

/-- Another token keeps its place in the index. -/
theorem revokeSession_index {db : Db} {t t' : String} {o : Option Int} {v : Int} {ms d} (hne : t' ≠ t)
    (hms : db.find (uskey v) = some ⟨.set ms, d⟩) (ht' : t' ∈ ms) :
    ∃ ms', (revokeSession db t o).find (uskey v) = some ⟨.set ms', d⟩ ∧ t' ∈ ms' := by
  have hdel : (db.del (skey t)).find (uskey v) = some ⟨.set ms, d⟩ :=
    (Redis.Store.find_del_ne (skey_ne_uskey t v).symm).trans hms
  simp only [revokeSession]
  split
  · next u =>
    split
    · exact ⟨ms, hdel, ht'⟩
    · by_cases hv : v = u
      · obtain rfl := hv
        exact Redis.Store.find_srem_self hdel ht' hne
      · exact ⟨ms, (Redis.Store.find_srem_ne (uskey_ne hv)).trans hdel, ht'⟩
  · exact ⟨ms, hdel, ht'⟩

theorem revokeSession_no_text {db : Db} {t : String} {o : Option Int} {v : Int} {a d}
    (h : ∀ a d, db.find (uskey v) ≠ some ⟨.text a, d⟩) :
    (revokeSession db t o).find (uskey v) ≠ some ⟨.text a, d⟩ := by
  have hdel : ∀ a d, (db.del (skey t)).find (uskey v) ≠ some ⟨.text a, d⟩ := by
    rw [Redis.Store.find_del_ne (skey_ne_uskey t v).symm]
    exact h
  simp only [revokeSession]
  split
  · next u =>
    split
    · exact hdel a d
    · by_cases hv : v = u
      · obtain rfl := hv
        exact Redis.Store.find_srem_no_text hdel a d
      · rw [Redis.Store.find_srem_ne (uskey_ne hv)]
        exact hdel a d
  · exact hdel a d

theorem Indexed.revoke (h : Indexed w) (t : String) (o : Option Int) : Indexed (Op.next w (.revoke t o)) := by
  refine ⟨fun v a d => revokeSession_no_text (h.index v), fun t' v e hmem hf => ?_,
    fun v ts hts t' e hmem hf => h.read v ts hts t' e hmem (find_of_revokeSession hf).2⟩
  obtain ⟨hne, hf⟩ := find_of_revokeSession hf
  obtain ⟨ms, d, hms, ht', hd⟩ := h.listed t' v e hmem hf
  obtain ⟨ms', hms', ht'⟩ := revokeSession_index (o := o) hne hms ht'
  exact ⟨ms', d, hms', ht', hd⟩

theorem Indexed.reading (h : Indexed w) (u : Int) : Indexed (w.reading u) := by
  simp only [World.reading]
  split
  · exact h
  · refine ⟨h.index, h.listed, fun v ts hts t e hmem hf => ?_⟩
    rcases List.mem_cons.1 hts with he | hts
    · obtain ⟨rfl, rfl⟩ := Prod.mk.inj he
      obtain ⟨ms, d, hms, ht, -⟩ := h.listed t v e hmem hf
      rwa [Redis.Store.smembers_of_find hms]
    · exact h.read v ts hts t e hmem hf

theorem Indexed.dropped (h : Indexed w) {u : Int} {ts : List String} (hcall : (u, ts) ∈ w.revoking) :
    Indexed (w.dropped u ts) := by
  refine ⟨fun v a d hv => h.index v a d (find_of_dropSessions hv).2.2, fun t v e hmem hf => ?_,
    fun v ts' hts t e hmem hf => h.read v ts' (List.mem_of_mem_erase hts) t e hmem (find_of_dropSessions hf).2.2⟩
  obtain ⟨hts, -, hlive⟩ := find_of_dropSessions hf
  by_cases hv : v = u
  · -- the call has read every token of its user
    obtain rfl := hv
    exact absurd rfl (hts t (h.read v ts hcall t e hmem hlive))
  · obtain ⟨ms, d, hms, hin⟩ := h.listed t v e hmem hlive
    exact ⟨ms, d, (find_dropSessions_ne (fun t _ => (skey_ne_uskey t v).symm) (uskey_ne hv)).trans hms, hin⟩

theorem Indexed.wait (h : Indexed w) (n : Nat) : Indexed (Op.next w (.wait n)) := by
  refine ⟨fun v a d hv => h.index v a d (Redis.Store.find_of_wait hv), fun t v e hmem hf => ?_,
    fun v ts hts t e hmem hf => h.read v ts hts t e hmem (Redis.Store.find_of_wait hf)⟩
  obtain ⟨ms, d, hms, ht, hd⟩ := h.listed t v e hmem (Redis.Store.find_of_wait hf)
  exact ⟨ms, d, Redis.Store.find_wait hms (hd.live (Redis.Store.live_of_find hf)), ht, hd⟩

theorem Indexed.next (h : Indexed w) {op : Op} (hop : op.Can w) (hk : Keeps w op) : Indexed (op.next w) := by
  cases op with
  | create u ty ex t => exact h.create hop hk
  | refresh t ty => exact h.refresh hk
  | revoke t o => exact h.revoke t o
  | readAll u => exact h.reading u
  | dropAll u ts => exact h.dropped hop
  | wait n => exact h.wait n

theorem Indexed.runs {w' : World} (h : Indexed w) (hr : Runs Keeps w w') : Indexed w' := by
  induction hr with
  | refl => exact h
  | step op _ hop hk ih => exact ih.next hop hk

/-! ## The claim on a call -/

theorem Runs.created {C : World → Op → Prop} {w' : World} (h : Runs C w w') {p : String × Int} (hp : p ∈ w.created) :
    p ∈ w'.created := by
  induction h with
  | refl => exact hp
  | @step w' op _ _ _ ih =>
    cases op with
    | create u ty ex t => exact List.mem_cons_of_mem _ ih
    | readAll u => simp only [Op.next, World.reading]; split <;> exact ih
    | _ => exact ih

theorem Gone.reading {t : String} (h : Gone w t) (u : Int) : Gone (w.reading u) t :=
  h.next (show (Op.readAll u).Can w from trivial)

theorem Gone.dropped {t : String} (h : Gone w t) (u : Int) (ts : List String) : Gone (w.dropped u ts) t := by
  refine ⟨h.1, ?_⟩
  cases he : (w.dropped u ts).db.find (skey t) with
  | none => rfl
  | some e => cases h.2.symm.trans (find_of_dropSessions he).2.2

/-- A token the call has read is gone after its pipeline. -/
theorem gone_of_read {t : String} {u v : Int} {ts : List String} (hmem : (t, v) ∈ w.created) (ht : t ∈ ts) :
    Gone (w.dropped u ts) t := by
  refine ⟨⟨v, hmem⟩, ?_⟩
  cases he : (w.dropped u ts).db.find (skey t) with
  | none => rfl
  | some e => exact absurd rfl ((find_of_dropSessions he).1 t ht)

/-- Every token of the user is gone when the call returns. -/
theorem RevokesAll.gone {w' : World} {u : Int} {t : String} (h : RevokesAll u w w') (hw : Indexed w)
    (hmem : (t, u) ∈ w.created) : Gone w' t := by
  have hread {e} (hf : w.db.find (skey t) = some e) : t ∈ w.db.smembers (uskey u) := by
    obtain ⟨ms, d, hms, ht, -⟩ := hw.listed t u e hmem hf
    rwa [Redis.Store.smembers_of_find hms]
  cases hf : w.db.find (skey t) with
  | none =>
    have hgone : Gone w t := ⟨⟨u, hmem⟩, hf⟩
    cases h with
    | nothing => exact hgone
    | deleted _ hrun => exact ((hgone.reading u).runs hrun).dropped u _
  | some e =>
    cases h with
    | nothing hnil => exact absurd (hread hf) (by simp [hnil])
    | deleted _ hrun =>
      have hmem' : (t, u) ∈ (w.reading u).created := by
        simp only [World.reading]
        split <;> exact hmem
      exact gone_of_read (hrun.created hmem') (hread hf)

/-- **Revoking all sessions revokes all of them** in every run whose logins
and refreshes leave each index at least as long as its tokens, and no login
of which falls between a call's halves. -/
theorem revoke_all_sessions_revokes (h : Runs Keeps {} w) (u : Int) : AllRevoked w u :=
  fun _ _ _ hcall hrun hmem => ((hcall.gone (Indexed.empty.runs h) hmem).runs hrun).refused

end

/-! ## Two logins -/

/-- An API login. -/
def apiLogin : World := Op.next {} (.create 7 "api" [] "a1")

theorem runs_apiLogin {C : World → Op → Prop} (hC : C {} (.create 7 "api" [] "a1")) : Runs C {} apiLogin :=
  .step _ (.refl _) (fun _ => nofun) hC

theorem revoke_all_sessions_revokes_of_login : AllRevoked apiLogin 7 ∧ (getSession apiLogin.db "a1").isSome := by
  have hrun : Runs Keeps {} apiLogin := runs_apiLogin ⟨fun _ => nofun, fun _ _ => nofun⟩
  exact ⟨revoke_all_sessions_revokes hrun 7, by decide +kernel⟩

/-- A Mini App login after it. -/
def bothLogins : World := Op.next apiLogin (.create 7 "miniapp" [] "m1")

/-- The same 25 hours later. -/
def nextDay : World := Op.next bothLogins (.wait (25 * 3600 * 1000))

/-- The call revokes nothing: the index has gone with the Mini App's session. -/
theorem next_day_not_revoked : Runs Any {} nextDay ∧ ¬ AllRevoked nextDay 7 := by
  have hcan : Op.Can apiLogin (.create 7 "miniapp" [] "m1") := by
    intro u hu
    simp [apiLogin, Op.next] at hu
  have hrun : Runs Any {} nextDay := .step _ (.step _ (runs_apiLogin trivial) hcan trivial) trivial trivial
  refine ⟨hrun, fun hall => ?_⟩
  have hempty : nextDay.db.smembers (uskey 7) = [] := by decide +kernel
  have hlive : (getSession nextDay.db "a1").isSome := by decide +kernel
  have hmem : ("a1", 7) ∈ nextDay.created := by simp [nextDay, bothLogins, apiLogin, Op.next]
  rw [hall nextDay nextDay "a1" (.nothing hempty) (.refl _) hmem] at hlive
  cases hlive

end Falaron.Sessions
