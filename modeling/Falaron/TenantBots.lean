/-
The bots that run for the tenants, started and stopped on one event loop.

`start_tenant` looks into the index, waits for Telegram, and then registers;
`stop_tenant` takes out of the index first and waits afterwards. Nothing
keeps calls for one tenant apart in between: two starts both pass the check
and the second hides the first for good, and a start whose tenant is stopped
meanwhile registers a bot all the same. `bots_consistent` says what holds
when they are kept apart. The two indices agree in any case, because a
tenant keeps its slug.

A step is what the loop runs without a break: a call up to its first wait,
or what follows an answer. Answers come in any order, or never.
-/
import Falaron.Tenants

namespace Falaron.Tenants

structure TenantBotInstance where
  /-- Which object it is. -/
  serial : Nat
  tenantId : Int
  tenantSlug : String
  botToken : String
  webhookSecret : String
  deriving DecidableEq

/-- What a call of `stop` waits for. -/
inductive Stopping where
  | deleteWebhook
  | closeSession
  deriving DecidableEq

structure TenantBotManager where
  instances : Int → Option TenantBotInstance := fun _ => none
  bySlug : String → Option TenantBotInstance := fun _ => none
  /-- The calls of `start_tenant` that wait for `set_webhook`. -/
  starting : List TenantBotInstance := []
  /-- The calls of `stop_tenant` that wait. -/
  stopping : List (TenantBotInstance × Stopping) := []
  /-- The instances that have been started and not yet stopped. -/
  running : List TenantBotInstance := []
  created : Nat := 0

inductive BotEvent where
  /-- `start_tenant`, and whether aiogram takes the token. -/
  | start (tenant : Tenant) (tokenTaken : Bool)
  /-- The answer to `set_webhook`, or its failure. -/
  | webhookSet (serial : Nat) (ok : Bool)
  | stop (tenantId : Int) (deleteWebhook : Bool)
  | webhookDeleted (serial : Nat) (ok : Bool)
  | sessionClosed (serial : Nat) (ok : Bool)

/-- How a step leaves the call that takes it. -/
inductive Progress where
  | waits
  | started (inst : TenantBotInstance)
  | raised
  | stopped (tenantId : Int)
  /-- No call waits for this answer. -/
  | ignored

/-- `get_decrypted_bot_token` -/
def getDecryptedBotToken (h : Host) (t : Tenant) : Option String :=
  if t.botTokenEnc.isEmpty then none else h.decrypt t.botTokenEnc

namespace TenantBotManager

variable (h : Host) (s : TenantBotManager)

/-- `start_tenant`, as far as `set_webhook`. -/
def startTenant (t : Tenant) (tokenTaken : Bool) : TenantBotManager × Progress :=
  match s.instances t.id with
  | some inst => (s, .started inst)
  | none => match getDecryptedBotToken h t with
    | none => (s, .raised)
    | some botToken =>
      if tokenTaken then
        ({ s with
            starting := s.starting ++ [⟨s.created, t.id, t.slug, botToken, t.webhookSecret⟩]
            created := s.created + 1 }, .waits)
      else (s, .raised)

/-- The rest of `_start_instance`. -/
def afterSetWebhook (serial : Nat) (ok : Bool) : TenantBotManager × Progress :=
  match s.starting.find? (·.serial = serial) with
  | none => (s, .ignored)
  | some inst =>
    if ok then
      ({ s with
          starting := s.starting.erase inst
          running := s.running ++ [inst]
          instances := Function.update s.instances inst.tenantId (some inst)
          bySlug := Function.update s.bySlug inst.tenantSlug (some inst) }, .started inst)
    else ({ s with starting := s.starting.erase inst }, .raised)

/-- `stop_tenant`, as far as the first wait of `stop`. -/
def stopTenant (tenantId : Int) (deleteWebhook : Bool) : TenantBotManager × Progress :=
  match s.instances tenantId with
  | none => (s, .stopped tenantId)
  | some inst =>
    ({ s with
        instances := Function.update s.instances tenantId none
        bySlug := Function.update s.bySlug inst.tenantSlug none
        stopping := s.stopping ++ [(inst, if deleteWebhook then .deleteWebhook else .closeSession)] }, .waits)

/-- The `finally` of `stop`, which swallows what went wrong before. -/
def finishStop (call : TenantBotInstance × Stopping) : TenantBotManager × Progress :=
  ({ s with stopping := s.stopping.erase call, running := s.running.erase call.1 }, .stopped call.1.tenantId)

def afterDeleteWebhook (serial : Nat) (ok : Bool) : TenantBotManager × Progress :=
  match s.stopping.find? fun call => call.1.serial = serial && call.2 = .deleteWebhook with
  | none => (s, .ignored)
  | some call =>
    if ok then
      ({ s with stopping := s.stopping.map fun c => if c = call then (call.1, .closeSession) else c }, .waits)
    else s.finishStop call

def afterCloseSession (serial : Nat) : TenantBotManager × Progress :=
  match s.stopping.find? fun call => call.1.serial = serial && call.2 = .closeSession with
  | none => (s, .ignored)
  | some call => s.finishStop call

def handle : BotEvent → TenantBotManager × Progress
  | .start t tokenTaken => s.startTenant h t tokenTaken
  | .webhookSet serial ok => s.afterSetWebhook serial ok
  | .stop tenantId deleteWebhook => s.stopTenant tenantId deleteWebhook
  | .webhookDeleted serial ok => s.afterDeleteWebhook serial ok
  | .sessionClosed serial _ => s.afterCloseSession serial

def step (e : BotEvent) : TenantBotManager := (s.handle h e).1

def run (es : List BotEvent) : TenantBotManager := es.foldl (step h) {}

/-! ## What is to hold -/

def startingOf (tenantId : Int) : List TenantBotInstance := s.starting.filter (·.tenantId = tenantId)

def stoppingOf (tenantId : Int) : List TenantBotInstance :=
  (s.stopping.filter (·.1.tenantId = tenantId)).map (·.1)

def runningOf (tenantId : Int) : List TenantBotInstance := s.running.filter (·.tenantId = tenantId)

def IndicesAgree : Prop :=
  ∀ inst, (∃ tenantId, s.instances tenantId = some inst) ↔ ∃ slug, s.bySlug slug = some inst

def Registered (tenantId : Int) : Prop :=
  ∃ inst, inst.tenantId = tenantId ∧ ((∃ k, s.instances k = some inst) ∨ ∃ slug, s.bySlug slug = some inst)

/-- A start that goes on to `set_webhook` overlaps no start and no stop of its tenant, and no stop is called
during a start. -/
def Allowed : BotEvent → Prop
  | .start t tokenTaken => s.instances t.id = none → (getDecryptedBotToken h t).isSome → tokenTaken = true →
      s.startingOf t.id = [] ∧ s.stoppingOf t.id = []
  | .stop tenantId _ => s.startingOf tenantId = []
  | _ => True

instance (e : BotEvent) : Decidable (s.Allowed h e) :=
  match e with
  | .start .. => inferInstanceAs (Decidable (_ → _ → _ → _))
  | .stop .. => inferInstanceAs (Decidable (_ = _))
  | .webhookSet .. | .webhookDeleted .. | .sessionClosed .. => inferInstanceAs (Decidable True)

/-! ## The indices -/

/-- Each index holds an instance under its own key, and so does the other; `rows` are the tenants that calls
are about. -/
structure Indexed (rows : Tenant → Prop) (s : TenantBotManager) : Prop where
  by_id : ∀ tenantId inst, s.instances tenantId = some inst →
    inst.tenantId = tenantId ∧ s.bySlug inst.tenantSlug = some inst
  by_slug : ∀ slug inst, s.bySlug slug = some inst →
    inst.tenantSlug = slug ∧ s.instances inst.tenantId = some inst
  known : ∀ inst, inst ∈ s.starting ∨ s.instances inst.tenantId = some inst →
    ∃ t, rows t ∧ t.id = inst.tenantId ∧ t.slug = inst.tenantSlug

section

variable {h : Host} {s : TenantBotManager} {rows : Tenant → Prop}

theorem Indexed.agree (hs : Indexed rows s) : s.IndicesAgree := by
  intro inst
  constructor
  · rintro ⟨tenantId, hinst⟩
    exact ⟨_, (hs.by_id _ _ hinst).2⟩
  · rintro ⟨slug, hinst⟩
    exact ⟨_, (hs.by_slug _ _ hinst).2⟩

theorem Indexed.register (hs : Indexed rows s) {inst : TenantBotInstance} (hinst : inst ∈ s.starting)
    (hrows : ∀ t t', rows t → rows t' → (t.id = t'.id ↔ t.slug = t'.slug)) {rest : TenantBotManager}
    (hids : rest.instances = Function.update s.instances inst.tenantId (some inst))
    (hslugs : rest.bySlug = Function.update s.bySlug inst.tenantSlug (some inst))
    (hstarting : rest.starting ⊆ s.starting) : Indexed rows rest := by
  obtain ⟨t, ht, htid, htslug⟩ := hs.known inst (.inl hinst)
  -- two registered instances have an id in common if and only if they have a slug in common
  have hsame : ∀ other, s.instances other.tenantId = some other →
      (other.tenantId = inst.tenantId ↔ other.tenantSlug = inst.tenantSlug) := by
    intro other hother
    obtain ⟨t', ht', htid', htslug'⟩ := hs.known other (.inr hother)
    rw [← htid, ← htid', ← htslug, ← htslug']
    exact hrows t' t ht' ht
  refine ⟨fun tenantId other hother => ?_, fun slug other hother => ?_, fun other hother => ?_⟩
  · rw [hids, Function.update_apply] at hother
    split at hother
    next heq =>
      obtain rfl := Option.some.inj hother
      exact ⟨heq.symm, by rw [hslugs, Function.update_self]⟩
    next hne =>
      obtain ⟨rfl, hslug⟩ := hs.by_id _ _ hother
      refine ⟨rfl, ?_⟩
      rw [hslugs, Function.update_of_ne (fun heq => hne ((hsame other hother).mpr heq))]
      exact hslug
  · rw [hslugs, Function.update_apply] at hother
    split at hother
    next heq =>
      obtain rfl := Option.some.inj hother
      exact ⟨heq.symm, by rw [hids, Function.update_self]⟩
    next hne =>
      obtain ⟨rfl, hid⟩ := hs.by_slug _ _ hother
      refine ⟨rfl, ?_⟩
      rw [hids, Function.update_of_ne (fun heq => hne ((hsame other hid).mp heq))]
      exact hid
  · rcases hother with hother | hother
    · exact hs.known other (.inl (hstarting hother))
    · rw [hids, Function.update_apply] at hother
      split at hother
      · obtain rfl := Option.some.inj hother
        exact ⟨t, ht, htid, htslug⟩
      · exact hs.known other (.inr hother)

theorem Indexed.unregister (hs : Indexed rows s) {tenantId : Int} {inst : TenantBotInstance}
    (hinst : s.instances tenantId = some inst) {rest : TenantBotManager}
    (hids : rest.instances = Function.update s.instances tenantId none)
    (hslugs : rest.bySlug = Function.update s.bySlug inst.tenantSlug none)
    (hstarting : rest.starting = s.starting) : Indexed rows rest := by
  obtain ⟨rfl, hslug⟩ := hs.by_id _ _ hinst
  refine ⟨fun k other hother => ?_, fun slug other hother => ?_, fun other hother => ?_⟩
  · rw [hids, Function.update_apply] at hother
    split at hother
    · cases hother
    next hne =>
      obtain ⟨rfl, hother'⟩ := hs.by_id _ _ hother
      refine ⟨rfl, ?_⟩
      rw [hslugs, Function.update_of_ne]
      · exact hother'
      · intro heq
        rw [heq, hslug] at hother'
        exact hne (congrArg TenantBotInstance.tenantId (Option.some.inj hother')).symm
  · rw [hslugs, Function.update_apply] at hother
    split at hother
    · cases hother
    next hne =>
      obtain ⟨rfl, hother'⟩ := hs.by_slug _ _ hother
      refine ⟨rfl, ?_⟩
      rw [hids, Function.update_of_ne]
      · exact hother'
      · intro heq
        rw [heq, hinst] at hother'
        exact hne (congrArg TenantBotInstance.tenantSlug (Option.some.inj hother')).symm
  · rw [hstarting, hids, Function.update_apply] at hother
    rcases hother with hother | hother
    · exact hs.known other (.inl hother)
    · split at hother
      · cases hother
      · exact hs.known other (.inr hother)

/-- A step that leaves the indices alone and lets no unknown instance start. -/
theorem Indexed.same (hs : Indexed rows s) {rest : TenantBotManager} (hids : rest.instances = s.instances)
    (hslugs : rest.bySlug = s.bySlug)
    (hstarting : ∀ inst ∈ rest.starting, inst ∈ s.starting ∨
      ∃ t, rows t ∧ t.id = inst.tenantId ∧ t.slug = inst.tenantSlug) : Indexed rows rest := by
  refine ⟨by rw [hids, hslugs]; exact hs.by_id, by rw [hids, hslugs]; exact hs.by_slug, fun inst hinst => ?_⟩
  rw [hids] at hinst
  rcases hinst with hinst | hinst
  · rcases hstarting inst hinst with hinst | hknown
    · exact hs.known inst (.inl hinst)
    · exact hknown
  · exact hs.known inst (.inr hinst)

theorem step_indexed (hs : Indexed rows s) {e : BotEvent}
    (hrows : ∀ t t', rows t → rows t' → (t.id = t'.id ↔ t.slug = t'.slug))
    (he : ∀ t tokenTaken, e = .start t tokenTaken → rows t) : Indexed rows (s.step h e) := by
  cases e with
  | start t tokenTaken =>
    simp only [step, handle, startTenant]
    split
    · exact hs
    split
    · exact hs
    split
    · refine hs.same rfl rfl fun inst hinst => ?_
      rcases List.mem_append.mp hinst with hinst | hinst
      · exact .inl hinst
      · obtain rfl := List.mem_singleton.mp hinst
        exact .inr ⟨t, he t tokenTaken rfl, rfl, rfl⟩
    · exact hs
  | webhookSet serial ok =>
    simp only [step, handle, afterSetWebhook]
    split
    · exact hs
    next inst hfound =>
      split
      · exact hs.register (List.mem_of_find?_eq_some hfound) hrows rfl rfl List.erase_subset
      · exact hs.same rfl rfl fun other hother => .inl (List.mem_of_mem_erase hother)
  | stop tenantId deleteWebhook =>
    simp only [step, handle, stopTenant]
    split
    · exact hs
    next inst hinst => exact hs.unregister hinst rfl rfl rfl
  | webhookDeleted serial ok =>
    simp only [step, handle, afterDeleteWebhook]
    split
    · exact hs
    · split
      · exact hs.same rfl rfl fun inst hinst => .inl hinst
      · exact hs.same rfl rfl fun inst hinst => .inl hinst
  | sessionClosed serial ok =>
    simp only [step, handle, afterCloseSession]
    split
    · exact hs
    · exact hs.same rfl rfl fun inst hinst => .inl hinst

theorem Indexed.init : Indexed rows {} := ⟨by simp, by simp, by simp⟩

/-! ## One bot for each tenant -/

/-- A tenant's instance is registered, being started, or being stopped, and one is in no two of these places;
those that run are the registered and the stopping ones. -/
structure Apart (s : TenantBotManager) : Prop where
  lone : ∀ tenantId, ((s.instances tenantId).toList ++ s.startingOf tenantId ++ s.stoppingOf tenantId).length ≤ 1
  running : ∀ tenantId, s.runningOf tenantId = (s.instances tenantId).toList ++ s.stoppingOf tenantId

theorem Apart.atMostOne (hs : Apart s) (tenantId : Int) : (s.runningOf tenantId).length ≤ 1 := by
  have hlone := hs.lone tenantId
  rw [hs.running]
  simp only [List.length_append] at hlone ⊢
  omega

theorem mem_startingOf {inst : TenantBotInstance} (hinst : inst ∈ s.starting) :
    inst ∈ s.startingOf inst.tenantId := by
  simp [startingOf, hinst]

/-- While a tenant's bot is being started, it has no other. -/
theorem Apart.of_starting (hs : Apart s) {inst : TenantBotInstance} (hinst : inst ∈ s.starting) :
    s.instances inst.tenantId = none ∧ s.startingOf inst.tenantId = [inst] ∧ s.stoppingOf inst.tenantId = [] := by
  have hlone := hs.lone inst.tenantId
  have hmem := mem_startingOf hinst
  have hpos := List.length_pos_of_mem hmem
  simp only [List.length_append] at hlone
  obtain ⟨other, hother⟩ := List.length_eq_one_iff.mp (by omega : (s.startingOf inst.tenantId).length = 1)
  have hids : (s.instances inst.tenantId).toList = [] := List.eq_nil_of_length_eq_zero (by omega)
  refine ⟨by simpa using hids, ?_, List.eq_nil_of_length_eq_zero (by omega)⟩
  rw [hother] at hmem ⊢
  rw [List.mem_singleton.mp hmem]

/-- While a tenant's bot is being stopped, it has no other. -/
theorem Apart.of_stopping (hs : Apart s) {call : TenantBotInstance × Stopping} (hcall : call ∈ s.stopping) :
    s.instances call.1.tenantId = none ∧ s.startingOf call.1.tenantId = [] ∧
      s.stopping.filter (·.1.tenantId = call.1.tenantId) = [call] := by
  have hlone := hs.lone call.1.tenantId
  have hmem : call ∈ s.stopping.filter (·.1.tenantId = call.1.tenantId) := List.mem_filter.mpr ⟨hcall, by simp⟩
  have hpos := List.length_pos_of_mem hmem
  simp only [List.length_append, stoppingOf, List.length_map] at hlone
  obtain ⟨other, hother⟩ := List.length_eq_one_iff.mp
    (by omega : (s.stopping.filter (·.1.tenantId = call.1.tenantId)).length = 1)
  have hids : (s.instances call.1.tenantId).toList = [] := List.eq_nil_of_length_eq_zero (by omega)
  refine ⟨by simpa using hids, List.eq_nil_of_length_eq_zero (by omega), ?_⟩
  rw [hother] at hmem ⊢
  rw [List.mem_singleton.mp hmem]

theorem startTenant_apart (hs : Apart s) {t : Tenant} {tokenTaken : Bool}
    (he : s.Allowed h (.start t tokenTaken)) : Apart (s.startTenant h t tokenTaken).1 := by
  unfold startTenant
  split
  · exact hs
  next hnone =>
  split
  · exact hs
  next botToken htoken =>
  split
  next htaken =>
    obtain ⟨hstarting, hstopping⟩ := he hnone (by simp [htoken]) htaken
    refine ⟨fun tenantId => ?_, hs.running⟩
    have hlone := hs.lone tenantId
    simp only [startingOf, stoppingOf] at hlone hstarting hstopping ⊢
    by_cases hid : t.id = tenantId
    · subst hid
      simp [hnone, hstarting, hstopping]
    · simpa [hid] using hlone
  · exact hs

theorem afterSetWebhook_apart (hs : Apart s) {serial : Nat} {ok : Bool} :
    Apart (s.afterSetWebhook serial ok).1 := by
  unfold afterSetWebhook
  split
  · exact hs
  next inst hfound =>
  have hinst := List.mem_of_find?_eq_some hfound
  obtain ⟨hnone, hstarting, hstopping⟩ := hs.of_starting hinst
  -- the call is no longer among those that wait
  have herase (tenantId : Int) : (s.starting.erase inst).filter (·.tenantId = tenantId) =
      (s.startingOf tenantId).erase inst := List.erase_filter.symm
  split
  · refine ⟨fun tenantId => ?_, fun tenantId => ?_⟩
    · have hlone := hs.lone tenantId
      simp only [startingOf, stoppingOf] at hlone hstarting hstopping ⊢
      rw [herase]
      by_cases hid : tenantId = inst.tenantId
      · subst hid
        simp [hstarting, hstopping, startingOf]
      · have hle := (s.startingOf tenantId).length_erase_le (a := inst)
        simp only [Function.update_of_ne hid, List.length_append, startingOf] at hlone hle ⊢
        omega
    · have hrunning := hs.running tenantId
      simp only [runningOf, stoppingOf] at hrunning hstopping ⊢
      by_cases hid : tenantId = inst.tenantId
      · subst hid
        simp [List.filter_append, hrunning, hnone, hstopping]
      · have hne : inst.tenantId ≠ tenantId := fun heq => hid heq.symm
        simpa [List.filter_append, Function.update_of_ne hid, hne] using hrunning
  · refine ⟨fun tenantId => ?_, hs.running⟩
    have hlone := hs.lone tenantId
    have hle := (s.startingOf tenantId).length_erase_le (a := inst)
    simp only [startingOf, stoppingOf, List.length_append] at hlone hle ⊢
    rw [herase]
    simp only [startingOf]
    omega

theorem stopTenant_apart (hs : Apart s) (hx : Indexed rows s) {tenantId : Int} {deleteWebhook : Bool} :
    Apart (s.stopTenant tenantId deleteWebhook).1 := by
  unfold stopTenant
  split
  · exact hs
  next inst hinst =>
  obtain ⟨rfl, -⟩ := hx.by_id _ _ hinst
  refine ⟨fun k => ?_, fun k => ?_⟩
  · have hlone := hs.lone k
    simp only [startingOf, stoppingOf, List.filter_append, List.map_append, List.length_append] at hlone ⊢
    by_cases hid : k = inst.tenantId
    · subst hid
      simp [hinst] at hlone ⊢
      omega
    · have hne : inst.tenantId ≠ k := fun heq => hid heq.symm
      simpa [Function.update_of_ne hid, hne] using hlone
  · have hlone := hs.lone k
    have hrunning := hs.running k
    simp only [runningOf, stoppingOf, List.filter_append, List.map_append] at hrunning ⊢
    by_cases hid : k = inst.tenantId
    · subst hid
      have hnil : s.stopping.filter (·.1.tenantId = inst.tenantId) = [] := by
        simp only [hinst, Option.toList_some, List.length_append, stoppingOf, List.length_map,
          List.length_singleton] at hlone
        exact List.eq_nil_of_length_eq_zero (by omega)
      simp [hrunning, hinst, hnil]
    · have hne : inst.tenantId ≠ k := fun heq => hid heq.symm
      simpa [Function.update_of_ne hid, hne] using hrunning

theorem finishStop_apart (hs : Apart s) {call : TenantBotInstance × Stopping} (hcall : call ∈ s.stopping) :
    Apart (s.finishStop call).1 := by
  obtain ⟨hnone, hstarting, hstopping⟩ := hs.of_stopping hcall
  have herase (tenantId : Int) : (s.stopping.erase call).filter (·.1.tenantId = tenantId) =
      (s.stopping.filter (·.1.tenantId = tenantId)).erase call := List.erase_filter.symm
  refine ⟨fun tenantId => ?_, fun tenantId => ?_⟩
  · have hlone := hs.lone tenantId
    have hle := (s.stopping.filter (·.1.tenantId = tenantId)).length_erase_le (a := call)
    simp only [finishStop, startingOf, stoppingOf, List.length_append, List.length_map] at hlone ⊢
    rw [herase]
    omega
  · have hrunning := hs.running tenantId
    have hleft : (s.running.erase call.1).filter (·.tenantId = tenantId) = (s.runningOf tenantId).erase call.1 :=
      List.erase_filter.symm
    simp only [finishStop, runningOf, stoppingOf] at hrunning hleft ⊢
    rw [herase, hleft, hrunning]
    by_cases hid : tenantId = call.1.tenantId
    · subst hid
      simp [hnone, hstopping]
    · have hcall' : call ∉ s.stopping.filter (·.1.tenantId = tenantId) := by
        intro hmem
        exact hid (Eq.symm (by simpa using (List.mem_filter.mp hmem).2))
      rw [List.erase_of_not_mem hcall', List.erase_of_not_mem]
      rw [← hrunning]
      intro hmem
      exact hid (Eq.symm (by simpa using (List.mem_filter.mp hmem).2))

theorem afterDeleteWebhook_apart (hs : Apart s) {serial : Nat} {ok : Bool} :
    Apart (s.afterDeleteWebhook serial ok).1 := by
  unfold afterDeleteWebhook
  split
  · exact hs
  next call hfound =>
  split
  · -- the call goes on waiting, for something else
    have hsame (tenantId : Int) :
        ((s.stopping.map fun c => if c = call then (call.1, .closeSession) else c).filter
          (·.1.tenantId = tenantId)).map (·.1) = s.stoppingOf tenantId := by
      have hfst (c : TenantBotInstance × Stopping) :
          (if c = call then (call.1, .closeSession) else c).1 = c.1 := by
        split
        next heq => rw [heq]
        · rfl
      simp only [stoppingOf, List.filter_map, List.map_map, Function.comp_def, hfst]
    refine ⟨fun tenantId => ?_, fun tenantId => ?_⟩
    · have hlone := hs.lone tenantId
      rw [← hsame] at hlone
      exact hlone
    · have hrunning := hs.running tenantId
      rw [← hsame] at hrunning
      exact hrunning
  · exact finishStop_apart hs (List.mem_of_find?_eq_some hfound)

theorem step_apart (hs : Apart s) (hx : Indexed rows s) {e : BotEvent} (he : s.Allowed h e) :
    Apart (s.step h e) := by
  cases e with
  | start t tokenTaken => exact startTenant_apart hs he
  | webhookSet serial ok => exact afterSetWebhook_apart hs
  | stop tenantId deleteWebhook => exact stopTenant_apart hs hx
  | webhookDeleted serial ok => exact afterDeleteWebhook_apart hs
  | sessionClosed serial ok =>
    simp only [step, handle, afterCloseSession]
    split
    · exact hs
    next call hfound => exact finishStop_apart hs (List.mem_of_find?_eq_some hfound)

/-! ## Stopped for good -/

/-- No bot of the tenant is registered or on its way there. -/
def Quiet (s : TenantBotManager) (tenantId : Int) : Prop :=
  s.instances tenantId = none ∧ s.startingOf tenantId = []

theorem Quiet.not_registered {tenantId : Int} (hq : s.Quiet tenantId) (hx : Indexed rows s) :
    ¬ s.Registered tenantId := by
  rintro ⟨inst, rfl, ⟨k, hinst⟩ | ⟨slug, hinst⟩⟩
  · obtain ⟨rfl, -⟩ := hx.by_id _ _ hinst
    rw [hq.1] at hinst
    cases hinst
  · have hid := (hx.by_slug _ _ hinst).2
    rw [hq.1] at hid
    cases hid

/-- Only a start of the tenant ends the quiet. -/
theorem Quiet.step {tenantId : Int} (hq : s.Quiet tenantId) {e : BotEvent}
    (he : ∀ t tokenTaken, e = .start t tokenTaken → t.id ≠ tenantId) : (s.step h e).Quiet tenantId := by
  obtain ⟨hnone, hstarting⟩ := hq
  have herased (inst : TenantBotInstance) : (s.starting.erase inst).filter (·.tenantId = tenantId) = [] := by
    rw [← List.erase_filter]
    exact congrArg (List.erase · inst) hstarting
  cases e with
  | start t tokenTaken =>
    have hne := he t tokenTaken rfl
    simp only [TenantBotManager.step, handle, startTenant]
    split
    · exact ⟨hnone, hstarting⟩
    split
    · exact ⟨hnone, hstarting⟩
    split
    · exact ⟨hnone, by simpa [startingOf, hne] using hstarting⟩
    · exact ⟨hnone, hstarting⟩
  | webhookSet serial ok =>
    simp only [TenantBotManager.step, handle, afterSetWebhook]
    split
    · exact ⟨hnone, hstarting⟩
    next inst hfound =>
      have hne : tenantId ≠ inst.tenantId := by
        rintro rfl
        have hmem := mem_startingOf (List.mem_of_find?_eq_some hfound)
        rw [hstarting] at hmem
        cases hmem
      split
      · exact ⟨by simpa [Function.update_of_ne hne] using hnone, herased inst⟩
      · exact ⟨hnone, herased inst⟩
  | stop k deleteWebhook =>
    simp only [TenantBotManager.step, handle, stopTenant]
    split
    · exact ⟨hnone, hstarting⟩
    · refine ⟨?_, hstarting⟩
      by_cases hid : tenantId = k
      · simp [hid]
      · simpa [Function.update_of_ne hid] using hnone
  | webhookDeleted serial ok =>
    simp only [TenantBotManager.step, handle, afterDeleteWebhook]
    split
    · exact ⟨hnone, hstarting⟩
    · split
      · exact ⟨hnone, hstarting⟩
      · exact ⟨hnone, hstarting⟩
  | sessionClosed serial ok =>
    simp only [TenantBotManager.step, handle, afterCloseSession]
    split
    · exact ⟨hnone, hstarting⟩
    · exact ⟨hnone, hstarting⟩

/-- When a stop of the tenant has ended, all is quiet. -/
theorem quiet_of_stopped (hs : Apart s) {e : BotEvent} (he : s.Allowed h e) {tenantId : Int}
    (hstopped : (s.handle h e).2 = .stopped tenantId) : (s.step h e).Quiet tenantId := by
  have hfinish {call : TenantBotInstance × Stopping} (hcall : call ∈ s.stopping)
      (hid : call.1.tenantId = tenantId) : (s.finishStop call).1.Quiet tenantId := by
    subst hid
    obtain ⟨hnone, hstarting, -⟩ := hs.of_stopping hcall
    exact ⟨hnone, hstarting⟩
  cases e with
  | start t tokenTaken =>
    simp only [handle, startTenant] at hstopped
    split at hstopped
    · cases hstopped
    split at hstopped
    · cases hstopped
    split at hstopped <;> cases hstopped
  | webhookSet serial ok =>
    simp only [handle, afterSetWebhook] at hstopped
    split at hstopped
    · cases hstopped
    split at hstopped <;> cases hstopped
  | stop k deleteWebhook =>
    simp only [step, handle, stopTenant] at hstopped ⊢
    split at hstopped
    next hnone =>
      obtain rfl := Progress.stopped.inj hstopped
      exact ⟨hnone, he⟩
    · cases hstopped
  | webhookDeleted serial ok =>
    simp only [step, handle, afterDeleteWebhook] at hstopped ⊢
    split at hstopped
    · cases hstopped
    next call hfound =>
      split at hstopped
      · cases hstopped
      next hok =>
        rw [if_neg hok]
        exact hfinish (List.mem_of_find?_eq_some hfound) (Progress.stopped.inj hstopped)
  | sessionClosed serial ok =>
    simp only [step, handle, afterCloseSession] at hstopped ⊢
    split at hstopped
    · cases hstopped
    next call hfound =>
      exact hfinish (List.mem_of_find?_eq_some hfound) (Progress.stopped.inj hstopped)

end

/-! ## Runs -/

section

variable {h : Host} {rows : Tenant → Prop}

theorem run_append (es : List BotEvent) (e : BotEvent) : run h (es ++ [e]) = (run h es).step h e := by
  simp [run]

theorem run_indexed {es done : List BotEvent}
    (hrows : ∀ t t', rows t → rows t' → (t.id = t'.id ↔ t.slug = t'.slug))
    (hes : ∀ t tokenTaken, .start t tokenTaken ∈ es → rows t) (hdone : done <+: es) :
    Indexed rows (run h done) := by
  refine @Txn.prefixes_keep _ _ (step h) (Indexed rows)
    (fun _ e => ∀ t tokenTaken, e = .start t tokenTaken → rows t) (fun s e hs he => step_indexed hs hrows he) {} es Indexed.init ?_ done hdone
  rintro done e hdone t tokenTaken rfl
  exact hes t tokenTaken (hdone.subset (by simp))

theorem run_apart {es done : List BotEvent}
    (hrows : ∀ t t', rows t → rows t' → (t.id = t'.id ↔ t.slug = t'.slug))
    (hes : ∀ t tokenTaken, .start t tokenTaken ∈ es → rows t)
    (hallowed : ∀ done e, done ++ [e] <+: es → (run h done).Allowed h e) (hdone : done <+: es) :
    Apart (run h done) := by
  have hinit : Apart {} := ⟨by simp [startingOf, stoppingOf], by simp [runningOf, stoppingOf]⟩
  -- a call may do what it does because the indices are right
  refine @Txn.prefixes_keep _ _ (step h) Apart (fun s e => Indexed rows s ∧ s.Allowed h e)
    (fun s e hs he => step_apart hs he.1 he.2) {} es hinit (fun done e he => ?_) done hdone
  exact ⟨run_indexed hrows hes ((List.prefix_append done [e]).trans he), hallowed done e he⟩

theorem run_quiet {done mid : List BotEvent} {tenantId : Int} (hq : (run h done).Quiet tenantId)
    (hmid : ∀ t tokenTaken, .start t tokenTaken ∈ mid → t.id ≠ tenantId) :
    (run h (done ++ mid)).Quiet tenantId := by
  induction mid using List.reverseRecOn with
  | nil => simpa using hq
  | append_singleton mid e ih =>
    rw [← List.append_assoc, run_append]
    refine (ih fun t tokenTaken ht => hmid t tokenTaken (by simp [ht])).step ?_
    rintro t tokenTaken rfl
    exact hmid t tokenTaken (by simp)

end

/-- Once a call of `stop_tenant` has ended and no start of the tenant follows, no bot of it is registered. -/
def StaysStopped (h : Host) (es : List BotEvent) : Prop :=
  ∀ done e rest tenantId, es = done ++ e :: rest → ((run h done).handle h e).2 = .stopped tenantId →
    (∀ t tokenTaken, .start t tokenTaken ∈ rest → t.id ≠ tenantId) →
    ∀ mid, mid <+: rest → ¬ (run h (done ++ e :: mid)).Registered tenantId

/-- **The bots of the tenants that a run of requests leaves in its table.** However the calls interleave, the
indices hold the same instances. Where calls for one tenant are kept apart, each tenant has at most one bot
that runs, and a stopped tenant's bot stays away. -/
theorem bots_consistent (h : Host) (cs : List (Request × Moment)) (es : List BotEvent)
    (hes : ∀ t tokenTaken, .start t tokenTaken ∈ es →
      ∃ done, done <+: cs ∧ t ∈ (Tenants.run h done).db.tenants) :
    (∀ done, done <+: es → (run h done).IndicesAgree) ∧
      ((∀ done e, done ++ [e] <+: es → (run h done).Allowed h e) →
        (∀ done, done <+: es → ∀ tenantId, ((run h done).runningOf tenantId).length ≤ 1) ∧ StaysStopped h es) := by
  have hrows : ∀ t t', (∃ done, done <+: cs ∧ t ∈ (Tenants.run h done).db.tenants) →
      (∃ done, done <+: cs ∧ t' ∈ (Tenants.run h done).db.tenants) → (t.id = t'.id ↔ t.slug = t'.slug) := by
    rintro t t' ⟨done, hdone, ht⟩ ⟨done', hdone', ht'⟩
    exact run_slug_iff hdone hdone' ht ht'
  have hindexed {done : List BotEvent} (hdone : done <+: es) := run_indexed (h := h) hrows hes hdone
  refine ⟨fun done hdone => (hindexed hdone).agree, fun hallowed => ?_⟩
  have hapart {done : List BotEvent} (hdone : done <+: es) := run_apart hrows hes hallowed hdone
  refine ⟨fun done hdone => (hapart hdone).atMostOne, ?_⟩
  rintro done e rest tenantId rfl hstopped hrest mid ⟨after, rfl⟩
  have hdone : done <+: done ++ e :: (mid ++ after) := List.prefix_append done _
  have he : done ++ [e] <+: done ++ e :: (mid ++ after) := ⟨mid ++ after, by simp⟩
  have hquiet := quiet_of_stopped (hapart hdone) (hallowed done e he) hstopped
  rw [← run_append] at hquiet
  have hmid : done ++ e :: mid = done ++ [e] ++ mid := by simp
  rw [hmid]
  refine (run_quiet hquiet fun t tokenTaken ht => hrest t tokenTaken (by simp [ht])).not_registered
    (hindexed ⟨after, by simp⟩)

def shopToken : String := "123456789:AAAAAAAAAAAAAAAAAAAAAAAAAAAAAAAAAAA"

/-- One token and its ciphertext. -/
def oneToken : Host where
  isDecimal := Py.isDigit
  repr s := "'" ++ s ++ "'"
  reprSet ss := "\x7b" ++ ", ".intercalate ss ++ "\x7d"
  isoformat n := toString n
  encrypt nonce _ := some (nonce ++ [1])
  decrypt bs := if bs = [1] then some shopToken else none

def shopActivated : List (Request × Moment) := [
  (.create 7 ⟨shopToken, "Shop", "shop", .basic, by decide, shopName_length, shopSlug_length⟩,
    { now := 0, id := 1, webhookSecret := "5ec2e7" }),
  (.activate 1, {
    now := 1
    getMe := .response 200
      (some (.object [("ok", .bool true), ("result", .object [("username", .str "shop_bot")])])) })]

def shop : Tenant where
  id := 1
  ownerUserId := 7
  slug := "shop"
  displayName := "Shop"
  botTokenEnc := [1]
  botUsername := .str "shop_bot"
  webhookSecret := "5ec2e7"
  isActive := true
  createdAt := 0
  updatedAt := 1

theorem shop_activated : (Tenants.run oneToken shopActivated).db.tenants = [shop] := by
  rfl

/-- Started, stopped with its webhook deleted, and started again. -/
def oneAfterTheOther : List BotEvent := [.start shop true, .webhookSet 0 true, .stop 1 true,
  .webhookDeleted 0 true, .sessionClosed 0 true, .start shop true, .webhookSet 1 true]

theorem oneAfterTheOther_consistent :
    ((run oneToken oneAfterTheOther).runningOf 1).length ≤ 1 ∧ StaysStopped oneToken oneAfterTheOther := by
  have hes : ∀ t tokenTaken, .start t tokenTaken ∈ oneAfterTheOther →
      ∃ done, done <+: shopActivated ∧ t ∈ (Tenants.run oneToken done).db.tenants := by
    intro t tokenTaken ht
    obtain rfl : t = shop := by
      simp [oneAfterTheOther] at ht
      exact ht.1
    exact ⟨shopActivated, List.prefix_rfl, by rw [shop_activated]; exact List.mem_singleton_self _⟩
  have hallowed := Txn.forall_steps (P := fun done e => (run oneToken done).Allowed oneToken e) oneAfterTheOther
    (by decide)
  obtain ⟨hone, hstays⟩ := (bots_consistent oneToken shopActivated oneAfterTheOther hes).2 hallowed
  exact ⟨hone _ List.prefix_rfl 1, hstays⟩

/-- Two starts of one tenant overlap: both bots run, and the index knows the second. A stop during a start
ends, and the bot is registered afterwards. -/
theorem calls_overlap :
    ((run oneToken [.start shop true, .start shop true, .webhookSet 0 true, .webhookSet 1 true]).runningOf
      1).length = 2 ∧ ¬ StaysStopped oneToken [.start shop true, .stop 1 false, .webhookSet 0 true] := by
  refine ⟨by decide, fun hstays => ?_⟩
  refine hstays [.start shop true] (.stop 1 false) [.webhookSet 0 true] 1 rfl rfl (by simp) _ List.prefix_rfl ?_
  exact ⟨⟨0, 1, "shop", shopToken, "5ec2e7"⟩, rfl, .inl ⟨1, by decide⟩⟩

end TenantBotManager

end Falaron.Tenants
