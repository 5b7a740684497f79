/-
What members may do to each other.

Applications are numbered as they come, and at most one of a kind is pending
for a member. A member who is not of the staff changes nothing of anyone
else's, and gets no rights by any request.
-/
import Falaron.MemberBooks

namespace Falaron

/-! ## Applications -/

/-- The application is one of the user's that waits. -/
def RoleApplication.waits (a : RoleApplication) (u : Int) (kind : String) : Bool :=
  a.userId = u && a.kind = kind && a.status = .pending

/-- What every run keeps. -/
structure Applications (s : Site) : Prop where
  ids : s.applications.map (·.id) = List.range' 1 s.applications.length
  pending : ∀ u kind, (s.applications.filter (·.waits u kind)).length ≤ 1

/-- An application later: of the same user and kind, and decided if it was. -/
structure RoleApplication.Later (a b : RoleApplication) : Prop where
  id : b.id = a.id
  userId : b.userId = a.userId
  kind : b.kind = a.kind
  decided : a.status ≠ .pending → b.status ≠ .pending

section

variable {env : SiteEnv} {p : Int} {s s' : Site} {a b : RoleApplication} {f : RoleApplication → RoleApplication}

theorem RoleApplication.Later.refl (a : RoleApplication) : a.Later a := ⟨rfl, rfl, rfl, fun h => h⟩

theorem Applications.unique (h : Applications s) (ha : a ∈ s.applications) (hb : b ∈ s.applications) (hid : a.id = b.id) :
    a = b := by
  have hnodup : (s.applications.map (·.id)).Nodup := h.ids ▸ List.nodup_range'
  exact List.inj_on_of_nodup_map hnodup ha hb hid

/-- The applications that were there are there, and go on so. -/
def Site.KeepsApplications (s s' : Site) : Prop := ∀ a ∈ s.applications, ∃ b ∈ s'.applications, a.Later b

theorem Site.updateApplication_keeps (id : Nat) (hf : ∀ a ∈ s.applications, a.id = id → a.Later (f a)) :
    s.KeepsApplications (s.updateApplication id f) := by
  intro a ha
  refine ⟨_, List.mem_map.mpr ⟨a, ha, rfl⟩, ?_⟩
  split
  · next hid => exact hf a ha hid
  · exact .refl a

theorem RoleApplication.Later.waits (h : a.Later b) {u : Int} {kind : String} (hb : b.waits u kind = true) :
    a.waits u kind = true := by
  simp only [RoleApplication.waits, Bool.and_eq_true, decide_eq_true_eq] at hb ⊢
  refine ⟨⟨h.userId.symm.trans hb.1.1, h.kind.symm.trans hb.1.2⟩, ?_⟩
  by_contra hne
  exact h.decided hne hb.2

theorem Applications.update (h : Applications s) (id : Nat) (hf : ∀ a ∈ s.applications, a.id = id → a.Later (f a)) :
    Applications (s.updateApplication id f) := by
  have hlater : ∀ a ∈ s.applications, a.Later (if a.id = id then f a else a) := by
    intro a ha
    split
    · next hid => exact hf a ha hid
    · exact .refl a
  refine ⟨?_, fun u kind => ?_⟩
  · show (s.applications.map _).map RoleApplication.id = List.range' 1 (s.applications.map _).length
    rw [List.map_map, List.length_map, ← h.ids]
    exact List.map_congr_left fun a ha => (hlater a ha).id
  · show ((s.applications.map _).filter _).length ≤ 1
    rw [List.filter_map, List.length_map, ← List.countP_eq_length_filter]
    refine le_trans (List.countP_mono_left fun a ha hwaits => ?_) (List.countP_eq_length_filter ▸ h.pending u kind)
    exact (hlater a ha).waits hwaits

theorem Applications.add (h : Applications s) {u : Int} {kind pitch : String} {now : Time}
    (hnone : s.pendingApplication u kind = .none) :
    Applications (s.addApplication ⟨s.applications.length + 1, u, kind, pitch, .pending, now⟩) := by
  have hnobody : s.applications.filter (·.waits u kind) = [] := List.getLast?_eq_none_iff.mp hnone
  refine ⟨?_, fun v k => ?_⟩
  · show (s.applications ++ [_]).map RoleApplication.id = List.range' 1 (s.applications ++ [_]).length
    rw [List.map_append, h.ids, List.length_append, List.length_singleton, List.range'_1_concat, Nat.add_comm 1]
    rfl
  · show ((s.applications ++ [_]).filter _).length ≤ 1
    rw [List.filter_append, List.length_append]
    by_cases hown : v = u ∧ k = kind
    · obtain ⟨rfl, rfl⟩ := hown
      rw [hnobody, List.length_nil, Nat.zero_add]
      exact List.length_filter_le _ _
    · have hnot : RoleApplication.waits ⟨s.applications.length + 1, u, kind, pitch, .pending, now⟩ v k = false := by
        simp only [RoleApplication.waits, Bool.and_eq_false_iff, decide_eq_false_iff_not]
        by_contra hc
        simp only [not_or, not_not] at hc
        exact hown ⟨hc.1.1.symm, hc.1.2.symm⟩
      rw [List.filter_cons_of_neg (by simp [hnot])]
      exact h.pending v k

theorem Site.KeepsApplications.refl (s : Site) : s.KeepsApplications s := fun a ha => ⟨a, ha, .refl a⟩

theorem RoleApplication.Later.trans {c : RoleApplication} (h : a.Later b) (h' : b.Later c) : a.Later c :=
  ⟨h'.id.trans h.id, h'.userId.trans h.userId, h'.kind.trans h.kind, fun hd => h'.decided (h.decided hd)⟩

theorem Site.KeepsApplications.trans {s'' : Site} (h : s.KeepsApplications s') (h' : s'.KeepsApplications s'') :
    s.KeepsApplications s'' := by
  intro a ha
  obtain ⟨b, hb, hab⟩ := h a ha
  obtain ⟨c, hc, hbc⟩ := h' b hb
  exact ⟨c, hc, hab.trans hbc⟩

theorem Applications.same (h : Applications s) (hs : s'.applications = s.applications) :
    Applications s' ∧ s.KeepsApplications s' := by
  refine ⟨⟨hs ▸ h.ids, hs ▸ h.pending⟩, ?_⟩
  rw [Site.KeepsApplications, hs]
  exact Site.KeepsApplications.refl s

theorem Site.partnered_applications (user : User) (kind : String) :
    (s.partnered user kind).applications = s.applications := by
  unfold partnered
  dsimp only
  split
  · split
    · rfl
    · rfl
  split
  · split
    · rfl
    · rfl
  · rfl

theorem Site.Step.applications (h : s.Step env p s') (hs : Applications s) :
    Applications s' ∧ s.KeepsApplications s' := by
  cases h with
  | applied hnone => exact ⟨hs.add hnone, fun a ha => ⟨a, List.mem_append_left _ ha, .refl a⟩⟩
  | @reworded kind existing pitch _ =>
    have hlater : ∀ a ∈ s.applications, a.id = existing.id → a.Later { a with pitch := pitch } :=
      fun a _ _ => ⟨rfl, rfl, rfl, fun hd => hd⟩
    exact ⟨hs.update _ hlater, Site.updateApplication_keeps _ hlater⟩
  | @decided application status _ _ hdecided =>
    have hlater : ∀ a ∈ s.applications, a.id = application.id → a.Later { a with status := status } :=
      fun a _ _ => ⟨rfl, rfl, rfl, fun _ => hdecided⟩
    exact ⟨hs.update _ hlater, Site.updateApplication_keeps _ hlater⟩
  | granted => exact hs.same (Site.partnered_applications _ _)
  | joined | renamed | coded | crowned | accepted | partnered | hit | bonus | paidOut | adjusted | audited =>
    exact hs.same rfl

theorem Site.Steps.applications (h : Site.Steps env p s s') (hs : Applications s) :
    Applications s' ∧ s.KeepsApplications s' := by
  induction h with
  | refl => exact ⟨hs, .refl s⟩
  | tail _ hstep ih =>
    obtain ⟨happs, hkeeps⟩ := hstep.applications ih.1
    exact ⟨happs, ih.2.trans hkeeps⟩

end

section

variable {env : SiteEnv} {okOrder : Db → OrderCall → Prop} {okPayment : Db → PaymentCall → Prop} {s₀ s s' : Site}

theorem Unvisited.noApplications (h : Unvisited s) : Applications s := by
  refine ⟨?_, fun u kind => ?_⟩
  · rw [h.applications]
    rfl
  · rw [h.applications]
    exact Nat.zero_le 1

theorem SiteRun.applications (h : SiteRun env okOrder okPayment s₀ s) (hkeyed : s₀.db.Keyed) (hs : Applications s₀) :
    Applications s ∧ s₀.KeepsApplications s := by
  induction h with
  | start => exact ⟨hs, .refl s₀⟩
  | visit v hrun hv ih =>
    obtain ⟨happs, hkeeps⟩ := (v.steps ((hrun.houseRun hkeyed).keyed hkeyed) hv).applications ih.1
    exact ⟨happs, ih.2.trans hkeeps⟩
  | order _ _ _ _ ih | payment _ _ _ _ ih => exact ⟨⟨ih.1.ids, ih.1.pending⟩, ih.2⟩
  | operator _ ho ih =>
    obtain ⟨happs, hkeeps⟩ := ih.1.same ho.applications
    exact ⟨happs, ih.2.trans hkeeps⟩

end

/-- **One application at a time**: in every run of the site, a member has at
most one application of a kind pending, applications are numbered as they
came, and one that was decided is never pending again. -/
theorem one_application_at_a_time {env : SiteEnv} {okOrder : Db → OrderCall → Prop}
    {okPayment : Db → PaymentCall → Prop} {s₀ s s' : Site} (h₀ : Unvisited s₀) (h : SiteRun env okOrder okPayment s₀ s)
    (h' : SiteRun env okOrder okPayment s s') :
    s.applications.map (·.id) = List.range' 1 s.applications.length ∧
    (∀ u kind, (s.applications.filter (·.waits u kind)).length ≤ 1) ∧
    ∀ a ∈ s.applications, ∃ b ∈ s'.applications, a.Later b := by
  obtain ⟨happs, -⟩ := h.applications h₀.fresh.keyed h₀.noApplications
  exact ⟨happs.ids, happs.pending,
    (h'.applications ((h.houseRun h₀.fresh.keyed).keyed h₀.fresh.keyed) happs).2⟩

theorem one_application_at_a_time_in_town : settledTown.applications.map (·.status) = [.approved] ∧
    ∀ u kind, (settledTown.applications.filter (·.waits u kind)).length ≤ 1 := by
  have hrun : SiteRun townEnv (fun _ _ => True) (fun _ _ => True) openDoors settledTown := settledTown_run
  exact ⟨by decide +kernel, (one_application_at_a_time openDoors_unvisited hrun .start).2.1⟩

/-! ## What is not one's own -/

def Db.roleOf (db : Db) (u : Int) : Role := ((db.users u).map (·.role)).getD .user

/-- Not of the staff. -/
structure Site.Ordinary (s : Site) (env : SiteEnv) (p : Int) : Prop where
  owner : p ≠ env.ownerTelegramId
  role : s.db.roleOf p ≠ .admin ∧ s.db.roleOf p ≠ .owner

/-- What is not `p`'s own is the same, and so are the rights of everyone. -/
structure Confined (p : Int) (a b : Site) : Prop where
  users : ∀ u, u ≠ p → b.db.users u = a.db.users u
  members : ∀ u, u ≠ p → b.members u = a.members u
  codes : ∀ c u, u ≠ p → (b.db.referralCodes c = .some u ↔ a.db.referralCodes c = .some u)
  entries : ∀ u, u ≠ p → b.db.entriesOf u = a.db.entriesOf u
  applications : ∀ u, u ≠ p → b.applications.filter (·.userId = u) = a.applications.filter (·.userId = u)
  payouts : ∀ u, u ≠ p → b.payouts.filter (·.userId = u) = a.payouts.filter (·.userId = u)
  role : b.db.roleOf p = a.db.roleOf p
  resellers : b.db.resellers = a.db.resellers
  promoters : b.promoters = a.promoters
  trade : b.db.orders = a.db.orders ∧ b.db.payments = a.db.payments ∧ b.db.catalog = a.db.catalog

section

variable {env : SiteEnv} {p : Int} {s s' a b c : Site}

theorem Confined.refl (p : Int) (s : Site) : Confined p s s :=
  ⟨fun _ _ => rfl, fun _ _ => rfl, fun _ _ _ => .rfl, fun _ _ => rfl, fun _ _ => rfl, fun _ _ => rfl, rfl, rfl, rfl,
    rfl, rfl, rfl⟩

theorem Confined.trans (h : Confined p a b) (h' : Confined p b c) : Confined p a c where
  users u hu := (h'.users u hu).trans (h.users u hu)
  members u hu := (h'.members u hu).trans (h.members u hu)
  codes code u hu := (h'.codes code u hu).trans (h.codes code u hu)
  entries u hu := (h'.entries u hu).trans (h.entries u hu)
  applications u hu := (h'.applications u hu).trans (h.applications u hu)
  payouts u hu := (h'.payouts u hu).trans (h.payouts u hu)
  role := h'.role.trans h.role
  resellers := h'.resellers.trans h.resellers
  promoters := h'.promoters.trans h.promoters
  trade := ⟨h'.trade.1.trans h.trade.1, h'.trade.2.1.trans h.trade.2.1, h'.trade.2.2.trans h.trade.2.2⟩

theorem Site.Ordinary.not_staff (h : s.Ordinary env p) (hkeyed : s.db.Keyed) : ¬ s.Staff env p := by
  intro hstaff
  obtain ⟨user, hu, hstaff⟩ := hstaff
  have hrole : s.db.roleOf p = user.role := by simp [Db.roleOf, hu]
  have hid := hkeyed p user hu
  simp only [SiteEnv.isStaff, Bool.or_eq_true, decide_eq_true_eq, List.mem_cons, List.not_mem_nil, or_false] at hstaff
  rcases hstaff with (hr | hr) | hr
  · exact h.role.1 (hrole.trans hr)
  · exact h.role.2 (hrole.trans hr)
  · exact h.owner (hid.symm.trans hr)

theorem Site.Ordinary.confined (h : s.Ordinary env p) (hc : Confined p s s') : s'.Ordinary env p :=
  ⟨h.owner, hc.role ▸ h.role⟩

theorem Db.roleOf_congr {x y : Db} {u : Int} (h : (y.users u).map (·.role) = (x.users u).map (·.role)) :
    y.roleOf u = x.roleOf u := by
  rw [roleOf, h, roleOf]

/-- A call of the wallet on one's own. -/
theorem WalletCall.Makes.confined {call : WalletCall} {e : LedgerEntry} {db : Db} (h : call.Makes s.db e db)
    (hown : call.posting.userId = p) : Confined p s { s with db := db } := by
  rcases h.effect with ⟨rfl, -⟩ | ⟨rfl, hpost⟩
  · exact .refl p s
  · have hid : e.userId = p := hpost.entry_eq.1.trans hown
    refine { Confined.refl p s with
      users := fun u hu => ?_, entries := fun u hu => ?_, role := Db.roleOf_congr ?_ }
    · rw [Db.posted_users, if_neg (by rwa [hid])]
    · rw [Db.entriesOf_posted, if_neg (by rw [hid]; exact Ne.symm hu), List.append_nil]
    · rw [Db.posted_users]
      split
      · rw [Option.map_map]
        rfl
      · rfl

theorem Confined.updateUser {f : User → User} (hf : ∀ x, (f x).role = x.role) : Confined p s (s.updateUser p f) where
  __ := Confined.refl p s
  users _ hu := if_neg hu
  role := by
    refine Db.roleOf_congr ?_
    simp only [Site.updateUser, if_true, Option.map_map]
    exact congrArg (fun g => (s.db.users p).map g) (funext hf)

theorem Confined.updateMember (f : Member → Member) : Confined p s (s.updateMember p f) where
  __ := Confined.refl p s
  members _ hu := if_neg hu

theorem Confined.setReferralCode {code : String} {now : Time} (hfree : s.CodeFree code p) :
    Confined p s (s.setReferralCode p code now) where
  __ := Confined.refl p s
  members _ hu := if_neg hu
  codes c u hu := by
    show (if c = code then .some p else (s.db.referralCodes c).filter (· ≠ p)) = .some u ↔ _
    split
    · next hc =>
      rw [hc]
      exact ⟨fun h => absurd (Option.some.inj h).symm hu, fun h => absurd (hfree u h) hu⟩
    · rw [Option.filter_eq_some_iff]
      simp [hu]

theorem Confined.hit {visitor : User} (hid : visitor.telegramId = p) (now : Time) (code : String) :
    Confined p s { s with db := (recordStartHit now code visitor).commit (fun _ => false) s.db } := by
  have hwrites : (recordStartHit now code visitor).Writes fun w => w.Keeps fun d => Confined p s { s with db := d } := by
    refine recordStartHit_writes (fun _ r d hd => ?_) (fun _ d hd => ?_) _ _
    · refine hd.trans { Confined.refl p _ with users := fun u hu => ?_, role := Db.roleOf_congr ?_ }
      · exact if_neg (by rwa [hid])
      · simp only [Stmt.setReferredBy, hid, if_true, Option.map_map]
        rfl
    · exact hd.trans { Confined.refl p _ with }
  exact hwrites.commit (fun _ hw => hw) (.refl p s) fun _ => false

theorem Applications.confined (h : Applications s) {kind pitch : String} {existing : RoleApplication}
    (hpending : s.pendingApplication p kind = .some existing) :
    Confined p s (s.updateApplication existing.id fun x => { x with pitch := pitch }) := by
  have hmem := List.mem_of_getLast? hpending
  obtain ⟨hmem, hwaits⟩ := List.mem_filter.mp hmem
  simp only [Bool.and_eq_true, decide_eq_true_eq] at hwaits
  refine { Confined.refl p s with applications := fun u hu => ?_ }
  show (s.applications.map _).filter _ = _
  rw [List.filter_map]
  have hsame : ∀ x ∈ s.applications.filter (·.userId = u),
      (if x.id = existing.id then { x with pitch := pitch } else x) = x := by
    intro x hx
    obtain ⟨hx, hxu⟩ := List.mem_filter.mp hx
    refine if_neg fun hid => hu ?_
    rw [← of_decide_eq_true hxu, h.unique hx hmem hid, hwaits.1.1]
  have hfilter : s.applications.filter ((fun x : RoleApplication => decide (x.userId = u)) ∘ fun x =>
      if x.id = existing.id then { x with pitch := pitch } else x) = s.applications.filter (·.userId = u) := by
    refine List.filter_congr fun x _ => ?_
    simp only [Function.comp_apply]
    split
    · rfl
    · rfl
  rw [hfilter]
  exact List.map_congr_left hsame |>.trans (List.map_id _)

/-- What who is not of the staff changes at a time. -/
theorem Site.Step.confined (h : s.Step env p s') (hkeyed : s.db.Keyed) (happs : Applications s)
    (ho : s.Ordinary env p) : Confined p s s' := by
  cases h with
  | @joined user member code now hnew hu _ _ hfree =>
    obtain rfl := hnew.id
    refine Confined.trans (b := s.insertUser user member) ?_ (.setReferralCode hfree)
    refine { Confined.refl _ s with
      users := fun u hu => if_neg hu, members := fun u hu => if_neg hu, role := ?_ }
    have hrole : user.role = .user := hnew.role.resolve_right ho.owner
    simp [Db.roleOf, insertUser, hu, hrole]
  | renamed => exact .updateMember _
  | coded _ _ _ hfree => exact .setReferralCode hfree
  | crowned howner => exact absurd howner ho.owner
  | accepted => exact .updateUser fun _ => rfl
  | hit hrow hid => exact .hit hid _ _
  | bonus _ _ hmakes => exact (hmakes.confined rfl).trans (.updateMember _)
  | applied =>
    refine { Confined.refl p s with applications := fun u hu => ?_ }
    show (s.applications ++ [_]).filter _ = _
    rw [List.filter_append, List.filter_cons_of_neg (by simpa using Ne.symm hu), List.filter_nil, List.append_nil]
  | reworded hpending => exact happs.confined hpending
  | paidOut _ _ hmakes =>
    refine (hmakes.confined (p := p) rfl).trans { Confined.refl p _ with payouts := fun u hu => ?_ }
    show (s.payouts ++ [_]).filter _ = s.payouts.filter _
    rw [List.filter_append, List.filter_cons_of_neg (by simpa using Ne.symm hu), List.filter_nil, List.append_nil]
  | audited => exact { Confined.refl p s with }
  | partnered hstaff | decided hstaff _ _ | granted hstaff _ _ | adjusted hstaff _ =>
    exact absurd hstaff (ho.not_staff hkeyed)

theorem Site.Steps.confined (h : Site.Steps env p s s') (hkeyed : s.db.Keyed) (happs : Applications s)
    (ho : s.Ordinary env p) : Confined p s s' := by
  induction h with
  | refl => exact .refl p s
  | tail hsteps hstep ih =>
    have hrun : HouseRun (fun _ _ => True) (fun _ _ => True) s.db _ := Site.Steps.houseRun hsteps hkeyed .start
    exact ih.trans (hstep.confined (hrun.keyed hkeyed) (Site.Steps.applications hsteps happs).1 (ho.confined ih))

end

/-- **Members keep to themselves**: in every state of every run of the site,
whatever a member asks for who is neither of the staff nor the owner, nothing
changes of anyone else: not their rows, codes, entries, applications or
payouts, not who is a partner, not the orders, the payments or the catalog.
And it makes nobody one of the staff. -/
theorem members_keep_to_themselves {env : SiteEnv} {okOrder : Db → OrderCall → Prop}
    {okPayment : Db → PaymentCall → Prop} {s₀ s s' : Site} (h₀ : Unvisited s₀) (h : SiteRun env okOrder okPayment s₀ s)
    {v : Visit} (ho : s.Ordinary env v.profile.telegramId) (hv : v.prog env s = .ok ((), s')) :
    Confined v.profile.telegramId s s' ∧ s'.Ordinary env v.profile.telegramId := by
  have hkeyed := (h.houseRun h₀.fresh.keyed).keyed h₀.fresh.keyed
  have hconfined : Confined v.profile.telegramId s s' :=
    Site.Steps.confined (v.steps hkeyed hv) hkeyed (h.applications h₀.fresh.keyed h₀.noApplications).1 ho
  exact ⟨hconfined, ho.confined hconfined⟩

/-- User 7 starts on a link, and user 8 does not notice. -/
theorem members_keep_to_themselves_in_town :
    (afterVisits townEnv firstArrival [.start 2 (visitor 7) (.some "4AT24W")]).db.users 8 = firstArrival.db.users 8 := by
  have hstart : ((Visit.start 2 (visitor 7) (.some "4AT24W")).prog townEnv firstArrival).isOk = true ∧
      firstArrival.db.roleOf 7 = .user := by decide +kernel
  have hrun : SiteRun townEnv (fun _ _ => True) (fun _ _ => True) openDoors firstArrival := firstArrival_run
  have ho : firstArrival.Ordinary townEnv 7 := by
    refine ⟨by decide, ?_⟩
    rw [hstart.2]
    decide
  exact (members_keep_to_themselves (v := .start 2 (visitor 7) (.some "4AT24W")) openDoors_unvisited hrun ho
    (afterVisits_ok hstart.1)).1.users 8 (by decide)

/-! ## Where rights come from -/

/-- An application for the role. -/
def RoleApplication.asksFor (a : RoleApplication) (u : Int) (role : Role) : Prop :=
  a.userId = u ∧ (a.kind = "reseller" ∧ role = .reseller ∨ a.kind = "promoter" ∧ role = .promoter)

/-- What `p` changed of the rights: its own as the owner, or as one of the staff
its own and those of who applied. -/
structure Rights (env : SiteEnv) (p : Int) (a b : Site) : Prop where
  roles : ∀ u x, a.db.users u = .some x → ∃ y, b.db.users u = .some y ∧ y.telegramId = x.telegramId ∧
    (y.role = x.role ∨ u = p ∧ p = env.ownerTelegramId ∧ y.role = .owner ∨
      b.Staff env p ∧ x.role ≠ .admin ∧ x.role ≠ .owner ∧ ∃ application ∈ b.applications, application.asksFor u y.role)
  resellers : ∀ u, b.db.resellers u = a.db.resellers u ∨
    b.Staff env p ∧ (u = p ∨ ∃ application ∈ b.applications, application.asksFor u .reseller)
  promoters : ∀ u, b.promoters u = a.promoters u ∨
    b.Staff env p ∧ (u = p ∨ ∃ application ∈ b.applications, application.asksFor u .promoter)

section

variable {env : SiteEnv} {p : Int} {s s' a b c : Site}

theorem RoleApplication.Later.asksFor {x y : RoleApplication} (h : x.Later y) {u : Int} {role : Role}
    (hx : x.asksFor u role) : y.asksFor u role := by
  rw [RoleApplication.asksFor, h.userId, h.kind]
  exact hx

/-- Who is of the staff stays so. -/
theorem Rights.staff (h : Rights env p a b) (hs : a.Staff env p) : b.Staff env p := by
  obtain ⟨x, hx, hstaff⟩ := hs
  obtain ⟨y, hy, hid, hrole⟩ := h.roles p x hx
  refine ⟨y, hy, ?_⟩
  simp only [SiteEnv.isStaff, Bool.or_eq_true, decide_eq_true_eq, List.mem_cons, List.not_mem_nil, or_false] at hstaff ⊢
  rcases hrole with hrole | ⟨-, -, hrole⟩ | ⟨-, hadmin, howner, -⟩
  · rw [hrole, hid]
    exact hstaff
  · exact .inl (.inr hrole)
  · rw [hid]
    exact .inr (hstaff.resolve_left fun hr => hr.elim hadmin howner)

theorem Rights.trans (h : Rights env p a b) (h' : Rights env p b c) (happs : b.KeepsApplications c) :
    Rights env p a c := by
  have hasks {u : Int} {role : Role} (happ : ∃ x ∈ b.applications, x.asksFor u role) :
      ∃ x ∈ c.applications, x.asksFor u role := by
    obtain ⟨x, hx, hask⟩ := happ
    obtain ⟨y, hy, hlater⟩ := happs x hx
    exact ⟨y, hy, hlater.asksFor hask⟩
  refine ⟨fun u x hx => ?_, fun u => ?_, fun u => ?_⟩
  · obtain ⟨y, hy, hid, hrole⟩ := h.roles u x hx
    obtain ⟨z, hz, hid', hrole'⟩ := h'.roles u y hy
    refine ⟨z, hz, hid'.trans hid, ?_⟩
    rcases hrole' with hsame | howner | ⟨hstaff, hadmin, howner, happ⟩
    · rw [hsame]
      exact hrole.imp_right (.imp_right fun hold => ⟨h'.staff hold.1, hold.2.1, hold.2.2.1, hasks hold.2.2.2⟩)
    · exact .inr (.inl howner)
    · refine .inr (.inr ⟨hstaff, ?_, ?_, happ⟩)
      · rcases hrole with hsame | ⟨-, -, hcrowned⟩ | ⟨-, hnot, -, -⟩
        · rwa [hsame] at hadmin
        · exact absurd hcrowned howner
        · exact hnot
      · rcases hrole with hsame | ⟨-, -, hcrowned⟩ | ⟨-, -, hnot, -⟩
        · rwa [hsame] at howner
        · exact absurd hcrowned howner
        · exact hnot
  · rcases h'.resellers u with hsame | hnew
    · rw [hsame]
      exact (h.resellers u).imp_right fun hold => ⟨h'.staff hold.1, hold.2.imp_right hasks⟩
    · exact .inr hnew
  · rcases h'.promoters u with hsame | hnew
    · rw [hsame]
      exact (h.promoters u).imp_right fun hold => ⟨h'.staff hold.1, hold.2.imp_right hasks⟩
    · exact .inr hnew

theorem Rights.of_rows (hu : ∀ u x, a.db.users u = .some x →
    ∃ y, b.db.users u = .some y ∧ y.telegramId = x.telegramId ∧ y.role = x.role)
    (hr : b.db.resellers = a.db.resellers) (hp : b.promoters = a.promoters) : Rights env p a b := by
  refine ⟨fun u x hx => ?_, fun u => .inl (by rw [hr]), fun u => .inl (by rw [hp])⟩
  obtain ⟨y, hy, hid, hrole⟩ := hu u x hx
  exact ⟨y, hy, hid, .inl hrole⟩

theorem Rights.of_users (hu : b.db.users = a.db.users) (hr : b.db.resellers = a.db.resellers)
    (hp : b.promoters = a.promoters) : Rights env p a b :=
  .of_rows (fun _ x hx => ⟨x, hu ▸ hx, rfl, rfl⟩) hr hp

theorem Rights.refl (a : Site) : Rights env p a a := .of_users rfl rfl rfl

theorem Rights.of_makes {call : WalletCall} {e : LedgerEntry} {db : Db} (h : call.Makes s.db e db) :
    Rights env p s { s with db := db } := by
  rcases h.effect with ⟨rfl, -⟩ | ⟨rfl, -⟩
  · exact .refl s
  · refine .of_rows (fun u x hx => ?_) rfl rfl
    rw [Db.posted_users]
    split
    · exact ⟨_, Option.map_eq_some_iff.mpr ⟨x, hx, rfl⟩, rfl, rfl⟩
    · exact ⟨x, hx, rfl, rfl⟩

theorem Rights.hit (visitor : User) (now : Time) (code : String) :
    Rights env p s { s with db := (recordStartHit now code visitor).commit (fun _ => false) s.db } := by
  have hwrites : (recordStartHit now code visitor).Writes fun w => w.Keeps fun d =>
      (∀ u x, s.db.users u = .some x → ∃ y, d.users u = .some y ∧ y.telegramId = x.telegramId ∧ y.role = x.role) ∧
      d.resellers = s.db.resellers := by
    refine recordStartHit_writes (fun _ r d hd => ⟨fun u x hx => ?_, hd.2⟩) (fun _ d hd => hd) _ _
    obtain ⟨y, hy, hsame⟩ := hd.1 u x hx
    simp only [Stmt.setReferredBy]
    split
    · exact ⟨_, Option.map_eq_some_iff.mpr ⟨y, hy, rfl⟩, hsame⟩
    · exact ⟨y, hy, hsame⟩
  obtain ⟨hrows, hresellers⟩ := hwrites.commit (fun _ hw => hw) ⟨fun _ x hx => ⟨x, hx, rfl, rfl⟩, rfl⟩ fun _ => false
  generalize (recordStartHit now code visitor).commit (fun _ => false) s.db = db at hrows hresellers
  exact .of_rows hrows hresellers rfl

theorem Rights.reseller (hstaff : s.Staff env p) {u : Int} (r : Reseller)
    (hasks : u = p ∨ ∃ application ∈ s.applications, application.asksFor u .reseller) :
    Rights env p s (s.setReseller u r) := by
  refine ⟨fun _ x hx => ⟨x, hx, rfl, .inl rfl⟩, fun v => ?_, fun _ => .inl rfl⟩
  by_cases hv : v = u
  · exact .inr ⟨hstaff, hv ▸ hasks⟩
  · exact .inl (if_neg hv)

theorem Rights.promoter (hstaff : s.Staff env p) {u : Int} (active : Bool)
    (hasks : u = p ∨ ∃ application ∈ s.applications, application.asksFor u .promoter) :
    Rights env p s (s.setPromoter u active) := by
  refine ⟨fun _ x hx => ⟨x, hx, rfl, .inl rfl⟩, fun _ => .inl rfl, fun v => ?_⟩
  by_cases hv : v = u
  · exact .inr ⟨hstaff, hv ▸ hasks⟩
  · exact .inl (if_neg hv)

theorem Site.Staff.updateUser (h : s.Staff env p) {u : Int} {user : User} (hu : s.db.users u = .some user)
    (huser : user.role = .user) (role : Role) : (s.updateUser u fun x => { x with role := role }).Staff env p := by
  obtain ⟨x, hx, hstaff⟩ := h
  by_cases hp : p = u
  · subst hp
    obtain rfl : user = x := Option.some.inj (hu.symm.trans hx)
    refine ⟨_, s.updateUser_row hx, ?_⟩
    simp only [SiteEnv.isStaff, huser] at hstaff
    simp only [SiteEnv.isStaff, Bool.or_eq_true]
    exact .inr (by simpa using hstaff)
  · exact ⟨x, (if_neg hp).trans hx, hstaff⟩

theorem Rights.ranked (hstaff : s.Staff env p) {u : Int} {user : User} (hu : s.db.users u = .some user)
    (huser : user.role = .user) {role : Role} (hasks : ∃ application ∈ s.applications, application.asksFor u role) :
    Rights env p s (s.updateUser u fun x => { x with role := role }) := by
  refine ⟨fun v x hx => ?_, fun _ => .inl rfl, fun _ => .inl rfl⟩
  by_cases hv : v = u
  · subst hv
    obtain rfl : user = x := Option.some.inj (hu.symm.trans hx)
    refine ⟨_, s.updateUser_row hx, rfl, .inr (.inr ⟨hstaff.updateUser hu huser role, ?_, ?_, hasks⟩)⟩
    · simp [huser]
    · simp [huser]
  · exact ⟨x, (if_neg hv).trans hx, rfl, .inl rfl⟩

theorem Rights.partnered (hstaff : s.Staff env p) {application : RoleApplication} {user : User}
    (ha : application ∈ s.applications) (hu : s.db.users user.telegramId = .some user)
    (hid : application.userId = user.telegramId) : Rights env p s (s.partnered user application.kind) := by
  unfold Site.partnered
  dsimp only
  split
  · next hkind =>
    have hasks : ∃ x ∈ s.applications, x.asksFor user.telegramId .reseller := ⟨_, ha, hid, .inl ⟨hkind, rfl⟩⟩
    have hactive := Rights.reseller (u := user.telegramId) hstaff
      { (s.db.resellers user.telegramId).getD ⟨user.telegramId, defaultResellerDiscountBp, true⟩ with active := true }
      (.inr hasks)
    split
    · next hrole => exact hactive.trans (.ranked (hactive.staff hstaff) hu hrole hasks) (.refl _)
    · exact hactive
  split
  · next hkind =>
    have hasks : ∃ x ∈ s.applications, x.asksFor user.telegramId .promoter := ⟨_, ha, hid, .inr ⟨hkind, rfl⟩⟩
    have hactive := Rights.promoter (u := user.telegramId) hstaff true (.inr hasks)
    split
    · next hrole => exact hactive.trans (.ranked (hactive.staff hstaff) hu hrole hasks) (.refl _)
    · exact hactive
  · exact .refl s

theorem Site.Step.rights (h : s.Step env p s') (hkeyed : s.db.Keyed) : Rights env p s s' := by
  cases h with
  | @joined user member code now hnew hu _ _ _ =>
    refine .of_rows (fun u x hx => ⟨x, ?_, rfl, rfl⟩) rfl rfl
    show (if u = user.telegramId then some user else s.db.users u) = some x
    rw [if_neg, hx]
    intro he
    rw [he, hnew.id, hu] at hx
    cases hx
  | crowned howner =>
    refine ⟨fun u x hx => ?_, fun _ => .inl rfl, fun _ => .inl rfl⟩
    by_cases hu : u = p
    · subst hu
      exact ⟨_, s.updateUser_row hx, rfl, .inr (.inl ⟨rfl, howner, rfl⟩)⟩
    · exact ⟨x, (if_neg hu).trans hx, rfl, .inl rfl⟩
  | accepted =>
    refine .of_rows (fun u x hx => ?_) rfl rfl
    by_cases hu : u = p
    · subst hu
      exact ⟨_, s.updateUser_row hx, rfl, rfl⟩
    · exact ⟨x, (if_neg hu).trans hx, rfl, rfl⟩
  | @partnered discountBp hstaff =>
    have hreseller := Rights.reseller hstaff ⟨p, discountBp, true⟩ (.inl rfl)
    exact hreseller.trans (.promoter (hreseller.staff hstaff) true (.inl rfl)) (.refl _)
  | hit => exact .hit _ _ _
  | bonus _ _ hmakes => exact (Rights.of_makes hmakes).trans (.of_users rfl rfl rfl) (.refl _)
  | paidOut _ _ hmakes => exact (Rights.of_makes hmakes).trans (.of_users rfl rfl rfl) (.refl _)
  | adjusted _ hmakes => exact .of_makes hmakes
  | granted hstaff ha hu =>
    have hid := hkeyed _ _ hu
    exact .partnered hstaff ha (hid ▸ hu) hid.symm
  | renamed | coded | applied | reworded | decided | audited => exact .of_users rfl rfl rfl

theorem Site.Steps.rights (h : Site.Steps env p s s') (hkeyed : s.db.Keyed) (happs : Applications s) :
    Rights env p s s' := by
  induction h with
  | refl => exact .refl s
  | tail hsteps hstep ih =>
    have hrun : HouseRun (fun _ _ => True) (fun _ _ => True) s.db _ := Site.Steps.houseRun hsteps hkeyed .start
    exact ih.trans (hstep.rights (hrun.keyed hkeyed)) (hstep.applications (Site.Steps.applications hsteps happs).1).2

end

/-- **Rights come from the staff, for who asked**: in every state of every run
of the site, a request changes a role only if it makes the owner the owner, or
is one of the staff's and gives a role that the user applied for; and it
makes partners only as one of the staff's, of the staff and of who applied. -/
theorem rights_come_from_staff {env : SiteEnv} {okOrder : Db → OrderCall → Prop}
    {okPayment : Db → PaymentCall → Prop} {s₀ s s' : Site} (h₀ : Unvisited s₀) (h : SiteRun env okOrder okPayment s₀ s)
    {v : Visit} (hv : v.prog env s = .ok ((), s')) : Rights env v.profile.telegramId s s' :=
  have hkeyed := (h.houseRun h₀.fresh.keyed).keyed h₀.fresh.keyed
  Site.Steps.rights (v.steps hkeyed hv) hkeyed (h.applications h₀.fresh.keyed h₀.noApplications).1

/-- User 8 is a reseller once the owner agrees. -/
theorem rights_come_from_staff_in_town :
    let asked := afterVisits townEnv arrivals [.apply 6 (visitor 8) "reseller" "forty shops"]
    let agreed := afterVisits townEnv asked [.decide 7 (visitor 1) 1 true]
    (asked.db.roleOf 8, agreed.db.roleOf 8) = (.user, .reseller) ∧ Rights townEnv 1 asked agreed := by
  intro asked agreed
  have hrun : SiteRun townEnv (fun _ _ => True) (fun _ _ => True) openDoors asked := firstArrival_run.arrivals.visits
  have hdecide : (asked.db.roleOf 8, agreed.db.roleOf 8) = (.user, .reseller) ∧
      ((Visit.decide 7 (visitor 1) 1 true).prog townEnv asked).isOk = true := by decide +kernel
  exact ⟨hdecide.1, rights_come_from_staff openDoors_unvisited hrun (afterVisits_ok hdecide.2)⟩

end Falaron
