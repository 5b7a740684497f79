/-
The ids of the services of several providers.

The catalog keeps a service under its provider's id, a hyphen and the id the
provider gives it. Both may contain hyphens, so that one text can be read in
two ways. `service_ids_distinct_iff` says for which two providers no accepted
service of the one can have the id of one of the other.
-/
import Falaron.SyncGuard

namespace Falaron.Sync

open Py (Json)
open PerfectPanel (ProviderService)
open Text (Extra isSpace stripL clip)

/-- The ids that accepted rows can have. -/
def AcceptedId (ext : String) : Prop := ∃ item fx n, normalizeService item fx = .some n ∧ n.externalId = ext

/-- After the first id and a hyphen, the second one goes on with what an
external id can have in front of a hyphen. -/
def GoesOn (p q : String) : Prop :=
  ∃ m : String, q = p ++ "-" ++ m ∧ m.length + 2 ≤ maxExternalIdLen ∧ m.toList.all isIdChar = true

/-! ## Accepted ids -/

/-- Neither a blank nor a control character. -/
theorem isIdChar_plain {c : Char} (h : isIdChar c = true) : isSpace c = false ∧ isControl c = false := by
  have hn : 45 ≤ c.toNat ∧ c.toNat ≤ 122 := by
    simp only [isIdChar, Bool.or_eq_true, Bool.and_eq_true, decide_eq_true_eq, List.mem_cons, List.not_mem_nil,
      or_false] at h
    rcases h with ((⟨h₁, h₂⟩ | ⟨h₁, h₂⟩) | ⟨h₁, h₂⟩) | rfl | rfl | rfl
    · exact ⟨Nat.le_trans (by decide) (show 'A'.toNat ≤ c.toNat from h₁),
        Nat.le_trans (show c.toNat ≤ 'Z'.toNat from h₂) (by decide)⟩
    · exact ⟨Nat.le_trans (by decide) (show 'a'.toNat ≤ c.toNat from h₁), show c.toNat ≤ 'z'.toNat from h₂⟩
    · exact ⟨Nat.le_trans (by decide) (show '0'.toNat ≤ c.toNat from h₁),
        Nat.le_trans (show c.toNat ≤ '9'.toNat from h₂) (by decide)⟩
    · decide
    · decide
    · decide
  constructor
  · simp only [isSpace, Bool.or_eq_false_iff, Bool.and_eq_false_iff, decide_eq_false_iff_not, beq_eq_false_iff_ne]
    omega
  · simp only [isControl, Bool.or_eq_false_iff, decide_eq_false_iff_not]
    omega

theorem squeeze_eq_self {p : Char → Bool} {c : Char} {inRun : Bool} {cs : List Char} (h : ∀ d ∈ cs, p d = false) :
    squeeze p c inRun cs = cs := by
  induction cs generalizing inRun with
  | nil => rfl
  | cons d cs ih => simp [squeeze, h d List.mem_cons_self, ih fun x hx => h x (List.mem_cons_of_mem _ hx)]

/-- An id is clean. -/
theorem cleanText_id {ext : String} {n : Nat} (h : ext.toList.all isIdChar = true) (hlen : ext.length ≤ n) :
    cleanText ext n = ext := by
  rw [List.all_eq_true] at h
  have hspace : ∀ c ∈ ext.toList, isSpace c = false := fun c hc => (isIdChar_plain (h c hc)).1
  have hmap : (ext.toList.map fun c => if isControl c then ' ' else c) = ext.toList := by
    refine (List.map_congr_left fun c hc => ?_).trans (List.map_id _)
    rw [(isIdChar_plain (h c hc)).2]
    rfl
  simp only [cleanText, hmap, squeeze_eq_self hspace, Text.stripL_eq_self hspace, clip, String.toList_ofList]
  rw [List.take_of_length_le (by simpa [String.length_toList] using hlen), String.ofList_toList]

/-- A row with nothing special about it but its id. -/
def plainRow (ext : String) : ProviderService where
  externalId := ext
  name := "Likes"
  category := "Instagram"
  rate := .finite 1
  minQty := 1
  maxQty := 1
  serviceType := "default"
  refill := false
  cancel := false
  extra := []

theorem acceptedId_iff {ext : String} :
    AcceptedId ext ↔ ext ≠ "" ∧ ext.length ≤ maxExternalIdLen ∧ ext.toList.all isIdChar = true := by
  constructor
  · rintro ⟨item, fx, n, hn, rfl⟩
    obtain ⟨_, _, _, _, _, _, _, _, hid, _, _, _, _, rfl⟩ := normalizeService_eq_some.mp hn
    exact hid
  · rintro ⟨hne, hlen, hall⟩
    have hclean : cleanText ext 64 = ext := cleanText_id hall (Nat.le_trans hlen (by decide))
    obtain ⟨n, hn⟩ : ∃ n, normalizeService (plainRow ext) (.finite 1) = .some n := by
      have hone : wholeOf 1 = .some 1 := by decide +kernel
      have hname : cleanText "Likes" maxNameLen ≠ "" := by
        rw [cleanText_id (by decide) (by decide)]
        decide
      refine ⟨_, normalizeService_eq_some.mpr ⟨1, 1, 1, 1, hone, hone, rfl, rfl, ?_, hname, by decide, by decide,
        by decide +kernel, rfl⟩⟩
      simp only [plainRow, hclean]
      exact ⟨hne, hlen, hall⟩
    refine ⟨_, _, n, hn, ?_⟩
    obtain ⟨_, _, _, _, _, _, _, _, _, _, _, _, _, rfl⟩ := normalizeService_eq_some.mp hn
    exact hclean

/-! ## Two providers -/

/-- An id of a service is short enough to be kept whole. -/
theorem serviceIdFor_toList {p e : String} (hp : p.length ≤ 32) (he : AcceptedId e) :
    (serviceIdFor p e).toList = p.toList ++ '-' :: e.toList := by
  have hlen := (acceptedId_iff.mp he).2.1
  simp only [serviceIdFor, clip, String.toList_ofList, String.toList_append]
  have hsep : "-".toList = ['-'] := by decide
  rw [hsep, List.append_assoc, List.singleton_append, List.take_of_length_le]
  simp only [List.length_append, List.length_cons, String.length_toList]
  have hmax : maxExternalIdLen = 24 := rfl
  omega

/-- What is left over when one text is read in two ways. -/
theorem append_sep_cases {α : Type} {sep : α} {a b c d : List α} (h : a ++ sep :: b = c ++ sep :: d) :
    a = c ∧ b = d ∨ (∃ m, c = a ++ sep :: m ∧ b = m ++ sep :: d) ∨ ∃ m, a = c ++ sep :: m ∧ d = m ++ sep :: b := by
  rcases List.append_eq_append_iff.mp h with ⟨m, rfl, hr⟩ | ⟨m, rfl, hr⟩
  · cases m with
    | nil => exact .inl ⟨(List.append_nil a).symm, (List.cons.inj hr).2⟩
    | cons x m =>
      obtain ⟨rfl, hb⟩ := List.cons.inj hr
      exact .inr (.inl ⟨m, rfl, hb⟩)
  · cases m with
    | nil => exact .inl ⟨List.append_nil c, (List.cons.inj hr).2.symm⟩
    | cons x m =>
      obtain ⟨rfl, hd⟩ := List.cons.inj hr
      exact .inr (.inr ⟨m, rfl, hd⟩)

/-- One id goes on where the other one has its hyphen. -/
theorem goesOn_of_split {p q e f : String} {m : List Char} (he : AcceptedId e) (hf : AcceptedId f)
    (hq : q.toList = p.toList ++ '-' :: m) (hm : e.toList = m ++ '-' :: f.toList) : GoesOn p q := by
  obtain ⟨-, hlen, hall⟩ := acceptedId_iff.mp he
  have hne : 0 < f.toList.length := by
    rw [List.length_pos_iff]
    exact fun h0 => (acceptedId_iff.mp hf).1 (String.toList_inj.mp h0)
  refine ⟨.ofList m, ?_, ?_, ?_⟩
  · rw [← String.toList_inj, hq]
    simp
  · have hcount := congrArg List.length hm
    simp only [String.length_toList, List.length_append, List.length_cons] at hcount hne
    rw [String.length_ofList]
    omega
  · rw [hm, List.all_append, Bool.and_eq_true] at hall
    simpa using hall.1

/-- A service of each that have one id. -/
theorem GoesOn.collides {p q : String} (hp : p.length ≤ 32) (hq : q.length ≤ 32) (h : GoesOn p q) :
    ∃ e f, AcceptedId e ∧ AcceptedId f ∧ p ≠ q ∧ serviceIdFor p e = serviceIdFor q f := by
  obtain ⟨m, rfl, hlen, hall⟩ := h
  have hone : "-".length = 1 ∧ "0".length = 1 := by decide
  have he : AcceptedId (m ++ "-" ++ "0") := by
    refine acceptedId_iff.mpr ⟨?_, ?_, ?_⟩
    · intro h0
      simpa using congrArg String.length h0
    · rw [String.length_append, String.length_append, hone.1, hone.2, Nat.add_assoc]
      exact hlen
    · simpa [List.all_append, hall] using (by decide : isIdChar '-' = true ∧ isIdChar '0' = true)
  have hf : AcceptedId "0" := acceptedId_iff.mpr (by decide)
  refine ⟨m ++ "-" ++ "0", "0", he, hf, ?_, ?_⟩
  · intro h0
    have hcount := congrArg String.length h0
    simp only [String.length_append, hone] at hcount
    omega
  · rw [← String.toList_inj, serviceIdFor_toList hp he, serviceIdFor_toList hq hf]
    simp

/-- **When no two service ids collide**: any accepted services of two providers
have different ids exactly when the id of neither provider goes on, after that
of the other and a hyphen, with up to 22 characters of an external id. -/
theorem service_ids_distinct_iff {p q : String} (hp : p.length ≤ 32) (hq : q.length ≤ 32) :
    (∀ e f, AcceptedId e → AcceptedId f → serviceIdFor p e = serviceIdFor q f → p = q ∧ e = f) ↔
      ¬ GoesOn p q ∧ ¬ GoesOn q p := by
  constructor
  · intro h
    refine ⟨fun hpq => ?_, fun hqp => ?_⟩
    · obtain ⟨e, f, he, hf, hne, heq⟩ := hpq.collides hp hq
      exact hne (h e f he hf heq).1
    · obtain ⟨e, f, he, hf, hne, heq⟩ := hqp.collides hq hp
      exact hne (h f e hf he heq.symm).1.symm
  · rintro ⟨hpq, hqp⟩ e f he hf heq
    rw [← String.toList_inj, serviceIdFor_toList hp he, serviceIdFor_toList hq hf] at heq
    rcases append_sep_cases heq with ⟨h₁, h₂⟩ | ⟨m, h₁, h₂⟩ | ⟨m, h₁, h₂⟩
    · exact ⟨String.toList_inj.mp h₁, String.toList_inj.mp h₂⟩
    · exact absurd (goesOn_of_split he hf h₁ h₂) hpq
    · exact absurd (goesOn_of_split hf he h₁ h₂) hqp

/-- Two of the providers the shop starts with. -/
theorem service_ids_distinct_of_seeded : "prov_nova".length ≤ 32 ∧ "prov_atlas".length ≤ 32 ∧
    ∀ e f, AcceptedId e → AcceptedId f → serviceIdFor "prov_nova" e = serviceIdFor "prov_atlas" f →
      "prov_nova" = "prov_atlas" ∧ e = f := by
  have hp : "prov_nova".length ≤ 32 := by decide
  have hq : "prov_atlas".length ≤ 32 := by decide
  refine ⟨hp, hq, (service_ids_distinct_iff hp hq).mpr ⟨?_, ?_⟩⟩
  · rintro ⟨m, h, -⟩
    simpa using congrArg (·.toList.take 10) h
  · rintro ⟨m, h, -⟩
    simpa using congrArg (·.toList.take 10) h

/-! ## A hyphen in a provider's id -/

/-- A sync of a provider that lists one service. -/
def syncOne (runId : Nat) (provider ext : String) (db : SyncDb) : Option (SyncReport × SyncDb) :=
  syncing plainBuiltins 0 runId { panelProvider with id := provider } (.ok ⟨"k"⟩) (fun _ => .body (.array [.object
    [("service", .str ext), ("name", .str "Likes"), ("rate", goodRate), ("min", .int 10), ("max", .int 1000)]])) db

/-- The services of two providers come to one id: once the one is stored, the
sync of the other provider fails. -/
theorem service_ids_collide : AcceptedId "b-c" ∧ AcceptedId "c" ∧ "a" ≠ "a-b" ∧
    serviceIdFor "a" "b-c" = serviceIdFor "a-b" "c" ∧
    ((syncOne 1 "a" "b-c" emptyCatalog).map fun (report, db) =>
      (report.added, (syncOne 2 "a-b" "d" db).isSome, (syncOne 2 "a-b" "c" db).isSome)) = .some (1, true, false) :=
  ⟨acceptedId_iff.mpr (by decide), acceptedId_iff.mpr (by decide), by decide, by decide, by decide +kernel⟩

end Falaron.Sync
