/-
An accepted launch string says what Telegram signed.

Only the joined text is authenticated, and a client chooses where its fields
begin and end: a field of his may take in several lines of the signed text.
It begins at the beginning of a line, though, and a key without `=` ends at
the line's first one (`signed_line`), so that the field of that key holds
its line's value, or that value and more lines. No date goes on for a second
line, and no JSON text does.

The user of a signed map has to be JSON for that: a signed map whose user is
empty, or is cut short, may read as a user together with the next line.
-/
import Falaron.InitData
import Falaron.Py.Scan

namespace Falaron.InitData

open Py (Str Uni Json)
open Py.Scan (mem_intercalate)

/-! ## Lines -/

section

variable {α : Type} {x c : α} {l t : List α} {ls : List (List α)}

/-- The lines of joined texts are the lines of each. -/
theorem splitOn_join [DecidableEq α] (hls : ls ≠ []) :
    (List.intercalate [x] ls).splitOn x = ls.flatMap (·.splitOn x) := by
  induction ls with
  | nil => exact absurd rfl hls
  | cons l ls ih =>
    cases ls with
    | nil => rw [List.intercalate_singleton, List.flatMap_singleton]
    | cons l' ls =>
      rw [List.intercalate_cons_cons, List.append_assoc, List.singleton_append, List.splitOn_append_cons_self,
        ih (List.cons_ne_nil _ _)]
      rfl

theorem mem_of_splitOn [DecidableEq α] (hl : l ∈ t.splitOn x) (hc : c ∈ l) : c ∈ t := by
  have ht : [x].intercalate (t.splitOn x) = t := List.intercalate_splitOn x
  rw [← ht]
  exact mem_intercalate hl hc

end

/-! ## What a signed map says -/

/-- A map Telegram signs. -/
structure Signable (m : Fields) : Prop where
  keys : (m.map (·.1)).Nodup
  key : ∀ p ∈ m, newline ∉ p.1 ∧ eq ∉ p.1
  value : ∀ p ∈ m, newline ∉ p.2

/-- Its user, if it has one, is a JSON text. -/
def UserReadable (limit : Nat) (m : Fields) : Prop :=
  ∀ v, Py.get? m (Str.ofString "user") = some v → ∃ j, Py.loads limit v.text = .ok j

/-- `int(fields["auth_date"])` -/
def dateOf (fields : Fields) : Option Int := Py.intOfText (fieldOf fields "auth_date").text

/-- `int(json.loads(fields["user"])["id"])` -/
def userIdOf (limit : Nat) (fields : Fields) : Option Int :=
  match Py.loads limit (fieldOf fields "user").text with
  | .ok (.object f) => if Py.hasField f "id" then (Py.field f "id").toInt.toOption else none
  | _ => none

/-- Whoever supplies a right hash has it from a signed map. -/
def Unforgeable (hmac : List UInt8 → List UInt8 → List UInt8) (botToken : String) (signed : Set Fields)
    (supplied : Set Str) : Prop :=
  ∀ s ∈ supplied, Authentic hmac botToken s → ∃ m ∈ signed, textOf s = dataCheckString m

/-- What is read from the string is what the map says. -/
def SaysAs (limit : Nat) (d : Validated) (m : Fields) : Prop :=
  dateOf d.fields = dateOf m ∧ ∀ id, extractUserId d = .ok id → userIdOf limit m = some id

section

variable {m fields : Fields} {p q : Str × Str} {k v : Str}

theorem mem_insertField : q ∈ insertField p fields ↔ q = p ∨ q ∈ fields := by
  induction fields with
  | nil => simp [insertField]
  | cons r fields ih =>
    simp only [insertField]
    split
    · exact List.mem_cons
    · rw [List.mem_cons, ih, List.mem_cons]
      exact or_left_comm

theorem mem_sortFields : p ∈ sortFields fields ↔ p ∈ fields := by
  induction fields with
  | nil => rfl
  | cons q fields ih => rw [sortFields, List.foldr_cons, mem_insertField, List.mem_cons, ← ih, sortFields]

theorem get?_mem (h : Py.get? fields k = some v) : (k, v) ∈ fields := by
  obtain ⟨p, hp, rfl⟩ := Option.map_eq_some_iff.1 h
  have hk : p.1 = k := by simpa using List.find?_some hp
  exact hk ▸ List.mem_of_find?_eq_some hp

theorem get?_of_mem (hm : (m.map (·.1)).Nodup) (h : (k, v) ∈ m) : Py.get? m k = some v := by
  induction m with
  | nil => cases h
  | cons q m ih =>
    rw [List.map_cons, List.nodup_cons] at hm
    rcases List.mem_cons.1 h with rfl | h
    · simp [Py.get?]
    · have hne : q.1 ≠ k := fun he => hm.1 (List.mem_map.2 ⟨(k, v), h, he.symm⟩)
      have := ih hm.2 h
      simpa [Py.get?, hne] using this

theorem eq_mem_line (p : Str × Str) : eq ∈ line p := List.mem_append_right _ List.mem_cons_self

theorem Signable.line (hm : Signable m) (hp : p ∈ m) : newline ∉ InitData.line p := by
  intro h
  rcases List.mem_append.1 h with h | h
  · exact (hm.key p hp).1 h
  · rcases List.mem_cons.1 h with h | h
    · cases h
    · exact hm.value p hp h

/-- Every line of a field is a line of the signed map. -/
theorem piece_signed (hm : Signable m) (ht : dataCheckString fields = dataCheckString m) (hp : p ∈ fields)
    {l : Str} (hl : l ∈ (line p).splitOn newline) : ∃ q ∈ m, l = line q := by
  have hne {fields : Fields} {p} (hp : p ∈ fields) : (sortFields fields).map line ≠ [] :=
    List.ne_nil_of_mem (List.mem_map_of_mem (mem_sortFields.2 hp))
  have hp' : line p ∈ (sortFields fields).map line := List.mem_map_of_mem (mem_sortFields.2 hp)
  have hlines : (sortFields m).map line ≠ [] := by
    intro hnil
    have heq : eq ∈ dataCheckString fields := mem_intercalate hp' (eq_mem_line p)
    rw [ht, dataCheckString, hnil] at heq
    cases heq
  have hclean : ∀ l ∈ (sortFields m).map line, newline ∉ l := by
    intro l hl
    obtain ⟨q, hq, rfl⟩ := List.mem_map.1 hl
    exact hm.line (mem_sortFields.1 hq)
  have hsplit : ((sortFields fields).map line).flatMap (·.splitOn newline) = (sortFields m).map line := by
    rw [← splitOn_join (hne hp), ← List.splitOn_intercalate newline hclean hlines]
    exact congrArg (List.splitOn newline) ht
  have hmem : l ∈ (sortFields m).map line := hsplit ▸ List.mem_flatMap.2 ⟨_, hp', hl⟩
  obtain ⟨q, hq, rfl⟩ := List.mem_map.1 hmem
  exact ⟨q, mem_sortFields.1 hq, rfl⟩

/-- A line determines its key, which has no `=`, and its value. -/
theorem line_injective (hp : eq ∉ p.1) (hq : eq ∉ q.1) (h : line p = line q) : p = q := by
  obtain ⟨hk, hv⟩ := Text.split_first hp hq h
  exact Prod.ext hk hv

/-- **A field with a plain key** holds its signed value, or that value and more lines. -/
theorem signed_line (hm : Signable m) (ht : dataCheckString fields = dataCheckString m) (hk : newline ∉ k)
    (hk' : eq ∉ k) (hp : (k, v) ∈ fields) :
    (k, v) ∈ m ∨ ∃ v₀ rest, v = v₀ ++ newline :: rest ∧ (k, v₀) ∈ m ∧ eq ∈ rest := by
  have hline {a : Str} (hnl : newline ∉ a) : newline ∉ line (k, a) := by
    intro h
    rcases List.mem_append.1 h with h | h
    · exact hk h
    · rcases List.mem_cons.1 h with h | h
      · cases h
      · exact hnl h
  have hfind {a : Str} (hl : line (k, a) ∈ (line (k, v)).splitOn newline) : (k, a) ∈ m := by
    obtain ⟨q, hq, he⟩ := piece_signed hm ht hp hl
    exact line_injective hk' (hm.key q hq).2 he ▸ hq
  by_cases hv : newline ∈ v
  · right
    obtain ⟨v₀, rest, rfl, hv₀⟩ := List.eq_append_cons_of_mem hv
    have hsplit : (line (k, v₀ ++ newline :: rest)).splitOn newline = line (k, v₀) :: rest.splitOn newline := by
      have : line (k, v₀ ++ newline :: rest) = line (k, v₀) ++ newline :: rest := by simp [line]
      rw [this]
      exact List.splitOn_append_cons_self_of_not_mem (hline hv₀) rest
    refine ⟨v₀, rest, rfl, hfind (hsplit ▸ List.mem_cons_self), ?_⟩
    -- the next line is a signed one, too
    obtain ⟨l, ls, hls⟩ := List.exists_cons_of_ne_nil (List.splitOn_ne_nil newline rest)
    have hl : l ∈ rest.splitOn newline := hls ▸ List.mem_cons_self
    obtain ⟨q, -, rfl⟩ := piece_signed hm ht hp (hsplit ▸ List.mem_cons_of_mem _ hl)
    exact mem_of_splitOn hl (eq_mem_line q)
  · exact .inl (hfind (List.splitOn_eq_singleton (hline hv) ▸ List.mem_singleton_self _))

/-! ## What the code reads -/

theorem text_lines (v rest : Str) :
    (v ++ newline :: rest).text = .ofList (v.text.toList ++ '\n' :: rest.map Uni.toChar) := by
  simp only [Str.text, List.map_append, List.map_cons, String.toList_ofList]
  rfl

theorem fieldOf_mem {key : String} (h : fieldOf fields key ≠ []) : (Str.ofString key, fieldOf fields key) ∈ fields := by
  cases hf : Py.get? fields (Str.ofString key) with
  | none => exact absurd (by simp [fieldOf, hf]) h
  | some v =>
    have hv : fieldOf fields key = v := by simp [fieldOf, hf]
    exact hv.symm ▸ get?_mem hf

/-- A value that cannot go on for another line is the signed one. -/
theorem signed_value (hm : Signable m) (ht : dataCheckString fields = dataCheckString m) {key : String}
    (hkey : newline ∉ Str.ofString key ∧ eq ∉ Str.ofString key) (hv : fieldOf fields key ≠ [])
    (hone : ∀ v₀ rest, fieldOf fields key = v₀ ++ newline :: rest →
      Py.get? m (Str.ofString key) = some v₀ → eq ∉ rest) :
    fieldOf fields key = fieldOf m key := by
  rcases signed_line hm ht hkey.1 hkey.2 (fieldOf_mem hv) with h | ⟨v₀, rest, he, hmem, heq⟩
  · have hget : fieldOf m key = (some (fieldOf fields key)).getD [] := congrArg (·.getD []) (get?_of_mem hm.keys h)
    exact hget.symm
  · exact absurd heq (hone v₀ rest he (get?_of_mem hm.keys hmem))

theorem eq_mem_text {rest : Str} (h : eq ∈ rest) : '=' ∈ rest.map Uni.toChar := List.mem_map.2 ⟨eq, h, rfl⟩

theorem odd_eq : Py.Odd '=' := ⟨by decide, by decide, by decide, by decide⟩

theorem dateOf_signed (hm : Signable m) (ht : dataCheckString fields = dataCheckString m) {date : Int}
    (hd : dateOf fields = some date) : dateOf m = some date := by
  have hne : fieldOf fields "auth_date" ≠ [] := by
    intro hnil
    have hempty : Py.intOfText (Str.text []) = none := by decide
    rw [dateOf, hnil, hempty] at hd
    cases hd
  rw [dateOf, ← signed_value hm ht (by decide) hne ?_]
  · exact hd
  · intro v₀ rest he _ heq
    rw [dateOf, he, text_lines, Py.intOfText_odd odd_eq] at hd
    · cases hd
    · rw [String.toList_ofList]
      exact List.mem_append_right _ (List.mem_cons_of_mem _ (eq_mem_text heq))

theorem user_signed {limit : Nat} (hm : Signable m) (hu : UserReadable limit m)
    (ht : dataCheckString fields = dataCheckString m) {j : Json}
    (hl : Py.loads limit (fieldOf fields "user").text = .ok j) :
    fieldOf fields "user" = fieldOf m "user" := by
  refine signed_value hm ht (by decide) (fun hnil => ?_) fun v₀ rest he hget heq => ?_
  · rw [hnil] at hl
    cases hl
  · obtain ⟨j₀, hj₀⟩ := hu v₀ hget
    have hextra := Py.loads_extra hj₀ (eq_mem_text heq) (by decide)
    rw [he, text_lines, hextra] at hl
    cases hl

end

section

variable {hmac : List UInt8 → List UInt8 → List UInt8} {botToken : String} {limit : Nat} {now : Rat} {maxAge : Int}
  {s : Str} {d : Validated} {fields : Fields}

theorem validate_ok (h : validate hmac botToken limit now maxAge s = .ok d) :
    Authentic hmac botToken s ∧ readFields limit now maxAge (fieldsOf s) = .ok d := by
  unfold validate at h
  simp only [] at h
  split at h
  · cases h
  split at h
  · cases h
  next hhash =>
  split at h
  · cases h
  next henc =>
  unfold compareDigest at h
  split at h
  · cases h
  · cases h
  · next hc =>
    split at hc
    · have heq := of_decide_eq_true (Except.ok.inj hc)
      exact ⟨⟨hhash, by simpa using henc, heq⟩, h⟩
    · cases hc

theorem readUser_ok (h : readUser limit fields = .ok d) :
    d.fields = fields ∧ ∃ f, Py.loads limit (fieldOf fields "user").text = .ok (.object f) ∧
      d.user = some (.object f) := by
  unfold readUser at h
  split at h
  · next f hl =>
    split at h
    · obtain rfl := Except.ok.inj h
      exact ⟨rfl, f, hl, rfl⟩
    · cases h
  all_goals cases h

theorem readFields_ok (h : readFields limit now maxAge fields = .ok d) :
    d.fields = fields ∧ (∃ date, dateOf fields = some date) ∧
      (d.user = none ∨ ∃ f, Py.loads limit (fieldOf fields "user").text = .ok (.object f) ∧
        d.user = some (.object f)) := by
  unfold readFields at h
  simp only [] at h
  split at h
  · cases h
  split at h
  · cases h
  next date hdate =>
  split at h
  · cases h
  split at h
  · cases h
  split at h
  · obtain rfl := Except.ok.inj h
    exact ⟨rfl, ⟨date, hdate⟩, .inl rfl⟩
  · obtain ⟨hf, hu⟩ := readUser_ok h
    exact ⟨hf, ⟨date, hdate⟩, .inr hu⟩

theorem extractUserId_ok {f : Py.Dict} {id : Int} (hu : d.user = some (.object f)) (h : extractUserId d = .ok id)
    (hl : Py.loads limit (fieldOf fields "user").text = .ok (.object f)) : userIdOf limit fields = some id := by
  simp only [extractUserId, hu] at h
  simp only [userIdOf, hl]
  split at h
  · next hid =>
    rw [if_pos hid]
    split at h
    · next n hn =>
      rw [hn, Except.ok.inj h]
      rfl
    all_goals cases h
  · cases h

/-- **What an accepted string says was signed**: its date and its user's id
are those of one map that was signed, where every signed user is JSON. -/
theorem accepted_says_signed {signed : Set Fields} {supplied : Set Str}
    (hsigned : ∀ m ∈ signed, Signable m ∧ UserReadable limit m) (hun : Unforgeable hmac botToken signed supplied)
    (hs : s ∈ supplied) (h : validate hmac botToken limit now maxAge s = .ok d) :
    ∃ m ∈ signed, SaysAs limit d m := by
  obtain ⟨hauth, hread⟩ := validate_ok h
  obtain ⟨hfields, ⟨date, hdate⟩, huser⟩ := readFields_ok hread
  obtain ⟨m, hm, ht⟩ := hun s hs hauth
  obtain ⟨hsig, hjson⟩ := hsigned m hm
  refine ⟨m, hm, ?_, fun id hid => ?_⟩
  · rw [hfields, hdate, dateOf_signed hsig ht hdate]
  · rcases huser with hnone | ⟨f, hl, hf⟩
    · simp only [extractUserId, hnone] at hid
      cases hid
    · refine extractUserId_ok hf hid ?_
      rwa [← user_signed hsig hjson ht hl]

end

/-! ## Two signed maps -/

/-- A launch as Telegram signs it. -/
def launch : Fields :=
  [(Str.ofString "auth_date", Str.ofString "1767225600"), (Str.ofString "query_id", Str.ofString "AA1"),
    (Str.ofString "user", Str.ofString "\x7b\"id\":7,\"first_name\":\"A\"\x7d")]

/-- Its launch string. -/
def launchString : Str :=
  ["auth_date=1767225600", "&query_id=AA1", "&user=%7B%22id%22%3A7%2C", "%22first_name%22%3A%22A%22%7D",
    "&hash=91f9d9d3c44d5cd164e5acbf3ebf0b31", "237b6e4da27b99969089920244ca8dcc"].flatMap Str.ofString

def launchHmac : List UInt8 → List UInt8 → List UInt8 :=
  sampleHmac ["91f9d9d3c44d5cd164e5acbf3ebf0b31", "237b6e4da27b99969089920244ca8dcc"]

theorem unforgeable_of_text {hmac : List UInt8 → List UInt8 → List UInt8} {m : Fields} {s : Str}
    (h : textOf s = dataCheckString m) : Unforgeable hmac sampleToken {m} {s} := by
  rintro _ rfl -
  exact ⟨m, rfl, h⟩

theorem accepted_says_signed_of_launch :
    ∃ d, validate launchHmac sampleToken 900 1767225700 86400 launchString = .ok d ∧ extractUserId d = .ok 7 ∧
      ∃ m ∈ ({launch} : Set Fields), SaysAs 900 d m := by
  have hid : (validate launchHmac sampleToken 900 1767225700 86400 launchString).bind extractUserId = .ok 7 := by
    decide +kernel
  have hsig : Signable launch := ⟨by decide, by decide, by decide⟩
  have huser : UserReadable 900 launch := by
    intro v hv
    obtain rfl : Str.ofString "\x7b\"id\":7,\"first_name\":\"A\"\x7d" = v :=
      Option.some.inj ((by decide : Py.get? launch (Str.ofString "user") = _).symm.trans hv)
    have hok : (Py.loads 900 (Str.text (Str.ofString "\x7b\"id\":7,\"first_name\":\"A\"\x7d"))).isOk = true := by
      decide +kernel
    cases hl : Py.loads 900 (Str.text (Str.ofString "\x7b\"id\":7,\"first_name\":\"A\"\x7d")) with
    | ok j => exact ⟨j, rfl⟩
    | error e => rw [hl] at hok; cases hok
  have htext : textOf launchString = dataCheckString launch := by decide +kernel
  cases hv : validate launchHmac sampleToken 900 1767225700 86400 launchString with
  | error e => rw [hv] at hid; cases hid
  | ok d =>
    rw [hv] at hid
    refine ⟨d, rfl, hid, accepted_says_signed ?_ (unforgeable_of_text htext) rfl hv⟩
    rintro _ rfl
    exact ⟨hsig, huser⟩

/-- A signed map whose user is empty. -/
def unnamed : Fields :=
  [(Str.ofString "auth_date", Str.ofString "1767225600"), (Str.ofString "user", []),
    (Str.ofString "\x7b\"id\":5,\"a", Str.ofString "\":1\x7d")]

/-- Its text under other fields: the last two are one. -/
def unnamedString : Str :=
  ["auth_date=1767225600", "&user=%0A%7B%22id%22%3A5", "%2C%22a%3D%22%3A1%7D",
    "&hash=cb8242d767ae900188f8b8e5acdc8da3", "453ac8bc0aea473a2cd51de628bff6c9"].flatMap Str.ofString

/-- The user is read from the line behind. -/
theorem unnamed_is_read :
    let hmac := sampleHmac ["cb8242d767ae900188f8b8e5acdc8da3", "453ac8bc0aea473a2cd51de628bff6c9"]
    Signable unnamed ∧ Unforgeable hmac sampleToken {unnamed} {unnamedString} ∧
      ∃ d, validate hmac sampleToken 900 1767225700 86400 unnamedString = .ok d ∧ extractUserId d = .ok 5 ∧
        ¬ ∃ m ∈ ({unnamed} : Set Fields), SaysAs 900 d m := by
  intro hmac
  have htext : textOf unnamedString = dataCheckString unnamed := by decide +kernel
  have hid : (validate hmac sampleToken 900 1767225700 86400 unnamedString).bind extractUserId = .ok 5 := by
    decide +kernel
  have hnone : userIdOf 900 unnamed = none := by decide +kernel
  refine ⟨⟨by decide, by decide, by decide⟩, unforgeable_of_text htext, ?_⟩
  cases hv : validate hmac sampleToken 900 1767225700 86400 unnamedString with
  | error e => rw [hv] at hid; cases hid
  | ok d =>
    rw [hv] at hid
    refine ⟨d, rfl, hid, ?_⟩
    rintro ⟨_, rfl, -, hsigned⟩
    rw [hsigned 5 hid] at hnone
    cases hnone

end Falaron.InitData
