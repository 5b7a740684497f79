/-
What the digest of an order's key is taken of.

`Key` keeps the parts of a key. The code joins them with bars into one text,
and a link, or a string inside the JSON of the extra, may have bars of its
own. Read from the left, the user and the service end at the first bar; read
from the right, the bucket and the coupon do. What is left is the link, the
quantity and the JSON: outside its strings a JSON text has neither bars nor
backslashes, so that a shorter text ending it would begin inside a string of
the longer one, and the two could not both end outside (`split_json`).
-/
import Falaron.Orders

namespace Falaron

/-! ## Reading a JSON text -/

/-- Where a reader of a JSON text is: outside strings, in one, behind a backslash in one. -/
inductive Reading where
  | outside | string | escaped
  deriving DecidableEq

namespace Reading

def next : Reading → Char → Reading
  | outside, c => if c = '"' then string else outside
  | string, c => if c = '"' then outside else if c = '\\' then escaped else string
  | escaped, _ => string

/-- Reads on; outside strings there is no bar and no backslash. -/
def scan : Reading → List Char → Option Reading
  | q, [] => some q
  | q, c :: cs => if q = outside ∧ (c = '|' ∨ c = '\\') then none else scan (q.next c) cs

theorem scan_append {q : Reading} {cs ds : List Char} :
    scan q (cs ++ ds) = (scan q cs).bind fun q' => scan q' ds := by
  induction cs generalizing q with
  | nil => rfl
  | cons c cs ih =>
    simp only [List.cons_append, scan]
    split
    · rfl
    · exact ih

/-- A text read from outside and from inside a string: one reader is outside exactly where the other is not. -/
theorem scan_opposed {p q p' q' : Reading} {cs : List Char}
    (hpq : p = outside ∧ q = string ∨ p = string ∧ q = outside)
    (hp : scan p cs = some p') (hq : scan q cs = some q') :
    p' = outside ∧ q' = string ∨ p' = string ∧ q' = outside := by
  induction cs generalizing p q with
  | nil =>
    cases hp
    cases hq
    exact hpq
  | cons c cs ih =>
    simp only [scan] at hp hq
    split at hp
    · cases hp
    · next hcp =>
      split at hq
      · cases hq
      · next hcq =>
        refine ih ?_ hp hq
        -- whoever is outside saw no backslash, so neither did the other
        rcases hpq with ⟨rfl, rfl⟩ | ⟨rfl, rfl⟩
        · simp only [true_and, not_or] at hcp
          by_cases hc : c = '"' <;> simp [next, hc, hcp.2]
        · simp only [true_and, not_or] at hcq
          by_cases hc : c = '"' <;> simp [next, hc, hcq.2]

end Reading

/-- A text whose strings are closed, without bars or backslashes outside them. -/
def Closed (cs : List Char) : Prop := Reading.scan .outside cs = some .outside

namespace Closed

open Reading

variable {cs ds : List Char}

theorem append (h : Closed cs) (h' : Closed ds) : Closed (cs ++ ds) := by
  rw [Closed, scan_append, h]
  exact h'

theorem plain (h : ∀ c ∈ cs, c ≠ '"' ∧ c ≠ '|' ∧ c ≠ '\\') : Closed cs := by
  induction cs with
  | nil => rfl
  | cons c cs ih =>
    obtain ⟨hq, hb, hs⟩ := h c List.mem_cons_self
    simp only [Closed, scan, hb, hs, or_self, and_false, if_false, next, if_neg hq]
    exact ih fun d hd => h d (List.mem_cons_of_mem _ hd)

/-- The same, for a text one can look at. -/
theorem plain_all (h : cs.all (fun c => c != '"' && c != '|' && c != '\\') = true) : Closed cs :=
  .plain fun c hc => by simpa [and_assoc] using List.all_eq_true.mp h c hc

/-- A closed text is not what follows a bar in another. -/
theorem not_suffix {m : List Char} (h : Closed ds) (h' : Closed (m ++ '|' :: ds)) : False := by
  obtain ⟨q, -, hq⟩ := Option.bind_eq_some_iff.mp (scan_append.symm.trans h')
  simp only [scan] at hq
  split at hq
  · cases hq
  · next hcond =>
    -- the bar stands in a string, so the second text is read from there
    have hnext : q.next '|' = .string := by
      cases q with
      | outside => simp at hcond
      | string => rfl
      | escaped => rfl
    rw [hnext] at hq
    rcases scan_opposed (.inl ⟨rfl, rfl⟩) h hq with ⟨-, h⟩ | ⟨h, -⟩ <;> cases h

end Closed

/-- A link, a number and a closed text are told apart by the text they are joined into. -/
theorem split_json {l l' n n' j j' : List Char} (hn : '|' ∉ n) (hn' : '|' ∉ n') (hj : Closed j) (hj' : Closed j')
    (h : l ++ '|' :: (n ++ '|' :: j) = l' ++ '|' :: (n' ++ '|' :: j')) : l = l' ∧ n = n' ∧ j = j' := by
  have hassoc : (l ++ '|' :: n) ++ '|' :: j = (l' ++ '|' :: n') ++ '|' :: j' := by simpa using h
  have hfront : l ++ '|' :: n = l' ++ '|' :: n' ∧ j = j' := by
    rcases List.append_eq_append_iff.mp hassoc with ⟨m, hm, hr⟩ | ⟨m, hm, hr⟩
    · cases m with
      | nil => simp_all
      | cons b m =>
        obtain ⟨rfl, htail⟩ := List.cons.inj hr
        exact (Closed.not_suffix hj' (htail ▸ hj)).elim
    · cases m with
      | nil => simp_all
      | cons b m =>
        obtain ⟨rfl, htail⟩ := List.cons.inj hr
        exact (Closed.not_suffix hj (htail ▸ hj')).elim
  obtain ⟨hl, hn⟩ := Text.split_last hn hn' hfront.1
  exact ⟨hl, hn, hfront.2⟩

/-! ## The JSON text of an extra is closed -/

namespace Text

open Reading

theorem hexDigit_ne (n : Nat) : hexDigit (n % 16) ≠ '"' ∧ hexDigit (n % 16) ≠ '\\' := by
  have hall : ∀ d < 16, hexDigit d ≠ '"' ∧ hexDigit d ≠ '\\' := by decide
  exact hall _ (Nat.mod_lt _ (by decide))

theorem scan_unicodeEscape (n : Nat) : scan .string (unicodeEscape n) = some .string := by
  simp [unicodeEscape, scan, next, (hexDigit_ne _).1, (hexDigit_ne _).2]

theorem scan_unicodePair (n m : Nat) : scan .string (unicodeEscape n ++ unicodeEscape m) = some .string := by
  rw [scan_append, scan_unicodeEscape]
  exact scan_unicodeEscape m

theorem scan_escapeChar (c : Char) : scan .string (escapeChar c) = some .string := by
  have hplain (hq : c ≠ '"') (hs : c ≠ '\\') : scan .string [c] = some .string := by
    simp [scan, next, hq, hs]
  unfold escapeChar
  simp only [beq_iff_eq]
  by_cases hq : c = '"'
  · rw [if_pos hq]; rfl
  by_cases hs : c = '\\'
  · rw [if_neg hq, if_pos hs]; rfl
  rw [if_neg hq, if_neg hs]
  split
  · rfl
  split
  · rfl
  split
  · rfl
  split
  · rfl
  split
  · rfl
  split
  · exact hplain hq hs
  split
  · exact scan_unicodeEscape _
  · exact scan_unicodePair _ _

theorem jsonString_closed (s : String) : Closed (jsonString s).toList := by
  have hbody (cs : List Char) : scan .string (cs.flatMap escapeChar) = some .string := by
    induction cs with
    | nil => rfl
    | cons c cs ih => rw [List.flatMap_cons, scan_append, scan_escapeChar]; exact ih
  have hopen : scan .outside ['"'] = some .string := rfl
  rw [jsonString, String.toList_ofList, Closed, scan_append, scan_append, hopen, Option.bind_some, hbody]
  rfl

theorem int_plain {c : Char} {n : Int} (h : c ∈ (toString n).toList) : c ≠ '"' ∧ c ≠ '|' ∧ c ≠ '\\' := by
  rcases int_chars h with rfl | hd
  · decide
  · refine ⟨?_, ?_, ?_⟩ <;> rintro rfl <;> exact absurd hd (by decide)

theorem ExtraValue.json_closed (v : ExtraValue) : Closed v.json.toList := by
  cases v with
  | str s => exact jsonString_closed s
  | int n => exact .plain fun _ => int_plain

theorem intercalate_closed {l : List String} (h : ∀ s ∈ l, Closed s.toList) : Closed (",".intercalate l).toList := by
  rw [String.toList_intercalate]
  induction l with
  | nil => rfl
  | cons s l ih =>
    cases l with
    | nil => simpa using h s List.mem_cons_self
    | cons t l =>
      simp only [List.map_cons, List.intercalate_cons_cons]
      have hrest := ih fun u hu => h u (List.mem_cons_of_mem _ hu)
      exact ((h s List.mem_cons_self).append (.plain_all (by decide))).append hrest

theorem Extra.dumps_closed (d : Extra) : Closed d.dumps.toList := by
  simp only [Extra.dumps, String.toList_ofList]
  refine ((Closed.plain_all (by decide)).append (intercalate_closed fun s hs => ?_)).append (.plain_all (by decide))
  obtain ⟨p, -, rfl⟩ := List.mem_map.mp hs
  simp only [String.toList_append]
  exact ((jsonString_closed _).append (.plain_all (by decide))).append (ExtraValue.json_closed _)

end Text

/-! ## The key -/

/-- `new_idempotency_key(*parts)`, for the digest `sha256`. -/
def newIdempotencyKey {δ : Type} (sha256 : ByteArray → δ) (parts : List String) : δ :=
  sha256 ("|".intercalate parts).toUTF8

/-- `int(utcnow().timestamp() // IDEMPOTENCY_BUCKET_SECONDS)` -/
def bucket (now : Time) : Int := now / (idempotencyBucketSeconds * microseconds)

/-- The coupon a quote applied: the empty code is none, as where it is redeemed. -/
def appliedCoupon (couponCode : Option String) : Option String := couponCode.filter (· ≠ "")

/-- The key of a request as a digest (`OrderRequest.key` is its parts). -/
def OrderRequest.keyDigest {δ : Type} (sha256 : ByteArray → δ) (request : OrderRequest) (now : Time) (userId : Int)
    (serviceId link : String) (extra : Text.Extra) (couponCode : Option String) : δ :=
  match request.idempotencyKey.filter (· ≠ "") with
  | .some key => newIdempotencyKey sha256 ["order-key", toString userId, Text.clip 128 key]
  | .none => newIdempotencyKey sha256
      ["order", toString userId, serviceId, link, toString request.quantity, extra.dumpsSorted,
        couponCode.getD "", toString (bucket now)]

theorem appliedCoupon_eq (c : Option String) :
    appliedCoupon c = if c.getD "" = "" then none else some (c.getD "") := by
  cases c with
  | none => rfl
  | some s => by_cases hs : s = "" <;> simp [appliedCoupon, Option.filter, hs]

theorem appliedCoupon_iff {c c' : Option String} : c.getD "" = c'.getD "" ↔ appliedCoupon c = appliedCoupon c' := by
  rw [appliedCoupon_eq, appliedCoupon_eq]
  refine ⟨fun h => by rw [h], fun h => ?_⟩
  split at h <;> split at h
  · next h₁ h₂ => rw [h₁, h₂]
  · cases h
  · cases h
  · exact Option.some.inj h

/-- What a derived key is made of. -/
theorem derivedText_injective {u u' q q' b b' : Int} {s s' l l' c c' : String} {e e' : Text.Extra}
    (hs : '|' ∉ s.toList) (hs' : '|' ∉ s'.toList) (hc : '|' ∉ c.toList) (hc' : '|' ∉ c'.toList)
    (h : "|".intercalate ["order", toString u, s, l, toString q, e.dumpsSorted, c, toString b] =
      "|".intercalate ["order", toString u', s', l', toString q', e'.dumpsSorted, c', toString b']) :
    u = u' ∧ s = s' ∧ l = l' ∧ q = q' ∧ e.dumpsSorted = e'.dumpsSorted ∧ c = c' ∧ b = b' := by
  have hbar (n : Int) : '|' ∉ (toString n).toList := fun hn => (Text.int_plain hn).2.1 rfl
  have htext := congrArg String.toList h
  simp only [String.toList_intercalate, List.map_cons, List.map_nil, List.intercalate_cons_cons,
    List.intercalate_singleton] at htext
  have hbars : "|".toList = ['|'] := rfl
  simp only [hbars, List.append_assoc, List.singleton_append, List.append_cancel_left_eq, List.cons.injEq,
    true_and] at htext
  -- from the left: the user, the service
  obtain ⟨hu, htext⟩ := Text.split_first (hbar u) (hbar u') htext
  obtain ⟨hs, htext⟩ := Text.split_first hs hs' htext
  -- from the right: the bucket, the coupon
  have hright : ((l.toList ++ '|' :: ((toString q).toList ++ '|' :: e.dumpsSorted.toList)) ++ '|' :: c.toList) ++
        '|' :: (toString b).toList =
      ((l'.toList ++ '|' :: ((toString q').toList ++ '|' :: e'.dumpsSorted.toList)) ++ '|' :: c'.toList) ++
        '|' :: (toString b').toList := by simpa using htext
  obtain ⟨hright, hb⟩ := Text.split_last (hbar b) (hbar b') hright
  obtain ⟨hmiddle, hc⟩ := Text.split_last hc hc' hright
  -- what is left
  obtain ⟨hl, hq, he⟩ := split_json (hbar q) (hbar q') (Text.Extra.dumps_closed _) (Text.Extra.dumps_closed _) hmiddle
  exact ⟨Text.int_injective hu, String.toList_injective hs, String.toList_injective hl, Text.int_injective hq,
    String.toList_injective he, String.toList_injective hc, Text.int_injective hb⟩

section

variable {δ : Type} {sha256 : ByteArray → δ} {r r' : OrderRequest} {now now' : Time} {userId userId' : Int}
  {serviceId serviceId' link link' : String} {extra extra' : Text.Extra} {couponCode couponCode' : Option String}

/-- **Derived keys are injective.** Whatever bars and braces the links and the
texts of the extras have, two requests without a client's key get one key
exactly when they are one order in one bucket of time. -/
theorem derived_keys_injective (hsha : Function.Injective sha256)
    (hr : r.idempotencyKey.filter (· ≠ "") = .none) (hr' : r'.idempotencyKey.filter (· ≠ "") = .none)
    (hs : '|' ∉ serviceId.toList) (hs' : '|' ∉ serviceId'.toList)
    (hc : ∀ c, couponCode = .some c → '|' ∉ c.toList) (hc' : ∀ c, couponCode' = .some c → '|' ∉ c.toList) :
    r.keyDigest sha256 now userId serviceId link extra couponCode =
        r'.keyDigest sha256 now' userId' serviceId' link' extra' couponCode' ↔
      userId = userId' ∧ serviceId = serviceId' ∧ link = link' ∧ r.quantity = r'.quantity ∧
        extra.dumpsSorted = extra'.dumpsSorted ∧ appliedCoupon couponCode = appliedCoupon couponCode' ∧
        bucket now = bucket now' := by
  have hcode (c : Option String) (h : ∀ s, c = .some s → '|' ∉ s.toList) : '|' ∉ (c.getD "").toList := by
    cases c with
    | none => simp
    | some s => exact h s rfl
  simp only [OrderRequest.keyDigest, hr, hr', newIdempotencyKey]
  constructor
  · intro h
    have htext := String.toByteArray_inj.mp (hsha h)
    obtain ⟨hu, hs, hl, hq, he, hc, hb⟩ := derivedText_injective hs hs' (hcode _ hc) (hcode _ hc') htext
    exact ⟨hu, hs, hl, hq, he, appliedCoupon_iff.mp hc, hb⟩
  · rintro ⟨rfl, rfl, rfl, hq, he, hc, hb⟩
    rw [hq, he, appliedCoupon_iff.mpr hc, hb]

/-- The parts tell keys apart as their digests do. -/
theorem key_eq_iff_keyDigest (hsha : Function.Injective sha256)
    (hr : r.idempotencyKey.filter (· ≠ "") = .none) (hr' : r'.idempotencyKey.filter (· ≠ "") = .none)
    (hs : '|' ∉ serviceId.toList) (hs' : '|' ∉ serviceId'.toList)
    (hc : '|' ∉ (couponCode.getD "").toList) (hc' : '|' ∉ (couponCode'.getD "").toList) :
    r.key now userId serviceId link extra couponCode = r'.key now' userId' serviceId' link' extra' couponCode' ↔
      r.keyDigest sha256 now userId serviceId link extra couponCode =
        r'.keyDigest sha256 now' userId' serviceId' link' extra' couponCode' := by
  simp only [OrderRequest.key, OrderRequest.keyDigest, hr, hr', newIdempotencyKey, Key.order.injEq]
  constructor
  · rintro ⟨rfl, rfl, rfl, hq, he, hc, hb⟩
    have hb : bucket now = bucket now' := hb
    rw [hq, he, hc, hb]
  · intro h
    exact derivedText_injective hs hs' hc hc' (String.toByteArray_inj.mp (hsha h))

end

/-- A link with a bar and a number does not pass for a link and a quantity. -/
theorem derived_keys_injective_of_bars :
    let r : OrderRequest := { serviceId := "likes", link := "t.me/x|1", quantity := 10 }
    let r' : OrderRequest := { serviceId := "likes", link := "t.me/x", quantity := 1 }
    r.keyDigest id 0 7 "likes" r.link [("comments", .str "a|b")] (.some "FALARON10") ≠
      r'.keyDigest id 0 7 "likes" r'.link [("comments", .str "a|b")] (.some "FALARON10") := by
  intro r r' h
  have hcoupon (c : String) (hc : some "FALARON10" = .some c) : '|' ∉ c.toList := by cases hc; decide
  have hall := (derived_keys_injective Function.injective_id rfl rfl (by decide) (by decide) hcoupon hcoupon).mp h
  exact absurd hall.2.2.2.1 (by decide)

end Falaron
