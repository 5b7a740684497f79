/-
The Stripe adapter's signature check.

Stripe signs the bytes of the body behind its timestamp. The adapter decodes
the bytes to a text first, with a replacement character for whatever is not
UTF-8, and signs the text: two bodies that are broken in different ways, or
one broken body and one with a real replacement character, have one
signature. Bodies with different texts are told apart, as far as HMAC-SHA256
tells messages apart (`signature_binds_iff`), and a body that is UTF-8 is its
text (`decodeReplace_bytes`).

A header may list several signatures; each stands for its own body.
-/
import Falaron.InitData

namespace Falaron.Stripe

open Py (Str Uni)

abbrev Headers := List (String × String)

/-- The secret is set. -/
structure WebhookSecret where
  text : String
  configured : text ≠ ""

/-- `_SIGNATURE_TOLERANCE_S` -/
def signatureToleranceS : Int := 300

/-- `headers.get("stripe-signature") or headers.get("Stripe-Signature") or ""` -/
def signatureHeader (headers : Headers) : String :=
  let lower := (Py.get? headers "stripe-signature").getD ""
  if lower = "" then (Py.get? headers "Stripe-Signature").getD "" else lower

/-- What a signature header says: its last timestamp, its `v1` signatures. -/
structure SigHeader where
  timestamp : String := ""
  v1 : List String := []
  deriving DecidableEq, Repr

/-- One part of the header, its blanks stripped. -/
def SigHeader.read (h : SigHeader) (part : List Char) : SigHeader :=
  match Text.stripL part with
  | 't' :: '=' :: cs => { h with timestamp := .ofList cs }
  | 'v' :: '1' :: '=' :: cs => { h with v1 := h.v1 ++ [.ofList cs] }
  | _ => h

def readHeader (sigHeader : String) : SigHeader := (sigHeader.toList.splitOn ',').foldl SigHeader.read {}

/-- `body.decode("utf-8", errors="replace")` -/
def decodeReplace (body : List UInt8) : String := (Py.decode none (body.map fun b => .byte b.toNat)).text

def signedPayload (timestamp : String) (body : List UInt8) : String := timestamp ++ "." ++ decodeReplace body

/-- `any(compare_digest(expected, sig) for sig in v1_sigs)` -/
def anyDigest (expected : Str) : List String → Except InitData.Exc Bool
  | [] => .ok false
  | sig :: sigs =>
    match InitData.compareDigest expected (Str.ofString sig) with
    | .error e => .error e
    | .ok true => .ok true
    | .ok false => anyDigest expected sigs

section

variable (hmac : List UInt8 → List UInt8 → List UInt8) (secret : WebhookSecret) (now : Int)

/-- The signature of a body at a timestamp. -/
def expectedSignature (timestamp : String) (body : List UInt8) : Str :=
  InitData.hexdigest (hmac (InitData.bytes secret.text) (InitData.bytes (signedPayload timestamp body)))

/-- `verify_webhook_signature` -/
def verifyWebhookSignature (body : List UInt8) (headers : Headers) : Except InitData.Exc Bool :=
  let h := readHeader (signatureHeader headers)
  if signatureHeader headers = "" then .ok false
  else if h.timestamp = "" || h.v1 = [] then .ok false
  else match Py.intOfText h.timestamp with
    | none => .ok false
    | some t =>
      if signatureToleranceS < |now - t| then .ok false
      else anyDigest (expectedSignature hmac secret h.timestamp body) h.v1

/-- The header is accepted for the body. -/
def Accepted (headers : Headers) (body : List UInt8) : Prop :=
  verifyWebhookSignature hmac secret now body headers = .ok true

end

/-- The header lists one signature, if perhaps more than once. -/
def OneSignature (headers : Headers) : Prop :=
  ∀ s ∈ (readHeader (signatureHeader headers)).v1, ∀ t ∈ (readHeader (signatureHeader headers)).v1, s = t

/-! ## Texts and digests -/

theorem bytes_eq (s : String) : InitData.bytes s = s.toList.flatMap String.utf8EncodeChar := by
  rw [InitData.bytes, String.toUTF8_eq_toByteArray]
  conv => lhs; rw [← String.ofList_toList (s := s)]
  rw [String.toByteArray_ofList, List.utf8Encode, List.toList_data_toByteArray]

/-- A body that is a text is read as the text. -/
theorem decodeReplace_bytes (s : String) : decodeReplace (InitData.bytes s) = s := by
  rw [decodeReplace, bytes_eq, List.map_flatMap, Py.decode_utf8Encode]
  exact Str.text_ofString s

theorem bytes_injective {s t : String} (h : InitData.bytes s = InitData.bytes t) : s = t := by
  rw [← decodeReplace_bytes s, ← decodeReplace_bytes t, h]

theorem hexDigit_injective {a b : Nat} (ha : a < 16) (hb : b < 16) (h : Text.hexDigit a = Text.hexDigit b) : a = b := by
  have hall : ∀ a b : Fin 16, Text.hexDigit a = Text.hexDigit b → a = b := by decide
  exact congrArg Fin.val (hall ⟨a, ha⟩ ⟨b, hb⟩ h)

theorem hexdigest_injective {d e : List UInt8} (h : InitData.hexdigest d = InitData.hexdigest e) : d = e := by
  induction d generalizing e with
  | nil =>
    cases e with
    | nil => rfl
    | cons b e => cases h
  | cons a d ih =>
    cases e with
    | nil => cases h
    | cons b e =>
      simp only [InitData.hexdigest, List.flatMap_cons, List.cons_append, List.nil_append, List.cons.injEq,
        Uni.char.injEq] at h
      obtain ⟨hhigh, hlow, hrest⟩ := h
      have ha := a.toNat_lt
      have hb := b.toNat_lt
      have h₁ := hexDigit_injective (by omega) (by omega) hhigh
      have h₂ := hexDigit_injective (by omega) (by omega) hlow
      rw [ih hrest, UInt8.toNat_inj.mp (show a.toNat = b.toNat by omega)]

section

variable {hmac : List UInt8 → List UInt8 → List UInt8} {secret : WebhookSecret} {now : Int} {headers : Headers}
  {timestamp : String} {body body' : List UInt8}

/-- A digest that tells messages apart tells the texts of the bodies apart. -/
theorem expectedSignature_injective (hinj : Function.Injective (hmac (InitData.bytes secret.text)))
    (h : expectedSignature hmac secret timestamp body = expectedSignature hmac secret timestamp body') :
    decodeReplace body = decodeReplace body' := by
  have hpayload := congrArg String.toList (bytes_injective (hinj (hexdigest_injective h)))
  simp only [signedPayload, String.toList_append] at hpayload
  exact String.toList_injective (List.append_cancel_left hpayload)

theorem anyDigest_mem {expected : Str} {sigs : List String} (h : anyDigest expected sigs = .ok true) :
    ∃ s ∈ sigs, Str.ofString s = expected := by
  induction sigs with
  | nil => cases h
  | cons s sigs ih =>
    rw [anyDigest, InitData.compareDigest] at h
    split at h
    · cases h
    · next hc =>
      split at hc
      · exact ⟨s, List.mem_cons_self, (of_decide_eq_true (Except.ok.inj hc)).symm⟩
      · cases hc
    · obtain ⟨t, ht, he⟩ := ih h
      exact ⟨t, List.mem_cons_of_mem _ ht, he⟩

/-- An accepted header lists the body's signature. -/
theorem Accepted.lists (h : Accepted hmac secret now headers body) :
    ∃ s ∈ (readHeader (signatureHeader headers)).v1,
      Str.ofString s = expectedSignature hmac secret (readHeader (signatureHeader headers)).timestamp body := by
  simp only [Accepted, verifyWebhookSignature] at h
  split at h
  · cases h
  split at h
  · cases h
  split at h
  · cases h
  split at h
  · cases h
  · exact anyDigest_mem h

/-! ## The header Stripe would send -/

/-- A digest is written with characters that end no part of a header. -/
theorem hexdigest_plain (d : List UInt8) : ∀ u ∈ InitData.hexdigest d,
    u.isLone = false ∧ u.toChar ≠ ',' ∧ Text.isSpace u.toChar = false := by
  have hall : ∀ n : Fin 16, Text.hexDigit n ≠ ',' ∧ Text.isSpace (Text.hexDigit n) = false := by decide
  intro u hu
  obtain ⟨b, -, hu⟩ := List.mem_flatMap.mp hu
  have hb := b.toNat_lt
  simp only [List.mem_cons, List.not_mem_nil, or_false] at hu
  rcases hu with rfl | rfl
  · exact ⟨rfl, hall ⟨b.toNat / 16, by omega⟩⟩
  · exact ⟨rfl, hall ⟨b.toNat % 16, by omega⟩⟩

/-- It ends no part of a header and is not stripped from one. -/
def plain (c : Char) : Bool := c ≠ ',' && !Text.isSpace c

theorem plain_iff {c : Char} : plain c = true ↔ c ≠ ',' ∧ Text.isSpace c = false := by
  simp only [plain, Bool.and_eq_true, decide_eq_true_eq, Bool.not_eq_true']

theorem stripL_field {key cs : List Char} (hkey : key.any Text.isSpace = false) (h : cs.all plain = true) :
    Text.stripL (key ++ cs) = key ++ cs := by
  refine Text.stripL_eq_self fun c hc => ?_
  rcases List.mem_append.mp hc with hk | hc
  · exact Bool.eq_false_of_not_eq_true fun hs => Bool.eq_false_iff.mp hkey (List.any_eq_true.mpr ⟨c, hk, hs⟩)
  · exact (plain_iff.mp (List.all_eq_true.mp h c hc)).2

/-- `t=<time>,v1=<digest>` -/
def headerAt (time : String) (digest : List UInt8) : String := "t=" ++ time ++ ",v1=" ++ (InitData.hexdigest digest).text

section

variable {time : String} (digest : List UInt8)

/-- A header with one time and one signature is read as these. -/
theorem readHeader_headerAt (htime : time.toList.all plain = true) :
    readHeader (headerAt time digest) = ⟨time, [(InitData.hexdigest digest).text]⟩ := by
  set hex := (InitData.hexdigest digest).map Uni.toChar with hhex
  have hplain : hex.all plain = true := by
    refine List.all_eq_true.mpr fun c hc => ?_
    obtain ⟨u, hu, rfl⟩ := List.mem_map.mp hc
    exact plain_iff.mpr (hexdigest_plain digest u hu).2
  have hcomma : ∀ cs : List Char, cs.all plain = true → ',' ∉ cs := fun cs h hc =>
    (plain_iff.mp (List.all_eq_true.mp h _ hc)).1 rfl
  have htext : (headerAt time digest).toList =
      (['t', '='] ++ time.toList) ++ ',' :: (['v', '1', '='] ++ hex) := by
    simp only [headerAt, String.toList_append, Str.text, ← hhex, String.toList_ofList]
    exact List.append_assoc _ _ hex
  have ht : ',' ∉ ['t', '='] ++ time.toList := by
    rw [List.mem_append, not_or]
    exact ⟨by decide, hcomma _ htime⟩
  have hv : ',' ∉ ['v', '1', '='] ++ hex := by
    rw [List.mem_append, not_or]
    exact ⟨by decide, hcomma _ hplain⟩
  have hstrip : Text.stripL (['t', '='] ++ time.toList) = ['t', '='] ++ time.toList := stripL_field (by decide) htime
  have hstrip' : Text.stripL (['v', '1', '='] ++ hex) = ['v', '1', '='] ++ hex := stripL_field (by decide) hplain
  rw [readHeader, htext, List.splitOn_append_cons_self_of_not_mem ht, List.splitOn_eq_singleton hv]
  simp only [List.foldl_cons, List.foldl_nil, SigHeader.read, hstrip, hstrip']
  simp only [List.cons_append, List.nil_append, String.ofList_toList, Str.text, hhex]

theorem headerAt_ne : headerAt time digest ≠ "" := by
  intro h
  have := congrArg String.toList h
  simp only [headerAt, String.toList_append] at this
  cases this

theorem signatureHeader_headerAt :
    signatureHeader [("stripe-signature", headerAt time digest)] = headerAt time digest := by
  generalize hh : headerAt time digest = header
  show (if header = "" then "" else header) = header
  exact if_neg (hh ▸ headerAt_ne digest)

theorem oneSignature_headerAt (htime : time.toList.all plain = true) :
    OneSignature [("stripe-signature", headerAt time digest)] := by
  intro s hs t ht
  rw [signatureHeader_headerAt, readHeader_headerAt digest htime, List.mem_singleton] at hs ht
  rw [hs, ht]

/-- It is accepted about that time, for the bodies with that signature. -/
theorem accepted_headerAt {t : Int} (htime : time.toList.all plain = true) (hint : Py.intOfText time = some t)
    (hnear : |now - t| ≤ signatureToleranceS) (h : InitData.hexdigest digest = expectedSignature hmac secret time body) :
    Accepted hmac secret now [("stripe-signature", headerAt time digest)] body := by
  have hnone : Py.intOfText "" = none := by decide
  have hne : time ≠ "" := fun he => by
    rw [he, hnone] at hint
    cases hint
  have hself : Str.ofString (InitData.hexdigest digest).text = InitData.hexdigest digest :=
    Str.ofString_text (List.all_eq_true.mpr fun u hu => by rw [(hexdigest_plain digest u hu).1]; rfl)
  have hsame : InitData.compareDigest (InitData.hexdigest digest) (InitData.hexdigest digest) = .ok true := by
    simp [InitData.compareDigest, InitData.hexdigest_ascii]
  simp only [Accepted, verifyWebhookSignature, signatureHeader_headerAt, if_neg (headerAt_ne digest),
    readHeader_headerAt digest htime, hne, hint, if_neg (not_lt.mpr hnear), ← h, anyDigest, hself, hsame]
  rfl

end

/-- `t=0,v1=<digest>` -/
def headerFor (digest : List UInt8) : String := "t=0,v1=" ++ (InitData.hexdigest digest).text

theorem zero_plain : "0".toList.all plain = true := by decide

theorem headerFor_eq (digest : List UInt8) : headerFor digest = headerAt "0" digest := rfl

theorem accepted_headerFor {digest : List UInt8}
    (h : InitData.hexdigest digest = expectedSignature hmac secret "0" body) :
    Accepted hmac secret 0 [("stripe-signature", headerFor digest)] body := by
  have hint : Py.intOfText "0" = some 0 := by decide
  have hnear : |(0 : Int) - 0| ≤ signatureToleranceS := by simp [signatureToleranceS]
  rw [headerFor_eq]
  exact accepted_headerAt digest zero_plain hint hnear h

theorem oneSignature_headerFor (digest : List UInt8) : OneSignature [("stripe-signature", headerFor digest)] := by
  rw [headerFor_eq]
  exact oneSignature_headerAt digest zero_plain

/-! ## What a signature binds -/

/-- Bodies with one text have one signature. -/
theorem Accepted.congr (h : Accepted hmac secret now headers body) (hb : decodeReplace body = decodeReplace body') :
    Accepted hmac secret now headers body' := by
  have hsig : ∀ t, expectedSignature hmac secret t body = expectedSignature hmac secret t body' := fun t => by
    rw [expectedSignature, expectedSignature, signedPayload, signedPayload, hb]
  simpa only [Accepted, verifyWebhookSignature, hsig] using h

/-- **A signature binds the text** of a body. With one signature in its
header, what is accepted for a body is not accepted for another exactly where
the two decode to different texts; and a header accepted for bodies with
different texts lists the signatures of both. -/
theorem signature_binds_iff (hinj : Function.Injective (hmac (InitData.bytes secret.text))) :
    ((∀ now headers, OneSignature headers → Accepted hmac secret now headers body →
        ¬ Accepted hmac secret now headers body') ↔ decodeReplace body ≠ decodeReplace body') ∧
      ∀ now headers, Accepted hmac secret now headers body → Accepted hmac secret now headers body' →
        decodeReplace body ≠ decodeReplace body' →
        ∃ s ∈ (readHeader (signatureHeader headers)).v1, ∃ s' ∈ (readHeader (signatureHeader headers)).v1, s ≠ s' ∧
          Str.ofString s = expectedSignature hmac secret (readHeader (signatureHeader headers)).timestamp body ∧
          Str.ofString s' = expectedSignature hmac secret (readHeader (signatureHeader headers)).timestamp body' := by
  have hboth : ∀ now headers, Accepted hmac secret now headers body → Accepted hmac secret now headers body' →
      decodeReplace body ≠ decodeReplace body' →
      ∃ s ∈ (readHeader (signatureHeader headers)).v1, ∃ s' ∈ (readHeader (signatureHeader headers)).v1, s ≠ s' ∧
        Str.ofString s = expectedSignature hmac secret (readHeader (signatureHeader headers)).timestamp body ∧
        Str.ofString s' = expectedSignature hmac secret (readHeader (signatureHeader headers)).timestamp body' := by
    intro now headers h h' hne
    obtain ⟨s, hs, he⟩ := h.lists
    obtain ⟨s', hs', he'⟩ := h'.lists
    refine ⟨s, hs, s', hs', fun hss => hne ?_, he, he'⟩
    exact expectedSignature_injective hinj (he.symm.trans (hss ▸ he'))
  refine ⟨⟨fun h hb => ?_, fun hne now headers hone h h' => ?_⟩, hboth⟩
  · have hgenuine : Accepted hmac secret 0 _ body := accepted_headerFor rfl
    exact h 0 _ (oneSignature_headerFor _) hgenuine (hgenuine.congr hb)
  · obtain ⟨s, hs, s', hs', hss, -, -⟩ := hboth now headers h h' hne
    exact hss (hone s hs s' hs')

end

/-! ## A body that is not UTF-8 -/

def testSecret : WebhookSecret := ⟨"whsec_test", by decide⟩

/-- A digest without collisions that is HMAC-SHA256 on the message with the given digest. -/
def testHmac (message : List UInt8) (digest : List String) (_ : List UInt8) : List UInt8 → List UInt8 :=
  Equiv.swap message (InitData.fromHex digest)

theorem testHmac_injective (message : List UInt8) (digest : List String) (key : List UInt8) :
    Function.Injective (testHmac message digest key) := (Equiv.swap _ _).injective

theorem year_read : "1767225600".toList.all plain = true ∧ Py.intOfText "1767225600" = some 1767225600 := by
  decide +kernel

/-- The header with the given digest is accepted for a body signed as the message. -/
theorem accepted_testHmac {message : List UInt8} {digest : List String} {body : List UInt8}
    (h : InitData.bytes (signedPayload "1767225600" body) = message) :
    Accepted (testHmac message digest) testSecret 1767225600
      [("stripe-signature", headerAt "1767225600" (InitData.fromHex digest))] body := by
  refine accepted_headerAt _ year_read.1 year_read.2 (by simp [signatureToleranceS]) ?_
  rw [expectedSignature, h, testHmac, Equiv.swap_apply_left]

/-- HMAC-SHA256 with the test secret of the payload both broken bodies are signed as. -/
def brokenDigest : List String :=
  ["7e4c5a11", "0023d2e2", "95955395", "fbde11e7", "892ea295", "6d9c674d", "52883947", "5c57de5c"]

def brokenMessage : List UInt8 := InitData.bytes "1767225600." ++ [0xef, 0xbf, 0xbd]

def brokenHeaders : Headers :=
  [("stripe-signature", "t=1767225600,v1=7e4c5a110023d2e295955395fbde11e7892ea2956d9c674d528839475c57de5c")]

/-- Two different bodies, neither of them UTF-8, with one signature: both are signed as the replacement character. -/
theorem broken_bodies_share_signature :
    Function.Injective (testHmac brokenMessage brokenDigest (InitData.bytes testSecret.text)) ∧
      ([0xff] : List UInt8) ≠ [0xfe] ∧
      Accepted (testHmac brokenMessage brokenDigest) testSecret 1767225600 brokenHeaders [0xff] ∧
      Accepted (testHmac brokenMessage brokenDigest) testSecret 1767225600 brokenHeaders [0xfe] := by
  have hheaders : brokenHeaders = [("stripe-signature", headerAt "1767225600" (InitData.fromHex brokenDigest))] := by
    decide +kernel
  have hmessage : InitData.bytes (signedPayload "1767225600" [0xff]) = brokenMessage := by decide +kernel
  have hmessage' : InitData.bytes (signedPayload "1767225600" [0xfe]) = brokenMessage := by decide +kernel
  rw [hheaders]
  exact ⟨testHmac_injective _ _ _, by decide, accepted_testHmac hmessage, accepted_testHmac hmessage'⟩

/-! ## A body that is UTF-8 -/

def soundDigest : List String :=
  ["4a942ef9", "477fb7b1", "5b98664c", "f7ff2c25", "43984c1f", "a6bdf352", "0b48dcb2", "5bcd1fe4"]

def soundMessage : List UInt8 := InitData.bytes "1767225600.\x7b\x7d"

def soundHeaders : Headers :=
  [("stripe-signature", "t=1767225600,v1=4a942ef9477fb7b15b98664cf7ff2c2543984c1fa6bdf3520b48dcb25bcd1fe4")]

/-- The signature of the empty object is not one of the empty list. -/
theorem sound_body_bound :
    Accepted (testHmac soundMessage soundDigest) testSecret 1767225600 soundHeaders (InitData.bytes "\x7b\x7d") ∧
      ¬ Accepted (testHmac soundMessage soundDigest) testSecret 1767225600 soundHeaders (InitData.bytes "[]") := by
  have hheaders : soundHeaders = [("stripe-signature", headerAt "1767225600" (InitData.fromHex soundDigest))] := by
    decide +kernel
  have hmessage : InitData.bytes (signedPayload "1767225600" (InitData.bytes "\x7b\x7d")) = soundMessage := by
    rw [signedPayload, decodeReplace_bytes]
    decide +kernel
  have hne : decodeReplace (InitData.bytes "\x7b\x7d") ≠ decodeReplace (InitData.bytes "[]") := by
    rw [decodeReplace_bytes, decodeReplace_bytes]
    decide
  have hsound : Accepted (testHmac soundMessage soundDigest) testSecret 1767225600 _ _ := accepted_testHmac hmessage
  have hone : OneSignature soundHeaders := by
    rw [hheaders]
    exact oneSignature_headerAt _ year_read.1
  rw [← hheaders] at hsound
  exact ⟨hsound, (signature_binds_iff (testHmac_injective _ _ _)).1.mpr hne _ _ hone hsound⟩

end Falaron.Stripe
