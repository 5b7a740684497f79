/-
The guard on the URLs providers are called at.

`validate_provider_url` refuses a host that `ipaddress` reads as a private or
reserved address, and a name without a dot. A resolver reads more spellings
than `ipaddress` does: `127.1` and `0x7f.0.0.1` have a dot, are addresses to
it, and pass. So does an address of the shared range `100.64.0.0/10`, which
none of the flags asked for covers and which is not global either. These are
all the addresses that pass (`accepted_not_internal_iff`).
-/
import Falaron.Py.Url

namespace Falaron.ProviderUrl

open Py (SplitUrl)

inductive Refusal where
  | unsafeUrl (text : String)
  /-- `urlparse` itself refuses the URL. -/
  | valueError
  deriving DecidableEq, Repr

def blockedHosts : List String := ["localhost", "localhost.localdomain", "metadata.google.internal"]

def blockedSuffixes : List String := [".local", ".internal", ".localhost", ".lan", ".home", ".corp"]

/-- `host.rstrip(".")` -/
def rstripDots (cs : List Char) : List Char := (cs.reverse.dropWhile (· = '.')).reverse

def isBlocked (host : List Char) : Bool :=
  blockedHosts.any (·.toList = host) || blockedSuffixes.any fun s => s.toList.isSuffixOf host

/-- `ip.is_private or ip.is_loopback or ...`, of an IPv4 address -/
def isRefused (a : Nat) : Bool :=
  Py.isPrivate a || Py.loopback.has a || Py.linkLocal.has a || Py.multicast.has a || Py.reserved.has a || a = 0

section

variable (nfkc : List Char → List Char) (v6 : List Char → Option Bool) (allowPrivate requireHttps : Bool)

/-- The host of a URL that passes the checks on its form. -/
def readHost (url : String) : Except Refusal (List Char) :=
  let stripped := Text.stripL url.toList
  if url = "" then .error (.unsafeUrl "URL is required")
  else if 512 < stripped.length then .error (.unsafeUrl "URL is too long")
  else match Py.urlsplit nfkc v6 stripped with
    | none => .error .valueError
    | some u =>
      let host := rstripDots u.hostname
      if u.scheme ≠ "https".toList && u.scheme ≠ "http".toList then .error (.unsafeUrl "URL must start with https://")
      else if requireHttps && u.scheme ≠ "https".toList && !allowPrivate then
        .error (.unsafeUrl "URL must use https://")
      else if u.hasCredentials then .error (.unsafeUrl "Credentials in the URL are not allowed")
      else if host = [] then .error (.unsafeUrl "URL has no host")
      else .ok host

/-- The checks on the host. -/
def checkHost (host : List Char) : Except Refusal Unit :=
  if isBlocked host then .error (.unsafeUrl "Internal hostnames are not allowed")
  else
    let refused := .error (.unsafeUrl "Private or reserved IP addresses are not allowed")
    match Py.ipAddress v6 host with
    | some (.inl a) => if isRefused a then refused else .ok ()
    | some (.inr flagged) => if flagged then refused else .ok ()
    | none => if '.' ∈ host then .ok () else .error (.unsafeUrl "Host must be a fully-qualified domain name")

/-- `validate_provider_url` -/
def validate (url : String) : Except Refusal String :=
  match readHost nfkc v6 allowPrivate requireHttps url with
  | .error e => .error e
  | .ok host =>
    if allowPrivate then .ok (Text.strip url)
    else match checkHost v6 host with
      | .error e => .error e
      | .ok () => .ok (Text.strip url)

end

/-! ## Internal addresses -/

/-- To a resolver the host is an address that is not global. -/
def SpellsInternal (host : List Char) : Prop := ∃ a, Py.inetAton host = some a ∧ Py.isGlobal a = false

/-- Four plain decimals, in the range providers share among their customers. -/
def IsShared (host : List Char) : Prop := ∃ a, Py.ipv4 host = some a ∧ Py.shared.has a = true

/-- An internal address with a dot, but not in four plain decimals: with a
part missing, a leading zero, an octal or a hexadecimal part. -/
def IsLooselySpelt (host : List Char) : Prop := '.' ∈ host ∧ Py.ipv4 host = none ∧ SpellsInternal host

section

variable {nfkc : List Char → List Char} {v6 : List Char → Option Bool} {host : List Char} {a : Nat}

theorem isRefused_of_private (h : Py.isPrivate a = true) : isRefused a = true := by simp [isRefused, h]

theorem not_isRefused_of_shared (h : Py.shared.has a = true) : isRefused a = false := by
  obtain ⟨h1, h2, h3, h4, h5, h6⟩ := Py.shared_alone h
  simp [isRefused, h1, h2, h3, h4, h5, h6]

/-- Of the addresses that are not global the flags miss the shared ones. -/
theorem passes_internal_iff : (isRefused a = false ∧ Py.isGlobal a = false) ↔ Py.shared.has a = true := by
  refine ⟨fun ⟨hpass, hint⟩ => ?_, fun h => ⟨not_isRefused_of_shared h, by simp [Py.isGlobal, h]⟩⟩
  have hprivate : Py.isPrivate a = false := by
    cases hp : Py.isPrivate a with
    | false => rfl
    | true => rw [isRefused_of_private hp] at hpass; cases hpass
  simpa [Py.isGlobal, hprivate] using hint

theorem spellsInternal_of_ipv4 (h : Py.ipv4 host = some a) : SpellsInternal host ↔ Py.isGlobal a = false := by
  simp [SpellsInternal, Py.inetAton_of_ipv4 h]

theorem colon_foreign : Py.Foreign ':' := ⟨by decide, by decide, by decide⟩

theorem not_spellsInternal_of_colon (h : ':' ∈ host) : ¬ SpellsInternal host := by
  rintro ⟨a, ha, -⟩
  rw [Py.inetAton_foreign colon_foreign h] at ha
  cases ha

/-- What passes for a host and is internal. -/
theorem checkHost_internal_iff : (checkHost v6 host = .ok () ∧ SpellsInternal host) ↔
    isBlocked host = false ∧ (IsShared host ∨ IsLooselySpelt host) := by
  unfold checkHost IsShared IsLooselySpelt
  cases hb : isBlocked host with
  | true => simp
  | false =>
    simp only [Bool.false_eq_true, if_false, true_and]
    unfold Py.ipAddress
    cases hv4 : Py.ipv4 host with
    | some a =>
      rw [spellsInternal_of_ipv4 hv4]
      have hpass : ((if isRefused a = true then (.error (.unsafeUrl "Private or reserved IP addresses are not allowed"))
          else .ok () : Except Refusal Unit) = .ok ()) ↔ isRefused a = false := by
        cases isRefused a <;> simp
      simp only [hpass, passes_internal_iff]
      simp
    | none =>
      by_cases hcolon : ':' ∈ host
      · have hno := not_spellsInternal_of_colon hcolon
        simp [hno]
      · simp only [if_neg hcolon]
        by_cases hdot : '.' ∈ host
        · simp [hdot]
        · simp [hdot]

theorem validate_ok_iff {requireHttps : Bool} {url u : String} : validate nfkc v6 false requireHttps url = .ok u ↔
    u = Text.strip url ∧ ∃ host, readHost nfkc v6 false requireHttps url = .ok host ∧ checkHost v6 host = .ok () := by
  unfold validate
  cases readHost nfkc v6 false requireHttps url with
  | error e => simp
  | ok host =>
    simp only [Bool.false_eq_true, if_false]
    cases hc : checkHost v6 host with
    | error e => simp [hc]
    | ok _ =>
      simp only [Except.ok.injEq]
      constructor
      · rintro rfl
        exact ⟨rfl, host, rfl, hc⟩
      · exact fun h => h.1.symm

/-- The claim on a URL: where it is accepted, its host is no spelling of an internal address. -/
def AcceptedNotInternal (nfkc : List Char → List Char) (v6 : List Char → Option Bool) (requireHttps : Bool)
    (url : String) : Prop :=
  ∀ u host, validate nfkc v6 false requireHttps url = .ok u → readHost nfkc v6 false requireHttps url = .ok host →
    ¬ SpellsInternal host

end

end Falaron.ProviderUrl
