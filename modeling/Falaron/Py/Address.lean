/-
IPv4 addresses, and the texts that stand for them.

`ipv4` reads what Python's `ipaddress` reads: four plain decimal numbers.
`inetAton` reads what a system's resolver reads: one to four numbers, each
decimal, octal or hexadecimal, the last of which fills the bytes left over.
What the first reads, the second reads the same (`inetAton_of_ipv4`).
-/
import Falaron.Py.Number
import Falaron.Py.Query

namespace Py

/-! ## Addresses -/

/-- The address `a.b.c.d`. -/
def address (a b c d : Nat) : Nat := a * 2 ^ 24 + b * 2 ^ 16 + c * 2 ^ 8 + d

structure Network where
  base : Nat
  bits : Nat

def Network.has (n : Network) (a : Nat) : Bool := a / 2 ^ (32 - n.bits) = n.base / 2 ^ (32 - n.bits)

def linkLocal : Network := ⟨address 169 254 0 0, 16⟩

def loopback : Network := ⟨address 127 0 0 0, 8⟩

def multicast : Network := ⟨address 224 0 0 0, 4⟩

def reserved : Network := ⟨address 240 0 0 0, 4⟩

/-- The addresses providers share among their customers. -/
def shared : Network := ⟨address 100 64 0 0, 10⟩

def privateNetworks : List Network :=
  [⟨address 0 0 0 0, 8⟩, ⟨address 10 0 0 0, 8⟩, loopback, linkLocal, ⟨address 172 16 0 0, 12⟩,
    ⟨address 192 0 0 0, 24⟩, ⟨address 192 0 0 170, 31⟩, ⟨address 192 0 2 0, 24⟩, ⟨address 192 168 0 0, 16⟩,
    ⟨address 198 18 0 0, 15⟩, ⟨address 198 51 100 0, 24⟩, ⟨address 203 0 113 0, 24⟩, reserved,
    ⟨address 255 255 255 255, 32⟩]

def privateExceptions : List Network := [⟨address 192 0 0 9, 32⟩, ⟨address 192 0 0 10, 32⟩]

/-- `ip.is_private` -/
def isPrivate (a : Nat) : Bool := privateNetworks.any (·.has a) && !privateExceptions.any (·.has a)

/-- `ip.is_global` -/
def isGlobal (a : Nat) : Bool := !shared.has a && !isPrivate a

theorem Network.has_iff {n : Network} {a : Nat} :
    n.has a = true ↔ a / 2 ^ (32 - n.bits) = n.base / 2 ^ (32 - n.bits) := decide_eq_true_iff

theorem Network.not_has_iff {n : Network} {a : Nat} :
    n.has a = false ↔ a / 2 ^ (32 - n.bits) ≠ n.base / 2 ^ (32 - n.bits) := decide_eq_false_iff_not

/-- A shared address is in no other network. -/
theorem shared_alone {a : Nat} (h : shared.has a = true) :
    isPrivate a = false ∧ loopback.has a = false ∧ linkLocal.has a = false ∧ multicast.has a = false ∧
      reserved.has a = false ∧ a ≠ 0 := by
  have hlow : 1681915904 ≤ a ∧ a < 1686110208 := by
    have := Network.has_iff.1 h
    simp only [shared, address] at this
    omega
  have hout {b bits : Nat} (hb : a / 2 ^ (32 - bits) ≠ b / 2 ^ (32 - bits)) : (⟨b, bits⟩ : Network).has a = false :=
    Network.not_has_iff.2 hb
  have hprivate : privateNetworks.any (·.has a) = false := by
    simp only [privateNetworks, loopback, linkLocal, reserved, address, List.any_cons, List.any_nil,
      Bool.or_eq_false_iff]
    refine ⟨?_, ?_, ?_, ?_, ?_, ?_, ?_, ?_, ?_, ?_, ?_, ?_, ?_, ?_, trivial⟩ <;> exact hout (by omega)
  refine ⟨by rw [isPrivate, hprivate, Bool.false_and], hout ?_, hout ?_, hout ?_, hout ?_, by omega⟩ <;>
    simp only [address] <;> omega

/-! ## Spellings -/

/-- One of the four numbers, as `ipaddress` reads it. -/
def octet (cs : List Char) : Option Nat :=
  if cs ≠ [] && cs.all isDigit && cs.length ≤ 3 && (cs = ['0'] || cs.head? ≠ some '0') && natOf cs ≤ 255 then
    some (natOf cs)
  else none

/-- `ipaddress.IPv4Address(host)` -/
def ipv4 (host : List Char) : Option Nat :=
  match host.splitOn '.' with
  | [a, b, c, d] =>
    match octet a, octet b, octet c, octet d with
    | some a, some b, some c, some d => some (address a b c d)
    | _, _, _, _ => none
  | _ => none

/-- Digits of a base. -/
def inBase (base : Nat) (cs : List Char) : Option Nat :=
  cs.foldlM (fun n c => (hexValue c).bind fun d => if d < base then some (base * n + d) else none) 0

/-- A number as a resolver reads it: hexadecimal, octal or decimal. -/
def number (cs : List Char) : Option Nat :=
  match cs with
  | '0' :: 'x' :: ds | '0' :: 'X' :: ds => if ds = [] then none else inBase 16 ds
  | '0' :: ds => inBase 8 ds
  | ds => readNat ds

def part (bound : Nat) (cs : List Char) : Option Nat := (number cs).filter (· < bound)

/-- `inet_aton(host)` -/
def inetAton (host : List Char) : Option Nat :=
  match host.splitOn '.' with
  | [a] => part (2 ^ 32) a
  | [a, b] =>
    match part 256 a, part (2 ^ 24) b with
    | some a, some b => some (a * 2 ^ 24 + b)
    | _, _ => none
  | [a, b, c] =>
    match part 256 a, part 256 b, part (2 ^ 16) c with
    | some a, some b, some c => some (a * 2 ^ 24 + b * 2 ^ 16 + c)
    | _, _, _ => none
  | [a, b, c, d] =>
    match part 256 a, part 256 b, part 256 c, part 256 d with
    | some a, some b, some c, some d => some (address a b c d)
    | _, _, _, _ => none
  | _ => none

example : inetAton "0x7f.1".toList = some (address 127 0 0 1) ∧ ipv4 "0x7f.1".toList = none ∧
    inetAton "0177.0.0.01".toList = ipv4 "127.0.0.1".toList := by decide +kernel

theorem number_of_head {cs : List Char} (h : cs.head? ≠ some '0') : number cs = readNat cs := by
  unfold number
  split
  · exact absurd rfl h
  · exact absurd rfl h
  · exact absurd rfl h
  · rfl

theorem part_of_octet {cs : List Char} {n : Nat} (h : octet cs = some n) : part 256 cs = some n := by
  unfold octet at h
  split at h
  · next hc =>
    simp only [Bool.and_eq_true, Bool.or_eq_true, decide_eq_true_eq] at hc
    obtain ⟨⟨⟨⟨hne, hall⟩, -⟩, hzero⟩, hle⟩ := hc
    obtain rfl := Option.some.inj h
    rcases hzero with rfl | hhead
    · decide
    · have hread : readNat cs = some (natOf cs) := if_pos (by simp [hne, hall])
      rw [part, number_of_head hhead, hread, Option.filter_some, if_pos (by simpa using Nat.lt_succ_of_le hle)]
  · cases h

/-- A resolver reads plain decimals as `ipaddress` does. -/
theorem inetAton_of_ipv4 {host : List Char} {a : Nat} (h : ipv4 host = some a) : inetAton host = some a := by
  unfold ipv4 at h
  split at h
  · next w x y z hs =>
    split at h
    · next ha hb hc hd =>
      unfold inetAton
      rw [hs]
      simp only [part_of_octet ha, part_of_octet hb, part_of_octet hc, part_of_octet hd]
      exact h
    · cases h
  · cases h

/-- A character that is in no spelling: not a digit of any base, not the mark of one. -/
structure Foreign (c : Char) : Prop where
  hex : hexValue c = none
  digit : isDigit c = false
  mark : c ≠ 'x' ∧ c ≠ 'X' ∧ c ≠ '.'

theorem inBase_foreign {c : Char} (hc : hexValue c = none) {base : Nat} {cs : List Char} (h : c ∈ cs) :
    inBase base cs = none := by
  have hfold : ∀ n, cs.foldlM (fun n c => (hexValue c).bind fun d => if d < base then some (base * n + d) else none) n =
      none := by
    induction cs with
    | nil => cases h
    | cons d cs ih =>
      intro n
      rw [List.foldlM_cons]
      rcases List.mem_cons.1 h with rfl | h
      · rw [hc]
        rfl
      · cases (hexValue d).bind fun e => if e < base then some (base * n + e) else none with
        | none => rfl
        | some m => exact ih h m
  exact hfold 0

theorem number_foreign {c : Char} (hc : Foreign c) {cs : List Char} (h : c ∈ cs) : number cs = none := by
  have hzero : c ≠ '0' := by
    rintro rfl
    exact absurd hc.digit (by decide)
  unfold number
  split
  · have := ((List.mem_cons.1 h).resolve_left hzero)
    rw [inBase_foreign hc.hex ((List.mem_cons.1 this).resolve_left hc.mark.1), ite_self]
  · have := ((List.mem_cons.1 h).resolve_left hzero)
    rw [inBase_foreign hc.hex ((List.mem_cons.1 this).resolve_left hc.mark.2.1), ite_self]
  · exact inBase_foreign hc.hex ((List.mem_cons.1 h).resolve_left hzero)
  · refine if_neg fun hall => ?_
    have := List.all_eq_true.1 (Bool.and_eq_true_iff.1 hall).2 c h
    rw [hc.digit] at this
    cases this

theorem part_foreign {c : Char} (hc : Foreign c) {bound : Nat} {cs : List Char} (h : c ∈ cs) : part bound cs = none := by
  rw [part, number_foreign hc h, Option.filter_none]

theorem mem_splitOn {α : Type} [DecidableEq α] {x c : α} {l : List α} (h : c ∈ l) (hne : c ≠ x) :
    ∃ p ∈ l.splitOn x, c ∈ p := by
  by_contra hno
  have hjoin {ls : List (List α)} (hls : ∀ p ∈ ls, c ∉ p) : c ∉ List.intercalate [x] ls := by
    induction ls with
    | nil => exact List.not_mem_nil
    | cons p ls ih =>
      cases ls with
      | nil =>
        rw [List.intercalate_singleton]
        exact hls p List.mem_cons_self
      | cons q ls =>
        rw [List.intercalate_cons_cons, List.mem_append, List.mem_append, List.mem_singleton]
        rintro ((hp | hx) | hr)
        · exact hls p List.mem_cons_self hp
        · exact hne hx
        · exact ih (fun p hp => hls p (List.mem_cons_of_mem _ hp)) hr
  refine hjoin (fun p hp hc => hno ⟨p, hp, hc⟩) ?_
  rwa [List.intercalate_splitOn]

/-- A spelling has no such character. -/
theorem inetAton_foreign {c : Char} (hc : Foreign c) {host : List Char} (h : c ∈ host) : inetAton host = none := by
  obtain ⟨p, hp, hcp⟩ := mem_splitOn h hc.mark.2.2
  have hnone (bound : Nat) : part bound p = none := part_foreign hc hcp
  unfold inetAton
  split
  · next a hs =>
    obtain rfl : p = a := by simpa [hs] using hp
    exact hnone _
  · next a b hs =>
    rcases (by simpa [hs] using hp : p = a ∨ p = b) with rfl | rfl <;> simp [hnone]
  · next a b d hs =>
    rcases (by simpa [hs] using hp : p = a ∨ p = b ∨ p = d) with rfl | rfl | rfl <;> simp [hnone]
  · next a b d e hs =>
    rcases (by simpa [hs] using hp : p = a ∨ p = b ∨ p = d ∨ p = e) with rfl | rfl | rfl | rfl <;> simp [hnone]
  · rfl

end Py
