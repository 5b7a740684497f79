/-
Scanning a text from the left for matches that do not overlap, as `re.findall`
and `str.replace` do.

A scan cuts a text into matches and the elements between them, and loses
nothing (`fill_text_scan`). What is searched for literally and begins with an
element that it has only once cannot overlap itself, so a text joined with it
is scanned part by part (`scan_intercalate`): replacing it in the joined text
replaces just the joints exactly where no part has it, or it is replaced by
itself (`replaceAll_intercalate_iff`).
-/
import Mathlib.Data.List.Infix
import Mathlib.Data.List.TakeWhile
import Mathlib.Tactic.Ring

namespace Py.Scan

/-! ## Joined lists -/

section

variable {α β : Type} {a : α} {sep l : List α} {ls : List (List α)}

theorem mem_intercalate (hl : l ∈ ls) (ha : a ∈ l) : a ∈ sep.intercalate ls := by
  induction ls with
  | nil => cases hl
  | cons l' ls ih =>
    cases ls with
    | nil =>
      rw [List.intercalate_singleton]
      exact List.mem_singleton.1 hl ▸ ha
    | cons l'' ls =>
      rw [List.intercalate_cons_cons]
      rcases List.mem_cons.1 hl with rfl | hl
      · exact List.mem_append_left _ (List.mem_append_left _ ha)
      · exact List.mem_append_right _ (ih hl)

theorem of_mem_intercalate (h : a ∈ sep.intercalate ls) : a ∈ sep ∨ ∃ l ∈ ls, a ∈ l := by
  induction ls with
  | nil => cases h
  | cons l ls ih =>
    cases ls with
    | nil =>
      rw [List.intercalate_singleton] at h
      exact .inr ⟨l, List.mem_cons_self, h⟩
    | cons l' ls =>
      rw [List.intercalate_cons_cons, List.mem_append, List.mem_append] at h
      rcases h with (h | h) | h
      · exact .inr ⟨l, List.mem_cons_self, h⟩
      · exact .inl h
      · exact (ih h).imp_right fun ⟨l, hl, ha⟩ => ⟨l, List.mem_cons_of_mem _ hl, ha⟩

theorem flatMap_intercalate (f : α → List β) :
    (sep.intercalate ls).flatMap f = (sep.flatMap f).intercalate (ls.map (·.flatMap f)) := by
  induction ls with
  | nil => rfl
  | cons l ls ih =>
    cases ls with
    | nil => rw [List.map_singleton, List.intercalate_singleton, List.intercalate_singleton]
    | cons l' ls =>
      rw [List.intercalate_cons_cons, List.flatMap_append, List.flatMap_append, ih]
      simp only [List.map_cons, List.intercalate_cons_cons]

theorem not_of_mem_splitOnPPrepend {ends : α → Bool} {acc as part : List α}
    (h : part ∈ as.splitOnPPrepend ends acc) (hacc : ∀ a ∈ acc, ends a = false) : ∀ a ∈ part, ends a = false := by
  induction as generalizing acc with
  | nil =>
    rw [List.splitOnPPrepend_nil, List.mem_singleton] at h
    exact fun a ha => hacc a (List.mem_reverse.mp (h ▸ ha))
  | cons b as ih =>
    rw [List.splitOnPPrepend_cons_eq_if] at h
    split at h
    · rcases List.mem_cons.mp h with rfl | h
      · exact fun a ha => hacc a (List.mem_reverse.mp ha)
      · exact ih h (by simp)
    · next hends =>
      refine ih h fun a ha => ?_
      rcases List.mem_cons.mp ha with rfl | ha
      · simpa using hends
      · exact hacc a ha

theorem not_mem_of_mem_splitOn [BEq α] [LawfulBEq α] {as part : List α} (h : part ∈ as.splitOn a) : a ∉ part := by
  rw [List.splitOn_eq_splitOnP, List.splitOnP_eq_splitOnPPrepend] at h
  intro ha
  have := not_of_mem_splitOnPPrepend h (by simp) a ha
  simp at this

end

/-! ## Scanning -/

/-- A part of a scanned text: an element between the matches, or a match. -/
inductive Token (α β : Type) where
  | lit (a : α)
  | hit (b : β)
  deriving DecidableEq, Repr

/-- A pattern: what it matches at the front of a text, and the text of a match. -/
structure Pattern (α β : Type) where
  text : β → List α
  front : List α → Option β
  text_ne_nil : ∀ b, text b ≠ []
  front_text : ∀ {s b}, front s = some b → text b <+: s

variable {α β : Type}

def Token.fill (f : β → List α) : Token α β → List α
  | lit a => [a]
  | hit b => f b

/-- The text of the parts, given a text for each match. -/
def fill (f : β → List α) (ts : List (Token α β)) : List α := ts.flatMap (·.fill f)

section

variable (f : β → List α) (a : α) (b : β) (ts us : List (Token α β))

@[simp] theorem fill_nil : fill f [] = [] := rfl

@[simp] theorem fill_lit : fill f (.lit a :: ts) = a :: fill f ts := rfl

@[simp] theorem fill_hit : fill f (.hit b :: ts) = f b ++ fill f ts := rfl

@[simp] theorem fill_append : fill f (ts ++ us) = fill f ts ++ fill f us := List.flatMap_append

end

theorem fill_congr {f g : β → List α} {ts : List (Token α β)} (h : ∀ b, Token.hit b ∈ ts → f b = g b) :
    fill f ts = fill g ts := by
  refine List.flatMap_congr fun t ht => ?_
  cases t with
  | lit a => rfl
  | hit b => exact h b ht

namespace Pattern

variable (p : Pattern α β)

/-- Scans behind the first `n` elements, which belong to a match. -/
def scanFrom : Nat → List α → List (Token α β)
  | _, [] => []
  | n + 1, _ :: as => scanFrom n as
  | 0, a :: as =>
    match p.front (a :: as) with
    | some b => .hit b :: scanFrom ((p.text b).length - 1) as
    | none => .lit a :: scanFrom 0 as

def scan (as : List α) : List (Token α β) := p.scanFrom 0 as

@[simp] theorem scan_nil : p.scan [] = [] := rfl

theorem scanFrom_eq (n : Nat) (as : List α) : p.scanFrom n as = p.scan (as.drop n) := by
  induction as generalizing n with
  | nil => simp [scanFrom]
  | cons a as ih =>
    cases n with
    | zero => rfl
    | succ n => rw [scanFrom, ih, List.drop_succ_cons]

variable {p}

theorem scan_lit {a : α} {as : List α} (h : p.front (a :: as) = none) : p.scan (a :: as) = .lit a :: p.scan as := by
  rw [scan, scanFrom, h]
  rfl

theorem scan_hit {b : β} {as : List α} (h : p.front (p.text b ++ as) = some b) :
    p.scan (p.text b ++ as) = .hit b :: p.scan as := by
  obtain ⟨a, w, hw⟩ := List.exists_cons_of_ne_nil (p.text_ne_nil b)
  rw [hw, List.cons_append] at h ⊢
  rw [scan, scanFrom, h]
  simp only [hw, List.length_cons, Nat.add_sub_cancel, scanFrom_eq, List.drop_left]

/-- A text is at its end, begins with a match, or does not. -/
theorem scan_cases (p : Pattern α β) (s : List α) :
    s = [] ∨ (∃ b as, s = p.text b ++ as ∧ p.front s = some b ∧ p.scan s = .hit b :: p.scan as) ∨
      ∃ a as, s = a :: as ∧ p.front s = none ∧ p.scan s = .lit a :: p.scan as := by
  cases s with
  | nil => exact .inl rfl
  | cons a as =>
    right
    cases h : p.front (a :: as) with
    | none => exact .inr ⟨a, as, rfl, rfl, scan_lit h⟩
    | some b =>
      obtain ⟨rest, hrest⟩ := p.front_text h
      rw [← hrest] at h ⊢
      exact .inl ⟨b, rest, rfl, rfl, scan_hit h⟩

theorem text_length_pos (p : Pattern α β) (b : β) : 0 < (p.text b).length :=
  List.length_pos_of_ne_nil (p.text_ne_nil b)

/-- A scan loses nothing. -/
theorem fill_text_scan (s : List α) : fill p.text (p.scan s) = s := by
  induction hn : s.length using Nat.strongRecOn generalizing s with
  | ind n ih =>
    subst hn
    obtain rfl | ⟨b, as, hs, -, hscan⟩ | ⟨a, as, hs, -, hscan⟩ := p.scan_cases s
    · rfl
    · have hlt : as.length < s.length := by
        have := p.text_length_pos b
        simp only [hs, List.length_append]
        omega
      rw [hscan, fill_hit, ih _ hlt as rfl, hs]
    · have hlt : as.length < s.length := by simp [hs]
      rw [hscan, fill_lit, ih _ hlt as rfl, hs]

end Pattern

/-! ## A literal pattern -/

/-- The head stands nowhere else in the pattern, so that no two matches overlap. -/
structure Headed (old : List α) : Prop where
  ne_nil : old ≠ []
  head_once : ∀ c w, old = c :: w → c ∉ w

section

variable {old new : List α} {ts : List (Token α Bool)}

/-- A match that begins before another ends before it. -/
theorem Headed.prefix_iff (h : Headed old) {a : α} {as bs : List α} :
    old <+: a :: as ++ (old ++ bs) ↔ old <+: a :: as := by
  refine ⟨fun hp => ?_, fun hp => hp.trans (List.prefix_append _ _)⟩
  refine List.prefix_of_prefix_length_le hp (List.prefix_append _ _) (le_of_not_gt fun hlt => ?_)
  obtain ⟨c, w, rfl⟩ := List.exists_cons_of_ne_nil h.ne_nil
  refine h.head_once c w rfl ?_
  have hw : w <+: as ++ (c :: w ++ bs) := (List.cons_prefix_cons.mp hp).2
  have has : as ++ [c] <+: as ++ (c :: w ++ bs) := ⟨w ++ bs, by simp⟩
  have hlen : (as ++ [c]).length ≤ w.length := by
    rw [List.length_cons, List.length_cons] at hlt
    rw [List.length_append, List.length_singleton]
    omega
  have hin : as ++ [c] <+: w := List.prefix_of_prefix_length_le has hw hlen
  exact hin.subset (by simp)

/-- The joints are replaced, and other matches are not. -/
def own (old new : List α) : Bool → List α
  | true => new
  | false => old

/-- Texts of one length: both fillings have their parts at the same places. -/
theorem eq_of_fill_own (hlen : new.length = old.length) (heq : fill (fun _ => new) ts = fill (own old new) ts)
    (hmem : Token.hit false ∈ ts) : new = old := by
  induction ts with
  | nil => cases hmem
  | cons t ts ih =>
    obtain a | _ | _ := t
    · obtain ⟨-, hrest⟩ := List.cons_eq_cons.mp heq
      exact ih hrest (by simpa using hmem)
    · exact (List.append_inj heq hlen).1
    · obtain ⟨-, hrest⟩ := List.append_inj heq rfl
      exact ih hrest (by simpa using hmem)

variable [DecidableEq α]

/-- A text that is searched for as it is. -/
def literal (old : List α) (h : old ≠ []) : Pattern α Unit where
  text _ := old
  front s := if old <+: s then some () else none
  text_ne_nil _ := h
  front_text {s b} hs := by
    split at hs
    · assumption
    · cases hs

/-- `s.replace(old, new)` -/
def replaceAll (old : List α) (h : old ≠ []) (new s : List α) : List α :=
  fill (fun _ => new) ((literal old h).scan s)

theorem Headed.scan_old (h : Headed old) (as : List α) :
    (literal old h.ne_nil).scan (old ++ as) = .hit () :: (literal old h.ne_nil).scan as :=
  Pattern.scan_hit (p := literal old h.ne_nil) (b := ()) (if_pos (List.prefix_append _ _))

/-- A scan can be cut at a match. -/
theorem Headed.scan_append (h : Headed old) (as bs : List α) :
    (literal old h.ne_nil).scan (as ++ (old ++ bs)) =
      (literal old h.ne_nil).scan as ++ .hit () :: (literal old h.ne_nil).scan bs := by
  induction hn : as.length using Nat.strongRecOn generalizing as with
  | ind n ih =>
    subst hn
    cases as with
    | nil => exact h.scan_old bs
    | cons a as =>
      by_cases hp : old <+: a :: as
      · obtain ⟨rest, hrest⟩ := hp
        have hlt : rest.length < (a :: as).length := by
          have := List.length_pos_of_ne_nil h.ne_nil
          simp only [← hrest, List.length_append]
          omega
        rw [← hrest, List.append_assoc, h.scan_old, h.scan_old, ih _ hlt rest rfl]
        rfl
      · have hnone : (literal old h.ne_nil).front (a :: as) = none := if_neg hp
        have hnone' : (literal old h.ne_nil).front (a :: (as ++ (old ++ bs))) = none :=
          if_neg fun hp' => hp (h.prefix_iff.mp hp')
        rw [List.cons_append, Pattern.scan_lit hnone', Pattern.scan_lit hnone, ih as.length (by simp) as rfl]
        rfl

/-- A joined text is scanned part by part. -/
theorem Headed.scan_intercalate (h : Headed old) (parts : List (List α)) :
    (literal old h.ne_nil).scan (old.intercalate parts) =
      [Token.hit ()].intercalate (parts.map (literal old h.ne_nil).scan) := by
  induction parts with
  | nil => rfl
  | cons part parts ih =>
    cases parts with
    | nil => rw [List.map_singleton, List.intercalate_singleton, List.intercalate_singleton]
    | cons part' parts =>
      rw [List.intercalate_cons_cons, List.append_assoc, h.scan_append, ih]
      simp only [List.map_cons, List.intercalate_cons_cons, List.append_assoc, List.singleton_append]

/-- What is not in a text is not found. -/
theorem Headed.hit_mem_scan (h : Headed old) {s : List α} :
    Token.hit () ∈ (literal old h.ne_nil).scan s ↔ old <:+: s := by
  constructor
  · intro hmem
    obtain ⟨l, r, hlr⟩ := List.append_of_mem hmem
    have hs := (literal old h.ne_nil).fill_text_scan s
    rw [hlr, fill_append, fill_hit] at hs
    exact ⟨_, _, (List.append_assoc ..).trans hs⟩
  · intro ⟨as, bs, hs⟩
    rw [← hs, List.append_assoc, h.scan_append]
    simp

theorem length_fill_own (old new : List α) (ts : List (Token α Bool)) :
    (fill (fun _ => new) ts).length + ts.count (.hit false) * old.length =
      (fill (own old new) ts).length + ts.count (.hit false) * new.length := by
  induction ts with
  | nil => simp
  | cons t ts ih =>
    obtain a | _ | _ := t
    · rw [fill_lit, fill_lit, List.count_cons_of_ne (by simp), List.length_cons, List.length_cons]
      omega
    · rw [fill_hit, fill_hit, List.count_cons_self, List.length_append, List.length_append, own, Nat.add_mul,
        Nat.add_mul]
      omega
    · rw [fill_hit, fill_hit, List.count_cons_of_ne (by simp), List.length_append, List.length_append, own]
      omega

theorem fill_eq_fill_own_iff : fill (fun _ => new) ts = fill (own old new) ts ↔ new = old ∨ Token.hit false ∉ ts := by
  constructor
  · intro heq
    by_cases hmem : Token.hit false ∈ ts
    · have hcount := length_fill_own old new ts
      rw [heq, Nat.add_left_cancel_iff] at hcount
      have hlen := Nat.eq_of_mul_eq_mul_left (List.count_pos_iff.mpr hmem) hcount
      exact .inl (eq_of_fill_own hlen.symm heq hmem)
    · exact .inr hmem
  · intro h
    refine fill_congr fun b hb => ?_
    cases b with
    | true => rfl
    | false => exact h.resolve_right fun hmem => hmem hb

/-- A part's own matches, told apart from the joints. -/
def marked (h : Headed old) (part : List α) : List (Token α Bool) :=
  ((literal old h.ne_nil).scan part).map fun
    | .lit a => .lit a
    | .hit _ => .hit false

theorem fill_marked (h : Headed old) (f : Bool → List α) (part : List α) :
    fill f (marked h part) = fill (fun _ => f false) ((literal old h.ne_nil).scan part) := by
  rw [fill, marked, List.flatMap_map, fill]
  refine List.flatMap_congr fun t _ => ?_
  cases t <;> rfl

theorem hit_mem_marked (h : Headed old) {part : List α} : Token.hit false ∈ marked h part ↔ old <:+: part := by
  rw [← h.hit_mem_scan, marked, List.mem_map]
  constructor
  · intro ⟨t, ht, hmark⟩
    cases t with
    | lit a => cases hmark
    | hit b => exact ht
  · intro ht
    exact ⟨_, ht, rfl⟩

/-- Replacing in a joined text replaces just the joints exactly where no part
has one, or the joint is replaced by itself. -/
theorem Headed.replaceAll_intercalate_iff (h : Headed old) {parts : List (List α)} :
    replaceAll old h.ne_nil new (old.intercalate parts) = new.intercalate parts ↔
      new = old ∨ ∀ part ∈ parts, ¬ old <:+: part := by
  let ts := [Token.hit true].intercalate (parts.map (marked h))
  have hleft : replaceAll old h.ne_nil new (old.intercalate parts) = fill (fun _ => new) ts := by
    rw [replaceAll, h.scan_intercalate, fill, fill, flatMap_intercalate, flatMap_intercalate, List.map_map,
      List.map_map]
    congr 1
    exact List.map_congr_left fun part _ => (fill_marked h (fun _ => new) part).symm
  have hright : new.intercalate parts = fill (own old new) ts := by
    rw [fill, flatMap_intercalate, List.map_map]
    have hpart : ∀ part ∈ parts, ((·.flatMap (Token.fill (own old new))) ∘ marked h) part = part := by
      intro part _
      exact (fill_marked h (own old new) part).trans ((literal old h.ne_nil).fill_text_scan part)
    rw [List.map_congr_left hpart, List.map_id']
    simp [Token.fill, own]
  have hmem : Token.hit false ∈ ts ↔ ∃ part ∈ parts, old <:+: part := by
    constructor
    · intro ht
      rcases of_mem_intercalate ht with ht | ⟨l, hl, ht⟩
      · simp at ht
      · obtain ⟨part, hpart, rfl⟩ := List.mem_map.mp hl
        exact ⟨part, hpart, (hit_mem_marked h).mp ht⟩
    · intro ⟨part, hpart, hin⟩
      exact mem_intercalate (List.mem_map.mpr ⟨part, hpart, rfl⟩) ((hit_mem_marked h).mpr hin)
  rw [hleft, hright, fill_eq_fill_own_iff, hmem]
  simp only [not_exists, not_and]

end

end Py.Scan
