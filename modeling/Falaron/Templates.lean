/-
The templates of content blocks, and the texts they are rendered to.

A template is formatted with `str.format_map`, and where that fails the
variables are replaced one after the other. The two read it differently: the
formatting makes one brace of two, while the replacement leaves them, and
finds a variable also in a value that was put in before, or across its edge.
`substitutes_iff` says for which templates and values both of them are what a
reader expects: each placeholder is replaced by its value, and nothing else.

A field with more than a name (an attribute, an index, a conversion, a format)
is left to a parameter; no template that is accepted has one.
-/
import Falaron.Py.Scan
import Mathlib.Data.List.Dedup
import Mathlib.Data.List.Sort

namespace Falaron.Cms

open Py.Scan (Token Pattern Headed fill replaceAll)

def lbrace : Char := Char.ofNat 0x7b

def rbrace : Char := Char.ofNat 0x7d

def isBrace (c : Char) : Bool := c = lbrace || c = rbrace

/-! ## The validator -/

/-- `_SAFE_VARS` -/
def safeVars : List String := ["first_name", "balance", "order_count", "plan", "bot_name", "support_link"]

/-- A name in braces. -/
def placeholder (name : List Char) : List Char := lbrace :: (name ++ [rbrace])

/-- What `\{([^}]+)\}` matches at the front of a text: all up to the next closing brace. -/
def varFront : List Char → Option (List Char)
  | [] => none
  | c :: cs =>
    let name := cs.takeWhile (· ≠ rbrace)
    if c = lbrace ∧ name ≠ [] ∧ rbrace ∈ cs then some name else none

theorem takeWhile_rbrace {cs : List Char} (h : rbrace ∈ cs) :
    ∃ as, cs = cs.takeWhile (· ≠ rbrace) ++ rbrace :: as := by
  induction cs with
  | nil => cases h
  | cons c cs ih =>
    by_cases hc : c = rbrace
    · exact ⟨cs, by simp [hc]⟩
    · obtain ⟨as, has⟩ := ih ((List.mem_cons.mp h).resolve_left (Ne.symm hc))
      refine ⟨as, ?_⟩
      rw [List.takeWhile_cons_of_pos (by simpa using hc), List.cons_append, ← has]

theorem varFront_eq {s name : List Char} (h : varFront s = some name) :
    name ≠ [] ∧ rbrace ∉ name ∧ ∃ as, s = placeholder name ++ as := by
  cases s with
  | nil => cases h
  | cons c cs =>
    simp only [varFront] at h
    split at h
    · next hvar =>
      cases h
      obtain ⟨as, has⟩ := takeWhile_rbrace hvar.2.2
      refine ⟨hvar.2.1, fun hmem => ?_, as, ?_⟩
      · simpa using List.mem_takeWhile_imp hmem
      · rw [hvar.1, placeholder, List.cons_append, List.append_assoc, List.singleton_append, ← has]
    · cases h

/-- `_VAR_PATTERN` -/
def varPattern : Pattern Char (List Char) where
  text := placeholder
  front := varFront
  text_ne_nil _ := List.cons_ne_nil _ _
  front_text h := by
    obtain ⟨-, -, as, has⟩ := varFront_eq h
    exact ⟨as, has.symm⟩

/-- A template in parts: its variables, and the characters between them. -/
abbrev Piece := Token Char (List Char)

def pieces (content : List Char) : List Piece := varPattern.scan content

/-- `_VAR_PATTERN.findall(content)` -/
def findall (content : List Char) : List String :=
  (pieces content).filterMap fun
    | .lit _ => none
    | .hit name => some (.ofList name)

/-- `_validate_template` -/
def validateTemplate (content : List Char) : List String :=
  ((findall content).filter (· ∉ safeVars)).dedup.insertionSort (· ≤ ·)

/-! ## Formatting -/

/-- What formatting raises: an error that is caught, or another. -/
inductive FormatError where
  /-- `KeyError` or `ValueError` -/
  | caught
  | other (name : String)
  deriving DecidableEq, Repr

/-- Where in a replacement field the formatter is. -/
inductive FieldState where
  | name
  | bracket
  | conversion
  | converted
  /-- In the format, under so many more braces. -/
  | spec (depth : Nat)
  deriving DecidableEq, Repr

/-- What a character does in a field. -/
inductive FieldStep where
  | next (s : FieldState)
  | done
  | invalid
  deriving DecidableEq, Repr

def FieldState.step (c : Char) : FieldState → FieldStep
  | name =>
    if c = lbrace then .invalid
    else if c = rbrace then .done
    else if c = '[' then .next bracket
    else if c = '!' then .next conversion
    else if c = ':' then .next (spec 0)
    else .next name
  | bracket => if c = ']' then .next name else .next bracket
  | conversion => .next converted
  | converted => if c = rbrace then .done else if c = ':' then .next (spec 0) else .invalid
  | spec depth =>
    if c = lbrace then .next (spec (depth + 1))
    else if c = rbrace then (if depth = 0 then .done else .next (spec (depth - 1)))
    else .next (spec depth)

/-- The variables, in the order of the map. -/
abbrev Vars := List (String × String)

/-- A field that is more than a name. -/
def isSpecial (field : List Char) : Bool := field.any fun c => c = '.' || c = '[' || c = '!' || c = ':'

/-- A template in the formatter: in the text, or in a field that has been read so far. -/
inductive FormatState where
  | text
  | field (s : FieldState) (read : List Char)

section

variable (special : Vars → List Char → Except FormatError (List Char)) (vars : Vars)

/-- The text of a field. -/
def fieldText (field : List Char) : Except FormatError (List Char) :=
  if isSpecial field then special vars field
  else
    match vars.lookup (.ofList field) with
    | some value => .ok value.toList
    | none => .error .caught

def formatFrom : FormatState → List Char → Except FormatError (List Char)
  | .text, [] => .ok []
  | .text, c :: cs =>
    if isBrace c then
      match cs with
      | [] => .error .caught
      | d :: ds =>
        if d = c then (formatFrom .text ds).map (c :: ·)
        else if c = lbrace then formatFrom (.field .name []) (d :: ds)
        else .error .caught
    else (formatFrom .text cs).map (c :: ·)
  | .field _ _, [] => .error .caught
  | .field s read, c :: cs =>
    match s.step c with
    | .next s => formatFrom (.field s (read ++ [c])) cs
    | .done => (fieldText special vars read).bind fun value => (formatFrom .text cs).map (value ++ ·)
    | .invalid => .error .caught

/-- `content.format_map(safe_vars)` -/
def formatMap (content : List Char) : Except FormatError (List Char) := formatFrom special vars .text content

end

/-! ## Rendering -/

/-- A `dict` of texts: no key twice. -/
structure Variables where
  entries : Vars
  nodup : (entries.map (·.1)).Nodup

/-- `{k: v for k, v in variables.items() if k in _SAFE_VARS}` -/
def Variables.safe (given : Variables) : Vars := given.entries.filter fun e => e.1 ∈ safeVars

theorem placeholder_ne_nil (name : List Char) : placeholder name ≠ [] := List.cons_ne_nil _ _

/-- The replacement of the variables, one after the other. -/
def fallback (vars : Vars) (content : List Char) : List Char :=
  vars.foldl (fun result e => replaceAll (placeholder e.1.toList) (placeholder_ne_nil _) e.2.toList result) content

/-- `render_template` -/
def renderTemplate (special : Vars → List Char → Except FormatError (List Char)) (content : List Char)
    (given : Variables) : Except String (List Char) :=
  match formatMap special given.safe content with
  | .ok text => .ok text
  | .error .caught => .ok (fallback given.safe content)
  | .error (.other name) => .error name

/-! ## What is expected -/

/-- A variable's value; its placeholder where it has none. -/
def valueOf (vars : Vars) (name : List Char) : List Char :=
  match vars.lookup (.ofList name) with
  | some value => value.toList
  | none => placeholder name

/-- The template with its placeholders replaced, all at once. -/
def substituted (vars : Vars) (content : List Char) : List Char := fill (valueOf vars) (pieces content)

section

variable (special : Vars → List Char → Except FormatError (List Char)) (content : List Char) (given : Variables)

/-- Rendering substitutes the values for their placeholders and does nothing else, on either way. -/
structure Substitutes : Prop where
  rendered : renderTemplate special content given = .ok (substituted given.safe content)
  agree : ∀ text, formatMap special given.safe content = .ok text → fallback given.safe content = text
  /-- After each replacement the text is the template with the variables so far
  filled in: what was put in is not read again. -/
  unscanned : ∀ earlier later, given.safe = earlier ++ later → fallback earlier content = substituted earlier content

/-- Every placeholder has a value. -/
def AllGiven (vars : Vars) (ps : List Piece) : Prop :=
  ∀ name, Token.hit name ∈ ps → (vars.lookup (.ofList name)).isSome

/-- Every brace outside the placeholders stands beside another of its kind. -/
def doubled : List Piece → Bool
  | [] => true
  | .hit _ :: ps => doubled ps
  | .lit c :: ps =>
    if isBrace c then
      match ps with
      | .lit d :: qs => d = c && doubled qs
      | _ => false
    else doubled ps

def HasBrace (ps : List Piece) : Prop := ∃ c, Token.lit c ∈ ps ∧ isBrace c = true

/-- With the variables before it filled in, a variable's placeholder stands
only where the template has it, or it is its own value. -/
def OnlyOwn (earlier : Vars) (key value : String) : Prop :=
  value.toList = placeholder key.toList ∨
    ∀ part ∈ (pieces content).splitOn (.hit key.toList),
      ¬ placeholder key.toList <:+: fill (valueOf earlier) part

/-- A template and values that both ways read alike. -/
structure Unambiguous : Prop where
  single : AllGiven given.safe (pieces content) → doubled (pieces content) = true → ¬ HasBrace (pieces content)
  onlyOwn : ∀ earlier key value later, given.safe = earlier ++ (key, value) :: later →
    OnlyOwn content earlier key value

end

/-! ## The replacement -/

theorem headed_placeholder {name : List Char} (h : lbrace ∉ name) : Headed (placeholder name) where
  ne_nil := placeholder_ne_nil name
  head_once c w hw := by
    obtain ⟨rfl, rfl⟩ := List.cons_eq_cons.mp hw
    rw [List.mem_append, not_or]
    exact ⟨h, by decide⟩

theorem safe_name {key : String} (h : key ∈ safeVars) :
    lbrace ∉ key.toList ∧ rbrace ∉ key.toList ∧ key.toList ≠ [] ∧ isSpecial key.toList = false := by
  revert key
  decide

variable {vars earlier later : Vars} {key value : String} {content : List Char}

theorem safe_mem {given : Variables} (h : (key, value) ∈ given.safe) : key ∈ safeVars := by
  simpa using (List.mem_filter.mp h).2

theorem lookup_none (h : key ∉ earlier.map (·.1)) : earlier.lookup key = none := by
  refine List.lookup_eq_none_iff.mpr fun e he => ?_
  rw [bne_iff_ne]
  intro hkey
  exact h (List.mem_map.mpr ⟨e, he, hkey.symm⟩)

theorem valueOf_append_self (h : key ∉ earlier.map (·.1)) :
    valueOf (earlier ++ [(key, value)]) key.toList = value.toList := by
  rw [valueOf, String.ofList_toList, List.lookup_append, lookup_none h]
  simp

theorem valueOf_self (h : key ∉ earlier.map (·.1)) : valueOf earlier key.toList = placeholder key.toList := by
  rw [valueOf, String.ofList_toList, lookup_none h]

theorem valueOf_append_ne {name : List Char} (h : name ≠ key.toList) :
    valueOf (earlier ++ [(key, value)]) name = valueOf earlier name := by
  have hne : (String.ofList name == key) = false := by
    rw [beq_eq_false_iff_ne]
    intro he
    exact h (by rw [← he, String.toList_ofList])
  rw [valueOf, valueOf, List.lookup_append]
  simp [List.lookup_cons, hne]

/-- One replacement does what it should exactly where the placeholder is only
found in its own places, or is put in for itself. -/
theorem replace_iff (hkey : key ∈ safeVars) (hnew : key ∉ earlier.map (·.1)) :
    replaceAll (placeholder key.toList) (placeholder_ne_nil _) value.toList (substituted earlier content) =
      substituted (earlier ++ [(key, value)]) content ↔ OnlyOwn content earlier key value := by
  let hit : Piece := .hit key.toList
  let parts := (pieces content).splitOn hit
  have hjoin : [hit].intercalate parts = pieces content := List.intercalate_splitOn hit
  have hfill (f : List Char → List Char) :
      fill f (pieces content) = (f key.toList).intercalate (parts.map (fill f)) := by
    rw [← hjoin, fill, Py.Scan.flatMap_intercalate]
    simp only [hit, List.flatMap_cons, List.flatMap_nil, List.append_nil, Token.fill]
    rfl
  have hparts : parts.map (fill (valueOf (earlier ++ [(key, value)]))) = parts.map (fill (valueOf earlier)) := by
    refine List.map_congr_left fun part hpart => Py.Scan.fill_congr fun name hname => valueOf_append_ne ?_
    intro he
    rw [he] at hname
    exact Py.Scan.not_mem_of_mem_splitOn hpart hname
  rw [substituted, substituted, hfill, hfill, hparts, valueOf_append_self hnew, valueOf_self hnew,
    (headed_placeholder (safe_name hkey).1).replaceAll_intercalate_iff, OnlyOwn]
  simp only [List.mem_map, forall_exists_index, and_imp, forall_apply_eq_imp_iff₂]
  rfl

theorem fallback_append (content : List Char) : fallback (earlier ++ [(key, value)]) content =
    replaceAll (placeholder key.toList) (placeholder_ne_nil _) value.toList (fallback earlier content) := by
  simp [fallback]

theorem substituted_nil (content : List Char) : substituted [] content = content :=
  varPattern.fill_text_scan content

theorem nodup_safe (given : Variables) : (given.safe.map (·.1)).Nodup :=
  given.nodup.sublist (List.filter_sublist.map _)

/-- A variable of the map is safe and new. -/
theorem split_safe {given : Variables} (h : given.safe = earlier ++ (key, value) :: later) :
    key ∈ safeVars ∧ key ∉ earlier.map (·.1) := by
  have hmem : (key, value) ∈ given.safe := by simp [h]
  refine ⟨safe_mem hmem, fun hmem => ?_⟩
  have hnodup := nodup_safe given
  rw [h, List.map_append, List.map_cons, List.nodup_append] at hnodup
  exact hnodup.2.2 key hmem key List.mem_cons_self rfl

/-- After each replacement the text is what it should be exactly where each of them finds only its own places. -/
theorem unscanned_iff {given : Variables} :
    (∀ earlier later, given.safe = earlier ++ later → fallback earlier content = substituted earlier content) ↔
      ∀ earlier key value later, given.safe = earlier ++ (key, value) :: later →
        OnlyOwn content earlier key value := by
  constructor
  · intro h earlier key value later hsplit
    obtain ⟨hkey, hnew⟩ := split_safe hsplit
    have hstep := h (earlier ++ [(key, value)]) later (by rw [hsplit, List.append_assoc]; rfl)
    rw [fallback_append, h earlier _ hsplit] at hstep
    exact (replace_iff hkey hnew).mp hstep
  · intro h earlier
    induction earlier using List.reverseRecOn with
    | nil => exact fun _ _ => (substituted_nil content).symm
    | append_singleton earlier e ih =>
      intro later hsplit
      obtain ⟨key, value⟩ := e
      rw [List.append_assoc, List.singleton_append] at hsplit
      obtain ⟨hkey, hnew⟩ := split_safe hsplit
      rw [fallback_append, ih _ hsplit]
      exact (replace_iff hkey hnew).mpr (h earlier key value later hsplit)

/-! ## The formatting -/

/-- What formatting makes of a template's parts, where it succeeds. -/
def formatted (vars : Vars) : List Piece → Option (List Char)
  | [] => some []
  | .hit name :: ps =>
    match vars.lookup (.ofList name) with
    | some value => (formatted vars ps).map (value.toList ++ ·)
    | none => none
  | .lit c :: ps =>
    if isBrace c then
      match ps with
      | .lit d :: qs => if d = c then (formatted vars qs).map (c :: ·) else none
      | _ => none
    else (formatted vars ps).map (c :: ·)

section

variable {name : List Char} {c d : Char} {ps : List Piece}

theorem allGiven_hit : AllGiven vars (.hit name :: ps) ↔ (vars.lookup (.ofList name)).isSome ∧ AllGiven vars ps := by
  simp [AllGiven]

theorem allGiven_lit : AllGiven vars (.lit c :: ps) ↔ AllGiven vars ps := by simp [AllGiven]

theorem hasBrace_hit : HasBrace (.hit name :: ps) ↔ HasBrace ps := by simp [HasBrace]

theorem hasBrace_lit : HasBrace (.lit c :: ps) ↔ isBrace c = true ∨ HasBrace ps := by
  simp [HasBrace, or_and_right, exists_or]

theorem formatted_hit : formatted vars (.hit name :: ps) =
    match vars.lookup (.ofList name) with
    | some value => (formatted vars ps).map (value.toList ++ ·)
    | none => none := rfl

theorem formatted_step : formatted vars (.lit c :: ps) =
    if isBrace c then
      match ps with
      | .lit d :: qs => if d = c then (formatted vars qs).map (c :: ·) else none
      | _ => none
    else (formatted vars ps).map (c :: ·) := by
  obtain _ | ⟨_ | _, _⟩ := ps <;> rfl

theorem doubled_step : doubled (.lit c :: ps) =
    if isBrace c then
      match ps with
      | .lit d :: qs => d = c && doubled qs
      | _ => false
    else doubled ps := by
  obtain _ | ⟨_ | _, _⟩ := ps <;> rfl

theorem formatted_lit (hc : isBrace c = false) :
    formatted vars (.lit c :: ps) = (formatted vars ps).map (c :: ·) := by
  rw [formatted_step, hc, if_neg Bool.false_ne_true]

theorem doubled_lit (hc : isBrace c = false) : doubled (.lit c :: ps) = doubled ps := by
  rw [doubled_step, hc, if_neg Bool.false_ne_true]

/-- A brace that is not followed by its like cannot be formatted. -/
theorem formatted_single (hc : isBrace c = true) (hps : ∀ qs, ps ≠ .lit c :: qs) :
    formatted vars (.lit c :: ps) = none := by
  rw [formatted_step, if_pos hc]
  obtain _ | ⟨d | name, qs⟩ := ps
  · rfl
  · exact if_neg fun hd => hps qs (by rw [hd])
  · rfl

theorem doubled_single (hc : isBrace c = true) (hps : ∀ qs, ps ≠ .lit c :: qs) : doubled (.lit c :: ps) = false := by
  rw [doubled_step, if_pos hc]
  obtain _ | ⟨d | name, qs⟩ := ps
  · rfl
  · have hd : d ≠ c := fun hd => hps qs (by rw [hd])
    simp only [hd, decide_false, Bool.false_and]
  · rfl

end

/-- Formatting succeeds if all values are given and all other braces are doubled. -/
theorem formatted_isSome {ps : List Piece} :
    (formatted vars ps).isSome ↔ AllGiven vars ps ∧ doubled ps = true := by
  induction ps using doubled.induct with
  | case1 => exact iff_of_true rfl ⟨by simp [AllGiven], rfl⟩
  | case2 name ps ih =>
    rw [formatted_hit, allGiven_hit]
    show _ ↔ _ ∧ doubled ps = true
    cases vars.lookup (.ofList name) with
    | none => simp
    | some value => simpa using ih
  | case3 c hc d qs ih =>
    rw [formatted_step, if_pos hc, doubled_step, if_pos hc, allGiven_lit, allGiven_lit]
    by_cases hd : d = c
    · simpa [hd] using ih
    · simp [hd]
  | case4 c ps hc hps =>
    have hps' : ∀ qs, ps ≠ .lit c :: qs := fun qs => hps c qs
    simp [formatted_single hc hps', doubled_single hc hps']
  | case5 c ps hc ih =>
    have hc' := Bool.eq_false_of_not_eq_true hc
    rw [formatted_lit hc', doubled_lit hc', allGiven_lit, Option.isSome_map]
    exact ih

/-- Formatting makes one brace of two. -/
theorem formatted_eq {ps : List Piece} {text : List Char} (h : formatted vars ps = some text) :
    ¬ HasBrace ps ∧ text = fill (valueOf vars) ps ∨
      HasBrace ps ∧ text.length < (fill (valueOf vars) ps).length := by
  induction ps using doubled.induct generalizing text with
  | case1 =>
    cases h
    exact .inl ⟨by simp [HasBrace], rfl⟩
  | case2 name ps ih =>
    rw [formatted_hit] at h
    cases hvalue : vars.lookup (.ofList name) with
    | none => simp [hvalue] at h
    | some value =>
      simp only [hvalue, Option.map_eq_some_iff] at h
      obtain ⟨rest, hrest, rfl⟩ := h
      have hv : valueOf vars name = value.toList := by rw [valueOf, hvalue]
      rw [hasBrace_hit, Py.Scan.fill_hit, hv]
      rcases ih hrest with ⟨hno, rfl⟩ | ⟨hbrace, hless⟩
      · exact .inl ⟨hno, rfl⟩
      · refine .inr ⟨hbrace, ?_⟩
        simp only [List.length_append]
        omega
  | case3 c hc d qs ih =>
    rw [formatted_step, if_pos hc] at h
    simp only at h
    split at h
    · obtain ⟨rest, hrest, rfl⟩ := Option.map_eq_some_iff.mp h
      refine .inr ⟨hasBrace_lit.mpr (.inl hc), ?_⟩
      have hle : rest.length ≤ (fill (valueOf vars) qs).length := by
        rcases ih hrest with ⟨-, hsame⟩ | ⟨-, hless⟩
        · rw [hsame]
        · exact hless.le
      simp only [Py.Scan.fill_lit, List.length_cons]
      omega
    · cases h
  | case4 c ps hc hps =>
    rw [formatted_single hc fun qs => hps c qs] at h
    cases h
  | case5 c ps hc ih =>
    have hc' := Bool.eq_false_of_not_eq_true hc
    rw [formatted_lit hc'] at h
    obtain ⟨rest, hrest, rfl⟩ := Option.map_eq_some_iff.mp h
    rw [hasBrace_lit, Py.Scan.fill_lit]
    rcases ih hrest with ⟨hno, rfl⟩ | ⟨hbrace, hless⟩
    · exact .inl ⟨by simpa [hc'] using hno, rfl⟩
    · exact .inr ⟨.inr hbrace, by simpa using hless⟩

/-! ### The formatter's steps -/

section

variable {special : Vars → List Char → Except FormatError (List Char)} {c d : Char} {cs ds name read : List Char}

theorem text_step : formatFrom special vars .text (c :: cs) =
    if isBrace c then
      match cs with
      | [] => .error .caught
      | d :: ds =>
        if d = c then (formatFrom special vars .text ds).map (c :: ·)
        else if c = lbrace then formatFrom special vars (.field .name []) (d :: ds)
        else .error .caught
    else (formatFrom special vars .text cs).map (c :: ·) := by
  cases cs with
  | nil => rfl
  | cons d ds => rfl

theorem field_step {s : FieldState} : formatFrom special vars (.field s read) (c :: cs) =
    match s.step c with
    | .next s => formatFrom special vars (.field s (read ++ [c])) cs
    | .done => (fieldText special vars read).bind fun value => (formatFrom special vars .text cs).map (value ++ ·)
    | .invalid => .error .caught := rfl

theorem text_plain (hc : isBrace c = false) :
    formatFrom special vars .text (c :: cs) = (formatFrom special vars .text cs).map (c :: ·) := by
  rw [text_step, hc, if_neg Bool.false_ne_true]

theorem text_last (hc : isBrace c = true) : formatFrom special vars .text [c] = .error .caught := by
  rw [text_step, if_pos hc]

theorem text_double (hc : isBrace c = true) :
    formatFrom special vars .text (c :: c :: ds) = (formatFrom special vars .text ds).map (c :: ·) := by
  rw [text_step, if_pos hc]
  exact if_pos rfl

theorem text_open (hd : d ≠ lbrace) :
    formatFrom special vars .text (lbrace :: d :: ds) = formatFrom special vars (.field .name []) (d :: ds) := by
  have hb : isBrace lbrace = true := by decide
  rw [text_step, if_pos hb]
  simp only [hd, if_false, if_true]

theorem text_close (hd : d ≠ rbrace) : formatFrom special vars .text (rbrace :: d :: ds) = .error .caught := by
  have hb : isBrace rbrace = true := by decide
  have hne : rbrace ≠ lbrace := by decide
  rw [text_step, if_pos hb]
  simp only [hd, hne, if_false]

/-- Only a closing brace ends a field. -/
theorem step_done {s : FieldState} (h : s.step c = .done) : c = rbrace := by
  by_contra hc
  cases s <;> simp only [FieldState.step, hc, if_false] at h
  case conversion => cases h
  all_goals split_ifs at h

theorem field_unclosed (h : rbrace ∉ cs) (s : FieldState) :
    formatFrom special vars (.field s read) cs = .error .caught := by
  induction cs generalizing s read with
  | nil => rfl
  | cons c cs ih =>
    rw [List.mem_cons, not_or] at h
    rw [field_step]
    cases hstep : s.step c with
    | next s => exact ih h.2 s
    | done => exact absurd (step_done hstep).symm h.1
    | invalid => rfl

/-- A field that is just a name. -/
theorem field_name (hbrace : ∀ c ∈ name, isBrace c = false) (hplain : isSpecial name = false) :
    formatFrom special vars (.field .name read) (name ++ rbrace :: cs) =
      (fieldText special vars (read ++ name)).bind fun value =>
        (formatFrom special vars .text cs).map (value ++ ·) := by
  induction name generalizing read with
  | nil =>
    rw [List.nil_append, List.append_nil, field_step]
    rfl
  | cons c name ih =>
    have hc := hbrace c List.mem_cons_self
    simp only [isBrace, Bool.or_eq_false_iff, decide_eq_false_iff_not] at hc
    simp only [isSpecial, List.any_cons, Bool.or_eq_false_iff, decide_eq_false_iff_not] at hplain
    obtain ⟨⟨⟨⟨-, hbracket⟩, hbang⟩, hcolon⟩, hrest⟩ := hplain
    have hstep : FieldState.name.step c = .next .name := by
      simp [FieldState.step, hc, hbracket, hbang, hcolon]
    rw [List.cons_append, field_step, hstep]
    simp only
    rw [ih (fun c hc => hbrace c (List.mem_cons_of_mem _ hc)) hrest, List.append_assoc, List.singleton_append]

end

/-! ### Accepted templates -/

/-- The validator has nothing to say. -/
theorem validate_nil :
    validateTemplate content = [] ↔ ∀ name, Token.hit name ∈ pieces content → .ofList name ∈ safeVars := by
  have hsort : validateTemplate content = [] ↔ (findall content).filter (· ∉ safeVars) = [] := by
    rw [validateTemplate, ← List.length_eq_zero_iff, List.length_insertionSort, List.length_eq_zero_iff]
    constructor
    · intro h
      refine List.eq_nil_iff_forall_not_mem.mpr fun a ha => ?_
      have := List.mem_dedup.mpr ha
      rw [h] at this
      cases this
    · intro h
      rw [h]
      rfl
  rw [hsort, List.filter_eq_nil_iff]
  simp only [findall, List.mem_filterMap, decide_not, Bool.not_eq_true', decide_eq_false_iff_not, not_not]
  constructor
  · intro h name hname
    exact h _ ⟨.hit name, hname, rfl⟩
  · intro h key hkey
    obtain ⟨p, hp, hsome⟩ := hkey
    cases p with
    | lit c => cases hsome
    | hit name =>
      cases hsome
      exact h name hp

/-- What the formatter returns, or raises. -/
def asFormat : Option (List Char) → Except FormatError (List Char)
  | some text => .ok text
  | none => .error .caught

theorem asFormat_map (o : Option (List Char)) (f : List Char → List Char) :
    asFormat (o.map f) = (asFormat o).map f := by
  cases o <;> rfl

theorem pieces_lit {c : Char} {cs : List Char} (h : varFront (c :: cs) = none) :
    pieces (c :: cs) = .lit c :: pieces cs := Pattern.scan_lit (p := varPattern) h

theorem varFront_ne {c : Char} {cs : List Char} (h : c ≠ lbrace) : varFront (c :: cs) = none :=
  if_neg fun hvar => h hvar.1

section

variable {special : Vars → List Char → Except FormatError (List Char)} {name as : List Char}

/-- An accepted placeholder is a field that is just a name. -/
theorem text_placeholder (hname : .ofList name ∈ safeVars) :
    formatFrom special vars .text (placeholder name ++ as) =
      (fieldText special vars name).bind fun value => (formatFrom special vars .text as).map (value ++ ·) := by
  obtain ⟨hopen, hclose, hne, hplain⟩ := safe_name hname
  rw [String.toList_ofList] at hopen hclose hne hplain
  obtain ⟨d, rest, rfl⟩ := List.exists_cons_of_ne_nil hne
  have hd : d ≠ lbrace := fun hd => hopen (hd ▸ List.mem_cons_self)
  have hbrace : ∀ c ∈ d :: rest, isBrace c = false := by
    intro c hc
    simp only [isBrace, Bool.or_eq_false_iff, decide_eq_false_iff_not]
    exact ⟨fun he => hopen (he ▸ hc), fun he => hclose (he ▸ hc)⟩
  rw [← List.nil_append (d :: rest), ← field_name hbrace hplain]
  simp only [placeholder, List.nil_append, List.cons_append, List.append_assoc]
  exact text_open hd

/-- A field that is accepted and not a variable: it is empty, or not closed. -/
theorem text_literal (hvars : ∀ e ∈ vars, e.1 ∈ safeVars) (hfront : varFront (lbrace :: as) = none)
    (has : as.head? ≠ some lbrace) : formatFrom special vars .text (lbrace :: as) = .error .caught := by
  cases as with
  | nil => exact text_last (by decide)
  | cons d ds =>
    rw [text_open (by simpa using has)]
    by_cases hclose : rbrace ∈ d :: ds
    · have hempty : (d :: ds).takeWhile (· ≠ rbrace) = [] := by
        by_contra hne
        simp only [varFront] at hfront
        rw [if_pos ⟨trivial, hne, hclose⟩] at hfront
        cases hfront
      obtain rfl : d = rbrace := by
        by_contra hd
        rw [List.takeWhile_cons_of_pos (by simpa using hd)] at hempty
        cases hempty
      have hlookup : vars.lookup (.ofList []) = none := by
        refine List.lookup_eq_none_iff.mpr fun e he => ?_
        rw [bne_iff_ne]
        intro hkey
        exact absurd (hkey ▸ hvars e he) (by decide)
      have hstep : FieldState.name.step rbrace = .done := rfl
      rw [formatFrom, hstep]
      simp only [fieldText, hlookup]
      rfl
    · exact field_unclosed hclose .name

end

/-- Behind a brace that begins no variable, its like begins none. -/
theorem varFront_tail {c : Char} {cs : List Char} (h : varFront (c :: c :: cs) = none) :
    varFront (c :: cs) = none := by
  by_cases hc : c = lbrace
  · subst hc
    refine if_neg fun hvar => ?_
    simp only [varFront] at h
    have hne : (lbrace :: cs).takeWhile (· ≠ rbrace) ≠ [] := by
      rw [List.takeWhile_cons_of_pos (by decide)]
      exact List.cons_ne_nil _ _
    rw [if_pos ⟨trivial, hne, List.mem_cons_of_mem _ hvar.2.2⟩] at h
    cases h
  · exact varFront_ne hc

theorem head_pieces {c : Char} {cs : List Char} {qs : List Piece} (h : pieces cs = .lit c :: qs) :
    cs.head? = some c := by
  obtain rfl | ⟨name, as, -, -, hscan⟩ | ⟨d, as, rfl, -, hscan⟩ := varPattern.scan_cases cs
  · cases h
  · cases hscan.symm.trans h
  · cases hscan.symm.trans h
    rfl

/-- An accepted template is formatted by its parts. -/
theorem formatFrom_text {special : Vars → List Char → Except FormatError (List Char)}
    (hvars : ∀ e ∈ vars, e.1 ∈ safeVars) (cs : List Char)
    (h : ∀ name, Token.hit name ∈ pieces cs → .ofList name ∈ safeVars) :
    formatFrom special vars .text cs = asFormat (formatted vars (pieces cs)) := by
  induction hn : cs.length using Nat.strongRecOn generalizing cs with
  | ind n ih =>
    subst hn
    obtain rfl | ⟨name, as, hs, hfront, hscan⟩ | ⟨c, as, rfl, hfront, hscan⟩ := varPattern.scan_cases cs
    · rfl
    · have hpieces : pieces cs = .hit name :: pieces as := hscan
      rw [hpieces] at h ⊢
      have hname := h name List.mem_cons_self
      have hlt : as.length < cs.length := by
        have := varPattern.text_length_pos name
        simp only [hs, List.length_append]
        omega
      have hrest := ih _ hlt as (fun name hmem => h name (List.mem_cons_of_mem _ hmem)) rfl
      have hplain : isSpecial name = false := by simpa using (safe_name hname).2.2.2
      rw [hs]
      refine (text_placeholder hname).trans ?_
      rw [hrest, fieldText, hplain, if_neg Bool.false_ne_true, formatted]
      cases vars.lookup (.ofList name) with
      | none => rfl
      | some value => exact (asFormat_map ..).symm
    · have hpieces : pieces (c :: as) = .lit c :: pieces as := hscan
      rw [hpieces] at h ⊢
      have hrest := ih as.length (by simp) as (fun name hmem => h name (List.mem_cons_of_mem _ hmem)) rfl
      cases hc : isBrace c with
      | false => rw [text_plain hc, formatted_lit hc, hrest, asFormat_map]
      | true =>
        by_cases hhead : as.head? = some c
        · -- a brace and its like: one of them is left
          obtain ⟨ds, rfl⟩ := List.head?_eq_some_iff.mp hhead
          have hnone : varFront (c :: ds) = none := varFront_tail hfront
          rw [pieces_lit hnone] at h ⊢
          have hlt : ds.length < (c :: c :: ds).length := Nat.lt_add_of_pos_right (by decide : 0 < 2)
          have hds := ih ds.length hlt ds (fun name hmem => h name (by simp [hmem])) rfl
          rw [text_double hc, hds, formatted, if_pos hc]
          simp only [if_true, asFormat_map]
        · -- a brace alone
          rw [formatted_single hc fun qs hqs => hhead (head_pieces hqs)]
          simp only [isBrace, Bool.or_eq_true, decide_eq_true_eq] at hc
          rcases hc with rfl | rfl
          · exact text_literal hvars hfront hhead
          · cases as with
            | nil => exact text_last (by decide)
            | cons d ds => exact text_close (by simpa using hhead)

/-! ## Both ways -/

/-- Of an accepted template, each way of rendering puts in the values, all at
once and nothing else, exactly where the template and the values are unambiguous. -/
theorem substitutes_iff (special : Vars → List Char → Except FormatError (List Char)) (content : List Char)
    (given : Variables) (h : validateTemplate content = []) :
    Substitutes special content given ↔ Unambiguous content given := by
  have hformat : formatMap special given.safe content = asFormat (formatted given.safe (pieces content)) :=
    formatFrom_text (fun e he => safe_mem he) content (validate_nil.mp h)
  constructor
  · intro hsub
    refine ⟨fun hgiven hdoubled hbrace => ?_, unscanned_iff.mp hsub.unscanned⟩
    obtain ⟨text, htext⟩ := Option.isSome_iff_exists.mp (formatted_isSome.mpr ⟨hgiven, hdoubled⟩)
    have hrendered := hsub.rendered
    rw [renderTemplate, hformat, htext] at hrendered
    obtain rfl : text = substituted given.safe content := Except.ok.inj hrendered
    rcases formatted_eq htext with ⟨hno, -⟩ | ⟨-, hless⟩
    · exact hno hbrace
    · exact absurd hless (lt_irrefl _)
  · intro hun
    have hunscanned := unscanned_iff.mpr hun.onlyOwn
    have hfallback : fallback given.safe content = substituted given.safe content :=
      hunscanned given.safe [] (List.append_nil _).symm
    have htext : ∀ text, formatted given.safe (pieces content) = some text →
        text = substituted given.safe content := by
      intro text htext
      obtain ⟨hgiven, hdoubled⟩ := formatted_isSome.mp (Option.isSome_iff_exists.mpr ⟨text, htext⟩)
      rcases formatted_eq htext with ⟨-, hsame⟩ | ⟨hbrace, -⟩
      · exact hsame
      · exact absurd hbrace (hun.single hgiven hdoubled)
    refine ⟨?_, fun text hok => ?_, hunscanned⟩
    · rw [renderTemplate, hformat]
      cases hparts : formatted given.safe (pieces content) with
      | none => exact congrArg Except.ok hfallback
      | some text => exact congrArg Except.ok (htext text hparts)
    · rw [hformat] at hok
      cases hparts : formatted given.safe (pieces content) with
      | none => rw [hparts] at hok; cases hok
      | some text' =>
        rw [hparts] at hok
        cases hok
        rw [hfallback, htext text hparts]

/-- Formatting makes one brace of two. -/
example : renderTemplate (fun _ _ => .error .caught) [rbrace, rbrace] ⟨[], List.nodup_nil⟩ = .ok [rbrace] := by
  decide

def greeting : List Char := "Hi \x7bfirst_name\x7d!".toList

def named : Variables := ⟨[("first_name", "A")], by decide⟩

theorem greeting_substitutes : Substitutes (fun _ _ => .error .caught) greeting named :=
  (substitutes_iff (fun _ _ => .error .caught) greeting named (by decide +kernel)).mpr {
    single := by
      intro _ _ ⟨c, hc, hbrace⟩
      have hpieces : pieces greeting = [.lit 'H', .lit 'i', .lit ' ', .hit "first_name".toList, .lit '!'] := by
        decide +kernel
      rw [hpieces] at hc
      simp only [List.mem_cons, Token.lit.injEq, reduceCtorEq, List.not_mem_nil, false_or, or_false] at hc
      rcases hc with rfl | rfl | rfl | rfl <;> exact absurd hbrace (by decide)
    onlyOwn := by
      intro earlier key value later hsplit
      have hsafe : named.safe = [("first_name", "A")] := by decide +kernel
      rw [hsafe] at hsplit
      cases earlier with
      | nil =>
        cases hsplit
        exact .inr (by decide +kernel)
      | cons e earlier => simp at hsplit }

/-- The brace at its end cannot be formatted. -/
def summary : List Char := "\x7bfirst_name\x7d: \x7bbalance\x7d :\x7d".toList

/-- A first name that is a placeholder. -/
def misnamed : Variables := ⟨[("first_name", "\x7bbalance\x7d"), ("balance", "5")], by decide⟩

/-- The first name is replaced by the balance. -/
theorem value_scanned_again : ¬ ∀ (special : Vars → List Char → Except FormatError (List Char)) (content : List Char)
    (given : Variables), validateTemplate content = [] → Substitutes special content given := by
  intro h
  have hrendered := (h (fun _ _ => .error .caught) summary misnamed (by decide +kernel)).rendered
  exact absurd hrendered (by decide +kernel)

end Falaron.Cms
