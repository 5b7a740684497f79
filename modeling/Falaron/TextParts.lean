/-
How many lines and words a text has.

`partsWith` counts the parts of a text that have something on them. What
`splitlines` and the splitting of usernames make of a text is counted so, with
blanks around it or without, and so are the lines of what is joined again.
-/
import Falaron.Text
import Falaron.Py.Scan

namespace Falaron.Text

open Py.Scan (not_of_mem_splitOnPPrepend)

/-- The parts of a text, between the characters that end one, that have a character that counts. -/
def partsWith (ends counts : Char → Bool) (s : String) : Nat :=
  ((s.toList.splitOnP ends).filter (·.any counts)).length

/-- The same, scanned from left to right; `seen` says whether the part so far counts. -/
def tally (ends counts : Char → Bool) (seen : Bool) : List Char → Nat
  | [] => seen.toNat
  | c :: cs => if ends c then seen.toNat + tally ends counts false cs else tally ends counts (seen || counts c) cs

section

variable {ends counts : Char → Bool}

theorem length_filter_splitOnPPrepend (acc cs : List Char) :
    ((cs.splitOnPPrepend ends acc).filter (·.any counts)).length = tally ends counts (acc.any counts) cs := by
  induction cs generalizing acc with
  | nil =>
    rw [List.splitOnPPrepend_nil, List.filter_cons, List.any_reverse]
    cases h : acc.any counts with
    | true => simp [tally]
    | false => simp [tally]
  | cons c cs ih =>
    rw [List.splitOnPPrepend_cons_eq_if, tally]
    split
    · have hrest : ((cs.splitOnP ends).filter (·.any counts)).length = tally ends counts false cs := ih []
      rw [List.filter_cons, List.any_reverse]
      cases h : acc.any counts with
      | true => simp [hrest, Nat.add_comm]
      | false => simp [hrest]
    · rw [ih, List.any_cons, Bool.or_comm]

theorem partsWith_eq_tally (s : String) : partsWith ends counts s = tally ends counts false s.toList :=
  length_filter_splitOnPPrepend [] s.toList

/-- A character that ends a part or does not count makes no part at the end. -/
theorem tally_append_blanks {blanks : List Char} (h : ∀ c ∈ blanks, ends c = true ∨ counts c = false) (seen : Bool)
    (cs : List Char) : tally ends counts seen (cs ++ blanks) = tally ends counts seen cs := by
  induction cs generalizing seen with
  | cons c cs ih =>
    simp only [List.cons_append, tally]
    split
    · rw [ih]
    · rw [ih]
  | nil =>
    simp only [List.nil_append]
    induction blanks generalizing seen with
    | nil => rfl
    | cons c blanks ih =>
      have hrest := ih fun c' hc' => h c' (List.mem_cons_of_mem _ hc')
      simp only [tally, hrest]
      split
      · rfl
      · next hends =>
        rw [(h c List.mem_cons_self).resolve_left hends, Bool.or_false]

/-- Nor does it at the beginning. -/
theorem tally_dropWhile {blank : Char → Bool} (h : ∀ c, blank c = true → ends c = true ∨ counts c = false)
    (cs : List Char) : tally ends counts false (cs.dropWhile blank) = tally ends counts false cs := by
  induction cs with
  | nil => rfl
  | cons c cs ih =>
    rw [List.dropWhile_cons]
    split
    · next hblank =>
      rw [ih, tally]
      split
      · simp
      · next hends => rw [(h c hblank).resolve_left hends, Bool.or_false]
    · rfl

theorem partsWith_strip (h : ∀ c, isSpace c = true → ends c = true ∨ counts c = false) (s : String) :
    partsWith ends counts (strip s) = partsWith ends counts s := by
  have htrim (cs : List Char) :
      tally ends counts false (cs.reverse.dropWhile isSpace).reverse = tally ends counts false cs := by
    have hsplit : cs = (cs.reverse.dropWhile isSpace).reverse ++ (cs.reverse.takeWhile isSpace).reverse := by
      rw [← List.reverse_append, List.takeWhile_append_dropWhile, List.reverse_reverse]
    have hblanks := @tally_append_blanks ends counts (cs.reverse.takeWhile isSpace).reverse (fun c hc =>
      h c (List.mem_takeWhile_imp (List.mem_reverse.mp hc))) false (cs.reverse.dropWhile isSpace).reverse
    rw [← hblanks, ← hsplit]
  rw [partsWith_eq_tally, partsWith_eq_tally, strip, String.toList_ofList, stripL, htrim, tally_dropWhile h]

end

/-! ## Comments and usernames -/

/-- The lines of a text that are not blank. -/
def commentsIn (s : String) : Nat := partsWith isLineBreak (fun c => !isSpace c) s

/-- The words of a text, between blanks and commas, that are more than at signs. -/
def usernamesIn (s : String) : Nat := partsWith (fun c => isSpace c || c == ',') (fun c => c != '@') s

/-- The lines of a text, between newlines, that are not empty. -/
def nonEmptyLines (s : String) : Nat := partsWith (· == '\n') (fun _ => true) s

theorem commentsIn_strip (s : String) : commentsIn (strip s) = commentsIn s :=
  partsWith_strip (fun c hc => .inr (by simp [hc])) s

theorem usernamesIn_strip (s : String) : usernamesIn (strip s) = usernamesIn s :=
  partsWith_strip (fun c hc => .inl (by simp [hc])) s

theorem mem_of_mem_stripL {cs : List Char} {c : Char} (h : c ∈ stripL cs) : c ∈ cs := by
  have hright := (List.dropWhile_sublist isSpace).subset (List.mem_reverse.mp h)
  exact (List.dropWhile_sublist isSpace).subset (List.mem_reverse.mp hright)

/-- A text that is not all blanks leaves something when it is stripped. -/
theorem stripL_ne_nil_iff {cs : List Char} : stripL cs ≠ [] ↔ cs.any (fun c => !isSpace c) = true := by
  have hmem : (∀ c ∈ cs.dropWhile isSpace, isSpace c = true) ↔ ∀ c ∈ cs, isSpace c = true := by
    refine ⟨fun h c hc => ?_, fun h c hc => h c ((List.dropWhile_sublist isSpace).subset hc)⟩
    rw [← List.takeWhile_append_dropWhile (p := isSpace) (l := cs), List.mem_append] at hc
    exact hc.elim List.mem_takeWhile_imp (h c)
  have hnil : stripL cs = [] ↔ ∀ c ∈ cs, isSpace c = true := by
    rw [stripL, List.reverse_eq_nil_iff, List.dropWhile_eq_nil_iff, ← hmem]
    simp only [List.mem_reverse]
  rw [Ne, hnil]
  simp

/-- `splitlines` finds the parts between line breaks, up to empty ones. -/
theorem filter_splitLinesL (counts : Char → Bool) (acc cs : List Char) :
    (splitLinesL acc cs).filter (·.any counts) = (cs.splitOnPPrepend isLineBreak acc).filter (·.any counts) := by
  fun_induction splitLinesL acc cs with
  | case1 acc hempty =>
    rw [List.isEmpty_iff.mp hempty]
    rfl
  | case2 acc => rfl
  | case3 acc cs ih =>
    have hrest : ('\n' :: cs).splitOnP isLineBreak = [] :: cs.splitOnP isLineBreak := List.splitOnPPrepend_cons_pos rfl
    rw [List.splitOnPPrepend_cons_pos rfl, hrest]
    simp only [List.filter_cons, ih, List.splitOnPPrepend_nil_right, List.any_nil, Bool.false_eq_true, if_false]
  | case4 acc c cs hcr hbreak ih =>
    rw [List.splitOnPPrepend_cons_pos hbreak, List.filter_cons, List.filter_cons, ih, List.splitOnPPrepend_nil_right]
  | case5 acc c cs hcr hbreak ih => rw [List.splitOnPPrepend_cons_neg (by simpa using hbreak), ih]

/-- The words are the parts between blanks and commas that are not empty. -/
theorem wordsL_eq (acc cs : List Char) :
    wordsL acc cs = (cs.splitOnPPrepend (fun c => isSpace c || c == ',') acc).filter (!·.isEmpty) := by
  fun_induction wordsL acc cs with
  | case1 acc hempty =>
    rw [List.isEmpty_iff.mp hempty]
    rfl
  | case2 acc hsome =>
    have hkept : (!acc.reverse.isEmpty) = true := by simpa using hsome
    rw [List.splitOnPPrepend_nil, List.filter_cons, if_pos hkept]
    rfl
  | case3 acc c cs hends hempty ih =>
    rw [List.splitOnPPrepend_cons_pos (p := fun c => isSpace c || c == ',') hends, List.isEmpty_iff.mp hempty, ih]
    rfl
  | case4 acc c cs hends hsome ih =>
    have hkept : (!acc.reverse.isEmpty) = true := by simpa using hsome
    rw [List.splitOnPPrepend_cons_pos (p := fun c => isSpace c || c == ',') hends, List.filter_cons, if_pos hkept, ih,
      List.splitOnPPrepend_nil_right]
  | case5 acc c cs hends ih => rw [List.splitOnPPrepend_cons_neg (by simpa using hends), ih]

theorem lines_eq (s : String) : lines s =
    ((s.toList.splitOnP isLineBreak).filter fun l => l.any fun c => !isSpace c).map fun l =>
      String.ofList (stripL l) := by
  have hkept (l : List Char) : decide (String.ofList (stripL l) ≠ "") = l.any fun c => !isSpace c := by
    rw [Bool.eq_iff_iff, decide_eq_true_eq, ← stripL_ne_nil_iff, Ne, Ne, String.ofList_eq_empty_iff]
  rw [lines, List.filter_map, ← List.splitOnPPrepend_nil_right, ← filter_splitLinesL]
  congr 2
  funext l
  exact hkept l

theorem length_lines (s : String) : (lines s).length = commentsIn s := by
  rw [lines_eq, List.length_map]
  rfl

/-- A line is on one line. -/
theorem newline_not_mem_lines {s line : String} (h : line ∈ lines s) : '\n' ∉ line.toList := by
  rw [lines_eq] at h
  obtain ⟨l, hl, rfl⟩ := List.mem_map.mp h
  intro hmem
  rw [String.toList_ofList] at hmem
  have hline := not_of_mem_splitOnPPrepend (List.mem_filter.mp hl).1 (by simp) _ (mem_of_mem_stripL hmem)
  cases hline

theorem lines_ne_empty {s line : String} (h : line ∈ lines s) : line ≠ "" := by
  simpa using (List.mem_filter.mp h).2

theorem names_eq (s : String) : names s =
    ((s.toList.splitOnP fun c => isSpace c || c == ',').filter (!·.isEmpty)).map fun l =>
      String.ofList (l.dropWhile (· == '@')) := by
  rw [names, wordsL_eq]
  rfl

theorem newline_not_mem_names {s name : String} (h : name ∈ names s) : '\n' ∉ name.toList := by
  rw [names_eq] at h
  obtain ⟨l, hl, rfl⟩ := List.mem_map.mp h
  intro hmem
  rw [String.toList_ofList] at hmem
  have hword := not_of_mem_splitOnPPrepend (List.mem_filter.mp hl).1 (by simp) _
    ((List.dropWhile_sublist (· == '@')).subset hmem)
  cases hword

theorem length_names (s : String) : ((names s).filter (· ≠ "")).length = usernamesIn s := by
  rw [names_eq, List.filter_map, List.length_map, List.filter_filter, usernamesIn, partsWith]
  congr 2
  funext l
  rw [Bool.eq_iff_iff]
  simp only [Function.comp_apply, Bool.and_eq_true, Bool.not_eq_true', decide_eq_true_eq, Ne,
    String.ofList_eq_empty_iff, List.dropWhile_eq_nil_iff, List.any_eq_true, bne_iff_ne, beq_iff_eq,
    List.isEmpty_eq_false_iff]
  constructor
  · rintro ⟨h, -⟩
    simpa using h
  · rintro ⟨c, hc, hne⟩
    exact ⟨fun h => hne (h c hc), List.ne_nil_of_mem hc⟩

/-- Texts without newlines, joined by newlines, are the lines of the whole. -/
theorem nonEmptyLines_join {parts : List String} (h : ∀ part ∈ parts, '\n' ∉ part.toList) :
    nonEmptyLines ("\n".intercalate parts) = (parts.filter (· ≠ "")).length := by
  cases parts with
  | nil => rfl
  | cons part parts =>
    have hsplit : (("\n".intercalate (part :: parts)).toList).splitOn '\n' = (part :: parts).map String.toList := by
      rw [String.toList_intercalate]
      refine List.splitOn_intercalate '\n' (fun l hl => ?_) (by simp)
      obtain ⟨s, hs, rfl⟩ := List.mem_map.mp hl
      exact h s hs
    rw [nonEmptyLines, partsWith, ← List.splitOn_eq_splitOnP, hsplit, List.filter_map, List.length_map]
    congr 2
    funext s
    have hempty : s.toList = [] ↔ s = "" := String.toList_eq_nil_iff
    rw [Bool.eq_iff_iff, Function.comp_apply, decide_eq_true_eq, Ne, ← hempty]
    cases s.toList <;> simp

end Falaron.Text
