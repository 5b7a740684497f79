/-
Sums taken class by class.
-/
import Mathlib.Algebra.BigOperators.Group.List.Basic
import Mathlib.Data.List.Forall2
import Mathlib.Data.List.Nodup

namespace Tally

variable {α κ M : Type} [DecidableEq κ] [AddCommMonoid M]

/-- What the members of `l` in the class `k` add up to. -/
def inClass (of : α → κ) (g : α → M) (l : List α) (k : κ) : M := ((l.filter fun a => of a = k).map g).sum

theorem inClass_cons (of : α → κ) (g : α → M) (a : α) (l : List α) (k : κ) :
    inClass of g (a :: l) k = (if of a = k then g a else 0) + inClass of g l k := by
  by_cases h : of a = k
  · simp [inClass, h]
  · simp [inClass, h]

/-- The whole is the sum of its classes, when no member is outside them. -/
theorem sum_classes {of : α → κ} (g : α → M) (ks : List κ) (hks : ks.Nodup) {l : List α} (h : ∀ a ∈ l, of a ∈ ks) :
    (l.map g).sum = (ks.map (inClass of g l)).sum := by
  induction l with
  | nil =>
    have hzero : inClass of g [] = fun _ => 0 := rfl
    simp [hzero]
  | cons a l ih =>
    have hone : (ks.map fun k => if of a = k then g a else 0).sum = g a := by
      rw [List.sum_map_eq_nsmul_single (of a) _ fun k hk _ => if_neg (Ne.symm hk),
        List.count_eq_one_of_mem hks (h a List.mem_cons_self), one_nsmul, if_pos rfl]
    have hsplit : inClass of g (a :: l) = fun k => (if of a = k then g a else 0) + inClass of g l k :=
      funext (inClass_cons of g a l)
    rw [List.map_cons, List.sum_cons, ih fun b hb => h b (List.mem_cons_of_mem _ hb), hsplit, List.sum_map_add, hone]

/-- A class that lies within a part of the list is the same in it. -/
theorem inClass_filter {of : α → κ} {g : α → M} {p : α → Bool} {k : κ} {l : List α}
    (h : ∀ a ∈ l, of a = k → p a = true) : inClass of g (l.filter p) k = inClass of g l k := by
  rw [inClass, inClass, List.filter_filter]
  refine congrArg (fun l => (l.map g).sum) (List.filter_congr fun a ha => ?_)
  by_cases hk : of a = k
  · simp [hk, h a ha hk]
  · simp [hk]

/-! ## Lists that match, member by member -/

variable {β : Type} {R : α → β → Prop} {l : List α} {l' : List β}

theorem exists_match (h : List.Forall₂ R l l') {a : α} (ha : a ∈ l) : ∃ b ∈ l', R a b := by
  induction h with
  | nil => cases ha
  | cons hab _ ih =>
    rcases List.mem_cons.mp ha with rfl | ha
    · exact ⟨_, List.mem_cons_self, hab⟩
    · obtain ⟨b, hb, hR⟩ := ih ha
      exact ⟨b, List.mem_cons_of_mem _ hb, hR⟩

/-- Members that match by class and amount add up to the same. -/
theorem inClass_match {of : α → κ} {of' : β → κ} {g : α → M} {g' : β → M} (h : List.Forall₂ R l l')
    (hR : ∀ a b, R a b → of a = of' b ∧ g a = g' b) (k : κ) : inClass of g l k = inClass of' g' l' k := by
  induction h with
  | nil => rfl
  | cons hab _ ih => rw [inClass_cons, inClass_cons, ih, (hR _ _ hab).1, (hR _ _ hab).2]

end Tally
