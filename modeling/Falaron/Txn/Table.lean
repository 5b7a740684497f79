/-
Tables with a primary key.

A table is the list of its rows, no two of which have one key. `set` is an
update of the row with the key of the new one, `add` an insertion; a row
whose key is taken is not added.
-/
import Mathlib.Data.List.Induction
import Mathlib.Data.List.Nodup

namespace Txn

structure Table {α κ : Type} (key : α → κ) where
  rows : List α
  keys : (rows.map key).Nodup

namespace Table

variable {α κ : Type} [DecidableEq κ] {key : α → κ}

omit [DecidableEq κ] in
theorem ext {t t' : Table key} (h : t.rows = t'.rows) : t = t' := by
  cases t
  cases t'
  cases h
  rfl

instance : Inhabited (Table key) := ⟨⟨[], List.nodup_nil⟩⟩

def find (t : Table key) (k : κ) : Option α := t.rows.find? fun a => key a = k

def has (t : Table key) (k : κ) : Bool := t.rows.any fun a => key a = k

/-- The rows with `b` in the place of the row with its key. -/
def replaced (key : α → κ) (b : α) (l : List α) : List α := l.map fun a => if key a = key b then b else a

theorem map_replaced (b : α) (l : List α) : (replaced key b l).map key = l.map key := by
  simp only [replaced, List.map_map]
  refine List.map_congr_left fun a _ => ?_
  simp only [Function.comp_apply]
  split
  · next h => exact h.symm
  · rfl

def set (t : Table key) (b : α) : Table key := ⟨replaced key b t.rows, by rw [map_replaced]; exact t.keys⟩

theorem nodup_concat {t : Table key} {b : α} (h : t.has (key b) = false) : ((t.rows ++ [b]).map key).Nodup := by
  rw [List.map_append, List.nodup_append]
  refine ⟨t.keys, by simp, fun k hk k' hk' => ?_⟩
  obtain ⟨a, ha, rfl⟩ := List.mem_map.mp hk
  simp only [List.map_cons, List.map_nil, List.mem_singleton] at hk'
  simp only [has, List.any_eq_false, decide_eq_true_eq] at h
  exact hk' ▸ h a ha

def add (t : Table key) (b : α) : Table key :=
  if h : t.has (key b) = false then ⟨t.rows ++ [b], nodup_concat h⟩ else t

variable {t : Table key} {a b : α}

theorem add_rows (h : t.has (key b) = false) : (t.add b).rows = t.rows ++ [b] := by
  rw [add, dif_pos h]

@[simp] theorem length_set : (t.set b).rows.length = t.rows.length := by simp [set, replaced]

/-- No key is lost. -/
theorem keys_add {k : κ} (h : k ∈ t.rows.map key) : k ∈ (t.add b).rows.map key := by
  unfold add
  split
  · rw [List.map_append]
    exact List.mem_append_left _ h
  · exact h

omit [DecidableEq κ] in
/-- A row is the only one with its key. -/
theorem unique (ha : a ∈ t.rows) (hb : b ∈ t.rows) (h : key a = key b) : a = b :=
  List.inj_on_of_nodup_map t.keys ha hb h

theorem find_of_mem (h : a ∈ t.rows) : t.find (key a) = some a := by
  cases hfind : t.find (key a) with
  | none => exact absurd (decide_eq_true rfl) (List.find?_eq_none.mp hfind a h)
  | some b =>
    have hk : key b = key a := of_decide_eq_true (List.find?_some (p := fun b => decide (key b = key a)) hfind)
    rw [unique (List.mem_of_find?_eq_some hfind) h hk]

theorem set_of_mem (h : b ∈ t.rows) : t.set b = t := by
  refine ext ((List.map_congr_left fun a ha => ?_).trans (List.map_id' _))
  split
  · next hk => exact (unique ha h hk).symm
  · rfl

theorem mem_set (h : key b ∈ t.rows.map key) : b ∈ (t.set b).rows := by
  obtain ⟨a, ha, hk⟩ := List.mem_map.mp h
  exact List.mem_map.mpr ⟨a, ha, if_pos hk⟩

theorem keys_set : (t.set b).rows.map key = t.rows.map key := map_replaced b t.rows

theorem mem_set_of_ne (h : a ∈ t.rows) (hne : key a ≠ key b) : a ∈ (t.set b).rows :=
  List.mem_map.mpr ⟨a, h, if_neg hne⟩

/-- Updates of other rows leave a row alone. -/
theorem mem_foldl_set_of_mem {l : List α} (h : b ∈ t.rows) (hne : key b ∉ l.map key) : b ∈ (l.foldl set t).rows := by
  induction l generalizing t with
  | nil => exact h
  | cons c l ih =>
    simp only [List.map_cons, List.mem_cons, not_or] at hne
    exact ih (mem_set_of_ne h hne.1) hne.2

/-- Updates of different rows all last. -/
theorem mem_foldl_set {l : List α} (hl : (l.map key).Nodup) (hin : ∀ b ∈ l, key b ∈ t.rows.map key)
    (h : b ∈ l) : b ∈ (l.foldl set t).rows := by
  induction l generalizing t with
  | nil => cases h
  | cons c l ih =>
    rw [List.map_cons, List.nodup_cons] at hl
    rw [List.foldl_cons]
    rcases List.mem_cons.mp h with rfl | h
    · exact mem_foldl_set_of_mem (mem_set (hin b List.mem_cons_self)) hl.1
    · refine ih hl.2 (fun d hd => ?_) h
      rw [keys_set]
      exact hin d (List.mem_cons_of_mem _ hd)

/-- Updates change nothing exactly when each row is already what it is set to. -/
theorem foldl_set_eq_self {l : List α} (hl : (l.map key).Nodup) (hin : ∀ b ∈ l, key b ∈ t.rows.map key) :
    l.foldl set t = t ↔ ∀ b ∈ l, b ∈ t.rows := by
  refine ⟨fun h b hb => h ▸ mem_foldl_set hl hin hb, fun h => ?_⟩
  clear hl hin
  induction l with
  | nil => rfl
  | cons c l ih =>
    rw [List.foldl_cons, set_of_mem (h c List.mem_cons_self)]
    exact ih fun b hb => h b (List.mem_cons_of_mem _ hb)

/-! ## Updates of some rows -/

/-- What a row has become after updates with `us`, no two of which are of one key. -/
def after (key : α → κ) (us : List α) (a : α) : α := (us.find? fun u => key u = key a).getD a

section

variable {us rows added : List α}

theorem key_after : key (after key us a) = key a := by
  unfold after
  cases h : us.find? fun u => key u = key a with
  | none => rfl
  | some u => exact of_decide_eq_true (List.find?_some (p := fun u => decide (key u = key a)) h)

theorem after_of_not_mem (h : key a ∉ us.map key) : after key us a = a := by
  have hnone : us.find? (fun u => key u = key a) = .none := by
    rw [List.find?_eq_none]
    intro u hu hk
    exact h (of_decide_eq_true hk ▸ List.mem_map_of_mem hu)
  rw [after, hnone]
  rfl

theorem after_of_mem {u : α} (hus : (us.map key).Nodup) (hu : u ∈ us) (hk : key u = key a) : after key us a = u := by
  cases h : us.find? fun u => key u = key a with
  | none => exact absurd (decide_eq_true hk) (List.find?_eq_none.mp h u hu)
  | some u' =>
    have hk' : key u' = key a := of_decide_eq_true (List.find?_some (p := fun u => decide (key u = key a)) h)
    rw [after, h]
    exact List.inj_on_of_nodup_map hus (List.mem_of_find?_eq_some h) hu (hk'.trans hk.symm)

theorem after_concat (h : key b ∉ us.map key) : after key (us ++ [b]) a = if key a = key b then b else after key us a := by
  unfold after
  rw [List.find?_append]
  split
  · next hk =>
    have hnone : us.find? (fun u => key u = key a) = .none := by
      rw [List.find?_eq_none]
      intro u hu hk'
      exact h (hk ▸ of_decide_eq_true hk' ▸ List.mem_map_of_mem hu)
    rw [hnone]
    simp [hk]
  · next hk => simp [Ne.symm hk]

/-- One more update, of a row that has not been updated. -/
theorem set_after (h : t.rows = rows.map (after key us) ++ added) (hnew : key b ∉ us.map key) (hb : key b ∈ rows.map key) :
    (t.set b).rows = rows.map (after key (us ++ [b])) ++ added := by
  have hkeys := t.keys
  rw [h, List.map_append, List.nodup_append] at hkeys
  simp only [set, replaced, h, List.map_append, List.map_map]
  congr 1
  · refine List.map_congr_left fun a _ => ?_
    have hk : key (after key us a) = key a := key_after
    rw [Function.comp_apply, hk, after_concat hnew]
  · refine (List.map_congr_left fun c hc => ?_).trans (List.map_id' added)
    refine if_neg fun hk => ?_
    obtain ⟨a, ha, hka⟩ := List.mem_map.mp hb
    refine hkeys.2.2 (key (after key us a)) ?_ (key c) (List.mem_map_of_mem hc) (key_after.trans (hka.trans hk.symm))
    exact List.mem_map_of_mem (List.mem_map_of_mem ha)

theorem add_after (h : t.rows = rows.map (after key us) ++ added) (hfree : t.has (key b) = false) :
    (t.add b).rows = rows.map (after key us) ++ (added ++ [b]) := by
  rw [add_rows hfree, h, List.append_assoc]

/-- Updates of different rows of the table, one after the other. -/
theorem foldl_set_after (hus : (us.map key).Nodup) (hin : ∀ u ∈ us, key u ∈ t.rows.map key) :
    (us.foldl set t).rows = t.rows.map (after key us) := by
  have hfold : (us.foldl set t).rows = t.rows.map (after key us) ++ [] := by
    induction us using List.reverseRecOn with
    | nil => exact ((List.append_nil _).trans (List.map_id' _)).symm
    | append_singleton us u ih =>
      rw [List.map_append, List.map_singleton, List.nodup_append] at hus
      have hnew : key u ∉ us.map key := fun hm => hus.2.2 _ hm _ (List.mem_singleton_self _) rfl
      rw [List.foldl_append, List.foldl_cons, List.foldl_nil]
      exact set_after (ih hus.1 fun v hv => hin v (List.mem_append_left _ hv)) hnew (hin u (by simp))
  rw [hfold, List.append_nil]

end

end Table

end Txn
