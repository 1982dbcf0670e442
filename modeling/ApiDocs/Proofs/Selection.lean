import ApiDocs.Cut
import Mathlib.Data.List.Nodup
/-!
# Entries picked by what stands before them

Whether an entry of a list counts often depends on the entries before it: a member is hidden
by one of its name before it, a node belongs to the class before it.  Such rules are stated
with one function, which shows a test all entries before the one that it is about.

Main definitions:

- `filterBehind`: the entries that pass a test on what stands before them.

Main results:

- `mem_filterBehind`: an entry is picked at a place where it passes the test.
- `firstBy_eq_filterBehind`: the first entries of each key, picked in this way.
- `mem_firstBy_iff`: they are what searches for their keys find.
- `pairwise_idxOf_firstBy`: they keep the order in which they first occur.
- `firstBy_firstBy`, `map_firstBy_eq_iff`: picking by a key, and then by what it determines.
-/

namespace ApiDocs

variable {α β : Type}

/-- The entries of a list behind `before` that pass a test on all entries before them and on
themselves. -/
def filterBehind (test : List α → α → Bool) (before : List α) : List α → List α
  | [] => []
  | a :: rest =>
    if test before a then a :: filterBehind test (before ++ [a]) rest
    else filterBehind test (before ++ [a]) rest

/-- A selection goes on behind the entries before. -/
theorem filterBehind_append (test : List α → α → Bool) (before l m : List α) :
    filterBehind test before (l ++ m)
      = filterBehind test before l ++ filterBehind test (before ++ l) m := by
  induction l generalizing before with
  | nil => rw [List.append_nil]; rfl
  | cons a l ih =>
    rw [List.cons_append, filterBehind, filterBehind, ih]
    split <;> simp

/-- Two tests select what passes both. -/
theorem filter_filterBehind (test : List α → α → Bool) (p : α → Bool) (before l : List α) :
    (filterBehind test before l).filter p
      = filterBehind (fun earlier a => test earlier a && p a) before l := by
  induction l generalizing before with
  | nil => rfl
  | cons a l ih =>
    rw [filterBehind, filterBehind]
    by_cases ht : test before a = true
    · by_cases hp : p a = true
      · simp [ht, hp, ih]
      · simp [ht, hp, ih]
    · simp [ht, ih]

/-- An entry is picked at a place where it passes the test. -/
theorem mem_filterBehind {test : List α → α → Bool} {before l : List α} {a : α} :
    a ∈ filterBehind test before l ↔
      ∃ earlier later, l = earlier ++ a :: later ∧ test (before ++ earlier) a = true := by
  induction l generalizing before with
  | nil => simp [filterBehind]
  | cons b l ih =>
    have hrest : a ∈ filterBehind test (before ++ [b]) l ↔
        ∃ earlier later, l = earlier ++ a :: later ∧ test (before ++ b :: earlier) a = true := by
      rw [ih]
      simp
    constructor
    · intro h
      rw [filterBehind] at h
      by_cases hb : test before b = true
      · rw [if_pos hb, List.mem_cons] at h
        rcases h with rfl | h
        · exact ⟨[], l, rfl, by rwa [List.append_nil]⟩
        · obtain ⟨earlier, later, rfl, ht⟩ := hrest.1 h
          exact ⟨b :: earlier, later, rfl, ht⟩
      · rw [if_neg hb] at h
        obtain ⟨earlier, later, rfl, ht⟩ := hrest.1 h
        exact ⟨b :: earlier, later, rfl, ht⟩
    · rintro ⟨earlier, later, hl, ht⟩
      rw [filterBehind]
      cases earlier with
      | nil =>
        rw [List.nil_append, List.cons.injEq] at hl
        rw [List.append_nil] at ht
        rw [hl.1, if_pos ht]
        exact List.mem_cons_self
      | cons c earlier =>
        rw [List.cons_append, List.cons.injEq] at hl
        obtain ⟨rfl, rfl⟩ := hl
        have hmem := hrest.2 ⟨earlier, later, rfl, ht⟩
        split
        · exact List.mem_cons_of_mem _ hmem
        · exact hmem

/-- The first entries of each key are those whose key does not stand before them. -/
theorem filter_firstBy [DecidableEq β] (key : α → β) (before l : List α) :
    (firstBy key l).filter (fun a => before.all (key · ≠ key a))
      = filterBehind (fun earlier a => earlier.all (key · ≠ key a)) before l := by
  induction l generalizing before with
  | nil => rfl
  | cons a l ih =>
    have hlater : ((firstBy key l).filter (key · ≠ key a)).filter
          (fun x => before.all (key · ≠ key x))
        = (firstBy key l).filter fun x => (before ++ [a]).all (key · ≠ key x) := by
      rw [List.filter_filter]
      apply List.filter_congr
      intro x _
      rw [List.all_append, List.all_cons, List.all_nil, Bool.and_true]
      exact congrArg _ (decide_eq_decide.2 ne_comm)
    rw [filterBehind, ← ih, firstBy, List.filter_cons, hlater]

/-- The first entries of each key are those with no entry of their key before them. -/
theorem firstBy_eq_filterBehind [DecidableEq β] (key : α → β) (l : List α) :
    firstBy key l = filterBehind (fun earlier a => earlier.all (key · ≠ key a)) [] l := by
  rw [← filter_firstBy]
  exact (List.filter_eq_self.2 fun _ _ => rfl).symm

/-- The first entries of each key are those that a search for their key finds. -/
theorem mem_firstBy_iff [DecidableEq β] {key : α → β} {l : List α} {a : α} :
    a ∈ firstBy key l ↔ l.find? (key · = key a) = some a := by
  rw [firstBy_eq_filterBehind, mem_filterBehind, List.find?_eq_some_iff_append]
  simp

/-- The first entries stand in the order in which they first occur. -/
theorem pairwise_idxOf_firstBy [DecidableEq α] (l : List α) :
    (firstBy id l).Pairwise fun a b => l.idxOf a < l.idxOf b := by
  induction l with
  | nil => exact List.Pairwise.nil
  | cons a l ih =>
    have hlater : ∀ b ∈ (firstBy id l).filter (id · ≠ id a),
        (a :: l).idxOf b = l.idxOf b + 1 := by
      intro b hb
      have hne : b ≠ a := of_decide_eq_true (List.mem_filter.1 hb).2
      rw [List.idxOf_cons, beq_false_of_ne hne.symm, cond_false]
    rw [firstBy, List.pairwise_cons]
    constructor
    · intro b hb
      rw [List.idxOf_cons_self, hlater b hb]
      exact Nat.succ_pos _
    · refine (ih.sublist List.filter_sublist).imp_of_mem ?_
      intro b c hb hc hlt
      rw [hlater b hb, hlater c hc]
      exact Nat.succ_lt_succ hlt

theorem firstBy_sublist [DecidableEq β] (key : α → β) (l : List α) :
    (firstBy key l).Sublist l := by
  induction l with
  | nil => exact .slnil
  | cons a l ih => exact (List.filter_sublist.trans ih).cons_cons a

/-- Selecting keys and selecting by key come to the same. -/
theorem firstBy_id_map [DecidableEq β] (key : α → β) (l : List α) :
    firstBy id (l.map key) = (firstBy key l).map key := by
  induction l with
  | nil => rfl
  | cons a l ih =>
    rw [List.map_cons, firstBy, firstBy, ih, List.filter_map]
    rfl

/-- Entries with different keys all stay. -/
theorem firstBy_eq_self [DecidableEq β] {key : α → β} {l : List α} (h : (l.map key).Nodup) :
    firstBy key l = l := by
  induction l with
  | nil => rfl
  | cons a l ih =>
    rw [List.map_cons, List.nodup_cons] at h
    rw [firstBy, ih h.2, List.filter_eq_self.2]
    intro b hb
    exact decide_eq_true fun heq => h.1 (heq ▸ List.mem_map_of_mem hb)

/-- A test on keys keeps all entries of a key or none. -/
theorem firstBy_filter [DecidableEq β] (key : α → β) (p : β → Bool) (l : List α) :
    firstBy key (l.filter fun a => p (key a)) = (firstBy key l).filter fun a => p (key a) := by
  induction l with
  | nil => rfl
  | cons a l ih =>
    rw [firstBy, List.filter_cons, List.filter_cons]
    have hcomm := List.filter_comm (fun x => p (key x)) (key · ≠ key a) (firstBy key l)
    split
    · rw [firstBy, ih, hcomm]
    · next hp =>
      rw [ih, hcomm]
      have hother : ∀ b ∈ (firstBy key l).filter (fun a => p (key a)), key b ≠ key a :=
        fun b hb heq => hp (heq ▸ (List.mem_filter.1 hb).2)
      exact (List.filter_eq_self.2 fun b hb => decide_eq_true (hother b hb)).symm

section

variable {γ : Type} [DecidableEq β] [DecidableEq γ] {key : α → β} {coarse : α → γ}

/-- Picking by a key first does not matter to what the key determines. -/
theorem firstBy_firstBy (hcoarse : ∀ a b, key a = key b → coarse a = coarse b) (l : List α) :
    firstBy coarse (firstBy key l) = firstBy coarse l := by
  induction l with
  | nil => rfl
  | cons a l ih =>
    have hdrop : ((firstBy key l).filter (key · ≠ key a)).filter (coarse · ≠ coarse a)
        = (firstBy key l).filter (coarse · ≠ coarse a) := by
      rw [List.filter_filter]
      apply List.filter_congr
      intro b _
      by_cases hcb : coarse b = coarse a
      · simp [hcb]
      · have hne : key b ≠ key a := fun heq => hcb (hcoarse b a heq)
        simp [hcb, hne]
    have hpick := firstBy_filter coarse (fun c => decide (c ≠ coarse a))
    rw [firstBy, firstBy, firstBy, ← hpick, hdrop, hpick, ih]

/-- What is picked by a key differs in what the key determines exactly if all entries that agree
in that have one key. -/
theorem map_firstBy_eq_iff (hcoarse : ∀ a b, key a = key b → coarse a = coarse b) (l : List α) :
    (firstBy key l).map coarse = firstBy id (l.map coarse) ↔
      ∀ a ∈ l, ∀ b ∈ l, coarse a = coarse b → key a = key b := by
  constructor
  · intro h a ha b hb hab
    obtain ⟨a', ha', hka⟩ : ∃ a' ∈ firstBy key l, key a' = key a := exists_mem_firstBy ha
    obtain ⟨b', hb', hkb⟩ : ∃ b' ∈ firstBy key l, key b' = key b := exists_mem_firstBy hb
    have hnodup : ((firstBy key l).map coarse).Nodup := by
      rw [h, firstBy_id_map]
      exact nodup_map_firstBy coarse l
    have hab' : coarse a' = coarse b' :=
      (hcoarse a' a hka).trans (hab.trans (hcoarse b' b hkb).symm)
    have heq : a' = b' := List.inj_on_of_nodup_map hnodup ha' hb' hab'
    rw [← hka, ← hkb, heq]
  · intro h
    have hnodup : ((firstBy key l).map coarse).Nodup := by
      have hkeys := nodup_map_firstBy key l
      rw [List.Nodup, List.pairwise_map] at hkeys ⊢
      exact hkeys.imp_of_mem fun ha hb hne hab =>
        hne (h _ (mem_firstBy_subset ha) _ (mem_firstBy_subset hb) hab)
    rw [firstBy_id_map, ← firstBy_firstBy hcoarse, firstBy_eq_self hnodup]

end

end ApiDocs
