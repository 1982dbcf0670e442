/-!
# Cutting lists at marks

Several readers divide a list at certain entries and keep each of them with what follows
it: a source at its doc comments, a comment at its tag lines, the nodes of a unit at its
classes.  They all use one function.

Main definitions:

- `cut`: a list divided at its marked entries.
- `firstBy`: the entries of a list whose key did not occur before.

Main results:

- `flatten_cut`: cutting loses nothing.
- `nodup_map_firstBy`: no key occurs twice.
-/

namespace ApiDocs

variable {α β : Type}

/-- What stands before the first marked entry, and each mark with what follows it up to the
next one. -/
def cut (mark : α → Option β) : List α → List α × List (β × List α)
  | [] => ([], [])
  | a :: rest =>
    let later := cut mark rest
    match mark a with
    | some b => ([], (b, later.1) :: later.2)
    | none => (a :: later.1, later.2)

/-- The entries whose key no earlier entry has. -/
def firstBy [DecidableEq β] (key : α → β) : List α → List α
  | [] => []
  | a :: rest => a :: (firstBy key rest).filter (key · ≠ key a)

/-- When a mark determines the entry that bears it, the parts make up the list again. -/
theorem flatten_cut {mark : α → Option β} {entry : β → α}
    (h : ∀ a b, mark a = some b → entry b = a) (l : List α) :
    (cut mark l).1 ++ (cut mark l).2.flatMap (fun part => entry part.1 :: part.2) = l := by
  induction l with
  | nil => simp [cut]
  | cons a rest ih =>
    cases hm : mark a with
    | some b => simpa [cut, hm, h a b hm] using ih
    | none => simpa [cut, hm] using ih

/-- Entries without a mark stand before the first marked entry. -/
theorem cut_append_of_forall_none {mark : α → Option β} {l : List α} (rest : List α)
    (h : ∀ a ∈ l, mark a = none) :
    cut mark (l ++ rest) = (l ++ (cut mark rest).1, (cut mark rest).2) := by
  induction l with
  | nil => rfl
  | cons a l ih =>
    rw [List.forall_mem_cons] at h
    rw [List.cons_append, cut, h.1, ih h.2]
    rfl

/-- A list of marked entries falls apart into its marks. -/
theorem cut_map_of_forall_some {γ : Type} {mark : α → Option β} {entry : γ → α} {bear : γ → β}
    {l : List γ} (h : ∀ g ∈ l, mark (entry g) = some (bear g)) :
    cut mark (l.map entry) = ([], l.map fun g => (bear g, [])) := by
  induction l with
  | nil => rfl
  | cons g l ih =>
    rw [List.forall_mem_cons] at h
    rw [List.map_cons, cut, h.1, ih h.2]
    rfl

/-- What stands before the first marked entry are the entries up to it. -/
theorem fst_cut (mark : α → Option β) (l : List α) :
    (cut mark l).1 = l.takeWhile fun a => (mark a).isNone := by
  induction l with
  | nil => rfl
  | cons a l ih =>
    cases hm : mark a with
    | some b => simp [cut, hm]
    | none => simp [cut, hm, ih]

/-- The parts begin with the marks of the list, in order. -/
theorem map_fst_cut (mark : α → Option β) (l : List α) :
    (cut mark l).2.map Prod.fst = l.filterMap mark := by
  induction l with
  | nil => rfl
  | cons a l ih =>
    cases hm : mark a with
    | some b => simp [cut, hm, ih]
    | none => simp [cut, hm, ih]

/-- A marked entry starts a part of its own. -/
theorem cut_append_cons {mark : α → Option β} (l : List α) {a : α} {b : β} (rest : List α)
    (h : mark a = some b) :
    cut mark (l ++ a :: rest)
      = ((cut mark l).1, (cut mark l).2 ++ (b, (cut mark rest).1) :: (cut mark rest).2) := by
  induction l with
  | nil => simp [cut, h]
  | cons c l ih =>
    cases hm : mark c with
    | some d => simp [cut, hm, ih]
    | none => simp [cut, hm, ih]

/-- In front of a marked entry a list is cut by itself. -/
theorem cut_append_of_head? {mark : α → Option β} (l : List α) {rest : List α}
    (h : ∀ a, rest.head? = some a → mark a ≠ none) :
    cut mark (l ++ rest) = ((cut mark l).1, (cut mark l).2 ++ (cut mark rest).2) := by
  cases rest with
  | nil => simp [cut]
  | cons a rest =>
    obtain ⟨b, hb⟩ := Option.ne_none_iff_exists'.1 (h a rfl)
    rw [cut_append_cons l rest hb]
    simp [cut, hb]

theorem mem_firstBy_subset [DecidableEq β] {key : α → β} {l : List α} {a : α}
    (h : a ∈ firstBy key l) : a ∈ l := by
  induction l with
  | nil => simp [firstBy] at h
  | cons b rest ih =>
    simp only [firstBy, List.mem_cons, List.mem_filter] at h ⊢
    exact h.imp_right fun h => ih h.1

/-- Every key of the list is the key of an entry that stays. -/
theorem exists_mem_firstBy [DecidableEq β] {key : α → β} {l : List α} {a : α}
    (h : a ∈ l) : ∃ b ∈ firstBy key l, key b = key a := by
  induction l with
  | nil => simp at h
  | cons c rest ih =>
    simp only [firstBy, List.mem_cons, List.mem_filter]
    by_cases hk : key c = key a
    · exact ⟨c, Or.inl rfl, hk⟩
    · rcases List.mem_cons.1 h with rfl | h
      · exact absurd rfl hk
      · obtain ⟨b, hb, hba⟩ := ih h
        exact ⟨b, Or.inr ⟨hb, by simpa [hba] using fun h => hk h.symm⟩, hba⟩

/-- No two entries that stay have one key. -/
theorem nodup_map_firstBy [DecidableEq β] (key : α → β) (l : List α) :
    ((firstBy key l).map key).Nodup := by
  induction l with
  | nil => simp [firstBy]
  | cons a rest ih =>
    simp only [firstBy, List.map_cons, List.nodup_cons, List.mem_map, List.mem_filter]
    refine ⟨fun ⟨b, ⟨_, hne⟩, heq⟩ => by simp [heq] at hne, ?_⟩
    exact ih.sublist (List.filter_sublist.map key)

end ApiDocs
