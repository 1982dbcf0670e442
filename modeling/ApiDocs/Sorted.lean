import ApiDocs.Text.Basic
/-!
# Sorted collections

A collection whose entries stand in strictly increasing order of a key.  Its order shows
wherever entries are listed, and it holds at most one entry for a key: inserting an entry
replaces the one of the same key.  Sets of names and the table of classes are such
collections.

Main definitions:

- `SortedBy key`: entries in strictly increasing order of `key`.
- `SortedBy.insert`, `SortedBy.ofList`, `SortedBy.get?`: the operations.
- `SortedBy.seek?`: look-up by halving.

Main results:

- `SortedBy.mem_insert`: the entries after an insertion.
- `SortedBy.get?_insert_self`, `SortedBy.get?_insert_of_ne`: look-up after an insertion.
- `SortedBy.get?_eq_some_iff`: look-up finds the entry of a key.
- `SortedBy.get?_ofList`: of the entries with one key, the last stays.
- `SortedBy.seek?_eq_get?`: halving finds the same.
-/

namespace ApiDocs

variable {α : Type} {key : α → Text}

/-- Puts an entry into its place in a sorted list, in place of the one with its key. -/
def insertSorted (key : α → Text) (a : α) : List α → List α
  | [] => [a]
  | b :: rest =>
    if key a < key b then a :: b :: rest
    else if key a = key b then a :: rest
    else b :: insertSorted key a rest

/-- A collection in strictly increasing order of the keys of its entries.  The entries stand
in an array as well, so that an entry can be found by halving. -/
structure SortedBy (key : α → Text) where
  entries : List α
  increasing : entries.Pairwise (fun a b => key a < key b)
  index : Array α := entries.toArray
  index_eq : index = entries.toArray := by rfl

/-- A set of names in increasing order. -/
abbrev NameSet := SortedBy (fun name : Text => name)

/-! ### Order of texts -/

/-- Of two different texts one is smaller. -/
theorem Text.lt_of_not_lt_of_ne {a b : Text} (h : ¬ a < b) (hne : a ≠ b) : b < a := by
  rcases List.le_iff_lt_or_eq.1 (List.not_lt.1 h) with h | h
  · exact h
  · exact absurd h.symm hne

/-- No text is smaller than itself. -/
theorem Text.ne_of_lt {a b : Text} (h : a < b) : a ≠ b := by
  rintro rfl
  exact List.lt_irrefl a h

/-! ### Insertion into a sorted list -/

/-- An insertion brings in the new entry and nothing else. -/
theorem mem_of_mem_insertSorted {a x : α} {l : List α} (h : x ∈ insertSorted key a l) :
    x = a ∨ x ∈ l := by
  induction l with
  | nil => simpa [insertSorted] using h
  | cons b rest ih =>
    unfold insertSorted at h
    split at h
    · simpa using h
    · split at h
      · simp only [List.mem_cons] at h ⊢
        exact h.imp_right Or.inr
      · simp only [List.mem_cons] at h ⊢
        rcases h with h | h
        · exact Or.inr (Or.inl h)
        · exact (ih h).imp_right Or.inr

/-- An insertion keeps the order. -/
theorem pairwise_insertSorted {a : α} {l : List α}
    (h : l.Pairwise fun x y => key x < key y) :
    (insertSorted key a l).Pairwise fun x y => key x < key y := by
  induction l with
  | nil => simp [insertSorted]
  | cons b rest ih =>
    obtain ⟨hb, hrest⟩ := List.pairwise_cons.1 h
    unfold insertSorted
    split
    · next hlt =>
      refine List.pairwise_cons.2 ⟨fun x hx => ?_, h⟩
      rcases List.mem_cons.1 hx with rfl | hx
      · exact hlt
      · exact List.lt_trans hlt (hb x hx)
    · next hlt =>
      split
      · next heq => exact List.pairwise_cons.2 ⟨fun x hx => heq ▸ hb x hx, hrest⟩
      · next hne =>
        refine List.pairwise_cons.2 ⟨fun x hx => ?_, ih hrest⟩
        rcases mem_of_mem_insertSorted hx with rfl | hx
        · exact Text.lt_of_not_lt_of_ne hlt hne
        · exact hb x hx

/-- After an insertion, the entries are the new one and those with other keys. -/
theorem mem_insertSorted {a x : α} {l : List α} (h : l.Pairwise fun x y => key x < key y) :
    x ∈ insertSorted key a l ↔ x = a ∨ (x ∈ l ∧ key x ≠ key a) := by
  induction l with
  | nil => simp [insertSorted]
  | cons b rest ih =>
    obtain ⟨hb, hrest⟩ := List.pairwise_cons.1 h
    unfold insertSorted
    split
    · next hlt =>
      have hne : ∀ y ∈ b :: rest, key y ≠ key a := by
        intro y hy
        rcases List.mem_cons.1 hy with rfl | hy
        · exact (Text.ne_of_lt hlt).symm
        · exact (Text.ne_of_lt (List.lt_trans hlt (hb y hy))).symm
      rw [List.mem_cons]
      exact or_congr_right ⟨fun hx => ⟨hx, hne x hx⟩, And.left⟩
    · split
      · next heq =>
        have hne : ∀ y ∈ rest, key y ≠ key a := fun y hy =>
          heq ▸ (Text.ne_of_lt (hb y hy)).symm
        rw [List.mem_cons, List.mem_cons]
        refine or_congr_right ⟨fun hx => ⟨Or.inr hx, hne x hx⟩, ?_⟩
        rintro ⟨rfl | hx, hk⟩
        · exact absurd heq.symm hk
        · exact hx
      · next hne =>
        rw [List.mem_cons, List.mem_cons, ih hrest]
        constructor
        · rintro (rfl | rfl | ⟨hx, hk⟩)
          · exact Or.inr ⟨Or.inl rfl, Ne.symm hne⟩
          · exact Or.inl rfl
          · exact Or.inr ⟨Or.inr hx, hk⟩
        · rintro (rfl | ⟨rfl | hx, hk⟩)
          · exact Or.inr (Or.inl rfl)
          · exact Or.inl rfl
          · exact Or.inr (Or.inr ⟨hx, hk⟩)

/-- The later of two entries with one key stays. -/
theorem insertSorted_insertSorted {a b : α} (h : key a = key b) (l : List α) :
    insertSorted key b (insertSorted key a l) = insertSorted key b l := by
  have hreplace : ∀ rest, insertSorted key b (a :: rest) = b :: rest := by
    intro rest
    rw [insertSorted, h, if_neg (List.lt_irrefl (key b)), if_pos rfl]
  induction l with
  | nil => exact hreplace []
  | cons c rest ih =>
    by_cases hlt : key b < key c
    · rw [insertSorted, h, if_pos hlt, hreplace, insertSorted, if_pos hlt]
    · by_cases heq : key b = key c
      · rw [insertSorted, h, if_neg hlt, if_pos heq, hreplace, insertSorted, if_neg hlt,
          if_pos heq]
      · rw [insertSorted, h, if_neg hlt, if_neg heq, insertSorted, if_neg hlt, if_neg heq, ih,
          insertSorted, if_neg hlt, if_neg heq]

/-! ### Halving -/

/-- The entry with key `k` at a place from `low` up to `high` of a sorted array, found in at
most `steps` halvings. -/
def halve (key : α → Text) (k : Text) (a : Array α) (steps low high : Nat) : Option α :=
  match steps with
  | 0 => none
  | steps + 1 =>
    if high ≤ low then none
    else
      match a[(low + high) / 2]? with
      | none => none
      | some x =>
        if key x = k then some x
        else if key x < k then halve key k a steps ((low + high) / 2 + 1) high
        else halve key k a steps low ((low + high) / 2)

/-- What halving finds is an entry with the key. -/
theorem mem_of_halve {k : Text} {a : Array α} {steps low high : Nat} {x : α}
    (h : halve key k a steps low high = some x) : x ∈ a ∧ key x = k := by
  induction steps generalizing low high with
  | zero => simp [halve] at h
  | succ steps ih =>
    unfold halve at h
    split at h
    · simp at h
    · split at h
      · simp at h
      · next y hy =>
        split at h
        · next hk =>
          rw [Option.some.injEq] at h
          subst h
          exact ⟨Array.mem_of_getElem? hy, hk⟩
        · split at h
          · exact ih h
          · exact ih h

/-- An entry between the bounds is found when there are steps enough. -/
theorem isSome_halve {a : Array α} (hs : a.toList.Pairwise fun x y => key x < key y)
    {steps low high i : Nat} {x : α} (hx : a[i]? = some x) (hl : low ≤ i) (hh : i < high)
    (hn : high ≤ low + steps) (ha : high ≤ a.size) :
    (halve key (key x) a steps low high).isSome := by
  induction steps generalizing low high with
  | zero => omega
  | succ steps ih =>
    have hmid : (low + high) / 2 < a.size := by omega
    have hi : i < a.size := by omega
    have hxi : a[i] = x := by simpa [hi] using hx
    have hlt : ∀ {m n : Nat} (hm : m < a.size) (hn : n < a.size), m < n →
        key a[m] < key a[n] := fun hm hn hmn =>
      List.pairwise_iff_getElem.1 hs _ _ hm hn hmn
    unfold halve
    rw [if_neg (by omega), Array.getElem?_eq_getElem hmid]
    dsimp only
    split
    · rfl
    · next hne =>
      split
      · next hless =>
        refine ih ?_ hh (by omega) ha
        refine Nat.lt_of_not_le fun hle => ?_
        rcases Nat.lt_or_eq_of_le hle with hle | heq
        · exact List.lt_irrefl _ (List.lt_trans hless (hxi ▸ hlt hi hmid hle))
        · exact hne (by simp only [← heq, hxi])
      · next hnless =>
        refine ih hl ?_ (by omega) (by omega)
        refine Nat.lt_of_not_le fun hle => ?_
        rcases Nat.lt_or_eq_of_le hle with hle | heq
        · exact hnless (hxi ▸ hlt hmid hi hle)
        · exact hne (by simp only [heq, hxi])

namespace SortedBy

/-- Two collections are one when they have the same entries, since these make the index. -/
@[ext]
theorem ext {s t : SortedBy key} (h : s.entries = t.entries) : s = t := by
  obtain ⟨l, _, i, hi⟩ := s
  obtain ⟨m, _, j, hj⟩ := t
  subst hi hj
  cases h
  rfl

/-- The collection without entries. -/
def empty : SortedBy key where
  entries := []
  increasing := List.Pairwise.nil

instance : EmptyCollection (SortedBy key) := ⟨empty⟩

instance [DecidableEq α] : DecidableEq (SortedBy key) := fun s t =>
  decidable_of_iff (s.entries = t.entries) SortedBy.ext_iff.symm

/-- Adds an entry, in place of the one with its key. -/
def insert (a : α) (s : SortedBy key) : SortedBy key where
  entries := insertSorted key a s.entries
  increasing := pairwise_insertSorted s.increasing

/-- Adds the entries of a list one after the other. -/
def insertAll (s : SortedBy key) (l : List α) : SortedBy key :=
  l.foldl (fun s a => s.insert a) s

/-- The collection of the entries of a list; of those with one key, the last. -/
def ofList (l : List α) : SortedBy key :=
  empty.insertAll l

/-- The entry with the given key. -/
def get? (s : SortedBy key) (k : Text) : Option α :=
  s.entries.find? (key · = k)

/-- The entry with the given key, found by halving. -/
def seek? (s : SortedBy key) (k : Text) : Option α :=
  halve key k s.index s.index.size 0 s.index.size

/-- The keys in increasing order. -/
def keys (s : SortedBy key) : List Text :=
  s.entries.map key

/-! ### Look-up -/

/-- What is looked up is an entry. -/
theorem mem_entries_of_get? {s : SortedBy key} {k : Text} {a : α} (h : s.get? k = some a) :
    a ∈ s.entries :=
  List.mem_of_find?_eq_some h

/-- The entry that is looked up has the key. -/
theorem key_of_get? {s : SortedBy key} {k : Text} {a : α} (h : s.get? k = some a) :
    key a = k := by
  simpa using List.find?_some h

/-- Two entries with one key are the same entry. -/
theorem eq_of_key_eq {s : SortedBy key} {a b : α} (ha : a ∈ s.entries) (hb : b ∈ s.entries)
    (h : key a = key b) : a = b := by
  refine List.Pairwise.forall_of_forall_of_flip (R := fun a b => key a = key b → a = b)
    (fun _ _ _ => rfl) ?_ ?_ ha hb h
  · exact s.increasing.imp fun hlt heq => absurd heq (Text.ne_of_lt hlt)
  · exact s.increasing.imp fun hlt heq => absurd heq.symm (Text.ne_of_lt hlt)

/-- Look-up finds the entry of a key, which is the only one with it. -/
theorem get?_eq_some_iff {s : SortedBy key} {k : Text} {a : α} :
    s.get? k = some a ↔ a ∈ s.entries ∧ key a = k := by
  refine ⟨fun h => ⟨mem_entries_of_get? h, key_of_get? h⟩, fun ⟨ha, hk⟩ => ?_⟩
  cases hb : s.get? k with
  | none =>
    have := List.find?_eq_none.1 hb a ha
    simp [hk] at this
  | some b =>
    rw [eq_of_key_eq (mem_entries_of_get? hb) ha (by rw [key_of_get? hb, hk])]

/-- Halving finds what a look through all entries finds. -/
theorem seek?_eq_get? (s : SortedBy key) (k : Text) : s.seek? k = s.get? k := by
  have hsound : ∀ x, s.seek? k = some x → s.get? k = some x := fun x h => by
    obtain ⟨hx, hk⟩ := mem_of_halve h
    rw [s.index_eq, List.mem_toArray] at hx
    exact get?_eq_some_iff.2 ⟨hx, hk⟩
  cases hg : s.get? k with
  | none =>
    cases hs : s.seek? k with
    | none => rfl
    | some x => simp [hsound x hs] at hg
  | some x =>
    obtain ⟨hx, rfl⟩ := get?_eq_some_iff.1 hg
    obtain ⟨i, hi, hxi⟩ := List.getElem_of_mem hx
    have hix : s.index[i]? = some x := by simp [s.index_eq, hi, hxi]
    have hsize : i < s.index.size := by simpa [s.index_eq] using hi
    have hsome : (s.seek? (key x)).isSome :=
      isSome_halve (by simpa [s.index_eq] using s.increasing) hix (Nat.zero_le i) hsize
        (by omega) (Nat.le_refl _)
    obtain ⟨y, hy⟩ := Option.isSome_iff_exists.1 hsome
    rw [hy, ← hg, hsound y hy]

/-- An insertion adds the entry and removes the one with its key. -/
theorem mem_insert {s : SortedBy key} {a x : α} :
    x ∈ (s.insert a).entries ↔ x = a ∨ (x ∈ s.entries ∧ key x ≠ key a) :=
  mem_insertSorted s.increasing

/-- The new entry is found under its key. -/
theorem get?_insert_self (s : SortedBy key) (a : α) : (s.insert a).get? (key a) = some a :=
  get?_eq_some_iff.2 ⟨mem_insert.2 (Or.inl rfl), rfl⟩

/-- An insertion does not change what is found under other keys. -/
theorem get?_insert_of_ne {s : SortedBy key} {a : α} {k : Text} (h : k ≠ key a) :
    (s.insert a).get? k = s.get? k := by
  apply Option.ext
  intro x
  rw [get?_eq_some_iff, get?_eq_some_iff, mem_insert]
  constructor
  · rintro ⟨rfl | hx, hk⟩
    · exact absurd hk.symm h
    · exact ⟨hx.1, hk⟩
  · rintro ⟨hx, rfl⟩
    exact ⟨Or.inr ⟨hx, h⟩, rfl⟩

/-- The later of two entries with one key stays. -/
theorem insert_insert {a b : α} (h : key a = key b) (s : SortedBy key) :
    (s.insert a).insert b = s.insert b :=
  SortedBy.ext (insertSorted_insertSorted h s.entries)

/-- What is found after an insertion, under any key. -/
theorem get?_insert (s : SortedBy key) (a : α) (k : Text) :
    (s.insert a).get? k = if key a = k then some a else s.get? k := by
  split
  · next h => rw [← h, get?_insert_self]
  · next h => exact get?_insert_of_ne (Ne.symm h)

/-- Two lists of entries are added one after the other. -/
theorem insertAll_append (s : SortedBy key) (l m : List α) :
    s.insertAll (l ++ m) = (s.insertAll l).insertAll m :=
  List.foldl_append

/-- The last entry with a key is the one that stays. -/
theorem get?_insertAll (s : SortedBy key) (l : List α) (k : Text) :
    (s.insertAll l).get? k = (l.filter (key · = k)).getLast?.or (s.get? k) := by
  induction l generalizing s with
  | nil => rfl
  | cons a l ih =>
    have hstep : s.insertAll (a :: l) = (s.insert a).insertAll l := rfl
    rw [hstep, ih, get?_insert, List.filter_cons]
    by_cases h : key a = k
    · rw [if_pos h, if_pos (decide_eq_true h), List.getLast?_cons]
      cases (l.filter (key · = k)).getLast? with
      | none => rfl
      | some b => rfl
    · rw [if_neg h, if_neg (by simpa using h)]

/-- Of the entries with one key, the last one stays. -/
theorem get?_ofList (l : List α) (k : Text) :
    (ofList l : SortedBy key).get? k = (l.filter (key · = k)).getLast? := by
  rw [ofList, get?_insertAll]
  exact Option.or_none

/-- A key is listed when something is found under it. -/
theorem mem_keys_iff {s : SortedBy key} {k : Text} : k ∈ s.keys ↔ ∃ a, s.get? k = some a := by
  simp only [keys, List.mem_map, get?_eq_some_iff]

/-- Nothing is found under a key that is not listed. -/
theorem get?_eq_none_iff {s : SortedBy key} {k : Text} : s.get? k = none ↔ k ∉ s.keys := by
  rw [mem_keys_iff, not_exists, Option.eq_none_iff_forall_ne_some]

/-- No key occurs twice. -/
theorem nodup_keys (s : SortedBy key) : s.keys.Nodup := by
  rw [keys, List.Nodup, List.pairwise_map]
  exact s.increasing.imp Text.ne_of_lt

end SortedBy

end ApiDocs
