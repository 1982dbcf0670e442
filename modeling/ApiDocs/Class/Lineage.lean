import ApiDocs.Class.Basic
import ApiDocs.Doc.Report
/-!
# Lineages

From a class the names that classes extend lead upwards, until a class extends nothing, a
name is not documented, or a class is met again.

Main definitions:

- `Lineage`, `climb`: the classes on the way up, and how the way ends.
- `lineage?`: the way up from the class with a name.
- `Ancestry.of`: a class and its ancestors, nearest first.
- `OwnedMember`, `membersOf`: the own and the inherited members of a class.

Main results:

- `lineageOf_eq_climb`: a way that ends is found without looking for classes met before.
- `Ancestry.of_eq_climb`: the ancestors are those that `climb` meets.
-/

namespace ApiDocs

/-- How the way up from a class ends. -/
inductive Ending
  /-- At a class that extends nothing. -/
  | top
  /-- At a class whose parent is not documented. -/
  | missing (child parent : Text)
  /-- At a class that was met before. -/
  | cycle (name : Text)
  deriving DecidableEq, Repr

/-- The classes on the way up, each once, and how the way ends. -/
structure Lineage where
  chain : List ClassDoc
  ending : Ending

/-- The way up from a class; `fresh` are the names of the classes not met yet. -/
def climb (table : ClassTable) (fresh : List Text) (cls : ClassDoc) : Lineage :=
  if _h : cls.name ∈ fresh then
    match cls.parent? with
    | none => ⟨[cls], .top⟩
    | some parent =>
      match table.get? parent with
      | none => ⟨[cls], .missing cls.name parent⟩
      | some next =>
        let above := climb table (fresh.erase cls.name) next
        ⟨cls :: above.chain, above.ending⟩
  else ⟨[], .cycle cls.name⟩
termination_by fresh.length
decreasing_by
  have := List.length_pos_of_mem _h
  rw [List.length_erase_of_mem _h]
  omega

/-- The way up from a class if it ends within `steps` classes.  No class is looked for among
those met before: a way that ends meets none again. -/
def ascend? (table : ClassTable) (steps : Nat) (cls : ClassDoc) : Option Lineage :=
  match steps with
  | 0 => none
  | steps + 1 =>
    match cls.parent? with
    | none => some ⟨[cls], .top⟩
    | some parent =>
      match table.seek? parent with
      | none => some ⟨[cls], .missing cls.name parent⟩
      | some next =>
        (ascend? table steps next).map fun above => ⟨cls :: above.chain, above.ending⟩

/-- The way up from a class of a table. -/
def lineageOf (table : ClassTable) (cls : ClassDoc) : Lineage :=
  (ascend? table table.index.size cls).getD (climb table table.keys cls)

/-- The way up from the class with a name. -/
def lineage? (table : ClassTable) (name : Text) : Option Lineage :=
  (table.seek? name).map (lineageOf table)

/-! ### A way that ends -/

/-- The way up from a class does not depend on the number of steps that it is given. -/
theorem ascend?_unique {table : ClassTable} {m n : Nat} {cls : ClassDoc} {w w' : Lineage}
    (h : ascend? table m cls = some w) (h' : ascend? table n cls = some w') : w = w' := by
  induction m generalizing n cls w w' with
  | zero => simp [ascend?] at h
  | succ m ih =>
    cases n with
    | zero => simp [ascend?] at h'
    | succ n =>
      unfold ascend? at h h'
      cases hp : cls.parent? with
      | none => simp_all
      | some parent =>
        cases hn : table.seek? parent with
        | none => simp_all
        | some next =>
          simp only [hp, hn, Option.map_eq_some_iff] at h h'
          obtain ⟨a, ha, rfl⟩ := h
          obtain ⟨b, hb, rfl⟩ := h'
          rw [ih ha hb]

/-- From each class of a way, the rest of the way is the way up. -/
theorem ascend?_of_mem_chain {table : ClassTable} {n : Nat} {cls c : ClassDoc} {w : Lineage}
    (hg : table.get? cls.name = some cls) (h : ascend? table n cls = some w) (hc : c ∈ w.chain) :
    table.get? c.name = some c ∧
      ∃ m w', ascend? table m c = some w' ∧ w'.chain.length ≤ w.chain.length := by
  induction n generalizing cls w with
  | zero => simp [ascend?] at h
  | succ n ih =>
    have hself : c = cls → table.get? c.name = some c ∧
        ∃ m w', ascend? table m c = some w' ∧ w'.chain.length ≤ w.chain.length :=
      fun hcls => hcls ▸ ⟨hg, n + 1, w, h, Nat.le_refl _⟩
    have hw := h
    unfold ascend? at hw
    cases hp : cls.parent? with
    | none =>
      simp only [hp, Option.some.injEq] at hw
      subst hw
      exact hself (List.mem_singleton.1 hc)
    | some parent =>
      cases hn : table.seek? parent with
      | none =>
        simp only [hp, hn, Option.some.injEq] at hw
        subst hw
        exact hself (List.mem_singleton.1 hc)
      | some next =>
        simp only [hp, hn, Option.map_eq_some_iff] at hw
        obtain ⟨above, ha, rfl⟩ := hw
        rcases List.mem_cons.1 hc with hcls | hc
        · exact hself hcls
        · rw [SortedBy.seek?_eq_get?] at hn
          have hnext : table.get? next.name = some next := by
            rw [SortedBy.key_of_get? hn, hn]
          obtain ⟨hget, m, w', hm, hlen⟩ := ih hnext ha hc
          exact ⟨hget, m, w', hm, Nat.le_succ_of_le hlen⟩

/-- A way that ends is the one that `climb` takes. -/
theorem climb_of_ascend? {table : ClassTable} {n : Nat} {cls : ClassDoc} {w : Lineage}
    {fresh : List Text} (hg : table.get? cls.name = some cls) (h : ascend? table n cls = some w)
    (hf : ∀ c ∈ w.chain, c.name ∈ fresh) : climb table fresh cls = w := by
  induction n generalizing cls w fresh with
  | zero => simp [ascend?] at h
  | succ n ih =>
    have hw := h
    unfold ascend? at hw
    unfold climb
    cases hp : cls.parent? with
    | none =>
      simp only [hp, Option.some.injEq] at hw
      subst hw
      rw [dif_pos (hf cls (List.mem_singleton.2 rfl))]
    | some parent =>
      simp only [SortedBy.seek?_eq_get?] at hw
      cases hn : table.get? parent with
      | none =>
        simp only [hp, hn, Option.some.injEq] at hw
        subst hw
        rw [dif_pos (hf cls (List.mem_singleton.2 rfl))]
        simp only [hn]
      | some next =>
        simp only [hp, hn, Option.map_eq_some_iff] at hw
        obtain ⟨above, ha, rfl⟩ := hw
        have hnext : table.get? next.name = some next := by
          rw [SortedBy.key_of_get? hn, hn]
        have habove : ∀ c ∈ above.chain, c.name ∈ fresh.erase cls.name := fun c hc => by
          obtain ⟨hget, m, w', hm, hlen⟩ := ascend?_of_mem_chain hnext ha hc
          refine (List.mem_erase_of_ne fun heq => ?_).2 (hf c (List.mem_cons_of_mem _ hc))
          rw [heq, hg, Option.some.injEq] at hget
          subst hget
          have hlong := congrArg (fun w => w.chain.length) (ascend?_unique h hm)
          simp only [List.length_cons] at hlong
          omega
        rw [dif_pos (hf cls List.mem_cons_self)]
        simp only [hn, ih hnext ha habove]

/-- The way up from a class of a table is the one that `climb` takes. -/
theorem lineageOf_eq_climb {table : ClassTable} {cls : ClassDoc}
    (hg : table.get? cls.name = some cls) :
    lineageOf table cls = climb table table.keys cls := by
  unfold lineageOf
  cases h : ascend? table table.index.size cls with
  | none => rfl
  | some w =>
    refine (climb_of_ascend? hg h fun c hc => ?_).symm
    obtain ⟨hget, -⟩ := ascend?_of_mem_chain hg h hc
    exact List.mem_map.2 ⟨c, SortedBy.mem_entries_of_get? hget, rfl⟩

/-- The way up from a name is the climb from its class. -/
theorem lineage?_eq_map_climb (table : ClassTable) (name : Text) :
    lineage? table name = (table.get? name).map (climb table table.keys) := by
  unfold lineage?
  rw [SortedBy.seek?_eq_get?]
  cases h : table.get? name with
  | none => rfl
  | some cls =>
    have hg : table.get? cls.name = some cls := by rw [SortedBy.key_of_get? h, h]
    rw [Option.map_some, Option.map_some, lineageOf_eq_climb hg]

/-! ### Ancestors -/

/-- A class and its ancestors, nearest first, with the reports on the way up. -/
structure Ancestry where
  subject : ClassDoc
  chain : List ClassDoc
  reports : List Report

/-- The class with a name and its ancestors.  A parent that is not documented ends the way
and is reported; a cycle is a fault. -/
def Ancestry.of (table : ClassTable) (name : Text) : Except Fault Ancestry :=
  match table.seek? name with
  | none => .error (.noSuchClass name)
  | some subject =>
    let way := lineageOf table subject
    match way.ending with
    | .top => .ok ⟨subject, way.chain, []⟩
    | .missing child parent => .ok ⟨subject, way.chain, [.missingParent child parent]⟩
    | .cycle name => .error (.cycle (way.chain.map ClassDoc.name ++ [name]))

/-- What is found for a name, in terms of the way that `climb` takes. -/
theorem Ancestry.of_eq_climb (table : ClassTable) (name : Text) :
    Ancestry.of table name =
      match table.get? name with
      | none => .error (.noSuchClass name)
      | some subject =>
        let way := climb table table.keys subject
        match way.ending with
        | .top => .ok ⟨subject, way.chain, []⟩
        | .missing child parent => .ok ⟨subject, way.chain, [.missingParent child parent]⟩
        | .cycle name => .error (.cycle (way.chain.map ClassDoc.name ++ [name])) := by
  unfold Ancestry.of
  rw [SortedBy.seek?_eq_get?]
  cases hget : table.get? name with
  | none => rfl
  | some subject =>
    dsimp only
    rw [lineageOf_eq_climb (by rw [SortedBy.key_of_get? hget, hget])]

/-- A member with the name of the class that declares it. -/
structure OwnedMember where
  node : DocNode
  owner : Text

/-- The members that a class declares itself. -/
def ClassDoc.owned (cls : ClassDoc) : List OwnedMember :=
  cls.members.all.map fun node => ⟨node, cls.name⟩

/-- The members along a chain of classes, nearest class first. -/
def ownedAlong (chain : List ClassDoc) : List OwnedMember :=
  chain.flatMap ClassDoc.owned

/-- The own and the inherited members of a class, with the reports on the way up. -/
def membersOf (table : ClassTable) (name : Text) : Except Fault (List OwnedMember × List Report) :=
  (Ancestry.of table name).map fun found => (ownedAlong found.chain, found.reports)

end ApiDocs
