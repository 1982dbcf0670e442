import ApiDocs.Class.Lineage
/-!
# Chains of ancestors

The ancestors of a class are found along the names that classes extend.  A chain of ancestors
says what the way up must be, without saying how it is found: each class extends the next one,
and the last one extends no class of the table.

Main definitions:

- `AncestorChain`: classes of which each extends the next.

Main results:

- `ancestorChain_climb`: a way up that meets no class again is a chain of ancestors.
- `Ancestry.of_eq_ok`: what is found is the class itself with its chain of ancestors.
-/

namespace ApiDocs

/-- Classes of which each extends the next one, up to one that extends no class of the
table. -/
inductive AncestorChain (table : ClassTable) : List ClassDoc → Prop
  | top {cls : ClassDoc}
      (no_parent : ∀ parent, cls.parent? = some parent → table.get? parent = none) :
      AncestorChain table [cls]
  | up {cls next : ClassDoc} {parent : Text} {above : List ClassDoc}
      (extends_parent : cls.parent? = some parent) (found : table.get? parent = some next)
      (rest : AncestorChain table (next :: above)) : AncestorChain table (cls :: next :: above)

/-- A way up that meets no class again is a chain of ancestors from the class on. -/
theorem ancestorChain_climb {table : ClassTable} {fresh : List Text} {cls : ClassDoc}
    (h : ∀ name, (climb table fresh cls).ending ≠ .cycle name) :
    AncestorChain table (climb table fresh cls).chain ∧
      ∃ above, (climb table fresh cls).chain = cls :: above := by
  fun_induction climb table fresh cls with
  | case1 fresh cls hfresh hparent =>
    refine ⟨.top fun parent hp => ?_, [], rfl⟩
    rw [hparent] at hp
    cases hp
  | case2 fresh cls hfresh parent hparent hget =>
    refine ⟨.top fun other hp => ?_, [], rfl⟩
    rw [hparent] at hp
    cases hp
    exact hget
  | case3 fresh cls hfresh parent hparent next hget above ih =>
    obtain ⟨hchain, rest, hrest⟩ := ih h
    rw [hrest] at hchain
    refine ⟨?_, above.chain, rfl⟩
    rw [hrest]
    exact .up hparent hget hchain
  | case4 fresh cls hfresh => exact absurd rfl (h cls.name)

/-- What is made of a result was made of one that there is. -/
theorem map_eq_ok_iff {ε α β : Type} {x : Except ε α} {f : α → β} {b : β} :
    x.map f = .ok b ↔ ∃ a, x = .ok a ∧ f a = b := by
  cases x with
  | error e => simp [Except.map]
  | ok a => simp [Except.map]

/-- What is found for a name is its class, with a chain of ancestors that starts there. -/
theorem Ancestry.of_eq_ok {table : ClassTable} {name : Text} {found : Ancestry}
    (h : Ancestry.of table name = .ok found) :
    table.get? name = some found.subject ∧ AncestorChain table found.chain ∧
      ∃ above, found.chain = found.subject :: above := by
  rw [of_eq_climb] at h
  cases hget : table.get? name with
  | none => simp [hget] at h
  | some subject =>
    simp only [hget] at h
    cases hend : (climb table table.keys subject).ending with
    | cycle other => simp [hend] at h
    | top =>
      simp only [hend, Except.ok.injEq] at h
      subst h
      exact ⟨rfl, ancestorChain_climb (by simp [hend])⟩
    | missing child parent =>
      simp only [hend, Except.ok.injEq] at h
      subst h
      exact ⟨rfl, ancestorChain_climb (by simp [hend])⟩

end ApiDocs
