import ApiDocs.Page.Format
import ApiDocs.Proofs.Class.Inheritance
/-!
# What a page in JSON depends on

The way up from a class looks up names one after the other: that of the class, and from each
class that it finds the name that this one extends.  A page in JSON tells nothing else of its
table.  So two tables that answer these look-ups alike give one text, or one fault, and the same
reports, whatever other classes they hold, and also where the way up does not end.

Main definitions:

- `LooksUp`: the names that the way up from a name looks up.
- `AgreeAbove`: two tables that answer these look-ups alike.
- `jsonPage`: the text of a page in JSON with the reports on its ancestors.

Main results:

- `Walk.step_congr`, `Walk.run_congr`: a walk is the same in both tables.
- `ancestry_congr`: the ancestors are the same.
- `jsonPage_of_agreeAbove`: the page is the same, and so is what a walk of any length reports.
-/

namespace ApiDocs

variable {t u : ClassTable} {name : Text}

/-- The names that the way up from a name looks up: this name first, and then the one that each
class on the way extends. -/
def LooksUp (table : ClassTable) (name n : Text) : Prop :=
  n = name ∨ ∃ i cls, classAbove? table name i = some cls ∧ cls.parent? = some n

/-- For every name that the way up looks up in the first table, the tables hold the same class,
or neither holds one. -/
def AgreeAbove (t u : ClassTable) (name : Text) : Prop :=
  ∀ n, LooksUp t name n → t.get? n = u.get? n

/-- The text of a page in JSON with the reports on the way up, or the fault. -/
def jsonPage (table : ClassTable) (name : Text) (showPrivate : Bool) :
    Except Fault (Text × List Report) :=
  (Page.ofClass table name showPrivate).map fun (page, reports) =>
    (Format.json.render page, reports)

/-! ### Walks -/

/-- A walk looks up the parent of the class that it has come to and nothing else. -/
theorem Walk.step_congr {w : Walk} (hw : w.Follows t name) (h : AgreeAbove t u name) :
    w.step t = w.step u := by
  unfold step
  cases hparent : w.cls.parent? with
  | none => rfl
  | some parent =>
    have hget : t.get? parent = u.get? parent := h parent (.inr ⟨_, _, hw.here, hparent⟩)
    dsimp only
    rw [hget]

/-- A walk of any length ends in both tables in the same way. -/
theorem Walk.run_congr {w : Walk} (hw : w.Follows t name) (h : AgreeAbove t u name)
    (steps : Nat) : w.run t steps = w.run u steps := by
  induction steps generalizing w with
  | zero => rfl
  | succ steps ih =>
    rw [run, run, ← step_congr hw h]
    cases hstep : w.step t with
    | inl next => exact ih (step_follows hw hstep).1
    | inr result => rfl

/-- The members along the way are gathered alike in tables that agree above the class. -/
theorem walkMembers?_congr (h : AgreeAbove t u name) (before : List Report) (steps : Nat) :
    walkMembers? t name before steps = walkMembers? u name before steps := by
  have hstart : t.get? name = u.get? name := h name (.inl rfl)
  unfold walkMembers?
  rw [← hstart]
  cases hget : t.get? name with
  | none => rfl
  | some cls =>
    dsimp only
    rw [Walk.run_congr (Walk.follows_start hget before) h]

/-! ### Ancestors and pages -/

/-- What is found for a name is the same in both tables. -/
theorem ancestry_congr (h : AgreeAbove t u name) : Ancestry.of t name = Ancestry.of u name := by
  have hstart : t.get? name = u.get? name := h name (.inl rfl)
  cases hget : t.get? name with
  | none => rw [ancestry_unknown hget, ancestry_unknown (hstart ▸ hget)]
  | some cls =>
    have hget' : u.get? name = some cls := hstart ▸ hget
    -- a walk that is long enough for both tables finds what is found in each of them
    have hrun := Walk.run_congr (Walk.follows_start hget []) h
      (t.entries.length + u.entries.length + 1)
    rw [Walk.run_eq_ancestry hget [] (by omega), Walk.run_eq_ancestry hget' [] (by omega)] at hrun
    cases ht : Ancestry.of t name with
    | error fault =>
      cases hu : Ancestry.of u name with
      | error other =>
        simp only [ht, hu, Option.some.injEq, Prod.mk.injEq, Except.error.injEq] at hrun
        rw [hrun.1]
      | ok other => simp [ht, hu] at hrun
    | ok found =>
      cases hu : Ancestry.of u name with
      | error other => simp [ht, hu] at hrun
      | ok other =>
        obtain ⟨hsubject, -⟩ := Ancestry.of_eq_ok ht
        obtain ⟨hsubject', -⟩ := Ancestry.of_eq_ok hu
        simp only [ht, hu, Option.some.injEq, Prod.mk.injEq, Except.ok.injEq,
          List.nil_append] at hrun
        rw [hstart, hsubject', Option.some.injEq] at hsubject
        cases found
        cases other
        simp_all

/-- The text of a page in JSON is made of its ancestors; the table is not part of it. -/
theorem jsonPage_congr (h : Ancestry.of t name = Ancestry.of u name) (showPrivate : Bool) :
    jsonPage t name showPrivate = jsonPage u name showPrivate := by
  unfold jsonPage Page.ofClass
  rw [h]
  cases Ancestry.of u name with
  | error fault => rfl
  | ok found => rfl

/-- A page in JSON depends on its way up alone: when two tables answer alike for every name that
the way up from a name looks up in the first one, they give the page of that name the same text
and the same reports, or the same fault.  A walk along the way, with reports made before, finds
the same members and leaves the same reports in both, however many steps it takes. -/
theorem jsonPage_of_agreeAbove (h : AgreeAbove t u name) :
    (∀ showPrivate, jsonPage t name showPrivate = jsonPage u name showPrivate) ∧
      ∀ before steps, walkMembers? t name before steps = walkMembers? u name before steps :=
  ⟨jsonPage_congr (ancestry_congr h), walkMembers?_congr h⟩

/-- A class that extends another one and declares one configuration option. -/
def derived (name parent option : String) : ClassDoc where
  name := name.toList
  doc := { kind := .cls, name := some name.toList, parent := some parent.toList }
  members := { cfgs := [{ kind := .member .cfg, name := some option.toList }] }

/-- A table in which `A` extends `B`, and `B` a class that is not documented, with one more class
beside them. -/
def danglingWith (beside : ClassDoc) : ClassTable :=
  .ofList [derived "A" "B" "key", derived "B" "Gone" "size", beside]

/-- Two tables with different classes beside a class whose parent is missing. -/
theorem jsonPage_of_agreeAbove_dangling :
    AgreeAbove (danglingWith (derived "C" "A" "more")) (danglingWith (derived "D" "B" "less"))
        "A".toList ∧
      ∀ showPrivate, ∃ text,
        jsonPage (danglingWith (derived "C" "A" "more")) "A".toList showPrivate
          = .ok (text, [.missingParent "B".toList "Gone".toList]) ∧
        jsonPage (danglingWith (derived "D" "B" "less")) "A".toList showPrivate
          = .ok (text, [.missingParent "B".toList "Gone".toList]) := by
  have hagree : AgreeAbove (danglingWith (derived "C" "A" "more"))
      (danglingWith (derived "D" "B" "less")) "A".toList := by
    rintro n (rfl | ⟨i, cls, habove, hparent⟩)
    · rfl
    · rcases i with _ | _ | i
      · cases habove
        cases hparent
        rfl
      · cases habove
        cases hparent
        rfl
      · -- there is no third class on the way
        have hend := isSome_classAbove?_of_le (m := 2) (n := i + 2) (by omega)
          (by rw [habove]; rfl)
        cases hend
  refine ⟨hagree, fun showPrivate => ?_⟩
  obtain ⟨hpage, -⟩ := jsonPage_of_agreeAbove hagree
  exact ⟨_, (hpage showPrivate).trans rfl, rfl⟩

end ApiDocs
