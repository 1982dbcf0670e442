import ApiDocs.Proofs.Class.Ancestors
import Mathlib.Data.List.Nodup
/-!
# Walks along the classes that classes extend

From a class the table leads to the class that it extends, from there to the next one, and so
on.  This either ends, at a class that extends nothing or a name without a class, or it comes
back to a class and never ends.  A walk that remembers the names it has met tells the two
apart: it meets no more names than the table has, so it halts, and it halts at a name met
before exactly when the way up does not end.

Main definitions:

- `classAbove?`, `Revisits`: the classes on the way up, and a way that comes back to a class.
- `Walk`, `Walk.step`, `Walk.run`: the way up taken class by class.
- `walkMembers?`: the members along such a walk.
- `CycleChain`, `WayUp`: what is reported of a way that comes back, and of one that ends.

Main results:

- `isSome_classAbove?_of_revisits`: a way that comes back to a class never ends.
- `Walk.step_follows`, `Walk.stop_decides`: what a step keeps, and what a halt tells.
- `Walk.run_eq_climb`: a walk finds what `climb` finds.
- `membersOf_decides`: the members of a class, for every table and every name.
-/

namespace ApiDocs

variable {table : ClassTable} {name : Text}

/-! ### The way up -/

/-- The class that some steps up lead to from the class with a name. -/
def classAbove? (table : ClassTable) (name : Text) : Nat → Option ClassDoc
  | 0 => table.get? name
  | n + 1 => (classAbove? table name n).bind fun cls => cls.parent?.bind table.get?

/-- Whether the way up comes to a class a second time. -/
def Revisits (table : ClassTable) (name : Text) : Prop :=
  ∃ i j cls, i < j ∧ classAbove? table name i = some cls ∧ classAbove? table name j = some cls

/-- From equal classes the way up goes on in the same way. -/
theorem classAbove?_add_congr {i j : Nat}
    (h : classAbove? table name i = classAbove? table name j) (k : Nat) :
    classAbove? table name (i + k) = classAbove? table name (j + k) := by
  induction k with
  | zero => exact h
  | succ k ih => rw [← Nat.add_assoc, ← Nat.add_assoc, classAbove?, classAbove?, ih]

/-- Below a class that is there, all classes on the way are there. -/
theorem isSome_classAbove?_of_le {m n : Nat} (hmn : m ≤ n)
    (h : (classAbove? table name n).isSome) : (classAbove? table name m).isSome := by
  induction n with
  | zero => rwa [Nat.le_zero.1 hmn]
  | succ n ih =>
    rcases Nat.le_succ_iff.1 hmn with hle | rfl
    · refine ih hle ?_
      cases hn : classAbove? table name n with
      | none => simp [classAbove?, hn] at h
      | some cls => rfl
    · exact h

/-- A way that comes back to a class never ends. -/
theorem isSome_classAbove?_of_revisits (h : Revisits table name) (n : Nat) :
    (classAbove? table name n).isSome := by
  obtain ⟨i, j, cls, hij, hi, hj⟩ := h
  induction n using Nat.strongRecOn with
  | ind n ih =>
    rcases Nat.lt_or_ge j n with hlt | hle
    · -- Behind the second visit the way repeats what followed the first one.
      obtain ⟨k, rfl⟩ := Nat.exists_eq_add_of_le (Nat.le_of_lt hlt)
      rw [← classAbove?_add_congr (hi.trans hj.symm) k]
      exact ih (i + k) (by omega)
    · exact isSome_classAbove?_of_le hle (by rw [hj]; rfl)

/-- The classes on the way up are those of the table. -/
theorem get?_classAbove? {n : Nat} {cls : ClassDoc} (h : classAbove? table name n = some cls) :
    table.get? cls.name = some cls := by
  have hself : ∀ {k : Text}, table.get? k = some cls → table.get? cls.name = some cls := by
    intro k hk
    rw [SortedBy.key_of_get? hk, hk]
  cases n with
  | zero => exact hself h
  | succ n =>
    obtain ⟨below, -, hup⟩ := Option.bind_eq_some_iff.1 h
    obtain ⟨parent, -, hget⟩ := Option.bind_eq_some_iff.1 hup
    exact hself hget

/-! ### The walk -/

/-- A walk up: the classes met so far, the class that it has come to, and the reports. -/
structure Walk where
  met : List ClassDoc
  cls : ClassDoc
  reports : List Report

/-- What a walk ends with: the classes met or a fault, and the reports. -/
abbrev WalkResult := Except Fault (List ClassDoc) × List Report

namespace Walk

/-- Goes one class further, or stops: at a class whose name was met before, at one that
extends nothing, and at one whose parent is not in the table, which is reported. -/
def step (table : ClassTable) (w : Walk) : Walk ⊕ WalkResult :=
  let met := w.met ++ [w.cls]
  if ∃ cls ∈ w.met, cls.name = w.cls.name then
    .inr (.error (.cycle (met.map ClassDoc.name)), w.reports)
  else
    match w.cls.parent? with
    | none => .inr (.ok met, w.reports)
    | some parent =>
      match table.get? parent with
      | some next => .inl { w with met := met, cls := next }
      | none => .inr (.ok met, w.reports ++ [.missingParent w.cls.name parent])

/-- Goes on until the walk stops, for at most some steps. -/
def run (table : ClassTable) : Nat → Walk → Option WalkResult
  | 0, _ => none
  | steps + 1, w =>
    match w.step table with
    | .inl next => run table steps next
    | .inr result => some result

end Walk

/-- The members along a walk from the class with a name, for at most some steps; its reports
are added to those `before`. -/
def walkMembers? (table : ClassTable) (name : Text) (before : List Report) (steps : Nat) :
    Option (Except Fault (List OwnedMember) × List Report) :=
  match table.get? name with
  | none => some (.error (.noSuchClass name), before)
  | some cls =>
    (Walk.run table steps ⟨[], cls, before⟩).map fun (found, reports) =>
      (found.map ownedAlong, reports)

/-! ### What a walk tells -/

/-- The names on a way that comes back to a class: it starts at the name, each class extends
the next, and only the last name occurs before. -/
structure CycleChain (table : ClassTable) (name : Text) (chain : List Text) : Prop where
  starts : chain.head? = some name
  extends_next : ∀ i a b, chain[i]? = some a → chain[i + 1]? = some b →
    ∃ cls, table.get? a = some cls ∧ cls.parent? = some b
  closes : ∃ names last, chain = names ++ [last] ∧ names.Nodup ∧ last ∈ names

/-- The classes on a way that ends, and the reports on it: one when the last class extends a
name without a class, none when it extends nothing. -/
structure WayUp (table : ClassTable) (name : Text) (chain : List ClassDoc)
    (reports : List Report) : Prop where
  places : ∀ i, chain[i]? = classAbove? table name i
  reported : ∃ last, chain.getLast? = some last ∧
    match last.parent? with
    | none => reports = []
    | some parent => table.get? parent = none ∧ reports = [.missingParent last.name parent]

namespace Walk

variable {w : Walk}

/-- A walk is on the way up, and no name was met twice. -/
structure Follows (table : ClassTable) (name : Text) (w : Walk) : Prop where
  places : ∀ i, i ≤ w.met.length → (w.met ++ [w.cls])[i]? = classAbove? table name i
  distinct : (w.met.map ClassDoc.name).Nodup

/-- The class that the walk stands at is as far up as classes have been met. -/
theorem Follows.here (h : Follows table name w) :
    classAbove? table name w.met.length = some w.cls := by
  rw [← h.places w.met.length (Nat.le_refl _), List.getElem?_concat_length]

/-- The walk starts at the class itself. -/
theorem follows_start {cls : ClassDoc} (h : table.get? name = some cls)
    (reports : List Report) : Follows table name ⟨[], cls, reports⟩ where
  places i hi := by
    rw [Nat.le_zero.1 hi]
    exact h.symm
  distinct := List.nodup_nil

/-- A step that goes on keeps to the way up, one class further. -/
theorem step_follows {next : Walk} (h : Follows table name w) (hs : w.step table = .inl next) :
    Follows table name next ∧ next.met.length = w.met.length + 1 ∧
      next.reports = w.reports := by
  unfold step at hs
  split at hs
  · cases hs
  next hnew =>
  split at hs
  · cases hs
  next parent hparent =>
  split at hs
  next cls hget =>
    cases hs
    have habove : classAbove? table name (w.met.length + 1) = some cls := by
      rw [classAbove?, h.here, Option.bind_some, hparent, Option.bind_some, hget]
    refine ⟨⟨?_, ?_⟩, ?_, rfl⟩
    · intro i hi
      rw [List.length_append, List.length_singleton] at hi
      rcases Nat.le_succ_iff.1 hi with hle | rfl
      · rw [List.getElem?_append_left (by simp; omega)]
        exact h.places i hle
      · rw [habove, List.getElem?_append_right (by simp)]
        simp
    · rw [List.map_append, List.map_singleton, List.nodup_append]
      refine ⟨h.distinct, List.nodup_singleton _, ?_⟩
      intro a ha b hb hab
      rw [hab, List.mem_singleton.1 hb] at ha
      exact hnew (List.mem_map.1 ha)
    · rw [List.length_append, List.length_singleton]
  · cases hs

/-- The classes of a walk extend each other in turn. -/
theorem Follows.extends_next (h : Follows table name w) {i : Nat} {a b : Text}
    (ha : ((w.met ++ [w.cls]).map ClassDoc.name)[i]? = some a)
    (hb : ((w.met ++ [w.cls]).map ClassDoc.name)[i + 1]? = some b) :
    ∃ cls, table.get? a = some cls ∧ cls.parent? = some b := by
  rw [List.getElem?_map] at ha hb
  obtain ⟨cls, hcls, rfl⟩ := Option.map_eq_some_iff.1 ha
  obtain ⟨next, hnext, rfl⟩ := Option.map_eq_some_iff.1 hb
  have hlen : i + 1 < (w.met ++ [w.cls]).length := (List.getElem?_eq_some_iff.1 hnext).1
  rw [List.length_append, List.length_singleton] at hlen
  rw [h.places i (by omega)] at hcls
  rw [h.places (i + 1) (by omega), classAbove?, hcls, Option.bind_some] at hnext
  obtain ⟨parent, hparent, hget⟩ := Option.bind_eq_some_iff.1 hnext
  exact ⟨cls, get?_classAbove? hcls, by rw [hparent, SortedBy.key_of_get? hget]⟩

/-- A walk that has come to a name met before is on a way that comes back to a class. -/
theorem Follows.cycle (h : Follows table name w)
    (hmet : ∃ cls ∈ w.met, cls.name = w.cls.name) :
    CycleChain table name ((w.met ++ [w.cls]).map ClassDoc.name) ∧ Revisits table name := by
  have hclosed := List.mem_map.2 hmet
  obtain ⟨cls, hcls, hname⟩ := hmet
  obtain ⟨i, hi, rfl⟩ := List.getElem_of_mem hcls
  have hplace := h.places i (Nat.le_of_lt hi)
  rw [List.getElem?_append_left hi, List.getElem?_eq_getElem hi] at hplace
  have hsame : w.met[i] = w.cls := by
    have hget := get?_classAbove? hplace.symm
    rw [hname, get?_classAbove? h.here] at hget
    exact (Option.some.inj hget).symm
  refine ⟨⟨?_, fun i a b => h.extends_next, _, _, List.map_append, h.distinct, ?_⟩, ?_⟩
  · have hstart := h.places 0 (Nat.zero_le _)
    rw [← List.head?_eq_getElem?] at hstart
    cases hzero : table.get? name with
    | none =>
      rw [classAbove?, hzero] at hstart
      simp at hstart
    | some start =>
      rw [List.head?_map, hstart, classAbove?, hzero, Option.map_some,
        SortedBy.key_of_get? hzero]
  · exact hclosed
  · exact ⟨i, w.met.length, w.cls, hi, by rw [← hplace, hsame], h.here⟩

/-- A walk that has come to a class without a class above it has taken the whole way up. -/
theorem Follows.wayUp (h : Follows table name w)
    (htop : w.cls.parent?.bind table.get? = none) (i : Nat) :
    (w.met ++ [w.cls])[i]? = classAbove? table name i := by
  rcases Nat.lt_or_ge w.met.length i with hlt | hle
  · have hend : classAbove? table name (w.met.length + 1) = none := by
      rw [classAbove?, h.here, Option.bind_some, htop]
    rw [List.getElem?_eq_none (by simp; omega)]
    cases hi : classAbove? table name i with
    | none => rfl
    | some cls =>
      have hsome := isSome_classAbove?_of_le (Nat.succ_le_of_lt hlt) (by rw [hi]; rfl)
      rw [hend] at hsome
      cases hsome
  · exact h.places i hle

/-- Where a walk stops, the way up has ended or come back to a class. -/
theorem stop_decides {result : WalkResult} (h : Follows table name w)
    (hs : w.step table = .inr result) :
    (∃ chain, result = (.error (.cycle chain), w.reports) ∧ CycleChain table name chain ∧
        Revisits table name) ∨
      ∃ chain reports, result = (.ok chain, w.reports ++ reports) ∧
        WayUp table name chain reports := by
  unfold step at hs
  split at hs
  next hmet =>
    cases hs
    exact .inl ⟨_, rfl, h.cycle hmet⟩
  next hnew =>
  refine .inr ?_
  split at hs
  next hparent =>
    cases hs
    refine ⟨_, [], by rw [List.append_nil], h.wayUp (by rw [hparent]; rfl), w.cls, ?_, ?_⟩
    · exact List.getLast?_concat
    · rw [hparent]
  next parent hparent =>
  split at hs
  · cases hs
  next hget =>
    cases hs
    refine ⟨_, _, rfl, h.wayUp (by rw [hparent, Option.bind_some, hget]), w.cls, ?_, ?_⟩
    · exact List.getLast?_concat
    · rw [hparent]
      exact ⟨hget, rfl⟩

/-- Where a run stops, the way up has ended or come back to a class. -/
theorem run_decides {steps : Nat} {result : WalkResult} (h : Follows table name w)
    (hr : w.run table steps = some result) :
    (∃ chain, result = (.error (.cycle chain), w.reports) ∧ CycleChain table name chain ∧
        Revisits table name) ∨
      ∃ chain reports, result = (.ok chain, w.reports ++ reports) ∧
        WayUp table name chain reports := by
  induction steps generalizing w with
  | zero => cases hr
  | succ steps ih =>
    rw [run] at hr
    cases hs : w.step table with
    | inl next =>
      obtain ⟨hnext, -, hreports⟩ := step_follows h hs
      rw [hs] at hr
      rw [← hreports]
      exact ih hnext hr
    | inr stopped =>
      rw [hs] at hr
      cases hr
      exact stop_decides h hs

end Walk

/-! ### The walk and the climb -/

/-- The result of a walk that has met some classes and then takes this way. -/
def Lineage.result (way : Lineage) (met : List ClassDoc) (reports : List Report) : WalkResult :=
  match way.ending with
  | .top => (.ok (met ++ way.chain), reports)
  | .missing child parent => (.ok (met ++ way.chain), reports ++ [.missingParent child parent])
  | .cycle name => (.error (.cycle ((met ++ way.chain).map ClassDoc.name ++ [name])), reports)

theorem Lineage.result_cons (cls : ClassDoc) (above : Lineage) (met : List ClassDoc)
    (reports : List Report) :
    Lineage.result ⟨cls :: above.chain, above.ending⟩ met reports
      = above.result (met ++ [cls]) reports := by
  unfold Lineage.result
  cases above.ending with
  | top => simp
  | missing child parent => simp
  | cycle name => simp

section Fresh

variable {fresh : List Text} {cls : ClassDoc} {met : List ClassDoc}
  (hfresh : ∀ n, n ∈ fresh ↔ n ∈ table.keys ∧ n ∉ met.map ClassDoc.name)
include hfresh

/-- The name of a class is fresh when no class met has it. -/
theorem mem_fresh_iff (hcls : cls.name ∈ table.keys) :
    cls.name ∈ fresh ↔ ¬ ∃ other ∈ met, other.name = cls.name := by
  rw [hfresh, List.mem_map]
  exact and_iff_right hcls

/-- With one more class met, the other names are still fresh. -/
theorem mem_erase_fresh_iff (hnodup : fresh.Nodup) (n : Text) :
    n ∈ fresh.erase cls.name ↔
      n ∈ table.keys ∧ n ∉ (met ++ [cls]).map ClassDoc.name := by
  rw [hnodup.mem_erase_iff, hfresh, List.map_append, List.map_singleton, List.mem_append,
    List.mem_singleton, not_or]
  exact ⟨fun h => ⟨h.2.1, h.2.2, h.1⟩, fun h => ⟨h.2.2, h.1, h.2.1⟩⟩

end Fresh

/-- A walk finds what `climb` finds, when the names it has not met are the fresh ones. -/
theorem Walk.run_eq_climb {fresh : List Text} {cls : ClassDoc} {met : List ClassDoc}
    {reports : List Report} {steps : Nat} (hcls : cls.name ∈ table.keys) (hnodup : fresh.Nodup)
    (hfresh : ∀ n, n ∈ fresh ↔ n ∈ table.keys ∧ n ∉ met.map ClassDoc.name)
    (hsteps : fresh.length < steps) :
    Walk.run table steps ⟨met, cls, reports⟩
      = some ((climb table fresh cls).result met reports) := by
  induction steps generalizing fresh cls met with
  | zero => omega
  | succ steps ih =>
    rw [run, step, climb]
    by_cases hnew : cls.name ∈ fresh
    · have hmet : ¬ ∃ other ∈ met, other.name = cls.name := (mem_fresh_iff hfresh hcls).1 hnew
      rw [dif_pos hnew, if_neg hmet]
      cases hparent : cls.parent? with
      | none => rfl
      | some parent =>
        dsimp only
        cases hget : table.get? parent with
        | none => rfl
        | some next =>
          dsimp only
          rw [Lineage.result_cons]
          refine ih ?_ (hnodup.erase cls.name) (mem_erase_fresh_iff hfresh hnodup) ?_
          · exact SortedBy.mem_keys_iff.2 ⟨next, by rw [SortedBy.key_of_get? hget, hget]⟩
          · rw [List.length_erase_of_mem hnew]
            have hpos := List.length_pos_of_mem hnew
            omega
    · have hmet : ∃ other ∈ met, other.name = cls.name := by
        by_contra hnot
        exact hnew ((mem_fresh_iff hfresh hcls).2 hnot)
      rw [dif_neg hnew, if_pos hmet]
      simp [Lineage.result]

/-- The result of a walk from a class of the table is what is found for its name. -/
theorem Walk.run_eq_ancestry {cls : ClassDoc} (h : table.get? name = some cls)
    (before : List Report) {steps : Nat} (hsteps : table.entries.length < steps) :
    Walk.run table steps ⟨[], cls, before⟩
      = some (match Ancestry.of table name with
        | .ok found => (.ok found.chain, before ++ found.reports)
        | .error fault => (.error fault, before)) := by
  have hself : table.get? cls.name = some cls := by rw [SortedBy.key_of_get? h, h]
  rw [run_eq_climb (SortedBy.mem_keys_iff.2 ⟨cls, hself⟩) table.nodup_keys
    (fun n => by simp) (by simpa [SortedBy.keys] using hsteps)]
  rw [Ancestry.of_eq_climb, h]
  unfold Lineage.result
  dsimp only
  cases (climb table table.keys cls).ending with
  | top => simp
  | missing child parent => rfl
  | cycle last => rfl

/-! ### What is found for a name -/

/-- For the name of a class of the table there is either a way that comes back to a class,
and the fault names it, or a way that ends, and its classes are found. -/
theorem ancestry_decides {cls : ClassDoc} (h : table.get? name = some cls) :
    (∃ chain, Ancestry.of table name = .error (.cycle chain) ∧ CycleChain table name chain ∧
        Revisits table name) ∨
      ∃ found, Ancestry.of table name = .ok found ∧
        WayUp table name found.chain found.reports := by
  have hrun := Walk.run_eq_ancestry h [] (Nat.lt_succ_self _)
  rcases Walk.run_decides (Walk.follows_start h []) hrun with
    ⟨chain, hresult, hchain, hrevisits⟩ | ⟨chain, reports, hresult, hway⟩
  · refine .inl ⟨chain, ?_, hchain, hrevisits⟩
    cases hfound : Ancestry.of table name with
    | error fault =>
      rw [hfound] at hresult
      simpa using hresult
    | ok found => simp [hfound] at hresult
  · refine .inr ?_
    cases hfound : Ancestry.of table name with
    | error fault => simp [hfound] at hresult
    | ok found =>
      simp only [hfound, Prod.mk.injEq, Except.ok.injEq, List.nil_append] at hresult
      obtain ⟨rfl, rfl⟩ := hresult
      exact ⟨found, rfl, hway⟩

/-- An ancestry that is found is the way up. -/
theorem wayUp_of_ancestry {found : Ancestry} (h : Ancestry.of table name = .ok found) :
    WayUp table name found.chain found.reports := by
  obtain ⟨hget, -⟩ := Ancestry.of_eq_ok h
  rcases ancestry_decides hget with ⟨chain, hcycle, -⟩ | ⟨other, hother, hway⟩
  · rw [h] at hcycle
    cases hcycle
  · rw [h] at hother
    cases hother
    exact hway

/-- A way up that ends comes back to no class. -/
theorem WayUp.not_revisits {chain : List ClassDoc} {reports : List Report}
    (h : WayUp table name chain reports) : ¬ Revisits table name := by
  intro hrevisits
  have hsome := isSome_classAbove?_of_revisits hrevisits chain.length
  rw [← h.places, List.getElem?_eq_none (Nat.le_refl _)] at hsome
  cases hsome

/-- A name without a class has no ancestry. -/
theorem ancestry_unknown (h : table.get? name = none) :
    Ancestry.of table name = .error (.noSuchClass name) := by
  rw [Ancestry.of_eq_climb, h]

/-- The way up from a name comes back to a class exactly when a cycle is reported. -/
theorem ancestry_cycle_iff :
    (∃ chain, Ancestry.of table name = .error (.cycle chain)) ↔ Revisits table name := by
  constructor
  · rintro ⟨chain, hchain⟩
    cases hget : table.get? name with
    | none => simp [ancestry_unknown hget] at hchain
    | some cls =>
      rcases ancestry_decides hget with ⟨-, -, -, hrevisits⟩ | ⟨found, hfound, -⟩
      · exact hrevisits
      · simp [hfound] at hchain
  · intro hrevisits
    cases hget : table.get? name with
    | none =>
      have hsome := isSome_classAbove?_of_revisits hrevisits 0
      simp [classAbove?, hget] at hsome
    | some cls =>
      rcases ancestry_decides hget with ⟨chain, hchain, -, -⟩ | ⟨found, -, hway⟩
      · exact ⟨chain, hchain⟩
      · exact absurd hrevisits hway.not_revisits

/-- The members of a class cannot be found when its ancestry cannot. -/
theorem membersOf_eq_error_iff {fault : Fault} :
    membersOf table name = .error fault ↔ Ancestry.of table name = .error fault := by
  rw [membersOf]
  cases Ancestry.of table name with
  | error other => simp [Except.map]
  | ok found => simp [Except.map]

/-- The members along a chain: of each class the configuration options, the properties, the
methods and the events. -/
theorem ownedAlong_eq (chain : List ClassDoc) :
    ownedAlong chain = chain.flatMap fun cls =>
      (cls.members.cfgs ++ cls.members.properties ++ cls.members.methods
        ++ cls.members.events).map (⟨·, cls.name⟩) := by
  unfold ownedAlong
  congr 1
  funext cls
  simp [ClassDoc.owned, Members.all, MemberKind.all, Members.ofKind]

/-- What the members of a class are found to be, added to reports made before: a fault adds
no report. -/
def withReports (before : List Report) :
    Except Fault (List OwnedMember × List Report) → Except Fault (List OwnedMember) × List Report
  | .ok (members, reports) => (.ok members, before ++ reports)
  | .error fault => (.error fault, before)

/-- The walk from a name halts within one step more than the table has classes, and finds the
members of the class. -/
theorem walkMembers?_eq (table : ClassTable) (name : Text) (before : List Report) :
    walkMembers? table name before (table.entries.length + 1)
      = some (withReports before (membersOf table name)) := by
  unfold walkMembers? membersOf
  cases hget : table.get? name with
  | none =>
    rw [ancestry_unknown hget]
    rfl
  | some cls =>
    dsimp only
    rw [Walk.run_eq_ancestry hget before (Nat.lt_succ_self _)]
    cases Ancestry.of table name with
    | error fault => rfl
    | ok found => rfl

/-- A class is unknown when the table does not hold it. -/
theorem membersOf_eq_noSuchClass_iff :
    membersOf table name = .error (.noSuchClass name) ↔ name ∉ table.keys := by
  rw [membersOf_eq_error_iff]
  constructor
  · intro hunknown hmem
    obtain ⟨cls, hget⟩ := SortedBy.mem_keys_iff.1 hmem
    rcases ancestry_decides hget with ⟨chain, hchain, -, -⟩ | ⟨found, hfound, -⟩
    · simp [hchain] at hunknown
    · simp [hfound] at hunknown
  · exact fun hmem => ancestry_unknown (SortedBy.get?_eq_none_iff.2 hmem)

/-- The cycle that is reported is a way up that comes back to a class. -/
theorem cycleChain_of_membersOf {chain : List Text}
    (h : membersOf table name = .error (.cycle chain)) : CycleChain table name chain := by
  rw [membersOf_eq_error_iff] at h
  cases hget : table.get? name with
  | none => simp [ancestry_unknown hget] at h
  | some cls =>
    rcases ancestry_decides hget with ⟨other, hother, hspec, -⟩ | ⟨found, hfound, -⟩
    · rw [hother] at h
      cases h
      exact hspec
    · simp [hfound] at h

/-- On a way that ends, the members of its classes are found. -/
theorem exists_wayUp_membersOf (hname : name ∈ table.keys) (h : ¬ Revisits table name) :
    ∃ chain reports, WayUp table name chain reports ∧
      membersOf table name = .ok (ownedAlong chain, reports) := by
  obtain ⟨cls, hget⟩ := SortedBy.mem_keys_iff.1 hname
  rcases ancestry_decides hget with ⟨-, -, -, hrevisits⟩ | ⟨found, hfound, hway⟩
  · exact absurd hrevisits h
  · exact ⟨found.chain, found.reports, hway, by rw [membersOf, hfound]; rfl⟩

/-- For every name the walk up halts, and it decides what the classes of the table extend: the
name has no class, or the way up comes back to a class and the fault names it, or the way ends
and the members along it are found, with a report when it ends at a name without a class. -/
theorem membersOf_decides (table : ClassTable) (name : Text) :
    (∀ before, walkMembers? table name before (table.entries.length + 1)
        = some (withReports before (membersOf table name))) ∧
      (membersOf table name = .error (.noSuchClass name) ↔ name ∉ table.keys) ∧
      ((∃ chain, membersOf table name = .error (.cycle chain)) ↔ Revisits table name) ∧
      (∀ chain, membersOf table name = .error (.cycle chain) → CycleChain table name chain) ∧
      (name ∈ table.keys → ¬ Revisits table name →
        ∃ chain reports, WayUp table name chain reports ∧
          membersOf table name = .ok (chain.flatMap fun cls =>
            (cls.members.cfgs ++ cls.members.properties ++ cls.members.methods
              ++ cls.members.events).map (⟨·, cls.name⟩), reports)) := by
  refine ⟨walkMembers?_eq table name, membersOf_eq_noSuchClass_iff, ?_,
    fun _ => cycleChain_of_membersOf, fun hname hnot => ?_⟩
  · rw [← ancestry_cycle_iff]
    simp only [membersOf_eq_error_iff]
  · obtain ⟨chain, reports, hway, hmembers⟩ := exists_wayUp_membersOf hname hnot
    rw [ownedAlong_eq] at hmembers
    exact ⟨chain, reports, hway, hmembers⟩

/-- A way that leads into a cycle without coming back to where it started. -/
example :
    let extending (name parent : String) : ClassDoc :=
      { name := name.toList
        doc := { kind := .cls, name := some name.toList, parent := some parent.toList } }
    walkMembers? (.ofList [extending "A" "B", extending "B" "C", extending "C" "B"]) "A".toList
        [] 4
      = some (.error (.cycle ["A".toList, "B".toList, "C".toList, "B".toList]), []) := rfl

end ApiDocs
