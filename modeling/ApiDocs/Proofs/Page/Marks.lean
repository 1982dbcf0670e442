import ApiDocs.Page.Basic
import ApiDocs.Proofs.Class.Filing
import ApiDocs.Proofs.Class.Inheritance
/-!
# The marks that references lead to

A reference to a member leads to the mark of the first member with its name, of the class and
then of its ancestors.  It is looked for on a walk of its own, which goes up class by class,
remembers the names of the classes searched, and ends at the first class that declares the
member.  The same mark can be read off the list of all members of the class.

Main definitions:

- `ClassDoc.WellFiled`: classes with each member in the list of its kind.
- `ClassDoc.listed`, `listedAlong`: members with the kinds of the lists in which they stand.
- `MarkSearch`, `MarkSearch.step`, `MarkSearch.run`: the search, class by class.

Main results:

- `wellFiled_of_mem_ofUnits`: the classes of a catalog are filed well.
- `MarkSearch.run_eq_climb`: the search halts, and finds the first member on the way up.
- `markOf?_finds_first_member`: the mark of a member, for every table, class and name.
-/

namespace ApiDocs

variable {table : ClassTable} {cls : ClassDoc} {member : Text}

/-! ### Lists of one kind -/

/-- Each member stands in the list of its kind. -/
def ClassDoc.WellFiled (cls : ClassDoc) : Prop :=
  ∀ k, ∀ node ∈ cls.members.ofKind k, node.kind = .member k

/-- The class at a place has each member in the list of its kind. -/
theorem wellFiled_ofPlace (name : Text) (place : DocNode × List DocNode) :
    (ClassDoc.ofPlace name place).WellFiled := by
  intro k node hnode
  rw [ClassDoc.ofPlace, Members.ofKind_ofFn, List.mem_filter, decide_eq_true_iff] at hnode
  exact hnode.2.1

/-- The classes of a catalog are filed well. -/
theorem wellFiled_of_mem_ofUnits {units : List (List DocNode)}
    (h : cls ∈ (Catalog.ofUnits units).classes.entries) : cls.WellFiled := by
  have hget := SortedBy.get?_eq_some_iff.2 ⟨h, rfl⟩
  rw [get?_ofUnits] at hget
  obtain ⟨place, -, hplace⟩ := Option.map_eq_some_iff.1 hget
  rw [← hplace]
  exact wellFiled_ofPlace cls.name place

/-- The members that a class declares, with the kinds of the lists in which they stand. -/
def ClassDoc.listed (cls : ClassDoc) : List (MemberKind × OwnedMember) :=
  MemberKind.all.flatMap fun k => (cls.members.ofKind k).map fun node => (k, ⟨node, cls.name⟩)

/-- The members along a chain of classes with the kinds of their lists, nearest class first. -/
def listedAlong (chain : List ClassDoc) : List (MemberKind × OwnedMember) :=
  chain.flatMap ClassDoc.listed

/-- The mark of the first of some members that has this name. -/
def firstMark? (listed : List (MemberKind × OwnedMember)) (member : Text) : Option Text :=
  (listed.find? (·.2.node.name = some member)).map fun e => memberMark (.member e.1) member

theorem map_listedAlong (chain : List ClassDoc) :
    (listedAlong chain).map Prod.snd = ownedAlong chain := by
  unfold listedAlong ownedAlong
  rw [List.map_flatMap]
  congr 1
  funext cls
  rw [ClassDoc.listed, ClassDoc.owned, Members.all, List.map_flatMap, List.map_flatMap]
  congr 1
  funext k
  rw [List.map_map]
  rfl

theorem mem_listed_iff {e : MemberKind × OwnedMember} :
    e ∈ cls.listed ↔ e.2.node ∈ cls.members.ofKind e.1 ∧ e.2.owner = cls.name := by
  unfold ClassDoc.listed
  rw [List.mem_flatMap]
  constructor
  · rintro ⟨k, -, hk⟩
    obtain ⟨node, hnode, rfl⟩ := List.mem_map.1 hk
    exact ⟨hnode, rfl⟩
  · rintro ⟨hnode, howner⟩
    refine ⟨e.1, MemberKind.mem_all e.1, List.mem_map.2 ⟨e.2.node, hnode, ?_⟩⟩
    rw [← howner]

/-- The members along a chain are those in the lists of its classes. -/
theorem mem_ownedAlong_iff {chain : List ClassDoc} {r : OwnedMember} :
    r ∈ ownedAlong chain ↔
      ∃ cls ∈ chain, ∃ k, r.node ∈ cls.members.ofKind k ∧ r.owner = cls.name := by
  rw [← map_listedAlong, List.mem_map]
  constructor
  · rintro ⟨e, he, rfl⟩
    obtain ⟨cls, hcls, hlisted⟩ := List.mem_flatMap.1 he
    exact ⟨cls, hcls, e.1, mem_listed_iff.1 hlisted⟩
  · rintro ⟨cls, hcls, k, hr⟩
    exact ⟨(k, r), List.mem_flatMap.2 ⟨cls, hcls, mem_listed_iff.2 hr⟩, rfl⟩

/-- The kind of which a class declares a member is that of the first list with its name. -/
theorem declares?_eq_find?_listed (cls : ClassDoc) (member : Text) :
    cls.declares? member
      = (cls.listed.find? (·.2.node.name = some member)).map Prod.fst := by
  unfold ClassDoc.declares? ClassDoc.listed
  induction MemberKind.all with
  | nil => rfl
  | cons k kinds ih =>
    rw [List.find?_cons, List.flatMap_cons, List.find?_append, List.find?_map]
    change _ = Option.map Prod.fst
      ((((cls.members.ofKind k).find? (·.name = some member)).map fun node =>
        (k, (⟨node, cls.name⟩ : OwnedMember))).or _)
    cases hfirst : (cls.members.ofKind k).find? (·.name = some member) with
    | some node =>
      have hany : (cls.members.ofKind k).any (·.name = some member) = true :=
        List.any_eq_true.2
          ⟨node, List.mem_of_find?_eq_some hfirst, by simpa using List.find?_some hfirst⟩
      rw [hany]
      rfl
    | none =>
      have hany : (cls.members.ofKind k).any (·.name = some member) = false := by
        rw [List.find?_eq_none] at hfirst
        rw [List.any_eq_false]
        exact hfirst
      rw [hany, Option.map_none, Option.none_or]
      exact ih

/-- The first class on a chain that declares a member gives the first mark along it. -/
theorem findSome?_declares? (chain : List ClassDoc) (member : Text) :
    (chain.findSome? (·.declares? member)).map (fun k => memberMark (.member k) member)
      = firstMark? (listedAlong chain) member := by
  unfold firstMark? listedAlong
  rw [List.find?_flatMap]
  induction chain with
  | nil => rfl
  | cons cls chain ih =>
    rw [List.findSome?_cons, List.findSome?_cons, declares?_eq_find?_listed]
    cases cls.listed.find? (·.2.node.name = some member) with
    | some e => rfl
    | none => exact ih

/-! ### The search -/

/-- The way up from a class that was not met goes on where the name of its parent leads. -/
theorem chain_climb {fresh : List Text} (h : cls.name ∈ fresh) :
    (climb table fresh cls).chain = cls :: ((cls.parent?.bind table.get?).map fun next =>
      (climb table (fresh.erase cls.name) next).chain).getD [] := by
  rw [climb, dif_pos h]
  cases cls.parent? with
  | none => rfl
  | some parent =>
    rw [Option.bind_some]
    dsimp only
    cases table.get? parent with
    | none => rfl
    | some next => rfl

/-- A search for a member: the classes searched so far, and the class to be searched next. -/
structure MarkSearch where
  searched : List ClassDoc
  next : Option ClassDoc

namespace MarkSearch

/-- Searches one class, each kind in page order, and goes on to the class that it extends.  The
search stops at the first class that declares the member, and without a mark where there is no
further class or one whose name was met before. -/
def step (table : ClassTable) (member : Text) (s : MarkSearch) : MarkSearch ⊕ Option Text :=
  match s.next with
  | none => .inr none
  | some cls =>
    if ∃ other ∈ s.searched, other.name = cls.name then .inr none
    else
      match cls.declares? member with
      | some k => .inr (some (memberMark (.member k) member))
      | none => .inl ⟨s.searched ++ [cls], cls.parent?.bind table.get?⟩

/-- Goes on until the search stops, for at most some steps. -/
def run (table : ClassTable) (member : Text) : Nat → MarkSearch → Option (Option Text)
  | 0, _ => none
  | steps + 1, s =>
    match s.step table member with
    | .inl next => run table member steps next
    | .inr mark => some mark

/-- A search without a further class stops with no mark. -/
theorem run_none {steps : Nat} (h : 0 < steps) (searched : List ClassDoc) :
    run table member steps ⟨searched, none⟩ = some none := by
  cases steps with
  | zero => cases h
  | succ steps => rfl

/-- A search from a class finds the first member on the way up that `climb` takes through the
classes not searched yet, and halts when these are used up. -/
theorem run_eq_climb {steps : Nat} {fresh : List Text} {searched : List ClassDoc}
    (hcls : cls.name ∈ table.keys) (hnodup : fresh.Nodup)
    (hfresh : ∀ n, n ∈ fresh ↔ n ∈ table.keys ∧ n ∉ searched.map ClassDoc.name)
    (hsteps : fresh.length < steps) :
    run table member steps ⟨searched, some cls⟩
      = some (firstMark? (listedAlong (climb table fresh cls).chain) member) := by
  induction steps generalizing fresh cls searched with
  | zero => omega
  | succ steps ih =>
    rw [← findSome?_declares?, run, step]
    dsimp only
    by_cases hnew : cls.name ∈ fresh
    · have hmet : ¬ ∃ other ∈ searched, other.name = cls.name :=
        (mem_fresh_iff hfresh hcls).1 hnew
      have hpos := List.length_pos_of_mem hnew
      rw [if_neg hmet, chain_climb hnew, List.findSome?_cons]
      cases hdeclares : cls.declares? member with
      | some k => rfl
      | none =>
        dsimp only
        cases hnext : cls.parent?.bind table.get? with
        | none => exact run_none (by omega) _
        | some next =>
          obtain ⟨parent, -, hget⟩ := Option.bind_eq_some_iff.1 hnext
          have hmem : next.name ∈ table.keys :=
            SortedBy.mem_keys_iff.2 ⟨next, by rw [SortedBy.key_of_get? hget, hget]⟩
          rw [ih hmem (hnodup.erase cls.name) (mem_erase_fresh_iff hfresh hnodup)
            (by rw [List.length_erase_of_mem hnew]; omega), ← findSome?_declares?]
          rfl
    · have hmet : ∃ other ∈ searched, other.name = cls.name := by
        by_contra hnot
        exact hnew ((mem_fresh_iff hfresh hcls).2 hnot)
      rw [if_pos hmet, climb, dif_neg hnew]
      rfl

end MarkSearch

/-! ### The mark of a member -/

/-- The mark of a member is the first one on the way up. -/
theorem markOf?_eq_firstMark? (table : ClassTable) (name member : Text) :
    markOf? table name member = (lineage? table name).bind fun way =>
      firstMark? (listedAlong way.chain) member := by
  unfold markOf?
  congr 1
  funext way
  exact findSome?_declares? way.chain member

/-- The search for a member halts within one step more than the table has classes. -/
theorem MarkSearch.run_eq_markOf? (table : ClassTable) (name member : Text) :
    run table member (table.entries.length + 1) ⟨[], table.get? name⟩
      = some (markOf? table name member) := by
  rw [markOf?_eq_firstMark?, lineage?_eq_map_climb]
  cases hget : table.get? name with
  | none => exact run_none (Nat.succ_pos _) _
  | some cls =>
    have hmem : cls.name ∈ table.keys :=
      SortedBy.mem_keys_iff.2 ⟨cls, by rw [SortedBy.key_of_get? hget, hget]⟩
    exact run_eq_climb hmem table.nodup_keys (fun n => by simp) (by simp [SortedBy.keys])

/-- The classes along which the ancestors of a class are found are classes of the table. -/
theorem mem_entries_of_ancestry {name : Text} {found : Ancestry}
    (h : Ancestry.of table name = .ok found) (hcls : cls ∈ found.chain) : cls ∈ table.entries := by
  obtain ⟨i, hi⟩ := List.mem_iff_getElem?.1 hcls
  rw [(wayUp_of_ancestry h).places] at hi
  exact SortedBy.mem_entries_of_get? (get?_classAbove? hi)

/-- Where the ancestors of a class are found, they are those on its way up. -/
theorem lineage?_of_ancestry {name : Text} {found : Ancestry}
    (h : Ancestry.of table name = .ok found) :
    ∃ way, lineage? table name = some way ∧ way.chain = found.chain := by
  unfold Ancestry.of at h
  unfold lineage?
  cases hseek : table.seek? name with
  | none => simp [hseek] at h
  | some subject =>
    refine ⟨lineageOf table subject, rfl, ?_⟩
    simp only [hseek] at h
    cases hend : (lineageOf table subject).ending with
    | cycle other => simp [hend] at h
    | top =>
      simp only [hend, Except.ok.injEq] at h
      rw [← h]
    | missing child parent =>
      simp only [hend, Except.ok.injEq] at h
      rw [← h]

/-- Where the ancestors of a class are found, the marks are the first ones along them. -/
theorem markOf?_of_ancestry {name : Text} {found : Ancestry}
    (h : Ancestry.of table name = .ok found) (member : Text) :
    markOf? table name member = firstMark? (listedAlong found.chain) member := by
  obtain ⟨way, hway, hchain⟩ := lineage?_of_ancestry h
  rw [markOf?_eq_firstMark?, hway, Option.bind_some, hchain]

/-- A class that the table does not hold has no members to mark. -/
theorem markOf?_eq_none_of_unknown {name : Text} (h : name ∉ table.keys) (member : Text) :
    markOf? table name member = none := by
  rw [markOf?_eq_firstMark?, lineage?_eq_map_climb, SortedBy.get?_eq_none_iff.2 h]
  rfl

/-- There is no mark for a name that no member has. -/
theorem firstMark?_eq_none_iff (chain : List ClassDoc) (member : Text) :
    firstMark? (listedAlong chain) member = none ↔
      ∀ r ∈ ownedAlong chain, r.node.name ≠ some member := by
  rw [firstMark?, Option.map_eq_none_iff, List.find?_eq_none, ← map_listedAlong,
    List.forall_mem_map]
  simp only [decide_eq_true_iff, ne_eq]

/-- Where each member stands in the list of its kind, the first mark is made of the kind of the
first member. -/
theorem firstMark?_of_wellFiled {chain : List ClassDoc} (h : ∀ cls ∈ chain, cls.WellFiled)
    (member : Text) :
    firstMark? (listedAlong chain) member
      = ((ownedAlong chain).find? (·.node.name = some member)).map fun r =>
          memberMark r.node.kind member := by
  rw [firstMark?, ← map_listedAlong, List.find?_map, Option.map_map]
  apply Option.map_congr
  intro e hfind
  obtain ⟨cls, hcls, he⟩ := List.mem_flatMap.1 (List.mem_of_find?_eq_some hfind)
  rw [Function.comp_apply, h cls hcls e.1 e.2.node (mem_listed_iff.1 he).1]

/-- The mark of a member is that of the first one with its name among the own and the inherited
members of the class.  The search for it halts for every table, also where classes extend each
other in a circle, and finds nothing for a name without a class.  Where the way up from the
class ends, it finds the first member along it: the mark is made of the kind of the list in
which this one stands, which is its own kind in a table whose members are filed well. -/
theorem markOf?_finds_first_member (table : ClassTable) (name member : Text) :
    MarkSearch.run table member (table.entries.length + 1) ⟨[], table.get? name⟩
        = some (markOf? table name member) ∧
      (name ∉ table.keys → markOf? table name member = none) ∧
      ∀ all reports, membersOf table name = .ok (all, reports) →
        (markOf? table name member = none ↔ ∀ r ∈ all, r.node.name ≠ some member) ∧
        (∃ chain, WayUp table name chain reports ∧ all = (listedAlong chain).map Prod.snd ∧
          markOf? table name member = firstMark? (listedAlong chain) member) ∧
        ((∀ cls ∈ table.entries, cls.WellFiled) →
          markOf? table name member
            = (all.find? (·.node.name = some member)).map fun r =>
                memberMark r.node.kind member) := by
  refine ⟨MarkSearch.run_eq_markOf? table name member,
    fun hname => markOf?_eq_none_of_unknown hname member, ?_⟩
  intro all reports hmembers
  obtain ⟨found, hfound, heq⟩ := map_eq_ok_iff.1 hmembers
  cases heq
  have hmark := markOf?_of_ancestry hfound member
  refine ⟨?_, ⟨found.chain, wayUp_of_ancestry hfound, (map_listedAlong found.chain).symm, hmark⟩,
    ?_⟩
  · rw [hmark]
    exact firstMark?_eq_none_iff found.chain member
  · intro hfiled
    rw [hmark]
    apply firstMark?_of_wellFiled
    intro cls hcls
    exact hfiled cls (mem_entries_of_ancestry hfound hcls)

/-- Two classes that extend each other, where the nearer method is found before the farther
configuration option of the same name. -/
example :
    let owning (name parent : String) (members : Members DocNode) : ClassDoc :=
      { name := name.toList
        doc := { kind := .cls, name := some name.toList, parent := some parent.toList }
        members := members }
    let table : ClassTable := .ofList
      [owning "A" "B" { methods := [{ kind := .member .method, name := some "show".toList }] },
        owning "B" "A" { cfgs := [{ kind := .member .cfg, name := some "show".toList }] }]
    (["show", "hide"].map fun member =>
        MarkSearch.run table member.toList 3 ⟨[], table.get? "A".toList⟩)
      = [some (some "method-show".toList), some none] := by
  decide

end ApiDocs
