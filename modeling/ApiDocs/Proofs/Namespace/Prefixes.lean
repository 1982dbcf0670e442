import ApiDocs.Proofs.Namespace.Leaves
/-!
# The tree of namespaces as a tree of prefixes

A path leads to a node of the tree exactly when it is the start of the segments of some class
name.  Putting one class into the tree makes the nodes on its path, gives the last of them the
class, and leaves what stands on other paths, so the tree of a table can be read off the names
of its classes.  The siblings of a node stand in the order of their segments, which is what makes
the look-up of a segment find all that was put below it.

Main definitions:

- `Namespace.graft`: a node with a class put at the end of a path from it.
- `Namespace.Ordered`: trees in which siblings stand in the order of their segments.
- `Namespace.classAt?`: the class of the node at the end of a path.

Main results:

- `Namespace.child?_insertAt`: what putting a class into a tree does to one child.
- `Namespace.isSome_follow?_graft`, `Namespace.classAt?_graft`: and to a whole path.
- `Namespace.ofTable_holds_prefixes`: the nodes of the tree of a table.
-/

namespace ApiDocs

namespace Namespace

variable {cls : ClassDoc} {tree : Namespace} {found next : Option ClassDoc × Namespace}
  {segment : Text} {path : List Text}

/-- Puts a class at the end of a path from a node with this class and these nodes below it.  The
empty path ends at the node itself. -/
def graft (cls : ClassDoc) (path : List Text) (found : Option ClassDoc × Namespace) :
    Option ClassDoc × Namespace :=
  match path with
  | [] => (some cls, found.2)
  | segment :: path => (found.1, insertAt cls segment path found.2)

/-- Under each parent the segments of the nodes increase. -/
def Ordered : Namespace → Prop
  | none => True
  | node s _ below beside => (∀ head ∈ beside.heads, s < head) ∧ below.Ordered ∧ beside.Ordered

theorem ordered_none : Ordered none := trivial

/-- The class of the node that a path leads to. -/
def classAt? (found : Option ClassDoc × Namespace) (path : List Text) : Option ClassDoc :=
  (follow? found path).bind Prod.fst

/-! ### Children -/

/-- The segments under a parent are those that lead to a child. -/
theorem mem_heads_iff : segment ∈ tree.heads ↔ (tree.child? segment).isSome = true := by
  induction tree with
  | none => simp [heads, child?]
  | node s c below beside _ ihbeside =>
    rw [heads, child?, List.mem_cons]
    by_cases h : segment = s
    · simp [h]
    · simp [h, ihbeside]

/-- A segment that heads no node has no child. -/
theorem child?_eq_none (h : segment ∉ tree.heads) : tree.child? segment = Option.none := by
  rw [mem_heads_iff] at h
  simpa using h

/-- In front of the first sibling there is none. -/
theorem child?_eq_none_of_lt {s : Text} {c : Option ClassDoc} {below beside : Namespace}
    (h : (node s c below beside).Ordered) (hlt : segment < s) :
    (node s c below beside).child? segment = Option.none := by
  apply child?_eq_none
  intro hmem
  rcases List.mem_cons.1 hmem with heq | hmem
  · exact Text.ne_of_lt hlt heq
  · exact Text.ne_of_lt (List.lt_trans hlt (h.1 segment hmem)) rfl

/-- The heads of ordered siblings stand in order. -/
theorem pairwise_heads (h : tree.Ordered) : tree.heads.Pairwise (· < ·) := by
  induction tree with
  | none => exact List.Pairwise.nil
  | node s c below beside _ ihbeside => exact List.pairwise_cons.2 ⟨h.1, ihbeside h.2.2⟩

/-- What stands below a child is in order, too. -/
theorem ordered_of_child? (h : tree.Ordered) (hchild : tree.child? segment = some next) :
    next.2.Ordered := by
  induction tree with
  | none => simp [child?] at hchild
  | node s c below beside _ ihbeside =>
    rw [child?] at hchild
    split at hchild
    · cases hchild
      exact h.2.1
    · exact ihbeside h.2.2 hchild

/-! ### Putting a class into a tree -/

/-- A new branch is what becomes of a node without a class and without nodes below it. -/
theorem branch_eq_graft (cls : ClassDoc) (path : List Text) :
    branch cls path = graft cls path (Option.none, none) := by
  cases path with
  | nil => rfl
  | cons segment path => rfl

/-- Putting a class in adds the first segment of its path to the heads. -/
theorem mem_heads_insertAt {head : Text} :
    head ∈ (insertAt cls segment path tree).heads ↔ head = segment ∨ head ∈ tree.heads := by
  induction tree generalizing segment path with
  | none => simp [insertAt, heads]
  | node s c below beside _ ihbeside =>
    unfold insertAt
    split
    · simp [heads]
    · split
      next heq =>
        subst heq
        cases path with
        | nil => simp [heads]
        | cons following path => simp [heads]
      next => simp only [heads, List.mem_cons, ihbeside, or_left_comm]

theorem ordered_branch (cls : ClassDoc) (path : List Text) : (branch cls path).2.Ordered := by
  induction path with
  | nil => trivial
  | cons segment path ih =>
    refine ⟨?_, ih, trivial⟩
    intro head hmem
    simp [heads] at hmem

/-- Putting a class into a tree keeps the order. -/
theorem ordered_insertAt (h : tree.Ordered) : (insertAt cls segment path tree).Ordered := by
  induction tree generalizing segment path with
  | none =>
    refine ⟨?_, ordered_branch cls path, trivial⟩
    intro head hmem
    simp [heads] at hmem
  | node s c below beside ihbelow ihbeside =>
    obtain ⟨hfirst, hbelow, hbeside⟩ := h
    unfold insertAt
    by_cases hlt : segment < s
    · rw [if_pos hlt]
      refine ⟨?_, ordered_branch cls path, hfirst, hbelow, hbeside⟩
      intro head hmem
      rcases List.mem_cons.1 hmem with rfl | hmem
      · exact hlt
      · exact List.lt_trans hlt (hfirst head hmem)
    · rw [if_neg hlt]
      by_cases heq : segment = s
      · rw [if_pos heq]
        cases path with
        | nil => exact ⟨hfirst, hbelow, hbeside⟩
        | cons following path => exact ⟨hfirst, ihbelow hbelow, hbeside⟩
      · rw [if_neg heq]
        refine ⟨?_, hbelow, ihbeside hbeside⟩
        intro head hmem
        rcases mem_heads_insertAt.1 hmem with rfl | hmem
        · exact Text.lt_of_not_lt_of_ne hlt heq
        · exact hfirst head hmem

/-- The child at the first segment of the path gets the class at the end of the rest, and the
other children stay. -/
theorem child?_insertAt (h : tree.Ordered) (s : Text) :
    (insertAt cls segment path tree).child? s
      = if s = segment then
          some (graft cls path ((tree.child? segment).getD (Option.none, none)))
        else tree.child? s := by
  induction tree with
  | none => simp [insertAt, child?, branch_eq_graft]
  | node t c below beside _ ihbeside =>
    by_cases hlt : segment < t
    · rw [child?_eq_none_of_lt h hlt]
      simp [insertAt, hlt, child?, branch_eq_graft]
    · by_cases heq : segment = t
      · subst heq
        have hinsert : insertAt cls segment path (node segment c below beside)
            = node segment (graft cls path (c, below)).1 (graft cls path (c, below)).2 beside := by
          unfold insertAt
          rw [if_neg hlt, if_pos rfl]
          cases path with
          | nil => rfl
          | cons following path => rfl
        rw [hinsert, child?, child?, if_pos rfl, child?]
        by_cases hs : s = segment
        · rw [if_pos hs, if_pos hs, Option.getD_some]
        · rw [if_neg hs, if_neg hs, if_neg hs]
      · have hbeside := ihbeside h.2.2
        unfold insertAt
        rw [if_neg hlt, if_neg heq, child?, hbeside, child?, if_neg heq, child?]
        by_cases ht : s = t
        · have hne : t ≠ segment := fun hts => heq hts.symm
          rw [if_pos ht, if_pos ht, ht, if_neg hne]
        · rw [if_neg ht, if_neg ht]

/-! ### Paths -/

/-- A path is followed piece by piece. -/
theorem follow?_append (found : Option ClassDoc × Namespace) (path more : List Text) :
    follow? found (path ++ more) = (follow? found path).bind (follow? · more) := by
  induction path generalizing found with
  | nil => rfl
  | cons segment path ih =>
    rw [List.cons_append, follow?, follow?]
    cases found.2.child? segment with
    | none => rfl
    | some next => exact ih next

/-- What is below an ordered node is ordered. -/
theorem ordered_of_follow? (h : found.2.Ordered) (hfollow : follow? found path = some next) :
    next.2.Ordered := by
  induction path generalizing found with
  | nil =>
    cases hfollow
    exact h
  | cons segment path ih =>
    rw [follow?] at hfollow
    obtain ⟨child, hchild, hrest⟩ := Option.bind_eq_some_iff.1 hfollow
    exact ih (ordered_of_child? h hchild) hrest

/-- What stands where nothing was put is in order. -/
theorem ordered_getD_child? (h : tree.Ordered) (segment : Text) :
    ((tree.child? segment).getD (Option.none, none)).2.Ordered := by
  cases hchild : tree.child? segment with
  | none => trivial
  | some next => exact ordered_of_child? h hchild

/-- A class makes the nodes on its path, and no others. -/
theorem isSome_follow?_graft (h : found.2.Ordered) (cls : ClassDoc) (path sought : List Text) :
    (follow? (graft cls path found) sought).isSome = true ↔
      sought <+: path ∨ (follow? found sought).isSome = true := by
  induction sought generalizing path found with
  | nil => simp [follow?]
  | cons s sought ih =>
    cases path with
    | nil => simp [graft, follow?]
    | cons segment path =>
      rw [graft, follow?, child?_insertAt h, follow?, List.cons_prefix_cons]
      by_cases hs : s = segment
      · subst hs
        rw [if_pos rfl, Option.bind_some, ih (ordered_getD_child? h s)]
        cases found.2.child? s with
        | some next => simp
        | none =>
          -- below a node that was not there, only the empty path leads somewhere
          cases sought with
          | nil => simp
          | cons t sought => simp [follow?, child?]
      · simp [hs]

/-- A class stands at the end of its path, and other paths lead to the classes they led to. -/
theorem classAt?_graft (h : found.2.Ordered) (cls : ClassDoc) (path sought : List Text) :
    classAt? (graft cls path found) sought
      = if sought = path then some cls else classAt? found sought := by
  induction sought generalizing path found with
  | nil =>
    cases path with
    | nil => rfl
    | cons segment path => rfl
  | cons s sought ih =>
    cases path with
    | nil => rfl
    | cons segment path =>
      unfold classAt? at ih ⊢
      rw [graft, follow?, child?_insertAt h, follow?]
      by_cases hs : s = segment
      · subst hs
        rw [if_pos rfl, Option.bind_some, ih (ordered_getD_child? h s)]
        cases found.2.child? s with
        | some next => simp
        | none =>
          cases sought with
          | nil => simp [follow?]
          | cons t sought => simp [follow?, child?]
      · simp [hs]

/-! ### The tree of a table -/

/-- The segments of a name are never none, so a class is put below the root and the class of the
root stays. -/
theorem graft_segmentsOf (c : Option ClassDoc) (tree : Namespace) (cls : ClassDoc) :
    graft cls (segmentsOf cls.name) (c, tree) = (c, insert tree cls) := by
  unfold insert
  cases hsegments : segmentsOf cls.name with
  | nil => exact absurd hsegments (List.splitOn_ne_nil '.' cls.name)
  | cons segment path => rfl

/-- Grafting classes one after the other puts them in one after the other. -/
theorem foldl_graft_segmentsOf (classes : List ClassDoc) (c : Option ClassDoc)
    (tree : Namespace) :
    classes.foldl (fun root cls => graft cls (segmentsOf cls.name) root) (c, tree)
      = (c, classes.foldl insert tree) := by
  induction classes generalizing tree with
  | nil => rfl
  | cons cls classes ih => rw [List.foldl_cons, graft_segmentsOf, ih, List.foldl_cons]

/-- Putting a class in by its name keeps the order. -/
theorem ordered_insert (h : tree.Ordered) (cls : ClassDoc) : (insert tree cls).Ordered := by
  unfold insert
  split
  · exact h
  · exact ordered_insertAt h

/-- Putting classes in one after the other keeps the order. -/
theorem ordered_foldl_insert (h : tree.Ordered) (classes : List ClassDoc) :
    (classes.foldl insert tree).Ordered := by
  induction classes generalizing tree with
  | nil => exact h
  | cons cls classes ih => exact ih (ordered_insert h cls)

/-- The paths of a tree with some classes put into it one after the other. -/
theorem isSome_follow?_foldl_insert (h : tree.Ordered) (classes : List ClassDoc)
    (sought : List Text) :
    (follow? (Option.none, classes.foldl insert tree) sought).isSome = true ↔
      (∃ cls ∈ classes, sought <+: segmentsOf cls.name) ∨
        (follow? (Option.none, tree) sought).isSome = true := by
  induction classes generalizing tree with
  | nil => simp
  | cons cls classes ih =>
    have hroot : Ordered (Prod.snd ((Option.none : Option ClassDoc), tree)) := h
    have hstep := isSome_follow?_graft hroot cls (segmentsOf cls.name) sought
    rw [graft_segmentsOf] at hstep
    rw [List.foldl_cons, ih (ordered_insert h cls), hstep, List.exists_mem_cons_iff]
    constructor
    · rintro (hlater | hfirst | hbefore)
      · exact .inl (.inr hlater)
      · exact .inl (.inl hfirst)
      · exact .inr hbefore
    · rintro ((hfirst | hlater) | hbefore)
      · exact .inr (.inl hfirst)
      · exact .inl hlater
      · exact .inr (.inr hbefore)

/-- The classes of such a tree, when no two of the classes have one name. -/
theorem classAt?_foldl_insert (h : tree.Ordered) {classes : List ClassDoc}
    (hnames : (classes.map ClassDoc.name).Nodup) (sought : List Text) :
    classAt? (Option.none, classes.foldl insert tree) sought
      = (classes.find? (segmentsOf ·.name = sought)).or
          (classAt? (Option.none, tree) sought) := by
  induction classes generalizing tree with
  | nil => rfl
  | cons cls classes ih =>
    rw [List.map_cons, List.nodup_cons] at hnames
    have hroot : Ordered (Prod.snd ((Option.none : Option ClassDoc), tree)) := h
    have hstep := classAt?_graft hroot cls (segmentsOf cls.name) sought
    rw [graft_segmentsOf] at hstep
    rw [List.foldl_cons, ih (ordered_insert h cls) hnames.2, hstep, List.find?_cons]
    by_cases hcls : segmentsOf cls.name = sought
    · have hlater : classes.find? (segmentsOf ·.name = sought) = Option.none := by
        rw [List.find?_eq_none]
        intro later hlater heq
        have hname : later.name = cls.name :=
          segmentsOf_injective ((of_decide_eq_true heq).trans hcls.symm)
        exact hnames.1 (List.mem_map.2 ⟨later, hlater, hname⟩)
      simp [hlater, hcls]
    · have hne : sought ≠ segmentsOf cls.name := fun heq => hcls heq.symm
      simp [hcls, hne]

/-- A path leads to a node of the tree of a table when it starts the segments of a class. -/
theorem isSome_follow?_ofTable (table : ClassTable) {sought : List Text} (hsought : sought ≠ []) :
    (follow? (Option.none, ofTable table) sought).isSome = true ↔
      ∃ key ∈ table.keys, sought <+: segmentsOf key := by
  have hempty : (follow? (Option.none, none) sought).isSome = false := by
    cases sought with
    | nil => exact absurd rfl hsought
    | cons s sought => rfl
  rw [ofTable, isSome_follow?_foldl_insert ordered_none, hempty]
  simp [SortedBy.keys]

/-- The class of a node is the one whose name leads to it. -/
theorem classAt?_ofTable (table : ClassTable) (name : Text) :
    classAt? (Option.none, ofTable table) (segmentsOf name) = table.get? name := by
  have hempty : classAt? (Option.none, none) (segmentsOf name) = Option.none := by
    cases segmentsOf name with
    | nil => rfl
    | cons s path => rfl
  rw [ofTable, classAt?_foldl_insert ordered_none table.nodup_keys, hempty, Option.or_none,
    SortedBy.get?]
  congr 1
  funext cls
  exact decide_eq_decide.2 segmentsOf_injective.eq_iff

/-- The tree of a table is the tree of the prefixes of its class names.  A name is found in it
exactly when its segments start those of a class; the node found stands for the class with just
this name, if there is one, and has one child, in increasing order, for each segment that
follows in the name of a class.  The root stands for no class, also when the classes are put
into it as into any other node. -/
theorem ofTable_holds_prefixes (table : ClassTable) (name : Text) :
    (((ofTable table).find? name).isSome = true ↔
        ∃ key ∈ table.keys, segmentsOf name <+: segmentsOf key) ∧
      (∀ cls below, (ofTable table).find? name = some (cls, below) →
        cls = table.get? name ∧
          (name ∈ table.keys → cls.map ClassDoc.name = some name) ∧
          (name ∉ table.keys → cls = Option.none) ∧
          below.heads.Pairwise (· < ·) ∧
          ∀ segment, segment ∈ below.heads ↔
            ∃ key ∈ table.keys, segmentsOf name ++ [segment] <+: segmentsOf key) ∧
      table.entries.foldl (fun root cls => graft cls (segmentsOf cls.name) root)
          (Option.none, none)
        = (Option.none, ofTable table) := by
  have hne : segmentsOf name ≠ [] := List.splitOn_ne_nil '.' name
  refine ⟨isSome_follow?_ofTable table hne, ?_, foldl_graft_segmentsOf _ _ _⟩
  intro cls below hfind
  have hcls : cls = table.get? name := by
    rw [← classAt?_ofTable, classAt?, ← find?, hfind]
    rfl
  have hroot : Ordered (Prod.snd ((Option.none : Option ClassDoc), ofTable table)) :=
    ordered_foldl_insert ordered_none table.entries
  have hordered : below.Ordered := ordered_of_follow? hroot hfind
  refine ⟨hcls, ?_, ?_, pairwise_heads hordered, ?_⟩
  · intro hname
    obtain ⟨c, hc⟩ := SortedBy.mem_keys_iff.1 hname
    rw [hcls, hc, Option.map_some, SortedBy.key_of_get? hc]
  · intro hname
    rw [hcls, SortedBy.get?_eq_none_iff]
    exact hname
  · intro segment
    have hchild := isSome_follow?_ofTable table
      (List.append_ne_nil_of_left_ne_nil hne [segment])
    rw [follow?_append, ← find?, hfind] at hchild
    rw [mem_heads_iff, ← hchild, Option.bind_some, follow?]
    cases below.child? segment with
    | none => rfl
    | some next => rfl

/-- A node that is a class and holds others, with an empty segment among them. -/
example :
    let named (name : String) : ClassDoc := { name := name.toList, doc := { kind := .cls } }
    ((ofTable (.ofList [named "A.B", named "A", named "A."])).find? "A".toList).map
        (fun found => (found.1.map ClassDoc.name, found.2.heads))
      = some (some "A".toList, [[], "B".toList]) := by
  decide

end Namespace

end ApiDocs
