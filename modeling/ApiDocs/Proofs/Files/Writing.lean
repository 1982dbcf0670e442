import ApiDocs.Files.Path
import ApiDocs.Files.Tree
import Mathlib.Data.List.Basic
/-!
# Writing files into a directory

Files with different names in one directory are written one after the other, and none of them
disturbs the others: the directory is still found, what can be written before can be written
after, and at the end each file holds what was written to it while everything else is as it was.

Main definitions:

- `WritesInto`: a name under which a file can be written into the directory at a path.
- `FileTree.putFiles`: a tree with files put into a directory.
- `AddsDirs`: a tree that differs from another one by new directories only.

Main results:

- `WritesInto.write_eq`, `writesInto_of_write`: writing a file into a directory.
- `WritesInto.put`: one file does not prevent another one.
- `get?_putFiles`, `get?_putFiles_of_ne`: what stands where afterwards.
- `WritesInto.locate`: the path of the directory leads to it.
-/

namespace ApiDocs

variable {here dir place : Location} {tree : FileTree} {output name : Text}

/-! ### What stands where -/

/-- Taking entries away at one place does not show at another. -/
theorem lookup_filter_ne (entries : List (Location × Entry)) {p q : Location} (h : q ≠ p) :
    (entries.filter (·.1 ≠ p)).lookup q = entries.lookup q := by
  induction entries with
  | nil => rfl
  | cons entry entries ih =>
    obtain ⟨place, found⟩ := entry
    by_cases hplace : place = p
    · subst hplace
      have hother : (q == place) = false := beq_false_of_ne h
      simp only [ne_eq, List.filter_cons, not_true, decide_false, Bool.false_eq_true, if_false,
        List.lookup_cons, hother]
      exact ih
    · simp only [ne_eq, List.filter_cons, hplace, not_false_eq_true, decide_true, if_true,
        List.lookup_cons] at ih ⊢
      rw [ih]

/-- An entry that is put into a tree stands at its place, and all others stay. -/
theorem FileTree.get?_put (tree : FileTree) (dir : Location) (name : Text) (entry : Entry)
    (p : Location) :
    (tree.put (dir ++ [name]) entry).get? p
      = if p = dir ++ [name] then some entry else tree.get? p := by
  have hplace : dir ++ [name] ≠ [] := by simp
  unfold FileTree.get? FileTree.put
  by_cases hroot : p = []
  · subst hroot
    rw [if_pos rfl, if_pos rfl, if_neg hplace.symm]
  · rw [if_neg hroot, if_neg hroot]
    by_cases hp : p = dir ++ [name]
    · rw [hp, if_pos rfl, List.lookup_cons_self]
    · rw [if_neg hp, List.lookup_cons, beq_false_of_ne hp]
      exact lookup_filter_ne tree.entries hp

/-- The tree `after` has what `before` has and new directories where nothing was. -/
def AddsDirs (before after : FileTree) : Prop :=
  ∀ place, after.get? place = before.get? place ∨
    before.get? place = none ∧ after.get? place = some .dir

theorem AddsDirs.refl (tree : FileTree) : AddsDirs tree tree :=
  fun _ => .inl rfl

/-- What adds directories to a tree with added directories adds directories. -/
theorem AddsDirs.trans {before between after : FileTree} (h : AddsDirs before between)
    (hlater : AddsDirs between after) : AddsDirs before after := fun place => by
  rcases h place with heq | ⟨hnone, hdir⟩
  · rw [← heq]
    exact hlater place
  · rcases hlater place with heq | ⟨hno, -⟩
    · exact .inr ⟨hnone, heq.trans hdir⟩
    · rw [hdir] at hno
      exact absurd hno (by simp)

/-! ### Following paths -/

/-- A computation that may fail gives a result when both of its parts do. -/
theorem bind_eq_ok_iff {ε α β : Type} {x : Except ε α} {f : α → Except ε β} {b : β} :
    (x >>= f) = .ok b ↔ ∃ a, x = .ok a ∧ f a = .ok b := by
  constructor
  · intro h
    cases x with
    | error e => cases h
    | ok a => exact ⟨a, rfl, h⟩
  · rintro ⟨a, rfl, h⟩
    exact h

/-- A place is a directory when the tree has one there. -/
theorem FileTree.checkDir_eq_ok_iff :
    tree.checkDir place = .ok () ↔ tree.get? place = some .dir := by
  unfold FileTree.checkDir
  split <;> simp_all

/-- A step is possible from a directory only, and nothing else in the tree matters. -/
theorem FileTree.step_eq_ok_iff {piece : Text} {next : Location} :
    tree.step place piece = .ok next ↔ tree.get? place = some .dir ∧
      (if piece = [] ∨ piece = ['.'] then .ok place
        else if piece = ['.', '.'] then .ok place.dropLast
        else if maxName < byteLength piece then .error .nameTooLong
        else .ok (place ++ [piece]) : Except FileError Location) = .ok next := by
  unfold FileTree.step
  rw [bind_eq_ok_iff, ← checkDir_eq_ok_iff]
  exact ⟨fun ⟨_, hdir, hnext⟩ => ⟨hdir, hnext⟩, fun ⟨hdir, hnext⟩ => ⟨(), hdir, hnext⟩⟩

/-- Where all directories stay, paths lead where they led. -/
theorem FileTree.walk_mono {after : FileTree}
    (hdirs : ∀ p, tree.get? p = some .dir → after.get? p = some .dir) {pieces : List Text}
    {start : Location} (h : tree.walk start pieces = .ok place) :
    after.walk start pieces = .ok place := by
  induction pieces generalizing start with
  | nil => exact h
  | cons piece pieces ih =>
    unfold FileTree.walk at h ih ⊢
    rw [List.foldlM_cons, bind_eq_ok_iff] at h ⊢
    obtain ⟨next, hstep, h⟩ := h
    rw [step_eq_ok_iff] at hstep
    exact ⟨next, step_eq_ok_iff.2 ⟨hdirs start hstep.1, hstep.2⟩, ih h⟩

/-- A walk along a path goes on from where its first pieces lead. -/
theorem FileTree.walk_append {start : Location} {pieces more : List Text}
    (h : tree.walk start pieces = .ok place) :
    tree.walk start (pieces ++ more) = tree.walk place more := by
  unfold FileTree.walk at h ⊢
  rw [List.foldlM_append, h]
  rfl

/-- A path can be used when it is not empty, not too long, and without the null character. -/
theorem FileTree.checkPath_eq_ok_iff {path : Text} :
    checkPath path = .ok () ↔ path ≠ [] ∧ '\x00' ∉ path ∧ byteLength path < maxPath := by
  unfold checkPath
  split_ifs <;> simp_all

theorem FileTree.byteLength_append (s t : Text) :
    byteLength (s ++ t) = byteLength s + byteLength t := by
  induction s with
  | nil => simp [byteLength]
  | cons c s ih =>
    unfold byteLength at ih ⊢
    rw [List.cons_append, List.foldr_cons, List.foldr_cons, ih, Nat.add_assoc]

/-! ### Files in the output directory -/

/-- The pieces that lead to a directory, without an empty one at the end. -/
def dirPieces (output : Text) : List Text :=
  if output.getLast? = some '/' then (Text.fields '/' output).dropLast else Text.fields '/' output

/-- Behind a slash at the end stands an empty piece. -/
theorem fields_concat (body : Text) :
    Text.fields '/' (body ++ ['/']) = Text.fields '/' body ++ [[]] :=
  List.splitOn_append_cons_self body []

theorem dirPieces_ne_nil (output : Text) : dirPieces output ≠ [] := by
  unfold dirPieces
  split
  next hlast =>
    obtain ⟨body, rfl⟩ := List.getLast?_eq_some_iff.1 hlast
    rw [fields_concat, List.dropLast_concat]
    exact List.splitOn_ne_nil '/' body
  next => exact List.splitOn_ne_nil '/' output

/-- The pieces of the path of a directory are those that lead to it, and maybe an empty one. -/
theorem fields_eq_dirPieces (output : Text) :
    Text.fields '/' output = dirPieces output ∨
      Text.fields '/' output = dirPieces output ++ [[]] := by
  unfold dirPieces
  split
  next hlast =>
    obtain ⟨body, rfl⟩ := List.getLast?_eq_some_iff.1 hlast
    rw [fields_concat, List.dropLast_concat]
    exact .inr rfl
  next => exact .inl rfl

/-- The path of a file in a directory: the name stands behind a slash. -/
theorem join_eq (hout : output ≠ []) (hname : '/' ∉ name) :
    Path.join output name
      = if output.getLast? = some '/' then output ++ name else output ++ '/' :: name := by
  have hstart : ¬ (name.head? = some '/' ∨ output = []) := fun h =>
    h.elim (fun hhead => hname (List.mem_of_mem_head? hhead)) hout
  unfold Path.join
  rw [if_neg hstart]

/-- The pieces of the path of a file in a directory: those of the directory, and its name. -/
theorem fields_join (hout : output ≠ []) (hname : '/' ∉ name) :
    Text.fields '/' (Path.join output name) = dirPieces output ++ [name] := by
  have hsingle : Text.fields '/' name = [name] := List.splitOn_eq_singleton hname
  rw [join_eq hout hname]
  unfold dirPieces
  split
  · next hlast =>
    obtain ⟨body, rfl⟩ := List.getLast?_eq_some_iff.1 hlast
    have hbody : ∀ rest, Text.fields '/' (body ++ '/' :: rest)
        = Text.fields '/' body ++ Text.fields '/' rest :=
      List.splitOn_append_cons_self body
    have hempty : Text.fields '/' [] = [[]] := rfl
    rw [List.append_assoc, List.singleton_append, hbody, hbody, hsingle, hempty,
      List.dropLast_concat]
  · rw [← hsingle]
    exact List.splitOn_append_cons_self output name

/-- A path in a directory starts with that of the directory. -/
theorem exists_join_eq (hout : output ≠ []) (hname : '/' ∉ name) :
    ∃ rest, Path.join output name = output ++ rest := by
  rw [join_eq hout hname]
  split
  · exact ⟨name, rfl⟩
  · exact ⟨'/' :: name, rfl⟩

theorem head?_join (hout : output ≠ []) (hname : '/' ∉ name) :
    (Path.join output name).head? = output.head? := by
  obtain ⟨rest, hrest⟩ := exists_join_eq hout hname
  rw [hrest, List.head?_append_of_ne_nil output hout]

/-- The names of entries lead to them, unless they are too long. -/
theorem FileTree.step_eq_ok_iff_of_isEntryName (hentry : isEntryName name = true)
    {next : Location} :
    tree.step dir name = .ok next ↔
      tree.get? dir = some .dir ∧ ¬ maxName < byteLength name ∧ next = dir ++ [name] := by
  have hname : ¬ (name = [] ∨ name = ['.']) ∧ name ≠ ['.', '.'] := by
    simpa [isEntryName, not_or, and_assoc] using hentry
  rw [step_eq_ok_iff, if_neg hname.1, if_neg hname.2]
  by_cases hlong : maxName < byteLength name
  · simp [hlong]
  · simp [hlong, eq_comm]

/-- The directory in which a path starts. -/
def startOf (here : Location) (path : Text) : Location :=
  if path.head? = some '/' then [] else here

/-- A path leads to an entry if it can be followed up to there. -/
theorem locate_eq_ok_iff {path : Text} {entry : Entry} :
    tree.locate here path = .ok (place, entry) ↔
      FileTree.checkPath path = .ok () ∧
        tree.walk (startOf here path) (Text.fields '/' path) = .ok place ∧
        tree.get? place = some entry := by
  unfold FileTree.locate
  simp only [bind_eq_ok_iff]
  constructor
  · rintro ⟨⟨⟩, hpath, found, hwalk, hfound⟩
    split at hfound
    · next found' hget =>
      obtain ⟨rfl, rfl⟩ := Prod.mk.inj (Except.ok.inj hfound)
      exact ⟨hpath, hwalk, hget⟩
    · cases hfound
  · rintro ⟨hpath, hwalk, hget⟩
    refine ⟨(), hpath, place, hwalk, ?_⟩
    rw [hget]

/-- The directory `dir`, to which the path `output` leads, can take a file with this name. -/
structure WritesInto (here : Location) (tree : FileTree) (output : Text) (dir : Location)
    (name : Text) : Prop where
  leads : tree.walk (startOf here output) (dirPieces output) = .ok dir
  isDir : tree.get? dir = some .dir
  path : FileTree.checkPath (Path.join output name) = .ok ()
  entry : FileTree.isEntryName name = true
  short : ¬ FileTree.maxName < FileTree.byteLength name
  free : tree.get? (dir ++ [name]) ≠ some .dir

/-- A name behind a path can be created when the path leads to a directory. -/
theorem locateNew_join (hout : output ≠ []) (hname : '/' ∉ name) {found : Location × Text} :
    tree.locateNew here (Path.join output name) = .ok found ↔
      FileTree.checkPath (Path.join output name) = .ok () ∧
        tree.walk (startOf here output) (dirPieces output) = .ok found.1 ∧
        tree.get? found.1 = some .dir ∧ found.2 = name := by
  have hpieces : (Text.fields '/' (Path.join output name)).dropLast = dirPieces output := by
    rw [fields_join hout hname, List.dropLast_concat]
  have hlast : (Text.fields '/' (Path.join output name)).getLast?.getD [] = name := by
    rw [fields_join hout hname, List.getLast?_concat]
    rfl
  have hstart : (if (Path.join output name).head? = some '/' then [] else here)
      = startOf here output := by
    rw [head?_join hout hname]
    rfl
  unfold FileTree.locateNew
  simp only [bind_eq_ok_iff, hpieces, hlast, hstart, Except.ok.injEq]
  constructor
  · rintro ⟨⟨⟩, hpath, dir, hwalk, ⟨⟩, hdir, rfl⟩
    exact ⟨hpath, hwalk, FileTree.checkDir_eq_ok_iff.1 hdir, rfl⟩
  · rintro ⟨hpath, hwalk, hdir, heq⟩
    exact ⟨(), hpath, found.1, hwalk, (), FileTree.checkDir_eq_ok_iff.2 hdir, by rw [← heq]⟩

/-- Writing a file into a directory puts it there. -/
theorem WritesInto.write_eq (hout : output ≠ []) (hname : '/' ∉ name)
    (h : WritesInto here tree output dir name) (content : Text) :
    tree.write here (Path.join output name) content
      = .ok (tree.put (dir ++ [name]) (.file (.text content))) := by
  have hlocate : tree.locateNew here (Path.join output name) = .ok (dir, name) :=
    (locateNew_join hout hname).2 ⟨h.path, h.leads, h.isDir, rfl⟩
  have hstep : tree.step dir name = .ok (dir ++ [name]) :=
    (FileTree.step_eq_ok_iff_of_isEntryName h.entry).2 ⟨h.isDir, h.short, rfl⟩
  have hfree := h.free
  unfold FileTree.write
  rw [bind_eq_ok_iff]
  refine ⟨(dir, name), hlocate, ?_⟩
  dsimp only
  rw [h.entry, if_neg (by decide), bind_eq_ok_iff]
  refine ⟨dir ++ [name], hstep, ?_⟩
  split
  · next hdir => exact absurd hdir hfree
  · rfl

/-- A file that is written goes into the directory to which the path leads. -/
theorem writesInto_of_write (hout : output ≠ []) (hname : '/' ∉ name) {content : Text}
    {after : FileTree} (h : tree.write here (Path.join output name) content = .ok after) :
    ∃ dir, WritesInto here tree output dir name := by
  unfold FileTree.write at h
  obtain ⟨⟨dir, found⟩, hlocate, hrest⟩ := bind_eq_ok_iff.1 h
  obtain ⟨hpath, hwalk, hdir, heq⟩ := (locateNew_join hout hname).1 hlocate
  dsimp only at hrest hwalk hdir heq
  subst heq
  split at hrest
  · cases hrest
  · next hentry =>
    have hentry : FileTree.isEntryName found = true := by simpa using hentry
    obtain ⟨place, hstep, hput⟩ := bind_eq_ok_iff.1 hrest
    obtain ⟨-, hshort, rfl⟩ := (FileTree.step_eq_ok_iff_of_isEntryName hentry).1 hstep
    refine ⟨dir, hwalk, hdir, hpath, hentry, hshort, fun hfree => ?_⟩
    rw [hfree] at hput
    cases hput

/-- The directory to which a path leads is the same for all files. -/
theorem WritesInto.dir_unique {dir' : Location} {other : Text}
    (h : WritesInto here tree output dir name) (hother : WritesInto here tree output dir' other) :
    dir = dir' := by
  have heq := h.leads.symm.trans hother.leads
  cases heq
  rfl

/-- A file that is put into the directory does not prevent another one. -/
theorem WritesInto.put {other : Text} (h : WritesInto here tree output dir name)
    (hother : WritesInto here tree output dir other) (content : Content) :
    WritesInto here (tree.put (dir ++ [other]) (.file content)) output dir name := by
  have hget := FileTree.get?_put tree dir other (.file content)
  have hdirs : ∀ p, tree.get? p = some .dir →
      (tree.put (dir ++ [other]) (.file content)).get? p = some .dir := fun p hp => by
    have hne : p ≠ dir ++ [other] := fun heq => hother.free (heq ▸ hp)
    rw [hget, if_neg hne, hp]
  refine ⟨FileTree.walk_mono hdirs h.leads, hdirs dir h.isDir, h.path, h.entry, h.short, ?_⟩
  rw [hget]
  split
  · simp
  · exact h.free

/-- The path of the directory leads to it. -/
theorem WritesInto.locate (hout : output ≠ []) (hname : '/' ∉ name)
    (h : WritesInto here tree output dir name) : tree.locate here output = .ok (dir, .dir) := by
  have hpath : FileTree.checkPath output = .ok () := by
    obtain ⟨rest, hrest⟩ := exists_join_eq hout hname
    have hfile := h.path
    rw [hrest, FileTree.checkPath_eq_ok_iff, FileTree.byteLength_append, List.mem_append,
      not_or] at hfile
    exact FileTree.checkPath_eq_ok_iff.2 ⟨hout, hfile.2.1.1, by omega⟩
  have hwalk : tree.walk (startOf here output) (Text.fields '/' output) = .ok dir := by
    rcases fields_eq_dirPieces output with hfields | hfields
    · rw [hfields]
      exact h.leads
    · -- the empty piece at the end stays where the others lead
      rw [hfields, FileTree.walk_append h.leads]
      unfold FileTree.walk
      rw [List.foldlM_cons, bind_eq_ok_iff]
      exact ⟨dir, FileTree.step_eq_ok_iff.2 ⟨h.isDir, rfl⟩, rfl⟩
  exact locate_eq_ok_iff.2 ⟨hpath, hwalk, h.isDir⟩

/-! ### Several files -/

/-- The tree with files put into a directory, each given by its name and its text. -/
def FileTree.putFiles (tree : FileTree) (dir : Location) (files : List (Text × Text)) : FileTree :=
  files.foldl (fun tree file => tree.put (dir ++ [file.1]) (.file (.text file.2))) tree

/-- Files that are put into the directory do not prevent another one. -/
theorem WritesInto.putFiles {files : List (Text × Text)}
    (h : WritesInto here tree output dir name)
    (hfiles : ∀ file ∈ files, WritesInto here tree output dir file.1) :
    WritesInto here (tree.putFiles dir files) output dir name := by
  induction files generalizing tree with
  | nil => exact h
  | cons file files ih =>
    obtain ⟨hfile, hfiles⟩ := List.forall_mem_cons.1 hfiles
    exact ih (h.put hfile _) fun later hlater => (hfiles later hlater).put hfile _

/-- Files that are put into a directory change no other place. -/
theorem FileTree.get?_putFiles_of_ne {files : List (Text × Text)}
    (h : ∀ file ∈ files, place ≠ dir ++ [file.1]) :
    (tree.putFiles dir files).get? place = tree.get? place := by
  induction files generalizing tree with
  | nil => rfl
  | cons file files ih =>
    rw [List.forall_mem_cons] at h
    have hput := get?_put tree dir file.1 (.file (.text file.2)) place
    rw [if_neg h.1] at hput
    exact (ih h.2).trans hput

/-- Files with different names hold at the end what was put into them. -/
theorem FileTree.get?_putFiles {files : List (Text × Text)} (hnames : (files.map Prod.fst).Nodup)
    {file : Text × Text} (h : file ∈ files) :
    (tree.putFiles dir files).get? (dir ++ [file.1]) = some (.file (.text file.2)) := by
  induction files generalizing tree with
  | nil => simp at h
  | cons first files ih =>
    rw [List.map_cons, List.nodup_cons] at hnames
    rcases List.mem_cons.1 h with rfl | h
    · have hlater : ∀ later ∈ files, dir ++ [file.1] ≠ dir ++ [later.1] := fun later hmem heq =>
        hnames.1 (List.mem_map.2 ⟨later, hmem, by simpa using heq.symm⟩)
      have hput := get?_put tree dir file.1 (.file (.text file.2)) (dir ++ [file.1])
      rw [if_pos rfl] at hput
      exact (get?_putFiles_of_ne hlater).trans hput
    · exact ih hnames.2 h

end ApiDocs
