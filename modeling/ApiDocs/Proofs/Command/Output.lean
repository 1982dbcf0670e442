import ApiDocs.Proofs.Class.Inheritance
import ApiDocs.Proofs.Files.Runs
import ApiDocs.Proofs.Files.Writing
/-!
# What a run writes

Before a run writes its first file it makes the output directory, which adds directories where
nothing was and changes nothing else.  The pages fail together when one class cannot be
resolved; otherwise each becomes a file of its own.

Main definitions:

- `MakesDirs`: a computation that does nothing to the files but make directories.
- `pageName`, `pageText`: the name and the text of the page of a class.

Main results:

- `makesDirs_makeOutput`: making the output directory.
- `makePages_eq_ok`, `makePages_eq_error`: when the pages can be made.
- `runs_writePages`: what the tree holds after the pages have been written.
-/

namespace ApiDocs

open Host

variable {here dir : Location} {before after tree : FileTree} {output : Text}

/-! ### Directories -/

/-- A directory is made where nothing was. -/
theorem addsDirs_of_makeDir {path : Text} (h : before.makeDir here path = .ok after) :
    AddsDirs before after := by
  unfold FileTree.makeDir at h
  obtain ⟨-, -, h⟩ := bind_eq_ok_iff.1 h
  dsimp only at h
  split at h
  · cases h
  · obtain ⟨⟨dir, name⟩, -, h⟩ := bind_eq_ok_iff.1 h
    dsimp only at h
    split at h
    · cases h
    · next hentry =>
      obtain ⟨place, hstep, h⟩ := bind_eq_ok_iff.1 h
      have hentry : FileTree.isEntryName name = true := by simpa using hentry
      obtain ⟨-, -, rfl⟩ := (FileTree.step_eq_ok_iff_of_isEntryName hentry).1 hstep
      split at h
      · cases h
      · next hnone =>
        cases h
        intro p
        rw [FileTree.get?_put]
        split
        · next heq => exact .inr ⟨heq ▸ hnone, rfl⟩
        · exact .inl rfl

/-- The computation ends, and all it does to the files is to make directories. -/
def MakesDirs {α : Type} (here : Location) (before : FileTree) (x : RunM α) : Prop :=
  ∃ result after, Runs here before x result after ∧ AddsDirs before after

namespace MakesDirs

variable {α β : Type}

/-- A computation that only reads makes no directory. -/
theorem of_readsOnly {x : RunM α} (h : ReadsOnly here tree x) : MakesDirs here tree x := by
  obtain ⟨result, h⟩ := h
  exact ⟨result, tree, h, .refl tree⟩

theorem pure (a : α) : MakesDirs here tree (Pure.pure a) :=
  of_readsOnly (.pure a)

/-- The directories of two computations are those that each of them makes. -/
theorem bind {x : RunM α} {f : α → RunM β} (hx : MakesDirs here before x)
    (hf : ∀ a tree, MakesDirs here tree (f a)) : MakesDirs here before (x >>= f) := by
  obtain ⟨result, between, hx, hadds⟩ := hx
  cases result with
  | error e => exact ⟨_, between, hx.bind_error f, hadds⟩
  | ok a =>
    obtain ⟨result, after, hf, hlater⟩ := hf a between
    exact ⟨result, after, hx.bind hf, hadds.trans hlater⟩

/-- Making a directory adds one, or fails and adds none. -/
theorem makeDir (path : Text) : MakesDirs here before (Host.makeDir path) := by
  cases hmake : before.makeDir here path with
  | ok after => exact ⟨_, after, .update hmake, addsDirs_of_makeDir hmake⟩
  | error e => exact ⟨_, before, .update_error hmake, .refl before⟩

/-- Making sure of a directory adds one at most. -/
theorem ensureDir (path : Text) :
    MakesDirs here before (ensureDir path : RunM (Except FileError Unit)) := by
  refine (makeDir path).bind fun made tree => ?_
  cases made with
  | ok u => exact .pure _
  | error e =>
    refine of_readsOnly ((ReadsOnly.isDir path).bind fun found => ?_)
    split
    · exact .pure _
    · exact .pure _

/-- Making a directory with those above it adds directories only, however deep it goes. -/
theorem makeDirsWithin (depth : Nat) (path : Text) :
    MakesDirs here before (makeDirsWithin depth path : RunM (Except FileError Unit)) := by
  induction depth generalizing path before with
  | zero =>
    unfold ApiDocs.makeDirsWithin
    refine (ensureDir path).bind fun made tree => ?_
    split
    · exact pure _
    · exact pure _
  | succ depth ih =>
    unfold ApiDocs.makeDirsWithin
    refine (ensureDir path).bind fun made tree => ?_
    split
    · rcases Path.parent? path with _ | ⟨_ | ⟨c, parent⟩⟩
      · exact pure _
      · exact ensureDir path
      · refine (ih (c :: parent)).bind fun made tree => ?_
        cases made with
        | ok u => exact ensureDir path
        | error e => exact pure _
    · exact pure _

end MakesDirs

/-- Making the output directory does nothing to the files but make directories. -/
theorem makesDirs_makeOutput (output : Text) :
    MakesDirs here before (makeOutput output : RunM Unit) := by
  unfold makeOutput
  refine (MakesDirs.of_readsOnly (.kind output)).bind fun found tree => ?_
  extract_lets make
  have hmake : ∀ u tree, MakesDirs here tree (make u) := fun u tree => by
    refine (MakesDirs.makeDirsWithin _ output).bind fun made tree => ?_
    cases made with
    | ok u => exact .pure ()
    | error e => exact .of_readsOnly (.throw _)
  split
  · exact (MakesDirs.of_readsOnly (.note _)).bind hmake
  · exact hmake () tree

/-- A directory needs a path. -/
theorem makeOutput_nil (s : Session) :
    ((makeOutput [] : RunM Unit).run.run s).1 = .error (.outputNotMade [] .notFound) := by
  unfold makeOutput makeDirs makeDirsWithin
  rfl

/-! ### Pages -/

/-- The name of the page file of a class. -/
def pageName (format : Format) (name : Text) : Text :=
  name ++ '.' :: format.name

/-- The text of the page of a class that can be resolved. -/
def pageText (req : Request) (table : ClassTable) (name : Text) : Text :=
  match Page.ofClass table name req.showPrivate with
  | .ok (page, _) => req.format.render page
  | .error _ => []

/-- The reports on the ancestors of a class that can be resolved. -/
def pageReports (req : Request) (table : ClassTable) (name : Text) : List Report :=
  match Page.ofClass table name req.showPrivate with
  | .ok (_, reports) => reports
  | .error _ => []

/-- Where no step fails, all results are collected. -/
theorem mapM_of_forall_ok {ε α β : Type} {f : α → Except ε β} {g : α → β} {l : List α}
    (h : ∀ a ∈ l, f a = .ok (g a)) : l.mapM f = .ok (l.map g) := by
  induction l with
  | nil => rfl
  | cons a l ih =>
    obtain ⟨ha, hl⟩ := List.forall_mem_cons.1 h
    rw [List.mapM_cons, ha, ih hl]
    rfl

/-- Where some step fails, the whole does. -/
theorem mapM_of_exists_error {ε α β : Type} {f : α → Except ε β} {l : List α}
    (h : ∃ a ∈ l, ∃ e, f a = .error e) : ∃ e, l.mapM f = .error e := by
  induction l with
  | nil => simp at h
  | cons a l ih =>
    obtain ⟨bad, hbad, e, he⟩ := h
    rw [List.mapM_cons]
    cases ha : f a with
    | error e => exact ⟨e, rfl⟩
    | ok b =>
      have hin : bad ∈ l := by
        rcases List.mem_cons.1 hbad with rfl | hin
        · rw [ha] at he
          cases he
        · exact hin
      obtain ⟨e, hl⟩ := ih ⟨bad, hin, e, he⟩
      exact ⟨e, by rw [hl]; rfl⟩

/-- The class of a table has a page unless the way up from it comes back to a class. -/
theorem ofClass_eq_ok {table : ClassTable} {name : Text} (hname : name ∈ table.keys)
    (h : ¬ Revisits table name) (showPrivate : Bool) :
    ∃ page reports, Page.ofClass table name showPrivate = .ok (page, reports) := by
  obtain ⟨cls, hcls⟩ := SortedBy.mem_keys_iff.1 hname
  rcases ancestry_decides hcls with ⟨-, -, -, hrevisits⟩ | ⟨found, hfound, -⟩
  · exact absurd hrevisits h
  · exact ⟨_, _, by rw [Page.ofClass, hfound]; rfl⟩

/-- No page is made of a class whose way up comes back to a class. -/
theorem ofClass_eq_error {table : ClassTable} {name : Text} (h : Revisits table name)
    (showPrivate : Bool) : ∃ fault, Page.ofClass table name showPrivate = .error fault := by
  obtain ⟨chain, hchain⟩ := ancestry_cycle_iff.2 h
  exact ⟨.cycle chain, by rw [Page.ofClass, hchain]; rfl⟩

/-- Without a way that comes back to a class, all pages are made, in the order of the names. -/
theorem makePages_eq_ok {req : Request} {table : ClassTable}
    (h : ∀ name ∈ table.keys, ¬ Revisits table name) :
    makePages req table
      = .ok (table.keys.map fun name =>
          ⟨Path.join req.output (pageName req.format name), pageText req table name⟩,
          firstBy id (table.keys.flatMap (pageReports req table))) := by
  have hpages : table.keys.mapM (makePage req table) = .ok (table.keys.map fun name =>
      (⟨Path.join req.output (pageName req.format name), pageText req table name⟩,
        pageReports req table name)) := by
    refine mapM_of_forall_ok fun name hname => ?_
    obtain ⟨page, reports, hpage⟩ := ofClass_eq_ok hname (h name hname) req.showPrivate
    simp only [makePage, pageText, pageReports, hpage]
    rfl
  unfold makePages
  rw [bind_eq_ok_iff]
  refine ⟨_, hpages, ?_⟩
  rw [List.map_map, List.flatMap_map]
  rfl

/-- One class whose way up comes back to a class makes all pages fail. -/
theorem makePages_eq_error {req : Request} {table : ClassTable}
    (h : ∃ name ∈ table.keys, Revisits table name) :
    ∃ failure, makePages req table = .error failure := by
  obtain ⟨name, hname, hrevisits⟩ := h
  obtain ⟨fault, hfault⟩ := ofClass_eq_error hrevisits req.showPrivate
  have hpage : makePage req table name = .error (.unresolved name fault) := by
    rw [makePage, hfault]
  obtain ⟨failure, hfailure⟩ := mapM_of_exists_error ⟨name, hname, _, hpage⟩
  exact ⟨failure, by rw [makePages, hfailure]; rfl⟩

/-! ### Files -/

/-- A file that the tree accepts is written. -/
theorem runs_writeOutput {path content : Text} (h : before.write here path content = .ok after) :
    Runs here before (writeOutput ⟨path, content⟩) (.ok ()) after :=
  (Runs.write h).bind (.pure ())

/-- Pages with different names are written one after the other. -/
theorem runs_writePages (hout : output ≠ []) {files : List (Text × Text)}
    (hnames : ∀ file ∈ files, '/' ∉ file.1)
    (hinto : ∀ file ∈ files, WritesInto here before output dir file.1) :
    Runs here before
      ((files.map fun file => ⟨Path.join output file.1, file.2⟩ : List OutputFile).forM writePage)
      (.ok ()) (before.putFiles dir files) := by
  induction files generalizing before with
  | nil => exact .pure ()
  | cons file files ih =>
    obtain ⟨hname, hnames⟩ := List.forall_mem_cons.1 hnames
    obtain ⟨hfile, hfiles⟩ := List.forall_mem_cons.1 hinto
    have hwrite := runs_writeOutput (hfile.write_eq hout hname file.2)
    exact ((Runs.note _).bind hwrite).bind
      (ih hnames fun later hlater => (hfiles later hlater).put hfile _)

end ApiDocs
