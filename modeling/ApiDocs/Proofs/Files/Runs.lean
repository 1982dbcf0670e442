import ApiDocs.Command.Run
import ApiDocs.Files.Tree
import Mathlib.Data.List.Forall2
/-!
# Runs on a tree of files

A computation of the command, run on a tree of files in memory, gives a result and leaves a
tree.  Neither depends on what has been reported before, so runs are composed by their results
and trees alone.  A computation that only reads leaves the tree as it is.

Main definitions:

- `RunM`: computations of the command on a session.
- `Runs`: the result of a computation and the tree that it leaves.
- `ReadsOnly`: a computation that leaves the tree.
- `Gives`: a computation that leaves the tree, with what is known of its value.

Main results:

- `Runs.bind`, `Runs.bind_error`: computations one after the other.
- `Runs.unique`: a computation has one result.
- `ReadsOnly.mapM`, `ReadsOnly.filterM`: the same computation for each entry of a list.
- `Gives.bind`, `Gives.mapM`, `Gives.filterM`: what is known of composed values.
-/

namespace ApiDocs

/-- The computations of the command on a session. -/
abbrev RunM := ExceptT Failure SessionM

variable {α β : Type} {here : Location} {before between after tree : FileTree}

/-- From the directory `here` of the tree `before`, the computation gives `result` and leaves
the tree `after`, whatever has been reported. -/
def Runs (here : Location) (before : FileTree) (x : RunM α) (result : Except Failure α)
    (after : FileTree) : Prop :=
  ∀ records, ∃ later, x.run.run ⟨before, here, records⟩ = (result, ⟨after, here, later⟩)

namespace Runs

/-- A value is given, and nothing changes. -/
theorem pure (a : α) : Runs here tree (Pure.pure a) (.ok a) tree :=
  fun records => ⟨records, rfl⟩

/-- A failure changes nothing. -/
theorem throw (e : Failure) : Runs here tree (MonadExcept.throw e : RunM α) (.error e) tree :=
  fun records => ⟨records, rfl⟩

/-- A result that needs no files. -/
theorem lift {x : Except Failure α} {result : Except Failure α} (h : x = result) :
    Runs here tree (liftM x : RunM α) result tree := by
  subst h
  cases x with
  | ok a => exact pure a
  | error e => exact throw e

/-- The second computation starts from what the first one leaves. -/
theorem bind {x : RunM α} {f : α → RunM β} {a : α} {result : Except Failure β}
    (hx : Runs here before x (.ok a) between) (hf : Runs here between (f a) result after) :
    Runs here before (x >>= f) result after := fun records => by
  obtain ⟨middle, hx⟩ := hx records
  obtain ⟨later, hf⟩ := hf middle
  refine ⟨later, ?_⟩
  rw [ExceptT.run_bind, StateT.run_bind, hx]
  exact hf

/-- A failure is the end. -/
theorem bind_error {x : RunM α} {e : Failure} (hx : Runs here before x (.error e) after)
    (f : α → RunM β) : Runs here before (x >>= f) (.error e) after := fun records => by
  obtain ⟨middle, hx⟩ := hx records
  refine ⟨middle, ?_⟩
  rw [ExceptT.run_bind, StateT.run_bind, hx]
  rfl

/-- A record changes no file. -/
theorem note (record : Record) : Runs here tree (Host.note record) (.ok ()) tree :=
  fun records => ⟨records ++ [record], rfl⟩

/-- A list of records changes no file. -/
theorem notes {γ : Type} (record : γ → Record) (l : List γ) :
    Runs here tree (l.forM fun g => Host.note (record g)) (.ok ()) tree := by
  induction l with
  | nil => exact pure ()
  | cons g l ih => exact (note (record g)).bind ih

/-- The kind of a place is that of what its path leads to. -/
theorem kind (path : Text) :
    Runs here tree (Host.kind? path) (.ok ((tree.locate here path).toOption.map (·.2.kind))) tree :=
  fun records => ⟨records, rfl⟩

/-- A directory is listed as the tree has it. -/
theorem list (path : Text) : Runs here tree (Host.list path) (.ok (tree.list here path)) tree :=
  fun records => ⟨records, rfl⟩

/-- A file is read as the tree has it. -/
theorem read (path : Text) : Runs here tree (Host.read path) (.ok (tree.read here path)) tree :=
  fun records => ⟨records, rfl⟩

/-- An operation that succeeds leaves its tree. -/
theorem update {op : FileTree → Location → Except FileError FileTree}
    (h : op before here = .ok after) :
    Runs here before (ExceptT.lift (Session.update op)) (.ok (.ok ())) after := fun records => by
  refine ⟨records, ?_⟩
  have hupdate : (Session.update op).run ⟨before, here, records⟩
      = (.ok (), ⟨after, here, records⟩) := by
    simp only [Session.update, h, StateT.run_bind, StateT.run_get, pure_bind]
    rfl
  rw [ExceptT.run_lift, StateT.run_map, hupdate]
  rfl

/-- An operation that fails leaves the tree as it was. -/
theorem update_error {op : FileTree → Location → Except FileError FileTree} {e : FileError}
    (h : op tree here = .error e) :
    Runs here tree (ExceptT.lift (Session.update op)) (.ok (.error e)) tree := fun records => by
  refine ⟨records, ?_⟩
  have hupdate : (Session.update op).run ⟨tree, here, records⟩
      = (.error e, ⟨tree, here, records⟩) := by
    simp only [Session.update, h, StateT.run_bind, StateT.run_get, pure_bind]
    rfl
  rw [ExceptT.run_lift, StateT.run_map, hupdate]
  rfl

/-- A write that the tree accepts leaves the tree with the file. -/
theorem write {path content : Text} (h : before.write here path content = .ok after) :
    Runs here before (Host.write path content) (.ok (.ok ())) after :=
  update h

/-- A computation has one result. -/
theorem unique {x : RunM α} {result other : Except Failure α} {after' : FileTree}
    (h : Runs here before x result after) (h' : Runs here before x other after') :
    result = other := by
  obtain ⟨later, hrun⟩ := h []
  obtain ⟨later', hrun'⟩ := h' []
  exact congrArg Prod.fst (hrun.symm.trans hrun')

end Runs

/-! ### Computations that only read -/

/-- In these files the computation changes nothing. -/
def ReadsOnly (here : Location) (tree : FileTree) (x : RunM α) : Prop :=
  ∃ result, Runs here tree x result tree

namespace ReadsOnly

theorem pure (a : α) : ReadsOnly here tree (Pure.pure a) :=
  ⟨_, .pure a⟩

theorem throw (e : Failure) : ReadsOnly here tree (MonadExcept.throw e : RunM α) :=
  ⟨_, .throw e⟩

/-- When both computations only read, so does the one behind the other. -/
theorem bind {x : RunM α} {f : α → RunM β} (hx : ReadsOnly here tree x)
    (hf : ∀ a, ReadsOnly here tree (f a)) : ReadsOnly here tree (x >>= f) := by
  obtain ⟨result, hx⟩ := hx
  cases result with
  | error e => exact ⟨_, hx.bind_error f⟩
  | ok a =>
    obtain ⟨result, hf⟩ := hf a
    exact ⟨result, hx.bind hf⟩

theorem note (record : Record) : ReadsOnly here tree (Host.note record) :=
  ⟨_, .note record⟩

theorem kind (path : Text) : ReadsOnly here tree (Host.kind? path) :=
  ⟨_, .kind path⟩

theorem list (path : Text) : ReadsOnly here tree (Host.list path) :=
  ⟨_, .list path⟩

/-- Asking for a file only reads. -/
theorem isFile (path : Text) : ReadsOnly here tree (Host.isFile path) :=
  (kind path).bind fun _ => pure _

/-- Asking for a directory only reads. -/
theorem isDir (path : Text) : ReadsOnly here tree (Host.isDir path) :=
  (kind path).bind fun _ => pure _

/-- A list of computations that only read only reads. -/
theorem mapM {γ : Type} {f : γ → RunM α} {l : List γ} (h : ∀ g ∈ l, ReadsOnly here tree (f g)) :
    ReadsOnly here tree (l.mapM f) := by
  induction l with
  | nil => exact pure []
  | cons g l ih =>
    obtain ⟨hg, hl⟩ := List.forall_mem_cons.1 h
    rw [List.mapM_cons]
    exact hg.bind fun a => (ih hl).bind fun rest => pure (a :: rest)

/-- Selecting by computations that only read only reads. -/
theorem filterM {γ : Type} {p : γ → RunM Bool} (h : ∀ g, ReadsOnly here tree (p g))
    (l : List γ) : ReadsOnly here tree (l.filterM p) := by
  have hfilter : ∀ kept, ReadsOnly here tree (l.filterAuxM p kept) := by
    induction l with
    | nil => exact fun kept => pure kept
    | cons g l ih => exact fun kept => (h g).bind fun b => ih _
  exact (hfilter []).bind fun kept => pure kept.reverse

end ReadsOnly

/-- What a computation that only reads gives from one session, it gives from every session with
these files. -/
theorem ReadsOnly.runs {x : RunM α} {result : Except Failure α} {records : List Record}
    (hx : ReadsOnly here tree x) (h : (x.run.run ⟨tree, here, records⟩).1 = result) :
    Runs here tree x result tree := by
  obtain ⟨found, hfound⟩ := hx
  obtain ⟨later, hrun⟩ := hfound records
  rw [hrun] at h
  exact h ▸ hfound

/-! ### What a computation gives -/

/-- In these files the computation changes nothing, and its value, if it has one, is as `post`
says. -/
def Gives (here : Location) (tree : FileTree) (x : RunM α) (post : α → Prop) : Prop :=
  ∃ result, Runs here tree x result tree ∧ ∀ a, result = .ok a → post a

/-- A computation that only reads gives the value that it runs to. -/
theorem ReadsOnly.gives {x : RunM α} (h : ReadsOnly here tree x) :
    Gives here tree x fun a => Runs here tree x (.ok a) tree := by
  obtain ⟨result, hresult⟩ := h
  refine ⟨result, hresult, fun a ha => ?_⟩
  rwa [ha] at hresult

/-- What stands in the second of two related lists is related to an entry of the first. -/
theorem exists_of_mem_forall₂ {rel : α → β → Prop} {l : List α} {found : List β}
    (h : List.Forall₂ rel l found) {b : β} (hb : b ∈ found) : ∃ a ∈ l, rel a b := by
  induction h with
  | nil => cases hb
  | cons hrel _ ih =>
    rcases List.mem_cons.1 hb with rfl | hb
    · exact ⟨_, List.mem_cons_self, hrel⟩
    · obtain ⟨a, ha, hab⟩ := ih hb
      exact ⟨a, List.mem_cons_of_mem _ ha, hab⟩

namespace Gives

variable {post : α → Prop}

/-- What is known of the value holds of the one that the computation runs to. -/
theorem of_runs {x : RunM α} {a : α} (h : Gives here tree x post)
    (ha : Runs here tree x (.ok a) after) : post a := by
  obtain ⟨result, hresult, hpost⟩ := h
  exact hpost a (hresult.unique ha)

/-- A computation that is known to give a value gives what holds of it. -/
theorem ok {x : RunM α} {a : α} (h : Runs here tree x (.ok a) tree) (hpost : post a) :
    Gives here tree x post :=
  ⟨.ok a, h, fun _ heq => Except.ok.inj heq ▸ hpost⟩

theorem pure {a : α} (h : post a) : Gives here tree (Pure.pure a) post :=
  ok (.pure a) h

/-- A failure gives nothing, so it gives anything. -/
theorem throw (e : Failure) : Gives here tree (MonadExcept.throw e : RunM α) post :=
  ⟨.error e, .throw e, fun _ h => by cases h⟩

theorem kind (path : Text) :
    Gives here tree (Host.kind? path) (· = (tree.locate here path).toOption.map (·.2.kind)) :=
  ok (.kind path) rfl

theorem list (path : Text) : Gives here tree (Host.list path) (· = tree.list here path) :=
  ok (.list path) rfl

/-- What a computation gives may be weakened. -/
theorem imp {x : RunM α} {weaker : α → Prop} (h : Gives here tree x post)
    (hpost : ∀ a, post a → weaker a) : Gives here tree x weaker := by
  obtain ⟨result, hresult, hx⟩ := h
  exact ⟨result, hresult, fun a ha => hpost a (hx a ha)⟩

/-- The second computation may count on what is known of the first value. -/
theorem bind {x : RunM α} {f : α → RunM β} {later : β → Prop} (hx : Gives here tree x post)
    (hf : ∀ a, post a → Gives here tree (f a) later) : Gives here tree (x >>= f) later := by
  obtain ⟨result, hresult, hpost⟩ := hx
  cases result with
  | error e => exact ⟨.error e, hresult.bind_error f, fun _ h => by cases h⟩
  | ok a =>
    obtain ⟨found, hfound, hlater⟩ := hf a (hpost a rfl)
    exact ⟨found, hresult.bind hfound, hlater⟩

/-- A list that the computation gives, behind one that is there. -/
theorem append {x : RunM (List β)} {own : List β} {fits : β → Prop} (hown : ∀ b ∈ own, fits b)
    (hx : Gives here tree x fun found => ∀ b ∈ found, fits b) :
    Gives here tree (do return own ++ (← x)) fun found => ∀ b ∈ found, fits b :=
  hx.bind fun _ hfound => pure (List.forall_mem_append.2 ⟨hown, hfound⟩)

/-- The values for the entries of a list, one by one. -/
theorem mapM {γ : Type} {f : γ → RunM α} {l : List γ} {rel : γ → α → Prop}
    (h : ∀ g ∈ l, Gives here tree (f g) (rel g)) :
    Gives here tree (l.mapM f) (List.Forall₂ rel l) := by
  induction l with
  | nil => exact pure .nil
  | cons g l ih =>
    obtain ⟨hg, hl⟩ := List.forall_mem_cons.1 h
    rw [List.mapM_cons]
    exact hg.bind fun a ha => (ih hl).bind fun rest hrest => pure (.cons ha hrest)

/-- Each of the values comes from an entry of the list. -/
theorem mapM_mem {γ : Type} {f : γ → RunM α} {l : List γ} {rel : γ → α → Prop}
    (h : ∀ g ∈ l, Gives here tree (f g) (rel g)) :
    Gives here tree (l.mapM f) fun found => ∀ a ∈ found, ∃ g ∈ l, rel g a :=
  (mapM h).imp fun _ hfound _ ha => exists_of_mem_forall₂ hfound ha

/-- The values together, when each of them is a list. -/
theorem mapM_flatten {γ : Type} {f : γ → RunM (List β)} {l : List γ} {fits : β → Prop}
    (h : ∀ g ∈ l, Gives here tree (f g) fun found => ∀ b ∈ found, fits b) :
    Gives here tree (l.mapM f) fun found => ∀ b ∈ found.flatten, fits b := by
  refine (mapM_mem h).imp fun found hfound b hb => ?_
  obtain ⟨part, hpart, hb⟩ := List.mem_flatten.1 hb
  obtain ⟨-, -, hfits⟩ := hfound part hpart
  exact hfits b hb

/-- The entries that pass a test. -/
theorem filterM {γ : Type} {p : γ → RunM Bool} {passed : γ → Prop}
    (h : ∀ g, Gives here tree (p g) fun b => b = true → passed g) (l : List γ) :
    Gives here tree (l.filterM p) fun kept => ∀ g ∈ kept, g ∈ l ∧ passed g := by
  have hfilter : ∀ (rest kept : List γ), (∀ g ∈ rest, g ∈ l) → (∀ g ∈ kept, g ∈ l ∧ passed g) →
      Gives here tree (rest.filterAuxM p kept) fun kept => ∀ g ∈ kept, g ∈ l ∧ passed g := by
    intro rest
    induction rest with
    | nil => exact fun kept _ hkept => pure hkept
    | cons g rest ih =>
      intro kept hrest hkept
      rw [List.forall_mem_cons] at hrest
      refine (h g).bind fun b hb => ih _ hrest.2 ?_
      cases b with
      | false => exact hkept
      | true => exact List.forall_mem_cons.2 ⟨⟨hrest.1, hb rfl⟩, hkept⟩
  refine (hfilter l [] (fun _ hg => hg) (by simp)).bind fun kept hkept => pure ?_
  simpa using hkept

end Gives

end ApiDocs
