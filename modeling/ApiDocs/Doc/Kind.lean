import ApiDocs.Text.Basic
/-!
# Kinds of documented things

A doc comment documents a class, one of its members, or (inside another comment) a
parameter.  Members come in four kinds, and every page lists them in one order.

Main definitions:

- `MemberKind`, `Kind`: what a node documents.
- `MemberKind.all`: the kinds of members in page order.
- `Members`: one list for each kind of member.
-/

namespace ApiDocs

/-- The kinds of members of a class. -/
inductive MemberKind
  | cfg
  | property
  | method
  | event
  deriving DecidableEq, Repr

/-- What a node documents. -/
inductive Kind
  | cls
  | member (kind : MemberKind)
  | param
  deriving DecidableEq, Repr

namespace MemberKind

/-- The kinds of members in the order in which pages list them. -/
def all : List MemberKind :=
  [.cfg, .property, .method, .event]

/-- The word for a kind of member. -/
def name : MemberKind → Text
  | .cfg => "cfg".toList
  | .property => "property".toList
  | .method => "method".toList
  | .event => "event".toList

/-- Every kind of member is listed. -/
theorem mem_all (k : MemberKind) : k ∈ all := by
  cases k <;> simp [all]

end MemberKind

namespace Kind

/-- The word for a kind. -/
def name : Kind → Text
  | .cls => "class".toList
  | .member k => k.name
  | .param => "param".toList

/-- Kinds have different words. -/
theorem eq_of_name_eq {k l : Kind} (h : k.name = l.name) : k = l := by
  rcases k with _ | (_ | _ | _ | _) | _ <;> rcases l with _ | (_ | _ | _ | _) | _ <;>
    first | rfl | exact absurd h (by decide)

/-- Whether things of this kind are called, and so have parameters. -/
def isCalled (kind : Kind) : Bool :=
  kind = .member .method || kind = .member .event

end Kind

/-- One list for each kind of member. -/
@[ext]
structure Members (α : Type) where
  cfgs : List α := []
  properties : List α := []
  methods : List α := []
  events : List α := []
  deriving DecidableEq, Repr

namespace Members

variable {α β : Type}

/-- The list of a kind. -/
def ofKind (ms : Members α) : MemberKind → List α
  | .cfg => ms.cfgs
  | .property => ms.properties
  | .method => ms.methods
  | .event => ms.events

/-- The lists that a function gives for the kinds. -/
def ofFn (list : MemberKind → List α) : Members α :=
  ⟨list .cfg, list .property, list .method, list .event⟩

/-- All entries in page order. -/
def all (ms : Members α) : List α :=
  MemberKind.all.flatMap ms.ofKind

/-- The same lists with each entry changed by `f`. -/
def map (f : α → β) (ms : Members α) : Members β :=
  ofFn fun k => (ms.ofKind k).map f

@[simp]
theorem ofKind_ofFn (list : MemberKind → List α) (k : MemberKind) :
    (ofFn list).ofKind k = list k := by
  cases k <;> rfl

@[simp]
theorem ofKind_map (f : α → β) (ms : Members α) (k : MemberKind) :
    (ms.map f).ofKind k = (ms.ofKind k).map f := by
  simp [map]

end Members

end ApiDocs
