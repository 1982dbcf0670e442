import ApiDocs.Proofs.Comment.Heads
import ApiDocs.Proofs.Comment.Readings
/-!
# Descriptions

The description of a comment is made of what stands before its first tag line and of one piece for
each section, in order.  A section leaves what follows the parts that its tag reads, so that only a
type and a name are taken from the prose.  Parameters and results keep their prose to themselves,
and a type tag loses what follows its type.

Main definitions:

- `LeavesProse`: the piece that a section leaves, read off its text.
- `ProsePieces`: one piece for each section.

Main results:

- `trim_prose_read`: the prose of a reading is the piece of its section.
- `description_ofComment`: the description is made of these pieces and no others.
-/

namespace ApiDocs

/-- The piece that a section behind others leaves to the description of a comment on this kind of
thing.  The tag that claims the comment leaves what follows its type and its name, and all of its
text behind a brace that nothing closes; the tag is kept where the comment is claimed. -/
inductive LeavesProse (kind : Kind) (before : List Section) (s : Section) : Text → Prop
  | deciding {subject : Kind} {rest body : Text} (hsubject : s.tag.subject? = some subject)
      (hfirst : ∀ t ∈ before, t.claims kind = false)
      (htype : AfterType subject.isTyped s.text rest) (hname : AfterName rest body) :
      LeavesProse kind before s body
  | unclosed {subject : Kind} (hsubject : s.tag.subject? = some subject)
      (hfirst : ∀ t ∈ before, t.claims kind = false) (htyped : subject.isTyped = true)
      (hunclosed : UnclosedType s.text) : LeavesProse kind before s s.text
  | conflicting {subject : Kind} {t : Section} (hsubject : s.tag.subject? = some subject)
      (hmem : t ∈ before) (hclaims : t.claims kind = true) :
      LeavesProse kind before s ('@' :: s.spelling ++ ' ' :: s.text)
  | parent {body : Text} (htag : s.tag = .parent) (hname : AfterName s.text body) :
      LeavesProse kind before s body
  | mixins {first body : Text} (htag : s.tag = .mixins) (htext : s.text = first ++ body)
      (hfirst : '\n' ∉ first) (hbody : ∀ c, body.head? = some c → c = '\n') :
      LeavesProse kind before s body
  | whole (htag : s.tag = .constructor ∨ s.tag = .singleton ∨ s.tag = .hidden) :
      LeavesProse kind before s s.text
  | silent (htag : s.tag = .type ∨ s.tag = .param ∨ s.tag = .returns) :
      LeavesProse kind before s []

/-- One piece for each section of a comment on this kind of thing. -/
structure ProsePieces (kind : Kind) (sections : List Section) (pieces : List Text) : Prop where
  length_eq : pieces.length = sections.length
  leaves : ∀ before s after, sections = before ++ s :: after →
    ∃ piece, pieces[before.length]? = some piece ∧ LeavesProse kind before s piece

variable {kind : Kind} {s : Section} {before sections : List Section}

/-! ### The prose of one section -/

/-- The body of a text behind its type and its name. -/
theorem body_read_plain {hasType : Bool} {text rest body : Text}
    (htype : AfterType hasType text rest) (hname : AfterName rest body) :
    (SectionParts.read hasType .plain text).body = Text.trim body := by
  obtain ⟨type, hread⟩ := SectionParts.read_plain htype
  rw [hread]
  exact hname.body_readPlainName

/-- What stands in front of the first line break is the first line. -/
theorem dropWhile_line {first body : Text} (hfirst : '\n' ∉ first)
    (hbody : ∀ c, body.head? = some c → c = '\n') :
    (first ++ body).dropWhile (· ≠ '\n') = body := by
  rw [List.dropWhile_append_of_pos fun c hc => by simpa using ne_of_mem_of_not_mem hc hfirst]
  cases body with
  | nil => rfl
  | cons c body => simp [hbody c rfl]

theorem exists_line (s : Text) :
    ∃ first body, s = first ++ body ∧ '\n' ∉ first ∧ ∀ c, body.head? = some c → c = '\n' := by
  refine ⟨_, _, (List.takeWhile_append_dropWhile (p := (· ≠ '\n'))).symm, fun hmem => ?_,
    fun c hc => ?_⟩
  · simpa using List.mem_takeWhile_imp hmem
  · have hnot := List.head?_dropWhile_not (· ≠ '\n') s
    rw [hc] at hnot
    simpa using hnot

/-- Up to blanks at its ends, the prose of a section is the piece that it leaves. -/
theorem trim_prose_read {piece : Text} (h : LeavesProse kind before s piece) :
    Text.trim (s.read kind (before.any (·.claims kind))).prose = Text.trim piece := by
  cases h with
  | deciding hsubject hfirst htype hname =>
    rw [any_claims_eq_false hfirst, read_of_subject hsubject, readSubject_unclaimed]
    exact (congrArg Text.trim (body_read_plain htype hname)).trans (Text.trim_trim _)
  | unclosed hsubject hfirst htyped hunclosed =>
    rw [any_claims_eq_false hfirst, read_of_subject hsubject, readSubject_unclaimed, htyped,
      SectionParts.read_unclosed _ hunclosed]
    exact Text.trim_trim _
  | conflicting hsubject hmem hclaims =>
    rw [any_claims_eq_true hmem hclaims, read_of_subject hsubject]
    rfl
  | parent htag hname =>
    have hbody := body_read_plain (afterType_untyped s.text) hname
    rw [Section.read, htag]
    exact (congrArg Text.trim hbody).trans (Text.trim_trim _)
  | mixins htag htext hfirst hbody =>
    rw [Section.read, htag, htext]
    exact congrArg Text.trim (dropWhile_line hfirst hbody)
  | whole htag =>
    rcases htag with htag | htag | htag <;> rw [Section.read, htag]
  | silent htag =>
    rcases htag with htag | htag | htag <;> rw [Section.read, htag] <;> rfl

/-- Each section leaves a piece. -/
theorem exists_leavesProse (kind : Kind) (before : List Section) (s : Section) :
    ∃ piece, LeavesProse kind before s piece := by
  cases hsubject : s.tag.subject? with
  | some subject =>
    by_cases hclaims : ∃ t ∈ before, t.claims kind = true
    · obtain ⟨t, hmem, hclaims⟩ := hclaims
      exact ⟨_, .conflicting hsubject hmem hclaims⟩
    · have hfirst : ∀ t ∈ before, t.claims kind = false := fun t ht =>
        Bool.eq_false_iff.2 fun h => hclaims ⟨t, ht, h⟩
      rcases exists_afterType_or_unclosedType subject.isTyped s.text with
        ⟨rest, htype⟩ | ⟨htyped, hunclosed⟩
      · obtain ⟨body, hname⟩ := exists_afterName rest
        exact ⟨body, .deciding hsubject hfirst htype hname⟩
      · exact ⟨_, .unclosed hsubject hfirst htyped hunclosed⟩
  | none =>
    cases htag : s.tag with
    | cls => simp [htag, Tag.subject?] at hsubject
    | member k => simp [htag, Tag.subject?] at hsubject
    | constructor => exact ⟨_, .whole (.inl htag)⟩
    | type => exact ⟨_, .silent (.inl htag)⟩
    | param => exact ⟨_, .silent (.inr (.inl htag))⟩
    | returns => exact ⟨_, .silent (.inr (.inr htag))⟩
    | parent =>
      obtain ⟨body, hname⟩ := exists_afterName s.text
      exact ⟨body, .parent htag hname⟩
    | mixins =>
      obtain ⟨first, body, htext, hfirst, hbody⟩ := exists_line s.text
      exact ⟨body, .mixins htag htext hfirst hbody⟩
    | singleton => exact ⟨_, .whole (.inr (.inl htag))⟩
    | hidden => exact ⟨_, .whole (.inr (.inr htag))⟩

/-! ### The pieces of all sections -/

/-- The reading of a section behind others. -/
theorem getElem?_readSections (kind : Kind) (before : List Section) (s : Section)
    (after : List Section) :
    (readSections kind false (before ++ s :: after))[before.length]?
      = some (s, s.read kind (before.any (·.claims kind))) := by
  rw [readSections_append, ← length_readSections kind false before, List.getElem?_append_right le_rfl,
    Nat.sub_self, readSections, Bool.false_or]
  rfl

theorem exists_prosePieces (kind : Kind) (sections : List Section) :
    ∃ pieces, ProsePieces kind sections pieces := by
  choose piece hpiece using exists_leavesProse kind
  refine ⟨sections.zipIdx.map fun entry => piece (sections.take entry.2) entry.1, by simp, ?_⟩
  rintro before s after rfl
  exact ⟨piece before s, by simp, hpiece before s⟩

/-- Up to blanks at their ends, the pieces are the prose of the readings. -/
theorem map_trim_pieces {pieces : List Text} (h : ProsePieces kind sections pieces) :
    pieces.map Text.trim
      = ((readSections kind false sections).map (·.2.prose)).map Text.trim := by
  refine List.ext_getElem? fun i => ?_
  by_cases hi : i < sections.length
  · have hsections : sections = sections.take i ++ sections[i] :: sections.drop (i + 1) := by simp
    have hlength : (sections.take i).length = i := by simp [hi.le]
    obtain ⟨piece, hget, hleaves⟩ := h.leaves _ _ _ hsections
    have hread := getElem?_readSections kind (sections.take i) sections[i] (sections.drop (i + 1))
    rw [← hsections, hlength] at hread
    rw [hlength] at hget
    simp [hget, hread, trim_prose_read hleaves]
  · have hpieces : pieces.length ≤ i := by rw [h.length_eq]; omega
    have hreadings : (readSections kind false sections).length ≤ i := by
      rw [length_readSections]; omega
    simp [hpieces, hreadings]

/-- The description of a comment is made of the text in front of its first tag line and of the
pieces that its sections leave, each trimmed and on lines of its own, and empty ones left out. -/
theorem description_ofComment (line : Nat) (text : Text) :
    let sections := (Comment.read line text).sections
    let node := (DocNode.ofComment line text).1
    let front := textOfLines ((commentLines line text).takeWhile (·.opening?.isNone))
    (∃ pieces, ProsePieces node.kind sections pieces) ∧
      ∀ pieces, ProsePieces node.kind sections pieces →
        node.description = describe (front :: pieces) := by
  intro sections node front
  refine ⟨exists_prosePieces node.kind sections, fun pieces hpieces => ?_⟩
  have hfront : (Comment.read line text).description = Text.trim front := by
    simp only [Comment.read, fst_cut]
    rfl
  have hkind : node.kind = kindOf sections := kind_node (Comment.read line text) line
  rw [hkind] at hpieces
  calc node.description
      = describe ((Comment.read line text).description
          :: (readSections (kindOf sections) false sections).map (·.2.prose)) :=
        description_node (Comment.read line text) line
    _ = describe (front :: pieces) := by
        rw [hfront]
        refine describe_congr ?_
        rw [List.map_cons, List.map_cons, ← map_trim_pieces hpieces, Text.trim_trim]

/-- What follows the type of a type tag is in no description. -/
theorem body_of_typeTag_is_lost :
    let text := "@property size\n@type \x7bNumber\x7d The size.".toList
    let typeTag : Section := ⟨.type, "type".toList, "\x7bNumber\x7d The size.".toList, 2⟩
    let node := (DocNode.ofComment 1 text).1
    typeTag ∈ (Comment.read 1 text).sections ∧ AfterType true typeTag.text " The size.".toList ∧
      node.type = some "Number".toList ∧ node.description = [] := by
  intro text typeTag node
  have hafter : AfterType true typeTag.text " The size.".toList :=
    .found rfl (⟨by decide, by decide⟩ : TypeAhead _ "Number".toList _)
  exact ⟨by decide +kernel, hafter, by decide +kernel, by decide +kernel⟩

end ApiDocs
