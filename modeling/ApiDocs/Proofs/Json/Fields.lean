import ApiDocs.Json.Basic
/-!
# Fields of JSON objects

An object leaves out the fields without a value.  As long as the names of all fields are known
and differ, the fields that are there tell also which ones are left out.

Main definitions:

- `Json.get?`: the value of a field.
- `Json.present`: the fields that have a value.

Main results:

- `Json.present_inj`: the fields that have a value determine all of them.
-/

namespace ApiDocs

namespace Json

/-- The value of a field of an object. -/
def get? (name : Text) : Json → Option Json
  | .obj fields => fields.lookup name
  | _ => none

/-- The fields that have a value. -/
def present (slots : List (Text × Option Json)) : List (Text × Json) :=
  slots.flatMap fun slot => field? slot.1 slot.2

/-- A name that is none of the fields has no value. -/
theorem present_ne_cons {slots : List (Text × Option Json)} {name : Text}
    (h : name ∉ slots.map Prod.fst) (value : Json) (fields : List (Text × Json)) :
    present slots ≠ (name, value) :: fields := by
  intro heq
  have hmem : (name, value) ∈ present slots := by
    rw [heq]
    exact List.mem_cons_self
  obtain ⟨slot, hslot, hfield⟩ := List.mem_flatMap.1 hmem
  obtain ⟨v, -, hname⟩ := Option.map_eq_some_iff.1 (Option.mem_toList.1 hfield)
  apply h
  rw [← (Prod.mk.inj hname).1]
  exact List.mem_map_of_mem hslot

/-- Two lists of fields with the same names, each once, are the same when the fields with a value
are: a field without a value is never taken for one that has a value. -/
theorem present_inj {slots slots' : List (Text × Option Json)}
    (hnames : slots.map Prod.fst = slots'.map Prod.fst) (hnodup : (slots.map Prod.fst).Nodup)
    (h : present slots = present slots') : slots = slots' := by
  induction slots generalizing slots' with
  | nil => exact (List.map_eq_nil_iff.1 hnames.symm).symm
  | cons slot slots ih =>
    cases slots' with
    | nil => cases hnames
    | cons slot' slots' =>
      obtain ⟨name, value⟩ := slot
      obtain ⟨name', value'⟩ := slot'
      obtain ⟨rfl, hlater⟩ := List.cons.inj hnames
      obtain ⟨hnew, hrest⟩ := List.nodup_cons.1 hnodup
      have hnew' : name ∉ slots'.map Prod.fst := hlater ▸ hnew
      cases value with
      | none =>
        cases value' with
        | none => rw [ih hlater hrest h]
        | some v' => exact absurd h (present_ne_cons hnew v' _)
      | some v =>
        cases value' with
        | none => exact absurd h.symm (present_ne_cons hnew' v _)
        | some v' =>
          obtain ⟨hvalue, hfields⟩ := List.cons.inj h
          rw [ih hlater hrest hfields, (Prod.mk.inj hvalue).2]

end Json

end ApiDocs
