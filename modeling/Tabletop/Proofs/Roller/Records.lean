import Tabletop.Proofs.Json.Written
import Tabletop.Record

/-! Stored records are read back. A value says by the first character of its text whether it is a text or a number, so none
is taken for the other, and what a record does not have is left out of its text and found missing. -/
namespace Tabletop.Record

/-- The numbers in the record are whole. Its texts may be anything. -/
structure Whole (r : Record) : Prop where
  value : ∀ x, r.value ≠ .number (.float x)
  stuntPoints : ∀ x, r.stuntPoints ≠ some (.float x)

/-- What a number is read as. There is nothing for doubles here. -/
def numberJson : Number → Json
  | .whole x => .number (Json.wholeText x)
  | .float _ => .null

def valueJson : RollValue → Json
  | .number n => numberJson n
  | .text s => .string (some s)

/-- The members that are read from the text of a record. -/
def members (r : Record) : List (Option String × Json) :=
  [(some "kind", .string (some r.kind.name)), (some "value", valueJson r.value), (some "trace", .string (some r.trace))] ++
    (r.stuntPoints.map fun n => (some "stunt_points", numberJson n)).toList ++
    (r.fragment.map fun s => (some "fragment", .string (some s))).toList

variable {r : Record}

private theorem reads_number {n : Number} (h : ∀ x, n ≠ .float x) : Json.Reads (Json.numberText n) (numberJson n) := by
  cases n with
  | whole x => exact Json.reads_whole x
  | float x => exact absurd rfl (h x)

private theorem parse?_toJson (h : r.Whole) : Json.parse? r.toJson = some (.object r.members) := by
  obtain ⟨kind, value, trace, stuntPoints, fragment⟩ := r
  obtain ⟨hvalue, hstunt⟩ := h
  refine Json.parse?_objectText (List.rel_append (List.rel_append ?_ ?_) ?_)
  · refine .cons ⟨rfl, Json.reads_string _⟩ (.cons ⟨rfl, ?_⟩ (.cons ⟨rfl, Json.reads_string _⟩ .nil))
    cases value with
    | number n => exact reads_number fun x hx => hvalue x (congrArg RollValue.number hx)
    | text s => exact Json.reads_string s
  · cases stuntPoints with
    | none => exact .nil
    | some n => exact .cons ⟨rfl, reads_number fun x hx => hstunt x (congrArg some hx)⟩ .nil
  · cases fragment with
    | none => exact .nil
    | some s => exact .cons ⟨rfl, Json.reads_string s⟩ .nil

/-- The members are found by their names. -/
theorem members?_members (r : Record) :
    (Json.object r.members).members? ["kind", "value", "trace", "stunt_points", "fragment"] =
      some [some (.string (some r.kind.name)), some (valueJson r.value), some (.string (some r.trace)),
        r.stuntPoints.map numberJson, r.fragment.map fun s => .string (some s)] := by
  obtain ⟨kind, value, trace, stuntPoints, fragment⟩ := r
  cases stuntPoints <;> cases fragment <;> rfl

private theorem valueOfJson?_valueJson {value : RollValue} (h : ∀ x, value ≠ .number (.float x)) :
    valueOfJson? (valueJson value) = some value := by
  cases value with
  | text s => rfl
  | number n =>
    cases n with
    | whole x => exact congrArg (Option.map RollValue.number) (Json.toNumber?_wholeText x)
    | float x => exact absurd rfl (h x)

/-- A record without doubles is read back from its text as it was, whatever characters are in its texts. -/
theorem ofJson?_toJson (h : r.Whole) : ofJson? r.toJson = some r := by
  have hkind : RollerKind.ofName? r.kind.name = some r.kind := by cases r.kind <;> rfl
  have hvalue : valueOfJson? (valueJson r.value) = some r.value := valueOfJson?_valueJson h.value
  have hstunt : ((r.stuntPoints.map numberJson).getD .null).orNull Json.toNumber? = some r.stuntPoints := by
    cases hs : r.stuntPoints with
    | none => rfl
    | some n =>
      cases n with
      | whole x => exact congrArg (Option.map some) (Json.toNumber?_wholeText x)
      | float x => exact absurd hs (h.stuntPoints x)
  have hfragment : ((r.fragment.map fun s => Json.string (some s)).getD .null).orNull Json.toText? = some r.fragment := by
    cases r.fragment <;> rfl
  rw [ofJson?, parse?_toJson h, Option.bind_eq_bind, Option.bind_some, members?_members, Option.bind_eq_bind,
    Option.bind_some]
  simp only [hvalue, hstunt, hfragment, Json.toName?, Json.toText?, hkind, Option.bind_some, Option.bind_eq_bind]
  rfl

/-- The value is a text although it looks like a number, and the fragment is there although it is empty. -/
theorem ofJson?_toJson_digits :
    let r : Record :=
      { kind := .multi, value := .text "-12", trace := "\"\\\n\x01\x7f", stuntPoints := some (.whole (-9)),
        fragment := some "" }
    r.Whole ∧
      r.toJson = "\x7b\"kind\":\"multi\",\"value\":\"-12\",\"trace\":\"\\\"\\\\\\n\\u0001\x7f\"," ++
        "\"stunt_points\":-9,\"fragment\":\"\"\x7d" ∧
      ofJson? r.toJson = some r := by
  intro r
  have hwhole : r.Whole := ⟨nofun, nofun⟩
  exact ⟨hwhole, by decide +kernel, ofJson?_toJson hwhole⟩

end Tabletop.Record
