import Mathlib.Algebra.Group.Nat.Defs
import Mathlib.Data.List.Forall2
import LabelPlacement.Json.Request

/-!
# Reading what was written

Every part of a sequence or a request has a written form and a reader for it. A part is read back
as it was if its numbers can be written: whole numbers that fit the number of bits with which they
are read, and other numbers that are finite.
-/

namespace LabelPlacement

/-- An enumeration whose values are known by their names. -/
class LawfulNamed (ι : Type) [Named ι] : Prop where
  ofName?_name : ∀ value : ι, Named.ofName? (Named.name value) = some value

instance : LawfulNamed BufferKind := ⟨fun value => by cases value <;> rfl⟩
instance : LawfulNamed Status := ⟨fun value => by cases value <;> rfl⟩
instance : LawfulNamed ElementKind := ⟨fun value => by cases value <;> rfl⟩
instance : LawfulNamed LineSide := ⟨fun value => by cases value <;> rfl⟩
instance : LawfulNamed PositionUnit := ⟨fun value => by cases value <;> rfl⟩
instance : LawfulNamed Compass := ⟨fun value => by cases value <;> rfl⟩
instance : LawfulNamed AreaStrategy := ⟨fun value => by cases value <;> rfl⟩
instance : LawfulNamed FailureAction := ⟨fun value => by cases value <;> rfl⟩
instance : LawfulNamed LeaderTiming := ⟨fun value => by cases value <;> rfl⟩
instance : LawfulNamed LoopAction := ⟨fun value => by cases value <;> rfl⟩

namespace Json

variable {α ι : Type}

@[simp]
theorem bool?_bool (value : Bool) : (bool value : Json α).bool? = some value := rfl

@[simp]
theorem string?_string (value : String) : (string value : Json α).string? = some value := rfl

@[simp]
theorem untag?_tagged (tag : String) (json : Json α) :
    (tagged tag json).untag? = some (tag, json) := rfl

section Values

variable {encode : ι → Json α} {decode? : Json α → Option ι}

/-- What is read of a list is what is read of its members, one after the other. -/
theorem list?_ofList_eq_some_iff {values results : List ι} :
    list? decode? (ofList encode values) = some results ↔
      List.Forall₂ (fun value result => decode? (encode value) = some result) values results := by
  induction values generalizing results with
  | nil =>
    have hread : list? decode? (ofList encode []) = some [] := rfl
    rw [hread, Option.some.injEq, List.forall₂_nil_left_iff]
    exact eq_comm
  | cons value rest ih =>
    have hread : list? decode? (ofList encode (value :: rest)) =
        (decode? (encode value)).bind fun first =>
          (list? decode? (ofList encode rest)).bind fun others => some (first :: others) :=
      List.mapM_cons
    rw [hread, List.forall₂_cons_left_iff]
    simp only [Option.bind_eq_some_iff, ih, Option.some.injEq]
    constructor
    · rintro ⟨first, hfirst, others, hothers, rfl⟩
      exact ⟨first, others, hfirst, hothers, rfl⟩
    · rintro ⟨first, others, hfirst, hothers, rfl⟩
      exact ⟨first, hfirst, others, hothers, rfl⟩

/-- A list is read back just when all its members are. -/
theorem list?_ofList_iff {values : List ι} :
    list? decode? (ofList encode values) = some values ↔
      ∀ value ∈ values, decode? (encode value) = some value :=
  list?_ofList_eq_some_iff.trans List.forall₂_same

theorem list?_ofList {values : List ι}
    (hread : ∀ value ∈ values, decode? (encode value) = some value) :
    list? decode? (ofList encode values) = some values :=
  list?_ofList_iff.mpr hread

/-- No other list is read than the one that was written if that holds of its members. -/
theorem eq_of_list?_ofList
    (hread : ∀ value result, decode? (encode value) = some result → result = value)
    {values results : List ι} (hresults : list? decode? (ofList encode values) = some results) :
    results = values := by
  have hsame : List.Forall₂ (· = ·) values results :=
    (list?_ofList_eq_some_iff.mp hresults).imp fun value result hmember =>
      (hread value result hmember).symm
  rw [List.forall₂_eq_eq_eq] at hsame
  exact hsame.symm

/-- A value that may be absent is read back if the value is, and if no value is written like an
absent one. -/
theorem nullable?_ofOption {value : Option ι} (hnull : decode? null = none)
    (hread : ∀ present ∈ value, decode? (encode present) = some present) :
    nullable? decode? (ofOption encode value) = some value := by
  cases value with
  | none => rfl
  | some present =>
    have hpresent := hread present rfl
    rw [ofOption, nullable?.eq_def]
    split
    · rename_i hwritten
      rw [hwritten, hnull] at hpresent
      cases hpresent
    · rw [hpresent]
      rfl

@[simp]
theorem named?_ofNamed [Named ι] [LawfulNamed ι] (value : ι) :
    (ofNamed value : Json α).named? = some value :=
  LawfulNamed.ofName?_name value

theorem integer?_integer {least greatest value : Int} (hleast : least ≤ value)
    (hgreatest : value ≤ greatest) :
    integer? least greatest (integer value : Json α) = some value :=
  if_pos ⟨hleast, hgreatest⟩

theorem natural?_ofNatural {bits value : Nat} (hfits : value < 2 ^ bits) :
    natural? bits (ofNatural value : Json α) = some value := by
  have hgreatest : (value : Int) ≤ Int.ofNat (Nat.pow 2 bits - 1) :=
    Int.ofNat_le.mpr (Nat.le_sub_one_of_lt hfits)
  rw [natural?, ofNatural, integer?_integer (Int.natCast_nonneg value) hgreatest]
  rfl

/-- Only finite numbers are read back as numbers, and they are read back as they were. -/
theorem number?_ofNumber_eq_some_iff [Scalar α] {value result : α} :
    (ofNumber value).number? = some result ↔ Scalar.isFinite value = true ∧ result = value := by
  rw [ofNumber]
  by_cases hfinite : Scalar.isFinite value = true
  · rw [if_pos hfinite, number?, Option.some.injEq, and_iff_right hfinite]
    exact eq_comm
  · rw [if_neg hfinite]
    exact iff_of_false nofun fun hread => hfinite hread.1

theorem number?_ofNumber [Scalar α] {value : α} (hfinite : Scalar.isFinite value = true) :
    (ofNumber value).number? = some value :=
  number?_ofNumber_eq_some_iff.mpr ⟨hfinite, rfl⟩

end Values

/-! ### Fields

A record is written with all its fields, so a field is looked up past those that stand before it. -/

section Fields

variable {names : List String} {name other : String} {json : Json α} {fallback : ι}
  {decode? : Json α → Option ι} {fields : List (String × Json α)}

@[simp]
theorem fields?_object : fields? names (object fields) = some fields := rfl

@[simp]
theorem required?_cons_self : required? name decode? ((name, json) :: fields) = decode? json := by
  rw [required?, List.lookup_cons_self, Option.bind_some]

@[simp]
theorem required?_cons_of_ne (hother : name ≠ other) :
    required? name decode? ((other, json) :: fields) = required? name decode? fields := by
  rw [required?, List.lookup_cons, beq_false_of_ne hother, required?]

@[simp]
theorem default?_cons_self :
    default? name fallback decode? ((name, json) :: fields) = decode? json := by
  rw [default?, List.lookup_cons_self]

@[simp]
theorem default?_cons_of_ne (hother : name ≠ other) :
    default? name fallback decode? ((other, json) :: fields) =
      default? name fallback decode? fields := by
  rw [default?, List.lookup_cons, beq_false_of_ne hother, default?]

@[simp]
theorem optional?_cons_self :
    optional? name decode? ((name, json) :: fields) = nullable? decode? json :=
  default?_cons_self

@[simp]
theorem optional?_cons_of_ne (hother : name ≠ other) :
    optional? name decode? ((other, json) :: fields) = optional? name decode? fields :=
  default?_cons_of_ne hother

end Fields

end Json

end LabelPlacement
