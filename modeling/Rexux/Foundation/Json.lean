import Mathlib.Data.List.Lex
import Mathlib.Data.Char
import Rexux.Foundation.KeyedList
import Rexux.Foundation.Text

/-!
# JSON values

Values over any kind of number.  An object is the list of its fields in the order of their
keys, so that objects with the same fields are the same value.
-/

namespace Foundation

open List

/-- JSON values; an object is a list of fields. -/
inductive Json (Number : Type)
  | null
  | bool (value : Bool)
  | number (value : Number)
  | string (text : Text)
  | array (items : List (Json Number))
  | object (fields : List (Text × Json Number))

namespace Json

variable {Number : Type}

variable {P : Json Number → Prop}

/-- Induction in which an array or an object is assumed for its members. -/
theorem memInduction (hnull : P .null) (hbool : ∀ value, P (.bool value))
    (hnumber : ∀ value, P (.number value)) (hstring : ∀ text, P (.string text))
    (harray : ∀ items, (∀ item ∈ items, P item) → P (.array items))
    (hobject : ∀ fields, (∀ field ∈ fields, P field.2) → P (.object fields))
    (value : Json Number) : P value := by
  refine @Json.rec Number P (fun items => ∀ item ∈ items, P item)
    (fun fields => ∀ field ∈ fields, P field.2) (fun field => P field.2)
    hnull hbool hnumber hstring harray hobject ?_ ?_ ?_ ?_ ?_ value
  · exact fun _ hitem => nomatch hitem
  · exact fun _ _ hfirst hitems => forall_mem_cons.mpr ⟨hfirst, hitems⟩
  · exact fun _ hfield => nomatch hfield
  · exact fun _ _ hfirst hfields => forall_mem_cons.mpr ⟨hfirst, hfields⟩
  · exact fun _ _ hvalue => hvalue

/-- Induction over the fields of objects; all other values are leaves. -/
theorem objectInduction (hvalue : ∀ value, (∀ fields, value ≠ .object fields) → P value)
    (hobject : ∀ fields, (∀ field ∈ fields, P field.2) → P (.object fields))
    (value : Json Number) : P value := by
  induction value using memInduction with
  | hobject fields ih => exact hobject fields ih
  | hnull | hbool | hnumber | hstring | harray => exact hvalue _ fun _ h => nomatch h

variable {fields : List (Text × Json Number)}

section Equality

variable [DecidableEq Number]

mutual

def beq : Json Number → Json Number → Bool
  | .null, .null => true
  | .bool value, .bool other => value = other
  | .number value, .number other => value = other
  | .string text, .string other => text = other
  | .array items, .array others => beqItems items others
  | .object fields, .object others => beqFields fields others
  | _, _ => false

def beqItems : List (Json Number) → List (Json Number) → Bool
  | [], [] => true
  | item :: items, other :: others => beq item other && beqItems items others
  | _, _ => false

def beqFields : List (Text × Json Number) → List (Text × Json Number) → Bool
  | [], [] => true
  | (key, value) :: fields, (other, found) :: others =>
    key = other && beq value found && beqFields fields others
  | _, _ => false

end

theorem beqItems_iff {items others : List (Json Number)}
    (h : ∀ item ∈ items, ∀ other, beq item other ↔ item = other) :
    beqItems items others ↔ items = others := by
  induction items generalizing others with
  | nil =>
    cases others with
    | nil | cons => simp [beqItems]
  | cons item items ih =>
    cases others with
    | nil => simp [beqItems]
    | cons other others =>
      rw [forall_mem_cons] at h
      rw [beqItems, Bool.and_eq_true, h.1, ih h.2, List.cons.injEq]

theorem beqFields_iff {others : List (Text × Json Number)}
    (h : ∀ field ∈ fields, ∀ other, beq field.2 other ↔ field.2 = other) :
    beqFields fields others ↔ fields = others := by
  induction fields generalizing others with
  | nil =>
    cases others with
    | nil | cons => simp [beqFields]
  | cons field fields ih =>
    cases others with
    | nil => simp [beqFields]
    | cons other others =>
      rw [forall_mem_cons] at h
      rw [beqFields, Bool.and_eq_true, Bool.and_eq_true, h.1, ih h.2, List.cons.injEq,
        Prod.ext_iff, decide_eq_true_iff]

theorem beq_iff (value other : Json Number) : beq value other ↔ value = other := by
  induction value using memInduction generalizing other with
  | hnull =>
    cases other with
    | null | _ => simp [beq]
  | hbool value =>
    cases other with
    | bool | _ => simp [beq]
  | hnumber value =>
    cases other with
    | number | _ => simp [beq]
  | hstring text =>
    cases other with
    | string | _ => simp [beq]
  | harray items ih =>
    cases other with
    | array others => rw [beq, beqItems_iff ih, array.injEq]
    | _ => simp [beq]
  | hobject fields ih =>
    cases other with
    | object others => rw [beq, beqFields_iff ih, object.injEq]
    | _ => simp [beq]

instance : DecidableEq (Json Number) :=
  fun value other => decidable_of_iff (beq value other = true) (beq_iff value other)

end Equality

mutual

/-- The fields of every object are in the order of their keys. -/
def IsOrdered : Json Number → Prop
  | .array items => ItemsOrdered items
  | .object fields => Keyed.Sorted fields ∧ FieldsOrdered fields
  | _ => True

def ItemsOrdered : List (Json Number) → Prop
  | [] => True
  | item :: items => item.IsOrdered ∧ ItemsOrdered items

def FieldsOrdered : List (Text × Json Number) → Prop
  | [] => True
  | (_, value) :: fields => value.IsOrdered ∧ FieldsOrdered fields

end

theorem fieldsOrdered_iff : FieldsOrdered fields ↔ ∀ field ∈ fields, field.2.IsOrdered := by
  induction fields with
  | nil => simp [FieldsOrdered]
  | cons field fields ih => rw [FieldsOrdered, ih, forall_mem_cons]

mutual

/-- No object has a field that is null, outside of arrays. -/
def HasNoNullField : Json Number → Prop
  | .object fields => FieldsNotNull fields
  | _ => True

/-- No field is null, at all depths. -/
def FieldsNotNull : List (Text × Json Number) → Prop
  | [] => True
  | (_, value) :: fields => value ≠ .null ∧ value.HasNoNullField ∧ FieldsNotNull fields

end

theorem fieldsNotNull_iff :
    FieldsNotNull fields ↔ ∀ field ∈ fields, field.2 ≠ .null ∧ field.2.HasNoNullField := by
  induction fields with
  | nil => simp [FieldsNotNull]
  | cons field fields ih => rw [FieldsNotNull, ih, forall_mem_cons, and_assoc]

end Json

end Foundation
