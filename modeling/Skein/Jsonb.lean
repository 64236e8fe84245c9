import Skein.EncodedText
import Skein.JsData
import Skein.RoundingOrder

/-!
# PostgreSQL's `jsonb`

What `JSON.stringify(value)::jsonb` holds of a value, and the operators on it. `none` is SQL's
NULL where a value is read, and an error where a statement is.
-/
namespace Skein

namespace JsString

/-- Texts that a `text` or a string of a `jsonb` can hold. -/
def isStorable (s : JsString) : Bool := s.all (· ≠ 0) && isWellFormed none s

end JsString

/-- Numbers are decimals of any size; the keys of an object are distinct. -/
inductive Jsonb
  | null
  | bool (b : Bool)
  | number (q : ℚ)
  | string (s : JsString)
  | array (items : List Jsonb)
  | object (fields : List (JsString × Jsonb))

namespace Jsonb

mutual

/-- `a = b` -/
def same : Jsonb → Jsonb → Bool
  | null, null => true
  | bool a, bool b => a = b
  | number a, number b => a = b
  | string a, string b => a = b
  | array a, array b => sameItems a b
  | object a, object b => a.length = b.length && sameFields a b
  | _, _ => false

def sameItems : List Jsonb → List Jsonb → Bool
  | [], [] => true
  | a :: as, b :: bs => same a b && sameItems as bs
  | _, _ => false

def sameFields : List (JsString × Jsonb) → List (JsString × Jsonb) → Bool
  | [], _ => true
  | (key, a) :: rest, others =>
    match others.lookup key with
    | some b => same a b && sameFields rest others
    | none => false

end

/-- `a IS NOT DISTINCT FROM b` -/
def notDistinct : Option Jsonb → Option Jsonb → Bool
  | none, none => true
  | some a, some b => a.same b
  | _, _ => false

/-- `value -> key` -/
def get? : Jsonb → JsString → Option Jsonb
  | object fields, key => fields.lookup key
  | _, _ => none

/-- `jsonb_array_elements(value)`, an error of what is no array. -/
def elements? : Jsonb → Option (List Jsonb)
  | array items => some items
  | _ => none

/-- `jsonb_typeof(value) = 'number'`, and the number as a `numeric`. -/
def number? : Option Jsonb → Option ℚ
  | some (number q) => some q
  | _ => none

end Jsonb

/-- The decimal that `JSON.stringify` writes; what is not finite is written `null`. -/
def JsNumber.toJsonb : JsNumber → Jsonb
  | finite x => .number x.decimal
  | infinity _ | nan => .null

namespace JsData

mutual

/-- `JSON.stringify(value)::jsonb`; an error where a text cannot be stored. -/
def toJsonb : JsData → Option Jsonb
  | null => some .null
  | bool b => some (.bool b)
  | number n => some n.toJsonb
  | string s => if s.isStorable then some (.string s) else none
  | array items => (itemsToJsonb items).map .array
  | object fields => (fieldsToJsonb fields).map .object

def itemsToJsonb : List JsData → Option (List Jsonb)
  | [] => some []
  | v :: rest => (toJsonb v).bind fun b => (itemsToJsonb rest).map (b :: ·)

/-- Of several entries under one key the last is kept. -/
def fieldsToJsonb : List (JsString × JsData) → Option (List (JsString × Jsonb))
  | [] => some []
  | (key, v) :: rest =>
    if key.isStorable then
      (toJsonb v).bind fun b => (fieldsToJsonb rest).map fun fields =>
        if (fields.lookup key).isSome then fields else (key, b) :: fields
    else none

end

/-- Scalars as JSON has them. -/
def isFiniteScalar : JsData → Bool
  | null | bool _ | string _ => true
  | number n => n.isFinite
  | array _ | object _ => false

/-- No number at the top of an entry that JSON has no text for. -/
def isFiniteEntry : JsData → Bool
  | number n => n.isFinite
  | _ => true

theorem lookup_fieldsToJsonb {fields : Fields} {out : List (JsString × Jsonb)}
    (hkeys : (fields.map Prod.fst).Nodup) (h : fieldsToJsonb fields = some out) (key : JsString) :
    out.lookup key = (get? fields key).bind toJsonb := by
  induction fields generalizing out key with
  | nil => simp_all [fieldsToJsonb, get?]
  | cons entry rest ih =>
    obtain ⟨k, v⟩ := entry
    simp only [fieldsToJsonb, Option.ite_none_right_eq_some, Option.bind_eq_some_iff,
      Option.map_eq_some_iff] at h
    obtain ⟨-, b, hb, out', hout', rfl⟩ := h
    simp only [List.map_cons, List.nodup_cons] at hkeys
    have habsent : rest.lookup k = none := by
      rw [List.lookup_eq_none_iff]
      intro entry hentry
      have := List.mem_map_of_mem (f := Prod.fst) hentry
      grind
    have hnone : out'.lookup k = none := by
      rw [ih hkeys.2 hout' k]
      simp [get?, habsent]
    rw [hnone]
    by_cases hkey : key = k
    · simp [get?, hkey, hb]
    · have hne : (key == k) = false := by simpa using hkey
      have hrest := ih hkeys.2 hout' key
      simp only [get?] at hrest
      simp [get?, List.lookup_cons, hne, hrest]

/-- Every value of an object that could be stored could be stored itself. -/
theorem isSome_toJsonb_get? {fields : Fields} {out : List (JsString × Jsonb)} {key : JsString}
    {v : JsData} (h : fieldsToJsonb fields = some out) (hv : get? fields key = some v) :
    ∃ b, v.toJsonb = some b := by
  induction fields generalizing out with
  | nil => simp [get?] at hv
  | cons entry rest ih =>
    obtain ⟨k, u⟩ := entry
    simp only [fieldsToJsonb, Option.ite_none_right_eq_some, Option.bind_eq_some_iff,
      Option.map_eq_some_iff] at h
    obtain ⟨-, b, hb, out', hout', rfl⟩ := h
    simp only [get?, List.lookup_cons] at hv
    split at hv
    · exact ⟨b, Option.some.inj hv ▸ hb⟩
    · exact ih hout' hv

theorem same_number {m n : JsNumber} (hm : m.isFinite = true) (hn : n.isFinite = true) :
    m.toJsonb.same n.toJsonb = m.same n := by
  cases m <;> cases n <;> simp only [JsNumber.isFinite, Bool.false_eq_true] at hm hn
  rename_i x y
  have hvalue : x.decimal = y.decimal ↔ x.value = y.value :=
    ⟨fun h => congrArg Binary64.value (Binary64.decimal_injective h),
      fun h => congrArg Binary64.decimal (Binary64.ext h)⟩
  simp only [JsNumber.toJsonb, Jsonb.same, JsNumber.same, hvalue]

theorem same_comm {operand : JsData} {b : Jsonb} (hb : operand.toJsonb = some b)
    (hoperand : operand.isFiniteScalar = true) (a : Jsonb) : b.same a = a.same b := by
  have hscalar : b = .null ∨ (∃ x, b = .bool x) ∨ (∃ q, b = .number q) ∨ ∃ s, b = .string s := by
    cases operand <;> simp only [isFiniteScalar, Bool.false_eq_true, toJsonb, Option.some.injEq,
      Option.ite_none_right_eq_some] at hoperand hb
    case null => exact .inl hb.symm
    case bool x => exact .inr (.inl ⟨x, hb.symm⟩)
    case number n =>
      cases n <;> simp only [JsNumber.isFinite, Bool.false_eq_true] at hoperand
      exact .inr (.inr (.inl ⟨_, hb.symm⟩))
    case string s => exact .inr (.inr (.inr ⟨s, hb.2.symm⟩))
  obtain rfl | ⟨x, rfl⟩ | ⟨q, rfl⟩ | ⟨s, rfl⟩ := hscalar <;> cases a <;>
    simp [Jsonb.same, eq_comm]

/-- A scalar equals what is read of an item exactly where the two are `===`. -/
theorem same_toJsonb {actual operand : JsData} {a b : Jsonb} (ha : actual.toJsonb = some a)
    (hb : operand.toJsonb = some b) (hactual : actual.isFiniteEntry = true)
    (hoperand : operand.isFiniteScalar = true) : a.same b = actual.same operand := by
  have hshape : ∀ n : JsNumber, n.isFinite = true → ∃ q, n.toJsonb = .number q := by
    intro n hn
    cases n <;> simp_all [JsNumber.isFinite, JsNumber.toJsonb]
  cases actual <;> cases operand <;>
    simp only [isFiniteScalar, Bool.false_eq_true, toJsonb, Option.some.injEq,
      Option.ite_none_right_eq_some, Option.map_eq_some_iff] at hoperand ha hb
  case number.number => exact ha ▸ hb ▸ same_number hactual hoperand
  case number.null n | number.bool n _ | number.string n _ =>
    obtain ⟨q, hq⟩ := hshape n hactual
    grind [Jsonb.same, JsData.same]
  case null.number n | bool.number _ n | string.number _ n | array.number _ n | object.number _ n =>
    obtain ⟨q, hq⟩ := hshape n hoperand
    grind [Jsonb.same, JsData.same]
  all_goals grind [Jsonb.same, JsData.same]

end JsData
end Skein
