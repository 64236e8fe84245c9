import Skein.JsHeap

/-!
# Fresh objects

Data put into memory as `JSON.parse` does it: one new array or object for each of the data, after
those of its parts. What is made so is the data, is seen in full, and leads to nothing that was
there before.
-/
namespace Skein

/-- An array literal of these values. -/
def freshArray (values : List JsValue) : JsObject where
  kind := .array (values.map fun v => some { read := .ok v })
  prototype := .array

/-- An object literal of these members. -/
def freshObject (members : List (JsString × JsValue)) : JsObject where
  properties := members.map fun member => (member.1, { read := .ok member.2 })

namespace JsData

mutual
/-- The value, and the new objects after those in `copies`; the first new object of all stands
at `base`. -/
def alloc (base : ℕ) (copies : JsHeap) : JsData → JsValue × JsHeap
  | .null => (.null, copies)
  | .bool b => (.bool b, copies)
  | .number n => (.number n, copies)
  | .string s => (.string s, copies)
  | .array items =>
    let placed := allocItems base copies items
    (.ref (base + placed.2.length), placed.2 ++ [freshArray placed.1])
  | .object fields =>
    let placed := allocFields base copies fields
    (.ref (base + placed.2.length), placed.2 ++ [freshObject placed.1])

/-- The items of an array are allocated one after the other, from the left. -/
def allocItems (base : ℕ) (copies : JsHeap) : List JsData → List JsValue × JsHeap
  | [] => ([], copies)
  | t :: items =>
    let first := alloc base copies t
    let rest := allocItems base first.2 items
    (first.1 :: rest.1, rest.2)

def allocFields (base : ℕ) (copies : JsHeap) :
    List (JsString × JsData) → List (JsString × JsValue) × JsHeap
  | [] => ([], copies)
  | (key, t) :: fields =>
    let first := alloc base copies t
    let rest := allocFields base first.2 fields
    ((key, first.1) :: rest.1, rest.2)
end

variable {base : ℕ}

theorem allocItems_extends {items : List JsData}
    (h : ∀ t ∈ items, ∀ copies, copies <+: (alloc base copies t).2) (copies : JsHeap) :
    copies <+: (allocItems base copies items).2 := by
  induction items generalizing copies with
  | nil => exact List.prefix_rfl
  | cons t items ih =>
    obtain ⟨ht, hitems⟩ := List.forall_mem_cons.mp h
    exact (ht copies).trans (ih hitems _)

theorem allocFields_extends {fields : Fields}
    (h : ∀ field ∈ fields, ∀ copies, copies <+: (alloc base copies field.2).2)
    (copies : JsHeap) : copies <+: (allocFields base copies fields).2 := by
  induction fields generalizing copies with
  | nil => exact List.prefix_rfl
  | cons field fields ih =>
    obtain ⟨hfield, hfields⟩ := List.forall_mem_cons.mp h
    exact (hfield copies).trans (ih hfields _)

/-- Allocating only appends to the heap. -/
theorem alloc_extends (t : JsData) : ∀ copies, copies <+: (alloc base copies t).2 := by
  induction t with
  | null | bool | number | string => exact fun copies => List.prefix_rfl
  | array items ih =>
    exact fun copies => (allocItems_extends ih copies).trans (List.prefix_append _ _)
  | object fields ih =>
    exact fun copies => (allocFields_extends ih copies).trans (List.prefix_append _ _)

variable {heap : JsHeap}

/-- A value is still equal to a tree once more has been allocated. -/
theorem equals_of_extends {copies more : JsHeap} {v : JsValue} {t : JsData}
    (h : JsHeap.Equals (heap ++ copies) v t) (hmore : copies <+: more) :
    JsHeap.Equals (heap ++ more) v t := by
  obtain ⟨rest, rfl⟩ := hmore
  rw [← List.append_assoc]
  exact h.append rest

theorem allocItems_equals {items : List JsData}
    (h : ∀ t ∈ items, ∀ copies,
      JsHeap.Equals (heap ++ (alloc heap.length copies t).2) (alloc heap.length copies t).1 t)
    (copies : JsHeap) :
    List.Forall₂ (JsHeap.Equals (heap ++ (allocItems heap.length copies items).2))
      (allocItems heap.length copies items).1 items := by
  induction items generalizing copies with
  | nil => exact .nil
  | cons t items ih =>
    obtain ⟨ht, hitems⟩ := List.forall_mem_cons.mp h
    refine .cons (equals_of_extends (ht copies) ?_) (ih hitems _)
    exact allocItems_extends (fun t _ => alloc_extends t) _

theorem allocFields_equals {fields : Fields}
    (h : ∀ field ∈ fields, ∀ copies, JsHeap.Equals
      (heap ++ (alloc heap.length copies field.2).2) (alloc heap.length copies field.2).1 field.2)
    (copies : JsHeap) :
    List.Forall₂ (fun member field => member.1 = field.1 ∧
        JsHeap.Equals (heap ++ (allocFields heap.length copies fields).2) member.2 field.2)
      (allocFields heap.length copies fields).1 fields := by
  induction fields generalizing copies with
  | nil => exact .nil
  | cons field fields ih =>
    obtain ⟨hfield, hfields⟩ := List.forall_mem_cons.mp h
    refine .cons ⟨rfl, equals_of_extends (hfield copies) ?_⟩ (ih hfields _)
    exact allocFields_extends (fun field _ => alloc_extends field.2) _

theorem getElem?_fresh (copies : JsHeap) (o : JsObject) :
    (heap ++ (copies ++ [o]))[heap.length + copies.length]? = some o := by
  rw [← List.append_assoc, ← List.length_append]
  exact List.getElem?_concat_length

/-- The copy of a tree is equal to it. -/
theorem alloc_equals (t : JsData) : ∀ copies,
    JsHeap.Equals (heap ++ (alloc heap.length copies t).2) (alloc heap.length copies t).1 t := by
  induction t with
  | null | bool | number | string =>
    intro copies
    simp [alloc, JsHeap.Equals]
  | array items ih =>
    intro copies
    refine JsHeap.equals_array.mpr ⟨_, _, _, rfl, getElem?_fresh _ _, rfl, rfl, rfl, ?_⟩
    refine List.forall₂_map_left_iff.mpr ((allocItems_equals ih copies).imp fun v t hv => ?_)
    exact ⟨_, v, rfl, rfl, equals_of_extends hv (List.prefix_append _ _)⟩
  | object fields ih =>
    intro copies
    refine JsHeap.equals_object.mpr ⟨_, _, rfl, getElem?_fresh _ _, rfl, rfl, rfl, ?_⟩
    have hshown : ∀ members, (freshObject members).shown =
        members.map fun member => (member.1, { read := .ok member.2 }) := by
      intro members
      refine List.filter_eq_self.mpr fun property hproperty => ?_
      obtain ⟨member, -, rfl⟩ := List.mem_map.mp hproperty
      rfl
    rw [hshown]
    refine List.forall₂_map_left_iff.mpr
      ((allocFields_equals ih copies).imp fun member field hmember => ?_)
    exact ⟨hmember.1, member.2, rfl, equals_of_extends hmember.2 (List.prefix_append _ _)⟩

end JsData

/-- The value is no object below `base`. -/
def JsValue.Local (base : ℕ) (v : JsValue) : Prop := ∀ r, v = .ref r → base ≤ r

/-- An array or object that was made of such values. -/
def JsObject.Fresh (base : ℕ) (o : JsObject) : Prop :=
  (∃ values, o = freshArray values ∧ ∀ v ∈ values, v.Local base) ∨
    ∃ members, o = freshObject members ∧ ∀ member ∈ members, member.2.Local base

/-- A literal has nothing unusual about it. -/
theorem JsObject.Fresh.usual {base : ℕ} {o : JsObject} (h : o.Fresh base) : o.Usual := by
  rcases h with ⟨values, rfl, -⟩ | ⟨members, rfl, -⟩
  · constructor <;> simp [freshArray, JsObject.elements, JsKind.isWrapper]
  · constructor <;> simp [freshObject, JsObject.elements, JsKind.isWrapper]

theorem JsObject.Fresh.holds {base : ℕ} {o : JsObject} {v : JsValue} (h : o.Fresh base)
    (hholds : o.Holds v) : v.Local base := by
  rcases h with ⟨values, rfl, hvalues⟩ | ⟨members, rfl, hmembers⟩
  · rcases hholds with ⟨slot, hslot, hread⟩ | hjson
    · simp only [freshArray, JsObject.elements, List.mem_map, Option.some.injEq, List.map_nil,
        List.not_mem_nil, or_false] at hslot
      obtain ⟨w, hw, rfl⟩ := hslot
      obtain rfl := Except.ok.inj hread
      exact hvalues w hw
    · cases hjson
  · rcases hholds with ⟨slot, hslot, hread⟩ | hjson
    · simp only [freshObject, JsObject.elements, List.not_mem_nil, List.map_map, List.mem_map,
        false_or] at hslot
      obtain ⟨member, hmember, rfl⟩ := hslot
      obtain rfl := Except.ok.inj hread
      exact hmembers member hmember
    · cases hjson

/-- What an object shows to a reader it holds. -/
theorem JsObject.Shows.holds {o : JsObject} {v : JsValue} (h : o.Shows v) : o.Holds v := by
  obtain ⟨slot, hslot | hslot, hread⟩ := h
  · exact .inl ⟨slot, .inl hslot, hread⟩
  · obtain ⟨property, hproperty, rfl⟩ := List.mem_map.mp hslot
    exact .inl ⟨property.2, .inr (List.mem_map_of_mem (List.mem_of_mem_filter hproperty)), hread⟩

namespace JsHeap
variable {heap copies : JsHeap}

theorem Reaches.mono {next others : JsObject → JsValue → Prop} {v : JsValue} {r : Ref}
    (h : heap.Reaches next v r) (himp : ∀ o v, next o v → others o v) :
    heap.Reaches others v r := by
  induction h with
  | here r => exact .here r
  | there hget hnext _ ih => exact .there hget (himp _ _ hnext) ih

/-- From a new value only new objects are reached. -/
theorem Reaches.fresh {v : JsValue} {r : Ref}
    (h : JsHeap.Reaches (heap ++ copies) JsObject.Holds v r)
    (hcopies : ∀ o ∈ copies, o.Fresh heap.length) (hv : v.Local heap.length) : heap.length ≤ r := by
  induction h with
  | here r => exact hv r rfl
  | @there r s o w hget hnext hrest ih =>
    rw [List.getElem?_append_right (hv r rfl)] at hget
    exact ih ((hcopies o (List.mem_of_getElem? hget)).holds hnext)

/-- Nothing unusual can be reached from a fresh copy. -/
theorem usual_of_fresh {v : JsValue} (hcopies : ∀ o ∈ copies, o.Fresh heap.length)
    (hv : v.Local heap.length) : JsHeap.Usual (heap ++ copies) v := by
  intro r o hreaches hget
  have hbase := (hreaches.mono fun _ _ => JsObject.Shows.holds).fresh hcopies hv
  rw [List.getElem?_append_right hbase] at hget
  exact (hcopies o (List.mem_of_getElem? hget)).usual

end JsHeap

namespace JsData
variable {base : ℕ}

theorem allocItems_fresh {items : List JsData}
    (h : ∀ t ∈ items, ∀ copies, (∀ o ∈ copies, o.Fresh base) →
      (∀ o ∈ (alloc base copies t).2, o.Fresh base) ∧ (alloc base copies t).1.Local base)
    {copies : JsHeap} (hcopies : ∀ o ∈ copies, o.Fresh base) :
    (∀ o ∈ (allocItems base copies items).2, o.Fresh base) ∧
      ∀ v ∈ (allocItems base copies items).1, v.Local base := by
  induction items generalizing copies with
  | nil => exact ⟨hcopies, by simp [allocItems]⟩
  | cons t items ih =>
    obtain ⟨ht, hitems⟩ := List.forall_mem_cons.mp h
    obtain ⟨hfirst, hlocal⟩ := ht copies hcopies
    obtain ⟨hrest, hlocals⟩ := ih hitems hfirst
    exact ⟨hrest, List.forall_mem_cons.mpr ⟨hlocal, hlocals⟩⟩

theorem allocFields_fresh {fields : Fields}
    (h : ∀ field ∈ fields, ∀ copies, (∀ o ∈ copies, o.Fresh base) →
      (∀ o ∈ (alloc base copies field.2).2, o.Fresh base) ∧
        (alloc base copies field.2).1.Local base)
    {copies : JsHeap} (hcopies : ∀ o ∈ copies, o.Fresh base) :
    (∀ o ∈ (allocFields base copies fields).2, o.Fresh base) ∧
      ∀ member ∈ (allocFields base copies fields).1, member.2.Local base := by
  induction fields generalizing copies with
  | nil => exact ⟨hcopies, by simp [allocFields]⟩
  | cons field fields ih =>
    obtain ⟨hfield, hfields⟩ := List.forall_mem_cons.mp h
    obtain ⟨hfirst, hlocal⟩ := hfield copies hcopies
    obtain ⟨hrest, hlocals⟩ := ih hfields hfirst
    exact ⟨hrest, List.forall_mem_cons.mpr ⟨hlocal, hlocals⟩⟩

/-- Every object of a copy is a literal, whose references stay inside the copy. -/
theorem alloc_fresh (t : JsData) : ∀ copies, (∀ o ∈ copies, o.Fresh base) →
    (∀ o ∈ (alloc base copies t).2, o.Fresh base) ∧ (alloc base copies t).1.Local base := by
  induction t with
  | null | bool | number | string =>
    intro copies hcopies
    exact ⟨hcopies, by simp [alloc, JsValue.Local]⟩
  | array items ih =>
    intro copies hcopies
    obtain ⟨hfresh, hlocal⟩ := allocItems_fresh ih hcopies
    refine ⟨fun o ho => ?_, ?_⟩
    · rcases List.mem_append.mp ho with ho | ho
      · exact hfresh o ho
      · exact .inl ⟨_, List.mem_singleton.mp ho, hlocal⟩
    · rintro r ⟨⟩
      exact Nat.le_add_right _ _
  | object fields ih =>
    intro copies hcopies
    obtain ⟨hfresh, hlocal⟩ := allocFields_fresh ih hcopies
    refine ⟨fun o ho => ?_, ?_⟩
    · rcases List.mem_append.mp ho with ho | ho
      · exact hfresh o ho
      · exact .inr ⟨_, List.mem_singleton.mp ho, hlocal⟩
    · rintro r ⟨⟩
      exact Nat.le_add_right _ _

end JsData
end Skein
