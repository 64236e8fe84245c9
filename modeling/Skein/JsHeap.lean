import Mathlib.Data.List.Forall2
import Mathlib.Data.List.NodupEquivFin
import Skein.JsData

/-!
# JavaScript objects in memory

Objects with identity: arrays with holes and extra properties, accessors, symbols, prototypes,
methods that `JSON.stringify` calls. A value is compared with data by what can be seen of it:
the elements of an array, and the enumerable properties of an object whose prototype is plain.
An accessor answers the same whenever it is read, and a property that is inherited is not read.
-/
namespace Skein

/-- The address of an object. -/
abbrev Ref := ℕ

inductive JsValue
  | undefined
  | null
  | bool (b : Bool)
  | number (n : JsNumber)
  | string (s : JsString)
  | bigint
  | symbol
  | function
  | ref (r : Ref)

/-- A property, and what reading it answers; a getter may throw. -/
structure JsSlot where
  enumerable : Bool := true
  read : Except Unit JsValue

/-- An array, a wrapper such as `new Number(x)`, a `JSON.rawJSON(text)`, or any other object. A
number or a string is asked of its wrapper by the conversions, which may be its own or inherited
and may throw; the text of a raw object is read as `value`. -/
inductive JsKind
  | ordinary
  | array (elements : List (Option JsSlot))
  | boxedNumber (toNumber : Except Unit JsNumber)
  | boxedString (toString : Except Unit JsString)
  | boxedBool (b : Bool)
  | boxedBigint
  | raw (value : JsData)

def JsKind.isWrapper : JsKind → Bool
  | boxedNumber _ | boxedString _ | boxedBool _ | boxedBigint => true
  | ordinary | array _ | raw _ => false

inductive JsPrototype
  | object | array | null | other
  deriving DecidableEq

def JsPrototype.isPlain : JsPrototype → Bool
  | object | null => true
  | array | other => false

/-- An object. The elements of an array stand apart from its other properties; of its symbols
only the enumerability is kept. `toJson` is what its `toJSON` answers where that is callable,
inherited or not. -/
structure JsObject where
  kind : JsKind := .ordinary
  prototype : JsPrototype := .object
  properties : List (JsString × JsSlot) := []
  symbols : List Bool := []
  toJson : Option (Except Unit JsValue) := none

abbrev JsHeap := List JsObject

namespace JsObject
variable (o : JsObject)

/-- The enumerable properties, in their order. -/
def shown : List (JsString × JsSlot) := o.properties.filter fun property => property.2.enumerable

def elements : List (Option JsSlot) :=
  match o.kind with
  | .array elements => elements
  | _ => []

/-- Whether the object has an enumerable symbol. -/
def showsSymbol : Bool := o.symbols.any id

/-- What a walk over elements and enumerable properties comes to. -/
def Shows (v : JsValue) : Prop :=
  ∃ slot, (some slot ∈ o.elements ∨ slot ∈ o.shown.map Prod.snd) ∧ slot.read = .ok v

/-- Everything an object leads to. -/
def Holds (v : JsValue) : Prop :=
  (∃ slot, (some slot ∈ o.elements ∨ slot ∈ o.properties.map Prod.snd) ∧ slot.read = .ok v) ∨
    o.toJson = some (.ok v)

end JsObject

/-- The objects that `v` leads to by `next`. -/
inductive JsHeap.Reaches (heap : JsHeap) (next : JsObject → JsValue → Prop) : JsValue → Ref → Prop
  | here (r : Ref) : Reaches heap next (.ref r) r
  | there {r s : Ref} {o : JsObject} {v : JsValue} (hget : heap[r]? = some o) (hnext : next o v)
    (hrest : Reaches heap next v s) : Reaches heap next (.ref r) s

/-- What a recursive walk over objects comes to: it may run out of stack, or find what it
cannot take. -/
inductive Walk (α : Type)
  | exhausted
  | invalid
  | valid (a : α)

namespace Walk
variable {α β : Type}

def bind : Walk α → (α → Walk β) → Walk β
  | exhausted, _ => exhausted
  | invalid, _ => invalid
  | valid a, f => f a

instance : Monad Walk where
  pure := valid
  bind := bind

theorem bind_eq_valid {x : Walk α} {f : α → Walk β} {b : β} :
    (x >>= f) = valid b ↔ ∃ a, x = valid a ∧ f a = valid b := by
  cases x <;> simp [Bind.bind, bind]

theorem bind_ne_exhausted {x : Walk α} {f : α → Walk β} (hx : x ≠ exhausted)
    (hf : ∀ a, x = valid a → f a ≠ exhausted) : (x >>= f) ≠ exhausted := by
  cases x with
  | exhausted => exact absurd rfl hx
  | invalid => simp [Bind.bind, bind]
  | valid a => exact hf a rfl

@[simp] theorem pure_eq (a : α) : (pure a : Walk α) = valid a := rfl

end Walk

/-- The value of a property, where its getter does not throw. -/
def JsSlot.get (slot : JsSlot) : Walk JsValue :=
  match slot.read with
  | .ok v => .valid v
  | .error _ => .invalid

namespace JsData

/-- Data is built from scalars, arrays and objects. -/
@[elab_as_elim, induction_eliminator]
theorem induction {P : JsData → Prop} (null : P .null) (bool : ∀ b, P (.bool b))
    (number : ∀ n, P (.number n)) (string : ∀ s, P (.string s))
    (array : ∀ items, (∀ t ∈ items, P t) → P (.array items))
    (object : ∀ fields : Fields, (∀ field ∈ fields, P field.2) → P (.object fields)) (t : JsData) :
    P t := by
  refine @JsData.rec P (fun items => ∀ t ∈ items, P t) (fun fields => ∀ field ∈ fields, P field.2)
    (fun field => P field.2) null bool number string array object ?_ ?_ ?_ ?_ (fun _ _ h => h) t
  · simp
  · intro t items ht hitems
    simpa using And.intro ht hitems
  · simp
  · intro field fields hfield hfields
    simpa using And.intro hfield hfields

mutual
/-- No number in the data is infinite or `NaN`. -/
def Finite : JsData → Prop
  | .number n => n.isFinite
  | .array items => FiniteItems items
  | .object fields => FiniteFields fields
  | .null | .bool _ | .string _ => True

def FiniteItems : List JsData → Prop
  | [] => True
  | t :: items => Finite t ∧ FiniteItems items

def FiniteFields : List (JsString × JsData) → Prop
  | [] => True
  | (_, t) :: fields => Finite t ∧ FiniteFields fields
end

theorem finiteItems_iff {items : List JsData} : FiniteItems items ↔ ∀ t ∈ items, t.Finite := by
  induction items with
  | nil => simp [FiniteItems]
  | cons t items ih => simp [FiniteItems, ih]

theorem finiteFields_iff {fields : Fields} :
    FiniteFields fields ↔ ∀ field ∈ fields, field.2.Finite := by
  induction fields with
  | nil => simp [FiniteFields]
  | cons field fields ih => simp [FiniteFields, ih]

end JsData

namespace JsHeap

mutual
/-- The value is the data, deeply: the zeros are one number, and neither the order of a walk
nor the sharing of objects is seen. -/
def Equals (heap : JsHeap) : JsValue → JsData → Prop
  | v, .null => v = .null
  | v, .bool b => v = .bool b
  | v, .number n => v = .number n
  | v, .string s => v = .string s
  | v, .array items =>
    ∃ r o elements, v = .ref r ∧ heap[r]? = some o ∧ o.kind = .array elements ∧ o.shown = [] ∧
      o.showsSymbol = false ∧ EqualsElements heap elements items
  | v, .object fields =>
    ∃ r o, v = .ref r ∧ heap[r]? = some o ∧ o.kind = .ordinary ∧ o.prototype.isPlain = true ∧
      o.showsSymbol = false ∧ EqualsFields heap o.shown fields

def EqualsElements (heap : JsHeap) : List (Option JsSlot) → List JsData → Prop
  | elements, [] => elements = []
  | elements, t :: items =>
    ∃ slot rest v, elements = some slot :: rest ∧ slot.read = .ok v ∧ Equals heap v t ∧
      EqualsElements heap rest items

def EqualsFields (heap : JsHeap) : List (JsString × JsSlot) → List (JsString × JsData) → Prop
  | properties, [] => properties = []
  | properties, (key, t) :: fields =>
    ∃ slot rest v, properties = (key, slot) :: rest ∧ slot.read = .ok v ∧ Equals heap v t ∧
      EqualsFields heap rest fields
end

variable {heap : JsHeap}

def ElementIs (heap : JsHeap) (element : Option JsSlot) (t : JsData) : Prop :=
  ∃ slot v, element = some slot ∧ slot.read = .ok v ∧ heap.Equals v t

def FieldIs (heap : JsHeap) (property : JsString × JsSlot) (field : JsString × JsData) : Prop :=
  property.1 = field.1 ∧ ∃ v, property.2.read = .ok v ∧ heap.Equals v field.2

theorem equalsElements_iff {elements : List (Option JsSlot)} {items : List JsData} :
    heap.EqualsElements elements items ↔ List.Forall₂ heap.ElementIs elements items := by
  induction items generalizing elements with
  | nil => simp [EqualsElements]
  | cons t items ih =>
    rw [EqualsElements, List.forall₂_cons_right_iff]
    constructor
    · rintro ⟨slot, rest, v, rfl, hread, hv, hrest⟩
      exact ⟨_, rest, ⟨slot, v, rfl, hread, hv⟩, ih.mp hrest, rfl⟩
    · rintro ⟨_, rest, ⟨slot, v, rfl, hread, hv⟩, hrest, rfl⟩
      exact ⟨slot, rest, v, rfl, hread, hv, ih.mpr hrest⟩

theorem equalsFields_iff {properties : List (JsString × JsSlot)} {fields : JsData.Fields} :
    heap.EqualsFields properties fields ↔ List.Forall₂ heap.FieldIs properties fields := by
  induction fields generalizing properties with
  | nil => simp [EqualsFields]
  | cons field fields ih =>
    obtain ⟨key, t⟩ := field
    rw [EqualsFields, List.forall₂_cons_right_iff]
    constructor
    · rintro ⟨slot, rest, v, rfl, hread, hv, hrest⟩
      exact ⟨_, rest, ⟨rfl, v, hread, hv⟩, ih.mp hrest, rfl⟩
    · rintro ⟨⟨_, slot⟩, rest, ⟨rfl, v, hread, hv⟩, hrest, rfl⟩
      exact ⟨slot, rest, v, rfl, hread, hv, ih.mpr hrest⟩

theorem equals_array {v : JsValue} {items : List JsData} :
    heap.Equals v (.array items) ↔ ∃ r o elements, v = .ref r ∧ heap[r]? = some o ∧
      o.kind = .array elements ∧ o.shown = [] ∧ o.showsSymbol = false ∧
      List.Forall₂ heap.ElementIs elements items := by
  simp only [Equals, equalsElements_iff]

theorem equals_object {v : JsValue} {fields : JsData.Fields} :
    heap.Equals v (.object fields) ↔ ∃ r o, v = .ref r ∧ heap[r]? = some o ∧
      o.kind = .ordinary ∧ o.prototype.isPlain = true ∧ o.showsSymbol = false ∧
      List.Forall₂ heap.FieldIs o.shown fields := by
  simp only [Equals, equalsFields_iff]

private theorem forall₂_unique {α β : Type*} {R : α → β → Prop} {xs : List α} {ys zs : List β}
    (hys : List.Forall₂ R xs ys) (hzs : List.Forall₂ R xs zs)
    (hunique : ∀ x, ∀ y ∈ ys, ∀ z, R x y → R x z → y = z) : ys = zs := by
  induction hys generalizing zs with
  | nil =>
    cases hzs
    rfl
  | cons hxy hrest ih =>
    obtain ⟨z, others, hxz, hothers, rfl⟩ := List.forall₂_cons_left_iff.mp hzs
    rw [hunique _ _ List.mem_cons_self _ hxy hxz,
      ih hothers fun x y hy z => hunique x y (List.mem_cons_of_mem _ hy) z]

theorem forall₂_exists_of_mem {α β : Type*} {R : α → β → Prop} {xs : List α} {ys : List β}
    (hys : List.Forall₂ R xs ys) {x : α} (hx : x ∈ xs) : ∃ y ∈ ys, R x y := by
  induction hys with
  | nil => simp at hx
  | cons hxy hrest ih =>
    rcases List.mem_cons.mp hx with rfl | hx
    · exact ⟨_, List.mem_cons_self, hxy⟩
    · obtain ⟨y, hy, hxy⟩ := ih hx
      exact ⟨y, List.mem_cons_of_mem _ hy, hxy⟩

theorem forall₂_imp_of_mem {α β : Type*} {R S : α → β → Prop} {xs : List α} {ys : List β}
    (hys : List.Forall₂ R xs ys) (himp : ∀ x ∈ xs, ∀ y ∈ ys, R x y → S x y) :
    List.Forall₂ S xs ys := by
  induction hys with
  | nil => exact .nil
  | cons hxy hrest ih =>
    exact .cons (himp _ List.mem_cons_self _ List.mem_cons_self hxy)
      (ih fun x hx y hy => himp x (List.mem_cons_of_mem _ hx) y (List.mem_cons_of_mem _ hy))

/-- A value is one data at most. -/
theorem Equals.unique {t : JsData} : ∀ {v : JsValue} {s : JsData},
    heap.Equals v t → heap.Equals v s → t = s := by
  induction t with
  | null | bool | number | string =>
    intro v s hv hs
    simp only [Equals] at hv
    subst hv
    cases s <;> simp_all [Equals]
  | array items ih =>
    intro v s hv hs
    obtain ⟨r, o, elements, rfl, hget, hkind, -, -, hitems⟩ := equals_array.mp hv
    cases s with
    | array others =>
      obtain ⟨_, _, _, ⟨⟩, hget', hkind', -, -, hothers⟩ := equals_array.mp hs
      rw [hget] at hget'
      obtain rfl := Option.some.inj hget'
      rw [hkind] at hkind'
      obtain rfl := JsKind.array.inj hkind'
      rw [forall₂_unique hitems hothers]
      rintro element t ht u ⟨slot, v, rfl, hread, hv⟩ ⟨_, w, ⟨⟩, hread', hw⟩
      rw [hread] at hread'
      obtain rfl := Except.ok.inj hread'
      exact ih t ht hv hw
    | object fields =>
      obtain ⟨_, _, ⟨⟩, hget', hkind', -⟩ := equals_object.mp hs
      rw [hget] at hget'
      obtain rfl := Option.some.inj hget'
      rw [hkind] at hkind'
      cases hkind'
    | _ => simp [Equals] at hs
  | object fields ih =>
    intro v s hv hs
    obtain ⟨r, o, rfl, hget, hkind, -, -, hfields⟩ := equals_object.mp hv
    cases s with
    | array items =>
      obtain ⟨_, _, _, ⟨⟩, hget', hkind', -⟩ := equals_array.mp hs
      rw [hget] at hget'
      obtain rfl := Option.some.inj hget'
      rw [hkind] at hkind'
      cases hkind'
    | object others =>
      obtain ⟨_, _, ⟨⟩, hget', -, -, -, hothers⟩ := equals_object.mp hs
      rw [hget] at hget'
      obtain rfl := Option.some.inj hget'
      rw [forall₂_unique hfields hothers]
      rintro ⟨key, slot⟩ ⟨_, t⟩ ht ⟨_, u⟩ ⟨rfl, v, hread, hv⟩ ⟨rfl, w, hread', hw⟩
      rw [hread] at hread'
      obtain rfl := Except.ok.inj hread'
      exact congrArg (Prod.mk key) (ih _ ht hv hw)
    | _ => simp [Equals] at hs

theorem getElem?_append {r : Ref} {o : JsObject} (more : JsHeap) (h : heap[r]? = some o) :
    (heap ++ more)[r]? = some o := by
  obtain ⟨hlt, -⟩ := List.getElem?_eq_some_iff.mp h
  rwa [List.getElem?_append_left hlt]

/-- New objects change no value. -/
theorem Equals.append {t : JsData} (more : JsHeap) : ∀ {v : JsValue},
    heap.Equals v t → JsHeap.Equals (heap ++ more) v t := by
  induction t with
  | null | bool | number | string => exact fun h => by simpa only [Equals] using h
  | array items ih =>
    intro v h
    obtain ⟨r, o, elements, rfl, hget, hkind, hshown, hsymbol, hitems⟩ := equals_array.mp h
    refine equals_array.mpr ⟨r, o, elements, rfl, getElem?_append more hget, hkind, hshown,
      hsymbol, forall₂_imp_of_mem hitems ?_⟩
    rintro element - t ht ⟨slot, v, rfl, hread, hv⟩
    exact ⟨slot, v, rfl, hread, ih t ht hv⟩
  | object fields ih =>
    intro v h
    obtain ⟨r, o, rfl, hget, hkind, hplain, hsymbol, hfields⟩ := equals_object.mp h
    refine equals_object.mpr ⟨r, o, rfl, getElem?_append more hget, hkind, hplain, hsymbol,
      forall₂_imp_of_mem hfields ?_⟩
    rintro ⟨key, slot⟩ - field ht ⟨hkey, v, hread, hv⟩
    exact ⟨hkey, v, hread, ih field ht hv⟩

/-- The elements of an array; a hole, like whatever is no data, becomes `null`. -/
def jsonElements (visit : JsValue → Walk (Option JsData)) :
    List (Option JsSlot) → Walk (List JsData)
  | [] => pure []
  | element :: rest => do
    let v ← element.elim (pure .undefined) JsSlot.get
    let t ← visit v
    let ts ← jsonElements visit rest
    return t.getD .null :: ts

/-- The enumerable properties of an object, without those that are no data. -/
def jsonFields (visit : JsValue → Walk (Option JsData)) :
    List (JsString × JsSlot) → Walk JsData.Fields
  | [] => pure []
  | (key, slot) :: rest => do
    let v ← slot.get
    let t ← visit v
    let ts ← jsonFields visit rest
    return (t.map (Prod.mk key)).toList ++ ts

def jsonScalar : JsValue → Walk (Option JsData)
  | .undefined | .symbol | .function => pure none
  | .null => pure (some .null)
  | .bool b => pure (some (.bool b))
  | .number n => pure (some (if n.isFinite then .number n else .null))
  | .string s => pure (some (.string s))
  | .bigint | .ref _ => .invalid

/-- An object that is not among its own `ancestors`. -/
def jsonObject (visit : JsValue → Walk (Option JsData)) (o : JsObject) : Walk (Option JsData) :=
  match o.kind with
  | .boxedNumber (.ok n) => jsonScalar (.number n)
  | .boxedString (.ok s) => jsonScalar (.string s)
  | .boxedBool b => jsonScalar (.bool b)
  | .boxedNumber (.error _) | .boxedString (.error _) | .boxedBigint => .invalid
  | .raw value => pure (some value)
  | .array elements => do return some (.array (← jsonElements visit elements))
  | .ordinary => do return some (.object (← jsonFields visit o.shown))

/-- A value whose `toJSON` has been called. -/
def jsonPrepared (heap : JsHeap) (visit : List Ref → JsValue → Walk (Option JsData))
    (ancestors : List Ref) : JsValue → Walk (Option JsData)
  | .ref r =>
    if r ∈ ancestors then .invalid
    else match heap[r]? with
      | none => .invalid
      | some o => jsonObject (visit (r :: ancestors)) o
  | scalar => jsonScalar scalar

def jsonLevel (heap : JsHeap) (visit : List Ref → JsValue → Walk (Option JsData))
    (ancestors : List Ref) (v : JsValue) : Walk (Option JsData) :=
  match v with
  | .ref r =>
    match heap[r]?.bind JsObject.toJson with
    | none => jsonPrepared heap visit ancestors v
    | some (.error _) => .invalid
    | some (.ok w) => jsonPrepared heap visit ancestors w
  | scalar => jsonScalar scalar

def jsonTree (heap : JsHeap) : ℕ → List Ref → JsValue → Walk (Option JsData)
  | 0 => fun _ _ => .exhausted
  | depth + 1 => jsonLevel heap (jsonTree heap depth)

/-- What is read back of the text of a value; a value that is no data has no text. The stack
is deep enough for objects that are their own ancestors nowhere. -/
def jsonRoundTrip (heap : JsHeap) (v : JsValue) : Option JsData :=
  match jsonTree heap (heap.length + 1) [] v with
  | .valid t => t
  | .exhausted | .invalid => none

/-- The objects a walk is inside of: each once, and each of the heap. -/
structure Inside (heap : JsHeap) (ancestors : List Ref) : Prop where
  nodup : ancestors.Nodup
  valid : ∀ r ∈ ancestors, r < heap.length

theorem Inside.nil : heap.Inside [] := ⟨List.nodup_nil, by simp⟩

theorem Inside.cons {ancestors : List Ref} {r : Ref} {o : JsObject} (h : heap.Inside ancestors)
    (hget : heap[r]? = some o) (hnot : r ∉ ancestors) : heap.Inside (r :: ancestors) where
  nodup := List.nodup_cons.mpr ⟨hnot, h.nodup⟩
  valid := by
    obtain ⟨hlt, -⟩ := List.getElem?_eq_some_iff.mp hget
    simpa using And.intro hlt h.valid

theorem Inside.length_le {ancestors : List Ref} (h : heap.Inside ancestors) :
    ancestors.length ≤ heap.length := by
  have hsub : ancestors ⊆ List.range heap.length := fun r hr => List.mem_range.mpr (h.valid r hr)
  simpa using (h.nodup.subperm hsub).length_le

theorem JsSlot.get_ne_exhausted (slot : JsSlot) : slot.get ≠ .exhausted := by
  unfold Skein.JsSlot.get
  split <;> simp

section Json
variable {visit : JsValue → Walk (Option JsData)}

theorem jsonElements_ne_exhausted (hvisit : ∀ v, visit v ≠ .exhausted)
    (elements : List (Option JsSlot)) : jsonElements visit elements ≠ .exhausted := by
  induction elements with
  | nil => simp [jsonElements]
  | cons element rest ih =>
    refine Walk.bind_ne_exhausted ?_ fun v _ => Walk.bind_ne_exhausted (hvisit v) fun t _ =>
      Walk.bind_ne_exhausted ih fun ts _ => by simp
    cases element with
    | none => simp
    | some slot => exact JsSlot.get_ne_exhausted slot

theorem jsonFields_ne_exhausted (hvisit : ∀ v, visit v ≠ .exhausted)
    (properties : List (JsString × JsSlot)) : jsonFields visit properties ≠ .exhausted := by
  induction properties with
  | nil => simp [jsonFields]
  | cons property rest ih =>
    exact Walk.bind_ne_exhausted (JsSlot.get_ne_exhausted _) fun v _ =>
      Walk.bind_ne_exhausted (hvisit v) fun t _ => Walk.bind_ne_exhausted ih fun ts _ => by simp

theorem jsonScalar_ne_exhausted (v : JsValue) : jsonScalar v ≠ .exhausted := by
  cases v <;> simp [jsonScalar]

theorem jsonObject_ne_exhausted (hvisit : ∀ v, visit v ≠ .exhausted) (o : JsObject) :
    jsonObject visit o ≠ .exhausted := by
  unfold jsonObject
  split <;> try simp [jsonScalar]
  · exact Walk.bind_ne_exhausted (jsonElements_ne_exhausted hvisit _) fun _ _ => by simp
  · exact Walk.bind_ne_exhausted (jsonFields_ne_exhausted hvisit _) fun _ _ => by simp

end Json

/-- The depth that `jsonRoundTrip` starts with suffices for every value. -/
theorem jsonTree_ne_exhausted {depth : ℕ} : ∀ {ancestors : List Ref}, heap.Inside ancestors →
    heap.length < depth + ancestors.length → ∀ v, jsonTree heap depth ancestors v ≠ .exhausted := by
  induction depth with
  | zero =>
    intro ancestors h hdepth
    have := h.length_le
    omega
  | succ depth ih =>
    intro ancestors h hdepth
    have hprepared : ∀ v, jsonPrepared heap (jsonTree heap depth) ancestors v ≠ .exhausted := by
      intro v
      unfold jsonPrepared
      split
      next r =>
        split_ifs with hmem
        · simp
        · cases hget : heap[r]? with
          | none => simp
          | some o =>
            refine jsonObject_ne_exhausted (fun w => ih (h.cons hget hmem) ?_ w) o
            simp only [List.length_cons]
            omega
      · exact jsonScalar_ne_exhausted _
    intro v
    unfold jsonTree jsonLevel
    split
    · split
      · exact hprepared _
      · simp
      · exact hprepared _
    · exact jsonScalar_ne_exhausted _

theorem JsSlot.get_eq_valid {slot : JsSlot} {v : JsValue} :
    slot.get = .valid v ↔ slot.read = .ok v := by
  unfold Skein.JsSlot.get
  cases slot.read <;> simp

end JsHeap

/-- An object that hides nothing of its text: its elements and its symbols are enumerable, a
wrapper has its own prototype, it is no raw JSON, and a `toJSON` shows in its prototype or among
its properties. -/
structure JsObject.Usual (o : JsObject) : Prop where
  elements : ∀ slot, some slot ∈ o.elements → slot.enumerable = true
  symbols : ∀ enumerable ∈ o.symbols, enumerable = true
  wrapper : o.kind.isWrapper = true → o.prototype.isPlain = false
  notRaw : ∀ value, o.kind ≠ .raw value
  toJson : o.toJson ≠ none → (o.kind = .ordinary ∧ o.prototype.isPlain = false) ∨
    o.kind.isWrapper = true ∨ ∃ property ∈ o.shown, property.2.read = .ok .function

/-- Beside arrays only ordinary objects that hide nothing have a plain prototype. -/
theorem JsObject.Usual.ordinary {o : JsObject} (h : o.Usual)
    (hkind : ∀ elements, o.kind ≠ .array elements) (hplain : o.prototype.isPlain = true) :
    o.kind = .ordinary := by
  cases hcase : o.kind with
  | ordinary => rfl
  | array elements => exact absurd hcase (hkind elements)
  | raw value => exact absurd hcase (h.notRaw value)
  | _ =>
    have hother := h.wrapper (by rw [hcase]; rfl)
    rw [hplain] at hother
    cases hother

namespace JsHeap
variable {heap : JsHeap}

/-- What can be seen from the value hides nothing. -/
def Usual (heap : JsHeap) (v : JsValue) : Prop :=
  ∀ r o, heap.Reaches JsObject.Shows v r → heap[r]? = some o → o.Usual

theorem Usual.object {r : Ref} {o : JsObject} (h : heap.Usual (.ref r)) (hget : heap[r]? = some o) :
    o.Usual := h r o (.here r) hget

theorem Usual.shown {r : Ref} {o : JsObject} {v : JsValue} (h : heap.Usual (.ref r))
    (hget : heap[r]? = some o) (hshows : o.Shows v) : heap.Usual v :=
  fun s p hreaches => h s p (.there hget hshows hreaches)

theorem not_equals_function {t : JsData} : ¬heap.Equals .function t := by
  cases t <;> simp [Equals]

/-- Data has no `toJSON`. -/
theorem Equals.toJson_eq_none {r : Ref} {o : JsObject} {t : JsData}
    (h : heap.Equals (.ref r) t) (hget : heap[r]? = some o) (husual : o.Usual) :
    o.toJson = none := by
  by_contra hjson
  have hcases := husual.toJson hjson
  cases t with
  | array items =>
    obtain ⟨_, _, elements, ⟨⟩, hget', hkind, hshown, -⟩ := equals_array.mp h
    rw [hget] at hget'
    obtain rfl := Option.some.inj hget'
    simp [hkind, hshown, JsKind.isWrapper] at hcases
  | object fields =>
    obtain ⟨_, _, ⟨⟩, hget', hkind, hplain, -, hfields⟩ := equals_object.mp h
    rw [hget] at hget'
    obtain rfl := Option.some.inj hget'
    simp only [hkind, hplain, JsKind.isWrapper, true_and, Bool.true_eq_false, Bool.false_eq_true,
      false_or] at hcases
    obtain ⟨property, hmem, hread⟩ := hcases
    obtain ⟨field, -, -, v, hread', hv⟩ := forall₂_exists_of_mem hfields hmem
    obtain rfl := Except.ok.inj (hread.symm.trans hread')
    exact not_equals_function hv
  | _ => simp [Equals] at h

/-- Every ancestor is data that `t` is a part of. -/
def Around (heap : JsHeap) (ancestors : List Ref) (t : JsData) : Prop :=
  ∀ a ∈ ancestors, ∃ s, heap.Equals (.ref a) s ∧ sizeOf t < sizeOf s

theorem Around.notMem {ancestors : List Ref} {r : Ref} {t : JsData} (h : heap.Around ancestors t)
    (ht : heap.Equals (.ref r) t) : r ∉ ancestors := by
  intro hmem
  obtain ⟨s, hs, hlt⟩ := h r hmem
  exact absurd (ht.unique hs ▸ hlt) (lt_irrefl _)

theorem Around.part {ancestors : List Ref} {r : Ref} {t s : JsData} (h : heap.Around ancestors t)
    (ht : heap.Equals (.ref r) t) (hpart : sizeOf s < sizeOf t) :
    heap.Around (r :: ancestors) s := by
  intro a ha
  rcases List.mem_cons.mp ha with rfl | ha
  · exact ⟨t, ht, hpart⟩
  · obtain ⟨u, hu, hlt⟩ := h a ha
    exact ⟨u, hu, hpart.trans hlt⟩

theorem sizeOf_lt_array {items : List JsData} {t : JsData} (h : t ∈ items) :
    sizeOf t < sizeOf (JsData.array items) := by
  have hlt := List.sizeOf_lt_of_mem h
  simp only [JsData.array.sizeOf_spec]
  omega

theorem sizeOf_lt_object {fields : JsData.Fields} {field : JsString × JsData} (h : field ∈ fields) :
    sizeOf field.2 < sizeOf (JsData.object fields) := by
  have hlt := List.sizeOf_lt_of_mem h
  have hfield : sizeOf field = 1 + sizeOf field.1 + sizeOf field.2 := rfl
  simp only [JsData.object.sizeOf_spec]
  omega

section Reading
variable {visit : JsValue → Walk (Option JsData)}

theorem jsonElements_of_elementIs {elements : List (Option JsSlot)} {items : List JsData}
    (h : List.Forall₂ heap.ElementIs elements items)
    (hvisit : ∀ slot v t, some slot ∈ elements → t ∈ items → slot.read = .ok v →
      heap.Equals v t → visit v = .valid (some t)) :
    jsonElements visit elements = .valid items := by
  induction h with
  | nil => rfl
  | @cons element t elements items hfirst hrest ih =>
    obtain ⟨slot, v, rfl, hread, hv⟩ := hfirst
    have hmore := ih fun slot v t hslot ht =>
      hvisit slot v t (List.mem_cons_of_mem _ hslot) (List.mem_cons_of_mem _ ht)
    refine Walk.bind_eq_valid.mpr ⟨v, JsSlot.get_eq_valid.mpr hread, ?_⟩
    refine Walk.bind_eq_valid.mpr ⟨some t, ?_, ?_⟩
    · exact hvisit slot v t List.mem_cons_self List.mem_cons_self hread hv
    · exact Walk.bind_eq_valid.mpr ⟨items, hmore, rfl⟩

theorem jsonFields_of_fieldIs {properties : List (JsString × JsSlot)} {fields : JsData.Fields}
    (h : List.Forall₂ heap.FieldIs properties fields)
    (hvisit : ∀ property v, ∀ field : JsString × JsData, property ∈ properties → field ∈ fields →
      property.2.read = .ok v → heap.Equals v field.2 → visit v = .valid (some field.2)) :
    jsonFields visit properties = .valid fields := by
  induction h with
  | nil => rfl
  | @cons property field properties fields hfirst hrest ih =>
    obtain ⟨hkey, v, hread, hv⟩ := hfirst
    have hmore := ih fun property v field hproperty hfield =>
      hvisit property v field (List.mem_cons_of_mem _ hproperty) (List.mem_cons_of_mem _ hfield)
    refine Walk.bind_eq_valid.mpr ⟨v, JsSlot.get_eq_valid.mpr hread, ?_⟩
    refine Walk.bind_eq_valid.mpr ⟨some field.2, ?_, ?_⟩
    · exact hvisit property v field List.mem_cons_self List.mem_cons_self hread hv
    · refine Walk.bind_eq_valid.mpr ⟨fields, hmore, ?_⟩
      simp [hkey]

end Reading

/-- Finite data that hides nothing is read back as it is. -/
theorem jsonTree_of_equals {depth : ℕ} : ∀ {ancestors : List Ref} {v : JsValue} {t : JsData},
    heap.Inside ancestors → heap.length < depth + ancestors.length →
      heap.Around ancestors t → heap.Usual v → heap.Equals v t → t.Finite →
        jsonTree heap depth ancestors v = .valid (some t) := by
  induction depth with
  | zero =>
    intro ancestors v t hinside hdepth
    have := hinside.length_le
    omega
  | succ depth ih =>
    intro ancestors v t hinside hdepth haround husual hequals hfinite
    cases t with
    | null | bool | string =>
      simp only [Equals] at hequals
      subst hequals
      rfl
    | number n =>
      simp only [Equals] at hequals
      subst hequals
      simp only [JsData.Finite] at hfinite
      simp [jsonTree, jsonLevel, jsonScalar, hfinite]
    | array items =>
      obtain ⟨r, o, elements, rfl, hget, hkind, -, -, hitems⟩ := equals_array.mp hequals
      have hnot := haround.notMem hequals
      have hjson := hequals.toJson_eq_none hget (husual.object hget)
      have hread : jsonElements (jsonTree heap depth (r :: ancestors)) elements = .valid items := by
        refine jsonElements_of_elementIs hitems fun slot w t hslot ht hread hw => ?_
        refine ih (hinside.cons hget hnot) (by simp only [List.length_cons]; omega)
          (haround.part hequals (sizeOf_lt_array ht)) (husual.shown hget ⟨slot, ?_, hread⟩) hw
          (JsData.finiteItems_iff.mp hfinite t ht)
        simp [JsObject.elements, hkind, hslot]
      simp [jsonTree, jsonLevel, jsonPrepared, jsonObject, hget, hjson, hnot, hkind, hread,
        Bind.bind, Walk.bind]
    | object fields =>
      obtain ⟨r, o, rfl, hget, hkind, -, -, hfields⟩ := equals_object.mp hequals
      have hnot := haround.notMem hequals
      have hjson := hequals.toJson_eq_none hget (husual.object hget)
      have hread : jsonFields (jsonTree heap depth (r :: ancestors)) o.shown = .valid fields := by
        refine jsonFields_of_fieldIs hfields fun property w field hproperty hfield hread hw => ?_
        exact ih (hinside.cons hget hnot) (by simp only [List.length_cons]; omega)
          (haround.part hequals (sizeOf_lt_object hfield))
          (husual.shown hget ⟨property.2, .inr (List.mem_map_of_mem hproperty), hread⟩) hw
          (JsData.finiteFields_iff.mp hfinite field hfield)
      simp [jsonTree, jsonLevel, jsonPrepared, jsonObject, hget, hjson, hnot, hkind, hread,
        Bind.bind, Walk.bind]

section Finite
variable {visit : JsValue → Walk (Option JsData)}

theorem jsonElements_finite {elements : List (Option JsSlot)} {items : List JsData}
    (h : List.Forall₂ heap.ElementIs elements items)
    (hread : jsonElements visit elements = .valid items)
    (hvisit : ∀ slot v t, some slot ∈ elements → slot.read = .ok v → heap.Equals v t →
      visit v = .valid (some t) → t.Finite) : ∀ t ∈ items, t.Finite := by
  induction h with
  | nil => simp
  | @cons element t elements items hfirst hrest ih =>
    obtain ⟨slot, v, rfl, hslot, hv⟩ := hfirst
    simp only [jsonElements, Walk.bind_eq_valid] at hread
    obtain ⟨w, hw, found, hfound, others, hothers, hcons⟩ := hread
    obtain ⟨hitem, rfl⟩ := List.cons.inj (Walk.valid.inj hcons)
    obtain rfl : v = w := Except.ok.inj (hslot.symm.trans (JsSlot.get_eq_valid.mp hw))
    have hhead : t.Finite := by
      cases found with
      | none =>
        subst hitem
        simp [JsData.Finite]
      | some found =>
        obtain rfl : found = t := hitem
        exact hvisit slot v found List.mem_cons_self hslot hv hfound
    have htail := ih hothers fun slot v t hmem => hvisit slot v t (List.mem_cons_of_mem _ hmem)
    simpa using And.intro hhead htail

theorem length_jsonFields_le {properties : List (JsString × JsSlot)} {fields : JsData.Fields}
    (h : jsonFields visit properties = .valid fields) : fields.length ≤ properties.length := by
  induction properties generalizing fields with
  | nil =>
    cases h
    simp
  | cons property rest ih =>
    simp only [jsonFields, Walk.bind_eq_valid] at h
    obtain ⟨v, -, found, -, others, hothers, hfields⟩ := h
    obtain rfl := Walk.valid.inj hfields
    have := ih hothers
    cases found <;> simp <;> omega

theorem jsonFields_finite {properties : List (JsString × JsSlot)} {fields : JsData.Fields}
    (h : List.Forall₂ heap.FieldIs properties fields)
    (hread : jsonFields visit properties = .valid fields)
    (hvisit : ∀ property v t, property ∈ properties → property.2.read = .ok v →
      heap.Equals v t → visit v = .valid (some t) → t.Finite) :
    ∀ field ∈ fields, field.2.Finite := by
  induction h with
  | nil => simp
  | @cons property field properties fields hfirst hrest ih =>
    obtain ⟨hkey, v, hslot, hv⟩ := hfirst
    simp only [jsonFields, Walk.bind_eq_valid] at hread
    obtain ⟨w, hw, found, hfound, others, hothers, hcons⟩ := hread
    obtain rfl : v = w := Except.ok.inj (hslot.symm.trans (JsSlot.get_eq_valid.mp hw))
    cases found with
    | none =>
      have hall : others = field :: fields := by simpa using Walk.valid.inj hcons
      have hlength := length_jsonFields_le hothers
      rw [hall, hrest.length_eq, List.length_cons] at hlength
      omega
    | some found =>
      obtain ⟨hfield, rfl⟩ := List.cons.inj (Walk.valid.inj hcons)
      have hhead : field.2.Finite := by
        rw [← hfield] at hv ⊢
        exact hvisit property v found List.mem_cons_self hslot hv hfound
      have htail := ih hothers fun property v t hmem =>
        hvisit property v t (List.mem_cons_of_mem _ hmem)
      simpa using And.intro hhead htail

end Finite

/-- Of what is read back as itself no number is other than finite. -/
theorem jsonTree_finite {depth : ℕ} : ∀ {ancestors : List Ref} {v : JsValue} {t : JsData},
    heap.Usual v → heap.Equals v t → jsonTree heap depth ancestors v = .valid (some t) →
      t.Finite := by
  induction depth with
  | zero =>
    intro ancestors v t _ _ h
    cases h
  | succ depth ih =>
    intro ancestors v t husual hequals h
    cases t with
    | null | bool | string => trivial
    | number n =>
      simp only [Equals] at hequals
      subst hequals
      simp only [jsonTree, jsonLevel, jsonScalar, Walk.pure_eq, Walk.valid.injEq,
        Option.some.injEq] at h
      split_ifs at h with hfinite
      exact hfinite
    | array items =>
      obtain ⟨r, o, elements, rfl, hget, hkind, -, -, hitems⟩ := equals_array.mp hequals
      have hjson := hequals.toJson_eq_none hget (husual.object hget)
      simp only [jsonTree, jsonLevel, jsonPrepared, jsonObject, hget, Option.bind_some, hjson,
        hkind] at h
      split_ifs at h
      obtain ⟨found, hread, hfound⟩ := Walk.bind_eq_valid.mp h
      obtain rfl : found = items := by simpa using hfound
      refine JsData.finiteItems_iff.mpr (jsonElements_finite hitems hread ?_)
      intro slot v t hslot hslotRead
      exact ih (husual.shown hget ⟨slot, .inl (by simpa [JsObject.elements, hkind]), hslotRead⟩)
    | object fields =>
      obtain ⟨r, o, rfl, hget, hkind, -, -, hfields⟩ := equals_object.mp hequals
      have hjson := hequals.toJson_eq_none hget (husual.object hget)
      simp only [jsonTree, jsonLevel, jsonPrepared, jsonObject, hget, Option.bind_some, hjson,
        hkind] at h
      split_ifs at h
      obtain ⟨found, hread, hfound⟩ := Walk.bind_eq_valid.mp h
      obtain rfl : found = fields := by simpa using hfound
      refine JsData.finiteFields_iff.mpr (jsonFields_finite hfields hread ?_)
      intro property v t hproperty hslotRead
      exact ih (husual.shown hget
        ⟨property.2, .inr (List.mem_map_of_mem hproperty), hslotRead⟩)

/-- What a value that hides nothing must be to be read back as itself. -/
theorem jsonRoundTrip_equals_iff {v : JsValue} (husual : heap.Usual v) {t : JsData} :
    (jsonRoundTrip heap v = some t ∧ heap.Equals v t) ↔ heap.Equals v t ∧ t.Finite := by
  constructor
  · rintro ⟨hread, hequals⟩
    refine ⟨hequals, ?_⟩
    unfold jsonRoundTrip at hread
    split at hread
    next hvalid =>
      rw [hread] at hvalid
      exact jsonTree_finite husual hequals hvalid
    · cases hread
    · cases hread
  · rintro ⟨hequals, hfinite⟩
    have hread : jsonTree heap (heap.length + 1) [] v = .valid (some t) :=
      jsonTree_of_equals Inside.nil (by simp) (by simp [Around]) husual hequals hfinite
    exact ⟨by rw [jsonRoundTrip, hread], hequals⟩

end JsHeap
end Skein
