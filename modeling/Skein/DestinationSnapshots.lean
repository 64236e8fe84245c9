import Skein.RoutedChannel

/-!
# What a snapshot accepts

A snapshot is taken of exactly the finite data, as far as a value hides nothing of itself, and
the snapshot is that data in new objects. So a declared destination is the same when the
delivery is read.
-/
namespace Skein
namespace JsHeap
variable {heap : JsHeap}

section Accepted
variable {visit : JsHeap → JsValue → Walk (JsValue × JsHeap)} {base : ℕ}

/-- The elements are taken one after the other into one list of copies. -/
theorem snapshotElements_of_elementIs {elements : List (Option JsSlot)} {items : List JsData}
    (h : List.Forall₂ heap.ElementIs elements items)
    (hvisit : ∀ slot v t copies, some slot ∈ elements → t ∈ items → slot.read = .ok v →
      heap.Equals v t → visit copies v = .valid (t.alloc base copies)) (copies : JsHeap) :
    snapshotElements visit copies elements = .valid (JsData.allocItems base copies items) := by
  induction h generalizing copies with
  | nil => rfl
  | @cons element t elements items hfirst hrest ih =>
    obtain ⟨slot, v, rfl, hread, hv⟩ := hfirst
    have hmore := ih fun slot v t copies hslot ht =>
      hvisit slot v t copies (List.mem_cons_of_mem _ hslot) (List.mem_cons_of_mem _ ht)
    refine Walk.bind_eq_valid.mpr ⟨v, JsSlot.get_eq_valid.mpr hread, ?_⟩
    refine Walk.bind_eq_valid.mpr ⟨t.alloc base copies, ?_, ?_⟩
    · exact hvisit slot v t copies List.mem_cons_self List.mem_cons_self hread hv
    · exact Walk.bind_eq_valid.mpr ⟨_, hmore _, rfl⟩

theorem snapshotEntries_of_fieldIs {properties : List (JsString × JsSlot)} {fields : JsData.Fields}
    (h : List.Forall₂ heap.FieldIs properties fields)
    (hvisit : ∀ property v, ∀ field : JsString × JsData, ∀ copies, property ∈ properties →
      field ∈ fields → property.2.read = .ok v → heap.Equals v field.2 →
        visit copies v = .valid (field.2.alloc base copies)) (copies : JsHeap) :
    snapshotEntries visit copies properties = .valid (JsData.allocFields base copies fields) := by
  induction h generalizing copies with
  | nil => rfl
  | @cons property field properties fields hfirst hrest ih =>
    obtain ⟨hkey, v, hread, hv⟩ := hfirst
    have hmore := ih fun property v field copies hproperty hfield =>
      hvisit property v field copies (List.mem_cons_of_mem _ hproperty)
        (List.mem_cons_of_mem _ hfield)
    refine Walk.bind_eq_valid.mpr ⟨v, JsSlot.get_eq_valid.mpr hread, ?_⟩
    refine Walk.bind_eq_valid.mpr ⟨field.2.alloc base copies, ?_, ?_⟩
    · exact hvisit property v field copies List.mem_cons_self List.mem_cons_self hread hv
    · refine Walk.bind_eq_valid.mpr ⟨_, hmore _, ?_⟩
      rw [hkey]
      rfl

end Accepted

/-- An object that hides nothing and shows no symbol has none. -/
theorem symbols_eq_nil {o : JsObject} (husual : o.Usual) (hsymbol : o.showsSymbol = false) :
    o.symbols = [] := by
  rw [List.eq_nil_iff_forall_not_mem]
  intro enumerable hmem
  have hshown := husual.symbols enumerable hmem
  rw [JsObject.showsSymbol, List.any_eq_false] at hsymbol
  exact hsymbol enumerable hmem hshown

/-- All elements are enumerable keys where all of them are there. -/
theorem countP_enumerable {elements : List (Option JsSlot)}
    (h : ∀ element ∈ elements, element.any JsSlot.enumerable = true) :
    elements.countP (fun element => element.any JsSlot.enumerable) = elements.length :=
  List.countP_eq_length.mpr h

/-- A usual value that is equal to a finite tree is taken as that tree. -/
theorem snapshotJsonValue_of_equals {depth : ℕ} : ∀ {ancestors : List Ref} {v : JsValue}
    {t : JsData}, heap.Inside ancestors → heap.length < depth + ancestors.length →
      heap.Around ancestors t → heap.Usual v → heap.Equals v t → t.Finite → ∀ copies,
        snapshotJsonValue heap depth ancestors copies v = .valid (t.alloc heap.length copies) := by
  induction depth with
  | zero =>
    intro ancestors v t hinside hdepth
    have := hinside.length_le
    omega
  | succ depth ih =>
    intro ancestors v t hinside hdepth haround husual hequals hfinite copies
    cases t with
    | null | bool | string =>
      simp only [Equals] at hequals
      subst hequals
      rfl
    | number n =>
      simp only [Equals] at hequals
      subst hequals
      simp only [JsData.Finite] at hfinite
      simp [snapshotJsonValue, hfinite, JsData.alloc]
    | array items =>
      obtain ⟨r, o, elements, rfl, hget, hkind, hshown, hsymbol, hitems⟩ := equals_array.mp hequals
      have hnot := haround.notMem hequals
      have ho := husual.object hget
      have hsymbols := symbols_eq_nil ho hsymbol
      have hcount : arrayKeyCount elements o = elements.length := by
        rw [arrayKeyCount, hshown, List.length_nil, Nat.add_zero]
        refine countP_enumerable fun element helement => ?_
        obtain ⟨t, -, slot, v, rfl, -⟩ := forall₂_exists_of_mem hitems helement
        exact ho.elements slot (by simpa [JsObject.elements, hkind] using helement)
      have hread : snapshotElements (snapshotJsonValue heap depth (r :: ancestors)) copies elements =
          .valid (JsData.allocItems heap.length copies items) := by
        refine snapshotElements_of_elementIs hitems (fun slot w t copies hslot ht hread hw => ?_) copies
        refine ih (hinside.cons hget hnot) (by simp only [List.length_cons]; omega)
          (haround.part hequals (sizeOf_lt_array ht)) (husual.shown hget ⟨slot, ?_, hread⟩) hw
          (JsData.finiteItems_iff.mp hfinite t ht) copies
        simp [JsObject.elements, hkind, hslot]
      simp [snapshotJsonValue, snapshotObject, hget, hnot, hkind, hsymbols, hcount, hread,
        Bind.bind, Walk.bind, JsData.alloc, place]
    | object fields =>
      obtain ⟨r, o, rfl, hget, hkind, hplain, hsymbol, hfields⟩ := equals_object.mp hequals
      have hnot := haround.notMem hequals
      have hsymbols := symbols_eq_nil (husual.object hget) hsymbol
      have hread : snapshotEntries (snapshotJsonValue heap depth (r :: ancestors)) copies o.shown =
          .valid (JsData.allocFields heap.length copies fields) := by
        refine snapshotEntries_of_fieldIs hfields
          (fun property w field copies hproperty hfield hread hw => ?_) copies
        exact ih (hinside.cons hget hnot) (by simp only [List.length_cons]; omega)
          (haround.part hequals (sizeOf_lt_object hfield))
          (husual.shown hget ⟨property.2, .inr (List.mem_map_of_mem hproperty), hread⟩) hw
          (JsData.finiteFields_iff.mp hfinite field hfield) copies
      simp [snapshotJsonValue, snapshotObject, hget, hnot, hkind, hsymbols, hplain, hread,
        Bind.bind, Walk.bind, JsData.alloc, place]

section Taken
variable {visit : JsHeap → JsValue → Walk (JsValue × JsHeap)} {base : ℕ}
  {P : JsValue → JsData → Prop}

/-- A list of elements that is taken has none left out, and each was taken for itself. -/
theorem snapshotElements_taken {elements : List (Option JsSlot)}
    (hvisit : ∀ v copies p, visit copies v = .valid p → ∃ t, P v t ∧ p = t.alloc base copies)
    {copies : JsHeap} {p : List JsValue × JsHeap}
    (h : snapshotElements visit copies elements = .valid p) :
    ∃ items, p = JsData.allocItems base copies items ∧ List.Forall₂ (fun element t =>
      ∃ slot v, element = some slot ∧ slot.read = .ok v ∧ P v t) elements items := by
  induction elements generalizing copies p with
  | nil =>
    cases h
    exact ⟨[], rfl, .nil⟩
  | cons element rest ih =>
    cases element with
    | none => cases h
    | some slot =>
      simp only [snapshotElements, Walk.bind_eq_valid, Walk.pure_eq, Walk.valid.injEq] at h
      obtain ⟨v, hread, ⟨w, made⟩, hfirst, ⟨ws, more⟩, hrest, rfl⟩ := h
      obtain ⟨t, ht, halloc⟩ := hvisit v _ _ hfirst
      obtain ⟨items, hitems, hall⟩ := ih hrest
      refine ⟨t :: items, ?_, .cons ⟨slot, v, rfl, JsSlot.get_eq_valid.mp hread, ht⟩ hall⟩
      rw [JsData.allocItems, ← halloc, ← hitems]

theorem snapshotEntries_taken {properties : List (JsString × JsSlot)}
    (hvisit : ∀ v copies p, visit copies v = .valid p → ∃ t, P v t ∧ p = t.alloc base copies)
    {copies : JsHeap} {p : List (JsString × JsValue) × JsHeap}
    (h : snapshotEntries visit copies properties = .valid p) :
    ∃ fields, p = JsData.allocFields base copies fields ∧ List.Forall₂ (fun property field =>
      property.1 = field.1 ∧ ∃ v, property.2.read = .ok v ∧ P v field.2) properties fields := by
  induction properties generalizing copies p with
  | nil =>
    cases h
    exact ⟨[], rfl, .nil⟩
  | cons property rest ih =>
    simp only [snapshotEntries, Walk.bind_eq_valid, Walk.pure_eq, Walk.valid.injEq] at h
    obtain ⟨v, hread, ⟨w, made⟩, hfirst, ⟨entries, more⟩, hrest, rfl⟩ := h
    obtain ⟨t, ht, halloc⟩ := hvisit v _ _ hfirst
    obtain ⟨fields, hfields, hall⟩ := ih hrest
    refine ⟨(property.1, t) :: fields, ?_,
      .cons ⟨rfl, v, JsSlot.get_eq_valid.mp hread, ht⟩ hall⟩
    rw [JsData.allocFields, ← halloc, ← hfields]

end Taken

/-- Finite data, which the value is if it hides nothing. -/
def Taken (heap : JsHeap) (v : JsValue) (t : JsData) : Prop :=
  t.Finite ∧ (heap.Usual v → heap.Equals v t)

section Object
variable {visit : JsHeap → JsValue → Walk (JsValue × JsHeap)} {r : Ref} {o : JsObject}
  {copies : JsHeap} {p : JsValue × JsHeap}

/-- An array is taken whole, since its keys are its indices and nothing else. -/
theorem snapshotArray_taken (hget : heap[r]? = some o) (hsymbol : o.showsSymbol = false)
    (hvisit : ∀ v copies p, visit copies v = .valid p →
      ∃ t, heap.Taken v t ∧ p = t.alloc heap.length copies)
    {elements : List (Option JsSlot)} (hkind : o.kind = .array elements)
    (hcount : arrayKeyCount elements o = elements.length) {values : List JsValue} {made : JsHeap}
    (hread : snapshotElements visit copies elements = .valid (values, made)) :
    ∃ t, heap.Taken (.ref r) t ∧
      place heap.length made (freshArray values) = t.alloc heap.length copies := by
  obtain ⟨items, hitems, hall⟩ := snapshotElements_taken hvisit hread
  refine ⟨.array items, ⟨?_, fun husual => ?_⟩, by simp [JsData.alloc, place, ← hitems]⟩
  · refine JsData.finiteItems_iff.mpr fun t ht => ?_
    obtain ⟨element, -, slot, v, -, -, htaken⟩ := forall₂_exists_of_mem hall.flip ht
    exact htaken.1
  · have hpresent : ∀ element ∈ elements, element.any JsSlot.enumerable = true := by
      intro element helement
      obtain ⟨t, -, slot, v, rfl, -⟩ := forall₂_exists_of_mem hall helement
      exact (husual.object hget).elements slot (by simpa [JsObject.elements, hkind] using helement)
    have hshown : o.shown = [] := by
      rw [arrayKeyCount, countP_enumerable hpresent] at hcount
      exact List.eq_nil_of_length_eq_zero (by omega)
    refine equals_array.mpr ⟨r, o, elements, rfl, hget, hkind, hshown, hsymbol, ?_⟩
    refine forall₂_imp_of_mem hall fun element helement t _ hslot => ?_
    obtain ⟨slot, v, rfl, hv, htaken⟩ := hslot
    have hshows : o.Shows v := ⟨slot, .inl (by simpa [JsObject.elements, hkind] using helement), hv⟩
    exact ⟨slot, v, rfl, hv, htaken.2 (husual.shown hget hshows)⟩

theorem snapshotPlain_taken (hget : heap[r]? = some o) (hsymbol : o.showsSymbol = false)
    (hvisit : ∀ v copies p, visit copies v = .valid p →
      ∃ t, heap.Taken v t ∧ p = t.alloc heap.length copies)
    (hkind : ∀ elements, o.kind ≠ .array elements) (hplain : o.prototype.isPlain = true)
    {entries : List (JsString × JsValue)} {made : JsHeap}
    (hread : snapshotEntries visit copies o.shown = .valid (entries, made)) :
    ∃ t, heap.Taken (.ref r) t ∧
      place heap.length made (freshObject entries) = t.alloc heap.length copies := by
  obtain ⟨fields, hfields, hall⟩ := snapshotEntries_taken hvisit hread
  refine ⟨.object fields, ⟨?_, fun husual => ?_⟩, by simp [JsData.alloc, place, ← hfields]⟩
  · refine JsData.finiteFields_iff.mpr fun field hfield => ?_
    obtain ⟨property, -, -, v, -, htaken⟩ := forall₂_exists_of_mem hall.flip hfield
    exact htaken.1
  · have hordinary := (husual.object hget).ordinary hkind hplain
    refine equals_object.mpr ⟨r, o, rfl, hget, hordinary, hplain, hsymbol, ?_⟩
    refine forall₂_imp_of_mem hall fun property hproperty field _ hfield => ?_
    obtain ⟨hkey, v, hv, htaken⟩ := hfield
    have hshows : o.Shows v := ⟨property.2, .inr (List.mem_map_of_mem hproperty), hv⟩
    exact ⟨hkey, v, hv, htaken.2 (husual.shown hget hshows)⟩

theorem snapshotObject_taken (hget : heap[r]? = some o)
    (hvisit : ∀ v copies p, visit copies v = .valid p →
      ∃ t, heap.Taken v t ∧ p = t.alloc heap.length copies)
    (h : snapshotObject heap.length visit copies o = .valid p) :
    ∃ t, heap.Taken (.ref r) t ∧ p = t.alloc heap.length copies := by
  unfold snapshotObject at h
  by_cases hsymbols : o.symbols = []
  · have hsymbol : o.showsSymbol = false := by simp [JsObject.showsSymbol, hsymbols]
    rw [if_neg (not_not.mpr hsymbols)] at h
    split at h
    next elements hkind =>
      by_cases hcount : arrayKeyCount elements o = elements.length
      · rw [if_neg (not_not.mpr hcount)] at h
        obtain ⟨⟨values, made⟩, hread, hp⟩ := Walk.bind_eq_valid.mp h
        obtain rfl := Walk.valid.inj hp
        exact snapshotArray_taken hget hsymbol hvisit hkind hcount hread
      · rw [if_pos hcount] at h
        cases h
    next hkind =>
      by_cases hplain : o.prototype.isPlain = true
      · rw [if_neg (by simpa using hplain)] at h
        obtain ⟨⟨entries, made⟩, hread, hp⟩ := Walk.bind_eq_valid.mp h
        obtain rfl := Walk.valid.inj hp
        exact snapshotPlain_taken hget hsymbol hvisit hkind hplain hread
      · rw [if_pos (by simpa using hplain)] at h
        cases h
  · rw [if_pos hsymbols] at h
    cases h

end Object

/-- Whatever is taken was some tree, and the snapshot is its copy. -/
theorem snapshotJsonValue_taken {depth : ℕ} : ∀ {ancestors : List Ref} {v : JsValue}
    {copies : JsHeap} {p : JsValue × JsHeap},
    snapshotJsonValue heap depth ancestors copies v = .valid p →
      ∃ t, heap.Taken v t ∧ p = t.alloc heap.length copies := by
  induction depth with
  | zero =>
    intro ancestors v copies p h
    cases h
  | succ depth ih =>
    intro ancestors v copies p h
    cases v with
    | null =>
      obtain rfl := Walk.valid.inj h
      exact ⟨.null, ⟨trivial, fun _ => rfl⟩, rfl⟩
    | bool b =>
      obtain rfl := Walk.valid.inj h
      exact ⟨.bool b, ⟨trivial, fun _ => rfl⟩, rfl⟩
    | string s =>
      obtain rfl := Walk.valid.inj h
      exact ⟨.string s, ⟨trivial, fun _ => rfl⟩, rfl⟩
    | number n =>
      simp only [snapshotJsonValue] at h
      split_ifs at h with hfinite
      obtain rfl := Walk.valid.inj h
      exact ⟨.number n, ⟨hfinite, fun _ => rfl⟩, rfl⟩
    | undefined | bigint | symbol | function => cases h
    | ref r =>
      simp only [snapshotJsonValue] at h
      split_ifs at h
      cases hget : heap[r]? with
      | none => simp [hget] at h
      | some o =>
        simp only [hget] at h
        exact snapshotObject_taken hget (fun v copies p hp => ih hp) h

section Ends
variable {visit : JsHeap → JsValue → Walk (JsValue × JsHeap)} {base : ℕ}

theorem snapshotElements_ne_exhausted (hvisit : ∀ copies v, visit copies v ≠ .exhausted)
    (elements : List (Option JsSlot)) (copies : JsHeap) :
    snapshotElements visit copies elements ≠ .exhausted := by
  induction elements generalizing copies with
  | nil => simp [snapshotElements]
  | cons element rest ih =>
    cases element with
    | none => simp [snapshotElements]
    | some slot =>
      exact Walk.bind_ne_exhausted (JsSlot.get_ne_exhausted slot) fun v _ =>
        Walk.bind_ne_exhausted (hvisit _ v) fun first _ =>
          Walk.bind_ne_exhausted (ih first.2) fun others _ => by simp

theorem snapshotEntries_ne_exhausted (hvisit : ∀ copies v, visit copies v ≠ .exhausted)
    (properties : List (JsString × JsSlot)) (copies : JsHeap) :
    snapshotEntries visit copies properties ≠ .exhausted := by
  induction properties generalizing copies with
  | nil => simp [snapshotEntries]
  | cons property rest ih =>
    exact Walk.bind_ne_exhausted (JsSlot.get_ne_exhausted _) fun v _ =>
      Walk.bind_ne_exhausted (hvisit _ v) fun first _ =>
        Walk.bind_ne_exhausted (ih first.2) fun others _ => by simp

theorem snapshotObject_ne_exhausted (hvisit : ∀ copies v, visit copies v ≠ .exhausted)
    (copies : JsHeap) (o : JsObject) : snapshotObject base visit copies o ≠ .exhausted := by
  unfold snapshotObject
  by_cases hsymbols : o.symbols = []
  · rw [if_neg (not_not.mpr hsymbols)]
    cases o.kind
    case array elements =>
      dsimp only
      split_ifs
      · simp
      · exact Walk.bind_ne_exhausted (snapshotElements_ne_exhausted hvisit _ _) fun _ _ => by simp
    all_goals
      dsimp only
      split_ifs
      · simp
      · exact Walk.bind_ne_exhausted (snapshotEntries_ne_exhausted hvisit _ _) fun _ _ => by simp
  · rw [if_pos hsymbols]
    simp

end Ends

/-- No depth beyond the size of the heap is ever reached. -/
theorem snapshotJsonValue_ne_exhausted {depth : ℕ} : ∀ {ancestors : List Ref},
    heap.Inside ancestors → heap.length < depth + ancestors.length → ∀ copies v,
      snapshotJsonValue heap depth ancestors copies v ≠ .exhausted := by
  induction depth with
  | zero =>
    intro ancestors h hdepth
    have := h.length_le
    omega
  | succ depth ih =>
    intro ancestors h hdepth copies v
    cases v with
    | number n =>
      simp only [snapshotJsonValue]
      split_ifs <;> simp
    | ref r =>
      simp only [snapshotJsonValue]
      split_ifs with hmem
      · simp
      · cases hget : heap[r]? with
        | none => simp
        | some o =>
          refine snapshotObject_ne_exhausted (ih (h.cons hget hmem) ?_) copies o
          simp only [List.length_cons]
          omega
    | _ => simp [snapshotJsonValue]

theorem snapshot_taken {copies : JsHeap} {v : JsValue} {p : JsValue × JsHeap}
    (h : snapshot heap copies v = .valid p) :
    ∃ t, heap.Taken v t ∧ p = t.alloc heap.length copies := snapshotJsonValue_taken h

theorem snapshot_of_equals {v : JsValue} {t : JsData} (husual : heap.Usual v)
    (hequals : heap.Equals v t) (hfinite : t.Finite) (copies : JsHeap) :
    snapshot heap copies v = .valid (t.alloc heap.length copies) :=
  snapshotJsonValue_of_equals Inside.nil (by simp) (by simp [Around]) husual hequals hfinite copies

/-- What is accepted of the values that hide nothing. -/
theorem snapshot_accepts_iff {v : JsValue} (husual : heap.Usual v) :
    (∃ p, snapshot heap [] v = .valid p) ↔ ∃ t, jsonRoundTrip heap v = some t ∧ heap.Equals v t := by
  simp only [jsonRoundTrip_equals_iff husual]
  constructor
  · rintro ⟨p, hp⟩
    obtain ⟨t, ⟨hfinite, hequals⟩, -⟩ := snapshot_taken hp
    exact ⟨t, hequals husual, hfinite⟩
  · rintro ⟨t, hequals, hfinite⟩
    exact ⟨_, snapshot_of_equals husual hequals hfinite []⟩

/-- A snapshot leads to none of the objects that were there. -/
theorem snapshot_fresh {v : JsValue} {p : JsValue × JsHeap} (h : snapshot heap [] v = .valid p)
    {r : Ref} (hreaches : JsHeap.Reaches (heap ++ p.2) JsObject.Holds p.1 r) : heap.length ≤ r := by
  obtain ⟨t, -, rfl⟩ := snapshot_taken h
  obtain ⟨hfresh, hlocal⟩ := t.alloc_fresh [] (by simp)
  exact hreaches.fresh hfresh hlocal

end JsHeap
end Skein
