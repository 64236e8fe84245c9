import Skein.MetadataMatch
import Skein.ThreadCopy

/-!
# Ownership filters

What an `@auth.on` handler returns: clauses over the metadata of a row. The engine matches them,
a driver is given them as a subset of metadata, and they are stamped into what is created.
-/
namespace Skein

/-- `$contains`: one member, or several. -/
inductive ContainsOperand
  | one (member : String)
  | all (members : List String)

inductive AuthFilterValue
  | plain (value : String)
  | operators (eq : Option String) (contains : Option ContainsOperand)

/-- An object has each key once. `__proto__` is none of them: to assign it sets a prototype. -/
structure AuthFilters where
  clauses : List (String × AuthFilterValue)
  nodup : (clauses.map Prod.fst).Nodup
  assigns : "__proto__" ∉ clauses.map Prod.fst

namespace ContainsOperand

/-- Of its forms only the empty text is falsy. -/
def isTruthy : ContainsOperand → Bool
  | one member => member ≠ ""
  | all _ => true

/-- The operand as an array. -/
def members : ContainsOperand → List String
  | one member => [member]
  | all members => members

end ContainsOperand

/-- `member === value` -/
def isText (value : String) : Json → Bool
  | .str s => s = value
  | _ => false

/-- An array that holds every wanted member. -/
def hasMembers (members : List String) : Json → Bool
  | .arr items => members.all fun member => items.any (isText member)
  | _ => false

namespace AuthFilterValue

/-- What the clause asks of a member of the metadata; an empty `$eq` does not constrain. -/
def asks (member : Option Json) : AuthFilterValue → Bool
  | plain value => member.any (isText value)
  | operators eq contains =>
    match eq.filter (· ≠ ""), contains.filter ContainsOperand.isTruthy with
    | some value, _ => member.any (isText value)
    | none, some operand => member.any (hasMembers operand.members)
    | none, none => true

/-- What `authFiltersToMetadataSubset` makes of a clause. -/
def toSubset : AuthFilterValue → Option Json
  | plain value => some (.str value)
  | operators eq contains =>
    match eq.filter (· ≠ ""), contains.filter ContainsOperand.isTruthy with
    | some value, _ => some (.str value)
    | none, some operand => some (.arr (operand.members.map .str))
    | none, none => none

end AuthFilterValue

/-- The engine matches the clauses as the translation says of it. -/
def MirrorsClauses (matchesFilters : Json → AuthFilters → Bool) : Prop :=
  ∀ metadata filters, matchesFilters metadata filters =
    filters.clauses.all fun clause => clause.2.asks (metadata.member? clause.1)

def authFiltersToMetadataSubset (filters : AuthFilters) : Option Json :=
  match filters.clauses.filterMap fun clause => clause.2.toSubset.map (clause.1, ·) with
  | [] => none
  | field :: rest => some (.obj (field :: rest))

/-- `Set.add`; two arrays or objects are two. -/
def addItem (seen : List Json) (v : Json) : List Json :=
  if seen.any fun u => u.sameScalar v then seen else seen ++ [v]

/-- `[...new Set(items)]` -/
def distinctItems (items : List Json) : List Json := items.foldl addItem []

/-- `Array.isArray(member) ? member : []` -/
def itemsOf : Option Json → List Json
  | some (.arr items) => items
  | _ => []

/-- What is written over a member, if anything is. -/
def AuthFilterValue.stamped (member : Option Json) : AuthFilterValue → Option Json
  | plain value => some (.str value)
  | operators (some value) _ => some (.str value)
  | operators none (some operand) =>
    some (.arr (distinctItems (itemsOf member ++ operand.members.map .str)))
  | operators none none => none

/-- The body of the loop over the clauses. -/
def stampClause (fields : List (String × Json)) (clause : String × AuthFilterValue) :
    List (String × Json) :=
  (clause.2.stamped (fields.lookup clause.1)).elim fields fun v =>
    OrderedMap.setEntry clause.1 v fields

/-- `{ ...metadata }` -/
def spreadEntries (metadata : Json) : List (String × Json) :=
  metadata.spreadFields.foldl (fun fields field => OrderedMap.setEntry field.1 field.2 fields) []

def stampFromFilters (metadata : Option Json) (filters : AuthFilters) : Json :=
  .obj (filters.clauses.foldl stampClause (spreadEntries (metadata.getD .null)))

/-- An empty `$eq` is stamped and asked of nobody, so a `$contains` beside it is not met. -/
def AuthFilterValue.isStampable : AuthFilterValue → Bool
  | operators (some "") (some operand) => !operand.isTruthy
  | _ => true

namespace AuthFilters

def isStampable (filters : AuthFilters) : Bool :=
  filters.clauses.all fun clause => clause.2.isStampable

/-- What the clauses ask of a row. -/
def asks (filters : AuthFilters) (metadata : Json) : Bool :=
  filters.clauses.all fun clause => clause.2.asks (metadata.member? clause.1)

end AuthFilters

@[simp] theorem jsonbContains_json_str (v : Json) (value : String) :
    jsonbContains (.json v) (.str value) = isText value v := by
  cases v <;> simp [jsonbContains, Json.sameScalar, isText]

@[simp] theorem jsonbContainsItems_strs (candidates : List Json) (members : List String) :
    jsonbContainsItems candidates (members.map .str) =
      members.all fun member => candidates.any (isText member) := by
  induction members with
  | nil => simp [jsonbContainsItems]
  | cons member rest ih => simp [jsonbContainsItems, ih]

@[simp] theorem jsonbContains_json_arr (v : Json) (members : List String) :
    jsonbContains (.json v) (.arr (members.map .str)) = hasMembers members v := by
  cases v <;> simp [jsonbContains, hasMembers]

theorem toSubset_cases {clause : AuthFilterValue} {wanted : Json}
    (h : clause.toSubset = some wanted) :
    (∃ value, wanted = .str value ∧ ∀ member, clause.asks member = member.any (isText value)) ∨
    (∃ members : List String, wanted = .arr (members.map .str) ∧
      ∀ member, clause.asks member = member.any (hasMembers members)) := by
  cases clause with
  | plain value =>
    exact .inl ⟨value, by simpa [AuthFilterValue.toSubset] using h.symm, by
      simp [AuthFilterValue.asks]⟩
  | operators eq contains =>
    simp only [AuthFilterValue.toSubset] at h
    simp only [AuthFilterValue.asks]
    split at h
    · exact .inl ⟨_, (Option.some.inj h).symm, fun member => by simp⟩
    · exact .inr ⟨_, (Option.some.inj h).symm, fun member => by simp⟩
    · simp at h

/-- A clause has no use for what every object inherits. -/
theorem toSubset_asks {clause : AuthFilterValue} {wanted : Json} (h : clause.toSubset = some wanted)
    (fields : List (String × Json)) (key : String) :
    (((MatchSubject.json (.obj fields)).member key).any fun found =>
      jsonbContains found.1 wanted) = clause.asks (fields.lookup key) := by
  obtain ⟨value, rfl, hasks⟩ | ⟨members, rfl, hasks⟩ := toSubset_cases h
  all_goals
    rw [hasks]
    cases hkey : fields.lookup key with
    | some v => simp [MatchSubject.member, hkey]
    | none =>
      simp only [MatchSubject.member, hkey]
      split_ifs <;> simp [jsonbContains]

/-- A constraining clause asks for a member. -/
theorem toSubset_asks_none {clause : AuthFilterValue} {wanted : Json}
    (h : clause.toSubset = some wanted) : clause.asks none = false := by
  obtain ⟨value, -, hasks⟩ | ⟨members, -, hasks⟩ := toSubset_cases h <;> simp [hasks]

theorem asks_of_toSubset_none {clause : AuthFilterValue} (h : clause.toSubset = none)
    (member : Option Json) : clause.asks member = true := by
  cases clause with
  | plain value => simp [AuthFilterValue.toSubset] at h
  | operators eq contains =>
    simp only [AuthFilterValue.toSubset] at h
    simp only [AuthFilterValue.asks]
    split at h <;> simp_all

theorem jsonbContainsFields_clauses (fields : List (String × Json))
    (clauses : List (String × AuthFilterValue)) :
    jsonbContainsFields (.json (.obj fields))
        (clauses.filterMap fun clause => clause.2.toSubset.map (clause.1, ·)) =
      clauses.all fun clause => clause.2.asks (fields.lookup clause.1) := by
  induction clauses with
  | nil => simp [jsonbContainsFields]
  | cons clause rest ih =>
    cases h : clause.2.toSubset with
    | none => simp [h, ih, asks_of_toSubset_none h]
    | some wanted => simp [h, jsonbContainsFields, ih, toSubset_asks h]

/-- The pushed-down subset lets through what the clauses ask for. -/
theorem isMetadataSubset_authFilters (metadata : Json) (filters : AuthFilters) :
    isMetadataSubset metadata (authFiltersToMetadataSubset filters) = filters.asks metadata := by
  unfold authFiltersToMetadataSubset
  split
  next h =>
    have hall : ∀ clause ∈ filters.clauses, clause.2.toSubset = none := by
      simpa [List.filterMap_eq_nil_iff] using h
    simp only [isMetadataSubset, AuthFilters.asks]
    exact (List.all_eq_true.mpr fun clause hmem =>
      asks_of_toSubset_none (hall clause hmem) _).symm
  next field rest h =>
    cases metadata with
    | obj fields =>
      simp only [isMetadataSubset, jsonbContains, MatchSubject.isObject, Bool.true_and, ← h,
        jsonbContainsFields_clauses, AuthFilters.asks, Json.member?]
    | _ =>
      have hmem : field ∈ field :: rest := List.mem_cons_self
      rw [← h, List.mem_filterMap] at hmem
      obtain ⟨clause, hclause, hfield⟩ := hmem
      obtain ⟨wanted, hwanted, -⟩ := Option.map_eq_some_iff.mp hfield
      have hfails : ¬ filters.clauses.all (fun clause => clause.2.asks none) := by
        rw [List.all_eq_true]
        exact fun hall => by simpa [toSubset_asks_none hwanted] using hall clause hclause
      simpa [isMetadataSubset, jsonbContains, MatchSubject.isObject, AuthFilters.asks,
        Json.member?] using hfails

theorem sameScalar_str (u : Json) (text : String) : u.sameScalar (.str text) = isText text u := by
  cases u <;> simp [Json.sameScalar, isText]

theorem any_isText_addItem (seen : List Json) (v : Json) (text : String) :
    (addItem seen v).any (isText text) = (seen.any (isText text) || isText text v) := by
  unfold addItem
  split_ifs with h
  · cases v with
    | str s =>
      by_cases hs : s = text
      · simpa [hs, sameScalar_str, isText] using h
      · simp [isText, hs]
    | _ => simp [isText]
  · simp

theorem any_isText_foldl (items seen : List Json) (text : String) :
    (items.foldl addItem seen).any (isText text) =
      (seen.any (isText text) || items.any (isText text)) := by
  induction items generalizing seen with
  | nil => simp
  | cons v rest ih => simp [ih, any_isText_addItem, Bool.or_assoc]

/-- No text is lost. -/
theorem any_isText_distinctItems (items : List Json) (text : String) :
    (distinctItems items).any (isText text) = items.any (isText text) := by
  simp [distinctItems, any_isText_foldl]

/-- A stamped member passes its clause, if the clause is stampable. -/
theorem asks_stamped {clause : AuthFilterValue} {member : Option Json} {v : Json}
    (h : clause.stamped member = some v) : clause.asks (some v) = clause.isStampable := by
  unfold AuthFilterValue.stamped at h
  split at h
  next value => simp [← Option.some.inj h, AuthFilterValue.asks, AuthFilterValue.isStampable, isText]
  next value contains =>
    by_cases hvalue : value = ""
    · subst hvalue
      cases contains with
      | none => simp [AuthFilterValue.asks, AuthFilterValue.isStampable, Option.filter]
      | some operand =>
        cases htruthy : operand.isTruthy <;>
          simp [← Option.some.inj h, AuthFilterValue.asks, AuthFilterValue.isStampable, htruthy,
            hasMembers, Option.filter]
    · simp [← Option.some.inj h, AuthFilterValue.asks, AuthFilterValue.isStampable, isText, hvalue,
        Option.filter]
  next operand =>
    cases htruthy : operand.isTruthy with
    | false => simp [AuthFilterValue.asks, AuthFilterValue.isStampable, htruthy, Option.filter]
    | true =>
      have hall : ∀ text ∈ operand.members,
          (distinctItems (itemsOf member ++ operand.members.map .str)).any (isText text) := by
        intro text htext
        simpa [any_isText_distinctItems] using .inr ⟨text, htext, by simp [isText]⟩
      simpa [← Option.some.inj h, AuthFilterValue.asks, AuthFilterValue.isStampable, htruthy,
        hasMembers, Option.filter] using hall
  next => simp at h

/-- A clause that stamps nothing asks nothing. -/
theorem asks_of_stamped_none {clause : AuthFilterValue} {member : Option Json}
    (h : clause.stamped member = none) (found : Option Json) :
    clause.asks found = true ∧ clause.isStampable = true := by
  unfold AuthFilterValue.stamped at h
  split at h <;> simp [AuthFilterValue.asks, AuthFilterValue.isStampable] at h ⊢

theorem lookup_stampClause (fields : List (String × Json)) (clause : String × AuthFilterValue)
    (key : String) :
    (stampClause fields clause).lookup key =
      if clause.1 = key then (clause.2.stamped (fields.lookup key)).or (fields.lookup key)
      else fields.lookup key := by
  unfold stampClause
  split_ifs with h
  · subst h
    cases clause.2.stamped (fields.lookup clause.1) with
    | none => simp
    | some v => simp [OrderedMap.lookup_setEntry]
  · cases clause.2.stamped (fields.lookup clause.1) with
    | none => simp
    | some v => simp [OrderedMap.lookup_setEntry, h]

/-- Each clause writes its own key, from what stood there at first. -/
theorem lookup_foldl_stampClause (clauses : List (String × AuthFilterValue))
    (hnodup : (clauses.map Prod.fst).Nodup) (fields : List (String × Json)) (key : String) :
    (clauses.foldl stampClause fields).lookup key =
      (clauses.lookup key).elim (fields.lookup key) fun clause =>
        (clause.stamped (fields.lookup key)).or (fields.lookup key) := by
  induction clauses generalizing fields with
  | nil => simp
  | cons clause rest ih =>
    rw [List.map_cons, List.nodup_cons] at hnodup
    rw [List.foldl_cons, ih hnodup.2, lookup_stampClause, OrderedMap.lookup_cons_ite]
    by_cases h : clause.1 = key
    · have hrest : rest.lookup key = none := by
        rw [List.lookup_eq_none_iff]
        intro entry hentry
        simpa using fun heq : key = entry.1 =>
          hnodup.1 (List.mem_map.mpr ⟨entry, hentry, by rw [← heq, h]⟩)
      simp [h, hrest]
    · simp [h, Ne.symm h]

theorem nodup_setEntry {l : List (String × Json)} (h : (l.map Prod.fst).Nodup) (key : String)
    (v : Json) : ((OrderedMap.setEntry key v l).map Prod.fst).Nodup :=
  ((⟨l, h⟩ : OrderedMap String Json).set key v).nodup

theorem nodup_foldl_setEntry (l fields : List (String × Json)) (h : (fields.map Prod.fst).Nodup) :
    ((l.foldl (fun fields field => OrderedMap.setEntry field.1 field.2 fields) fields).map
      Prod.fst).Nodup := by
  induction l generalizing fields with
  | nil => exact h
  | cons field rest ih => exact ih _ (nodup_setEntry h _ _)

theorem nodup_foldl_stampClause (clauses : List (String × AuthFilterValue))
    (fields : List (String × Json)) (h : (fields.map Prod.fst).Nodup) :
    ((clauses.foldl stampClause fields).map Prod.fst).Nodup := by
  induction clauses generalizing fields with
  | nil => exact h
  | cons clause rest ih =>
    refine ih _ ?_
    unfold stampClause
    cases clause.2.stamped (fields.lookup clause.1) with
    | none => exact h
    | some v => exact nodup_setEntry h _ _

/-- Spreading over a row takes what is there, once each key is there once. -/
theorem lookup_foldl_setEntry (l fields : List (String × Json)) (h : (l.map Prod.fst).Nodup)
    (key : String) :
    (l.foldl (fun fields field => OrderedMap.setEntry field.1 field.2 fields) fields).lookup key =
      (l.lookup key).or (fields.lookup key) := by
  induction l generalizing fields with
  | nil => simp
  | cons field rest ih =>
    rw [List.map_cons, List.nodup_cons] at h
    rw [List.foldl_cons, ih _ h.2, OrderedMap.lookup_setEntry, OrderedMap.lookup_cons_ite]
    by_cases hkey : field.1 = key
    · have hrest : rest.lookup key = none := by
        rw [List.lookup_eq_none_iff]
        intro entry hentry
        simpa using fun heq : key = entry.1 =>
          h.1 (List.mem_map.mpr ⟨entry, hentry, by rw [← heq, hkey]⟩)
      simp [hkey, hrest]
    · simp [hkey, Ne.symm hkey]

section Stamped
variable (filters : AuthFilters) (metadata : Option Json)

theorem nodup_stampFromFilters :
    (((stampFromFilters metadata filters).spreadFields).map Prod.fst).Nodup :=
  nodup_foldl_stampClause _ _ (nodup_foldl_setEntry _ _ (by simp))

theorem stampFromFilters_member? (key : String) :
    (stampFromFilters metadata filters).member? key =
      (filters.clauses.lookup key).elim ((spreadEntries (metadata.getD .null)).lookup key)
        fun clause => (clause.stamped ((spreadEntries (metadata.getD .null)).lookup key)).or
          ((spreadEntries (metadata.getD .null)).lookup key) :=
  lookup_foldl_stampClause filters.clauses filters.nodup _ key

theorem lookup_of_mem_clauses {clause : String × AuthFilterValue} (h : clause ∈ filters.clauses) :
    filters.clauses.lookup clause.1 = some clause.2 :=
  (OrderedMap.mem_entries_iff ⟨filters.clauses, filters.nodup⟩ _ _).mp h

/-- A row over which the stamp is spread passes as the clauses are stampable. -/
theorem asks_of_stamped_over {row : Json} (base : String → Option Json)
    (h : ∀ key, row.member? key = ((stampFromFilters metadata filters).member? key).or (base key)) :
    filters.asks row = filters.isStampable := by
  unfold AuthFilters.asks AuthFilters.isStampable
  rw [Bool.eq_iff_iff, List.all_eq_true, List.all_eq_true]
  refine forall₂_congr fun clause hclause => ?_
  rw [h, stampFromFilters_member?, lookup_of_mem_clauses filters hclause, Option.elim_some]
  cases hstamped : clause.2.stamped ((spreadEntries (metadata.getD .null)).lookup clause.1) with
  | none =>
    have hasks := asks_of_stamped_none hstamped
    simp [hasks none, (hasks _).1]
  | some v => simpa using asks_stamped hstamped

theorem asks_stampFromFilters :
    filters.asks (stampFromFilters metadata filters) = filters.isStampable :=
  asks_of_stamped_over filters metadata (fun _ => none) fun key => by simp

/-- A row that takes the stamped patch over its own metadata. -/
theorem asks_spread_stampFromFilters (existing : Json) :
    filters.asks (WireJson.spread existing (stampFromFilters metadata filters)) =
      filters.isStampable :=
  asks_of_stamped_over filters metadata (existing.spreadFields.lookup ·) fun key =>
    lookup_foldl_setEntry _ _ (nodup_stampFromFilters filters metadata) key

end Stamped

theorem setEntry_eq_self {l : List (String × Json)} {key : String} {v : Json}
    (h : l.lookup key = some v) : OrderedMap.setEntry key v l = l := by
  induction l with
  | nil => simp at h
  | cons entry rest ih =>
    rw [OrderedMap.lookup_cons_ite] at h
    by_cases hkey : key = entry.1
    · rw [if_pos hkey] at h
      simp [OrderedMap.setEntry, hkey, ← Option.some.inj h]
    · rw [if_neg hkey] at h
      simp [OrderedMap.setEntry, Ne.symm hkey, ih h]

theorem foldl_setEntry_nodup (l fields : List (String × Json))
    (h : ((fields ++ l).map Prod.fst).Nodup) :
    l.foldl (fun fields field => OrderedMap.setEntry field.1 field.2 fields) fields =
      fields ++ l := by
  induction l generalizing fields with
  | nil => simp
  | cons field rest ih =>
    have hnew : field.1 ∉ fields.map Prod.fst := by
      rw [List.map_append, List.nodup_append] at h
      exact fun hmem => h.2.2 _ hmem _ (by simp) rfl
    rw [List.foldl_cons, OrderedMap.setEntry_of_notMem _ hnew, ih _ (by simpa using h)]
    simp

theorem foldl_addItem_pairwise (items seen : List Json)
    (h : (seen ++ items).Pairwise fun u v => u.sameScalar v = false) :
    items.foldl addItem seen = seen ++ items := by
  induction items generalizing seen with
  | nil => simp
  | cons v rest ih =>
    have hnew : (seen.any fun u => u.sameScalar v) = false := by
      rw [List.any_eq_false]
      intro u hu
      simpa using (List.pairwise_append.mp h).2.2 u hu v List.mem_cons_self
    rw [List.foldl_cons, addItem, hnew, if_neg Bool.false_ne_true, ih _ (by simpa using h)]
    simp

theorem pairwise_foldl_addItem (items seen : List Json)
    (h : seen.Pairwise fun u v => u.sameScalar v = false) :
    (items.foldl addItem seen).Pairwise fun u v => u.sameScalar v = false := by
  induction items generalizing seen with
  | nil => exact h
  | cons v rest ih =>
    refine ih _ ?_
    unfold addItem
    split_ifs with hseen
    · exact h
    · rw [Bool.not_eq_true, List.any_eq_false] at hseen
      exact List.pairwise_append.mpr ⟨h, List.pairwise_singleton _ _, fun u hu w hw => by
        simpa [List.mem_singleton.mp hw] using hseen u hu⟩

theorem foldl_addItem_texts (members : List String) (seen : List Json)
    (h : ∀ text ∈ members, seen.any (isText text)) :
    (members.map Json.str).foldl addItem seen = seen := by
  induction members with
  | nil => simp
  | cons text rest ih =>
    have hseen : (seen.any fun u => u.sameScalar (.str text)) = true := by
      simpa [sameScalar_str] using h text (by simp)
    rw [List.map_cons, List.foldl_cons, addItem, hseen, if_pos rfl]
    exact ih fun text htext => h text (by simp [htext])

theorem distinctItems_again (items : List Json) (members : List String) :
    distinctItems (distinctItems (items ++ members.map .str) ++ members.map .str) =
      distinctItems (items ++ members.map .str) := by
  have hpairwise : (distinctItems (items ++ members.map .str)).Pairwise
      fun u v => u.sameScalar v = false := pairwise_foldl_addItem _ [] List.Pairwise.nil
  have hagain : (distinctItems (items ++ members.map .str)).foldl addItem [] =
      distinctItems (items ++ members.map .str) := foldl_addItem_pairwise _ [] hpairwise
  rw [distinctItems, List.foldl_append, hagain]
  refine foldl_addItem_texts members _ fun text htext => ?_
  simpa [any_isText_distinctItems] using .inr ⟨text, htext, by simp [isText]⟩

/-- What a clause wrote it writes again. -/
theorem stamped_again (clause : AuthFilterValue) (member : Option Json) :
    (clause.stamped ((clause.stamped member).or member)).or ((clause.stamped member).or member) =
      (clause.stamped member).or member := by
  unfold AuthFilterValue.stamped
  split <;> simp [itemsOf, distinctItems_again]

theorem stampClause_eq_self {fields : List (String × Json)} {clause : String × AuthFilterValue}
    (h : (clause.2.stamped (fields.lookup clause.1)).or (fields.lookup clause.1) =
      fields.lookup clause.1) : stampClause fields clause = fields := by
  unfold stampClause
  cases hstamped : clause.2.stamped (fields.lookup clause.1) with
  | none => rfl
  | some v => exact setEntry_eq_self (by simpa [hstamped] using h.symm)

theorem stampFromFilters_again (filters : AuthFilters) (metadata : Option Json) :
    stampFromFilters (some (stampFromFilters metadata filters)) filters =
      stampFromFilters metadata filters := by
  have hlookup : ∀ clause ∈ filters.clauses,
      stampClause (filters.clauses.foldl stampClause (spreadEntries (metadata.getD .null)))
        clause = filters.clauses.foldl stampClause (spreadEntries (metadata.getD .null)) := by
    intro clause hclause
    refine stampClause_eq_self ?_
    rw [lookup_foldl_stampClause _ filters.nodup, lookup_of_mem_clauses filters hclause]
    exact stamped_again _ _
  have hfold : ∀ (clauses : List (String × AuthFilterValue)) (fields : List (String × Json)),
      (∀ clause ∈ clauses, stampClause fields clause = fields) →
        clauses.foldl stampClause fields = fields := by
    intro clauses fields h
    induction clauses with
    | nil => rfl
    | cons clause rest ih =>
      rw [List.foldl_cons, h clause (by simp)]
      exact ih fun clause hclause => h clause (by simp [hclause])
  have hspread : spreadEntries (stampFromFilters metadata filters) =
      filters.clauses.foldl stampClause (spreadEntries (metadata.getD .null)) :=
    foldl_setEntry_nodup _ [] (nodup_stampFromFilters filters metadata)
  rw [stampFromFilters, Option.getD_some, hspread, hfold _ _ hlookup, stampFromFilters]

/-- A row created or patched under the filters passes them exactly when no clause pairs an empty
`$eq` with a `$contains`. Stamping keeps what no clause names and the texts already held, and
stamping again changes nothing. -/
theorem stampFromFilters_owned {matchesFilters : Json → AuthFilters → Bool}
    (hengine : MirrorsClauses matchesFilters) (filters : AuthFilters) (metadata : Option Json)
    (existing : Json) :
    matchesFilters (stampFromFilters metadata filters) filters = filters.isStampable ∧
    matchesFilters (WireJson.spread existing (stampFromFilters metadata filters)) filters =
      filters.isStampable ∧
    (∀ key, key ∉ filters.clauses.map Prod.fst →
      (stampFromFilters metadata filters).member? key =
        (spreadEntries (metadata.getD .null)).lookup key) ∧
    stampFromFilters (some (stampFromFilters metadata filters)) filters =
      stampFromFilters metadata filters := by
  refine ⟨(hengine _ _).trans (asks_stampFromFilters filters metadata),
    (hengine _ _).trans (asks_spread_stampFromFilters filters metadata existing), ?_,
    stampFromFilters_again filters metadata⟩
  intro key hkey
  have hlookup : filters.clauses.lookup key = none := by
    rw [List.lookup_eq_none_iff]
    intro entry hentry
    simpa using fun heq : key = entry.1 => hkey (List.mem_map.mpr ⟨entry, hentry, heq.symm⟩)
  rw [stampFromFilters_member?, hlookup, Option.elim_none]

/-- An engine that matches as documented. -/
def plainEngine (metadata : Json) (filters : AuthFilters) : Bool := filters.asks metadata

def ownerFilter (owner : String) : AuthFilters := ⟨[("owner", .plain owner)], by simp, by simp⟩

/-- A caller that also shares what it creates with a team. -/
def teamFilter (owner team : String) : AuthFilters :=
  ⟨[("owner", .plain owner), ("teams", .operators none (some (.one team)))], by simp, by simp⟩

theorem sampleStamp_owned :
    plainEngine (stampFromFilters none (teamFilter "ann" "core")) (teamFilter "ann" "core") = true :=
  ((stampFromFilters_owned (fun _ _ => rfl) (teamFilter "ann" "core") none .null).1).trans rfl

end Skein
