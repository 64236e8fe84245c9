import Skein.Routes

/-!
# What the route matcher accepts

A path is a list of segments, each a literal or a parameter. A pathname matches it where it has
as many parts, the literals are equal and the parameters are not empty. Of the routes that match
a pathname the leftmost difference decides, and there the literal comes first. That is what the
matcher answers for paths without syntax, on a pathname that has a dot wherever it could be
matched by the dot of a pattern.
-/
namespace Skein

def PathSegment.ofText : JsString → PathSegment
  | [] => .literal []
  | u :: name =>
    if u = colon ∧ name ≠ [] ∧ name.all isWordUnit = true then .param name
    else .literal (u :: name)

def pathSegments (path : JsString) : List PathSegment :=
  (path.splitOn slash).map PathSegment.ofText

def PathSegment.name? : PathSegment → Option JsString
  | .param name => some name
  | .literal _ => none

/-- Whether a placeholder begins somewhere in the text. -/
def namesParam : JsString → Bool
  | [] | [_] => false
  | u :: v :: rest => (u = colon && isWordUnit v) || namesParam (v :: rest)

instance (text : JsString) : Decidable (PathSegment.PlainText text) :=
  decidable_of_iff (slash ∉ text ∧ text.all (fun u =>
      !PatternTerm.isSyntaxUnit u && u.val ≠ 94 && u.val ≠ 36) = true)
    ⟨fun h => ⟨h.1, by simpa [and_assoc] using h.2⟩,
      fun h => ⟨h.unslashed, by simpa [and_assoc] using h.unsyntactic⟩⟩

/-- A segment that is a whole placeholder, or text without placeholders and without syntax but
the dot. -/
def PathSegment.Regular : PathSegment → Prop
  | .literal text => PlainText text ∧ namesParam text = false
  | .param name => name.all isWordUnit = true ∧ PatternTerm.isGroupName name = true ∧
      name ≠ .ofAscii "__proto__"

instance : DecidablePred PathSegment.Regular
  | .literal text => inferInstanceAs (Decidable (PathSegment.PlainText text ∧ _))
  | .param name => inferInstanceAs (Decidable (_ ∧ PatternTerm.isGroupName name = true ∧ _))

/-- A path of regular segments whose placeholders have different names. -/
structure RegularPath (path : JsString) : Prop where
  regular : ∀ segment ∈ pathSegments path, segment.Regular
  distinct : ((pathSegments path).filterMap PathSegment.name?).Nodup

instance (path : JsString) : Decidable (RegularPath path) :=
  decidable_of_iff ((∀ segment ∈ pathSegments path, segment.Regular) ∧
    ((pathSegments path).filterMap PathSegment.name?).Nodup)
    ⟨fun h => ⟨h.1, h.2⟩, fun h => ⟨h.regular, h.distinct⟩⟩

theorem PathSegment.Regular.plain {segment : PathSegment} (h : segment.Regular) :
    segment.Plain := by
  cases segment with
  | literal text => exact h.1
  | param name => exact ⟨h.1, h.2.1⟩

section Source
variable {text name rest : JsString}

/-- A colon that names nothing stays. -/
theorem replaceParams_colon (h : ∀ u ∈ rest.head?, isWordUnit u = false) :
    replaceParams (some []) rest = colon :: replaceParams none rest := by
  cases rest with
  | nil => rfl
  | cons u rest => simp [replaceParams, h u rfl]

/-- Text without placeholders stays. -/
theorem replaceParams_literal (htext : namesParam text = false)
    (hrest : ∀ u ∈ rest.head?, isWordUnit u = false) :
    replaceParams none (text ++ rest) = text ++ replaceParams none rest := by
  induction text with
  | nil => rfl
  | cons u text ih =>
    have htail : namesParam text = false := by
      cases text with
      | nil => rfl
      | cons v text => exact (Bool.or_eq_false_iff.mp htext).2
    rw [List.cons_append, replaceParams, ih htail]
    split_ifs with hcolon
    · have hhead : ∀ v ∈ (text ++ rest).head?, isWordUnit v = false := by
        cases text with
        | nil => exact hrest
        | cons v text =>
          have hv := (Bool.or_eq_false_iff.mp htext).1
          rintro w ⟨⟩
          simpa [hcolon] using hv
      rw [replaceParams_colon hhead, ih htail, hcolon, List.cons_append]
    · rfl

theorem replaceParams_name (hname : name.all isWordUnit = true) (before : JsString) :
    replaceParams (some before) (name ++ rest) = replaceParams (some (before ++ name)) rest := by
  induction name generalizing before with
  | nil => simp
  | cons u name ih =>
    obtain ⟨hu, hname⟩ := List.forall_mem_cons.mp (List.all_eq_true.mp hname)
    rw [List.cons_append, replaceParams, if_pos hu, ih (List.all_eq_true.mpr hname),
      List.append_assoc, List.singleton_append]

/-- A placeholder becomes a group. -/
theorem replaceParams_param (hname : name.all isWordUnit = true) (hnonempty : name ≠ [])
    (hrest : ∀ u ∈ rest.head?, isWordUnit u = false) :
    replaceParams none (colon :: name ++ rest) =
      groupOpen ++ name ++ groupClose ++ replaceParams none rest := by
  rw [List.cons_append, replaceParams, if_pos rfl, replaceParams_name hname, List.nil_append]
  cases rest with
  | nil => simp [replaceParams, hnonempty]
  | cons u rest => simp [replaceParams, hnonempty, hrest u rfl]

theorem replaceParams_segment (hregular : (PathSegment.ofText text).Regular)
    (hrest : ∀ u ∈ rest.head?, isWordUnit u = false) :
    replaceParams none (text ++ rest) =
      (PathSegment.ofText text).source ++ replaceParams none rest := by
  cases text with
  | nil => exact replaceParams_literal rfl hrest
  | cons u name =>
    rw [PathSegment.ofText] at hregular ⊢
    split_ifs at hregular ⊢ with hparam
    · obtain ⟨rfl, hnonempty, hname⟩ := hparam
      exact replaceParams_param hname hnonempty hrest
    · exact replaceParams_literal hregular.2 hrest

/-- The text of a path's pattern is that of its segments. -/
theorem replaceParams_intercalate {texts : List JsString}
    (hregular : ∀ text ∈ texts, (PathSegment.ofText text).Regular) :
    replaceParams none ([slash].intercalate texts) =
      pathSource (texts.map PathSegment.ofText) := by
  induction texts with
  | nil => rfl
  | cons text texts ih =>
    obtain ⟨htext, hregular⟩ := List.forall_mem_cons.mp hregular
    cases texts with
    | nil =>
      have hend : replaceParams none (text ++ []) = _ := replaceParams_segment htext (by simp)
      simpa [pathSource, replaceParams] using hend
    | cons next more =>
      have hslash : replaceParams none (slash :: [slash].intercalate (next :: more)) =
          slash :: pathSource ((next :: more).map PathSegment.ofText) := by
        rw [replaceParams, if_neg (by decide), ih hregular]
      have hstep : replaceParams none (text ++ slash :: [slash].intercalate (next :: more)) = _ :=
        replaceParams_segment htext (by
          rintro u ⟨⟩
          rfl)
      rw [List.intercalate_cons_cons, List.append_assoc, List.singleton_append, hstep, hslash]
      simp [pathSource, List.intercalate_cons_cons]

end Source

theorem filterMap_groupName {segments : List PathSegment}
    (hplain : ∀ segment ∈ segments, segment.Plain) :
    (pathTerms segments).filterMap PatternTerm.groupName? =
      segments.filterMap PathSegment.name? := by
  have hterms : ∀ segment : PathSegment, segment.Plain →
      segment.terms.filterMap PatternTerm.groupName? = segment.name?.toList := by
    intro segment hsegment
    cases segment with
    | param name => rfl
    | literal text =>
      rw [PathSegment.terms, List.filterMap_map, List.filterMap_eq_nil_iff.mpr]
      · rfl
      · intro u hu
        simp only [Function.comp, PatternTerm.ofUnit]
        split_ifs <;> rfl
  induction segments with
  | nil => rfl
  | cons segment segments ih =>
    obtain ⟨hsegment, hplain⟩ := List.forall_mem_cons.mp hplain
    have hcons : (segment :: segments).filterMap PathSegment.name? =
        segment.name?.toList ++ segments.filterMap PathSegment.name? := by
      rw [List.filterMap_cons]
      cases segment.name? <;> rfl
    cases segments with
    | nil =>
      rw [pathTerms, List.filterMap_append, hterms segment hsegment, hcons]
      rfl
    | cons next more =>
      rw [pathTerms, List.filterMap_append, hterms segment hsegment, hcons, ← ih hplain]
      · rfl
      · simp

/-- The pattern of a regular path. -/
theorem RegularPath.compile {path : JsString} (h : RegularPath path) :
    compilePath path = some (.start :: pathTerms (pathSegments path)) := by
  have hplain : ∀ segment ∈ pathSegments path, segment.Plain :=
    fun segment hsegment => (h.regular segment hsegment).plain
  have hsource : replaceParams none path = pathSource (pathSegments path) := by
    have hjoin : replaceParams none ([slash].intercalate (path.splitOn slash)) = _ :=
      replaceParams_intercalate fun text htext => h.regular _ (List.mem_map_of_mem htext)
    rwa [List.intercalate_splitOn] at hjoin
  have hread : PatternTerm.read none (94 :: replaceParams none path ++ [36]) =
      some (.start :: pathTerms (pathSegments path)) := by
    rw [hsource, List.cons_append, PatternTerm.read_unit (by decide), read_pathSource hplain]
    rfl
  have hnames : ((PatternTerm.start :: pathTerms (pathSegments path)).filterMap
      PatternTerm.groupName?).Nodup := by
    rw [List.filterMap_cons]
    exact (filterMap_groupName hplain).symm ▸ h.distinct
  rw [compilePath, PatternTerm.compile, hread, Option.filter_some, decide_eq_true hnames]
  rfl

section Accepts
variable {HandlerName : Type*}

/-- A binding of the method whose path matches. -/
def RouteBinding.Accepts (binding : RouteBinding HandlerName) (method pathname : JsString) : Prop :=
  binding.method.name = toLowerCase method ∧ PathTakes (pathSegments binding.path) pathname

instance (binding : RouteBinding HandlerName) (method pathname : JsString) :
    Decidable (binding.Accepts method pathname) :=
  inferInstanceAs (Decidable (_ ∧ List.Forall₂ PathSegment.Takes _ _))

/-- Every parameter with its part, decoded where its escapes are well formed. -/
def pathParams (path pathname : JsString) : List (JsString × JsString) :=
  (pathCaptures (pathSegments path) (pathname.splitOn slash)).map fun taken =>
    (taken.1, (decodeURIComponent taken.2).getD taken.2)

/-- At the first place where one path has a literal and the other a parameter, the literal is
of the first path. -/
def Precedes : List PathSegment → List PathSegment → Bool
  | a :: path, b :: other => if a.isParam = b.isParam then Precedes path other else b.isParam
  | _, _ => false

/-- Wherever a pattern of the method matches the pathname, it does so without the dot of a path
taking another character. -/
def ReadsDots (bindings : List (RouteBinding HandlerName)) (method pathname : JsString) : Prop :=
  ∀ binding ∈ bindings, binding.method.name = toLowerCase method →
    ∀ regex, compilePath binding.path = some regex →
      (PatternTerm.exec regex pathname).isSome = true →
        (PatternTerm.exec (regex.map PatternTerm.escaped) pathname).isSome = true

/-- The answer for a method and a pathname is the table's. -/
structure AnswersTable (bindings : List (RouteBinding HandlerName))
    (matcher : RouteMatcher HandlerName) (method pathname : JsString) : Prop where
  accepts : (matcher method pathname).isSome = true ↔
    ∃ binding ∈ bindings, binding.Accepts method pathname
  first : ∀ found, matcher method pathname = some found → found.binding ∈ bindings ∧
    found.binding.Accepts method pathname ∧
    ∀ other ∈ bindings, other.Accepts method pathname → other = found.binding ∨
      Precedes (pathSegments found.binding.path) (pathSegments other.path) = true
  params : ∀ found, matcher method pathname = some found →
    found.params = pathParams found.binding.path pathname

/-- The table has a matcher, which answers as the table says wherever the dots are read as
dots. -/
def FollowsTable (bindings : List (RouteBinding HandlerName)) : Prop :=
  ∃ matcher, createRouteMatcher bindings = some matcher ∧
    ∀ method pathname, ReadsDots bindings method pathname →
      AnswersTable bindings matcher method pathname

theorem HttpMethod.name_injective : Function.Injective HttpMethod.name := by
  intro a b h
  cases a <;> cases b <;> first | rfl | exact absurd h (by decide)

/-- Whether two paths can match one pathname. -/
def overlaps : List PathSegment → List PathSegment → Bool
  | [], [] => true
  | a :: path, b :: other => (a.isParam || b.isParam || a = b) && overlaps path other
  | _, _ => false

theorem overlaps_of_takes {segments others : List PathSegment} {parts : List JsString}
    (h : List.Forall₂ PathSegment.Takes segments parts)
    (hother : List.Forall₂ PathSegment.Takes others parts) : overlaps segments others = true := by
  induction h generalizing others with
  | nil =>
    cases hother
    rfl
  | @cons segment part segments parts htakes hrest ih =>
    cases hother with
    | @cons other _ others _ hother hothers =>
      rw [overlaps, ih hothers, Bool.and_true]
      cases segment with
      | param name => rfl
      | literal text =>
        cases other with
        | param name => simp [PathSegment.isParam]
        | literal other =>
          obtain rfl : part = text := htakes
          obtain rfl : part = other := hother
          simp

/-- A table of regular paths, a literal before the parameter it competes with. -/
structure RegularTable (bindings : List (RouteBinding HandlerName)) : Prop where
  regular : ∀ binding ∈ bindings, RegularPath binding.path
  ordered : bindings.Pairwise fun a b => a.method = b.method →
    overlaps (pathSegments a.path) (pathSegments b.path) = true →
      Precedes (pathSegments a.path) (pathSegments b.path) = true

theorem RegularTable.sublist {bindings kept : List (RouteBinding HandlerName)}
    (h : RegularTable bindings) (hkept : kept.Sublist bindings) : RegularTable kept where
  regular binding hbinding := h.regular binding (hkept.subset hbinding)
  ordered := h.ordered.sublist hkept

theorem splitOn_unslashed_mem {pathname part : JsString} (h : part ∈ pathname.splitOn slash) :
    slash ∉ part := by
  induction pathname generalizing part with
  | nil =>
    obtain rfl : part = [] := by simpa using h
    simp
  | cons u pathname ih =>
    rw [List.splitOn_cons_eq_if_modifyHead] at h
    split_ifs at h with hslash
    · rcases List.mem_cons.mp h with rfl | h
      · simp
      · exact ih h
    · have hne : slash ≠ u := by
        rintro rfl
        simp at hslash
      cases hsplit : pathname.splitOn slash with
      | nil => simp [hsplit] at h
      | cons first rest =>
        rw [hsplit] at ih h
        rcases List.mem_cons.mp h with rfl | h
        · simpa [hne] using ih List.mem_cons_self
        · exact ih (List.mem_cons_of_mem _ h)

/-- What a regular path that takes the pathname captures. -/
theorem RegularPath.exec {path pathname : JsString} (h : RegularPath path)
    (htakes : PathTakes (pathSegments path) pathname) :
    PatternTerm.exec (.start :: pathTerms (pathSegments path)) pathname =
      some (pathCaptures (pathSegments path) (pathname.splitOn slash)) := by
  have hmatch := execAt_pathTerms (fun segment hsegment => (h.regular segment hsegment).plain)
    (fun part hpart => splitOn_unslashed_mem hpart) htakes true
  rwa [List.intercalate_splitOn, ← PatternTerm.exec_start] at hmatch

theorem pathSegments_ne_nil (path : JsString) : pathSegments path ≠ [] := by
  simp [pathSegments, List.splitOn_ne_nil]

/-- With its dots escaped, the pattern of a regular path matches what the path takes. -/
theorem RegularPath.takes_of_escaped {path pathname : JsString} (h : RegularPath path)
    (hmatch : (PatternTerm.exec ((PatternTerm.start :: pathTerms (pathSegments path)).map
      PatternTerm.escaped) pathname).isSome = true) : PathTakes (pathSegments path) pathname := by
  rw [List.map_cons, PatternTerm.escaped, PatternTerm.exec_start] at hmatch
  · exact execAt_escaped_pathTerms (pathSegments_ne_nil path)
      (fun segment hsegment => (h.regular segment hsegment).plain) hmatch
  · simp

/-- No regular path has `__proto__` for a parameter, so every capture becomes a parameter. -/
theorem RegularPath.decodeParams {path pathname : JsString} (h : RegularPath path) :
    decodeParams (pathCaptures (pathSegments path) (pathname.splitOn slash)) =
      pathParams path pathname := by
  have hkept : ∀ taken ∈ pathCaptures (pathSegments path) (pathname.splitOn slash),
      taken.1 ≠ .ofAscii "__proto__" := by
    intro taken htaken
    obtain ⟨⟨segment, part⟩, hmem, hcapture⟩ := List.mem_filterMap.mp htaken
    have hregular := h.regular segment (List.of_mem_zip hmem).1
    cases segment with
    | literal text => cases hcapture
    | param name =>
      cases hcapture
      exact hregular.2.2
  rw [Skein.decodeParams, pathParams, List.filter_eq_self.mpr]
  exact fun taken htaken => decide_eq_true (hkept taken htaken)

/-- The matcher of a regular table tries the patterns of its paths in their order. -/
theorem RegularTable.matcher {bindings : List (RouteBinding HandlerName)}
    (h : RegularTable bindings) :
    createRouteMatcher bindings = some fun method pathname =>
      bindings.findSome? fun binding =>
        if binding.method.name ≠ toLowerCase method then none
        else (PatternTerm.exec (.start :: pathTerms (pathSegments binding.path)) pathname).map
          fun groups => ⟨binding, decodeParams groups⟩ := by
  have hcompiled : bindings.mapM (fun binding =>
      (compilePath binding.path).map (Prod.mk binding)) =
        some (bindings.map fun binding =>
          (binding, .start :: pathTerms (pathSegments binding.path))) := by
    have hall := h.regular
    clear h
    induction bindings with
    | nil => rfl
    | cons binding bindings ih =>
      obtain ⟨hbinding, hall⟩ := List.forall_mem_cons.mp hall
      rw [List.mapM_cons, hbinding.compile, ih hall]
      rfl
  rw [createRouteMatcher, hcompiled]
  refine congrArg some ?_
  funext method pathname
  simp [matchRoute, List.findSome?_map, Function.comp_def]

theorem RegularTable.follows {bindings : List (RouteBinding HandlerName)}
    (h : RegularTable bindings) : FollowsTable bindings := by
  refine ⟨_, h.matcher, fun method pathname hdots => ?_⟩
  have htried : ∀ binding ∈ bindings, ∀ found,
      (if binding.method.name ≠ toLowerCase method then none
        else (PatternTerm.exec (.start :: pathTerms (pathSegments binding.path)) pathname).map
          fun groups => (⟨binding, decodeParams groups⟩ : RouteMatch HandlerName)) = some found ↔
      binding.Accepts method pathname ∧ found = ⟨binding, pathParams binding.path pathname⟩ := by
    intro binding hbinding found
    have hregular := h.regular binding hbinding
    constructor
    · intro hfound
      split_ifs at hfound with hmethod
      obtain ⟨groups, hgroups, rfl⟩ := Option.map_eq_some_iff.mp hfound
      have htakes := hregular.takes_of_escaped
        (hdots binding hbinding (not_not.mp hmethod) _ hregular.compile (by simp [hgroups]))
      rw [hregular.exec htakes] at hgroups
      obtain rfl := Option.some.inj hgroups
      exact ⟨⟨not_not.mp hmethod, htakes⟩, by rw [hregular.decodeParams]⟩
    · rintro ⟨⟨hmethod, htakes⟩, rfl⟩
      rw [if_neg (not_not.mpr hmethod), hregular.exec htakes, Option.map_some,
        hregular.decodeParams]
  have hfirst : ∀ found, (bindings.findSome? fun binding =>
      if binding.method.name ≠ toLowerCase method then none
      else (PatternTerm.exec (.start :: pathTerms (pathSegments binding.path)) pathname).map
        fun groups => (⟨binding, decodeParams groups⟩ : RouteMatch HandlerName)) = some found →
      ∃ before after, bindings = before ++ found.binding :: after ∧
        found.binding.Accepts method pathname ∧
        found.params = pathParams found.binding.path pathname ∧
        ∀ other ∈ before, ¬other.Accepts method pathname := by
    intro found hfound
    obtain ⟨before, binding, after, hbindings, hbinding, hbefore⟩ :=
      List.findSome?_eq_some_iff.mp hfound
    obtain ⟨haccepts, rfl⟩ := (htried binding (by simp [hbindings]) found).mp hbinding
    refine ⟨before, after, hbindings, haccepts, rfl, fun other hother hother' => ?_⟩
    have hnone := hbefore other hother
    rw [(htried other (by simp [hbindings, hother]) _).mpr ⟨hother', rfl⟩] at hnone
    cases hnone
  refine ⟨⟨fun hsome => ?_, ?_⟩, fun found hfound => ?_, fun found hfound => ?_⟩
  · obtain ⟨found, hfound⟩ := Option.isSome_iff_exists.mp hsome
    obtain ⟨before, after, hbindings, haccepts, -⟩ := hfirst found hfound
    exact ⟨found.binding, by rw [hbindings]; simp, haccepts⟩
  · rintro ⟨binding, hbinding, haccepts⟩
    rw [List.findSome?_isSome_iff]
    exact ⟨binding, hbinding, Option.isSome_iff_exists.mpr
      ⟨_, (htried binding hbinding _).mpr ⟨haccepts, rfl⟩⟩⟩
  · obtain ⟨before, after, hbindings, haccepts, -, hbefore⟩ := hfirst found hfound
    refine ⟨by rw [hbindings]; simp, haccepts, fun other hother hother' => ?_⟩
    rw [hbindings, List.mem_append, List.mem_cons] at hother
    rcases hother with hother | rfl | hother
    · exact absurd hother' (hbefore other hother)
    · exact .inl rfl
    · have hordered := h.ordered
      rw [hbindings, List.pairwise_append, List.pairwise_cons] at hordered
      exact .inr (hordered.2.1.1 other hother
        (HttpMethod.name_injective (haccepts.1.trans hother'.1.symm))
        (overlaps_of_takes haccepts.2 hother'.2))
  · obtain ⟨before, after, hbindings, haccepts, hparams, -⟩ := hfirst found hfound
    exact hparams

end Accepts

/-- Whether the segments are those of a regular path. -/
def regularSegments (segments : List PathSegment) : Bool :=
  segments.all (fun segment => decide segment.Regular) &&
    decide (segments.filterMap PathSegment.name?).Nodup

/-- Of two routes of one method that overlap, the first precedes the second. -/
def precedesOverlap (a b : HttpMethod × List PathSegment) : Bool :=
  !(a.1 = b.1 && overlaps a.2 b.2) || Precedes a.2 b.2

def ordersOverlaps : List (HttpMethod × List PathSegment) → Bool
  | [] => true
  | a :: rest => rest.all (precedesOverlap a) && ordersOverlaps rest

theorem pairwise_of_ordersOverlaps {routes : List (HttpMethod × List PathSegment)}
    (h : ordersOverlaps routes = true) :
    routes.Pairwise fun a b => a.1 = b.1 → overlaps a.2 b.2 = true →
      Precedes a.2 b.2 = true := by
  induction routes with
  | nil => exact .nil
  | cons a rest ih =>
    obtain ⟨hall, hrest⟩ := Bool.and_eq_true_iff.mp h
    refine .cons (fun b hb hmethod hoverlaps => ?_) (ih hrest)
    simpa [precedesOverlap, hmethod, hoverlaps] using List.all_eq_true.mp hall b hb

/-- A binding of the method with the path that the characters spell. -/
def RouteBinding.Spells {HandlerName : Type*} (binding : RouteBinding HandlerName)
    (row : HttpMethod × List Char) : Prop :=
  binding.method = row.1 ∧ binding.path = row.2.map fun c => unitOf c.toNat

theorem route_spells (method : HttpMethod) (path : List Char) (handler : ProtocolHandler)
    (group : RouteGroup) (fold : Bool) :
    (route method (String.ofList path) handler group fold).Spells (method, path) := by
  refine ⟨rfl, ?_⟩
  rw [route, JsString.ofAscii, String.toList_ofList]

def rowSegments (row : HttpMethod × List Char) : HttpMethod × List PathSegment :=
  (row.1, pathSegments (row.2.map fun c => unitOf c.toNat))

theorem skeinRoutes_spelled : ∃ rows : List (HttpMethod × List Char),
    List.Forall₂ RouteBinding.Spells skeinRoutes rows ∧
      (rows.map rowSegments).all (fun row => regularSegments row.2) = true ∧
      ordersOverlaps (rows.map rowSegments) = true := by
  constructor
  refine ⟨?spelled, ?regular, ?ordered⟩
  case spelled =>
    unfold skeinRoutes
    dsimp only
    repeat' first | apply List.Forall₂.nil | apply List.Forall₂.cons (route_spells _ _ _ _ _)
  case regular => decide +kernel
  case ordered => decide +kernel

theorem regularPath_of_regularSegments {path : JsString}
    (h : regularSegments (pathSegments path) = true) : RegularPath path := by
  obtain ⟨hregular, hdistinct⟩ := Bool.and_eq_true_iff.mp h
  exact ⟨by simpa using hregular, of_decide_eq_true hdistinct⟩

theorem skeinRoutes_regular : RegularTable skeinRoutes := by
  obtain ⟨rows, hspelled, hregular, hordered⟩ := skeinRoutes_spelled
  have hrows : rows.map rowSegments =
      skeinRoutes.map fun binding => (binding.method, pathSegments binding.path) := by
    generalize skeinRoutes = bindings at hspelled
    clear hregular hordered
    induction hspelled with
    | nil => rfl
    | cons hspells _ ih => rw [List.map_cons, List.map_cons, ih, rowSegments, hspells.1, hspells.2]
  rw [hrows] at hregular hordered
  constructor
  · intro binding hbinding
    have hall := List.all_eq_true.mp hregular _ (List.mem_map_of_mem hbinding)
    exact regularPath_of_regularSegments hall
  · exact List.pairwise_map.mp (pairwise_of_ordersOverlaps hordered)

theorem filterSkeinRoutes_regular (disabled : RouteGroup → Bool) :
    RegularTable (filterSkeinRoutes skeinRoutes disabled) :=
  skeinRoutes_regular.sublist List.filter_sublist

theorem graphInvokeRoutes_regular {path : JsString}
    (h : RegularPath (normalizePrefix path ++ .ofAscii "/:graph_id")) :
    RegularTable (graphInvokeRoutes path) where
  regular binding hbinding := by
    obtain rfl := List.mem_singleton.mp hbinding
    exact h
  ordered := List.pairwise_singleton _ _

/-- Every table of the protocol, however filtered, and the table of a regular prefix are
followed by their matchers. -/
theorem routeTables_followed :
    FollowsTable skeinRoutes ∧
      (∀ disabled, FollowsTable (filterSkeinRoutes skeinRoutes disabled)) ∧
      ∀ path, RegularPath (normalizePrefix path ++ .ofAscii "/:graph_id") →
        FollowsTable (graphInvokeRoutes path) := by
  refine ⟨skeinRoutes_regular.follows, fun disabled => ?_, fun path hpath => ?_⟩
  · exact (filterSkeinRoutes_regular disabled).follows
  · exact (graphInvokeRoutes_regular hpath).follows

/-- `POST /invoke/agent` is answered as the table of `/invoke` says. -/
theorem invokeRoutes_answered :
    ∃ matcher, createRouteMatcher (graphInvokeRoutes (.ofAscii "/invoke")) = some matcher ∧
      AnswersTable (graphInvokeRoutes (.ofAscii "/invoke")) matcher (.ofAscii "POST")
        (.ofAscii "/invoke/agent") := by
  obtain ⟨matcher, hmatcher, hanswers⟩ :=
    routeTables_followed.2.2 (.ofAscii "/invoke") (by decide +kernel)
  refine ⟨matcher, hmatcher, hanswers _ _ fun binding hbinding _ regex hregex hmatch => ?_⟩
  obtain rfl := List.mem_singleton.mp hbinding
  have hdotless : (compilePath (normalizePrefix (.ofAscii "/invoke") ++
      .ofAscii "/:graph_id")).map (List.map PatternTerm.escaped) =
        compilePath (normalizePrefix (.ofAscii "/invoke") ++ .ofAscii "/:graph_id") := by
    decide +kernel
  rw [hregex, Option.map_some] at hdotless
  rwa [Option.some.inj hdotless]

/-- No parameter of the binding takes a part that another binding of the table names. -/
def LeavesLiterals {HandlerName : Type*} (bindings : List (RouteBinding HandlerName))
    (binding : RouteBinding HandlerName) (method pathname : JsString) : Prop :=
  ∀ other ∈ bindings, other.Accepts method pathname →
    ∀ place ∈ (pathSegments binding.path).zip (pathSegments other.path),
      place.1.isParam = true → place.2.isParam = true

/-- The routes of the documentation and the server's information. -/
def docsRoutes : List (RouteBinding ProtocolHandler) :=
  filterSkeinRoutes skeinRoutes fun group => group ≠ .docs && group ≠ .metaGroup

def runRoutes : List (RouteBinding ProtocolHandler) :=
  filterSkeinRoutes skeinRoutes fun group => group ≠ .crons && group ≠ .runs

def cronRoute : RouteBinding ProtocolHandler := route .get "/runs/crons/:cron_id" .getCron .crons

def joinRoute : RouteBinding ProtocolHandler :=
  route .get "/runs/:run_id/stream" .joinRunStream .runs

theorem cronRoute_takesLiteral :
    ¬LeavesLiterals runRoutes cronRoute (.ofAscii "GET") (.ofAscii "/runs/crons/stream") := by
  intro hleaves
  have hjoin : joinRoute ∈ runRoutes := by decide +kernel
  have haccepts : joinRoute.Accepts (.ofAscii "GET") (.ofAscii "/runs/crons/stream") := by
    decide +kernel
  have hplace : (.param (.ofAscii "cron_id"), .literal (.ofAscii "stream")) ∈
      (pathSegments cronRoute.path).zip (pathSegments joinRoute.path) := by
    decide +kernel
  exact absurd (hleaves _ hjoin haccepts _ hplace rfl) (by decide)

/-- `/openapiXjson` is answered though no path has that segment, the cron `stream` is answered
though a route names `stream` there, and a second `graph_id` leaves no matcher. -/
theorem routeTables_overread :
    (∃ matcher, createRouteMatcher docsRoutes = some matcher ∧
      (matcher (.ofAscii "GET") (.ofAscii "/openapiXjson")).isSome = true ∧
      ∀ binding ∈ docsRoutes, ¬binding.Accepts (.ofAscii "GET") (.ofAscii "/openapiXjson")) ∧
    (∃ matcher, createRouteMatcher runRoutes = some matcher ∧
      matcher (.ofAscii "GET") (.ofAscii "/runs/crons/stream") =
        some ⟨cronRoute, [(.ofAscii "cron_id", .ofAscii "stream")]⟩ ∧
      ¬LeavesLiterals runRoutes cronRoute (.ofAscii "GET") (.ofAscii "/runs/crons/stream")) ∧
    createRouteMatcher (graphInvokeRoutes (.ofAscii "/:graph_id")) = none := by
  refine ⟨⟨_, (filterSkeinRoutes_regular _).matcher, ?_, ?_⟩,
    ⟨_, (filterSkeinRoutes_regular _).matcher, ?_, cronRoute_takesLiteral⟩, ?_⟩
  · decide +kernel
  · decide +kernel
  · decide +kernel
  · have hrefused : compilePath (normalizePrefix (.ofAscii "/:graph_id") ++
        .ofAscii "/:graph_id") = none := by
      decide +kernel
    simp [createRouteMatcher, graphInvokeRoutes, hrefused]

end Skein
