import Skein.DestinationSnapshots

/-!
# From a declaration to a delivery

The reply of a run that declared a destination is stored as text. Whatever memory the delivery
is later read in, the intent found there is the declared one.
-/
namespace Skein

/-- The declaration of an intent, as data. -/
def declaration (destination : JsString) (target payload : JsData) : JsData :=
  .object [(destinationMarker, .object [(.ofAscii "version", .number versionOne),
    (.ofAscii "intent", .object [(.ofAscii "destination", .string destination),
      (.ofAscii "target", target), (.ofAscii "payload", payload)])])]

/-- Two intents of the same data, each in its own memory. -/
structure SameIntent (heap : JsHeap) (intent : ChannelDestinationIntent) (other : JsHeap)
    (found : ChannelDestinationIntent) : Prop where
  destination : found.destination = intent.destination
  target : ∃ t, heap.Equals intent.target t ∧ other.Equals found.target t
  payload : ∃ t, heap.Equals intent.payload t ∧ other.Equals found.payload t

namespace JsHeap
variable {heap : JsHeap} {intent : ChannelDestinationIntent}

/-- What an accepted intent is copied from. -/
structure ParsedAs (heap : JsHeap) (intent : ChannelDestinationIntent) (target payload : JsData)
    (parsed : ChannelDestinationIntent × JsHeap) : Prop where
  named : (trim intent.destination).length ≠ 0
  takesTarget : heap.Taken intent.target target
  takesPayload : heap.Taken intent.payload payload
  parsed : parsed = ({
    destination := intent.destination
    target := (target.alloc heap.length []).1
    payload := (payload.alloc heap.length (target.alloc heap.length []).2).1 },
    (payload.alloc heap.length (target.alloc heap.length []).2).2)

theorem parseIntent_taken {parsed : ChannelDestinationIntent × JsHeap}
    (h : parseIntent heap intent = .valid parsed) :
    ∃ target payload, ParsedAs heap intent target payload parsed := by
  unfold parseIntent at h
  split_ifs at h with hblank
  obtain ⟨first, hfirst, h⟩ := Walk.bind_eq_valid.mp h
  obtain ⟨second, hsecond, h⟩ := Walk.bind_eq_valid.mp h
  obtain ⟨target, htarget, rfl⟩ := snapshot_taken hfirst
  obtain ⟨payload, hpayload, rfl⟩ := snapshot_taken hsecond
  exact ⟨target, payload, hblank, htarget, hpayload, (Walk.valid.inj h).symm⟩

theorem parseIntent_of_equals {target payload : JsData}
    (hnamed : (trim intent.destination).length ≠ 0) (htarget : heap.Equals intent.target target)
    (hpayload : heap.Equals intent.payload payload) (hfinite : target.Finite ∧ payload.Finite)
    (husual : heap.Usual intent.target ∧ heap.Usual intent.payload) :
    ∃ parsed, parseIntent heap intent = .valid parsed ∧
      ParsedAs heap intent target payload parsed := by
  refine ⟨_, ?_, hnamed, ⟨hfinite.1, fun _ => htarget⟩, ⟨hfinite.2, fun _ => hpayload⟩, rfl⟩
  rw [parseIntent, if_neg hnamed]
  refine Walk.bind_eq_valid.mpr ⟨_, snapshot_of_equals husual.1 htarget hfinite.1 [], ?_⟩
  exact Walk.bind_eq_valid.mpr ⟨_, snapshot_of_equals husual.2 hpayload hfinite.2 _, rfl⟩

/-- The copies are the data. -/
theorem ParsedAs.equals {target payload : JsData} {parsed : ChannelDestinationIntent × JsHeap}
    (h : ParsedAs heap intent target payload parsed) :
    JsHeap.Equals (heap ++ parsed.2) parsed.1.target target ∧
      JsHeap.Equals (heap ++ parsed.2) parsed.1.payload payload := by
  rw [h.parsed]
  exact ⟨JsData.equals_of_extends (target.alloc_equals []) (payload.alloc_extends _),
    payload.alloc_equals _⟩

/-- The chunk that a declaration writes is a fresh copy of the declaration. -/
theorem declare_taken {p : JsValue × JsHeap}
    (h : declareChannelDestinationDelivery heap intent = .valid p) :
    ∃ target payload parsed, parseIntent heap intent = .valid parsed ∧
      ParsedAs heap intent target payload parsed ∧
      p = (JsData.object [(declaredReplyKey,
        declaration intent.destination target payload)]).alloc heap.length [] := by
  obtain ⟨parsed, hparse, h⟩ := Walk.bind_eq_valid.mp h
  obtain ⟨target, payload, hparsed⟩ := parseIntent_taken hparse
  refine ⟨target, payload, parsed, hparse, hparsed, ?_⟩
  rw [hparsed.parsed] at h
  exact (Walk.valid.inj h).symm

/-- The reply in the chunk is the declaration. -/
theorem readDeclaredReply_alloc (heap : JsHeap) (t : JsData) :
    ∃ reply, readDeclaredReply
        (heap ++ ((JsData.object [(declaredReplyKey, t)]).alloc heap.length []).2)
        ((JsData.object [(declaredReplyKey, t)]).alloc heap.length []).1 = some reply ∧
      JsHeap.Equals (heap ++ ((JsData.object [(declaredReplyKey, t)]).alloc heap.length []).2)
        reply t ∧
      JsHeap.Usual (heap ++ ((JsData.object [(declaredReplyKey, t)]).alloc heap.length []).2)
        reply := by
  have hget : (heap ++ ((t.alloc heap.length []).2 ++
      [freshObject [(declaredReplyKey, (t.alloc heap.length []).1)]]))[heap.length +
        (t.alloc heap.length []).2.length]? = some _ := JsData.getElem?_fresh _ _
  have hfresh : ∀ o ∈ ((JsData.object [(declaredReplyKey, t)]).alloc heap.length []).2,
      o.Fresh heap.length := (JsData.alloc_fresh _ [] (by simp)).1
  have hlocal : (t.alloc heap.length []).1.Local heap.length :=
    (t.alloc_fresh [] (by simp)).2
  refine ⟨(t.alloc heap.length []).1, ?_, ?_, usual_of_fresh hfresh hlocal⟩
  · simp only [JsData.alloc, JsData.allocFields, readDeclaredReply, hget]
    simp [freshObject, Except.toOption]
  · exact JsData.equals_of_extends (t.alloc_equals []) (List.prefix_append _ _)

theorem lookup_of_fieldIs {shown : List (JsString × JsSlot)} {fields : JsData.Fields}
    (h : List.Forall₂ heap.FieldIs shown fields) (hnodup : (fields.map Prod.fst).Nodup) :
    ∀ field ∈ fields, ∃ slot v, shown.lookup field.1 = some slot ∧ (field.1, slot) ∈ shown ∧
      slot.read = .ok v ∧ heap.Equals v field.2 := by
  induction h with
  | nil => simp
  | @cons property first shown fields hfirst hrest ih =>
    obtain ⟨hkey, v, hread, hv⟩ := hfirst
    obtain ⟨hnot, hnodup⟩ := List.nodup_cons.mp hnodup
    intro field hfield
    rcases List.mem_cons.mp hfield with rfl | hfield
    · exact ⟨property.2, v, by rw [← hkey]; exact List.lookup_cons_self,
        List.mem_cons.mpr (.inl (by rw [← hkey])), hread, hv⟩
    · obtain ⟨slot, w, hlookup, hmem, hrest⟩ := ih hnodup field hfield
      have hne : (field.1 == property.1) = false := by
        rw [hkey]
        exact beq_eq_false_iff_ne.mpr fun heq => hnot (heq ▸ List.mem_map_of_mem hfield)
      exact ⟨slot, w, by rw [← hlookup, List.lookup_cons, hne], List.mem_cons_of_mem _ hmem, hrest⟩

/-- The values of an object that is data, at its keys. -/
theorem strictFields_of_equals {v : JsValue} {fields : JsData.Fields} (husual : heap.Usual v)
    (h : heap.Equals v (.object fields)) (hnodup : (fields.map Prod.fst).Nodup) :
    ∃ values, strictFields heap (fields.map Prod.fst) v = .valid values ∧
      List.Forall₂ (fun w field => heap.Equals w field.2 ∧ heap.Usual w) values fields := by
  obtain ⟨r, o, rfl, hget, hkind, -, -, hfields⟩ := equals_object.mp h
  have hvalues : ∀ some? : JsData.Fields, some? ⊆ fields → ∃ values,
      fieldValues o (some?.map Prod.fst) = .valid values ∧
        List.Forall₂ (fun w field => heap.Equals w field.2 ∧ heap.Usual w) values some? := by
    intro some? hsub
    induction some? with
    | nil => exact ⟨[], rfl, .nil⟩
    | cons field some? ih =>
      obtain ⟨hfield, hsub⟩ := List.cons_subset.mp hsub
      obtain ⟨values, hvalues, hall⟩ := ih hsub
      obtain ⟨slot, w, hlookup, hmem, hread, hw⟩ := lookup_of_fieldIs hfields hnodup field hfield
      have hshows : o.Shows w := ⟨slot, .inr (List.mem_map_of_mem hmem), hread⟩
      refine ⟨w :: values, ?_, .cons ⟨hw, husual.shown hget hshows⟩ hall⟩
      refine Walk.bind_eq_valid.mpr ⟨w, ?_, Walk.bind_eq_valid.mpr ⟨values, hvalues, rfl⟩⟩
      rw [hlookup]
      exact JsSlot.get_eq_valid.mpr hread
  have hkeys : o.shown.all (fun property => (fields.map Prod.fst).contains property.1) = true := by
    refine List.all_eq_true.mpr fun property hproperty => ?_
    obtain ⟨field, hfield, hkey, -⟩ := forall₂_exists_of_mem hfields hproperty
    exact List.contains_iff_mem.mpr (hkey ▸ List.mem_map_of_mem hfield)
  obtain ⟨values, hread, hall⟩ := hvalues fields (List.Subset.refl _)
  refine ⟨values, ?_, hall⟩
  simp only [strictFields, hget]
  rw [if_pos ⟨by simp [hkind], hkeys⟩, hread]

theorem lookup_isSome_of_shown {o : JsObject} {key : JsString} {slot : JsSlot}
    (h : (key, slot) ∈ o.shown) : (o.properties.lookup key).isSome = true := by
  rw [Option.isSome_iff_ne_none, Ne, List.lookup_eq_none_iff]
  intro hnone
  simpa using hnone (key, slot) (List.mem_of_mem_filter h)

/-- An intent is found in a declaration that hides nothing. -/
theorem readDestinationIntent_of_equals {reply : JsValue} {destination : JsString}
    {target payload : JsData} (husual : heap.Usual reply)
    (h : heap.Equals reply (declaration destination target payload))
    (hnamed : (trim destination).length ≠ 0) (hfinite : target.Finite ∧ payload.Finite) :
    ∃ found more, readDestinationIntent heap reply = .valid (some (found, more)) ∧
      found.destination = destination ∧ JsHeap.Equals (heap ++ more) found.target target ∧
      JsHeap.Equals (heap ++ more) found.payload payload := by
  obtain ⟨values, hreply, hvalues⟩ := strictFields_of_equals husual h (by simp)
  obtain ⟨marked, _, ⟨hmarker, hmarkerUsual⟩, hnil, rfl⟩ := List.forall₂_cons_right_iff.mp hvalues
  obtain rfl := List.forall₂_nil_right_iff.mp hnil
  have hversionKeys : [JsString.ofAscii "version", .ofAscii "intent"].Nodup := by decide +kernel
  obtain ⟨values, hversions, hvalues⟩ :=
    strictFields_of_equals hmarkerUsual hmarker hversionKeys
  obtain ⟨version, _, ⟨hversion, -⟩, hlast, rfl⟩ := List.forall₂_cons_right_iff.mp hvalues
  obtain ⟨declared, _, ⟨hdeclared, hdeclaredUsual⟩, hnil, rfl⟩ :=
    List.forall₂_cons_right_iff.mp hlast
  obtain rfl := List.forall₂_nil_right_iff.mp hnil
  have hintentKeys : [JsString.ofAscii "destination", .ofAscii "target",
      .ofAscii "payload"].Nodup := by
    decide +kernel
  obtain ⟨values, hintent, hvalues⟩ :=
    strictFields_of_equals hdeclaredUsual hdeclared hintentKeys
  obtain ⟨name, _, ⟨hname, -⟩, hparts, rfl⟩ := List.forall₂_cons_right_iff.mp hvalues
  obtain ⟨w, _, ⟨hw, hwUsual⟩, hlast, rfl⟩ := List.forall₂_cons_right_iff.mp hparts
  obtain ⟨u, _, ⟨hu, huUsual⟩, hnil, rfl⟩ := List.forall₂_cons_right_iff.mp hlast
  obtain rfl := List.forall₂_nil_right_iff.mp hnil
  simp only [Equals] at hversion hname
  subst hversion hname
  obtain ⟨parsed, hparse, hparsed⟩ : ∃ parsed,
      parseIntent heap { destination, target := w, payload := u } = .valid parsed ∧
        ParsedAs heap { destination, target := w, payload := u } target payload parsed :=
    parseIntent_of_equals hnamed hw hu hfinite ⟨hwUsual, huUsual⟩
  refine ⟨parsed.1, parsed.2, ?_, ?_, hparsed.equals⟩
  · obtain ⟨r, o, rfl, hget, -, -, -, hfields⟩ := equals_object.mp h
    obtain ⟨slot, v, -, hmem, -⟩ := lookup_of_fieldIs hfields (by simp) _ List.mem_cons_self
    have hmarked : (heap[r]?.bind fun o => o.properties.lookup destinationMarker).isNone = false := by
      rw [hget, Option.bind_some, ← Option.not_isSome, lookup_isSome_of_shown hmem]
      rfl
    simp only [List.map_cons, List.map_nil] at hreply hversions hintent
    simp only [readDestinationIntent, hmarked, Bool.false_eq_true, if_false]
    refine Walk.bind_eq_valid.mpr ⟨_, hreply, ?_⟩
    refine Walk.bind_eq_valid.mpr ⟨_, hversions, ?_⟩
    dsimp only
    rw [if_neg (by simp)]
    refine Walk.bind_eq_valid.mpr ⟨_, hintent, ?_⟩
    exact Walk.bind_eq_valid.mpr ⟨parsed, hparse, rfl⟩
  · rw [hparsed.parsed]

theorem declaration_finite {destination : JsString} {target payload : JsData}
    (h : target.Finite ∧ payload.Finite) : (declaration destination target payload).Finite := by
  simp only [declaration, JsData.Finite, JsData.FiniteFields, and_true, true_and]
  exact ⟨rfl, h⟩

/-- A snapshot is taken of the value exactly if its text is read back as the value. -/
def SnapshotExact (heap : JsHeap) (v : JsValue) : Prop :=
  (∃ p, snapshot heap [] v = .valid p) ↔ ∃ t, jsonRoundTrip heap v = some t ∧ heap.Equals v t

/-- The memory in which a stored value has been parsed. -/
def loaded (other : JsHeap) (stored : JsData) : JsHeap :=
  other ++ (stored.alloc other.length []).2

/-- A declared intent is found by whoever reads the delivery, in whatever memory. -/
structure Survives (heap : JsHeap) (intent : ChannelDestinationIntent) (chunk : JsValue)
    (copies : JsHeap) (reply : JsValue) (stored : JsData) : Prop where
  replied : readDeclaredReply (heap ++ copies) chunk = some reply
  written : jsonRoundTrip (heap ++ copies) reply = some stored
  found : ∀ other : JsHeap, ∃ parsed made found more,
    parseIntent heap intent = .valid (parsed, made) ∧
    readDestinationIntent (loaded other stored) (stored.alloc other.length []).1 =
      .valid (some (found, more)) ∧
    SameIntent (heap ++ made) parsed (loaded other stored ++ more) found ∧
    (heap.Usual intent.target → heap.Usual intent.payload →
      SameIntent heap intent (loaded other stored ++ more) found)

/-- A declared destination survives as a snapshot. -/
theorem destination_snapshots (heap : JsHeap) :
    (∀ v, snapshot heap [] v ≠ .exhausted ∧ (heap.Usual v → SnapshotExact heap v) ∧
      ∀ p, snapshot heap [] v = .valid p →
        (∀ r, JsHeap.Reaches (heap ++ p.2) JsObject.Holds p.1 r → heap.length ≤ r) ∧
        (heap.Usual v → ∃ t, heap.Equals v t ∧ JsHeap.Equals (heap ++ p.2) p.1 t)) ∧
    ∀ intent chunk copies,
      declareChannelDestinationDelivery heap intent = .valid (chunk, copies) →
        ∃ reply stored, Survives heap intent chunk copies reply stored := by
  refine ⟨fun v => ⟨?_, snapshot_accepts_iff, fun p hp => ⟨fun r => snapshot_fresh hp, ?_⟩⟩, ?_⟩
  · exact snapshotJsonValue_ne_exhausted Inside.nil (by simp) [] v
  · obtain ⟨t, ⟨-, hequals⟩, rfl⟩ := snapshot_taken hp
    exact fun husual => ⟨t, hequals husual, t.alloc_equals []⟩
  · intro intent chunk copies hdeclare
    obtain ⟨target, payload, parsed, hparse, hparsed, hchunk⟩ := declare_taken hdeclare
    obtain ⟨rfl, rfl⟩ := Prod.mk.inj hchunk
    have hfinite : target.Finite ∧ payload.Finite :=
      ⟨hparsed.takesTarget.1, hparsed.takesPayload.1⟩
    obtain ⟨reply, hreply, hequals, husual⟩ :=
      readDeclaredReply_alloc heap (declaration intent.destination target payload)
    have hstored := (jsonRoundTrip_equals_iff husual).mpr
      ⟨hequals, declaration_finite hfinite⟩
    refine ⟨reply, _, hreply, hstored.1, fun other => ?_⟩
    have hloaded : JsHeap.Usual (loaded other (declaration intent.destination target payload))
        ((declaration intent.destination target payload).alloc other.length []).1 := by
      obtain ⟨hfresh, hlocal⟩ :=
        (declaration intent.destination target payload).alloc_fresh [] (by simp)
      exact usual_of_fresh hfresh hlocal
    obtain ⟨found, more, hread, hname, htarget, hpayload⟩ := readDestinationIntent_of_equals
      hloaded (JsData.alloc_equals _ []) hparsed.named hfinite
    refine ⟨parsed.1, parsed.2, found, more, hparse, hread, ⟨?_, ?_, ?_⟩, fun ht hp => ⟨?_, ?_, ?_⟩⟩
    · rw [hname, hparsed.parsed]
    · exact ⟨target, hparsed.equals.1, htarget⟩
    · exact ⟨payload, hparsed.equals.2, hpayload⟩
    · exact hname
    · exact ⟨target, hparsed.takesTarget.2 ht, htarget⟩
    · exact ⟨payload, hparsed.takesPayload.2 hp, hpayload⟩

/-- An object that has one array under two keys, one of them special. -/
def sharedHeap : JsHeap := [
  freshArray [.number versionOne, .string (.ofAscii "x")],
  freshObject [(.ofAscii "__proto__", .ref 0), (.ofAscii "again", .ref 0)]]

def sharedIntent : ChannelDestinationIntent where
  destination := .ofAscii "tickets"
  target := .ref 1
  payload := .null

theorem sharedHeap_usual (v : JsValue) : sharedHeap.Usual v := by
  have hfresh : ∀ o ∈ sharedHeap, o.Fresh 0 := by
    intro o ho
    rcases List.mem_pair.mp ho with rfl | rfl
    · exact .inl ⟨_, rfl, fun v _ r _ => Nat.zero_le r⟩
    · exact .inr ⟨_, rfl, fun member _ r _ => Nat.zero_le r⟩
  have husual : JsHeap.Usual ([] ++ sharedHeap) v := usual_of_fresh hfresh fun r _ => Nat.zero_le r
  exact husual

theorem sharedIntent_survives :
    SnapshotExact sharedHeap (.ref 1) ∧ ∃ chunk copies reply stored,
      declareChannelDestinationDelivery sharedHeap sharedIntent = .valid (chunk, copies) ∧
      Survives sharedHeap sharedIntent chunk copies reply stored := by
  refine ⟨((destination_snapshots sharedHeap).1 (.ref 1)).2.1 (sharedHeap_usual _), ?_⟩
  have haccepted : (match declareChannelDestinationDelivery sharedHeap sharedIntent with
      | .valid _ => true
      | _ => false) = true := by
    decide +kernel
  cases hdeclare : declareChannelDestinationDelivery sharedHeap sharedIntent with
  | valid p =>
    obtain ⟨reply, stored, hsurvives⟩ := (destination_snapshots sharedHeap).2 _ p.1 p.2 hdeclare
    exact ⟨p.1, p.2, reply, stored, rfl, hsurvives⟩
  | exhausted => simp [hdeclare] at haccepted
  | invalid => simp [hdeclare] at haccepted

/-- A plain object whose `toJSON` is not enumerable. -/
def hiddenMethod : JsHeap := [{ toJson := some (.ok .null) }]

def hiddenSymbol : JsHeap := [{ symbols := [false] }]

/-- An array of length one whose element is not enumerable, with one other key. -/
def hiddenElement : JsHeap := [{
  kind := .array [some { enumerable := false, read := .ok .null }]
  prototype := .array
  properties := [(.ofAscii "x", { read := .ok .null })] }]

/-- `new Number(1)` under the prototype of plain objects, whose methods know no number. -/
def hiddenPrimitive : JsHeap := [{ kind := .boxedNumber (.ok .nan) }]

/-- `JSON.rawJSON("1")` -/
def hiddenText : JsHeap := [{
  kind := .raw (.number versionOne)
  prototype := .null
  properties := [(.ofAscii "rawJSON", { read := .ok (.string (.ofAscii "1")) })] }]

theorem snapshot_inexact :
    ¬SnapshotExact hiddenMethod (.ref 0) ∧ ¬SnapshotExact hiddenSymbol (.ref 0) ∧
      ¬SnapshotExact hiddenElement (.ref 0) ∧ ¬SnapshotExact hiddenPrimitive (.ref 0) ∧
      ¬SnapshotExact hiddenText (.ref 0) := by
  refine ⟨fun h => ?_, fun h => ?_, fun h => ?_, fun h => ?_, fun h => ?_⟩
  · obtain ⟨t, hread, hequals⟩ := h.mp ⟨_, rfl⟩
    obtain rfl : JsData.null = t := Option.some.inj hread
    simp [Equals] at hequals
  · have hread : jsonRoundTrip hiddenSymbol (.ref 0) = some (.object []) := rfl
    have hequals : hiddenSymbol.Equals (.ref 0) (.object []) :=
      equals_object.mpr ⟨0, _, rfl, rfl, rfl, rfl, rfl, .nil⟩
    obtain ⟨p, hp⟩ := h.mpr ⟨_, hread, hequals⟩
    cases hp
  · obtain ⟨t, hread, hequals⟩ := h.mp ⟨_, rfl⟩
    obtain rfl : JsData.array [.null] = t := Option.some.inj hread
    obtain ⟨_, o, _, ⟨⟩, hget, -, hshown, -⟩ := equals_array.mp hequals
    obtain rfl := Option.some.inj hget
    cases hshown
  · obtain ⟨t, hread, hequals⟩ := h.mp ⟨_, rfl⟩
    obtain rfl : JsData.null = t := Option.some.inj hread
    simp [Equals] at hequals
  · obtain ⟨t, hread, hequals⟩ := h.mp ⟨_, rfl⟩
    obtain rfl : JsData.number versionOne = t := Option.some.inj hread
    simp [Equals] at hequals

end JsHeap
end Skein
