import Mathlib.Data.Int.Order.Basic
import Mathlib.Data.List.Infix
import Skein.Consecutive
import Skein.MemoryThreadEventBus

/-!
# Gap-free replay of thread events

The entries a history retains are the end of everything ever appended for the thread, and
all of them belong to its present incarnation. A cursor that has not expired is therefore
a position in the whole log from which nothing is missing, and a page read there stays a
part of the log when the history is cut or wiped under it.
-/
namespace Skein

/-- A history that was cut: an end of its entries is left, under the same number. -/
structure ThreadHistory.Cut {J : Type*} (history history' : ThreadHistory J) : Prop where
  seq : history'.seq = history.seq
  generation : history'.generation = history.generation
  entries : history'.entries <:+ history.entries

namespace MemoryThreadEventBus
variable {J : Type*} (bus : MemoryThreadEventBus J) (threadId k : ThreadId)

theorem update_cut {f : ThreadHistory J → ThreadHistory J}
    (hf : ∀ history : ThreadHistory J, history.Cut (f history)) :
    (bus.history k).Cut ((bus.update threadId f).history k) := by
  rw [history_update]
  split_ifs with hk
  · exact hk ▸ hf _
  · exact ⟨rfl, rfl, List.suffix_refl _⟩

theorem retain_cut : (bus.history k).Cut ((bus.retain threadId).history k) := by
  unfold retain
  dsimp only
  split_ifs
  · exact ⟨rfl, rfl, List.suffix_refl _⟩
  · cases bus.retained.filter (· ≠ threadId) ++ [threadId] with
    | nil => exact ⟨rfl, rfl, List.suffix_refl _⟩
    | cons oldest rest =>
      exact update_cut { bus with retained := rest } oldest k
        fun _ => ⟨rfl, rfl, List.nil_suffix⟩

end MemoryThreadEventBus

namespace MemoryThreadEventBus
variable {J : Type*} [WireJson J] {bus bus' : MemoryThreadEventBus J} {threadId : ThreadId}
  {input : ThreadEventInput J} {generation : Option ℕ} {event : ThreadEvent J}

/-- A publication with a stale generation, or of anything but the creation of a deleted
thread, appends nothing. -/
theorem publish_rejected (h : (∃ g, generation = some g ∧ g ≠ bus.generation threadId) ∨
    (bus.history threadId).deleted = true ∧ input.created = false) :
    bus.publish threadId input generation = some (none, bus) := by
  unfold publish
  dsimp only
  by_cases hstale : generation.any fun generation => generation ≠ (bus.history threadId).generation
  · rw [if_pos hstale]
  · rw [if_neg hstale]
    rcases h with ⟨g, rfl, hg⟩ | hdeleted
    · exact absurd (by simpa [MemoryThreadEventBus.generation] using hg) hstale
    · rw [if_pos hdeleted]

/-- A publication that is refused leaves the bus as it is. -/
theorem publish_refused (h : bus.publish threadId input generation = some (none, bus')) :
    bus' = bus := by
  unfold publish at h
  dsimp only at h
  split_ifs at h
  · cases h
    rfl
  · cases h
    rfl
  · obtain ⟨content, -, hcontent⟩ := Option.map_eq_some_iff.mp h
    cases hcontent

/-- A publication appends the next number to its own history, and cuts others at most. -/
theorem publish_appended (h : bus.publish threadId input generation = some (some event, bus')) :
    event.seq = bus.latestSequence threadId + 1 ∧
      ((bus.history threadId).append event input.created).Cut (bus'.history threadId) ∧
      ∀ k, k ≠ threadId → (bus.history k).Cut (bus'.history k) := by
  unfold publish at h
  dsimp only at h
  split_ifs at h
  · cases h
  · cases h
  · obtain ⟨content, -, hcontent⟩ := Option.map_eq_some_iff.mp h
    cases hcontent
    obtain ⟨pushed, hpushed⟩ : ∃ pushed, pushed = bus.update threadId fun history =>
        history.append ⟨(bus.history threadId).seq + 1,
          content.stamp ((bus.history threadId).seq + 1)⟩ input.created := ⟨_, rfl⟩
    rw [← hpushed]
    have hcut : ∀ k, (pushed.history k).Cut
        (((pushed.retain threadId).update threadId ThreadHistory.wake).history k) := by
      intro k
      have hretain := retain_cut pushed threadId k
      have hwake := update_cut (pushed.retain threadId) threadId k
        (f := ThreadHistory.wake) fun _ => ⟨rfl, rfl, List.suffix_refl _⟩
      exact ⟨hwake.seq.trans hretain.seq, hwake.generation.trans hretain.generation,
        hwake.entries.trans hretain.entries⟩
    refine ⟨rfl, ?_, fun k hk => ?_⟩
    · have hown := hcut threadId
      rwa [hpushed, history_update, if_pos rfl, ← hpushed] at hown
    · have hother := hcut k
      rwa [hpushed, history_update, if_neg (Ne.symm hk), ← hpushed] at hother

end MemoryThreadEventBus

/-- What a history holds is the end of its thread's log, under its present incarnation. -/
structure ThreadHistory.Retains {J : Type*} (history : ThreadHistory J)
    (log : List (PublishedEvent J)) : Prop where
  consecutive : Consecutive (fun published => published.event.seq) log
  first : ∀ published ∈ log.head?, published.event.seq = 1
  seq : history.seq = log.length
  entries : history.entries.map (PublishedEvent.mk history.generation) <:+ log

namespace ThreadHistory
variable {J : Type*} {history history' : ThreadHistory J} {log : List (PublishedEvent J)}

theorem Retains.cut (h : history.Retains log) (hcut : history.Cut history') :
    history'.Retains log where
  consecutive := h.consecutive
  first := h.first
  seq := hcut.seq.trans h.seq
  entries := by
    rw [hcut.generation]
    exact (hcut.entries.map _).trans h.entries

theorem Retains.append (h : history.Retains log) {event : ThreadEvent J} (created : Bool)
    (hseq : event.seq = history.seq + 1) :
    (history.append event created).Retains (log ++ [⟨history.generation, event⟩]) where
  consecutive := by
    refine h.consecutive.concat fun published hlast => ?_
    have hnum := h.consecutive.num_eq h.first (List.getLast?_eq_getElem? ▸ hlast)
    have hlog := h.seq
    have hpos : 0 < log.length := List.length_pos_of_mem (List.mem_of_getLast? hlast)
    show event.seq = _
    omega
  first := by
    intro published hhead
    cases hlog : log with
    | nil =>
      rw [hlog] at hhead
      have hlength := h.seq
      rw [hlog, List.length_nil] at hlength
      obtain rfl : (⟨history.generation, event⟩ : PublishedEvent J) = published := by
        simpa using hhead
      show event.seq = 1
      omega
    | cons old rest =>
      rw [hlog] at hhead
      exact h.first published (by rw [hlog]; exact hhead)
  seq := by
    rw [List.length_append, List.length_singleton, ← h.seq]
    exact hseq
  entries := by
    obtain ⟨gone, hgone⟩ := h.entries
    have hall : (history.entries ++ [event]).map (PublishedEvent.mk history.generation) <:+
        log ++ [⟨history.generation, event⟩] :=
      ⟨gone, by rw [List.map_append, ← List.append_assoc, hgone]; rfl⟩
    show (ite _ _ _ : List (ThreadEvent J)).map _ <:+ _
    split_ifs
    · exact ((List.drop_suffix _ _).map _).trans hall
    · exact hall

/-- A deleted history retains nothing, and keeps its number. -/
theorem Retains.delete (h : history.Retains log) : history.delete.Retains log :=
  ⟨h.consecutive, h.first, h.seq, List.nil_suffix⟩

/-- Retained entries are numbered by how much of the log is gone. -/
theorem Retains.entry_seq (h : history.Retains log) {event : ThreadEvent J} {i : ℕ}
    (hi : history.entries[i]? = some event) :
    event.seq + history.entries.length = log.length + i + 1 := by
  obtain ⟨gone, hgone⟩ := h.entries
  have hlength := congrArg List.length hgone
  rw [List.length_append, List.length_map] at hlength
  have hseq : event.seq = gone.length + i + 1 :=
    h.consecutive.num_eq h.first (b := ⟨history.generation, event⟩) (by
      rw [← hgone, List.getElem?_append_right (Nat.le_add_right _ _), Nat.add_sub_cancel_left,
        List.getElem?_map, hi]
      rfl)
  omega

/-- The first retained number tells how much of the log is gone. -/
theorem Retains.first_add (h : history.Retains log) :
    history.first + history.entries.length = log.length + 1 := by
  cases hentries : history.entries with
  | nil => simp [ThreadHistory.first, hentries, h.seq]
  | cons event rest =>
    have hfirst := h.entry_seq (show history.entries[0]? = some event by simp [hentries])
    rw [hentries] at hfirst
    simpa [ThreadHistory.first, hentries] using hfirst

end ThreadHistory

namespace ThreadSubscriber
variable {J : Type*} {history : ThreadHistory J} {log : List (PublishedEvent J)} {cursor : ℤ}

/-- From a cursor that has not expired, the retained entries continue the log. -/
theorem page_spec (h : history.Retains log) (hcursor : ¬ Expired history cursor) :
    0 ≤ cursor ∧ (history.entries.filter fun event => cursor < event.seq).map
      (PublishedEvent.mk history.generation) = log.drop cursor.toNat := by
  have hfirst := h.first_add
  obtain ⟨gone, hgone⟩ := h.entries
  have hlength := congrArg List.length hgone
  rw [List.length_append, List.length_map] at hlength
  unfold Expired at hcursor
  have hnonneg : 0 ≤ cursor := by omega
  refine ⟨hnonneg, ?_⟩
  have hentries : history.entries.map (PublishedEvent.mk history.generation) =
      log.drop gone.length := by
    rw [← hgone, List.drop_left]
  rw [← h.consecutive.filter_above_drop h.first (show gone.length ≤ cursor.toNat by omega),
    ← hentries, List.filter_map]
  congr 1
  refine List.filter_congr fun event _ => ?_
  simp only [Function.comp_apply, decide_eq_decide]
  omega

/-- The event after this cursor has been published and is no longer retained. -/
def Lost (history : ThreadHistory J) (cursor : ℤ) : Prop :=
  cursor < history.seq ∧ ∀ event ∈ history.entries, cursor + 1 < event.seq

/-- A cursor expires when it is ahead of the thread or when its next event is lost. -/
theorem expired_iff (h : history.Retains log) :
    Expired history cursor ↔ history.seq < cursor ∨ Lost history cursor := by
  have hfirst := h.first_add
  have hseq := h.seq
  refine or_congr_right ⟨fun hbelow => ⟨?_, fun event hevent => ?_⟩, fun ⟨hbelow, hgone⟩ => ?_⟩
  · omega
  · obtain ⟨i, hi⟩ := List.mem_iff_getElem?.mp hevent
    have hnext := h.entry_seq hi
    omega
  · cases hentries : history.entries with
    | nil =>
      simp only [ThreadHistory.first, hentries, List.head?_nil, Option.elim_none]
      omega
    | cons event rest =>
      have hnext := hgone event (by simp [hentries])
      simp only [ThreadHistory.first, hentries, List.head?_cons, Option.elim_some]
      omega

end ThreadSubscriber

namespace ThreadStreamWorld
variable {J : Type*}

/-- Every history retains an end of its thread's log. -/
def Safe (world : ThreadStreamWorld J) : Prop :=
  ∀ threadId, (world.bus.history threadId).Retains (world.log threadId)

/-- Logs only grow. -/
def Grows (world world' : ThreadStreamWorld J) : Prop :=
  ∀ threadId, world.log threadId <+: world'.log threadId

theorem Grows.of_published {world world' : ThreadStreamWorld J}
    (h : world'.published = world.published) : world.Grows world' := by
  intro threadId
  unfold log
  rw [h]

/-- Cutting histories keeps what is left an end of its log. -/
theorem Safe.cut {world world' : ThreadStreamWorld J} (h : world.Safe)
    (hpublished : world'.published = world.published)
    (hcut : ∀ k, (world.bus.history k).Cut (world'.bus.history k)) : world'.Safe := by
  intro k
  have hlog : world'.log k = world.log k := by
    unfold log
    rw [hpublished]
  rw [hlog]
  exact (h k).cut (hcut k)

/-- Publications, deletions and aborts keep the bus safe and the logs growing. -/
theorem step_safe [WireJson J] {world world' : ThreadStreamWorld J} {e : ThreadBusEvent J}
    (hs : world.Safe) (h : step world e = some world') : world'.Safe ∧ world.Grows world' := by
  cases e with
  | publish threadId input generation =>
    simp only [step] at h
    rcases hpublish : world.bus.publish threadId input generation with _ | ⟨_ | event, bus⟩
    · rw [hpublish] at h
      cases h
      exact ⟨hs, .of_published rfl⟩
    · rw [hpublish] at h
      cases h
      have hsame := MemoryThreadEventBus.publish_refused hpublish
      exact ⟨hsame ▸ hs, .of_published rfl⟩
    · rw [hpublish] at h
      obtain ⟨hseq, hown, hothers⟩ := MemoryThreadEventBus.publish_appended hpublish
      obtain ⟨appended, happended⟩ : ∃ appended : PublishedEvent J,
        appended = ⟨world.bus.generation threadId, event⟩ := ⟨_, rfl⟩
      have hlog : ∀ k, world'.log k =
          if threadId = k then world.log threadId ++ [appended] else world.log k := by
        intro k
        rw [← Option.some.inj h, log, OrderedMap.get?_set, happended]
        split_ifs <;> rfl
      have hbus : world'.bus = bus := by rw [← Option.some.inj h]
      refine ⟨fun k => ?_, fun k => ?_⟩
      · rw [hlog, hbus]
        split_ifs with hk
        · subst hk
          rw [happended]
          exact ((hs threadId).append input.created hseq).cut hown
        · exact (hs k).cut (hothers k (Ne.symm hk))
      · rw [hlog]
        split_ifs with hk
        · exact hk ▸ List.prefix_append _ _
        · exact List.prefix_refl _
  | deleteThread threadId =>
    cases h
    refine ⟨fun k => ?_, .of_published rfl⟩
    show ((world.bus.update threadId ThreadHistory.delete).history k).Retains (world.log k)
    rw [MemoryThreadEventBus.history_update]
    split_ifs with hk
    · exact hk ▸ (hs threadId).delete
    · exact hs k
  | abort subscriber =>
    cases h
    refine ⟨hs.cut rfl fun k => ?_, .of_published rfl⟩
    simp only [MemoryThreadEventBus.history, OrderedMap.get?_mapValues]
    cases world.bus.threads.get? k with
    | none => exact ⟨rfl, rfl, List.suffix_refl _⟩
    | some history => exact ⟨rfl, rfl, List.suffix_refl _⟩

end ThreadStreamWorld

namespace ThreadSubscriber
variable {J : Type*}

/-- What a subscription yielded, with the page it has in hand, is a part of the log of its
thread, from its start on and in one incarnation. -/
structure Follows (world : ThreadStreamWorld J) (tail : ThreadTail J)
    (page : List (ThreadEvent J)) : Prop where
  cursor : tail.cursor = tail.start + tail.yielded.length
  start : tail.yielded ++ page ≠ [] → 0 ≤ tail.start
  events : (tail.yielded ++ page).map (PublishedEvent.mk tail.generation) <+:
    (world.log tail.threadId).drop tail.start.toNat

/-- What a subscriber holds in hand. -/
def page : ThreadSubscriber J → List (ThreadEvent J)
  | .yielding _ page => page
  | _ => []

/-- The subscription of a subscriber; one that has not begun would begin in this world. -/
def tailIn (world : ThreadStreamWorld J) : ThreadSubscriber J → ThreadTail J
  | .subscribe threadId afterSeq => opening world threadId afterSeq
  | .yielding tail _ | .waiting tail | .ended tail _ => tail

/-- What holds of a subscriber between its turns. -/
def Agrees (world : ThreadStreamWorld J) (p : ThreadSubscriber J) : Prop :=
  Follows world (p.tailIn world) p.page

theorem Follows.grows {world world' : ThreadStreamWorld J} {tail : ThreadTail J}
    {page : List (ThreadEvent J)} (h : Follows world tail page) (hm : world.Grows world') :
    Follows world' tail page :=
  ⟨h.cursor, h.start, h.events.trans ((hm tail.threadId).drop _)⟩

/-- A subscription at its start has yielded nothing. -/
theorem follows_opening (world : ThreadStreamWorld J) (threadId : ThreadId)
    (afterSeq : Option ℤ) : Follows world (opening world threadId afterSeq) [] :=
  ⟨by simp [opening], by simp [opening], List.nil_prefix⟩

theorem Agrees.grows {world world' : ThreadStreamWorld J} {p : ThreadSubscriber J}
    (h : p.Agrees world) (hm : world.Grows world') : p.Agrees world' := by
  cases p with
  | subscribe threadId afterSeq => exact follows_opening world' threadId afterSeq
  | yielding | waiting | ended => exact Follows.grows h hm

/-- Taking the next event of the page in hand. -/
theorem Follows.yield {world : ThreadStreamWorld J} {tail : ThreadTail J}
    {event : ThreadEvent J} {page : List (ThreadEvent J)} (hs : world.Safe)
    (h : Follows world tail (event :: page)) :
    Follows world { tail with cursor := event.seq, yielded := tail.yielded ++ [event] } page ∧
      (event.seq : ℤ) = tail.cursor + 1 := by
  have hstart : 0 ≤ tail.start := h.start (by simp)
  obtain ⟨later, hlater⟩ := h.events
  have hplace : (world.log tail.threadId)[tail.start.toNat + tail.yielded.length]? =
      some ⟨tail.generation, event⟩ := by
    rw [← List.getElem?_drop, ← hlater]
    simp
  have hnum : event.seq = tail.start.toNat + tail.yielded.length + 1 :=
    (hs tail.threadId).consecutive.num_eq (hs tail.threadId).first hplace
  have hcursor := h.cursor
  have hseq : (event.seq : ℤ) = tail.cursor + 1 := by omega
  refine ⟨⟨?_, fun _ => hstart, ?_⟩, hseq⟩
  · simp only [List.length_append, List.length_singleton]
    omega
  · have hevents := h.events
    rwa [List.append_cons] at hevents

/-- A page read at the cursor continues what was yielded. -/
theorem Follows.read {world : ThreadStreamWorld J} {tail : ThreadTail J}
    {page : List (ThreadEvent J)} (h : Follows world tail []) (hnonneg : 0 ≤ tail.cursor)
    (hpage : page.map (PublishedEvent.mk tail.generation) <+:
      (world.log tail.threadId).drop tail.cursor.toNat) : Follows world tail page := by
  have hcursor := h.cursor
  have hstart : 0 ≤ tail.start := by
    by_cases hnone : tail.yielded = []
    · rw [hnone, List.length_nil] at hcursor
      omega
    · exact h.start (by simpa using hnone)
  refine ⟨hcursor, fun _ => hstart, ?_⟩
  obtain ⟨later, hlater⟩ := h.events
  rw [List.append_nil] at hlater
  have hrest : (world.log tail.threadId).drop tail.cursor.toNat = later := by
    rw [show tail.cursor.toNat = tail.start.toNat + tail.yielded.length by omega,
      ← List.drop_drop, ← hlater]
    exact List.drop_left' (List.length_map _)
  rw [hrest] at hpage
  rw [List.map_append, ← hlater]
  exact (List.prefix_append_right_inj _).mpr hpage

/-- What one turn of a subscription does, with `page` in hand before it. -/
structure Turn (world : ThreadStreamWorld J) (i : ℕ) (tail : ThreadTail J)
    (page : List (ThreadEvent J)) (world' : ThreadStreamWorld J) (p' : ThreadSubscriber J) :
    Prop where
  published : world'.published = world.published
  cut : ∀ k, (world.bus.history k).Cut (world'.bus.history k)
  agrees : p'.Agrees world'
  continues : ∃ later, p'.tailIn world' = { tail with
    cursor := tail.cursor + later.length, yielded := tail.yielded ++ later }
  ends : ∀ tail' error, p' = .ended tail' error → tail' = tail ∧
    ((error = none ∧ Stopped world i tail) ∨ (error = some cursorExpired ∧
      Expired (world.bus.history tail.threadId) tail.cursor))
  expires : page = [] → ¬ Stopped world i tail →
    Expired (world.bus.history tail.threadId) tail.cursor → p' = .ended tail (some cursorExpired)

section Turns
variable {world world' : ThreadStreamWorld J} {i : ℕ} {tail : ThreadTail J}
  {page : List (ThreadEvent J)} {p' : ThreadSubscriber J}

/-- A subscription that ends in this turn. -/
theorem Turn.of_ended {error : Option SkeinHttpError} (h : Follows world tail page)
    (hreason : (error = none ∧ Stopped world i tail) ∨ (error = some cursorExpired ∧
      Expired (world.bus.history tail.threadId) tail.cursor))
    (hexpires : page = [] → ¬ Stopped world i tail → error = some cursorExpired) :
    Turn world i tail page world (.ended tail error) where
  published := rfl
  cut := fun _ => ⟨rfl, rfl, List.suffix_refl _⟩
  agrees := by
    refine ⟨h.cursor, fun hne => h.start ?_, ?_⟩
    · intro hnil
      rw [List.append_eq_nil_iff] at hnil
      exact hne (by simpa [ThreadSubscriber.page, tailIn] using hnil.1)
    · refine List.IsPrefix.trans ?_ h.events
      simp [ThreadSubscriber.page, tailIn]
  continues := ⟨[], by simp [tailIn]⟩
  ends := by
    rintro tail' error' ⟨⟩
    exact ⟨rfl, hreason⟩
  expires := fun hpage hlive _ => by rw [hexpires hpage hlive]

/-- A subscription that yields the next event of its page. -/
theorem Turn.of_yielded {event : ThreadEvent J} (hs : world.Safe)
    (h : Follows world tail (event :: page)) {page₀ : List (ThreadEvent J)}
    (hfresh : page₀ = [] → ¬ Expired (world.bus.history tail.threadId) tail.cursor) :
    Turn world i tail page₀ world (.yielding
      { tail with cursor := event.seq, yielded := tail.yielded ++ [event] } page) where
  published := rfl
  cut := fun _ => ⟨rfl, rfl, List.suffix_refl _⟩
  agrees := (h.yield hs).1
  continues := ⟨[event], by rw [(h.yield hs).2]; rfl⟩
  ends := by simp
  expires := fun hpage _ hexpired => absurd hexpired (hfresh hpage)

/-- The loop reads on where its subscription stands. -/
theorem loop_turn (hs : world.Safe) (h : Follows world tail [])
    (hloop : loop world i tail = (world', p')) : Turn world i tail [] world' p' := by
  unfold loop at hloop
  dsimp only at hloop
  by_cases hstopped : Stopped world i tail
  · rw [if_pos hstopped] at hloop
    cases hloop
    exact .of_ended h (.inl ⟨rfl, hstopped⟩) fun _ hlive => absurd hstopped hlive
  · rw [if_neg hstopped] at hloop
    by_cases hexpired : Expired (world.bus.history tail.threadId) tail.cursor
    · rw [if_pos hexpired] at hloop
      cases hloop
      exact .of_ended h (.inr ⟨rfl, hexpired⟩) fun _ _ => rfl
    · rw [if_neg hexpired] at hloop
      obtain ⟨hnonneg, hunread⟩ := page_spec (hs tail.threadId) hexpired
      have hgeneration : (world.bus.history tail.threadId).generation = tail.generation := by
        by_contra hne
        exact hstopped (.inr (.inr hne))
      rw [hgeneration] at hunread
      obtain ⟨found, hfound⟩ : ∃ found, found = ((world.bus.history tail.threadId).entries.filter
        fun entry => tail.cursor < entry.seq).take threadPageSize := ⟨_, rfl⟩
      rw [← hfound] at hloop
      cases found with
      | nil =>
        dsimp only at hloop
        split_ifs at hloop
        · cases hloop
          exact ⟨rfl, fun _ => ⟨rfl, rfl, List.suffix_refl _⟩, h, ⟨[], by simp [tailIn]⟩, by simp,
            fun _ _ hlost => absurd hlost hexpired⟩
        · cases hloop
          exact ⟨rfl, fun k => world.bus.update_cut _ k fun _ => ⟨rfl, rfl, List.suffix_refl _⟩,
            Follows.grows h (.of_published rfl), ⟨[], by simp [tailIn]⟩, by simp,
            fun _ _ hlost => absurd hlost hexpired⟩
      | cons event page =>
        cases hloop
        refine .of_yielded hs (h.read hnonneg ?_) fun _ => hexpired
        rw [hfound, ← hunread]
        exact (List.take_prefix _ _).map _

end Turns

theorem resume_turn {world world' : ThreadStreamWorld J} {i : ℕ} {p p' : ThreadSubscriber J}
    (hs : world.Safe) (hp : p.Agrees world) (h : resume world i p = some (world', p')) :
    Turn world i (p.tailIn world) p.page world' p' := by
  cases p with
  | subscribe threadId afterSeq =>
    have hopening := follows_opening world threadId afterSeq
    simp only [resume] at h
    split_ifs at h with hexpired
    · cases h
      exact .of_ended hopening (.inr ⟨rfl, hexpired⟩) fun _ _ => rfl
    · exact loop_turn hs hopening (Option.some.inj h)
  | yielding tail page =>
    cases page with
    | nil => exact loop_turn hs hp (Option.some.inj h)
    | cons event page =>
      simp only [resume] at h
      split_ifs at h with hstopped
      · cases h
        exact .of_ended hp (.inl ⟨rfl, hstopped⟩) fun hpage => absurd hpage (List.cons_ne_nil _ _)
      · cases h
        exact .of_yielded hs hp fun hpage => absurd hpage (List.cons_ne_nil _ _)
  | waiting tail =>
    simp only [resume] at h
    split_ifs at h
    exact loop_turn hs hp (Option.some.inj h)
  | ended => cases h

/-- Nothing the bus or another subscriber does takes a subscription out of the log. -/
theorem interferenceFree [WireJson J] :
    InterferenceFree program (ThreadStreamWorld.Safe (J := J)) (fun world _ p => Agrees world p)
      (fun _ _ => True) where
  env := by
    intro w e world' hw _ he
    obtain ⟨hsafe, hgrows⟩ := ThreadStreamWorld.step_safe hw.1 he
    exact ⟨hsafe, fun j q hq => (hw.2 j q hq).grows hgrows⟩
  start := by
    intro w p world' hw _ hstart
    cases p with
    | subscribe threadId afterSeq =>
      cases hstart
      exact ⟨hw.1, follows_opening _ threadId afterSeq, hw.2⟩
    | _ => cases hstart
  resume := by
    intro w i p x world' p' hw _ hp hr
    have hturn := resume_turn hw.1 (hw.local hp) hr
    exact ⟨hw.1.cut hturn.published hturn.cut, hturn.agrees,
      fun j q _ hq => (hw.2 j q hq).grows (.of_published hturn.published)⟩

end ThreadSubscriber

/-- What replay promises in one state of the bus. `log` is everything ever appended for a
thread, across deletions and re-creations. -/
structure GapFree {J : Type*} [WireJson J]
    (w : Pool (ThreadStreamWorld J) (ThreadSubscriber J)) : Prop where
  /-- The events of a thread are numbered from 1 on over its whole life. -/
  numbered : ∀ threadId (k : ℕ) published, (w.shared.log threadId)[k]? = some published →
    published.event.seq = k + 1
  increases : ∀ threadId, (w.shared.log threadId).Pairwise fun published later =>
    published.event.seq < later.event.seq
  latest : ∀ threadId, w.shared.bus.latestSequence threadId = (w.shared.log threadId).length
  /-- A publication with a stale generation, or to a deleted thread, changes nothing. -/
  rejects : ∀ threadId input generation,
    (∃ g, generation = some g ∧ g ≠ w.shared.bus.generation threadId) ∨
      (w.shared.bus.history threadId).deleted = true ∧ input.created = false →
    w.shared.step (.publish threadId input generation) = some w.shared
  /-- A subscription yields a part of the log, from its start on and in the incarnation it
  began in. -/
  yields : ∀ (i : ℕ) p, w.procs[i]? = some p →
    (p.tailIn w.shared).yielded.map (PublishedEvent.mk (p.tailIn w.shared).generation) <+:
      (w.shared.log (p.tailIn w.shared).threadId).drop (p.tailIn w.shared).start.toNat
  consecutive : ∀ (i : ℕ) p (k : ℕ) event, w.procs[i]? = some p →
    (p.tailIn w.shared).yielded[k]? = some event →
    (event.seq : ℤ) = (p.tailIn w.shared).start + k + 1
  /-- It only yields more, and keeps its start and its incarnation. -/
  continues : ∀ (i : ℕ) p world' p', w.procs[i]? = some p →
    ThreadSubscriber.resume w.shared i p = some (world', p') →
    ∃ later, p'.tailIn world' = { p.tailIn w.shared with
      cursor := (p.tailIn w.shared).cursor + later.length
      yielded := (p.tailIn w.shared).yielded ++ later }
  /-- It ends because it was stopped, or because its cursor is ahead of the thread or its
  next event is lost. -/
  ends : ∀ (i : ℕ) p world' tail error, w.procs[i]? = some p →
    ThreadSubscriber.resume w.shared i p = some (world', .ended tail error) →
    (error = none ∧ ThreadSubscriber.Stopped w.shared i tail) ∨
      (error = some ThreadSubscriber.cursorExpired ∧
        (w.shared.bus.latestSequence tail.threadId < tail.cursor ∨
          ThreadSubscriber.Lost (w.shared.bus.history tail.threadId) tail.cursor))
  /-- With nothing in hand and its next event lost, it fails. -/
  expires : ∀ (i : ℕ) p world' p', w.procs[i]? = some p →
    ThreadSubscriber.resume w.shared i p = some (world', p') → p.page = [] →
    ¬ ThreadSubscriber.Stopped w.shared i (p.tailIn w.shared) →
    ThreadSubscriber.Lost (w.shared.bus.history (p.tailIn w.shared).threadId)
      (p.tailIn w.shared).cursor →
    p' = .ended (p.tailIn w.shared) (some ThreadSubscriber.cursorExpired)

/-- Along every interleaving of publications, deletions, re-creations, evictions and any
number of subscribers, replay is free of gaps and stays in one incarnation. -/
theorem MemoryThreadEventBus.replay_gapFree {J : Type*} [WireJson J]
    {w : Pool (ThreadStreamWorld J) (ThreadSubscriber J)}
    {as : List (Action (ThreadBusEvent J) (ThreadSubscriber J) Unit)}
    (h : ThreadSubscriber.program.machine.run ⟨{}, []⟩ as = some w) : GapFree w := by
  have hstart : ThreadStreamWorld.Safe ({} : ThreadStreamWorld J) :=
    fun _ => ⟨.nil, nofun, rfl, List.nil_suffix⟩
  have hall : (ThreadSubscriber.program (J := J)).machine.Along (fun _ _ => True) ⟨{}, []⟩ as :=
    Machine.along_of_steps h fun _ _ _ _ _ _ _ => trivial
  have hw := ThreadSubscriber.interferenceFree.run (Pool.holds_empty hstart) hall h
  have hagrees : ∀ (i : ℕ) p, w.procs[i]? = some p → p.Agrees w.shared := fun i p hp =>
    hw.local hp
  have hturn : ∀ (i : ℕ) p world' p', w.procs[i]? = some p →
      ThreadSubscriber.resume w.shared i p = some (world', p') →
      ThreadSubscriber.Turn w.shared i (p.tailIn w.shared) p.page world' p' :=
    fun i p world' p' hp hr => ThreadSubscriber.resume_turn hw.1 (hagrees i p hp) hr
  have hyields : ∀ (i : ℕ) p, w.procs[i]? = some p →
      (p.tailIn w.shared).yielded.map (PublishedEvent.mk (p.tailIn w.shared).generation) <+:
        (w.shared.log (p.tailIn w.shared).threadId).drop (p.tailIn w.shared).start.toNat := by
    intro i p hp
    have hevents := (hagrees i p hp).events
    rw [List.map_append] at hevents
    exact (List.prefix_append _ _).trans hevents
  refine ⟨?_, ?_, fun threadId => (hw.1 threadId).seq, ?_, hyields, ?_, ?_, ?_, ?_⟩
  · intro threadId k published hk
    exact (hw.1 threadId).consecutive.num_eq (hw.1 threadId).first hk
  · exact fun threadId => (hw.1 threadId).consecutive.pairwise
  · intro threadId input generation hrejected
    simp only [ThreadStreamWorld.step, publish_rejected hrejected]
  · intro i p k event hp hk
    obtain ⟨later, hlater⟩ := hyields i p hp
    have hstart := (hagrees i p hp).start (by
      intro hnil
      rw [(List.append_eq_nil_iff.mp hnil).1] at hk
      cases hk)
    have hlt := (List.getElem?_eq_some_iff.mp hk).1
    have hplace : (w.shared.log (p.tailIn w.shared).threadId)[
        (p.tailIn w.shared).start.toNat + k]? = some ⟨(p.tailIn w.shared).generation, event⟩ := by
      rw [← List.getElem?_drop, ← hlater, List.getElem?_append_left (by simpa using hlt),
        List.getElem?_map, hk]
      rfl
    have hnum : event.seq = (p.tailIn w.shared).start.toNat + k + 1 :=
      (hw.1 _).consecutive.num_eq (hw.1 _).first hplace
    omega
  · exact fun i p world' p' hp hr => (hturn i p world' p' hp hr).continues
  · intro i p world' tail error hp hr
    obtain ⟨rfl, hreason⟩ := (hturn i p world' _ hp hr).ends tail error rfl
    exact hreason.imp id fun ⟨herror, hexpired⟩ =>
      ⟨herror, (ThreadSubscriber.expired_iff (hw.1 _)).mp hexpired⟩
  · intro i p world' p' hp hr hpage hlive hlost
    exact (hturn i p world' p' hp hr).expires hpage hlive
      ((ThreadSubscriber.expired_iff (hw.1 _)).mpr (.inr hlost))

namespace MemoryThreadEventBus

/-- A thread with two events is deleted under its first subscriber, a late publication of
its run is refused, and the thread is created again. -/
def recreatedThread : List (Action (ThreadBusEvent ℕ) (ThreadSubscriber ℕ) Unit) :=
  [.env (.publish (.of "thread") (.state .created 7 none none none) none),
    .spawn (.subscribe (.of "thread") none), .spawn (.subscribe (.of "thread") (some 0)),
    .resume 0 (), .env (.publish (.of "thread") (.protocol (.of "run") { rest := 8 }) (some 0)),
    .resume 0 (), .env (.deleteThread (.of "thread")),
    .env (.publish (.of "thread") (.run (.of "run") ⟨3, 9⟩) (some 0)),
    .env (.publish (.of "thread") (.state .created 11 none none none) (some 1)),
    .resume 0 (), .resume 1 (), .spawn (.subscribe (.of "thread") (some 2)), .resume 2 ()]

/-- The world after that schedule. -/
def recreatedPool : Pool (ThreadStreamWorld ℕ) (ThreadSubscriber ℕ) :=
  (ThreadSubscriber.program.machine.run ⟨{}, []⟩ recreatedThread).getD ⟨{}, []⟩

/-- The first subscriber ends with the old incarnation, the second has lost its next event,
and the third continues in the new incarnation. -/
theorem recreatedPool_gapFree :
    GapFree recreatedPool ∧
      (recreatedPool.shared.log (.of "thread")).map (fun p => (p.generation, p.event.seq)) =
        [(0, 1), (0, 2), (1, 3)] ∧
      recreatedPool.procs.map (fun p => (p.tailIn recreatedPool.shared).yielded.map (·.seq)) =
        [[1, 2], [], [3]] :=
  ⟨replay_gapFree (show ThreadSubscriber.program.machine.run ⟨{}, []⟩ recreatedThread =
    some recreatedPool from rfl), by decide, by decide⟩

end MemoryThreadEventBus
end Skein
