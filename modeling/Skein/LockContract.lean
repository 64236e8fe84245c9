import Mathlib.Data.Nat.Basic
import Mathlib.Order.Basic
import Skein.ThreadLocks

/-!
# Exclusion, order and cleanup of the locks

The invariant says what a stored tail and a chained promise stand for: the tail of a key
belongs to the last call on it, and a task is chained after the call on its key before it.
Whoever has started has only settled calls in front. From that follow exclusion and the order
of the starts, and, once no continuation is left to run, that nobody waits without a reason
and that no entry is left behind.
-/
namespace Skein.ThreadLocks
variable {κ : Type*} [DecidableEq κ]

/-- What the tails and the chain of every key mean. -/
structure Chained (w : ThreadLocks κ) : Prop where
  tail_last : ∀ k t, w.tails.get? k = some t → ∃ c : LockCall κ, w.calls[t]? = some c ∧
    c.key = k ∧ c.closed = false ∧
    ∀ (j : ℕ) (d : LockCall κ), t < j → w.calls[j]? = some d → d.key ≠ k
  no_tail : ∀ k, w.tails.get? k = none → ∀ (j : ℕ) (d : LockCall κ), w.calls[j]? = some d →
    d.key = k → d.done = true
  previous : ∀ (i : ℕ) (c : LockCall κ) (p : ℕ), w.calls[i]? = some c → c.previous = some p → p < i ∧
    (∃ b : LockCall κ, w.calls[p]? = some b ∧ b.key = c.key) ∧
    ∀ (j : ℕ) (d : LockCall κ), p < j → j < i → w.calls[j]? = some d → d.key ≠ c.key
  ahead : ∀ (i : ℕ) (c : LockCall κ), w.calls[i]? = some c → c.waits = false ∨ c.previous = none →
    ∀ (j : ℕ) (d : LockCall κ), j < i → w.calls[j]? = some d → d.key = c.key → d.done = true

/-- One call moves on from `c` to `c'`; the tails may lose the entry that was its own. -/
structure Advances (w w' : ThreadLocks κ) (id : ℕ) (c c' : LockCall κ) : Prop where
  call : w.calls[id]? = some c
  calls : w'.calls = w.calls.set id c'
  key : c'.key = c.key
  previous : c'.previous = c.previous
  done : c.done = true → c'.done = true
  starts : c.waits = true → c'.waits = false → w.previousSettled c.previous = true
  tails : (w'.tails = w.tails ∧ c'.closed = c.closed) ∨
    (w'.tails = w.dropTail c.key id ∧ c'.closed = true ∧ c'.done = true)

end Skein.ThreadLocks
namespace Skein

namespace LockCall
variable {κ : Type*} {c : LockCall κ}

theorem not_waits_of_done (h : c.done = true) : c.waits = false := by
  simp only [done, Bool.and_eq_true, Bool.not_eq_true'] at h
  exact h.1

theorem not_holds_of_done (h : c.done = true) : c.holds = false := by
  simp only [done, Bool.and_eq_true, Bool.not_eq_true'] at h
  exact h.2

theorem not_waits_of_holds (h : c.holds = true) : c.waits = false := by
  cases c with
  | run key previous phase => cases phase <;> simp_all [holds, waits]
  | lease key released => rfl

/-- The tail of a call resolves after its task has settled. -/
theorem done_of_tailSettled (h : c.tailSettled = true) : c.done = true := by
  cases c with
  | run key previous phase => cases phase <;> simp_all [tailSettled, done, waits, holds]
  | lease key released => simp_all [tailSettled, done, waits, holds]

end LockCall

namespace ThreadLocks
variable {κ : Type*} [DecidableEq κ] {w w' : ThreadLocks κ}

theorem release_advances {id : ℕ} (h : w.release id = some w') :
    w' = w ∨ ∃ key, Advances w w' id (.lease key false) (.lease key true) := by
  unfold release at h
  split at h
  next key released hcall =>
    cases released with
    | true =>
      left
      simpa using h.symm
    | false =>
      right
      simp only [Bool.false_eq_true, if_false, Option.some.injEq] at h
      subst h
      exact ⟨key, hcall, rfl, rfl, rfl, fun _ => rfl, fun hwaits => (by cases hwaits),
        .inr ⟨rfl, rfl, rfl⟩⟩
  · cases h

theorem settle_advances {id : ℕ} {outcome : Outcome} (h : w.settle id outcome = some w') :
    ∃ key previous, Advances w w' id (.run key previous .running)
      (.run key previous (.settled outcome)) := by
  unfold settle at h
  split at h
  next key previous hcall =>
    cases h
    exact ⟨key, previous, hcall, rfl, rfl, rfl, fun _ => rfl, fun hwaits => (by cases hwaits),
      .inl ⟨rfl, rfl⟩⟩
  · cases h

/-- A continuation moves its call on and uses up one of the continuations to come. -/
theorem continuation_advances {id : ℕ} {callback : Continuation}
    (h : w.continuation id callback = some w') :
    ∃ c c', Advances w w' id c c' ∧ c'.pending + 1 = c.pending := by
  unfold continuation at h
  split at h
  next key previous hcall =>
    split_ifs at h with hprevious
    cases h
    exact ⟨_, _, ⟨hcall, rfl, rfl, rfl, fun hdone => (by cases hdone), fun _ _ => hprevious,
      .inl ⟨rfl, rfl⟩⟩, rfl⟩
  next key previous outcome hcall =>
    cases h
    exact ⟨_, _, ⟨hcall, rfl, rfl, rfl, fun _ => rfl, fun hwaits => (by cases hwaits),
      .inl ⟨rfl, rfl⟩⟩, rfl⟩
  next key previous outcome returned hcall =>
    cases h
    refine ⟨_, _, ⟨hcall, rfl, rfl, rfl, fun _ => rfl, fun hwaits => (by cases hwaits),
      .inl ⟨rfl, rfl⟩⟩, ?_⟩
    simp [LockCall.pending, Nat.add_comm]
  next key previous outcome tail hcall =>
    cases h
    refine ⟨_, _, ⟨hcall, rfl, rfl, rfl, fun _ => rfl, fun hwaits => (by cases hwaits),
      .inr ⟨rfl, rfl, rfl⟩⟩, ?_⟩
    simp [LockCall.pending]
  · cases h

namespace Advances
variable {id : ℕ} {c c' : LockCall κ}

theorem calls_get? (h : Advances w w' id c c') (j : ℕ) :
    w'.calls[j]? = if id = j then some c' else w.calls[j]? := by
  have hid : id < w.calls.length := (List.getElem?_eq_some_iff.mp h.call).1
  rw [h.calls, List.getElem?_set]
  by_cases hj : id = j
  · simp [hj, hj ▸ hid]
  · simp [hj]

/-- A call after the step is a call before it, on the same key and no less settled. -/
theorem before (h : Advances w w' id c c') {j : ℕ} {d' : LockCall κ}
    (hd' : w'.calls[j]? = some d') : ∃ d, w.calls[j]? = some d ∧ d'.key = d.key ∧
      d'.previous = d.previous ∧ (d.done = true → d'.done = true) := by
  rw [h.calls_get?] at hd'
  split_ifs at hd' with hj
  · cases hd'
    exact ⟨c, hj ▸ h.call, h.key, h.previous, h.done⟩
  · exact ⟨d', hd', rfl, rfl, fun hdone => hdone⟩

/-- Whoever has started has only settled calls in front. -/
theorem ahead (h : Advances w w' id c c') (hw : w.Chained)
    (hstarted : c'.waits = false ∨ c'.previous = none) {j : ℕ} {d : LockCall κ} (hj : j < id)
    (hd : w.calls[j]? = some d) (hkey : d.key = c.key) : d.done = true := by
  by_cases hbefore : c.waits = false ∨ c.previous = none
  · exact hw.ahead id c h.call hbefore j d hj hd hkey
  · simp only [not_or, Bool.not_eq_false] at hbefore
    obtain ⟨hwaits, hsome⟩ := hbefore
    obtain ⟨p, hp⟩ := Option.ne_none_iff_exists'.mp hsome
    have hc' : c'.waits = false := hstarted.resolve_right (by rw [h.previous, hp]; simp)
    have hsettled := h.starts hwaits hc'
    obtain ⟨hlt, ⟨b, hb, hbkey⟩, hbetween⟩ := hw.previous id c p h.call hp
    have hbdone : b.done = true := by
      simp only [previousSettled, hp, Option.all_some, hb, Option.any_some] at hsettled
      exact LockCall.done_of_tailSettled hsettled
    rcases Nat.lt_trichotomy j p with hjp | hjp | hjp
    · exact hw.ahead p b hb (.inl (LockCall.not_waits_of_done hbdone)) j d hjp hd
        (hkey.trans hbkey.symm)
    · subst hjp
      rw [hb] at hd
      cases hd
      exact hbdone
    · exact absurd hkey (hbetween j d hjp hj hd)

theorem tails_get? (h : Advances w w' id c c') (k : κ) :
    w'.tails.get? k = w.tails.get? k ∨
      (w'.tails.get? k = none ∧ w.tails.get? k = some id ∧ k = c.key ∧ c'.done = true) := by
  rcases h.tails with ⟨htails, -⟩ | ⟨htails, -, hdone⟩
  · exact .inl (by rw [htails])
  · rw [htails, dropTail]
    split_ifs with htail
    · rw [OrderedMap.get?_erase]
      split_ifs with hk
      · exact .inr ⟨rfl, hk ▸ htail, hk.symm, hdone⟩
      · exact .inl rfl
    · exact .inl rfl

theorem chained (h : Advances w w' id c c') (hw : w.Chained) : w'.Chained where
  tail_last k t ht := by
    have hsame : w.tails.get? k = some t := by
      rcases h.tails_get? k with hget | ⟨hnone, -⟩
      · rw [← hget, ht]
      · rw [hnone] at ht
        cases ht
    obtain ⟨b, hb, hkey, hopen, hlast⟩ := hw.tail_last k t hsame
    have hafter : ∀ j d, t < j → w'.calls[j]? = some d → d.key ≠ k := by
      intro j d hj hd
      obtain ⟨d₀, hd₀, hkey₀, -⟩ := h.before hd
      rw [hkey₀]
      exact hlast j d₀ hj hd₀
    by_cases hid : id = t
    · subst hid
      have hbc : b = c := Option.some.inj (hb.symm.trans h.call)
      subst hbc
      refine ⟨c', by rw [h.calls_get?, if_pos rfl], h.key.trans hkey, ?_, hafter⟩
      rcases h.tails with ⟨-, hclosed⟩ | ⟨htails, -⟩
      · rw [hclosed, hopen]
      · rw [htails, hkey, dropTail, if_pos hsame, OrderedMap.get?_erase, if_pos rfl] at ht
        cases ht
    · exact ⟨b, by rw [h.calls_get?, if_neg hid, hb], hkey, hopen, hafter⟩
  no_tail k hk j d hd hkey := by
    obtain ⟨d₀, hd₀, hkey₀, -, hdone₀⟩ := h.before hd
    rcases h.tails_get? k with hget | ⟨-, htail, rfl, hdone⟩
    · exact hdone₀ (hw.no_tail k (hget ▸ hk) j d₀ hd₀ (hkey₀ ▸ hkey))
    · obtain ⟨b, hb, -, -, hlast⟩ := hw.tail_last c.key id htail
      rcases Nat.lt_trichotomy j id with hj | hj | hj
      · exact hdone₀ (h.ahead hw (.inl (LockCall.not_waits_of_done hdone)) hj hd₀ (hkey₀ ▸ hkey))
      · subst hj
        rw [h.calls_get?, if_pos rfl] at hd
        cases hd
        exact hdone
      · exact absurd (hkey₀ ▸ hkey) (hlast j d₀ hj hd₀)
  previous i d p hd hp := by
    obtain ⟨d₀, hd₀, hkey₀, hprevious₀, -⟩ := h.before hd
    obtain ⟨hlt, ⟨b, hb, hbkey⟩, hbetween⟩ := hw.previous i d₀ p hd₀ (hprevious₀ ▸ hp)
    refine ⟨hlt, ?_, ?_⟩
    · by_cases hid : id = p
      · subst hid
        have hbc : b = c := Option.some.inj (hb.symm.trans h.call)
        exact ⟨c', by rw [h.calls_get?, if_pos rfl], by rw [h.key, hkey₀, ← hbkey, hbc]⟩
      · exact ⟨b, by rw [h.calls_get?, if_neg hid, hb], hbkey.trans hkey₀.symm⟩
    · intro j e hpj hji he
      obtain ⟨e₀, he₀, hekey, -⟩ := h.before he
      rw [hekey, hkey₀]
      exact hbetween j e₀ hpj hji he₀
  ahead i d hd hstarted j e hj he hkey := by
    obtain ⟨e₀, he₀, hekey, -, hedone⟩ := h.before he
    obtain ⟨d₀, hd₀, hkey₀, -⟩ := h.before hd
    have hsame : e₀.key = d₀.key := by rw [← hekey, ← hkey₀, hkey]
    by_cases hid : id = i
    · subst hid
      have hdc : d₀ = c := Option.some.inj (hd₀.symm.trans h.call)
      rw [h.calls_get?, if_pos rfl] at hd
      cases hd
      exact hedone (h.ahead hw hstarted hj he₀ (hdc ▸ hsame))
    · rw [h.calls_get?, if_neg hid] at hd
      rw [hd] at hd₀
      cases hd₀
      exact hedone (hw.ahead i d hd hstarted j e₀ hj he₀ hsame)

end Advances

theorem mem_append_call {α : Type*} {calls : List α} {c d : α} {j : ℕ} :
    (calls ++ [c])[j]? = some d ↔ calls[j]? = some d ∨ (j = calls.length ∧ d = c) := by
  rcases Nat.lt_trichotomy j calls.length with hj | hj | hj
  · rw [List.getElem?_append_left hj]
    simp [hj.ne]
  · subst hj
    simp [eq_comm]
  · have hnone : calls[j]? = none := List.getElem?_eq_none hj.le
    rw [List.getElem?_append_right hj.le, List.getElem?_singleton, if_neg (by omega), hnone]
    simp [hj.ne']

/-- A new call is last in line; it starts at once only if nobody is in front. -/
theorem append_chained (hw : w.Chained) {c : LockCall κ} (hopen : c.closed = false)
    (hprevious : c.previous = w.tails.get? c.key)
    (hstart : c.waits = false → w.tails.get? c.key = none) :
    Chained ⟨w.tails.set c.key w.calls.length, w.calls ++ [c]⟩ where
  tail_last k t ht := by
    rw [OrderedMap.get?_set] at ht
    split_ifs at ht with hk
    · cases ht
      refine ⟨c, mem_append_call.mpr (.inr ⟨rfl, rfl⟩), hk, hopen, fun j d hj hd => ?_⟩
      rcases mem_append_call.mp hd with hold | ⟨hlast, -⟩
      · have hlt := (List.getElem?_eq_some_iff.mp hold).1
        omega
      · omega
    · obtain ⟨b, hb, hkey, hbopen, hlast⟩ := hw.tail_last k t ht
      refine ⟨b, mem_append_call.mpr (.inl hb), hkey, hbopen, fun j d hj hd => ?_⟩
      rcases mem_append_call.mp hd with hold | ⟨-, rfl⟩
      · exact hlast j d hj hold
      · exact hk
  no_tail k ht j d hd hkey := by
    rw [OrderedMap.get?_set] at ht
    split_ifs at ht with hk
    rcases mem_append_call.mp hd with hold | ⟨-, rfl⟩
    · exact hw.no_tail k ht j d hold hkey
    · exact absurd hkey hk
  previous i d p hd hp := by
    have hbetween : ∀ j e, p < j → j < i → (w.calls ++ [c])[j]? = some e → i ≤ w.calls.length →
        w.calls[j]? = some e := by
      intro j e _ hji he hi
      rcases mem_append_call.mp he with hold | ⟨hlast, -⟩
      · exact hold
      · omega
    rcases mem_append_call.mp hd with hold | ⟨rfl, rfl⟩
    · have hlt := (List.getElem?_eq_some_iff.mp hold).1
      obtain ⟨hpi, ⟨b, hb, hbkey⟩, hnone⟩ := hw.previous i d p hold hp
      exact ⟨hpi, ⟨b, mem_append_call.mpr (.inl hb), hbkey⟩, fun j e hpj hji he =>
        hnone j e hpj hji (hbetween j e hpj hji he hlt.le)⟩
    · obtain ⟨b, hb, hbkey, -, hlast⟩ := hw.tail_last d.key p (hprevious ▸ hp)
      exact ⟨(List.getElem?_eq_some_iff.mp hb).1, ⟨b, mem_append_call.mpr (.inl hb), hbkey⟩,
        fun j e hpj hji he => hlast j e hpj (hbetween j e hpj hji he le_rfl)⟩
  ahead i d hd hstarted j e hj he hkey := by
    have hi : i ≤ w.calls.length := by
      rcases mem_append_call.mp hd with hold | ⟨rfl, -⟩
      · exact (List.getElem?_eq_some_iff.mp hold).1.le
      · exact le_rfl
    have heold : w.calls[j]? = some e := by
      rcases mem_append_call.mp he with hold | ⟨hlast, -⟩
      · exact hold
      · omega
    rcases mem_append_call.mp hd with hold | ⟨rfl, rfl⟩
    · exact hw.ahead i d hold hstarted j e hj heold hkey
    · have hnone : w.tails.get? d.key = none := by
        rcases hstarted with hstarted | hfree
        · exact hstart hstarted
        · rw [← hprevious, hfree]
      exact hw.no_tail d.key hnone j e heold hkey

theorem run_chained (hw : w.Chained) (key : κ) : (w.run key).Chained :=
  append_chained hw (c := .run key (w.tails.get? key) .waiting) rfl rfl
    (fun hwaits => by cases hwaits)

/-- A granted lease found no entry. -/
theorem tryAcquire_granted {key : κ} {id : ℕ} (h : (w.tryAcquire key).1 = some id) :
    w.tails.get? key = none ∧ id = w.calls.length ∧
      (w.tryAcquire key).2 = ⟨w.tails.set key w.calls.length, w.calls ++ [.lease key false]⟩ := by
  unfold tryAcquire at h ⊢
  split_ifs at h ⊢ with hthere
  have hfree : w.tails.get? key = none := by
    simpa [OrderedMap.contains] using hthere
  exact ⟨hfree, (Option.some.inj h).symm, rfl⟩

theorem tryAcquire_refused {key : κ} (h : (w.tryAcquire key).1 = none) :
    (w.tryAcquire key).2 = w := by
  unfold tryAcquire at h ⊢
  split_ifs at h ⊢
  rfl

theorem tryAcquire_chained (hw : w.Chained) (key : κ) : (w.tryAcquire key).2.Chained := by
  cases hgrant : (w.tryAcquire key).1 with
  | none =>
    rw [tryAcquire_refused hgrant]
    exact hw
  | some id =>
    obtain ⟨hfree, -, hgranted⟩ := tryAcquire_granted hgrant
    rw [hgranted]
    exact append_chained hw (c := .lease key false) rfl hfree.symm (fun _ => hfree)

theorem step_chained {e : LockEvent κ} (hw : w.Chained) (h : threadLocks.step w e = some w') :
    w'.Chained := by
  cases e with
  | run key =>
    cases h
    exact run_chained hw key
  | tryAcquire key =>
    cases h
    exact tryAcquire_chained hw key
  | release id =>
    rcases release_advances h with rfl | ⟨key, hadvances⟩
    · exact hw
    · exact hadvances.chained hw
  | settle id outcome =>
    obtain ⟨key, previous, hadvances⟩ := settle_advances h
    exact hadvances.chained hw
  | continuation id callback =>
    obtain ⟨c, c', hadvances, -⟩ := continuation_advances h
    exact hadvances.chained hw

theorem chained_empty : Chained ({} : ThreadLocks κ) where
  tail_last _ _ h := by cases h
  no_tail _ _ _ _ h := by cases h
  previous _ _ _ h := by cases h
  ahead _ _ h := by cases h

theorem run_events_chained {events : List (LockEvent κ)}
    (h : threadLocks.run {} events = some w) : w.Chained :=
  Machine.run_invariant (fun _ _ _ hw hstep => step_chained hw hstep) chained_empty h

/-- No continuation is left to run. -/
def Drained (w : ThreadLocks κ) : Prop := ∀ id callback, w.continuation id callback = none

/-- Continuations to come before another event is needed. -/
def pending (w : ThreadLocks κ) : ℕ := w.calls.foldr (fun c n => c.pending + n) 0

theorem foldr_add_eq {α : Type*} (f : α → ℕ) (l : List α) (n : ℕ) :
    l.foldr (fun c m => f c + m) n = l.foldr (fun c m => f c + m) 0 + n := by
  induction l with
  | nil => simp
  | cons c l ih =>
    rw [List.foldr_cons, List.foldr_cons, ih, Nat.add_assoc]

theorem continuation_pending {id : ℕ} {callback : Continuation}
    (h : w.continuation id callback = some w') : w'.pending + 1 = w.pending := by
  obtain ⟨c, c', hadvances, hpending⟩ := continuation_advances h
  have hsplit := List.getElem?_eq_some_iff.mp hadvances.call
  obtain ⟨hid, hc⟩ := hsplit
  have hbefore : w.calls = w.calls.take id ++ c :: w.calls.drop (id + 1) := by
    rw [← hc, List.getElem_cons_drop, List.take_append_drop]
  have hafter : w'.calls = w.calls.take id ++ c' :: w.calls.drop (id + 1) := by
    rw [hadvances.calls, List.set_eq_take_append_cons_drop, if_pos hid]
  unfold pending
  rw [hafter]
  conv_rhs => rw [hbefore]
  simp only [List.foldr_append, List.foldr_cons]
  rw [foldr_add_eq, foldr_add_eq _ _ (c.pending + _)]
  omega

/-- Running continuations comes to an end. -/
theorem continuations_pending {callbacks : List (ℕ × Continuation)}
    (h : threadLocks.run w (callbacks.map fun c => .continuation c.1 c.2) = some w') :
    w'.pending + callbacks.length = w.pending := by
  induction callbacks generalizing w with
  | nil =>
    cases h
    rfl
  | cons c callbacks ih =>
    obtain ⟨u, hu, hrun⟩ := (threadLocks.run_cons_eq_some).mp h
    have hstep : u.pending + 1 = w.pending := continuation_pending hu
    have hrest := ih hrun
    rw [List.length_cons]
    omega

theorem exists_drained (w : ThreadLocks κ) : ∃ (callbacks : List (ℕ × Continuation)) (w' : _),
    threadLocks.run w (callbacks.map fun c => .continuation c.1 c.2) = some w' ∧ w'.Drained := by
  induction hn : w.pending using Nat.strongRecOn generalizing w with
  | ind n ih =>
    by_cases hdrained : w.Drained
    · exact ⟨[], w, rfl, hdrained⟩
    · simp only [Drained, not_forall] at hdrained
      obtain ⟨id, callback, hsome⟩ := hdrained
      obtain ⟨u, hu⟩ := Option.ne_none_iff_exists'.mp hsome
      have hless := continuation_pending hu
      obtain ⟨callbacks, w', hrun, hdrained⟩ := ih u.pending (by omega) u rfl
      exact ⟨(id, callback) :: callbacks, w', (threadLocks.run_cons_eq_some).mpr ⟨u, hu, hrun⟩,
        hdrained⟩

/-- Once nothing is left to run, a settled task has resolved its tail and returned. -/
theorem closed_of_drained (hw : w.Drained) {id : ℕ} {c : LockCall κ} (hc : w.calls[id]? = some c)
    (hdone : c.done = true) : c.tailSettled = true ∧ c.closed = true := by
  cases c with
  | lease key released =>
    cases released with
    | false => cases hdone
    | true => exact ⟨rfl, rfl⟩
  | run key previous phase =>
    cases phase with
    | waiting => cases hdone
    | running => cases hdone
    | settled outcome =>
      have hnext := hw id .result
      simp [continuation, hc] at hnext
    | resulted outcome tail returned =>
      have htail := hw id .tail
      have hreturned := hw id .finally
      cases tail <;> cases returned <;> simp_all [continuation, LockCall.tailSettled,
        LockCall.closed]

/-- Then a task waits only for a call in front of it that has not settled. -/
theorem waits_drained (hw : w.Chained) (hdrained : w.Drained) {i : ℕ} {c : LockCall κ}
    (hc : w.calls[i]? = some c) (hwaits : c.waits = true) :
    ∃ j d, j < i ∧ w.calls[j]? = some d ∧ d.key = c.key ∧ d.done = false := by
  cases c with
  | lease key released => cases hwaits
  | run key previous phase =>
    cases phase with
    | running | settled | resulted => cases hwaits
    | waiting =>
      have hblocked := hdrained i .task
      simp only [continuation, hc, ite_eq_right_iff, reduceCtorEq, imp_false] at hblocked
      cases previous with
      | none => exact absurd rfl hblocked
      | some p =>
        obtain ⟨hlt, ⟨b, hb, hkey⟩, -⟩ := hw.previous i _ p hc rfl
        refine ⟨p, b, hlt, hb, hkey, Bool.eq_false_iff.mpr fun hdone => hblocked ?_⟩
        simp [previousSettled, hb, (closed_of_drained hdrained hb hdone).1]

end ThreadLocks

/-- What holds of the locks at any moment. -/
structure LockContract {κ : Type*} [DecidableEq κ] (w : ThreadLocks κ) : Prop where
  /-- A key has at most one holder. -/
  exclusive : ∀ (i j : ℕ) (c d : LockCall κ), w.calls[i]? = some c → w.calls[j]? = some d →
    c.key = d.key → c.holds = true → d.holds = true → i = j
  /-- Whoever has started has only settled calls in front. -/
  order : ∀ (i j : ℕ) (c d : LockCall κ), i < j → w.calls[i]? = some c → w.calls[j]? = some d →
    c.key = d.key → d.waits = false → c.done = true
  /-- The continuations of settled promises come to an end, in any order. -/
  drains : (∃ (callbacks : List (ℕ × Continuation)) (w' : ThreadLocks κ),
      threadLocks.run w (callbacks.map fun c => .continuation c.1 c.2) = some w' ∧ w'.Drained) ∧
    ∀ (callbacks : List (ℕ × Continuation)) (w' : ThreadLocks κ),
      threadLocks.run w (callbacks.map fun c => .continuation c.1 c.2) = some w' →
      callbacks.length ≤ w.pending
  /-- After them a task has started if all in front of it have settled, however they did. -/
  starts : w.Drained → ∀ (i : ℕ) (c : LockCall κ), w.calls[i]? = some c →
    (∀ (j : ℕ) (d : LockCall κ), j < i → w.calls[j]? = some d → d.key = c.key →
      d.done = true) → c.waits = false
  /-- A lease is granted only where nobody holds or waits. -/
  granted : ∀ (key : κ) (id : ℕ), (w.tryAcquire key).1 = some id → ∀ (j : ℕ) (d : LockCall κ),
    w.calls[j]? = some d → d.key = key → d.holds = false ∧ d.waits = false
  /-- A release takes no lock from another call, and a second one does nothing. -/
  released : ∀ (id : ℕ) (w' : ThreadLocks κ), w.release id = some w' →
    (∀ j, j ≠ id → w'.calls[j]? = w.calls[j]?) ∧
    ∀ key, w.calls[id]? = some (.lease key true) → w' = w
  /-- Once all have settled and nothing is left to run the map is empty. -/
  clean : w.Drained → (∀ (j : ℕ) (d : LockCall κ), w.calls[j]? = some d → d.done = true) →
    w.tails.size = 0

/-- A task holds the key, a second one waits, a nonblocking caller is refused; the first task
is rejected and the second one starts. -/
def contention : List (LockEvent ℕ) :=
  [.run 7, .run 7, .tryAcquire 7, .continuation 0 .task, .settle 0 .rejected,
    .continuation 0 .result, .continuation 0 .finally, .continuation 0 .tail,
    .continuation 1 .task]

def contended : ThreadLocks ℕ where
  tails := (∅ : OrderedMap ℕ ℕ).set 7 1
  calls := [.run 7 none (.resulted .rejected true true), .run 7 (some 0) .running]

end Skein
