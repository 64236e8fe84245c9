import Mathlib.Data.List.Basic

/-!
# Calls that may fail

A computation calls a component whose every operation either takes full effect
or fails with none. The failures still to come are a list with one Boolean for
each call, and a call beyond its end succeeds, so a statement about all fault
lists is a statement about a failure at every point. `Ensures` is the triple of
such computations: one postcondition for a value and one for an error, because
what survives a failure is the point of the code that uses it.
-/
namespace Skein

/-- A state together with the faults still to come. -/
structure Faulty (σ : Type) where
  state : σ
  faults : List Bool
  deriving DecidableEq, Repr

def FaultM (σ ε α : Type) : Type := Faulty σ → Except ε α × Faulty σ

namespace FaultM
variable {σ ε α β : Type}

instance : Monad (FaultM σ ε) where
  pure a := fun w => (.ok a, w)
  bind m f := fun w =>
    match m w with
    | (.ok a, w') => f a w'
    | (.error e, w') => (.error e, w')

def throw (e : ε) : FaultM σ ε α := fun w => (.error e, w)

/-- One call: its error and no effect when the next fault is set, else its full effect. -/
def attempt (e : ε) (effect : σ → α × σ) : FaultM σ ε α := fun w =>
  if w.faults.headD false then (.error e, ⟨w.state, w.faults.tail⟩)
  else (.ok (effect w.state).1, ⟨(effect w.state).2, w.faults.tail⟩)

def read (e : ε) (f : σ → α) : FaultM σ ε α := attempt e fun s => (f s, s)
def modify (e : ε) (f : σ → σ) : FaultM σ ε Unit := attempt e fun s => ((), f s)

/-- A point at which the computation may be told to stop. -/
def check (e : ε) : FaultM σ ε Unit := attempt e fun s => ((), s)

/-- `try … catch (error) { throw … }`. -/
def mapError (f : ε → ε) (m : FaultM σ ε α) : FaultM σ ε α := fun w =>
  match m w with
  | (.ok a, w') => (.ok a, w')
  | (.error e, w') => (.error (f e), w')

/-- `.catch(() => undefined)`. -/
def ignore (m : FaultM σ ε Unit) : FaultM σ ε Unit := fun w => (.ok (), (m w).2)

theorem bind_of_ok {m : FaultM σ ε α} {f : α → FaultM σ ε β} {w w' : Faulty σ} {a : α}
    (h : m w = (.ok a, w')) : (m >>= f) w = f a w' := by
  show (match m w with | (.ok a, w') => f a w' | (.error e, w') => (.error e, w')) = _
  rw [h]

theorem bind_of_error {m : FaultM σ ε α} {f : α → FaultM σ ε β} {w w' : Faulty σ} {e : ε}
    (h : m w = (.error e, w')) : (m >>= f) w = (.error e, w') := by
  show (match m w with | (.ok a, w') => f a w' | (.error e, w') => (.error e, w')) = _
  rw [h]

/-- Every way `m` can end from a state where `P` holds. -/
def Ensures (P : σ → Prop) (m : FaultM σ ε α) (Q : α → σ → Prop) (E : ε → σ → Prop) : Prop :=
  ∀ w, P w.state →
    (∀ a, (m w).1 = .ok a → Q a (m w).2.state) ∧ (∀ e, (m w).1 = .error e → E e (m w).2.state)

variable {P P' : σ → Prop} {Q : α → σ → Prop} {R : β → σ → Prop} {E E' : ε → σ → Prop}

theorem Ensures.of_ok {m : FaultM σ ε α} (h : Ensures P m Q E) {w w' : Faulty σ} {a : α}
    (hP : P w.state) (hm : m w = (.ok a, w')) : Q a w'.state := by
  have hQ := (h w hP).1 a
  rw [hm] at hQ
  exact hQ rfl

theorem Ensures.of_error {m : FaultM σ ε α} (h : Ensures P m Q E) {w w' : Faulty σ} {e : ε}
    (hP : P w.state) (hm : m w = (.error e, w')) : E e w'.state := by
  have hE := (h w hP).2 e
  rw [hm] at hE
  exact hE rfl

theorem Ensures.pure {a : α} (h : ∀ s, P s → Q a s) : Ensures P (pure a : FaultM σ ε α) Q E := by
  intro w hP
  constructor
  · intro b hb
    cases hb
    exact h _ hP
  · intro e he
    cases he

theorem Ensures.throw {e : ε} (h : ∀ s, P s → E e s) : Ensures P (throw e : FaultM σ ε α) Q E := by
  intro w hP
  constructor
  · intro b hb
    cases hb
  · intro e' he
    cases he
    exact h _ hP

theorem Ensures.bind {m : FaultM σ ε α} {f : α → FaultM σ ε β} (hm : Ensures P m Q E)
    (hf : ∀ a, Ensures (Q a) (f a) R E) : Ensures P (m >>= f) R E := by
  intro w hP
  obtain ⟨hok, herror⟩ := hm w hP
  rcases hw : m w with ⟨_ | a, w'⟩
  case error e =>
    rw [hw] at herror
    rw [bind_of_error hw]
    constructor
    · intro b hb
      cases hb
    · intro e' he
      cases he
      exact herror e rfl
  case ok =>
    rw [hw] at hok
    rw [bind_of_ok hw]
    exact hf a w' (hok a rfl)

/-- The call rule: the postcondition after the full effect, the error one with no effect. -/
theorem Ensures.attempt {e : ε} {effect : σ → α × σ}
    (hok : ∀ s, P s → Q (effect s).1 (effect s).2) (herror : ∀ s, P s → E e s) :
    Ensures P (attempt e effect) Q E := by
  intro w hP
  simp only [FaultM.attempt]
  split_ifs
  · constructor
    · intro b hb
      cases hb
    · intro e' he
      cases he
      exact herror _ hP
  · constructor
    · intro b hb
      cases hb
      exact hok _ hP
    · intro e' he
      cases he

theorem Ensures.read {e : ε} {f : σ → α} (hok : ∀ s, P s → Q (f s) s)
    (herror : ∀ s, P s → E e s) : Ensures P (read e f) Q E :=
  .attempt hok herror

theorem Ensures.modify {e : ε} {f : σ → σ} {Q : Unit → σ → Prop} (hok : ∀ s, P s → Q () (f s))
    (herror : ∀ s, P s → E e s) : Ensures P (modify e f) Q E :=
  .attempt hok herror

theorem Ensures.check {e : ε} (herror : ∀ s, P s → E e s) :
    Ensures P (check e) (fun _ => P) E :=
  .attempt (fun _ h => h) herror

theorem Ensures.weaken {m : FaultM σ ε α} {Q' : α → σ → Prop} (h : Ensures P m Q E)
    (hP : ∀ s, P' s → P s) (hQ : ∀ a s, Q a s → Q' a s) (hE : ∀ e s, E e s → E' e s) :
    Ensures P' m Q' E' := by
  intro w hw
  obtain ⟨hok, herror⟩ := h w (hP _ hw)
  exact ⟨fun a ha => hQ a _ (hok a ha), fun e he => hE e _ (herror e he)⟩

/-- Name the state that the computation starts from. -/
theorem Ensures.of_state {m : FaultM σ ε α} (h : ∀ s, P s → Ensures (fun s' => s' = s) m Q E) :
    Ensures P m Q E :=
  fun w hP => h w.state hP w rfl

theorem Ensures.mapError {m : FaultM σ ε α} {f : ε → ε} (h : Ensures P m Q fun e => E (f e)) :
    Ensures P (mapError f m) Q E := by
  intro w hP
  obtain ⟨hok, herror⟩ := h w hP
  rcases hw : m w with ⟨_ | a, w'⟩
  case error e =>
    rw [hw] at herror
    simp only [FaultM.mapError, hw]
    constructor
    · intro b hb
      cases hb
    · intro e' he
      cases he
      exact herror e rfl
  case ok =>
    rw [hw] at hok
    simp only [FaultM.mapError, hw]
    constructor
    · intro b hb
      cases hb
      exact hok a rfl
    · intro e' he
      cases he

theorem Ensures.ignore {m : FaultM σ ε Unit} {Q : Unit → σ → Prop}
    (h : Ensures P m Q fun _ => Q ()) : Ensures P (ignore m) Q E := by
  intro w hP
  obtain ⟨hok, herror⟩ := h w hP
  constructor
  · intro b _
    show Q b (m w).2.state
    rcases hw : (m w).1 with e | a
    · exact herror e hw
    · exact hok a hw
  · intro e he
    cases he

/-- The loop rule: the invariant speaks of the elements done so far. -/
theorem Ensures.forM {I : List α → σ → Prop} {f : α → FaultM σ ε PUnit} (xs : List α)
    (h : ∀ done x rest, xs = done ++ x :: rest →
      Ensures (I done) (f x) (fun _ => I (done ++ [x])) E) :
    Ensures (I []) (xs.forM f) (fun _ => I xs) E := by
  have hfrom : ∀ rest done, xs = done ++ rest → Ensures (I done) (rest.forM f) (fun _ => I xs) E := by
    intro rest
    induction rest with
    | nil =>
      intro done hxs
      rw [List.append_nil] at hxs
      subst hxs
      exact .pure fun _ hs => hs
    | cons x rest ih =>
      intro done hxs
      apply Ensures.bind (h done x rest hxs)
      intro _
      exact ih (done ++ [x]) (by rw [hxs, List.append_assoc, List.singleton_append])
  exact hfrom xs [] rfl

/-- Without faults the computation returns a value. -/
def NeverFails (m : FaultM σ ε α) : Prop := ∀ s, ∃ a s', m ⟨s, []⟩ = (.ok a, ⟨s', []⟩)

theorem NeverFails.attempt (e : ε) (effect : σ → α × σ) : NeverFails (attempt e effect) :=
  fun s => ⟨(effect s).1, (effect s).2, rfl⟩

theorem NeverFails.modify (e : ε) (f : σ → σ) : NeverFails (modify e f) := .attempt e _

theorem NeverFails.check (e : ε) : NeverFails (check e : FaultM σ ε Unit) := .attempt e _

theorem NeverFails.bind {m : FaultM σ ε α} {f : α → FaultM σ ε β} (hm : NeverFails m)
    (hf : ∀ a, NeverFails (f a)) : NeverFails (m >>= f) := by
  intro s
  obtain ⟨a, s', ha⟩ := hm s
  obtain ⟨b, s'', hb⟩ := hf a s'
  exact ⟨b, s'', (bind_of_ok ha).trans hb⟩

theorem NeverFails.forM {f : α → FaultM σ ε PUnit} (h : ∀ x, NeverFails (f x)) (xs : List α) :
    NeverFails (xs.forM f) := by
  induction xs with
  | nil => exact fun s => ⟨⟨⟩, s, rfl⟩
  | cons x rest ih => exact (h x).bind fun _ => ih

theorem NeverFails.mapError {m : FaultM σ ε α} (f : ε → ε) (h : NeverFails m) :
    NeverFails (mapError f m) := by
  intro s
  obtain ⟨a, s', ha⟩ := h s
  exact ⟨a, s', by simp only [FaultM.mapError, ha]⟩

theorem NeverFails.ignore {m : FaultM σ ε Unit} (h : NeverFails m) : NeverFails (ignore m) := by
  intro s
  obtain ⟨a, s', ha⟩ := h s
  exact ⟨(), s', by simp only [FaultM.ignore, ha]⟩

end FaultM
end Skein
