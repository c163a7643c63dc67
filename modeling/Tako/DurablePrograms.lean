import Tako.GoPrelude

/-! # Programs with durable writes and crashes

A program yields the disks after each of its durable writes and a result or an error. The process
may stop between any two writes, and then nobody sees a result. `Holds` is a triple with a crash
invariant.
-/
namespace DurablePrograms

open List GoPrelude

variable {σ α β : Type}

def Durable (σ α : Type) : Type := σ → List σ × Except String α

namespace Durable

def ok (a : α) : Durable σ α := fun _ => ([], .ok a)

def fail (cause : String) : Durable σ α := fun _ => ([], .error cause)

def check (x : σ → Except String α) : Durable σ α := fun d => ([], x d)

def write (fault : Option String) (update : σ → σ) : Durable σ Unit := fun d =>
  match fault with
  | some cause => ([], .error cause)
  | none => ([update d], .ok ())

/-- A call of another component that may change its part of the disk also when it fails. -/
def call (run : σ → Except String α × σ) : Durable σ α := fun d => ([(run d).2], (run d).1)

def andThen (p : Durable σ α) (f : α → Durable σ β) : Durable σ β := fun d =>
  match (p d).2 with
  | .error cause => ((p d).1, .error cause)
  | .ok a => ((p d).1 ++ (f a ((p d).1.getLastD d)).1, (f a ((p d).1.getLastD d)).2)

instance : Monad (Durable σ) where
  pure := ok
  bind := andThen

def onError (p : Durable σ α) (cleanup : Durable σ β) : Durable σ α := fun d =>
  match (p d).2 with
  | .error cause => ((p d).1 ++ (cleanup ((p d).1.getLastD d)).1, .error cause)
  | .ok a => ((p d).1, .ok a)

/-- The program `p`, and in place of its error what `handler` makes of it. -/
def recover (p : Durable σ α) (handler : String → Durable σ α) : Durable σ α := fun d =>
  match (p d).2 with
  | .error cause =>
    ((p d).1 ++ (handler cause ((p d).1.getLastD d)).1, (handler cause ((p d).1.getLastD d)).2)
  | .ok a => ((p d).1, .ok a)

def mapError (f : String → String) (p : Durable σ α) : Durable σ α := fun d =>
  ((p d).1, (p d).2.mapError f)

/-- The program `p` over the part of a larger disk that `get` reads and `set` replaces. -/
def zoom {τ : Type} (get : τ → σ) (set : σ → τ → τ) (p : Durable σ α) : Durable τ α := fun d =>
  ((p (get d)).1.map fun w => set w d, (p (get d)).2)

end Durable

inductive Stop where
  | returns
  | crashes (written : ℕ)
  deriving DecidableEq

def Durable.disk (p : Durable σ α) (d : σ) : Stop → σ
  | .returns => (p d).1.getLastD d
  | .crashes written => ((p d).1.take written).getLastD d

def Durable.answer (p : Durable σ α) (d : σ) : Stop → Option (Except String α)
  | .returns => some (p d).2
  | .crashes _ => none

theorem getLastD_mem_or (l : List σ) (d : σ) : l.getLastD d = d ∨ l.getLastD d ∈ l := by
  cases l with
  | nil => exact .inl rfl
  | cons => exact .inr (by rw [getLastD_cons]; exact getLastD_mem_cons)

/-- Wherever a program stops, the disk is the old one or the result of one of its writes. -/
theorem Durable.disk_cases (p : Durable σ α) (d : σ) (stop : Stop) :
    p.disk d stop = d ∨ p.disk d stop ∈ (p d).1 := by
  cases stop with
  | returns => exact getLastD_mem_or _ d
  | crashes written =>
    rcases getLastD_mem_or ((p d).1.take written) d with h | h
    · exact .inl h
    · exact .inr (mem_of_mem_take h)

/-- From `d` every write of `p` establishes `I`, and a result is returned only with `Q`. -/
def Holds (p : Durable σ α) (d : σ) (I : σ → Prop) (Q : α → σ → Prop) : Prop :=
  (∀ w ∈ (p d).1, I w) ∧ ∀ a, (p d).2 = .ok a → Q a ((p d).1.getLastD d)

variable {d : σ} {I : σ → Prop} {Q : α → σ → Prop}

variable {p : Durable σ α} {a : α} {cause : String} {x : σ → Except String α}
  {fault : Option String} {f : α → Durable σ β} {τ : Type} {w : σ}

theorem Holds.disk (h : Holds p d I Q) (hd : I d) (stop : Stop) : I (p.disk d stop) := by
  rcases p.disk_cases d stop with he | hm
  · rw [he]
    exact hd
  · exact h.1 _ hm

theorem Holds.answer (h : Holds p d I Q) {stop : Stop} (ha : p.answer d stop = some (.ok a)) :
    Q a (p.disk d stop) := by
  cases stop with
  | returns => exact h.2 a (Option.some.inj ha)
  | crashes => cases ha

open Durable

theorem holds_ok (h : Q a d) : Holds (pure a) d I Q := by
  refine ⟨by simp [pure, ok], ?_⟩
  intro b hb
  cases hb
  exact h

theorem holds_fail : Holds (fail cause) d I Q := ⟨by simp [fail], fun _ h => by cases h⟩

theorem holds_check (h : ∀ a, x d = .ok a → Q a d) : Holds (check x) d I Q := ⟨by simp [check], h⟩

theorem holds_write {update : σ → σ} {Q : Unit → σ → Prop} (hI : I (update d))
    (hQ : Q () (update d)) : Holds (write fault update) d I Q := by
  cases fault with
  | some => exact ⟨by simp [write], fun _ h => by cases h⟩
  | none =>
    refine ⟨by simpa [write] using hI, ?_⟩
    intro u _
    exact hQ

theorem holds_call {run : σ → Except String α × σ} (hI : I (run d).2)
    (hQ : ∀ a, (run d).1 = .ok a → Q a (run d).2) : Holds (call run) d I Q :=
  ⟨by simpa [call] using hI, hQ⟩

theorem getLastD_append (l m : List σ) (d : σ) :
    (l ++ m).getLastD d = m.getLastD (l.getLastD d) := by
  induction l generalizing d with
  | nil => rfl
  | cons a rest ih => rw [cons_append, getLastD_cons, getLastD_cons, ih]

theorem holds_bind {Q : β → σ → Prop} (h : Holds p d I fun a d' => Holds (f a) d' I Q) :
    Holds (p >>= f) d I Q := by
  change Holds (andThen p f) d I Q
  unfold Holds andThen
  cases hr : (p d).2 with
  | error =>
    exact ⟨h.1, fun _ hb => by cases hb⟩
  | ok a =>
    obtain ⟨hwrites, hres⟩ := h.2 a hr
    constructor
    · exact forall_mem_append.mpr ⟨h.1, hwrites⟩
    · intro b hb
      rw [getLastD_append]
      exact hres b hb

theorem holds_guard {Q : β → σ → Prop} (h : ∀ a, x d = .ok a → Holds (f a) d I Q) :
    Holds (check x >>= f) d I Q := holds_bind (holds_check h)

theorem holds_require {c : σ → Prop} [DecidablePred c] {f : Unit → Durable σ β} {Q : β → σ → Prop}
    (h : c d → Holds (f ()) d I Q) : Holds (check (fun d => require (c d) cause) >>= f) d I Q :=
  holds_guard fun _ hc => h (require_eq_ok.mp hc)

/-- The clean-up runs over the old disk or over one that satisfies the crash invariant. -/
theorem holds_onError {cleanup : Durable σ β} (hp : Holds p d I Q) (hd : I d)
    (hc : ∀ d', I d' → Holds cleanup d' I fun _ _ => True) : Holds (p.onError cleanup) d I Q := by
  unfold Holds onError
  cases hr : (p d).2 with
  | ok a =>
    refine ⟨hp.1, ?_⟩
    intro b hb
    cases hb
    exact hp.2 a hr
  | error =>
    have hlast := hp.disk hd .returns
    refine ⟨?_, fun _ h => by cases h⟩
    exact forall_mem_append.mpr ⟨hp.1, (hc _ hlast).1⟩

/-- A handler starts from a disk that satisfies the crash invariant, and answers for `p`. -/
theorem holds_recover {handler : String → Durable σ α} (hp : Holds p d I Q) (hd : I d)
    (hc : ∀ cause d', I d' → Holds (handler cause) d' I Q) : Holds (p.recover handler) d I Q := by
  unfold Holds recover
  cases hr : (p d).2 with
  | ok a =>
    refine ⟨hp.1, ?_⟩
    intro b hb
    cases hb
    exact hp.2 a hr
  | error cause =>
    have hhandler := hc cause _ (hp.disk hd .returns)
    constructor
    · exact forall_mem_append.mpr ⟨hp.1, hhandler.1⟩
    · intro a ha
      rw [getLastD_append]
      exact hhandler.2 a ha

theorem holds_mapError {f : String → String} (h : Holds p d I Q) : Holds (p.mapError f) d I Q := by
  refine ⟨h.1, ?_⟩
  intro a ha
  cases hr : (p d).2 with
  | error => simp [mapError, hr, Except.mapError] at ha
  | ok b =>
    simp only [mapError, hr, Except.mapError, Except.ok.injEq] at ha
    subst ha
    exact h.2 b hr

theorem getLastD_map (f : σ → τ) (l : List σ) (v : σ) :
    (l.map f).getLastD (f v) = f (l.getLastD v) := by
  induction l generalizing v with
  | nil => rfl
  | cons a rest ih => rw [map_cons, getLastD_cons, getLastD_cons, ih]

/-- A program over a part of the disk, for an update of that part which leaves the rest. -/
theorem holds_zoom {get : τ → σ} {set : σ → τ → τ} {d : τ} {I : τ → Prop} {Q : α → τ → Prop}
    (hself : set (get d) d = d)
    (h : Holds p (get d) (fun w => I (set w d)) fun a w => Q a (set w d)) :
    Holds (p.zoom get set) d I Q := by
  constructor
  · intro w hw
    obtain ⟨v, hv, rfl⟩ := mem_map.mp hw
    exact h.1 v hv
  · intro a ha
    have hlast := getLastD_map (fun w => set w d) (p (get d)).1 (get d)
    rw [hself] at hlast
    change Q a (((p (get d)).1.map fun w => set w d).getLastD d)
    rw [hlast]
    exact h.2 a ha

theorem Holds.weaken {J : σ → Prop} {R : α → σ → Prop} (h : Holds p d I Q) (hI : ∀ w, I w → J w)
    (hQ : ∀ a w, Q a w → R a w) : Holds p d J R :=
  ⟨fun w hw => hI w (h.1 w hw), fun a ha => hQ a _ (h.2 a ha)⟩

theorem Holds.post {R : α → σ → Prop} (h : Holds p d I Q) (hQ : ∀ a w, Q a w → R a w) :
    Holds p d I R :=
  h.weaken (fun _ hw => hw) hQ

theorem holds_seq {R : β → σ → Prop} (h : Holds p d I Q) (hf : ∀ a w, Q a w → Holds (f a) w I R) :
    Holds (p >>= f) d I R := holds_bind (h.post hf)

def Durable.run (p : Durable σ α) (d : σ) : Except String α × σ := ((p d).2, (p d).1.getLastD d)

@[simp] theorem run_pure (a : α) : run (pure a) d = (.ok a, d) := rfl

@[simp] theorem run_check (x : σ → Except String α) : (check x).run d = (x d, d) := rfl

@[simp] theorem run_call (step : σ → Except String α × σ) : (call step).run d = step d := rfl

theorem run_bind_ok (h : p.run d = (.ok a, w)) : (p >>= f).run d = (f a).run w := by
  obtain ⟨hres, hdisk⟩ := Prod.mk.inj h
  change (andThen p f).run d = _
  simp only [run, andThen, hres, getLastD_append, hdisk]

theorem run_bind_error (h : p.run d = (.error cause, w)) : (p >>= f).run d = (.error cause, w) := by
  obtain ⟨hres, hdisk⟩ := Prod.mk.inj h
  change (andThen p f).run d = _
  simp only [run, andThen, hres, hdisk]

/-- A check either ends the program on the disk it started from or passes its value on. -/
theorem run_check_bind {P : Except String β × σ → Prop} (herr : ∀ cause, P (.error cause, d))
    (hok : ∀ a, x d = .ok a → P ((f a).run d)) : P ((check x >>= f).run d) := by
  cases hx : x d with
  | error cause =>
    rw [run_bind_error (by rw [run_check, hx])]
    exact herr cause
  | ok a =>
    rw [run_bind_ok (by rw [run_check, hx])]
    exact hok a hx

/-- The disks of a program that continues where another one ended well. -/
theorem writes_bind_ok (h : p.run d = (.ok a, w)) : ((p >>= f) d).1 = (p d).1 ++ (f a w).1 := by
  obtain ⟨hres, hdisk⟩ := Prod.mk.inj h
  change (andThen p f d).1 = _
  simp only [andThen, hres, hdisk]

theorem check_bind_ok (h : x d = .ok a) : (check x >>= f) d = f a d := by
  change andThen (check x) f d = _
  simp only [andThen, check, h]
  rfl

theorem check_bind_error (h : x d = .error cause) : (check x >>= f) d = ([], .error cause) := by
  change andThen (check x) f d = _
  simp only [andThen, check, h]

theorem disk_congr {q : Durable σ α} (h : p d = q d) (stop : Stop) :
    p.disk d stop = q.disk d stop := by
  cases stop <;> simp only [disk, h]

/-- When `p` fails from `d`, its error and the disk it leaves satisfy `E`. -/
def Fails (p : Durable σ α) (d : σ) (E : String → σ → Prop) : Prop :=
  ∀ cause, (p d).2 = .error cause → E cause ((p d).1.getLastD d)

variable {E : String → σ → Prop}

theorem Fails.answer (h : Fails p d E) {stop : Stop} (ha : p.answer d stop = some (.error cause)) :
    E cause (p.disk d stop) := by
  cases stop with
  | returns => exact h cause (Option.some.inj ha)
  | crashes => cases ha

/-- A failing program stops like any other: on its old disk or after one of its writes. -/
theorem Holds.fails (h : Holds p d I Q) (hd : I d) : Fails p d fun _ w => I w := by
  intro cause _
  exact h.disk hd .returns

theorem fails_ok : Fails (pure a) d E := by
  intro cause h
  cases h

theorem fails_check (h : ∀ cause, x d = .error cause → E cause d) : Fails (check x) d E := h

theorem fails_write {update : σ → σ} (h : ∀ cause, fault = some cause → E cause d) :
    Fails (write fault update) d E := by
  intro cause hc
  cases fault with
  | some =>
    cases hc
    exact h cause rfl
  | none => cases hc

theorem fails_bind (hp : Fails p d E) (hf : Holds p d I fun a w => Fails (f a) w E) :
    Fails (p >>= f) d E := by
  intro cause hc
  change (andThen p f d).2 = .error cause at hc
  change E cause ((andThen p f d).1.getLastD d)
  unfold andThen at hc ⊢
  cases hr : (p d).2 with
  | error =>
    simp only [hr] at hc ⊢
    cases hc
    exact hp cause hr
  | ok a =>
    simp only [hr] at hc ⊢
    rw [getLastD_append]
    exact hf.2 a hr cause hc

theorem fails_bind_check (h : ∀ cause, x d = .error cause → E cause d)
    (hf : ∀ a, x d = .ok a → Fails (f a) d E) : Fails (check x >>= f) d E :=
  fails_bind (fails_check h) (holds_check (I := fun _ => True) hf)

theorem fails_map {g : α → β} (h : Fails p d E) : Fails (p >>= fun a => pure (g a)) d E :=
  fails_bind h ⟨fun _ _ => trivial, fun _ _ => fails_ok⟩

theorem fails_mapError {f : String → String} (h : Fails p d fun cause w => E (f cause) w) :
    Fails (p.mapError f) d E := by
  intro cause hc
  cases hr : (p d).2 with
  | ok => simp [mapError, hr, Except.mapError] at hc
  | error first =>
    simp only [mapError, hr, Except.mapError, Except.error.injEq] at hc
    subst hc
    exact h first hr

theorem fails_zoom {get : τ → σ} {set : σ → τ → τ} {d : τ} {E : String → τ → Prop}
    (hself : set (get d) d = d) (h : Fails p (get d) fun cause w => E cause (set w d)) :
    Fails (p.zoom get set) d E := by
  intro cause hc
  have hlast := getLastD_map (fun w => set w d) (p (get d)).1 (get d)
  rw [hself] at hlast
  change E cause (((p (get d)).1.map fun w => set w d).getLastD d)
  rw [hlast]
  exact h cause hc

end DurablePrograms
