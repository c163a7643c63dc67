import Tako.DurablePrograms
import Tako.GoMaps

/-! # A container engine whose commands may fail

Commands run one after the other, and a schedule says what happens to each: it may fail at any
point, and a removal or a start that fails may have done a part of its work. No name of a container
is taken for an ID.
-/
namespace DockerEngine

open List GoPrelude GoMaps DurablePrograms

structure Container where
  id : ℕ
  name : String
  labels : StringMap

structure Engine where
  containers : List Container
  nextID : ℕ
  /-- How many commands have been run. -/
  commands : ℕ
  ids_lt : ∀ c ∈ containers, c.id < nextID
  ids_nodup : (containers.map Container.id).Nodup
  names_nodup : (containers.map Container.name).Nodup

structure Outcome where
  /-- The failure of the command; without one it exits with status 0. -/
  error : Option String
  /-- What a command prints that is not about the set of containers. -/
  output : String
  /-- The targets that a failing removal has removed all the same. -/
  removes : Container → Bool
  /-- Whether a failing start leaves the container it has created. -/
  creates : Bool

namespace Engine

variable (e : Engine)

def ticked : Engine := { e with commands := e.commands + 1 }

def without (target : Container → Bool) : Engine where
  containers := e.containers.filter fun c => !target c
  nextID := e.nextID
  commands := e.commands
  ids_lt c hc := e.ids_lt c (mem_of_mem_filter hc)
  ids_nodup := e.ids_nodup.sublist (filter_sublist.map _)
  names_nodup := e.names_nodup.sublist (filter_sublist.map _)

def inUse (name : String) : Bool := e.containers.any fun c => c.name == name

theorem inUse_eq_false_iff {name : String} :
    e.inUse name = false ↔ name ∉ e.containers.map Container.name := by
  simp [inUse]

def withNew (name : String) (labels : StringMap) (h : e.inUse name = false) : Engine where
  containers := e.containers ++ [⟨e.nextID, name, labels⟩]
  nextID := e.nextID + 1
  commands := e.commands
  ids_lt := by
    intro c hc
    rcases mem_append.mp hc with hc | hc
    · exact Nat.lt_succ_of_lt (e.ids_lt c hc)
    · rw [mem_singleton.mp hc]
      exact Nat.lt_succ_self _
  ids_nodup := by
    rw [map_append, map_singleton]
    refine nodup_append.mpr ⟨e.ids_nodup, nodup_singleton _, ?_⟩
    intro a ha b hb
    obtain ⟨c, hc, rfl⟩ := mem_map.mp ha
    rw [mem_singleton.mp hb]
    exact Nat.ne_of_lt (e.ids_lt c hc)
  names_nodup := by
    rw [map_append, map_singleton]
    refine nodup_append.mpr ⟨e.names_nodup, nodup_singleton _, ?_⟩
    intro a ha b hb
    rw [mem_singleton.mp hb]
    exact ne_of_mem_of_not_mem ha (e.inUse_eq_false_iff.mp h)

variable {e}

@[simp] theorem containers_ticked : e.ticked.containers = e.containers := rfl

variable {labels : StringMap}

theorem eq_of_id {a b : Container} (ha : a ∈ e.containers) (hb : b ∈ e.containers)
    (h : a.id = b.id) : a = b :=
  inj_on_of_nodup_map e.ids_nodup ha hb h

theorem new_notMem {name : String} {id : ℕ} (h : e.nextID ≤ id) :
    (⟨id, name, labels⟩ : Container) ∉ e.containers := by
  intro hmem
  exact absurd (e.ids_lt _ hmem) (Nat.not_lt.mpr h)

end Engine

section Commands

variable {α : Type} (schedule : ℕ → Outcome)

def command (act : Outcome → Engine → Except String α × Engine) : Durable Engine α :=
  Durable.call fun e => act (schedule e.commands) e.ticked

def ask : Durable Engine (Except String String) :=
  command schedule fun outcome e =>
    match outcome.error with
    | some cause => (.ok (.error cause), e)
    | none => (.ok (.ok outcome.output), e)

def query : Durable Engine String := do
  let result ← ask schedule
  Durable.check fun _ => result

/-- `docker ps -aq` with a label filter. -/
def listIDs (labelled : Container → Bool) : Durable Engine (List ℕ) :=
  command schedule fun outcome e =>
    match outcome.error with
    | some cause => (.error cause, e)
    | none => (.ok ((e.containers.filter labelled).map Container.id), e)

/-- `docker inspect` of the container with this ID, for its labels. -/
def inspectLabels (id : ℕ) : Durable Engine StringMap :=
  command schedule fun outcome e =>
    match outcome.error, e.containers.find? fun c => c.id == id with
    | some cause, _ => (.error cause, e)
    | none, none => (.error "No such object", e)
    | none, some c => (.ok c.labels, e)

/-- `docker rm -f`. -/
def remove (target : Container → Bool) : Durable Engine Unit :=
  command schedule fun outcome e =>
    match outcome.error with
    | some cause => (.error cause, e.without fun c => target c && outcome.removes c)
    | none => (.ok (), e.without target)

/-- `docker run -d`; it refuses a name in use. -/
def run (name : String) (labels : StringMap) : Durable Engine Unit :=
  command schedule fun outcome e =>
    if h : e.inUse name = false then
      match outcome.error, outcome.creates with
      | some cause, true => (.error cause, e.withNew name labels h)
      | some cause, false => (.error cause, e)
      | none, _ => (.ok (), e.withNew name labels h)
    else (.error "Conflict. The container name is already in use", e)

end Commands

/-- A `--label` argument is split at its first `=`. -/
def splitLabel (flag : String) : String × String :=
  (String.ofList ((chars flag).takeWhile (· ≠ '=')),
    String.ofList (((chars flag).dropWhile (· ≠ '=')).drop 1))

def startLabels (image : StringMap) (flags : List String) : StringMap :=
  flags.foldl (fun labels flag => labels.insert (splitLabel flag).1 (splitLabel flag).2) image

def labelFlag (key value : String) : String := key ++ "=" ++ value

theorem toList_labelFlag : (labelFlag key value).toList = key.toList ++ '=' :: value.toList := by
  simp [labelFlag, String.toList_append]

theorem takeWhile_append_stop : (l ++ '=' :: r).takeWhile (· ≠ '=') = l.takeWhile (· ≠ '=') := by
  induction l with
  | nil => rfl
  | cons c l ih => simp only [cons_append, takeWhile_cons, ih]

theorem splitLabel_labelFlag_fst (key value : String) :
    (splitLabel (labelFlag key value)).1 = String.ofList (key.toList.takeWhile (· ≠ '=')) := by
  simp only [splitLabel, chars_eq_toList, toList_labelFlag, takeWhile_append_stop]

variable {value : String}

theorem splitLabel_labelFlag {key : String} (h : '=' ∉ key.toList) :
    splitLabel (labelFlag key value) = (key, value) := by
  have hkey : ∀ c ∈ key.toList, decide (c ≠ '=') := by
    intro c hc
    exact decide_eq_true fun heq => h (heq ▸ hc)
  simp only [splitLabel, chars_eq_toList, toList_labelFlag, takeWhile_append_stop,
    takeWhile_eq_self_iff.mpr hkey, dropWhile_append_of_pos hkey]
  simp

theorem lookup_startLabels {image : StringMap} {flags : List String} {key : String}
    (hset : image.lookup key = some value ∨ ∃ flag ∈ flags, (splitLabel flag).1 = key)
    (hsame : ∀ flag ∈ flags, (splitLabel flag).1 = key → (splitLabel flag).2 = value) :
    (startLabels image flags).lookup key = some value := by
  induction flags generalizing image with
  | nil => simpa [startLabels] using hset
  | cons flag rest ih =>
    refine ih ?_ fun f hf => hsame f (mem_cons_of_mem flag hf)
    beta_reduce
    by_cases hflag : (splitLabel flag).1 = key
    · left
      rw [hflag, AList.lookup_insert, hsame flag mem_cons_self hflag]
    · rcases hset with himage | ⟨f, hf, hkey⟩
      · left
        rw [AList.lookup_insert_ne (Ne.symm hflag), himage]
      · rcases mem_cons.mp hf with rfl | hf
        · exact absurd hkey hflag
        · exact .inr ⟨f, hf, hkey⟩

section Rules

variable {α β : Type} {schedule : ℕ → Outcome} {e : Engine} {I : Engine → Prop}

structure Same (e w : Engine) : Prop where
  containers : w.containers = e.containers
  nextID : w.nextID = e.nextID

theorem Same.refl (e : Engine) : Same e e := ⟨rfl, rfl⟩

theorem Same.trans {a b c : Engine} (hab : Same a b) (hbc : Same b c) : Same a c :=
  ⟨hbc.containers.trans hab.containers, hbc.nextID.trans hab.nextID⟩

def Quiet (p : Durable Engine α) : Prop := ∀ e : Engine, Holds p e (Same e) fun _ => Same e

variable {p : Durable Engine α}

theorem Quiet.holds (hp : Quiet p) (hI : ∀ w, Same e w → I w) : Holds p e I fun _ => Same e :=
  (hp e).weaken hI fun _ _ h => h

theorem quiet_pure (a : α) : Quiet (pure a) := fun e => holds_ok (Same.refl e)

theorem quiet_fail (cause : String) : Quiet (Durable.fail cause : Durable Engine α) :=
  fun _ => holds_fail

theorem quiet_check : Quiet (Durable.check x) :=
  fun e => holds_check fun _ _ => Same.refl e

theorem quiet_bind {f : α → Durable Engine β} (hp : Quiet p) (hf : ∀ a, Quiet (f a)) :
    Quiet (p >>= f) := by
  intro e
  refine holds_seq (hp e) ?_
  intro a w hw
  exact (hf a w).weaken (fun _ h => hw.trans h) fun _ _ h => hw.trans h

theorem quiet_mapError {f : String → String} (hp : Quiet p) : Quiet (p.mapError f) :=
  fun e => holds_mapError (hp e)

theorem quiet_ite {c : Prop} [Decidable c] {q : Durable Engine α} (hp : Quiet p) (hq : Quiet q) :
    Quiet (if c then p else q) := by
  split
  · exact hp
  · exact hq

/-- A command is verified for every outcome the schedule may have for it. -/
theorem holds_command {act : Outcome → Engine → Except String α × Engine} {Q : α → Engine → Prop}
    (h : ∀ outcome, I (act outcome e.ticked).2 ∧
      ∀ a, (act outcome e.ticked).1 = .ok a → Q a (act outcome e.ticked).2) :
    Holds (command schedule act) e I Q :=
  holds_call (h _).1 (h _).2

section

variable (schedule : ℕ → Outcome)

theorem quiet_ask : Quiet (ask schedule) := by
  intro e
  refine holds_command fun outcome => ?_
  cases outcome.error with
  | some | none => exact ⟨⟨rfl, rfl⟩, fun _ _ => ⟨rfl, rfl⟩⟩

theorem quiet_query : Quiet (query schedule) := quiet_bind (quiet_ask schedule) fun _ => quiet_check

theorem holds_listIDs (labelled : Container → Bool) (hI : ∀ w, Same e w → I w) :
    Holds (listIDs schedule labelled) e I fun ids w =>
      Same e w ∧ ids = (e.containers.filter labelled).map Container.id := by
  refine holds_command fun outcome => ?_
  cases outcome.error with
  | some => exact ⟨hI _ ⟨rfl, rfl⟩, fun _ h => by cases h⟩
  | none =>
    refine ⟨hI _ ⟨rfl, rfl⟩, ?_⟩
    intro ids h
    cases h
    exact ⟨⟨rfl, rfl⟩, rfl⟩

theorem holds_inspectLabels (id : ℕ) (hI : ∀ w, Same e w → I w) :
    Holds (inspectLabels schedule id) e I fun labels w =>
      Same e w ∧ ∃ c ∈ e.containers, c.id = id ∧ labels = c.labels := by
  refine holds_command fun outcome => ?_
  dsimp only [Engine.containers_ticked]
  cases outcome.error with
  | some => exact ⟨hI _ ⟨rfl, rfl⟩, fun _ h => by cases h⟩
  | none =>
    cases hfound : e.containers.find? fun c => c.id == id with
    | none => exact ⟨hI _ ⟨rfl, rfl⟩, fun _ h => by cases h⟩
    | some c =>
      refine ⟨hI _ ⟨rfl, rfl⟩, ?_⟩
      intro labels h
      cases h
      exact ⟨⟨rfl, rfl⟩, c, mem_of_find?_eq_some hfound, by simpa using find?_some hfound, rfl⟩

end

structure Removed (taken : Container → Bool) (e w : Engine) : Prop where
  containers : w.containers = e.containers.filter fun c => !taken c
  nextID : w.nextID = e.nextID

theorem holds_remove (schedule : ℕ → Outcome) (target : Container → Bool)
    (hI : ∀ w taken, (∀ c, taken c → target c) → Removed taken e w → I w) :
    Holds (remove schedule target) e I fun _ => Removed target e := by
  refine holds_command fun outcome => ?_
  cases outcome.error with
  | some =>
    refine ⟨hI _ (fun c => target c && outcome.removes c) ?_ ⟨rfl, rfl⟩, fun _ h => by cases h⟩
    intro c hc
    exact ((Bool.and_eq_true _ _).mp hc).1
  | none => exact ⟨hI _ target (fun _ h => h) ⟨rfl, rfl⟩, fun _ _ => ⟨rfl, rfl⟩⟩

structure Started (name : String) (labels : StringMap) (e w : Engine) : Prop where
  free : name ∉ e.containers.map Container.name
  containers : w.containers = e.containers ++ [⟨e.nextID, name, labels⟩]
  nextID : w.nextID = e.nextID + 1

theorem holds_run (schedule : ℕ → Outcome) (name : String) (labels : StringMap)
    (hkeep : ∀ w, Same e w → I w) (hnew : ∀ w, Started name labels e w → I w) :
    Holds (run schedule name labels) e I fun _ => Started name labels e := by
  refine holds_command fun outcome => ?_
  by_cases h : e.ticked.inUse name = false
  · have hfree := (Engine.inUse_eq_false_iff _).mp h
    rw [dif_pos h]
    cases outcome.error with
    | none => exact ⟨hnew _ ⟨hfree, rfl, rfl⟩, fun _ _ => ⟨hfree, rfl, rfl⟩⟩
    | some =>
      cases outcome.creates with
      | true => exact ⟨hnew _ ⟨hfree, rfl, rfl⟩, fun _ h => by cases h⟩
      | false => exact ⟨hkeep _ ⟨rfl, rfl⟩, fun _ h => by cases h⟩
  · rw [dif_neg h]
    exact ⟨hkeep _ ⟨rfl, rfl⟩, fun _ h => by cases h⟩

end Rules

end DockerEngine
