import Mathlib.Data.List.Infix
import Tako.DurablePrograms

/-! # Directory trees with symbolic links

The tree below one directory. A path is walked as a file system walks it; a walk that gets outside
the top stays there. A walk cannot leave the top if no target steps up once it has reached another
link, or too far before.
-/
namespace DirectoryTrees

open List DurablePrograms

variable {ν : Type}

inductive Step (ν : Type) where
  | parent
  | name (n : ν)
  deriving DecidableEq

inductive Node (ν : Type) where
  | file
  | directory
  | link (absolute : Bool) (target : List (Step ν))
  deriving DecidableEq

abbrev Tree (ν : Type) : Type := List ν → Option (Node ν)

inductive Walk (ν : Type) where
  | found (location : List ν)
  | missing
  | notDirectory
  | loop
  | outside
  deriving DecidableEq

/-- The walk from a location; `follow` goes on at a link, from the directory it is in. -/
def along (T : Tree ν) (follow : List ν → List (Step ν) → Walk ν) : List ν → List (Step ν) → Walk ν
  | location, [] => .found location
  | [], .parent :: _ => .outside
  | location, .parent :: rest => along T follow location.dropLast rest
  | location, .name n :: rest =>
    match T (location ++ [n]) with
    | none => .missing
    | some .directory => along T follow (location ++ [n]) rest
    | some .file => if rest.isEmpty then .found (location ++ [n]) else .notDirectory
    | some (.link absolute target) =>
      if absolute then .outside else follow location (target ++ rest)

def walk (T : Tree ν) : ℕ → List ν → List (Step ν) → Walk ν
  | 0 => along T fun _ _ => .loop
  | links + 1 => along T (walk T links)

inductive Place (ν : Type) where
  | inside (location : List ν)
  | outside
  deriving DecidableEq

structure World (ν : Type) where
  tree : Tree ν
  created : List (Place ν)
  /-- How many calls have been made. -/
  calls : ℕ

def World.empty : World ν := ⟨fun _ => none, [], 0⟩

structure CallOutcome where
  fault : Option String
  /-- What `stat` of a path that leads outside says: there is a directory. -/
  present : Bool

inductive Found where
  | directory
  | other
  | absent
  deriving DecidableEq

section Calls

variable [DecidableEq ν]

def World.isDirectory (w : World ν) (location : List ν) : Bool :=
  location.isEmpty || w.tree location == some .directory

def World.add (w : World ν) (location : List ν) (node : Node ν) : World ν :=
  { w with
    tree := Function.update w.tree location (some node), created := .inside location :: w.created }

theorem World.tree_add {w : World ν} {location place : List ν} {node there : Node ν}
    (h : (w.add location node).tree place = some there) :
    (place = location ∧ node = there) ∨ w.tree place = some there := by
  change Function.update w.tree location (some node) place = some there at h
  by_cases heq : place = location
  · subst heq
    rw [Function.update_self] at h
    exact .inl ⟨rfl, Option.some.inj h⟩
  · rw [Function.update_of_ne heq] at h
    exact .inr h

def World.ticked (w : World ν) : World ν := { w with calls := w.calls + 1 }

variable (schedule : ℕ → CallOutcome) (links : ℕ)

def World.reach (w : World ν) (path : List ν) : Walk ν := walk w.tree links [] (path.map .name)

def stat (path : List ν) : Durable (World ν) Found :=
  Durable.call fun w =>
    match w.reach links path with
    | .found location => (.ok (if w.isDirectory location then .directory else .other), w.ticked)
    | .outside => (.ok (if (schedule w.calls).present then .directory else .absent), w.ticked)
    | _ => (.ok .absent, w.ticked)

/-- The call that makes an entry in the directory that `parents` leads to, or answers for the entry
that is there. -/
def createWith (node : Node ν) (existing : Node ν → Except String Unit) (parents : List ν) (n : ν) :
    Durable (World ν) Unit :=
  Durable.call fun w =>
    match (schedule w.calls).fault with
    | some cause => (.error cause, w.ticked)
    | none =>
      match w.reach links parents with
      | .found location =>
        if w.isDirectory location then
          match w.tree (location ++ [n]) with
          | none => (.ok (), (w.add (location ++ [n]) node).ticked)
          | some there => (existing there, w.ticked)
        else (.error "not a directory", w.ticked)
      | .outside => (.ok (), { w.ticked with created := .outside :: w.created })
      | .missing => (.error "no such file or directory", w.ticked)
      | .notDirectory => (.error "not a directory", w.ticked)
      | .loop => (.error "too many levels of symbolic links", w.ticked)

/-- `open` with `O_CREAT|O_EXCL`, and `symlink`. -/
def create (node : Node ν) (parents : List ν) (n : ν) : Durable (World ν) Unit :=
  createWith schedule links node (fun _ => .error "file exists") parents n

/-- `mkdir`; a directory that is there already is accepted. -/
def mkdir (parents : List ν) (n : ν) : Durable (World ν) Unit :=
  createWith schedule links .directory
    (fun there => if there = .directory then .ok () else .error "file exists") parents n

/-- `os.MkdirAll` of a path below the top, with its last element first. -/
def mkdirAll : List ν → Durable (World ν) Unit
  | [] => pure ()
  | n :: parents => do
    match ← stat schedule links (n :: parents).reverse with
    | .directory => pure ()
    | .other => Durable.fail "not a directory"
    | .absent => do
      mkdirAll parents
      mkdir schedule links parents.reverse n

/-- `os.Chmod`; it follows links and changes no entry. -/
def chmod (path : List ν) : Durable (World ν) Unit :=
  Durable.call fun w =>
    match (schedule w.calls).fault with
    | some cause => (.error cause, w.ticked)
    | none =>
      match w.reach links path with
      | .found _ | .outside => (.ok (), w.ticked)
      | _ => (.error "no such file or directory", w.ticked)

end Calls

variable {path : List ν}

theorem along_names {follow : List ν → List (Step ν) → Walk ν} {T : Tree ν} (location : List ν)
    (h : ∀ q, q ≠ [] → q <+: path → ∀ absolute target,
      T (location ++ q) ≠ some (.link absolute target)) :
    ∀ place, along T follow location (path.map .name) = .found place →
      place = location ++ path := by
  induction path generalizing location with
  | nil =>
    intro place hplace
    simp only [map_nil, along, Walk.found.injEq] at hplace
    rw [append_nil, hplace]
  | cons n rest ih =>
    intro place hplace
    have hhead := h [n] (by simp) ⟨rest, rfl⟩
    simp only [map_cons, along] at hplace
    cases hnode : T (location ++ [n]) with
    | none =>
      rw [hnode] at hplace
      cases hplace
    | some node =>
      rw [hnode] at hplace
      cases node with
      | directory =>
        have hrest := ih (location ++ [n]) (fun q hq hpre absolute target => by
          rw [append_assoc]
          refine h (n :: q) (by simp) ?_ absolute target
          obtain ⟨tail, rfl⟩ := hpre
          exact ⟨tail, rfl⟩) place hplace
        rw [hrest, append_assoc, singleton_append]
      | file =>
        split_ifs at hplace with hlast
        cases rest with
        | nil => rw [← Walk.found.inj hplace]
        | cons => simp at hlast
      | link absolute target => exact absurd hnode (hhead absolute target)

theorem reach_names {w : World ν} {links : ℕ} {place : List ν}
    (h : ∀ q, q ≠ [] → q <+: path → ∀ absolute target, w.tree q ≠ some (.link absolute target))
    (hfound : w.reach links path = .found place) : place = path := by
  cases links with
  | zero | succ => exact along_names [] h place hfound

section Rule

/-- The walk that the text of a path describes does not step above the top, and does not step up
once it has reached one of the `sites`, where links may stand. -/
def Tame [DecidableEq ν] (sites : List (List ν)) : List ν → List (Step ν) → Prop
  | _, [] => True
  | [], .parent :: _ => False
  | location, .parent :: rest => Tame sites location.dropLast rest
  | location, .name n :: rest =>
    if location ++ [n] ∈ sites then .parent ∉ rest else Tame sites (location ++ [n]) rest

/-- The half of the rule that is about the sites: no step up follows the first of them. -/
def straight [DecidableEq ν] (sites : List (List ν)) : List ν → List (Step ν) → Bool
  | _, [] => true
  | location, .parent :: rest => straight sites location.dropLast rest
  | location, .name n :: rest =>
    if location ++ [n] ∈ sites then decide (.parent ∉ rest)
      else straight sites (location ++ [n]) rest

def Placed [DecidableEq ν] (sites : List (List ν)) (T : Tree ν) : Prop :=
  ∀ location absolute target, T location = some (.link absolute target) →
    location ∈ sites ∧ absolute = false ∧ Tame sites location.dropLast target

variable [DecidableEq ν] {sites : List (List ν)} {T : Tree ν} {location : List ν}
  {steps rest : List (Step ν)}

theorem tame_of_names (h : .parent ∉ steps) : Tame sites location steps := by
  induction steps generalizing location with
  | nil => simp [Tame]
  | cons step rest ih =>
    cases step with
    | parent => exact absurd mem_cons_self h
    | name n =>
      have hrest : .parent ∉ rest := fun hmem => h (mem_cons_of_mem _ hmem)
      by_cases hsite : location ++ [n] ∈ sites
      · simp only [Tame, hsite, if_true]
        exact hrest
      · simp only [Tame, hsite, if_false]
        exact ih hrest

theorem tame_append (h : Tame sites location steps) (hrest : .parent ∉ rest) :
    Tame sites location (steps ++ rest) := by
  induction steps generalizing location with
  | nil => exact tame_of_names hrest
  | cons step more ih =>
    rw [cons_append]
    cases step with
    | parent =>
      cases location with
      | nil => simp [Tame] at h
      | cons =>
        exact ih h
    | name n =>
      by_cases hsite : location ++ [n] ∈ sites
      · simp only [Tame, hsite, if_true] at h ⊢
        intro hmem
        rcases mem_append.mp hmem with hmem | hmem
        · exact h hmem
        · exact hrest hmem
      · simp only [Tame, hsite, if_false] at h ⊢
        exact ih h

variable {n : ν} {stood' : List (List ν)} {path parents : List ν}
  {existing : Node ν → Except String Unit}

theorem tame_parent (h : Tame sites location rest) :
    Tame sites (location ++ [n]) (.parent :: rest) := by
  cases hlocation : location ++ [n] with
  | nil => simp at hlocation
  | cons =>
    simp only [Tame]
    rw [← hlocation, dropLast_concat]
    exact h

theorem tame_cons_name (h : Tame sites location (.name n :: rest)) :
    Tame sites (location ++ [n]) rest := by
  by_cases hsite : location ++ [n] ∈ sites
  · simp only [Tame, hsite, if_true] at h
    exact tame_of_names h
  · simp only [Tame, hsite, if_false] at h
    exact h

theorem along_ne_outside {follow : List ν → List (Step ν) → Walk ν} (hplaced : Placed sites T)
    (hfollow : ∀ location steps, Tame sites location steps → follow location steps ≠ .outside)
    (h : Tame sites location steps) : along T follow location steps ≠ .outside := by
  induction steps generalizing location with
  | nil => simp [along]
  | cons step rest ih =>
    cases step with
    | parent =>
      cases location with
      | nil => simp [Tame] at h
      | cons =>
        exact ih h
    | name n =>
      simp only [along]
      cases hnode : T (location ++ [n]) with
      | none => simp
      | some node =>
        cases node with
        | directory => exact ih (tame_cons_name h)
        | file =>
          split_ifs <;> simp
        | link =>
          obtain ⟨hsite, habsolute, htarget⟩ := hplaced _ _ _ hnode
          rw [dropLast_concat] at htarget
          simp only [Tame, hsite, if_true] at h
          simp only [habsolute, Bool.false_eq_true, if_false]
          exact hfollow _ _ (tame_append htarget h)

/-- No walk leaves the top. -/
theorem walk_ne_outside (hplaced : Placed sites T) (links : ℕ) (h : Tame sites location steps) :
    walk T links location steps ≠ .outside := by
  induction links generalizing location steps with
  | zero => exact along_ne_outside hplaced (by simp) h
  | succ links ih => exact along_ne_outside hplaced (fun _ _ => ih) h

theorem reach_ne_outside {w : World ν} (hplaced : Placed sites w.tree) (links : ℕ) (path : List ν) :
    w.reach links path ≠ .outside := by
  refine walk_ne_outside hplaced links (tame_of_names ?_)
  simp

structure Sound (sites : List (List ν)) (w : World ν) : Prop where
  contained : ∀ place ∈ w.created, ∃ location, place = .inside location
  placed : Placed sites w.tree

structure Kept (sites stood : List (List ν)) (w : World ν) : Prop extends Sound sites w where
  links : ∀ location absolute target, w.tree location = some (.link absolute target) →
    location ∈ stood

variable {stood : List (List ν)} {w : World ν} {schedule : ℕ → CallOutcome} {links : ℕ}

theorem Kept.ticked (h : Kept sites stood w) : Kept sites stood w.ticked :=
  ⟨⟨h.contained, h.placed⟩, h.links⟩

theorem kept_empty : Kept sites stood (World.empty : World ν) := by
  refine ⟨⟨?_, ?_⟩, ?_⟩
  · intro place hplace
    cases hplace
  · intro location absolute target hnode
    cases hnode
  · intro location absolute target hnode
    cases hnode

section

variable (h : Kept sites stood w)

include h

/-- A new entry is inside; a new link keeps to the rule at its site. -/
theorem Kept.add {node : Node ν} (hnode : ∀ absolute target, node = .link absolute target →
      location ∈ sites ∧ absolute = false ∧ Tame sites location.dropLast target ∧ location ∈ stood')
    (hstood : ∀ place ∈ stood, place ∈ stood') : Kept sites stood' (w.add location node) := by
  refine ⟨⟨?_, ?_⟩, ?_⟩
  · exact forall_mem_cons.mpr ⟨⟨location, rfl⟩, h.contained⟩
  · intro place absolute target hplace
    rcases World.tree_add hplace with ⟨rfl, heq⟩ | hold
    · obtain ⟨hsite, habsolute, htame, -⟩ := hnode absolute target heq
      exact ⟨hsite, habsolute, htame⟩
    · exact h.placed place absolute target hold
  · intro place absolute target hplace
    rcases World.tree_add hplace with ⟨rfl, heq⟩ | hold
    · exact (hnode absolute target heq).2.2.2
    · exact hstood place (h.links place absolute target hold)

theorem holds_stat : Holds (stat schedule links path) w (Sound sites) fun _ =>
    Kept sites stood := by
  refine holds_call ?_ ?_
  · split <;> exact h.ticked.toSound
  · intro found hfound
    split <;> exact h.ticked

/-- A call that creates: it ends with the tree as it was, or with the entry where the walk has led.
-/
theorem holds_createWith {node : Node ν}
    (hnew : ∀ place, w.reach links parents = .found place →
      Kept sites stood' (w.add (place ++ [n]) node))
    (hsame : ∀ there, existing there = .ok () → Kept sites stood' w) :
    Holds (createWith schedule links node existing parents n) w (Sound sites) fun _ =>
      Kept sites stood' := by
  have hinside := reach_ne_outside h.placed links parents
  refine holds_call ?_ ?_
  · cases hfault : (schedule w.calls).fault with
    | some => exact h.ticked.toSound
    | none =>
      cases hreach : w.reach links parents with
      | outside => exact absurd hreach hinside
      | missing | notDirectory | loop => exact h.ticked.toSound
      | found place =>
        dsimp only
        split_ifs
        · split
          · exact (hnew place hreach).ticked.toSound
          · exact h.ticked.toSound
        · exact h.ticked.toSound
  · intro u hu
    cases hfault : (schedule w.calls).fault with
    | some =>
      rw [hfault] at hu
      cases hu
    | none =>
      rw [hfault] at hu
      cases hreach : w.reach links parents with
      | outside => exact absurd hreach hinside
      | missing | notDirectory | loop => rw [hreach] at hu; cases hu
      | found place =>
        rw [hreach] at hu
        dsimp only at hu ⊢
        split_ifs at hu ⊢
        split at hu
        · exact (hnew place hreach).ticked
        · rename_i there hthere
          exact (hsame there hu).ticked

theorem holds_createWith_plain {node : Node ν}
    (hnode : ∀ absolute target, node ≠ .link absolute target) :
    Holds (createWith schedule links node existing parents n) w (Sound sites) fun _ =>
      Kept sites stood := by
  refine holds_createWith h (fun place _ => ?_) fun _ _ => h
  exact h.add (fun absolute target heq => absurd heq (hnode absolute target)) fun _ hmem => hmem

theorem holds_mkdirAll : Holds (mkdirAll schedule links path) w (Sound sites) fun _ =>
    Kept sites stood := by
  induction path generalizing w with
  | nil => exact holds_ok h
  | cons n parents ih =>
    refine holds_seq (holds_stat h) ?_
    intro found u hu
    cases found with
    | directory => exact holds_ok hu
    | other => exact holds_fail
    | absent =>
      refine holds_seq (ih hu) ?_
      intro _ v hv
      exact holds_createWith_plain hv (by simp)

theorem holds_create_link {target : List (Step ν)} (hsite : parents ++ [n] ∈ sites)
    (htarget : Tame sites parents target) (hclear : ∀ place ∈ stood, ¬ place <+: parents) :
    Holds (create schedule links (.link false target) parents n) w (Sound sites) fun _ =>
      Kept sites ((parents ++ [n]) :: stood) := by
  refine holds_createWith h (fun place hplace => ?_) fun there hthere => by cases hthere
  have heq : place = parents := by
    refine reach_names (fun q _ hpre absolute link hlink => ?_) hplace
    exact hclear q (h.links q absolute link hlink) hpre
  subst heq
  refine h.add ?_ fun _ hmem => mem_cons_of_mem _ hmem
  rintro absolute link ⟨⟩
  rw [dropLast_concat]
  exact ⟨hsite, rfl, htarget, mem_cons_self⟩

theorem holds_chmod : Holds (chmod schedule links path) w (Sound sites) fun _ =>
    Kept sites stood := by
  refine holds_call ?_ ?_
  · split
    · exact h.ticked.toSound
    · split <;> exact h.ticked.toSound
  · intro u hu
    split
    · exact h.ticked
    · split <;> exact h.ticked

end

end Rule

end DirectoryTrees
