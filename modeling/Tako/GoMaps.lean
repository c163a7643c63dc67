import Mathlib.Data.List.AList
import Tako.GoPrelude

/-! # Maps with string keys and files of lines

A Go map with string keys is an `AList`. Where code ranges over a map, which Go does in no fixed
order, the model takes the entries in order.
-/
namespace GoMaps

open List GoPrelude SeparatedWords AList

abbrev GoMap (α : Type) : Type := AList fun _ : String => α

abbrev StringMap : Type := AList fun _ : String => String

section

variable {α : Type}

def mapOf (entries : List (String × α)) : GoMap α :=
  entries.foldr (fun entry m => m.insert entry.1 entry.2) ∅

def ofBindings (bindings : List (String × String)) : StringMap :=
  bindings.foldl (fun m binding => m.insert binding.1 binding.2) ∅

theorem exists_lookup {m : GoMap α} {key : String} (h : key ∈ m) : ∃ a, m.lookup key = some a :=
  Option.isSome_iff_exists.mp (lookup_isSome.mpr h)

theorem lookup_insert_eq (m : GoMap α) (key name : String) (a : α) :
    (m.insert key a).lookup name = if name = key then some a else m.lookup name := by
  split_ifs with h
  · rw [h, lookup_insert]
  · exact lookup_insert_ne h

theorem mapOf_singleton_lookup {key name : String} {value found : α}
    (h : (mapOf [(key, value)]).lookup name = some found) : name = key ∧ found = value := by
  rw [mapOf, foldr_cons, lookup_insert_eq] at h
  split_ifs at h with hname
  · exact ⟨hname, (Option.some.inj h).symm⟩
  · cases h

theorem lookup_erase_eq (m : GoMap α) (key name : String) :
    (m.erase key).lookup name = if name = key then none else m.lookup name := by
  split_ifs with h
  · rw [h, lookup_erase]
  · exact lookup_erase_ne h

theorem lookup_foldl_insert (f : String → String) (keys : List String) (m : StringMap)
    (key : String) :
    ((keys.map fun k => (k, f k)).foldl (fun m binding => m.insert binding.1 binding.2) m).lookup
      key =
      if key ∈ keys then some (f key) else m.lookup key := by
  induction keys generalizing m with
  | nil => simp
  | cons k keys ih =>
    rw [map_cons, foldl_cons, ih]
    by_cases hkeys : key ∈ keys
    · simp [hkeys]
    · by_cases hk : key = k
      · subst hk
        rw [if_neg hkeys, if_pos mem_cons_self, lookup_insert]
      · simp [hkeys, hk, lookup_insert_ne hk]

def keepWhere (m : GoMap α) (p : String → α → Bool) : GoMap α :=
  ⟨m.entries.filter fun entry => p entry.1 entry.2,
    List.NodupKeys.sublist filter_sublist m.nodupKeys⟩

theorem lookup_keepWhere {m : GoMap α} {p : String → α → Bool} {key : String} {a : α} :
    (keepWhere m p).lookup key = some a ↔ m.lookup key = some a ∧ p key a := by
  change a ∈ (keepWhere m p).lookup key ↔ a ∈ m.lookup key ∧ p key a
  rw [mem_lookup_iff, mem_lookup_iff, keepWhere, mem_filter]

end

section Fill

variable {α β ε : Type} (f : String → α → Option β) (g : String → α → Except ε (Option β))

/-- The loop sets the key it is at, or skips it. -/
def fillFrom (entries : List (Sigma fun _ : String => α)) (m : GoMap β) : GoMap β :=
  entries.foldl (fun m entry =>
    match f entry.1 entry.2 with
    | none => m
    | some value => m.insert entry.1 value) m

/-- The same loop, which may also stop with an error. -/
def collectFrom : List (Sigma fun _ : String => α) → GoMap β → Except ε (GoMap β)
  | [], m => .ok m
  | entry :: rest, m =>
    match g entry.1 entry.2 with
    | .error cause => .error cause
    | .ok none => collectFrom rest m
    | .ok (some value) => collectFrom rest (m.insert entry.1 value)

variable {f g} {entries : List (Sigma fun _ : String => α)} {source : GoMap α} {m result : GoMap β}

theorem collectFrom_succeeds_iff :
    (∃ result, collectFrom g entries m = .ok result) ↔ ∀ entry ∈ entries, ∃ value,
      g entry.1 entry.2 = .ok value := by
  induction entries generalizing m with
  | nil => simp [collectFrom]
  | cons entry rest ih =>
    rw [forall_mem_cons, collectFrom]
    cases hentry : g entry.1 entry.2 with
    | error => simp
    | ok value =>
      cases value with
      | none | some => simp [ih]

theorem collectFrom_eq_fillFrom (h : collectFrom g entries m = .ok result) :
    result = fillFrom (fun key a => (g key a).toOption.join) entries m := by
  induction entries generalizing m with
  | nil =>
    cases h
    rfl
  | cons entry rest ih =>
    rw [fillFrom, foldl_cons]
    cases hvalue : g entry.1 entry.2 with
    | error => simp [collectFrom, hvalue] at h
    | ok value =>
      simp only [collectFrom, hvalue] at h
      cases value with
      | none | some => exact ih h

/-- What the loop leaves at a key: its own value, or what was there before. -/
theorem lookup_fillFrom (source : GoMap α) (m : GoMap β) (key : String) :
    (fillFrom f source.entries m).lookup key = ((source.lookup key).bind (f key)).or
      (m.lookup key) := by
  have hloop : ∀ entries : List (Sigma fun _ : String => α), entries.NodupKeys → ∀ m : GoMap β,
      (fillFrom f entries m).lookup key = ((entries.dlookup key).bind (f key)).or
        (m.lookup key) := by
    intro entries hentries
    induction entries with
    | nil => exact fun _ => rfl
    | cons entry rest ih =>
      intro m
      obtain ⟨name, a⟩ := entry
      obtain ⟨hfresh, hrest⟩ := nodupKeys_cons.mp hentries
      rw [fillFrom, foldl_cons, ← fillFrom, ih hrest]
      by_cases hkey : key = name
      · subst hkey
        rw [dlookup_eq_none.mpr hfresh]
        cases hvalue : f key a with
        | none | some => simp [hvalue]
      · rw [dlookup_cons_ne rest ⟨name, a⟩ hkey]
        cases hvalue : f name a with
        | none => rfl
        | some => simp only [lookup_insert_ne hkey]
  exact hloop source.entries source.nodupKeys m

theorem lookup_collectFrom (h : collectFrom g source.entries m = .ok result) (key : String) :
    result.lookup key = ((source.lookup key).bind fun a => (g key a).toOption.join).or
      (m.lookup key) := by
  rw [collectFrom_eq_fillFrom h, lookup_fillFrom]

end Fill

def fileText (lines : List String) : String := String.ofList (terminated '\n' (lines.map chars))

theorem split_fileText {lines : List String} (h : ∀ line ∈ lines, '\n' ∉ chars line) :
    split (fileText lines) '\n' = lines ++ [""] := by
  have hclean : ∀ l ∈ lines.map chars, '\n' ∉ l := by
    intro l hl
    obtain ⟨line, hline, rfl⟩ := mem_map.mp hl
    exact h line hline
  have hback : (lines.map chars).map String.ofList = lines := by
    simp [Function.comp_def]
  unfold split fileText
  rw [chars_eq_toList, String.toList_ofList, splitOn_terminated hclean, map_append, hback]
  rfl

end GoMaps
