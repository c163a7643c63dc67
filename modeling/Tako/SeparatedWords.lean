import Mathlib.Data.List.DropRight

/-! # Texts of separated words

A text is read as words, runs of word characters, and everything between them. Cutting a text of
joined words shortens or drops its last words.
-/
namespace SeparatedWords

open List

variable {α : Type*}

def wordsFrom (isWord : α → Bool) : List α → List α → List (List α)
  | acc, [] => if acc.isEmpty then [] else [acc]
  | acc, c :: rest =>
    if isWord c then wordsFrom isWord (acc ++ [c]) rest
    else if acc.isEmpty then wordsFrom isWord [] rest
    else acc :: wordsFrom isWord [] rest

def words (isWord : α → Bool) (text : List α) : List (List α) := wordsFrom isWord [] text

/-- Every run of other characters is replaced by one separator; `after` says that the text
before ended in a separator. -/
def squeeze (isWord : α → Bool) (s : α) : List α → Bool → List α
  | [], _ => []
  | c :: rest, after =>
    if isWord c then c :: squeeze isWord s rest false
    else if after then squeeze isWord s rest true
    else s :: squeeze isWord s rest true

def IsWord (isWord : α → Bool) (w : List α) : Prop := w ≠ [] ∧ ∀ c ∈ w, isWord c

/-- The words that are left of a joined text cut after `n` characters. -/
def cut : ℕ → List (List α) → List (List α)
  | _, [] => []
  | n, w :: rest =>
    if n = 0 then [] else if n ≤ w.length then [w.take n] else w :: cut (n - w.length - 1) rest

section Words

variable {isWord : α → Bool} {s : α} {ws us : List (List α)}

variable {acc l w x y z : List α} {c : α}

theorem wordsFrom_isWord (hacc : ∀ c ∈ acc, isWord c) :
    ∀ w ∈ wordsFrom isWord acc l, IsWord isWord w := by
  induction l generalizing acc with
  | nil =>
    intro w hw
    cases acc with
    | nil => cases hw
    | cons a rest =>
      have heq : w = a :: rest := by simpa [wordsFrom] using hw
      subst heq
      exact ⟨cons_ne_nil _ _, hacc⟩
  | cons c rest ih =>
    intro w hw
    unfold wordsFrom at hw
    split_ifs at hw with hc hempty
    · refine ih ?_ w hw
      exact forall_mem_append.mpr ⟨hacc, forall_mem_singleton.mpr hc⟩
    · exact ih (by simp) w hw
    · rcases mem_cons.mp hw with rfl | hw
      · exact ⟨fun hnil => hempty (by simp [hnil]), hacc⟩
      · exact ih (by simp) w hw

theorem wordsFrom_ne_nil (h : acc ≠ [] ∨ ∃ c ∈ l, isWord c) : wordsFrom isWord acc l ≠ [] := by
  induction l generalizing acc with
  | nil => simpa [wordsFrom] using h
  | cons c rest ih =>
    unfold wordsFrom
    split_ifs with hc hempty
    · exact ih (.inl (by simp))
    · rcases h with hacc | ⟨d, hd, hword⟩
      · exact absurd (isEmpty_iff.mp hempty) hacc
      · rcases mem_cons.mp hd with rfl | hd
        · exact absurd hword hc
        · exact ih (.inr ⟨d, hd, hword⟩)
    · simp

theorem words_isWord (l : List α) : ∀ w ∈ words isWord l, IsWord isWord w :=
  wordsFrom_isWord (by simp)

theorem wordsFrom_of_word (hl : ∀ c ∈ l, isWord c) (hne : acc ++ l ≠ []) :
    wordsFrom isWord acc l = [acc ++ l] := by
  induction l generalizing acc with
  | nil =>
    rw [append_nil] at hne ⊢
    simp [wordsFrom, hne]
  | cons c rest ih =>
    have hstep : wordsFrom isWord (acc ++ [c]) rest = [acc ++ [c] ++ rest] :=
      ih (fun d hd => hl d (mem_cons_of_mem _ hd)) (by simp)
    unfold wordsFrom
    rw [if_pos (hl c mem_cons_self), hstep]
    simp

theorem words_of_word (h : IsWord isWord w) : words isWord w = [w] := wordsFrom_of_word h.2 h.1

theorem cut_isWord (n : ℕ) (h : ∀ w ∈ ws, IsWord isWord w) : ∀ w ∈ cut n ws, IsWord isWord w := by
  induction ws generalizing n with
  | nil => simp [cut]
  | cons v rest ih =>
    intro w hw
    unfold cut at hw
    split_ifs at hw with hzero hshort
    · cases hw
    · rw [mem_singleton] at hw
      subst hw
      obtain ⟨hne, hchars⟩ := h v mem_cons_self
      refine ⟨?_, fun c hc => hchars c (mem_of_mem_take hc)⟩
      intro hnil
      rcases take_eq_nil_iff.mp hnil with h0 | hv
      · exact hzero h0
      · exact hne hv
    · rcases mem_cons.mp hw with rfl | hw
      · exact h w mem_cons_self
      · exact ih _ (fun u hu => h u (mem_cons_of_mem _ hu)) w hw

theorem cut_ne_nil (hn : 0 < n) (hne : ws ≠ []) : cut n ws ≠ [] := by
  cases ws with
  | nil => exact absurd rfl hne
  | cons =>
    rw [cut, if_neg (by omega)]
    split_ifs <;> exact cons_ne_nil _ _

theorem intercalate_ne_nil (h : ∀ w ∈ ws, IsWord isWord w) (hne : ws ≠ []) :
    [s].intercalate ws ≠ [] := by
  cases ws with
  | nil => exact absurd rfl hne
  | cons w rest =>
    have hw := (h w mem_cons_self).1
    cases rest with
    | nil => rwa [intercalate_singleton]
    | cons =>
      simp

theorem mem_intercalate (h : c ∈ [s].intercalate ws) : c = s ∨ ∃ w ∈ ws, c ∈ w := by
  induction ws with
  | nil => cases h
  | cons w rest ih =>
    cases rest with
    | nil =>
      rw [intercalate_singleton] at h
      exact .inr ⟨w, mem_cons_self, h⟩
    | cons =>
      rw [intercalate_cons_cons, mem_append, mem_append, mem_singleton] at h
      rcases h with (hw | hs) | hrest
      · exact .inr ⟨w, mem_cons_self, hw⟩
      · exact .inl hs
      · rcases ih hrest with hs | ⟨v, hv, hcv⟩
        · exact .inl hs
        · exact .inr ⟨v, mem_cons_of_mem _ hv, hcv⟩

theorem intercalate_head (h : ∀ w ∈ ws, IsWord isWord w) :
    ∀ c ∈ ([s].intercalate ws).head?, isWord c := by
  cases ws with
  | nil => simp
  | cons w rest =>
    obtain ⟨hne, hchars⟩ := h w mem_cons_self
    intro c hc
    refine hchars c ?_
    have hhead : ([s].intercalate (w :: rest)).head? = w.head? := by
      cases rest with
      | nil => rw [intercalate_singleton]
      | cons =>
        exact head?_append_of_ne_nil _ hne
    rw [hhead] at hc
    exact mem_of_mem_head? hc

theorem intercalate_getLast (h : ∀ w ∈ ws, IsWord isWord w) :
    ∀ c ∈ ([s].intercalate ws).getLast?, isWord c := by
  induction ws with
  | nil => simp
  | cons w rest ih =>
    have hrest : ∀ u ∈ rest, IsWord isWord u := fun u hu => h u (mem_cons_of_mem _ hu)
    intro c hc
    cases rest with
    | nil =>
      rw [intercalate_singleton] at hc
      exact (h w mem_cons_self).2 c (mem_of_mem_getLast? hc)
    | cons =>
      rw [intercalate_cons_cons,
        getLast?_append_of_ne_nil _ (intercalate_ne_nil hrest (cons_ne_nil _ _))] at hc
      exact ih hrest c hc

/-- A squeezed text is the joined words, but for a separator at its end. The accumulator is the
word that has begun before the text. -/
theorem squeeze_eq : (∀ acc, acc ≠ [] → ∃ t, (t = [] ∨ t = [s]) ∧
      acc ++ squeeze isWord s l false = [s].intercalate (wordsFrom isWord acc l) ++ t) ∧
    (∃ t, (t = [] ∨ t = [s]) ∧ squeeze isWord s l true = [s].intercalate (wordsFrom isWord [] l) ++
      t) ∧
    (wordsFrom isWord [] l = [] → squeeze isWord s l true = []) := by
  induction l with
  | nil =>
    refine ⟨?_, ⟨[], .inl rfl, rfl⟩, fun _ => rfl⟩
    intro acc hacc
    refine ⟨[], .inl rfl, ?_⟩
    simp [wordsFrom, squeeze, hacc]
  | cons c rest ih =>
    obtain ⟨hinside, ⟨t, ht, hbetween⟩, hnone⟩ := ih
    by_cases hc : isWord c
    · refine ⟨?_, ?_, ?_⟩
      · intro acc _
        obtain ⟨t, ht, heq⟩ := hinside (acc ++ [c]) (by simp)
        refine ⟨t, ht, ?_⟩
        simp only [squeeze, wordsFrom, hc, if_true]
        rw [← heq, append_assoc, singleton_append]
      · obtain ⟨t, ht, heq⟩ := hinside [c] (by simp)
        refine ⟨t, ht, ?_⟩
        simp only [squeeze, wordsFrom, hc, if_true]
        exact heq
      · intro hempty
        simp only [wordsFrom, hc, if_true, nil_append] at hempty
        exact absurd hempty (wordsFrom_ne_nil (.inl (by simp)))
    · simp only [squeeze, wordsFrom, hc, if_false, if_true, isEmpty_nil, Bool.false_eq_true]
      refine ⟨?_, ⟨t, ht, hbetween⟩, hnone⟩
      intro acc hacc
      have hne : acc.isEmpty = false := by simpa using hacc
      simp only [hne, Bool.false_eq_true, if_false]
      cases hrest : wordsFrom isWord [] rest with
      | nil =>
        refine ⟨[s], .inr rfl, ?_⟩
        rw [hnone hrest, intercalate_singleton]
      | cons =>
        refine ⟨t, ht, ?_⟩
        rw [hbetween, hrest]
        simp

theorem isWord_ne (hs : isWord s = false) (hc : isWord c) : c ≠ s := by
  intro heq
  rw [heq, hs] at hc
  cases hc

theorem cut_of_length_le (h : ∀ w ∈ ws, IsWord isWord w) {n : ℕ}
    (hn : ([s].intercalate ws).length ≤ n) : cut n ws = ws := by
  induction ws generalizing n with
  | nil => simp [cut]
  | cons w rest ih =>
    have hw : w.length ≠ 0 := fun h0 => (h w mem_cons_self).1 (eq_nil_of_length_eq_zero h0)
    have hrest : ∀ u ∈ rest, IsWord isWord u := fun u hu => h u (mem_cons_of_mem _ hu)
    unfold cut
    cases rest with
    | nil =>
      rw [intercalate_singleton] at hn
      rw [if_neg (by omega)]
      split_ifs
      · rw [take_of_length_le hn]
      · rfl
    | cons =>
      rw [intercalate_cons_cons] at hn
      simp only [length_append, length_singleton] at hn
      rw [if_neg (by omega), if_neg (by omega), ih hrest (by omega)]

theorem append_cons_inj (hx : s ∉ x) (hy : s ∉ y) (h : x ++ s :: z = y ++ s :: w) :
    x = y ∧ z = w := by
  induction x generalizing y with
  | nil =>
    cases y with
    | nil => simpa using h
    | cons d =>
      have hd : s = d := (cons.inj h).1
      exact absurd (hd ▸ mem_cons_self) hy
  | cons b rest ih =>
    cases y with
    | nil =>
      have hb : b = s := (cons.inj h).1
      exact absurd (hb ▸ mem_cons_self) hx
    | cons d tail =>
      obtain ⟨hhead, htail⟩ := cons.inj h
      have hrest : s ∉ rest := fun hm => hx (mem_cons_of_mem _ hm)
      have htail' : s ∉ tail := fun hm => hy (mem_cons_of_mem _ hm)
      obtain ⟨hsame, hzw⟩ := ih hrest htail' htail
      exact ⟨by rw [hhead, hsame], hzw⟩

theorem append_cons_prefix_iff (hx : s ∉ x) (hy : s ∉ y) :
    x ++ s :: z <+: y ++ s :: w ↔ x = y ∧ z <+: w := by
  constructor
  · rintro ⟨t, ht⟩
    rw [append_assoc] at ht
    obtain ⟨hxy, hzw⟩ := append_cons_inj hx hy ht
    exact ⟨hxy, t, hzw⟩
  · rintro ⟨rfl, t, rfl⟩
    exact ⟨t, by simp⟩

theorem intercalate_append (hws : ws ≠ []) (hus : us ≠ []) :
    [s].intercalate (ws ++ us) = [s].intercalate ws ++ s :: [s].intercalate us := by
  induction ws with
  | nil => exact absurd rfl hws
  | cons w rest ih =>
    cases rest with
    | nil =>
      cases us with
      | nil => exact absurd rfl hus
      | cons => simp [intercalate_cons_cons]
    | cons =>
      have hrest := ih (cons_ne_nil _ _)
      rw [cons_append] at hrest
      rw [cons_append, cons_append, intercalate_cons_cons, hrest]
      simp

/-- Joining joined parts joins all their words. -/
theorem intercalate_flatten (wss : List (List (List α))) (h : [] ∉ wss) :
    [s].intercalate (wss.map [s].intercalate) = [s].intercalate wss.flatten := by
  induction wss with
  | nil => rfl
  | cons ws rest ih =>
    have hws : ws ≠ [] := fun hnil => h (hnil ▸ mem_cons_self)
    have hrest : [] ∉ rest := fun hmem => h (mem_cons_of_mem _ hmem)
    cases rest with
    | nil => simp
    | cons us rest =>
      have hus : us ≠ [] := fun hnil => hrest (hnil ▸ mem_cons_self)
      have hflat : (us :: rest).flatten ≠ [] := by simp [hus]
      rw [map_cons, flatten_cons, intercalate_append hws hflat, ← ih hrest, map_cons]
      simp

theorem intercalate_flatten_filter {wss : List (List (List α))}
    (h : ∀ ws ∈ wss, ∀ w ∈ ws, IsWord isWord w) :
    [s].intercalate ((wss.map [s].intercalate).filter (!·.isEmpty)) =
      [s].intercalate wss.flatten := by
  have hparts : (wss.map [s].intercalate).filter (!·.isEmpty) =
      (wss.filter (!·.isEmpty)).map [s].intercalate := by
    rw [filter_map]
    refine congrArg _ (filter_congr ?_)
    intro ws hws
    cases ws with
    | nil => rfl
    | cons w rest =>
      have hne := intercalate_ne_nil (s := s) (h _ hws) (cons_ne_nil w rest)
      simpa using hne
  rw [hparts, intercalate_flatten _ (by simp), flatten_filter_not_isEmpty]

/-- The first words survive the cut exactly if they fit. -/
theorem prefix_cut_iff (h : ∀ w ∈ ws, IsWord isWord w) (hne : ws ≠ []) (n : ℕ) :
    ws <+: cut n (ws ++ u) ↔ ([s].intercalate ws).length ≤ n := by
  induction ws generalizing n with
  | nil => exact absurd rfl hne
  | cons w rest ih =>
    rw [cons_append, cut]
    cases rest with
    | nil =>
      rw [intercalate_singleton]
      split_ifs with hzero hshort
      · simp [hzero, (h w mem_cons_self).1]
      · rw [cons_prefix_cons]
        refine (and_iff_left nil_prefix).trans ⟨?_, fun hle => (take_of_length_le hle).symm⟩
        intro hsame
        have hlen := congrArg length hsame
        rw [length_take] at hlen
        omega
      · simp only [cons_prefix_cons, nil_prefix, and_self, true_iff]
        omega
    | cons u rest =>
      have hlen : ([s].intercalate (w :: u :: rest)).length = w.length + 1 +
          ([s].intercalate (u :: rest)).length := by
        rw [intercalate_cons_cons, length_append, length_append, length_singleton]
      split_ifs with hzero hshort
      · simp [hzero]
      · refine iff_of_false (fun hprefix => absurd hprefix.length_le (by simp)) (by omega)
      · rw [cons_prefix_cons, and_iff_right rfl,
          ih (fun v hv => h v (mem_cons_of_mem _ hv)) (cons_ne_nil _ _)]
        omega

/-- Joined words are compared word by word. -/
theorem intercalate_prefix_iff (hws : ∀ w ∈ ws, s ∉ w) (hus : ∀ u ∈ us, s ∉ u) (hne : ws ≠ [])
    (hune : us ≠ []) : [s].intercalate ws ++ [s] <+: [s].intercalate us ++ [s] ↔ ws <+: us := by
  induction ws generalizing us with
  | nil => exact absurd rfl hne
  | cons w ws ih =>
    cases us with
    | nil => exact absurd rfl hune
    | cons u us =>
      have hw : s ∉ w := hws w mem_cons_self
      have hu : s ∉ u := hus u mem_cons_self
      rw [cons_prefix_cons]
      cases ws with
      | nil =>
        cases us with
        | nil => simp [intercalate_singleton, append_cons_prefix_iff hw hu]
        | cons => simp [intercalate_cons_cons, append_cons_prefix_iff hw hu]
      | cons x ws =>
        cases us with
        | nil => simp [intercalate_cons_cons, append_cons_prefix_iff hw hu]
        | cons v us =>
          have hstep := ih (fun y hy => hws y (mem_cons_of_mem _ hy))
            (fun y hy => hus y (mem_cons_of_mem _ hy)) (cons_ne_nil x ws) (cons_ne_nil v us)
          rw [← hstep]
          simp [intercalate_cons_cons, append_cons_prefix_iff hw hu]

theorem prefix_append_iff {b t : List α} (ht : s ∉ t) :
    x ++ [s] <+: b ++ s :: t ↔ x ++ [s] <+: b ++ [s] := by
  constructor
  · intro h
    rw [show b ++ s :: t = (b ++ [s]) ++ t by simp] at h
    rcases le_total (x ++ [s]).length (b ++ [s]).length with hle | hle
    · exact prefix_of_prefix_length_le h (prefix_append _ _) hle
    · obtain ⟨r, hr⟩ := prefix_of_prefix_length_le (prefix_append _ t) h hle
      cases r with
      | nil =>
        rw [append_nil] at hr
        exact hr ▸ prefix_rfl
      | cons d r =>
        rw [← hr] at h
        have hrt := (prefix_append_right_inj _).mp h
        have hlast := congrArg getLast? hr
        rw [getLast?_append_of_ne_nil _ (cons_ne_nil d r), getLast?_concat] at hlast
        exact absurd (hrt.subset (mem_of_mem_getLast? hlast)) ht
  · rintro ⟨r, hr⟩
    exact ⟨r ++ t, by rw [← append_assoc, hr]; simp⟩

theorem dropWhile_of_head {p : α → Bool} (h : ∀ c ∈ l.head?, p c = false) : l.dropWhile p = l := by
  cases l with
  | nil => rfl
  | cons c => rw [dropWhile_cons_of_neg (by simp [h c rfl])]

theorem rdropWhile_of_last {p : α → Bool} (h : ∀ c ∈ l.getLast?, p c = false) :
    l.rdropWhile p = l := by
  rw [rdropWhile, dropWhile_of_head (by rwa [head?_reverse]), reverse_reverse]

variable [DecidableEq α]

def trimSep (s : α) (l : List α) : List α := (l.dropWhile (· == s)).rdropWhile (· == s)

theorem rdropWhile_append : (x ++ y).rdropWhile (· == s) =
      if y.rdropWhile (· == s) = [] then x.rdropWhile (· == s) else x ++ y.rdropWhile (· == s) := by
  unfold rdropWhile
  rw [reverse_append, dropWhile_append]
  by_cases hy : y.reverse.dropWhile (· == s) = []
  · simp [hy]
  · have hempty : (y.reverse.dropWhile (· == s)).isEmpty = false := by simpa using hy
    simp [hempty, hy]

section Trim

variable (hs : isWord s = false)
include hs

theorem rdropWhile_intercalate (h : ∀ w ∈ ws, IsWord isWord w) :
    ([s].intercalate ws).rdropWhile (· == s) = [s].intercalate ws :=
  rdropWhile_of_last fun c hc => beq_false_of_ne (isWord_ne hs (intercalate_getLast h c hc))

theorem dropWhile_squeeze :
    (squeeze isWord s l false).dropWhile (· == s) = squeeze isWord s l true := by
  have hfront : ∀ l, ∀ c ∈ (squeeze isWord s l true).head?, c ≠ s := by
    intro l
    induction l with
    | nil => simp [squeeze]
    | cons c rest ih =>
      by_cases hc : isWord c
      · intro d hd
        simp only [squeeze, hc, if_true, head?_cons, Option.mem_def, Option.some.injEq] at hd
        rw [← hd]
        exact isWord_ne hs hc
      · simpa [squeeze, hc] using ih
  cases l with
  | nil => rfl
  | cons c rest =>
    by_cases hc : isWord c
    · simp [squeeze, hc, isWord_ne hs hc]
    · simp only [squeeze, hc, Bool.false_eq_true, if_false, if_true]
      rw [dropWhile_cons]
      simp only [beq_self_eq_true, if_true]
      exact dropWhile_of_head fun c hc => beq_false_of_ne (hfront rest c hc)

/-- A trimmed squeezed text is its words, joined. -/
theorem trimSep_squeeze (l : List α) :
    trimSep s (squeeze isWord s l false) = [s].intercalate (words isWord l) := by
  have hsqueezed : ∃ t, (t = [] ∨ t = [s]) ∧
      squeeze isWord s l true = [s].intercalate (wordsFrom isWord [] l) ++ t := squeeze_eq.2.1
  obtain ⟨t, ht, heq⟩ := hsqueezed
  have hwords : ∀ w ∈ words isWord l, IsWord isWord w := words_isWord l
  have hjoined := rdropWhile_intercalate hs hwords
  unfold trimSep
  rw [dropWhile_squeeze hs, heq]
  rcases ht with rfl | rfl
  · rw [append_nil]
    exact hjoined
  · rw [rdropWhile_concat_pos _ _ _ (by simp)]
    exact hjoined

theorem rdropWhile_word {w : List α} (h : ∀ c ∈ w, isWord c) : w.rdropWhile (· == s) = w :=
  rdropWhile_of_last fun c hc => beq_false_of_ne (isWord_ne hs (h c (mem_of_mem_getLast? hc)))

section

variable (n : ℕ) (h : ∀ w ∈ ws, IsWord isWord w)

include n h

theorem rdropWhile_take : (([s].intercalate ws).take n).rdropWhile (· == s) =
    [s].intercalate (cut n ws) := by
  induction ws generalizing n with
  | nil => simp [cut]
  | cons w rest ih =>
    obtain ⟨_, hchars⟩ := h w mem_cons_self
    have hrest : ∀ u ∈ rest, IsWord isWord u := fun u hu => h u (mem_cons_of_mem _ hu)
    have htake : ∀ m, (w.take m).rdropWhile (· == s) = w.take m := fun m =>
      rdropWhile_word hs fun c hc => hchars c (mem_of_mem_take hc)
    unfold cut
    split_ifs with hzero hshort
    · simp [hzero]
    · cases rest with
      | nil => simpa using htake n
      | cons =>
        rw [intercalate_cons_cons, append_assoc, take_append_of_le_length hshort, htake,
          intercalate_singleton]
    · have hlong : w.length < n := by omega
      cases rest with
      | nil =>
        simp only [intercalate_singleton, cut]
        rw [take_of_length_le hlong.le]
        exact rdropWhile_word hs hchars
      | cons u rest =>
        have hstep := ih (n - w.length - 1) hrest
        rw [intercalate_cons_cons, append_assoc, singleton_append, take_append,
          take_of_length_le hlong.le]
        obtain ⟨m, hm⟩ : ∃ m, n - w.length = m + 1 := ⟨n - w.length - 1, by omega⟩
        rw [hm] at hstep ⊢
        rw [Nat.add_sub_cancel] at hstep ⊢
        rw [take_succ_cons, show w ++ s :: take m ([s].intercalate (u :: rest)) =
          (w ++ [s]) ++ take m ([s].intercalate (u :: rest)) by simp, rdropWhile_append, hstep]
        cases hcut : cut m (u :: rest) with
        | nil =>
          simp only [intercalate_nil, if_true, intercalate_singleton]
          rw [rdropWhile_concat_pos _ _ _ (by simp)]
          exact rdropWhile_word hs hchars
        | cons v us =>
          have hne : [s].intercalate (v :: us) ≠ [] := by
            rw [← hcut]
            exact intercalate_ne_nil (cut_isWord m hrest) (by simp [hcut])
          rw [if_neg hne, intercalate_cons_cons]

theorem trimSep_take : trimSep s (([s].intercalate ws).take n) = [s].intercalate (cut n ws) := by
  have hfront : ∀ c ∈ (([s].intercalate ws).take n).head?, c ≠ s := by
    intro c hc
    refine isWord_ne hs (intercalate_head (s := s) h c ?_)
    cases n with
    | zero => simp at hc
    | succ => rwa [head?_take, if_neg (by omega)] at hc
  unfold trimSep
  rw [dropWhile_of_head fun c hc => beq_false_of_ne (hfront c hc), rdropWhile_take hs n h]

theorem cut_length : ([s].intercalate (cut n ws)).length ≤ n := by
  rw [← rdropWhile_take hs n h]
  exact ( rdropWhile_prefix _ _).length_le.trans (length_take_le n _)

end

theorem trimSep_joined (h : ∀ w ∈ ws, IsWord isWord w) :
    trimSep s ([s].intercalate ws) = [s].intercalate ws := by
  have htake := trimSep_take hs ([s].intercalate ws).length h
  rwa [take_length, cut_of_length_le h le_rfl] at htake

end Trim

end Words

theorem not_mem_of_mem_splitOn [BEq α] [LawfulBEq α] {sep : α} {l w : List α}
    (h : w ∈ l.splitOn sep) : sep ∉ w := by
  induction l generalizing w with
  | nil => simp_all [splitOn]
  | cons a l ih =>
    obtain ⟨first, others, hsplit⟩ := exists_cons_of_ne_nil (splitOnP_ne_nil (· == sep) l)
    rw [splitOn, splitOnP_cons_eq_if_modifyHead, hsplit] at h
    rw [splitOn, hsplit] at ih
    split_ifs at h with ha
    · rcases mem_cons.mp h with rfl | h
      · exact not_mem_nil
      · exact ih h
    · rcases mem_cons.mp h with rfl | h
      · rw [mem_cons, not_or]
        exact ⟨fun heq => ha (heq ▸ beq_self_eq_true a), ih mem_cons_self⟩
      · exact ih (mem_cons_of_mem _ h)

def terminated {α : Type} (sep : α) (lines : List (List α)) : List α := lines.flatMap (· ++ [sep])

theorem terminated_cons {α : Type} (sep : α) (line : List α) (lines : List (List α)) :
    terminated sep (line :: lines) = line ++ sep :: terminated sep lines := by
  simp [terminated]

theorem splitOn_terminated {α : Type} [BEq α] [LawfulBEq α] {sep : α} {lines : List (List α)}
    (h : ∀ line ∈ lines, sep ∉ line) : (terminated sep lines).splitOn sep = lines ++ [[]] := by
  have hjoin : terminated sep lines = [sep].intercalate (lines ++ [[]]) := by
    clear h
    induction lines with
    | nil => rfl
    | cons line lines ih =>
      have hne : lines ++ [[]] ≠ [] := by simp
      rw [cons_append, intercalate_cons_of_ne_nil hne, ← ih]
      rfl
  have hclean : ∀ line ∈ lines ++ [[]], sep ∉ line := by
    exact forall_mem_append.mpr ⟨h, forall_mem_singleton.mpr not_mem_nil⟩
  rw [hjoin, splitOn_intercalate sep hclean (by simp)]

end SeparatedWords
