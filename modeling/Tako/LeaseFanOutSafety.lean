import Tako.LeaseFanOut

/-! # No lease is lost in a fan-out

Every acquired lease is in exactly one place: with its worker, in the channel, with the caller, or
released.
-/
namespace LeaseFanOut

open Runs Worker Function
open List hiding set

section Accounts

variable {Lease : Type} [DecidableEq Lease] {s : State n Lease}

def single (lease : Lease) (held : Option Lease) : ℕ := if held = some lease then 1 else 0

def Caller.count (lease : Lease) : Caller n Lease → ℕ
  | .collecting _ ordered _ _ => ∑ i, single lease (ordered i)
  | .releasing todo _ _ => todo.count lease
  | .returned (.ok set) => set.count lease
  | _ => 0

def Result.count (lease : Lease) (r : Result n Lease) : ℕ := single lease r.outcome.toOption

def State.acquisitions (s : State n Lease) (lease : Lease) : ℕ := ∑ i, single lease (s.acquired i)

/-- Every acquired lease is with one worker, in the channel, with the caller, or released. -/
def Balanced (s : State n Lease) : Prop :=
  ∀ lease, s.acquisitions lease =
    ∑ i, single lease (s.workers i).holds + (s.channel.map (Result.count lease)).sum +
      s.caller.count lease + s.released.count lease

theorem count_ofFn (ordered : Fin n → Option Lease) :
    (appendAcquiredLeases [] ordered).count lease = ∑ i, single lease (ordered i) := by
  unfold appendAcquiredLeases
  rw [nil_append]
  induction n with
  | zero => simp [reduceOption]
  | succ n ih =>
    rw [ofFn_succ, Fin.sum_univ_succ]
    cases hfirst : ordered 0 with
    | none => rw [reduceOption_cons_of_none, ih]; simp [single]
    | some =>
      rw [reduceOption_cons_of_some, count_cons, ih]
      simp [single]
      omega

structure Invariant (s : State n Lease) : Prop where
  balance : Balanced s
  unspawned : s.spawned = false → s.channel = [] ∧ ∀ i, (s.workers i).isStarting
  worker_acquired : ∀ i lease, (s.workers i).holds = some lease → s.acquired i = some lease
  channel_acquired : ∀ r ∈ s.channel, ∀ lease, r.outcome = .ok lease →
    s.acquired r.index = some lease
  channel_sent : ∀ r ∈ s.channel, (s.workers r.index).unsent = false
  channel_nodup : (s.channel.map Result.index).Nodup
  unacquired : ∀ i, (s.workers i).early → s.acquired i = none
  caller : CallerKnows s s.caller
  cleaner : CleanerKnows s s.cleaner

theorem move_balanced (h : Balanced s)
    (hmoved : ∀ lease, single lease acquired + single lease (s.workers i).holds +
      s.released.count lease =
      single lease (s.acquired i) + single lease w.holds + released.count lease) :
    Balanced (s.move i w acquired released) := by
  intro lease
  have hbefore := h lease
  have hworkers := sum_update (fun w : Worker Lease => single lease w.holds) s.workers i w
  have hacquired := sum_update (single lease) s.acquired i acquired
  have hlocal := hmoved lease
  unfold State.acquisitions at hbefore ⊢
  simp only [State.move] at hworkers hacquired hbefore ⊢
  omega

section

variable (h : Invariant s)

include h

theorem Invariant.move (hspawned : s.spawned)
    (hactive : ¬ (s.workers i).isFinished) (hunsent : w.unsent = (s.workers i).unsent)
    (hmono : ∀ lease, s.acquired i = some lease → acquired = some lease)
    (hholds : ∀ lease, w.holds = some lease → acquired = some lease)
    (hnone : w.early → acquired = none)
    (hmoved : ∀ lease, single lease acquired + single lease (s.workers i).holds +
      s.released.count lease =
      single lease (s.acquired i) + single lease w.holds + released.count lease) :
    Invariant (s.move i w acquired released) where
  balance := move_balanced h.balance hmoved
  unspawned hns := absurd (hspawned.symm.trans hns) (by decide)
  worker_acquired := by
    intro j lease hj
    by_cases hji : j = i
    · subst hji
      simp only [State.move, update_self] at hj ⊢
      exact hholds lease hj
    · simp only [State.move, update_of_ne hji] at hj ⊢
      exact h.worker_acquired j lease hj
  channel_acquired r hr lease hl := move_acquired hmono (h.channel_acquired r hr lease hl)
  channel_sent r hr := by
    rw [move_unsent hunsent]
    exact h.channel_sent r hr
  channel_nodup := h.channel_nodup
  unacquired := by
    intro j hj
    by_cases hji : j = i
    · subst hji
      simp only [State.move, update_self] at hj ⊢
      exact hnone hj
    · simp only [State.move, update_of_ne hji] at hj ⊢
      exact h.unacquired j hj
  caller := move_caller hunsent hmono h.caller
  cleaner := move_cleaner hactive h.cleaner

theorem Invariant.knows {caller : Caller n Lease} (hc : s.caller = caller) :
    CallerKnows s caller := hc ▸ h.caller

theorem Invariant.cleaning (hc : s.cleaner = phase) : CleanerKnows s phase := hc ▸ h.cleaner

theorem Invariant.accounts {caller : Caller n Lease} (hc : s.caller = caller) (lease : Lease) :
    s.acquisitions lease = ∑ i, single lease (s.workers i).holds +
      (s.channel.map (Result.count lease)).sum +
      caller.count lease + s.released.count lease := hc ▸ h.balance lease

theorem Invariant.is_spawned (hi : ¬ (s.workers i).isStarting) : s.spawned := by
  cases hs : s.spawned with
  | true => rfl
  | false => exact absurd ((h.unspawned hs).2 i) hi

/-- A worker that moves on with what it holds. -/
theorem Invariant.setWorker (hw : s.workers i = before) (hspawned : s.spawned)
    (hactive : before.isFinished = false) (hunsent : w.unsent = before.unsent)
    (hholds : w.holds = before.holds) (hearly : w.early → before.early) :
    Invariant (s.setWorker i w) := by
  subst hw
  rw [setWorker_eq_move]
  refine h.move hspawned (by simp [hactive]) hunsent (fun _ hl => hl) ?_
    (fun hw => h.unacquired i (hearly hw)) ?_
  · intro lease hl
    exact h.worker_acquired i lease (hholds ▸ hl)
  · simp [hholds]

section

variable (c : Call)

theorem start_preserves (he : Enabled s (.start i)) : Invariant (next c s (.start i)) := by
  obtain ⟨hspawned, hstart⟩ := he
  cases hw : s.workers i with
  | starting =>
    cases hctx : s.ctxErr with
    | none | some =>
      simp only [next, hctx]
      exact h.setWorker hw hspawned rfl rfl rfl fun _ => rfl
  | _ => simp [hw, isStarting] at hstart

theorem acquire_preserves (he : Enabled s (.acquire i outcome)) :
    Invariant (next c s (.acquire i outcome)) := by
  simp only [Enabled] at he
  cases hw : s.workers i with
  | acquiring =>
    have hspawned := h.is_spawned (i := i) (by simp [hw, isStarting])
    cases outcome with
    | ok lease =>
      have hnone := h.unacquired i (by rw [hw]; rfl)
      change Invariant (s.move i (.holding lease) (some lease) s.released)
      refine h.move hspawned (by simp [hw, isFinished]) (by simp [hw, unsent]) ?_ ?_
        (by simp [early]) ?_
      · intro held hheld
        rw [hnone] at hheld
        cases hheld
      · intro held hheld
        exact hheld
      · simp [hw, hnone, holds]
        intro held
        omega
    | error => exact h.setWorker hw hspawned rfl rfl rfl fun _ => rfl
  | _ => simp [hw] at he

theorem recheck_preserves (he : Enabled s (.recheck i)) : Invariant (next c s (.recheck i)) := by
  simp only [Enabled] at he
  cases hw : s.workers i with
  | holding =>
    have hspawned := h.is_spawned (i := i) (by simp [hw, isStarting])
    cases hctx : s.ctxErr with
    | some =>
      simp only [next, hw, hctx]
      rw [setWorker_eq_move]
      refine h.move hspawned (by simp [hw, isFinished]) (by simp [hw, unsent]) (fun _ hl => hl) ?_
        (by simp [early]) ?_
      · simp [holds, Except.toOption]
      · intro held
        simp only [hw, holds, Except.toOption, single, count_append, count_singleton,
          Option.some.injEq, beq_iff_eq, reduceCtorEq, if_false]
        omega
    | none =>
      simp only [next, hw, hctx]
      exact h.setWorker hw hspawned rfl rfl rfl (fun hearly => by cases hearly)
  | _ => simp [hw] at he

theorem finish_preserves (he : Enabled s (.finish i)) : Invariant (next c s (.finish i)) := by
  simp only [Enabled] at he
  cases hw : s.workers i with
  | sent =>
    have hspawned := h.is_spawned (i := i) (by simp [hw, isStarting])
    exact h.setWorker hw hspawned rfl rfl rfl (fun hearly => by cases hearly)
  | _ => simp [hw] at he

theorem send_preserves (he : Enabled s (.send i)) : Invariant (next c s (.send i)) := by
  simp only [Enabled] at he
  cases hw : s.workers i with
  | reporting outcome =>
    have hspawned := h.is_spawned (i := i) (by simp [hw, isStarting])
    have hunsent : (s.workers i).unsent := by simp [hw, unsent]
    have hnew : ∀ r ∈ s.channel, r.index ≠ i := by
      intro r hr heq
      have hsent := h.channel_sent r hr
      rw [heq, hunsent] at hsent
      cases hsent
    simp only [next, hw, State.setWorker]
    constructor
    case balance =>
      intro lease
      have hbefore := h.balance lease
      have hworkers := sum_update (fun w : Worker Lease => single lease w.holds) s.workers i .sent
      have hold : single lease (s.workers i).holds = single lease outcome.toOption := by
        rw [hw]; rfl
      unfold State.acquisitions at hbefore ⊢
      simp only [map_append, map_cons, map_nil, sum_append, sum_cons, sum_nil, Result.count]
      have hzero : single lease (sent : Worker Lease).holds = 0 := rfl
      omega
    case unspawned => exact fun hns => absurd (hspawned.symm.trans hns) (by decide)
    case worker_acquired =>
      refine (forall_update_iff s.workers fun j w => ∀ lease, w.holds = some lease →
        s.acquired j = some lease).mpr ?_
      exact ⟨by simp [holds], fun j _ => h.worker_acquired j⟩
    case channel_acquired =>
      intro r hr lease hl
      rcases mem_append.mp hr with hr | hr
      · exact h.channel_acquired r hr lease hl
      · rw [mem_singleton] at hr
        subst hr
        refine h.worker_acquired i lease ?_
        simp only [hw, holds]
        rw [show outcome = .ok lease from hl]
        rfl
    case channel_sent =>
      intro r hr
      rcases mem_append.mp hr with hr | hr
      · simp only [update_of_ne (hnew r hr)]
        exact h.channel_sent r hr
      · rw [mem_singleton] at hr
        subst hr
        simp [unsent]
    case channel_nodup =>
      rw [map_append, map_cons, map_nil]
      refine List.Nodup.append h.channel_nodup (nodup_singleton _) ?_
      intro j hj hji
      rw [mem_singleton] at hji
      obtain ⟨r, hr, rfl⟩ := mem_map.mp hj
      exact hnew r hr hji
    case unacquired =>
      refine (forall_update_iff s.workers fun j w => w.early → s.acquired j = none).mpr ?_
      exact ⟨by simp [early], fun j _ => h.unacquired j⟩
    case caller =>
      have hmore := unsent_not_collected hunsent
      cases hc : s.caller with
      | entering => exact absurd (hspawned.symm.trans (h.knows hc).1) (by decide)
      | releasing =>
        obtain ⟨_, hidle, hcoll⟩ := h.knows hc
        exact ⟨hspawned, hidle, fun hcleanup => absurd (hcoll hcleanup) hmore⟩
      | returned answer =>
        have hcaller := h.knows hc
        cases answer with
        | ok => exact absurd hcaller.2.2.1 hmore
        | error => exact fun hidle hs => absurd (hcaller hidle hs) hmore
      | collecting =>
        obtain ⟨_, hidle, hrest, hempty, hfilled⟩ := h.knows hc
        have hpend : ∀ j, Pending { s with
            workers := update s.workers i .sent
            channel := s.channel ++ [⟨i, outcome⟩] } j ↔ Pending s j := by
          intro j
          unfold Pending
          by_cases hji : j = i
          · subst hji
            simp [hw, unsent]
          · simp [hji]
        refine ⟨hspawned, hidle, ?_, ?_, ?_⟩
        · have hcount := sum_update (fun w : Worker Lease => w.unsent.toNat) s.workers i .sent
          have hone : (s.workers i).unsent.toNat = 1 := by rw [hunsent]; rfl
          have hzero : (sent : Worker Lease).unsent.toNat = 0 := rfl
          unfold State.unsentCount at hrest ⊢
          simp only [length_append, length_singleton]
          omega
        · intro j hj
          exact hempty j ((hpend j).mp hj)
        · intro j hj
          exact hfilled j fun hp => hj ((hpend j).mpr hp)
    case cleaner =>
      cases hc : s.cleaner with
      | idle => trivial
      | selecting => exact h.cleaning hc
      | draining => exact absurd ((h.cleaning hc).2 i) (by simp [hw, isFinished])
      | stopped => exact absurd ((h.cleaning hc).2.2 i) (by simp [hw, isFinished])
  | _ => simp [hw] at he

end

end

section

variable (c : Call) (h : Invariant s)

include c h

theorem enter_preserves (he : Enabled s .enter) : Invariant (next c s .enter) := by
  simp only [Enabled] at he
  cases hc : s.caller with
  | entering =>
    obtain ⟨hspawned, hidle⟩ := h.knows hc
    obtain ⟨hchan, hstarting⟩ := h.unspawned hspawned
    have hbalance := h.accounts hc
    have hnotsent : ∀ i, (s.workers i).unsent := by
      intro i
      have hi := hstarting i
      cases hw : s.workers i with
      | starting => rfl
      | _ => simp [hw, isStarting] at hi
    cases hcheck : c.check s.ctxErr with
    | error =>
      simp only [next, hcheck]
      refine { h with balance := hbalance, caller := ?_, cleaner := by simp [hidle, CleanerKnows] }
      intro _ hs
      exact absurd (hspawned.symm.trans hs) (by decide)
    | ok _ =>
      simp only [next, hcheck]
      refine { h with
        balance := ?_, unspawned := fun hs => absurd hs (by simp), caller := ?_,
        cleaner := by simp [hidle, CleanerKnows] }
      · intro lease
        simp only [Caller.count, single, reduceCtorEq, if_false, Finset.sum_const_zero]
        exact hbalance lease
      · refine ⟨rfl, hidle, ?_, fun _ _ => rfl, ?_⟩
        · simp [State.unsentCount, hnotsent, hchan]
        · intro i
          exact absurd (.inl (hnotsent i))
  | _ => simp [hc] at he

theorem receive_preserves (he : Enabled s .receive) : Invariant (next c s .receive) := by
  obtain ⟨hnonempty, hcollecting⟩ := he
  cases hchan : s.channel with
  | nil => simp [hchan] at hnonempty
  | cons r rest =>
    cases hc : s.caller with
    | collecting remaining ordered =>
      obtain ⟨hspawned, hidle, hremaining, hempty, hfilled⟩ := h.knows hc
      rw [hchan] at hremaining
      have hnodup := h.channel_nodup
      rw [hchan, map_cons, nodup_cons] at hnodup
      have hslot : ordered r.index = none := hempty _ (.inr (by simp [hchan]))
      have hpend : ∀ j, Pending { s with channel := rest } j ↔ Pending s j ∧ j ≠ r.index := by
        intro j
        unfold Pending
        rw [hchan, map_cons]
        by_cases hj : j = r.index
        · subst hj
          have hsent := h.channel_sent r (by simp [hchan])
          simp [hsent, hnodup.1]
        · simp [hj]
      have hrest := hchan ▸ subset_cons_self r rest
      simp only [next, hchan, hc]
      refine { h with
        balance := ?_, unspawned := fun hs => absurd (hspawned.symm.trans hs) (by decide),
        channel_acquired := fun q hq => h.channel_acquired q (hrest hq),
        channel_sent := fun q hq => h.channel_sent q (hrest hq), channel_nodup := hnodup.2,
        caller := ?_, cleaner := by simp [hidle, CleanerKnows] }
      · intro held
        have hb := h.accounts hc held
        rw [hchan, map_cons, sum_cons] at hb
        cases hout : r.outcome with
        | error =>
          simp only [Result.count, hout, Except.toOption, single, reduceCtorEq, if_false,
            zero_add] at hb
          simp only [collect, hout]
          exact hb
        | ok lease =>
          have hordered := sum_update (single held) ordered r.index (some lease)
          have hr : Result.count held r = single held (some lease) := by
            simp only [Result.count, hout, Except.toOption]
          have hzero : single held (none : Option Lease) = 0 := rfl
          rw [hslot] at hordered
          simp only [Caller.count, collect, hout] at hb ⊢
          unfold State.acquisitions at hb ⊢
          dsimp only
          omega
      · cases hout : r.outcome with
        | error =>
          simp only [collect, hout]
          refine ⟨hspawned, hidle, by rw [hremaining]; rfl, ?_, fun j _ => .inl (by simp)⟩
          intro j hj
          exact hempty j ((hpend j).mp hj).1
        | ok lease =>
          simp only [collect, hout]
          refine ⟨hspawned, hidle, by rw [hremaining]; rfl, ?_, ?_⟩
          · intro j hj
            obtain ⟨hold, hne⟩ := (hpend j).mp hj
            rw [update_of_ne hne]
            exact hempty j hold
          · intro j hj
            by_cases hji : j = r.index
            · subst hji
              exact .inr ⟨lease, update_self .., h.channel_acquired r (by simp [hchan]) lease hout⟩
            · rw [update_of_ne hji]
              exact hfilled j fun hp => hj ((hpend j).mpr ⟨hp, hji⟩)
    | _ => simp [hc] at hcollecting

theorem abandon_preserves (he : Enabled s .abandon) : Invariant (next c s .abandon) := by
  obtain ⟨hended, hcollecting⟩ := he
  cases hctx : s.ctxErr with
  | none => simp [hctx] at hended
  | some =>
    cases hc : s.caller with
    | collecting =>
      obtain ⟨hspawned, hidle, _⟩ := h.knows hc
      simp only [next, hc, hctx]
      refine { h with
        balance := ?_, caller := ⟨hspawned, hidle, fun hfalse => by cases hfalse⟩,
        cleaner := by simp [hidle, CleanerKnows] }
      intro lease
      have hb := h.accounts hc lease
      simp only [Caller.count, count_reverse, count_ofFn] at hb ⊢
      exact hb
    | _ => simp [hc] at hcollecting

theorem conclude_preserves (he : Enabled s .conclude) : Invariant (next c s .conclude) := by
  simp only [Enabled] at he
  cases hc : s.caller with
  | collecting remaining ordered =>
    obtain ⟨hspawned, hidle, hrest, _, hfilled⟩ := h.knows hc
    have hdone : remaining = 0 := by
      cases remaining with
      | zero => rfl
      | succ => simp [hc] at he
    have hcoll : Collected s := by
      constructor
      · exact eq_nil_of_length_eq_zero (by omega)
      · intro i
        have hle : (s.workers i).unsent.toNat ≤ s.unsentCount :=
          Finset.single_le_sum (f := fun j => (s.workers j).unsent.toNat) (fun j _ => Nat.zero_le _)
            (Finset.mem_univ i)
        cases hi : (s.workers i).unsent with
        | false => rfl
        | true =>
          rw [hi, Bool.toNat_true] at hle
          omega
    have hreceived : ∀ i, ¬ Pending s i := by
      rintro i (hi | hi)
      · rw [hcoll.2 i] at hi
        cases hi
      · rw [hcoll.1] at hi
        cases hi
    have hbalance : ∀ lease, s.acquisitions lease = ∑ i, single lease (s.workers i).holds +
        (s.channel.map (Result.count lease)).sum + (appendAcquiredLeases [] ordered).count lease +
        s.released.count lease := by
      intro lease
      have hb := h.accounts hc lease
      rw [count_ofFn]
      exact hb
    simp only [next, hc, concludeCollecting]
    split_ifs with hfailures
    · refine { h with
        balance := ?_, caller := ⟨hspawned, hidle, fun _ => hcoll⟩, cleaner := by
          simp [hidle, CleanerKnows] }
      intro lease
      simp only [Caller.count, count_reverse]
      exact hbalance lease
    · have hall : ∀ i, ∃ lease, ordered i = some lease ∧ s.acquired i = some lease := by
        intro i
        rcases hfilled i (hreceived i) with hfailed | hlease
        · exact absurd hfailed hfailures
        · exact hlease
      choose leases hslots hacquired using hall
      exact { h with
        balance := hbalance
        caller := ⟨hspawned, hidle, hcoll, leases, appendAcquiredLeases_full hslots, hacquired⟩
        cleaner := by simp [hidle, CleanerKnows] }
  | _ => simp [hc] at he

theorem release_preserves (he : Enabled s .release) : Invariant (next c s .release) := by
  simp only [Enabled] at he
  cases hc : s.caller with
  | releasing todo =>
    cases todo with
    | nil => simp [hc] at he
    | cons =>
      obtain ⟨hspawned, hidle, hcoll⟩ := h.knows hc
      simp only [next, hc]
      refine { h with
        balance := ?_, caller := ⟨hspawned, hidle, hcoll⟩, cleaner := by
          simp [hidle, CleanerKnows] }
      intro held
      have hb := h.accounts hc held
      simp only [Caller.count, count_cons, count_append, count_nil] at hb ⊢
      unfold State.acquisitions at hb ⊢
      dsimp only
      omega
  | _ => simp [hc] at he

theorem answer_preserves (he : Enabled s .answer) : Invariant (next c s .answer) := by
  simp only [Enabled] at he
  cases hc : s.caller with
  | releasing todo cause cleanup =>
    cases todo with
    | cons => simp [hc] at he
    | nil =>
      obtain ⟨hspawned, hidle, hcoll⟩ := h.knows hc
      simp only [next, hc]
      refine { h with balance := ?_, caller := ?_, cleaner := ?_ }
      · have hb := h.accounts hc
        exact hb
      · intro hnocleanup _
        refine hcoll ?_
        cases cleanup with
        | false => rfl
        | true => simp at hnocleanup
      · cases cleanup with
        | false => simp [hidle, CleanerKnows]
        | true => simp [CleanerKnows]
  | _ => simp [hc] at he

end

theorem count_releaseResult (lease : Lease) :
    (releaseResult released r).count lease = released.count lease + r.count lease := by
  unfold releaseResult Result.count
  cases r.outcome with
  | error => rfl
  | ok => simp [Except.toOption, single, count_append, count_singleton]

section

variable (c : Call)

theorem clean_preserves (h : Invariant s) (he : Enabled s .clean) :
    Invariant (next c s .clean) := by
  obtain ⟨hnonempty, hcleaning⟩ := he
  have hidle : s.cleaner ≠ .idle := by
    rcases hcleaning with hc | hc <;> rw [hc] <;> decide
  obtain ⟨cause, hreturned⟩ := cleaning_returned h.cleaner hidle
  cases hchan : s.channel with
  | nil => simp [hchan] at hnonempty
  | cons r rest =>
    have hnodup := h.channel_nodup
    rw [hchan, map_cons, nodup_cons] at hnodup
    have hrest := hchan ▸ subset_cons_self r rest
    simp only [next, hchan]
    refine { h with
      balance := ?_, unspawned := ?_, channel_acquired := fun q hq =>
        h.channel_acquired q (hrest hq),
      channel_sent := fun q hq => h.channel_sent q (hrest hq), channel_nodup := hnodup.2,
      caller := ?_,
      cleaner := ?_ }
    · intro lease
      have hb := h.balance lease
      rw [hchan, map_cons, sum_cons] at hb
      simp only [count_releaseResult]
      unfold State.acquisitions at hb ⊢
      dsimp only
      omega
    · intro hs
      have hempty := (h.unspawned hs).1
      rw [hchan] at hempty
      cases hempty
    · rw [hreturned]
      exact fun hc => absurd hc hidle
    · rcases hcleaning with hc | hc
      · exact hc ▸ h.cleaning hc
      · exact hc ▸ h.cleaning hc

theorem observe_preserves (h : Invariant s) (he : Enabled s .observe) :
    Invariant (next c s .observe) := by
  obtain ⟨hselecting, hfinished⟩ := he
  obtain ⟨cause, hreturned⟩ := cleaning_returned h.cleaner (by rw [hselecting]; decide)
  refine { h with caller := ?_, cleaner := ⟨h.cleaning hselecting, hfinished⟩ }
  simp only [next, hreturned]
  exact fun hc => by cases hc

theorem stop_preserves (h : Invariant s) (he : Enabled s .stop) : Invariant (next c s .stop) := by
  obtain ⟨hdrain, hempty⟩ := he
  obtain ⟨hcaller, hdone⟩ := h.cleaning hdrain
  obtain ⟨cause, hreturned⟩ := cleaning_returned h.cleaner (by rw [hdrain]; decide)
  refine { h with
    caller := ?_, cleaner := ⟨hcaller, isEmpty_iff.mp hempty, hdone⟩ }
  simp only [next, hreturned]
  exact fun hc => by cases hc

theorem cancel_preserves (h : Invariant s) : Invariant (next c s (.cancel cause)) := by
  refine { h with caller := ?_, cleaner := ?_ }
  · exact h.caller
  · exact h.cleaner

theorem step_preserves (h : Invariant s) (he : Enabled s e) : Invariant (next c s e) := by
  cases e with
  | cancel => exact cancel_preserves c h
  | enter => exact enter_preserves c h he
  | start => exact start_preserves h c he
  | acquire => exact acquire_preserves h c he
  | recheck => exact recheck_preserves h c he
  | send => exact send_preserves h c he
  | finish => exact finish_preserves h c he
  | receive => exact receive_preserves c h he
  | abandon => exact abandon_preserves c h he
  | conclude => exact conclude_preserves c h he
  | release => exact release_preserves c h he
  | answer => exact answer_preserves c h he
  | clean => exact clean_preserves c h he
  | observe => exact observe_preserves c h he
  | stop => exact stop_preserves c h he

end

theorem initial_invariant : Invariant (initial n Lease) := by
  constructor
  case balance =>
    intro lease
    simp [State.acquisitions, initial, single, holds, Caller.count]
  case caller => exact ⟨rfl, rfl⟩
  case cleaner => trivial
  all_goals simp [initial, isStarting, holds]

theorem reachable_invariant (hr : (machine n Lease c).Reachable (· = initial n Lease) s) :
    Invariant s := by
  refine hr.invariant ?_ fun _ _ hs he => step_preserves c hs he
  rintro _ rfl
  exact initial_invariant

section

variable (h : Invariant s) (hq : Quiescent s)

include h hq

theorem quiescent_returned : ∃ answer, s.caller = .returned answer := by
  cases hc : s.caller with
  | returned answer => exact ⟨answer, rfl⟩
  | entering => obtain ⟨cause, he⟩ := hq .enter (by simp [Enabled, hc]); cases he
  | releasing todo cause =>
    cases todo with
    | nil => obtain ⟨cause, he⟩ := hq .answer (by simp [Enabled, hc]); cases he
    | cons => obtain ⟨cause, he⟩ := hq .release (by simp [Enabled, hc]); cases he
  | collecting remaining =>
    obtain ⟨hspawned, _, hrest, _⟩ := h.knows hc
    have hsent : s.unsentCount = 0 := by
      refine Finset.sum_eq_zero fun i _ => ?_
      rw [(finished_sent (quiescent_finished hq hspawned i)).1]
      rfl
    cases remaining with
    | zero => obtain ⟨cause, he⟩ := hq .conclude (by simp [Enabled, hc]); cases he
    | succ =>
      cases hchan : s.channel with
      | nil =>
        rw [hsent, hchan] at hrest
        cases hrest
      | cons => obtain ⟨cause, he⟩ := hq .receive (by simp [Enabled, hc, hchan]); cases he

/-- Nothing is left in the channel of a call that failed. -/
theorem quiescent_channel (hc : s.caller = .returned (.error cause)) : s.channel = [] := by
  cases hspawned : s.spawned with
  | false => exact (h.unspawned hspawned).1
  | true =>
    cases hcl : s.cleaner with
    | idle => exact (h.knows hc hcl hspawned).1
    | selecting =>
      obtain ⟨_, he⟩ := hq .observe ⟨hcl, quiescent_finished hq hspawned⟩
      cases he
    | draining =>
      cases hchan : s.channel with
      | nil => rfl
      | cons =>
        obtain ⟨_, he⟩ := hq .clean (by simp [Enabled, hcl, hchan])
        cases he
    | stopped => exact (h.cleaning hcl).2.1

theorem quiescent_holds : (s.workers i).holds = none := by
  cases hspawned : s.spawned with
  | true => exact (finished_sent (quiescent_finished hq hspawned i)).2
  | false =>
    have hstarting := (h.unspawned hspawned).2 i
    cases hw : s.workers i with
    | starting => rfl
    | _ => simp [hw, isStarting] at hstarting

/-- A call that failed has released everything that was acquired for it. -/
theorem failed_released (hc : s.caller = .returned (.error cause)) (lease : Lease) :
    s.released.count lease = s.acquisitions lease := by
  have hb := h.accounts hc lease
  rw [quiescent_channel h hq hc] at hb
  have hworkers : ∑ i, single lease (s.workers i).holds = 0 := by
    refine Finset.sum_eq_zero fun i _ => ?_
    rw [quiescent_holds h hq]
    rfl
  simp only [Caller.count, map_nil, sum_nil] at hb
  omega

end

/-- A call that succeeded returns the leases of all targets in their order and has released none. -/
theorem succeeded_set (h : Invariant s) {set : List Lease} (hc : s.caller = .returned (.ok set)) :
    s.released = [] ∧ ∃ leases : Fin n → Lease, set = ofFn leases ∧ ∀ i,
      s.acquired i = some (leases i) := by
  obtain ⟨_, _, _, leases, hset, hleases⟩ := h.knows hc
  refine ⟨?_, leases, hset, hleases⟩
  refine eq_nil_iff_forall_not_mem.mpr fun lease hmem => ?_
  have hpositive := count_pos_iff.mpr hmem
  have hb := h.balance lease
  have hcount : set.count lease = s.acquisitions lease := by
    rw [hset, ← appendAcquiredLeases_full hleases, count_ofFn]
    rfl
  rw [hc] at hb
  simp only [Caller.count] at hb
  omega

/-- However the reports arrive and whenever the context ends: the program comes to rest within a
bounded number of steps and has then returned; no lease is released more often than it was
acquired; after a failure every acquired lease is released exactly as often; a success returns
one lease per target, in the order of the targets. -/
theorem fan_out_leaks_nothing (c : Call) :
    (∀ trace, (machine c.size Lease c).ValidTrace (initial c.size Lease) trace →
      trace.length ≤ 7 * c.size + 9) ∧
    ∀ s, (machine c.size Lease c).Reachable (· = initial c.size Lease) s →
      (Quiescent s → ∃ answer, s.caller = .returned answer) ∧
      (∀ lease, s.released.count lease ≤ s.acquisitions lease) ∧
      (∀ cause, s.caller = .returned (.error cause) → Quiescent s →
        ∀ lease, s.released.count lease = s.acquisitions lease) ∧
      (∀ set, s.caller = .returned (.ok set) →
        s.released = [] ∧ ∃ leases : Fin c.size → Lease, set = ofFn leases ∧
          ∀ i, s.acquired i = some (leases i)) := by
  refine ⟨fun trace htrace => trace_length c htrace, ?_⟩
  intro s hr
  have h := reachable_invariant hr
  refine ⟨quiescent_returned h, ?_, ?_, ?_⟩
  · intro lease
    have hb := h.balance lease
    omega
  · intro cause hc hq
    exact failed_released h hq hc
  · intro set
    exact succeeded_set h

end Accounts

/-! Three targets and a context that ends: one lease has been collected, one is in the channel,
one is acquired afterwards. -/

def demoCall : Call := ⟨["a", "b", "c"], ["a", "b", "c"], "deploy", true⟩

def demoTrace : List (Event 3 String) :=
  [.enter, .start 0, .start 1, .start 2, .acquire 0 (.ok "lease-a"), .recheck 0, .send 0, .receive,
    .acquire 1 (.ok "lease-b"), .recheck 1, .send 1, .cancel "context canceled", .abandon, .release,
    .answer, .acquire 2 (.ok "lease-c"), .recheck 2, .clean, .send 2, .finish 0, .finish 1,
    .finish 2, .observe, .clean, .stop]

def demoEnd : State 3 String := (machine 3 String demoCall).runTrace (initial 3 String) demoTrace

theorem fan_out_leaks_nothing_cancelled :
    (∃ cause, demoEnd.caller = .returned (.error cause)) ∧
      demoEnd.released = ["lease-a", "lease-c", "lease-b"] ∧
      ∀ lease, demoEnd.released.count lease = demoEnd.acquisitions lease := by
  have hreach : (machine 3 String demoCall).Reachable (· = initial 3 String) demoEnd :=
    .of_trace (by rfl) demoTrace (by decide +kernel)
  have hcaller : demoEnd.caller = .returned (.error (contextFailure "deploy" "context canceled")) :=
    rfl
  have hrest : Quiescent demoEnd := by
    refine quiescent_of_rest ?_ hcaller (.inr ?_)
    · decide +kernel
    · decide +kernel
  exact ⟨⟨_, hcaller⟩, by decide +kernel,
    ((fan_out_leaks_nothing demoCall).2 demoEnd hreach).2.2.1 _ hcaller hrest⟩

end LeaseFanOut
