import Mathlib.Algebra.Ring.Nat
import Mathlib.Data.List.Induction
import RecordGateway.Shutdown

/-!
# No signal is lost or invented

What a subscriber is told is settled by two things that can be counted on a run: the signals sent on
its channel since it came about (`Shutdown.sent`), and those that it has been told of
(`Shutdown.taken`), as received or as missed. The first are always the second and those that wait
(`sent_eq`), and the ones that wait are told as a `backlog` (`told_still`): that all but the last
are missed, then the last, then nothing.

`Shutdown.reliable` puts this together for every subscription of every run, with what a trigger
without subscribers does and how many subscribers there are.
-/

namespace RecordGateway

/-! ## Receptions -/

namespace Reception

/-- How many signals a reception is about. -/
def taken : Reception → Nat
  | signal => 1
  | missed k => k
  | nothing | dropped => 0

/-- Whether one who waits for a signal goes on with the reception. -/
def completes : Reception → Bool
  | signal | missed _ => true
  | nothing | dropped => false

/-- What a subscriber is told for whom `k` signals wait. -/
def ofWaiting : Nat → Reception
  | 0 => nothing
  | 1 => signal
  | k + 2 => missed (k + 1)

/-- What a subscriber is told for whom `k` signals wait, until nothing waits. -/
def backlog : Nat → List Reception
  | 0 => []
  | 1 => [signal]
  | k + 2 => [missed (k + 1), signal]

/-- The first `n` receptions of a subscriber for whom `k` signals wait, if no more come. -/
def replies (k n : Nat) : List Reception := (backlog k ++ List.replicate n nothing).take n

theorem completes_ofWaiting (k : Nat) : (ofWaiting k).completes = true ↔ 0 < k := by
  match k with
  | 0 | 1 | k + 2 => simp [ofWaiting, completes]

theorem taken_ofWaiting_le (k : Nat) : (ofWaiting k).taken ≤ k := by
  match k with
  | 0 | 1 | k + 2 => simp [ofWaiting, taken]

/-- The first reply is about what waits, the others about what it leaves. -/
theorem replies_succ (k n : Nat) :
    replies k (n + 1) = ofWaiting k :: replies (k - (ofWaiting k).taken) n := by
  match k with
  | 0 => simp [replies, backlog, ofWaiting, taken, List.replicate_succ]
  | 1 => simp [replies, backlog, ofWaiting, taken, List.take_replicate]
  | k + 2 =>
    have hone : k + 2 - (k + 1) = 1 := by omega
    cases n with
    | zero => rfl
    | succ n =>
      have hmin : min n (n + 2) = n := by omega
      simp [replies, backlog, ofWaiting, taken, hone, List.take_replicate, hmin]

end Reception

namespace Subscriber

theorem receive_eq (channel k : Nat) : receive ⟨channel, some k⟩ =
    (.ofWaiting k, ⟨channel, some (k - (Reception.ofWaiting k).taken)⟩) := by
  match k with
  | 0 | 1 => rfl
  | k + 2 =>
    have hone : k + 2 - (k + 1) = 1 := by omega
    simp [receive, Reception.ofWaiting, Reception.taken, hone]

@[simp]
theorem listensTo_notify (channel ch : Nat) (s : Subscriber) :
    (s.notify ch).listensTo channel = s.listensTo channel := by
  unfold notify
  split <;> simp [listensTo]

@[simp]
theorem listensTo_receive (channel : Nat) (s : Subscriber) :
    s.receive.2.listensTo channel = s.listensTo channel := by
  obtain ⟨ch, w⟩ := s
  cases w with
  | none => rfl
  | some k => simp [receive_eq, listensTo]

@[simp]
theorem listensTo_drop (channel : Nat) (s : Subscriber) : s.drop.listensTo channel = false := by
  simp [drop, listensTo]

end Subscriber

namespace Shutdown

/-! ## Runs -/

/-- The coordinators and subscribers after some steps. -/
def after (s : Shutdown) (sts : List Step) : Shutdown := sts.foldl (fun s st => (s.step st).2) s

/-- Whether a step sends a signal on a channel. -/
def signals (s : Shutdown) (channel : Nat) : Step → Bool
  | .trigger c => s.coordinators[c]? == some channel
  | _ => false

/-- How many signals are sent on a channel by some steps. -/
def sent (s : Shutdown) (channel : Nat) : List Step → Nat
  | [] => 0
  | st :: sts => (s.signals channel st).toNat + sent (s.step st).2 channel sts

/-- The reception in the result of a step, if it is for the subscriber. -/
def receptionFor? (r : Nat) : Step × StepResult × List Nat → Option Reception
  | (.receive r', .reception x, _) => if r' = r then some x else none
  | _ => none

/-- What a subscriber is told in a run. -/
def told (s : Shutdown) (r : Nat) (sts : List Step) : List Reception :=
  (sts.zip (s.run sts)).filterMap (receptionFor? r)

/-- How many signals a subscriber has been told of in a run. -/
def taken (s : Shutdown) (r : Nat) (sts : List Step) : Nat :=
  ((s.told r sts).map Reception.taken).sum

section
variable {s : Shutdown} {st : Step} {sts : List Step} {r channel k : Nat}

theorem after_append (xs ys : List Step) : s.after (xs ++ ys) = (s.after xs).after ys :=
  List.foldl_append

theorem told_cons : s.told r (st :: sts) =
    (receptionFor? r (st, (s.step st).1, (s.step st).2.counts)).toList ++
      (s.step st).2.told r sts := by
  simp only [told, run, List.zip_cons_cons, List.filterMap_cons]
  cases receptionFor? r (st, (s.step st).1, (s.step st).2.counts) <;> rfl

/-! ## One step -/

/-- The subscriber is there, and so many signals wait for it. -/
def Waits (s : Shutdown) (r channel k : Nat) : Prop := s.subscribers[r]? = some ⟨channel, some k⟩

/-- What a step does to a subscriber: a signal on its channel is one more that waits, and a
reception takes those that it is about. -/
theorem waits_step (h : s.Waits r channel k) (hd : st ≠ .drop r) :
    (s.step st).2.Waits r channel (k + (s.signals channel st).toNat -
      if st = .receive r then (Reception.ofWaiting k).taken else 0) := by
  have hlt : r < s.subscribers.length := (List.getElem?_eq_some_iff.1 h).1
  unfold Waits at h ⊢
  cases st with
  | subscribe c =>
    simp only [step, signals]
    cases s.coordinators[c]? with
    | none => simpa using h
    | some ch => simpa [List.getElem?_append_left hlt] using h
  | trigger c =>
    simp only [step, signals]
    cases s.coordinators[c]? with
    | none => simpa using h
    | some ch =>
      by_cases hch : channel = ch
      · simp [h, Subscriber.notify, hch]
      · simp [h, Subscriber.notify, hch, Ne.symm hch]
  | clone c =>
    simp only [step, signals]
    cases s.coordinators[c]? <;> simpa using h
  | create => simpa [step, signals] using h
  | drop r' =>
    have hr : r' ≠ r := fun he => hd (he ▸ rfl)
    simpa [step, signals, update, List.getElem?_modify, hr] using h
  | receive r' =>
    by_cases hr : r' = r
    · subst hr
      simp [step, signals, h, update, Subscriber.receive_eq]
    · cases hsub : s.subscribers[r']? with
      | none => simp [step, signals, hsub, hr, h]
      | some sub => simp [step, signals, hsub, update, hr, h]

/-- A subscriber is told something when it asks. -/
theorem receptionFor?_step (h : s.Waits r channel k) :
    receptionFor? r (st, (s.step st).1, (s.step st).2.counts) =
      if st = .receive r then some (.ofWaiting k) else none := by
  cases st with
  | receive r' =>
    by_cases hr : r' = r
    · subst hr
      simp only [Waits] at h
      simp [step, h, receptionFor?, Subscriber.receive_eq]
    · simp only [step]
      cases s.subscribers[r']? <;> simp [receptionFor?, hr]
  | _ => simp [receptionFor?]

/-! ## Runs of a subscriber -/

/-- Every signal that was waiting or is sent is told of or waiting. -/
theorem sent_eq (h : s.Waits r channel k) (hd : .drop r ∉ sts) :
    ∃ k', (s.after sts).Waits r channel k' ∧ k + s.sent channel sts = s.taken r sts + k' := by
  induction sts generalizing s k with
  | nil => exact ⟨k, h, by simp [sent, taken, told, run]⟩
  | cons st sts ih =>
    obtain ⟨hst, hsts⟩ := not_or.1 (List.mem_cons.not.1 hd)
    obtain ⟨k', hk, hsum⟩ := ih (waits_step h (Ne.symm hst)) hsts
    refine ⟨k', hk, ?_⟩
    have hle := Reception.taken_ofWaiting_le k
    have htold : receptionFor? r (st, (s.step st).1, (s.step st).2.counts) = _ :=
      receptionFor?_step h
    simp only [taken, sent, told_cons, htold] at hsum ⊢
    by_cases hr : st = .receive r
    · simp only [hr, if_true, Option.toList_some, List.cons_append, List.map_cons, List.sum_cons,
        List.nil_append] at hsum ⊢
      omega
    · simp only [hr, if_false, Option.toList_none, List.nil_append] at hsum ⊢
      omega

/-- Without further signals, a subscriber is told its backlog and then nothing. -/
theorem told_still (h : s.Waits r channel k) (hd : .drop r ∉ sts) (hs : s.sent channel sts = 0) :
    s.told r sts = Reception.replies k (sts.count (Step.receive r)) := by
  induction sts generalizing s k with
  | nil => rfl
  | cons st sts ih =>
    obtain ⟨hst, hsts⟩ := not_or.1 (List.mem_cons.not.1 hd)
    obtain ⟨hsignal, hsent⟩ := Nat.add_eq_zero_iff.1 hs
    have hwaits := waits_step h (Ne.symm hst)
    rw [hsignal, Nat.add_zero] at hwaits
    rw [told_cons, receptionFor?_step h, ih hwaits hsts hsent]
    by_cases hr : st = .receive r
    · simp [hr, Reception.replies_succ]
    · simp [hr]

end

/-! ## Who is there -/

section
variable {s : Shutdown} {st : Step} {sts : List Step} {r channel : Nat}

/-- A coordinator keeps its channel. -/
theorem coordinators_after {c : Nat} (h : s.coordinators[c]? = some channel) :
    (s.after sts).coordinators[c]? = some channel := by
  induction sts generalizing s with
  | nil => exact h
  | cons st sts ih =>
    refine ih ?_
    have hlt : c < s.coordinators.length := (List.getElem?_eq_some_iff.1 h).1
    cases st with
    | clone c' =>
      simp only [step]
      cases s.coordinators[c']? with
      | none => exact h
      | some ch => simpa [List.getElem?_append_left hlt] using h
    | create => simpa [step, List.getElem?_append_left hlt] using h
    | subscribe c' | trigger c' =>
      simp only [step]
      cases s.coordinators[c']? <;> exact h
    | drop r => exact h
    | receive r =>
      simp only [step]
      cases s.subscribers[r]? <;> exact h

/-- Whether a number is that of a subscriber of a channel that is still there. -/
def listens (s : Shutdown) (channel r : Nat) : Bool :=
  s.subscribers[r]?.any (·.listensTo channel)

/-- One is there after a step who was there before and is not dropped, or has just come. -/
theorem listens_step : (s.step st).2.listens channel r = true ↔
    s.listens channel r = true ∧ st ≠ .drop r ∨
      ∃ c, st = .subscribe c ∧ s.coordinators[c]? = some channel ∧ r = s.subscribers.length := by
  cases st with
  | subscribe c =>
    cases hc : s.coordinators[c]? with
    | none => simp [step, hc]
    | some ch =>
      rcases Nat.lt_trichotomy r s.subscribers.length with hr | rfl | hr
      · simp [step, hc, listens, List.getElem?_append_left hr, Nat.ne_of_lt hr]
      · simp [step, hc, listens, Subscriber.listensTo]
      · have hnone : s.subscribers[r]? = none := List.getElem?_eq_none (Nat.le_of_lt hr)
        have hend : 0 < r - s.subscribers.length := by omega
        simp [step, hc, listens, List.getElem?_append_right (Nat.le_of_lt hr), hnone,
          Nat.ne_of_gt hr, Nat.ne_of_gt hend]
  | trigger c =>
    cases hc : s.coordinators[c]? <;> simp [step, hc, listens, Option.any_map]
  | clone c => cases hc : s.coordinators[c]? <;> simp [step, hc, listens]
  | create => simp [step, listens]
  | drop r' =>
    by_cases hr : r' = r
    · subst hr
      cases hsub : s.subscribers[r']? <;> simp [step, listens, update, hsub]
    · simp [step, listens, update, hr]
  | receive r' =>
    cases hsub : s.subscribers[r']? with
    | none => simp [step, hsub]
    | some sub =>
      by_cases hr : r' = r
      · subst hr
        simp [step, listens, update, hsub]
      · simp [step, listens, update, hsub, hr]

end

/-- One of the steps brings a subscriber of the channel about that has the number, and no later step
drops it. -/
def Remains (steps : List Step) (channel r : Nat) : Prop :=
  ∃ before c since, steps = before ++ .subscribe c :: since ∧
    (after {} before).coordinators[c]? = some channel ∧
    ((after {} before).step (.subscribe c)).1 = .number r ∧ .drop r ∉ since

theorem number_subscribe {s : Shutdown} {c channel : Nat} (h : s.coordinators[c]? = some channel)
    (r : Nat) : (s.step (.subscribe c)).1 = .number r ↔ r = s.subscribers.length := by
  simp [step, h, eq_comm]

theorem remains_concat {steps : List Step} {st : Step} {channel r : Nat} :
    Remains (steps ++ [st]) channel r ↔ Remains steps channel r ∧ st ≠ .drop r ∨
      ∃ c, st = .subscribe c ∧ (after {} steps).coordinators[c]? = some channel ∧
        r = (after {} steps).subscribers.length := by
  constructor
  · rintro ⟨before, c, since, heq, hc, hr, hd⟩
    rcases List.eq_nil_or_concat since with rfl | ⟨since, x, rfl⟩
    · obtain ⟨rfl, rfl⟩ := List.append_singleton_inj.1 heq
      exact .inr ⟨c, rfl, hc, (number_subscribe hc r).1 hr⟩
    · rw [List.concat_eq_append, ← List.cons_append, ← List.append_assoc] at heq
      obtain ⟨rfl, rfl⟩ := List.append_singleton_inj.1 heq
      simp only [List.concat_eq_append, List.mem_append, List.mem_singleton, not_or] at hd
      exact .inl ⟨⟨before, c, since, rfl, hc, hr, hd.1⟩, Ne.symm hd.2⟩
  · rintro (⟨⟨before, c, since, rfl, hc, hr, hd⟩, hst⟩ | ⟨c, rfl, hc, hr⟩)
    · refine ⟨before, c, since ++ [st], by simp, hc, hr, ?_⟩
      simpa using ⟨hd, Ne.symm hst⟩
    · exact ⟨steps, c, [], rfl, hc, (number_subscribe hc r).2 hr, List.not_mem_nil⟩

/-- Those who are there are those who have come and were not dropped since. -/
theorem listens_after (steps : List Step) (channel r : Nat) :
    (after {} steps).listens channel r = true ↔ Remains steps channel r := by
  induction steps using List.reverseRecOn with
  | nil => simp [Remains, after, listens]
  | append_singleton steps st ih =>
    rw [remains_concat, after_append, ← ih]
    exact listens_step

theorem countP_eq_length_range {α : Type} (p : α → Bool) (l : List α) :
    l.countP p = ((List.range l.length).filter fun i => l[i]?.any p).length := by
  induction l with
  | nil => rfl
  | cons a l ih =>
    rw [List.countP_cons, ih, List.length_cons, List.range_succ_eq_map, List.filter_cons,
      List.filter_map]
    cases hp : p a <;> simp [Function.comp_def, hp]

/-! ## What one can rely on -/

/-- Since a subscription, which led to the state `s`, the steps leave `k` signals to hear of. -/
structure Heard (s : Shutdown) (channel r : Nat) (since : List Step) (k : Nat) : Prop where
  /-- A signal that was sent has been told of, as received or as missed, or it is left. -/
  sent : s.sent channel since = s.taken r since + k
  /-- To ask for a signal completes if and only if one is left. -/
  completes : ∃ x, ((s.after since).step (.receive r)).1 = .reception x ∧
    (x.completes = true ↔ 0 < k)
  /-- Until the next signal, those that are left are told: of several, that all but one are missed,
  then the one, then nothing. -/
  replies : ∀ still, .drop r ∉ still → (s.after since).sent channel still = 0 →
    (s.after since).told r still = Reception.replies k (still.count (Step.receive r))

/-- What a coordinator promises that has a channel after some steps. -/
structure Reliable (before : List Step) (c channel : Nat) : Prop where
  /-- Whoever subscribes hears of all signals of the channel from then on, until it is dropped. -/
  hears : ∃ r, ((after {} before).step (.subscribe c)).1 = .number r ∧
    ∀ since, .drop r ∉ since →
      ∃ k, Heard ((after {} before).step (.subscribe c)).2 channel r since k
  /-- A signal to nobody changes nothing. -/
  harmless : (after {} before).receiverCount channel = 0 →
    (after {} before).step (.trigger c) = (.none, after {} before)
  /-- As many subscribers are counted as have come and were not dropped since. -/
  counts : ∃ rs : List Nat, rs.Nodup ∧ (∀ r, r ∈ rs ↔ Remains before channel r) ∧
    (after {} before).receiverCount channel = rs.length
  /-- The coordinator keeps its channel, and its clones share it. -/
  shares : ∀ since, (after {} (before ++ since)).coordinators[c]? = some channel ∧
    ∃ n, ((after {} (before ++ since)).step (.clone c)).1 = .number n ∧
      ((after {} (before ++ since)).step (.clone c)).2.coordinators[n]? = some channel

section
variable {s : Shutdown} {c r channel : Nat}

theorem waits_subscribe (h : s.coordinators[c]? = some channel) :
    (s.step (.subscribe c)).2.Waits s.subscribers.length channel 0 := by
  simp [Waits, step, h]

theorem heard (h : s.Waits r channel 0) {since : List Step} (hd : .drop r ∉ since) :
    ∃ k, Heard s channel r since k := by
  obtain ⟨k, hk, hsum⟩ := sent_eq h hd
  refine ⟨k, by omega, ⟨.ofWaiting k, ?_, Reception.completes_ofWaiting k⟩,
    fun still => told_still hk⟩
  simp only [Waits] at hk
  simp [step, hk, Subscriber.receive_eq]

theorem trigger_of_receiverCount (h : s.coordinators[c]? = some channel)
    (hn : s.receiverCount channel = 0) : s.step (.trigger c) = (.none, s) := by
  have hsame : ∀ sub ∈ s.subscribers, sub.notify channel = sub := by
    intro sub hsub
    have hnot : sub.listensTo channel = false := by simpa using List.countP_eq_zero.1 hn sub hsub
    obtain ⟨ch, w⟩ := sub
    unfold Subscriber.notify
    split
    · cases w with
      | none => rfl
      | some k => simp_all [Subscriber.listensTo]
    · rfl
  have hmap : s.subscribers.map (Subscriber.notify channel) = s.subscribers :=
    (List.map_congr_left hsame).trans (List.map_id _)
  simp only [step, h, hmap]

end

/-- Whatever steps are made, in whatever order. -/
theorem reliable (before : List Step) {c channel : Nat}
    (h : (after {} before).coordinators[c]? = some channel) : Reliable before c channel := by
  refine ⟨⟨_, (number_subscribe h _).2 rfl, fun since hd => heard (waits_subscribe h) hd⟩,
    trigger_of_receiverCount h, ?_, fun since => ?_⟩
  · refine ⟨_, List.nodup_range.filter _, fun r => ?_, countP_eq_length_range _ _⟩
    rw [← listens_after, List.mem_filter, List.mem_range]
    refine ⟨fun hr => hr.2, fun hr => ⟨?_, hr⟩⟩
    by_contra hlt
    simp [listens, List.getElem?_eq_none (Nat.le_of_not_lt hlt)] at hr
  · have hc : (after {} (before ++ since)).coordinators[c]? = some channel := by
      rw [after_append]
      exact coordinators_after h
    exact ⟨hc, (after {} (before ++ since)).coordinators.length, by simp [step, hc],
      by simp [step, hc]⟩

/-- Two signals after a subscription at a clone, one from each coordinator: the first is missed, the
second received. The signal from before the subscription is not heard of. -/
theorem reliable_of_clone :
    (after {} [.subscribe 0, .trigger 0, .clone 0]).coordinators[1]? = some 0 ∧
      ∃ r, ((after {} [.subscribe 0, .trigger 0, .clone 0]).step (.subscribe 1)).1 = .number r ∧
        (((after {} [.subscribe 0, .trigger 0, .clone 0]).step (.subscribe 1)).2.after
          [.trigger 0, .trigger 1]).told r [.receive r, .receive r, .receive r] =
            [.missed 1, .signal, .nothing] := by
  have h : (after {} [.subscribe 0, .trigger 0, .clone 0]).coordinators[1]? = some 0 := rfl
  obtain ⟨r, hr, hears⟩ := (reliable [.subscribe 0, .trigger 0, .clone 0] h).hears
  obtain ⟨k, hk⟩ := hears [.trigger 0, .trigger 1] (by simp)
  obtain rfl : 1 = r := StepResult.number.inj hr
  obtain rfl : 2 = k := (hk.sent.trans (Nat.zero_add k))
  exact ⟨h, 1, hr, hk.replies [.receive 1, .receive 1, .receive 1] (by simp) rfl⟩

end Shutdown
end RecordGateway
