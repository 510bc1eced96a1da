import Mathlib.Algebra.Order.Group.Multiset
import Mathlib.Data.Multiset.Filter
import Msrt.Queues

/-! # The scheduler as a bag of events

For what may come out of it, the scheduler is the multiset of its queued events (`queued`).  A push
adds its event, or exchanges the queued write of the same key for it; a pop takes its event out.
Which of the four queues an event stands in matters to the order of the pops only.
-/

namespace Msrt

/-! ## One queue -/

namespace EventQueue

theorem toList_of_push {q q' : EventQueue} {event : EngineOutput} (h : push q event = .ok q') :
    RingQueue.toList q' = RingQueue.toList q ++ [event] := by
  unfold push at h
  split at h
  · cases h
  · obtain rfl := Except.ok.inj h
    exact RingQueue.toList_pushBack ..

theorem push_of_lt {q : EventQueue} (event : EngineOutput) (h : q.len < maxEvents) :
    ∃ q', push q event = .ok q' := by
  unfold push
  rw [dif_neg (by omega)]
  exact ⟨_, rfl⟩

theorem coe_toList_pop_some {q : EventQueue} {event : EngineOutput} (h : q.pop.1 = some event) :
    (RingQueue.toList q : Multiset EngineOutput) = event ::ₘ RingQueue.toList q.pop.2 := by
  have hhead : (RingQueue.toList q).head? = some event := (RingQueue.fst_pop q).symm.trans h
  have htail : RingQueue.toList q.pop.2 = (RingQueue.toList q).tail := RingQueue.toList_pop q
  rw [htail, Multiset.cons_coe, ← List.eq_cons_of_mem_head? hhead]

theorem toList_pop_none {q : EventQueue} (h : q.pop.1 = none) :
    RingQueue.toList q.pop.2 = RingQueue.toList q := by
  have hnil : RingQueue.toList q = [] :=
    List.head?_eq_none_iff.mp ((RingQueue.fst_pop q).symm.trans h)
  have htail : RingQueue.toList q.pop.2 = (RingQueue.toList q).tail := RingQueue.toList_pop q
  rw [htail, hnil]
  rfl

theorem replaceRedundantWrite_eq_none {q : EventQueue} {write : WriteEvent}
    (h : replaceRedundantWrite q (.write write) = none) :
    ∀ event ∈ RingQueue.toList q, event.redundantFor write = false := by
  rw [replaceRedundantWrite_write] at h
  exact List.findIdx?_eq_none_iff.mp (Option.map_eq_none_iff.mp h)

/-- The queued write of the same key is exchanged in its place. -/
theorem replaceRedundantWrite_split {q q' : EventQueue} {event : EngineOutput}
    (h : replaceRedundantWrite q event = some q') :
    ∃ write old before after, event = .write write ∧ old.key = write.key ∧
      RingQueue.toList q = before ++ .write old :: after ∧
      RingQueue.toList q' = before ++ .write write :: after := by
  cases event with
  | sendFailed e => cases h
  | write write =>
    rw [replaceRedundantWrite_write] at h
    obtain ⟨offset, hfind, rfl⟩ := Option.map_eq_some_iff.mp h
    obtain ⟨hlt, hred, -⟩ := List.findIdx?_eq_some_iff_getElem.mp hfind
    -- only a write is redundant for a write
    obtain ⟨old, hget, hkey⟩ : ∃ old, (RingQueue.toList q)[offset] = .write old ∧
        old.key = write.key := by
      cases hevent : (RingQueue.toList q)[offset] with
      | sendFailed e =>
        rw [hevent] at hred
        cases hred
      | write old =>
        rw [hevent] at hred
        exact ⟨old, rfl, eq_of_beq hred⟩
    refine ⟨write, old, (RingQueue.toList q).take offset, (RingQueue.toList q).drop (offset + 1),
      rfl, hkey, ?_, ?_⟩
    · rw [← hget, List.getElem_cons_drop, List.take_append_drop]
    · rw [RingQueue.toList_setAt, List.set_eq_take_append_cons_drop, if_pos hlt]

end EventQueue

/-! ## The scheduler -/

namespace SchedulerState

/-- The queued events, without their order. -/
def queued (s : SchedulerState) : Multiset EngineOutput :=
  (RingQueue.toList s.control : Multiset EngineOutput) + RingQueue.toList s.retransmit +
    RingQueue.toList s.newData + RingQueue.toList s.localQueue

/-- The events of one queue. -/
def events (s : SchedulerState) : QueueKind → List EngineOutput
  | .control => RingQueue.toList s.control
  | .retransmit => RingQueue.toList s.retransmit
  | .newData => RingQueue.toList s.newData
  | .local => RingQueue.toList s.localQueue

theorem card_queued (s : SchedulerState) : s.queued.card = s.len := by
  simp [queued, len, Nat.add_assoc]

theorem mem_queued_iff {s : SchedulerState} {event : EngineOutput} :
    event ∈ s.queued ↔ ∃ kind, event ∈ s.events kind := by
  simp only [queued, Multiset.mem_add, Multiset.mem_coe]
  constructor
  · rintro (((h | h) | h) | h)
    · exact ⟨.control, h⟩
    · exact ⟨.retransmit, h⟩
    · exact ⟨.newData, h⟩
    · exact ⟨.local, h⟩
  · rintro ⟨_ | _ | _ | _, h⟩
    · exact .inl (.inl (.inl h))
    · exact .inl (.inl (.inr h))
    · exact .inl (.inr h)
    · exact .inr h

/-- The events of the other three queues, without their order. -/
def others (s : SchedulerState) : QueueKind → Multiset EngineOutput
  | .control => s.events .retransmit + s.events .newData + s.events .local
  | .retransmit => s.events .control + s.events .newData + s.events .local
  | .newData => s.events .control + s.events .retransmit + s.events .local
  | .local => s.events .control + s.events .retransmit + s.events .newData

theorem queued_eq_add_others (s : SchedulerState) (kind : QueueKind) :
    s.queued = s.events kind + s.others kind := by
  cases kind with
  | control => simp only [queued, events, others, add_assoc]
  | retransmit => simp only [queued, events, others, add_assoc, add_left_comm]
  | newData =>
    rw [others, add_comm, add_right_comm]
    rfl
  | «local» =>
    rw [others, add_comm]
    rfl

theorem others_congr {s s' : SchedulerState} {kind : QueueKind}
    (h : ∀ other, other ≠ kind → s'.events other = s.events other) :
    s'.others kind = s.others kind := by
  cases kind with
  | control => rw [others, others, h .retransmit nofun, h .newData nofun, h .local nofun]
  | retransmit => rw [others, others, h .control nofun, h .newData nofun, h .local nofun]
  | newData => rw [others, others, h .control nofun, h .retransmit nofun, h .local nofun]
  | «local» => rw [others, others, h .control nofun, h .retransmit nofun, h .newData nofun]

@[simp] theorem queued_new : SchedulerState.new.queued = 0 := rfl

/-- The failure an event reports. -/
def failure? : EngineOutput → Option SendFailedEvent
  | .sendFailed event => some event
  | .write _ => none

/-- The queued failures, without their order. -/
def failures (s : SchedulerState) : Multiset SendFailedEvent := s.queued.filterMap failure?

theorem failures_of_queued_write {s : SchedulerState} {write : WriteEvent}
    {rest : Multiset EngineOutput} (h : s.queued = .write write ::ₘ rest) :
    s.failures = rest.filterMap failure? := by
  rw [failures, h, Multiset.filterMap_cons_none _ _ rfl]

theorem failures_write {s s' : SchedulerState} {write : WriteEvent}
    (h : s'.queued = .write write ::ₘ s.queued) : s'.failures = s.failures :=
  failures_of_queued_write h

theorem failures_sendFailed {s s' : SchedulerState} {event : SendFailedEvent}
    (h : s'.queued = .sendFailed event ::ₘ s.queued) : s'.failures = event ::ₘ s.failures := by
  rw [failures, h, Multiset.filterMap_cons_some failure? (.sendFailed event) _ rfl, failures]

/-- What a push does to the queued events. -/
inductive Pushed (s : SchedulerState) (event : EngineOutput) (s' : SchedulerState) : Prop
  | replaced (write old : WriteEvent) (rest : Multiset EngineOutput) :
      event = .write write → old.key = write.key → s.queued = .write old ::ₘ rest →
      s'.queued = .write write ::ₘ rest → Pushed s event s'
  | added : (∀ write, event = .write write → ∀ e ∈ s.queued, e.redundantFor write = false) →
      s.len < maxEvents → s'.queued = event ::ₘ s.queued → Pushed s event s'

theorem Pushed.len_le {s s' : SchedulerState} {event : EngineOutput}
    (h : Pushed s event s') : s'.len ≤ s.len + 1 := by
  rw [← s.card_queued, ← s'.card_queued]
  cases h with
  | replaced write old rest _ _ ho hn =>
    rw [ho, hn, Multiset.card_cons, Multiset.card_cons]
    omega
  | added _ _ hq => rw [hq, Multiset.card_cons]

theorem Pushed.mem {s s' : SchedulerState} {event e : EngineOutput}
    (h : Pushed s event s') (he : e ∈ s'.queued) : e = event ∨ e ∈ s.queued := by
  cases h with
  | replaced write old rest hw _ ho hn =>
    rw [hn, Multiset.mem_cons] at he
    rw [ho, Multiset.mem_cons, hw]
    exact he.imp_right .inr
  | added _ _ hq =>
    rw [hq, Multiset.mem_cons] at he
    exact he

/-- A pushed write leaves the queued failures alone. -/
theorem Pushed.failures_eq {s s' : SchedulerState} {write : WriteEvent}
    (h : Pushed s (.write write) s') : s'.failures = s.failures := by
  cases h with
  | replaced w old rest hw _ ho hn =>
    rw [failures_of_queued_write ho, failures_of_queued_write hn]
  | added _ _ hq => exact failures_write hq

/-- The queued write of the same key is exchanged in its place, in the queue it stands in. -/
theorem replaceRedundantWrite_split {s s' : SchedulerState} {event : EngineOutput}
    (h : s.replaceRedundantWrite event = some s') :
    ∃ kind write old before after, event = .write write ∧ old.key = write.key ∧
      s.events kind = before ++ .write old :: after ∧
      s'.events kind = before ++ .write write :: after ∧
      ∀ other, other ≠ kind → s'.events other = s.events other := by
  unfold replaceRedundantWrite at h
  split at h
  · rename_i hq
    obtain ⟨write, old, before, after, he, hk, ho, hn⟩ := EventQueue.replaceRedundantWrite_split hq
    obtain rfl := Option.some.inj h
    refine ⟨.control, write, old, before, after, he, hk, ho, hn, ?_⟩
    intro other hne
    cases other <;> first | exact absurd rfl hne | rfl
  · split at h
    · rename_i hq
      obtain ⟨write, old, before, after, he, hk, ho, hn⟩ := EventQueue.replaceRedundantWrite_split hq
      obtain rfl := Option.some.inj h
      refine ⟨.retransmit, write, old, before, after, he, hk, ho, hn, ?_⟩
      intro other hne
      cases other <;> first | exact absurd rfl hne | rfl
    · split at h
      · rename_i hq
        obtain ⟨write, old, before, after, he, hk, ho, hn⟩ :=
          EventQueue.replaceRedundantWrite_split hq
        obtain rfl := Option.some.inj h
        refine ⟨.newData, write, old, before, after, he, hk, ho, hn, ?_⟩
        intro other hne
        cases other <;> first | exact absurd rfl hne | rfl
      · split at h
        · rename_i hq
          obtain ⟨write, old, before, after, he, hk, ho, hn⟩ :=
            EventQueue.replaceRedundantWrite_split hq
          obtain rfl := Option.some.inj h
          refine ⟨.local, write, old, before, after, he, hk, ho, hn, ?_⟩
          intro other hne
          cases other <;> first | exact absurd rfl hne | rfl
        · cases h

theorem replaceRedundantWrite_eq_some {s s' : SchedulerState} {event : EngineOutput}
    (h : s.replaceRedundantWrite event = some s') :
    ∃ write old rest, event = .write write ∧ old.key = write.key ∧
      s.queued = .write old ::ₘ rest ∧ s'.queued = .write write ::ₘ rest := by
  obtain ⟨kind, write, old, before, after, he, hkey, hold, hnew, hothers⟩ :=
    replaceRedundantWrite_split h
  -- a write in the middle of its queue, beside the events around it and those of the other queues
  have hmiddle (w : WriteEvent) : ((before ++ .write w :: after : List EngineOutput) :
      Multiset EngineOutput) = .write w ::ₘ (before ++ after : List EngineOutput) := by
    rw [Multiset.cons_coe, Multiset.coe_eq_coe]
    exact List.perm_middle
  refine ⟨write, old, (before ++ after : List EngineOutput) + s.others kind, he, hkey, ?_, ?_⟩
  · rw [s.queued_eq_add_others kind, hold, hmiddle, Multiset.cons_add]
  · rw [s'.queued_eq_add_others kind, others_congr hothers, hnew, hmiddle, Multiset.cons_add]

theorem replaceRedundantWrite_eq_none {s : SchedulerState} {write : WriteEvent}
    (h : s.replaceRedundantWrite (.write write) = none) :
    ∀ event ∈ s.queued, event.redundantFor write = false := by
  unfold replaceRedundantWrite at h
  split at h
  · cases h
  · rename_i hc
    split at h
    · cases h
    · rename_i hr
      split at h
      · cases h
      · rename_i hn
        split at h
        · cases h
        · rename_i hl
          intro event hevent
          simp only [queued, Multiset.mem_add, Multiset.mem_coe] at hevent
          rcases hevent with ((he | he) | he) | he
          · exact EventQueue.replaceRedundantWrite_eq_none hc event he
          · exact EventQueue.replaceRedundantWrite_eq_none hr event he
          · exact EventQueue.replaceRedundantWrite_eq_none hn event he
          · exact EventQueue.replaceRedundantWrite_eq_none hl event he

theorem fresh_of_replaceRedundantWrite {s : SchedulerState} {event : EngineOutput}
    (h : s.replaceRedundantWrite event = none) (write : WriteEvent) (hwrite : event = .write write) :
    ∀ e ∈ s.queued, e.redundantFor write = false := by
  subst hwrite
  exact replaceRedundantWrite_eq_none h

theorem push_of_replaced {s s' : SchedulerState} {event : EngineOutput}
    (h : s.replaceRedundantWrite event = some s') : s.push event = .ok s' := by
  unfold push
  rw [h]

theorem push_of_full {s : SchedulerState} {event : EngineOutput}
    (hfresh : s.replaceRedundantWrite event = none) (hfull : s.len = maxEvents) :
    s.push event = .error .engine := by
  unfold push
  rw [hfresh]
  exact dif_pos hfull

/-- An event of a fresh key goes behind the others of its queue. -/
theorem push_of_room {s : SchedulerState} {event : EngineOutput}
    (hfresh : s.replaceRedundantWrite event = none) (hroom : s.len < maxEvents) :
    ∃ s', s.push event = .ok s' ∧
      s'.events (queueForEvent event) = s.events (queueForEvent event) ++ [event] ∧
      ∀ other, other ≠ queueForEvent event → s'.events other = s.events other := by
  have haccepts : ∀ q : EventQueue, q.len ≤ s.len → ∀ e, EventQueue.push q event ≠ .error e := by
    intro q hq e hpush
    obtain ⟨q', hq'⟩ := EventQueue.push_of_lt event (Nat.lt_of_le_of_lt hq hroom)
    rw [hpush] at hq'
    cases hq'
  unfold len at haccepts
  unfold push
  rw [hfresh]
  dsimp only
  rw [dif_neg (Nat.ne_of_lt hroom)]
  split
  · rename_i hkind
    rw [hkind]
    split
    · rename_i hq
      exact absurd hq (haccepts _ (by omega) _)
    · rename_i hq
      refine ⟨_, rfl, EventQueue.toList_of_push hq, ?_⟩
      intro other hne
      cases other <;> first | exact absurd rfl hne | rfl
  · rename_i hkind
    rw [hkind]
    split
    · rename_i hq
      exact absurd hq (haccepts _ (by omega) _)
    · rename_i hq
      refine ⟨_, rfl, EventQueue.toList_of_push hq, ?_⟩
      intro other hne
      cases other <;> first | exact absurd rfl hne | rfl
  · rename_i hkind
    rw [hkind]
    split
    · rename_i hq
      exact absurd hq (haccepts _ (by omega) _)
    · rename_i hq
      refine ⟨_, rfl, EventQueue.toList_of_push hq, ?_⟩
      intro other hne
      cases other <;> first | exact absurd rfl hne | rfl
  · rename_i hkind
    rw [hkind]
    split
    · rename_i hq
      exact absurd hq (haccepts _ (by omega) _)
    · rename_i hq
      refine ⟨_, rfl, EventQueue.toList_of_push hq, ?_⟩
      intro other hne
      cases other <;> first | exact absurd rfl hne | rfl

theorem eq_of_push_of_replaced {s s₁ s' : SchedulerState} {event : EngineOutput}
    (hreplaced : s.replaceRedundantWrite event = some s₁) (h : s.push event = .ok s') :
    s₁ = s' := by
  rw [push_of_replaced hreplaced] at h
  exact Except.ok.inj h

theorem appended_of_push {s s' : SchedulerState} {event : EngineOutput}
    (hfresh : s.replaceRedundantWrite event = none) (h : s.push event = .ok s') :
    s.len < maxEvents ∧
      s'.events (queueForEvent event) = s.events (queueForEvent event) ++ [event] ∧
      ∀ other, other ≠ queueForEvent event → s'.events other = s.events other := by
  have hroom : s.len < maxEvents := by
    apply Nat.lt_of_le_of_ne s.len_le
    intro hfull
    rw [push_of_full hfresh hfull] at h
    cases h
  obtain ⟨s₁, hpush, hqueue, hothers⟩ := push_of_room hfresh hroom
  rw [hpush] at h
  obtain rfl := Except.ok.inj h
  exact ⟨hroom, hqueue, hothers⟩

/-- A push that is not refused. -/
theorem push_eq_ok {s s' : SchedulerState} {event : EngineOutput} (h : s.push event = .ok s') :
    Pushed s event s' := by
  cases hreplaced : s.replaceRedundantWrite event with
  | some s₁ =>
    obtain rfl := eq_of_push_of_replaced hreplaced h
    obtain ⟨write, old, rest, he, hk, ho, hn⟩ := replaceRedundantWrite_eq_some hreplaced
    exact .replaced write old rest he hk ho hn
  | none =>
    obtain ⟨hroom, hqueue, hothers⟩ := appended_of_push hreplaced h
    refine .added (fresh_of_replaceRedundantWrite hreplaced) hroom ?_
    rw [s'.queued_eq_add_others (queueForEvent event), others_congr hothers, hqueue,
      s.queued_eq_add_others (queueForEvent event), ← Multiset.coe_add, Multiset.coe_singleton,
      add_comm (s.events _ : Multiset EngineOutput), Multiset.singleton_add, Multiset.cons_add]

/-- A refused push met a full scheduler without a write of its key. -/
theorem push_eq_error {s : SchedulerState} {event : EngineOutput} {e : Error}
    (h : s.push event = .error e) :
    s.len = maxEvents ∧
      ∀ write, event = .write write → ∀ e ∈ s.queued, e.redundantFor write = false := by
  cases hreplaced : s.replaceRedundantWrite event with
  | some s₁ =>
    rw [push_of_replaced hreplaced] at h
    cases h
  | none =>
    refine ⟨?_, fresh_of_replaceRedundantWrite hreplaced⟩
    by_contra hfull
    obtain ⟨s₁, hpush, -⟩ := push_of_room hreplaced (Nat.lt_of_le_of_ne s.len_le hfull)
    rw [hpush] at h
    cases h

/-- A push that ignores refusal adds at most its own event. -/
theorem mem_pushIgnored {s : SchedulerState} {event e : EngineOutput}
    (he : e ∈ (s.pushIgnored event).queued) : e = event ∨ e ∈ s.queued := by
  unfold pushIgnored at he
  split at he
  · rename_i hpush
    exact (push_eq_ok hpush).mem he
  · exact .inr he

/-! ## Taking events out -/

theorem queued_popControl_some {s : SchedulerState} {event : EngineOutput}
    (h : s.control.pop.1 = some event) : s.queued = event ::ₘ s.popControl.queued := by
  simp only [queued, popControl, EventQueue.coe_toList_pop_some h, Multiset.cons_add]

theorem queued_popControl_none {s : SchedulerState} (h : s.control.pop.1 = none) :
    s.popControl.queued = s.queued := by
  simp only [queued, popControl, EventQueue.toList_pop_none h]

theorem queued_popRetransmit_some {s : SchedulerState} {event : EngineOutput}
    (h : s.retransmit.pop.1 = some event) : s.queued = event ::ₘ s.popRetransmit.queued := by
  simp only [queued, popRetransmit, EventQueue.coe_toList_pop_some h, Multiset.cons_add,
    Multiset.add_cons]

theorem queued_popRetransmit_none {s : SchedulerState} (h : s.retransmit.pop.1 = none) :
    s.popRetransmit.queued = s.queued := by
  simp only [queued, popRetransmit, EventQueue.toList_pop_none h]

theorem queued_popLocal_some {s : SchedulerState} {event : EngineOutput}
    (h : s.localQueue.pop.1 = some event) : s.queued = event ::ₘ s.popLocal.queued := by
  simp only [queued, popLocal, EventQueue.coe_toList_pop_some h, Multiset.add_cons]

theorem queued_popLocal_none {s : SchedulerState} (h : s.localQueue.pop.1 = none) :
    s.popLocal.queued = s.queued := by
  simp only [queued, popLocal, EventQueue.toList_pop_none h]

theorem queued_popNewData_some {s : SchedulerState} {event : EngineOutput}
    (h : s.newData.pop.1 = some event) : s.queued = event ::ₘ s.popNewData.queued := by
  simp only [queued, popNewData, EventQueue.coe_toList_pop_some h, Multiset.cons_add,
    Multiset.add_cons]

theorem queued_popNewData_none {s : SchedulerState} (h : s.newData.pop.1 = none) :
    s.popNewData.queued = s.queued := by
  simp only [queued, popNewData, EventQueue.toList_pop_none h]

theorem popUrgent_some {s : SchedulerState} {event : EngineOutput}
    (h : s.popUrgent.1 = some event) : s.queued = event ::ₘ s.popUrgent.2.queued := by
  unfold popUrgent at h ⊢
  split at h
  · rename_i e hc
    obtain rfl := Option.some.inj h
    exact queued_popControl_some hc
  · rename_i hc
    split at h
    · rename_i e hr
      obtain rfl := Option.some.inj h
      rw [← queued_popControl_none hc]
      exact queued_popRetransmit_some hr
    · rename_i hr
      rw [← queued_popControl_none hc, ← queued_popRetransmit_none hr]
      exact queued_popLocal_some h

theorem popUrgent_none {s : SchedulerState} (h : s.popUrgent.1 = none) :
    s.popUrgent.2.queued = s.queued := by
  unfold popUrgent at h ⊢
  split at h
  · cases h
  · rename_i hc
    split at h
    · cases h
    · rename_i hr
      rw [← queued_popControl_none hc, ← queued_popRetransmit_none hr]
      exact queued_popLocal_none h

end SchedulerState

end Msrt
