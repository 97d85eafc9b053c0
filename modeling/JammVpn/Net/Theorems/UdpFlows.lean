import JammVpn.Lib.Ipv6
import JammVpn.Net.Udp

namespace JammVpn.Udp

open Ip Machine

-- Every task that has not ended is the flow of its destination, until the association ends.
def Kept (s : State) : Prop :=
  s.closed = false → ∀ id f, s.tasks[id]? = some f → f.phase ≠ .ended →
    s.flows.get f.replyDst.display = some id

-- A datagram arrives while the queue of its flow is full.
def Overflows (peer : IpAddr) (s : State) (e : Event) : Prop :=
  ∃ d id f, Dispatches peer s e d ∧ s.flows.get d.key = some id ∧ s.tasks[id]? = some f ∧
    f.phase ≠ .ended ∧ flowQueue ≤ f.queue.length

-- The table has tasks under the texts of their destinations, and nothing under one that waits.
structure Table (s : State) : Prop where
  task  : ∀ key id, s.flows.get key = some id → ∃ f, s.tasks[id]? = some f ∧ f.replyDst.display = key
  waits : ∀ d, s.waits = some d → s.flows.get d.key = none

section

variable {s s' : State} {d : Datagram} {id : Nat} {f : Flow}

theorem getElem?_set_of_some {f' : Flow} (hf : s.tasks[id]? = some f) (j : Nat) :
    (s.tasks.set id f')[j]? = if j = id then some f' else s.tasks[j]? := by
  have hl := (List.getElem?_eq_some_iff.mp hf).1
  rw [List.getElem?_set]
  by_cases h : j = id
  case pos => simp [h, hl]
  case neg => simp [h, Ne.symm h]

-- A datagram is put into a flow that has room, or waits.
theorem dispatch_cases (h : Table s) :
    (∃ id f, s.flows.get d.key = some id ∧ s.tasks[id]? = some f ∧ f.phase ≠ .ended ∧
      f.queue.length < flowQueue ∧ s.dispatch d = s.put id f d) ∨
    (∀ id f, s.flows.get d.key = some id → s.tasks[id]? = some f →
      f.phase ≠ .ended → flowQueue ≤ f.queue.length) ∧ s.dispatch d = s.await d := by
  rw [State.dispatch]
  cases hg : s.flows.get d.key
  case none => exact .inr ⟨by simp, rfl⟩
  case some id =>
    have ⟨f, hf, _⟩ := h.task d.key id hg
    simp only [hf]
    by_cases hr : f.phase ≠ .ended ∧ f.queue.length < flowQueue
    case pos => exact .inl ⟨id, f, rfl, hf, hr.1, hr.2, if_pos hr⟩
    case neg =>
      refine .inr ⟨fun id' f' hi hf' hp => ?_, if_neg hr⟩
      cases hi
      cases hf.symm.trans hf'
      exact Nat.le_of_not_lt fun hl => hr ⟨hp, hl⟩

theorem Table.setTask (h : Table s) {f' : Flow} (hf : s.tasks[id]? = some f)
    (hr : f'.replyDst = f.replyDst) : Table (s.setTask id f') where
  task key j hj := by
    have ⟨g, hg, hk⟩ := h.task key j hj
    simp only [State.setTask, getElem?_set_of_some hf]
    by_cases he : j = id
    case pos =>
      cases hf.symm.trans (he ▸ hg)
      exact ⟨f', if_pos he, by rw [hr, hk]⟩
    case neg => exact ⟨g, by rw [if_neg he, hg], hk⟩
  waits := h.waits

theorem Table.put (h : Table s) (hf : s.tasks[id]? = some f) : Table (s.put id f d) :=
  have ht : Table (s.setTask id { f with queue := f.queue ++ [d.payload] }) := h.setTask hf rfl
  ⟨ht.task, ht.waits⟩

theorem Table.await (h : Table s) : Table (s.await d) where
  task key id hi := by
    rw [State.await, PartialMap.get_erase] at hi
    split at hi
    case isTrue  => cases hi
    case isFalse => exact h.task key id hi
  waits d' hd := by
    cases hd
    rw [State.await, PartialMap.get_erase, if_pos rfl]

theorem Table.spawn (h : Table s) : Table (s.spawn d) where
  task key id hi := by
    rw [State.spawn, PartialMap.get_insert] at hi
    split at hi
    case isTrue hk =>
      cases hi
      exact ⟨_, List.getElem?_concat_length, hk.symm⟩
    case isFalse =>
      have ⟨f, hf, hk⟩ := h.task key id hi
      have hl := (List.getElem?_eq_some_iff.mp hf).1
      exact ⟨f, by rw [State.spawn, List.getElem?_append_left hl, hf], hk⟩
  waits _ hd := by cases hd

theorem table_close (s : State) : Table s.close where
  task _ _ hi := by cases hi
  waits _ _ := rfl

theorem Table.dispatch (h : Table s) : Table (s.dispatch d) := by
  obtain ⟨id, f, _, hf, _, _, he⟩ | ⟨_, he⟩ := dispatch_cases (d := d) h
  case inl => exact he ▸ h.put hf
  case inr => exact he ▸ h.await

theorem Table.change (h : Table s) (hc : Change s s') : Table s' := by
  cases hc
  case client c              => exact ⟨h.task, h.waits⟩
  case close c               => exact table_close _
  case spawn d hw            => exact h.spawn
  case drop                  => exact ⟨h.task, by simp⟩
  case task id f f' hf hp hr => exact h.setTask hf hr
  case reply id f payload hf => exact ⟨h.task, h.waits⟩

theorem Kept.setTask (h : Kept s) {f' : Flow} (hf : s.tasks[id]? = some f) (hp : f.phase ≠ .ended)
    (hr : f'.replyDst = f.replyDst) : Kept (s.setTask id f') := by
  intro hc j g hg hgp
  simp only [State.setTask, getElem?_set_of_some hf] at hg
  by_cases hj : j = id
  case pos =>
    rw [if_pos hj] at hg
    cases hg
    rw [hr, hj]
    exact h hc id f hf hp
  case neg =>
    rw [if_neg hj] at hg
    exact h hc j g hg hgp

-- Without an overflow, a flow that is removed has ended.
theorem Kept.await (h : Kept s) (hc : s.closed = false)
    (ho : ∀ id f, s.flows.get d.key = some id → s.tasks[id]? = some f → f.phase = .ended) :
    Kept (s.await d) := by
  intro _ j g hg hgp
  have hj := h hc j g hg hgp
  rw [State.await, PartialMap.get_erase]
  split
  case isFalse   => exact hj
  case isTrue he => exact absurd (ho j g (he ▸ hj) hg) hgp

theorem Kept.spawn (h : Kept s) (ht : Table s) (hw : s.waits = some d) : Kept (s.spawn d) := by
  intro hc j g hg hgp
  rw [State.spawn, PartialMap.get_insert]
  simp only [State.spawn] at hg
  by_cases hj : j < s.tasks.length
  case pos =>
    rw [List.getElem?_append_left hj] at hg
    have hk := h hc j g hg hgp
    split
    case isFalse   => exact hk
    case isTrue he =>
      rw [he, ht.waits d hw] at hk
      cases hk
  case neg =>
    have hl := (List.getElem?_eq_some_iff.mp hg).1
    simp only [List.length_append, List.length_singleton] at hl
    have hj : j = s.tasks.length := by omega
    rw [hj, List.getElem?_concat_length] at hg
    cases hg
    rw [hj]
    exact if_pos rfl

theorem Kept.change (h : Kept s) (ht : Table s) (hc : Change s s') : Kept s' := by
  cases hc
  case client c              => exact h
  case close c               => intro hc; cases hc
  case spawn d hw            => exact h.spawn ht hw
  case drop                  => exact h
  case task id f f' hf hp hr => exact h.setTask hf hp hr
  case reply id f payload hf => exact h

theorem Kept.dispatch (h : Kept s) (ht : Table s) (hc : s.closed = false)
    (ho : ∀ id f, s.flows.get d.key = some id → s.tasks[id]? = some f → f.phase ≠ .ended →
      f.queue.length < flowQueue) : Kept (s.dispatch d) := by
  obtain ⟨id, f, _, hf, hp, _, he⟩ | ⟨hl, he⟩ := dispatch_cases (d := d) ht
  case inl =>
    have hs : Kept (s.setTask id { f with queue := f.queue ++ [d.payload] }) := h.setTask hf hp rfl
    exact he ▸ hs
  case inr =>
    refine he ▸ h.await hc fun id f hi hf => ?_
    refine Classical.byContradiction fun hp => ?_
    have h₁ := hl id f hi hf hp
    have h₂ := ho id f hi hf hp
    omega

variable {peer : IpAddr} {e : Event}

theorem keeps_kept :
    Keeps (step peer) (fun s e => ¬Overflows peer s e) fun s => Table s ∧ Kept s := by
  intro s e s' ⟨ht, hk⟩ ho hs
  obtain ⟨d, hd, hc, _, rfl⟩ | ⟨_, hc⟩ := step_cases hs
  case inr => exact ⟨ht.change hc, hk.change ht hc⟩
  case inl =>
    have ht : Table { s with client := some d.client } := ⟨ht.task, ht.waits⟩
    have hk : Kept { s with client := some d.client } := hk
    refine ⟨ht.dispatch, hk.dispatch ht hc fun id f hi hf hp => ?_⟩
    exact Nat.lt_of_not_le fun hl => ho ⟨d, id, f, hd, hi, hf, hp, hl⟩

theorem Dispatches.unique {d' : Datagram} (h : Dispatches peer s e d) (h' : Dispatches peer s e d') :
    d = d' := by
  obtain ⟨buf, rfl, _, hr⟩ := h
  obtain ⟨buf', he, _, hr'⟩ := h'
  have ⟨hc, hb⟩ := Event.datagram.inj he
  rw [← hc, ← hb, hr] at hr'
  exact Option.some.inj (Except.ok.inj hr')

theorem not_kept_of_overflows (ht : Table s) (ho : Overflows peer s e) (hs : step peer s e = some s') :
    ¬Kept s' := by
  have ⟨d, id, f, hd, hi, hf, hp, hl⟩ := ho
  obtain ⟨d', hd', hc, _, rfl⟩ | ⟨hn, _⟩ := step_cases hs
  case inr => exact absurd hd (hn d)
  case inl =>
    cases hd.unique hd'
    have ht : Table { s with client := some d.client } := ⟨ht.task, ht.waits⟩
    have ⟨g, hg, hk⟩ := ht.task d.key id hi
    cases hf.symm.trans hg
    obtain ⟨j, g, hj, hg, _, hr, _⟩ | ⟨_, he⟩ := dispatch_cases (d := d) ht
    case inl =>
      cases hi.symm.trans hj
      cases hf.symm.trans hg
      omega
    case inr =>
      intro h
      have hn := he ▸ h
      have := hn hc id f hf hp
      rw [State.await, hk, PartialMap.get_erase, if_pos rfl] at this
      cases this

-- No flow is replaced before its task has ended, exactly as long as no queue overflows.
theorem live_flow_kept_iff (peer : IpAddr) (es : List Event) :
    Always (step peer) Kept {} es ↔ Each (step peer) (fun s e => ¬Overflows peer s e) {} es := by
  have h₀ : Table {} ∧ Kept {} := ⟨⟨by simp, by simp⟩, by simp [Kept]⟩
  refine always_iff_each keeps_kept (fun _ h => h.2) (fun s e s' h ho hs => ?_) h₀
  exact not_kept_of_overflows h.1 (not_not.mp ho) hs

end

-- A datagram for 1.2.3.4:53.
def query : Event :=
  .datagram (.v4 0x7f000001 5000) [0, 0, 0, 1, 1, 2, 3, 4, 0, 53, 42]

-- The first flow is running but no longer in the table.
def lostFirst (s : State) : Bool :=
  !s.closed && s.tasks[0]?.any fun f => f.phase = .running && s.flows.get f.replyDst.display = none

theorem not_kept_of_lostFirst {s : State} (h : lostFirst s = true) : ¬Kept s := by
  intro hk
  simp only [lostFirst, Bool.and_eq_true, Bool.not_eq_true', Option.any_eq_true, decide_eq_true_eq] at h
  have ⟨hc, f, hf, hp, hn⟩ := h
  have := hk hc 0 f hf (by simp [hp])
  rw [hn] at this
  cases this

-- The task does nothing while 64 more datagrams arrive.
theorem full_queue_replaces :
    ¬Always (step (.v4 0x7f000001)) Kept {} ([query, .opened true] ++ List.replicate 64 query) := by
  have h : (run (step (.v4 0x7f000001)) {} ([query, .opened true] ++ List.replicate 64 query)).any
      lostFirst = true := by decide +kernel
  have ⟨s, hs, hl⟩ := (Option.any_eq_true _ _).mp h
  exact fun ha => not_kept_of_lostFirst hl (ha.of_run hs)

end JammVpn.Udp
