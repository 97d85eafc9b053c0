import JammVpn.Net.Framing
import JammVpn.Net.Theorems.UdpFlows

namespace JammVpn.Framing

open Incremental Ip Machine Udp

variable {pr : Protocol} {replyDst : Target} {pkts : List pr.Packet} {s s' : State}

-- The client has been sent the first packets, and the rest is still there to be read. Of these, no
-- whole packet has been read.
def Framed (pr : Protocol) (replyDst : Target) (pkts : List pr.Packet) (s : State) : Prop :=
  ∃ sent rest, pkts = sent ++ rest ∧
    s.delivered = sent.map (encodeUdpDatagram replyDst ∘ pr.payload) ∧
    (s.ended = false → rest.flatMap pr.encode = s.progress ++ s.stream ++ s.wire ∧
      ∀ p ∈ rest.head?, s.progress.length < (pr.encode p).length)

-- A datagram of the client is taken while `recv` has read a part of a packet.
def Cuts (pr : Protocol) (s : State) : Event → Prop
  | .poll true true  => s.queue ≠ [] ∧ s.progress ≠ []
  | .poll false true =>
    s.queue ≠ [] ∧ s.progress ++ s.stream ≠ [] ∧ s.eof = false ∧
      pr.recv (s.progress ++ s.stream) = .more
  | _                => False

theorem encode_ne_nil (pr : Protocol) (p : pr.Packet) : pr.encode p ≠ [] := by
  intro h
  have := pr.reads p
  rw [h, pr.waits] at this
  cases this

-- What `recv` finds when the packets that are left are what comes.
theorem recv_cases {rest : List pr.Packet} {bs wire : List UInt8}
    (h : rest.flatMap pr.encode = bs ++ wire) :
    (∃ p rest' bs', rest = p :: rest' ∧ pr.recv bs = .done (pr.payload p) bs' ∧
      rest'.flatMap pr.encode = bs' ++ wire) ∨
    pr.recv bs = .more ∧ ∀ p ∈ rest.head?, bs.length < (pr.encode p).length := by
  cases rest
  case nil =>
    have hn : bs = [] := (List.append_eq_nil_iff.mp h.symm).1
    exact .inr ⟨hn ▸ pr.waits, by simp⟩
  case cons p rest =>
    rw [List.flatMap_cons] at h
    rcases List.append_eq_append_iff.mp h with ⟨bs', rfl, he⟩ | ⟨bs', hp, he⟩
    case inl => exact .inl ⟨p, rest, bs', rfl, pr.lawful.of_prefix (pr.reads p), he⟩
    case inr =>
      by_cases hn : bs' = []
      case pos =>
        rw [hn, List.append_nil] at hp
        exact .inl ⟨p, rest, [], rfl, hp ▸ pr.reads p, by simp [he, hn]⟩
      case neg =>
        have hm := pr.lawful.more_of_lt (hp ▸ pr.reads p) hn
        refine .inr ⟨hm, fun q hq => ?_⟩
        cases hq
        rw [hp, List.length_append]
        have := List.length_pos_iff.mpr hn
        omega

theorem Framed.end (h : Framed pr replyDst pkts s) (hd : s'.delivered = s.delivered)
    (he : s'.ended = true) : Framed pr replyDst pkts s' := by
  obtain ⟨sent, rest, hp, hs, _⟩ := h
  exact ⟨sent, rest, hp, hd.trans hs, by simp [he]⟩

-- A change that no byte and no packet is part of.
theorem Framed.congr (h : Framed pr replyDst pkts s) (hd : s'.delivered = s.delivered)
    (he : s'.ended = s.ended) (hp : s'.progress = s.progress)
    (hs : s'.stream ++ s'.wire = s.stream ++ s.wire) : Framed pr replyDst pkts s' := by
  obtain ⟨sent, rest, hk, hse, hr⟩ := h
  refine ⟨sent, rest, hk, hd.trans hse, fun hn => ?_⟩
  have ⟨hf, hl⟩ := hr (he ▸ hn)
  refine ⟨?_, hp ▸ hl⟩
  rw [hf, List.append_assoc, List.append_assoc, hp, hs]

theorem Framed.pollRx {ok : Bool} (h : Framed pr replyDst pkts s) (hn : s.ended = false)
    (hc : s.queue ≠ [] → ok = true → s.progress = []) (hp : s.pollRx ok = some s') :
    Framed pr replyDst pkts s' := by
  rw [State.pollRx] at hp
  split at hp
  case h_2 =>
    split at hp <;> cases hp
    exact h.end rfl rfl
  case h_1 d queue hq =>
    cases hp
    cases ok
    case false => exact h.end rfl rfl
    case true  => exact h.congr rfl hn.symm (hc (by simp [hq]) rfl).symm rfl

theorem pollRecv_eq_none {ok : Bool} (h : s.pollRecv pr replyDst ok = none) :
    s.eof = false ∧ pr.recv (s.progress ++ s.stream) = .more := by
  rw [State.pollRecv] at h
  split at h
  case h_1 => dsimp only at h; split at h <;> cases h
  case h_2 => cases h
  case h_3 hm =>
    split at h
    case isTrue     => cases h
    case isFalse he => exact ⟨Bool.eq_false_iff.mpr he, hm⟩

theorem Framed.pollRecv {ok : Bool} (h : Framed pr replyDst pkts s) (hn : s.ended = false)
    (hp : s.pollRecv pr replyDst ok = some s') : Framed pr replyDst pkts s' := by
  obtain ⟨sent, rest, hk, hs, hr⟩ := h
  obtain ⟨p, rest', bs', rfl, hd, hf⟩ | ⟨hm, _⟩ := recv_cases (hr hn).1
  case inr =>
    rw [State.pollRecv, hm] at hp
    dsimp only at hp
    split at hp <;> cases hp
    exact ⟨sent, rest, hk, hs, by simp⟩
  case inl =>
    rw [State.pollRecv, hd] at hp
    dsimp only at hp
    split at hp <;> cases hp
    case isFalse => exact ⟨sent, p :: rest', hk, hs, by simp⟩
    case isTrue =>
      refine ⟨sent ++ [p], rest', by rw [hk, List.append_assoc]; rfl, by simp [hs], fun _ => ⟨hf, ?_⟩⟩
      exact fun q _ => List.length_pos_iff.mpr (encode_ne_nil pr q)

theorem Framed.pending (h : Framed pr replyDst pkts s) (hn : s.ended = false)
    (hm : pr.recv (s.progress ++ s.stream) = .more) : Framed pr replyDst pkts s.pending := by
  obtain ⟨sent, rest, hk, hs, hr⟩ := h
  have hf := (hr hn).1
  obtain ⟨p, rest', bs', rfl, hd, _⟩ | ⟨_, hl⟩ := recv_cases hf
  case inl =>
    rw [hd] at hm
    cases hm
  case inr => exact ⟨sent, rest, hk, hs, fun _ => ⟨by simp [hf, State.pending], hl⟩⟩

theorem Framed.select {rxFirst ok : Bool} (h : Framed pr replyDst pkts s) (hn : s.ended = false)
    (hc : ¬Cuts pr s (.poll rxFirst ok)) :
    Framed pr replyDst pkts (s.select pr replyDst rxFirst ok) := by
  rw [State.select]
  cases rxFirst
  case true =>
    rw [if_pos rfl]
    have hc : s.queue ≠ [] → ok = true → s.progress = [] := by
      rintro hq rfl
      exact Classical.byContradiction fun hp => hc ⟨hq, hp⟩
    cases hx : s.pollRx ok
    case some s' => exact h.pollRx hn hc hx
    case none =>
      cases hr : s.pollRecv pr replyDst ok
      case some s' => exact h.pollRecv hn hr
      case none    => exact h.pending hn (pollRecv_eq_none hr).2
  case false =>
    rw [if_neg Bool.false_ne_true]
    cases hr : s.pollRecv pr replyDst ok
    case some s' => exact h.pollRecv hn hr
    case none =>
      have ⟨he, hm⟩ := pollRecv_eq_none hr
      have hp := h.pending hn hm
      have hc : s.queue ≠ [] → ok = true → s.progress ++ s.stream = [] := by
        rintro hq rfl
        exact Classical.byContradiction fun hp => hc ⟨hq, hp, he, hm⟩
      cases hx : s.pending.pollRx ok
      case some s' => exact hp.pollRx hn hc hx
      case none    => exact hp

theorem keeps_framed :
    Keeps (step pr replyDst) (fun s e => ¬Cuts pr s e) (Framed pr replyDst pkts) := by
  intro s e s' h hc hs
  unfold step at hs
  split at hs
  case isTrue => cases hs
  case isFalse hn =>
    have hn : s.ended = false := Bool.eq_false_iff.mpr hn
    cases e <;> dsimp only at hs
    case arrive n =>
      split at hs <;> cases hs
      exact h.congr rfl rfl rfl (by simp)
    case closed => cases hs; exact h.congr rfl rfl rfl rfl
    case hangup => cases hs; exact h.congr rfl rfl rfl rfl
    case datagram payload =>
      split at hs <;> cases hs
      rw [State.trySend]
      split <;> exact h.congr rfl rfl rfl rfl
    case poll rxFirst ok => cases hs; exact h.select hn hc

-- The two ways to cut a packet; both lose what `recv` has read.
theorem select_of_cuts (replyDst : Target) {rxFirst ok : Bool} (h : Cuts pr s (.poll rxFirst ok)) :
    (s.select pr replyDst rxFirst ok).delivered = s.delivered ∧
    (s.select pr replyDst rxFirst ok).ended = false ∧
    ∃ lost, lost ≠ [] ∧ s.progress ++ s.stream ++ s.wire =
      lost ++ ((s.select pr replyDst rxFirst ok).progress ++ (s.select pr replyDst rxFirst ok).stream ++
        (s.select pr replyDst rxFirst ok).wire) := by
  cases ok <;> cases rxFirst <;> try exact h.elim
  case true.true =>
    obtain ⟨hq, hp⟩ := h
    cases hx : s.queue
    case nil => exact absurd hx hq
    case cons d queue =>
      simp only [State.select, State.pollRx, hx]
      exact ⟨rfl, rfl, s.progress, hp, by simp⟩
  case true.false =>
    obtain ⟨hq, hp, he, hm⟩ := h
    cases hx : s.queue
    case nil => exact absurd hx hq
    case cons d queue =>
      simp only [State.select, State.pollRecv, hm, he, State.pollRx, State.pending, hx]
      exact ⟨rfl, rfl, s.progress ++ s.stream, hp, by simp⟩

theorem not_framed_of_cuts {e : Event} (h : Framed pr replyDst pkts s) (hc : Cuts pr s e)
    (hs : step pr replyDst s e = some s') : ¬Framed pr replyDst pkts s' := by
  cases e <;> try exact hc.elim
  case poll rxFirst ok =>
    rw [step] at hs
    split at hs <;> cases hs
    case isFalse hn =>
      have ⟨hd, hn', lost, hl, he⟩ := select_of_cuts replyDst hc
      obtain ⟨sent, rest, hk, hs, hr⟩ := h
      rintro ⟨sent', rest', hk', hs', hr'⟩
      have hlen : sent.length = sent'.length := by
        have := congrArg List.length (hs.symm.trans (hd.symm.trans hs'))
        simpa using this
      have ⟨_, hrest⟩ := List.append_inj (hk.symm.trans hk') hlen
      have h₁ := (hr (Bool.eq_false_iff.mpr hn)).1
      have h₂ := (hr' hn').1
      rw [he, hrest, h₂] at h₁
      exact hl (List.self_eq_append_left.mp h₁)

theorem framed_spawnFlow (pr : Protocol) (replyDst : Target) (pkts : List pr.Packet) :
    Framed pr replyDst pkts (spawnFlow pr pkts) := by
  refine ⟨[], pkts, rfl, rfl, fun _ => ⟨rfl, fun p _ => ?_⟩⟩
  exact List.length_pos_iff.mpr (encode_ne_nil pr p)

-- The client is sent the packets of the server exactly as long as none is cut.
theorem framing_kept_iff (session : Session) (replyDst : Target) (pkts : List session.protocol.Packet)
    (es : List Event) :
    Always (step session.protocol replyDst) (Framed session.protocol replyDst pkts)
        (spawnFlow session.protocol pkts) es ↔
      Each (step session.protocol replyDst) (fun s e => ¬Cuts session.protocol s e)
        (spawnFlow session.protocol pkts) es := by
  refine always_iff_each keeps_framed (fun _ h => h) (fun s e s' h hc hs => ?_) (framed_spawnFlow _ _ _)
  exact not_framed_of_cuts h (not_not.mp hc) hs

-- The header of a packet is lost with a datagram of the client; the next two bytes are taken for one.
def cutPacket : List Event :=
  [.arrive 2, .poll false true, .datagram [1], .poll true true, .arrive 2, .poll false true]

theorem datagram_cuts_packet :
    let dst := Target.socket (.v4 0x01020304 53)
    let pkt : Session.vless.protocol.Packet := (⟨[0, 0], by decide⟩ : VlessPacket)
    ¬Always (step Session.vless.protocol dst) (Framed Session.vless.protocol dst [pkt])
      (spawnFlow Session.vless.protocol [pkt]) cutPacket := by
  intro dst pkt h
  have hd : (run (step Session.vless.protocol dst) (spawnFlow Session.vless.protocol [pkt]) cutPacket).map
      State.delivered = some [encodeUdpDatagram dst []] := by decide +kernel
  have ⟨s, hs, hd⟩ := Option.map_eq_some_iff.mp hd
  have ⟨sent, rest, hk, hsent, _⟩ := h.of_run hs
  rw [hd] at hsent
  cases sent
  case nil => cases hsent
  case cons p sent =>
    have hb := (List.cons.inj hsent).1
    rw [← (List.cons.inj hk).1] at hb
    revert hb
    decide

-- The task as the association has it.
def State.flow (s : State) (client : SocketAddr) (replyDst : Target) : Flow where
  client   := client
  replyDst := replyDst
  queue    := s.queue
  phase    := if s.ended then .closing else .running

section

variable (peer : IpAddr) (id : Nat) (client : SocketAddr) (u : Udp.State)

-- The association takes the task from one state to the other, and the client is sent the same.
def Simulates (replyDst : Target) (s s' : State) : Prop :=
  ∃ es u' new, run (Udp.step peer) u es = some u' ∧
    u'.tasks[id]? = some (s'.flow client replyDst) ∧ u'.flows = u.flows ∧ s'.tx = s.tx ∧
    s'.delivered = s.delivered ++ new ∧
    u'.passed = (new.map fun bytes => (id, .reply bytes)).reverse ++ u.passed

end

section

variable {peer : IpAddr} {id : Nat} {client : SocketAddr} {u : Udp.State} {ok : Bool}
  (ht : u.tasks[id]? = some (s.flow client replyDst)) (hn : s.ended = false)

include ht

theorem getElem?_setTask (f : Flow) : (u.setTask id f).tasks[id]? = some f := by
  rw [State.setTask, getElem?_set_of_some ht, if_pos rfl]

include hn

theorem running_flow : u.running id = some (s.flow client replyDst) := by
  simp [State.running, ht, State.flow, hn]

theorem simulates_pollRx (hf : s.tx = false → u.flows.get replyDst.display ≠ some id)
    (hp : s.pollRx ok = some s') : Simulates peer id client u replyDst s s' := by
  rw [State.pollRx] at hp
  split at hp
  case h_1 d queue hq =>
    cases hp
    refine ⟨[.send id ok], _, [], ?_, getElem?_setTask ht _, rfl, rfl, by simp, rfl⟩
    simp only [run, Udp.step, running_flow ht hn]
    cases ok <;> simp [State.flow, hq]
  case h_2 hq =>
    split at hp <;> cases hp
    case isFalse htx =>
      refine ⟨[.drained id], _, [], ?_, getElem?_setTask ht _, rfl, rfl, by simp, rfl⟩
      have := hf (Bool.eq_false_iff.mpr htx)
      simp [run, Udp.step, running_flow ht hn, State.flow, hq, this]

theorem simulates_pollRecv (hp : s.pollRecv pr replyDst ok = some s') :
    Simulates peer id client u replyDst s s' := by
  rw [State.pollRecv] at hp
  have hb {s'' : State} (hq : s''.queue = s.queue) (he : s''.ended = true) (hx : s''.tx = s.tx)
      (hd : s''.delivered = s.delivered) : Simulates peer id client u replyDst s s'' := by
    refine ⟨[.broken id], _, [], ?_, getElem?_setTask ht _, rfl, hx, by simp [hd], rfl⟩
    simp [run, Udp.step, running_flow ht hn, State.flow, hq, he]
  split at hp
  case h_1 payload rest hr =>
    dsimp only at hp
    split at hp <;> cases hp
    case isFalse => exact hb rfl rfl rfl rfl
    case isTrue =>
      let bytes := encodeUdpDatagram replyDst payload
      let u' := { u with passed := (id, .reply bytes) :: u.passed }
      refine ⟨[.reply id payload true], u', [bytes], ?_⟩
      exact ⟨by simp [run, Udp.step, running_flow ht hn, State.flow, bytes, u'], ht, rfl, rfl, rfl, rfl⟩
  case h_2 => cases hp; exact hb rfl rfl rfl rfl
  case h_3 => split at hp <;> cases hp; exact hb rfl rfl rfl rfl

theorem select_simulates (hf : s.tx = false → u.flows.get replyDst.display ≠ some id) (rxFirst : Bool) :
    Simulates peer id client u replyDst s (s.select pr replyDst rxFirst ok) := by
  have hpend : Simulates peer id client u replyDst s s.pending :=
    ⟨[], u, [], rfl, ht, rfl, rfl, by simp [State.pending], rfl⟩
  rw [State.select]
  cases rxFirst
  case true =>
    rw [if_pos rfl]
    cases hx : s.pollRx ok
    case some s' => exact simulates_pollRx ht hn hf hx
    case none =>
      cases hr : s.pollRecv pr replyDst ok
      case some s' => exact simulates_pollRecv ht hn hr
      case none    => exact hpend
  case false =>
    rw [if_neg Bool.false_ne_true]
    cases hr : s.pollRecv pr replyDst ok
    case some s' => exact simulates_pollRecv ht hn hr
    case none =>
      cases hx : s.pending.pollRx ok
      case some s' =>
        have hs : Simulates peer id client u replyDst s.pending s' := simulates_pollRx ht hn hf hx
        exact hs
      case none => exact hpend

omit ht hn

-- What the client does is not up to the task.
def Event.isTask : Event → Bool
  | .datagram _ | .hangup => false
  | _                     => true

theorem simulates_step {e : Event} (ht : u.tasks[id]? = some (s.flow client replyDst))
    (hf : s.tx = false → u.flows.get replyDst.display ≠ some id) (he : e.isTask = true)
    (hs : step pr replyDst s e = some s') : Simulates peer id client u replyDst s s' := by
  unfold step at hs
  split at hs
  case isTrue => cases hs
  case isFalse hn =>
    cases e <;> try cases he
    case arrive n =>
      dsimp only at hs
      split at hs <;> cases hs
      exact ⟨[], u, [], rfl, ht, rfl, rfl, by simp, rfl⟩
    case closed =>
      cases hs
      exact ⟨[], u, [], rfl, ht, rfl, rfl, by simp, rfl⟩
    case poll rxFirst ok =>
      cases hs
      exact select_simulates ht (Bool.eq_false_iff.mpr hn) hf rxFirst

-- Whatever the task does, the association does.
theorem simulates_run {es : List Event} (ht : u.tasks[id]? = some (s.flow client replyDst))
    (hf : s.tx = false → u.flows.get replyDst.display ≠ some id) (he : ∀ e ∈ es, e.isTask = true)
    (hr : run (step pr replyDst) s es = some s') : Simulates peer id client u replyDst s s' := by
  induction es generalizing s u
  case nil =>
    cases hr
    exact ⟨[], u, [], rfl, ht, rfl, rfl, by simp, rfl⟩
  case cons e es hi =>
    have ⟨s₁, hs, hr⟩ := run_cons hr
    have ⟨he, hes⟩ := List.forall_mem_cons.mp he
    have h₁ : Simulates peer id client u replyDst s s₁ := simulates_step ht hf he hs
    have ⟨es₁, u₁, new₁, hr₁, ht₁, hf₁, hx₁, hd₁, hp₁⟩ := h₁
    have hf' : s₁.tx = false → u₁.flows.get replyDst.display ≠ some id := by
      rw [hx₁, hf₁]
      exact hf
    have ⟨es₂, u₂, new₂, hr₂, ht₂, hf₂, hx₂, hd₂, hp₂⟩ := hi ht₁ hf' hes hr
    refine ⟨es₁ ++ es₂, u₂, new₁ ++ new₂, ?_, ht₂, hf₂.trans hf₁, hx₂.trans hx₁, ?_, ?_⟩
    · rw [run_append, hr₁, Option.bind_some, hr₂]
    · rw [hd₂, hd₁, List.append_assoc]
    · rw [hp₂, hp₁, List.map_append, List.reverse_append, List.append_assoc]

end

end JammVpn.Framing
