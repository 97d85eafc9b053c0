import JammVpn.Net.Netstack

namespace JammVpn.Netstack

open Ip Machine

-- Sessions are given datagrams of their own flow only, and their replies go to its source.
structure Isolated (s : State) : Prop where
  handed  : ∀ key d, (key, d) ∈ s.handed → key = d.key
  emitted : ∀ key d, (key, d) ∈ s.emitted → epToSockaddr d.dst = key.1

-- The stack takes a datagram for whose destination another source has a socket, and the flow of the
-- datagram has none before that one.
def Crosses (s : State) (e : Event) : Prop :=
  ∃ takes closed i d key r, e = .poll takes closed ∧ s.rx[i]? = some (.udp d) ∧ takes i = true ∧
    s.udpFlows.get key = some r ∧ key.2 = d.key.2 ∧ key.1 ≠ d.key.1 ∧
    ∀ own, s.udpFlows.get d.key = some own → r.handle < own.handle

-- What has the handle of a socket.
inductive Holder
  | flow (key : Key)
  | conn (key : Key)
  | abandoned

def Holds (s : State) (handle : Nat) : Holder → Prop
  | .flow key  => ∃ r, s.udpFlows.get key = some r ∧ r.handle = handle
  | .conn key  => s.tcpSeen.get key = some handle
  | .abandoned => handle ∈ s.abandoned

inductive Fits : Holder → Socket → Prop
  | flow {key endpoint rx tx} :
    epToSockaddr endpoint = key.2 →
    (∀ d ∈ rx, d.key = key) →
    (∀ t ∈ tx, epToSockaddr t.2.1 = t.1.1) →
    Fits (.flow key) (.udp endpoint rx tx)
  | conn {key} : Fits (.conn key) .tcp
  | abandoned : Fits .abandoned .tcp

-- A socket has one holder, which it fits.
inductive Slot (P : Holder → Prop) : Option Socket → Prop
  | free : (∀ o, ¬P o) → Slot P none
  | taken {o sock} : Fits o sock → (∀ o', P o' ↔ o' = o) → Slot P (some sock)

structure Sound (s : State) : Prop where
  slot     : ∀ handle, Slot (Holds s handle) (s.sockets.get handle)
  client   : ∀ key r, s.udpFlows.get key = some r → epToSockaddr r.client = key.1
  isolated : Isolated s

section

variable {P P' : Holder → Prop} {o : Holder} {sock : Option Socket}

theorem epToSockaddr_injective {a b : IpEndpoint} (h : epToSockaddr a = epToSockaddr b) : a = b := by
  obtain ⟨ip, port⟩ := a
  obtain ⟨ip', port'⟩ := b
  cases ip <;> cases ip' <;> simp_all [epToSockaddr, SocketAddr.new]

theorem Slot.congr (h : Slot P sock) (hp : ∀ o, P' o ↔ P o) : Slot P' sock := by
  cases h
  case free hn     => exact .free fun o ho => hn o ((hp o).mp ho)
  case taken hf hu => exact .taken hf fun o => (hp o).trans (hu o)

theorem Slot.map (h : Slot P sock) {f : Socket → Socket}
    (hf : ∀ o sock, P o → Fits o sock → Fits o (f sock)) : Slot P (sock.map f) := by
  cases h
  case free hn      => exact .free hn
  case taken hfi hu => exact .taken (hf _ _ ((hu _).mpr rfl) hfi) hu

theorem Slot.get (h : Slot P sock) (ho : P o) :
    ∃ k, sock = some k ∧ Fits o k ∧ ∀ o', P o' → o' = o := by
  cases h
  case free hn => exact absurd ho (hn o)
  case taken k hf hu =>
    cases (hu _).mp ho
    exact ⟨k, rfl, hf, fun o' ho' => (hu o').mp ho'⟩

theorem Slot.of_some {k : Socket} (h : Slot P sock) (hk : sock = some k) :
    ∃ o, Fits o k ∧ ∀ o', P o' ↔ o' = o := by
  cases h <;> cases hk
  case taken hu hf => exact ⟨_, hf, hu⟩

theorem Slot.not_of_none (h : Slot P none) (o : Holder) : ¬P o := by
  cases h
  case free hn => exact hn o

end

section

variable {s : State} {key : Key} {r : Relay} {d : Datagram} {o : Holder} {P : Holder → Prop}

theorem Sound.not_holds_free (h : Sound s) (o : Holder) : ¬Holds s s.sockets.free o :=
  Slot.not_of_none (s.sockets.get_free ▸ h.slot s.sockets.free) o

-- A new socket, and its holder.
theorem Sound.slot_add (h : Sound s) {new : Socket} (hf : Fits o new) {handle : Nat}
    (hp : ∀ o', P o' ↔ Holds s handle o' ∨ handle = s.sockets.free ∧ o' = o) :
    Slot P ((s.sockets.add new).get handle) := by
  rw [Slots.get_add]
  split
  case isFalse hh => exact (h.slot handle).congr fun o' => (hp o').trans (by simp [hh])
  case isTrue hh =>
    refine .taken hf fun o' => (hp o').trans ?_
    have := h.not_holds_free o'
    simp [hh, this]

-- A holder that goes with its socket.
theorem Sound.slot_remove (h : Sound s) {held handle : Nat} (ho : ∀ i, Holds s i o ↔ i = held)
    (hp : ∀ o', P o' ↔ Holds s handle o' ∧ o' ≠ o) : Slot P ((s.sockets.remove held).get handle) := by
  rw [Slots.get_remove]
  split
  case isTrue hh =>
    have ⟨_, _, _, hu⟩ := (h.slot handle).get ((ho handle).mpr hh)
    exact .free fun o' ho' => ((hp o').mp ho').2 (hu o' ((hp o').mp ho').1)
  case isFalse hh =>
    refine (h.slot handle).congr fun o' => (hp o').trans (and_iff_left_of_imp ?_)
    rintro ho' rfl
    exact hh ((ho handle).mp ho')

theorem holds_flow_iff (hr : s.udpFlows.get key = some r) (i : Nat) :
    Holds s i (.flow key) ↔ i = r.handle := by
  simp [Holds, hr, eq_comm]

theorem Sound.bindUdp (h : Sound s) (hn : s.udpFlows.get d.key = none) : Sound (s.bindUdp d) where
  slot handle := by
    refine h.slot_add (o := .flow d.key) (.flow rfl (by simp) (by simp)) fun o => ?_
    cases o
    case conn      => simp [Holds, State.bindUdp]
    case abandoned => simp [Holds, State.bindUdp]
    case flow key =>
      simp only [Holds, State.bindUdp, PartialMap.get_insert]
      by_cases hk : key = d.key
      case pos => simp [hk, hn, eq_comm]
      case neg => simp [hk]
  client key r hr := by
    rw [State.bindUdp, PartialMap.get_insert] at hr
    split at hr
    case isFalse => exact h.client key r hr
    case isTrue hk =>
      cases hr
      rw [hk, Datagram.key]
  isolated := ⟨h.isolated.handed, h.isolated.emitted⟩

theorem Sound.listenTcp (h : Sound s) (hn : s.tcpSeen.get key = none) : Sound (s.listenTcp key) where
  slot handle := by
    refine h.slot_add (o := .conn key) .conn fun o => ?_
    cases o
    case flow      => simp [Holds, State.listenTcp]
    case abandoned => simp [Holds, State.listenTcp]
    case conn key' =>
      simp only [Holds, State.listenTcp, PartialMap.get_insert]
      by_cases hk : key' = key
      case pos => simp [hk, hn, eq_comm]
      case neg => simp [hk]
  client := h.client
  isolated := ⟨h.isolated.handed, h.isolated.emitted⟩

theorem Sound.demuxAndEnqueue (h : Sound s) (p : Packet) : Sound (s.demuxAndEnqueue p) := by
  have hd : Sound (s.demux p) := by
    cases p <;> simp only [State.demux]
    case other => exact h
    case udp d =>
      split
      case isTrue hc => exact h.bindUdp hc.1
      case isFalse   => exact h
    case tcp src dst syn =>
      split
      case isTrue hc => exact h.listenTcp hc.2.1
      case isFalse   => exact h
  exact ⟨hd.slot, hd.client, hd.isolated.handed, hd.isolated.emitted⟩

-- A relay keeps its handle and its client.
theorem Sound.setRelay (h : Sound s) (hr : s.udpFlows.get key = some r) {r' : Relay}
    (hh : r'.handle = r.handle) (hc : r'.client = r.client) : Sound (s.setRelay key r') where
  slot handle := by
    refine (h.slot handle).congr fun o => ?_
    cases o
    case conn      => exact .rfl
    case abandoned => exact .rfl
    case flow key' =>
      simp only [Holds, State.setRelay, PartialMap.get_insert]
      by_cases hk : key' = key
      case pos => simp [hk, hr, hh]
      case neg => simp [hk]
  client key' r₁ hr₁ := by
    rw [State.setRelay, PartialMap.get_insert] at hr₁
    split at hr₁
    case isFalse => exact h.client key' r₁ hr₁
    case isTrue hk =>
      cases hr₁
      rw [hc, hk, h.client key r hr]
  isolated := ⟨h.isolated.handed, h.isolated.emitted⟩

theorem Sound.finish (h : Sound s) (hr : s.udpFlows.get key = some r) : Sound (s.finish key r) where
  slot handle := by
    refine h.slot_remove (holds_flow_iff hr) fun o => ?_
    cases o
    case conn      => simp [Holds, State.finish]
    case abandoned => simp [Holds, State.finish]
    case flow key' =>
      simp only [Holds, State.finish, PartialMap.get_erase_eq_some, ne_eq, Holder.flow.injEq]
      constructor
      case mp =>
        rintro ⟨r, hr, hh⟩
        exact ⟨⟨r, hr.1, hh⟩, hr.2⟩
      case mpr =>
        rintro ⟨⟨r, hr, hh⟩, hk⟩
        exact ⟨r, ⟨hr, hk⟩, hh⟩
  client key' r' hr' := h.client key' r' (PartialMap.get_erase_eq_some.mp hr').1
  isolated := ⟨h.isolated.handed, h.isolated.emitted⟩

theorem holds_conn_iff {held : Nat} (hc : s.tcpSeen.get key = some held) (i : Nat) :
    Holds s i (.conn key) ↔ i = held := by
  simp [Holds, hc, eq_comm]

-- A TCP socket that is not closed yet changes its holder.
theorem Sound.slot_abandon (h : Sound s) {held handle : Nat} (hc : s.tcpSeen.get key = some held)
    (hp : ∀ o, P o ↔ Holds s handle o ∧ o ≠ .conn key ∨ handle = held ∧ o = .abandoned) :
    Slot P (s.sockets.get handle) := by
  by_cases hh : handle = held
  case pos =>
    have ⟨sock, hs, hf, hu⟩ := (h.slot handle).get ((holds_conn_iff hc handle).mpr hh)
    cases hf
    refine hs ▸ .taken .abandoned fun o => (hp o).trans ?_
    have := hu o
    grind
  case neg =>
    refine (h.slot handle).congr fun o => (hp o).trans ?_
    have := (holds_conn_iff hc handle).mp.mt hh
    grind

theorem Sound.finishTcp (h : Sound s) {held : Nat} (hc : s.tcpSeen.get key = some held)
    (closed : Bool) : Sound (s.finishTcp key held closed) := by
  cases closed
  case true =>
    refine ⟨fun handle => ?_, h.client, h.isolated.handed, h.isolated.emitted⟩
    refine h.slot_remove (holds_conn_iff hc) fun o => ?_
    cases o
    case flow      => simp [Holds, State.finishTcp]
    case abandoned => simp [Holds, State.finishTcp]
    case conn key' => simp [Holds, State.finishTcp, PartialMap.get_erase_eq_some]
  case false =>
    refine ⟨fun handle => ?_, h.client, h.isolated.handed, h.isolated.emitted⟩
    refine h.slot_abandon hc fun o => ?_
    cases o
    case flow      => simp [Holds, State.finishTcp]
    case abandoned => simp [Holds, State.finishTcp]
    case conn key' => simp [Holds, State.finishTcp, PartialMap.get_erase_eq_some]

theorem Fits.flush {sock : Socket} (h : Fits o sock) : Fits o sock.flush := by
  cases h
  case flow he hr ht => exact .flow he hr (by simp)
  case conn          => exact .conn
  case abandoned     => exact .abandoned

theorem Fits.dispatched {sock : Socket} (h : Fits o sock) {sent : Key × Datagram}
    (hs : sent ∈ sock.dispatched) : epToSockaddr sent.2.dst = sent.1.1 := by
  cases h <;> simp only [Socket.dispatched, List.not_mem_nil, List.mem_map] at hs
  case flow he hr ht =>
    obtain ⟨t, hm, rfl⟩ := hs
    exact ht t hm

theorem Fits.recvSlice {sock : Socket} (h : Fits o sock) : Fits o sock.recvSlice := by
  cases h
  case flow he hr ht => exact .flow he (fun d hd => hr d (List.mem_of_mem_tail hd)) ht
  case conn          => exact .conn
  case abandoned     => exact .abandoned

theorem Fits.sendSlice {sock : Socket} (h : Fits o sock) {client : IpEndpoint}
    (hc : epToSockaddr client = key.1) (data : List UInt8) :
    Fits o (sock.sendSlice key client data) := by
  cases h
  case conn      => exact .conn
  case abandoned => exact .abandoned
  case flow he hr ht =>
    refine .flow he hr fun t hm => ?_
    rw [List.mem_append, List.mem_singleton] at hm
    rcases hm with hm | rfl
    · exact ht t hm
    · exact hc

theorem Fits.process {sock : Socket} (h : Fits (.flow d.key) sock) :
    Fits (.flow d.key) (sock.process d) := by
  cases h
  case flow ht he hr =>
    refine .flow he (fun d' hm => ?_) ht
    rw [List.mem_append, List.mem_singleton] at hm
    rcases hm with hm | rfl
    · exact hr d' hm
    · rfl

theorem Fits.of_accepts {sock : Socket} (h : Fits o sock) (ha : sock.accepts d = true) :
    ∃ key, o = .flow key ∧ key.2 = d.key.2 := by
  cases h <;> simp only [Socket.accepts, Bool.false_eq_true, decide_eq_true_eq] at ha
  case flow key _ _ _ he _ _ => exact ⟨key, rfl, by rw [← he, ha]; rfl⟩

theorem Fits.accepts {sock : Socket} (h : Fits (.flow d.key) sock) : sock.accepts d = true := by
  cases h
  case flow _ he _ => simpa [Socket.accepts] using epToSockaddr_injective he

-- The flow of a datagram comes before every other one that has its destination.
def ComesFirst (s : State) (d : Datagram) : Prop :=
  ∀ key r, s.udpFlows.get key = some r → key.2 = d.key.2 → key.1 ≠ d.key.1 →
    ∃ own, s.udpFlows.get d.key = some own ∧ own.handle ≤ r.handle

section

variable {sockets : Slots Socket} (hs : ∀ i, Slot (Holds s i) (sockets.get i))

include hs

theorem holds_of_first (hc : ComesFirst s d) {i : Nat}
    (hf : sockets.first (Socket.accepts d) = some i) : Holds s i (.flow d.key) := by
  have ⟨⟨sock, hi, ha⟩, hn⟩ := Slots.get_of_first hf
  have ⟨o, hfit, hu⟩ := (hs i).of_some hi
  obtain ⟨key, rfl, hk⟩ := hfit.of_accepts ha
  have ⟨r, hr, hh⟩ := (hu (.flow key)).mpr rfl
  by_cases he : key.1 = d.key.1
  case pos => exact Prod.ext he hk ▸ ⟨r, hr, hh⟩
  case neg =>
    have ⟨own, ho, hle⟩ := hc key r hr hk he
    have hown : Holds s own.handle (.flow d.key) := ⟨own, ho, rfl⟩
    have ⟨sock', hi', hfit', _⟩ := (hs own.handle).get hown
    by_cases hlt : own.handle < i
    case pos =>
      have := hn own.handle hlt sock' hi'
      rw [hfit'.accepts] at this
      cases this
    case neg =>
      have : own.handle = i := by omega
      exact this ▸ hown

theorem slot_deliver (takes : Bool) (hc : takes = true → ComesFirst s d) (i : Nat) :
    Slot (Holds s i) ((deliver sockets takes (.udp d)).get i) := by
  rw [deliver]
  split
  case h_2 => exact hs i
  case h_1 handle hf =>
    split
    case isFalse => exact hs i
    case isTrue ht =>
      rw [Slots.get_update]
      split
      case isFalse => exact hs i
      case isTrue he =>
        have hd := holds_of_first hs (hc ht) hf
        have ⟨_, _, _, hu⟩ := (hs handle).get hd
        refine (hs i).map fun o sock ho hfit => ?_
        cases hu o (he ▸ ho)
        exact hfit.process

theorem slot_socketIngress {takes : Nat → Bool} {rx : List Packet}
    (hc : ∀ i d, rx[i]? = some (.udp d) → takes i = true → ComesFirst s d) (i : Nat) :
    Slot (Holds s i) ((socketIngress takes rx sockets).get i) := by
  revert i
  refine List.foldlRecOn (motive := fun sockets : Slots Socket => ∀ i, Slot (Holds s i) (sockets.get i))
    rx.zipIdx _ hs fun sockets hs x hx i => ?_
  obtain ⟨p, j⟩ := x
  have hj : rx[j]? = some p := by simpa using List.mem_zipIdx_iff_getElem?.mp hx
  cases p
  case udp d => exact slot_deliver hs (takes j) (hc j d hj) i
  case tcp   => exact hs i
  case other => exact hs i

end

theorem get_foldl_remove (gone : List Nat) (sockets : Slots Socket) (i : Nat) :
    (gone.foldl Slots.remove sockets).get i = if i ∈ gone then none else sockets.get i := by
  induction gone generalizing sockets
  case nil => simp
  case cons j gone hi =>
    rw [List.foldl_cons, hi, Slots.get_remove]
    by_cases hm : i ∈ gone <;> by_cases hj : i = j <;> simp [hm, hj]

theorem Sound.poll (h : Sound s) (takes closed : Nat → Bool)
    (hc : ∀ i d, s.rx[i]? = some (.udp d) → takes i = true → ComesFirst s d) :
    Sound (poll s takes closed) := by
  have hs := slot_socketIngress h.slot hc
  refine ⟨fun i => ?_, h.client, h.isolated.handed, fun key d hm => ?_⟩
  case refine_1 =>
    have hp (o : Holder) : Holds (Netstack.poll s takes closed) i o ↔
        Holds s i o ∧ (o = .abandoned → closed i = false) := by
      cases o <;> simp [Holds, Netstack.poll]
    simp only [Netstack.poll, get_foldl_remove, Slots.get_mapAll, List.mem_filter]
    split
    case isTrue hg =>
      have ⟨_, _, _, hu⟩ := (h.slot i).get (o := .abandoned) hg.1
      refine .free fun o ho => ?_
      have ⟨ho, hn⟩ := (hp o).mp ho
      have := hn (hu o ho)
      rw [hg.2] at this
      cases this
    case isFalse hg =>
      refine ((hs i).map fun o sock _ hf => hf.flush).congr fun o => (hp o).trans ?_
      refine and_iff_left_of_imp ?_
      rintro ho rfl
      exact Bool.eq_false_iff.mpr fun hcl => hg ⟨ho, hcl⟩
  case refine_2 =>
    rcases List.mem_append.mp hm with hm | hm
    · have ⟨sock, hv, hd⟩ := List.mem_flatMap.mp hm
      have ⟨i, hi⟩ := Slots.get_of_mem_values hv
      have ⟨_, hf, _⟩ := (hs i).of_some hi
      exact hf.dispatched hd
    · exact h.isolated.emitted key d hm

theorem get_of_relaying (h : s.relaying key = some r) : s.udpFlows.get key = some r := by
  rw [State.relaying, Option.filter_eq_some_iff] at h
  exact h.1

-- A socket that goes on fitting its holders.
theorem Sound.update (h : Sound s) (i : Nat) {f : Socket → Socket}
    (hf : ∀ o sock, Fits o sock → Fits o (f sock)) :
    Sound { s with sockets := s.sockets.update i f } where
  slot j := by
    simp only [Slots.get_update]
    split
    case isTrue  => exact (h.slot j).map fun o sock _ => hf o sock
    case isFalse => exact h.slot j
  client := h.client
  isolated := ⟨h.isolated.handed, h.isolated.emitted⟩

-- What waits in the socket of a flow is its own.
theorem Sound.key_of_waiting (h : Sound s) (hr : s.udpFlows.get key = some r) {ds : List Datagram}
    (hw : (s.sockets.get r.handle).map Socket.waiting = some ds) (hd : d ∈ ds) : key = d.key := by
  have ⟨sock, hs, hf, _⟩ := (h.slot r.handle).get (o := .flow key) ⟨r, hr, rfl⟩
  rw [hs] at hw
  cases hw
  cases hf
  case flow _ _ hrx => exact (hrx d hd).symm

-- The session of a flow is given what comes first in its socket.
theorem Sound.recv (h : Sound s) (hr : s.udpFlows.get key = some r) {ds : List Datagram}
    (hw : (s.sockets.get r.handle).map Socket.waiting = some (d :: ds)) (ok : Bool) :
    Sound { s.setRelay key { r with egress := ok } with
      sockets := s.sockets.update r.handle Socket.recvSlice
      handed := (key, d) :: s.handed } := by
  have hr' : Sound (s.setRelay key { r with egress := ok }) := h.setRelay hr rfl rfl
  have hu := hr'.update r.handle fun o sock hf => hf.recvSlice
  refine ⟨hu.slot, hu.client, fun key' d' hm => ?_, hu.isolated.emitted⟩
  cases hm
  case head    => exact h.key_of_waiting hr hw (.head ds)
  case tail hm => exact h.isolated.handed key' d' hm

theorem comesFirst_of_not_crosses {takes closed : Nat → Bool} (h : ¬Crosses s (.poll takes closed))
    {i : Nat} (hi : s.rx[i]? = some (.udp d)) (ht : takes i = true) : ComesFirst s d := by
  intro key r hr hk hn
  refine Classical.byContradiction fun he => ?_
  refine h ⟨takes, closed, i, d, key, r, rfl, hi, ht, hr, hk, hn, fun own ho => ?_⟩
  exact Nat.lt_of_not_le fun hle => he ⟨own, ho, hle⟩

theorem keeps_sound : Keeps step (fun s e => ¬Crosses s e) Sound := by
  intro s e s' h hn hs
  cases e <;> simp only [step] at hs
  case inject p => exact Option.some.inj hs ▸ h.demuxAndEnqueue p
  case poll takes closed =>
    exact Option.some.inj hs ▸ h.poll takes closed fun i d => comesFirst_of_not_crosses hn
  case opened key ok =>
    split at hs
    case h_2 => cases hs
    case h_1 r hr =>
      split at hs
      case isTrue => cases hs
      case isFalse =>
        split at hs <;> cases hs
        case isTrue  => exact h.setRelay hr rfl rfl
        case isFalse => exact h.finish hr
  case recv key ok =>
    split at hs
    case h_2 => cases hs
    case h_1 r hr =>
      split at hs <;> cases hs
      case h_1 d ds _ hw => exact h.recv (get_of_relaying hr) hw ok
  case reply key data ok =>
    split at hs
    case h_2 => cases hs
    case h_1 r hr =>
      have hc := h.client key r (get_of_relaying hr)
      split at hs
      case isFalse => cases hs
      case isTrue =>
        split at hs <;> cases hs
        case isTrue  => exact h.update r.handle fun o sock hf => hf.sendSlice hc data
        case isFalse => exact h
  case egressEnds key =>
    obtain ⟨r, hr, rfl⟩ := Option.map_eq_some_iff.mp hs
    exact h.setRelay (get_of_relaying hr) rfl rfl
  case ingressEnds key =>
    obtain ⟨r, hr, rfl⟩ := Option.map_eq_some_iff.mp hs
    exact h.setRelay (get_of_relaying hr) rfl rfl
  case finished key =>
    obtain ⟨r, hr, rfl⟩ := Option.map_eq_some_iff.mp hs
    exact h.finish (get_of_relaying hr)
  case tcpFinished key closed =>
    obtain ⟨handle, hh, rfl⟩ := Option.map_eq_some_iff.mp hs
    exact h.finishTcp hh closed

theorem sound_empty : Sound {} := by
  refine ⟨fun handle => .free fun o ho => ?_, by simp, by simp, by simp⟩
  cases o <;> simp [Holds] at ho

theorem not_crosses_of_ne_poll {e : Event} (h : ∀ takes closed, e ≠ .poll takes closed) : ¬Crosses s e :=
  fun ⟨takes, closed, _, _, _, _, he, _⟩ => h takes closed he

-- Nothing crosses while the destinations of what waits belong to its sources alone.
theorem not_crosses_of_apart {e : Event}
    (h : ∀ (i : Nat) (d : Datagram) key r, s.rx[i]? = some (.udp d) → s.udpFlows.get key = some r →
      key.2 = d.key.2 → key.1 = d.key.1) : ¬Crosses s e :=
  fun ⟨_, _, i, d, key, r, _, hi, _, hr, hk, hn, _⟩ => hn (h i d key r hi hr hk)

-- In every state of a run in which no datagram crosses into another flow.
theorem flows_isolated {es : List Event} (h : Each step (fun s e => ¬Crosses s e) {} es) :
    Always step Isolated {} es :=
  (h.always keeps_sound sound_empty).mono fun _ hs => hs.isolated

end

def query (client server : BitVec 32) : Datagram :=
  ⟨⟨.v4 client, 5000⟩, ⟨.v4 server, 53⟩, [42]⟩

-- 10.0.0.2 and 10.0.0.3 ask 1.1.1.1, 10.0.0.3 asks 8.8.8.8.
def first : Datagram := query 0x0a000002 0x01010101
def second : Datagram := query 0x0a000003 0x01010101
def other : Datagram := query 0x0a000003 0x08080808

def queries (d d' : Datagram) : List Event :=
  [.inject (.udp d), .inject (.udp d'), .poll (fun _ => true) fun _ => false, .opened d.key true,
    .recv d.key true, .reply d.key [7] true, .poll (fun _ => true) fun _ => false]

-- The queries of two clients to different servers.
theorem flows_isolated_two :
    Always step Isolated {} (queries first other) ∧
      (run step {} (queries first other)).map (fun s => (s.handed, s.emitted)) =
        some ([(first.key, first)], [(first.key, ⟨first.dst, first.src, [7]⟩)]) := by
  refine ⟨flows_isolated ?_, by decide +kernel⟩
  refine fun s₁ h₁ => ⟨not_crosses_of_ne_poll (by simp), fun s₂ h₂ => ?_⟩
  refine ⟨not_crosses_of_ne_poll (by simp), ?_⟩
  cases h₁
  cases h₂
  refine fun s₃ h₃ => ⟨not_crosses_of_apart fun i d key r hi hr hk => ?_, fun s₄ h₄ => ?_⟩
  case refine_1 =>
    have hr : (if key = other.key then some _ else
      if key = first.key then some _ else none) = some r := hr
    have hkey : key = other.key ∨ key = first.key := by grind
    have hi : [.udp first, .udp other][i]? = some (Packet.udp d) := hi
    have hd : d = first ∨ d = other := by simpa using List.mem_of_getElem? hi
    rcases hkey with rfl | rfl <;> rcases hd with rfl | rfl <;> revert hk <;> decide
  case refine_2 =>
    cases h₃
    cases h₄
    refine ⟨not_crosses_of_ne_poll (by simp), fun s₅ h₅ => ?_⟩
    refine ⟨not_crosses_of_ne_poll (by simp), fun s₆ h₆ => ?_⟩
    cases h₅
    cases h₆
    refine ⟨not_crosses_of_ne_poll (by simp), fun s₇ h₇ => ⟨not_crosses_of_apart ?_, trivial⟩⟩
    rintro i d _ _ ⟨⟩

-- The query of the second client goes to the session of the first one.
theorem second_client_crosses :
    ¬Always step Isolated {} (queries first second ++ [.recv first.key true]) := by
  intro h
  have hp : (run step {} (queries first second ++ [.recv first.key true])).map
      State.handed = some [(first.key, second), (first.key, first)] := by
    decide +kernel
  have ⟨s, hs, hp⟩ := Option.map_eq_some_iff.mp hp
  have hk : first.key = second.key := by
    refine (h.of_run hs).handed _ _ ?_
    rw [hp]
    exact .head _
  revert hk
  decide

end JammVpn.Netstack
