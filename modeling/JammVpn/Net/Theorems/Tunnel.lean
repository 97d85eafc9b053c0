import JammVpn.Net.Serve

namespace JammVpn

open Timed

-- The bytes that are relayed.
def Effect.upByte : Effect → Option UInt8
  | up b => some b
  | _    => none

def Effect.downByte : Effect → Option UInt8
  | down b => some b
  | _      => none

-- An effect of setting up a connection.
def Effect.Quiet (e : Effect) : Prop :=
  e.upByte = none ∧ e.downByte = none

-- What has been delivered in the two directions.
def streams (trace : List (Nat × Effect)) : List UInt8 × List UInt8 :=
  (trace.filterMap (·.2.upByte), trace.filterMap (·.2.downByte))

theorem streams_append_of_quiet {tr tr' : List (Nat × Effect)} (h : ∀ x ∈ tr, x.2.Quiet) :
    streams (tr ++ tr') = streams tr' := by
  have hu : tr.filterMap (·.2.upByte) = [] := List.filterMap_eq_nil_iff.mpr fun x hx => (h x hx).1
  have hd : tr.filterMap (·.2.downByte) = [] := List.filterMap_eq_nil_iff.mpr fun x hx => (h x hx).2
  simp [streams, hu, hd]

namespace Serve

open Conn Proc

-- Nothing is relayed before the connection is set up.
section Quiet

theorem quiet_readByte : Emits Effect.Quiet readByte where
  effect es now x hx := by
    simp only [readByte] at hx
    split at hx <;> simp at hx
  before es now x hx := by
    simp only [readByte] at hx
    split at hx <;> simp at hx
  later es now b es' t ht := by
    simp only [readByte] at ht
    split at ht <;> cases ht <;> exact Nat.le_max_left ..

theorem quiet_readExact (n : Nat) : Emits Effect.Quiet (readExact n) := by
  induction n
  case zero => exact .pure _
  case succ n hi =>
    apply quiet_readByte.bind
    intro b
    cases b
    case none   => exact .pure _
    case some b =>
      apply hi.bind
      intro bs
      cases bs <;> exact .pure _

theorem quiet_readHttpHeadFrom (buf : List UInt8) (n : Nat) :
    Emits Effect.Quiet (Http.readHttpHeadFrom buf n) := by
  induction n generalizing buf
  case zero => exact .pure _
  case succ n hi =>
    apply quiet_readByte.bind
    intro b
    cases b
    case none   => exact .pure _
    case some b =>
      dsimp only
      split
      case isTrue  => exact .pure _
      case isFalse => exact hi _

theorem quiet_readPort : Emits Effect.Quiet Inbound.readPort := by
  apply (quiet_readExact 2).bind
  intro p
  cases p <;> exact .pure _

theorem quiet_readTarget (atyp : UInt8) : Emits Effect.Quiet (Inbound.readTarget atyp) := by
  have hsocket width ip : Emits Effect.Quiet (Inbound.readSocket width ip) := by
    apply (quiet_readExact width).bind
    intro a
    cases a
    case none   => exact .pure _
    case some a =>
      apply quiet_readPort.bind
      intro p
      cases p <;> exact .pure _
  simp only [Inbound.readTarget]
  split
  case h_1 => exact hsocket ..
  case h_2 => exact hsocket ..
  case h_3 =>
    apply quiet_readByte.bind
    intro l
    cases l
    case none   => exact .pure _
    case some l =>
      apply (quiet_readExact _).bind
      intro d
      cases d
      case none   => exact .pure _
      case some d =>
        dsimp only
        split
        case h_1 => exact .pure _
        case h_2 =>
          apply quiet_readPort.bind
          intro p
          cases p <;> exact .pure _
  case h_4 => exact .pure _

theorem quiet_readCommand : Emits Effect.Quiet Inbound.readCommand := by
  apply (quiet_readExact 4).bind
  intro head
  split
  case h_1 cmd _ atyp =>
    apply (quiet_readTarget atyp).bind
    intro addr
    cases addr
    case none      => exact .pure _
    case some addr =>
      dsimp only
      split
      case isTrue  => exact .pure _
      case isFalse =>
        split
        case isTrue  => exact .pure _
        case isFalse => exact (Emits.emit ⟨rfl, rfl⟩).bind fun _ => .pure _
  case h_2 => exact .pure _

theorem quiet_socksHandshake : Emits Effect.Quiet Inbound.socksHandshake := by
  apply (quiet_readExact 2).bind
  intro head
  split
  case h_1 version nmethods =>
    split
    case isTrue  => exact .pure _
    case isFalse =>
      apply (quiet_readExact _).bind
      intro methods
      cases methods
      case none   => exact .pure _
      case some _ => exact (Emits.emit ⟨rfl, rfl⟩).bind fun _ => quiet_readCommand
  case h_2 => exact .pure _

variable (net : Network) (engine : Engine)

theorem quiet_route (target : Target) : Emits Effect.Quiet (route net engine target) where
  effect := by simp [route]
  before := by simp [route]
  later es now _ es' t ht := by
    cases ht
    exact Nat.le_add_right ..

theorem quiet_connectTcp (ob : Outbound) (target : Target) :
    Emits Effect.Quiet (connectTcp net ob target) where
  effect := by simp [connectTcp]
  before := by simp [connectTcp]
  later es now ok es' t ht := by
    obtain ⟨r, _, he⟩ := Option.map_eq_some_iff.mp ht
    cases he
    exact Nat.le_add_right ..

theorem quiet_connectWithRetryFrom (ob : Outbound) (target : Target) (n attempt : Nat) :
    Emits Effect.Quiet (connectWithRetryFrom net ob target n attempt) := by
  induction n generalizing attempt
  case zero => exact .pure _
  case succ n hi =>
    apply ((quiet_connectTcp net ob target).timeout connectTimeout).bind
    intro r
    split
    case h_1 => exact .pure _
    case h_2 =>
      split
      case isTrue  => exact .pure _
      case isFalse => exact (Emits.sleep _).bind fun _ => hi _

theorem quiet_connectRouted (routed : Routed) (ob : Outbound) :
    Emits Effect.Quiet (connectRouted net routed ob) := by
  apply (quiet_connectWithRetryFrom net ob routed.target _ _).bind
  intro ok
  split
  case isTrue  => exact (Emits.emit ⟨rfl, rfl⟩).bind fun _ => .pure _
  case isFalse =>
    split
    case h_1 fb node name _ _ _ =>
      apply (quiet_connectWithRetryFrom net fb routed.target _ _).bind
      intro ok
      split
      case isTrue  =>
        exact (Emits.emit ⟨rfl, rfl⟩).bind fun _ => (Emits.emit ⟨rfl, rfl⟩).bind fun _ => .pure _
      case isFalse => exact .pure _
    case h_2 => exact .pure _

theorem quiet_setUp (replies : Replies) {greet : Effect} (hg : greet.Quiet) (target : Target) :
    Emits Effect.Quiet (setUp net engine replies greet target) := by
  apply (quiet_route net engine target).bind
  intro routed
  split
  case h_1 => exact (Emits.emit ⟨rfl, rfl⟩).bind fun _ => .pure _
  case h_2 ob _ =>
    apply (quiet_connectRouted net routed ob).bind
    intro via
    cases via
    case none     => exact (Emits.emit ⟨rfl, rfl⟩).bind fun _ => .pure _
    case some via =>
      exact (Emits.emit hg).bind fun _ => (Emits.emit ⟨rfl, rfl⟩).bind fun _ => .pure _

theorem quiet_setUpHttp : Emits Effect.Quiet (setUpHttp net engine) := by
  apply (quiet_readHttpHeadFrom [] 16385).bind
  intro head
  cases head
  case none      => exact .pure _
  case some head =>
    dsimp only
    split
    case h_1 => exact quiet_setUp net engine _ ⟨rfl, rfl⟩ _
    case h_2 => exact quiet_setUp net engine _ ⟨rfl, rfl⟩ _
    case h_3 => exact (Emits.emit ⟨rfl, rfl⟩).bind fun _ => .pure _

end Quiet
end Serve

namespace Conn

open Proc

section Relay

variable {o o' : Open} {es : Script} {x : Nat × Input} {now d : Nat} {effects : List Effect} {e : End}

-- The relay of a connection takes its time, and is never ended by a timeout of its own.
theorem copyBidirectional_done {es' : Script} {t : Nat}
    (h : (copyBidirectional o es now).done = some (e, es', t)) :
    now ≤ t ∧ (∀ x ∈ es.head?, x.1 ≤ t) ∧ (∀ y ∈ (copyBidirectional o es now).trace, y.1 ≤ t) ∧
      e ≠ .timedOut := by
  induction es generalizing o now
  case nil => cases h
  case cons x es hi =>
    cases hs : step o now x
    case mk effects next =>
      cases next
      case ok o' =>
        rw [copyBidirectional_ok hs] at h ⊢
        have ⟨hn, _, ht, he⟩ := hi h
        refine ⟨by omega, by simp; omega, fun y hy => ?_, he⟩
        rcases List.mem_append.mp hy with hy | hy
        · obtain ⟨_, _, rfl⟩ := List.mem_map.mp hy
          exact hn
        · exact ht y hy
      case error e =>
        rw [copyBidirectional_error hs] at h ⊢
        cases h
        refine ⟨by omega, by simp, fun y hy => ?_, fun he => ?_⟩
        · obtain ⟨_, _, rfl⟩ := List.mem_map.mp hy
          exact Nat.le_refl _
        · subst he
          obtain ⟨t, input⟩ := x
          cases input <;> simp only [step, Prod.mk.injEq] at hs <;> have hs := hs.2
          case clientClosed   => split at hs <;> cases hs
          case upstreamClosed => split at hs <;> cases hs
          case dropped        => split at hs <;> cases hs
          all_goals cases hs

theorem emits_copyCounted : Emits (fun _ => True) copyCounted where
  effect _ _ _ _ := trivial
  before _ _ x hx _ _ _ ht := (copyBidirectional_done ht).2.2.1 x hx
  later _ _ _ _ _ ht := (copyBidirectional_done ht).1

-- An event that ends a connection at once.
def Aborts (start : Nat) (x : Nat × Input) : Prop :=
  x.2 = .clientFailed ∨ x.2 = .upstreamFailed ∨ x.2 = .dropped ∧ start ≤ x.1

-- A connection that exists from `start` is over: an end has failed or the user has dropped it, or what
-- was open is closed.
def OverFrom (o : Open) (start deadline : Nat) (es : Script) : Prop :=
  (∃ x ∈ es, x.1 ≤ deadline ∧ Aborts start x) ∨
  (o.up → ∃ x ∈ es, x.1 ≤ deadline ∧ x.2 = .clientClosed) ∧
  (o.down → ∃ x ∈ es, x.1 ≤ deadline ∧ x.2 = .upstreamClosed)

def Over (start deadline : Nat) (es : Script) : Prop :=
  OverFrom {} start deadline es

theorem not_overFrom_of_late (ho : o.up ∨ o.down) (h : ∀ x ∈ es, d < x.1) : ¬OverFrom o now d es := by
  have hn (x : Nat × Input) (hx : x ∈ es) (hl : x.1 ≤ d) : False := by
    have := h x hx
    omega
  rintro (⟨x, hx, hl, -⟩ | ⟨hu, hd⟩)
  · exact hn x hx hl
  · rcases ho with ho | ho
    · obtain ⟨x, hx, hl, -⟩ := hu ho
      exact hn x hx hl
    · obtain ⟨x, hx, hl, -⟩ := hd ho
      exact hn x hx hl

theorem aborts_max {t : Nat} (h : t ≤ x.1) : Aborts (max now t) x ↔ Aborts now x := by
  have : max now t ≤ x.1 ↔ now ≤ x.1 := by omega
  simp [Aborts, this]

-- One event either ends the connection or leaves what is to come.
theorem overFrom_of_error (hx : x.1 ≤ d) (h : step o now x = (effects, .error e)) :
    OverFrom o now d (x :: es) := by
  obtain ⟨t, input⟩ := x
  have hm : (t, input) ∈ (t, input) :: es := .head _
  cases input <;> simp only [step, Prod.mk.injEq] at h <;> have h := h.2
  case client         => cases h
  case upstream       => cases h
  case clientFailed   => exact .inl ⟨_, hm, hx, .inl rfl⟩
  case upstreamFailed => exact .inl ⟨_, hm, hx, .inr (.inl rfl)⟩
  case clientClosed   =>
    split at h <;> cases h
    case isFalse hd => exact .inr ⟨fun _ => ⟨_, hm, hx, rfl⟩, fun hd' => absurd hd' hd⟩
  case upstreamClosed =>
    split at h <;> cases h
    case isFalse hu => exact .inr ⟨fun hu' => absurd hu' hu, fun _ => ⟨_, hm, hx, rfl⟩⟩
  case dropped        =>
    split at h <;> cases h
    case isFalse hn => exact .inl ⟨_, hm, hx, .inr (.inr ⟨rfl, Nat.not_lt.mp hn⟩)⟩

theorem overFrom_of_ok (hx : x.1 ≤ d) (ho : o.up ∨ o.down) (hs : ∀ y ∈ es, x.1 ≤ y.1)
    (h : step o now x = (effects, .ok o')) :
    (o'.up ∨ o'.down) ∧ (OverFrom o now d (x :: es) ↔ OverFrom o' (max now x.1) d es) := by
  have ha : (∃ y ∈ es, y.1 ≤ d ∧ Aborts (max now x.1) y) ↔ ∃ y ∈ es, y.1 ≤ d ∧ Aborts now y :=
    exists_congr fun y => and_congr_right fun hy => by rw [aborts_max (hs y hy)]
  obtain ⟨t, input⟩ := x
  simp only [OverFrom, List.exists_mem_cons_iff, ha]
  cases input <;> simp only [step, Prod.mk.injEq] at h <;> have h := h.2
  case clientFailed   => cases h
  case upstreamFailed => cases h
  case clientClosed   =>
    split at h <;> cases h
    case isTrue hd => simp [Aborts, hx, hd]
  case upstreamClosed =>
    split at h <;> cases h
    case isTrue hu => simp [Aborts, hx, hu]
  case dropped        =>
    split at h <;> cases h
    case isTrue hn => simp [Aborts, ho, Nat.not_le.mpr hn]
  all_goals
    cases h
    simp [Aborts, ho]

theorem copyBidirectional_done_iff (ho : o.up ∨ o.down) (hs : es.Pairwise (·.1 ≤ ·.1)) (hn : now ≤ d) :
    (∃ e es' t, (copyBidirectional o es now).done = some (e, es', t) ∧ t ≤ d) ↔
      OverFrom o now d es := by
  induction es generalizing o now
  case nil =>
    refine iff_of_false ?_ (not_overFrom_of_late ho (by simp))
    rintro ⟨_, _, _, h, -⟩
    cases h
  case cons x es hi =>
    have ⟨hx, hs⟩ := List.pairwise_cons.mp hs
    by_cases hl : x.1 ≤ d
    case neg =>
      refine iff_of_false ?_ (not_overFrom_of_late ho ?_)
      · rintro ⟨e, es', t, h, ht⟩
        have := (copyBidirectional_done h).2.1 x (by simp)
        omega
      · intro y hy
        rcases List.mem_cons.mp hy with rfl | hy
        · omega
        · have := hx y hy
          omega
    case pos =>
      cases hst : step o now x
      case mk effects next =>
        cases next
        case ok o' =>
          have ⟨ho', hiff⟩ := @overFrom_of_ok o o' es x now d effects hl ho hx hst
          rw [copyBidirectional_ok hst, hiff]
          exact hi ho' hs (by omega)
        case error e =>
          rw [copyBidirectional_error hst]
          exact iff_of_true ⟨e, es, _, rfl, by omega⟩ (overFrom_of_error hl hst)

end Relay
end Conn

namespace Serve

open Conn Proc

variable (net : Network) (engine : Engine)

-- A client that speaks HTTP has a connection at the time `t`; its first byte came at the time `begun`.
structure HttpTunnel (script : Script) (start begun t : Nat) (es : Script) : Prop where
  first  : ∃ b, (peek.timeout handshakeTimeout script start).done = some (some (some b), script, begun) ∧
    b ≠ 0x05
  setUp  : (setUpHttp net engine script begun).done = some (.ok (), es, t)
  inTime : t ≤ begun + handshakeTimeout

-- The same for a client that speaks SOCKS.
structure SocksTunnel (script : Script) (start t : Nat) (es : Script) : Prop where
  setUp : ∃ begun target es' t',
    (peek.timeout handshakeTimeout script start).done = some (some (some 0x05), script, begun) ∧
    (Inbound.socksHandshake.timeout handshakeTimeout script begun).done =
      some (some (some (.connect target)), es', t') ∧
    (setUpSocks net engine target es' t').done = some (.ok (), es, t)

variable {net engine} {script script' es : Script} {start start' begun t : Nat}

theorem HttpTunnel.handleHttp (h : HttpTunnel net engine script start begun t es) :
    Serve.handleHttp net engine script begun = {
      trace := (setUpHttp net engine script begun).trace ++ (copyCounted es t).trace
      done := (copyCounted es t).done
    } :=
  bind_of_done h.setUp

theorem trace_peek : (peek.timeout handshakeTimeout script start).trace = [] :=
  rfl

theorem HttpTunnel.serveRouted (h : HttpTunnel net engine script start begun t es) :
    Serve.serveRouted net engine script start =
      let r := (Serve.handleHttp net engine).timeout handshakeTimeout script begun
      { trace := r.trace, done := r.done.map fun (e, s) => (e.getD .timedOut, s) } := by
  have ⟨b, hb, hne⟩ := h.first
  have ⟨_, hd⟩ := exists_done_timeout handshakeTimeout (Serve.handleHttp net engine) script begun
  rw [Serve.serveRouted, bind_of_done hb]
  simp only [hne, ne_eq, not_false_eq_true, if_true, bind_of_done hd, hd, pure_apply, trace_peek]
  simp

theorem SocksTunnel.streams (h : SocksTunnel net engine script start t es) :
    JammVpn.streams (serveRouted net engine script start).trace =
      JammVpn.streams (copyCounted es t).trace := by
  obtain ⟨begun, target, es', t', hb, hh, hs⟩ := h.setUp
  have hq := (quiet_socksHandshake.timeout handshakeTimeout).effect script begun
  have hq' := (@quiet_setUp net engine socksReplies (.reply socksReplies.established) ⟨rfl, rfl⟩
    target).effect es' t'
  rw [serveRouted, bind_of_done hb]
  simp only [ne_eq, not_true_eq_false, if_false, handleSocks, bind_of_done hh, bind_of_done hs,
    trace_peek, List.nil_append]
  rw [streams_append_of_quiet hq]
  exact streams_append_of_quiet hq'

theorem emits_handleHttp : Emits (fun _ => True) (handleHttp net engine) := by
  have hq := quiet_setUpHttp net engine
  refine Emits.bind ⟨fun _ _ _ _ => trivial, hq.before, hq.later⟩ fun r => ?_
  cases r
  case ok    => exact emits_copyCounted
  case error => exact .pure _

-- The branch for HTTP relays what the branch for SOCKS relays, and ends for the same reasons, exactly
-- if the connection is over before the time for the handshake is.
theorem http_tunnel_like_socks_iff (hh : HttpTunnel net engine script start begun t es)
    (hs : SocksTunnel net engine script' start' t es) (hes : es.Pairwise (·.1 ≤ ·.1)) :
    (∀ s t', (serveRouted net engine script start).done ≠ some (.timedOut, s, t')) ∧
      streams (serveRouted net engine script start).trace =
        streams (serveRouted net engine script' start').trace ↔
    Over t (begun + handshakeTimeout) es := by
  have hiff := @copyBidirectional_done_iff {} es t (begun + handshakeTimeout) (.inl rfl) hes hh.inTime
  have hd : (handleHttp net engine script begun).done = (copyCounted es t).done := by rw [hh.handleHttp]
  rw [Over, ← hiff, hs.streams, hh.serveRouted]
  constructor
  case mp =>
    intro ⟨hn, _⟩
    by_contra hc
    have hl e es' t' (he : (handleHttp net engine script begun).done = some (e, es', t')) :
        begun + handshakeTimeout < t' :=
      Nat.not_le.mp fun hl => hc ⟨e, es', t', hd ▸ he, hl⟩
    have := done_timeout_of_late hl
    exact hn script (begun + handshakeTimeout) (by simp [this])
  case mpr =>
    intro ⟨e, es', t', he, hl⟩
    have hdone : (handleHttp net engine script begun).done = some (e, es', t') := hd ▸ he
    refine ⟨fun s t'' hc => ?_, ?_⟩
    · simp only [done_timeout hdone hl, Option.map_some, Option.getD_some] at hc
      cases hc
      exact (copyBidirectional_done he).2.2.2 rfl
    · have htr := emits_handleHttp.trace_timeout hdone hl
      simp only [htr]
      rw [hh.handleHttp]
      exact streams_append_of_quiet ((quiet_setUpHttp net engine).effect script begun)

-- Everything is connected directly and at once.
def directEngine : Engine where
  outbounds := .empty
  defaultProxy := none
  rules := []
  defaultAction := .direct

-- The two ways to ask for the same target.
def connectHead : List UInt8 :=
  Http.headOf [Http.ascii "CONNECT a:1 HTTP/1.1"]

def httpClient : Script :=
  Http.arrivals (connectHead.map (0, ·))

def socksClient : Script :=
  [5, 1, 0, 5, 1, 0, 3, 1, 97, 0, 1].map fun b => (0, .client b)

theorem isHead_connectHead : Http.IsHead connectHead :=
  Http.isHead_headOf (by simp) (by decide +kernel)

theorem request_connectHead : Http.request connectHead = .connect ['a'] 1 := by
  decide +kernel

theorem readHttpHead_httpClient (es : Script) :
    Http.readHttpHead (httpClient ++ es) 0 = { trace := [], done := some (some connectHead, es, 0) } := by
  have hm : (connectHead.map ((0, ·) : UInt8 → Nat × UInt8)).map (·.2) = connectHead := by simp
  have hl : Http.lastArrival 0 (connectHead.map (0, ·)) = 0 := by decide +kernel
  have := @Http.readHttpHeadFrom_isHead es 0 16385 (connectHead.map (0, ·)) []
    (by simpa [hm] using isHead_connectHead) (by decide +kernel) (by decide +kernel)
  exact this.trans (by rw [hm, hl, List.nil_append])

theorem httpTunnel_httpClient (es : Script) :
    HttpTunnel promptNetwork directEngine (httpClient ++ es) 0 0 0 es where
  first := ⟨67, rfl, by decide⟩
  setUp := by
    have hr := readHttpHead_httpClient es
    rw [setUpHttp, bind_of_done (by rw [hr])]
    simp only [request_connectHead]
    rfl
  inTime := by decide

theorem socksTunnel_socksClient (es : Script) :
    SocksTunnel promptNetwork directEngine (socksClient ++ es) 0 0 es where
  setUp := ⟨0, .domain "a" 1, es, 0, rfl, rfl, rfl⟩

-- The server answers and both ends close.
def shortTalk : Script :=
  [(20, .client 0x3f), (30, .upstream 0x21), (40, .upstreamClosed), (50, .clientClosed)]

theorem http_tunnel_like_socks_iff_shortTalk :
    streams (serveRouted promptNetwork directEngine (httpClient ++ shortTalk) 0).trace =
      streams (serveRouted promptNetwork directEngine (socksClient ++ shortTalk) 0).trace := by
  refine ((http_tunnel_like_socks_iff (httpTunnel_httpClient shortTalk)
    (socksTunnel_socksClient shortTalk) (by decide)).mpr ?_).2
  refine .inr ⟨fun _ => ⟨(50, .clientClosed), ?_⟩, fun _ => ⟨(40, .upstreamClosed), ?_⟩⟩
  · simp [shortTalk, handshakeTimeout]
  · simp [shortTalk, handshakeTimeout]

-- The server answers after eleven seconds.
def slowTalk : Script :=
  [(20, .client 0x3f), (11000, .upstream 0x21)]

theorem http_tunnel_cut_off :
    HttpTunnel promptNetwork directEngine (httpClient ++ slowTalk) 0 0 0 slowTalk ∧
    SocksTunnel promptNetwork directEngine (socksClient ++ slowTalk) 0 0 slowTalk ∧
    (∃ s, (serveRouted promptNetwork directEngine (httpClient ++ slowTalk) 0).done =
      some (.timedOut, s, 10000)) ∧
    streams (serveRouted promptNetwork directEngine (httpClient ++ slowTalk) 0).trace = ([0x3f], []) ∧
    streams (serveRouted promptNetwork directEngine (socksClient ++ slowTalk) 0).trace =
      ([0x3f], [0x21]) := by
  have hh := httpTunnel_httpClient slowTalk
  have hs := socksTunnel_socksClient slowTalk
  refine ⟨hh, hs, ?_, ?_, ?_⟩
  · have hd : (handleHttp promptNetwork directEngine (httpClient ++ slowTalk) 0).done = none := by
      rw [hh.handleHttp]
      rfl
    have hl e es t (he : (handleHttp promptNetwork directEngine (httpClient ++ slowTalk) 0).done =
        some (e, es, t)) : 0 + handshakeTimeout < t := by
      rw [hd] at he
      cases he
    refine ⟨httpClient ++ slowTalk, ?_⟩
    rw [hh.serveRouted]
    simp only [done_timeout_of_late hl]
    rfl
  · have hq := (quiet_setUpHttp promptNetwork directEngine).effect (httpClient ++ slowTalk) 0
    rw [hh.serveRouted]
    simp only [timeout, Outcome.cut, hh.handleHttp, List.filter_append]
    exact streams_append_of_quiet fun x hx => hq x (List.mem_of_mem_filter hx)
  · exact hs.streams.trans rfl

end Serve
end JammVpn
