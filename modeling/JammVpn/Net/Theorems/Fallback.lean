import JammVpn.Net.Serve

namespace JammVpn.Serve

open Timed Conn Proc

-- The outbound through which a connection has come about.
def connectedVia (tr : List (Nat × Effect)) : Option Outbound :=
  tr.findSome? fun (_, e) =>
    match e with
    | .connected ob _ => some ob
    | _               => none

theorem connectedVia_copyBidirectional (o : Open) (es : Script) (now : Nat) :
    connectedVia (copyBidirectional o es now).trace = none := by
  have hstep o now x t : connectedVia ((step o now x).1.map (t, ·)) = none := by
    obtain ⟨t', input⟩ := x
    cases input <;> simp only [step, connectedVia] <;> try rfl
    all_goals split <;> rfl
  induction es generalizing o now
  case nil => rfl
  case cons x es hi =>
    have hs := hstep o now x (max now x.1)
    cases hst : step o now x
    case mk effects next =>
      rw [hst] at hs
      cases next
      case ok o' =>
        rw [copyBidirectional_ok hst]
        simp only [connectedVia, List.findSome?_append] at hs hi ⊢
        rw [hs, hi, Option.or_none]
      case error e => rw [copyBidirectional_error hst, hs]

-- The time that a front-end leaves an attempt to connect.
def FrontEnd.limit : FrontEnd → Nat
  | httpConnect left => min left connectTimeout
  | _                => connectTimeout

-- Every outbound connects to a target or does not, however often it is tried. What takes longer than
-- the limit counts as a failure, and failures take as long as they like.
structure Realizes (net : Network) (limit : Nat) (ok : Outbound → Target → Bool) : Prop where
  connects : ∀ ob target now, ok ob target = true →
    ∃ d ≤ limit, net.dial ob target now = some (d, true)
  fails    : ∀ ob target now, ok ob target = false → ∀ d, net.dial ob target now ≠ some (d, true)

-- The chosen node if it connects, else the default node, if the rule has named another one.
def expected (ok : Outbound → Target → Bool) (routed : Routed) : Option Outbound :=
  match routed.decision with
  | .block      => none
  | .connect ob =>
    if ok ob routed.target then some ob
    else match routed.fallback, routed.chosenNode, routed.fallbackName with
      | some fb, some _, some _ => if ok fb routed.target then some fb else none
      | _, _, _                 => none

-- The chosen node does not connect, but the default node does.
def NeedsFallback (ok : Outbound → Target → Bool) (routed : Routed) : Prop :=
  ∃ ob fb, routed.decision = .connect ob ∧ ok ob routed.target = false ∧
    routed.fallback = some fb ∧ routed.chosenNode.isSome ∧ routed.fallbackName.isSome ∧
    ok fb routed.target = true

-- A network where every attempt ends at once.
def assignedNetwork (ok : Outbound → Target → Bool) : Network where
  resolve _ := .error "no resolver"
  lookup _ _ := 0
  dial ob target _ := some (0, ok ob target)

section

variable {net : Network} {ok : Outbound → Target → Bool} {ob : Outbound} {target : Target}
variable {es : Script} {now limit : Nat} {routed : Routed} {fe : FrontEnd}

theorem realizes_assignedNetwork : Realizes (assignedNetwork ok) limit ok where
  connects ob target now h := ⟨0, Nat.zero_le limit, by simp [assignedNetwork, h]⟩
  fails ob target now h d := by simp [assignedNetwork, h]

theorem FrontEnd.limit_le : fe.limit ≤ connectTimeout := by
  cases fe
  case httpConnect left => exact Nat.min_le_right left connectTimeout
  all_goals exact Nat.le_refl connectTimeout

theorem attempt_fails (hf : ∀ now d, net.dial ob target now ≠ some (d, true)) :
    ∃ r t, (connectTcp net ob target).timeout connectTimeout es now =
      { trace := [], done := some (r, es, t) } ∧ r ≠ some true := by
  cases hd : net.dial ob target now
  case none => exact ⟨none, now + connectTimeout, by simp [timeout, Outcome.cut, connectTcp, hd]⟩
  case some r =>
    obtain ⟨d, b⟩ := r
    cases b
    case true  => exact absurd hd (hf now d)
    case false =>
      by_cases hl : now + d ≤ now + connectTimeout
      · exact ⟨some false, now + d, by simp [timeout, Outcome.cut, connectTcp, hd, hl]⟩
      · exact ⟨none, now + connectTimeout, by simp [timeout, Outcome.cut, connectTcp, hd, hl]⟩

theorem connectWithRetryFrom_fails (hf : ∀ now d, net.dial ob target now ≠ some (d, true)) (n k : Nat) :
    ∃ t, connectWithRetryFrom net ob target n k es now =
      { trace := [], done := some (false, es, t) } := by
  induction n generalizing k now
  case zero => exact ⟨now, rfl⟩
  case succ n hi =>
    obtain ⟨r, t, ha, hr⟩ := @attempt_fails net ob target es now hf
    rw [connectWithRetryFrom, bind_of_silent ha]
    split
    case h_1 => exact absurd rfl hr
    case h_2 =>
      split
      case isTrue  => exact ⟨t, rfl⟩
      case isFalse =>
        obtain ⟨t', ht⟩ := @hi (t + 60 * (k * 2 + 1)) (k + 1)
        refine ⟨t', ?_⟩
        rw [bind_of_done (p := sleep (60 * (k * 2 + 1))) rfl, ht]
        rfl

theorem connectWithRetry_fails (hf : ∀ now d, net.dial ob target now ≠ some (d, true)) :
    ∃ t, connectWithRetry net ob target es now = { trace := [], done := some (false, es, t) } :=
  connectWithRetryFrom_fails hf connectAttempts 0

variable {d : Nat} {α β : Type} {p : Task α} {f : α → Task β} {a : α} {es' : Script} {t : Nat}

theorem connectedVia_append (xs ys : List (Nat × Effect)) :
    connectedVia (xs ++ ys) = (connectedVia xs).or (connectedVia ys) :=
  List.findSome?_append

theorem connectedVia_bind_pure (f : α → β) :
    connectedVia ((p >>= fun a => pure (f a)) es now).trace = connectedVia (p es now).trace := by
  cases hd : (p es now).done
  case none   => rw [bind_of_never hd]
  case some r => rw [bind_of_done hd, pure_apply, List.append_nil]

theorem connectedVia_timeout_eq_none (h : connectedVia (p es now).trace = none) :
    connectedVia (p.timeout limit es now).trace = none := by
  simp only [connectedVia, timeout, Outcome.cut, List.findSome?_eq_none_iff] at h ⊢
  exact fun x hx => h x (List.mem_of_mem_filter hx)

-- The connection is the first thing that happens, after `d`.
def ConnectsAfter (r : Outcome Script Effect α) (ob : Outbound) (now d : Nat) : Prop :=
  ∃ target rest, r.trace = (now + d, .connected ob target) :: rest

theorem ConnectsAfter.connectedVia {r : Outcome Script Effect α} (h : ConnectsAfter r ob now d) :
    Serve.connectedVia r.trace = some ob := by
  have ⟨_, _, h⟩ := h
  simp [h, Serve.connectedVia]

theorem ConnectsAfter.bind (h : ConnectsAfter (p es now) ob now d) :
    ConnectsAfter ((p >>= f) es now) ob now d := by
  have ⟨target, rest, h⟩ := h
  cases hd : (p es now).done
  case none   => exact ⟨target, rest, by rw [bind_of_never hd, h]⟩
  case some r => exact ⟨target, _, by rw [bind_of_done hd, h, List.cons_append]⟩

theorem ConnectsAfter.timeout (h : ConnectsAfter (p es now) ob now d) (hd : d ≤ limit) :
    ConnectsAfter (p.timeout limit es now) ob now d := by
  have ⟨target, rest, h⟩ := h
  refine ⟨target, rest.filter (·.1 ≤ now + limit), ?_⟩
  simp [Proc.timeout, Outcome.cut, h, hd]

theorem connectRouted_connects (hd : net.dial ob routed.target now = some (d, true))
    (hl : d ≤ connectTimeout) : ConnectsAfter (connectRouted net routed ob es now) ob now d := by
  have hc := @connectWithRetry_of_dial net es now ob routed.target d hd hl
  rw [connectRouted, ConnectsAfter, bind_of_silent hc]
  exact ⟨routed.target, [], rfl⟩

theorem setUpRouted_connects {replies : Replies} {greet : Effect}
    (hr : routed.decision = .connect ob) (hd : net.dial ob routed.target now = some (d, true))
    (hl : d ≤ connectTimeout) :
    ConnectsAfter (setUpRouted net replies greet routed es now) ob now d := by
  simp only [setUpRouted, hr]
  exact (connectRouted_connects hd hl).bind

theorem redirectRouted_connects (hr : routed.decision = .connect ob)
    (hd : net.dial ob routed.target now = some (d, true)) (hl : d ≤ connectTimeout) :
    ConnectsAfter (redirectRouted net routed es now) ob now d := by
  have hc := @connectWithRetry_of_dial net es now ob routed.target d hd hl
  simp only [redirectRouted, hr]
  rw [ConnectsAfter, bind_of_silent hc]
  exact ⟨routed.target, _, rfl⟩

theorem relayTcpRouted_connects {dst : Target} (hr : routed.decision = .connect ob)
    (hd : net.dial ob routed.target now = some (d, true)) :
    ConnectsAfter (relayTcpRouted net dst routed es now) ob now d := by
  have hc : connectTcp net ob routed.target es now =
      { trace := [], done := some (true, es, now + d) } := by simp [connectTcp, hd]
  simp only [relayTcpRouted, hr]
  rw [ConnectsAfter, bind_of_silent hc]
  exact ⟨routed.target, _, rfl⟩

theorem serve_connects (h : Realizes net fe.limit ok) (hr : routed.decision = .connect ob)
    (ho : ok ob routed.target = true) :
    connectedVia (fe.serve net routed es now).trace = some ob := by
  have ⟨d, hl, hd⟩ := h.connects ob routed.target now ho
  have ht := Nat.le_trans hl fe.limit_le
  cases fe
  case socks            => exact (setUpRouted_connects hr hd ht).bind.connectedVia
  case httpConnect left =>
    have hs : ConnectsAfter _ ob now d := (@setUpRouted_connects net ob es now routed d httpReplies
      (.reply httpReplies.established) hr hd ht).bind (f := relay)
    exact (hs.timeout (Nat.le_trans hl (Nat.min_le_left left _))).bind.connectedVia
  case redirect         => exact (redirectRouted_connects hr hd ht).connectedVia
  case netstack dst     => exact (relayTcpRouted_connects hr hd).connectedVia

theorem connectedVia_relay (r : Except End Unit) : connectedVia (relay r es now).trace = none := by
  cases r
  case error => rfl
  case ok    => exact connectedVia_copyBidirectional {} es now

theorem connectRouted_fails (h : Realizes net limit ok) (hr : routed.decision = .connect ob)
    (ho : ok ob routed.target = false) (hn : ¬NeedsFallback ok routed) :
    ∃ t, connectRouted net routed ob es now = { trace := [], done := some (none, es, t) } := by
  obtain ⟨t, hc⟩ := @connectWithRetry_fails net ob routed.target es now (h.fails ob routed.target · ho)
  rw [connectRouted, bind_of_silent hc]
  simp only [Bool.false_eq_true, if_false]
  cases hb : routed.fallback <;> cases hcn : routed.chosenNode <;> cases hfn : routed.fallbackName <;>
    try exact ⟨t, rfl⟩
  case some.some.some fb node name =>
    have hf : ok fb routed.target = false := by
      apply Bool.eq_false_iff.mpr
      exact fun hf => hn ⟨ob, fb, hr, ho, hb, by simp [hcn], by simp [hfn], hf⟩
    obtain ⟨t', hc⟩ := @connectWithRetry_fails net fb routed.target es t (h.fails fb routed.target · hf)
    simp only
    rw [bind_of_silent hc]
    exact ⟨t', rfl⟩

theorem setUpRouted_fails {replies : Replies} {greet : Effect} (h : Realizes net limit ok)
    (hr : routed.decision = .connect ob) (ho : ok ob routed.target = false)
    (hn : ¬NeedsFallback ok routed) :
    connectedVia ((setUpRouted net replies greet routed >>= relay) es now).trace = none := by
  have ⟨t, hc⟩ := @connectRouted_fails net ok ob es now limit routed h hr ho hn
  have hs : setUpRouted net replies greet routed es now =
      { trace := [(t, .reply replies.unreachable)], done := some (.error .unreachable, es, t) } := by
    simp only [setUpRouted, hr]
    rw [bind_of_silent hc]
    rfl
  rw [bind_of_done (by rw [hs]), hs, connectedVia_append, connectedVia_relay]
  rfl

theorem redirectRouted_fails (h : Realizes net limit ok) (hr : routed.decision = .connect ob)
    (ho : ok ob routed.target = false) :
    connectedVia (redirectRouted net routed es now).trace = none := by
  have ⟨t, hc⟩ := @connectWithRetry_fails net ob routed.target es now (h.fails ob routed.target · ho)
  simp only [redirectRouted, hr]
  rw [bind_of_silent hc]
  rfl

theorem relayTcpRouted_fails {dst : Target} (h : Realizes net limit ok)
    (hr : routed.decision = .connect ob) (ho : ok ob routed.target = false) :
    connectedVia (relayTcpRouted net dst routed es now).trace = none := by
  simp only [relayTcpRouted, hr]
  cases hd : net.dial ob routed.target now
  case none =>
    rw [bind_of_never (by simp [connectTcp, hd])]
    rfl
  case some r =>
    obtain ⟨d, b⟩ := r
    cases b
    case true  => exact absurd hd (h.fails ob routed.target now ho d)
    case false =>
      have hc : connectTcp net ob routed.target es now =
          { trace := [], done := some (false, es, now + d) } := by simp [connectTcp, hd]
      rw [bind_of_silent hc]
      rfl

theorem serve_fails (h : Realizes net limit ok) (hr : routed.decision = .connect ob)
    (ho : ok ob routed.target = false) (hn : ¬NeedsFallback ok routed) :
    connectedVia (fe.serve net routed es now).trace = none := by
  cases fe
  case socks            => exact setUpRouted_fails h hr ho hn
  case httpConnect left =>
    rw [FrontEnd.serve, connectedVia_bind_pure]
    exact connectedVia_timeout_eq_none (setUpRouted_fails h hr ho hn)
  case redirect         => exact redirectRouted_fails h hr ho
  case netstack dst     => exact relayTcpRouted_fails h hr ho

theorem serve_block (hr : routed.decision = .block) :
    connectedVia (fe.serve net routed es now).trace = none := by
  have hs (replies : Replies) (greet : Effect) :
      connectedVia ((setUpRouted net replies greet routed >>= relay) es now).trace = none := by
    simp only [setUpRouted, hr]
    rfl
  cases fe
  case socks            => exact hs socksReplies _
  case httpConnect left =>
    rw [FrontEnd.serve, connectedVia_bind_pure]
    exact connectedVia_timeout_eq_none (hs httpReplies _)
  case redirect         => simp only [FrontEnd.serve, redirectRouted, hr]; rfl
  case netstack dst     => simp only [FrontEnd.serve, relayTcpRouted, hr]; rfl

theorem expected_of_needsFallback (h : NeedsFallback ok routed) :
    ∃ fb, expected ok routed = some fb := by
  have ⟨ob, fb, hr, ho, hb, hc, hn, hf⟩ := h
  have ⟨_, hc⟩ := Option.isSome_iff_exists.mp hc
  have ⟨_, hn⟩ := Option.isSome_iff_exists.mp hn
  exact ⟨fb, by simp [expected, hr, ho, hb, hc, hn, hf]⟩

theorem expected_of_not_needsFallback (hr : routed.decision = .connect ob)
    (ho : ok ob routed.target = false) (h : ¬NeedsFallback ok routed) : expected ok routed = none := by
  simp only [expected, hr, ho, Bool.false_eq_true, if_false]
  split
  case h_1 fb node name hb hc hn =>
    apply if_neg
    exact fun hf => h ⟨ob, fb, hr, ho, hb, by simp [hc], by simp [hn], hf⟩
  case h_2 => rfl

end

-- The front-ends agree, for every network, exactly when nothing depends on the default node: redirected
-- connections and flows of the network stack never try it.
theorem same_outbound_iff (ok : Outbound → Target → Bool) (routed : Routed) :
    (∀ (net : Network) (fe : FrontEnd) (es : Script) (now : Nat), Realizes net fe.limit ok →
      connectedVia (fe.serve net routed es now).trace = expected ok routed) ↔
    ¬NeedsFallback ok routed := by
  constructor
  case mp =>
    intro h hn
    have ⟨fb, he⟩ := expected_of_needsFallback hn
    have ⟨ob, _, hr, ho, _⟩ := hn
    have hnet : Realizes (assignedNetwork ok) FrontEnd.redirect.limit ok := realizes_assignedNetwork
    have hf := h (assignedNetwork ok) .redirect [] 0 hnet
    rw [FrontEnd.serve, redirectRouted_fails hnet hr ho, he] at hf
    cases hf
  case mpr =>
    intro hn net fe es now hnet
    cases hr : routed.decision
    case block      => rw [serve_block hr, expected, hr]
    case connect ob =>
      cases ho : ok ob routed.target
      case true  => rw [serve_connects hnet hr ho]; simp [expected, hr, ho]
      case false => rw [serve_fails hnet hr ho hn, expected_of_not_needsFallback hr ho hn]

def nlNode : Outbound :=
  .trojan { server := "nl.example:443", password := "secret", transport := .tcp }

def deNode : Outbound :=
  .socks5 { server := "de.example:1080", username := none, password := none }

-- A rule has named a node that is down, and the default node is up.
def deadNode : Routed where
  decision := .connect nlNode
  target := .domain "a.example" 443
  chosenNode := some "nl"
  fallback := some deNode
  fallbackName := some "de"

theorem dead_node_differs :
    let ok := fun (ob : Outbound) (_ : Target) => decide (ob = deNode)
    let via := fun (fe : FrontEnd) =>
      connectedVia (fe.serve (assignedNetwork ok) deadNode [] 0).trace
    (∀ fe : FrontEnd, Realizes (assignedNetwork ok) fe.limit ok) ∧ expected ok deadNode = some deNode ∧
      via .socks = some deNode ∧ via (.httpConnect handshakeTimeout) = some deNode ∧
      via .redirect = none ∧ via (.netstack deadNode.target) = none := by
  refine ⟨fun _ => realizes_assignedNetwork, ?_⟩
  decide

end JammVpn.Serve
