import JammVpn.Net.Serve

namespace JammVpn

open Text Timed

-- The address in the request line of a plain request. The host is a name or an address; IPv6 addresses
-- stand in brackets.
structure HttpAddress where
  host      : List Char
  bracketed : Bool := false
  port      : Option Nat := none
  path      : List Char := []
  host_ne   : host ≠ []
  host_ok   : ∀ c ∈ host, isWhitespace c = false ∧ c ≠ '/' ∧
    if bracketed then c ≠ ']' else c ≠ ':' ∧ c ≠ '['
  port_lt   : ∀ p ∈ port, p < 65536
  path_ok   : ∀ c ∈ path, isWhitespace c = false
  path_abs  : path = [] ∨ path.head? = some '/'

namespace HttpAddress

def portText (a : HttpAddress) : List Char :=
  match a.port with
  | some p => ':' :: decimal p
  | none   => []

def authority (a : HttpAddress) : List Char :=
  (if a.bracketed then '[' :: a.host ++ [']'] else a.host) ++ a.portText

def text (a : HttpAddress) : List Char :=
  "http://".toList ++ (a.authority ++ a.path)

def portNumber (a : HttpAddress) : Nat :=
  a.port.getD 80

def target (a : HttpAddress) : Target :=
  .domain (.ofList a.host) a.portNumber

def origin (a : HttpAddress) : List Char :=
  if a.path = [] then ['/'] else a.path

variable (a : HttpAddress)

theorem isWhitespace_of_isDigit {c : Char} (h : c.isDigit = true) : isWhitespace c = false := by
  simp only [Char.isDigit, ge_iff_le, Bool.and_eq_true, decide_eq_true_eq, UInt32.le_iff_toNat_le] at h
  have h₁ : 48 ≤ c.toNat := h.1
  have h₂ : c.toNat ≤ 57 := h.2
  simp only [isWhitespace, Bool.or_eq_false_iff, Bool.and_eq_false_iff, decide_eq_false_iff_not,
    beq_eq_false_iff_ne]
  omega

theorem mem_authority {c : Char} (h : c ∈ a.authority) :
    c ∈ a.host ∨ c = '[' ∨ c = ']' ∨ c = ':' ∨ c.isDigit = true := by
  simp only [authority, portText, List.mem_append] at h
  rcases h with h | h
  · split at h <;> simp_all
    rcases h with h | h | h <;> simp [h]
  · split at h <;> simp_all
    rcases h with h | h
    · simp [h]
    · simp [digit_of_mem_decimal h]

theorem slash_not_mem_authority : '/' ∉ a.authority := by
  intro h
  rcases a.mem_authority h with h | h | h | h | h
  · exact (a.host_ok _ h).2.1 rfl
  all_goals simp at h

theorem isWhitespace_text {c : Char} (h : c ∈ a.text) : isWhitespace c = false := by
  have hs : ∀ c ∈ "http://".toList, isWhitespace c = false := by
    simp [isWhitespace]
  have h : c ∈ "http://".toList ++ (a.authority ++ a.path) := h
  simp only [List.mem_append] at h
  rcases h with h | h | h
  · exact hs c h
  · rcases a.mem_authority h with h | h | h | h | h
    · exact (a.host_ok c h).1
    · subst h; decide
    · subst h; decide
    · subst h; decide
    · exact isWhitespace_of_isDigit h
  · exact a.path_ok c h

theorem text_ne_nil : a.text ≠ [] := by
  intro h
  have hn : "http://".toList ≠ [] := by simp
  exact hn (List.append_eq_nil_iff.mp h).1

theorem parsePort_decimal {p : Nat} (h : p < 65536) (default : Nat) :
    Http.parsePort (decimal p) default = p := by
  simp [Http.parsePort, parseUnsigned_decimal h]

theorem splitHostPort_bracketed (hb : a.bracketed = true) :
    Http.splitHostPort a.authority 80 = (a.host, a.portNumber) := by
  have hc : ']' ∉ a.host := fun h => by
    have := (a.host_ok _ h).2.2
    simp [hb] at this
  cases hp : a.port
  case none =>
    have ha : a.authority = '[' :: (a.host ++ [']']) := by simp [authority, portText, hb, hp]
    have hs : splitOnceOn "]:".toList (a.host ++ [']']) = none := splitOnceOn_eq_none hc
    simp only [Http.splitHostPort, ha, stripPrefix, if_true, Option.bind_some, hs]
    simp [portNumber, hp]
  case some p =>
    have ha : a.authority = '[' :: (a.host ++ ']' :: ([':'] ++ decimal p)) := by
      simp [authority, portText, hb, hp]
    have hs : splitOnceOn "]:".toList (a.host ++ ']' :: ([':'] ++ decimal p)) =
        some (a.host, decimal p) := splitOnceOn_append hc _
    simp only [Http.splitHostPort, ha, stripPrefix, if_true, Option.bind_some, hs]
    simp [portNumber, hp, parsePort_decimal (a.port_lt p hp)]

theorem stripPrefix_authority (hb : a.bracketed = false) : stripPrefix ['['] a.authority = none := by
  apply stripPrefix_single_eq_none
  intro h
  cases hh : a.host
  case nil => exact a.host_ne hh
  case cons c cs =>
    have hc : c = '[' := by simpa [authority, hb, hh] using h
    have := (a.host_ok c (by simp [hh])).2.2
    simp [hb, hc] at this

theorem splitHostPort_plain (hb : a.bracketed = false) :
    Http.splitHostPort a.authority 80 = (a.host, a.portNumber) := by
  have hc : ':' ∉ a.host := fun h => by
    have := (a.host_ok _ h).2.2
    simp [hb] at this
  have hn := a.stripPrefix_authority hb
  cases hp : a.port
  case none =>
    have ha : a.authority = a.host := by simp [authority, portText, hb, hp]
    rw [ha] at hn ⊢
    simp [Http.splitHostPort, hn, rsplitOnce_eq_none hc, portNumber, hp]
  case some p =>
    have ha : a.authority = a.host ++ ':' :: decimal p := by simp [authority, portText, hb, hp]
    have hd : ':' ∉ decimal p := not_mem_decimal (by decide) p
    rw [ha] at hn ⊢
    simp [Http.splitHostPort, hn, rsplitOnce_append hd, a.host_ne, portNumber, hp,
      parsePort_decimal (a.port_lt p hp)]

theorem splitHostPort_authority : Http.splitHostPort a.authority 80 = (a.host, a.portNumber) := by
  cases hb : a.bracketed
  case true  => exact a.splitHostPort_bracketed hb
  case false => exact a.splitHostPort_plain hb

theorem parseAbsoluteUri_text :
    Http.parseAbsoluteUri a.text = some (a.host, a.portNumber, a.origin) := by
  have hs : ∀ c ∈ a.authority, (c != '/') = true := fun c hc => by
    have hne : c ≠ '/' := fun he => a.slash_not_mem_authority (he ▸ hc)
    simpa using hne
  have ht : a.path.takeWhile (· != '/') = [] ∧ a.path.dropWhile (· != '/') = a.path := by
    cases hp : a.path
    case nil => simp
    case cons c cs =>
      have hc : c = '/' := by simpa [hp] using a.path_abs
      simp [hc]
  have hw : (a.authority ++ a.path).takeWhile (· != '/') = a.authority := by
    rw [List.takeWhile_append_of_pos hs, ht.1, List.append_nil]
  have hd : (a.authority ++ a.path).dropWhile (· != '/') = a.path := by
    rw [List.dropWhile_append_of_pos hs, ht.2]
  have hp : stripPrefix "http://".toList a.text = some (a.authority ++ a.path) :=
    stripPrefix_append _ _
  rw [Http.parseAbsoluteUri, hp]
  simp only [Option.some_or, Option.bind_eq_bind, Option.bind_some, hw, hd, splitHostPort_authority]
  simp [a.host_ne, origin]

end HttpAddress

-- A request with its address in absolute form, as clients send it to a proxy.
structure PlainRequest where
  method      : List Char
  address     : HttpAddress
  headers     : List (List UInt8) := []
  body        : List UInt8 := []
  method_ne   : method ≠ []
  method_ok   : ∀ c ∈ method, isWhitespace c = false
  not_connect : Http.eqIgnoreAsciiCase method "CONNECT".toList = false
  headers_ok  : ∀ l ∈ headers, l ≠ [] ∧ 0x0d ∉ l

namespace PlainRequest

variable (r : PlainRequest)

def line : List Char :=
  r.method ++ ' ' :: (r.address.text ++ ' ' :: "HTTP/1.1".toList)

def head : List UInt8 :=
  Http.headOf (Utf8.encode r.line :: r.headers)

def raw : List UInt8 :=
  r.head ++ r.body

-- The head that is sent to the server itself.
def originHead : List UInt8 :=
  Utf8.encode (r.method ++ ' ' :: r.address.origin ++ " HTTP/1.1\r\n".toList) ++ Http.headOf r.headers

def origin : List UInt8 :=
  r.originHead ++ r.body

theorem encode_crlf : Utf8.encode ['\r', '\n'] = Http.crlf := by
  decide

theorem cr_not_mem_line : '\r' ∉ r.line := by
  intro h
  have hw : isWhitespace '\r' = true := by decide
  have hv : '\r' ∉ "HTTP/1.1".toList := by simp only [String.reduceToList]; decide
  have h : '\r' ∈ r.method ++ ' ' :: (r.address.text ++ ' ' :: "HTTP/1.1".toList) := h
  simp only [List.mem_append, List.mem_cons, Char.reduceEq, false_or, hv, or_false] at h
  rcases h with h | h
  · simp [r.method_ok _ h] at hw
  · simp [r.address.isWhitespace_text h] at hw

theorem line_ne_nil : Utf8.encode r.line ≠ [] := by
  cases hm : r.method
  case nil => exact absurd hm r.method_ne
  case cons c cs =>
    have hl : r.line = c :: (cs ++ ' ' :: (r.address.text ++ ' ' :: "HTTP/1.1".toList)) := by
      rw [line, hm]
      rfl
    have hp := Utf8.length_encodeChar_pos c
    rw [hl, Utf8.encode_cons]
    intro he
    simp_all

theorem cr_not_mem_encode_line : 0x0d ∉ Utf8.encode r.line :=
  Utf8.not_mem_encode (by decide) r.cr_not_mem_line

theorem isHead_head : Http.IsHead r.head :=
  Http.isHead_headOf (by simp) <|
    List.forall_mem_cons.mpr ⟨⟨r.line_ne_nil, r.cr_not_mem_encode_line⟩, r.headers_ok⟩

theorem head_eq : r.head = Utf8.encode r.line ++ (Http.crlf ++ Http.headOf r.headers) :=
  Http.headOf_cons

theorem parseHead_head : Http.parseHead r.head = (r.method, r.address.text) := by
  have he : r.head = Utf8.encode (r.line ++ ['\r', '\n']) ++ Http.headOf r.headers := by
    rw [head_eq, Utf8.encode_append, encode_crlf, List.append_assoc]
  obtain ⟨n, _, ht⟩ := Utf8.decodeLossy_append (r.line ++ ['\r', '\n']) (Http.headOf r.headers)
  have hl : (splitOn "\r\n".toList (Utf8.decodeLossy r.head)).head? = some r.line := by
    rw [he, ht]
    have := head?_splitOn (p := ['\n']) r.cr_not_mem_line (Utf8.decodeLossyCore n (Http.headOf r.headers))
    simpa using this
  have hw : splitWhitespace r.line =
      r.method :: r.address.text :: splitWhitespace "HTTP/1.1".toList := by
    rw [line, splitWhitespace_word r.method_ne r.method_ok (by decide),
      splitWhitespace_word r.address.text_ne_nil (fun _ hc => r.address.isWhitespace_text hc)
        (by decide)]
  simp only [Http.parseHead, hl, Option.getD_some, hw]
  simp

theorem headersBlock_append {l : List UInt8} (h : 0x0d ∉ l) (rest : List UInt8) :
    Http.headersBlock (l ++ (Http.crlf ++ rest)) = rest := by
  induction l
  case nil => simp [Http.headersBlock, Http.crlf]
  case cons b l hi =>
    obtain ⟨hb, hl⟩ := not_or.mp (List.mem_cons.not.mp h)
    have hn : ¬Http.crlf <+: b :: (l ++ (Http.crlf ++ rest)) :=
      fun hp => hb (List.cons_prefix_cons.mp hp).1
    rw [List.cons_append, Http.headersBlock, if_neg hn, hi hl]

theorem request_head :
    Http.request r.head = .forward r.address.host r.address.portNumber r.originHead := by
  simp only [Http.request, parseHead_head, r.not_connect, HttpAddress.parseAbsoluteUri_text]
  simp only [Http.originForm, head_eq, headersBlock_append r.cr_not_mem_encode_line]
  rfl

end PlainRequest

namespace Serve

open Conn Proc

-- Who gets the bytes that leave the proxy: each goes to the latest connection.
def forwardedOn : Option (Outbound × Target) → List (Nat × Effect) →
    List ((Outbound × Target) × UInt8)
  | _, []                                  => []
  | _, (_, .connected ob target) :: tr     => forwardedOn (some (ob, target)) tr
  | some c, (_, .request bs) :: tr         => bs.map (c, ·) ++ forwardedOn (some c) tr
  | some c, (_, .up b) :: tr               => (c, b) :: forwardedOn (some c) tr
  | c, _ :: tr                             => forwardedOn c tr

def forwarded (tr : List (Nat × Effect)) : List ((Outbound × Target) × UInt8) :=
  forwardedOn none tr

-- How many requests were answered with 403.
def forbidden (tr : List (Nat × Effect)) : Nat :=
  tr.countP (·.2 = .reply httpReplies.blocked)

variable (net : Network) (engine : Engine)

-- Where the engine sends a request; `none` if it is to be blocked.
def destination (r : PlainRequest) : Option (Outbound × Target) :=
  let routed := engine.route net.resolve r.address.target
  match routed.decision with
  | .connect ob => some (ob, routed.target)
  | .block      => none

-- Every request, with the address or without it, is sent where the engine sends it.
inductive Delivered : List PlainRequest → List ((Outbound × Target) × UInt8) → Prop
  | nil : Delivered [] []
  | forwarded {r : PlainRequest} {rs : List PlainRequest} {c : Outbound × Target} {bs : List UInt8}
    {bytes : List ((Outbound × Target) × UInt8)} :
    destination net engine r = some c → bs = r.raw ∨ bs = r.origin → Delivered rs bytes →
    Delivered (r :: rs) (bs.map (c, ·) ++ bytes)
  | blocked {r : PlainRequest} {rs : List PlainRequest} {bytes : List ((Outbound × Target) × UInt8)} :
    destination net engine r = none → Delivered rs bytes → Delivered (r :: rs) bytes

def RoutedByHost (rs : List PlainRequest) (tr : List (Nat × Effect)) : Prop :=
  Delivered net engine rs (forwarded tr) ∧
  forbidden tr = rs.countP (destination net engine · = none)

def clientBytes (es : Script) : List UInt8 :=
  es.filterMap fun x => match x.2 with
    | .client b => some b
    | _         => none

-- No end closes or fails.
def Steady (es : Script) : Prop :=
  ∀ x ∈ es, (∃ b, x.2 = .client b) ∨ ∃ b, x.2 = .upstream b

-- The client sends the requests one after the other over one connection, at any times. A server can
-- answer once the first head has been read; when everything has been sent, anything may happen.
inductive Sends : Script → List PlainRequest → Prop
  | nil {es : Script} : clientBytes es = [] → Sends es []
  | cons {bs : List (Nat × UInt8)} {es rest : Script} {r : PlainRequest} {rs : List PlainRequest} :
    bs.map (·.2) = r.head → Steady es → clientBytes es = r.body ++ rs.flatMap (·.raw) →
    clientBytes rest = [] → Sends (Http.arrivals bs ++ (es ++ rest)) (r :: rs)

-- The first head fits, and the other requests go where the first one goes.
def OneDestination : List PlainRequest → Prop
  | []      => True
  | r :: rs => r.head.length ≤ 16385 ∧
    (rs = [] ∨ ∃ c, destination net engine r = some c ∧ ∀ r' ∈ rs, destination net engine r' = some c)

section Relay

variable {o : Open} {es rest : Script} {now : Nat} {c : Outbound × Target}

theorem clientBytes_cons (x : Nat × Input) : clientBytes (x :: es) = clientBytes [x] ++ clientBytes es :=
  List.filterMap_append (l := [x])

-- The effects of an event are its byte, or nothing that would count.
theorem forwardedOn_step (x : Nat × Input) (t : Nat) (tr : List (Nat × Effect)) :
    forwardedOn (some c) ((step o now x).1.map (t, ·) ++ tr) =
      (if o.up then (clientBytes [x]).map (c, ·) else []) ++ forwardedOn (some c) tr := by
  obtain ⟨t', input⟩ := x
  cases input <;> simp only [step, clientBytes] <;> split <;> simp [forwardedOn]

theorem forwardedOn_relay_nothing (h : clientBytes es = []) :
    forwardedOn (some c) (copyBidirectional o es now).trace = [] := by
  induction es generalizing o now
  case nil => rfl
  case cons x es hi =>
    have ⟨hx, hes⟩ := List.append_eq_nil_iff.mp ((clientBytes_cons x).symm.trans h)
    have hs tr := @forwardedOn_step o now c x (max now x.1) tr
    simp only [hx, List.map_nil, ite_self, List.nil_append] at hs
    cases hst : step o now x
    case mk effects next =>
      cases next
      case ok o' =>
        rw [copyBidirectional_ok hst]
        exact (hst ▸ hs _).trans (hi hes)
      case error e =>
        rw [copyBidirectional_error hst]
        simpa [hst, forwardedOn] using hs []

-- Everything that the client sends goes to the connection.
theorem forwardedOn_relay (h : Steady es) (hr : clientBytes rest = []) :
    forwardedOn (some c) (copyBidirectional {} (es ++ rest) now).trace =
      (clientBytes es).map (c, ·) := by
  induction es generalizing now
  case nil => exact forwardedOn_relay_nothing hr
  case cons x es hi =>
    have ⟨hx, hes⟩ := List.forall_mem_cons.mp h
    have hst : step {} now x = ((step {} now x).1, .ok {}) := by
      obtain ⟨t, input⟩ := x
      obtain ⟨b, rfl⟩ | ⟨b, rfl⟩ := hx <;> rfl
    rw [List.cons_append, copyBidirectional_ok hst, forwardedOn_step, hi hes, if_pos rfl,
      ← List.map_append, ← clientBytes_cons]

theorem forbidden_append (tr tr' : List (Nat × Effect)) :
    forbidden (tr ++ tr') = forbidden tr + forbidden tr' :=
  List.countP_append

theorem forbidden_relay : forbidden (copyBidirectional o es now).trace = 0 := by
  have hstep o now (x : Nat × Input) (t : Nat) : forbidden ((step o now x).1.map (t, ·)) = 0 := by
    obtain ⟨t', input⟩ := x
    cases input <;> simp only [step] <;> try split
    all_goals simp [forbidden]
  induction es generalizing o now
  case nil => rfl
  case cons x es hi =>
    have hs := hstep o now x (max now x.1)
    cases hst : step o now x
    case mk effects next =>
      rw [hst] at hs
      cases next
      case ok o'   => rw [copyBidirectional_ok hst, forbidden_append, hs, hi]
      case error e => rw [copyBidirectional_error hst, hs]

end Relay

section Handle

variable {net engine} {script es rest : Script} {now : Nat} {r : PlainRequest} {rs : List PlainRequest}
variable {bs : List (Nat × UInt8)} {c : Outbound × Target}

theorem readHttpHead_head (hb : bs.map (·.2) = r.head) (hl : r.head.length ≤ 16385) :
    ∃ t, Http.readHttpHead (Http.arrivals bs ++ es) now =
      { trace := [], done := some (some r.head, es, t) } := by
  have hn : bs ≠ [] := by
    rintro rfl
    have := r.isHead_head.1.length_le
    simp [← hb, Http.crlf] at this
  have hh : Http.IsHead ([] ++ bs.map (·.2)) := by simpa [hb] using r.isHead_head
  have hlen : bs.length ≤ 16385 := by simpa [← hb] using hl
  have := @Http.readHttpHeadFrom_isHead es now 16385 bs [] hh hn hlen
  exact ⟨Http.lastArrival now bs, this.trans (by simp [hb])⟩

-- The rest of the task depends on the request alone.
theorem setUpHttp_head {t : Nat}
    (h : Http.readHttpHead script now = { trace := [], done := some (some r.head, es, t) }) :
    setUpHttp net engine script now =
      setUp net engine httpReplies (.request r.originHead) r.address.target es t := by
  rw [setUpHttp, bind_of_done (by rw [h]), h]
  simp only [r.request_head]
  rfl

theorem handleHttp_connect (h : Reachable net) (hb : bs.map (·.2) = r.head)
    (hl : r.head.length ≤ 16385) (hd : destination net engine r = some c) :
    ∃ t, (handleHttp net engine (Http.arrivals bs ++ es) now).trace =
      [(t, .connected c.1 c.2), (t, .request r.originHead), (t, .register c.2 (viaLabel c.1))] ++
        (copyCounted es t).trace := by
  have ⟨t₀, hr⟩ := @readHttpHead_head es now r bs hb hl
  simp only [destination] at hd
  split at hd <;> cases hd
  case h_1 ob hob =>
    have ⟨t, ht⟩ := @setUp_connect net engine es t₀ ob r.address.target httpReplies
      (.request r.originHead) h hob
    have hs := (setUpHttp_head hr).trans ht
    refine ⟨t, ?_⟩
    rw [handleHttp, bind_of_done (by rw [hs]), hs]
    rfl

theorem handleHttp_block (hb : bs.map (·.2) = r.head) (hl : r.head.length ≤ 16385)
    (hd : destination net engine r = none) :
    ∃ t, (handleHttp net engine (Http.arrivals bs ++ es) now).trace =
      [(t, .reply httpReplies.blocked)] := by
  have ⟨t₀, hr⟩ := @readHttpHead_head es now r bs hb hl
  simp only [destination] at hd
  split at hd <;> cases hd
  case h_2 hob =>
    have ⟨t, ht⟩ := @setUp_block net engine es t₀ r.address.target httpReplies
      (.request r.originHead) hob
    have hs := (setUpHttp_head hr).trans ht
    refine ⟨t, ?_⟩
    rw [handleHttp, bind_of_done (by rw [hs]), hs]
    rfl

-- Without a head there is nothing to do.
theorem handleHttp_no_head (h : (Http.readHttpHead script now).trace = [])
    (hd : ∀ head es' t, (Http.readHttpHead script now).done ≠ some (some head, es', t)) :
    (handleHttp net engine script now).trace = [] := by
  cases hr : (Http.readHttpHead script now).done
  case none =>
    have hs : setUpHttp net engine script now = { trace := [], done := none } := by
      rw [setUpHttp, bind_of_never hr, h]
    rw [handleHttp, bind_of_never (by rw [hs]), hs]
  case some x =>
    obtain ⟨head, es', t⟩ := x
    cases head
    case some head => exact absurd hr (hd head es' t)
    case none =>
      have hs : setUpHttp net engine script now =
          { trace := [], done := some (.error .handshake, es', t) } := by
        rw [setUpHttp, bind_of_done hr, h]
        rfl
      rw [handleHttp, bind_of_done (by rw [hs]), hs]
      rfl

theorem handleHttp_long (hb : bs.map (·.2) = r.head) (hl : 16385 < r.head.length) :
    (handleHttp net engine (Http.arrivals bs ++ es) now).trace = [] := by
  have hp (p : List UInt8) (hp : p <+: bs.map (·.2)) (hlen : p.length ≤ 16385) :
      ¬Http.crlf ++ Http.crlf <:+ [] ++ p := fun hs => by
    have := r.isHead_head.2 p (hb ▸ hp) hs
    rw [this] at hlen
    omega
  have hn : 16385 ≤ bs.length := by
    have := congrArg List.length hb
    simp only [List.length_map] at this
    omega
  have ⟨es', t, he⟩ := @Http.readHttpHeadFrom_long es now 16385 bs [] hp hn
  exact handleHttp_no_head (by rw [Http.readHttpHead, he]) (by simp [Http.readHttpHead, he])

theorem nextClient_of_nothing (h : clientBytes es = []) {t : Nat} {input : Input} {es' : Script}
    (hn : nextClient es = some ((t, input), es')) (b : UInt8) : input ≠ .client b := by
  induction es generalizing es'
  case nil => cases hn
  case cons x es hi =>
    have ⟨hx, hes⟩ := List.append_eq_nil_iff.mp ((clientBytes_cons x).symm.trans h)
    simp only [nextClient] at hn
    split at hn
    case isTrue =>
      cases hn
      rintro rfl
      simp [clientBytes] at hx
    case isFalse =>
      obtain ⟨⟨y, es''⟩, hy, he⟩ := Option.map_eq_some_iff.mp hn
      cases he
      exact hi hes hy

theorem handleHttp_nothing (h : clientBytes es = []) : (handleHttp net engine es now).trace = [] := by
  have hb : (readByte es now).trace = [] ∧ ∀ b es' t, (readByte es now).done ≠ some (some b, es', t) := by
    simp only [readByte]
    split
    case h_1 t b es' hn => exact absurd rfl (nextClient_of_nothing h hn b)
    case h_2            => simp
    case h_3            => simp
  cases hr : (readByte es now).done
  case none =>
    have hh : Http.readHttpHead es now = { trace := [], done := none } := by
      rw [Http.readHttpHead, Http.readHttpHeadFrom, bind_of_never hr, hb.1]
    exact handleHttp_no_head (by rw [hh]) (by simp [hh])
  case some x =>
    obtain ⟨b, es', t⟩ := x
    cases b
    case some b => exact absurd hr (hb.2 b es' t)
    case none =>
      have hh : Http.readHttpHead es now = { trace := [], done := some (none, es', t) } := by
        rw [Http.readHttpHead, Http.readHttpHeadFrom, bind_of_done hr, hb.1]
        rfl
      exact handleHttp_no_head (by rw [hh]) (by simp [hh])

end Handle

section Delivered

variable {net engine} {r : PlainRequest} {rs : List PlainRequest} {c : Outbound × Target}
variable {bytes : List ((Outbound × Target) × UInt8)}

theorem head_ne_nil (r : PlainRequest) : r.head ≠ [] := by
  rw [PlainRequest.head_eq]
  simp [r.line_ne_nil]

-- A request that is sent leaves its bytes behind.
theorem form_ne_nil {bs : List UInt8} (h : bs = r.raw ∨ bs = r.origin) : bs ≠ [] := by
  rcases h with rfl | rfl
  · simp [PlainRequest.raw, head_ne_nil]
  · simp [PlainRequest.origin, PlainRequest.originHead, Http.headOf, Http.crlf]

theorem Delivered.destination_of_mem (h : Delivered net engine rs bytes) (hc : ∀ x ∈ bytes, x.1 = c)
    (hr : r ∈ rs) : destination net engine r = none ∨ destination net engine r = some c := by
  induction h
  case nil => cases hr
  case blocked hn _ hi =>
    cases hr
    case head    => exact .inl hn
    case tail hr => exact hi hc hr
  case forwarded r' rs c' bs bytes hd hb _ hi =>
    cases hr
    case tail hr => exact hi (fun x hx => hc x (List.mem_append_right _ hx)) hr
    case head =>
      obtain ⟨b, bs', rfl⟩ := List.exists_cons_of_ne_nil (form_ne_nil hb)
      have := hc (c', b) (by simp)
      exact .inr (this ▸ hd)

theorem delivered_raw (h : ∀ r ∈ rs, destination net engine r = some c) :
    Delivered net engine rs ((rs.flatMap (·.raw)).map (c, ·)) := by
  induction rs
  case nil => exact .nil
  case cons r rs hi =>
    have ⟨hr, hrs⟩ := List.forall_mem_cons.mp h
    rw [List.flatMap_cons, List.map_append]
    exact .forwarded hr (.inl rfl) (hi hrs)

theorem countP_eq_zero (h : ∀ r ∈ rs, destination net engine r = some c) :
    rs.countP (destination net engine · = none) = 0 := by
  apply List.countP_eq_zero.mpr
  intro r hr
  simp [h r hr]

theorem Delivered.length_of_nil (h : Delivered net engine rs bytes) (hb : bytes = []) :
    rs.countP (destination net engine · = none) = rs.length := by
  induction h
  case nil => rfl
  case blocked hn _ hi => simp [hn, hi hb]
  case forwarded hf _ _ =>
    have hn := (List.append_eq_nil_iff.mp hb).1
    exact absurd (List.map_eq_nil_iff.mp hn) (form_ne_nil hf)

-- The three things that can come of a first request.
theorem routedByHost_connect {tr : List (Nat × Effect)} (hd : destination net engine r = some c)
    (hf : forwarded tr = (r.origin ++ rs.flatMap (·.raw)).map (c, ·)) (hn : forbidden tr = 0) :
    RoutedByHost net engine (r :: rs) tr ↔ ∀ r' ∈ rs, destination net engine r' = some c := by
  constructor
  case mp =>
    intro ⟨h, hz⟩ r' hr'
    have hm : r' ∈ r :: rs := .tail _ hr'
    have hc : ∀ x ∈ forwarded tr, x.1 = c := by
      intro x hx
      obtain ⟨b, _, rfl⟩ := List.mem_map.mp (hf ▸ hx)
      rfl
    have hne := List.countP_eq_zero.mp (hz.symm.trans hn) r' hm
    exact (h.destination_of_mem hc hm).resolve_left (by simpa using hne)
  case mpr =>
    intro h
    have ha : ∀ r' ∈ r :: rs, destination net engine r' = some c := List.forall_mem_cons.mpr ⟨hd, h⟩
    refine ⟨?_, hn.trans (countP_eq_zero ha).symm⟩
    rw [hf, List.map_append]
    exact .forwarded hd (.inr rfl) (delivered_raw h)

theorem routedByHost_block {tr : List (Nat × Effect)} (hd : destination net engine r = none)
    (hf : forwarded tr = []) (hn : forbidden tr = 1) :
    RoutedByHost net engine (r :: rs) tr ↔ rs = [] := by
  constructor
  case mp =>
    intro ⟨h, hz⟩
    have := (h.length_of_nil hf).symm.trans (hz.symm.trans hn)
    simpa using this
  case mpr =>
    rintro rfl
    exact ⟨hf ▸ .blocked hd .nil, by simp [hn, hd]⟩

theorem not_routedByHost_nil : ¬RoutedByHost net engine (r :: rs) [] := by
  intro ⟨h, hz⟩
  have := (h.length_of_nil rfl).symm.trans hz.symm
  simp [forbidden] at this

end Delivered

section First

variable {net engine} {r : PlainRequest} {rs : List PlainRequest} {c : Outbound × Target}
variable {bs : List (Nat × UInt8)} {es rest : Script} {now : Nat}

-- All requests go where the first one goes.
theorem forwarded_handleHttp (h : Reachable net) (hb : bs.map (·.2) = r.head)
    (hl : r.head.length ≤ 16385) (hst : Steady es)
    (he : clientBytes es = r.body ++ rs.flatMap (·.raw)) (hr : clientBytes rest = [])
    (hd : destination net engine r = some c) :
    let tr := (handleHttp net engine (Http.arrivals bs ++ (es ++ rest)) now).trace
    forwarded tr = (r.origin ++ rs.flatMap (·.raw)).map (c, ·) ∧ forbidden tr = 0 := by
  have ⟨t, ht⟩ := @handleHttp_connect net engine (es ++ rest) now r bs c h hb hl hd
  simp only [ht]
  constructor
  case left =>
    have := @forwardedOn_relay es rest t c hst hr
    simp [forwarded, forwardedOn, copyCounted, this, he, PlainRequest.origin]
  case right =>
    rw [forbidden_append, copyCounted, forbidden_relay]
    rfl

end First

-- Requests on one connection are routed by their own hosts exactly if the first one decides for all.
theorem requests_routed_by_host_iff {net : Network} {engine : Engine} {script : Script} {now : Nat}
    {rs : List PlainRequest} (h : Reachable net) (hs : Sends script rs) :
    RoutedByHost net engine rs (handleHttp net engine script now).trace ↔
      OneDestination net engine rs := by
  cases hs
  case nil hb =>
    refine iff_of_true ?_ trivial
    rw [handleHttp_nothing hb]
    exact ⟨.nil, rfl⟩
  case cons bs es rest r rs hb hst he hr =>
    by_cases hl : r.head.length ≤ 16385
    case neg =>
      rw [handleHttp_long hb (Nat.not_le.mp hl)]
      exact iff_of_false not_routedByHost_nil fun ho => hl ho.1
    case pos =>
      simp only [OneDestination, hl, true_and]
      cases hd : destination net engine r
      case none =>
        have ⟨t, ht⟩ := @handleHttp_block net engine (es ++ rest) now r bs hb hl hd
        rw [ht, routedByHost_block hd rfl rfl]
        simp
      case some c =>
        have ⟨hf, hz⟩ := @forwarded_handleHttp net engine r rs c bs es rest now h hb hl hst he hr hd
        rw [routedByHost_connect hd hf hz]
        constructor
        case mp  => exact fun hall => .inr ⟨c, rfl, hall⟩
        case mpr =>
          rintro (rfl | ⟨c', hc, hall⟩)
          · simp
          · cases hc
            exact hall

-- Everything is connected directly, except for one host.
def blockingEngine : Engine where
  outbounds := .empty
  defaultProxy := none
  rules := [{ domains := [.full "b"], action := .block }]
  defaultAction := .direct

def getFrom (c : Char) (h : isWhitespace c = false ∧ c ≠ '/' ∧ c ≠ ':' ∧ c ≠ '[') : PlainRequest where
  method := ['G', 'E', 'T']
  address := {
    host := [c]
    host_ne := by simp
    host_ok := by simpa using h
    port_lt := by simp
    path_ok := by simp
    path_abs := .inl rfl
  }
  method_ne := by simp
  method_ok := by simp [isWhitespace]
  not_connect := by decide +kernel
  headers_ok := by simp

def getA : PlainRequest :=
  getFrom 'a' (by decide)

def getB : PlainRequest :=
  getFrom 'b' (by decide)

-- All bytes come at once.
def sentAtOnce (r : PlainRequest) (rs : List PlainRequest) : Script :=
  Http.arrivals (r.head.map (0, ·)) ++
    (Http.arrivals ((r.body ++ rs.flatMap (·.raw)).map (0, ·)) ++ [])

theorem clientBytes_arrivals (bs : List UInt8) : clientBytes (Http.arrivals (bs.map (0, ·))) = bs := by
  simp [clientBytes, Http.arrivals, List.filterMap_map, Function.comp_def]

theorem steady_arrivals (bs : List (Nat × UInt8)) : Steady (Http.arrivals bs) := by
  intro x hx
  obtain ⟨y, _, rfl⟩ := List.mem_map.mp hx
  exact .inl ⟨y.2, rfl⟩

theorem sends_sentAtOnce (r : PlainRequest) (rs : List PlainRequest) :
    Sends (sentAtOnce r rs) (r :: rs) :=
  .cons (by simp) (steady_arrivals _) (clientBytes_arrivals _) rfl

theorem destination_getA :
    destination promptNetwork blockingEngine getA = some (.direct, .domain "a" 80) := by
  decide +kernel

theorem destination_getB : destination promptNetwork blockingEngine getB = none := by
  decide +kernel

theorem length_head_getA : getA.head.length ≤ 16385 := by
  decide +kernel

theorem requests_routed_by_host_iff_same :
    RoutedByHost promptNetwork blockingEngine [getA, getA]
      (handleHttp promptNetwork blockingEngine (sentAtOnce getA [getA]) 0).trace := by
  refine (requests_routed_by_host_iff reachable_promptNetwork (sends_sentAtOnce getA [getA])).mpr ?_
  exact ⟨length_head_getA, .inr ⟨_, destination_getA, by simp [destination_getA]⟩⟩

-- The second request is for the blocked host, and is sent to the first one.
theorem second_request_not_blocked :
    Sends (sentAtOnce getA [getB]) [getA, getB] ∧
    destination promptNetwork blockingEngine getB = none ∧
    let tr := (handleHttp promptNetwork blockingEngine (sentAtOnce getA [getB]) 0).trace
    forwarded tr = (getA.origin ++ getB.raw).map ((.direct, .domain "a" 80), ·) ∧
    ¬RoutedByHost promptNetwork blockingEngine [getA, getB] tr := by
  have ⟨hf, hz⟩ := @forwarded_handleHttp promptNetwork blockingEngine getA [getB] _
    (getA.head.map (0, ·)) _ [] 0 reachable_promptNetwork (by simp) length_head_getA
    (steady_arrivals _) (clientBytes_arrivals _) rfl destination_getA
  have hb : [getB].flatMap (·.raw) = getB.raw := by simp
  refine ⟨sends_sentAtOnce getA [getB], destination_getB, hf.trans (by rw [hb]), fun h => ?_⟩
  have h := (routedByHost_connect destination_getA hf hz).mp h getB (by simp)
  simp [destination_getB] at h

end Serve
end JammVpn
