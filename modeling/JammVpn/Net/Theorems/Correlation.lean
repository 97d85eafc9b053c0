import JammVpn.Net.Theorems.UdpFlows

namespace JammVpn.Udp

open Bytes Ip Machine

-- Socket addresses of datagrams have no scope.
def Plain (target : Target) : Prop :=
  ∀ addr, target = .socket addr → ∃ ip port, addr = .new ip port

-- The name of a destination is text.
def Named (d : Datagram) : Prop :=
  ∀ host port, d.target = .domain host port →
    ∃ name : List Char, ∃ port : List UInt8, port.length = 2 ∧
      d.address.drop 2 = Utf8.encode name ++ port

def SameForm : Target → Target → Prop
  | .domain _ _, .domain _ _ => True
  | .socket _, .socket _     => True
  | _, _                     => False

section

variable {src : SocketAddr} {buf : List UInt8} {d : Datagram}

theorem toBe_port {bs : List UInt8} (h : 2 ≤ bs.length) : toBe 2 (ofBe (bs.take 2)) = bs.take 2 :=
  toBe_ofBe_of_length (by simp [h])

-- The three forms of a header. The address begins with its type.
theorem parseUdpDatagram_cases {frag : UInt8} {target : Target} {off : Nat}
    (h : parseUdpDatagram buf = .ok (frag, target, off)) :
    (∃ bs : List UInt8, 6 ≤ bs.length ∧ (buf.take off).drop 3 = 0x01 :: bs.take 6 ∧
      target = .socket (.new (.v4 (.ofNat 32 (ofBe (bs.take 4)))) (ofBe ((bs.drop 4).take 2)))) ∨
    (∃ bs : List UInt8, 18 ≤ bs.length ∧ (buf.take off).drop 3 = 0x04 :: bs.take 18 ∧
      target = .socket (.new (.v6 (.ofNat 128 (ofBe (bs.take 16)))) (ofBe ((bs.drop 16).take 2)))) ∨
    ∃ (len : UInt8) (bs : List UInt8), len.toNat + 2 ≤ bs.length ∧
      (buf.take off).drop 3 = 0x03 :: len :: bs.take (len.toNat + 2) ∧
      target = .domain (.ofList (Utf8.decodeLossy (bs.take len.toNat)))
        (ofBe ((bs.drop len.toNat).take 2)) := by
  simp only [parseUdpDatagram] at h
  split at h
  case h_2 => cases h
  case h_1 r₀ r₁ frag atyp bs =>
    split at h
    case isTrue ha =>
      split at h <;> cases h
      case isFalse hl => exact .inl ⟨bs, by omega, by rw [ha]; rfl, rfl⟩
    split at h
    case isTrue ha =>
      split at h <;> cases h
      case isFalse hl => exact .inr (.inl ⟨bs, by omega, by rw [ha]; rfl, rfl⟩)
    split at h
    case isFalse => cases h
    case isTrue ha =>
      split at h
      case h_1 => cases h
      case h_2 len bs =>
        split at h <;> cases h
        case isFalse hl =>
          refine .inr (.inr ⟨len, bs, by omega, ?_, rfl⟩)
          rw [ha, show 5 + len.toNat + 2 = (len.toNat + 2) + 5 by omega]
          rfl

-- An address with its port.
theorem toBe_address {bs : List UInt8} {n : Nat} (h : n + 2 ≤ bs.length) :
    toBe n (ofBe (bs.take n)) ++ toBe 2 (ofBe ((bs.drop n).take 2)) = bs.take (n + 2) := by
  have hl : (bs.take n).length = n := by
    rw [List.length_take]
    omega
  rw [toBe_ofBe_of_length hl, toBe_port (by rw [List.length_drop]; omega), ← List.take_add]

theorem encodeAddress_v4 {bs : List UInt8} (h : 6 ≤ bs.length) :
    encodeAddress (.socket (.new (.v4 (.ofNat 32 (ofBe (bs.take 4)))) (ofBe ((bs.drop 4).take 2)))) =
      0x01 :: bs.take 6 := by
  have hl : (bs.take 4).length = 4 := by
    rw [List.length_take]
    omega
  rw [SocketAddr.new, encodeAddress, toNat_ofBe (by rw [hl]; rfl), toBe_address h]

theorem encodeAddress_v6 {bs : List UInt8} (h : 18 ≤ bs.length) :
    encodeAddress (.socket (.new (.v6 (.ofNat 128 (ofBe (bs.take 16)))) (ofBe ((bs.drop 16).take 2)))) =
      0x04 :: bs.take 18 := by
  have hl : (bs.take 16).length = 16 := by
    rw [List.length_take]
    omega
  rw [SocketAddr.new, encodeAddress, toNat_ofBe (by rw [hl]; rfl), toBe_address h]

theorem encodeAddress_domain {len : UInt8} {name : List Char} {port : List UInt8}
    (hl : (Utf8.encode name).length = len.toNat) (hp : port.length = 2) :
    encodeAddress (.domain (.ofList name) (ofBe port)) = 0x03 :: len :: (Utf8.encode name ++ port) := by
  have hlt := len.toNat_lt
  rw [encodeAddress, String.toList_ofList, List.take_of_length_le (by omega), hl, UInt8.ofNat_toNat,
    toBe_ofBe_of_length hp]

-- The address of a datagram is that of its target.
theorem address_of_received (h : received src buf = .ok (some d)) (hn : Named d) :
    d.address = encodeAddress d.target ∧ Plain d.target := by
  obtain ⟨target, off, hp, rfl⟩ := received_cases h
  obtain ⟨bs, hl, ha, rfl⟩ | ⟨bs, hl, ha, rfl⟩ | ⟨len, bs, hl, ha, rfl⟩ := parseUdpDatagram_cases hp
  case inl => exact ⟨ha.trans (encodeAddress_v4 hl).symm, by rintro _ ⟨⟩; exact ⟨_, _, rfl⟩⟩
  case inr.inl => exact ⟨ha.trans (encodeAddress_v6 hl).symm, by rintro _ ⟨⟩; exact ⟨_, _, rfl⟩⟩
  case inr.inr =>
    obtain ⟨name, port, hport, hname⟩ := hn _ _ rfl
    have he : bs.take (len.toNat + 2) = Utf8.encode name ++ port := by simpa [ha] using hname
    have hlen : (Utf8.encode name).length = len.toNat := by
      have := congrArg List.length he
      rw [List.length_take, List.length_append, hport] at this
      omega
    rw [List.take_add] at he
    obtain ⟨h₁, h₂⟩ := List.append_inj he (by rw [List.length_take, hlen]; omega)
    refine ⟨?_, by rintro _ ⟨⟩⟩
    dsimp only
    rw [ha, h₁, h₂, Utf8.decodeLossy_encode, encodeAddress_domain hlen hport, List.take_add, h₁, h₂]

-- Two targets of the same form that print alike are equal.
theorem display_injective {t t' : Target} (hf : SameForm t t') (hp : Plain t) (hp' : Plain t')
    (h : t.display = t'.display) : t = t' := by
  cases t <;> cases t' <;> try exact hf.elim
  case domain.domain host port host' port' =>
    have hr := Text.rsplitOnce_append (Text.not_mem_decimal (by decide : Char.isDigit ':' = false) port) host.toList
    rw [Target.display, Target.display] at h
    rw [h, Text.rsplitOnce_append (Text.not_mem_decimal (by decide : Char.isDigit ':' = false) port') host'.toList] at hr
    have ⟨hh, hd⟩ := Prod.mk.inj (Option.some.inj hr)
    rw [String.toList_inj.mp hh, decimal_injective hd]
  case socket.socket addr addr' =>
    obtain ⟨ip, port, rfl⟩ := hp addr rfl
    obtain ⟨ip', port', rfl⟩ := hp' addr' rfl
    have ⟨hi, hd⟩ := SocketAddr.display_new_inj h
    rw [hi, hd]

end

-- Replies have the destination that the client has written, datagrams of one flow have one target, and
-- two flows of the table have different ones.
structure Correlated (s : State) : Prop where
  reply  : ∀ id d bytes, (id, .put d) ∈ s.passed → (id, .reply bytes) ∈ s.passed →
    ∃ payload, bytes = [0, 0, 0] ++ d.address ++ payload
  target : ∀ id d d', (id, .put d) ∈ s.passed → (id, .put d') ∈ s.passed → d.target = d'.target
  flow   : ∀ key key' id id' d d', s.flows.get key = some id → s.flows.get key' = some id' →
    (id, .put d) ∈ s.passed → (id', .put d') ∈ s.passed → d.target = d'.target → id = id'

-- The name of a datagram is no text, or a flow takes it that an address of the other form has opened.
def Clashes (peer : IpAddr) (s : State) (e : Event) : Prop :=
  ∃ d, Dispatches peer s e d ∧ (¬Named d ∨ ∃ id f, s.flows.get d.key = some id ∧
    s.tasks[id]? = some f ∧ f.phase ≠ .ended ∧ f.queue.length < flowQueue ∧
    ¬SameForm d.target f.replyDst)

-- Everything that has passed has the destination of its flow.
structure Carried (s : State) : Prop where
  put   : ∀ id d, (id, .put d) ∈ s.passed →
    ∃ f, s.tasks[id]? = some f ∧ d.target = f.replyDst ∧ d.address = encodeAddress f.replyDst
  reply : ∀ id bytes, (id, .reply bytes) ∈ s.passed →
    ∃ f payload, s.tasks[id]? = some f ∧ bytes = encodeUdpDatagram f.replyDst payload
  plain : ∀ (id : Nat) (f : Flow), s.tasks[id]? = some f → Plain f.replyDst
  waits : ∀ d, s.waits = some d → Plain d.target ∧ d.address = encodeAddress d.target

section

variable {s s' : State} {d : Datagram} {id : Nat} {f : Flow}

theorem Carried.correlated (h : Carried s) (ht : Table s) : Correlated s where
  reply id d bytes hd hb := by
    have ⟨f, hf, _, ha⟩ := h.put id d hd
    have ⟨f', payload, hf', hb⟩ := h.reply id bytes hb
    cases hf.symm.trans hf'
    exact ⟨payload, by rw [hb, ha, encodeUdpDatagram]⟩
  target id d d' hd hd' := by
    have ⟨f, hf, ht, _⟩ := h.put id d hd
    have ⟨f', hf', ht', _⟩ := h.put id d' hd'
    cases hf.symm.trans hf'
    rw [ht, ht']
  flow key key' id id' d d' hk hk' hd hd' he := by
    have ⟨f, hf, hr, _⟩ := h.put id d hd
    have ⟨f', hf', hr', _⟩ := h.put id' d' hd'
    have ⟨g, hg, hkey⟩ := ht.task key id hk
    have ⟨g', hg', hkey'⟩ := ht.task key' id' hk'
    cases hf.symm.trans hg
    cases hf'.symm.trans hg'
    have : key = key' := by rw [← hkey, ← hkey', ← hr, ← hr', he]
    exact Option.some.inj (hk.symm.trans (this ▸ hk'))

-- The tasks may change as long as their destinations do not.
theorem Carried.setTask (h : Carried s) {f' : Flow} (hf : s.tasks[id]? = some f)
    (hr : f'.replyDst = f.replyDst) : Carried (s.setTask id f') := by
  have ht {j : Nat} {g : Flow} (hg : s.tasks[j]? = some g) :
      ∃ g', (s.tasks.set id f')[j]? = some g' ∧ g'.replyDst = g.replyDst := by
    rw [getElem?_set_of_some hf]
    by_cases hj : j = id
    case pos =>
      cases hf.symm.trans (hj ▸ hg)
      exact ⟨f', if_pos hj, hr⟩
    case neg => exact ⟨g, by rw [if_neg hj, hg], rfl⟩
  refine ⟨fun j d hd => ?_, fun j bytes hb => ?_, fun j g hg => ?_, h.waits⟩
  case refine_1 =>
    have ⟨g, hg, h₁, h₂⟩ := h.put j d hd
    have ⟨g', hg', he⟩ := ht hg
    exact ⟨g', hg', by rw [h₁, he], by rw [h₂, he]⟩
  case refine_2 =>
    have ⟨g, payload, hg, h₁⟩ := h.reply j bytes hb
    have ⟨g', hg', he⟩ := ht hg
    exact ⟨g', payload, hg', by rw [h₁, he]⟩
  case refine_3 =>
    simp only [State.setTask, getElem?_set_of_some hf] at hg
    by_cases hj : j = id
    case pos =>
      rw [if_pos hj] at hg
      cases hg
      exact hr ▸ h.plain id f hf
    case neg =>
      rw [if_neg hj] at hg
      exact h.plain j g hg

theorem Carried.spawn (h : Carried s) (hw : s.waits = some d) : Carried (s.spawn d) := by
  have ⟨hp, ha⟩ := h.waits d hw
  have ht {j : Nat} {g : Flow} (hg : s.tasks[j]? = some g) (t : List Flow) :
      (s.tasks ++ t)[j]? = some g := by
    rw [List.getElem?_append_left (List.getElem?_eq_some_iff.mp hg).1, hg]
  refine ⟨fun j d' hd => ?_, fun j bytes hb => ?_, fun j g hg => ?_, by rintro _ ⟨⟩⟩
  case refine_1 =>
    cases hd
    case head => exact ⟨_, List.getElem?_concat_length, rfl, ha⟩
    case tail hd =>
      have ⟨g, hg, h₁⟩ := h.put j d' hd
      exact ⟨g, ht hg _, h₁⟩
  case refine_2 =>
    cases hb
    case tail hb =>
      have ⟨g, payload, hg, h₁⟩ := h.reply j bytes hb
      exact ⟨g, payload, ht hg _, h₁⟩
  case refine_3 =>
    simp only [State.spawn] at hg
    rw [List.getElem?_append] at hg
    split at hg
    case isTrue => exact h.plain j g hg
    case isFalse =>
      have hm := List.mem_of_getElem? hg
      rw [List.mem_singleton] at hm
      exact hm ▸ hp

theorem Carried.change (h : Carried s) (hc : Change s s') : Carried s' := by
  cases hc
  case client c              => exact ⟨h.put, h.reply, h.plain, h.waits⟩
  case close c               => exact ⟨h.put, h.reply, h.plain, h.waits⟩
  case spawn d hw            => exact h.spawn hw
  case drop                  => exact ⟨h.put, h.reply, h.plain, by rintro _ ⟨⟩⟩
  case task id f f' hf hp hr => exact h.setTask hf hr
  case reply id f payload hf =>
    refine ⟨fun j d hd => ?_, fun j bytes hb => ?_, h.plain, h.waits⟩
    case refine_1 =>
      cases hd
      case tail hd => exact h.put j d hd
    case refine_2 =>
      cases hb
      case head    => exact ⟨f, payload, hf, rfl⟩
      case tail hb => exact h.reply j bytes hb

theorem Carried.put_of_sameForm (h : Carried s) (hk : f.replyDst.display = d.key)
    (hf : s.tasks[id]? = some f) (hs : SameForm d.target f.replyDst) (hp : Plain d.target)
    (ha : d.address = encodeAddress d.target) : Carried (s.put id f d) := by
  have he : d.target = f.replyDst := display_injective hs hp (h.plain id f hf) hk.symm
  have hc : Carried (s.setTask id { f with queue := f.queue ++ [d.payload] }) := h.setTask hf rfl
  refine ⟨fun j d' hd => ?_, fun j bytes hb => ?_, hc.plain, hc.waits⟩
  case refine_1 =>
    cases hd
    case tail hd => exact hc.put j d' hd
    case head =>
      refine ⟨{ f with queue := f.queue ++ [d.payload] }, ?_, he, by rw [ha, he]⟩
      rw [State.put, getElem?_set_of_some hf, if_pos rfl]
  case refine_2 =>
    cases hb
    case tail hb => exact hc.reply j bytes hb

variable {peer : IpAddr} {e : Event}

theorem Carried.dispatch (h : Carried s) (ht : Table s) (hd : received d.client buf = .ok (some d))
    (hn : Named d) (hs : ∀ id f, s.flows.get d.key = some id → s.tasks[id]? = some f →
      f.phase ≠ .ended → f.queue.length < flowQueue → SameForm d.target f.replyDst) :
    Carried (s.dispatch d) := by
  have ⟨ha, hp⟩ := address_of_received hd hn
  obtain ⟨id, f, hi, hf, hph, hl, he⟩ | ⟨_, he⟩ := dispatch_cases (d := d) ht
  case inl =>
    have ⟨g, hg, hk⟩ := ht.task d.key id hi
    cases hf.symm.trans hg
    exact he ▸ h.put_of_sameForm hk hf (hs id f hi hf hph hl) hp ha
  case inr =>
    rw [he]
    exact ⟨h.put, h.reply, h.plain, by rintro _ ⟨⟩; exact ⟨hp, ha⟩⟩

theorem keeps_carried :
    Keeps (step peer) (fun s e => ¬Clashes peer s e) fun s => Table s ∧ Carried s := by
  intro s e s' ⟨ht, hc⟩ hn hs
  obtain ⟨d, hd, _, _, rfl⟩ | ⟨_, hch⟩ := step_cases hs
  case inr => exact ⟨ht.change hch, hc.change hch⟩
  case inl =>
    have ht : Table { s with client := some d.client } := ⟨ht.task, ht.waits⟩
    have hc : Carried { s with client := some d.client } := ⟨hc.put, hc.reply, hc.plain, hc.waits⟩
    have ⟨buf, _, _, hr⟩ := hd
    refine ⟨ht.dispatch, hc.dispatch ht hr ?_ fun id f hi hf hp hl => ?_⟩
    case refine_1 => exact not_not.mp fun h => hn ⟨d, hd, .inl h⟩
    case refine_2 => exact not_not.mp fun h => hn ⟨d, hd, .inr ⟨id, f, hi, hf, hp, hl, h⟩⟩

-- In every state of a run in which nothing clashes.
theorem replies_correlated {es : List Event}
    (h : Each (step peer) (fun s e => ¬Clashes peer s e) {} es) :
    Always (step peer) Correlated {} es := by
  have h₀ : Table {} ∧ Carried {} := by
    refine ⟨⟨by simp, by simp⟩, ⟨by simp, by simp, by simp, by simp⟩⟩
  exact (h.always keeps_carried h₀).mono fun s hs => hs.2.correlated hs.1

-- The datagram has a name, and the flow that takes it has been opened by an address of its form.
theorem not_clashes (hr : received src buf = .ok (some d)) (hn : Named d)
    (hs : ∀ id f, s.flows.get d.key = some id → s.tasks[id]? = some f → SameForm d.target f.replyDst) :
    ¬Clashes peer s (.datagram src buf) := by
  rintro ⟨d', ⟨_, ⟨⟩, _, hr'⟩, hc⟩
  cases hr.symm.trans hr'
  rcases hc with hc | ⟨id, f, hi, hf, _, _, hf'⟩
  · exact hc hn
  · exact hf' (hs id f hi hf)

end

def localhost : IpAddr := .v4 0x7f000001

-- A second datagram for the address of the first one.
def secondQuery : Event :=
  .datagram (.v4 0x7f000001 5000) [0, 0, 0, 1, 1, 2, 3, 4, 0, 53, 43]

-- A datagram for port 53 of the name a.
def queryOfName : Event :=
  .datagram (.v4 0x7f000001 5000) [0, 0, 0, 3, 1, 97, 0, 53, 44]

-- Two datagrams for 1.2.3.4:53 and one for a:53, and the answers of both flows.
theorem replies_correlated_several :
    let es := [query, .opened true, secondQuery, .reply 0 [7] true, queryOfName, .opened true,
      .reply 1 [8] true, .reply 0 [9] true]
    Always (step localhost) Correlated {} es ∧
      (run (step localhost) {} es).map State.passed = some [
        (0, .reply [0, 0, 0, 1, 1, 2, 3, 4, 0, 53, 9]),
        (1, .reply [0, 0, 0, 3, 1, 97, 0, 53, 8]),
        (1, .put ⟨.v4 0x7f000001 5000, .domain "a" 53, [3, 1, 97, 0, 53], [44]⟩),
        (0, .reply [0, 0, 0, 1, 1, 2, 3, 4, 0, 53, 7]),
        (0, .put ⟨.v4 0x7f000001 5000, .socket (.v4 0x01020304 53), [1, 1, 2, 3, 4, 0, 53], [43]⟩),
        (0, .put ⟨.v4 0x7f000001 5000, .socket (.v4 0x01020304 53), [1, 1, 2, 3, 4, 0, 53], [42]⟩)] := by
  intro es
  refine ⟨replies_correlated ?_, by decide +kernel⟩
  -- Only the three datagrams can clash.
  have hother {s : State} {e : Event} (he : ∀ src buf, e ≠ .datagram src buf) : ¬Clashes localhost s e :=
    fun ⟨d, hd, _⟩ => not_dispatches he d hd
  refine fun s₁ h₁ => ⟨?first, fun s₂ h₂ => ⟨hother (by simp), fun s₃ h₃ => ⟨?second, fun s₄ h₄ =>
    ⟨hother (by simp), fun s₅ h₅ => ⟨?name, fun _ _ => ⟨hother (by simp), fun _ _ => ⟨hother (by simp),
      fun _ _ => ⟨hother (by simp), trivial⟩⟩⟩⟩⟩⟩⟩⟩
  case first =>
    have hr : received (.v4 0x7f000001 5000) [0, 0, 0, 1, 1, 2, 3, 4, 0, 53, 42] = .ok (some
      ⟨.v4 0x7f000001 5000, .socket (.v4 0x01020304 53), [1, 1, 2, 3, 4, 0, 53], [42]⟩) := by
      decide +kernel
    exact not_clashes hr (by rintro _ _ ⟨⟩) (by simp)
  case second =>
    have hr : received (.v4 0x7f000001 5000) [0, 0, 0, 1, 1, 2, 3, 4, 0, 53, 43] = .ok (some
      ⟨.v4 0x7f000001 5000, .socket (.v4 0x01020304 53), [1, 1, 2, 3, 4, 0, 53], [43]⟩) := by
      decide +kernel
    have ht : (run (step localhost) {} [query, .opened true]).map (fun s => s.tasks.map Flow.replyDst) =
      some [.socket (.v4 0x01020304 53)] := by decide +kernel
    simp only [run, h₁, h₂, Option.map_some, Option.some.injEq] at ht
    refine not_clashes hr (by rintro _ _ ⟨⟩) fun id f _ hf => ?_
    have hm : f.replyDst ∈ s₂.tasks.map Flow.replyDst := List.mem_map_of_mem (List.mem_of_getElem? hf)
    rw [ht, List.mem_singleton] at hm
    rw [hm]
    trivial
  case name =>
    have hr : received (.v4 0x7f000001 5000) [0, 0, 0, 3, 1, 97, 0, 53, 44] = .ok (some
      ⟨.v4 0x7f000001 5000, .domain "a" 53, [3, 1, 97, 0, 53], [44]⟩) := by
      decide +kernel
    have hf : (run (step localhost) {} [query, .opened true, secondQuery, .reply 0 [7] true]).map
      (fun s => s.flows.get (Target.domain "a" 53).display) = some none := by decide +kernel
    simp only [run, h₁, h₂, h₃, h₄, Option.map_some, Option.some.injEq] at hf
    refine not_clashes hr ?_ (by simp [Datagram.key, hf])
    rintro _ _ ⟨⟩
    exact ⟨['a'], [0, 53], rfl, by decide +kernel⟩

-- The name 1.2.3.4, which prints like the address.
def namedQuery : Event :=
  .datagram (.v4 0x7f000001 5000) [0, 0, 0, 3, 7, 49, 46, 50, 46, 51, 46, 52, 0, 53, 42]

-- The datagram for the address goes into the flow of the name, and its answer has the name.
theorem name_takes_address :
    ¬Always (step localhost) Correlated {} [namedQuery, .opened true, query, .reply 0 [7] true] := by
  intro h
  have hp : (run (step localhost) {} [namedQuery, .opened true, query, .reply 0 [7] true]).map
      State.passed = some [
        (0, .reply [0, 0, 0, 3, 7, 49, 46, 50, 46, 51, 46, 52, 0, 53, 7]),
        (0, .put ⟨.v4 0x7f000001 5000, .socket (.v4 0x01020304 53), [1, 1, 2, 3, 4, 0, 53], [42]⟩),
        (0, .put ⟨.v4 0x7f000001 5000, .domain "1.2.3.4" 53,
          [3, 7, 49, 46, 50, 46, 51, 46, 52, 0, 53], [42]⟩)] := by decide +kernel
  have ⟨s, hs, hp⟩ := Option.map_eq_some_iff.mp hp
  have hr := (h.of_run hs).reply
  rw [hp] at hr
  have ⟨payload, hb⟩ := hr 0 _ _ (.tail _ (.head _)) (.head _)
  simp at hb

end JammVpn.Udp
