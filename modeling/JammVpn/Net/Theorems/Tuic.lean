import JammVpn.Net.Tuic

namespace JammVpn.Tuic

open Bytes Ip

-- There is no room for the flow information and the scope of an IPv6 address.
def onWire : Target → Target
  | .socket addr      => .socket (.new addr.ip addr.port)
  | .domain host port => .domain host port

section

variable {target : Target} {bs rest : List UInt8} {n : Nat}

theorem need_append (h : bs.length = n) : need n (bs ++ rest) = .ok (bs, rest) := by
  simp [need, ← h]

theorem ofBe_single (b : UInt8) : ofBe [b] = b.toNat := by
  simp [ofBe]

theorem ofBe_port {port : Nat} (h : port < 65536) : ofBe (toBe 2 port) = port :=
  ofBe_toBe_of_lt h

theorem need_byte (b : UInt8) (rest : List UInt8) : need 1 (b :: rest) = .ok ([b], rest) :=
  @need_append [b] rest 1 rfl

theorem parseDomain_append {host : String} {port : Nat} (hl : (Utf8.encode host.toList).length ≤ 255)
    (hp : port < 65536) :
    parseDomain (.ofNat (Utf8.encode host.toList).length ::
      (Utf8.encode host.toList ++ toBe 2 port ++ rest)) =
      .ok (some (.domain host port), rest) := by
  have ho : (UInt8.ofNat (Utf8.encode host.toList).length).toNat = (Utf8.encode host.toList).length := by
    rw [UInt8.toNat_ofNat']
    omega
  have hn := @need_append (Utf8.encode host.toList ++ toBe 2 port) rest
    ((Utf8.encode host.toList).length + 2) (by simp)
  simp only [parseDomain, need_byte, ofBe_single, ho, hn, bind, Except.bind]
  simp [Utf8.decodeLossy_encode, ofBe_port hp]
  rfl

theorem parseAddressSync_append (h : encodeAddress target = .ok bs) (hp : target.port < 65536) :
    parseAddressSync (bs ++ rest) = .ok (some (onWire target), rest) := by
  cases target
  case domain host port =>
    simp only [encodeAddress] at h
    split at h <;> cases h
    case isFalse hl =>
      have ha : ¬atypDomain.toNat = atypNone.toNat ∧ ¬atypDomain.toNat = atypIpv4.toNat ∧
          ¬atypDomain.toNat = atypIpv6.toNat := by decide
      have hd := @parseDomain_append rest host port (by omega) hp
      simp only [parseAddressSync, List.cons_append, need_byte, ofBe_single, ha, if_true, if_false,
        bind, Except.bind]
      exact hd
  case socket addr =>
    cases addr
    case v4 a port =>
      cases h
      have hn := @need_append (toBe 4 a.toNat ++ toBe 2 port) rest 6 (by simp)
      have ha : ¬atypIpv4.toNat = atypNone.toNat := by decide
      have hv : BitVec.ofNat 32 (ofBe (toBe 4 a.toNat)) = a := ofBe_toBe_bitVec 4 a rfl
      have hp : ofBe (toBe 2 port) = port := ofBe_port hp
      simp only [parseAddressSync, List.cons_append, need_byte, ofBe_single, hn, ha, if_true, if_false,
        bind, Except.bind]
      simp [hv, hp, onWire, SocketAddr.ip, SocketAddr.port]
      rfl
    case v6 a port _ _ =>
      cases h
      have hn := @need_append (toBe 16 a.toNat ++ toBe 2 port) rest 18 (by simp)
      have ha : ¬atypIpv6.toNat = atypNone.toNat ∧ ¬atypIpv6.toNat = atypIpv4.toNat := by decide
      have hv : BitVec.ofNat 128 (ofBe (toBe 16 a.toNat)) = a := ofBe_toBe_bitVec 16 a rfl
      have hp : ofBe (toBe 2 port) = port := ofBe_port hp
      simp only [parseAddressSync, List.cons_append, need_byte, ofBe_single, hn, ha, if_true, if_false,
        bind, Except.bind]
      simp [hv, hp, onWire, SocketAddr.ip, SocketAddr.port]
      rfl

theorem parseAddressSync_none (rest : List UInt8) :
    parseAddressSync (atypNone :: rest) = .ok (none, rest) := by
  simp [parseAddressSync, need_byte, ofBe_single, bind, Except.bind]
  rfl

section

variable {assocId pktId : UInt16} {fragTotal fragId : UInt8} {addr : Option Target}
variable {payload dg : List UInt8}

theorem encodePacketOne_cases
    (h : encodePacketOne assocId pktId fragTotal fragId addr payload = .ok dg) :
    ∃ bs, dg = [version, cmdPacket] ++ toBe 2 assocId.toNat ++ toBe 2 pktId.toNat ++
        [fragTotal, fragId] ++ toBe 2 payload.length ++ bs ++ payload ∧
      (addr = none ∧ bs = [atypNone] ∨ ∃ t, addr = some t ∧ encodeAddress t = .ok bs) := by
  cases addr
  case none =>
    cases h
    exact ⟨[atypNone], rfl, .inl ⟨rfl, rfl⟩⟩
  case some t =>
    cases hb : encodeAddress t
    case error e => simp [encodePacketOne, hb, bind, Except.bind] at h
    case ok bs =>
      simp only [encodePacketOne, hb, bind, Except.bind] at h
      exact ⟨bs, (Except.ok.inj h).symm, .inr ⟨t, rfl, hb⟩⟩

-- What the decoder makes of a single datagram.
theorem decodePacket_encodePacketOne
    (h : encodePacketOne assocId pktId fragTotal fragId addr payload = .ok dg)
    (hv : fragId < fragTotal) (hl : payload.length < 65536) (hp : ∀ t ∈ addr, t.port < 65536) :
    decodePacket dg = .ok (⟨assocId, pktId, fragTotal, fragId, addr.map onWire, hv⟩, payload) := by
  obtain ⟨bs, rfl, ha⟩ := encodePacketOne_cases h
  have hb : parseAddressSync (bs ++ payload) = .ok (addr.map onWire, payload) := by
    obtain ⟨rfl, rfl⟩ | ⟨t, rfl, hb⟩ := ha
    case inl => exact parseAddressSync_none payload
    case inr => exact parseAddressSync_append hb (hp t rfl)
  have hs : ofBe [.ofNat (payload.length / 256), .ofNat payload.length] = payload.length :=
    ofBe_port hl
  have hi (x : UInt16) : UInt16.ofNat (ofBe [.ofNat (x.toNat / 256), .ofNat x.toNat]) = x := by
    have : ofBe (toBe 2 x.toNat) = x.toNat := ofBe_port x.toNat_lt
    rw [← toBe_two, this, UInt16.ofNat_toNat]
  simp only [toBe_two, List.cons_append, List.nil_append, decodePacket, hv, hb, hs, hi, bind, Except.bind]
  simp
  rfl

end

theorem forall₂_of_mapM {α β ε : Type} {f : α → Except ε β} {as : List α} {bs : List β}
    (h : as.mapM f = .ok bs) : List.Forall₂ (fun a b => f a = .ok b) as bs := by
  induction as generalizing bs
  case nil =>
    cases h
    exact .nil
  case cons a as hi =>
    rw [List.mapM_cons] at h
    cases hb : f a
    case error e => simp [hb, bind, Except.bind] at h
    case ok b =>
      cases hbs : as.mapM f
      case error e => simp [hb, hbs, bind, Except.bind] at h
      case ok bs' =>
        simp only [hb, hbs, bind, Except.bind, pure, Except.pure, Except.ok.injEq] at h
        exact h ▸ .cons hb (hi hbs)

theorem length_encodeAddress (h : encodeAddress target = .ok bs) (hn : addressLen target = .ok n) :
    bs.length = n := by
  cases target
  case domain host port =>
    simp only [encodeAddress, addressLen] at h hn
    split at h <;> cases h
    case isFalse hl =>
      rw [if_neg hl] at hn
      cases hn
      simp
      omega
  case socket addr => cases addr <;> cases h <;> cases hn <;> simp

theorem addressLen_pos (hn : addressLen target = .ok n) : 0 < n := by
  cases target
  case domain host port =>
    simp only [addressLen] at hn
    split at hn <;> cases hn
    omega
  case socket addr => cases addr <;> cases hn <;> decide

theorem length_encodePacketOne {assocId pktId : UInt16} {fragTotal fragId : UInt8}
    {payload dg : List UInt8} {addr : Option Target} (hn : addressLen target = .ok n)
    (ha : ∀ t ∈ addr, t = target)
    (h : encodePacketOne assocId pktId fragTotal fragId addr payload = .ok dg) :
    dg.length ≤ 10 + n + payload.length := by
  obtain ⟨bs, rfl, hb⟩ := encodePacketOne_cases h
  have hl : bs.length ≤ n := by
    obtain ⟨_, rfl⟩ | ⟨t, rfl, hb⟩ := hb
    case inl => exact addressLen_pos hn
    case inr =>
      cases ha t rfl
      exact (length_encodeAddress hb hn).le
  simp
  omega

end

-- The payload as it is distributed over the datagrams.
def fragments (target : Target) (payload : List UInt8) (maxDatagram : Nat) : List (List UInt8) :=
  match addressLen target with
  | .error _ => []
  | .ok len  => if payload.isEmpty then [[]] else chunks (maxDatagram - (10 + len)) payload

section

variable {assocId pktId : UInt16} {target : Target} {payload : List UInt8} {maxDatagram : Nat}
variable {dgs : List (List UInt8)}

theorem encodePackets_cases (h : encodePackets assocId pktId target payload maxDatagram = .ok dgs) :
    ∃ len, addressLen target = .ok len ∧ 10 + len < maxDatagram ∧
      (fragments target payload maxDatagram).flatten = payload ∧
      (fragments target payload maxDatagram).length ≤ 255 ∧
      (∀ part ∈ fragments target payload maxDatagram, part.length ≤ maxDatagram - (10 + len)) ∧
      List.Forall₂ (fun a b => encodeChunk assocId pktId target
        (fragments target payload maxDatagram).length a = .ok b)
        (fragments target payload maxDatagram).zipIdx dgs := by
  cases hl : addressLen target
  case error e => simp [encodePackets, hl, bind, Except.bind] at h
  case ok len =>
    simp only [encodePackets, hl, bind, Except.bind] at h
    split at h
    case isTrue => cases h
    case isFalse hc =>
      refine ⟨len, rfl, by omega, ?_⟩
      split at h
      case isTrue he =>
        have hf : fragments target payload maxDatagram = [[]] := by simp [fragments, hl, he]
        have hz : payload = [] := List.isEmpty_iff.mp he
        rw [hf]
        refine ⟨hz.symm, by decide, by simp, forall₂_of_mapM ?_⟩
        rw [← h]
        rfl
      case isFalse he =>
        split at h
        case isTrue => cases h
        case isFalse ht =>
          have hf : fragments target payload maxDatagram = chunks (maxDatagram - (10 + len)) payload := by
            simp [fragments, hl, he]
          rw [hf, flatten_chunks (by omega), length_chunks]
          refine ⟨rfl, by omega, fun part hp => ?_, forall₂_of_mapM h⟩
          have ⟨i, _, hi⟩ := List.mem_map.mp hp
          exact hi ▸ length_piece_le _ _ i

theorem length_fragments (h : encodePackets assocId pktId target payload maxDatagram = .ok dgs) :
    (fragments target payload maxDatagram).length = dgs.length := by
  have ⟨_, _, _, _, _, _, hf⟩ := encodePackets_cases h
  simpa using hf.length_eq

theorem flatten_fragments (h : encodePackets assocId pktId target payload maxDatagram = .ok dgs) :
    (fragments target payload maxDatagram).flatten = payload :=
  have ⟨_, _, _, hf, _⟩ := encodePackets_cases h
  hf

-- The datagram with this index is the one of the fragment with this index.
theorem encodeChunk_fragment (h : encodePackets assocId pktId target payload maxDatagram = .ok dgs)
    {i : Nat} {dg : List UInt8} (hi : dgs[i]? = some dg) :
    ∃ part, (fragments target payload maxDatagram)[i]? = some part ∧
      encodeChunk assocId pktId target dgs.length (part, i) = .ok dg := by
  have ⟨_, _, _, _, _, _, hf⟩ := encodePackets_cases h
  have ⟨hd, hdg⟩ := List.getElem?_eq_some_iff.mp hi
  rw [length_fragments h] at hf
  have hz : i < (fragments target payload maxDatagram).zipIdx.length := hf.length_eq ▸ hd
  have he := hf.get hz hd
  simp only [List.get_eq_getElem, List.getElem_zipIdx, Nat.zero_add, hdg] at he
  exact ⟨_, List.getElem?_eq_getElem (by simpa using hz), he⟩

theorem decodePacket_encodePackets
    (h : encodePackets assocId pktId target payload maxDatagram = .ok dgs)
    (hl : payload.length ≤ 65535) (hp : target.port < 65536) {i : Nat} {dg : List UInt8}
    (hi : dgs[i]? = some dg) :
    ∃ head part, decodePacket dg = .ok (head, part) ∧
      (fragments target payload maxDatagram)[i]? = some part ∧
      head.assocId = assocId ∧ head.pktId = pktId ∧ head.fragTotal.toNat = dgs.length ∧
      head.fragId.toNat = i ∧ head.addr = if i = 0 then some (onWire target) else none := by
  have ⟨part, hpart, he⟩ := encodeChunk_fragment h hi
  have hd : i < dgs.length := (List.getElem?_eq_some_iff.mp hi).1
  have hn : dgs.length ≤ 255 := by
    have ⟨_, _, _, _, hn, _⟩ := encodePackets_cases h
    rwa [length_fragments h] at hn
  have ht : (UInt8.ofNat dgs.length).toNat = dgs.length := by
    rw [UInt8.toNat_ofNat']
    omega
  have hid : (UInt8.ofNat i).toNat = i := by
    rw [UInt8.toNat_ofNat']
    omega
  have hv : UInt8.ofNat i < UInt8.ofNat dgs.length := by
    rw [UInt8.lt_iff_toNat_lt, ht, hid]
    exact hd
  have hlp : part.length < 65536 := by
    have := (List.sublist_flatten_of_mem (List.mem_of_getElem? hpart)).length_le
    rw [flatten_fragments h] at this
    omega
  have hdec := decodePacket_encodePacketOne he hv hlp (by
    intro t ht
    split at ht <;> cases ht
    exact hp)
  refine ⟨_, part, hdec, hpart, rfl, rfl, ht, hid, ?_⟩
  dsimp only
  split <;> rfl

theorem length_of_mem_encodePackets
    (h : encodePackets assocId pktId target payload maxDatagram = .ok dgs) {dg : List UInt8}
    (hm : dg ∈ dgs) : dg.length ≤ maxDatagram := by
  have ⟨i, hi⟩ := List.getElem?_of_mem hm
  have ⟨part, hpart, he⟩ := encodeChunk_fragment h hi
  have ⟨len, hlen, hc, _, _, hcap, _⟩ := encodePackets_cases h
  have hle := length_encodePacketOne hlen (by
    intro t ht
    split at ht <;> cases ht
    rfl) he
  have := hcap part (List.mem_of_getElem? hpart)
  dsimp only at hle
  omega

end

open Machine Reassembly

-- The fragment is what the decoder makes of one of the datagrams.
def DecodedFrom (dgs : List (List UInt8)) (f : Fragment (UInt16 × UInt16)) : Prop :=
  ∃ dg ∈ dgs, ∃ head part, decodePacket dg = .ok (head, part) ∧ f = head.fragment part

theorem DecodedFrom.part {assocId pktId : UInt16} {target : Target} {payload : List UInt8}
    {maxDatagram : Nat} {dgs : List (List UInt8)}
    (h : encodePackets assocId pktId target payload maxDatagram = .ok dgs)
    (hl : payload.length ≤ 65535) (hp : target.port < 65536) (f : Fragment (UInt16 × UInt16))
    (hd : DecodedFrom dgs f) :
    f.key = (assocId, pktId) ∧ f.total = (fragments target payload maxDatagram).length ∧
      (fragments target payload maxDatagram)[f.id]? = some f.data := by
  obtain ⟨dg, hm, head, part, hd, rfl⟩ := hd
  have ⟨i, hi⟩ := List.getElem?_of_mem hm
  have ⟨head', part', hd', hpart, hai, hpi, ht, hid, _⟩ := decodePacket_encodePackets h hl hp hi
  rw [hd] at hd'
  cases hd'
  refine ⟨by rw [← hai, ← hpi]; rfl, ht.trans (length_fragments h).symm, ?_⟩
  rw [← hid] at hpart
  exact hpart

-- Datagrams in any order, some of them more than once, among those of other packets.
theorem fragmentation_lossless {assocId pktId : UInt16} {target : Target} {payload : List UInt8}
    {maxDatagram : Nat} {dgs : List (List UInt8)}
    (h : encodePackets assocId pktId target payload maxDatagram = .ok dgs)
    (hl : payload.length ≤ 65535) (hp : target.port < 65536) :
    (∀ dg ∈ dgs, dg.length ≤ maxDatagram) ∧
    (∀ i dg, dgs[i]? = some dg → ∃ head part, decodePacket dg = .ok (head, part) ∧
      head.assocId = assocId ∧ head.pktId = pktId ∧ head.fragTotal.toNat = dgs.length ∧
      head.fragId.toNat = i ∧ head.addr = if i = 0 then some (onWire target) else none) ∧
    ∀ (m m' : Pending) es now tie head part,
      m.get (assocId, pktId) = none →
      DecodedFrom dgs (head.fragment part) →
      (∀ a ∈ es, a.frag.key = (assocId, pktId) → DecodedFrom dgs a.frag) →
      Each step (Spares (assocId, pktId)) m (es ++ [⟨now, tie, head.fragment part⟩]) →
      run step m es = some m' →
      (¬∀ i < dgs.length, i ∈ idsOf (assocId, pktId) es) →
      (reassemble now tie m' head part).1 =
        if ∀ i < dgs.length, i ∈ head.fragId.toNat :: idsOf (assocId, pktId) es then some payload
        else none := by
  refine ⟨fun dg => length_of_mem_encodePackets h, fun i dg hi => ?_, ?_⟩
  case refine_1 =>
    have ⟨head, part, hd, _, hh⟩ := decodePacket_encodePackets h hl hp hi
    exact ⟨head, part, hd, hh⟩
  case refine_2 =>
    intro m m' es now tie head part h₀ ha hes hs hr hn
    have hf := length_fragments h
    have hrun := reassemble_run (DecodedFrom.part h hl hp) h₀ ha hes hs hr (hf ▸ hn)
    rw [flatten_fragments h, hf] at hrun
    exact hrun

-- The second fragment comes first, and twice.
theorem fragmentation_lossless_two :
    let target := Target.socket (.v4 0x01020304 443)
    let dgs := [
      [5, 2, 0, 7, 0, 9, 2, 0, 0, 3, 1, 1, 2, 3, 4, 1, 187, 1, 2, 3],
      [5, 2, 0, 7, 0, 9, 2, 1, 0, 2, 255, 4, 5]]
    let first : PacketHead := ⟨7, 9, 2, 0, some target, by decide⟩
    let second : PacketHead := ⟨7, 9, 2, 1, none, by decide⟩
    encodePackets 7 9 target [1, 2, 3, 4, 5] 20 = .ok dgs ∧
    ∃ m, run step .empty [⟨0, 0, second.fragment [4, 5]⟩, ⟨1, 0, second.fragment [4, 5]⟩] = some m ∧
      (reassemble 2 0 m first [1, 2, 3]).1 = some [1, 2, 3, 4, 5] := by
  intro target dgs first second
  have h : encodePackets 7 9 target [1, 2, 3, 4, 5] 20 = .ok dgs := rfl
  obtain ⟨m, hm⟩ : ∃ m, run step .empty [⟨0, 0, second.fragment [4, 5]⟩,
    ⟨1, 0, second.fragment [4, 5]⟩] = some m := ⟨_, rfl⟩
  refine ⟨h, m, hm, ?_⟩
  have hd : DecodedFrom dgs (second.fragment [4, 5]) :=
    ⟨[5, 2, 0, 7, 0, 9, 2, 1, 0, 2, 255, 4, 5], by decide, second, [4, 5], by decide +kernel, rfl⟩
  have hs : Each step (Spares (7, 9)) .empty [⟨0, 0, second.fragment [4, 5]⟩,
      ⟨1, 0, second.fragment [4, 5]⟩, ⟨2, 0, first.fragment [1, 2, 3]⟩] := by
    apply each_spares (t := 0)
    · decide
    · intro k r hr
      exact Nat.zero_le _
    · simp [reasmTtl]
  have hr := (fragmentation_lossless h (by decide) (by decide)).2.2 .empty m
    [⟨0, 0, second.fragment [4, 5]⟩, ⟨1, 0, second.fragment [4, 5]⟩] 2 0 first [1, 2, 3] rfl
    ⟨_, List.mem_cons_self, first, [1, 2, 3], by decide +kernel, rfl⟩ (by simp [hd]) hs hm (by decide)
  exact hr.trans (if_pos (by decide))

-- The scope of an IPv6 address is lost.
theorem scope_lost :
    let target := Target.socket (.v6 1 443 0 3)
    let dg := [5, 2, 0, 1, 0, 1, 1, 0, 0, 1, 2, 0, 0, 0, 0, 0, 0, 0, 0, 0, 0, 0, 0, 0, 0, 0, 1, 1, 187, 42]
    encodePackets 1 1 target [42] 100 = .ok [dg] ∧
      ∃ head, decodePacket dg = .ok (head, [42]) ∧ head.addr ≠ some target := by
  intro target dg
  refine ⟨by decide +kernel, ⟨1, 1, 1, 0, some (.socket (.v6 1 443 0 0)), by decide⟩, ?_, by decide⟩
  decide +kernel

end JammVpn.Tuic
