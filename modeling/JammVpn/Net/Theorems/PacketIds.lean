import JammVpn.Net.Theorems.Tuic

namespace JammVpn.Tuic

open Machine Reassembly

-- A payload of a UDP packet on its way to the other end of the connection.
structure Outgoing where
  time        : Nat
  assocId     : UInt16
  target      : Target
  payload     : List UInt8
  maxDatagram : Option Nat
  port_lt     : target.port < 65536
  payload_le  : payload.length ≤ 65535

def Outgoing.send (p : Outgoing) (nextPkt : UInt16) : Except String (List (List UInt8)) × UInt16 :=
  Tuic.send nextPkt p.assocId p.target p.payload p.maxDatagram

def Outgoing.parts (p : Outgoing) : List (List UInt8) :=
  fragments p.target p.payload (p.maxDatagram.getD 0)

-- A datagram that the network delivers.
structure Incoming where
  now   : Nat
  tie   : Nat
  bytes : List UInt8

def receiveStep (m : Pending) (x : Incoming) : Option Pending :=
  some (receive x.now x.tie x.bytes m).2

section

variable (sends : Nat → Outgoing) (first : UInt16)

-- The number of a packet: the counter after all the packets before it.
def pktId : Nat → UInt16
  | 0     => first
  | k + 1 => ((sends k).send (pktId k)).2

def Sent (k : Nat) (dgs : List (List UInt8)) : Prop :=
  ((sends k).send (pktId sends first k)).1 = .ok dgs

-- The network delays, reorders, loses and duplicates datagrams, but for less than a lifetime.
def Delivered (x : Incoming) : Prop :=
  ∃ k dgs, Sent sends first k dgs ∧ x.bytes ∈ dgs ∧
    (sends k).time ≤ x.now ∧ x.now < (sends k).time + reasmTtl

-- Two fragmented packets with the same number are sent at least two lifetimes apart.
def Spaced : Prop :=
  ∀ j k dgs dgs', Sent sends first j dgs → Sent sends first k dgs' → 2 ≤ dgs.length → 2 ≤ dgs'.length →
    (sends j).assocId = (sends k).assocId → pktId sends first j = pktId sends first k →
    (sends j).time ≤ (sends k).time → j ≠ k → (sends j).time + 2 * reasmTtl ≤ (sends k).time

-- The entry has been made for this packet, and has been filled with its parts only.
structure PartOf (k : Nat) (r : Reasm) : Prop where
  frags  : ∃ seen, r.frags = collected (sends k).parts seen
  after  : (sends k).time ≤ r.created
  before : r.created < (sends k).time + reasmTtl

def Consistent (now : Nat) (m : Pending) : Prop :=
  ∀ key r, m.get key = some r → r.created ≤ now ∧
    ∃ k dgs, Sent sends first k dgs ∧ 2 ≤ dgs.length ∧
      key = ((sends k).assocId, pktId sends first k) ∧ PartOf sends k r

end

section

variable {sends : Nat → Outgoing} {first : UInt16} {k : Nat} {dgs : List (List UInt8)}
variable {dg part : List UInt8} {head : PacketHead} {m : Pending} {now : Nat} {x : Incoming} {r : Reasm}

theorem Sent.encodePackets (h : Sent sends first k dgs) :
    Tuic.encodePackets (sends k).assocId (pktId sends first k) (sends k).target (sends k).payload
      ((sends k).maxDatagram.getD 0) = .ok dgs := by
  simp only [Sent, Outgoing.send, Tuic.send] at h
  split at h
  case h_1 => cases h
  case h_2 max hm => rwa [hm]

theorem Sent.length_parts (h : Sent sends first k dgs) : (sends k).parts.length = dgs.length :=
  length_fragments h.encodePackets

theorem Sent.flatten_parts (h : Sent sends first k dgs) : (sends k).parts.flatten = (sends k).payload :=
  flatten_fragments h.encodePackets

-- What the receiver makes of a datagram.
theorem Sent.decodePacket (h : Sent sends first k dgs) (hm : dg ∈ dgs) :
    ∃ head part, Tuic.decodePacket dg = .ok (head, part) ∧
      (head.fragment part).key = ((sends k).assocId, pktId sends first k) ∧
      (head.fragment part).total = dgs.length ∧
      (sends k).parts[(head.fragment part).id]? = some part := by
  have ⟨i, hi⟩ := List.getElem?_of_mem hm
  have ⟨head, part, hd, hpart, ha, hp, ht, hid, _⟩ :=
    decodePacket_encodePackets h.encodePackets (sends k).payload_le (sends k).port_lt hi
  refine ⟨head, part, hd, ?_, ht, ?_⟩
  · rw [← ha, ← hp]
    rfl
  · rw [← hid] at hpart
    exact hpart

theorem PartOf.new (ht : (sends k).time ≤ now) (hb : now < (sends k).time + reasmTtl) :
    PartOf sends k (.new (sends k).parts.length now) where
  frags := ⟨[], collected_nil.symm⟩
  after := ht
  before := hb

theorem PartOf.put (h : PartOf sends k r) {id : Nat} (hi : (sends k).parts[id]? = some part) :
    PartOf sends k (r.put id part) := by
  have ⟨⟨seen, hs⟩, ha, hb⟩ := h
  exact ⟨⟨id :: seen, Reasm.frags_put hs hi⟩, by rwa [Reasm.created_put], by rwa [Reasm.created_put]⟩

theorem PartOf.join (h : PartOf sends k r) (hc : r.received = (sends k).parts.length) :
    r.join = (sends k).parts.flatten := by
  have ⟨_, hs⟩ := h.frags
  exact Reasm.join_eq hs ((Reasm.received_eq_iff hs).mp hc)

-- An entry that a fragment finds is of the same packet: all others with this number are too far away.
theorem PartOf.eq_of_spaced (hs : Spaced sends first) (h : PartOf sends k r) {j : Nat}
    {dgs' : List (List UInt8)} (hk : Sent sends first k dgs) (hj : Sent sends first j dgs')
    (hl : 2 ≤ dgs.length) (hl' : 2 ≤ dgs'.length)
    (he : ((sends k).assocId, pktId sends first k) = ((sends j).assocId, pktId sends first j))
    (hn : r.created ≤ now) (hx : now - r.created < reasmTtl) (ht : (sends j).time ≤ now)
    (hb : now < (sends j).time + reasmTtl) : k = j := by
  have ⟨ha, hp⟩ := Prod.mk.inj he
  have h₁ := h.after
  have h₂ := h.before
  refine Classical.byContradiction fun hne => ?_
  rcases Nat.le_total (sends k).time (sends j).time with hle | hle
  · have := hs k j dgs dgs' hk hj hl hl' ha hp hle hne
    omega
  · have := hs j k dgs' dgs hj hk hl' hl ha.symm hp.symm hle (Ne.symm hne)
    omega

theorem Consistent.mono (h : Consistent sends first now m) {now' : Nat} (hn : now ≤ now') :
    Consistent sends first now' m := by
  intro key r hr
  have ⟨hc, he⟩ := h key r hr
  exact ⟨Nat.le_trans hc hn, he⟩

-- The entry of a fragment of the packet `k`.
theorem Consistent.partOf (h : Consistent sends first now m) (hs : Spaced sends first)
    (hk : Sent sends first k dgs) (hl : 2 ≤ dgs.length) {f : Fragment (UInt16 × UInt16)}
    (hf : f.key = ((sends k).assocId, pktId sends first k)) (ht : f.total = dgs.length) {now' : Nat}
    (hn : now ≤ now') (ha : (sends k).time ≤ now') (hb : now' < (sends k).time + reasmTtl)
    (he : Entry now' f m r) : PartOf sends k r ∧ r.created ≤ now' := by
  obtain rfl | ⟨hr, hx⟩ := he
  case inl =>
    rw [ht, ← hk.length_parts]
    exact ⟨.new ha hb, Nat.le_refl now'⟩
  case inr =>
    have ⟨hc, j, dgs', hj, hl', hkey, hp⟩ := h _ r hr
    have := hp.eq_of_spaced hs hj hk hl' hl (hkey.symm.trans hf) (Nat.le_trans hc hn) hx ha hb
    exact ⟨this ▸ hp, Nat.le_trans hc hn⟩

theorem eq_singleton {α : Type} {l : List α} {i : Nat} {a : α} (hl : l.length ≤ 1) (hi : l[i]? = some a) :
    l = [a] := by
  match l with
  | []     => simp at hi
  | [b]    => rw [List.mem_singleton.mp (List.mem_of_getElem? hi)]
  | b :: c :: l => simp at hl

theorem Consistent.receive (h : Consistent sends first now m) (hs : Spaced sends first)
    (hx : Delivered sends first x) (hn : now ≤ x.now) :
    Consistent sends first x.now (Tuic.receive x.now x.tie x.bytes m).2 ∧
    ∀ assocId payload, (Tuic.receive x.now x.tie x.bytes m).1 = some (assocId, payload) →
      ∃ k dgs, Sent sends first k dgs ∧ (sends k).assocId = assocId ∧ (sends k).payload = payload := by
  have ⟨k, dgs, hk, hm, ha, hb⟩ := hx
  have ⟨head, part, hd, hkey, ht, hpart⟩ := hk.decodePacket hm
  simp only [Tuic.receive, hd]
  split
  case isTrue h₁ =>
    refine ⟨h.mono hn, fun assocId payload hp => ?_⟩
    cases hp
    refine ⟨k, dgs, hk, (congrArg Prod.fst hkey).symm, ?_⟩
    have hl : (sends k).parts.length ≤ 1 := by
      rw [hk.length_parts, ← ht]
      exact UInt8.le_iff_toNat_le.mp h₁
    rw [← hk.flatten_parts, eq_singleton hl hpart, List.flatten_singleton]
  case isFalse h₁ =>
    have hl : 2 ≤ dgs.length := by
      have : ¬head.fragTotal.toNat ≤ 1 := fun h => h₁ (UInt8.le_iff_toNat_le.mpr h)
      rw [← ht]
      exact Nat.lt_of_not_le this
    have he {r : Reasm} := h.partOf (r := r) hs hk hl hkey ht hn ha hb
    constructor
    case left =>
      intro key r hr
      obtain ⟨hr, _⟩ | ⟨rfl, e, hent, _, _, rfl⟩ := get_reassemble hr
      case inl => exact h.mono hn key r hr
      case inr =>
        have ⟨hp, hc⟩ := he hent
        exact ⟨by rwa [Reasm.created_put], k, dgs, hk, hl, hkey, hp.put hpart⟩
    case right =>
      intro assocId payload hp
      have ⟨full, hf, hpair⟩ := Option.map_eq_some_iff.mp hp
      cases hpair
      have ⟨e, hent, _, hrec, hj⟩ := reassemble_eq_some hf
      have hpart := (he hent).1.put hpart
      refine ⟨k, dgs, hk, (congrArg Prod.fst hkey).symm, ?_⟩
      rw [hj, ← hk.flatten_parts]
      refine (hpart.join ?_).symm
      rw [hk.length_parts, ← ht]
      exact hrec

theorem Consistent.run (h : Consistent sends first now m) (hs : Spaced sends first)
    {es : List Incoming} {m' : Pending} (hd : ∀ y ∈ es, Delivered sends first y)
    (ho : es.Pairwise (·.now ≤ ·.now)) (hn : ∀ y ∈ es, now ≤ y.now)
    (hr : run receiveStep m es = some m') :
    ∃ now', Consistent sends first now' m' ∧
      ∀ t, now ≤ t → (∀ y ∈ es, y.now ≤ t) → now' ≤ t := by
  induction es generalizing m now
  case nil =>
    cases hr
    exact ⟨now, h, fun _ ht _ => ht⟩
  case cons y es hi =>
    have ⟨hdy, hd⟩ := List.forall_mem_cons.mp hd
    have ⟨hy, ho⟩ := List.pairwise_cons.mp ho
    have ⟨m₁, hm, hr⟩ := run_cons hr
    cases hm
    have ⟨now', hc, ht⟩ := hi (h.receive hs hdy (hn y List.mem_cons_self)).1 hd ho hy hr
    refine ⟨now', hc, fun t _ hle => ?_⟩
    have ⟨hyt, hle⟩ := List.forall_mem_cons.mp hle
    exact ht t hyt hle

-- Every payload is one of those that were sent.
theorem reassembled_was_sent (hs : Spaced sends first) {es : List Incoming}
    (hd : ∀ y ∈ es ++ [x], Delivered sends first y) (ho : (es ++ [x]).Pairwise (·.now ≤ ·.now))
    (hr : run receiveStep .empty es = some m) {assocId : UInt16} {payload : List UInt8}
    (hp : (receive x.now x.tie x.bytes m).1 = some (assocId, payload)) :
    ∃ k dgs, Sent sends first k dgs ∧ (sends k).assocId = assocId ∧ (sends k).payload = payload := by
  have ⟨hd, hx⟩ := List.forall_mem_append.mp hd
  have ⟨ho, _, hl⟩ := List.pairwise_append.mp ho
  have h₀ : Consistent sends first 0 .empty := by
    intro key r hr
    cases hr
  have ⟨now, hc, hn⟩ := h₀.run hs hd ho (fun _ _ => Nat.zero_le _) hr
  have hn := hn x.now (Nat.zero_le _) fun y hy => hl y hy x List.mem_cons_self
  exact (hc.receive hs (hx x List.mem_cons_self) hn).2 assocId payload hp

theorem pktId_eq (h : ∀ k, (sends k).maxDatagram.isSome) (k : Nat) :
    pktId sends first k = first + .ofNat k := by
  induction k
  case zero => simp [pktId]
  case succ k hi =>
    have ⟨max, hm⟩ := Option.isSome_iff_exists.mp (h k)
    simp only [pktId, Outgoing.send, send, hm, hi]
    rw [UInt16.ofNat_add, ← UInt16.add_assoc]
    rfl

end

-- Two fragments of one byte each.
def twoBytes (time : Nat) (a b : UInt8) : Outgoing where
  time
  assocId := 1
  target := .socket (.v4 0x01020304 443)
  payload := [a, b]
  maxDatagram := some 18
  port_lt := by decide
  payload_le := by simp

-- Its datagrams, if its number is one.
def firstOf (a : UInt8) : List UInt8 := [5, 2, 0, 1, 0, 1, 2, 0, 0, 1, 1, 1, 2, 3, 4, 1, 187, a]
def secondOf (b : UInt8) : List UInt8 := [5, 2, 0, 1, 0, 1, 2, 1, 0, 1, 255, b]

theorem sent_twoBytes {sends : Nat → Outgoing} {k time : Nat} {a b : UInt8}
    (hk : sends k = twoBytes time a b) (hp : pktId sends 1 k = 1) :
    Sent sends 1 k [firstOf a, secondOf b] := by
  rw [Sent, hk, hp]
  with_unfolding_all rfl

-- One packet a second.
def fewPackets (k : Nat) : Outgoing :=
  twoBytes (k * 1000000000) 1 2

theorem spaced_fewPackets : Spaced fewPackets 1 := by
  intro j k _ _ _ _ _ _ _ hp hle hne
  have hm : ∀ k, (fewPackets k).maxDatagram.isSome := fun _ => rfl
  rw [pktId_eq hm, pktId_eq hm] at hp
  have hmod : j % 65536 = k % 65536 := by
    have := congrArg UInt16.toNat hp
    simp only [UInt16.toNat_add, UInt16.toNat_ofNat', UInt16.toNat_one] at this
    omega
  have hle : j ≤ k := Nat.le_of_mul_le_mul_right hle (by decide)
  have hjk : j + 65536 ≤ k := by omega
  exact calc j * 1000000000 + 2 * reasmTtl
    _ ≤ (j + 65536) * 1000000000 := by rw [Nat.add_mul]; exact Nat.add_le_add_left (by decide) _
    _ ≤ k * 1000000000           := Nat.mul_le_mul_right _ hjk

theorem reassembled_was_sent_few :
    ∃ m, run receiveStep .empty [⟨5, 0, secondOf 2⟩] = some m ∧
      (receive 6 0 (firstOf 1) m).1 = some (1, [1, 2]) ∧
      ∃ k dgs, Sent fewPackets 1 k dgs ∧ (fewPackets k).assocId = 1 ∧ (fewPackets k).payload = [1, 2] := by
  have hs : Sent fewPackets 1 0 [firstOf 1, secondOf 2] := sent_twoBytes rfl rfl
  have hd : ∀ dg ∈ [firstOf 1, secondOf 2], ∀ now < reasmTtl, Delivered fewPackets 1 ⟨now, 0, dg⟩ :=
    fun dg hm now hn => ⟨0, _, hs, hm, Nat.zero_le _, by simpa [fewPackets, twoBytes] using hn⟩
  have hr : run receiveStep .empty [⟨5, 0, secondOf 2⟩] = some (receive 5 0 (secondOf 2) .empty).2 := rfl
  have hp : (receive 6 0 (firstOf 1) (receive 5 0 (secondOf 2) .empty).2).1 = some (1, [1, 2]) := by
    decide +kernel
  refine ⟨_, hr, hp, reassembled_was_sent (x := ⟨6, 0, firstOf 1⟩) spaced_fewPackets ?_ ?_ hr hp⟩
  case refine_1 =>
    refine List.forall_mem_cons.mpr ⟨hd _ (by simp) 5 (by decide), ?_⟩
    exact List.forall_mem_singleton.mpr (hd _ (by simp) 6 (by decide))
  case refine_2 => simp

-- Ten thousand packets a second: the number of the first one comes again within a lifetime.
def manyPackets (k : Nat) : Outgoing :=
  if k = 65536 then twoBytes (k * 100000) 3 4 else twoBytes (k * 100000) 1 2

-- The first fragment of the first packet comes again after the packet is complete.
theorem mixed_after_wrap :
    let es : List Incoming := [⟨1, 0, firstOf 1⟩, ⟨2, 0, secondOf 2⟩, ⟨3, 0, firstOf 1⟩]
    let x : Incoming := ⟨6600000000, 0, secondOf 4⟩
    (∀ y ∈ es ++ [x], Delivered manyPackets 1 y) ∧ (es ++ [x]).Pairwise (·.now ≤ ·.now) ∧
      ∃ m, run receiveStep .empty es = some m ∧
        (receive x.now x.tie x.bytes m).1 = some (1, [1, 4]) ∧ ∀ k, (manyPackets k).payload ≠ [1, 4] := by
  intro es x
  have hm : ∀ k, (manyPackets k).maxDatagram.isSome := by
    intro k
    simp only [manyPackets]
    split <;> rfl
  have h₀ : Sent manyPackets 1 0 [firstOf 1, secondOf 2] := sent_twoBytes rfl rfl
  have h₁ : Sent manyPackets 1 65536 [firstOf 3, secondOf 4] :=
    sent_twoBytes rfl (by rw [pktId_eq hm]; decide)
  have hd : ∀ dg ∈ [firstOf 1, secondOf 2], ∀ now < reasmTtl, Delivered manyPackets 1 ⟨now, 0, dg⟩ :=
    fun dg hm now hn => ⟨0, _, h₀, hm, Nat.zero_le _, by simpa [manyPackets, twoBytes] using hn⟩
  refine ⟨?_, by simp [es, x], _, rfl, by decide +kernel, fun k => ?_⟩
  case refine_1 =>
    refine List.forall_mem_cons.mpr ⟨hd _ (by simp) 1 (by decide), ?_⟩
    refine List.forall_mem_cons.mpr ⟨hd _ (by simp) 2 (by decide), ?_⟩
    refine List.forall_mem_cons.mpr ⟨hd _ (by simp) 3 (by decide), ?_⟩
    exact List.forall_mem_singleton.mpr ⟨65536, _, h₁, by simp [x], by decide, by decide⟩
  case refine_2 =>
    simp only [manyPackets]
    split <;> simp [twoBytes]

end JammVpn.Tuic
