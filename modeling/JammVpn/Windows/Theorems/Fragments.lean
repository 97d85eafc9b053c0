import JammVpn.Lib.Ipv4
import JammVpn.Windows.Theorems.Checksums
import JammVpn.Windows.Theorems.KillSwitch

namespace JammVpn.Windows

open Attribution Bytes Ip Ipv4 Ladder Split

section Parse

variable (p : Packet)

theorem slice_append {bs cs ds : List UInt8} {start len : Nat} (hs : bs.length = start)
    (hl : cs.length = len) : slice (bs ++ (cs ++ ds)) start len = cs := by
  rw [slice, List.drop_left' hs, List.take_left' hl]

theorem getD_encode : p.encode.getD 9 0 = p.proto :=
  rfl

theorem slice_src : slice p.encode 12 4 = toBe 4 p.src.toNat := by
  have he : p.encode = (p.start ++ toBe 2 p.checksum) ++
      (toBe 4 p.src.toNat ++ (toBe 4 p.dst.toNat ++ p.options ++ p.payload)) := by
    simp only [Packet.encode, Packet.header, Packet.addresses, List.append_assoc]
  rw [he, slice_append (by simp) (length_toBe 4 _)]

theorem slice_dst : slice p.encode 16 4 = toBe 4 p.dst.toNat := by
  have he : p.encode = (p.start ++ toBe 2 p.checksum ++ toBe 4 p.src.toNat) ++
      (toBe 4 p.dst.toNat ++ (p.options ++ p.payload)) := by
    simp only [Packet.encode, Packet.header, Packet.addresses, List.append_assoc]
  rw [he, slice_append (by simp) (length_toBe 4 _)]

theorem v4At_src : v4At p.encode 12 = .v4 p.src := by
  rw [v4At, slice_src, ofBe_toBe_bitVec 4 p.src (by decide)]

theorem v4At_dst : v4At p.encode 16 = .v4 p.dst := by
  rw [v4At, slice_dst, ofBe_toBe_bitVec 4 p.dst (by decide)]

theorem versionByte_div : p.versionByte.toNat / 16 = 4 := by
  have := p.words_le
  rw [p.versionByte_toNat]
  omega

theorem versionByte_mod : p.versionByte.toNat % 16 * 4 = p.ihl := by
  have := p.words_le
  rw [p.versionByte_toNat, Packet.ihl]
  omega

theorem parseHeader_encode :
    parseHeader p.encode = some (false, p.proto, .v4 p.src, .v4 p.dst, p.payload) := by
  obtain ⟨rest, he⟩ := p.encode_eq_cons
  have hl : ¬p.encode.length < 20 := by
    rw [p.length_encode, Packet.totalLen, Packet.ihl]
    omega
  have hd : getFrom p.encode p.ihl = some p.payload := by
    rw [getFrom, p.length_encode, Packet.totalLen, if_pos (Nat.le_add_right _ _), p.drop_encode]
  have hh : parseHeader p.encode =
      (getFrom p.encode (p.versionByte.toNat % 16 * 4)).map fun l4 =>
        (false, p.encode.getD 9 0, v4At p.encode 12, v4At p.encode 16, l4) := by
    rw [he] at hl ⊢
    rw [parseHeader, if_pos (versionByte_div p), if_neg hl]
  rw [hh, versionByte_mod, hd, getD_encode, v4At_src, v4At_dst]
  rfl

-- What the back ends take for the ports of a packet.
def flowAt (proto : Proto) : Flow where
  proto
  isV6 := false
  localPort := ofBe (slice p.payload 0 2)
  dstIp := .v4 p.dst
  dstPort := ofBe (slice p.payload 2 2)

theorem parseFlow_encode :
    parseFlow p.encode =
      (protoOf p.proto).bind fun proto =>
        if p.payload.length < 4 then none else some (flowAt p proto, .v4 p.src) := by
  rw [parseFlow, parseHeader_encode]
  rfl

end Parse

-- The same is done with both packets.
inductive SameVerdict : WinpkFilter.Verdict → WinpkFilter.Verdict → Prop
  | tunnel {ip eth ip' eth' : List UInt8} {localIp localIp' : IpAddr} :
    SameVerdict (.tunnel ip eth localIp) (.tunnel ip' eth' localIp')
  | toAdapter : SameVerdict .toAdapter .toAdapter
  | toMstcp : SameVerdict .toMstcp .toMstcp
  | drop : SameVerdict .drop .drop

theorem SameVerdict.refl (v : WinpkFilter.Verdict) : SameVerdict v v := by
  cases v <;> constructor

def headerLen : Proto → Nat
  | .tcp => 20
  | .udp => 8

-- A datagram that is not a fragment, with the header of its transport.
structure IsDatagram (d : Packet) (proto : Proto) : Prop where
  transport : protoOf d.proto = some proto
  whole     : d.offset = 0 ∧ d.moreFragments = false
  long      : headerLen proto ≤ d.payload.length

theorem IsDatagram.eight_le {d : Packet} {proto : Proto} (h : IsDatagram d proto) : 8 ≤ d.payload.length := by
  have := h.long
  cases proto <;> simp only [headerLen] at this <;> omega

section Verdicts

variable (fileName : String → Option String) (host : Host) (cfg : SplitConfig) (resolver : ProcessResolver)
  (proto : Proto)

def requestAt (p : Packet) : ConnRequest :=
  requestOf fileName host resolver (flowAt p proto)

-- A fragment without four bytes leaves by the adapter; any other one is judged by the application that
-- has the port in its first bytes.
def RoutedAlike (d f : Packet) : Prop :=
  if f.payload.length < 4 then Decides (ladder cfg) (requestAt fileName host resolver proto d) .direct
  else
    Undecided (addressRungs cfg) (requestAt fileName host resolver proto d) →
      appSelected cfg (requestAt fileName host resolver proto f).app =
        appSelected cfg (requestAt fileName host resolver proto d).app

variable {fileName host cfg resolver proto} {d f : Packet} {eth : List UInt8} {r r' : Route}

theorem addressRungs_congr {req req' : ConnRequest} (h : req.dstIp = req'.dstIp) :
    ∀ r ∈ addressRungs cfg, req ∈ r.scope ↔ req' ∈ r.scope := by
  simp [addressRungs, directRungs, h]

theorem ofSelected_inj {b b' : Bool} {mode : SplitMode} :
    (if b then ofSelected mode else (ofSelected mode).other) =
      (if b' then ofSelected mode else (ofSelected mode).other) ↔ b = b' := by
  cases b <;> cases b' <;> cases mode <;> simp [ofSelected, Route.other]

-- Two connections to one address go the same way unless it is up to their applications.
theorem same_route_iff {req req' : ConnRequest} (hip : req'.dstIp = req.dstIp)
    (h : Decides (ladder cfg) req r) (h' : Decides (ladder cfg) req' r') :
    r' = r ↔ (Undecided (addressRungs cfg) req → appSelected cfg req'.app = appSelected cfg req.app) := by
  rcases decides_append.mp h with ha | ⟨hu, hm⟩
  case inl =>
    have hr : r' = r := h'.unique (decides_append.mpr (.inl ((decides_congr (addressRungs_congr hip)).mpr ha)))
    exact iff_of_true hr fun hu => absurd hu ha.not_undecided
  case inr =>
    have hu' := (undecided_congr (addressRungs_congr hip)).mpr hu
    have hm' : Decides (modeRungs cfg) req' r' :=
      (decides_append.mp h').elim (fun ha => absurd hu' ha.not_undecided) (·.2)
    rw [decides_modeRungs_iff.mp hm, decides_modeRungs_iff.mp hm', ofSelected_inj]
    exact ⟨fun h _ => h, fun h => h hu⟩

theorem drop_eth (he : eth.length = ethHdr) (p : Packet) : (eth ++ p.encode).drop ethHdr = p.encode :=
  List.drop_left' he

theorem winpkVerdict_incoming (frame : List UInt8) :
    winpkVerdict fileName host cfg resolver frame false = .toMstcp := by
  rw [winpkVerdict, WinpkFilter.classify]
  split
  case isTrue => rfl
  case isFalse =>
    split
    case h_1 => rfl
    case h_2 => rfl

theorem winpkVerdict_short (he : eth.length = ethHdr) (hl : f.payload.length < 4) :
    winpkVerdict fileName host cfg resolver (eth ++ f.encode) true = .toAdapter := by
  refine winpkVerdict_of_none ?_ true
  rw [drop_eth he, parseFlow_encode]
  cases protoOf f.proto
  case none       => rfl
  case some proto => exact if_pos hl

theorem winpkVerdict_long (he : eth.length = ethHdr) (hp : protoOf f.proto = some proto)
    (hl : ¬f.payload.length < 4)
    (h : Decides (ladder cfg) (requestAt fileName host resolver proto f) r) :
    winpkVerdict fileName host cfg resolver (eth ++ f.encode) true =
      match r with
      | .tunnel => .tunnel f.encode (WinpkFilter.swappedEth (eth ++ f.encode)) (.v4 f.src)
      | .direct => .toAdapter := by
  have hf : parseFlow ((eth ++ f.encode).drop ethHdr) = some (flowAt f proto, .v4 f.src) := by
    rw [drop_eth he, parseFlow_encode, hp]
    exact if_neg hl
  have hlen : ethHdr ≤ (eth ++ f.encode).length := by
    rw [List.length_append, he]
    exact Nat.le_add_right _ _
  rw [winpkVerdict_of_decides hlen hf h, drop_eth he]
  cases r <;> rfl

theorem sameVerdict_iff (he : eth.length = ethHdr) (hd : IsDatagram d proto) (hf : Related d f) :
    SameVerdict (winpkVerdict fileName host cfg resolver (eth ++ f.encode) true)
        (winpkVerdict fileName host cfg resolver (eth ++ d.encode) true) ↔
      RoutedAlike fileName host cfg resolver proto d f := by
  obtain ⟨r, hr⟩ := exists_decides_ladder cfg (requestAt fileName host resolver proto d)
  have hlong : ¬d.payload.length < 4 := Nat.not_lt.mpr (Nat.le_trans (by decide) hd.eight_le)
  rw [winpkVerdict_long he hd.transport hlong hr, RoutedAlike]
  by_cases hl : f.payload.length < 4
  case pos =>
    rw [winpkVerdict_short he hl, if_pos hl]
    constructor
    case mp =>
      intro h
      cases r
      case direct => exact hr
      case tunnel => cases h
    case mpr =>
      intro h
      cases hr.unique h
      exact .toAdapter
  case neg =>
    obtain ⟨r', hr'⟩ := exists_decides_ladder cfg (requestAt fileName host resolver proto f)
    have hip : (requestAt fileName host resolver proto f).dstIp =
        (requestAt fileName host resolver proto d).dstIp := congrArg IpAddr.v4 hf.dst
    rw [winpkVerdict_long he (hf.proto ▸ hd.transport) hl hr', if_neg hl, ← same_route_iff hip hr hr']
    constructor
    case mp =>
      intro h
      cases r <;> cases r' <;> first | rfl | cases h
    case mpr =>
      rintro rfl
      cases r' <;> constructor

end Verdicts

section Checksums

open WinpkFilter

variable (p : Packet)

-- The part of the pseudo header that does not depend on the segment's own words.
def pseudoSum : Nat :=
  sum16 (toBe 4 p.dst.toNat) (sum16 (toBe 4 p.src.toNat) 0) + (p.proto.toNat + p.payload.length)

theorem putU16_encode (checksum : Nat) : putU16 p.encode 10 checksum = { p with checksum }.encode := by
  have he : ∀ v, { p with checksum := v }.encode =
      p.start ++ (toBe 2 v ++ (p.addresses ++ p.options ++ p.payload)) := by
    intro v
    simp only [Packet.encode, Packet.header, List.append_assoc]
    rfl
  rw [putU16, he checksum, he p.checksum, ← p.length_start, List.take_left, ← List.drop_drop, List.drop_left,
    List.drop_left' (length_toBe 2 _), List.append_assoc]

theorem totalLen_encode : ofBe (slice p.encode 2 2) = p.totalLen := by
  have he : p.encode = [p.versionByte, p.tos] ++ (toBe 2 p.totalLen ++
      (toBe 2 p.id ++ toBe 2 p.flags ++ [p.ttl, p.proto] ++ toBe 2 p.checksum ++ p.addresses ++ p.options ++
        p.payload)) := by
    simp only [Packet.encode, Packet.header, Packet.start, Packet.versionByte, List.append_assoc]
  rw [he, slice_append (by rfl : [p.versionByte, p.tos].length = 2) (length_toBe 2 _),
    ofBe_toBe_of_lt p.totalLen_lt]

-- The header gets a checksum of its own, and the payload that of a segment.
theorem recalcChecksums_encode :
    ∃ checksum, recalcChecksums p.encode =
      { p with checksum }.header ++ setL4Checksum p.proto p.payload (pseudoSum p) := by
  refine ⟨fold (sum16 ((putU16 p.encode 10 0).take p.ihl) 0), ?_⟩
  obtain ⟨rest, he⟩ := p.encode_eq_cons
  have hv : recalcChecksums p.encode = recalcV4 p.encode := by
    rw [he, recalcChecksums, if_pos (versionByte_div p)]
  have hb : p.encode.getD 0 0 = p.versionByte := rfl
  have hihl : p.ihl = 20 + p.words * 4 := rfl
  have htot : p.totalLen = p.ihl + p.payload.length := rfl
  have hlen := p.length_encode
  rw [hv, recalcV4]
  simp only [hb, versionByte_mod, totalLen_encode, getD_encode, slice_src, slice_dst]
  rw [if_neg (by omega), if_neg (by omega), putU16_encode]
  generalize fold (sum16 ((putU16 p.encode 10 0).take p.ihl) 0) = checksum
  have hq : slice { p with checksum }.encode p.ihl (p.totalLen - p.ihl) = p.payload := by
    rw [slice, show p.ihl = { p with checksum }.ihl from rfl, Packet.drop_encode]
    exact List.take_of_length_le (by rw [htot]; exact Nat.le_of_eq (Nat.add_sub_cancel_left _ _).symm)
  have ht : { p with checksum }.encode.take p.ihl = { p with checksum }.header :=
    Packet.take_encode { p with checksum }
  have hd : { p with checksum }.encode.drop p.totalLen = [] :=
    List.drop_of_length_le (Nat.le_of_eq (Packet.length_encode { p with checksum }))
  rw [hq, ht, hd, List.append_nil]
  rfl

variable {p}

-- Nothing but the checksum of the header is changed where the payload has a checksum in place.
theorem recalcChecksums_iff (hne : p.payload ≠ []) :
    (∃ checksum, recalcChecksums p.encode = { p with checksum }.encode) ↔
      ChecksumInPlace p.proto p.payload (pseudoSum p) := by
  have hz : 0 < pseudoSum p := by
    have := List.length_pos_iff.mpr hne
    rw [pseudoSum]
    omega
  obtain ⟨checksum, hr⟩ := recalcChecksums_encode p
  rw [← setL4Checksum_eq_self_iff hz, hr]
  constructor
  case mp =>
    rintro ⟨checksum', h⟩
    have hl : { p with checksum }.header.length = { p with checksum := checksum' }.header.length := by
      rw [Packet.length_header, Packet.length_header]
      rfl
    rw [Packet.encode] at h
    exact (List.append_inj h hl).2
  case mpr =>
    intro h
    exact ⟨checksum, by rw [h]; rfl⟩

end Checksums

section

variable (fileName : String → Option String) (host : Host) (cfg : SplitConfig) (resolver : ProcessResolver)
  (proto : Proto)

-- A later fragment of which it does not show that its first bytes are no header.
structure Harmless (outgoing : Bool) (d f : Packet) : Prop where
  route    : outgoing = true → RoutedAlike fileName host cfg resolver proto d f
  checksum : WinpkFilter.ChecksumInPlace f.proto f.payload (pseudoSum f)

variable {fileName host cfg resolver proto} {d f : Packet} {eth : List UInt8} {outgoing : Bool}

theorem sameVerdict_outgoing_iff (he : eth.length = ethHdr) (hd : IsDatagram d proto) (hf : Related d f) :
    SameVerdict (winpkVerdict fileName host cfg resolver (eth ++ f.encode) outgoing)
        (winpkVerdict fileName host cfg resolver (eth ++ d.encode) outgoing) ↔
      (outgoing = true → RoutedAlike fileName host cfg resolver proto d f) := by
  cases outgoing
  case false =>
    rw [winpkVerdict_incoming, winpkVerdict_incoming]
    exact iff_of_true .toMstcp fun h => absurd h Bool.false_ne_true
  case true => rw [sameVerdict_iff he hd hf, forall_prop_of_true rfl]

-- The first fragment has the ports of the datagram.
theorem routedAlike_first (hd : IsDatagram d proto)
    (h : f.payload = d.payload ∨ 8 ≤ f.payload.length ∧ ∃ n, f.payload = d.payload.take n) :
    RoutedAlike fileName host cfg resolver proto d f := by
  have hl : ¬f.payload.length < 4 := by
    have := hd.eight_le
    rcases h with h | ⟨h, _⟩
    · rw [h]
      omega
    · omega
  have hs : slice f.payload 0 2 = slice d.payload 0 2 := by
    rcases h with h | ⟨h, n, hn⟩
    · rw [h]
    · have hn8 : 2 ≤ n := by
        rw [hn, List.length_take] at h
        omega
      rw [hn, slice, slice, List.drop_zero, List.drop_zero, List.take_take, Nat.min_eq_left hn8]
  have ha : (requestAt fileName host resolver proto f).app = (requestAt fileName host resolver proto d).app := by
    simp only [requestAt, requestOf, appOf, flowAt, hs]
  rw [RoutedAlike, if_neg hl, ha]
  exact fun _ => rfl

theorem fragment_alike_iff (he : eth.length = ethHdr) (hd : IsDatagram d proto) {fs : List Packet}
    (h : Fragments d 0 fs) (hf : f ∈ fs) :
    SameVerdict (winpkVerdict fileName host cfg resolver (eth ++ f.encode) outgoing)
          (winpkVerdict fileName host cfg resolver (eth ++ d.encode) outgoing) ∧
        (f.offset ≠ 0 →
          ∃ checksum, WinpkFilter.recalcChecksums f.encode = { f with checksum }.encode) ↔
      (f.offset ≠ 0 → Harmless fileName host cfg resolver proto outgoing d f) := by
  rw [sameVerdict_outgoing_iff he hd (h.related hf), recalcChecksums_iff (h.payload_ne_nil hf)]
  by_cases ho : f.offset = 0
  case pos =>
    have hr : RoutedAlike fileName host cfg resolver proto d f :=
      routedAlike_first hd (h.first hf ho).2
    exact iff_of_true ⟨fun _ => hr, absurd ho⟩ (absurd ho)
  case neg =>
    constructor
    case mp  => exact fun h _ => ⟨h.1, h.2 ho⟩
    case mpr => exact fun h => ⟨(h ho).route, fun _ => (h ho).checksum⟩

end

-- Pieces of a UDP datagram from port 5000 of `10.0.0.2` to `8.8.8.8`.
def udpPiece (offset : Nat) (moreFragments : Bool) (payload : List UInt8)
    (total_lt : 20 + 0 * 4 + payload.length < 65536) : Packet where
  words := 0
  tos := 0
  id := 1
  dontFragment := false
  moreFragments
  offset
  ttl := 64
  proto := 17
  checksum := 0
  src := 0x0a000002
  dst := 0x08080808
  options := []
  payload
  words_le := by decide
  options_length := rfl
  total_lt

def udpHeader : List UInt8 :=
  [0x13, 0x88, 0, 53, 0, 24, 0, 0]

def udpDatagram : Packet :=
  udpPiece 0 false (udpHeader ++ List.replicate 16 0) (by decide)

def lastPiece : Packet :=
  udpPiece 1 false (List.replicate 16 0) (by decide)

def udpFragments : List Packet :=
  [udpPiece 0 true udpHeader (by decide), lastPiece]

theorem udpFragments_fragments : Fragments udpDatagram 0 udpFragments := by
  have hr : ∀ offset more payload ht, Related udpDatagram (udpPiece offset more payload ht) :=
    fun _ _ _ _ => ⟨rfl, rfl, rfl, rfl⟩
  exact @Fragments.more _ 0 _ _ 0 (hr _ _ _ _) rfl rfl rfl rfl
    (.last (hr _ _ _ _) rfl rfl rfl (List.cons_ne_nil _ _))

theorem udpDatagram_isDatagram : IsDatagram udpDatagram .udp :=
  ⟨rfl, ⟨rfl, rfl⟩, by decide⟩

-- Port 5000 belongs to the selected application.
def selectedHost : Host where
  now := 0
  tables := { udp := [⟨0x8813, 7⟩] }
  imageName := fun _ => some "C:\\app.exe"

def selectedConfig : SplitConfig where
  apps := [.exePath "C:\\app.exe"]

theorem later_fragment_leaks :
    (¬∀ (fileName : String → Option String) (host : Host) (cfg : SplitConfig) (resolver : ProcessResolver)
        (proto : Proto) (eth : List UInt8) (outgoing : Bool) (d : Packet) (fs : List Packet),
      eth.length = ethHdr → IsDatagram d proto → Fragments d 0 fs → ∀ f ∈ fs,
        SameVerdict (winpkVerdict fileName host cfg resolver (eth ++ f.encode) outgoing)
          (winpkVerdict fileName host cfg resolver (eth ++ d.encode) outgoing)) ∧
    ¬∀ (d : Packet) (proto : Proto) (fs : List Packet), IsDatagram d proto → Fragments d 0 fs →
      ∀ f ∈ fs, f.offset ≠ 0 →
        ∃ checksum, WinpkFilter.recalcChecksums f.encode = { f with checksum }.encode := by
  have hlast : lastPiece ∈ udpFragments := List.mem_cons_of_mem _ List.mem_cons_self
  constructor
  case left =>
    intro h
    have hs := h (fun _ => some "app.exe") selectedHost selectedConfig {} .udp (List.replicate 14 0) true
      udpDatagram udpFragments rfl udpDatagram_isDatagram udpFragments_fragments _ hlast
    have hv : winpkVerdict (fun _ => some "app.exe") selectedHost selectedConfig {}
        (List.replicate 14 0 ++ lastPiece.encode) true = .toAdapter := by
      decide +kernel
    have hd : winpkVerdict (fun _ => some "app.exe") selectedHost selectedConfig {}
        (List.replicate 14 0 ++ udpDatagram.encode) true =
          .tunnel udpDatagram.encode (List.replicate 14 0) (.v4 0x0a000002) := by
      decide +kernel
    rw [hv, hd] at hs
    cases hs
  case right =>
    intro h
    have hr := h udpDatagram .udp udpFragments udpDatagram_isDatagram udpFragments_fragments _ hlast (by decide)
    have hc := (recalcChecksums_iff (List.cons_ne_nil _ _)).mp hr
    have hn : ¬((List.replicate 16 0 : List UInt8).length < 6 + 2 ∨
        WinpkFilter.sum16 (List.replicate 16 0) (pseudoSum lastPiece) % 65535 = 0 ∧
          ofBe (slice (List.replicate 16 0) 6 2) ≠ 0) := by
      decide +kernel
    exact hn hc

theorem fragments_alike_iff (fileName : String → Option String) (host : Host) (cfg : SplitConfig)
    (resolver : ProcessResolver) (proto : Proto) (eth : List UInt8) (outgoing : Bool) (d : Packet)
    (fs : List Packet) (he : eth.length = ethHdr) (hd : IsDatagram d proto) (h : Fragments d 0 fs) :
    (∀ f ∈ fs,
        SameVerdict (winpkVerdict fileName host cfg resolver (eth ++ f.encode) outgoing)
          (winpkVerdict fileName host cfg resolver (eth ++ d.encode) outgoing) ∧
        (f.offset ≠ 0 →
          ∃ checksum, WinpkFilter.recalcChecksums f.encode = { f with checksum }.encode)) ↔
      ∀ f ∈ fs, f.offset ≠ 0 → Harmless fileName host cfg resolver proto outgoing d f :=
  forall₂_congr fun _ hf => fragment_alike_iff he hd h hf

theorem fragments_alike_iff_twoPieces :
    (∀ f ∈ udpFragments,
        SameVerdict (winpkVerdict (fun _ => some "app.exe") selectedHost {} {} (List.replicate 14 0 ++ f.encode) true)
          (winpkVerdict (fun _ => some "app.exe") selectedHost {} {} (List.replicate 14 0 ++ udpDatagram.encode) true) ∧
        (f.offset ≠ 0 →
          ∃ checksum, WinpkFilter.recalcChecksums f.encode = { f with checksum }.encode)) ↔
      ∀ f ∈ udpFragments, f.offset ≠ 0 →
        Harmless (fun _ => some "app.exe") selectedHost {} {} .udp true udpDatagram f :=
  fragments_alike_iff _ _ _ _ _ _ _ _ _ rfl udpDatagram_isDatagram udpFragments_fragments

end JammVpn.Windows
