import JammVpn.Net.VisionPlainStream

-- Which streams the deframer refuses.
namespace JammVpn.Vision

open Bytes PollIo

def payloadLen (hi lo : UInt8) : Nat :=
  hi.toNat * 256 + lo.toNat

-- A header that records of TLS have.
def ValidHeader (contentType major minor hi lo : UInt8) : Prop :=
  major = 0x03 ∧ 0x01 ≤ minor ∧ minor ≤ 0x03 ∧ payloadLen hi lo ≤ maxTlsCiphertextLen ∧
    0x14 ≤ contentType ∧ contentType ≤ 0x18

variable {t major minor hi lo : UInt8}

theorem checkHeader_ok (h : ValidHeader t major minor hi lo) :
    checkHeader t major minor hi lo = .ok (payloadLen hi lo) := by
  have ⟨hmajor, hmin, hmax, hlen, htype⟩ := h
  rw [payloadLen] at hlen
  rw [checkHeader, if_neg (by simp [hmajor, hmin, hmax]), if_neg (Nat.not_lt_of_le hlen), if_neg (not_not.mpr htype)]
  rfl

theorem checkHeader_error (h : ¬ValidHeader t major minor hi lo) :
    ∃ msg, checkHeader t major minor hi lo = .error (.other msg) := by
  rw [checkHeader]
  split
  case isTrue => exact ⟨_, rfl⟩
  case isFalse hversion =>
    split
    case isTrue => exact ⟨_, rfl⟩
    case isFalse hlen =>
      split
      case isTrue => exact ⟨_, rfl⟩
      case isFalse htype =>
        rw [not_or, not_not, not_not] at hversion
        exact absurd ⟨hversion.1, hversion.2.1, hversion.2.2, Nat.le_of_not_lt hlen, not_not.mp htype⟩ h

-- Among the records of a stream, up to the last one that is looked at, one has no valid header.
inductive Malformed : VisionFilter → List UInt8 → Prop
  | header {f t major minor hi lo rest} : ¬ValidHeader t major minor hi lo →
      Malformed f (t :: major :: minor :: hi :: lo :: rest)
  | record {f t major minor hi lo payload rest} : ValidHeader t major minor hi lo →
      payload.length = payloadLen hi lo →
      WriteState.isLast (f.filterRecord (t :: major :: minor :: hi :: lo :: payload))
        (t :: major :: minor :: hi :: lo :: payload) = false →
      Malformed (f.filterRecord (t :: major :: minor :: hi :: lo :: payload)) rest →
      Malformed f (t :: major :: minor :: hi :: lo :: (payload ++ rest))

theorem not_malformed_of_lt {f : VisionFilter} {buffer : List UInt8} (h : buffer.length < 5) :
    ¬Malformed f buffer := by
  rintro (_ | _)
  all_goals
    simp only [List.length_cons] at h
    omega

theorem not_malformed_cut {f : VisionFilter} {rest : List UInt8} (hv : ValidHeader t major minor hi lo)
    (h : rest.length < payloadLen hi lo) : ¬Malformed f (t :: major :: minor :: hi :: lo :: rest) := by
  intro hm
  generalize hb : t :: major :: minor :: hi :: lo :: rest = buffer at hm
  cases hm
  case header hn =>
    cases hb
    exact hn hv
  case record hl _ _ =>
    cases hb
    rw [List.length_append] at h
    omega

theorem malformed_record_iff {f : VisionFilter} {payload rest : List UInt8} (hv : ValidHeader t major minor hi lo)
    (hl : payload.length = payloadLen hi lo) :
    let record := t :: major :: minor :: hi :: lo :: payload
    Malformed f (record ++ rest) ↔
      WriteState.isLast (f.filterRecord record) record = false ∧ Malformed (f.filterRecord record) rest := by
  intro record
  constructor
  case mp =>
    intro hm
    generalize hb : record ++ rest = buffer at hm
    cases hm
    case header hn =>
      cases hb
      exact absurd hv hn
    case record payload' rest' hv' hl' hlast hm =>
      simp only [record, List.cons_append, List.cons.injEq] at hb
      obtain ⟨rfl, rfl, rfl, rfl, rfl, hb⟩ := hb
      obtain ⟨rfl, rfl⟩ := List.append_inj hb (hl.trans hl'.symm)
      exact ⟨hlast, hm⟩
  case mpr => exact fun ⟨hlast, hm⟩ => .record hv hl hlast hm

-- The header of the record that is waited for has been checked.
def TlsDeframer.Checked (d : TlsDeframer) : Prop :=
  ∀ n, d.state = .readingPayload n → ∃ t major minor hi lo rest,
    d.buffer = t :: major :: minor :: hi :: lo :: rest ∧ ValidHeader t major minor hi lo ∧ n = payloadLen hi lo

def FuzzyTlsDeframer.Checked : FuzzyTlsDeframer → Prop
  | .searching _     => True
  | .deframing inner => inner.Checked

theorem FuzzyTlsDeframer.Checked.feed {d : FuzzyTlsDeframer} (h : d.Checked) (data : List UInt8) :
    (d.feed data).Checked := by
  cases d
  case searching => trivial
  case deframing inner =>
    intro n hn
    have ⟨t, major, minor, hi, lo, rest, hb, hv, hl⟩ := h n hn
    exact ⟨t, major, minor, hi, lo, rest ++ data, congrArg (· ++ data) hb, hv, hl⟩

-- What becomes of the bytes that the deframer has.
inductive Deframed (buffer : List UInt8) : Except IoError DeframeResult × FuzzyTlsDeframer → Prop
  | refused {msg d t major minor hi lo rest} : buffer = t :: major :: minor :: hi :: lo :: rest →
      ¬ValidHeader t major minor hi lo → Deframed buffer (.error (.other msg), d)
  | short {inner : TlsDeframer} : buffer.length < 5 → inner.Checked → Deframed buffer (.ok .needData, .deframing inner)
  | cut {inner : TlsDeframer} {t major minor hi lo rest} : buffer = t :: major :: minor :: hi :: lo :: rest →
      ValidHeader t major minor hi lo → rest.length < payloadLen hi lo → inner.Checked →
      Deframed buffer (.ok .needData, .deframing inner)
  | record {inner : TlsDeframer} {t major minor hi lo payload} :
      buffer = t :: major :: minor :: hi :: lo :: payload ++ inner.buffer → ValidHeader t major minor hi lo →
      payload.length = payloadLen hi lo → inner.Checked →
      Deframed buffer (.ok (.tlsRecord (t :: major :: minor :: hi :: lo :: payload)), .deframing inner)

theorem deframed_payload {d : TlsDeframer} {rest : List UInt8} (hb : d.buffer = t :: major :: minor :: hi :: lo :: rest)
    (hv : ValidHeader t major minor hi lo) {r : Except IoError DeframeResult × FuzzyTlsDeframer}
    (hr : r = match d.readPayload (payloadLen hi lo) with
      | (some record, inner) => (.ok (.tlsRecord record), .deframing inner)
      | (none, inner)        => (.ok .needData, .deframing inner)) : Deframed d.buffer r := by
  subst hr
  have hbuffer : d.buffer.length = rest.length + 5 := by rw [hb]; rfl
  rw [TlsDeframer.readPayload, tlsRecordHeaderSize]
  by_cases hl : rest.length < payloadLen hi lo
  case pos =>
    rw [if_pos (by omega)]
    refine .cut hb hv hl fun n hn => ?_
    cases hn
    exact ⟨t, major, minor, hi, lo, rest, hb, hv, rfl⟩
  case neg =>
    have htake (n : Nat) : d.buffer.take (5 + n) = t :: major :: minor :: hi :: lo :: rest.take n := by
      rw [hb, Nat.add_comm]
      rfl
    have hdrop (n : Nat) : d.buffer.drop (5 + n) = rest.drop n := by
      rw [hb, Nat.add_comm]
      rfl
    rw [if_neg (by omega), htake, hdrop]
    refine .record ?_ hv (List.length_take_of_le (Nat.le_of_not_lt hl)) fun _ hs => by cases hs
    rw [hb]
    simp only [List.cons_append, List.take_append_drop]

theorem deframed {inner : TlsDeframer} (hc : inner.Checked) : Deframed inner.buffer (FuzzyTlsDeframer.deframe inner) := by
  rw [FuzzyTlsDeframer.deframe, TlsDeframer.nextRecord]
  cases hs : inner.state
  case readingPayload n =>
    obtain ⟨t, major, minor, hi, lo, rest, hb, hv, hn⟩ := hc n hs
    subst hn
    refine deframed_payload hb hv ?_
    dsimp only
    rcases inner.readPayload (payloadLen hi lo) with ⟨_ | record, d⟩ <;> rfl
  case readingHeader =>
    rcases hb : inner.buffer with _ | ⟨t, _ | ⟨major, _ | ⟨minor, _ | ⟨hi, _ | ⟨lo, rest⟩⟩⟩⟩⟩
    case cons.cons.cons.cons.cons =>
      by_cases hv : ValidHeader t major minor hi lo
      case pos =>
        rw [← hb]
        refine deframed_payload hb hv ?_
        simp only [hb, checkHeader_ok hv]
        rcases inner.readPayload (payloadLen hi lo) with ⟨_ | record, d⟩ <;> rfl
      case neg =>
        obtain ⟨msg, he⟩ := checkHeader_error hv
        simp only [he]
        exact .refused rfl hv
    all_goals exact .short (by simp) hc

theorem findTlsHandshakeStart_short {buffer : List UInt8} (h : buffer.length < 6) :
    findTlsHandshakeStart buffer = none := by
  induction buffer
  case nil => rfl
  case cons a buffer hi =>
    have hi := hi (Nat.lt_of_succ_lt h)
    rw [findTlsHandshakeStart]
    split
    case isTrue => rfl
    case isFalse =>
      rw [hi]
      rfl
    case x_3 =>
      rintro _ _ _ _ _ tail rfl
      simp only [List.length_cons] at h
      omega

theorem findPotentialTlsSuffixLen_le (buffer : List UInt8) : findPotentialTlsSuffixLen buffer ≤ 5 := by
  rw [findPotentialTlsSuffixLen]
  cases hf : List.find? _ _
  case none => exact Nat.zero_le _
  case some n =>
    have hmem := List.mem_of_find?_eq_some hf
    simp only [List.mem_map, List.mem_reverse, List.mem_range] at hmem
    obtain ⟨k, hk, rfl⟩ := hmem
    exact Nat.le_trans hk (Nat.min_le_right _ _)

-- The deframer comes to a malformed record before the padding ends.
def Refused (f : VisionFilter) : FuzzyTlsDeframer → Prop
  | .deframing inner  => Malformed f inner.buffer
  | .searching buffer =>
    match findTlsHandshakeStart buffer with
    | none            => False
    | some 0          => Malformed f buffer
    | some (offset + 1) =>
      f.decrementFilterCount.isFiltering = true ∧ Malformed f.decrementFilterCount (buffer.drop (offset + 1))

theorem not_refused_short {f : VisionFilter} {buffer : List UInt8} (h : buffer.length < 6) :
    ¬Refused f (.searching buffer) := by
  rw [Refused, findTlsHandshakeStart_short h]
  exact id

-- The steps of the search.
inductive Searched (buffer : List UInt8) : Except IoError DeframeResult × FuzzyTlsDeframer → Prop
  | found {r} : findTlsHandshakeStart buffer = some 0 → Deframed buffer r → Searched buffer r
  | before {offset} : findTlsHandshakeStart buffer = some (offset + 1) →
      Searched buffer (.ok (.unknownPrefix (buffer.take (offset + 1))),
        .deframing { buffer := buffer.drop (offset + 1), state := .readingHeader })
  | unknown {before suffix} : findTlsHandshakeStart buffer = none → suffix.length ≤ 5 →
      Searched buffer (.ok (.unknownPrefix before), .searching suffix)
  | waiting : findTlsHandshakeStart buffer = none → Searched buffer (.ok .needData, .searching buffer)

theorem searched (buffer : List UInt8) : Searched buffer (FuzzyTlsDeframer.search buffer) := by
  have hfind : (if minTlsHandshakePatternLen ≤ buffer.length then findTlsHandshakeStart buffer else none) =
      findTlsHandshakeStart buffer := by
    split
    case isTrue     => rfl
    case isFalse hl => exact (findTlsHandshakeStart_short (Nat.lt_of_not_le hl)).symm
  rw [FuzzyTlsDeframer.search, hfind]
  split
  case isTrue he =>
    refine .waiting ?_
    rw [List.isEmpty_iff.mp he]
    rfl
  case isFalse =>
    split
    case h_1 hf => exact .found hf (@deframed (TlsDeframer.new.feed buffer) fun _ hs => by cases hs)
    case h_2 hf => exact .before hf
    case h_3 hf =>
      dsimp only
      split
      case isTrue hl =>
        refine .unknown hf ?_
        have := findPotentialTlsSuffixLen_le buffer
        rw [List.length_drop]
        omega
      case isFalse => exact .waiting hf

-- What is refused before a step is refused after it, unless the padding ends with it.
def RefusedNext (d : FuzzyTlsDeframer) : Except IoError DeframeResult × FuzzyTlsDeframer → Prop
  | (.error e, _)                    => (∃ msg, e = .other msg) ∧ ∀ f, Refused f d
  | (.ok .needData, d')              => d'.Checked ∧ ∀ f, ¬Refused f d
  | (.ok (.tlsRecord record), d')    =>
    d'.Checked ∧ ∀ f, Refused f d ↔
      WriteState.isLast (f.filterRecord record) record = false ∧ Refused (f.filterRecord record) d'
  | (.ok (.unknownPrefix _), d')     =>
    d'.Checked ∧ ∀ f, Refused f d ↔
      f.decrementFilterCount.isFiltering = true ∧ Refused f.decrementFilterCount d'

theorem refusedNext_of_deframed {d : FuzzyTlsDeframer} {buffer : List UInt8}
    (hd : ∀ f, Refused f d ↔ Malformed f buffer) {r : Except IoError DeframeResult × FuzzyTlsDeframer}
    (h : Deframed buffer r) : RefusedNext d r := by
  cases h
  case refused hb hn => exact ⟨⟨_, rfl⟩, fun f => (hd f).mpr (hb ▸ .header hn)⟩
  case short hl hc => exact ⟨hc, fun f hr => not_malformed_of_lt hl ((hd f).mp hr)⟩
  case cut hb hv hl hc => exact ⟨hc, fun f hr => not_malformed_cut hv hl (hb ▸ (hd f).mp hr)⟩
  case record hb hv hl hc => exact ⟨hc, fun f => (hd f).trans (hb ▸ malformed_record_iff hv hl)⟩

theorem refusedNext {d : FuzzyTlsDeframer} (hc : d.Checked) : RefusedNext d d.nextRecord := by
  cases d
  case deframing inner => exact refusedNext_of_deframed (fun _ => .rfl) (deframed hc)
  case searching buffer =>
    have hs := searched buffer
    show RefusedNext _ (FuzzyTlsDeframer.search buffer)
    generalize FuzzyTlsDeframer.search buffer = r at hs
    cases hs
    case found hf hd => exact refusedNext_of_deframed (fun f => by rw [Refused, hf]) hd
    case before hf => exact ⟨nofun, fun f => by simp only [Refused, hf]⟩
    case unknown hf hl =>
      refine ⟨trivial, fun f => ⟨fun hr => ?_, fun ⟨_, hr⟩ => absurd hr (not_refused_short (Nat.lt_succ_of_le hl))⟩⟩
      rw [Refused, hf] at hr
      exact hr.elim
    case waiting hf => exact ⟨trivial, fun f => by rw [Refused, hf]; exact id⟩

section

variable {uuid : List UInt8}

-- The loop stops with an error exactly where a record that it looks at is malformed.
theorem writeLoop_error_iff {s : WriteState} (hc : s.deframer.Checked) (out : List UInt8) :
    (∃ msg, (s.writeLoop uuid out).1 = .error (.other msg)) ↔ Refused s.filter s.deframer := by
  fun_induction WriteState.writeLoop uuid s out
  case case1 s out e d hn =>
    have hr := refusedNext hc
    rw [hn] at hr
    obtain ⟨⟨msg, rfl⟩, hr⟩ := hr
    exact ⟨fun _ => hr _, fun _ => ⟨msg, rfl⟩⟩
  case case2 s out d hn =>
    have hr := refusedNext hc
    rw [hn] at hr
    exact ⟨nofun, fun h => absurd h (hr.2 _)⟩
  case case3 s out record d hn _ hlast blocks s₁ _ =>
    have hr := refusedNext hc
    rw [hn] at hr
    rw [hr.2 s.filter]
    exact ⟨nofun, fun ⟨hnot, _⟩ => by rw [hnot] at hlast; cases hlast⟩
  case case4 s out record d hn _ hlast blocks p _ hi =>
    have hr := refusedNext hc
    rw [hn] at hr
    rw [hr.2 s.filter, hi hr.1]
    exact ⟨fun h => ⟨Bool.not_eq_true _ ▸ hlast, h⟩, And.right⟩
  case case5 s out before d hn _ hfilter blocks p _ hi =>
    have hr := refusedNext hc
    rw [hn] at hr
    rw [hr.2 s.filter, hi hr.1]
    exact ⟨fun h => ⟨hfilter, h⟩, And.right⟩
  case case6 s out before d hn _ hfilter blocks s₁ _ =>
    have hr := refusedNext hc
    rw [hn] at hr
    rw [hr.2 s.filter]
    exact ⟨nofun, fun ⟨h, _⟩ => absurd h hfilter⟩

theorem writeLoop_checked {s s' : WriteState} {out out' : List UInt8} (hc : s.deframer.Checked)
    (hw : s.writeLoop uuid out = (.ok (), out', s')) : s'.deframer.Checked := by
  fun_induction WriteState.writeLoop uuid s out
  case case1 => cases hw
  case case2 s out d hn =>
    have hr := refusedNext hc
    rw [hn] at hr
    cases hw
    exact hr.1
  case case3 hf =>
    cases hw
    cases hf
    trivial
  case case4 s out record d hn _ _ blocks p _ hi =>
    have hr := refusedNext hc
    rw [hn] at hr
    exact hi hr.1 hw
  case case5 s out before d hn _ _ blocks p _ hi =>
    have hr := refusedNext hc
    rw [hn] at hr
    exact hi hr.1 hw
  case case6 hf =>
    cases hw
    cases hf
    trivial

end

end JammVpn.Vision
