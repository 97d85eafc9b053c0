import JammVpn.Net.Vless

-- What is read of a stream to a VLESS server.
namespace JammVpn.VlessRespStrip

open PollIo Framing

section Header

variable {all : List UInt8} {s s' : VlessRespStrip} {p : Poll Unit} {src : Source}

-- The length of the header in front of a stream.
def headerLen (all : List UInt8) : Nat :=
  2 + (all.getD 1 0).toNat

def payload (all : List UInt8) : List UInt8 :=
  all.drop (headerLen all)

-- A part of the header has been read, and nothing else.
structure InHeader (all : List UInt8) (s : VlessRespStrip) : Prop where
  notDone : s.done = false
  split   : s.hdrBuf ++ s.inner.source.rest = all
  le      : s.hdrBuf.length ≤ s.need
  addon   : ∀ a, s.addonLen = some a → 2 ≤ s.hdrBuf.length ∧ a = (s.hdrBuf.getD 1 0).toNat

-- The header has been read.
structure AfterHeader (all : List UInt8) (s : VlessRespStrip) : Prop where
  done   : s.done = true
  length : headerLen all ≤ all.length

theorem getD_of_append {as bs : List UInt8} (h : as ++ bs = all) (hl : 2 ≤ as.length) : all.getD 1 0 = as.getD 1 0 := by
  rw [← h, List.getD_eq_getElem?_getD, List.getD_eq_getElem?_getD, List.getElem?_append_left hl]

theorem InHeader.need_eq (h : InHeader all s) {a : Nat} (ha : s.addonLen = some a) : s.need = headerLen all := by
  obtain ⟨hl, hv⟩ := h.addon a ha
  rw [need, ha, headerLen, getD_of_append h.split hl, hv]

theorem InHeader.need_le (h : InHeader all s) : s.need ≤ headerLen all := by
  cases ha : s.addonLen
  case none =>
    rw [need, ha]
    exact Nat.le_add_right _ _
  case some a => exact Nat.le_of_eq (h.need_eq ha)

-- The loop has come to the end of the header.
structure Completes (all : List UInt8) (src : Source) (s' : VlessRespStrip) : Prop where
  after  : AfterHeader all s'
  rest   : s'.inner.source.rest = payload all
  eager  : Eager src → Eager s'.inner.source
  subset : s'.inner.source.responses ⊆ src.responses

-- The answers of the loop, and where it is then.
inductive Skipped (all : List UInt8) (src : Source) : Poll Unit → VlessRespStrip → Prop
  | complete (s' : VlessRespStrip) : Completes all src s' → Skipped all src (.ready ()) s'
  | pending (s' : VlessRespStrip) : InHeader all s' ∧ ¬Eager src → Skipped all src .pending s'
  | inner (s' : VlessRespStrip) : InHeader all s' ∧ .error ∈ src.responses → Skipped all src (.error .inner) s'
  | truncated (s' : VlessRespStrip) : InHeader all s' ∧ all.length < headerLen all →
      Skipped all src (.error .unexpectedEof) s'

theorem Skipped.mono (h : Skipped all src p s') {src₀ : Source} (he : Eager src₀ → Eager src)
    (hr : src.responses ⊆ src₀.responses) : Skipped all src₀ p s' := by
  cases h
  case complete h  => exact .complete _ ⟨h.after, h.rest, h.eager ∘ he, List.Subset.trans h.subset hr⟩
  case pending h   => exact .pending _ ⟨h.left, h.right ∘ he⟩
  case inner h     => exact .inner _ ⟨h.left, hr h.right⟩
  case truncated h => exact .truncated _ h

-- The stream below has given nothing.
theorem InHeader.unread (h : InHeader all s) (hs : src.rest = s.inner.source.rest) :
    InHeader all { s with inner.source := src } where
  notDone := h.notDone
  split   := (congrArg (s.hdrBuf ++ ·) hs).trans h.split
  le      := h.le
  addon   := h.addon

-- It has given no more than was asked for.
theorem InHeader.filled (h : InHeader all s) {bs : List UInt8} (hs : bs ++ src.rest = s.inner.source.rest)
    (hl : bs.length ≤ s.need - s.hdrBuf.length) :
    InHeader all { s with inner.source := src, hdrBuf := s.hdrBuf ++ bs } where
  notDone := h.notDone
  split   := by rw [List.append_assoc, hs, h.split]
  le      := by
    have hle := h.le
    rw [List.length_append]
    exact Nat.add_le_of_le_sub' hle hl
  addon a ha := by
    obtain ⟨hle, hv⟩ := h.addon a ha
    refine ⟨?_, hv.trans ?_⟩
    case refine_1 =>
      rw [List.length_append]
      exact Nat.le_add_right_of_le hle
    case refine_2 => rw [getD_of_append rfl hle]

-- The second byte tells how long the rest of the header is.
theorem InHeader.known (h : InHeader all s) (hn : s.need ≤ s.hdrBuf.length) (ha : s.addonLen = none) :
    InHeader all { s with addonLen := some (s.hdrBuf.getD 1 0).toNat } where
  notDone := h.notDone
  split   := h.split
  le      := by
    have hle := h.le
    rw [need, ha] at hle
    exact Nat.le_add_right_of_le hle
  addon a he := by
    rw [need, ha] at hn
    exact ⟨hn, (Option.some.inj he).symm⟩

theorem skipped_skipHeader (h : InHeader all s) : Skipped all s.inner.source s.skipHeader.1 s.skipHeader.2 := by
  fun_induction skipHeader s
  case case1 s hd => exact absurd hd (by rw [h.notDone]; decide)
  case case2 s _ hn ha hi => exact hi (h.known hn ha)
  case case3 s _ hn a ha =>
    have hlen : s.hdrBuf.length = headerLen all := Nat.le_antisymm (h.need_eq ha ▸ h.le) (h.need_eq ha ▸ hn)
    refine .complete _ ⟨⟨rfl, ?length⟩, ?rest, id, List.Subset.refl _⟩
    case length =>
      rw [← hlen, ← h.split, List.length_append]
      exact Nat.le_add_right _ _
    case rest => rw [payload, ← hlen, ← h.split, List.drop_left]
  case case4 s _ hn s' hr =>
    obtain ⟨hp, he⟩ := readInner_eq hr
    have hread := (Source.read_pollRead hp).left
    cases hread
    case pending hs => exact .pending _ ⟨he ▸ h.unread hs.left, hs.right⟩
  case case5 s _ hn e s' hr =>
    obtain ⟨hp, he⟩ := readInner_eq hr
    have hread := (Source.read_pollRead hp).left
    cases hread
    case inner hs => exact .inner _ ⟨he ▸ h.unread hs.left, hs.right⟩
  case case6 s _ hn filled s' hr hf =>
    -- The stream below has ended, and the header is not complete.
    obtain ⟨hp, he⟩ := readInner_eq hr
    have hread := (Source.read_pollRead hp).left
    cases hread
    case bytes hg =>
      have hnil := List.isEmpty_iff.mp hf
      have hrest := hg.ends (by omega) hnil
      have hsplit := hg.split
      rw [hnil, List.nil_append] at hsplit
      refine .truncated _ ⟨he ▸ h.unread hsplit, ?_⟩
      have hall := h.split
      rw [hrest, List.append_nil] at hall
      rw [← hall]
      exact Nat.lt_of_lt_of_le (Nat.lt_of_not_le hn) (hall ▸ h.need_le)
  case case7 s _ hn filled s' hr hf hi =>
    obtain ⟨hp, he⟩ := readInner_eq hr
    obtain ⟨hread, hsub⟩ := Source.read_pollRead hp
    cases hread
    case bytes hg =>
      have hne : filled ≠ [] := fun hnil => hf (List.isEmpty_iff.mpr hnil)
      have hin : InHeader all { s' with hdrBuf := s'.hdrBuf ++ filled } := by
        rw [he]
        exact h.filled hg.split (Nat.le_trans hg.le (Nat.min_le_left _ _))
      exact (hi hin).mono (hg.eager hne) hsub

theorem sink_skipHeader (s : VlessRespStrip) : s.skipHeader.2.inner.sink = s.inner.sink := by
  fun_induction skipHeader s
  case case1                 => rfl
  case case2 hi              => exact hi
  case case3                 => rfl
  case case4 s _ _ s' hr     => rw [(readInner_eq hr).right]
  case case5 s _ _ _ s' hr   => rw [(readInner_eq hr).right]
  case case6 s _ _ _ s' hr _ => rw [(readInner_eq hr).right]
  case case7 s _ _ _ s' hr _ hi =>
    rw [hi, (readInner_eq hr).right]

theorem skipHeader_of_done (hd : s.done = true) : s.skipHeader = (.ready (), s) := by
  rw [skipHeader, if_pos hd]

end Header

section Run

variable {all : List UInt8} {r : Run} {cap : Nat} {calls : List Call}

-- Nothing is delivered before the end of the header, and everything after it.
def Inv (all : List UInt8) (r : Run) : Prop :=
  InHeader all r.strip ∧ r.delivered = [] ∨
    AfterHeader all r.strip ∧ r.delivered ++ r.strip.inner.source.rest = payload all

-- Bytes that have been delivered.
structure Delivers (all : List UInt8) (r : Run) (cap : Nat) (bs : List UInt8) (s' : VlessRespStrip) : Prop where
  after : AfterHeader all s'
  split : r.delivered ++ bs ++ s'.inner.source.rest = payload all
  ends  : cap ≠ 0 → bs = [] → r.delivered = payload all
  eager : bs ≠ [] → Eager r.strip.inner.source → Eager s'.inner.source

inductive Polled (all : List UInt8) (r : Run) (cap : Nat) : Poll (List UInt8) → VlessRespStrip → Prop
  | pending (s' : VlessRespStrip) : Inv all { r with strip := s' } ∧ ¬Eager r.strip.inner.source →
      Polled all r cap .pending s'
  | inner (s' : VlessRespStrip) : Inv all { r with strip := s' } ∧ .error ∈ r.strip.inner.source.responses →
      Polled all r cap (.error .inner) s'
  | truncated (s' : VlessRespStrip) : Inv all { r with strip := s' } ∧ all.length < headerLen all →
      Polled all r cap (.error .unexpectedEof) s'
  | bytes (bs : List UInt8) (s' : VlessRespStrip) : Delivers all r cap bs s' → Polled all r cap (.ready bs) s'

-- The stream below is read when the header is over.
theorem polled_readInner {s : VlessRespStrip} (ha : AfterHeader all s)
    (hs : r.delivered ++ s.inner.source.rest = payload all)
    (he : Eager r.strip.inner.source → Eager s.inner.source)
    (hsub : s.inner.source.responses ⊆ r.strip.inner.source.responses) (cap : Nat) :
    Polled all r cap (s.readInner cap).1 (s.readInner cap).2 := by
  rcases hr : s.readInner cap with ⟨p, s'⟩
  obtain ⟨hp, hs'⟩ := readInner_eq hr
  have ha' : AfterHeader all s' := ⟨hs' ▸ ha.done, ha.length⟩
  have hread := (Source.read_pollRead hp).left
  cases hread
  case pending h =>
    have hi : Inv all { r with strip := s' } := .inr ⟨ha', (congrArg (r.delivered ++ ·) h.left).trans hs⟩
    exact .pending _ ⟨hi, fun h₀ => h.right (he h₀)⟩
  case inner h =>
    have hi : Inv all { r with strip := s' } := .inr ⟨ha', (congrArg (r.delivered ++ ·) h.left).trans hs⟩
    exact .inner _ ⟨hi, hsub h.right⟩
  case bytes bs h =>
    refine .bytes _ _ ⟨ha', ?split, ?ends, fun hne h₀ => h.eager hne (he h₀)⟩
    case split => rw [List.append_assoc, h.split, hs]
    case ends =>
      intro hc hb
      rw [← hs, h.ends hc hb, List.append_nil]

theorem polled_pollRead (h : Inv all r) (cap : Nat) :
    Polled all r cap (r.strip.pollRead cap).1 (r.strip.pollRead cap).2 := by
  obtain ⟨hin, hd⟩ | ⟨ha, hs⟩ := h
  case inl =>
    have hskip := skipped_skipHeader hin
    rw [pollRead]
    rcases he : r.strip.skipHeader with ⟨p, s'⟩
    rw [he] at hskip
    cases hskip
    case complete hc =>
      exact polled_readInner hc.after (by rw [hd, List.nil_append, hc.rest]) hc.eager hc.subset cap
    case pending h   => exact .pending _ ⟨.inl ⟨h.left, hd⟩, h.right⟩
    case inner h     => exact .inner _ ⟨.inl ⟨h.left, hd⟩, h.right⟩
    case truncated h => exact .truncated _ ⟨.inl ⟨h.left, hd⟩, h.right⟩
  case inr =>
    rw [pollRead, skipHeader_of_done ha.done]
    exact polled_readInner ha hs id (List.Subset.refl _) cap

theorem Inv.with_sink (h : Inv all r) (k : Sink) : Inv all { r with strip.inner.sink := k } := by
  obtain ⟨hi, hd⟩ | ⟨ha, hs⟩ := h
  case inl => exact .inl ⟨⟨hi.notDone, hi.split, hi.le, hi.addon⟩, hd⟩
  case inr => exact .inr ⟨⟨ha.done, ha.length⟩, hs⟩

theorem inv_step (h : Inv all r) (c : Call) : Inv all (r.step c) := by
  cases c
  case write buf => exact h.with_sink _
  case done      => exact h.with_sink _
  case read cap  =>
    have hp := polled_pollRead h cap
    rw [Run.step]
    rcases he : r.strip.pollRead cap with ⟨p, s'⟩
    rw [he] at hp
    cases hp
    case pending h   => exact h.left
    case inner h     => exact h.left
    case truncated h => exact h.left
    case bytes bs h  => exact .inr ⟨h.after, h.split⟩

theorem inv_run (h : Inv all r) : Inv all (r.run calls) := by
  induction calls generalizing r
  case nil           => exact h
  case cons c cs hi  => exact hi (inv_step h c)

-- The stream below as it has not been touched.
def start (all : List UInt8) (responses : List Response) (sink : Sink) : Run where
  strip := new { source := { responses, rest := all }, sink }

theorem inv_start (all : List UInt8) (rs : List Response) (k : Sink) : Inv all (start all rs k) :=
  .inl ⟨⟨rfl, rfl, Nat.zero_le _, nofun⟩, rfl⟩

-- The answers of a stream whose header is taken off. It is not ready only if the stream below is not; it
-- gives the next bytes after the header; it gives none only where all of them have been given; and it fails
-- with the stream below, or where that has ended within the header.
def Answer (all delivered : List UInt8) (src : Source) (cap : Nat) : Poll (List UInt8) → Prop
  | .pending  => ¬Eager src
  | .ready bs => headerLen all ≤ all.length ∧ delivered ++ bs <+: payload all ∧
    (cap ≠ 0 → bs = [] → delivered = payload all)
  | .error e  => e = .inner ∧ .error ∈ src.responses ∨ e = .unexpectedEof ∧ all.length < headerLen all

theorem answer_pollRead (h : Inv all r) (cap : Nat) :
    Answer all r.delivered r.strip.inner.source cap (r.strip.pollRead cap).1 := by
  have hp := polled_pollRead h cap
  rcases he : r.strip.pollRead cap with ⟨p, s'⟩
  rw [he] at hp
  cases hp
  case pending h   => exact h.right
  case inner h     => exact .inl ⟨rfl, h.right⟩
  case truncated h => exact .inr ⟨rfl, h.right⟩
  case bytes bs h  => exact ⟨h.after.length, ⟨_, h.split⟩, h.ends⟩

theorem Inv.delivered_prefix (h : Inv all r) : r.delivered <+: payload all := by
  obtain ⟨_, hd⟩ | ⟨_, hs⟩ := h
  case inl =>
    rw [hd]
    exact List.nil_prefix
  case inr => exact ⟨_, hs⟩

theorem Inv.complete (h : Inv all r) (hl : (payload all).length ≤ r.delivered.length) : r.delivered = payload all :=
  h.delivered_prefix.eq_of_length_le hl

def Call.isRead : Call → Bool
  | .read _ => true
  | _       => false

-- A read brings at least one byte, up to the end.
theorem delivered_read (h : Inv all r) (hl : headerLen all ≤ all.length) (he : Eager r.strip.inner.source)
    (hc : cap ≠ 0) : r.delivered = payload all ∨
      Eager (r.step (.read cap)).strip.inner.source ∧ r.delivered.length < (r.step (.read cap)).delivered.length := by
  have hp := polled_pollRead h cap
  rw [Run.step]
  rcases hr : r.strip.pollRead cap with ⟨p, s'⟩
  rw [hr] at hp
  cases hp
  case pending h   => exact absurd he h.right
  case truncated h => exact absurd h.right (Nat.not_lt_of_le hl)
  case inner h =>
    obtain ⟨n, hn⟩ := he.left _ h.right
    cases hn
  case bytes bs h =>
    by_cases hb : bs = []
    case pos => exact .inl (h.ends hc hb)
    case neg =>
      refine .inr ⟨h.eager hb he, ?_⟩
      rw [List.length_append]
      exact Nat.lt_add_of_pos_right (List.length_pos_iff.mpr hb)

-- What has been delivered stays.
theorem delivered_step (r : Run) (c : Call) : r.delivered <+: (r.step c).delivered := by
  cases c
  case write buf => exact List.prefix_refl _
  case done      => exact List.prefix_refl _
  case read cap  =>
    rw [Run.step]
    split
    case h_1 bs s hr => exact List.prefix_append _ _
    case h_2         => exact List.prefix_refl _

theorem delivered_run (h : Inv all r) (hl : headerLen all ≤ all.length) (hc : ∀ cap, .read cap ∈ calls → cap ≠ 0)
    (hd : r.delivered = payload all ∨ Eager r.strip.inner.source ∧
      (payload all).length ≤ r.delivered.length + calls.countP Call.isRead) :
    (r.run calls).delivered = payload all := by
  induction calls generalizing r
  case nil =>
    obtain hd | ⟨_, hlen⟩ := hd
    case inl => exact hd
    case inr => exact h.complete hlen
  case cons c cs hi =>
    refine hi (inv_step h c) (fun cap hm => hc cap (List.mem_cons_of_mem _ hm)) ?_
    have hkeep : r.delivered = payload all → (r.step c).delivered = payload all := fun he =>
      (inv_step h c).complete (he ▸ (delivered_step r c).length_le)
    obtain hd | ⟨he, hlen⟩ := hd
    case inl => exact .inl (hkeep hd)
    case inr =>
      rw [List.countP_cons] at hlen
      cases c
      case write buf => exact .inr ⟨he, hlen⟩
      case done      => exact .inr ⟨he, hlen⟩
      case read cap  =>
        obtain hd | ⟨he', hlt⟩ := delivered_read h hl he (hc cap List.mem_cons_self)
        case inl => exact .inl (hkeep hd)
        case inr =>
          refine .inr ⟨he', ?_⟩
          rw [Call.isRead, if_pos rfl] at hlen
          omega

-- What the writes do to the stream below when they are made there.
def writeBelow (k : Sink) : Call → Sink
  | .read _    => k
  | .write buf => (k.pollWrite buf).2
  | .done      => k.pollDone.2

theorem sink_pollRead (s : VlessRespStrip) (cap : Nat) : (s.pollRead cap).2.inner.sink = s.inner.sink := by
  have hs := sink_skipHeader s
  rw [pollRead]
  rcases he : s.skipHeader with ⟨p, s'⟩
  rw [he] at hs
  cases p <;> exact hs

theorem sink_run (r : Run) (calls : List Call) :
    (r.run calls).strip.inner.sink = calls.foldl writeBelow r.strip.inner.sink := by
  induction calls generalizing r
  case nil => rfl
  case cons c cs hi =>
    have hstep : (r.step c).strip.inner.sink = writeBelow r.strip.inner.sink c := by
      cases c
      case write buf => rfl
      case done      => rfl
      case read cap  =>
        rw [writeBelow, ← sink_pollRead r.strip cap, Run.step]
        split
        case h_1 hr   => rw [hr]
        case h_2 _ hr => rw [hr]
    rw [List.foldl_cons, ← hstep]
    exact hi (r.step c)

-- The header is taken off however the stream comes in and however it is read; writes are those of the
-- stream below. It is delivered to its end if the stream below always has something to give.
theorem strips_header (all : List UInt8) (rs : List Response) (k : Sink) (calls : List Call) :
    ((start all rs k).run calls).delivered <+: payload all ∧
      (∀ cap, Answer all ((start all rs k).run calls).delivered ((start all rs k).run calls).strip.inner.source cap
        (((start all rs k).run calls).strip.pollRead cap).1) ∧
      (Eager ⟨rs, all⟩ → headerLen all ≤ all.length → (∀ cap, .read cap ∈ calls → cap ≠ 0) →
        (payload all).length ≤ calls.countP Call.isRead →
        ((start all rs k).run calls).delivered = payload all) ∧
      ((start all rs k).run calls).strip.inner.sink = calls.foldl writeBelow k ∧
      ∀ buf, (((start all rs k).run calls).strip.pollWrite buf).1 = ((calls.foldl writeBelow k).pollWrite buf).1 := by
  have hinv : Inv all ((start all rs k).run calls) := inv_run (inv_start all rs k)
  refine ⟨hinv.delivered_prefix, answer_pollRead hinv, ?complete, sink_run _ _, ?write⟩
  case complete =>
    intro he hl hc hlen
    refine delivered_run (inv_start all rs k) hl hc (.inr ⟨he, ?_⟩)
    exact Nat.le_trans hlen (Nat.le_add_left _ _)
  case write =>
    intro buf
    rw [pollWrite, sink_run]
    rfl

-- The header says that one more byte belongs to it.
theorem strips_header_byte_by_byte :
    ((start [0, 1, 9, 7, 8] (.replicate 6 (.ready 0)) ⟨[], []⟩).run [.read 5, .write [3], .read 5]).delivered =
      [7, 8] := by
  refine (strips_header _ _ _ _).right.right.left ⟨fun r hr => ?_, by decide⟩ (by decide) ?_ (by decide)
  case refine_1 => exact ⟨0, List.eq_of_mem_replicate hr⟩
  case refine_2 =>
    intro cap hm
    simp only [List.mem_cons, List.not_mem_nil, or_false, reduceCtorEq, false_or, Call.read.injEq] at hm
    omega

end Run
end JammVpn.VlessRespStrip
