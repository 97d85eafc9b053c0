import JammVpn.Net.Theorems.VisionUnpad
import JammVpn.Net.VisionPlainStream

namespace JammVpn.Vision

open PollIo VisionUnpadder

-- A run up to the first error.
structure ReadRun where
  reader    : ReadState
  source    : Source
  delivered : List UInt8

namespace ReadRun

def start (responses : List Response) (all : List UInt8) : ReadRun where
  reader := .newClient
  source := { responses, rest := all }
  delivered := []

def step (uuid : List UInt8) (r : ReadRun) (cap : Nat) : Option ReadRun :=
  match pollRead uuid r.reader r.source cap with
  | (.error _, _, _)         => none
  | (.pending, reader, src)  => some { r with reader, source := src }
  | (.ready bs, reader, src) => some { reader, source := src, delivered := r.delivered ++ bs }

-- The next call reports the end of the stream, or fails, and not because the stream below does.
def Ended (uuid : List UInt8) (r : ReadRun) : Prop :=
  ∃ cap ≠ 0, (pollRead uuid r.reader r.source cap).1 = .ready [] ∨
    ∃ e ≠ .inner, (pollRead uuid r.reader r.source cap).1 = .error e

end ReadRun

-- The header of a response, and the body behind it.
def HasBody (all body : List UInt8) : Prop :=
  ∃ addonLen addons, addons.length = addonLen.toNat ∧ all = 0 :: addonLen :: (addons ++ body)

-- The pieces in which a stream comes, and last what does not come.
def pieces : List Response → List UInt8 → List (List UInt8)
  | [], rest             => [rest]
  | .ready n :: rs, rest => rest.take (min (n + 1) readLen) :: pieces rs (rest.drop (min (n + 1) readLen))
  | _ :: rs, rest        => pieces rs rest

-- What pieces have behind so many bytes.
def behind : Nat → List (List UInt8) → List (List UInt8)
  | _, []      => []
  | n, p :: ps => p.drop n :: behind (n - p.length) ps

def bodyPieces (body : List UInt8) (rs : List Response) (all : List UInt8) : List (List UInt8) :=
  behind (all.length - body.length) (pieces rs all)

-- What the unpadder makes of pieces, up to the first one that it refuses.
def shown (uuid : List UInt8) (u : VisionUnpadder) : List (List UInt8) → List UInt8
  | []      => []
  | p :: ps =>
    if p.isEmpty then shown uuid u ps
    else
      match u.unpad uuid p with
      | (.error _, _) => []
      | (.ok r, u)    =>
        r.content ++ if r.command = some .«end» ∨ r.command = some .direct then ps.flatten else shown uuid u ps

section

variable {uuid rest : List UInt8} {rs : List Response} {u : VisionUnpadder} {ps : List (List UInt8)}

theorem flatten_pieces (rs : List Response) (rest : List UInt8) : (pieces rs rest).flatten = rest := by
  induction rs generalizing rest
  case nil => exact List.append_nil rest
  case cons r rs hi =>
    cases r
    case pending => exact hi rest
    case error   => exact hi rest
    case ready n => rw [pieces, List.flatten_cons, hi, List.take_append_drop]

theorem behind_zero (ps : List (List UInt8)) : behind 0 ps = ps := by
  induction ps
  case nil => rfl
  case cons p ps hi => rw [behind, List.drop_zero, Nat.zero_sub, hi]

theorem flatten_behind (n : Nat) (ps : List (List UInt8)) : (behind n ps).flatten = ps.flatten.drop n := by
  induction ps generalizing n
  case nil => exact List.drop_nil.symm
  case cons p ps hi => rw [behind, List.flatten_cons, List.flatten_cons, List.drop_append, hi]

theorem bodyPieces_flatten {all body : List UInt8} (h : HasBody all body) (rs : List Response) :
    (bodyPieces body rs all).flatten = body := by
  have ⟨addonLen, addons, _, ha⟩ := h
  rw [bodyPieces, flatten_behind, flatten_pieces]
  exact (List.suffix_iff_eq_drop.mp ⟨0 :: addonLen :: addons, ha.symm⟩).symm

theorem shown_nil : shown uuid u ([] :: ps) = shown uuid u ps :=
  rfl

theorem shown_pieces_nil (rs : List Response) : shown uuid u (pieces rs []) = [] := by
  induction rs
  case nil => rfl
  case cons r rs hi =>
    cases r
    case pending => exact hi
    case error   => exact hi
    case ready n => rw [pieces, List.take_nil, List.drop_nil, shown_nil, hi]

theorem shown_error {p : List UInt8} {e : IoError} {u' : VisionUnpadder} (hp : p ≠ [])
    (h : u.unpad uuid p = (.error e, u')) : shown uuid u (p :: ps) = [] := by
  rw [shown, if_neg (fun hn => hp (List.isEmpty_iff.mp hn)), h]

theorem shown_last {p : List UInt8} {r : UnpadResult} {u' : VisionUnpadder} (hp : p ≠ [])
    (h : u.unpad uuid p = (.ok r, u')) (hr : Ends r.command) : shown uuid u (p :: ps) = r.content ++ ps.flatten := by
  rw [shown, if_neg (fun hn => hp (List.isEmpty_iff.mp hn)), h]
  exact congrArg (r.content ++ ·) (if_pos hr)

theorem shown_cons {p : List UInt8} {r : UnpadResult} {u' : VisionUnpadder} (hp : p ≠ [])
    (h : u.unpad uuid p = (.ok r, u')) (hr : ¬Ends r.command) :
    shown uuid u (p :: ps) = r.content ++ shown uuid u' ps := by
  rw [shown, if_neg (fun hn => hp (List.isEmpty_iff.mp hn)), h]
  exact congrArg (r.content ++ ·) (if_neg hr)

end

section

variable {all body body' tail chunk : List UInt8} {s : ReadState}

theorem HasBody.append (h : HasBody all body) (tail : List UInt8) : HasBody (all ++ tail) (body ++ tail) := by
  have ⟨addonLen, addons, hl, ha⟩ := h
  exact ⟨addonLen, addons, hl, by rw [ha, List.cons_append, List.cons_append, List.append_assoc]⟩

theorem HasBody.unique (h : HasBody all body) (h' : HasBody all body') : body = body' := by
  have ⟨n, addons, hl, ha⟩ := h
  have ⟨n', addons', hl', ha'⟩ := h'
  obtain ⟨_, hn, he⟩ := List.cons_eq_cons.mp (ha.symm.trans ha') |>.imp id List.cons_eq_cons.mp
  exact (List.append_inj he (by rw [hl, hl', hn])).2

theorem HasBody.isSuffix (h : HasBody all body) : body <:+ all := by
  have ⟨addonLen, addons, _, ha⟩ := h
  exact ⟨0 :: addonLen :: addons, ha.symm⟩

-- Where the header is not complete, all of the body is still to come.
theorem HasBody.length_le (h : HasBody (chunk ++ tail) body) (hn : ∀ body, ¬HasBody chunk body) :
    body.length ≤ tail.length := by
  refine Nat.le_of_not_lt fun hlt => ?_
  have ⟨addonLen, addons, hl, he⟩ := h
  have hsplit : chunk ++ tail = 0 :: addonLen :: (addons ++ body.take (body.length - tail.length)) ++
      body.drop (body.length - tail.length) := by
    rw [he, List.cons_append, List.cons_append, List.append_assoc, List.take_append_drop]
  have hlen : tail.length = (body.drop (body.length - tail.length)).length := by
    rw [List.length_drop]
    omega
  exact hn _ ⟨addonLen, addons, hl, (List.append_inj' hsplit hlen).1⟩

-- What is done to the header, or to its beginning: it is refused, more of it is waited for, or it is taken
-- off.
inductive Stripped (s : ReadState) (header : List UInt8) : Except IoError (Option (List UInt8)) × ReadState → Prop
  | refused {msg s'} : (∀ tail body, ¬HasBody (header ++ tail) body) → Stripped s header (.error (.other msg), s')
  | more : (∀ body, ¬HasBody header body) → Stripped s header (.ok none, { s with partialVlessResponse := header })
  | taken {tail : List UInt8} : HasBody header tail →
      Stripped s header (.ok (some tail), { s with partialVlessResponse := [], vlessResponsePending := false })

theorem stripped (h : s.vlessResponsePending = true) (chunk : List UInt8) :
    Stripped s (s.partialVlessResponse ++ chunk) (s.stripResponse chunk) := by
  rw [ReadState.stripResponse, if_pos h]
  generalize s.partialVlessResponse ++ chunk = header
  dsimp only
  split
  case h_1 version addonLen rest =>
    split
    case isTrue hv =>
      refine .refused fun tail body hh => ?_
      obtain ⟨_, _, _, he⟩ := hh
      exact hv (List.cons_eq_cons.mp he).1
    case isFalse hv =>
      cases not_not.mp hv
      split
      case isTrue hlt =>
        refine .more fun body hh => ?_
        obtain ⟨n, addons, hl, he⟩ := hh
        cases he
        simp only [List.length_cons, List.length_append] at hlt
        omega
      case isFalse hle =>
        refine .taken ⟨addonLen, rest.take addonLen.toNat, ?_, ?_⟩
        case refine_1 =>
          rw [List.length_take, Nat.min_eq_left]
          simp only [List.length_cons] at hle
          omega
        case refine_2 =>
          rw [Nat.add_comm, List.drop_succ_cons, List.drop_succ_cons, List.take_append_drop]
  case h_2 hn =>
    refine .more fun body hh => ?_
    obtain ⟨n, addons, _, he⟩ := hh
    exact hn _ _ _ he

end

-- A call comes to what the unpadder makes of the pieces: so much has been delivered, and the rest is to come.
namespace Reading

variable {uuid all out : List UInt8}

inductive Phase (uuid all out delivered : List UInt8) (s : ReadState) (src : Source) : Prop
  | waiting : s.readMode = .padding → s.vlessResponsePending = true → s.readUnpadder = .new → s.pendingRead = [] →
      delivered = [] → s.partialVlessResponse ++ src.rest = all → (∀ body, ¬HasBody s.partialVlessResponse body) →
      (∀ body, HasBody all body → out = shown uuid .new (bodyPieces body src.responses src.rest)) →
      ((∀ body, ¬HasBody all body) → out = []) → Phase uuid all out delivered s src
  | padded : s.readMode = .padding → s.vlessResponsePending = false →
      out = delivered ++ s.pendingRead ++ shown uuid s.readUnpadder (pieces src.responses src.rest) →
      Phase uuid all out delivered s src
  | raw : s.readMode = .passthrough → out = delivered ++ s.pendingRead ++ src.rest →
      Phase uuid all out delivered s src

structure Inv (uuid all out delivered : List UInt8) (s : ReadState) (src : Source) : Prop where
  eof   : s.isReadEof = true → src.rest = []
  phase : Phase uuid all out delivered s src

-- What a call can do.
inductive Outcome (uuid all out : List UInt8) (cap : Nat) (delivered : List UInt8) :
    Poll (List UInt8) → ReadState → Source → Prop
  | pending {s src} : Inv uuid all out delivered s src → Outcome uuid all out cap delivered .pending s src
  | bytes {bs s src} : Inv uuid all out (delivered ++ bs) s src → (cap ≠ 0 → bs ≠ []) →
      Outcome uuid all out cap delivered (.ready bs) s src
  | finished {s src} : Inv uuid all out delivered s src → delivered = out →
      Outcome uuid all out cap delivered (.ready []) s src
  | inner {s src} : Inv uuid all out delivered s src → Outcome uuid all out cap delivered (.error .inner) s src
  | failed {e s src} : delivered = out → Outcome uuid all out cap delivered (.error e) s src

variable {delivered : List UInt8} {s s' : ReadState} {src src' : Source} {cap : Nat} {p : Poll (List UInt8)}

theorem inv_start {rs : List Response}
    (hbody : ∀ body, HasBody all body → out = shown uuid .new (bodyPieces body rs all))
    (hnone : (∀ body, ¬HasBody all body) → out = []) : Inv uuid all out [] .newClient ⟨rs, all⟩ :=
  ⟨nofun, .waiting rfl rfl rfl rfl rfl rfl (fun _ ⟨_, _, _, h⟩ => nomatch h) hbody hnone⟩

theorem Inv.isPrefix (h : Inv uuid all out delivered s src) : delivered <+: out := by
  obtain ⟨_, _, _, _, rfl, _⟩ | ⟨_, _, rfl⟩ | ⟨_, rfl⟩ := h.phase
  case waiting => exact List.nil_prefix
  case padded  => exact ⟨_, (List.append_assoc ..).symm⟩
  case raw     => exact ⟨_, (List.append_assoc ..).symm⟩

theorem Inv.at_end (h : Inv uuid all out delivered s src) (hs : src.rest = []) (hp : s.pendingRead = []) :
    delivered = out := by
  obtain ⟨_, _, _, _, rfl, ha, hn, _, hnone⟩ | ⟨_, _, rfl⟩ | ⟨_, rfl⟩ := h.phase
  case waiting =>
    rw [hs, List.append_nil] at ha
    exact (hnone (ha ▸ hn)).symm
  case padded => rw [hs, hp, shown_pieces_nil, List.append_nil, List.append_nil]
  case raw    => rw [hs, hp, List.append_nil, List.append_nil]

-- Bytes go from what is pending to what has been delivered.
theorem outcome_serve (h : Inv uuid all out delivered s src) (hne : s.pendingRead ≠ []) (cap : Nat) :
    Outcome uuid all out cap delivered (.ready (s.servePending cap).1) (s.servePending cap).2 src := by
  have hmove : delivered ++ s.pendingRead.take cap ++ s.pendingRead.drop cap = delivered ++ s.pendingRead := by
    rw [List.append_assoc, List.take_append_drop]
  refine .bytes ⟨h.eof, ?_⟩ fun hcap hnil => (List.take_eq_nil_iff.mp hnil).elim hcap hne
  obtain ⟨_, _, _, hp, _⟩ | ⟨hm, hw, ho⟩ | ⟨hm, ho⟩ := h.phase
  case waiting => exact absurd hp hne
  case padded  => exact .padded hm hw (hmove.symm ▸ ho)
  case raw     => exact .raw hm (hmove.symm ▸ ho)

theorem Inv.raw (h : Inv uuid all out delivered s src) (hm : s.readMode = .passthrough) :
    out = delivered ++ s.pendingRead ++ src.rest := by
  obtain ⟨hm', _⟩ | ⟨hm', _⟩ | ⟨_, ho⟩ := h.phase
  case waiting => cases hm.symm.trans hm'
  case padded  => cases hm.symm.trans hm'
  case raw     => exact ho

-- Behind the last block bytes are handed on.
theorem outcome_relay (h : Inv uuid all out delivered s src) (hm : s.readMode = .passthrough) (hp : s.pendingRead = [])
    (cap : Nat) : Outcome uuid all out cap delivered (src.pollRead cap).1 s (src.pollRead cap).2 := by
  have hraw := h.raw hm
  rcases src with ⟨rs, rest⟩
  cases rs
  case nil => exact .pending h
  case cons r rs =>
    have hskip : Inv uuid all out delivered s ⟨rs, rest⟩ := ⟨h.eof, .raw hm hraw⟩
    cases r
    case pending => exact .pending hskip
    case error   => exact .inner hskip
    case ready n =>
      show Outcome uuid all out cap delivered (.ready (rest.take (min (n + 1) cap))) s ⟨rs, rest.drop (min (n + 1) cap)⟩
      generalize hlen : min (n + 1) cap = len
      have heof : s.isReadEof = true → rest.drop len = [] := fun he => by
        rw [show rest = [] from h.eof he, List.drop_nil]
      have hinv : Inv uuid all out (delivered ++ rest.take len) s ⟨rs, rest.drop len⟩ := by
        refine ⟨heof, .raw hm ?_⟩
        rw [hp, List.append_nil] at hraw ⊢
        rw [List.append_assoc, List.take_append_drop]
        exact hraw
      by_cases hnil : rest.take len = []
      case neg => exact .bytes hinv fun _ => hnil
      case pos =>
        rcases List.take_eq_nil_iff.mp hnil with hl | hr
        case inl => exact .bytes hinv fun hcap => absurd hl (by omega)
        case inr =>
          rw [hnil, List.append_nil] at hinv
          rw [hnil]
          exact .finished hinv (hinv.at_end (by rw [hr]; exact List.drop_nil) hp)

-- A piece of the body, and what is still to come behind it.
structure Handed (uuid out delivered : List UInt8) (s : ReadState) (piece : List UInt8) (src : Source) : Prop where
  eof      : s.isReadEof = true → piece ++ src.rest = []
  mode     : s.readMode = .padding
  stripped : s.vlessResponsePending = false
  pending  : s.pendingRead = []
  output   : out = delivered ++ shown uuid s.readUnpadder (piece :: pieces src.responses src.rest)

theorem Handed.inv (h : Handed uuid out delivered s [] src) : Inv uuid all out delivered s src := by
  refine ⟨h.eof, .padded h.mode h.stripped ?_⟩
  rw [h.pending, List.append_nil, h.output, shown_nil]

theorem Handed.unpad {piece : List UInt8} (h : Handed uuid out delivered s piece src) (hne : piece ≠ []) :
    (∀ e s', s.handleUnpad uuid piece = (.error e, s') → delivered = out) ∧
      ∀ s', s.handleUnpad uuid piece = (.ok (), s') → Inv uuid all out delivered s' src := by
  rw [ReadState.handleUnpad]
  rcases hun : s.readUnpadder.unpad uuid piece with ⟨r, u⟩
  cases r
  case error e =>
    refine ⟨fun _ _ _ => ?_, fun _ hs => by cases hs⟩
    rw [h.output, shown_error hne hun, List.append_nil]
  case ok r =>
    refine ⟨fun _ _ hs => (by cases hs), fun s' hs => ?_⟩
    cases hs
    refine ⟨fun he => (List.append_eq_nil_iff.mp (h.eof he)).2, ?_⟩
    by_cases hc : Ends r.command
    case pos =>
      refine .raw (if_pos hc) ?_
      show out = delivered ++ (s.pendingRead ++ r.content) ++ src.rest
      rw [h.pending, List.nil_append, h.output, shown_last hne hun hc, flatten_pieces, List.append_assoc]
    case neg =>
      refine .padded ((if_neg hc).trans h.mode) h.stripped ?_
      show out = delivered ++ (s.pendingRead ++ r.content) ++ shown uuid u (pieces src.responses src.rest)
      rw [h.pending, List.nil_append, h.output, shown_cons hne hun hc, List.append_assoc]

theorem Inv.skip {r : Response} {rs : List Response} {rest : List UInt8}
    (h : Inv uuid all out delivered s ⟨r :: rs, rest⟩) (hr : ∀ n, r ≠ .ready n) :
    Inv uuid all out delivered s ⟨rs, rest⟩ := by
  have hpieces (rest : List UInt8) : pieces (r :: rs) rest = pieces rs rest := by
    cases r
    case pending => rfl
    case error   => rfl
    case ready n => exact absurd rfl (hr n)
  refine ⟨h.eof, ?_⟩
  obtain ⟨hm, hw, hu, hp, hd, ha, hn, hbody, hnone⟩ | ⟨hm, hw, ho⟩ | ⟨hm, ho⟩ := h.phase
  case waiting =>
    simp only [bodyPieces, hpieces] at hbody
    exact .waiting hm hw hu hp hd ha hn hbody hnone
  case padded  => exact .padded hm hw (hpieces rest ▸ ho)
  case raw     => exact .raw hm ho

-- The stream below is at its end.
theorem Inv.ended {n : Nat} {rs : List Response} {rest : List UInt8}
    (h : Inv uuid all out delivered s ⟨.ready n :: rs, rest⟩) (hr : rest = []) :
    Inv uuid all out delivered { s with isReadEof := true } ⟨rs, []⟩ := by
  subst hr
  refine ⟨fun _ => rfl, ?_⟩
  obtain ⟨hm, hw, hu, hp, hd, ha, hn, _, hnone⟩ | ⟨hm, hw, ho⟩ | ⟨hm, ho⟩ := h.phase
  case waiting =>
    refine .waiting hm hw hu hp hd ha hn (fun body hb => absurd hb ?_) hnone
    rw [← ha, List.append_nil]
    exact hn body
  case padded =>
    refine .padded hm hw ?_
    rw [shown_pieces_nil] at ho ⊢
    exact ho
  case raw => exact .raw hm ho

-- What is known when the header has been looked at.
def AfterStrip (uuid all out delivered : List UInt8) (src : Source) :
    Except IoError (Option (List UInt8)) × ReadState → Prop
  | (.error _, _)         => delivered = out
  | (.ok none, s)         => Inv uuid all out delivered s src ∧ s.readMode = .padding ∧ s.pendingRead = []
  | (.ok (some piece), s) => Handed uuid out delivered s piece src

theorem afterStrip {n : Nat} {rs : List Response} {rest : List UInt8}
    (h : Inv uuid all out delivered s ⟨.ready n :: rs, rest⟩) (hm : s.readMode = .padding) (hp : s.pendingRead = [])
    (hne : rest.take (min (n + 1) readLen) ≠ []) :
    AfterStrip uuid all out delivered ⟨rs, rest.drop (min (n + 1) readLen)⟩
      (s.stripResponse (rest.take (min (n + 1) readLen))) := by
  have hpieces : pieces (.ready n :: rs) rest =
    rest.take (min (n + 1) readLen) :: pieces rs (rest.drop (min (n + 1) readLen)) := rfl
  have hsplit := List.take_append_drop (min (n + 1) readLen) rest
  generalize rest.take (min (n + 1) readLen) = chunk at hne hsplit hpieces ⊢
  generalize rest.drop (min (n + 1) readLen) = after at hsplit hpieces ⊢
  have hlen : rest.length = chunk.length + after.length := by rw [← hsplit, List.length_append]
  have heof (he : s.isReadEof = true) : chunk ++ after = [] := hsplit.trans (h.eof he)
  obtain ⟨_, hw, hu, _, hd, ha, hn, hbody, hnone⟩ | ⟨_, hw, ho⟩ | ⟨hm', _⟩ := h.phase
  case raw => cases hm.symm.trans hm'
  case waiting =>
    have hall : s.partialVlessResponse ++ chunk ++ after = all := by rw [List.append_assoc, hsplit, ha]
    simp only [bodyPieces, hpieces, behind, hlen] at hbody
    have hs := stripped hw chunk
    generalize s.stripResponse chunk = q at hs
    cases hs
    case refused hr => exact hd.trans (hnone (hall ▸ hr after)).symm
    case more hnh =>
      refine ⟨⟨fun he => (List.append_eq_nil_iff.mp (heof he)).2, ?_⟩, hm, hp⟩
      refine .waiting hm hw hu hp hd hall hnh (fun body hb => ?_) hnone
      -- All of this piece is in the header.
      have hle := HasBody.length_le (hall.symm ▸ hb) hnh
      rw [hbody body hb, List.drop_eq_nil_of_le (by omega), shown_nil, bodyPieces]
      congr 2
      show _ = after.length - body.length
      omega
    case taken tail ht =>
      have hb : HasBody all (tail ++ after) := hall ▸ ht.append after
      have hle := ht.length_le hn
      have htail : chunk.drop (chunk.length + after.length - (tail ++ after).length) = tail := by
        have hsuffix : tail <:+ chunk :=
          List.suffix_of_suffix_length_le ht.isSuffix (List.suffix_append _ _) hle
        rw [List.length_append, Nat.add_sub_add_right]
        exact (List.suffix_iff_eq_drop.mp hsuffix).symm
      refine ⟨fun he => absurd (heof he) (fun h => hne (List.append_eq_nil_iff.mp h).1), hm, rfl, hp, ?_⟩
      have hzero : chunk.length + after.length - (tail ++ after).length - chunk.length = 0 := by
        rw [List.length_append]
        omega
      rw [hbody _ hb, htail, hzero, behind_zero, hd, List.nil_append]
      exact congrArg (fun u => shown uuid u _) hu.symm
  case padded =>
    have hs : s.stripResponse chunk = (.ok (some chunk), s) := by
      rw [ReadState.stripResponse, if_neg (by rw [hw]; exact Bool.false_ne_true)]
    rw [hs]
    refine ⟨heof, hm, hw, hp, ?_⟩
    rw [hp, List.append_nil] at ho
    exact hpieces ▸ ho

-- A turn gives what is pending, or relays, and else comes to what the further turns come to.
theorem outcome_turn {q : Poll (List UInt8) × ReadState × Source} (h : Inv uuid all out delivered s src)
    (hloop : s.readMode = .padding → s.pendingRead = [] → q = (p, s', src') → Outcome uuid all out cap delivered p s' src')
    (hr : (if ¬s.pendingRead.isEmpty then (.ready (s.servePending cap).1, (s.servePending cap).2, src)
      else if s.readMode = .passthrough then ((src.pollRead cap).1, s, (src.pollRead cap).2)
      else q) = (p, s', src')) : Outcome uuid all out cap delivered p s' src' := by
  split at hr
  case isTrue hne =>
    cases hr
    exact outcome_serve h (fun hnil => hne (List.isEmpty_iff.mpr hnil)) cap
  case isFalse hnil =>
    have hp := List.isEmpty_iff.mp (not_not.mp hnil)
    split at hr
    case isTrue hpass =>
      cases hr
      exact outcome_relay h hpass hp cap
    case isFalse hpad =>
      have hm : s.readMode = .padding := by
        cases hmode : s.readMode
        case padding     => rfl
        case passthrough => exact absurd hmode hpad
      exact hloop hm hp hr

theorem readLoop_outcome {rs : List Response} {rest : List UInt8} (h : Inv uuid all out delivered s ⟨rs, rest⟩)
    (hm : s.readMode = .padding) (hp : s.pendingRead = [])
    (hr : s.readLoop uuid rs rest cap = (p, s', src')) : Outcome uuid all out cap delivered p s' src' := by
  induction rs generalizing s rest
  case nil =>
    cases hr
    exact .pending h
  case cons r rs hi =>
    cases r
    case pending =>
      cases hr
      exact .pending (h.skip fun _ => Response.noConfusion)
    case error =>
      cases hr
      exact .inner (h.skip fun _ => Response.noConfusion)
    case ready n =>
      simp only [ReadState.readLoop] at hr
      split at hr
      case isTrue hc =>
        have hnil : rest = [] :=
          (List.take_eq_nil_iff.mp (List.isEmpty_iff.mp hc)).resolve_left (by rw [readLen]; omega)
        cases hr
        rw [hnil, List.drop_nil]
        exact .finished (h.ended hnil) (h.at_end hnil hp)
      case isFalse hc =>
        have hstrip := afterStrip h hm hp fun hnil => hc (List.isEmpty_iff.mpr hnil)
        generalize s.stripResponse (rest.take (min (n + 1) readLen)) = q at hr hstrip
        generalize rest.drop (min (n + 1) readLen) = after at hr hstrip
        rcases q with ⟨_ | _ | piece, s₁⟩
        case error =>
          cases hr
          exact .failed hstrip
        case ok.none =>
          exact hi hstrip.1 hstrip.2.1 hstrip.2.2 hr
        case ok.some =>
          have hnext (s₁ : ReadState) (hinv : Inv uuid all out delivered s₁ ⟨rs, after⟩) := outcome_turn hinv (hi hinv)
          by_cases hnil : piece = []
          case pos =>
            subst hnil
            exact hnext s₁ (Handed.inv hstrip) hr
          case neg =>
            obtain ⟨hfail, hgo⟩ := Handed.unpad hstrip hnil
            simp only [if_neg (fun h => hnil (List.isEmpty_iff.mp h))] at hr
            rcases hq : s₁.handleUnpad uuid piece with ⟨_ | _, s₂⟩
            case error e =>
              rw [hq] at hr
              cases hr
              exact .failed (hfail _ _ hq)
            case ok u =>
              rw [hq] at hr
              exact hnext s₂ (hgo s₂ hq) hr

theorem pollRead_outcome (h : Inv uuid all out delivered s src) (hr : pollRead uuid s src cap = (p, s', src')) :
    Outcome uuid all out cap delivered p s' src' := by
  refine outcome_turn h (fun hm hp hq => ?_) hr
  split at hq
  case isTrue he =>
    cases hq
    exact .finished h (h.at_end (h.eof he) hp)
  case isFalse => exact readLoop_outcome h hm hp hq

theorem inv_step {r r' : ReadRun} (h : Inv uuid all out r.delivered r.reader r.source) (hs : r.step uuid cap = some r') :
    Inv uuid all out r'.delivered r'.reader r'.source := by
  rcases hp : pollRead uuid r.reader r.source cap with ⟨p, s, src⟩
  have ho := pollRead_outcome h hp
  rw [ReadRun.step, hp] at hs
  cases p
  case error e => cases hs
  case pending =>
    cases hs
    cases ho
    case pending hi => exact hi
  case ready bs =>
    cases hs
    cases ho
    case bytes => assumption
    case finished =>
      rw [List.append_nil]
      assumption

theorem inv_run {r r' : ReadRun} {caps : List Nat} (h : Inv uuid all out r.delivered r.reader r.source)
    (hr : Machine.run (ReadRun.step uuid) r caps = some r') : Inv uuid all out r'.delivered r'.reader r'.source := by
  induction caps generalizing r
  case nil => exact Option.some.inj hr ▸ h
  case cons cap caps hi =>
    have ⟨r₁, hs, hr⟩ := Machine.run_cons hr
    exact hi (inv_step h hs) hr

-- A call that ends a run is one that finds all of it delivered.
theorem Inv.of_ended {r : ReadRun} (h : Inv uuid all out r.delivered r.reader r.source) (he : r.Ended uuid) :
    r.delivered = out := by
  have ⟨cap, hcap, he⟩ := he
  rcases hp : pollRead uuid r.reader r.source cap with ⟨p, s', src'⟩
  have ho := pollRead_outcome h hp
  rw [hp] at he
  obtain rfl | ⟨e, hne, rfl⟩ := he
  case inl =>
    cases ho
    case bytes hne _   => exact absurd rfl (hne hcap)
    case finished ho _ => exact ho
  case inr =>
    cases ho
    case inner     => exact absurd rfl hne
    case failed ho => exact ho

end Reading
end JammVpn.Vision
