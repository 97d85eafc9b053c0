import JammVpn.Lib.Machine

-- Streams that are polled, and writers that encode what they are given and keep what the stream below
-- does not take yet.
namespace PollIo

inductive IoError
  | inner
  | unexpectedEof
  | writeZero
  | other (msg : String)
  deriving DecidableEq

inductive Poll (α : Type)
  | pending
  | ready (a : α)
  | error (e : IoError)
  deriving DecidableEq

-- How the stream below answers one call: it handles up to so many bytes.
inductive Response
  | pending
  | ready (n : Nat)
  | error

-- A stream that is written to, and its next answers. Without an answer it is not ready.
structure Sink where
  responses : List Response
  written   : List UInt8

def Sink.pollWrite (k : Sink) (buf : List UInt8) : Poll Nat × Sink :=
  match k.responses with
  | []             => (.pending, k)
  | .pending :: rs => (.pending, { k with responses := rs })
  | .error :: rs   => (.error .inner, { k with responses := rs })
  | .ready n :: rs => (.ready (min n buf.length), { responses := rs, written := k.written ++ buf.take n })

-- `poll_flush` and `poll_shutdown`.
def Sink.pollDone (k : Sink) : Poll Unit × Sink :=
  match k.responses with
  | []             => (.pending, k)
  | .pending :: rs => (.pending, { k with responses := rs })
  | .error :: rs   => (.error .inner, { k with responses := rs })
  | .ready _ :: rs => (.ready (), { k with responses := rs })

-- Writes the buffer until it is empty or the stream below is not ready.
def flushWbuf : (responses : List Response) → (wbuf written : List UInt8) → Poll Unit × List UInt8 × Sink
  | rs, [], written                => (.ready (), [], ⟨rs, written⟩)
  | [], wbuf, written              => (.pending, wbuf, ⟨[], written⟩)
  | .pending :: rs, wbuf, written  => (.pending, wbuf, ⟨rs, written⟩)
  | .error :: rs, wbuf, written    => (.error .inner, wbuf, ⟨rs, written⟩)
  | .ready 0 :: rs, wbuf, written  => (.error .writeZero, wbuf, ⟨rs, written⟩)
  | .ready n :: rs, wbuf, written  => flushWbuf rs (wbuf.drop n) (written ++ wbuf.take n)

variable {σ ι : Type}

-- Tells how many bytes of the buffer it has taken, and what is to be written for them. Where it is direct,
-- buffers are handed on as they are.
structure Encoder (σ ι : Type) where
  direct : σ → Bool
  encode : σ → ι → List UInt8 → Except IoError Nat × List UInt8 × σ

-- The bytes that have not been written yet.
structure Writer (σ : Type) where
  enc  : σ
  wbuf : List UInt8

namespace Encoder

variable (E : Encoder σ ι)

def pollWrite (w : Writer σ) (k : Sink) (i : ι) (buf : List UInt8) : Poll Nat × Writer σ × Sink :=
  match flushWbuf k.responses w.wbuf k.written with
  | (.pending, wbuf, k)  => (.pending, { w with wbuf }, k)
  | (.error e, wbuf, k)  => (.error e, { w with wbuf }, k)
  | (.ready (), wbuf, k) =>
    if E.direct w.enc then
      let (n, k) := k.pollWrite buf
      (n, { w with wbuf }, k)
    else if buf.isEmpty then (.ready 0, { w with wbuf }, k)
    else
      match E.encode w.enc i buf with
      | (.error e, out, enc) => (.error e, { enc, wbuf := wbuf ++ out }, k)
      | (.ok n, out, enc)    =>
        match flushWbuf k.responses (wbuf ++ out) k.written with
        | (.error e, wbuf, k) => (.error e, { enc, wbuf }, k)
        | (_, wbuf, k)        => (.ready n, { enc, wbuf }, k)

-- `poll_flush` and `poll_shutdown`.
def pollFlush (w : Writer σ) (k : Sink) : Poll Unit × Writer σ × Sink :=
  match flushWbuf k.responses w.wbuf k.written with
  | (.ready (), wbuf, k) =>
    let (r, k) := k.pollDone
    (r, { w with wbuf }, k)
  | (r, wbuf, k)         => (r, { w with wbuf }, k)

inductive Op (ι : Type)
  | write (i : ι) (buf : List UInt8)
  | flush

-- A run up to the first error: what has been taken, and the calls that have been encoded.
structure WriteRun (σ ι : Type) where
  writer   : Writer σ
  sink     : Sink
  accepted : List UInt8
  history  : List (σ × ι × List UInt8)

def step (s : WriteRun σ ι) : Op ι → Option (WriteRun σ ι)
  | .write i buf =>
    match E.pollWrite s.writer s.sink i buf with
    | (.error _, _, _) => none
    | (.pending, w, k) => some { s with writer := w, sink := k }
    | (.ready n, w, k) => some {
        writer := w
        sink := k
        accepted := s.accepted ++ buf.take n
        history :=
          if E.direct s.writer.enc || buf.isEmpty then s.history
          else s.history ++ [(s.writer.enc, i, buf)]
      }
  | .flush =>
    match pollFlush s.writer s.sink with
    | (.error _, _, _) => none
    | (_, w, k)        => some { s with writer := w, sink := k }

def start (s : σ) (wbuf : List UInt8) (responses : List Response) : WriteRun σ ι where
  writer := { enc := s, wbuf }
  sink := { responses, written := [] }
  accepted := []
  history := []

end Encoder

theorem flushWbuf_nil (rs : List Response) (written : List UInt8) :
    flushWbuf rs [] written = (.ready (), [], ⟨rs, written⟩) := by
  cases rs <;> rfl

theorem flushWbuf_written (rs : List Response) (wbuf written : List UInt8) :
    (flushWbuf rs wbuf written).2.2.written ++ (flushWbuf rs wbuf written).2.1 = written ++ wbuf := by
  induction rs generalizing wbuf written
  case nil => cases wbuf <;> rfl
  case cons r rs hi =>
    cases wbuf
    case nil => rfl
    case cons b bs =>
      cases r
      case pending => rfl
      case error   => rfl
      case ready n =>
        cases n
        case zero => rfl
        case succ n =>
          have hs : flushWbuf (.ready (n + 1) :: rs) (b :: bs) written =
            flushWbuf rs ((b :: bs).drop (n + 1)) (written ++ (b :: bs).take (n + 1)) := rfl
          rw [hs, hi, List.append_assoc, List.take_append_drop]

theorem flushWbuf_ready {rs : List Response} {wbuf written wbuf' : List UInt8} {k : Sink}
    (h : flushWbuf rs wbuf written = (.ready (), wbuf', k)) : wbuf' = [] ∧ k.written = written ++ wbuf := by
  have hw := flushWbuf_written rs wbuf written
  have he : wbuf' = [] := by
    induction rs generalizing wbuf written
    case nil =>
      cases wbuf
      case nil  => exact (congrArg (·.2.1) h).symm
      case cons => cases h
    case cons r rs hi =>
      cases wbuf
      case nil => exact (congrArg (·.2.1) h).symm
      case cons b bs =>
        cases r
        case pending => cases h
        case error   => cases h
        case ready n =>
          cases n
          case zero   => cases h
          case succ n => exact hi h (flushWbuf_written _ _ _)
  rw [h, he, List.append_nil] at hw
  exact ⟨he, hw⟩

theorem flushWbuf_error {rs : List Response} {wbuf written : List UInt8} {e : IoError}
    (h : (flushWbuf rs wbuf written).1 = .error e) : e = .inner ∨ e = .writeZero := by
  induction rs generalizing wbuf written
  case nil => cases wbuf <;> cases h
  case cons r rs hi =>
    cases wbuf
    case nil => cases h
    case cons b bs =>
      cases r
      case pending => cases h
      case error =>
        cases h
        exact .inl rfl
      case ready n =>
        cases n
        case zero =>
          cases h
          exact .inr rfl
        case succ n => exact hi h

theorem Sink.pollWrite_error {k : Sink} {buf : List UInt8} {e : IoError} (h : (k.pollWrite buf).1 = .error e) :
    e = .inner := by
  obtain ⟨rs, written⟩ := k
  cases rs
  case nil => cases h
  case cons r rs =>
    cases r
    case pending => cases h
    case ready   => cases h
    case error =>
      cases h
      rfl

namespace Encoder

variable {E : Encoder σ ι}

-- An error that does not come from the stream below comes from the encoding.
theorem pollWrite_other_iff {w : Writer σ} {k : Sink} {i : ι} {buf : List UInt8} {msg : String} :
    (E.pollWrite w k i buf).1 = .error (.other msg) ↔
      (flushWbuf k.responses w.wbuf k.written).1 = .ready () ∧ E.direct w.enc = false ∧ buf ≠ [] ∧
        (E.encode w.enc i buf).1 = .error (.other msg) := by
  rw [Encoder.pollWrite]
  rcases hf : flushWbuf k.responses w.wbuf k.written with ⟨p, wbuf, k'⟩
  cases p
  case pending => simp
  case error e =>
    have := flushWbuf_error (congrArg Prod.fst hf)
    constructor
    case mp =>
      rintro ⟨⟩
      simp at this
    case mpr => exact nofun
  case ready =>
    cases hd : E.direct w.enc
    case true =>
      simp only [if_true, Bool.true_eq_false, false_and, and_false, iff_false]
      intro h
      cases Sink.pollWrite_error h
    case false =>
      cases buf
      case nil => simp
      case cons b bs =>
        simp only [Bool.false_eq_true, if_false, List.isEmpty_cons, true_and, ne_eq, reduceCtorEq, not_false_eq_true]
        rcases he : E.encode w.enc i (b :: bs) with ⟨res, out, enc⟩
        cases res
        case error e => simp
        case ok n =>
          dsimp only
          rcases hf' : flushWbuf k'.responses (wbuf ++ out) k'.written with ⟨q, wbuf', k''⟩
          cases q
          case error e =>
            have := flushWbuf_error (congrArg Prod.fst hf')
            constructor
            case mp =>
              rintro ⟨⟩
              simp at this
            case mpr => exact nofun
          all_goals simp

-- The calls that were encoded, with their wire bytes and what they took.
inductive Encodes (E : Encoder σ ι) (s₀ : σ) :
    List (σ × ι × List UInt8) → (wire content : List UInt8) → σ → Prop
  | nil : Encodes E s₀ [] [] [] s₀
  | snoc {h wire content s i buf n out s'} : Encodes E s₀ h wire content s → E.direct s = false →
      buf ≠ [] → E.encode s i buf = (.ok n, out, s') →
      Encodes E s₀ (h ++ [(s, i, buf)]) (wire ++ out) (content ++ buf.take n) s'

-- What has been written and what is still in the buffer is what the calls were encoded to, and after that
-- what was handed on directly.
def Inv (E : Encoder σ ι) (s₀ : σ) (wbuf₀ : List UInt8) (r : WriteRun σ ι) : Prop :=
  ∃ wire content raw, Encodes E s₀ r.history wire content r.writer.enc ∧
    r.sink.written ++ r.writer.wbuf = wbuf₀ ++ wire ++ raw ∧ r.accepted = content ++ raw ∧
    (raw ≠ [] → E.direct r.writer.enc = true)

theorem inv_start (s₀ : σ) (wbuf₀ : List UInt8) (rs : List Response) : Inv E s₀ wbuf₀ (start s₀ wbuf₀ rs) :=
  ⟨[], [], [], .nil, by simp [start], rfl, fun h => absurd rfl h⟩

-- Writing what is in the buffer changes nothing.
theorem Inv.flushed {s₀ : σ} {wbuf₀ : List UInt8} {r : WriteRun σ ι} (h : Inv E s₀ wbuf₀ r)
    {p : Poll Unit} {wbuf : List UInt8} {k : Sink}
    (hf : flushWbuf r.sink.responses r.writer.wbuf r.sink.written = (p, wbuf, k)) :
    Inv E s₀ wbuf₀ { r with writer := { r.writer with wbuf }, sink := k } := by
  have ⟨wire, content, raw, henc, hw, ha, hd⟩ := h
  have hwritten := flushWbuf_written r.sink.responses r.writer.wbuf r.sink.written
  rw [hf] at hwritten
  exact ⟨wire, content, raw, henc, hwritten.trans hw, ha, hd⟩

theorem pollDone_written (k : Sink) : k.pollDone.2.written = k.written := by
  obtain ⟨rs, written⟩ := k
  cases rs
  case nil       => rfl
  case cons r rs => cases r <;> rfl

theorem pollWrite_ready {k k' : Sink} {buf : List UInt8} {n : Nat} (h : k.pollWrite buf = (.ready n, k')) :
    k'.written = k.written ++ buf.take n := by
  obtain ⟨rs, written⟩ := k
  cases rs
  case nil => cases h
  case cons r rs =>
    cases r
    case pending => cases h
    case error   => cases h
    case ready m =>
      cases h
      exact congrArg _ List.take_eq_take_min

theorem pollWrite_pending {k k' : Sink} {buf : List UInt8} (h : k.pollWrite buf = (.pending, k')) :
    k'.written = k.written := by
  obtain ⟨rs, written⟩ := k
  cases rs
  case nil => cases h; rfl
  case cons r rs => cases r <;> cases h; rfl

-- The buffer has been written, and another call is encoded.
theorem Inv.encoded {s₀ : σ} {wbuf₀ : List UInt8} {r : WriteRun σ ι} (h : Inv E s₀ wbuf₀ r)
    (hd : E.direct r.writer.enc = false) {i : ι} {buf : List UInt8} (hb : buf ≠ []) {n : Nat}
    {out : List UInt8} {enc : σ} (he : E.encode r.writer.enc i buf = (.ok n, out, enc)) :
    Inv E s₀ wbuf₀ {
      writer := { enc, wbuf := r.writer.wbuf ++ out }
      sink := r.sink
      accepted := r.accepted ++ buf.take n
      history := r.history ++ [(r.writer.enc, i, buf)]
    } := by
  have ⟨wire, content, raw, henc, hw, ha, hdir⟩ := h
  have hraw : raw = [] := Classical.byContradiction fun hne => by simp [hdir hne] at hd
  rw [hraw, List.append_nil] at hw ha
  refine ⟨_, _, [], henc.snoc hd hb he, ?_, ?_, fun h => absurd rfl h⟩
  case refine_1 => rw [← List.append_assoc, hw, List.append_nil, List.append_assoc]
  case refine_2 => rw [ha, List.append_nil]

-- A stream below that has written nothing more.
theorem Inv.of_written {s₀ : σ} {wbuf₀ : List UInt8} {r : WriteRun σ ι} (h : Inv E s₀ wbuf₀ r) {k : Sink}
    (hk : k.written = r.sink.written) : Inv E s₀ wbuf₀ { r with sink := k } := by
  have ⟨wire, content, raw, henc, hw, ha, hd⟩ := h
  exact ⟨wire, content, raw, henc, hk ▸ hw, ha, hd⟩

-- The buffer has been written, and the stream below takes bytes as they are.
theorem Inv.relayed {s₀ : σ} {wbuf₀ : List UInt8} {r : WriteRun σ ι} (h : Inv E s₀ wbuf₀ r)
    (hd : E.direct r.writer.enc = true) (hempty : r.writer.wbuf = []) {taken : List UInt8} {k : Sink}
    (hk : k.written = r.sink.written ++ taken) :
    Inv E s₀ wbuf₀ { r with sink := k, accepted := r.accepted ++ taken } := by
  have ⟨wire, content, raw, henc, hw, ha, _⟩ := h
  refine ⟨wire, content, raw ++ taken, henc, ?_, ?_, fun _ => hd⟩
  case refine_1 =>
    rw [hempty, List.append_nil] at hw
    show k.written ++ r.writer.wbuf = _
    rw [hempty, List.append_nil, hk, hw, List.append_assoc]
  case refine_2 => rw [ha, List.append_assoc]

theorem inv_flush {s₀ : σ} {wbuf₀ : List UInt8} {r r' : WriteRun σ ι} (h : Inv E s₀ wbuf₀ r)
    (hs : step E r .flush = some r') : Inv E s₀ wbuf₀ r' := by
  rcases hf : flushWbuf r.sink.responses r.writer.wbuf r.sink.written with ⟨p, wbuf, k⟩
  have hi := h.flushed hf
  cases p
  case error e => simp [step, pollFlush, hf] at hs
  case pending =>
    simp only [step, pollFlush, hf, Option.some.injEq] at hs
    exact hs ▸ hi
  case ready =>
    have hdone := pollDone_written k
    rcases hk : k.pollDone with ⟨q, k'⟩
    rw [hk] at hdone
    cases q
    case error e => simp [step, pollFlush, hf, hk] at hs
    all_goals
      simp only [step, pollFlush, hf, hk, Option.some.injEq] at hs
      exact hs ▸ hi.of_written hdone

theorem inv_write {s₀ : σ} {wbuf₀ : List UInt8} {r r' : WriteRun σ ι} {i : ι} {buf : List UInt8}
    (h : Inv E s₀ wbuf₀ r) (hs : step E r (.write i buf) = some r') : Inv E s₀ wbuf₀ r' := by
  rcases hf : flushWbuf r.sink.responses r.writer.wbuf r.sink.written with ⟨p, wbuf, k⟩
  have hi := h.flushed hf
  cases p
  case error e => simp [step, pollWrite, hf] at hs
  case pending =>
    simp only [step, pollWrite, hf, Option.some.injEq] at hs
    exact hs ▸ hi
  case ready =>
    cases hd : E.direct r.writer.enc
    case true =>
      rcases hk : k.pollWrite buf with ⟨q, k'⟩
      cases q
      case error e => simp [step, pollWrite, hf, hd, hk] at hs
      case pending =>
        simp only [step, pollWrite, hf, hd, if_true, hk, Option.some.injEq] at hs
        exact hs ▸ hi.of_written (pollWrite_pending hk)
      case ready n =>
        simp only [step, pollWrite, hf, hd, if_true, hk, Bool.true_or, Option.some.injEq] at hs
        exact hs ▸ hi.relayed hd (flushWbuf_ready hf).1 (pollWrite_ready hk)
    case false =>
      by_cases hb : buf = []
      case pos =>
        simp only [step, pollWrite, hf, hd, hb, Bool.false_eq_true, if_false, List.isEmpty_nil, if_true,
          Bool.false_or, Option.some.injEq, List.take_nil, List.append_nil] at hs
        exact hs ▸ hi
      case neg =>
        have hbe : buf.isEmpty = false := by simpa using hb
        rcases he : E.encode r.writer.enc i buf with ⟨res, out, enc⟩
        cases res
        case error e => simp [step, pollWrite, hf, hd, hbe, he] at hs
        case ok n =>
          have hn := hi.encoded hd hb he
          rcases hf' : flushWbuf k.responses (wbuf ++ out) k.written with ⟨q, wbuf', k'⟩
          have hn := hn.flushed hf'
          cases q
          case error e => simp [step, pollWrite, hf, hd, hbe, he, hf'] at hs
          all_goals
            simp only [step, pollWrite, hf, hd, hbe, he, hf', Bool.false_eq_true, if_false, Bool.or_self,
              Option.some.injEq] at hs
            exact hs ▸ hn

theorem inv_step {s₀ : σ} {wbuf₀ : List UInt8} {r r' : WriteRun σ ι} {op : Op ι} (h : Inv E s₀ wbuf₀ r)
    (hs : step E r op = some r') : Inv E s₀ wbuf₀ r' := by
  cases op
  case flush       => exact inv_flush h hs
  case write i buf => exact inv_write h hs

theorem inv_run {s₀ : σ} {wbuf₀ : List UInt8} {r r' : WriteRun σ ι} {ops : List (Op ι)}
    (h : Inv E s₀ wbuf₀ r) (hr : Machine.run (step E) r ops = some r') : Inv E s₀ wbuf₀ r' := by
  induction ops generalizing r
  case nil => exact Option.some.inj hr ▸ h
  case cons op ops hi =>
    have ⟨r₁, hs, hr⟩ := Machine.run_cons hr
    exact hi (inv_step h hs) hr

end Encoder
end PollIo
