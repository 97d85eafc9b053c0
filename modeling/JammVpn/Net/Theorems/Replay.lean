import JammVpn.Net.Ss2022Udp

namespace JammVpn.Ss2022Udp

open Bytes Machine Shadowsocks

theorem getLsbD_bit {d : Nat} (h : d < 64) (i : Nat) : (1#64 <<< d).getLsbD i = decide (i = d) := by
  rw [BitVec.getLsbD_shiftLeft, BitVec.getLsbD_one]
  by_cases hi : i = d
  case pos => simp [hi, h]
  case neg =>
    simp only [hi, decide_false, Bool.and_eq_false_imp, Bool.and_eq_true, decide_eq_true_eq,
      Bool.not_eq_true', decide_eq_false_iff_not]
    omega

theorem and_bit_eq_zero {w : BitVec 64} {d : Nat} (h : d < 64) :
    w &&& 1#64 <<< d = 0 ↔ w.getLsbD d = false := by
  constructor
  case mp =>
    intro hz
    have := congrArg (·.getLsbD d) hz
    simpa [getLsbD_bit h] using this
  case mpr =>
    intro hw
    apply BitVec.eq_of_getLsbD_eq
    intro i hi
    simp only [BitVec.getLsbD_and, getLsbD_bit h, BitVec.ofNat_eq_ofNat, BitVec.getLsbD_zero]
    by_cases he : i = d
    case pos => rw [he, hw, Bool.false_and]
    case neg => simp [he]

namespace Replay

variable {r r' : Replay} {sid : List UInt8} {pid : Nat}

-- A packet of another session, one ahead of the window, or one that is missing in it.
theorem accept_cases (h : r.accept sid pid = (true, r')) :
    (r.sid ≠ some sid ∧ r' = { sid := some sid, highest := pid, window := 1 }) ∨
    (r.sid = some sid ∧ r.highest < pid ∧
      r' = { r with highest := pid, window := r.window <<< (pid - r.highest) ||| 1 }) ∨
    (r.sid = some sid ∧ pid ≤ r.highest ∧ r.highest - pid < 64 ∧
      r.window.getLsbD (r.highest - pid) = false ∧
      r' = { r with window := r.window ||| 1#64 <<< (r.highest - pid) }) := by
  simp only [accept] at h
  split at h
  case isTrue hs =>
    cases h
    exact .inl ⟨hs, rfl⟩
  case isFalse hs =>
    have hs := not_not.mp hs
    split at h
    case isTrue hp =>
      -- Shifting by the width or more leaves nothing anyway.
      have hw : (if replayWindow ≤ pid - r.highest then 0 else r.window <<< (pid - r.highest)) =
          r.window <<< (pid - r.highest) :=
        ite_eq_right_iff.mpr fun hd => (BitVec.shiftLeft_eq_zero hd).symm
      rw [hw] at h
      cases h
      exact .inr (.inl ⟨hs, hp, rfl⟩)
    case isFalse hp =>
      split at h
      case isTrue => cases h
      case isFalse hd =>
        have hd : r.highest - pid < 64 := by simpa [replayWindow] using hd
        split at h <;> cases h
        case isFalse hb =>
          exact .inr (.inr ⟨hs, Nat.le_of_not_lt hp, hd, (and_bit_eq_zero hd).mp (not_not.mp hb), rfl⟩)

theorem accept_false (h : r.accept sid pid = (false, r')) : r' = r := by
  simp only [accept] at h
  split at h
  case isTrue => cases h
  case isFalse =>
    split at h
    case isTrue => cases h
    case isFalse =>
      split at h
      case isTrue  => cases h; rfl
      case isFalse => split at h <;> cases h; rfl

-- The window knows a packet of the current session: its bit is set, or it is too old.
def Covers (r : Replay) (d : List UInt8 × Nat) : Prop :=
  r.sid = some d.1 → d.2 ≤ r.highest ∧ (r.highest - d.2 < 64 → r.window.getLsbD (r.highest - d.2) = true)

theorem accept_covers_self (h : r.accept sid pid = (true, r')) : r'.Covers (sid, pid) := by
  obtain ⟨-, rfl⟩ | ⟨-, -, rfl⟩ | ⟨-, hp, hd, -, rfl⟩ := accept_cases h <;> intro _
  case inl => simp
  case inr.inl => simp
  case inr.inr => simp [hp, getLsbD_bit hd]

-- What is covered stays covered: it moves in the window, or out of it.
theorem accept_covers {d : List UInt8 × Nat} (h : r.accept sid pid = (true, r')) (hd : r.Covers d)
    (hn : r.sid ≠ some sid → d.1 ≠ sid) : r'.Covers d := by
  obtain ⟨hs, rfl⟩ | ⟨-, hp, rfl⟩ | ⟨-, -, -, -, rfl⟩ := accept_cases h <;> intro he
  case inl =>
    exact absurd (Option.some.inj he).symm (hn hs)
  case inr.inl =>
    have ⟨hle, hb⟩ := hd he
    refine ⟨hle.trans hp.le, fun hlt => ?_⟩
    have hlt : pid - d.2 < 64 := hlt
    have hdiff : pid - d.2 - (pid - r.highest) = r.highest - d.2 := by omega
    have hset : (r.window <<< (pid - r.highest)).getLsbD (pid - d.2) = true := by
      rw [BitVec.getLsbD_shiftLeft, hdiff, hb (by omega)]
      simp only [Bool.and_true, Bool.and_eq_true, decide_eq_true_eq, Bool.not_eq_true',
        decide_eq_false_iff_not]
      omega
    rw [BitVec.getLsbD_or, hset, Bool.true_or]
  case inr.inr =>
    have ⟨hle, hb⟩ := hd he
    exact ⟨hle, fun hlt => by rw [BitVec.getLsbD_or, hb hlt, Bool.true_or]⟩

-- A packet that the window knows is not accepted.
theorem accept_not_covered (h : r.accept sid pid = (true, r')) (hs : r.sid = some sid) :
    ¬r.Covers (sid, pid) := by
  intro hc
  have ⟨hle, hb⟩ := hc hs
  obtain ⟨hn, -⟩ | ⟨-, hp, -⟩ | ⟨-, -, hd, hf, -⟩ := accept_cases h
  case inl    => exact hn hs
  case inr.inl => exact absurd hle (Nat.not_le_of_lt hp)
  case inr.inr => simp [hb hd] at hf

end Replay

variable {p : Primitives} {s : Session} {st st' : State} {a : Arrival}

theorem step_cases (h : step p s st a = some st') :
    st' = st ∨ ∃ sid pid payload r, s.validate p a.now a.packet = .ok (sid, pid, payload) ∧
      st.replay.accept sid pid = (true, r) ∧
      st' = { replay := r, delivered := (sid, pid) :: st.delivered } := by
  simp only [step, Session.decrypt] at h
  cases hv : s.validate p a.now a.packet
  case error e =>
    simp only [hv] at h
    cases h
    exact .inl rfl
  case ok v =>
    obtain ⟨sid, pid, payload⟩ := v
    simp only [hv] at h
    cases ha : st.replay.accept sid pid
    case mk b r =>
      rw [ha] at h
      cases b <;> cases h
      case false => exact .inl (by rw [Replay.accept_false ha])
      case true  => exact .inr ⟨sid, pid, payload, r, rfl, ha, rfl⟩

-- A valid packet of another session than the current one is of a session that nothing was
-- delivered from.
def NoReturn (p : Primitives) (s : Session) (st : State) (a : Arrival) : Prop :=
  ∀ sid pid payload, s.validate p a.now a.packet = .ok (sid, pid, payload) →
    st.replay.sid ≠ some sid → ∀ d ∈ st.delivered, d.1 ≠ sid

structure State.Inv (st : State) : Prop where
  nodup  : st.delivered.Nodup
  covers : ∀ d ∈ st.delivered, st.replay.Covers d

theorem inv_keeps : Keeps (step p s) (NoReturn p s) State.Inv := by
  intro st a st' hi hn hs
  obtain rfl | ⟨sid, pid, payload, r, hv, ha, rfl⟩ := step_cases hs
  case inl => exact hi
  case inr =>
    have hn := hn sid pid payload hv
    have hfresh : (sid, pid) ∉ st.delivered := by
      intro hm
      by_cases hs : st.replay.sid = some sid
      case pos => exact Replay.accept_not_covered ha hs (hi.covers _ hm)
      case neg => exact hn hs _ hm rfl
    constructor
    case nodup => exact List.nodup_cons.mpr ⟨hfresh, hi.nodup⟩
    case covers =>
      intro d hd
      cases hd
      case head    => exact Replay.accept_covers_self ha
      case tail hd => exact Replay.accept_covers ha (hi.covers d hd) fun hs => hn hs d hd

theorem delivered_once (p : Primitives) (s : Session) (as : List Arrival)
    (h : Each (step p s) (NoReturn p s) .start as) :
    Always (step p s) (·.delivered.Nodup) .start as :=
  (h.always inv_keeps { nodup := .nil, covers := by simp [State.start] }).mono fun _ hi => hi.nodup

def client : Session where
  method := .ss2022Chacha20Poly1305
  psk := List.replicate 32 0
  sessionId := List.replicate 8 0

-- A response from 1.1.1.1:53 with an empty payload.
def response (sid : List UInt8) (pid : Nat) : Arrival where
  now := 0
  packet :=
    let body := 1 :: List.replicate 18 0 ++ [0x01, 1, 1, 1, 1, 0, 53]
    List.replicate 24 0 ++ Aead.zeroTag.encrypt [] [] [] (sid ++ toBe 8 pid ++ body)

def serverA : List UInt8 := List.replicate 8 1
def serverB : List UInt8 := List.replicate 8 2

theorem validate_response (sid : List UInt8) (h : sid = serverA ∨ sid = serverB) :
    client.validate .trivial 0 (response sid 1).packet = .ok (sid, 1, []) := by
  obtain rfl | rfl := h <;> decide +kernel

theorem noReturn_two_servers :
    Each (step .trivial client) (NoReturn .trivial client) .start
      [response serverA 1, response serverB 1] := by
  have hs : step .trivial client .start (response serverA 1) = some {
      replay := { sid := some serverA, highest := 1, window := 1 }
      delivered := [(serverA, 1)]
    } := by decide +kernel
  intro st h
  rw [hs] at h
  cases h
  refine ⟨fun _ _ _ _ _ d hd => absurd hd List.not_mem_nil, fun _ _ => ⟨?_, trivial⟩⟩
  intro sid pid payload hv _ d hd
  have hb := hv.symm.trans (validate_response serverB (.inr rfl))
  cases hb
  rw [List.mem_singleton.mp hd]
  decide

theorem delivered_once_two_servers :
    Each (step .trivial client) (NoReturn .trivial client) .start
      [response serverA 1, response serverB 1] ∧
    Always (step .trivial client) (·.delivered.Nodup) .start [response serverA 1, response serverB 1] :=
  ⟨noReturn_two_servers, delivered_once .trivial client _ noReturn_two_servers⟩

-- The first session comes back, with a packet that was delivered before.
theorem delivered_twice :
    (run (step .trivial client) .start
      [response serverA 1, response serverB 1, response serverA 1]).map (·.delivered) =
        some [(serverA, 1), (serverB, 1), (serverA, 1)] := by
  decide +kernel

end JammVpn.Ss2022Udp

-- Within one session of the server, the window knows exactly which packets have been accepted.
namespace JammVpn.Ss2022Udp

open Machine Shadowsocks

namespace Replay

variable {r r' : Replay} {sid : List UInt8} {pid : Nat} {accepted : List (List UInt8 × Nat)}

-- Nothing has been accepted, or the bits are what has been accepted near the highest packet.
structure Represents (r : Replay) (sid : List UInt8) (accepted : List (List UInt8 × Nat)) : Prop where
  none    : r.sid ≠ some sid → accepted = []
  own     : ∀ d ∈ accepted, d.1 = sid
  le      : r.sid = some sid → ∀ d ∈ accepted, d.2 ≤ r.highest
  highest : r.sid = some sid → (sid, r.highest) ∈ accepted
  window  : r.sid = some sid → ∀ i < 64, r.window.getLsbD i = true ↔ ∃ q, (sid, q) ∈ accepted ∧ q + i = r.highest

-- Neither accepted before, nor so old that the window has no bit for it.
def Fresh (sid : List UInt8) (pid : Nat) (accepted : List (List UInt8 × Nat)) : Prop :=
  (sid, pid) ∉ accepted ∧ ∀ d ∈ accepted, d.2 < pid + 64

theorem represents_nil (h : r.sid ≠ some sid) : r.Represents sid [] where
  none _ := rfl
  own := by simp
  le hs := absurd hs h
  highest hs := absurd hs h
  window hs := absurd hs h

theorem Represents.fresh_iff (h : r.Represents sid accepted) :
    Fresh sid pid accepted ↔ (r.accept sid pid).1 = true := by
  by_cases hs : r.sid = some sid
  case neg =>
    rw [h.none hs, accept, if_pos hs]
    simp [Fresh]
  case pos =>
    rw [accept, if_neg (not_not.mpr hs)]
    by_cases hp : r.highest < pid
    case pos =>
      have hle : ∀ d ∈ accepted, d.2 < pid := fun d hd => Nat.lt_of_le_of_lt (h.le hs d hd) hp
      rw [if_pos hp]
      refine iff_of_true ⟨fun hm => absurd (hle _ hm) (Nat.lt_irrefl _), fun d hd => ?_⟩ rfl
      exact Nat.lt_of_lt_of_le (hle d hd) (Nat.le_add_right _ _)
    case neg =>
      rw [if_neg hp]
      by_cases hd : replayWindow ≤ r.highest - pid
      case pos =>
        rw [if_pos hd]
        refine iff_of_false (fun hf => ?_) Bool.false_ne_true
        have hlt : r.highest < pid + 64 := hf.2 _ (h.highest hs)
        simp only [replayWindow] at hd
        omega
      case neg =>
        have hlt : r.highest - pid < 64 := Nat.lt_of_not_le hd
        have hbit := h.window hs _ hlt
        have hold : ∀ d ∈ accepted, d.2 < pid + 64 := by
          intro d hm
          have := h.le hs d hm
          omega
        have hdist : pid + (r.highest - pid) = r.highest := Nat.add_sub_of_le (Nat.le_of_not_lt hp)
        have hmem : (∃ q, (sid, q) ∈ accepted ∧ q + (r.highest - pid) = r.highest) ↔ (sid, pid) ∈ accepted := by
          constructor
          case mp =>
            rintro ⟨q, hm, hq⟩
            rwa [← Nat.add_right_cancel (hq.trans hdist.symm)]
          case mpr => exact fun hm => ⟨pid, hm, hdist⟩
        rw [hmem] at hbit
        rw [if_neg hd]
        by_cases hb : r.window &&& 1#64 <<< (r.highest - pid) ≠ 0
        case pos =>
          rw [if_pos hb]
          refine iff_of_false (fun hf => hf.1 ?_) Bool.false_ne_true
          rw [← hbit, ← Bool.not_eq_false, ← and_bit_eq_zero hlt]
          exact hb
        case neg =>
          rw [if_neg hb]
          refine iff_of_true ⟨fun hm => ?_, hold⟩ rfl
          have hf := (and_bit_eq_zero hlt).mp (not_not.mp hb)
          rw [hbit.mpr hm] at hf
          cases hf

theorem exists_mem_cons {q i n : Nat} :
    (∃ q', (sid, q') ∈ (sid, q) :: accepted ∧ q' + i = n) ↔
      q + i = n ∨ ∃ q', (sid, q') ∈ accepted ∧ q' + i = n := by
  constructor
  case mp =>
    rintro ⟨q', hm, hq⟩
    cases hm
    case head    => exact .inl hq
    case tail hm => exact .inr ⟨q', hm, hq⟩
  case mpr =>
    rintro (hq | ⟨q', hm, hq⟩)
    case inl => exact ⟨q, List.mem_cons_self, hq⟩
    case inr => exact ⟨q', List.mem_cons_of_mem _ hm, hq⟩

-- A packet ahead of all others moves them in the window, or out of it.
theorem window_shift (h : r.Represents sid accepted) (hs : r.sid = some sid) (hp : r.highest < pid) {i : Nat}
    (hi : i < 64) : (r.window <<< (pid - r.highest) ||| 1).getLsbD i = true ↔
      ∃ q, (sid, q) ∈ (sid, pid) :: accepted ∧ q + i = pid := by
  have hone : (1 : BitVec 64).getLsbD i = decide (i = 0) := @getLsbD_bit 0 (by decide) i
  rw [BitVec.getLsbD_or, hone, BitVec.getLsbD_shiftLeft, exists_mem_cons, Bool.or_eq_true, decide_eq_true_iff,
    or_comm, Nat.add_eq_left]
  refine or_congr_right ?_
  by_cases hd : i < pid - r.highest
  case pos =>
    have hold : ¬∃ q, (sid, q) ∈ accepted ∧ q + i = pid := by
      rintro ⟨q, hm, hq⟩
      have hle : q ≤ r.highest := h.le hs _ hm
      omega
    simp [hd, hold]
  case neg =>
    have hmove : ∀ q, q + (i - (pid - r.highest)) = r.highest ↔ q + i = pid := fun q => by omega
    have hbit := h.window hs (i - (pid - r.highest)) (by omega)
    simp only [hmove] at hbit
    simp [hd, hi, hbit]

theorem Represents.accept (h : r.Represents sid accepted) (ha : r.accept sid pid = (true, r')) :
    r'.Represents sid ((sid, pid) :: accepted) := by
  obtain ⟨hs, rfl⟩ | ⟨hs, hp, w, rfl, hw⟩ | ⟨hs, hp, hd, -, rfl⟩ := accept_cases ha
  case inl =>
    cases h.none hs
    refine ⟨fun hn => absurd rfl hn, by simp, by simp, by simp, fun _ i hi => ?_⟩
    have hbit : (1 : BitVec 64).getLsbD i = decide (i = 0) := @getLsbD_bit 0 (by decide) i
    rw [hbit, decide_eq_true_iff]
    constructor
    case mp => exact fun hz => ⟨pid, List.mem_singleton_self _, by rw [hz, Nat.add_zero]⟩
    case mpr =>
      rintro ⟨q, hm, hq⟩
      cases List.mem_singleton.mp hm
      exact Nat.add_eq_left.mp hq
  case inr.inl =>
    refine ⟨fun hn => absurd hs hn, List.forall_mem_cons.mpr ⟨rfl, h.own⟩, fun _ => ?_,
      fun _ => List.mem_cons_self, fun _ i hi => ?_⟩
    case refine_1 =>
      exact List.forall_mem_cons.mpr ⟨Nat.le_refl _, fun d hd => (h.le hs d hd).trans hp.le⟩
    case refine_2 => exact window_shift h hs hp hi
  case inr.inr =>
    refine ⟨fun hn => absurd hs hn, List.forall_mem_cons.mpr ⟨rfl, h.own⟩, fun _ => ?_,
      fun _ => List.mem_cons_of_mem _ (h.highest hs), fun _ i hi => ?_⟩
    case refine_1 => exact List.forall_mem_cons.mpr ⟨hp, h.le hs⟩
    case refine_2 =>
      rw [BitVec.getLsbD_or, getLsbD_bit hd, Bool.or_eq_true, h.window hs i hi, decide_eq_true_iff,
        exists_mem_cons, or_comm]
      refine or_congr_left ⟨?_, ?_⟩
      case refine_1 => exact fun hq => hq ▸ Nat.add_sub_of_le hp
      case refine_2 => exact Nat.eq_sub_of_add_eq'

end Replay

variable {p : Primitives} {s : Session} {sid payload : List UInt8} {pid : Nat} {r : Replay} {st st' : State} {a : Arrival}

-- All packets that pass the other checks are of this session of the server.
def OneSession (p : Primitives) (s : Session) (sid : List UInt8) (as : List Arrival) : Prop :=
  ∀ a ∈ as, ∀ sid' pid payload, s.validate p a.now a.packet = .ok (sid', pid, payload) → sid' = sid

theorem decrypt_error {e : String} (h : (s.decrypt p a.now a.packet r).1 = .error e) :
    (s.decrypt p a.now a.packet r).2 = r := by
  rw [Session.decrypt] at h ⊢
  split
  case h_1 => rfl
  case h_2 sid pid payload hv =>
    rw [hv] at h
    rcases ha : r.accept sid pid with ⟨b, r'⟩
    simp only [ha] at h ⊢
    cases b
    case false => exact Replay.accept_false ha
    case true  => cases h

theorem decrypt_ok_iff (hv : s.validate p a.now a.packet = .ok (sid, pid, payload)) :
    (s.decrypt p a.now a.packet r).1 = .ok payload ↔ (r.accept sid pid).1 = true := by
  rcases ha : r.accept sid pid with ⟨b, r'⟩
  simp only [Session.decrypt, hv, ha]
  cases b <;> simp

theorem exists_step (st : State) (a : Arrival) : ∃ st', step p s st a = some st' := by
  rw [step]
  split
  case h_1 => exact ⟨_, rfl⟩
  case h_2 => exact ⟨_, rfl⟩

def State.Represents (sid : List UInt8) (st : State) : Prop :=
  st.replay.Represents sid st.delivered

theorem represents_keeps (p : Primitives) (s : Session) (sid : List UInt8) :
    Keeps (step p s) (fun _ a => OneSession p s sid [a]) (State.Represents sid) := by
  intro st a st' hi ho hs
  obtain rfl | ⟨sid', pid, payload, r, hv, ha, rfl⟩ := step_cases hs
  case inl => exact hi
  case inr =>
    cases ho a (List.mem_singleton_self a) sid' pid payload hv
    exact Replay.Represents.accept hi ha

-- The answers to packets that come one after the other.
def answers (p : Primitives) (s : Session) (r : Replay) : List Arrival → List (Except String (List UInt8))
  | []      => []
  | a :: as => (s.decrypt p a.now a.packet r).1 :: answers p s (s.decrypt p a.now a.packet r).2 as

-- What is left when the marked ones are taken out.
def unmarked {α : Type} (xs : List (Bool × α)) : List α :=
  (xs.filter fun x => !x.1).map Prod.snd

-- The answers in the places of the packets.
def markedAnswers (p : Primitives) (s : Session) (r : Replay) (xs : List (Bool × Arrival)) :
    List (Bool × Except String (List UInt8)) :=
  (xs.map Prod.fst).zip (answers p s r (xs.map Prod.snd))

-- The marked packets are rejected: the others are answered as if there had been no marked ones.
theorem unmarked_answers {xs : List (Bool × Arrival)}
    (h : ∀ x ∈ markedAnswers p s r xs, x.1 = true → ∃ e, x.2 = .error e) :
    unmarked (markedAnswers p s r xs) = answers p s r (unmarked xs) := by
  induction xs generalizing r
  case nil => rfl
  case cons x xs hi =>
    obtain ⟨b, a⟩ := x
    obtain ⟨ha, hxs⟩ := List.forall_mem_cons.mp h
    cases b
    case false => exact congrArg _ (hi hxs)
    case true =>
      obtain ⟨e, he⟩ := ha rfl
      have hr := decrypt_error he
      simp only [hr] at hxs
      have hrest : unmarked (markedAnswers p s r ((true, a) :: xs)) =
          unmarked (markedAnswers p s (s.decrypt p a.now a.packet r).2 xs) := rfl
      rw [hrest, hr]
      exact hi hxs

-- The packets of a session are judged by those that have been delivered, whatever came before the session; and
-- a packet that is rejected changes nothing.
theorem window_exact (p : Primitives) (s : Session) (sid : List UInt8) (r : Replay) (hr : r.sid ≠ some sid)
    (as : List Arrival) (ha : OneSession p s sid as) :
    ∃ st, run (step p s) { replay := r, delivered := [] } as = some st ∧
      (∀ (a : Arrival) pid payload, s.validate p a.now a.packet = .ok (sid, pid, payload) →
        ((s.decrypt p a.now a.packet st.replay).1 = .ok payload ↔
          (sid, pid) ∉ st.delivered ∧ ∀ d ∈ st.delivered, d.2 < pid + 64)) ∧
      (∀ (a : Arrival) e, (s.decrypt p a.now a.packet st.replay).1 = .error e →
        (s.decrypt p a.now a.packet st.replay).2 = st.replay) ∧
      ∀ xs : List (Bool × Arrival), (∀ x ∈ markedAnswers p s st.replay xs, x.1 = true → ∃ e, x.2 = .error e) →
        unmarked (markedAnswers p s st.replay xs) = answers p s st.replay (unmarked xs) := by
  obtain ⟨st, hrun⟩ := exists_run exists_step { replay := r, delivered := [] } as
  have heach : Each (step p s) (fun _ a => OneSession p s sid [a]) { replay := r, delivered := [] } as :=
    each_of_forall fun a hm st x hx => by
      cases List.mem_singleton.mp hx
      exact ha a hm
  have hi : st.replay.Represents sid st.delivered :=
    heach.invariant (represents_keeps p s sid) (Replay.represents_nil hr) hrun
  refine ⟨st, hrun, fun a pid payload hv => ?_, fun a e => decrypt_error, fun xs => unmarked_answers⟩
  exact (decrypt_ok_iff hv).trans hi.fresh_iff.symm

-- Of two packets the first one has come, and the second one comes after the first one came again.
theorem window_exact_resent :
    ∃ st, run (step .trivial client) { replay := .default, delivered := [] } [response serverA 1] = some st ∧
      (∀ (a : Arrival) pid payload, client.validate .trivial a.now a.packet = .ok (serverA, pid, payload) →
        ((client.decrypt .trivial a.now a.packet st.replay).1 = .ok payload ↔
          (serverA, pid) ∉ st.delivered ∧ ∀ d ∈ st.delivered, d.2 < pid + 64)) ∧
      (∀ (a : Arrival) e, (client.decrypt .trivial a.now a.packet st.replay).1 = .error e →
        (client.decrypt .trivial a.now a.packet st.replay).2 = st.replay) ∧
      ∀ xs : List (Bool × Arrival),
        (∀ x ∈ markedAnswers .trivial client st.replay xs, x.1 = true → ∃ e, x.2 = .error e) →
          unmarked (markedAnswers .trivial client st.replay xs) =
            answers .trivial client st.replay (unmarked xs) := by
  refine window_exact .trivial client serverA .default (by decide) _ fun a ha sid pid payload hv => ?_
  cases List.mem_singleton.mp ha
  exact congrArg Prod.fst (Except.ok.inj (hv.symm.trans (validate_response serverA (.inl rfl))))

end JammVpn.Ss2022Udp
