import JammVpn.Net.DnsMessage

-- Responses are read as they are written, and only go wrong by saying so.
namespace JammVpn.Dns

open Bytes Cursor Ip Text

section SkipName

-- What one turn does with a name that begins with a byte.
theorem skipTurn_cons (steps : Nat) (b : UInt8) (s : List UInt8) : skipTurn steps (b :: s) =
    if b = 0 then (.ok (.inr ()), s)
    else if b &&& 0xc0 = 0xc0 then
      if (b :: s).length < 2 then (.error (.error "dns: усечённый указатель"), b :: s)
      else (.ok (.inr ()), s.drop 1)
    else if b &&& 0xc0 ≠ 0 then (.error (.error "dns: неверный байт длины метки"), b :: s)
    else if 128 < steps + 1 then (.error (.error "dns: слишком длинное имя"), (b :: s).drop (1 + b.toNat))
    else (.ok (.inl (steps + 1)), (b :: s).drop (1 + b.toNat)) := by
  have hturn : skipTurn steps (b :: s) =
      (if b = 0 then do
        advance 1
        return .inr ()
      else if b &&& 0xc0 = 0xc0 then do
        if (← remaining) < 2 then fail "dns: усечённый указатель"
        else
          advance 2
          return .inr ()
      else if b &&& 0xc0 ≠ 0 then fail "dns: неверный байт длины метки"
      else do
        advance (1 + b.toNat)
        if 128 < steps + 1 then fail "dns: слишком длинное имя"
        else return .inl (steps + 1) : Reader (Nat ⊕ Unit)) (b :: s) := rfl
  rw [hturn]
  split
  case isTrue => rfl
  case isFalse =>
    split
    case isTrue =>
      show (if (b :: s).length < 2 then fail _ else _ : Reader (Nat ⊕ Unit)) (b :: s) = _
      split <;> rfl
    case isFalse =>
      split
      case isTrue => rfl
      case isFalse =>
        show (if 128 < steps + 1 then fail _ else _ : Reader (Nat ⊕ Unit)) ((b :: s).drop (1 + b.toNat)) = _
        split <;> rfl

-- A turn reports an error, ends the name, or is behind one more label.
inductive Turns (steps : Nat) : List UInt8 → Prop
  | error {s rest : List UInt8} (e : String) (h : skipTurn steps s = (.error (.error e), rest))
    (hl : rest.length ≤ s.length) : Turns steps s
  | root {s : List UInt8} (h : ∀ s, skipTurn steps (0 :: s) = (.ok (.inr ()), s)) : Turns steps (0 :: s)
  | pointer {b c : UInt8} {s : List UInt8} (h : ∀ c s, skipTurn steps (b :: c :: s) = (.ok (.inr ()), s)) :
    Turns steps (b :: c :: s)
  | label {b : UInt8} {s : List UInt8}
    (h : ∀ s, skipTurn steps (b :: s) = (.ok (.inl (steps + 1)), s.drop b.toNat)) : Turns steps (b :: s)

theorem turns (steps : Nat) (s : List UInt8) : Turns steps s := by
  cases s
  case nil => exact .error _ rfl (Nat.le_refl 0)
  case cons b s =>
    have hturn := skipTurn_cons steps b
    by_cases h0 : b = 0
    case pos =>
      subst h0
      exact .root fun s => by rw [hturn, if_pos rfl]
    case neg =>
      simp only [if_neg h0] at hturn
      by_cases hp : b &&& 0xc0 = 0xc0
      case pos =>
        simp only [if_pos hp] at hturn
        cases s
        case nil      => exact .error _ (hturn []) (Nat.le_refl 1)
        case cons c s =>
          refine .pointer fun c s => ?_
          rw [hturn, if_neg (by simp)]
          rfl
      case neg =>
        simp only [if_neg hp] at hturn
        by_cases hl : b &&& 0xc0 ≠ 0
        case pos =>
          simp only [if_pos hl] at hturn
          exact .error _ (hturn s) (Nat.le_refl _)
        case neg =>
          simp only [if_neg hl] at hturn
          by_cases hs : 128 < steps + 1
          case pos =>
            simp only [if_pos hs] at hturn
            exact .error _ (hturn s) (by simp)
          case neg =>
            refine .label fun s => ?_
            rw [hturn, if_neg hs, Nat.add_comm 1, List.drop_succ_cons]

theorem forward_skipTurn (steps : Nat) : Forward (skipTurn steps) := by
  intro s
  cases turns steps s
  case error e h hl  => rwa [h]
  case root s h =>
    rw [h]
    exact Nat.le_succ s.length
  case pointer c s h =>
    rw [h]
    exact Nat.le_add_right s.length 2
  case label s h =>
    rw [h, List.length_drop, List.length_cons]
    omega

theorem eats_skipTurn (steps : Nat) : Eats (skipTurn steps) := by
  intro s r rest hr
  cases turns steps s
  case error e h hl => cases h.symm.trans hr
  case root s h =>
    cases (h s).symm.trans hr
    exact Nat.lt_succ_self _
  case pointer c s h =>
    cases (h c s).symm.trans hr
    exact Nat.lt_add_of_pos_right Nat.two_pos
  case label s h =>
    cases (h s).symm.trans hr
    rw [List.length_cons, List.length_drop]
    exact Nat.lt_succ_of_le (Nat.sub_le _ _)

theorem sound_skipTurn (steps n : Nat) : Sound (skipTurn steps) n where
  forward := forward_skipTurn steps
  safe s hn f hf := by
    cases turns steps s
    case error e h hl =>
      rw [h] at hf
      cases hf
      exact ⟨e, rfl⟩
    case root h    => cases (congrArg Prod.fst (h _)).symm.trans hf
    case pointer h => cases (congrArg Prod.fst (h _ _)).symm.trans hf
    case label h   => cases (congrArg Prod.fst (h _)).symm.trans hf

theorem progresses_skipTurn : Progresses skipTurn :=
  progresses_of_eats eats_skipTurn

theorem sound_skipName (n : Nat) : Sound skipName n :=
  sound_iterate (fun x => sound_skipTurn x n) progresses_skipTurn 0

-- Where a name ends is written in the name. A label that is longer than what is there is followed by an error.
theorem settles_loop (k steps : Nat) {s rest : List UInt8} (h : loop skipTurn k steps s = (.ok (), rest)) :
    ∃ used, s = used ++ rest ∧ Reads (iterate skipTurn steps) used () := by
  induction k generalizing steps s
  case zero => cases h
  case succ k hi =>
    cases turns steps s
    case error e ht hl => cases (loop_error ht k).symm.trans h
    case root s ht =>
      cases (loop_inr (ht s) k).symm.trans h
      exact ⟨[0], rfl, fun more => iterate_inr (ht more)⟩
    case pointer b c s ht =>
      cases (loop_inr (ht c s) k).symm.trans h
      exact ⟨[b, c], rfl, fun more => iterate_inr (ht c more)⟩
    case label b s ht =>
      rw [loop_inl (ht s)] at h
      obtain ⟨used, hs, hu⟩ := hi (steps + 1) h
      have hlen : b.toNat ≤ s.length := by
        by_contra hlt
        rw [List.drop_of_length_le (by omega)] at h
        cases k <;> cases h
      refine ⟨b :: (s.take b.toNat ++ used), ?_, fun more => ?_⟩
      · rw [List.cons_append, List.append_assoc, ← hs, List.take_append_drop]
      · have hd : (s.take b.toNat ++ (used ++ more)).drop b.toNat = used ++ more := by
          rw [List.drop_append_of_le_length (by simp [hlen]), List.drop_of_length_le (by simp)]
          rfl
        rw [List.cons_append, List.append_assoc, iterate_inl progresses_skipTurn (ht _), hd]
        exact hu more

theorem settles_skipName : Settles skipName :=
  fun _ _ _ h => settles_loop _ 0 h

end SkipName

section Names

inductive NameEnd
  | root
  | pointer (offset : Fin 16384)

def NameEnd.bytes : NameEnd → List UInt8
  | root           => [0]
  | pointer offset => [.ofNat (0xc0 + offset / 256), .ofNat offset]

def labelBytes (label : List UInt8) : List UInt8 :=
  .ofNat label.length :: label

-- With dots between them the labels have at most 255 bytes.
structure Name where
  labels : List (List UInt8)
  ending : NameEnd
  label  : ∀ l ∈ labels, 1 ≤ l.length ∧ l.length ≤ 63
  size   : (labels.map List.length).sum + labels.length ≤ 256

def Name.bytes (n : Name) : List UInt8 :=
  n.labels.flatMap labelBytes ++ n.ending.bytes

theorem Name.length_labels_le (n : Name) : n.labels.length ≤ 128 := by
  have hle : ∀ ls : List (List UInt8), (∀ l ∈ ls, 1 ≤ l.length ∧ l.length ≤ 63) →
      ls.length ≤ (ls.map List.length).sum := by
    intro ls hls
    induction ls
    case nil => exact Nat.le_refl 0
    case cons l ls hi =>
      obtain ⟨hl, hls⟩ := List.forall_mem_cons.mp hls
      have := hi hls
      rw [List.length_cons, List.map_cons, List.sum_cons]
      omega
  have := hle n.labels n.label
  have := n.size
  omega

variable {rest : List UInt8}

theorem skipTurn_label {label : List UInt8} {steps : Nat} (h : 1 ≤ label.length ∧ label.length ≤ 63)
    (hs : steps < 128) : skipTurn steps (labelBytes label ++ rest) = (.ok (.inl (steps + 1)), rest) := by
  have hbyte : ∀ n < 64, UInt8.ofNat n &&& 0xc0 = 0 := by decide
  have hzero : ∀ n < 64, UInt8.ofNat n = 0 → n = 0 := by decide
  have h0 : ¬UInt8.ofNat label.length = 0 := fun he => by
    have := hzero label.length (by omega) he
    omega
  have hn : (UInt8.ofNat label.length).toNat = label.length := UInt8.toNat_ofNat_of_lt' (by
    show label.length < 256
    omega)
  rw [labelBytes, List.cons_append, skipTurn_cons, if_neg h0, hbyte label.length (by omega), if_neg (by decide),
    if_neg (by decide), if_neg (by omega), hn, Nat.add_comm 1, List.drop_succ_cons, List.drop_left]

theorem skipTurn_ending (ending : NameEnd) (steps : Nat) :
    skipTurn steps (ending.bytes ++ rest) = (.ok (.inr ()), rest) := by
  cases ending
  case root => rfl
  case pointer offset =>
    have hp : ∀ k < 64, UInt8.ofNat (0xc0 + k) &&& 0xc0 = 0xc0 := by decide
    have h0 : ∀ k < 64, ¬UInt8.ofNat (0xc0 + k) = 0 := by decide
    have hk : offset.val / 256 < 64 := by omega
    show skipTurn steps (_ :: _ :: rest) = _
    rw [skipTurn_cons, if_neg (h0 _ hk), if_pos (hp _ hk), if_neg (by simp)]
    rfl

theorem Name.reads (n : Name) : Reads skipName n.bytes () := by
  have hall : ∀ (ls : List (List UInt8)) (steps : Nat) (rest : List UInt8),
      (∀ l ∈ ls, 1 ≤ l.length ∧ l.length ≤ 63) → steps + ls.length ≤ 128 →
      iterate skipTurn steps (ls.flatMap labelBytes ++ (n.ending.bytes ++ rest)) = (.ok (), rest) := by
    intro ls
    induction ls
    case nil => exact fun steps rest _ _ => iterate_inr (skipTurn_ending n.ending steps)
    case cons l ls hi =>
      intro steps rest hls hs
      obtain ⟨hl, hls⟩ := List.forall_mem_cons.mp hls
      rw [List.length_cons] at hs
      rw [List.flatMap_cons, List.append_assoc, iterate_inl progresses_skipTurn (skipTurn_label hl (by omega))]
      exact hi (steps + 1) rest hls (by omega)
  intro rest
  rw [bytes, List.append_assoc]
  exact hall n.labels 0 rest n.label (by rw [Nat.zero_add]; exact n.length_labels_le)

end Names

section Records

variable {s rest : List UInt8}

-- The number in two bytes of a header.
def u16 (head : List UInt8) (i : Nat) : UInt16 :=
  .ofNat (ofBe ((head.drop i).take 2))

theorem u16At_append {head : List UInt8} {i : Nat} (h : i + 2 ≤ head.length) (rest : List UInt8) :
    u16At i (head ++ rest) = (.ok (u16 head i), head ++ rest) := by
  have hat : ∀ j (hj : j < head.length),
      (indexAt j : Reader UInt8) (head ++ rest) = (.ok head[j], head ++ rest) := by
    intro j hj
    rw [indexAt, List.getElem?_append_left hj, List.getElem?_eq_getElem hj]
  have htake : (head.drop i).take 2 = [head[i], head[i + 1]] := by
    rw [List.drop_eq_getElem_cons (by omega), List.drop_eq_getElem_cons (by omega)]
    rfl
  rw [u16At, bind_eq (hat i (by omega)), bind_eq (hat (i + 1) (by omega)), u16, htake]
  rfl

theorem remaining_eq (s : List UInt8) : (remaining : Reader Nat) s = (.ok s.length, s) :=
  rfl

-- The address in the data of a record.
def addressOf (rtype : UInt16) (data : List UInt8) : Option IpAddr :=
  if rtype = typeA ∧ data.length = 4 then some (.v4 (.ofNat 32 (ofBe data)))
  else if rtype = typeAAAA ∧ data.length = 16 then some (.v6 (.ofNat 128 (ofBe data)))
  else none

theorem reads_data (rtype : UInt16) (data : List UInt8) :
    Reads (readData rtype data.length) data (addressOf rtype data) := by
  have hslice : ∀ rest, (slice data.length : Reader (List UInt8)) (data ++ rest) = (.ok data, data ++ rest) := by
    intro rest
    rw [slice, if_pos (by simp), List.take_left]
  have haddr : ∀ rest,
      readAddress rtype data.length (data ++ rest) = (.ok (addressOf rtype data), data ++ rest) := by
    intro rest
    rw [readAddress, addressOf]
    split
    case isTrue h => rw [← h.2, bind_eq (hslice rest)]; rfl
    case isFalse =>
      split
      case isTrue h => rw [← h.2, bind_eq (hslice rest)]; rfl
      case isFalse  => rfl
  intro rest
  rw [readData, bind_eq (remaining_eq _), if_neg (by simp), bind_eq (haddr rest)]
  show (Except.ok _, (data ++ rest).drop data.length) = _
  rw [List.drop_left]

theorem readData_short {rtype : UInt16} {n : Nat} (h : s.length < n) :
    readData rtype n s = (.error (.error "dns: усечённая RDATA"), s) := by
  rw [readData, bind_eq (remaining_eq s), if_pos h]
  rfl

theorem readRecord_append {head : List UInt8} (h : head.length = 10) (rest : List UInt8) :
    readRecord (head ++ rest) = readData (u16 head 0) (u16 head 8).toNat rest := by
  have hlen : ¬(head ++ rest).length < 10 := by rw [List.length_append]; omega
  rw [readRecord, bind_eq (remaining_eq _), if_neg hlen, bind_eq (u16At_append (by omega) rest),
    bind_eq (u16At_append (by omega) rest)]
  show readData _ _ ((head ++ rest).drop 10) = _
  rw [← h, List.drop_left]

theorem readRecord_short (h : s.length < 10) : readRecord s = (.error (.error "dns: усечённая RR"), s) := by
  rw [readRecord, bind_eq (remaining_eq s), if_pos h]
  rfl

-- What is in front of the rest is missing, or can be taken off.
theorem short_or_append (n : Nat) (s : List UInt8) :
    s.length < n ∨ ∃ front rest, front.length = n ∧ s = front ++ rest := by
  by_cases h : s.length < n
  case pos => exact .inl h
  case neg =>
    have hl := List.length_take_of_le (Nat.le_of_not_lt h)
    exact .inr ⟨s.take n, s.drop n, hl, (List.take_append_drop n s).symm⟩

theorem sound_readData (rtype : UInt16) (len n : Nat) : Sound (readData rtype len) n where
  forward s := by
    obtain h | ⟨data, rest, rfl, rfl⟩ := short_or_append len s
    case inl => rw [readData_short h]
    case inr =>
      rw [reads_data rtype data rest, List.length_append]
      exact Nat.le_add_left _ _
  safe s _ f hf := by
    obtain h | ⟨data, rest, rfl, rfl⟩ := short_or_append len s
    case inl =>
      rw [readData_short h] at hf
      cases hf
      exact ⟨_, rfl⟩
    case inr =>
      rw [reads_data rtype data rest] at hf
      cases hf

theorem sound_readRecord (n : Nat) : Sound readRecord n where
  forward s := by
    obtain h | ⟨head, rest, hl, rfl⟩ := short_or_append 10 s
    case inl => rw [readRecord_short h]
    case inr =>
      rw [readRecord_append hl, List.length_append]
      exact Nat.le_trans ((sound_readData _ _ n).forward rest) (Nat.le_add_left _ _)
  safe s hs f hf := by
    obtain h | ⟨head, rest, hl, rfl⟩ := short_or_append 10 s
    case inl =>
      rw [readRecord_short h] at hf
      cases hf
      exact ⟨_, rfl⟩
    case inr =>
      rw [readRecord_append hl] at hf
      rw [List.length_append] at hs
      exact (sound_readData _ _ n).safe rest (by omega) f hf

theorem sound_readAnswer (n : Nat) : Sound readAnswer n :=
  (sound_skipName n).bind fun _ => sound_readRecord n

theorem sound_skipQuestion (n : Nat) : Sound skipQuestion n :=
  (sound_skipName n).bind fun _ => sound_advance 4

theorem settles_readRecord : Settles readRecord := by
  intro s a rest h
  obtain hs | ⟨head, s, hl, rfl⟩ := short_or_append 10 s
  case inl => cases (readRecord_short hs).symm.trans h
  case inr =>
    rw [readRecord_append hl] at h
    obtain hd | ⟨data, s, hd, rfl⟩ := short_or_append (u16 head 8).toNat s
    case inl => cases (readData_short hd).symm.trans h
    case inr =>
      rw [← hd, reads_data _ data s] at h
      cases h
      refine ⟨head ++ data, (List.append_assoc ..).symm, fun more => ?_⟩
      rw [List.append_assoc, readRecord_append hl, ← hd, reads_data _ data more]

theorem settles_readAnswer : Settles readAnswer :=
  settles_skipName.bind fun _ => settles_readRecord

structure Question where
  name   : Name
  qtype  : UInt16
  qclass : UInt16

def Question.bytes (q : Question) : List UInt8 :=
  q.name.bytes ++ (toBe 2 q.qtype.toNat ++ toBe 2 q.qclass.toNat)

structure Record where
  name   : Name
  rtype  : UInt16
  rclass : UInt16
  ttl    : UInt32
  data   : List UInt8
  fits   : data.length < 65536

def Record.header (r : Record) : List UInt8 :=
  toBe 2 r.rtype.toNat ++ toBe 2 r.rclass.toNat ++ toBe 4 r.ttl.toNat ++ toBe 2 r.data.length

def Record.bytes (r : Record) : List UInt8 :=
  r.name.bytes ++ (r.header ++ r.data)

def Record.address (r : Record) : Option IpAddr :=
  addressOf r.rtype r.data

theorem Question.reads (q : Question) : Reads skipQuestion q.bytes () := by
  refine q.name.reads.bind fun rest => ?_
  show (Except.ok (), (toBe 2 q.qtype.toNat ++ toBe 2 q.qclass.toNat ++ rest).drop 4) = _
  rw [List.drop_left' (by simp)]

theorem ofNat_ofBe_toBe (v : UInt16) : UInt16.ofNat (ofBe (toBe 2 v.toNat)) = v := by
  rw [ofBe_toBe_of_lt v.toNat_lt, UInt16.ofNat_toNat]

-- A number in a header, behind what is in front of it.
theorem u16_append {front : List UInt8} {i : Nat} (h : front.length = i) (v : UInt16) (rest : List UInt8) :
    u16 (front ++ (toBe 2 v.toNat ++ rest)) i = v := by
  rw [u16, ← h, List.drop_left, List.take_left' (length_toBe 2 _), ofNat_ofBe_toBe]

-- Numbers one after the other.
def words (vs : List UInt16) : List UInt8 :=
  vs.flatMap fun v => toBe 2 v.toNat

theorem u16_words {vs : List UInt16} {i : Nat} {v : UInt16} (h : vs[i]? = some v) :
    u16 (words vs) (2 * i) = v := by
  have hlen : ∀ us : List UInt16, (words us).length = 2 * us.length := by
    intro us
    induction us
    case nil          => rfl
    case cons u us hi =>
      rw [words, List.flatMap_cons, List.length_append, ← words, hi, length_toBe, List.length_cons]
      omega
  obtain ⟨hi, hv⟩ := List.getElem?_eq_some_iff.mp h
  have hvs : vs = vs.take i ++ v :: vs.drop (i + 1) := by
    rw [← hv, ← List.drop_eq_getElem_cons hi, List.take_append_drop]
  have hsplit : words vs = words (vs.take i) ++ (toBe 2 v.toNat ++ words (vs.drop (i + 1))) := by
    have hflat := congrArg words hvs
    rwa [words, words, List.flatMap_append, List.flatMap_cons] at hflat
  rw [hsplit]
  exact u16_append (by rw [hlen, List.length_take_of_le hi.le]) v _

theorem Record.reads (r : Record) : Reads readAnswer r.bytes r.address := by
  refine r.name.reads.bind fun rest => ?_
  have hlen : (UInt16.ofNat r.data.length).toNat = r.data.length := UInt16.toNat_ofNat_of_lt' r.fits
  have htype : u16 r.header 0 = r.rtype := by
    have h := @u16_append [] 0 rfl r.rtype (toBe 2 r.rclass.toNat ++ (toBe 4 r.ttl.toNat ++ toBe 2 r.data.length))
    rwa [List.nil_append, ← List.append_assoc, ← List.append_assoc] at h
  have hdata : (u16 r.header 8).toNat = r.data.length := by
    have hfront : (toBe 2 r.rtype.toNat ++ toBe 2 r.rclass.toNat ++ toBe 4 r.ttl.toNat).length = 8 := by simp
    have h := u16_append hfront (.ofNat r.data.length) []
    rw [hlen, List.append_nil] at h
    rw [header, h, hlen]
  rw [List.append_assoc, readRecord_append (by simp [header]), htype, hdata]
  exact reads_data r.rtype r.data rest

end Records

section Responses

-- A response that reports no error. What follows the answers is of no interest.
structure Response where
  id          : UInt16
  flags       : UInt16
  noError     : flags &&& 0x000f = 0
  questions   : List Question
  answers     : List Record
  authorities : UInt16
  additionals : UInt16
  rest        : List UInt8
  qdcount     : questions.length < 65536
  ancount     : answers.length < 65536

namespace Response

variable (r : Response)

def header : List UInt8 :=
  words [r.id, r.flags, .ofNat r.questions.length, .ofNat r.answers.length, r.authorities, r.additionals]

-- What is in front of the answers.
def front : List UInt8 :=
  r.header ++ r.questions.flatMap Question.bytes

def answerBytes : List UInt8 :=
  r.answers.flatMap Record.bytes

def bytes : List UInt8 :=
  r.front ++ r.answerBytes ++ r.rest

def addresses : List IpAddr :=
  r.answers.filterMap Record.address

end Response

variable {expectId : Option UInt16} {head : List UInt8}

-- What is made of the sections once the header is read.
theorem readResponse_append (h : head.length = 12) (rest : List UInt8) :
    readResponse expectId (head ++ rest) =
      if expectId.any (u16 head 0 ≠ ·) then (.error (.error "dns: ID ответа не совпал"), head ++ rest)
      else if u16 head 2 &&& 0x000f ≠ 0 then
        (.error (.error ("dns: RCODE " ++ .ofList (decimal (u16 head 2 &&& 0x000f).toNat))), head ++ rest)
      else readSections (u16 head 4).toNat (u16 head 6).toNat rest := by
  have hlen : ¬(head ++ rest).length < 12 := by rw [List.length_append]; omega
  rw [readResponse, bind_eq (remaining_eq _), if_neg hlen, bind_eq (u16At_append (by omega) rest)]
  split
  case isTrue => rfl
  case isFalse =>
    rw [bind_eq (u16At_append (by omega) rest)]
    show (if u16 head 2 &&& 0x000f ≠ 0 then fail _ else _ : Reader (List IpAddr)) (head ++ rest) = _
    split
    case isTrue => rfl
    case isFalse =>
      rw [bind_eq (u16At_append (by omega) rest), bind_eq (u16At_append (by omega) rest)]
      show readSections _ _ ((head ++ rest).drop 12) = _
      rw [← h, List.drop_left]

theorem readResponse_short {s : List UInt8} (h : s.length < 12) :
    readResponse expectId s = (.error (.error "dns: ответ короче заголовка"), s) := by
  rw [readResponse, bind_eq (remaining_eq s), if_pos h]
  rfl

theorem sound_readSections (qdcount ancount n : Nat) : Sound (readSections qdcount ancount) n :=
  (sound_replicate (sound_skipQuestion n) qdcount).bind fun _ =>
    (sound_replicate (sound_readAnswer n) ancount).bind fun _ => sound_pure _

-- Whatever the bytes are, the decoder comes to an end and stays inside of them.
theorem exists_of_decode_error {buf : List UInt8} {f : Fault String} (h : decodeResponse buf expectId = .error f) :
    ∃ e, f = .error e := by
  rw [decodeResponse] at h
  obtain hs | ⟨head, rest, hl, rfl⟩ := short_or_append 12 buf
  case inl =>
    rw [readResponse_short hs] at h
    cases h
    exact ⟨_, rfl⟩
  case inr =>
    rw [readResponse_append hl] at h
    split at h
    case isTrue =>
      cases h
      exact ⟨_, rfl⟩
    case isFalse =>
      split at h
      case isTrue =>
        cases h
        exact ⟨_, rfl⟩
      case isFalse => exact (sound_readSections _ _ (rest.length + 1)).safe rest (Nat.lt_succ_self _) f h

namespace Response

variable (r : Response)

-- A response with an id that is awaited is decoded section by section.
theorem readResponse_eq (h : ∀ id ∈ expectId, id = r.id) (s : List UInt8) :
    readResponse expectId (r.front ++ s) =
      (replicate readAnswer r.answers.length >>= fun ips => pure (ips.flatMap Option.toList)) s := by
  have hn (n : Nat) (hlt : n < 65536) : (UInt16.ofNat n).toNat = n := UInt16.toNat_ofNat_of_lt' hlt
  have hid : u16 r.header 0 = r.id := @u16_words _ 0 _ rfl
  have hflags : u16 r.header 2 = r.flags := @u16_words _ 1 _ rfl
  have hqd : (u16 r.header 4).toNat = r.questions.length :=
    (congrArg UInt16.toNat (@u16_words _ 2 _ rfl)).trans (hn _ r.qdcount)
  have han : (u16 r.header 6).toNat = r.answers.length :=
    (congrArg UInt16.toNat (@u16_words _ 3 _ rfl)).trans (hn _ r.ancount)
  have hany : ¬expectId.any (u16 r.header 0 ≠ ·) = true := by
    rw [hid]
    cases expectId
    case none    => simp
    case some id => simp [h id rfl]
  have hquestions : Reads (replicate skipQuestion r.questions.length) (r.questions.flatMap Question.bytes)
      (r.questions.map fun _ => ()) := reads_replicate fun q _ => q.reads
  rw [front, List.append_assoc, readResponse_append (by simp [header, words]), if_neg hany, hflags,
    if_neg (not_not.mpr r.noError), hqd, han, readSections, bind_eq (hquestions s)]

theorem reads_answers :
    Reads (replicate readAnswer r.answers.length) r.answerBytes (r.answers.map Record.address) :=
  reads_replicate fun a _ => a.reads

theorem decode_bytes (h : ∀ id ∈ expectId, id = r.id) : decodeResponse r.bytes expectId = .ok r.addresses := by
  rw [decodeResponse, bytes, List.append_assoc, r.readResponse_eq h, bind_eq (r.reads_answers r.rest)]
  show Except.ok _ = _
  rw [addresses, List.flatMap_map, ← List.filterMap_eq_flatMap_toList]

-- A part of the answers is not enough.
theorem decode_truncated (h : ∀ id ∈ expectId, id = r.id) {k : Nat} (hk : r.front.length ≤ k)
    (hlt : k < (r.front ++ r.answerBytes).length) : ∃ e, decodeResponse (r.bytes.take k) expectId = .error e := by
  obtain ⟨j, rfl⟩ := Nat.exists_eq_add_of_le hk
  rw [List.length_append] at hlt
  have hj : j < r.answerBytes.length := by omega
  have htake : r.bytes.take (r.front.length + j) = r.front ++ r.answerBytes.take j := by
    rw [bytes, List.append_assoc, List.take_length_add_append, List.take_append_of_le_length hj.le]
  have hne : r.answerBytes.take j ≠ r.answerBytes := fun he => by
    have := congrArg List.length he
    rw [List.length_take] at this
    omega
  have hsettles : Settles (replicate readAnswer r.answers.length) := settles_replicate settles_readAnswer _
  obtain ⟨e, he⟩ := hsettles.error_of_front r.reads_answers (List.take_prefix j _) hne
  refine ⟨e, ?_⟩
  rw [decodeResponse, htake, r.readResponse_eq h, bind_eq_error (Prod.ext he rfl)]

end Response

end Responses

section Queries

theorem length_encode_dot : (Utf8.encode ['.']).length = 1 := by
  decide

-- The pieces between the dots, with a dot behind each, are one byte longer than the whole.
theorem sum_split (s : List Char) :
    ((split '.' s).map fun piece => (Utf8.encode piece).length + 1).sum = (Utf8.encode s).length + 1 := by
  have hcons : ∀ (c : Char) (s : List Char), (Utf8.encode (c :: s)).length =
      (Utf8.encode [c]).length + (Utf8.encode s).length := by
    intro c s
    rw [← List.singleton_append, Utf8.encode_append, List.length_append]
  induction s
  case nil => rfl
  case cons c s hi =>
    rw [split, hcons]
    split
    case isTrue hc =>
      rw [List.map_cons, List.sum_cons, hi, hc, length_encode_dot]
      show 0 + 1 + ((Utf8.encode s).length + 1) = _
      omega
    case isFalse =>
      split
      case h_1 hs => rw [hs] at hi; simp at hi
      case h_2 piece pieces hs =>
        rw [hs, List.map_cons, List.sum_cons] at hi
        rw [List.map_cons, List.sum_cons, hcons]
        omega

theorem encodeLabels_eq_ok {pieces : List (List Char)} {bs : List UInt8} (h : encodeLabels pieces = .ok bs) :
    ∃ labels : List (List UInt8), bs = labels.flatMap labelBytes ∧ (∀ l ∈ labels, 1 ≤ l.length ∧ l.length ≤ 63) ∧
      (labels.map List.length).sum + labels.length ≤
        (pieces.map fun piece => (Utf8.encode piece).length + 1).sum := by
  induction pieces generalizing bs
  case nil =>
    cases h
    exact ⟨[], rfl, List.forall_mem_nil _, Nat.le_refl 0⟩
  case cons piece pieces hi =>
    rw [encodeLabels] at h
    rw [List.map_cons, List.sum_cons]
    split at h
    case isTrue =>
      obtain ⟨labels, hbs, hl, hs⟩ := hi h
      exact ⟨labels, hbs, hl, by omega⟩
    case isFalse hne =>
      split at h
      case isTrue => cases h
      case isFalse hlen =>
        cases hr : encodeLabels pieces <;> rw [hr] at h
        case error => cases h
        case ok rest =>
          cases h
          obtain ⟨labels, hbs, hl, hs⟩ := hi hr
          refine ⟨Utf8.encode piece :: labels, by rw [hbs]; rfl, List.forall_mem_cons.mpr ⟨⟨?_, by omega⟩, hl⟩, ?_⟩
          · cases piece
            case nil       => exact absurd rfl hne
            case cons c cs =>
              have := Utf8.length_encodeChar_pos c
              rw [Utf8.encode_cons, List.length_append]
              omega
          · rw [List.map_cons, List.sum_cons, List.length_cons]
            omega

theorem encodeQuery_eq_ok {id qtype : UInt16} {name : String} {b : List UInt8}
    (h : encodeQuery id name qtype = .ok b) (hn : (Utf8.encode name.toList).length ≤ 255) :
    ∃ n : Name, b = toBe 2 id.toNat ++ toBe 2 0x0100 ++ toBe 2 1 ++ [0, 0, 0, 0, 0, 0] ++
      (n.bytes ++ (toBe 2 qtype.toNat ++ toBe 2 classIn.toNat)) := by
  rw [encodeQuery] at h
  cases hl : encodeLabels (split '.' (trimEndMatches '.' name.toList)) <;> rw [hl] at h
  case error => cases h
  case ok bs =>
    obtain ⟨labels, rfl, hlabels, hs⟩ := encodeLabels_eq_ok hl
    have hpre : trimEndMatches '.' name.toList <+: name.toList := by
      have := List.reverse_prefix.mpr (List.dropWhile_suffix (l := name.toList.reverse) (· == '.'))
      rwa [List.reverse_reverse] at this
    obtain ⟨dots, hd⟩ := hpre
    have hle : (Utf8.encode (trimEndMatches '.' name.toList)).length ≤ (Utf8.encode name.toList).length := by
      rw [← congrArg Utf8.encode hd, Utf8.encode_append, List.length_append]
      exact Nat.le_add_right _ _
    rw [sum_split] at hs
    cases h
    refine ⟨⟨labels, .root, hlabels, by omega⟩, ?_⟩
    simp only [Name.bytes, NameEnd.bytes, List.append_assoc]

-- The question of a query is skipped to the four bytes behind its name.
theorem skipName_encodeQuery {id qtype : UInt16} {name : String} {b : List UInt8}
    (h : encodeQuery id name qtype = .ok b) (hn : (Utf8.encode name.toList).length ≤ 255) :
    ∃ rest, skipName (b.drop 12) = (.ok (), rest) ∧ rest.length = 4 := by
  obtain ⟨n, rfl⟩ := encodeQuery_eq_ok h hn
  refine ⟨toBe 2 qtype.toNat ++ toBe 2 classIn.toNat, ?_, by simp⟩
  rw [List.drop_left' (by simp)]
  exact n.reads _

end Queries

theorem dns_messages (buf : List UInt8) (expectId : Option UInt16) :
    (∀ f, decodeResponse buf expectId = .error f → ∃ e, f = .error e) ∧
    (∀ r : Response, (∀ id ∈ expectId, id = r.id) → decodeResponse r.bytes expectId = .ok r.addresses ∧
      ∀ k, r.front.length ≤ k → k < (r.front ++ r.answerBytes).length →
        ∃ e, decodeResponse (r.bytes.take k) expectId = .error (.error e)) ∧
    ∀ id name qtype b, encodeQuery id name qtype = .ok b → (Utf8.encode name.toList).length ≤ 255 →
      ∃ rest, skipName (b.drop 12) = (.ok (), rest) ∧ rest.length = 4 := by
  refine ⟨fun f h => exists_of_decode_error h, fun r h => ⟨r.decode_bytes h, fun k hk hlt => ?_⟩,
    fun id name qtype b h hn => skipName_encodeQuery h hn⟩
  obtain ⟨f, hf⟩ := r.decode_truncated h hk hlt
  obtain ⟨e, rfl⟩ := exists_of_decode_error hf
  exact ⟨e, hf⟩

def shortName : Name where
  labels := [[0x78]]
  ending := .root
  label := List.forall_mem_cons.mpr ⟨by decide, List.forall_mem_nil _⟩
  size := by decide

-- The names of the answers are a pointer to the name of the question.
def questionName : Name where
  labels := []
  ending := .pointer 12
  label := List.forall_mem_nil _
  size := by decide

def twoAnswers : Response where
  id := 0xabcd
  flags := 0x8180
  noError := by decide
  questions := [⟨shortName, typeA, classIn⟩]
  answers := [⟨questionName, 5, classIn, 300, [1, 2, 3], by decide⟩,
    ⟨questionName, typeA, classIn, 300, [93, 184, 216, 34], by decide⟩]
  authorities := 0
  additionals := 0
  rest := [7]
  qdcount := by decide
  ancount := by decide

theorem dns_messages_twoAnswers :
    decodeResponse twoAnswers.bytes (some 0xabcd) = .ok [.v4 0x5db8d822] ∧
    (∃ e, decodeResponse (twoAnswers.bytes.take 30) (some 0xabcd) = .error (.error e)) ∧
    ∃ b rest, encodeQuery 1 "a.b." typeA = .ok b ∧ skipName (b.drop 12) = (.ok (), rest) := by
  have hid : ∀ id ∈ some (0xabcd : UInt16), id = twoAnswers.id := fun id h => (Option.mem_some.mp h).symm
  have ⟨hd, ht⟩ := (dns_messages [] (some 0xabcd)).2.1 twoAnswers hid
  obtain ⟨rest, hs, -⟩ := (dns_messages [] none).2.2 1 "a.b." typeA _ rfl (by decide)
  exact ⟨hd, ht 30 (by decide) (by decide), _, rest, rfl, hs⟩

end JammVpn.Dns
