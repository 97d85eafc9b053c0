import JammVpn.Net.Theorems.VisionRead

namespace JammVpn.Vision

open PollIo VisionUnpadder

-- In whatever pieces the stream comes, the same is delivered before its end.
def SplitIndependent (uuid all : List UInt8) : Prop :=
  ∀ rs caps r rs' caps' r', Machine.run (ReadRun.step uuid) (.start rs all) caps = some r →
    Machine.run (ReadRun.step uuid) (.start rs' all) caps' = some r' → r.Ended uuid → r'.delivered <+: r.delivered

-- The blocks begin behind the id, in a piece that begins with all of it.
def Opens (uuid p : List UInt8) : Prop :=
  16 ≤ p.length ∧ p.take 16 = uuid

instance : DecidablePred (Opens uuid) :=
  fun p => inferInstanceAs (Decidable (16 ≤ p.length ∧ p.take 16 = uuid))

-- The pieces before the blocks, without those that are too short.
def loose (uuid : List UInt8) : List (List UInt8) → List UInt8
  | []      => []
  | p :: ps => if Opens uuid p then [] else (if 16 ≤ p.length then p else []) ++ loose uuid ps

def blocks (uuid : List UInt8) : List (List UInt8) → List (List UInt8)
  | []      => []
  | p :: ps => if Opens uuid p then p.drop 16 :: ps else blocks uuid ps

-- The content of blocks, in the pieces before the first one with an unknown command.
def contents (u : VisionUnpadder) : List (List UInt8) → List UInt8
  | []      => []
  | p :: ps =>
    match u.feed p with
    | .error _   => []
    | .ok (c, u) => c ++ contents u ps

-- Two ways to cut a body leave the same of it.
def Alike (uuid : List UInt8) (ps ps' : List (List UInt8)) : Prop :=
  loose uuid ps ++ contents ⟨.readingCommand, true⟩ (blocks uuid ps) =
    loose uuid ps' ++ contents ⟨.readingCommand, true⟩ (blocks uuid ps')

section

variable {uuid : List UInt8} {ps : List (List UInt8)} {u u' : VisionUnpadder} {c : List UInt8}

-- Too little of the user's id is dropped.
theorem unpad_short (h : piece.length < 16) :
    new.unpad uuid piece = (.ok { content := [], command := none }, .new) := by
  show VisionUnpadder.unpadLoop uuid true .initial [] piece = _
  rw [VisionUnpadder.unpadLoop, if_pos h]
  rfl

-- A piece that does not begin with the user's id is handed on as it is.
theorem unpad_other {piece : List UInt8} (hl : 16 ≤ piece.length) (h : piece.take 16 ≠ uuid) :
    VisionUnpadder.new.unpad uuid piece = (.ok { content := piece, command := none }, .new) := by
  show VisionUnpadder.unpadLoop uuid true .initial [] piece = _
  rw [VisionUnpadder.unpadLoop, if_neg (Nat.not_lt_of_le hl), if_pos h]
  rfl

theorem not_ends_none : ¬Ends none := by
  rintro (h | h) <;> cases h

theorem loose_short {p : List UInt8} (h : p.length < 16) : loose uuid (p :: ps) = loose uuid ps := by
  rw [loose, if_neg fun ho => Nat.not_le_of_lt h ho.1, if_neg (Nat.not_le_of_lt h), List.nil_append]

theorem blocks_cons {p : List UInt8} (h : ¬Opens uuid p) : blocks uuid (p :: ps) = blocks uuid ps :=
  if_neg h

theorem contents_ok {p : List UInt8} (h : u.feed p = .ok (c, u')) : contents u (p :: ps) = c ++ contents u' ps := by
  rw [contents, h]

theorem contents_done (h : u.state = .done) : contents u ps = ps.flatten := by
  induction ps
  case nil => rfl
  case cons p ps hi => rw [contents_ok (feed_done h), hi, List.flatten_cons]

-- Blocks without an unknown command have the same content in all pieces.
theorem contents_of_feed (h : u.feed ps.flatten = .ok (c, u')) : contents u ps = c := by
  induction ps generalizing u c
  case nil =>
    cases h
    rfl
  case cons p ps hi =>
    rw [List.flatten_cons] at h
    cases hp : u.feed p
    case error e => cases (feed_append_error hp).symm.trans h
    case ok r =>
      rw [feed_append hp] at h
      cases hr : r.2.feed ps.flatten
      case error =>
        rw [hr] at h
        cases h
      case ok r' =>
        rw [hr] at h
        cases h
        rw [contents_ok hp, hi hr]

theorem shown_piece {p : List UInt8} {q : Except IoError UnpadResult × VisionUnpadder} (hne : p ≠ [])
    (hq : u.unpad uuid p = q) {u₀ : VisionUnpadder} {data : List UInt8} (hrun : u₀.Running)
    (hu : Unpads [] q (u₀.feed data)) (hps : ∀ u : VisionUnpadder, u.Running → shown uuid u ps = contents u ps) :
    shown uuid u (p :: ps) = contents u₀ (data :: ps) := by
  cases hf : u₀.feed data
  case error e =>
    rw [hf] at hu
    rw [shown_error hne (hq.trans (Prod.ext hu rfl)), contents, hf]
  case ok r =>
    rw [hf] at hu
    have ⟨command, he, hends⟩ := hu
    have hun := hq.trans he
    by_cases hc : Ends command
    case pos => rw [shown_last hne hun hc, contents_ok hf, contents_done (hends.mp hc), List.nil_append]
    case neg =>
      have hrun' := (feed_running hrun hf).resolve_left fun hd => hc (hends.mpr hd)
      rw [shown_cons hne hun hc, contents_ok hf, hps _ hrun', List.nil_append]

theorem shown_running (hu : u.Running) : shown uuid u ps = contents u ps := by
  induction ps generalizing u
  case nil => rfl
  case cons p ps hi =>
    by_cases hp : p = []
    case pos =>
      subst hp
      rw [shown_nil, hi hu]
      rfl
    case neg => exact shown_piece hp rfl hu (unpads_unpad hu) fun u => hi

-- The unpadder drops the pieces that are too short, and looks for the id in each of the others.
theorem shown_new (huuid : uuid.length = 16) (ps : List (List UInt8)) :
    shown uuid .new ps = loose uuid ps ++ contents ⟨.readingCommand, true⟩ (blocks uuid ps) := by
  induction ps
  case nil => rfl
  case cons p ps hi =>
    by_cases hp : p = []
    case pos =>
      subst hp
      rw [shown_nil, hi, loose_short (by decide), blocks_cons fun h => absurd h.1 (by decide)]
    case neg =>
      by_cases ho : Opens uuid p
      case pos =>
        have heq : p = uuid ++ p.drop 16 := by
          rw [← ho.2, List.take_append_drop]
        rw [loose, if_pos ho, blocks, if_pos ho, List.nil_append]
        refine shown_piece hp rfl trivial ?_ fun u hu => shown_running hu
        have hq := @unpads_new uuid (p.drop 16) huuid
        rwa [← heq] at hq
      case neg =>
        rw [blocks_cons ho]
        by_cases hl : p.length < 16
        case pos => rw [shown_cons hp (unpad_short hl) not_ends_none, hi, loose_short hl, List.nil_append]
        case neg =>
          have hle := Nat.le_of_not_lt hl
          rw [shown_cons hp (unpad_other hle fun h => ho ⟨hle, h⟩) not_ends_none, hi, loose, if_neg ho, if_pos hle,
            List.append_assoc]

end

-- The bytes are all the same, and none of them can be content.
inductive Still (c : UInt8) : UnpadState → Nat → Prop
  | command {m} : (c = 0 ∨ 2 < c ∨ m ≤ 5) → Still c .readingCommand m
  | contentFirst {k m} : UnpadCommand.tryFrom c = .ok k → (c = 0 ∨ m ≤ 4) → Still c (.readingContentLength k none) m
  | contentLast {k m} : UnpadCommand.tryFrom c = .ok k → (c = 0 ∨ m ≤ 3) →
      Still c (.readingContentLength k (some c)) m
  | paddingFirst {k m} : UnpadCommand.tryFrom c = .ok k → (c = 0 ∨ m ≤ 2) →
      Still c (.readingPaddingLength k (c.toNat * 256 + c.toNat) none) m
  | paddingLast {k m} : UnpadCommand.tryFrom c = .ok k → (c = 0 ∨ m ≤ 1) →
      Still c (.readingPaddingLength k (c.toNat * 256 + c.toNat) (some c)) m
  | spent {state} : state ≠ .done → Still c state 0

section

variable {c : UInt8} {u u' : VisionUnpadder} {m : Nat} {out : List UInt8}

theorem UnpadCommand.not_lt_of_tryFrom {k : UnpadCommand} (h : UnpadCommand.tryFrom c = .ok k) : ¬2 < c := by
  intro hlt
  have hne {n : UInt8} (hn : ¬2 < n) : c ≠ n := fun h => hn (h ▸ hlt)
  rw [UnpadCommand.tryFrom, if_neg (hne (by decide)), if_neg (hne (by decide)), if_neg (hne (by decide))] at h
  cases h

theorem Still.eat (h : Still c u.state (m + 1)) (hu : u.eat c = .ok (out, u')) : out = [] ∧ Still c u'.state m := by
  rcases u with ⟨state, first⟩
  dsimp only at h
  generalize hn : m + 1 = n at h
  cases h
  case command hc =>
    cases hk : UnpadCommand.tryFrom c
    case error => simp [VisionUnpadder.eat, hk, Except.map] at hu
    case ok k =>
      simp only [VisionUnpadder.eat, hk, Except.map] at hu
      cases hu
      refine ⟨rfl, .contentFirst hk ?_⟩
      obtain hz | hlt | hm := hc
      case inl       => exact .inl hz
      case inr.inl   => exact absurd hlt (UnpadCommand.not_lt_of_tryFrom hk)
      case inr.inr   => exact .inr (by omega)
  case contentFirst hk hm =>
    cases hu
    exact ⟨rfl, .contentLast hk (hm.imp_right fun h => by omega)⟩
  case contentLast hk hm =>
    cases hu
    exact ⟨rfl, .paddingFirst hk (hm.imp_right fun h => by omega)⟩
  case paddingFirst hk hm =>
    cases hu
    exact ⟨rfl, .paddingLast hk (hm.imp_right fun h => by omega)⟩
  case paddingLast k hk hm =>
    cases hu
    refine ⟨rfl, ?_⟩
    by_cases hz : c = 0
    case pos =>
      subst hz
      cases hk
      exact .command (.inl rfl)
    case neg =>
      have hpos : 0 < c.toNat * 256 + c.toNat := Nat.add_pos_right _ <| Nat.pos_of_ne_zero fun h =>
        hz (UInt8.toNat_inj.mp h)
      have hm := hm.resolve_left hz
      cases Nat.eq_zero_of_le_zero (Nat.le_of_succ_le_succ (hn ▸ hm))
      refine .spent ?_
      rw [settle, if_pos hpos]
      exact UnpadState.noConfusion
  case spent => cases hn

theorem Still.feed {n : Nat} (h : Still c u.state (n + m)) (hu : u.feed (List.replicate n c) = .ok (out, u')) :
    out = [] ∧ Still c u'.state m := by
  induction n generalizing u out
  case zero =>
    cases hu
    exact ⟨rfl, Nat.zero_add m ▸ h⟩
  case succ n hi =>
    rw [Nat.succ_add] at h
    rw [List.replicate_succ] at hu
    cases he : u.eat c
    case error =>
      rw [VisionUnpadder.feed, he] at hu
      cases hu
    case ok r =>
      rw [feed_cons he] at hu
      obtain ⟨hout, hs⟩ := h.eat he
      cases hr : r.2.feed (List.replicate n c)
      case error =>
        rw [hr] at hu
        cases hu
      case ok r' =>
        rw [hr] at hu
        cases hu
        obtain ⟨hout', hs'⟩ := hi hs hr
        exact ⟨by rw [hout, hout', List.append_nil], hs'⟩

theorem Still.contents {ps : List (List UInt8)} (h : Still c u.state ps.flatten.length)
    (hc : ps.flatten = List.replicate ps.flatten.length c) : Vision.contents u ps = [] := by
  induction ps generalizing u
  case nil => rfl
  case cons p ps hi =>
    rw [List.flatten_cons] at hc
    rw [List.flatten_cons, List.length_append] at h
    have ⟨_, hp, hps⟩ := List.append_eq_replicate_iff.mp hc
    rw [Vision.contents]
    cases hf : u.feed p
    case error => rfl
    case ok r =>
      rw [hp] at hf
      have ⟨hout, hs⟩ := h.feed hf
      show r.1 ++ Vision.contents r.2 ps = []
      rw [hout, List.nil_append, hi hs hps]

end

-- Nothing is ever delivered of such a body.
def Mute (uuid body : List UInt8) : Prop :=
  body.length < 16 ∨ body = uuid ∨
    ∃ c : UInt8, uuid = List.replicate 16 c ∧ body = List.replicate body.length c ∧
      (c = 0 ∨ 2 < c ∨ body.length < 22)

section

variable {uuid body piece rest : List UInt8}

-- What is left of a piece of a mute body behind the user's id.
theorem Mute.behind (huuid : uuid.length = 16) (h : Mute uuid body) (hs : piece ++ rest <:+ body)
    (hl : 16 ≤ piece.length) :
    ∃ c n, piece = uuid ++ List.replicate n c ∧ rest = List.replicate rest.length c ∧
      Still c .readingCommand (n + rest.length) := by
  have hle := hs.length_le
  rw [List.length_append] at hle
  obtain hlt | rfl | ⟨c, hu, hb, hc⟩ := h
  case inl => omega
  case inr.inl =>
    have hrest : rest = [] := List.length_eq_zero_iff.mp (by omega)
    have heq : piece = body := by
      rw [hrest, List.append_nil] at hs
      exact hs.eq_of_length (by omega)
    refine ⟨0, 0, ?_, ?_, ?_⟩
    case refine_1 => rw [heq, List.replicate_zero, List.append_nil]
    case refine_2 => rw [hrest]; rfl
    case refine_3 => rw [hrest]; exact .spent nofun
  case inr.inr =>
    have ⟨_, heq⟩ := List.suffix_replicate_iff.mp (hb ▸ hs)
    have ⟨_, hpiece, hrest⟩ := List.append_eq_replicate_iff.mp heq
    refine ⟨c, piece.length - 16, ?_, hrest, .command ?_⟩
    case refine_1 =>
      rw [hu, ← List.replicate_add, Nat.add_sub_cancel' hl]
      exact hpiece
    case refine_2 => exact hc.imp_right (Or.imp_right fun h => by omega)

-- Nothing is left of a mute body.
theorem Mute.nothing (huuid : uuid.length = 16) (h : Mute uuid body) {ps : List (List UInt8)}
    (hs : ps.flatten <:+ body) :
    loose uuid ps ++ contents ⟨.readingCommand, true⟩ (blocks uuid ps) = [] := by
  induction ps
  case nil => rfl
  case cons p ps hi =>
    rw [List.flatten_cons] at hs
    by_cases hl : p.length < 16
    case pos =>
      rw [loose_short hl, blocks_cons fun ho => Nat.not_le_of_lt hl ho.1]
      exact hi ((List.suffix_append _ _).trans hs)
    case neg =>
      obtain ⟨c, n, rfl, hrest, hstill⟩ := h.behind huuid hs (Nat.le_of_not_lt hl)
      have ho : Opens uuid (uuid ++ List.replicate n c) := ⟨Nat.le_of_not_lt hl, List.take_left' huuid⟩
      rw [loose, if_pos ho, blocks, if_pos ho, List.nil_append, List.drop_left' huuid]
      refine Still.contents (c := c) ?_ ?_
      case refine_1 => rwa [List.flatten_cons, List.length_append, List.length_replicate]
      case refine_2 =>
        rw [List.flatten_cons, hrest, ← List.replicate_add, List.length_replicate]

end

section

variable {uuid all body : List UInt8} {cap : Nat}

-- The header has been read, and nothing else.
def behindHeader : ReadState :=
  { ReadState.newClient with vlessResponsePending := false }

theorem readLoop_header (hb : HasBody all body) :
    ∃ n, ∀ rs, ReadState.newClient.readLoop uuid (.ready n :: rs) all cap =
      behindHeader.readLoop uuid rs body cap := by
  obtain ⟨addonLen, addons, hl, rfl⟩ := hb
  refine ⟨addons.length + 1, fun rs => ?_⟩
  have hlen : min (addons.length + 1 + 1) readLen = addons.length + 2 := by
    have := addonLen.toNat_lt
    rw [readLen]
    omega
  have hstrip : ReadState.newClient.stripResponse (0 :: addonLen :: addons) = (.ok (some []), behindHeader) := by
    have hb : HasBody (0 :: addonLen :: addons) [] := ⟨addonLen, addons, hl, by rw [List.append_nil]⟩
    have hs := @stripped .newClient rfl (0 :: addonLen :: addons)
    change Stripped _ (0 :: addonLen :: addons) _ at hs
    generalize ReadState.newClient.stripResponse (0 :: addonLen :: addons) = q at hs
    cases hs
    case refused hr => exact absurd (hb.append []) (hr [] _)
    case more hn    => exact absurd hb (hn _)
    case taken ht   => rw [ht.unique hb]; rfl
  rw [ReadState.readLoop]
  simp only [hlen, List.take_succ_cons, List.take_left, List.drop_succ_cons, List.drop_left, List.isEmpty_cons]
  rw [if_neg Bool.false_ne_true, hstrip]
  rfl

-- Pieces that are too short are dropped.
theorem readLoop_short {k : Nat} (hk : k ≤ body.length) (rs : List Response) :
    behindHeader.readLoop uuid (List.replicate k (.ready 0) ++ rs) body cap =
      behindHeader.readLoop uuid rs (body.drop k) cap := by
  induction k generalizing body
  case zero => rfl
  case succ k hi =>
    cases body
    case nil => cases hk
    case cons b body =>
      have hunpad : behindHeader.handleUnpad uuid [b] = (.ok (), behindHeader) := by
        have hshort : behindHeader.readUnpadder.unpad uuid [b] = (.ok { content := [], command := none }, .new) :=
          unpad_short (Nat.lt_of_sub_eq_succ rfl)
        rw [ReadState.handleUnpad, hshort]
        rfl
      have hstrip : behindHeader.stripResponse [b] = (.ok (some [b]), behindHeader) := rfl
      rw [List.replicate_succ, List.cons_append, ReadState.readLoop]
      have hlen : min (0 + 1) readLen = 1 := rfl
      simp only [hlen, List.take_succ_cons, List.take_zero, List.drop_succ_cons, List.drop_zero, hstrip, hunpad,
        List.isEmpty_cons]
      exact hi (Nat.le_of_succ_le_succ hk)

theorem readLoop_end : (behindHeader.readLoop uuid [.ready 0] [] cap).1 = .ready [] :=
  rfl

theorem readLoop_piece {len : Nat} {r : UnpadResult} {u : VisionUnpadder} (hpos : 0 < len) (hlen : len ≤ readLen)
    (hl : len ≤ body.length) (hu : VisionUnpadder.new.unpad uuid (body.take len) = (.ok r, u)) (hr : r.content ≠ []) :
    (behindHeader.readLoop uuid [.ready (len - 1)] body cap).1 = .ready (r.content.take cap) := by
  have hne : (body.take len).isEmpty = false := by
    rw [List.isEmpty_eq_false_iff, ← List.length_pos_iff, List.length_take_of_le hl]
    exact hpos
  have hmin : min (len - 1 + 1) readLen = len := by rw [Nat.sub_add_cancel hpos, Nat.min_eq_left hlen]
  have hstrip : behindHeader.stripResponse (body.take len) = (.ok (some (body.take len)), behindHeader) := rfl
  have hunpad : (behindHeader.handleUnpad uuid (body.take len)).1 = .ok () ∧
      (behindHeader.handleUnpad uuid (body.take len)).2.pendingRead = r.content := by
    have hu' : behindHeader.readUnpadder.unpad uuid (body.take len) = (.ok r, u) := hu
    rw [ReadState.handleUnpad, hu']
    exact ⟨rfl, rfl⟩
  rw [ReadState.readLoop]
  simp only [hmin, hstrip, hne]
  rcases hq : behindHeader.handleUnpad uuid (body.take len) with ⟨_ | _, s⟩
  case error => cases congrArg Prod.fst hq |>.symm.trans hunpad.1
  case ok =>
    have hp : s.pendingRead = r.content := (congrArg (fun q => q.2.pendingRead) hq).symm.trans hunpad.2
    simp [hp, hr, ReadState.servePending]

-- A body that has the user's id everywhere is one byte again and again.
theorem uniform_of_windows (hl : 16 < body.length)
    (h : ∀ k, k + 16 ≤ body.length → (body.drop k).take 16 = uuid) :
    ∃ c, uuid = List.replicate 16 c ∧ body = List.replicate body.length c := by
  have hget (k j : Nat) (hk : k + 16 ≤ body.length) (hj : j < 16) : body[k + j]? = uuid[j]? := by
    rw [← h k hk, List.getElem?_take_of_lt hj, List.getElem?_drop]
  have hnext (i : Nat) (hi : i + 1 < body.length) : body[i + 1]? = body[i]? := by
    obtain ⟨k, j, rfl, hk, hj⟩ : ∃ k j, i = k + j ∧ k + 17 ≤ body.length ∧ j < 16 := by
      by_cases hle : i + 17 ≤ body.length
      case pos => exact ⟨i, 0, rfl, hle, by decide⟩
      case neg => exact ⟨body.length - 17, i - (body.length - 17), by omega, by omega, by omega⟩
    rw [hget k j (by omega) hj, ← hget (k + 1) j (by omega) hj]
    congr 1
    omega
  have hall (i : Nat) (hi : i < body.length) : body[i]? = body[0]? := by
    induction i
    case zero       => rfl
    case succ i hi' => exact (hnext i hi).trans (hi' (Nat.lt_of_succ_lt hi))
  obtain ⟨c, hc⟩ : ∃ c, body[0]? = some c := ⟨body[0], List.getElem?_eq_getElem _⟩
  have hbody : body = List.replicate body.length c := by
    refine List.eq_replicate_of_mem fun b hb => ?_
    obtain ⟨i, hi, rfl⟩ := List.mem_iff_getElem.mp hb
    exact Option.some.inj <| (List.getElem?_eq_getElem hi).symm.trans <| (hall i hi).trans hc
  refine ⟨c, ?_, hbody⟩
  rw [← h 0 (Nat.zero_add 16 ▸ Nat.le_of_lt hl), List.drop_zero, hbody, List.take_replicate,
    Nat.min_eq_left (Nat.le_of_lt hl)]

-- Something is delivered of any other body, if it is only cut in the right way.
theorem exists_piece (huuid : uuid.length = 16) (h : ¬Mute uuid body) :
    ∃ k len, 0 < len ∧ len ≤ readLen ∧ k + len ≤ body.length ∧
      ∃ r u, VisionUnpadder.new.unpad uuid ((body.drop k).take len) = (.ok r, u) ∧ r.content ≠ [] := by
  rw [Mute, not_or, not_or, Nat.not_lt] at h
  have ⟨hl, hne, hc⟩ := h
  by_cases hw : ∀ k, k + 16 ≤ body.length → (body.drop k).take 16 = uuid
  case neg =>
    simp only [not_forall] at hw
    have ⟨k, hk, hw⟩ := hw
    have hlen : ((body.drop k).take 16).length = 16 := by
      rw [List.length_take, List.length_drop]
      omega
    refine ⟨k, 16, by decide, by decide, hk, _, _, unpad_other (Nat.le_of_eq hlen.symm) ?_, ?_⟩
    case refine_1 => rwa [List.take_take]
    case refine_2 => exact List.length_pos_iff.mp (by rw [hlen]; decide)
  case pos =>
    have hlt : 16 < body.length := by
      refine Nat.lt_of_le_of_ne hl fun heq => hne ?_
      have := hw 0 (by omega)
      rwa [List.drop_zero, heq, List.take_length] at this
    obtain ⟨c, rfl, hb⟩ := uniform_of_windows hlt hw
    have hc : ¬(c = 0 ∨ 2 < c ∨ body.length < 22) := fun h => hc ⟨c, rfl, hb, h⟩
    rw [not_or, not_or, Nat.not_lt] at hc
    have ⟨hz, htwo, hlen⟩ := hc
    have htake : (body.drop 0).take 22 = List.replicate 16 c ++ List.replicate 6 c := by
      rw [List.drop_zero, hb, List.take_replicate, Nat.min_eq_left hlen, ← List.replicate_add]
    have hfeed : ∃ u, feed ⟨.readingCommand, true⟩ (List.replicate 6 c) = .ok ([c], u) := by
      obtain rfl | rfl : c = 1 ∨ c = 2 := by
        simp only [← UInt8.toNat_inj, UInt8.lt_iff_toNat_lt, UInt8.toNat_ofNat] at hz htwo ⊢
        omega
      case inl => exact ⟨_, rfl⟩
      case inr => exact ⟨_, rfl⟩
    have ⟨u, hf⟩ := hfeed
    have hq := @unpads_new _ (List.replicate 6 c) huuid
    rw [hf, ← htake] at hq
    have ⟨_, hu, _⟩ := hq
    exact ⟨0, 22, by decide, by decide, Nat.zero_add 22 ▸ hlen, _, _, hu, List.cons_ne_nil _ _⟩

end

variable {uuid all : List UInt8}

theorem mute_of_splitIndependent (huuid : uuid.length = 16) (h : SplitIndependent uuid all) {body : List UInt8}
    (hb : HasBody all body) : Mute uuid body := by
  refine Classical.byContradiction fun hn => ?_
  obtain ⟨k, len, hpos, hlen, hle, r, u, hu, hr⟩ := exists_piece huuid hn
  obtain ⟨n, hheader⟩ := @readLoop_header uuid all body 1 hb
  -- Byte by byte nothing is delivered, and the stream ends.
  have hended : (ReadRun.start (.ready n :: (List.replicate body.length (.ready 0) ++ [.ready 0])) all).Ended uuid := by
    refine ⟨1, Nat.one_ne_zero, .inl ?_⟩
    show (ReadState.newClient.readLoop uuid (.ready n :: (List.replicate body.length (.ready 0) ++ [.ready 0]))
      all 1).1 = _
    rw [hheader, readLoop_short (Nat.le_refl _), List.drop_length]
    exact readLoop_end
  -- The same stream, with one piece that is longer.
  have hpiece : (pollRead uuid .newClient
      ⟨.ready n :: (List.replicate k (.ready 0) ++ [.ready (len - 1)]), all⟩ 1).1 = .ready (r.content.take 1) := by
    show (ReadState.newClient.readLoop uuid (.ready n :: (List.replicate k (.ready 0) ++ [.ready (len - 1)]))
      all 1).1 = _
    rw [hheader, readLoop_short (by omega)]
    exact readLoop_piece hpos hlen (by rw [List.length_drop]; omega) hu hr
  have hrun : ∃ s, Machine.run (ReadRun.step uuid)
      (.start (.ready n :: (List.replicate k (.ready 0) ++ [.ready (len - 1)])) all) [1] = some s ∧
        s.delivered = r.content.take 1 := by
    rcases hp : pollRead uuid .newClient ⟨.ready n :: (List.replicate k (.ready 0) ++ [.ready (len - 1)]), all⟩ 1
      with ⟨p, s, src⟩
    rw [hp] at hpiece
    cases hpiece
    refine ⟨⟨s, src, [] ++ r.content.take 1⟩, ?_, List.nil_append _⟩
    rw [Machine.run, ReadRun.step, ReadRun.start, hp]
    rfl
  obtain ⟨s, hs, hd⟩ := hrun
  have hprefix := h _ [] _ _ [1] s rfl hs hended
  rw [hd, ReadRun.start, List.prefix_nil, List.take_eq_nil_iff] at hprefix
  exact hprefix.elim Nat.one_ne_zero hr

-- All of a body that begins with the id is read as blocks, if its first piece has all of the id.
theorem left_of_first (huuid : uuid.length = 16) {wire c : List UInt8} {u : VisionUnpadder}
    (hw : feed ⟨.readingCommand, true⟩ wire = .ok (c, u)) {ps : List (List UInt8)} (hps : ps.flatten = uuid ++ wire)
    (hfirst : ∀ p, ps.find? (fun p => !p.isEmpty) = some p → 16 ≤ p.length) :
    loose uuid ps ++ contents ⟨.readingCommand, true⟩ (blocks uuid ps) = c := by
  induction ps
  case nil =>
    have := congrArg List.length hps
    rw [List.length_append, huuid, List.flatten_nil, List.length_nil] at this
    omega
  case cons p ps hi =>
    by_cases hp : p = []
    case pos =>
      subst hp
      rw [loose_short (by decide), blocks_cons fun h => absurd h.1 (by decide)]
      exact hi hps hfirst
    case neg =>
      have hl : 16 ≤ p.length := hfirst p (List.find?_cons_of_pos (by simpa using hp))
      rw [List.flatten_cons] at hps
      have hprefix : uuid <+: p :=
        List.prefix_of_prefix_length_le ⟨wire, rfl⟩ (hps ▸ List.prefix_append p ps.flatten) (huuid ▸ hl)
      obtain ⟨data, rfl⟩ := hprefix
      have ho : Opens uuid (uuid ++ data) := ⟨hl, List.take_left' huuid⟩
      rw [List.append_assoc, List.append_cancel_left_eq] at hps
      rw [loose, if_pos ho, blocks, if_pos ho, List.nil_append, List.drop_left' huuid]
      have hfeed : feed ⟨.readingCommand, true⟩ (data :: ps).flatten = .ok (c, u) := by rwa [List.flatten_cons, hps]
      exact contents_of_feed hfeed

theorem delivered_none {rs : List Response} {caps : List Nat} {r : ReadRun} (h : ∀ body, ¬HasBody all body)
    (hr : Machine.run (ReadRun.step uuid) (.start rs all) caps = some r) : r.delivered = [] := by
  have hstart : Reading.Inv uuid all [] [] .newClient ⟨rs, all⟩ :=
    Reading.inv_start (fun body hb => absurd hb (h body)) fun _ => rfl
  have hinv := Reading.inv_run hstart hr
  exact List.prefix_nil.mp hinv.isPrefix

-- What is left of the body is delivered, and nothing else.
theorem delivered_left (huuid : uuid.length = 16) {body : List UInt8} (hb : HasBody all body) {rs : List Response}
    {caps : List Nat} {r : ReadRun} (hr : Machine.run (ReadRun.step uuid) (.start rs all) caps = some r)
    {ps : List (List UInt8)} (hps : bodyPieces body rs all = ps) :
    r.delivered <+: loose uuid ps ++ contents ⟨.readingCommand, true⟩ (blocks uuid ps) ∧
      (r.Ended uuid →
        r.delivered = loose uuid ps ++ contents ⟨.readingCommand, true⟩ (blocks uuid ps)) := by
  rw [← shown_new huuid, ← hps]
  have hstart : Reading.Inv uuid all (shown uuid .new (bodyPieces body rs all)) [] .newClient ⟨rs, all⟩ :=
    Reading.inv_start (fun _ hb' => by rw [hb'.unique hb]) fun hn => absurd hb (hn body)
  have hinv := Reading.inv_run hstart hr
  exact ⟨hinv.isPrefix, hinv.of_ended⟩

theorem splitIndependent_of_mute (huuid : uuid.length = 16) (h : ∀ body, HasBody all body → Mute uuid body) :
    SplitIndependent uuid all := by
  intro _ _ r rs' _ r' _ hr' _
  by_cases hb : ∃ body, HasBody all body
  case pos =>
    have ⟨body, hb⟩ := hb
    have hprefix := (delivered_left huuid hb hr' rfl).1
    rw [(h body hb).nothing huuid ⟨[], bodyPieces_flatten hb rs'⟩] at hprefix
    rw [List.prefix_nil.mp hprefix]
    exact List.nil_prefix
  case neg =>
    rw [delivered_none (fun body h => hb ⟨body, h⟩) hr']
    exact List.nil_prefix

-- Two splits deliver the same just where they leave the same of the body. Only where nothing can be delivered at
-- all is it the same for all splits. But a body that begins with the user's id, and that the unpadder takes, is
-- delivered in the same way for all splits that are not within the id.
theorem splitIndependent_iff (uuid : List UInt8) (huuid : uuid.length = 16) (all : List UInt8) :
    (∀ rs caps r rs' caps' r', Machine.run (ReadRun.step uuid) (.start rs all) caps = some r →
      Machine.run (ReadRun.step uuid) (.start rs' all) caps' = some r' → r.Ended uuid → r'.Ended uuid →
        (r.delivered = r'.delivered ↔
          ∀ body, HasBody all body → Alike uuid (bodyPieces body rs all) (bodyPieces body rs' all))) ∧
    (SplitIndependent uuid all ↔ ∀ body, HasBody all body → Mute uuid body) ∧
    ∀ body r u, HasBody all body → uuid <+: body → VisionUnpadder.new.unpad uuid body = (.ok r, u) →
      ∀ rs caps s, (∀ p, (bodyPieces body rs all).find? (fun p => !p.isEmpty) = some p → 16 ≤ p.length) →
        Machine.run (ReadRun.step uuid) (.start rs all) caps = some s →
          s.delivered <+: r.content ∧ (s.Ended uuid → s.delivered = r.content) := by
  refine ⟨fun rs caps r rs' caps' r' hr hr' he he' => ?_,
    ⟨fun h _ hb => mute_of_splitIndependent huuid h hb, splitIndependent_of_mute huuid⟩, ?_⟩
  case refine_1 =>
    by_cases hb : ∃ body, HasBody all body
    case pos =>
      have ⟨body, hb⟩ := hb
      rw [(delivered_left huuid hb hr rfl).2 he, (delivered_left huuid hb hr' rfl).2 he']
      exact ⟨fun h _ hb' => hb'.unique hb ▸ h, fun h => h body hb⟩
    case neg =>
      have hnone (body : List UInt8) (h : HasBody all body) : False := hb ⟨body, h⟩
      rw [delivered_none hnone hr, delivered_none hnone hr']
      exact iff_of_true rfl fun body h => (hnone body h).elim
  case refine_2 =>
    rintro _ r u hb ⟨wire, rfl⟩ hu rs caps s hfirst hs
    have hq := @unpads_new uuid wire huuid
    rw [hu] at hq
    cases hf : feed ⟨.readingCommand, true⟩ wire
    case error e =>
      rw [hf] at hq
      cases hq
    case ok fed =>
      rw [hf] at hq
      have ⟨_, he, _⟩ := hq
      cases he
      rw [List.nil_append, ← left_of_first huuid hf (bodyPieces_flatten hb rs) hfirst]
      exact delivered_left huuid hb hs rfl

-- A client's id, and a response with one last block.
def client : List UInt8 :=
  List.replicate 16 7

def response : List UInt8 :=
  [0, 0] ++ client ++ [1, 0, 1, 0, 0, 5]

-- Two splits of a body without padding.
def plain : List UInt8 :=
  [0, 0] ++ List.replicate 40 65

theorem splitIndependent_iff_plain :
    ∃ r r' s, Machine.run (ReadRun.step client) (.start [.ready 99, .ready 99] plain) [99] = some r ∧
      Machine.run (ReadRun.step client) (.start [.ready 1, .ready 16, .pending, .ready 99, .ready 99] plain)
        [30, 99, 99, 99] = some r' ∧ r.delivered = r'.delivered ∧
      Machine.run (ReadRun.step client) (.start [.ready 17, .ready 99, .ready 99] response) [4] = some s ∧
      s.delivered <+: [5] ∧ (s.Ended client → s.delivered = [5]) := by
  have hbody : HasBody plain (List.replicate 40 65) := ⟨0, [], rfl, rfl⟩
  have honce : (Machine.run (ReadRun.step client) (.start [.ready 99, .ready 99] plain) [99]).any fun r =>
    (pollRead client r.reader r.source 1).1 = .ready [] := by decide +kernel
  have htwice : (Machine.run (ReadRun.step client) (.start [.ready 1, .ready 16, .pending, .ready 99, .ready 99] plain)
    [30, 99, 99, 99]).any fun r => (pollRead client r.reader r.source 1).1 = .ready [] := by decide +kernel
  obtain ⟨r, hr, he⟩ := Option.any_eq_true _ _ |>.mp honce
  obtain ⟨r', hr', he'⟩ := Option.any_eq_true _ _ |>.mp htwice
  have halike := (splitIndependent_iff client rfl plain).1 _ _ r _ _ r' hr hr'
    ⟨1, Nat.one_ne_zero, .inl (of_decide_eq_true he)⟩ ⟨1, Nat.one_ne_zero, .inl (of_decide_eq_true he')⟩
  have hu : VisionUnpadder.new.unpad client (client ++ [1, 0, 1, 0, 0, 5]) =
      (.ok { content := [5], command := some .«end» }, ⟨.done, false⟩) := by
    rw [VisionUnpadder.unpad_new rfl]
    exact @VisionUnpadder.unpadLoop_end client true [] [] [5] [] ⟨by decide, by decide⟩
  have hs : (Machine.run (ReadRun.step client) (.start [.ready 17, .ready 99, .ready 99] response) [4]).isSome := by
    decide +kernel
  obtain ⟨s, hs⟩ := Option.isSome_iff_exists.mp hs
  have hfirst : ∀ p, (bodyPieces (client ++ [1, 0, 1, 0, 0, 5]) [.ready 17, .ready 99, .ready 99] response).find?
      (fun p => !p.isEmpty) = some p → 16 ≤ p.length := by
    intro p hp
    cases hp
    decide
  refine ⟨r, r', s, hr, hr', halike.mpr fun body hb => ?_, hs,
    (splitIndependent_iff client rfl response).2.2 (client ++ [1, 0, 1, 0, 0, 5]) _ _ ⟨0, [], rfl, rfl⟩ ⟨_, rfl⟩ hu _ _ s
      hfirst hs⟩
  rw [hb.unique hbody, Alike]
  decide +kernel

-- The response is delivered if it comes at once. If the first byte of the id comes alone, the rest of the id
-- and the block are delivered as they are.
theorem first_byte_alone : ¬SplitIndependent client response := by
  intro h
  have hapart : ((Machine.run (ReadRun.step client) (.start [.ready 2, .ready 99, .ready 99] response) [99]).any
      fun s => s.delivered = List.replicate 15 7 ++ [1, 0, 1, 0, 0, 5] ∧
        (pollRead client s.reader s.source 1).1 = .ready []) = true := by decide +kernel
  have honce : ((Machine.run (ReadRun.step client) (.start [.ready 99] response) [99]).any
      fun s => s.delivered = [5]) = true := by decide +kernel
  obtain ⟨r, hr, hd⟩ := Option.any_eq_true _ _ |>.mp hapart
  obtain ⟨r', hr', hd'⟩ := Option.any_eq_true _ _ |>.mp honce
  have ⟨hd, he⟩ := of_decide_eq_true hd
  have hprefix := h _ _ r _ _ r' hr hr' ⟨1, Nat.one_ne_zero, .inl he⟩
  rw [hd, of_decide_eq_true hd'] at hprefix
  exact absurd hprefix (by decide)

end JammVpn.Vision
