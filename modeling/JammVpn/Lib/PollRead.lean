import Mathlib.Data.List.Basic
import JammVpn.Lib.PollWrite

-- Readers that take frames out of a stream that is polled.
namespace PollIo

-- A stream that is read from: it ends after the rest. An answer is for at least one byte, where there is one.
structure Source where
  responses : List Response
  rest      : List UInt8

def Source.pollRead (src : Source) (cap : Nat) : Poll (List UInt8) × Source :=
  match src.responses with
  | []             => (.pending, src)
  | .pending :: rs => (.pending, { src with responses := rs })
  | .error :: rs   => (.error .inner, { src with responses := rs })
  | .ready n :: rs =>
    let len := min (n + 1) cap
    (.ready (src.rest.take len), { responses := rs, rest := src.rest.drop len })

-- What is done to the bytes as they come in, in pieces of any size.
structure Filter (χ : Type) where
  apply        : χ → List UInt8 → List UInt8 × χ
  apply_nil    : ∀ x, apply x [] = ([], x)
  apply_append : ∀ x as bs, apply x (as ++ bs) =
    ((apply x as).1 ++ (apply (apply x as).2 bs).1, (apply (apply x as).2 bs).2)
  length       : ∀ x as, (apply x as).1.length = as.length

def Filter.id : Filter Unit where
  apply _ as := (as, ())
  apply_nil _ := rfl
  apply_append _ _ _ := rfl
  length _ _ := rfl

-- The length of the next frame, what is made of it, and whether the stream may end before it.
structure Framing (σ : Type) where
  need     : σ → Nat
  next     : σ → List UInt8 → Except IoError (Option (List UInt8)) × σ
  clean    : σ → Bool
  need_pos : ∀ s, 0 < need s
  next_ne  : ∀ {s frame p s'}, frame.length = need s → next s frame = (.ok (some p), s') → p ≠ []

-- The frame as far as it has come, and the bytes that have not been delivered yet.
structure Reader (σ χ : Type) where
  stage  : σ
  filter : χ
  rtmp   : List UInt8
  plain  : List UInt8

variable {σ χ : Type}

namespace Framing

variable (F : Framing σ) (G : Filter χ)

-- Reads up to the end of the frame, at most 4096 bytes at once. Tells whether there is a frame.
def fill (need : Nat) (responses : List Response) (rtmp : List UInt8) (x : χ) (rest : List UInt8) :
    Poll Bool × List UInt8 × χ × Source :=
  if need ≤ rtmp.length then (.ready true, rtmp, x, ⟨responses, rest⟩)
  else
    match responses with
    | []             => (.pending, rtmp, x, ⟨[], rest⟩)
    | .pending :: rs => (.pending, rtmp, x, ⟨rs, rest⟩)
    | .error :: rs   => (.error .inner, rtmp, x, ⟨rs, rest⟩)
    | .ready n :: rs =>
      let len := min (n + 1) (min (need - rtmp.length) 4096)
      if (rest.take len).isEmpty then
        (if rtmp.isEmpty then .ready false else .error .unexpectedEof, rtmp, x, ⟨rs, rest⟩)
      else
        let (bs, x) := G.apply x (rest.take len)
        fill need rs (rtmp ++ bs) x (rest.drop len)

-- The fuel is the number of answers and one more: every frame takes an answer.
def readLoop : Nat → Reader σ χ → Source → (cap : Nat) → Poll (List UInt8) × Reader σ χ × Source
  | 0, r, src, _          => (.pending, r, src)
  | fuel + 1, r, src, cap =>
    match fill G (F.need r.stage) src.responses r.rtmp r.filter src.rest with
    | (.pending, rtmp, filter, src)     => (.pending, { r with rtmp, filter }, src)
    | (.error e, rtmp, filter, src)     => (.error e, { r with rtmp, filter }, src)
    | (.ready false, rtmp, filter, src) =>
      (if F.clean r.stage then .ready [] else .error .unexpectedEof, { r with rtmp, filter }, src)
    | (.ready true, frame, filter, src) =>
      match F.next r.stage frame with
      | (.error e, stage)     => (.error e, { r with stage, filter, rtmp := [] }, src)
      | (.ok none, stage)     => readLoop fuel { r with stage, filter, rtmp := [] } src cap
      | (.ok (some p), stage) => (.ready (p.take cap), { stage, filter, rtmp := [], plain := p.drop cap }, src)

-- What is delivered into a buffer with room for so many bytes.
def pollRead (r : Reader σ χ) (src : Source) (cap : Nat) : Poll (List UInt8) × Reader σ χ × Source :=
  if r.plain.isEmpty then readLoop F G (src.responses.length + 1) r src cap
  else (.ready (r.plain.take cap), { r with plain := r.plain.drop cap }, src)

-- A run up to the first error.
structure ReadRun (σ χ : Type) where
  reader    : Reader σ χ
  source    : Source
  delivered : List UInt8

def step (s : ReadRun σ χ) (cap : Nat) : Option (ReadRun σ χ) :=
  match pollRead F G s.reader s.source cap with
  | (.error _, _, _)       => none
  | (.pending, r, src)     => some { s with reader := r, source := src }
  | (.ready bs, r, src)    => some { reader := r, source := src, delivered := s.delivered ++ bs }

def start (s : σ) (x : χ) (responses : List Response) (all : List UInt8) : ReadRun σ χ where
  reader := { stage := s, filter := x, rtmp := [], plain := [] }
  source := { responses, rest := all }
  delivered := []

-- These bytes are whole frames, and this is what they are made to.
inductive Frames : σ → (bs content : List UInt8) → σ → Prop
  | nil (s : σ) : Frames s [] [] s
  | cons {s frame p s' bs content s''} : frame.length = F.need s → F.next s frame = (.ok p, s') →
      Frames s' bs content s'' → Frames s (frame ++ bs) (p.getD [] ++ content) s''

variable {F : Framing σ} {G : Filter χ} {s s' s'' : σ} {bs bs' content content' : List UInt8}

theorem Frames.append (h : Frames F s bs content s') (h' : Frames F s' bs' content' s'') :
    Frames F s (bs ++ bs') (content ++ content') s'' := by
  induction h
  case nil => exact h'
  case cons hl hn _ hi =>
    rw [List.append_assoc, List.append_assoc]
    exact .cons hl hn (hi h')

theorem Frames.single {frame : List UInt8} {p : Option (List UInt8)} (hl : frame.length = F.need s)
    (hn : F.next s frame = (.ok p, s')) : Frames F s frame (p.getD []) s' := by
  have := Frames.cons hl hn (.nil s')
  rwa [List.append_nil, List.append_nil] at this

-- Frames are found in one way only.
theorem Frames.of_append (h : Frames F s bs content s') (h' : Frames F s (bs ++ bs') content' s'') :
    ∃ content'', content' = content ++ content'' ∧ Frames F s' bs' content'' s'' := by
  induction h generalizing content'
  case nil => exact ⟨content', rfl, h'⟩
  case cons s frame p s₁ bs content s' hl hn _ hi =>
    generalize he : frame ++ bs ++ bs' = all at h'
    cases h'
    case nil =>
      rw [List.append_eq_nil_iff, List.append_eq_nil_iff] at he
      exact absurd (hl.symm.trans (congrArg _ he.1.1)) (Nat.ne_of_gt (F.need_pos _))
    case cons frame' p' s₁' bs'' content'' hl' hn' h' =>
      rw [List.append_assoc] at he
      have ⟨hf, hb⟩ := List.append_inj he (hl.trans hl'.symm)
      subst hf hb
      cases hn.symm.trans hn'
      have ⟨c, hc, h'⟩ := hi h'
      exact ⟨c, by rw [hc, List.append_assoc], h'⟩

-- In front of a frame nothing is found, or the frame is.
theorem Frames.of_prefix {frame : List UInt8} {p : Option (List UInt8)} (hl : frame.length = F.need s)
    (hn : F.next s frame = (.ok p, s')) (h : Frames F s bs content s'') (hb : bs <+: frame ++ bs') :
    bs = [] ∧ content = [] ∧ s'' = s ∨
      ∃ bs'' content', bs'' <+: bs' ∧ content = p.getD [] ++ content' ∧ Frames F s' bs'' content' s'' := by
  cases h
  case nil => exact .inl ⟨rfl, rfl, rfl⟩
  case cons frame' p' s₁' bs'' content'' hl' hn' h' =>
    obtain ⟨rest, hrest⟩ := hb
    rw [List.append_assoc] at hrest
    obtain ⟨hf, hb⟩ := List.append_inj hrest (hl'.trans hl.symm)
    subst hf
    cases hn.symm.trans hn'
    exact .inr ⟨bs'', content'', ⟨rest, hb⟩, rfl, h'⟩

theorem fill_of_le {need : Nat} {rtmp : List UInt8} (h : need ≤ rtmp.length) (rs : List Response) (x : χ)
    (rest : List UInt8) : fill G need rs rtmp x rest = (.ready true, rtmp, x, ⟨rs, rest⟩) := by
  unfold fill
  exact if_pos h

-- What a call to `fill` leaves: nothing is lost, and the frame is not overrun.
structure Filled (G : Filter χ) (need : Nat) (bytes : List UInt8) (p : Poll Bool) (rtmp : List UInt8) (x : χ)
    (src : Source) : Prop where
  kept   : rtmp ++ (G.apply x src.rest).1 = bytes
  le     : rtmp.length ≤ need
  full   : p = .ready true → rtmp.length = need
  short  : p ≠ .ready true → rtmp.length < need
  ended  : p = .ready false → rtmp = [] ∧ src.rest = []
  failed : ∀ e, p = .error e → e = .inner ∨ (e = .unexpectedEof ∧ rtmp ≠ [] ∧ src.rest = [])

theorem filled_of_le {need : Nat} {rs : List Response} {rtmp rtmp' rest : List UInt8} {x x' : χ} {src : Source}
    {p : Poll Bool} (hlt : rtmp.length ≤ need) (hn : need ≤ rtmp.length)
    (h : fill G need rs rtmp x rest = (p, rtmp', x', src)) :
    Filled G need (rtmp ++ (G.apply x rest).1) p rtmp' x' src := by
  cases (fill_of_le hn _ x rest).symm.trans h
  exact ⟨rfl, hlt, fun _ => Nat.le_antisymm hlt hn, fun hp => absurd rfl hp, nofun, nofun⟩

theorem filled {need : Nat} {rs : List Response} {rtmp rtmp' rest : List UInt8} {x x' : χ} {src : Source}
    {p : Poll Bool} (hlt : rtmp.length ≤ need) (h : fill G need rs rtmp x rest = (p, rtmp', x', src)) :
    Filled G need (rtmp ++ (G.apply x rest).1) p rtmp' x' src := by
  induction rs generalizing rtmp x rest
  case nil =>
    by_cases hn : need ≤ rtmp.length
    case pos => exact filled_of_le hlt hn h
    case neg =>
      unfold fill at h
      rw [if_neg hn] at h
      cases h
      exact ⟨rfl, hlt, nofun, fun _ => Nat.lt_of_not_le hn, nofun, nofun⟩
  case cons r rs hi =>
    by_cases hn : need ≤ rtmp.length
    case pos => exact filled_of_le hlt hn h
    case neg =>
      have hlt' := Nat.lt_of_not_le hn
      unfold fill at h
      rw [if_neg hn] at h
      cases r
      case pending =>
        cases h
        exact ⟨rfl, hlt, nofun, fun _ => hlt', nofun, nofun⟩
      case error =>
        cases h
        exact ⟨rfl, hlt, nofun, fun _ => hlt', nofun, fun _ he => .inl (by cases he; rfl)⟩
      case ready n =>
        dsimp only at h
        generalize hk : min (n + 1) (min (need - rtmp.length) 4096) = k at h
        have hk0 : k ≠ 0 := by omega
        split at h
        case isTrue hc =>
          have hr : rest = [] := (List.take_eq_nil_iff.mp (List.isEmpty_iff.mp hc)).resolve_left hk0
          split at h
          case isTrue he =>
            cases h
            exact ⟨rfl, hlt, nofun, fun _ => hlt', fun _ => ⟨List.isEmpty_iff.mp he, hr⟩, nofun⟩
          case isFalse he =>
            cases h
            refine ⟨rfl, hlt, nofun, fun _ => hlt', nofun, fun e he' => .inr ?_⟩
            cases he'
            exact ⟨rfl, fun hnil => he (List.isEmpty_iff.mpr hnil), hr⟩
        case isFalse hc =>
          have hlen : (G.apply x (rest.take k)).1.length ≤ k := by
            rw [G.length]
            exact List.length_take_le _ _
          have hle : (rtmp ++ (G.apply x (rest.take k)).1).length ≤ need := by
            rw [List.length_append]
            omega
          have happ := G.apply_append x (rest.take k) (rest.drop k)
          rw [List.take_append_drop] at happ
          rw [happ, ← List.append_assoc]
          exact hi hle h

-- What has been delivered and what is still to be delivered are the contents of the frames that have come.
def Inv (F : Framing σ) (G : Filter χ) (s₀ : σ) (all delivered : List UInt8) (r : Reader σ χ) (src : Source) :
    Prop :=
  ∃ done, Frames F s₀ done (delivered ++ r.plain) r.stage ∧
    done ++ (r.rtmp ++ (G.apply r.filter src.rest).1) = all ∧ r.rtmp.length < F.need r.stage

-- What a call can do: it is not ready; it delivers; it finds that the stream has ended, between two frames
-- or not; the stream below fails; or a frame is refused.
inductive Outcome (F : Framing σ) (G : Filter χ) (s₀ : σ) (all : List UInt8) (cap : Nat)
    (delivered : List UInt8) : Poll (List UInt8) → Reader σ χ → Source → Prop
  | pending {r src} : Inv F G s₀ all delivered r src → Outcome F G s₀ all cap delivered .pending r src
  | bytes {bs r src} : Inv F G s₀ all (delivered ++ bs) r src → (cap ≠ 0 → bs ≠ []) →
      Outcome F G s₀ all cap delivered (.ready bs) r src
  | finished {r src} : Inv F G s₀ all delivered r src → src.rest = [] → r.rtmp = [] → r.plain = [] →
      F.clean r.stage = true → Outcome F G s₀ all cap delivered (.ready []) r src
  | truncated {r src} : Inv F G s₀ all delivered r src → src.rest = [] → r.plain = [] →
      (r.rtmp = [] → F.clean r.stage = false) →
      Outcome F G s₀ all cap delivered (.error .unexpectedEof) r src
  | inner {r src} : Inv F G s₀ all delivered r src → Outcome F G s₀ all cap delivered (.error .inner) r src
  | refused {done frame s e r src} : Frames F s₀ done delivered s → frame.length = F.need s →
      (F.next s frame).1 = .error e → done ++ frame <+: all →
      Outcome F G s₀ all cap delivered (.error e) r src

variable {s₀ : σ} {all delivered : List UInt8} {r r' : Reader σ χ} {src src' : Source} {cap : Nat}
  {p : Poll (List UInt8)}

theorem readLoop_outcome {fuel : Nat} (h : Inv F G s₀ all delivered r src) (hp : r.plain = [])
    (hr : readLoop F G fuel r src cap = (p, r', src')) : Outcome F G s₀ all cap delivered p r' src' := by
  induction fuel generalizing r src
  case zero =>
    cases hr
    exact .pending h
  case succ fuel hi =>
    have ⟨done, hdone, hall, hlt⟩ := h
    rw [hp, List.append_nil] at hdone
    rcases hf : fill G (F.need r.stage) src.responses r.rtmp r.filter src.rest with ⟨q, rtmp, x, src₁⟩
    have hfill := filled (Nat.le_of_lt hlt) hf
    rw [← hfill.kept] at hall
    have hinv : q ≠ .ready true → Inv F G s₀ all delivered { r with rtmp, filter := x } src₁ := fun hq =>
      ⟨done, by rwa [hp, List.append_nil], hall, hfill.short hq⟩
    cases q
    case pending =>
      simp only [readLoop, hf] at hr
      cases hr
      exact .pending (hinv nofun)
    case error e =>
      simp only [readLoop, hf] at hr
      cases hr
      obtain rfl | ⟨rfl, hne, hrest⟩ := hfill.failed e rfl
      case inl => exact .inner (hinv nofun)
      case inr => exact .truncated (hinv nofun) hrest hp fun he => absurd he hne
    case ready b =>
      cases b
      case false =>
        have ⟨hnil, hrest⟩ := hfill.ended rfl
        simp only [readLoop, hf] at hr
        split at hr
        case isTrue hc =>
          cases hr
          exact .finished (hinv nofun) hrest hnil hp hc
        case isFalse hc =>
          cases hr
          exact .truncated (hinv nofun) hrest hp fun _ => Bool.not_eq_true _ ▸ hc
      case true =>
        have hfull := hfill.full rfl
        rcases hn : F.next r.stage rtmp with ⟨res, s'⟩
        cases res
        case error e =>
          simp only [readLoop, hf, hn] at hr
          cases hr
          exact .refused hdone hfull (congrArg Prod.fst hn) ⟨_, List.append_assoc .. ▸ hall⟩
        case ok o =>
          have hnext := hdone.append (.single hfull hn)
          cases o
          case none =>
            simp only [readLoop, hf, hn] at hr
            have hinv' : Inv F G s₀ all delivered { r with stage := s', filter := x, rtmp := [] } src₁ :=
              ⟨_, by simpa [hp] using hnext, by simpa using hall, F.need_pos s'⟩
            exact hi hinv' hp hr
          case some pt =>
            simp only [readLoop, hf, hn] at hr
            cases hr
            have hframes : Frames F s₀ (done ++ rtmp) (delivered ++ pt.take cap ++ pt.drop cap) s' := by
              rw [List.append_assoc, List.take_append_drop]
              exact hnext
            refine .bytes ⟨_, hframes, by simpa using hall, F.need_pos s'⟩ fun hc htake => ?_
            exact (List.take_eq_nil_iff.mp htake).elim hc (F.next_ne hfull hn)

theorem pollRead_outcome (h : Inv F G s₀ all delivered r src) (hr : pollRead F G r src cap = (p, r', src')) :
    Outcome F G s₀ all cap delivered p r' src' := by
  rw [pollRead] at hr
  split at hr
  case isTrue hp => exact readLoop_outcome h (List.isEmpty_iff.mp hp) hr
  case isFalse hp =>
    cases hr
    have ⟨done, hdone, hall, hlt⟩ := h
    refine .bytes ⟨done, ?_, hall, hlt⟩ fun hc htake => ?_
    case refine_1 =>
      rw [List.append_assoc, List.take_append_drop]
      exact hdone
    case refine_2 =>
      exact (List.take_eq_nil_iff.mp htake).elim hc fun he => hp (List.isEmpty_iff.mpr he)

theorem inv_start (s : σ) (x : χ) (rs : List Response) (bs : List UInt8) :
    Inv F G s (G.apply x bs).1 (start s x rs bs).delivered (start s x rs bs).reader (start s x rs bs).source :=
  ⟨[], .nil s, rfl, F.need_pos s⟩

theorem inv_step {st st' : ReadRun σ χ} (h : Inv F G s₀ all st.delivered st.reader st.source)
    (hs : step F G st cap = some st') : Inv F G s₀ all st'.delivered st'.reader st'.source := by
  rcases hp : pollRead F G st.reader st.source cap with ⟨p, r, src⟩
  have ho := pollRead_outcome h hp
  rw [step, hp] at hs
  cases p
  case error e => cases hs
  case pending =>
    cases hs
    cases ho
    case pending hi => exact hi
  case ready bs =>
    cases hs
    cases ho
    case bytes => assumption
    case finished =>
      rw [List.append_nil]
      assumption

theorem inv_run {st st' : ReadRun σ χ} {caps : List Nat}
    (h : Inv F G s₀ all st.delivered st.reader st.source)
    (hr : Machine.run (step F G) st caps = some st') :
    Inv F G s₀ all st'.delivered st'.reader st'.source := by
  induction caps generalizing st
  case nil => exact Option.some.inj hr ▸ h
  case cons cap caps hi =>
    have ⟨st₁, hs, hr⟩ := Machine.run_cons hr
    exact hi (inv_step h hs) hr

-- The stream ends where it may.
def AtBoundary (F : Framing σ) (s₀ : σ) (all : List UInt8) : Prop :=
  ∃ content s, Frames F s₀ all content s ∧ F.clean s = true

theorem Frames.of_nil (h : Frames F s [] content s') : content = [] ∧ s' = s := by
  have ⟨_, hc, h'⟩ := Frames.of_append (.nil s) ((List.append_nil []).symm ▸ h)
  generalize hb : ([] : List UInt8) = bs at h'
  cases h'
  case nil => exact ⟨hc, rfl⟩
  case cons hl _ _ =>
    have := (List.append_eq_nil_iff.mp hb.symm).1
    exact absurd (hl.symm.trans (congrArg _ this)) (Nat.ne_of_gt (F.need_pos _))

theorem Frames.unique (h : Frames F s bs content s') (h' : Frames F s bs content' s'') :
    content' = content ∧ s'' = s' := by
  have ⟨c, hc, hrest⟩ := h.of_append ((List.append_nil bs).symm ▸ h')
  exact ⟨by rw [hc, hrest.of_nil.1, List.append_nil], hrest.of_nil.2⟩

-- No frame is shorter than it has to be.
theorem Frames.nil_of_lt (h : Frames F s bs content s') (hl : bs.length < F.need s) : bs = [] := by
  cases h
  case nil => rfl
  case cons hf _ _ =>
    rw [List.length_append] at hl
    omega

theorem Inv.at_end (h : Inv F G s₀ all delivered r src) (hs : src.rest = []) (ht : r.rtmp = []) :
    Frames F s₀ all (delivered ++ r.plain) r.stage := by
  have ⟨done, hdone, hall, _⟩ := h
  rw [hs, ht, G.apply_nil, List.append_nil, List.append_nil] at hall
  exact hall ▸ hdone

theorem Inv.not_atBoundary (h : Inv F G s₀ all delivered r src) (hs : src.rest = [])
    (hc : r.rtmp = [] → F.clean r.stage = false) : ¬AtBoundary F s₀ all := by
  intro ⟨content, s, hf, hclean⟩
  have ⟨done, hdone, hall, hlt⟩ := h
  rw [hs, G.apply_nil, List.append_nil] at hall
  have ⟨c, _, hf⟩ := hdone.of_append (hall.symm ▸ hf)
  have ht := hf.nil_of_lt hlt
  rw [ht] at hf
  exact absurd (hf.of_nil.2 ▸ hclean) (by rw [hc ht]; exact Bool.false_ne_true)

section

variable {full content : List UInt8} {s_end : σ}

-- Of a stream that can be read to its end, or is cut somewhere.
theorem Inv.delivered_prefix (hfull : Frames F s₀ full content s_end) (hcut : all <+: full)
    (h : Inv F G s₀ all delivered r src) : delivered ++ r.plain <+: content := by
  have ⟨done, hdone, hall, _⟩ := h
  have ⟨t, ht⟩ := hcut
  rw [← hall, List.append_assoc] at ht
  have ⟨c, hc, _⟩ := hdone.of_append (ht.symm ▸ hfull)
  exact ⟨c, hc.symm⟩

theorem Frames.not_refused (hfull : Frames F s₀ full content s_end) {done frame : List UInt8} {e : IoError}
    (hdone : Frames F s₀ done delivered s) (hl : frame.length = F.need s) (hp : done ++ frame <+: full) :
    (F.next s frame).1 ≠ .error e := by
  intro he
  have ⟨t, ht⟩ := hp
  rw [List.append_assoc] at ht
  have ⟨c, hc, hf⟩ := hdone.of_append (ht.symm ▸ hfull)
  clear hc
  generalize hb : frame ++ t = bs at hf
  cases hf
  case nil =>
    have := (List.append_eq_nil_iff.mp hb).1
    exact absurd (hl.symm.trans (congrArg _ this)) (Nat.ne_of_gt (F.need_pos _))
  case cons hl' hn _ =>
    have ⟨hf, _⟩ := List.append_inj hb (hl.trans hl'.symm)
    rw [hf, hn] at he
    cases he

end

-- A stream below that always has something to give, up to its end.
def Eager (src : Source) : Prop :=
  (∀ r ∈ src.responses, ∃ n, r = .ready n) ∧ src.rest.length < src.responses.length

theorem fill_eager {need : Nat} {rs : List Response} {rtmp rtmp' rest : List UInt8} {x x' : χ} {src : Source}
    {p : Poll Bool} (he : Eager ⟨rs, rest⟩) (h : fill G need rs rtmp x rest = (p, rtmp', x', src)) :
    p ≠ .pending ∧ (p = .ready true → Eager src ∧ src.responses.length ≤ rs.length ∧
      (rtmp.length < need → src.responses.length < rs.length)) := by
  have ⟨hr, hl⟩ := he
  induction rs generalizing rtmp x rest
  case nil => exact absurd hl (Nat.not_lt_zero _)
  case cons r rs hi =>
    by_cases hn : need ≤ rtmp.length
    case pos =>
      cases (fill_of_le hn _ x rest).symm.trans h
      exact ⟨nofun, fun _ => ⟨he, Nat.le_refl _, fun hlt => absurd hn (Nat.not_le_of_lt hlt)⟩⟩
    case neg =>
      unfold fill at h
      rw [if_neg hn] at h
      have ⟨⟨n, hrn⟩, hrs⟩ := List.forall_mem_cons.mp hr
      subst hrn
      dsimp only at h
      generalize hk : min (n + 1) (min (need - rtmp.length) 4096) = k at h
      split at h
      case isTrue hc =>
        split at h <;> cases h <;> exact ⟨nofun, nofun⟩
      case isFalse hc =>
        have hpos : 0 < (rest.take k).length := List.length_pos_iff.mpr fun hnil =>
          hc (List.isEmpty_iff.mpr hnil)
        have hlt : (rest.drop k).length < rs.length := by
          rw [List.length_take] at hpos
          rw [List.length_drop]
          simp only [List.length_cons] at hl
          omega
        have ⟨hp, hspec⟩ := hi ⟨hrs, hlt⟩ h hrs hlt
        refine ⟨hp, fun hready => ?_⟩
        have ⟨hes, hle, _⟩ := hspec hready
        exact ⟨hes, Nat.le_succ_of_le hle, fun _ => Nat.lt_succ_of_le hle⟩

-- Every turn takes an answer, so that the fuel is enough.
theorem readLoop_eager {fuel : Nat} (he : Eager src) (hf : src.responses.length < fuel)
    (hlt : r.rtmp.length < F.need r.stage) : (readLoop F G fuel r src cap).1 ≠ .pending := by
  induction fuel generalizing r src
  case zero => exact absurd hf (Nat.not_lt_zero _)
  case succ fuel hi =>
    rcases hfill : fill G (F.need r.stage) src.responses r.rtmp r.filter src.rest with ⟨q, rtmp, x, src₁⟩
    have ⟨hq, hspec⟩ := fill_eager he hfill
    cases q
    case pending => exact absurd rfl hq
    case error e =>
      simp only [readLoop, hfill]
      exact nofun
    case ready b =>
      cases b
      case false =>
        simp only [readLoop, hfill]
        split <;> exact nofun
      case true =>
        have ⟨he', _, hless⟩ := hspec rfl
        rcases hn : F.next r.stage rtmp with ⟨res, s'⟩
        simp only [readLoop, hfill, hn]
        cases res
        case error e => exact nofun
        case ok o =>
          cases o
          case some pt => exact nofun
          case none    => exact hi he' (by have := hless hlt; omega) (F.need_pos s')

theorem pollRead_eager (he : Eager src) (h : Inv F G s₀ all delivered r src) :
    (pollRead F G r src cap).1 ≠ .pending := by
  have ⟨_, _, _, hlt⟩ := h
  rw [pollRead]
  split
  case isTrue  => exact readLoop_eager he (Nat.lt_succ_self _) hlt
  case isFalse => exact nofun

-- The answers of a reader that is to give this content. It is not ready only if the stream below is not; it
-- gives the next bytes; it gives none where the stream has ended between two frames, and all before it was
-- given; and it fails with the stream below, or where the stream has ended elsewhere.
def Answers (F : Framing σ) (s₀ : σ) (all content delivered : List UInt8) (src : Source) (cap : Nat) :
    Poll (List UInt8) → Prop
  | .pending  => ¬Eager src
  | .ready bs => delivered ++ bs <+: content ∧
    (cap ≠ 0 → bs = [] → ∃ s, Frames F s₀ all delivered s ∧ F.clean s = true)
  | .error e  => e = .inner ∨ (e = .unexpectedEof ∧ ¬AtBoundary F s₀ all)

theorem answers_of_frames {full content : List UInt8} {s_end : σ} (hfull : Frames F s₀ full content s_end)
    (hcut : all <+: full) (h : Inv F G s₀ all delivered r src) (cap : Nat) :
    Answers F s₀ all content delivered src cap (pollRead F G r src cap).1 := by
  have heager : Eager src → (pollRead F G r src cap).1 ≠ .pending := fun he => pollRead_eager he h
  rcases hp : pollRead F G r src cap with ⟨p, r', src'⟩
  have ho := pollRead_outcome h hp
  rw [hp] at heager
  cases ho
  case pending => exact fun he => heager he rfl
  case bytes hne hi =>
    exact ⟨(List.prefix_append _ _).trans (hi.delivered_prefix hfull hcut), fun hc hb => absurd hb (hne hc)⟩
  case finished hnil hplain hclean hrest hi =>
    have hend := hi.at_end hrest hnil
    rw [hplain, List.append_nil] at hend
    refine ⟨?_, fun _ _ => ⟨_, hend, hclean⟩⟩
    rw [List.append_nil]
    exact (List.prefix_append _ _).trans (hi.delivered_prefix hfull hcut)
  case truncated hplain hunclean hrest hi => exact .inr ⟨rfl, hi.not_atBoundary hrest hunclean⟩
  case inner => exact .inl rfl
  case refused hdone hl hn hall =>
    exact absurd hn (Frames.not_refused hfull hdone hl (hall.trans hcut))

-- The contents of a stream's frames, up to the first that is cut off or refused.
def Yields (F : Framing σ) (s₀ : σ) (all content : List UInt8) : Prop :=
  ∃ done rest s, Frames F s₀ done content s ∧ done ++ rest = all ∧
    (F.need s ≤ rest.length → ∃ e, (F.next s (rest.take (F.need s))).1 = .error e)

theorem exists_yields (F : Framing σ) (s₀ : σ) (all : List UInt8) : ∃ content, Yields F s₀ all content := by
  induction hl : all.length using Nat.strongRecOn generalizing s₀ all
  case ind n hi =>
    by_cases hneed : F.need s₀ ≤ all.length
    case neg => exact ⟨[], [], all, s₀, .nil s₀, rfl, fun h => absurd h hneed⟩
    case pos =>
      rcases hn : F.next s₀ (all.take (F.need s₀)) with ⟨res, s'⟩
      cases res
      case error e => exact ⟨[], [], all, s₀, .nil s₀, rfl, fun _ => ⟨e, congrArg Prod.fst hn⟩⟩
      case ok p =>
        have hlt : (all.drop (F.need s₀)).length < n := by
          have := F.need_pos s₀
          rw [List.length_drop]
          omega
        have ⟨content, done, rest, s, hf, ha, hr⟩ := hi _ hlt s' (all.drop (F.need s₀)) rfl
        have hframe : (all.take (F.need s₀)).length = F.need s₀ := List.length_take_of_le hneed
        refine ⟨_, _, rest, s, .cons hframe hn hf, ?_, hr⟩
        rw [List.append_assoc, ha, List.take_append_drop]

-- Whatever frames are taken off a stream, it yields theirs first.
theorem Yields.of_frames (h : Yields F s₀ all content) (hf : Frames F s₀ bs content' s) (hb : bs <+: all) :
    content' <+: content := by
  have ⟨done, rest, s', hdone, ha, hstuck⟩ := h
  have hd : done <+: all := ⟨rest, ha⟩
  obtain ⟨t, rfl⟩ | ⟨t, rfl⟩ := List.prefix_or_prefix_of_prefix hb hd
  case inl =>
    have ⟨c, hc, _⟩ := hf.of_append hdone
    exact ⟨c, hc.symm⟩
  case inr =>
    have ⟨c, hc, ht⟩ := hdone.of_append hf
    rw [← ha, List.prefix_append_right_inj] at hb
    cases ht
    case nil => exact hc ▸ (List.append_nil content).symm ▸ List.prefix_refl _
    case cons frame p s₁ bs' content'' hl hn _ =>
      have hframe := (List.prefix_append frame bs').trans hb
      have ⟨e, he⟩ := hstuck (hl ▸ hframe.length_le)
      rw [← hl, ← List.prefix_iff_eq_take.mp hframe, hn] at he
      cases he

theorem Yields.unique (h : Yields F s₀ all content) (h' : Yields F s₀ all content') : content = content' := by
  have ⟨_, rest, _, hf, ha, _⟩ := h
  have ⟨_, rest', _, hf', ha', _⟩ := h'
  have hle := h'.of_frames hf ⟨rest, ha⟩
  exact hle.eq_of_length_le (h.of_frames hf' ⟨rest', ha'⟩).length_le

theorem yields_all (hf : Frames F s₀ all content s) : Yields F s₀ all content :=
  ⟨all, [], s, hf, List.append_nil all, fun h => absurd h (Nat.not_le_of_lt (F.need_pos s))⟩

theorem Inv.of_yields (hy : Yields F s₀ all content) (h : Inv F G s₀ all delivered r src) :
    delivered ++ r.plain <+: content := by
  have ⟨done, hdone, hall, _⟩ := h
  exact hy.of_frames hdone ⟨_, hall⟩

-- The answers of a reader of a stream with this content. It is not ready only if the stream below is not;
-- and it comes to an end, or fails but for the stream below, only when it has given all of it.
def Exact (content delivered : List UInt8) (src : Source) (cap : Nat) : Poll (List UInt8) → Prop
  | .pending  => ¬Eager src
  | .ready bs => delivered ++ bs <+: content ∧ (cap ≠ 0 → bs = [] → delivered = content)
  | .error e  => e = .inner ∨ delivered = content

theorem exact_of_yields (hy : Yields F s₀ all content) (h : Inv F G s₀ all delivered r src) (cap : Nat) :
    Exact content delivered src cap (pollRead F G r src cap).1 := by
  have heager : Eager src → (pollRead F G r src cap).1 ≠ .pending := fun he => pollRead_eager he h
  rcases hp : pollRead F G r src cap with ⟨p, r', src'⟩
  have ho := pollRead_outcome h hp
  rw [hp] at heager
  cases ho
  case pending => exact fun he => heager he rfl
  case bytes hne hi =>
    exact ⟨(List.prefix_append _ _).trans (hi.of_yields hy), fun hc hb => absurd hb (hne hc)⟩
  case finished hnil hplain hclean hrest hi =>
    have hend := hi.at_end hrest hnil
    rw [hplain, List.append_nil] at hend
    have he := (yields_all hend).unique hy
    exact ⟨(List.append_nil delivered).symm ▸ he ▸ List.prefix_refl _, fun _ _ => he⟩
  case truncated hplain _ hrest hi =>
    have ⟨done, hdone, hall, hlt⟩ := hi
    rw [hplain, List.append_nil] at hdone
    rw [hrest, G.apply_nil, List.append_nil] at hall
    have ht : Yields F s₀ all delivered :=
      ⟨done, _, _, hdone, hall, fun hle => absurd hle (Nat.not_le_of_lt hlt)⟩
    exact .inr (ht.unique hy)
  case inner => exact .inl rfl
  case refused done frame s e hdone hl hn hall =>
    have ⟨t, ht⟩ := hall
    have hstuck : Yields F s₀ all delivered := by
      refine ⟨done, frame ++ t, s, hdone, List.append_assoc .. ▸ ht, fun _ => ⟨e, ?_⟩⟩
      rwa [← hl, List.take_left]
    exact .inr (hstuck.unique hy)

end Framing

-- A stream has given these bytes.
structure Source.Gives (src : Source) (cap : Nat) (bs : List UInt8) (src' : Source) : Prop where
  split : bs ++ src'.rest = src.rest
  le    : bs.length ≤ cap
  ends  : cap ≠ 0 → bs = [] → src.rest = []
  eager : bs ≠ [] → Framing.Eager src → Framing.Eager src'

-- What one call of a stream can do.
inductive Source.Read (src : Source) (cap : Nat) : Poll (List UInt8) → Source → Prop
  | pending (src' : Source) : src'.rest = src.rest ∧ ¬Framing.Eager src → Read src cap .pending src'
  | inner (src' : Source) : src'.rest = src.rest ∧ .error ∈ src.responses → Read src cap (.error .inner) src'
  | bytes (bs : List UInt8) (src' : Source) : src.Gives cap bs src' → Read src cap (.ready bs) src'

theorem Source.read_pollRead {src src' : Source} {cap : Nat} {p : Poll (List UInt8)}
    (h : src.pollRead cap = (p, src')) : src.Read cap p src' ∧ src'.responses ⊆ src.responses := by
  obtain ⟨responses, rest⟩ := src
  cases responses
  case nil =>
    cases h
    exact ⟨.pending _ ⟨rfl, fun he => absurd he.right (Nat.not_lt_zero _)⟩, List.Subset.refl _⟩
  case cons r rs =>
    cases r
    case pending =>
      cases h
      refine ⟨.pending _ ⟨rfl, fun he => ?_⟩, List.subset_cons_self ..⟩
      obtain ⟨n, hn⟩ := he.left _ List.mem_cons_self
      cases hn
    case error =>
      cases h
      exact ⟨.inner _ ⟨rfl, List.mem_cons_self⟩, List.subset_cons_self ..⟩
    case ready n =>
      cases h
      refine ⟨.bytes _ _ ⟨List.take_append_drop .., ?length, ?ends, ?eager⟩, List.subset_cons_self ..⟩
      case length => exact Nat.le_trans (List.length_take_le ..) (Nat.min_le_right ..)
      case ends =>
        intro hc hb
        rw [List.take_eq_nil_iff] at hb
        exact hb.resolve_left (by omega)
      case eager =>
        intro hb he
        have hlen := List.length_pos_iff.mpr hb
        have hlt : rest.length < rs.length + 1 := he.right
        refine ⟨fun r hr => he.left r (List.mem_cons_of_mem _ hr), ?_⟩
        simp only [List.length_take, List.length_drop] at hlen ⊢
        omega

-- Every call that is answered takes an answer.
theorem Source.length_pollRead {src src' : Source} {cap : Nat} {bs : List UInt8}
    (h : src.pollRead cap = (.ready bs, src')) : src'.responses.length < src.responses.length := by
  rw [Source.pollRead] at h
  split at h <;> cases h
  case h_4 rs n hr =>
    rw [hr]
    exact Nat.lt_succ_self _

end PollIo
