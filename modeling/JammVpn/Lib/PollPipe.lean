import JammVpn.Lib.PollRead

-- A reader at the other end of a writer.
namespace PollIo

open Encoder Framing

variable {σ τ ι χ : Type} {E : Encoder σ ι} {F : Framing τ} {G : Filter χ} {s₀ : σ} {t₀ : τ} {x₀ : χ}

-- The reader of what has been written, or of what is left of it when it is cut off somewhere, gives what the
-- writer has taken, in order. It gives all of it before it reports the end, if all has been flushed.
structure Transparent (F : Framing τ) (G : Filter χ) (t₀ : τ) (x₀ : χ) (w : WriteRun σ ι) (cut : List UInt8)
    (r : ReadRun τ χ) : Prop where
  delivered : r.delivered <+: w.accepted
  answers   : ∀ cap, Answers F t₀ (G.apply x₀ cut).1 w.accepted r.delivered r.source cap
    (pollRead F G r.reader r.source cap).1
  flushed   : ∀ w' k, pollFlush w.writer w.sink = (.ready (), w', k) →
    w'.wbuf = [] ∧ k.written = w.sink.written ++ w.writer.wbuf
  complete  : w.writer.wbuf = [] → cut = w.sink.written → ∀ cap ≠ 0,
    (pollRead F G r.reader r.source cap).1 = .ready [] → r.delivered = w.accepted

theorem pollFlush_ready {w w' : Writer σ} {k k' : Sink} (h : pollFlush w k = (.ready (), w', k')) :
    w'.wbuf = [] ∧ k'.written = k.written ++ w.wbuf := by
  rw [pollFlush] at h
  rcases hf : flushWbuf k.responses w.wbuf k.written with ⟨p, wbuf, k₁⟩
  rw [hf] at h
  cases p
  case pending => cases h
  case error e => cases h
  case ready =>
    obtain ⟨he, hk⟩ := flushWbuf_ready hf
    have hd := pollDone_written k₁
    rcases hk₁ : k₁.pollDone with ⟨q, k₂⟩
    simp only [hk₁] at h
    rw [hk₁] at hd
    cases h
    exact ⟨he, hd.trans hk⟩

theorem Filter.apply_isPrefix (G : Filter χ) (x : χ) {as bs : List UInt8} (h : as <+: bs) :
    (G.apply x as).1 <+: (G.apply x bs).1 := by
  have ⟨t, ht⟩ := h
  rw [← ht, G.apply_append]
  exact List.prefix_append _ _

-- It is enough that the frames of what is written are those of the reader.
theorem transparent (hd : ∀ s, E.direct s = false)
    {wbuf₀ : List UInt8} (hf : ∀ h wire content s, Encodes E s₀ h wire content s →
      ∃ t, Frames F t₀ (G.apply x₀ (wbuf₀ ++ wire)).1 content t)
    {ws : List Response} {ops : List (Op ι)} {w : WriteRun σ ι}
    (hw : Machine.run (Encoder.step E) (Encoder.start s₀ wbuf₀ ws) ops = some w)
    {cut : List UInt8} (hcut : cut <+: w.sink.written) {rs : List Response} {caps : List Nat}
    {r : ReadRun τ χ} (hr : Machine.run (Framing.step F G) (Framing.start t₀ x₀ rs cut) caps = some r) :
    Transparent F G t₀ x₀ w cut r := by
  have ⟨wire, content, raw, henc, hwritten, hacc, hraw⟩ := Encoder.inv_run (Encoder.inv_start s₀ wbuf₀ ws) hw
  have hnil : raw = [] := Classical.byContradiction fun hne => by simp [hd] at hraw; exact hne hraw
  rw [hnil, List.append_nil] at hwritten
  rw [hnil, List.append_nil] at hacc
  have ⟨t, hfull⟩ := hf _ _ _ _ henc
  have hpre : (G.apply x₀ cut).1 <+: (G.apply x₀ (wbuf₀ ++ wire)).1 :=
    G.apply_isPrefix x₀ (hcut.trans ⟨_, hwritten⟩)
  have hinv := Framing.inv_run (Framing.inv_start t₀ x₀ rs cut) hr
  rw [← hacc] at hfull
  have hans := answers_of_frames hfull hpre hinv
  constructor
  case delivered => exact (List.prefix_append _ _).trans (hinv.delivered_prefix hfull hpre)
  case answers   => exact hans
  case flushed   => exact fun w' k h => pollFlush_ready h
  case complete =>
    intro hempty hall cap hcap hp
    have ha := hans cap
    rw [hp] at ha
    have ⟨s, hs, _⟩ := ha.2 hcap rfl
    rw [hempty, List.append_nil] at hwritten
    rw [hall, hwritten] at hs
    exact (hfull.unique hs).1

end PollIo
