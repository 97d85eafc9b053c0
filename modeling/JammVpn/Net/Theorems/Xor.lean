import Mathlib.Data.List.Induction
import JammVpn.Net.Xor

namespace JammVpn.Xor

open Transducer

theorem Ctr.applyKeystream_append (c : Ctr) (as bs : List UInt8) :
    c.applyKeystream (as ++ bs) =
      ((c.applyKeystream as).1 ++ ((c.applyKeystream as).2.applyKeystream bs).1,
        ((c.applyKeystream as).2.applyKeystream bs).2) :=
  run_append

theorem Ctr.applyKeystream_snd (c : Ctr) (bs : List UInt8) :
    (c.applyKeystream bs).2 = { c with pos := c.pos + bs.length } := by
  induction bs generalizing c
  case nil => rfl
  case cons b bs hi =>
    simp only [applyKeystream, run] at hi ⊢
    simp [hi, next, Nat.add_assoc, Nat.add_comm 1]

theorem Way.plain_append {way : Way} {as bs cs ds : List UInt8} :
    way.plain (as ++ bs) (cs ++ ds) = way.plain as cs ++ way.plain bs ds := by
  cases way <;> rfl

theorem nil_short : ([] : List UInt8).length < 5 :=
  Nat.succ_pos 4

-- A header with one more plain byte.
def Direction.record (d : Direction) (plain : UInt8) : Direction :=
  let ctr := { d.ctr with pos := d.ctr.pos + 1 }
  let hdr := d.header ++ [plain]
  if h : hdr.length < 5 then { ctr, skip := 0, header := hdr, short := h }
  else { ctr, skip := decodeHeaderLen hdr, header := [], short := nil_short }

-- What becomes of a single byte.
def Direction.step (way : Way) (d : Direction) (b : UInt8) : UInt8 × Direction :=
  if 0 < d.skip then (b, { d with skip := d.skip - 1 })
  else ((d.ctr.next b).1, d.record (way.plain b (d.ctr.next b).1))

section

variable {way : Way} {d : Direction} {b : UInt8} {bs : List UInt8}

theorem run_body (h : bs.length ≤ d.skip) :
    run (Direction.step way) d bs = (bs, { d with skip := d.skip - bs.length }) := by
  induction bs generalizing d
  case nil => rfl
  case cons b bs hi =>
    have h : bs.length < d.skip := h
    have hs : d.step way b = (b, { d with skip := d.skip - 1 }) :=
      if_pos (Nat.zero_lt_of_lt h)
    rw [run, hs, hi (Nat.le_sub_one_of_lt h)]
    simp only [List.length_cons, Nat.sub_sub, Nat.add_comm 1]

theorem run_header_short (hs : d.skip = 0) (h : (d.header ++ bs).length < 5) :
    run (Direction.step way) d bs = ((d.ctr.applyKeystream bs).1, {
      ctr := (d.ctr.applyKeystream bs).2
      skip := 0
      header := d.header ++ way.plain bs (d.ctr.applyKeystream bs).1
      short := by
        rw [List.length_append] at h ⊢
        rwa [length_plain]
    }) := by
  induction bs using List.reverseRecOn
  case nil =>
    refine Prod.ext rfl (Direction.ext rfl hs ?_)
    cases way <;> exact (List.append_nil _).symm
  case append_singleton bs b hi =>
    rw [← List.append_assoc, List.length_append, List.length_singleton] at h
    have hi := hi (Nat.lt_of_succ_lt h)
    have hl := length_plain way d.ctr bs
    have hlt : (d.header ++ way.plain bs (d.ctr.applyKeystream bs).1 ++
        [way.plain b ((d.ctr.applyKeystream bs).2.next b).1]).length < 5 := by
      rw [List.length_append, List.length_append, hl, List.length_singleton]
      rwa [List.length_append] at h
    rw [run_append, hi]
    simp only [run, Direction.step, Direction.record, Nat.lt_irrefl, if_false, dif_pos hlt, Ctr.applyKeystream_append]
    refine Prod.ext rfl (Direction.ext rfl rfl ?_)
    simp only [Ctr.applyKeystream, run, Way.plain_append, List.append_assoc]
    cases way <;> rfl

theorem run_header (hs : d.skip = 0) (h : (d.header ++ bs).length = 5) :
    run (Direction.step way) d bs = ((d.ctr.applyKeystream bs).1, {
      ctr := (d.ctr.applyKeystream bs).2
      skip := decodeHeaderLen (d.header ++ way.plain bs (d.ctr.applyKeystream bs).1)
      header := []
      short := Nat.succ_pos 4
    }) := by
  have := d.short
  obtain rfl | ⟨bs, b, rfl⟩ := bs.eq_nil_or_concat
  case inl =>
    rw [List.append_nil] at h
    omega
  case inr =>
    simp only [List.concat_eq_append] at h ⊢
    rw [← List.append_assoc, List.length_append, List.length_singleton] at h
    have hl := length_plain way d.ctr bs
    have hge : ¬(d.header ++ way.plain bs (d.ctr.applyKeystream bs).1 ++
        [way.plain b ((d.ctr.applyKeystream bs).2.next b).1]).length < 5 := by
      rw [List.length_append, List.length_append, hl, List.length_singleton]
      rw [List.length_append] at h
      omega
    rw [run_append, run_header_short hs (by omega)]
    simp only [run, Direction.step, Direction.record, Nat.lt_irrefl, if_false, dif_neg hge, Ctr.applyKeystream_append]
    refine Prod.ext rfl (Direction.ext rfl ?_ rfl)
    simp only [Ctr.applyKeystream, run, Way.plain_append, List.append_assoc]
    cases way <;> rfl

theorem run_after_body (h : d.skip ≤ bs.length) :
    run (Direction.step way) d bs =
      (bs.take d.skip ++ (run (Direction.step way) { d with skip := 0 } (bs.drop d.skip)).1,
        (run (Direction.step way) { d with skip := 0 } (bs.drop d.skip)).2) := by
  have hl : (bs.take d.skip).length = d.skip := List.length_take_of_le h
  have hb := @run_body way d (bs.take d.skip) (Nat.le_of_eq hl)
  rw [hl, Nat.sub_self] at hb
  conv => lhs; rw [← List.take_append_drop d.skip bs, run_append, hb]

-- The loop over the bodies and the headers does what is done byte by byte.
theorem transform_eq_run (way : Way) (d : Direction) (bs : List UInt8) :
    d.transform way bs = run (Direction.step way) d bs := by
  fun_induction Direction.transform way d bs
  case case1 d bs hs => exact (run_body hs).symm
  case case2 d bs hs body rest need hn out =>
    have hr : (d.header ++ rest).length < 5 := by
      rw [List.length_append]
      omega
    rw [run_after_body (Nat.le_of_not_le hs), @run_header_short way { d with skip := 0 } rest rfl hr]
  case case3 d bs hs body rest need hn out d' tail hi =>
    have hr : (d.header ++ rest.take need).length = 5 := by
      have := d.short
      rw [List.length_append, List.length_take_of_le (Nat.le_of_not_lt hn)]
      omega
    have hh := @run_header way { d with skip := 0 } (rest.take need) rfl hr
    rw [run_after_body (Nat.le_of_not_le hs)]
    have ht : run (Direction.step way) { d with skip := 0 } rest = (out.1 ++ tail.1, tail.2) := by
      conv => lhs; rw [← List.take_append_drop need rest, run_append, hh, ← hi]
    rw [ht, List.append_assoc]

end

theorem decodeHeaderLen_record (hi lo : UInt8) :
    decodeHeaderLen [23, 3, 3, hi, lo] = hi.toNat * 256 + lo.toNat :=
  rfl

theorem decodeHeaderLen_other {h : List UInt8} (ho : ∀ hi lo, h ≠ [23, 3, 3, hi, lo]) : decodeHeaderLen h = 0 := by
  unfold decodeHeaderLen
  split
  case h_1 t major minor hi lo =>
    refine if_pos ?_
    by_contra hc
    simp only [not_or, not_not] at hc
    obtain ⟨rfl, rfl, rfl⟩ := hc
    exact ho hi lo rfl
  case h_2 => rfl

-- Which bytes of a stream are of headers: some bytes are skipped, and after that every header is
-- followed by the body whose length it gives. The last header or body can be cut. What a header gives
-- is said by `headerMask_record` and `headerMask_other`.
def headerMask (skip : Nat) (bs : List UInt8) : List Bool :=
  if bs.length ≤ skip then List.replicate bs.length false
  else if bs.length < skip + 5 then List.replicate skip false ++ List.replicate (bs.length - skip) true
  else
    List.replicate skip false ++ List.replicate 5 true ++
      headerMask (decodeHeaderLen ((bs.drop skip).take 5)) (bs.drop (skip + 5))
termination_by bs.length
decreasing_by
  simp only [List.length_drop]
  omega

theorem headerMask_header {h : List UInt8} (hl : h.length = 5) (bs : List UInt8) :
    headerMask 0 (h ++ bs) = List.replicate 5 true ++ headerMask (decodeHeaderLen h) bs := by
  rw [headerMask, if_neg (by simp [hl]), if_neg (by simp [hl]), List.drop_zero, List.take_left' hl,
    Nat.zero_add, List.drop_left' hl]
  rfl

theorem headerMask_skip (as bs : List UInt8) :
    headerMask as.length (as ++ bs) = List.replicate as.length false ++ headerMask 0 bs := by
  have hl : (as ++ bs).length = as.length + bs.length := List.length_append
  rw [headerMask.eq_def as.length (as ++ bs), headerMask.eq_def 0 bs, hl]
  by_cases hn : bs.length ≤ 0
  case pos =>
    rw [if_pos (by omega), if_pos hn, Nat.le_zero.mp hn, Nat.add_zero, List.replicate_zero, List.append_nil]
  rw [if_neg (by omega), if_neg hn]
  by_cases hs : bs.length < 5
  case pos =>
    rw [if_pos (by omega), if_pos (by omega), Nat.add_sub_cancel_left, List.replicate_zero, List.nil_append,
      Nat.sub_zero]
  case neg =>
    rw [if_neg (by omega), if_neg (by omega), List.drop_left, List.drop_append, List.drop_eq_nil_of_le (by omega),
      Nat.add_sub_cancel_left, List.replicate_zero, List.drop_zero, List.append_assoc]
    rfl

-- The body of a record is left alone, ...
theorem headerMask_record {hi lo : UInt8} {body : List UInt8} (hb : body.length = hi.toNat * 256 + lo.toNat)
    (bs : List UInt8) :
    headerMask 0 ([23, 3, 3, hi, lo] ++ (body ++ bs)) =
      List.replicate 5 true ++ (List.replicate body.length false ++ headerMask 0 bs) := by
  rw [headerMask_header rfl, decodeHeaderLen_record, ← hb, headerMask_skip]

-- ... and after any other header there is the next one.
theorem headerMask_other {h : List UInt8} (hl : h.length = 5) (ho : ∀ hi lo, h ≠ [23, 3, 3, hi, lo])
    (bs : List UInt8) : headerMask 0 (h ++ bs) = List.replicate 5 true ++ headerMask 0 bs := by
  rw [headerMask_header hl, decodeHeaderLen_other ho]

-- Only the bytes of headers go into the key stream, one after the other.
def hide (stream : Nat → UInt8) : Nat → List Bool → List UInt8 → List UInt8
  | pos, true :: mask,  b :: bs => (b ^^^ stream pos) :: hide stream (pos + 1) mask bs
  | pos, false :: mask, b :: bs => b :: hide stream pos mask bs
  | _,   _,             _       => []

section

variable {stream : Nat → UInt8} {pos : Nat} {mask : List Bool} {as bs : List UInt8}

theorem hide_append {mask' : List Bool} (h : mask.length = as.length) :
    hide stream pos (mask ++ mask') (as ++ bs) =
      hide stream pos mask as ++ hide stream (pos + mask.count true) mask' bs := by
  induction as generalizing pos mask
  case nil => rw [List.length_eq_zero_iff.mp h]; rfl
  case cons a as hi =>
    cases mask
    case nil => cases h
    case cons m mask =>
      have hi := fun pos => @hi pos mask (Nat.succ.inj h)
      cases m
      case false => simp [hide, hi]
      case true  => simp [hide, hi, Nat.add_assoc, Nat.add_comm 1]

theorem hide_false {n : Nat} (h : bs.length = n) : hide stream pos (List.replicate n false) bs = bs := by
  subst h
  induction bs
  case nil          => rfl
  case cons b bs hi => simpa [List.replicate_succ, hide] using hi

theorem hide_true {n : Nat} (h : bs.length = n) :
    hide stream pos (List.replicate n true) bs = (Ctr.applyKeystream ⟨stream, pos⟩ bs).1 := by
  subst h
  induction bs generalizing pos
  case nil          => rfl
  case cons b bs hi => simpa [List.replicate_succ, hide, Ctr.applyKeystream, run, Ctr.next] using hi

theorem hide_record {body h : List UInt8} {skip : Nat} (hb : body.length = skip) (hh : h.length = 5)
    (rest : List UInt8) :
    hide stream pos (List.replicate skip false ++ List.replicate 5 true ++ mask) (body ++ h ++ rest) =
      body ++ (Ctr.applyKeystream ⟨stream, pos⟩ h).1 ++ hide stream (pos + 5) mask rest := by
  rw [hide_append (by simp [hb, hh]), hide_append (by simp [hb]), hide_false hb]
  simp only [List.count_append, List.count_replicate]
  rw [hide_true hh]
  rfl

end

theorem run_write_record {d : Direction} {body h : List UInt8} (hd : d.header = [])
    (hb : body.length = d.skip) (hh : h.length = 5) (rest : List UInt8) :
    let d' := {
      ctr := (d.ctr.applyKeystream h).2
      skip := decodeHeaderLen h
      header := []
      short := Nat.succ_pos 4
    }
    run (Direction.step .write) d (body ++ h ++ rest) =
      (body ++ (d.ctr.applyKeystream h).1 ++ (run (Direction.step .write) d' rest).1,
        (run (Direction.step .write) d' rest).2) := by
  have hbody := @run_body .write d body (Nat.le_of_eq hb)
  have hhead := @run_header .write { d with skip := 0 } h rfl (by simpa [hd] using hh)
  rw [hb, Nat.sub_self] at hbody
  rw [run_append, run_append, hbody, hhead]
  simp only [hd, List.nil_append, Way.plain]

-- A writer that is not within a header hides those of the mask.
theorem run_write (d : Direction) (bs : List UInt8) (hd : d.header = []) :
    (run (Direction.step .write) d bs).1 = hide d.ctr.stream d.ctr.pos (headerMask d.skip bs) bs ∧
    (run (Direction.step .write) d bs).2.ctr =
      { d.ctr with pos := d.ctr.pos + (headerMask d.skip bs).count true } := by
  generalize hskip : d.skip = skip
  fun_induction headerMask skip bs generalizing d
  case case1 skip bs hs =>
    rw [run_body (hskip ▸ hs), hide_false rfl]
    simp [List.count_replicate]
  case case2 skip bs hs hl =>
    subst hskip
    have hb : (bs.take d.skip).length = d.skip := List.length_take_of_le (Nat.le_of_not_le hs)
    have hr : (bs.drop d.skip).length = bs.length - d.skip := List.length_drop
    have hh := @run_header_short .write { d with skip := 0 } (bs.drop d.skip) rfl
      (by simp only [hd, List.nil_append, hr]; omega)
    have hm := @hide_append d.ctr.stream d.ctr.pos (List.replicate d.skip false) (bs.take d.skip)
      (bs.drop d.skip) (List.replicate (bs.length - d.skip) true) (by rw [hb, List.length_replicate])
    rw [List.take_append_drop, hide_false hb, hide_true hr] at hm
    rw [run_after_body (Nat.le_of_not_le hs), hh, hm]
    constructor
    case left  => simp [List.count_replicate]
    case right => simp [List.count_replicate, Ctr.applyKeystream_snd]
  case case3 skip bs hs hl hi =>
    subst hskip
    have hb : (bs.take d.skip).length = d.skip := List.length_take_of_le (Nat.le_of_not_le hs)
    have hh : ((bs.drop d.skip).take 5).length = 5 := by
      rw [List.length_take, List.length_drop]
      omega
    have hsplit : bs = bs.take d.skip ++ (bs.drop d.skip).take 5 ++ bs.drop (d.skip + 5) := by
      rw [← List.drop_drop, List.append_assoc, List.take_append_drop, List.take_append_drop]
    have ⟨hout, hctr⟩ := hi {
        ctr := (d.ctr.applyKeystream ((bs.drop d.skip).take 5)).2
        skip := decodeHeaderLen ((bs.drop d.skip).take 5)
        header := []
        short := Nat.succ_pos 4
      } rfl rfl
    have hrun := run_write_record hd hb hh (bs.drop (d.skip + 5))
    have hhide := fun mask => @hide_record d.ctr.stream d.ctr.pos mask _ _ _ hb hh (bs.drop (d.skip + 5))
    simp only [← hsplit] at hrun hhide
    rw [hrun, hhide]
    constructor
    case left =>
      rw [hout]
      simp only [Ctr.applyKeystream_snd, hh]
    case right =>
      rw [hctr]
      simp only [Ctr.applyKeystream_snd, hh, List.count_append, List.count_replicate]
      simp [Nat.add_assoc]

theorem run_write_start (stream : Nat → UInt8) (skip : Nat) (bs : List UInt8) :
    (run (Direction.step .write) (.start stream skip) bs).1 = hide stream 0 (headerMask skip bs) bs ∧
    (run (Direction.step .write) (.start stream skip) bs).2.ctr =
      ⟨stream, (headerMask skip bs).count true⟩ := by
  have ⟨hout, hctr⟩ := run_write (.start stream skip) bs rfl
  simp only [Direction.start, Nat.zero_add] at hctr
  exact ⟨hout, hctr⟩

theorem xor_cancel (a b : UInt8) : a ^^^ b ^^^ b = a := by
  rw [UInt8.xor_assoc, UInt8.xor_self, UInt8.xor_zero]

def Way.other : Way → Way
  | .write => .read
  | .read  => .write

-- A reader in the state of the writer restores what the writer hides, and the other way around.
theorem step_other (way : Way) (d : Direction) (b : UInt8) :
    d.step way.other (d.step way b).1 = (b, (d.step way b).2) := by
  simp only [Direction.step]
  split
  case isTrue => rfl
  case isFalse => cases way <;> simp only [Way.other, Way.plain, Ctr.next, xor_cancel]

theorem run_other (way : Way) (d : Direction) (bs : List UInt8) :
    (run (Direction.step way.other) d (run (Direction.step way) d bs).1).1 = bs ∧
    (run (Direction.step way) d bs).2 =
      (run (Direction.step way.other) d (run (Direction.step way) d bs).1).2 := by
  refine run_inverse (R := Eq) (fun s t b hr => ?_) rfl
  rw [← hr, step_other]
  exact ⟨rfl, rfl⟩

-- Writing and reading go on in one direction each, byte by byte.
theorem run_transformWrite (x : XorState) (cs : List (List UInt8)) :
    (run XorState.transformWrite x cs).1.flatten = (run (Direction.step .write) x.outgoing cs.flatten).1 ∧
    (run XorState.transformWrite x cs).2.outgoing =
      (run (Direction.step .write) x.outgoing cs.flatten).2 := by
  induction cs generalizing x
  case nil => exact ⟨rfl, rfl⟩
  case cons c cs hi =>
    have ⟨hout, hst⟩ := hi (x.transformWrite c).2
    have ht : x.outgoing.transform .write c = _ := transform_eq_run .write x.outgoing c
    rw [XorState.transformWrite, ht] at hout hst
    simp only [run, List.flatten_cons, run_append, XorState.transformWrite, ht]
    exact ⟨congrArg _ hout, hst⟩

theorem run_transformRead (x : XorState) (cs : List (List UInt8)) :
    (run XorState.transformRead x cs).1.flatten = (run (Direction.step .read) x.incoming cs.flatten).1 ∧
    (run XorState.transformRead x cs).2.incoming =
      (run (Direction.step .read) x.incoming cs.flatten).2 := by
  induction cs generalizing x
  case nil => exact ⟨rfl, rfl⟩
  case cons c cs hi =>
    have ⟨hout, hst⟩ := hi (x.transformRead c).2
    have ht : x.incoming.transform .read c = _ := transform_eq_run .read x.incoming c
    rw [XorState.transformRead, ht] at hout hst
    simp only [run, List.flatten_cons, run_append, XorState.transformRead, ht]
    exact ⟨congrArg _ hout, hst⟩

-- A writer and a reader with the same key stream and the same skip, whatever they do in the other
-- direction: the reader restores the stream of the writer from any cut of what is sent, and both
-- depend on their streams alone. Exactly the bytes of headers go into the key stream.
theorem headers_restored (stream : Nat → UInt8) (skip : Nat) (x y : Direction)
    (cs ds : List (List UInt8)) :
    let w := run XorState.transformWrite { outgoing := .start stream skip, incoming := x } cs
    let r := run XorState.transformRead { outgoing := y, incoming := .start stream skip } ds
    (ds.flatten = w.1.flatten → r.1.flatten = cs.flatten ∧ r.2.incoming = w.2.outgoing) ∧
    w.1.flatten = hide stream 0 (headerMask skip cs.flatten) cs.flatten ∧
    w.2.outgoing.ctr = ⟨stream, (headerMask skip cs.flatten).count true⟩ ∧
    ds.flatten = hide stream 0 (headerMask skip r.1.flatten) r.1.flatten ∧
    r.1.flatten = (XorState.transformRead { outgoing := y, incoming := .start stream skip } ds.flatten).1 ∧
    r.2.incoming.ctr = ⟨stream, (headerMask skip r.1.flatten).count true⟩ ∧
    w.2.outgoing.header.length < 5 ∧ r.2.incoming.header.length < 5 := by
  intro w r
  have ⟨hw, hws⟩ := run_transformWrite { outgoing := .start stream skip, incoming := x } cs
  have ⟨hr, hrs⟩ := run_transformRead { outgoing := y, incoming := .start stream skip } ds
  have ⟨hmask, hctr⟩ := run_write_start stream skip cs.flatten
  have ⟨hmask', hctr'⟩ := run_write_start stream skip r.1.flatten
  -- What is read, written again.
  have ⟨hback, hbacks⟩ := run_other .read (.start stream skip) ds.flatten
  rw [← hr, Way.other] at hback hbacks
  refine ⟨fun h => ?_, hw.trans hmask, ?_, ?_, ?_, ?_, w.2.outgoing.short, r.2.incoming.short⟩
  case refine_1 =>
    have ⟨hthere, hthere'⟩ := run_other .write (.start stream skip) cs.flatten
    rw [← hw, ← h, Way.other] at hthere hthere'
    exact ⟨hr.trans hthere, hrs.trans (hthere'.symm.trans hws.symm)⟩
  case refine_2 => exact (congrArg Direction.ctr hws).trans hctr
  case refine_3 => exact hback.symm.trans hmask'
  case refine_4 =>
    rw [hr, XorState.transformRead, transform_eq_run]
  case refine_5 => exact (congrArg Direction.ctr (hrs.trans hbacks)).trans hctr'

-- A skipped byte, a record with a body of one byte, and a header that is not that of a record.
theorem headers_restored_cut_header :
    let key : Nat → UInt8 := fun n => .ofNat (n + 1)
    let bytes : List UInt8 := [7, 23, 3, 3, 0, 1, 9, 22, 3, 3, 0, 1]
    let w := run XorState.transformWrite ⟨.start key 1, .start key 0⟩ [[7, 23, 3], [3, 0, 1, 9, 22], [3, 3, 0, 1]]
    (run XorState.transformRead ⟨.start key 0, .start key 1⟩ [w.1.flatten]).1.flatten = bytes ∧
      w.1.flatten = hide key 0 (headerMask 1 bytes) bytes ∧
      headerMask 1 bytes =
        [false] ++ (List.replicate 5 true ++ ([false] ++ (List.replicate 5 true ++ headerMask 0 []))) := by
  intro key bytes w
  have ⟨restored, hidden, _⟩ := headers_restored key 1 (.start key 0) (.start key 0)
    [[7, 23, 3], [3, 0, 1, 9, 22], [3, 3, 0, 1]] [w.1.flatten]
  refine ⟨(restored List.flatten_singleton).left, hidden, ?mask⟩
  case mask =>
    have hother : ∀ hi lo : UInt8, [22, 3, 3, 0, 1] ≠ [23, 3, 3, hi, lo] := by simp
    have hskip := headerMask_skip [7] ([23, 3, 3, 0, 1] ++ ([9] ++ ([22, 3, 3, 0, 1] ++ [])))
    rw [headerMask_record rfl, headerMask_other rfl hother] at hskip
    exact hskip

end JammVpn.Xor
