import JammVpn.Net.VisionUnpad

namespace JammVpn.Vision

open Bytes PollIo

def block (command : UInt8) (content padding : List UInt8) : List UInt8 :=
  command :: (toBe 2 content.length ++ toBe 2 padding.length ++ content ++ padding)

-- Lengths that can be written in two bytes.
structure Fits (content padding : List UInt8) : Prop where
  content : content.length < 65536
  padding : padding.length < 65536

-- Blocks that are all to be continued.
inductive Blocks : (wire content : List UInt8) → Prop
  | nil : Blocks [] []
  | snoc {wire out content padding} : Blocks wire out → Fits content padding →
      Blocks (wire ++ block 0 content padding) (out ++ content)

namespace VisionUnpadder

variable {uuid : List UInt8} {first : Bool} {acc data content padding : List UInt8} {command : UnpadCommand}

theorem unpadLoop_header {c h l ph pl : UInt8} (hc : UnpadCommand.tryFrom c = .ok command) :
    unpadLoop uuid first .readingCommand acc (c :: h :: l :: ph :: pl :: data) =
      unpadLoop uuid first (.readingContent command [] (h.toNat * 256 + l.toNat) (ph.toNat * 256 + pl.toNat))
        acc data := by
  rw [unpadLoop, hc]
  dsimp only
  rw [unpadLoop, unpadLoop, unpadLoop, unpadLoop]

section

variable {part : List UInt8} {remaining paddingLen : Nat}

-- The data ends within the padding.
theorem unpadLoop_padding_of_lt (h : data.length < remaining) :
    unpadLoop uuid first (.readingPadding command part remaining) acc data =
      (.ok (outOfBlock first (acc ++ part)), ⟨.readingPadding command [] (remaining - data.length), first⟩) := by
  have hout {n : Nat} (hn : 0 < n) :
      unpadLoop uuid first (.readingPadding command part n) acc [] =
        (.ok (outOfBlock first (acc ++ part)), ⟨.readingPadding command [] n, first⟩) := by
    rw [unpadLoop.eq_def]
    exact if_pos ⟨hn, rfl⟩
  cases data
  case nil => exact hout h
  case cons b data =>
    have hlt := Nat.sub_pos_of_lt h
    rw [unpadLoop.eq_def]
    dsimp only
    rw [if_neg (fun hc => absurd hc.2 (Nat.succ_ne_zero _)), if_neg (Nat.ne_of_gt hlt), hout hlt]

-- All of the padding has come, and a block with no padding left is complete.
theorem unpadLoop_padding_of_le (h : remaining ≤ data.length) :
    unpadLoop uuid first (.readingPadding command part remaining) acc data =
      unpadLoop uuid first (.readingPadding command [] 0) (acc ++ part) (data.drop remaining) := by
  have hn : ¬(0 < remaining ∧ data.length = 0) := by omega
  have hn' : ¬(0 < 0 ∧ (data.drop remaining).length = 0) := fun hc => absurd hc.1 (Nat.lt_irrefl 0)
  rw [unpadLoop.eq_def, unpadLoop.eq_def _ _ (.readingPadding command [] 0)]
  dsimp only
  rw [if_neg hn, if_pos (Nat.sub_eq_zero_of_le h), if_neg hn', if_pos (Nat.zero_sub _), List.append_nil, List.drop_zero]

theorem unpadLoop_complete_continue :
    unpadLoop uuid first (.readingPadding .«continue» [] 0) acc data =
      unpadLoop uuid false .readingCommand acc data := by
  rw [unpadLoop, if_neg (fun hc => absurd hc.1 (Nat.lt_irrefl 0)), if_pos (Nat.zero_sub _), List.append_nil,
    List.drop_zero]

theorem unpadLoop_complete (h : command ≠ .«continue») :
    unpadLoop uuid first (.readingPadding command [] 0) acc data =
      (.ok { content := acc ++ data, command := some command }, { state := .done, firstBlock := false }) := by
  rw [unpadLoop, if_neg (fun hc => absurd hc.1 (Nat.lt_irrefl 0)), if_pos (Nat.zero_sub _), List.append_nil,
    List.drop_zero]
  exact h

-- The data ends within the content.
theorem unpadLoop_content_of_lt (h : data.length < remaining) :
    unpadLoop uuid first (.readingContent command part remaining paddingLen) acc data =
      (.ok (outOfBlock first (acc ++ part ++ data)),
        ⟨.readingContent command [] (remaining - data.length) paddingLen, first⟩) := by
  have hout {n : Nat} {part : List UInt8} (hn : 0 < n) :
      unpadLoop uuid first (.readingContent command part n paddingLen) acc [] =
        (.ok (outOfBlock first (acc ++ part)), ⟨.readingContent command [] n paddingLen, first⟩) := by
    rw [unpadLoop, if_pos ⟨hn, rfl⟩]
  cases data
  case nil => rw [hout h, List.append_nil]; rfl
  case cons b data =>
    have hlt := Nat.sub_pos_of_lt h
    rw [unpadLoop, if_neg (fun hc => absurd hc.2 (Nat.succ_ne_zero _)), if_neg (Nat.ne_of_gt hlt), hout hlt,
      List.take_of_length_le (Nat.le_of_lt h), List.append_assoc]

theorem unpadLoop_content_of_le (h : remaining ≤ data.length) :
    unpadLoop uuid first (.readingContent command part remaining paddingLen) acc data =
      unpadLoop uuid first (.readingPadding command (part ++ data.take remaining) paddingLen) acc
        (data.drop remaining) := by
  have hn : ¬(0 < remaining ∧ data.length = 0) := by omega
  rw [unpadLoop, if_neg hn, if_pos (Nat.sub_eq_zero_of_le h)]

end

theorem unpadLoop_content {paddingLen : Nat} :
    unpadLoop uuid first (.readingContent command [] content.length paddingLen) acc (content ++ data) =
      unpadLoop uuid first (.readingPadding command content paddingLen) acc data := by
  rw [unpadLoop_content_of_le (by rw [List.length_append]; exact Nat.le_add_right _ _), List.take_left, List.drop_left,
    List.nil_append]

theorem unpadLoop_padding :
    unpadLoop uuid first (.readingPadding command content padding.length) acc (padding ++ data) =
      unpadLoop uuid first (.readingPadding command [] 0) (acc ++ content) data := by
  rw [unpadLoop_padding_of_le (by rw [List.length_append]; exact Nat.le_add_right _ _), List.drop_left]

theorem two_bytes {n : Nat} (h : n < 65536) : ∃ hi lo : UInt8, toBe 2 n = [hi, lo] ∧ hi.toNat * 256 + lo.toNat = n := by
  refine ⟨_, _, toBe_two n, ?_⟩
  rw [UInt8.toNat_ofNat', UInt8.toNat_ofNat']
  omega

-- The lengths of a block are read back.
theorem unpadLoop_block {c : UInt8} (hc : UnpadCommand.tryFrom c = .ok command) (hf : Fits content padding) :
    unpadLoop uuid first .readingCommand acc (block c content padding ++ data) =
      unpadLoop uuid first (.readingPadding command [] 0) (acc ++ content) data := by
  have ⟨hi, lo, hcontent, hn⟩ := two_bytes hf.content
  have ⟨phi, plo, hpadding, hp⟩ := two_bytes hf.padding
  have hb : block c content padding ++ data = c :: hi :: lo :: phi :: plo :: (content ++ (padding ++ data)) := by
    rw [block, hcontent, hpadding]
    simp
  rw [hb, unpadLoop_header hc, hn, hp, unpadLoop_content, unpadLoop_padding]

theorem unpadLoop_continue (hf : Fits content padding) :
    unpadLoop uuid first .readingCommand acc (block 0 content padding ++ data) =
      unpadLoop uuid false .readingCommand (acc ++ content) data :=
  (unpadLoop_block rfl hf).trans unpadLoop_complete_continue

theorem unpadLoop_blocks {wire out : List UInt8} (h : Blocks wire out) :
    ∃ first', (wire ≠ [] → first' = false) ∧ ∀ acc data,
      unpadLoop uuid first .readingCommand acc (wire ++ data) =
        unpadLoop uuid first' .readingCommand (acc ++ out) data := by
  induction h
  case nil =>
    refine ⟨first, fun h => absurd rfl h, fun acc data => ?_⟩
    rw [List.nil_append, List.append_nil]
  case snoc wire out content padding _ hf hi =>
    have ⟨first', _, hi⟩ := hi
    refine ⟨false, fun _ => rfl, fun acc data => ?_⟩
    rw [List.append_assoc, hi, unpadLoop_continue hf, List.append_assoc]

theorem unpadLoop_end (hf : Fits content padding) :
    unpadLoop uuid first .readingCommand acc (block 1 content padding ++ data) =
      (.ok { content := acc ++ content ++ data, command := some .«end» }, { state := .done, firstBlock := false }) :=
  (unpadLoop_block rfl hf).trans (unpadLoop_complete nofun)

theorem unpad_new (h : uuid.length = 16) :
    new.unpad uuid (uuid ++ data) = unpadLoop uuid true .readingCommand [] data := by
  have hl : ¬(uuid ++ data).length < 16 := by
    rw [List.length_append]
    omega
  have ht : (uuid ++ data).take 16 = uuid := List.take_left' h
  show unpadLoop uuid true .initial [] (uuid ++ data) = _
  rw [unpadLoop, if_neg hl, if_neg (not_not.mpr ht), List.drop_left' h]

-- What a block goes on with, when so much of its content and padding is still to come.
def settle (first : Bool) (command : UnpadCommand) (contentLen paddingLen : Nat) : VisionUnpadder :=
  if 0 < contentLen then ⟨.readingContent command [] contentLen paddingLen, first⟩
  else if 0 < paddingLen then ⟨.readingPadding command [] paddingLen, first⟩
  else if command = .«continue» then ⟨.readingCommand, false⟩
  else ⟨.done, false⟩

-- What one byte behind the user's id gives, and what comes after it.
def eat (u : VisionUnpadder) (b : UInt8) : Except IoError (List UInt8 × VisionUnpadder) :=
  match u.state with
  | .readingCommand                                  =>
    (UnpadCommand.tryFrom b).map fun command => ([], { u with state := .readingContentLength command none })
  | .readingContentLength command none               =>
    .ok ([], { u with state := .readingContentLength command (some b) })
  | .readingContentLength command (some a)           =>
    .ok ([], { u with state := .readingPaddingLength command (a.toNat * 256 + b.toNat) none })
  | .readingPaddingLength command contentLen none    =>
    .ok ([], { u with state := .readingPaddingLength command contentLen (some b) })
  | .readingPaddingLength command contentLen (some a) =>
    .ok ([], settle u.firstBlock command contentLen (a.toNat * 256 + b.toNat))
  | .readingContent command _ remaining paddingLen   => .ok ([b], settle u.firstBlock command (remaining - 1) paddingLen)
  | .readingPadding command _ remaining              => .ok ([], settle u.firstBlock command 0 (remaining - 1))
  | _                                                => .ok ([b], u)

def feed (u : VisionUnpadder) : List UInt8 → Except IoError (List UInt8 × VisionUnpadder)
  | []        => .ok ([], u)
  | b :: data =>
    match u.eat b with
    | .error e     => .error e
    | .ok (out, u) => (u.feed data).map fun r => (out ++ r.1, r.2)

-- Within the content or the padding of a block.
def InBlock (u : VisionUnpadder) : Prop :=
  match u.state with
  | .readingContent .. => True
  | .readingPadding .. => True
  | _                  => False

-- There is a block to read, or to go on with.
def Running (u : VisionUnpadder) : Prop :=
  match u.state with
  | .initial                        => False
  | .done                           => False
  | .readingContent _ part n _      => part = [] ∧ 0 < n
  | .readingPadding _ part n        => part = [] ∧ 0 < n
  | _                               => True

section

variable {contentLen paddingLen : Nat} {b : UInt8}

theorem settle_running (first : Bool) (command : UnpadCommand) (contentLen paddingLen : Nat) :
    (settle first command contentLen paddingLen).state = .done ∨ (settle first command contentLen paddingLen).Running := by
  rw [settle]
  split
  case isTrue h => exact .inr ⟨rfl, h⟩
  case isFalse =>
    split
    case isTrue h => exact .inr ⟨rfl, h⟩
    case isFalse =>
      split
      case isTrue  => exact .inr trivial
      case isFalse => exact .inl rfl

theorem eat_running {u u' : VisionUnpadder} {out : List UInt8} (hu : u.Running) (h : u.eat b = .ok (out, u')) :
    u'.state = .done ∨ u'.Running := by
  rcases u with ⟨state, first⟩
  cases state
  case initial => exact hu.elim
  case done    => exact hu.elim
  case readingCommand =>
    cases hc : UnpadCommand.tryFrom b
    case error => simp [eat, hc, Except.map] at h
    case ok =>
      simp only [eat, hc, Except.map] at h
      cases h
      exact .inr trivial
  case readingContentLength command firstByte =>
    cases firstByte <;> (cases h; exact .inr trivial)
  case readingPaddingLength command contentLen firstByte =>
    cases firstByte
    case none =>
      cases h
      exact .inr trivial
    case some =>
      cases h
      exact settle_running ..
  case readingContent =>
    cases h
    exact settle_running ..
  case readingPadding =>
    cases h
    exact settle_running ..

-- A byte of content, or of padding.
theorem unpadLoop_content_cons {n : Nat} :
    unpadLoop uuid first (.readingContent command [] (n + 1) paddingLen) acc (b :: data) =
      unpadLoop uuid first (.readingContent command [] n paddingLen) (acc ++ [b]) data := by
  have hfold {part data} (acc : List UInt8) :
      unpadLoop uuid first (.readingPadding command part paddingLen) acc data =
        unpadLoop uuid first (.readingPadding command [] paddingLen) (acc ++ part) data := by
    by_cases h : data.length < paddingLen
    case pos => rw [unpadLoop_padding_of_lt h, unpadLoop_padding_of_lt h, List.append_nil]
    case neg =>
      have hle := Nat.le_of_not_lt h
      rw [unpadLoop_padding_of_le hle, unpadLoop_padding_of_le hle, List.append_nil]
  by_cases h : data.length < n
  case pos =>
    rw [unpadLoop_content_of_lt (Nat.succ_lt_succ h), unpadLoop_content_of_lt h, List.length_cons,
      Nat.add_sub_add_right, List.append_nil, List.append_nil, List.append_assoc, List.singleton_append]
  case neg =>
    have hle := Nat.le_of_not_lt h
    rw [unpadLoop_content_of_le (Nat.succ_le_succ hle), unpadLoop_content_of_le hle, hfold, hfold (acc ++ [b]),
      List.append_assoc]
    rfl

theorem unpadLoop_padding_cons {n : Nat} :
    unpadLoop uuid first (.readingPadding command [] (n + 1)) acc (b :: data) =
      unpadLoop uuid first (.readingPadding command [] n) acc data := by
  by_cases h : data.length < n
  case pos =>
    rw [unpadLoop_padding_of_lt (Nat.succ_lt_succ h), unpadLoop_padding_of_lt h, List.length_cons,
      Nat.add_sub_add_right]
  case neg =>
    have hle := Nat.le_of_not_lt h
    rw [unpadLoop_padding_of_le (Nat.succ_le_succ hle), unpadLoop_padding_of_le hle]
    rfl

-- The unpadder goes on from there, or is done, and the rest of the data is not looked at.
def Resumes (uuid : List UInt8) (u : VisionUnpadder) (acc data : List UInt8)
    (q : Except IoError UnpadResult × VisionUnpadder) : Prop :=
  (u.state = .done ∧ ∃ command, command ≠ .«continue» ∧ q = (.ok ⟨acc ++ data, some command⟩, u)) ∨
    u.state ≠ .done ∧ q = unpadLoop uuid u.firstBlock u.state acc data

theorem resumes_settle :
    Resumes uuid (settle first command contentLen paddingLen) acc data
      (unpadLoop uuid first (.readingContent command [] contentLen paddingLen) acc data) := by
  rw [settle]
  split
  case isTrue => exact .inr ⟨nofun, rfl⟩
  case isFalse hcontent =>
    cases Nat.eq_zero_of_not_pos hcontent
    rw [unpadLoop_content_of_le (Nat.zero_le _)]
    split
    case isTrue => exact .inr ⟨nofun, rfl⟩
    case isFalse hpadding =>
      cases Nat.eq_zero_of_not_pos hpadding
      split
      case isTrue hc =>
        subst hc
        exact .inr ⟨nofun, unpadLoop_complete_continue⟩
      case isFalse hc => exact .inl ⟨rfl, command, hc, unpadLoop_complete hc⟩

theorem resumes_eat {u u' : VisionUnpadder} {out : List UInt8} (hu : u.Running) (h : u.eat b = .ok (out, u')) :
    Resumes uuid u' (acc ++ out) data (unpadLoop uuid u.firstBlock u.state acc (b :: data)) := by
  rcases u with ⟨state, first⟩
  cases state
  case initial => exact hu.elim
  case done    => exact hu.elim
  case readingCommand =>
    cases hc : UnpadCommand.tryFrom b
    case error => simp [eat, hc, Except.map] at h
    case ok =>
      simp only [eat, hc, Except.map] at h
      cases h
      rw [unpadLoop, hc, List.append_nil]
      exact .inr ⟨UnpadState.noConfusion, rfl⟩
  case readingContentLength command firstByte =>
    cases firstByte
    all_goals
      cases h
      rw [unpadLoop, List.append_nil]
      exact .inr ⟨UnpadState.noConfusion, rfl⟩
  case readingPaddingLength command contentLen firstByte =>
    cases firstByte
    case none =>
      cases h
      rw [unpadLoop, List.append_nil]
      exact .inr ⟨UnpadState.noConfusion, rfl⟩
    case some =>
      cases h
      rw [unpadLoop, List.append_nil]
      exact resumes_settle
  case readingContent command part n paddingLen =>
    obtain ⟨rfl, hn⟩ := hu
    obtain ⟨n, rfl⟩ := Nat.exists_eq_succ_of_ne_zero (Nat.ne_of_gt hn)
    cases h
    rw [unpadLoop_content_cons]
    exact resumes_settle
  case readingPadding command part n =>
    obtain ⟨rfl, hn⟩ := hu
    obtain ⟨n, rfl⟩ := Nat.exists_eq_succ_of_ne_zero (Nat.ne_of_gt hn)
    cases h
    rw [unpadLoop_padding_cons, List.append_nil]
    have h := @resumes_settle uuid first acc data command 0 n
    rwa [unpadLoop_content_of_le (Nat.zero_le _)] at h

end

-- The code tests for these two.
def Ends (command : Option UnpadCommand) : Prop :=
  command = some .«end» ∨ command = some .direct

-- What the unpadder makes of data, when its bytes give this.
def Unpads (acc : List UInt8) (q : Except IoError UnpadResult × VisionUnpadder) :
    Except IoError (List UInt8 × VisionUnpadder) → Prop
  | .error e           => q.1 = .error e
  | .ok (content, u)   => ∃ command, q = (.ok ⟨acc ++ content, command⟩, u) ∧ (Ends command ↔ u.state = .done)

section

variable {u u' : VisionUnpadder} {out as bs : List UInt8} {b : UInt8}

theorem feed_cons (h : u.eat b = .ok (out, u')) :
    u.feed (b :: data) = (u'.feed data).map fun r => (out ++ r.1, r.2) := by
  rw [feed, h]

theorem feed_done (h : u.state = .done) : u.feed data = .ok (data, u) := by
  induction data
  case nil => rfl
  case cons b data hi =>
    have he : u.eat b = .ok ([b], u) := by rw [eat, h]
    rw [feed_cons he, hi]
    rfl

theorem feed_append_error {e : IoError} (h : u.feed as = .error e) : u.feed (as ++ bs) = .error e := by
  induction as generalizing u
  case nil => cases h
  case cons b as hi =>
    rw [List.cons_append]
    cases he : u.eat b
    case error =>
      rw [feed, he] at h ⊢
      exact h
    case ok r =>
      rw [feed_cons he] at h ⊢
      cases hr : r.2.feed as
      case error =>
        rw [hr] at h
        rw [hi (hr.trans h)]
        rfl
      case ok =>
        rw [hr] at h
        cases h

theorem feed_append (h : u.feed as = .ok (content, u')) :
    u.feed (as ++ bs) = (u'.feed bs).map fun r => (content ++ r.1, r.2) := by
  induction as generalizing u content
  case nil =>
    cases h
    rw [List.nil_append]
    cases u'.feed bs <;> rfl
  case cons b as hi =>
    rw [List.cons_append]
    cases he : u.eat b
    case error =>
      rw [feed, he] at h
      cases h
    case ok r =>
      rw [feed_cons he] at h ⊢
      cases hr : r.2.feed as
      case error =>
        rw [hr] at h
        cases h
      case ok r' =>
        rw [hr] at h
        cases h
        rw [hi hr]
        cases r'.2.feed bs
        case error => rfl
        case ok    => exact congrArg Except.ok (Prod.ext (List.append_assoc ..).symm rfl)

theorem feed_running (hu : u.Running) (h : u.feed data = .ok (content, u')) : u'.state = .done ∨ u'.Running := by
  induction data generalizing u content
  case nil =>
    cases h
    exact .inr hu
  case cons b data hi =>
    cases he : u.eat b
    case error =>
      rw [feed, he] at h
      cases h
    case ok r =>
      rw [feed_cons he] at h
      cases hr : r.2.feed data
      case error =>
        rw [hr] at h
        cases h
      case ok r' =>
        rw [hr] at h
        cases h
        rcases eat_running hu he with hd | hrun
        case inl =>
          cases (feed_done hd).symm.trans hr
          exact .inl hd
        case inr => exact hi hrun hr

theorem unpads_nil (hu : u.Running) (hacc : u.firstBlock = true → ¬u.InBlock → acc = []) :
    Unpads acc (unpadLoop uuid u.firstBlock u.state acc []) (u.feed []) := by
  rcases u with ⟨state, first⟩
  have hdata (hin : ¬InBlock ⟨state, first⟩) :
      ∃ command, outOfData first acc = ⟨acc ++ [], command⟩ ∧ ¬Ends command := by
    rw [List.append_nil, outOfData]
    split
    case isTrue h  => exact ⟨none, by rw [hacc h hin], by rintro (h | h) <;> cases h⟩
    case isFalse h => exact ⟨_, rfl, by rintro (h | h) <;> cases h⟩
  have hblock : ¬Ends (outOfBlock first (acc ++ [])).command := by
    rw [outOfBlock]
    dsimp only
    split <;> (rintro (h | h) <;> cases h)
  cases state
  case initial => exact hu.elim
  case done    => exact hu.elim
  case readingCommand =>
    obtain ⟨command, ho, hc⟩ := hdata id
    rw [unpadLoop, ho]
    exact ⟨command, rfl, iff_of_false hc UnpadState.noConfusion⟩
  case readingContentLength =>
    obtain ⟨command, ho, hc⟩ := hdata id
    rw [unpadLoop, ho]
    exact ⟨command, rfl, iff_of_false hc UnpadState.noConfusion⟩
  case readingPaddingLength =>
    obtain ⟨command, ho, hc⟩ := hdata id
    rw [unpadLoop, ho]
    exact ⟨command, rfl, iff_of_false hc UnpadState.noConfusion⟩
  case readingContent =>
    obtain ⟨rfl, hn⟩ := hu
    rw [unpadLoop_content_of_lt hn, List.append_nil]
    exact ⟨_, rfl, iff_of_false hblock UnpadState.noConfusion⟩
  case readingPadding =>
    obtain ⟨rfl, hn⟩ := hu
    rw [unpadLoop_padding_of_lt hn]
    exact ⟨_, rfl, iff_of_false hblock UnpadState.noConfusion⟩

theorem settle_first {contentLen paddingLen : Nat} (h : (settle first command contentLen paddingLen).firstBlock = true) :
    (settle first command contentLen paddingLen).InBlock := by
  rw [settle] at h ⊢
  split
  case isTrue => trivial
  case isFalse hcontent =>
    rw [if_neg hcontent] at h
    split
    case isTrue => trivial
    case isFalse hpadding =>
      rw [if_neg hpadding] at h
      split at h <;> cases h

-- Nothing has been given before the header of the first block.
theorem eat_first (hu : u.Running) (h : u.eat b = .ok (out, u'))
    (hacc : u.firstBlock = true → ¬u.InBlock → acc = []) (hfirst : u'.firstBlock = true) (hin : ¬u'.InBlock) :
    acc ++ out = [] := by
  rcases u with ⟨state, first⟩
  cases state
  case initial => exact hu.elim
  case done    => exact hu.elim
  case readingCommand =>
    cases hc : UnpadCommand.tryFrom b
    case error => simp [eat, hc, Except.map] at h
    case ok =>
      simp only [eat, hc, Except.map] at h
      cases h
      rw [List.append_nil, hacc hfirst id]
  case readingContentLength command firstByte =>
    cases firstByte
    all_goals
      cases h
      rw [List.append_nil, hacc hfirst id]
  case readingPaddingLength command contentLen firstByte =>
    cases firstByte
    case none =>
      cases h
      rw [List.append_nil, hacc hfirst id]
    case some =>
      cases h
      exact absurd (settle_first hfirst) hin
  case readingContent =>
    cases h
    exact absurd (settle_first hfirst) hin
  case readingPadding =>
    cases h
    exact absurd (settle_first hfirst) hin

theorem unpadLoop_eat_error {e : IoError} (h : u.eat b = .error e) :
    (unpadLoop uuid u.firstBlock u.state acc (b :: data)).1 = .error e := by
  rcases u with ⟨state, first⟩
  cases state
  case readingCommand =>
    cases hc : UnpadCommand.tryFrom b
    case ok => simp [eat, hc, Except.map] at h
    case error =>
      simp only [eat, hc, Except.map] at h
      cases h
      rw [unpadLoop, hc]
  case readingContentLength firstByte   => cases firstByte <;> cases h
  case readingPaddingLength firstByte => cases firstByte <;> cases h
  all_goals cases h

-- The unpadder takes its data byte by byte.
theorem unpads (hu : u.Running) (hacc : u.firstBlock = true → ¬u.InBlock → acc = []) :
    Unpads acc (unpadLoop uuid u.firstBlock u.state acc data) (u.feed data) := by
  induction data generalizing u acc
  case nil => exact unpads_nil hu hacc
  case cons b data hi =>
    cases he : u.eat b
    case error e =>
      rw [feed, he]
      exact unpadLoop_eat_error he
    case ok r =>
      rw [feed_cons he]
      rcases resumes_eat hu he with ⟨hd, command, hc, hq⟩ | ⟨hn, hq⟩
      case inl =>
        rw [hq, feed_done hd]
        refine ⟨some command, ?_, iff_of_true ?_ hd⟩
        case refine_1 => rw [List.append_assoc]
        case refine_2 => cases command <;> simp [Ends] at hc ⊢
      case inr =>
        have hrun := (eat_running hu he).resolve_left hn
        have h := hi hrun (eat_first hu he hacc)
        rw [hq]
        cases hr : r.2.feed data
        case error =>
          rw [hr] at h
          exact h
        case ok =>
          rw [hr] at h
          have ⟨command, hq, hc⟩ := h
          exact ⟨command, by rw [hq, List.append_assoc], hc⟩

theorem unpads_unpad (hu : u.Running) : Unpads [] (u.unpad uuid data) (u.feed data) :=
  unpads hu fun _ _ => rfl

theorem unpads_new (h : uuid.length = 16) :
    Unpads [] (new.unpad uuid (uuid ++ data)) (feed ⟨.readingCommand, true⟩ data) := by
  rw [unpad_new h]
  exact @unpads uuid [] data ⟨.readingCommand, true⟩ trivial fun _ _ => rfl

end

end VisionUnpadder
end JammVpn.Vision
