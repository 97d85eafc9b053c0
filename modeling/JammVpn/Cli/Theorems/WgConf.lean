import JammVpn.Cli.Links
import JammVpn.Core.Theorems.Parsed
import JammVpn.Lib.Ipv6
import JammVpn.Net.Outbound

namespace JammVpn.Awg

open Text

-- A value as the parser leaves it.
structure Plain (v : String) : Prop where
  ne   : v.toList ≠ []
  trim : trim v.toList = v.toList
  mem  : ∀ c ∈ v.toList, c ≠ '#' ∧ c ≠ ';' ∧ c ≠ '\n'

def PlainParams (params : OrdMap String String) : Prop :=
  ∀ k v, params.get k = some v → Plain v

section Read

variable {s s' : State} {line : List Char}

theorem not_mem_of_mem_split {c : Char} {l p : List Char} (h : p ∈ split c l) : c ∉ p := by
  induction l generalizing p
  case nil =>
    rw [split, List.mem_singleton] at h
    simp [h]
  case cons x l hi =>
    rw [split] at h
    split at h
    case isTrue =>
      rcases List.mem_cons.mp h with rfl | h
      · exact List.not_mem_nil
      · exact hi h
    case isFalse hx =>
      split at h
      case h_1 he => exact absurd he (split_ne_nil c l)
      case h_2 piece tl he =>
        rw [he] at hi
        rcases List.mem_cons.mp h with rfl | h
        · exact List.not_mem_cons_of_ne_of_not_mem (Ne.symm hx) (hi (.head _))
        · exact hi (.tail _ h)

theorem not_mem_of_mem_lines {l s : List Char} (h : l ∈ lines s) : '\n' ∉ l := by
  rw [lines, List.mem_append, List.mem_map] at h
  rcases h with ⟨p, hp, rfl⟩ | h
  case inl =>
    have hn := not_mem_of_mem_split (List.mem_of_mem_dropLast hp)
    cases hs : stripSuffix ['\r'] p
    case none => exact hn
    case some q =>
      rw [stripSuffix_eq_some_iff.mp hs] at hn
      exact fun hq => hn (List.mem_append_left _ hq)
  case inr =>
    obtain ⟨hg, _⟩ := Option.filter_eq_some_iff.mp (Option.mem_toList.mp h)
    exact not_mem_of_mem_split (List.mem_of_getLast? hg)

theorem mem_stripComment {c : Char} (h : c ∈ stripComment line) : c ∈ line ∧ c ≠ '#' ∧ c ≠ ';' := by
  have hp := List.mem_takeWhile_imp h
  simp only [Bool.and_eq_true, bne_iff_ne] at hp
  exact ⟨(List.takeWhile_prefix _).subset h, hp⟩

-- One line leaves plain values behind.
theorem plainParams_readLine (hs : PlainParams s.params) (hl : '\n' ∉ line) (h : readLine s line = .ok s') :
    PlainParams s'.params := by
  rw [readLine] at h
  dsimp only at h
  split at h
  case isTrue =>
    cases h
    exact hs
  split at h
  case h_1 =>
    cases h
    exact hs
  split at h
  case isTrue =>
    cases h
    exact hs
  split at h
  case h_1 => cases h
  case h_2 key value hk =>
    split at h
    case isTrue =>
      cases h
      exact hs
    case isFalse hv =>
      cases h
      intro k v hg
      rw [OrdMap.get_insert] at hg
      split at hg
      case isFalse => exact hs k v hg
      case isTrue =>
        cases hg
        refine ⟨by simpa using hv, by simp, fun c hc => ?_⟩
        rw [String.toList_ofList] at hc
        have hc : c ∈ trim (stripComment line) := by
          rw [(splitOnce_eq_some_iff.mp hk).1]
          simp [mem_of_mem_trim hc]
        obtain ⟨hm, hn⟩ := mem_stripComment (mem_of_mem_trim hc)
        exact ⟨hn.1, hn.2, fun he => hl (he ▸ hm)⟩

theorem plainParams_foldlM {ls : List (List Char)} (hs : PlainParams s.params) (hl : ∀ l ∈ ls, '\n' ∉ l)
    (h : ls.foldlM readLine s = .ok s') : PlainParams s'.params := by
  induction ls generalizing s
  case nil =>
    cases h
    exact hs
  case cons l ls hi =>
    rw [List.foldlM_cons] at h
    obtain ⟨s₁, h₁, h⟩ := bind_eq_ok h
    obtain ⟨hn, hls⟩ := List.forall_mem_cons.mp hl
    exact hi (plainParams_readLine hs hn h₁) hls h

-- What a parsed profile is made of.
structure Parsed (p : ServerProfile) : Prop where
  plain    : PlainParams p.params
  protocol : p.protocol = protocolOf p.params
  endpoint : ∃ e, p.param "endpoint" = some e ∧ Uri.splitHostPort e.toList = .ok (p.address, some p.port)

theorem parsed_of_parseAwgConf {text : List Char} {p : ServerProfile} (h : parseAwgConf text = .ok p) : Parsed p := by
  rw [parseAwgConf] at h
  split at h
  case isTrue => cases h
  case isFalse =>
    obtain ⟨s, hs, h⟩ := bind_eq_ok h
    have hp : PlainParams s.params :=
      plainParams_foldlM (fun k v hk => by simp [OrdMap.get_empty] at hk) (fun l => not_mem_of_mem_lines) hs
    split at h
    case h_1 => cases h
    case h_2 e he =>
      obtain ⟨⟨address, port⟩, hh, h⟩ := bind_eq_ok h
      dsimp only at h
      split at h
      case h_1 => cases h
      case h_2 => 
        cases h
        exact ⟨hp, rfl, e, he, hh⟩

end Read

section Write

variable {s : State} {label v : String}

-- Names of fields end neither at a comment nor at the sign in the middle, and are no section.
def Label (label : List Char) : Prop :=
  label ≠ [] ∧ ∀ c ∈ label, isWhitespace c = false ∧ c ∉ ['#', ';', '=', '[']

def fieldLine (label : List Char) (v : String) : List Char :=
  label ++ ' ' :: '=' :: ' ' :: v.toList

def State.put (s : State) (f : String × Option String) : State :=
  match f.2 with
  | none   => s
  | some v => { s with params := s.params.insert (normalizeKey f.1.toList) v }

theorem stripComment_eq_self {line : List Char} (h : ∀ c ∈ line, c ≠ '#' ∧ c ≠ ';') : stripComment line = line := by
  rw [stripComment, List.takeWhile_eq_self_iff]
  intro c hc
  simpa using h c hc

theorem getLast?_fieldLine (hv : Plain v) (label : List Char) :
    ∀ c ∈ (fieldLine label v).getLast?, isWhitespace c = false := by
  intro c hc
  have he : fieldLine label v = (label ++ [' ', '=', ' ']) ++ v.toList := by simp [fieldLine]
  rw [he, List.getLast?_append_of_ne_nil _ hv.ne, ← hv.trim] at hc
  exact getLast?_trim c hc

theorem mem_fieldLine (hl : Label label.toList) (hv : Plain v) :
    ∀ c ∈ fieldLine label.toList v, c ≠ '#' ∧ c ≠ ';' ∧ c ≠ '\n' := by
  intro c hc
  simp only [fieldLine, List.mem_append, List.mem_cons] at hc
  rcases hc with hc | rfl | rfl | rfl | hc
  · obtain ⟨hw, hn⟩ := hl.2 c hc
    refine ⟨fun he => hn (by simp [he]), fun he => hn (by simp [he]), ?_⟩
    rintro rfl
    exact absurd hw (by decide)
  · decide
  · decide
  · decide
  · exact hv.mem c hc

-- A written line sets its field.
theorem readLine_fieldLine (hs : s.inSection = true) (hl : Label label.toList) (hv : Plain v) :
    readLine s (fieldLine label.toList v) = .ok (s.put (label, some v)) := by
  have hmem := mem_fieldLine hl hv
  have hstrip : stripComment (fieldLine label.toList v) = fieldLine label.toList v :=
    stripComment_eq_self fun c hc => ⟨(hmem c hc).1, (hmem c hc).2.1⟩
  have hhead : ∀ c ∈ (fieldLine label.toList v).head?, isWhitespace c = false ∧ c ≠ '[' := by
    intro c hc
    rw [fieldLine, List.head?_append_of_ne_nil _ hl.1] at hc
    obtain ⟨hw, hn⟩ := hl.2 c (List.mem_of_head? hc)
    exact ⟨hw, fun he => hn (by simp [he])⟩
  have htrim : trim (fieldLine label.toList v) = fieldLine label.toList v :=
    trim_eq_self (fun c hc => (hhead c hc).1) (getLast?_fieldLine hv _)
  have hne : (fieldLine label.toList v).isEmpty = false := by
    rw [List.isEmpty_eq_false_iff, fieldLine]
    exact List.append_ne_nil_of_left_ne_nil hl.1 _
  have hsec : stripPrefix ['['] (fieldLine label.toList v) = none :=
    stripPrefix_single_eq_none fun hh => (hhead _ hh).2 rfl
  have hcut : splitOnce '=' (fieldLine label.toList v) = some (label.toList ++ [' '], ' ' :: v.toList) := by
    have he : fieldLine label.toList v = (label.toList ++ [' ']) ++ '=' :: (' ' :: v.toList) := by simp [fieldLine]
    rw [he]
    refine splitOnce_append ?_ _
    rw [List.mem_append]
    rintro (hc | hc)
    · exact (hl.2 _ hc).2 (by simp)
    · exact absurd hc (by decide)
  have hblank : ∀ c ∈ [' '], isWhitespace c = true := by simp [isWhitespace]
  have hkey : trim (label.toList ++ [' ']) = label.toList := by
    rw [trim_append_blanks hblank]
    exact trim_eq_self (fun c hc => (hl.2 c (List.mem_of_head? hc)).1) fun c hc => (hl.2 c (List.mem_of_getLast? hc)).1
  have hval : trim (' ' :: v.toList) = v.toList := by
    rw [← List.singleton_append, trim_blanks_append hblank, hv.trim]
  rw [readLine]
  simp only [hstrip, htrim, hne, hsec, hcut, hkey, hval, hs, Option.bind_none, Bool.false_eq_true, if_false,
    Bool.not_true, List.isEmpty_eq_false_iff.mpr hv.ne, String.ofList_toList, State.put]

-- Reading what has been written, in front of the rest of the file.
theorem foldlM_confLine (hs : s.inSection = true) (hl : Label label.toList) {o : Option String}
    (ho : ∀ v ∈ o, Plain v) (rest : List Char) :
    (lines (confLine label o ++ rest)).foldlM readLine s = (lines rest).foldlM readLine (s.put (label, o)) := by
  cases o
  case none => rfl
  case some v =>
    have hv := ho v rfl
    have he : confLine label (some v) ++ rest = fieldLine label.toList v ++ '\n' :: rest := by
      simp [confLine, fieldLine]
    have hn : '\n' ∉ fieldLine label.toList v := fun hm => (mem_fieldLine hl hv _ hm).2.2 rfl
    have hcr : stripSuffix ['\r'] (fieldLine label.toList v) = none :=
      stripSuffix_single_eq_none fun hh => absurd (getLast?_fieldLine hv _ _ hh) (by decide)
    rw [he, lines_append hn, hcr, Option.getD_none, List.foldlM_cons, readLine_fieldLine hs hl hv]
    rfl

theorem inSection_put (f : String × Option String) : (s.put f).inSection = s.inSection := by
  rw [State.put]
  split <;> rfl

theorem inSection_foldl_put (fields : List (String × Option String)) :
    (fields.foldl State.put s).inSection = s.inSection := by
  induction fields generalizing s
  case nil => rfl
  case cons f fields hi => rw [List.foldl_cons, hi, inSection_put]

theorem foldlM_confLines {fields : List (String × Option String)} (hs : s.inSection = true)
    (hf : ∀ f ∈ fields, Label f.1.toList ∧ ∀ v ∈ f.2, Plain v) (rest : List Char) :
    (lines (confLines fields ++ rest)).foldlM readLine s =
      (lines rest).foldlM readLine (fields.foldl State.put s) := by
  induction fields generalizing s
  case nil => rfl
  case cons f fields hi =>
    obtain ⟨⟨hl, hv⟩, hf⟩ := List.forall_mem_cons.mp hf
    rw [confLines, List.flatMap_cons, List.append_assoc, foldlM_confLine hs hl hv]
    exact hi (by rw [inSection_put, hs]) hf

end Write

section Export

-- The names that are written, and the keys as which they are read.
def fieldKeys : List (String × String) :=
  [("PrivateKey", "private_key"), ("Address", "address"), ("DNS", "dns")] ++ obfuscation ++
    [("PublicKey", "public_key"), ("PresharedKey", "preshared_key"), ("Endpoint", "endpoint"),
      ("AllowedIPs", "allowed_ips"), ("PersistentKeepalive", "persistent_keepalive")]

-- What is written for a key.
def written (p : ServerProfile) (key : String) : Option String :=
  if key = "endpoint" then some (p.address ++ ":" ++ .ofList (decimal p.port))
  else if key = "allowed_ips" then some ((p.param "allowed_ips").getD "0.0.0.0/0, ::/0")
  else p.param key

variable {p : ServerProfile}

theorem fields_eq (p : ServerProfile) :
    interfaceFields p ++ peerFields p = fieldKeys.map fun e => (e.1, written p e.2) := by
  simp [interfaceFields, peerFields, obfuscation, fieldKeys, written]

theorem normalizeKey_label : ∀ e ∈ fieldKeys, normalizeKey e.1.toList = e.2 := by
  decide +kernel

theorem label_fieldKeys : ∀ e ∈ fieldKeys, Label e.1.toList := by
  have hne : ∀ e ∈ fieldKeys, e.1.toList ≠ [] := by decide +kernel
  have hall : ∀ e ∈ fieldKeys, (e.1.toList.all fun c =>
      decide (isWhitespace c = false ∧ c ∉ ['#', ';', '=', '['])) = true := by decide +kernel
  exact fun e he => ⟨hne e he, forall_mem_of_all (hall e he)⟩

theorem get_put {f : String → Option String} {e : String × String} (hk : normalizeKey e.1.toList = e.2)
    (s : State) (k : String) : (s.put (e.1, f e.2)).params.get k =
      if k = e.2 then (f e.2).or (s.params.get k) else s.params.get k := by
  rw [State.put]
  dsimp only
  split
  case h_1 hn => simp [hn]
  case h_2 v hv =>
    rw [OrdMap.get_insert, hk, hv]
    simp

-- Fields that are put one after the other, where `ks` have been.
theorem get_foldl_put {f : String → Option String} {es : List (String × String)} {ks : List String} {s : State}
    (he : ∀ e ∈ es, normalizeKey e.1.toList = e.2)
    (hs : ∀ k, s.params.get k = if k ∈ ks then f k else none) {k : String}
    (hk : k ∈ es.map Prod.snd ∨ k ∈ ks) :
    ((es.map fun e => (e.1, f e.2)).foldl State.put s).params.get k = f k := by
  induction es generalizing s ks
  case nil =>
    rcases hk with hk | hk
    · cases hk
    · exact (hs k).trans (if_pos hk)
  case cons e es hi =>
    obtain ⟨hn, he⟩ := List.forall_mem_cons.mp he
    rw [List.map_cons, List.foldl_cons]
    refine @hi (e.2 :: ks) _ he (fun k => ?_) ?_
    case refine_1 =>
      rw [get_put hn, hs]
      by_cases h : k = e.2
      case neg => simp [h]
      case pos =>
        subst h
        rw [if_pos rfl, if_pos List.mem_cons_self]
        split
        · exact Option.or_self
        · exact Option.or_none
    case refine_2 =>
      rw [List.map_cons, List.mem_cons] at hk
      rw [List.mem_cons]
      rcases hk with (h | h) | h
      · exact .inr (.inl h)
      · exact .inl h
      · exact .inr (.inr h)

-- The address and the port are written as a plain value.
theorem plain_endpoint (h : Parsed p) (hw : ∀ c ∈ p.address.toList, isWhitespace c = false) :
    Plain (p.address ++ ":" ++ .ofList (decimal p.port)) := by
  obtain ⟨e, he, hs⟩ := h.endpoint
  have hmem := (hostOf_splitHostPort hs).mem
  have hl : (p.address ++ ":" ++ .ofList (decimal p.port)).toList =
      p.address.toList ++ ':' :: decimal p.port := by simp
  have hblank : ∀ c ∈ p.address.toList ++ ':' :: decimal p.port, isWhitespace c = false := by
    intro c hc
    rw [List.mem_append, List.mem_cons] at hc
    rcases hc with hc | rfl | hc
    · exact hw c hc
    · rfl
    · exact (Ip.addressChar_decimal hc).not_blank
  refine ⟨?_, ?_, fun c hc => ?_⟩ <;> rw [hl] at *
  case refine_1 => simp
  case refine_2 =>
    exact trim_eq_self (fun c hc => hblank c (List.mem_of_head? hc)) fun c hc => hblank c (List.mem_of_getLast? hc)
  case refine_3 =>
    have hn : c ≠ '\n' := fun hn => absurd (hblank c hc) (by rw [hn]; decide)
    rw [List.mem_append, List.mem_cons] at hc
    rcases hc with hc | rfl | hc
    · have := (h.plain _ _ he).mem c (hmem c hc)
      exact ⟨this.1, this.2.1, hn⟩
    · decide
    · refine ⟨?_, ?_, hn⟩ <;> rintro rfl <;> exact not_mem_decimal (by decide) _ hc

theorem plain_written (h : Parsed p) (hw : ∀ c ∈ p.address.toList, isWhitespace c = false) {k v : String}
    (hv : written p k = some v) : Plain v := by
  rw [written] at hv
  split at hv
  case isTrue =>
    cases hv
    exact plain_endpoint h hw
  case isFalse =>
    split at hv
    case isFalse => exact h.plain _ _ hv
    case isTrue =>
      cases hv
      cases ha : p.param "allowed_ips"
      case some v => exact h.plain _ _ ha
      case none => exact ⟨by decide, by decide +kernel, forall_mem_of_all (by decide +kernel)⟩

-- The two lines that begin a section.
theorem foldlM_interface (rest : List Char) :
    (lines ("[Interface]\n".toList ++ rest)).foldlM readLine {} =
      (lines rest).foldlM readLine { inSection := true } := by
  have he : "[Interface]\n".toList ++ rest = "[Interface]".toList ++ '\n' :: rest := by simp
  rw [he, lines_append (by decide)]
  rfl

theorem foldlM_peer {s : State} (hs : s.inSection = true) (rest : List Char) :
    (lines ("\n[Peer]\n".toList ++ rest)).foldlM readLine s = (lines rest).foldlM readLine s := by
  have he : "\n[Peer]\n".toList ++ rest = [] ++ '\n' :: ("[Peer]".toList ++ '\n' :: rest) := by simp
  have hr : readLine s "[Peer]".toList = .ok s := by
    cases s
    cases hs
    rfl
  have hcr : (stripSuffix ['\r'] "[Peer]".toList).getD "[Peer]".toList = "[Peer]".toList := by decide
  rw [he, lines_append List.not_mem_nil, lines_append (by decide), hcr, List.foldlM_cons]
  have hblank : readLine s ((stripSuffix ['\r'] []).getD []) = .ok s := rfl
  rw [hblank]
  show List.foldlM readLine s ("[Peer]".toList :: lines rest) = _
  rw [List.foldlM_cons, hr]
  rfl

theorem foldlM_sections {fs gs : List (String × Option String)}
    (h : ∀ f ∈ fs ++ gs, Label f.1.toList ∧ ∀ v ∈ f.2, Plain v) :
    (lines ("[Interface]\n".toList ++ (confLines fs ++ ("\n[Peer]\n".toList ++ confLines gs)))).foldlM readLine {} =
      .ok ((fs ++ gs).foldl State.put { inSection := true }) := by
  obtain ⟨hf, hg⟩ := List.forall_mem_append.mp h
  have hin := inSection_foldl_put (s := { inSection := true }) fs
  rw [foldlM_interface, foldlM_confLines rfl hf, foldlM_peer hin, ← List.append_nil (confLines gs),
    foldlM_confLines hin hg, lines_nil, List.foldl_append]
  rfl

theorem foldlM_nodeToWgConf (h : Parsed p) (hw : ∀ c ∈ p.address.toList, isWhitespace c = false) :
    ∃ s : State, (lines (nodeToWgConf p)).foldlM readLine {} = .ok s ∧
      ∀ k ∈ fieldKeys.map Prod.snd, s.params.get k = written p k := by
  have hplain : ∀ f ∈ interfaceFields p ++ peerFields p, Label f.1.toList ∧ ∀ v ∈ f.2, Plain v := by
    rw [fields_eq]
    intro f hf
    obtain ⟨e, he, rfl⟩ := List.mem_map.mp hf
    exact ⟨label_fieldKeys e he, fun v hv => plain_written h hw hv⟩
  refine ⟨_, foldlM_sections hplain, fun k hk => ?_⟩
  rw [fields_eq]
  refine @get_foldl_put _ _ [] _ normalizeKey_label (fun k => ?_) k (.inl hk)
  rw [if_neg List.not_mem_nil]
  exact OrdMap.get_empty k

-- What the outbound is made of.
theorem outboundFromProfile_congr {p' : ServerProfile} (hk : p.protocol = .wireguard ∨ p.protocol = .amneziaWg)
    (hp : p'.protocol = p.protocol) (ha : p'.address = p.address) (hport : p'.port = p.port)
    (hparam : ∀ k ∈ fieldKeys.map Prod.snd, k ≠ "endpoint" → k ≠ "allowed_ips" → p'.param k = p.param k) :
    outboundFromProfile p' = outboundFromProfile p := by
  have hw : p'.wireguardOutbound = p.wireguardOutbound := by
    have h (k : String) (hm : k ∈ fieldKeys.map Prod.snd ∧ k ≠ "endpoint" ∧ k ≠ "allowed_ips") :
        p'.param k = p.param k := hparam k hm.1 hm.2.1 hm.2.2
    simp only [ServerProfile.wireguardOutbound, ServerProfile.requireKey, ServerProfile.require,
      ServerProfile.optionalKey, ServerProfile.awgObfuscation, ServerProfile.awgObfuscation.g, ServerProfile.server,
      h "private_key" (by decide), h "public_key" (by decide), h "preshared_key" (by decide),
      h "address" (by decide), h "dns" (by decide), h "persistent_keepalive" (by decide), h "jc" (by decide),
      h "jmin" (by decide), h "jmax" (by decide), h "s1" (by decide), h "s2" (by decide), h "h1" (by decide),
      h "h2" (by decide), h "h3" (by decide), h "h4" (by decide), hp, ha, hport]
  rcases hk with hk | hk
  · simp only [outboundFromProfile, hp, hk, hw]
  · simp only [outboundFromProfile, hp, hk, hw]

theorem protocolOf_congr {params params' : OrdMap String String}
    (h : ∀ k ∈ amneziaKeys, params'.get k = params.get k) : protocolOf params' = protocolOf params := by
  have ha : (amneziaKeys.any fun k => (params'.get k).isSome) = amneziaKeys.any fun k => (params.get k).isSome := by
    rw [Bool.eq_iff_iff, List.any_eq_true, List.any_eq_true]
    refine exists_congr fun k => and_congr_right fun hk => ?_
    rw [h k hk]
  rw [protocolOf, protocolOf, ha]

theorem amneziaKeys_written : ∀ k ∈ amneziaKeys, k ∈ fieldKeys.map Prod.snd ∧ k ≠ "endpoint" ∧ k ≠ "allowed_ips" := by
  decide +kernel

-- The file that is written for a parsed file is read as the same tunnel.
theorem conf_export_import {text : List Char} (h : parseAwgConf text = .ok p) (hne : p.address ≠ "")
    (hw : ∀ c ∈ p.address.toList, isWhitespace c = false ∧ c ≠ '[' ∧ c ≠ ']') :
    ∃ p', parseAwgConf (nodeToWgConf p) = .ok p' ∧ p'.address = p.address ∧ p'.port = p.port ∧
      p'.protocol = p.protocol ∧ outboundFromProfile p' = outboundFromProfile p := by
  have hp := parsed_of_parseAwgConf h
  obtain ⟨s, hs, hg⟩ := foldlM_nodeToWgConf hp fun c hc => (hw c hc).1
  obtain ⟨e, _, hsplit⟩ := hp.endpoint
  have hlt : p.port < 65536 := (hostOf_splitHostPort hsplit).lt _ rfl
  have hparam : ∀ k ∈ fieldKeys.map Prod.snd, k ≠ "endpoint" → k ≠ "allowed_ips" → s.params.get k = p.param k := by
    intro k hk h₁ h₂
    rw [hg k hk, written, if_neg h₁, if_neg h₂]
  have hend : s.params.get "endpoint" = some (p.address ++ ":" ++ .ofList (decimal p.port)) :=
    hg "endpoint" (by decide)
  have haddr : Uri.splitHostPort (p.address ++ ":" ++ .ofList (decimal p.port)).toList =
      .ok (p.address, some p.port) := by
    have hne : p.address.toList ≠ [] := fun he => hne (String.toList_eq_nil_iff.mp he)
    have hh : p.address.toList.head? ≠ some '[' := fun hh => (hw _ (List.mem_of_head? hh)).2.1 rfl
    have := splitHostPort_plain hne hh hlt
    rw [String.ofList_toList] at this
    simpa using this
  have hkind : protocolOf s.params = p.protocol := by
    rw [hp.protocol]
    refine protocolOf_congr fun k hk => ?_
    obtain ⟨h₀, h₁, h₂⟩ := amneziaKeys_written k hk
    exact hparam k h₀ h₁ h₂
  have hwg : p.protocol = .wireguard ∨ p.protocol = .amneziaWg := by
    rw [hp.protocol, protocolOf]
    split
    · exact .inr rfl
    · exact .inl rfl
  have htext : (trim (nodeToWgConf p)).isEmpty = false := by
    rw [List.isEmpty_eq_false_iff]
    intro ht
    have hb : '[' ∈ "[Interface]\n".toList := by decide
    have hm : '[' ∈ nodeToWgConf p := List.mem_append_left _ hb
    exact absurd (trim_eq_nil_iff.mp ht '[' hm) (by decide)
  refine ⟨{
    name := p.address ++ ":" ++ .ofList (decimal p.port)
    protocol := protocolOf s.params
    address := p.address
    port := p.port
    params := s.params
    tags := [] }, ?_, rfl, rfl, hkind, ?_⟩
  case refine_1 =>
    rw [parseAwgConf, htext, hs]
    simp only [Bool.false_eq_true, if_false, bind, Except.bind, hend, haddr]
    rfl
  case refine_2 => exact outboundFromProfile_congr hwg hkind rfl rfl hparam

end Export

-- A file with an IPv6 endpoint and a comment.
def sampleConf : List Char :=
  ("[Interface]\nPrivateKey = AAAAAAAAAAAAAAAAAAAAAAAAAAAAAAAAAAAAAAAAAAA= # key\nAddress = 10.8.1.3/32\nJc = 4\n" ++
    "[Peer]\nPublicKey = BBBBBBBBBBBBBBBBBBBBBBBBBBBBBBBBBBBBBBBBBBA=\nEndpoint = [2001:db8::1]:51820\n").toList

def sampleNode : ServerProfile where
  name     := "2001:db8::1:51820"
  protocol := .amneziaWg
  address  := "2001:db8::1"
  port     := 51820
  params   := .ofList [("private_key", "AAAAAAAAAAAAAAAAAAAAAAAAAAAAAAAAAAAAAAAAAAA="), ("address", "10.8.1.3/32"),
    ("jc", "4"), ("public_key", "BBBBBBBBBBBBBBBBBBBBBBBBBBBBBBBBBBBBBBBBBBA="),
    ("endpoint", "[2001:db8::1]:51820")]
  tags     := []

theorem conf_export_import_sample :
    ∃ p', parseAwgConf (nodeToWgConf sampleNode) = .ok p' ∧ p'.address = sampleNode.address ∧
      p'.port = sampleNode.port ∧ p'.protocol = sampleNode.protocol ∧
      outboundFromProfile p' = outboundFromProfile sampleNode := by
  have h : parseAwgConf sampleConf = .ok sampleNode := by decide +kernel
  exact conf_export_import h (by decide) (forall_mem_of_all (by decide +kernel))

end JammVpn.Awg
