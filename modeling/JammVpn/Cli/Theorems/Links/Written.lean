import JammVpn.Cli.Links
import JammVpn.Core.Theorems.Links
import JammVpn.Core.Theorems.Parsed
import JammVpn.Net.Theorems.Security

namespace JammVpn.Link

open Text

-- The link of a node, by the command for its protocol.
def exportLink (p : ServerProfile) : Option (List Char) :=
  match p.protocol with
  | .vless       => nodeToVlessLink p
  | .shadowsocks => nodeToSsLink p
  | .hysteria2   => nodeToHysteria2Link p
  | _            => none

-- The link of the node is read back as a node with the same outbound and the same name.
def Exports (p : ServerProfile) (ob : Outbound) : Prop :=
  ∃ link p', exportLink p = some link ∧ parseLink link = .ok p' ∧ outboundFromProfile p' = .ok ob ∧
    p'.name = p.name

-- A host that is read back without brackets.
def Bare (host : String) : Prop :=
  host ≠ "" ∧ host.toList.head? ≠ some '['

def Addressable (host : String) : Prop :=
  Bare host ∧ '#' ∉ host.toList ∧ '?' ∉ host.toList

variable {p : ServerProfile} {ob : Outbound}

section Written

-- The host and the port, and the query, as they are written.
def hostportText (p : ServerProfile) : List Char :=
  p.address.toList ++ ':' :: decimal p.port

def queryText (q : List (String × String)) : Option (List Char) :=
  if q.isEmpty then none else some (['&'].intercalate (q.map writePair))

theorem writeRest_eq (hn : p.name ≠ "") (q : List (String × String)) :
    writeRest p q = hostportText p ++ ((queryText q).elim [] ('?' :: ·) ++ '#' :: percentEncode p.name) := by
  have hq : writeQuery q = (queryText q).elim [] ('?' :: ·) := by
    rw [writeQuery, queryText]
    split <;> rfl
  rw [writeRest, hostportText, hq, writeName, if_neg hn, List.append_assoc]
  rfl

theorem splitHostPort_written (h : FromLink p) (ha : Bare p.address) :
    Uri.splitHostPort (hostportText p) = .ok (p.address, some p.port) := by
  have hne : p.address.toList ≠ [] := fun he => ha.1 (String.toList_eq_nil_iff.mp he)
  rw [hostportText, splitHostPort_plain hne ha.2 h.lt, String.ofList_toList]

theorem splitHostPort_not_written (h : FromLink p) (ha : ¬Bare p.address) :
    ∃ e, Uri.splitHostPort (hostportText p) = .error e := by
  by_cases hne : p.address = ""
  case pos =>
    have hs : hostportText p = ':' :: decimal p.port := by rw [hostportText, hne]; rfl
    have hc : rsplitOnce ':' (hostportText p) = some ([], decimal p.port) :=
      hs ▸ rsplitOnce_append (not_mem_decimal (by decide) p.port) []
    have hp : stripPrefix ['['] (hostportText p) = none := by simp [hs, stripPrefix]
    exact ⟨.missingHost, by simp [Uri.splitHostPort, hp, hc]⟩
  case neg =>
    have hh : p.address.toList.head? = some '[' := by_contra fun hh => ha ⟨hne, hh⟩
    obtain ⟨tl, htl⟩ := List.head?_eq_some_iff.mp hh
    have hclosed : ']' ∉ tl ++ ':' :: decimal p.port := by
      have := h.closed hh
      rw [htl] at this
      simp [not_mem_decimal, List.not_mem_of_not_mem_cons this]
    have hp : stripPrefix ['['] (hostportText p) = some (tl ++ ':' :: decimal p.port) := by
      rw [hostportText, htl]
      exact stripPrefix_append ['['] _
    exact ⟨.malformedUrl (.ofList (hostportText p)), by
      simp only [Uri.splitHostPort, hp, splitOnce_eq_none hclosed]⟩

theorem hostport_written (h : FromLink p) (hk : p.protocol ≠ .shadowsocks) :
    '#' ∉ hostportText p ∧ '?' ∉ hostportText p ∧ '@' ∉ hostportText p := by
  obtain ⟨hfrag, hquery⟩ := h.noMark hk
  have hd : ∀ c : Char, c.isDigit = false → c ≠ ':' → c ∉ p.address.toList → c ∉ hostportText p := by
    intro c hc hne hm
    simp [hostportText, hm, hne, not_mem_decimal hc]
  exact ⟨hd '#' rfl (by decide) hfrag, hd '?' rfl (by decide) hquery, hd '@' rfl (by decide) h.noAt⟩

-- The pairs of a query, as they are in the text.
def pieces (s : List Char) : List (List Char) :=
  (split '&' s).filter fun t => !t.isEmpty

theorem pieces_amp (a b : List Char) : pieces (a ++ '&' :: b) = pieces a ++ pieces b := by
  rw [pieces, split_append_cons, List.filter_append]
  rfl

theorem pieces_written (q : List (String × String)) :
    pieces ((queryText q).getD []) = q.flatMap fun e => pieces (writePair e) := by
  have hcons : ∀ e q, pieces (['&'].intercalate ((e :: q).map writePair)) =
      (e :: q).flatMap fun e => pieces (writePair e) := by
    intro e q
    induction q generalizing e
    case nil => simp
    case cons e' q hi =>
      rw [List.flatMap_cons, ← hi e', ← pieces_amp]
      simp [List.intercalate]
  cases q
  case nil      => rfl
  case cons e q => exact hcons e q

-- What the query of a link is read as: every pair for itself.
theorem parseQuery_written (q : List (String × String)) :
    ((queryText q).map Uri.parseQuery).getD [] = q.flatMap fun e => Uri.parseQuery (writePair e) := by
  have hget : ((queryText q).map Uri.parseQuery).getD [] = (pieces ((queryText q).getD [])).map Uri.parsePair := by
    cases queryText q <;> rfl
  rw [hget, pieces_written, List.map_flatMap]
  rfl

-- A key that is its own encoding.
def PlainKey (k : String) : Prop :=
  percentEncode k = k.toList

instance : DecidablePred PlainKey :=
  fun k => inferInstanceAs (Decidable (percentEncode k = k.toList))

theorem parseQuery_writePair {e : String × String} (h : PlainKey e.1) : Uri.parseQuery (writePair e) = [e] := by
  have hr : writePair e = renderPair e := by
    rw [renderPair, h]
    rfl
  rw [hr, parseQuery_renderPair]

theorem parseQuery_plain {q : List (String × String)} (h : ∀ e ∈ q, PlainKey e.1) :
    ((queryText q).map Uri.parseQuery).getD [] = q := by
  rw [parseQuery_written]
  induction q
  case nil => rfl
  case cons e q hi =>
    obtain ⟨he, hq⟩ := List.forall_mem_cons.mp h
    rw [List.flatMap_cons, parseQuery_writePair he, hi hq, List.singleton_append]

theorem get_given (p : ServerProfile) {keys : List String} (hn : keys.Nodup) (k : String) :
    (OrdMap.ofList (given p keys)).get k = if k ∈ keys then (p.param k).filter (· != "") else none := by
  have hsub : ((given p keys).map Prod.fst).Sublist keys := by
    clear hn
    induction keys
    case nil => exact .slnil
    case cons k' keys hi =>
      rw [given, List.filterMap_cons]
      cases (p.param k').filter (· != "")
      case none   => exact hi.cons k'
      case some v => exact hi.cons_cons k'
  refine Option.ext fun v => ?_
  rw [OrdMap.get_ofList_eq_some_iff (hn.sublist hsub), given, List.mem_filterMap, Option.ite_none_right_eq_some]
  constructor
  case mp =>
    rintro ⟨k', hk, hv⟩
    obtain ⟨w, hw, he⟩ := Option.map_eq_some_iff.mp hv
    cases he
    exact ⟨hk, hw⟩
  case mpr =>
    rintro ⟨hk, hv⟩
    exact ⟨k, hk, by rw [hv, Option.map_some]⟩

theorem fst_mem_of_given {keys : List String} {e : String × String} (h : e ∈ given p keys) : e.1 ∈ keys := by
  obtain ⟨k, hk, hv⟩ := List.mem_filterMap.mp h
  obtain ⟨v, _, rfl⟩ := Option.map_eq_some_iff.mp hv
  exact hk

theorem mem_intercalate {c sep : Char} {l : List (List Char)} (h : c ∈ [sep].intercalate l) :
    c = sep ∨ ∃ t ∈ l, c ∈ t := by
  induction l
  case nil => cases h
  case cons t l hi =>
    cases l
    case nil => exact .inr ⟨t, .head _, by simpa using h⟩
    case cons t' l =>
      rw [List.intercalate_cons_cons, List.mem_append, List.mem_append, List.mem_singleton] at h
      rcases h with (h | h) | h
      · exact .inr ⟨t, .head _, h⟩
      · exact .inl h
      · exact (hi h).imp_right fun ⟨t', ht', hc⟩ => ⟨t', .tail _ ht', hc⟩

theorem mem_intercalate_of_mem {c : Char} (sep : Char) {l : List (List Char)} {t : List Char} (ht : t ∈ l)
    (hc : c ∈ t) : c ∈ [sep].intercalate l := by
  induction l
  case nil => cases ht
  case cons u l hi =>
    cases l
    case nil =>
      rw [List.mem_singleton.mp ht] at hc
      simpa using hc
    case cons u' l =>
      rw [List.intercalate_cons_cons, List.mem_append, List.mem_append]
      rcases List.mem_cons.mp ht with rfl | ht
      · exact .inl (.inl hc)
      · exact .inr (hi ht)

theorem not_mem_queryText {q : List (String × String)} (h : ∀ e ∈ q, '#' ∉ e.1.toList) :
    ∀ t ∈ queryText q, '#' ∉ t := by
  intro t ht hc
  cases Option.some.inj (Option.ite_none_left_eq_some.mp ht).2
  rcases mem_intercalate hc with hc | ⟨t, ht, hc⟩
  · exact absurd hc (by decide)
  · obtain ⟨e, he, rfl⟩ := List.mem_map.mp ht
    rw [writePair, List.mem_append, List.mem_cons] at hc
    rcases hc with hc | hc | hc
    · exact h e he hc
    · exact absurd hc (by decide)
    · exact not_mem_percentEncode (by decide) _ hc

theorem linkParts_written (h : FromLink p) (hk : p.protocol ≠ .shadowsocks) {userinfo : Option (List Char)}
    (hu : ∀ u ∈ userinfo, '#' ∉ u ∧ '?' ∉ u) {q : List (String × String)} (hq : ∀ e ∈ q, '#' ∉ e.1.toList) :
    LinkParts userinfo (hostportText p) (queryText q) := by
  constructor
  case ofUser   => exact hu
  case ofHost   => exact hostport_written h hk
  case ofQuery  => exact not_mem_queryText hq
  case nonempty => exact List.append_ne_nil_of_right_ne_nil _ (List.cons_ne_nil _ _)

theorem filter_eq_self_iff {o : Option String} : o.filter (· != "") = o ↔ o ≠ some "" := by
  cases o
  case none   => simp
  case some v => by_cases h : v = "" <;> simp [h]

theorem getD_filter (o : Option String) : (o.filter (· != "")).getD "" = o.getD "" := by
  cases o
  case none   => rfl
  case some v => by_cases h : v = "" <;> simp [h, Option.filter]

theorem filter_eq_some_iff {o : Option String} {v : String} (h : v ≠ "") :
    o.filter (· != "") = some v ↔ o = some v := by
  rw [Option.filter_eq_some_iff, bne_iff_ne]
  exact and_iff_left h

end Written

theorem exports_iff_of {link : List Char} {back : ServerProfile} {readable kept : Prop}
    (hl : exportLink p = some link) (hok : readable → parseLink link = .ok back)
    (herr : ¬readable → ∀ p', parseLink link = .ok p' → outboundFromProfile p' = .ok ob → p'.name ≠ p.name)
    (hout : outboundFromProfile back = .ok ob ↔ kept) (hn : back.name = p.name) :
    Exports p ob ↔ readable ∧ kept := by
  constructor
  case mpr => exact fun ⟨ha, hk⟩ => ⟨link, back, hl, hok ha, hout.mpr hk, hn⟩
  case mp =>
    rintro ⟨link', p', hl', hp, ho, hn'⟩
    cases hl.symm.trans hl'
    have ha : readable := by_contra fun ha => herr ha p' hp ho hn'
    cases (hok ha).symm.trans hp
    exact ⟨ha, hout.mp ho⟩

theorem addressable_iff (h : FromLink p) (hk : p.protocol ≠ .shadowsocks) :
    Addressable p.address ↔ Bare p.address :=
  and_iff_left (h.noMark hk)

end JammVpn.Link
