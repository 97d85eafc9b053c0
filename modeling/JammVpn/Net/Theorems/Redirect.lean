import JammVpn.Net.Subscription

namespace JammVpn.Fetch

open Text Http

section ParseUrl

variable {url host path : List Char} {scheme : Scheme} {port : Nat}

theorem stripScheme_text (scheme : Scheme) (rest : List Char) :
    stripScheme (scheme.text ++ rest) = some (scheme, rest) := by
  cases scheme
  case https => rfl
  case http  => rfl

theorem slash_not_mem_takeWhile (s : List Char) : '/' ∉ s.takeWhile (· != '/') := by
  intro h
  have := List.mem_takeWhile_imp h
  simp at this

-- The host is in front of the path.
theorem slash_not_mem_host (h : parseUrl url = .ok (scheme, host, port, path)) : '/' ∉ host := by
  rw [parseUrl] at h
  split at h
  case h_1 => cases h
  case h_2 scheme rest _ =>
    have hs := slash_not_mem_takeWhile rest
    dsimp only at h
    split at h
    case isTrue => cases h
    case isFalse =>
      split at h
      case h_1 =>
        cases h
        exact hs
      case h_2 a b hr =>
        rw [(rsplitOnce_eq_some hr).1] at hs
        split at h <;> cases h
        exact fun hm => hs (List.mem_append_left _ hm)

-- The text of a scheme, a host and a path is read as these, unless a port is seen in the host.
theorem parseUrl_iff (hh : '/' ∉ host) :
    parseUrl (scheme.text ++ host ++ '/' :: path) = .ok (scheme, host, port, '/' :: path) ↔
      port = scheme.defaultPort ∧ host ≠ [] ∧ ':' ∉ host := by
  have hall : ∀ c ∈ host, (c != '/') = true := fun c hc => bne_iff_ne.mpr fun he => hh (he ▸ hc)
  have ht : (host ++ '/' :: path).takeWhile (· != '/') = host := by
    rw [List.takeWhile_append_of_pos hall, List.takeWhile_cons_of_neg (by simp), List.append_nil]
  have hd : (host ++ '/' :: path).dropWhile (· != '/') = '/' :: path := by
    rw [List.dropWhile_append_of_pos hall, List.dropWhile_cons_of_neg (by simp)]
  rw [List.append_assoc, parseUrl, stripScheme_text]
  simp only [ht, hd, List.isEmpty_cons, Bool.false_eq_true, if_false]
  by_cases hne : host = []
  case pos => simp [hne]
  rw [if_neg (by simpa using hne)]
  by_cases hc : ':' ∈ host
  case neg =>
    rw [rsplitOnce_eq_none hc]
    simp [hne, hc, eq_comm]
  case pos =>
    refine iff_of_false (fun h => ?_) fun h => h.2.2 hc
    cases hr : rsplitOnce ':' host
    case none => exact not_mem_of_rsplitOnce hr hc
    case some r =>
      obtain ⟨a, b⟩ := r
      rw [hr] at h
      dsimp only at h
      split at h <;> cases h
      have := congrArg List.length (rsplitOnce_eq_some hr).1
      rw [List.length_append, List.length_cons] at this
      omega

end ParseUrl

section Follow

variable {w : Wording} {net : Network} {time n i : Nat} {url u loc next : List Char} {resp : RawResp}

theorem head?_follow : (follow w net time (n + 1) url).1.head? = some url := by
  rw [follow]
  repeat' split
  all_goals rfl

-- One redirection.
theorem follow_next (hr : fetchRaw net time url = .ok resp) (hs : resp.status ∈ redirects)
    (hl : resp.location = some loc) (hn : nextUrl url loc = .ok next) :
    (follow w net time (n + 1) url).1 = url :: (follow w net (time + 1) n next).1 := by
  have hok : resp.status ≠ 200 := by
    intro h
    rw [h] at hs
    exact absurd hs (by decide)
  rw [follow, hr]
  simp only [if_neg hok, if_pos hs, hl, hn]

-- A loop ends with an address, or goes on from the next one.
theorem follow_cases : (follow w net time (n + 1) url).1 = [url] ∨
    ∃ next, (follow w net time (n + 1) url).1 = url :: (follow w net (time + 1) n next).1 := by
  rw [follow]
  split
  case h_1 => exact .inl rfl
  split
  case isTrue => exact .inl rfl
  split
  case isFalse => exact .inl rfl
  split
  case h_1 => exact .inl rfl
  split
  case h_1        => exact .inl rfl
  case h_2 next _ => exact .inr ⟨next, rfl⟩

-- The address that comes next, wherever in the loop the redirection is.
theorem getElem?_follow (hu : (follow w net time n url).1[i]? = some u) (hi : i + 1 < n)
    (hr : fetchRaw net (time + i) u = .ok resp) (hs : resp.status ∈ redirects)
    (hl : resp.location = some loc) (hn : nextUrl u loc = .ok next) :
    (follow w net time n url).1[i + 1]? = some next := by
  induction i generalizing time n url
  case zero =>
    obtain ⟨n, rfl⟩ : ∃ m, n = m + 2 := ⟨n - 2, by omega⟩
    rw [← List.head?_eq_getElem?, head?_follow] at hu
    cases hu
    have hr : fetchRaw net time u = .ok resp := hr
    rw [follow_next hr hs hl hn, List.getElem?_cons_succ, ← List.head?_eq_getElem?, head?_follow]
  case succ i hi' =>
    obtain ⟨n, rfl⟩ : ∃ m, n = m + 1 := ⟨n - 1, by omega⟩
    obtain he | ⟨next', he⟩ := @follow_cases w net time n url
    case inl =>
      rw [he] at hu
      cases hu
    case inr =>
      rw [he, List.getElem?_cons_succ] at hu ⊢
      exact hi' hu (by omega) (by rwa [Nat.add_right_comm])

end Follow

-- Where `url` is fetched as the `i`-th address and redirects to a path, the next address.
def NextIs (urls : List (List Char)) (i : Nat) (scheme : Scheme) (host : List Char) (port : Nat)
    (path : List Char) : Prop :=
  ∃ next, urls[i + 1]? = some next ∧ parseUrl next = .ok (scheme, host, port, path)

section

variable {w : Wording} {net : Network} {n i port : Nat} {start url host path loc : List Char} {scheme : Scheme}
  {resp : RawResp}

theorem nextUrl_path (hp : parseUrl url = .ok (scheme, host, port, path)) :
    nextUrl url ('/' :: loc) = .ok (scheme.text ++ host ++ '/' :: loc) := by
  rw [nextUrl, if_neg (by simp [stripPrefix]), hp]
  rfl

theorem nextIs_follow_iff (hp : parseUrl url = .ok (scheme, host, port, path))
    (hu : (follow w net 0 n start).1[i]? = some url) (hi : i + 1 < n) (hr : fetchRaw net i url = .ok resp)
    (hs : resp.status ∈ redirects) (hl : resp.location = some ('/' :: loc)) :
    NextIs (follow w net 0 n start).1 i scheme host port ('/' :: loc) ↔
      port = scheme.defaultPort ∧ host ≠ [] ∧ ':' ∉ host := by
  have hnext := getElem?_follow hu hi (by rwa [Nat.zero_add]) hs hl (nextUrl_path hp)
  rw [NextIs, hnext, ← @parseUrl_iff _ loc _ _ (slash_not_mem_host hp)]
  simp only [Option.some.injEq, exists_eq_left']

-- A redirection to a path stays on the server just when the port is that of the scheme, and the host is not
-- empty and has no colon.
theorem path_redirect_iff (hp : parseUrl url = .ok (scheme, host, port, path)) (hi : i + 1 < 6)
    (hr : fetchRaw net i url = .ok resp) (hs : resp.status ∈ redirects)
    (hl : resp.location = some ('/' :: loc)) :
    ((fetchStringWithTitle net start).1[i]? = some url →
      (NextIs (fetchStringWithTitle net start).1 i scheme host port ('/' :: loc) ↔
        port = scheme.defaultPort ∧ host ≠ [] ∧ ':' ∉ host)) ∧
    ((fetchBytes net start).1[i]? = some url →
      (NextIs (fetchBytes net start).1 i scheme host port ('/' :: loc) ↔
        port = scheme.defaultPort ∧ host ≠ [] ∧ ':' ∉ host)) :=
  ⟨fun hu => nextIs_follow_iff hp hu hi hr hs hl, fun hu => nextIs_follow_iff hp hu hi hr hs hl⟩

end

def moved : List UInt8 :=
  ascii "HTTP/1.1 302 Found\r\nLocation: /y\r\n\r\n"

-- A server that redirects to `/y`, once.
def movedOnce : Network
  | 0, _, _, _, _ => .ok moved
  | _, _, _, _, _ => .ok (ascii "HTTP/1.1 200 OK\r\n\r\n")

theorem path_redirect_iff_default :
    NextIs (fetchBytes movedOnce "http://h/x".toList).1 0 .http ['h'] 80 ['/', 'y'] := by
  have hp : parseUrl "http://h/x".toList = .ok (.http, ['h'], 80, ['/', 'x']) := by decide +kernel
  have hr : fetchRaw movedOnce 0 "http://h/x".toList = .ok ⟨302, some ['/', 'y'], [], none⟩ := by decide +kernel
  have hu : (fetchBytes movedOnce "http://h/x".toList).1[0]? = some "http://h/x".toList := by decide +kernel
  have h := @path_redirect_iff _ _ _ "http://h/x".toList _ _ _ _ _ _ hp (by decide) hr (by decide) rfl
  exact (h.2 hu).mpr (by decide)

-- The port is lost.
theorem path_redirect_port :
    let url := "http://1.2.3.4:8080/x".toList
    parseUrl url = .ok (.http, "1.2.3.4".toList, 8080, "/x".toList) ∧
    (fetchStringWithTitle movedOnce url).1 = [url, "http://1.2.3.4/y".toList] ∧
    (fetchBytes movedOnce url).1 = [url, "http://1.2.3.4/y".toList] ∧
    parseUrl "http://1.2.3.4/y".toList = .ok (.http, "1.2.3.4".toList, 80, "/y".toList) := by
  decide +kernel

end JammVpn.Fetch
