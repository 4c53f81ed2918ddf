import Mathlib.Data.List.Induction
import Minireg.Core.SemverText

/-!
# The address of a caller

`client_ip` reads it from `X-Forwarded-For`, as many entries from the right as there are proxies
in front, and only where the peer is one of them. Proxies add the peer they saw to that header in
different ways: to all of its lines joined, to the last one, or on a line of its own. The header
that the code reads is the first line.
-/

namespace Minireg.ClientIp

open Py Semver

/-! ## The code -/

structure Settings (Address : Type) where
  /-- `ipaddress.ip_address`. -/
  ipAddress : String → Option Address
  trustedProxyNetworks : List (Address → Bool)
  trustedProxyHops : Int := 1

/-- The names of headers are in lower case. -/
abbrev Headers := List (String × String)

structure Request where
  /-- `request.client.host` -/
  client : Option String
  headers : Headers

section Code

variable {Address : Type} (settings : Settings Address)

/-- `headers.get(name)`. -/
def Headers.get (headers : Headers) (name : String) : Option String :=
  (headers.find? fun header => header.1 = name).map Prod.snd

/-- `_is_trusted_proxy`. -/
def isTrustedProxy (peer : Option String) : Bool :=
  match peer with
  | none => false
  | some "" => false
  | some host =>
    match settings.ipAddress host with
    | none => false
    | some address => settings.trustedProxyNetworks.any fun network => network address

/-- `[p.strip() for p in forwarded.split(",") if p.strip()]`. -/
def partsOf (forwarded : List Char) : List (List Char) :=
  ((forwarded.splitOn ',').map stripChars).filter (· ≠ [])

/-- `peer[:64] if peer else None`. -/
def directAddress (peer : Option String) : Option String :=
  match peer with
  | none => none
  | some "" => none
  | some host => some (takeChars 64 host)

/-- The part that is returned of the header. -/
def forwardedAddress (hops : Int) (parts : List (List Char)) : Option String :=
  let index := max 0 (parts.length - hops)
  (parts[index.toNat]?).map fun part => takeChars 64 (String.ofList part)

/-- `client_ip`. The warning about a relayed client only writes a log. -/
def clientIp (request : Request) : Option String :=
  let peer := request.client
  if !isTrustedProxy settings peer then directAddress peer
  else
    let hops := max 1 settings.trustedProxyHops
    let forwarded := (request.headers.get "x-forwarded-for").getD ""
    let parts := partsOf forwarded.toList
    if forwarded ≠ "" ∧ parts ≠ [] then forwardedAddress hops parts
    else
      match request.headers.get "x-real-ip" with
      | some real => if real ≠ "" then some (takeChars 64 (strip real)) else directAddress peer
      | none => directAddress peer

end Code

/-! ## The proxies in front -/

/-- Where a proxy puts the peer it saw. -/
inductive Appending where
  /-- Behind all lines of the header, which it joins. -/
  | joined
  | lastLine
  | ownLine
  deriving DecidableEq

structure Proxy where
  appending : Appending
  peer : List Char
  peer_ne : peer ≠ []
  peer_plain : ∀ c ∈ peer, c ≠ ',' ∧ isSpace c = false

/-- `", ".join(lines)`. -/
def joinLines (lines : List (List Char)) : List Char := [',', ' '].intercalate lines

/-- The lines of the header, behind the proxy. -/
def Proxy.forward (lines : List (List Char)) (proxy : Proxy) : List (List Char) :=
  match proxy.appending with
  | .joined => [joinLines (lines ++ [proxy.peer])]
  | .lastLine => lines.dropLast ++ [joinLines (lines.getLast?.toList ++ [proxy.peer])]
  | .ownLine => lines ++ [proxy.peer]

def isForwarded (header : String × String) : Bool := header.1 = "x-forwarded-for"

def forwardedLines (headers : Headers) : List (List Char) :=
  (headers.filter isForwarded).map fun header => header.2.toList

/-- The headers without `X-Forwarded-For`. -/
def withoutForwarded (headers : Headers) : Headers :=
  headers.filter fun header => !isForwarded header

/-- What arrives of a request that goes through the proxies, the last of which is the peer. -/
def arriving (peer : Option String) (proxies : List Proxy) (headers : Headers) : Request where
  client := peer
  headers := withoutForwarded headers ++
    (proxies.foldl Proxy.forward (forwardedLines headers)).map fun line =>
      ("x-forwarded-for", String.ofList line)

/-- Whether what all proxies added is on the first line: one of them joins the lines, and none
behind it begins another. -/
def together (proxies : List Proxy) : Bool :=
  proxies.foldl (fun joined proxy =>
    match proxy.appending with
    | .joined => true
    | .lastLine => joined
    | .ownLine => false) false

theorem forward_joined {proxy : Proxy} (h : proxy.appending = .joined) (lines : List (List Char)) :
    proxy.forward lines = [joinLines (lines ++ [proxy.peer])] := by
  unfold Proxy.forward
  rw [h]

theorem forward_lastLine {proxy : Proxy} (h : proxy.appending = .lastLine)
    (lines : List (List Char)) : proxy.forward lines =
      lines.dropLast ++ [joinLines (lines.getLast?.toList ++ [proxy.peer])] := by
  unfold Proxy.forward
  rw [h]

theorem forward_ownLine {proxy : Proxy} (h : proxy.appending = .ownLine)
    (lines : List (List Char)) : proxy.forward lines = lines ++ [proxy.peer] := by
  unfold Proxy.forward
  rw [h]

section Parts

variable {lines : List (List Char)} {line : List Char} {proxy : Proxy}

theorem partsOf_append (s t : List Char) : partsOf (s ++ ',' :: t) = partsOf s ++ partsOf t := by
  unfold partsOf
  rw [List.splitOn_append_cons_self, List.map_append, List.filter_append]

theorem stripChars_space (s : List Char) : stripChars (' ' :: s) = stripChars s := rfl

theorem partsOf_space (s : List Char) : partsOf (' ' :: s) = partsOf s := by
  unfold partsOf
  rw [List.splitOn_cons_eq_if_modifyHead, if_neg (by decide)]
  rcases hs : s.splitOn ',' with _ | ⟨first, rest⟩
  · exact absurd hs (List.splitOn_ne_nil _ _)
  · rw [List.modifyHead_cons, List.map_cons, List.map_cons, stripChars_space]

theorem partsOf_peer (proxy : Proxy) : partsOf proxy.peer = [proxy.peer] := by
  unfold partsOf
  rw [List.splitOn_eq_singleton fun h => (proxy.peer_plain _ h).1 rfl, List.map_singleton,
    stripChars_eq_self fun c hc => (proxy.peer_plain c hc).2,
    List.filter_cons_of_pos (by simp [proxy.peer_ne]), List.filter_nil]

theorem partsOf_joinLines (lines : List (List Char)) :
    partsOf (joinLines lines) = lines.flatMap partsOf := by
  induction lines with
  | nil => rfl
  | cons line lines ih =>
    cases lines with
    | nil => simp [joinLines]
    | cons next lines =>
      have hjoin : joinLines (line :: next :: lines) =
          line ++ ',' :: ' ' :: joinLines (next :: lines) := by
        unfold joinLines
        rw [List.intercalate_cons_cons]
        simp
      rw [hjoin, partsOf_append, partsOf_space, ih]
      rfl

/-- A proxy adds its peer behind all parts. -/
theorem flatMap_forward (lines : List (List Char)) (proxy : Proxy) :
    (proxy.forward lines).flatMap partsOf = lines.flatMap partsOf ++ [proxy.peer] := by
  cases happending : proxy.appending with
  | joined =>
    rw [forward_joined happending, List.flatMap_singleton, partsOf_joinLines, List.flatMap_append,
      List.flatMap_singleton, partsOf_peer]
  | lastLine =>
    rw [forward_lastLine happending, List.flatMap_append, List.flatMap_singleton,
      partsOf_joinLines, List.flatMap_append, List.flatMap_singleton, partsOf_peer,
      ← List.append_assoc, ← List.flatMap_append]
    rcases List.eq_nil_or_concat lines with rfl | ⟨init, last, rfl⟩
    · rfl
    · simp
  | ownLine =>
    rw [forward_ownLine happending, List.flatMap_append, List.flatMap_singleton, partsOf_peer]

end Parts

/-! ## The first line -/

section FirstLine

variable {lines : List (List Char)} {line first second : List Char} {proxies : List Proxy}

theorem together_snoc (proxies : List Proxy) (proxy : Proxy) :
    together (proxies ++ [proxy]) =
      match proxy.appending with
      | .joined => true
      | .lastLine => together proxies
      | .ownLine => false := by
  unfold together
  rw [List.foldl_append]
  rfl

/-- The parts of all lines: what was there, and then what the proxies added. -/
theorem flatMap_forwards (lines : List (List Char)) (proxies : List Proxy) :
    (proxies.foldl Proxy.forward lines).flatMap partsOf =
      lines.flatMap partsOf ++ proxies.map Proxy.peer := by
  induction proxies generalizing lines with
  | nil => simp
  | cons proxy proxies ih =>
    rw [List.foldl_cons, ih, flatMap_forward, List.append_assoc, List.map_cons,
      List.singleton_append]

/-- All that the proxies added is on one line, the only one. -/
theorem single_of_together (h : together proxies = true) (lines : List (List Char)) :
    ∃ line, proxies.foldl Proxy.forward lines = [line] ∧
      partsOf line = lines.flatMap partsOf ++ proxies.map Proxy.peer := by
  have hsingle : ∃ line, proxies.foldl Proxy.forward lines = [line] := by
    induction proxies using List.reverseRecOn with
    | nil => cases h
    | append_singleton proxies proxy ih =>
      rw [together_snoc] at h
      rw [List.foldl_append, List.foldl_cons, List.foldl_nil]
      cases happending : proxy.appending with
      | joined => exact ⟨_, forward_joined happending _⟩
      | lastLine =>
        rw [happending] at h
        obtain ⟨line, hline⟩ := ih h
        rw [hline, forward_lastLine happending]
        exact ⟨_, rfl⟩
      | ownLine =>
        rw [happending] at h
        cases h
  obtain ⟨line, hline⟩ := hsingle
  have hparts := flatMap_forwards lines proxies
  rw [hline, List.flatMap_singleton] at hparts
  exact ⟨line, hline, hparts⟩

/-- What the first line shows where an attacker wrote two: entries of the attacker, and not all
that the proxies added. -/
def Exposed (proxies : List Proxy) (lines : List (List Char)) (written : List (List Char)) : Prop :=
  ∃ first second rest k, lines = first :: second :: rest ∧
    partsOf first = written ++ (proxies.map Proxy.peer).take k ∧ (k = 0 ∨ k < proxies.length)

theorem forward_second {proxy : Proxy} (first second : List Char) (rest : List (List Char))
    (h : proxy.appending ≠ .joined) :
    ∃ next rest', proxy.forward (first :: second :: rest) = first :: next :: rest' := by
  cases happending : proxy.appending with
  | joined => exact absurd happending h
  | lastLine =>
    rw [forward_lastLine happending]
    cases rest with
    | nil => exact ⟨_, _, rfl⟩
    | cons third rest => exact ⟨_, _, rfl⟩
  | ownLine => exact ⟨second, rest ++ [proxy.peer], forward_ownLine happending _⟩

/-- Where the entries of the proxies are not together, entries of the attacker lead. -/
theorem exposed_of_apart (h : together proxies = false) (first second : List Char) :
    Exposed proxies (proxies.foldl Proxy.forward [first, second]) (partsOf first) ∨
      Exposed proxies (proxies.foldl Proxy.forward [first, second])
        (partsOf first ++ partsOf second) := by
  induction proxies using List.reverseRecOn with
  | nil => exact .inl ⟨first, second, [], 0, rfl, (List.append_nil _).symm, .inl rfl⟩
  | append_singleton proxies proxy ih =>
    rw [together_snoc] at h
    rw [List.foldl_append, List.foldl_cons, List.foldl_nil]
    -- the first line stays as it is where there are two
    have hkept {written} (hnext : proxy.appending ≠ .joined)
        (hexposed : Exposed proxies (proxies.foldl Proxy.forward [first, second]) written) :
        Exposed (proxies ++ [proxy])
          (proxy.forward (proxies.foldl Proxy.forward [first, second])) written := by
      obtain ⟨line, next, rest, k, hlines, hparts, hk⟩ := hexposed
      have hpeers : ((proxies ++ [proxy]).map Proxy.peer).take k =
          (proxies.map Proxy.peer).take k := by
        have hlength : k ≤ (proxies.map Proxy.peer).length := by
          rw [List.length_map]
          omega
        rw [List.map_append, List.take_append_of_le_length hlength]
      obtain ⟨next', rest', hforward⟩ := forward_second line next rest hnext
      refine ⟨line, next', rest', k, hlines ▸ hforward, by rw [hparts, hpeers], hk.imp_right ?_⟩
      intro hk
      rw [List.length_append]
      omega
    cases happending : proxy.appending with
    | joined =>
      rw [happending] at h
      cases h
    | lastLine =>
      rw [happending] at h
      exact (ih h).imp (hkept (by simp [happending])) (hkept (by simp [happending]))
    | ownLine =>
      cases hbefore : together proxies with
      | false =>
        exact (ih hbefore).imp (hkept (by simp [happending])) (hkept (by simp [happending]))
      | true =>
        obtain ⟨line, hline, hparts⟩ := single_of_together hbefore [first, second]
        refine .inr ⟨line, proxy.peer, [], proxies.length, ?_, ?_, .inr (by simp)⟩
        · rw [hline, forward_ownLine happending, List.singleton_append]
        · rw [hparts, List.map_append, List.take_append_of_le_length (by simp),
            List.take_of_length_le (by simp)]
          simp

end FirstLine

/-! ## What an attacker can change -/

section Interference

variable {Address : Type} {settings : Settings Address} {peer : Option String}
  {proxies : List Proxy} {headers : Headers}

/-- Without a trusted peer no header is read. -/
theorem clientIp_untrusted (h : isTrustedProxy settings peer = false) (headers : Headers) :
    clientIp settings ⟨peer, headers⟩ = directAddress peer := by
  unfold clientIp
  dsimp only
  rw [h]
  rfl

theorem get_arriving (peer : Option String) (proxies : List Proxy) (headers : Headers) :
    (arriving peer proxies headers).headers.get "x-forwarded-for" =
      ((proxies.foldl Proxy.forward (forwardedLines headers)).head?).map String.ofList := by
  have hothers : (withoutForwarded headers).find? (fun header => header.1 = "x-forwarded-for") =
      none := by
    refine List.find?_eq_none.mpr ?_
    intro header hheader hname
    have hkept := (List.mem_filter.mp hheader).2
    unfold isForwarded at hkept
    rw [hname] at hkept
    cases hkept
  unfold arriving Headers.get
  rw [List.find?_append, hothers, Option.none_or]
  cases proxies.foldl Proxy.forward (forwardedLines headers) with
  | nil => rfl
  | cons line lines => rfl

/-- What is returned of a header that has parts. -/
theorem clientIp_forwarded {request : Request} {line : List Char}
    (h : isTrustedProxy settings request.client = true)
    (hget : request.headers.get "x-forwarded-for" = some (String.ofList line))
    (hparts : partsOf line ≠ []) :
    clientIp settings request =
      forwardedAddress (max 1 settings.trustedProxyHops) (partsOf line) := by
  have hne : String.ofList line ≠ "" := by
    intro hempty
    have hline : line = [] := String.ofList_injective hempty
    rw [hline] at hparts
    exact hparts rfl
  unfold clientIp
  dsimp only
  rw [h, hget, Option.getD_some, String.toList_ofList, if_neg (by decide), if_pos ⟨hne, hparts⟩]

theorem clientIp_arriving {line : List Char} {lines : List (List Char)}
    (h : isTrustedProxy settings peer = true)
    (hlines : proxies.foldl Proxy.forward (forwardedLines headers) = line :: lines)
    (hparts : partsOf line ≠ []) :
    clientIp settings (arriving peer proxies headers) =
      forwardedAddress (max 1 settings.trustedProxyHops) (partsOf line) := by
  have hget := get_arriving peer proxies headers
  rw [hlines, List.head?_cons, Option.map_some] at hget
  exact clientIp_forwarded h hget hparts

/-- As many hops from the right as there are entries of proxies is the first of these. -/
theorem forwardedAddress_append (written added : List (List Char)) (h : added ≠ []) :
    forwardedAddress (max 1 (added.length : Int)) (written ++ added) =
      added.head?.map fun part => takeChars 64 (String.ofList part) := by
  have hpos : 0 < added.length := List.length_pos_of_ne_nil h
  have hindex : (max 0 (((written ++ added).length : Int) - max 1 (added.length : Int))).toNat =
      written.length := by
    rw [List.length_append]
    omega
  unfold forwardedAddress
  dsimp only
  rw [hindex, List.getElem?_append_right le_rfl, Nat.sub_self, List.head?_eq_getElem?]

/-- With more entries of an attacker in front than hops, one of these is returned. -/
theorem forwardedAddress_written {hops : Nat} (text : List Char) (n : Nat)
    (added : List (List Char)) (hn : hops ≤ n) (hadded : added.length < hops) :
    forwardedAddress hops (List.replicate n text ++ added) =
      some (takeChars 64 (String.ofList text)) := by
  have hindex : (max 0 (((List.replicate n text ++ added).length : Int) - hops)).toNat < n := by
    rw [List.length_append, List.length_replicate]
    omega
  unfold forwardedAddress
  dsimp only
  rw [List.getElem?_append_left (by rw [List.length_replicate]; exact hindex),
    List.getElem?_replicate, if_pos hindex, Option.map_some]

/-- With the entries of the proxies together, the first of them is returned. -/
theorem clientIp_together (h : isTrustedProxy settings peer = true)
    (hhops : (proxies.length : Int) = settings.trustedProxyHops)
    (htogether : together proxies = true) (headers : Headers) :
    clientIp settings (arriving peer proxies headers) =
      (proxies.map Proxy.peer).head?.map fun part => takeChars 64 (String.ofList part) := by
  obtain ⟨line, hline, hparts⟩ := single_of_together htogether (forwardedLines headers)
  have hadded : proxies.map Proxy.peer ≠ [] := by
    intro hnil
    rw [List.map_eq_nil_iff.mp hnil] at htogether
    cases htogether
  have hne : partsOf line ≠ [] := by
    rw [hparts]
    exact List.append_ne_nil_of_right_ne_nil _ hadded
  have hlength : settings.trustedProxyHops = ((proxies.map Proxy.peer).length : Int) := by
    rw [List.length_map, hhops]
  rw [clientIp_arriving h hline hne, hparts, hlength]
  exact forwardedAddress_append _ _ hadded

/-- Two lines, with the same entry as often as there are hops on the first. -/
def twoLines (hops : Nat) (entry : Char) : Headers :=
  [("x-forwarded-for", String.ofList (joinLines (List.replicate hops [entry]))),
   ("x-forwarded-for", String.ofList [entry])]

theorem partsOf_entry {entry : Char} (hcomma : entry ≠ ',') (hspace : isSpace entry = false) :
    partsOf [entry] = [[entry]] :=
  partsOf_peer
    { appending := .joined
      peer := [entry]
      peer_ne := List.cons_ne_nil _ _
      peer_plain := fun _ hc => List.mem_singleton.mp hc ▸ ⟨hcomma, hspace⟩ }

/-- With the entries of the proxies apart, an attacker writes what is returned. -/
theorem clientIp_twoLines {entry : Char} (h : isTrustedProxy settings peer = true)
    (hhops : (proxies.length : Int) = settings.trustedProxyHops)
    (hapart : together proxies = false) (hcomma : entry ≠ ',') (hspace : isSpace entry = false) :
    clientIp settings (arriving peer proxies (twoLines (max 1 proxies.length) entry)) =
      some (String.ofList [entry]) := by
  have hlines : forwardedLines (twoLines (max 1 proxies.length) entry) =
      [joinLines (List.replicate (max 1 proxies.length) [entry]), [entry]] := by
    unfold forwardedLines twoLines
    simp [isForwarded]
  have hfirst : partsOf (joinLines (List.replicate (max 1 proxies.length) [entry])) =
      List.replicate (max 1 proxies.length) [entry] := by
    rw [partsOf_joinLines, List.flatMap_replicate, partsOf_entry hcomma hspace]
    simp
  have hexposed : ∃ n, max 1 proxies.length ≤ n ∧
      Exposed proxies (proxies.foldl Proxy.forward
        (forwardedLines (twoLines (max 1 proxies.length) entry))) (List.replicate n [entry]) := by
    rw [hlines]
    rcases exposed_of_apart hapart (joinLines (List.replicate (max 1 proxies.length) [entry]))
      [entry] with hexposed | hexposed
    · rw [hfirst] at hexposed
      exact ⟨_, le_rfl, hexposed⟩
    · rw [hfirst, partsOf_entry hcomma hspace, ← List.replicate_succ'] at hexposed
      exact ⟨_, Nat.le_succ _, hexposed⟩
  obtain ⟨n, hn, first, second, rest, k, hforwarded, hparts, hk⟩ := hexposed
  have hne : partsOf first ≠ [] := by
    rw [hparts]
    refine List.append_ne_nil_of_left_ne_nil ?_ _
    rw [Ne, List.replicate_eq_nil_iff]
    omega
  have hmax : max 1 settings.trustedProxyHops = ((max 1 proxies.length : Nat) : Int) := by
    rw [← hhops]
    omega
  have hadded : ((proxies.map Proxy.peer).take k).length < max 1 proxies.length := by
    rw [List.length_take, List.length_map]
    omega
  rw [clientIp_arriving h hforwarded hne, hparts, hmax, forwardedAddress_written _ _ _ hn hadded]
  unfold takeChars
  rw [String.toList_ofList, List.take_of_length_le (by simp)]

/-- **The address is not the attacker's to choose**, of a request through as many proxies as are
configured, exactly where the peer is no proxy or the entries of the proxies are together on the
first line. -/
theorem clientIp_noninterfering_iff (settings : Settings Address) (peer : Option String)
    (proxies : List Proxy) (hhops : (proxies.length : Int) = settings.trustedProxyHops) :
    ((isTrustedProxy settings peer = true → ∀ headers,
        clientIp settings (arriving peer proxies headers) =
          clientIp settings (arriving peer proxies (withoutForwarded headers))) ∧
      (isTrustedProxy settings peer = false → ∀ headers headers',
        clientIp settings ⟨peer, headers⟩ = clientIp settings ⟨peer, headers'⟩)) ↔
      (isTrustedProxy settings peer = true → together proxies = true) := by
  constructor
  · rintro ⟨hsame, -⟩ htrusted
    by_contra hapart
    have hapart : together proxies = false := Bool.eq_false_iff.mpr hapart
    have hwritten (entry : Char) (hcomma : entry ≠ ',') (hspace : isSpace entry = false) :
        some (String.ofList [entry]) = clientIp settings (arriving peer proxies []) :=
      (clientIp_twoLines htrusted hhops hapart hcomma hspace).symm.trans (hsame htrusted _)
    have hboth := (hwritten 'a' (by decide) (by decide)).trans
      (hwritten 'b' (by decide) (by decide)).symm
    exact absurd hboth (by decide)
  · intro htogether
    refine ⟨?_, ?_⟩
    · intro htrusted headers
      rw [clientIp_together htrusted hhops (htogether htrusted) headers,
        clientIp_together htrusted hhops (htogether htrusted)]
    · intro huntrusted headers headers'
      rw [clientIp_untrusted huntrusted, clientIp_untrusted huntrusted]

end Interference

/-! ## One proxy -/

/-- A service behind one proxy of its network, at 172.20.0.1. -/
def bridged : Settings String where
  ipAddress host := some host
  trustedProxyNetworks := [fun address => address = "172.20.0.1"]

def proxyAt (appending : Appending) : Proxy where
  appending := appending
  peer := "198.51.100.7".toList
  peer_ne := by decide
  peer_plain c hc := of_decide_eq_true (List.all_eq_true.mp
    (by decide +kernel : "198.51.100.7".toList.all
      (fun c => decide (c ≠ ',' ∧ isSpace c = false)) = true) c hc)

/-- A proxy that writes a line of its own leaves that of the attacker to be read. -/
theorem ownLine_interferes :
    clientIp bridged (arriving (some "172.20.0.1") [proxyAt .ownLine]
        [("x-forwarded-for", "1.2.3.4")]) = some "1.2.3.4" ∧
      clientIp bridged (arriving (some "172.20.0.1") [proxyAt .ownLine]
        (withoutForwarded [("x-forwarded-for", "1.2.3.4")])) = some "198.51.100.7" := by
  constructor <;> decide +kernel

/-- A proxy that joins the lines does not. -/
theorem joined_noninterfering :
    ((isTrustedProxy bridged (some "172.20.0.1") = true → ∀ headers,
        clientIp bridged (arriving (some "172.20.0.1") [proxyAt .joined] headers) =
          clientIp bridged
            (arriving (some "172.20.0.1") [proxyAt .joined] (withoutForwarded headers))) ∧
      (isTrustedProxy bridged (some "172.20.0.1") = false → ∀ headers headers',
        clientIp bridged ⟨some "172.20.0.1", headers⟩ =
          clientIp bridged ⟨some "172.20.0.1", headers'⟩)) ↔
      (isTrustedProxy bridged (some "172.20.0.1") = true → together [proxyAt .joined] = true) :=
  clientIp_noninterfering_iff bridged (some "172.20.0.1") [proxyAt .joined] rfl

end Minireg.ClientIp
