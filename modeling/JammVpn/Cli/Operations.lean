import JammVpn.Core.Config

namespace JammVpn

open Ip Text

-- The first of the numbered candidates that is not in use. One of the first `used.length + 1`
-- candidates is free if they are all different, so that the fuel is never what ends the search.
def firstUnused (used : List String) (candidate : Nat → String) : Nat → Nat → String
  | 0, n        => candidate n
  | fuel + 1, n => if candidate n ∈ used then firstUnused used candidate fuel (n + 1) else candidate n

-- A name, and then the name with a number behind it.
def numbered (base : String) (n : Nat) : String :=
  if n ≤ 1 then base else base ++ " (" ++ .ofList (decimal n) ++ ")"

def freshName (used : List String) (base : String) : String :=
  firstUnused used (numbered base) used.length 1

def distinctNodeNames (used : List String) : List ServerProfile → List ServerProfile
  | []      => []
  | s :: ss =>
    if s.name ∈ used then
      let name := freshName used (s.name ++ " · " ++ s.address ++ ":" ++ .ofList (decimal s.port))
      { s with name } :: distinctNodeNames (name :: used) ss
    else s :: distinctNodeNames (s.name :: used) ss

def ensureDistinctNodeNames (cfg : AppConfig) : AppConfig :=
  { cfg with servers := distinctNodeNames [] cfg.servers }

def validCidr (s : String) : Bool :=
  match splitOnce '/' s.toList with
  | some (ip, pfx) =>
    (parseIpv4 (trim ip)).isSome && (parseUnsigned 256 (trim pfx)).any (· ≤ 32)
  | none => false

def sanitizeConfig (cfg : AppConfig) : AppConfig :=
  let range := if validCidr cfg.dns.fakeip.range then cfg.dns.fakeip.range else "198.18.0.0/15"
  ensureDistinctNodeNames
    { cfg with dns := { cfg.dns with fakeip := { cfg.dns.fakeip with range } } }

def subHost (url : String) : String :=
  let rest := ((splitOn "://".toList url.toList)[1]?).getD url.toList
  .ofList (rest.takeWhile (· != '/'))

def isBlank (s : String) : Bool :=
  (trim s.toList).isEmpty

def subTag (sub : Subscription) : String :=
  match sub.tag with
  | some t => if isBlank t then subHost sub.url else t
  | none   => subHost sub.url

def distinctSubTags (used : List String) : List Subscription → List Subscription
  | []          => []
  | sub :: subs =>
    let tag := freshName used (subTag sub)
    { sub with tag := some tag } :: distinctSubTags (tag :: used) subs

-- What the source returns: whether some tag was not the stored one.
def subTagsChanged (used : List String) : List Subscription → Bool
  | []          => false
  | sub :: subs =>
    let tag := freshName used (subTag sub)
    sub.tag != some tag || subTagsChanged (tag :: used) subs

def ensureDistinctSubTags (cfg : AppConfig) : AppConfig :=
  { cfg with subscriptions := distinctSubTags [] cfg.subscriptions }

def tagServers (servers : List ServerProfile) (tag : String) : List ServerProfile :=
  servers.map fun p => if tag ∈ p.tags then p else { p with tags := p.tags ++ [tag] }

end JammVpn

namespace JammVpn

open Text

-- A rule as the user interface shows it.
structure RuleInfo where
  domains   : List String := []
  ipCidrs   : List String := []
  processes : List String := []
  ports     : List Nat := []
  geosite   : List String := []
  geoip     : List String := []
  action    : String := ""
  proxyTag  : Option String := none
  deriving DecidableEq

def trimmed (s : String) : String :=
  .ofList (trim s.toList)

-- A trimmed value, if anything is left of it.
def normalized (s : Option String) : Option String :=
  (s.map trimmed).filter (· != "")

def cleanList (l : List String) : List String :=
  (l.map trimmed).filter (· != "")

def parseDomain (s : String) : DomainRule :=
  match splitOnce ':' (trim s.toList) with
  | some (kind, v) =>
    if kind = "full".toList then .full (.ofList (trim v))
    else if kind = "suffix".toList then .suffix (.ofList (trim v))
    else if kind = "keyword".toList then .keyword (.ofList (trim v))
    else .suffix (trimmed s)
  | none => .suffix (trimmed s)

def parseProcess (s : String) : AppMatcher :=
  match splitOnce ':' (trim s.toList) with
  | some (kind, v) =>
    if kind = "exe".toList then .exePath (.ofList (trim v))
    else if kind = "name".toList then .processName (.ofList (trim v))
    else .processName (trimmed s)
  | none => .processName (trimmed s)

def parseCidrs : List String → Except String (List IpCidr)
  | []      => .ok []
  | s :: ss =>
    match IpCidr.parse s with
    | .error e => .error ("неверный CIDR «" ++ s ++ "»: " ++ e.display)
    | .ok c    => do
      let cs ← parseCidrs ss
      return c :: cs

def parseAction (action : String) (proxyTag : Option String) : Except String RouteAction :=
  match trimmed action with
  | "direct" => .ok .direct
  | "block"  => .ok .block
  | "proxy"  => .ok (.proxy (normalized proxyTag))
  | other    => .error ("неизвестное действие: «" ++ other ++ "»")

def infoToRule (info : RuleInfo) : Except String Rule := do
  let ipCidrs ← parseCidrs (cleanList info.ipCidrs)
  let action ← parseAction info.action info.proxyTag
  return {
    domains := (cleanList info.domains).map parseDomain
    ipCidrs
    processes := (cleanList info.processes).map parseProcess
    ports := info.ports
    geosite := cleanList info.geosite
    geoip := cleanList info.geoip
    action
  }

def domainToString : DomainRule → String
  | .full s    => "full:" ++ s
  | .suffix s  => "suffix:" ++ s
  | .keyword s => "keyword:" ++ s

def processToString : AppMatcher → String
  | .exePath p     => "exe:" ++ p
  | .processName n => "name:" ++ n

def actionToInfo : RouteAction → String × Option String
  | .direct    => ("direct", none)
  | .block     => ("block", none)
  | .proxy tag => ("proxy", tag)

def ruleToInfo (r : Rule) : RuleInfo where
  domains   := r.domains.map domainToString
  ipCidrs   := r.ipCidrs.map fun c => .ofList c.display
  processes := r.processes.map processToString
  ports     := r.ports
  geosite   := r.geosite
  geoip     := r.geoip
  action    := (actionToInfo r.action).1
  proxyTag  := (actionToInfo r.action).2

-- The servers of a subscription and its title, or why they could not be fetched.
abbrev Fetched := Except String (List ServerProfile × Option String)

structure SubUpdate where
  url   : String
  count : Option Nat
  error : Option String
  deriving DecidableEq

inductive Reply
  | unit
  | flag (b : Bool)
  | count (n : Nat)
  | message (s : String)
  | updates (us : List SubUpdate)
  | localWg (lw : LocalWgConfig)
  deriving DecidableEq

-- The operations that load, change and save the configuration. What the network, the parsers of
-- links and files and the key generator deliver comes with the operation. `local_wg_set` runs
-- `local_wg_ensure` before it does what is here its own operation.
inductive Op
  | importNode (arg : String) (parsed : Except ParseError ServerProfile) (fetched : Fetched)
  | importConfig (text format : String) (parsed : List (Except ParseError ServerProfile))
  | updateSubscriptions (fetch : Subscription → Fetched)
  | updateOneSubscription (url : String) (fetch : Subscription → Fetched)
  | clearSubscriptionNodes
  | removeNode (name : String)
  | setSettings (defaultToProxy : Bool) (defaultProxy : Option String)
  | setConnection (listen proxyNode : Option String)
  | addSubscription (url : String) (tag : Option String) (intervalHours : Nat)
  | removeSubscription (url : String)
  | setGeoPaths (geosite geoip : Option String)
  | addRule (info : RuleInfo)
  | updateRule (index : Nat) (info : RuleInfo)
  | removeRule (index : Nat)
  | moveRule (index : Nat) (up : Bool)
  | applyPreset (id : String) (rules : Option (List Rule))
  | setSplitOptions (killSwitch : Bool)
  | setSplitDriver (driver : String)
  | setSocksProxies (proxies : List SocksProxy)
  | localWgEnsure (generated : LocalWgConfig)
  | localWgSet (port : Option Nat) (upstreamNode : Option String)

-- An operation fails, or has a reply and perhaps a configuration to save.
abbrev Edit := AppConfig → Except String (Option AppConfig × Reply)

namespace AppConfig

-- The nodes of a subscription are replaced as a group.
def replaceNodes (cfg : AppConfig) (tag : String) (servers : List ServerProfile) : AppConfig :=
  { cfg with servers := cfg.servers.filter (tag ∉ ·.tags) ++ tagServers servers tag }

def retitle (title : Option String) (sub : Subscription) : Subscription :=
  match title with
  | some t => { sub with tag := some t }
  | none   => sub

def applyRemove (cfg : AppConfig) (name : String) : AppConfig × Bool :=
  let servers := cfg.servers.filter (·.name != name)
  let removed := servers.length != cfg.servers.length
  let settings :=
    if removed && cfg.settings.defaultProxy == some name then
      { cfg.settings with defaultProxy := none }
    else cfg.settings
  ({ cfg with servers, settings }, removed)

def applyRemoveSubscription (cfg : AppConfig) (url : String) : Option AppConfig :=
  (cfg.subscriptions.find? (·.url == url)).map fun sub => { cfg with
    subscriptions := cfg.subscriptions.filter (·.url != url)
    servers := cfg.servers.filter (subTag sub ∉ ·.tags)
  }

-- The rule that changes places with the rule at `index`.
def moveTarget (cfg : AppConfig) (index : Nat) (up : Bool) : Option Nat :=
  if cfg.rules.length ≤ index then none
  else if up then (if index = 0 then none else some (index - 1))
  else if cfg.rules.length ≤ index + 1 then none
  else some (index + 1)

def swapRules (cfg : AppConfig) (i j : Nat) : AppConfig :=
  match cfg.rules[i]?, cfg.rules[j]? with
  | some a, some b => { cfg with rules := (cfg.rules.set i b).set j a }
  | _, _           => cfg

-- One pass over the subscriptions for their new titles, and one over the groups of servers that came.
def retitled (cfg : AppConfig) (fetch : Subscription → Fetched) : AppConfig :=
  ensureDistinctSubTags { cfg with
    subscriptions := cfg.subscriptions.map fun sub =>
      match fetch sub with
      | .ok (_, title) => retitle title sub
      | .error _       => sub
  }

def groups (cfg : AppConfig) (fetch : Subscription → Fetched) : List (String × List ServerProfile) :=
  ((cfg.retitled fetch).subscriptions.zip (cfg.subscriptions.map fetch)).filterMap fun
    | (sub, .ok (servers, _)) => some (subTag sub, servers)
    | (_, .error _)           => none

def refresh (cfg : AppConfig) (fetch : Subscription → Fetched) : AppConfig :=
  (cfg.groups fetch).foldl (fun c g => c.replaceNodes g.1 g.2) (cfg.retitled fetch)

-- The same for one subscription.
def findSubscription (cfg : AppConfig) (url : String) : Option (Nat × Subscription) := do
  let index ← cfg.subscriptions.findIdx? (·.url == url)
  let sub ← cfg.subscriptions[index]?
  return (index, sub)

def retitledAt (cfg : AppConfig) (index : Nat) (sub : Subscription) (title : Option String) :
    AppConfig :=
  ensureDistinctSubTags { cfg with subscriptions := cfg.subscriptions.set index (retitle title sub) }

def tagAt (cfg : AppConfig) (index : Nat) (sub : Subscription) (title : Option String) : String :=
  subTag (((cfg.retitledAt index sub title).subscriptions[index]?).getD sub)

def refreshAt (cfg : AppConfig) (index : Nat) (sub : Subscription) (servers : List ServerProfile)
    (title : Option String) : AppConfig :=
  (cfg.retitledAt index sub title).replaceNodes (cfg.tagAt index sub title) servers

-- A subscription that is imported again keeps its title.
def withSubscription (cfg : AppConfig) (sub : Subscription) : AppConfig :=
  ensureDistinctSubTags <|
    if cfg.subscriptions.any (·.url == sub.url) then cfg
    else { cfg with subscriptions := cfg.subscriptions ++ [sub] }

def importTag (cfg : AppConfig) (sub : Subscription) : String :=
  subTag (((cfg.withSubscription sub).subscriptions.find? (·.url == sub.url)).getD sub)

def importSubscription (cfg : AppConfig) (sub : Subscription) (servers : List ServerProfile) :
    AppConfig :=
  (cfg.withSubscription sub).replaceNodes (cfg.importTag sub) servers

end AppConfig

def isHttpUrl (s : String) : Bool :=
  "http://".toList.isPrefixOf s.toList || "https://".toList.isPrefixOf s.toList

def importedNodes (n : Nat) : String :=
  "импортировано узлов из подписки: " ++ .ofList (decimal n)

-- Only the first listener that asks for it becomes the proxy of the system.
def normalizeProxies (seenSystem : Bool) : List SocksProxy → List SocksProxy
  | []      => []
  | p :: ps => {
      listen := trimmed p.listen
      node := p.node.filter (· != "")
      system := p.system && !seenSystem
    } :: normalizeProxies (seenSystem || p.system) ps

def parseDriver (driver : String) : Except String SplitDriver :=
  match driver with
  | "windivert"   => .ok .winDivert
  | "winpkfilter" => .ok .winpkFilter
  | other         => .error ("неизвестный драйвер: " ++ other)

-- A change that is always saved.
def Edit.save (f : AppConfig → AppConfig) (reply : Reply) : Edit :=
  fun cfg => .ok (some (f cfg), reply)

-- A change that is saved only if there is one; the reply says whether there was.
def Edit.saveIf (f : AppConfig → Option AppConfig) : Edit :=
  fun cfg => .ok (f cfg, .flag (f cfg).isSome)

namespace Op

def importEdit (arg : String) (parsed : Except ParseError ServerProfile) (fetched : Fetched) : Edit :=
  fun cfg =>
    if isHttpUrl arg then do
      let (servers, title) ← fetched
      let sub := { url := arg, tag := title, updateIntervalHours := 12 }
      return (some (cfg.importSubscription sub servers), .message (importedNodes servers.length))
    else match parsed with
    | .error e    => .error e.display
    | .ok profile => .ok (
        some { cfg with servers := cfg.servers ++ [profile] },
        .message ("импортирован узел: " ++ profile.name ++ " [" ++ profile.protocol.asStr ++ "]"))

def importedProfiles (parsed : List (Except ParseError ServerProfile)) : List ServerProfile :=
  parsed.filterMap Except.toOption

def importReport (format : String) (parsed : List (Except ParseError ServerProfile)) : String :=
  let n := (importedProfiles parsed).length
  let errors := parsed.length - n
  "импортировано узлов: " ++ .ofList (decimal n) ++ " (формат: " ++ format ++ ")" ++
    if 0 < errors then "; пропущено с ошибкой: " ++ .ofList (decimal errors) else ""

def subUpdate (sub : Subscription) : Fetched → SubUpdate
  | .ok (servers, _) => { url := sub.url, count := some servers.length, error := none }
  | .error e         => { url := sub.url, count := none, error := some e }

def updateOneEdit (url : String) (fetch : Subscription → Fetched) : Edit := fun cfg =>
  match cfg.findSubscription url with
  | none              => .error ("подписка не найдена: " ++ url)
  | some (index, sub) => do
    let (servers, title) ← fetch sub
    return (some (cfg.refreshAt index sub servers title), .count servers.length)

-- Nodes of a subscription have its tag; nodes from before there were tags have its name in theirs.
def isSubscriptionNode (cfg : AppConfig) (s : ServerProfile) : Bool :=
  s.tags.any (cfg.subscriptions.map subTag).contains || decide (" · ".toList <:+: s.name.toList)

def clearEdit : Edit := fun cfg =>
  let servers := cfg.servers.filter (!isSubscriptionNode cfg ·)
  .ok (some { cfg with servers }, .count (cfg.servers.length - servers.length))

def newSubscription (url : String) (tag : Option String) (intervalHours : Nat) : Subscription where
  url
  tag := normalized tag
  updateIntervalHours := if intervalHours = 0 then 12 else intervalHours

def addSubscriptionEdit (sub : Subscription) : Edit :=
  .saveIf fun cfg =>
    if cfg.subscriptions.any (·.url == sub.url) then none
    else some (ensureDistinctSubTags { cfg with subscriptions := cfg.subscriptions ++ [sub] })

def updateRuleEdit (index : Nat) (rule : Rule) : Edit := fun cfg =>
  if cfg.rules.length ≤ index then
    .error ("индекс правила вне диапазона: " ++ .ofList (decimal index))
  else .ok (some { cfg with rules := cfg.rules.set index rule }, .unit)

def localWgEnsureEdit (generated : LocalWgConfig) : Edit := fun cfg =>
  match cfg.localWg with
  | some lw => .ok (none, .localWg lw)
  | none    => .ok (some { cfg with localWg := some generated }, .localWg generated)

def changeLocalWg (port : Option Nat) (upstreamNode : Option String) (lw : LocalWgConfig) :
    LocalWgConfig :=
  { lw with
    port := match port with
      | some p => if p ≠ 0 then p else lw.port
      | none   => lw.port
    upstreamNode := upstreamNode.filter (!isBlank ·) }

-- Arguments are checked first; an operation that rejects them does not load the configuration.
def plan : Op → Except String Edit
  | importNode arg parsed fetched => .ok (importEdit arg parsed fetched)
  | importConfig text format parsed =>
    if isBlank text then .error "пустой ввод"
    else if (importedProfiles parsed).isEmpty then
      .error ("не удалось распознать конфиг (формат: " ++ format ++ "); узлов не найдено")
    else .ok <| .save (fun cfg => { cfg with servers := cfg.servers ++ importedProfiles parsed })
      (.message (importReport format parsed))
  | updateSubscriptions fetch => .ok fun cfg => .ok (some (cfg.refresh fetch),
      .updates (cfg.subscriptions.map fun sub => subUpdate sub (fetch sub)))
  | updateOneSubscription url fetch => .ok (updateOneEdit url fetch)
  | clearSubscriptionNodes => .ok clearEdit
  | removeNode name => .ok <| .saveIf fun cfg =>
      if (cfg.applyRemove name).2 then some (cfg.applyRemove name).1 else none
  | setSettings defaultToProxy defaultProxy => .ok <| .save (fun cfg => { cfg with
      settings := { cfg.settings with
        defaultToProxy, defaultProxy := defaultProxy.filter (· != "") } }) .unit
  | setConnection listen proxyNode => .ok <| .save (fun cfg => { cfg with
      settings := { cfg.settings with
        listen := normalized listen, proxyNode := normalized proxyNode } }) .unit
  | addSubscription url tag intervalHours =>
    if isHttpUrl (trimmed url) then
      .ok (addSubscriptionEdit (newSubscription (trimmed url) tag intervalHours))
    else .error "URL подписки должен начинаться с http:// или https://"
  | removeSubscription url => .ok <| .saveIf (·.applyRemoveSubscription url)
  | setGeoPaths geosite geoip => .ok <| .save (fun cfg => { cfg with
      geo := { geositePath := normalized geosite, geoipPath := normalized geoip } }) .unit
  | addRule info => do
    let rule ← infoToRule info
    return .save (fun cfg => { cfg with rules := cfg.rules ++ [rule] }) .unit
  | updateRule index info => do
    let rule ← infoToRule info
    return updateRuleEdit index rule
  | removeRule index => .ok <| .saveIf fun cfg =>
      if index < cfg.rules.length then some { cfg with rules := cfg.rules.eraseIdx index } else none
  | moveRule index up => .ok <| .saveIf fun cfg => (cfg.moveTarget index up).map (cfg.swapRules index)
  | applyPreset id rules =>
    match rules with
    | none       => .error ("неизвестный пресет: " ++ id)
    | some rules => .ok <| .save ({ · with rules }) (.count rules.length)
  | setSplitOptions killSwitch => .ok <| .save (fun cfg => { cfg with
      split := { cfg.split with killSwitch } }) .unit
  | setSplitDriver driver => do
    let driver ← parseDriver driver
    return .save (fun cfg => { cfg with split := { cfg.split with driver } }) .unit
  | setSocksProxies proxies => .ok <| .save (fun cfg => { cfg with
      socksProxies := (normalizeProxies false proxies).filter (·.listen != "") }) .unit
  | localWgEnsure generated => .ok (localWgEnsureEdit generated)
  | localWgSet port upstreamNode => .ok <| .save (fun cfg => { cfg with
      localWg := cfg.localWg.map (changeLocalWg port upstreamNode) }) .unit

-- What an operation saves, given what it has loaded.
def write (op : Op) (cfg : AppConfig) : Option AppConfig :=
  match op.plan with
  | .error _  => none
  | .ok edit  =>
    match edit cfg with
    | .error _     => none
    | .ok (out, _) => out

end Op
end JammVpn
