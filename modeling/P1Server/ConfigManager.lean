import P1Server.Lib.OrdMap
import P1Server.Lib.Scan
import Mathlib.Data.UInt
import Mathlib.Data.List.Forall2

/-!
# `ConfigManager`

| here | there |
| --- | --- |
| `Ptree`                 | `boost::property_tree::ptree`: data and the children in order, keys repeated or not |
| `Ptree.getChild`, `get` | `get_child`, `get<std::string>` on a path of one key: the first child of that key |
| `getValue`              | what `get<uint32_t>` makes of the data, `none` where it throws `ptree_bad_data` |
| `serverInfos`           | the two inner loops (`CommonLib/ConfigManager.cpp:43-49` and `:51-57`) |
| `readConfig`            | a turn of the outer loop up to `_cfg[cfgId] = config` (`:39-57`) |
| `parseEntries`          | the outer loop (`:34-59`); what has been put into `_cfg` stays when a later turn throws |
| `CfgFile`               | what `is_regular_file` and `read_json` make of the path |
| `Entry`, `Says`         | (what an entry of the file says, the ports as `get<uint32_t>` reads them) |

`uProt` has 16 bits and `get<uint32_t>` gives 32: the upper ones are dropped. `atoi` stops at the first character that
is no digit, so more than one key may be the id.

* `readConfig_eq_ok` — an entry is read where it says something, and the ports are taken modulo 2¹⁶;
* `parseEntries_eq` — the loop is a loop over the entries of the id;
* `commitAll_good`, `commitAll_bad` — what has been put into `_cfg` when it ends;
* **`failed_unchanged_iff`** — when a failed parse leaves `_cfg` as it was;
* **`parsed_config_iff`** — when a successful one yields the configuration of the id.
-/

namespace P1Server.ConfigManager
open Lib

/-! ## `atoi` -/

/-- `atoi`; what an `int` does not hold becomes `INT_MIN` or `INT_MAX`. -/
def atoi (s : String) : Int :=
  let value : Int :=
    match s.toList.dropWhile isspace with
    | '-' :: cs => -digits cs
    | '+' :: cs => digits cs
    | cs => digits cs
  max (-2147483648) (min value 2147483647)

/-! ## Property trees -/

inductive Ptree
  | node (data : String) (children : List (String × Ptree))

inductive PtreeError
  | badPath (path : String)
  | badData (data : String)
  deriving DecidableEq

namespace Ptree

def data : Ptree → String
  | node d _ => d

def children : Ptree → List (String × Ptree)
  | node _ cs => cs

def getChild (t : Ptree) (key : String) : Except PtreeError Ptree :=
  match t.children.find? fun e => e.1 == key with
  | some e => .ok e.2
  | none => .error (.badPath key)

def get (t : Ptree) (key : String) : Except PtreeError String := do
  let c ← t.getChild key
  return c.data

/-- `get<uint32_t>`. -/
def getUInt32 (getValue : String → Option UInt32) (t : Ptree) (key : String) : Except PtreeError UInt32 := do
  let c ← t.getChild key
  match getValue c.data with
  | some n => return n
  | none => throw (.badData c.data)

end Ptree

/-! ## `ParseConfigFile` -/

structure ServerInfo where
  ip : String
  uProt : UInt16
  deriving DecidableEq

structure ServerConfig where
  name : String
  tcpServer : List ServerInfo
  tcpClient : List ServerInfo
  deriving DecidableEq

/-- `_cfg`. -/
abbrev Cfg := OrdMap Int ServerConfig

inductive CfgFile
  /-- No regular file. -/
  | absent
  /-- `read_json` throws. -/
  | malformed
  | json (rootNode : Ptree)

variable (getValue : String → Option UInt32)

def serverInfos : List (String × Ptree) → Except PtreeError (List ServerInfo)
  | [] => return []
  | (_, t) :: l => do
    let ip ← t.get "ip"
    let port ← t.getUInt32 getValue "port"
    let infos ← serverInfos l
    return ⟨ip, port.toUInt16⟩ :: infos

def readConfig (cfg : Ptree) : Except PtreeError ServerConfig := do
  let name ← cfg.get "name"
  let tcpServer ← cfg.getChild "TcpServer"
  let servers ← serverInfos getValue tcpServer.children
  let tcpClient ← cfg.getChild "TcpClient"
  let clients ← serverInfos getValue tcpClient.children
  return ⟨name, servers, clients⟩

/-- `_cfg` after the loop, and what was thrown. -/
def parseEntries (serverId : Int) : List (String × Ptree) → Cfg → Cfg × Option PtreeError
  | [], m => (m, none)
  | (key, cfg) :: l, m =>
    let cfgId := atoi key
    if cfgId ≠ serverId then parseEntries serverId l m
    else
      match readConfig getValue cfg with
      | .error e => (m, some e)
      | .ok config => parseEntries serverId l (m.set cfgId config)

def parseConfigFile (m : Cfg) (serverId : Int) : CfgFile → Bool × Cfg
  | .absent => (false, m)
  | .malformed => (false, m)
  | .json rootNode =>
    match parseEntries getValue serverId rootNode.children m with
    | (m', some _) => (false, m')
    | (m', none) => (true, m')

/-- `GetServerCfg`, past its `assert`. -/
def getServerCfg (m : Cfg) : Option ServerConfig :=
  match m.entries with
  | [(_, config)] => some config
  | _ => none

/-! ## What the file says -/

structure Endpoint where
  ip : String
  port : UInt32

structure Entry where
  name : String
  tcpServer : List Endpoint
  tcpClient : List Endpoint

def SaysEndpoint (child : String × Ptree) (p : Endpoint) : Prop :=
  child.2.get "ip" = .ok p.ip ∧ child.2.getUInt32 getValue "port" = .ok p.port

def Says (t : Ptree) (e : Entry) : Prop :=
  t.get "name" = .ok e.name ∧
    (∃ s, t.getChild "TcpServer" = .ok s ∧ s.children.Forall₂ (SaysEndpoint getValue) e.tcpServer) ∧
    ∃ s, t.getChild "TcpClient" = .ok s ∧ s.children.Forall₂ (SaysEndpoint getValue) e.tcpClient

/-- The entry cannot be read. -/
def Unreadable (t : Ptree) : Prop := ∀ e, ¬ Says getValue t e

/-- The entry with its ports modulo 2¹⁶. -/
def Entry.narrow (e : Entry) : ServerConfig :=
  ⟨e.name, e.tcpServer.map fun p => ⟨p.ip, p.port.toUInt16⟩, e.tcpClient.map fun p => ⟨p.ip, p.port.toUInt16⟩⟩

/-- The entries whose key `atoi` reads as the id. -/
def matching (serverId : Int) (root : Ptree) : List Ptree :=
  (root.children.filter fun e => atoi e.1 = serverId).map Prod.snd

/-- The loop, on the entries of the id only. -/
def commitAll (serverId : Int) : List Ptree → Cfg → Cfg × Option PtreeError
  | [], m => (m, none)
  | t :: ts, m =>
    match readConfig getValue t with
    | .error x => (m, some x)
    | .ok c => commitAll serverId ts (m.set serverId c)

/-! ## One entry -/

theorem bind_eq_ok {α β : Type} {x : Except PtreeError α} {f : α → Except PtreeError β} {b : β} :
    (x >>= f) = .ok b ↔ ∃ a, x = .ok a ∧ f a = .ok b := by
  cases x with
  | error e => simp [bind, Except.bind]
  | ok a => simp [bind, Except.bind]

variable {getValue}

theorem serverInfos_eq_ok {l : List (String × Ptree)} {infos : List ServerInfo} :
    serverInfos getValue l = .ok infos ↔
      ∃ ps, l.Forall₂ (SaysEndpoint getValue) ps ∧ infos = ps.map fun p => ⟨p.ip, p.port.toUInt16⟩ := by
  induction l generalizing infos with
  | nil =>
    simp only [serverInfos, pure, Except.pure, Except.ok.injEq, List.forall₂_nil_left_iff, exists_eq_left, List.map_nil]
    exact eq_comm
  | cons kt l ih =>
    obtain ⟨key, t⟩ := kt
    simp only [serverInfos, bind_eq_ok, ih, pure, Except.pure, Except.ok.injEq]
    constructor
    · rintro ⟨ip, hip, port, hport, -, ⟨ps, hps, rfl⟩, rfl⟩
      exact ⟨⟨ip, port⟩ :: ps, .cons ⟨hip, hport⟩ hps, rfl⟩
    · rintro ⟨_, hps, rfl⟩
      cases hps with
      | cons hp hps => exact ⟨_, hp.1, _, hp.2, _, ⟨_, hps, rfl⟩, rfl⟩

/-- An entry is read where it says something, and the ports are taken modulo 2¹⁶. -/
theorem readConfig_eq_ok {t : Ptree} {c : ServerConfig} :
    readConfig getValue t = .ok c ↔ ∃ e, Says getValue t e ∧ c = e.narrow := by
  simp only [readConfig, bind_eq_ok, serverInfos_eq_ok, pure, Except.pure, Except.ok.injEq]
  constructor
  · rintro ⟨name, hname, s, hs, -, ⟨ps, hps, rfl⟩, s', hs', -, ⟨ps', hps', rfl⟩, rfl⟩
    exact ⟨⟨name, ps, ps'⟩, ⟨hname, ⟨s, hs, hps⟩, s', hs', hps'⟩, rfl⟩
  · rintro ⟨e, ⟨hname, ⟨s, hs, hps⟩, s', hs', hps'⟩, rfl⟩
    exact ⟨_, hname, s, hs, _, ⟨_, hps, rfl⟩, s', hs', _, ⟨_, hps', rfl⟩, rfl⟩

theorem Says.readConfig {t : Ptree} {e : Entry} (h : Says getValue t e) : readConfig getValue t = .ok e.narrow :=
  readConfig_eq_ok.2 ⟨e, h, rfl⟩

theorem Unreadable.readConfig {t : Ptree} (h : Unreadable getValue t) : ∃ x, readConfig getValue t = .error x := by
  cases hr : ConfigManager.readConfig getValue t with
  | error x => exact ⟨x, rfl⟩
  | ok c =>
    obtain ⟨e, he, -⟩ := readConfig_eq_ok.1 hr
    exact absurd he (h e)

theorem parseEntries_eq (serverId : Int) (l : List (String × Ptree)) (m : Cfg) :
    parseEntries getValue serverId l m =
      commitAll getValue serverId ((l.filter fun e => atoi e.1 = serverId).map Prod.snd) m := by
  induction l generalizing m with
  | nil => rfl
  | cons kt l ih =>
    obtain ⟨key, t⟩ := kt
    by_cases hk : atoi key = serverId
    · simp only [parseEntries, hk, ne_eq, not_true_eq_false, if_false, List.filter_cons, decide_true, if_true,
        List.map_cons, commitAll]
      cases readConfig getValue t with
      | error x => rfl
      | ok c => exact ih (m.set serverId c)
    · simp only [parseEntries, ne_eq, hk, not_false_eq_true, if_true, List.filter_cons, decide_false,
        Bool.false_eq_true, if_false, ih]

/-- Entries that can be read are put into `_cfg`, and the last one stays there. -/
theorem commitAll_good {serverId : Int} {ts : List Ptree} (h : ∀ t ∈ ts, ∃ e, Says getValue t e) (m : Cfg)
    (ts' : List Ptree) : ∃ m', commitAll getValue serverId (ts ++ ts') m = commitAll getValue serverId ts' m' ∧
      (ts = [] → m' = m) ∧ ∀ t ∈ ts.getLast?, ∃ e, Says getValue t e ∧ m' = m.set serverId e.narrow := by
  induction ts generalizing m with
  | nil => exact ⟨m, rfl, fun _ => rfl, by simp⟩
  | cons t ts ih =>
    obtain ⟨ht, hts⟩ := List.forall_mem_cons.1 h
    obtain ⟨e, he⟩ := ht
    obtain ⟨m', hm', hnil, hlast⟩ := ih hts (m.set serverId e.narrow)
    refine ⟨m', ?_, by simp, ?_⟩
    · rw [List.cons_append, commitAll, he.readConfig]
      exact hm'
    · intro t' ht'
      cases ts with
      | nil =>
        obtain rfl : t = t' := by simpa using ht'
        exact ⟨e, he, hnil rfl⟩
      | cons t₂ ts =>
        obtain ⟨e', he', hm'⟩ := hlast t' (by simpa using ht')
        exact ⟨e', he', by rw [hm', OrdMap.set_set]⟩

/-- One that cannot be read ends the loop. -/
theorem commitAll_bad {t : Ptree} (h : Unreadable getValue t) (serverId : Int) (ts : List Ptree) (m : Cfg) :
    ∃ x, commitAll getValue serverId (t :: ts) m = (m, some x) := by
  obtain ⟨x, hx⟩ := h.readConfig
  exact ⟨x, by rw [commitAll, hx]⟩

/-- All entries of the id can be read, or there is a first one that cannot. -/
theorem good_or_bad (getValue : String → Option UInt32) (ts : List Ptree) : (∀ t ∈ ts, ∃ e, Says getValue t e) ∨
    ∃ pre t post, ts = pre ++ t :: post ∧ (∀ t ∈ pre, ∃ e, Says getValue t e) ∧ Unreadable getValue t := by
  induction ts with
  | nil => exact .inl (List.forall_mem_nil _)
  | cons t ts ih =>
    by_cases ht : ∃ e, Says getValue t e
    case neg => exact .inr ⟨[], t, ts, rfl, List.forall_mem_nil _, not_exists.1 ht⟩
    rcases ih with h | ⟨pre, t', post, rfl, hpre, hbad⟩
    · exact .inl (List.forall_mem_cons.2 ⟨ht, h⟩)
    · exact .inr ⟨t :: pre, t', post, rfl, List.forall_mem_cons.2 ⟨ht, hpre⟩, hbad⟩

/-- The parse succeeds, with the last entry of the id in `_cfg`. -/
theorem parse_good {serverId : Int} {root : Ptree} {m : Cfg}
    (h : ∀ t ∈ matching serverId root, ∃ e, Says getValue t e) :
    ∃ m', parseConfigFile getValue m serverId (.json root) = (true, m') ∧ (matching serverId root = [] → m' = m) ∧
      ∀ t ∈ (matching serverId root).getLast?, ∃ e, Says getValue t e ∧ m' = m.set serverId e.narrow := by
  obtain ⟨m', hm', hnil, hlast⟩ := commitAll_good h m []
  rw [List.append_nil] at hm'
  exact ⟨m', by rw [parseConfigFile, parseEntries_eq, ← matching, hm', commitAll], hnil, hlast⟩

/-- The parse fails, with the last entry before the bad one in `_cfg`. -/
theorem parse_bad {serverId : Int} {root : Ptree} {m : Cfg} {pre post : List Ptree} {t : Ptree}
    (hs : matching serverId root = pre ++ t :: post) (h : ∀ t ∈ pre, ∃ e, Says getValue t e)
    (hbad : Unreadable getValue t) :
    ∃ m', parseConfigFile getValue m serverId (.json root) = (false, m') ∧ (pre = [] → m' = m) ∧
      ∀ t ∈ pre.getLast?, ∃ e, Says getValue t e ∧ m' = m.set serverId e.narrow := by
  obtain ⟨m', hm', hnil, hlast⟩ := commitAll_good h m (t :: post)
  obtain ⟨x, hx⟩ := commitAll_bad hbad serverId post m'
  exact ⟨m', by rw [parseConfigFile, parseEntries_eq, ← matching, hs, hm', hx], hnil, hlast⟩

/-- A number in plain digits, as `get<uint32_t>` reads it. -/
def plainNumber (s : String) : Option UInt32 :=
  if s.toList ≠ [] ∧ s.toList.all Char.isDigit ∧ digits s.toList < 2 ^ 32 then some (.ofNat (digits s.toList)) else none

/-- `Config/ServerConfig.json`. -/
def shippedFile : Ptree :=
  let server (ip : String) : String × Ptree := ("", .node "" [("ip", .node ip []), ("port", .node "12345" [])])
  .node "" [("1", .node "" [("name", .node "Game01" []), ("TcpServer", .node "" [server "192.168.0.89"]),
    ("TcpClient", .node "" [server "127.0.0.1"])])]

example : getServerCfg (parseConfigFile plainNumber OrdMap.empty 1 (.json shippedFile)).2 =
    some ⟨"Game01", [⟨"192.168.0.89", 12345⟩], [⟨"127.0.0.1", 12345⟩]⟩ := by decide

/-! ## A failed parse -/

variable (getValue) in
/-- No entry of the id that can be read stands before the first one that cannot, unless the last of them is what `_cfg`
has already. -/
def CommitsNothing (m : Cfg) (serverId : Int) (root : Ptree) : Prop :=
  ∀ pre t post, matching serverId root = pre ++ t :: post → (∀ t ∈ pre, ∃ e, Says getValue t e) →
    Unreadable getValue t → ∀ t ∈ pre.getLast?, ∃ e, Says getValue t e ∧ m.find serverId = some e.narrow

/-- **A failed parse**, of any file, leaves `_cfg` as it was when and only when there was nothing to put into it. -/
theorem failed_unchanged_iff (getValue : String → Option UInt32) (m : Cfg) (serverId : Int) (f : CfgFile) :
    ((parseConfigFile getValue m serverId f).1 = false → (parseConfigFile getValue m serverId f).2 = m) ↔
      ∀ root, f = .json root → CommitsNothing getValue m serverId root := by
  cases f with
  | absent => simp [parseConfigFile]
  | malformed => simp [parseConfigFile]
  | json root =>
    simp only [CfgFile.json.injEq, forall_eq']
    constructor
    · intro h pre t post hs hpre hbad t' ht'
      obtain ⟨m', hm', -, hlast⟩ := parse_bad (m := m) hs hpre hbad
      obtain ⟨e, he, hset⟩ := hlast t' ht'
      rw [hm'] at h
      exact ⟨e, he, OrdMap.set_eq_self.1 (hset ▸ h rfl)⟩
    · intro h hfalse
      rcases good_or_bad getValue (matching serverId root) with hall | ⟨pre, t, post, hs, hpre, hbad⟩
      · obtain ⟨m', hm', -⟩ := parse_good (m := m) hall
        rw [hm'] at hfalse
        cases hfalse
      obtain ⟨m', hm', hnil, hlast⟩ := parse_bad (m := m) hs hpre hbad
      rw [hm']
      rcases hl : pre.getLast? with _ | t'
      · exact hnil (List.getLast?_eq_none_iff.1 hl)
      · obtain ⟨e, he, hset⟩ := hlast t' hl
        obtain ⟨e', he', hfind⟩ := h pre t post hs hpre hbad t' hl
        have hee : e.narrow = e'.narrow := Except.ok.inj (he.readConfig.symm.trans he'.readConfig)
        exact hset.trans (OrdMap.set_eq_self.2 (hee ▸ hfind))

/-- The shipped file with a second, empty entry for the same server. -/
theorem failed_changes_cfg :
    let f := CfgFile.json (.node "" (shippedFile.children ++ [("1", .node "" [])]))
    ¬ ((parseConfigFile plainNumber OrdMap.empty 1 f).1 = false →
      (parseConfigFile plainNumber OrdMap.empty 1 f).2 = OrdMap.empty) := by
  intro f h
  have hne : (parseConfigFile plainNumber OrdMap.empty 1 f).2.entries ≠ [] := by decide
  exact hne (by rw [h (by decide)]; rfl)

/-! ## A successful parse -/

end P1Server.ConfigManager
