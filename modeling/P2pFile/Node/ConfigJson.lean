/-
  P2pFile.Node.ConfigJson

  The settings as JSON (the derived `Serialize` and `Deserialize` of
  `src/node/core/config.rs` and of the types it stores).

  Every type has its writer, its reader and the lemma that the reader undoes the writer.
  Only the flow label of an IPv6 address is lost: its text does not show it (`plain`).
-/

import P2pFile.Lib.JsonValue
import P2pFile.Node.Config

namespace P2pFile.Node

open Lib Protocol Storage Json
open Value (asBool asList asStr)

/-! ## Scalars -/

variable {α : Type}

/-- A number of an integer type of the source. -/
def readNat (bound : Nat) (make : Nat → α) (v : Value) : Option α := (v.asNat bound).map make

theorem readNat_num {bound n : Nat} {make : Nat → α} (h : n < bound) :
    readNat bound make (.num n) = some (make n) := by
  show (if n < bound then some n else none).map make = some (make n)
  rw [if_pos h]
  rfl

def readU8 : Value → Option UInt8 := readNat (2 ^ 8) UInt8.ofNat
def readU16 : Value → Option UInt16 := readNat (2 ^ 16) UInt16.ofNat
def readU32 : Value → Option UInt32 := readNat (2 ^ 32) UInt32.ofNat
def readU64 : Value → Option UInt64 := readNat (2 ^ 64) UInt64.ofNat

theorem readU8_num (x : UInt8) : readU8 (.num x.toNat) = some x := by
  unfold readU8
  rw [readNat_num x.toNat_lt, UInt8.ofNat_toNat]

theorem readU16_num (x : UInt16) : readU16 (.num x.toNat) = some x := by
  unfold readU16
  rw [readNat_num x.toNat_lt, UInt16.ofNat_toNat]

theorem readU32_num (x : UInt32) : readU32 (.num x.toNat) = some x := by
  unfold readU32
  rw [readNat_num x.toNat_lt, UInt32.ofNat_toNat]

theorem readU64_num (x : UInt64) : readU64 (.num x.toNat) = some x := by
  unfold readU64
  rw [readNat_num x.toNat_lt, UInt64.ofNat_toNat]

/-- A path is its text.  One that is not UTF-8 cannot be written; `pathText` is used only
    for paths that have been checked. -/
def pathText (path : PathBuf) : Value := .str (path.toStr.getD "")

def readPath (v : Value) : Option PathBuf := v.asStr.map PathBuf.ofString

theorem readPath_pathText {path : PathBuf} (h : path.toStr.isSome = true) :
    readPath (pathText path) = some path := by
  obtain ⟨shown, hshown⟩ := Option.isSome_iff_exists.mp h
  unfold readPath pathText
  rw [hshown]
  unfold PathBuf.toStr String.fromUTF8? at hshown
  split at hshown
  · cases hshown
    rfl
  · cases hshown

/-- `[u8; n]`: a list of numbers. -/
def bytesValue {n : Nat} (bytes : Bytes n) : Value := .arr (bytes.toList.map fun b => .num b.toNat)

def readBytes (n : Nat) (v : Value) : Option (Bytes n) := (v.asList readU8).bind (Bytes.ofList? n)

theorem readBytes_bytesValue {n : Nat} (bytes : Bytes n) :
    readBytes n (bytesValue bytes) = some bytes := by
  unfold readBytes bytesValue
  rw [asList_map_self fun b _ => readU8_num b, Option.bind_some]
  unfold Bytes.ofList?
  rw [dif_pos bytes.length_eq]

variable (text : HostText) (v : Value)

def readAddr : Option SocketAddr := v.asStr.bind text.parseAddr

/-- The address has no flow label. -/
def Plain (a : SocketAddr) : Prop := plainAddr a = a

theorem readAddr_str (a : SocketAddr) :
    readAddr text (.str (text.addr a)) = some (plainAddr a) := text.parse_addr a

/-! ## Records -/

def SpeedtestDirection.toValue : SpeedtestDirection → Value
  | .both => .str "both"
  | .upload => .str "upload"
  | .download => .str "download"

def SpeedtestDirection.read : Option SpeedtestDirection :=
  v.asStr.bind fun name =>
    if name = "both" then some .both
    else if name = "upload" then some .upload
    else if name = "download" then some .download
    else none

theorem SpeedtestDirection.read_toValue (d : SpeedtestDirection) : read d.toValue = some d := by
  cases d <;> rfl

def SignalTlsClient.toValue (tls : SignalTlsClient) : Value :=
  .obj [("ca_file", ofOption pathText tls.caFile), ("server_name", ofOption .str tls.serverName)]

def SignalTlsClient.read : Option SignalTlsClient := do
  let fields ← v.fields ["ca_file", "server_name"]
  let caFile ← nullable fields "ca_file" readPath
  let serverName ← nullable fields "server_name" asStr
  return { caFile, serverName }

theorem SignalTlsClient.read_toValue {tls : SignalTlsClient}
    (h : ∀ path ∈ tls.caFile, path.toStr.isSome = true) : read tls.toValue = some tls := by
  have hca : (ofOption pathText tls.caFile).asOption readPath = some tls.caFile :=
    asOption_ofOption (fun _ _ => by simp [pathText]) fun path hpath =>
      readPath_pathText (h path hpath)
  have hname : (ofOption .str tls.serverName).asOption asStr = some tls.serverName :=
    asOption_ofOption (fun _ _ => by simp) fun _ _ => rfl
  simp [read, toValue, Value.fields, namesOk, List.lookup_cons, nullable, hca, hname]

variable (limits : FileLimits)

def FileLimits.toValue : Value :=
  .obj [("upload_kib", .num limits.uploadKib.toNat),
    ("download_kib", .num limits.downloadKib.toNat)]

def FileLimits.read : Option FileLimits := do
  let fields ← v.fields ["upload_kib", "download_kib"]
  let uploadKib ← required fields "upload_kib" readU32
  let downloadKib ← required fields "download_kib" readU32
  return { uploadKib, downloadKib }

theorem FileLimits.read_toValue : read limits.toValue = some limits := by
  simp [read, toValue, Value.fields, namesOk, List.lookup_cons, required, readU32_num]

variable (signal : SignalConfig)

def SignalConfig.toValue : Value :=
  .obj [("host", .str signal.host), ("port", .num signal.port.toNat)]

def SignalConfig.read : Option SignalConfig := do
  let fields ← v.fields ["host", "port"]
  let host ← required fields "host" asStr
  let port ← required fields "port" readU16
  return { host, port }

theorem SignalConfig.read_toValue : read signal.toValue = some signal := by
  simp [read, toValue, Value.fields, namesOk, List.lookup_cons, required, readU16_num, asStr]

def AllowedForwardTarget.toValue (entry : AllowedForwardTarget) : Value :=
  .obj [("allowed_peers", .arr (entry.allowedPeers.map .str)), ("id", .str entry.id),
    ("name", .str entry.name), ("target", .str (text.addr entry.target)),
    ("enabled", .bool entry.enabled)]

def AllowedForwardTarget.read : Option AllowedForwardTarget := do
  let fields ← v.fields ["allowed_peers", "id", "name", "target", "enabled"]
  let allowedPeers ← defaulted fields "allowed_peers" [] (asList asStr)
  let id ← required fields "id" asStr
  let name ← required fields "name" asStr
  let target ← required fields "target" (readAddr text)
  let enabled ← required fields "enabled" asBool
  return { allowedPeers, id, name, target, enabled }

/-- What is left of a service when it is read again. -/
def AllowedForwardTarget.plain (entry : AllowedForwardTarget) : AllowedForwardTarget :=
  { entry with target := plainAddr entry.target }

theorem AllowedForwardTarget.read_toValue (entry : AllowedForwardTarget) :
    read text (entry.toValue text) = some entry.plain := by
  have hpeers : (Value.arr (entry.allowedPeers.map .str)).asList asStr =
      some entry.allowedPeers := asList_map_self fun _ _ => rfl
  simp [read, toValue, plain, Value.fields, namesOk, List.lookup_cons, required, defaulted, hpeers,
    readAddr_str text, asStr, asBool]

def TunnelRule.toValue (rule : TunnelRule) : Value :=
  .obj [("id", .str rule.id), ("name", .str rule.name), ("peer_node_id", .str rule.peerNodeId),
    ("listen", .str (text.addr rule.listen)), ("target", .str (text.addr rule.target)),
    ("enabled", .bool rule.enabled), ("auto_start", .bool rule.autoStart)]

def TunnelRule.read : Option TunnelRule := do
  let fields ← v.fields ["id", "name", "peer_node_id", "listen", "target", "enabled", "auto_start"]
  let id ← required fields "id" asStr
  let name ← required fields "name" asStr
  let peerNodeId ← required fields "peer_node_id" asStr
  let listen ← required fields "listen" (readAddr text)
  let target ← required fields "target" (readAddr text)
  let enabled ← required fields "enabled" asBool
  let autoStart ← required fields "auto_start" asBool
  return { id, name, peerNodeId, listen, target, enabled, autoStart }

/-- What is left of a rule when it is read again. -/
def TunnelRule.plain (rule : TunnelRule) : TunnelRule :=
  { rule with listen := plainAddr rule.listen, target := plainAddr rule.target }

theorem TunnelRule.read_toValue (rule : TunnelRule) :
    read text (rule.toValue text) = some rule.plain := by
  simp [read, toValue, plain, Value.fields, namesOk, List.lookup_cons, required, readAddr_str text,
    asStr, asBool]

variable (verifier : RemoteVerifier)

def RemoteVerifier.toValue : Value :=
  .obj [("version", .num verifier.version.toNat), ("salt", bytesValue verifier.salt),
    ("key", bytesValue verifier.key)]

def RemoteVerifier.read : Option RemoteVerifier := do
  let fields ← v.fields ["version", "salt", "key"]
  let version ← required fields "version" readU16
  let salt ← required fields "salt" (readBytes 16)
  let key ← required fields "key" (readBytes 32)
  return { version, salt, key }

theorem RemoteVerifier.read_toValue : read verifier.toValue = some verifier := by
  simp [read, toValue, Value.fields, namesOk, List.lookup_cons, required, readU16_num,
    readBytes_bytesValue]

variable (device : TrustedDevice)

def TrustedDevice.toValue : Value :=
  .obj [("node_id", .str device.nodeId), ("display_name", .str device.displayName),
    ("last_short_id", ofOption .str device.lastShortId),
    ("trusted_at", .num device.trustedAt.toNat), ("updated_at", .num device.updatedAt.toNat)]

def TrustedDevice.read : Option TrustedDevice := do
  let fields ← v.fields ["node_id", "display_name", "last_short_id", "trusted_at", "updated_at"]
  let nodeId ← required fields "node_id" asStr
  let displayName ← required fields "display_name" asStr
  let lastShortId ← nullable fields "last_short_id" asStr
  let trustedAt ← required fields "trusted_at" readU64
  let updatedAt ← required fields "updated_at" readU64
  return { nodeId, displayName, lastShortId, trustedAt, updatedAt }

theorem TrustedDevice.read_toValue : read device.toValue = some device := by
  have hshort : (ofOption .str device.lastShortId).asOption asStr =
      some device.lastShortId := asOption_ofOption (fun _ _ => by simp) fun _ _ => rfl
  simp [read, toValue, Value.fields, namesOk, List.lookup_cons, required, nullable, hshort,
    readU64_num, asStr]

/-! ## The settings -/

variable {write : α → Value}

theorem lookup_skipNone_of_ne {name other : String} (h : other ≠ name) (o : Option α)
    (rest : Fields) : (skipNone name write o ++ rest).lookup other = rest.lookup other := by
  cases o with
  | none => rfl
  | some a =>
    have hne : (other == name) = false := by simpa using h
    simp [skipNone, List.lookup_cons, hne]

/-- The field comes back, whether it was written or not. -/
theorem nullable_skipNone {name : String} {read : Value → Option α} {o : Option α}
    {fields rest : Fields}
    (hfields : fields.lookup name = (skipNone name write o ++ rest).lookup name)
    (habsent : rest.lookup name = none) (hnull : ∀ a ∈ o, write a ≠ .null)
    (h : ∀ a ∈ o, read (write a) = some a) : nullable fields name read = some o := by
  unfold nullable
  rw [hfields]
  cases o with
  | none => simp [skipNone, habsent]
  | some a =>
    have hread : (ofOption write (some a)).asOption read = some (some a) :=
      asOption_ofOption hnull h
    simp only [skipNone, List.cons_append, List.nil_append, List.lookup_cons, beq_self_eq_true]
    exact hread

variable (config : DesktopConfig)

/-- The fields after `relay_server`. -/
def DesktopConfig.lastFields : Fields :=
  [("schema_version", .num config.schemaVersion.toNat),
    ("signal", ofOption SignalConfig.toValue config.signal),
    ("receive_directory", ofOption pathText config.receiveDirectory),
    ("send_concurrency", .num config.sendConcurrency.toNat),
    ("speedtest_seconds", .num config.speedtestSeconds.toNat),
    ("speedtest_direction", config.speedtestDirection.toValue),
    ("allowed_forward_targets",
      .arr (config.allowedForwardTargets.map (AllowedForwardTarget.toValue text))),
    ("tunnel_rules", .arr (config.tunnelRules.map (TunnelRule.toValue text))),
    ("remote_auth", ofOption RemoteVerifier.toValue config.remoteAuth),
    ("trusted_devices", .arr (config.trustedDevices.map TrustedDevice.toValue))]

/-- The fields between `signal_tls` and `relay_server`. -/
def DesktopConfig.firstFields : Fields :=
  [("file_limits", config.fileLimits.toValue), ("auto_resume", .bool config.autoResume),
    ("receive_safety_mib", .num config.receiveSafetyMib.toNat)]

def DesktopConfig.toFields : Fields :=
  skipNone "signal_tls" SignalTlsClient.toValue config.signalTls ++ (config.firstFields
    ++ (skipNone "relay_server" .str config.relayServer ++ config.lastFields text))

def DesktopConfig.toValue : Value := .obj (config.toFields text)

/-- The names of the settings. -/
def configNames : List String :=
  ["signal_tls", "file_limits", "auto_resume", "receive_safety_mib", "relay_server",
    "schema_version", "signal", "receive_directory", "send_concurrency", "speedtest_seconds",
    "speedtest_direction", "allowed_forward_targets", "tunnel_rules", "remote_auth",
    "trusted_devices"]

def DesktopConfig.read : Option DesktopConfig := do
  let fields ← v.fields configNames
  let signalTls ← nullable fields "signal_tls" SignalTlsClient.read
  let fileLimits ← defaulted fields "file_limits" ⟨0, 0⟩ FileLimits.read
  let autoResume ← defaulted fields "auto_resume" false asBool
  let receiveSafetyMib ← defaulted fields "receive_safety_mib" defaultSafetyMib readU16
  let relayServer ← nullable fields "relay_server" asStr
  let schemaVersion ← required fields "schema_version" readU32
  let signal ← nullable fields "signal" SignalConfig.read
  let receiveDirectory ← nullable fields "receive_directory" readPath
  let sendConcurrency ← required fields "send_concurrency" readU8
  let speedtestSeconds ← required fields "speedtest_seconds" readU16
  let speedtestDirection ← required fields "speedtest_direction" SpeedtestDirection.read
  let allowedForwardTargets ← defaulted fields "allowed_forward_targets" []
    (asList (AllowedForwardTarget.read text))
  let tunnelRules ← defaulted fields "tunnel_rules" [] (asList (TunnelRule.read text))
  let remoteAuth ← nullable fields "remote_auth" RemoteVerifier.read
  let trustedDevices ← defaulted fields "trusted_devices" [] (asList TrustedDevice.read)
  return ⟨signalTls, fileLimits, autoResume, receiveSafetyMib, relayServer, schemaVersion,
    signal, receiveDirectory, sendConcurrency, speedtestSeconds, speedtestDirection,
    allowedForwardTargets, tunnelRules, remoteAuth, trustedDevices⟩

/-- Every path of the settings has a text. -/
structure DesktopConfig.PathsShown (config : DesktopConfig) : Prop where
  caFile : ∀ tls ∈ config.signalTls, ∀ path ∈ tls.caFile, path.toStr.isSome = true
  receiveDirectory : ∀ path ∈ config.receiveDirectory, path.toStr.isSome = true

/-- No address of the settings has a flow label. -/
structure DesktopConfig.PlainAddrs (config : DesktopConfig) : Prop where
  allowed : ∀ entry ∈ config.allowedForwardTargets, Plain entry.target
  listen : ∀ rule ∈ config.tunnelRules, Plain rule.listen
  target : ∀ rule ∈ config.tunnelRules, Plain rule.target

/-- What is left of the settings when they are read again. -/
def DesktopConfig.plain (config : DesktopConfig) : DesktopConfig :=
  { config with
    allowedForwardTargets := config.allowedForwardTargets.map AllowedForwardTarget.plain
    tunnelRules := config.tunnelRules.map TunnelRule.plain }

/-- Just the settings without flow labels are left as they were. -/
theorem DesktopConfig.plain_eq_iff {config : DesktopConfig} :
    config.plain = config ↔ config.PlainAddrs := by
  constructor
  · intro heq
    have hallowed : config.allowedForwardTargets.map AllowedForwardTarget.plain =
        config.allowedForwardTargets := congrArg allowedForwardTargets heq
    have hrules : config.tunnelRules.map TunnelRule.plain = config.tunnelRules :=
      congrArg tunnelRules heq
    rw [map_eq_self_iff] at hallowed hrules
    exact ⟨fun entry h => congrArg AllowedForwardTarget.target (hallowed entry h),
      fun rule h => congrArg TunnelRule.listen (hrules rule h),
      fun rule h => congrArg TunnelRule.target (hrules rule h)⟩
  · rintro ⟨hentries, hlistens, htargets⟩
    have hallowed : config.allowedForwardTargets.map AllowedForwardTarget.plain =
        config.allowedForwardTargets := by
      refine map_eq_self_iff.mpr fun entry h => ?_
      rw [AllowedForwardTarget.plain, hentries entry h]
    have hrules : config.tunnelRules.map TunnelRule.plain = config.tunnelRules := by
      refine map_eq_self_iff.mpr fun rule h => ?_
      rw [TunnelRule.plain, hlistens rule h, htargets rule h]
    rw [plain, hallowed, hrules]

/-- The writer uses known names, each at most once. -/
theorem DesktopConfig.fields_toValue :
    (config.toValue text).fields configNames = some (config.toFields text) := by
  have hnames : namesOk configNames ((config.toFields text).map Prod.fst) = true := by
    have heq : (config.toFields text).map Prod.fst =
        (if config.signalTls.isSome then ["signal_tls"] else [])
          ++ ["file_limits", "auto_resume", "receive_safety_mib"]
          ++ (if config.relayServer.isSome then ["relay_server"] else [])
          ++ configNames.drop 5 := by
      cases h₁ : config.signalTls <;> cases h₂ : config.relayServer <;>
        simp [toFields, firstFields, lastFields, skipNone, configNames, h₁, h₂]
    rw [heq]
    cases config.signalTls.isSome <;> cases config.relayServer.isSome <;> decide
  show (if namesOk configNames ((config.toFields text).map Prod.fst) then _ else _) = _
  rw [if_pos hnames]

/-- A name of the last fields is looked up there. -/
theorem DesktopConfig.lookup_last {name : String}
    (hname : name ≠ "signal_tls" ∧ name ≠ "relay_server")
    (hfirst : config.firstFields.lookup name = none) :
    (config.toFields text).lookup name = (config.lastFields text).lookup name := by
  unfold toFields
  rw [lookup_skipNone_of_ne hname.1, List.lookup_append, hfirst, Option.none_or,
    lookup_skipNone_of_ne hname.2]

/-- A name of the first fields is looked up there. -/
theorem DesktopConfig.lookup_first {name : String} {v : Value}
    (htls : name ≠ "signal_tls") (hfirst : config.firstFields.lookup name = some v) :
    (config.toFields text).lookup name = some v := by
  unfold toFields
  rw [lookup_skipNone_of_ne htls, List.lookup_append, hfirst, Option.some_or]

/-- The settings come back from their JSON value, but for the flow labels. -/
theorem DesktopConfig.read_toValue {config : DesktopConfig} (hpaths : config.PathsShown) :
    read text (config.toValue text) = some config.plain := by
  have htls : ∀ tls ∈ config.signalTls, SignalTlsClient.read tls.toValue = some tls :=
    fun tls h => SignalTlsClient.read_toValue (hpaths.caFile tls h)
  have hsignal : (ofOption SignalConfig.toValue config.signal).asOption SignalConfig.read =
      some config.signal :=
    asOption_ofOption (fun _ _ => by simp [SignalConfig.toValue])
      fun signal _ => signal.read_toValue
  have hdirectory : (ofOption pathText config.receiveDirectory).asOption readPath =
      some config.receiveDirectory :=
    asOption_ofOption (fun _ _ => by simp [pathText]) fun path h =>
      readPath_pathText (hpaths.receiveDirectory path h)
  have hauth : (ofOption RemoteVerifier.toValue config.remoteAuth).asOption RemoteVerifier.read =
      some config.remoteAuth :=
    asOption_ofOption (fun _ _ => by simp [RemoteVerifier.toValue])
      fun verifier _ => verifier.read_toValue
  have hallowed := @asList_map _ _ _ _ config.allowedForwardTargets
    fun entry _ => entry.read_toValue text
  have hrules := @asList_map _ _ _ _ config.tunnelRules fun rule _ => rule.read_toValue text
  have hdevices : (Value.arr (config.trustedDevices.map TrustedDevice.toValue)).asList
      TrustedDevice.read = some config.trustedDevices :=
    asList_map_self fun device _ => device.read_toValue
  have htlsField : nullable (config.toFields text) "signal_tls" SignalTlsClient.read =
      some config.signalTls := by
    refine nullable_skipNone rfl ?_ (fun _ _ => by simp [SignalTlsClient.toValue]) htls
    rw [List.lookup_append, lookup_skipNone_of_ne (by decide)]
    simp [firstFields, lastFields, List.lookup_cons]
  have hrelayField : nullable (config.toFields text) "relay_server" asStr =
      some config.relayServer := by
    have hlookup : (config.toFields text).lookup "relay_server" =
        (skipNone "relay_server" .str config.relayServer ++ config.lastFields text).lookup
          "relay_server" := by
      unfold toFields
      rw [lookup_skipNone_of_ne (by decide), List.lookup_append]
      simp [firstFields, List.lookup_cons]
    refine nullable_skipNone hlookup ?_ (fun _ _ => by simp) fun _ _ => rfl
    simp [lastFields, List.lookup_cons]
  -- The fields in the order in which they are read, each where the writer has put it.
  have hfirst := @lookup_first text config
  have hlast := @lookup_last text config
  refine bind_some_eq (config.fields_toValue text) ?_
  refine bind_some_eq htlsField ?_
  refine bind_some_eq (defaulted_of_lookup (hfirst (by decide) rfl) (FileLimits.read_toValue _)) ?_
  refine bind_some_eq (defaulted_of_lookup (hfirst (by decide) rfl) rfl) ?_
  refine bind_some_eq (defaulted_of_lookup (hfirst (by decide) rfl) (readU16_num _)) ?_
  refine bind_some_eq hrelayField ?_
  refine bind_some_eq (required_of_lookup (hlast (by decide) rfl) (readU32_num _)) ?_
  refine bind_some_eq (nullable_of_lookup (hlast (by decide) rfl) hsignal) ?_
  refine bind_some_eq (nullable_of_lookup (hlast (by decide) rfl) hdirectory) ?_
  refine bind_some_eq (required_of_lookup (hlast (by decide) rfl) (readU8_num _)) ?_
  refine bind_some_eq (required_of_lookup (hlast (by decide) rfl) (readU16_num _)) ?_
  refine bind_some_eq (required_of_lookup (hlast (by decide) rfl)
    config.speedtestDirection.read_toValue) ?_
  refine bind_some_eq (defaulted_of_lookup (hlast (by decide) rfl) hallowed) ?_
  refine bind_some_eq (defaulted_of_lookup (hlast (by decide) rfl) hrules) ?_
  refine bind_some_eq (nullable_of_lookup (hlast (by decide) rfl) hauth) ?_
  exact bind_some_eq (defaulted_of_lookup (hlast (by decide) rfl) hdevices) rfl

end P2pFile.Node
