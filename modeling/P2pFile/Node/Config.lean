/-
  P2pFile.Node.Config

  The settings of the application and their validation (`src/node/core/config.rs`,
  `trusted_devices.rs`, `bandwidth.rs`, `receive_policy.rs`, `tunnel/rules.rs`,
  `discovery/signal_tls.rs`, `relay/client.rs`).

  What the standard library and other crates make of a text (addresses, server names, JSON,
  the message of a text that is not hexadecimal) is a parameter, `HostText`.
-/

import P2pFile.Discovery.Signal
import P2pFile.Lib.JsonValue
import P2pFile.Node.SpaceBudget
import P2pFile.Node.TaskModel

namespace P2pFile.Node

open Lib Protocol Storage

/-! ## Texts of other crates -/

/-- The address without its flow label, which its text does not show. -/
def plainAddr : SocketAddr → SocketAddr
  | .v4 ip port => .v4 ip port
  | .v6 ip port _ scopeId => .v6 ip port 0 scopeId

structure HostText where
  /-- `Display` of a `SocketAddr`. -/
  addr : SocketAddr → String
  /-- `FromStr` of a `SocketAddr`. -/
  parseAddr : String → Option SocketAddr
  /-- Whether the text is an `IpAddr`. -/
  isIp : String → Bool
  /-- Whether `rustls` takes the text for a server name. -/
  isServerName : String → Bool
  /-- The message with which `hex::decode` refuses the text. -/
  hexError : String → String
  /-- The bytes of a file with settings, and how many they are. -/
  Bytes : Type
  len : Bytes → Nat
  /-- `serde_json::to_vec_pretty`. -/
  pretty : Json.Value → Bytes
  /-- `serde_json::from_slice`. -/
  parse : Bytes → Option Json.Value
  /-- An address is read back from its text. -/
  parse_addr : ∀ a, parseAddr (addr a) = some (plainAddr a)
  /-- So is a JSON value. -/
  parse_pretty : ∀ v, parse (pretty v) = some v

/-! ## The settings -/

inductive SpeedtestDirection where
  | both
  | upload
  | download
  deriving DecidableEq

structure SignalTlsClient where
  caFile : Option PathBuf
  serverName : Option String
  deriving DecidableEq

structure FileLimits where
  uploadKib : UInt32
  downloadKib : UInt32
  deriving DecidableEq

structure SignalConfig where
  host : String
  port : UInt16
  deriving DecidableEq

structure AllowedForwardTarget where
  allowedPeers : List String
  id : String
  name : String
  target : SocketAddr
  enabled : Bool
  deriving DecidableEq

structure TunnelRule where
  id : String
  name : String
  peerNodeId : String
  listen : SocketAddr
  target : SocketAddr
  enabled : Bool
  autoStart : Bool
  deriving DecidableEq

structure RemoteVerifier where
  version : UInt16
  salt : Bytes 16
  key : Bytes 32
  deriving DecidableEq

structure TrustedDevice where
  nodeId : String
  displayName : String
  lastShortId : Option String
  trustedAt : UInt64
  updatedAt : UInt64
  deriving DecidableEq

structure DesktopConfig where
  signalTls : Option SignalTlsClient
  fileLimits : FileLimits
  autoResume : Bool
  receiveSafetyMib : UInt16
  relayServer : Option String
  schemaVersion : UInt32
  signal : Option SignalConfig
  receiveDirectory : Option PathBuf
  sendConcurrency : UInt8
  speedtestSeconds : UInt16
  speedtestDirection : SpeedtestDirection
  allowedForwardTargets : List AllowedForwardTarget
  tunnelRules : List TunnelRule
  remoteAuth : Option RemoteVerifier
  trustedDevices : List TrustedDevice
  deriving DecidableEq

inductive ConfigError where
  | corrupt (reason : String)
  /-- `Corrupt` with the message of `serde_json`. -/
  | corruptJson
  | invalid (reason : String)
  | unsupportedPathEncoding
  | io (err : Error)
  /-- `Json`: a text cannot be written. -/
  | json
  deriving DecidableEq

/-- `Display`, as far as it is put into other errors. -/
def ConfigError.display : ConfigError → String
  | .corrupt reason => "配置文件损坏且原文件已保留：" ++ reason
  | .corruptJson => "配置文件损坏且原文件已保留："
  | .invalid reason => "设置无效：" ++ reason
  | .unsupportedPathEncoding => "所选路径不是 UTF-8，当前设置格式不能安全保存该路径"
  | .io err => "文件系统操作失败：" ++ err.display
  | .json => "JSON 配置读写失败："

/-! ## Characters -/

variable (ch : Char)

/-- `char::is_whitespace`. -/
def isWhitespace : Bool :=
  let n := ch.toNat
  (0x09 ≤ n && n ≤ 0x0d) || n == 0x20 || n == 0x85 || n == 0xa0 || n == 0x1680
    || (0x2000 ≤ n && n ≤ 0x200a) || n == 0x2028 || n == 0x2029 || n == 0x202f || n == 0x205f
    || n == 0x3000

variable (chars : List Char)

/-- `str::trim`. -/
def trim : List Char := ((chars.dropWhile isWhitespace).reverse.dropWhile isWhitespace).reverse

/-- `u8::is_ascii_digit`. -/
def isAsciiDigit : Bool := '0' ≤ ch && ch ≤ '9'

/-- `u8::is_ascii_alphanumeric`. -/
def isAsciiAlphanumeric : Bool :=
  isAsciiDigit ch || ('a' ≤ ch && ch ≤ 'z') || ('A' ≤ ch && ch ≤ 'Z')

/-- `strip_suffix('.')`, or the whole text. -/
def withoutFinalDot : List Char :=
  if chars.getLast? = some '.' then chars.dropLast else chars

/-- One label of a host name. -/
def labelOk (label : List Char) : Bool :=
  label != [] && utf8Len label ≤ 63 && label.head?.any isAsciiAlphanumeric
    && label.getLast?.any isAsciiAlphanumeric
    && label.all fun ch => isAsciiAlphanumeric ch || ch == '-'

def digitsAndDots : Bool := chars.all fun ch => isAsciiDigit ch || ch == '.'

/-- The value of decimal digits. -/
def decimal (digits : List Char) : Nat :=
  digits.foldl (fun n ch => 10 * n + (ch.toNat - '0'.toNat)) 0

/-- `str::parse::<u16>`: digits after an optional plus. -/
def parseU16 : Option Nat :=
  let digits := if chars.head? = some '+' then chars.tail else chars
  if digits == [] || !digits.all isAsciiDigit || decimal digits ≥ 65536 then none
  else some (decimal digits)

/-- `str::rsplit_once(':')`. -/
def rsplitColon : Option (List Char × List Char) :=
  if chars.contains ':' then
    let port := (chars.reverse.takeWhile fun ch => ch != ':').reverse
    some (chars.take (chars.length - port.length - 1), port)
  else none

/-! ## Validation -/

variable (text : HostText)

/-- `NodeId::from_hex`. -/
def nodeIdFromHex (hex : String) : Except Error NodeId :=
  match hexDecode (utf8 hex) with
  | none => .error (.identity ("节点 ID 不是合法十六进制: " ++ text.hexError hex))
  | some raw =>
    match Bytes.ofList? 16 raw with
    | some id => .ok id
    | none =>
      .error (.identity ("节点 ID 应为 16 字节（32 个十六进制字符），实际 " ++ toString raw.length ++ " 字节"))

/-- `receive_policy::validate_safety_mib`. -/
def validateSafetyMib (value : UInt16) : Except ConfigError Unit :=
  if value > maxSafetyMib then .error (.invalid "接收安全余量必须为 0..4096 MiB") else .ok ()

/-- `signal_tls::server_name` with a name given. -/
def serverName (name : String) : Except ConfigError Unit :=
  if name.toList == [] || utf8Len name.toList > 253 || name.toList.any isWhitespace then
    .error (.invalid (Error.discovery "信令 TLS 校验主机名无效").display)
  else if text.isServerName name then .ok ()
  else .error (.invalid (Error.discovery "信令 TLS 校验主机名须为 DNS 名称或 IP").display)

/-- A path that can be written. -/
def pathShown (path : PathBuf) : Bool := path.isAbsolute && path.toStr.isSome

def validateSignalTls (tls : SignalTlsClient) (signal : Option SignalConfig) :
    Except ConfigError Unit := do
  match signal with
  | none => throw (.invalid "信令 TLS 必须配置主机")
  | some signal =>
    serverName text (tls.serverName.getD signal.host)
    if tls.caFile.any fun path => !pathShown path then
      throw (.invalid "信令 CA 文件必须使用可显示的绝对路径")

/-- `validate_signal_host`.  A text with `://` has a slash. -/
def validateSignalHost (host : String) : Except ConfigError Unit := do
  let chars := host.toList
  if chars == [] || trim chars != chars || chars.any isWhitespace
      || (chars.any fun ch => ch.toNat < 0x20 || ch.toNat == 0x7f)
      || "/\\@?#".toList.any chars.contains then
    throw (.invalid "信令主机不能为空，且不能包含空白、URL 或路径")
  if text.isIp host then return
  let name := withoutFinalDot chars
  if name == [] || utf8Len name > 253 then throw (.invalid "信令主机名长度无效")
  if digitsAndDots name then throw (.invalid "数字地址不是合法 IPv4 地址")
  if !(splitAt '.' name).all labelOk then throw (.invalid "信令主机名格式无效")

/-- `relay::client::validate_server_spec`. -/
def validateServerSpec (spec : String) : Except Error Unit := do
  let chars := spec.toList
  if utf8Len chars > 300 || trim chars != chars || chars.any isWhitespace then
    throw (.discovery "Relay must be HOST:PORT or [IPv6]:PORT")
  match text.parseAddr spec with
  | some address =>
    if usableAddress address then return
    throw (.discovery "Relay address must be native, usable and have a nonzero port")
  | none =>
    match rsplitColon chars with
    | none => throw (.discovery "Relay requires HOST:PORT")
    | some (host, port) =>
      if !((parseU16 port).any fun n => n != 0) || host == [] || utf8Len host > 253
          || host.contains ':' then
        throw (.discovery "invalid Relay host or port")
      if !(splitAt '.' (withoutFinalDot host)).all labelOk then
        throw (.discovery "invalid Relay hostname")
      if digitsAndDots host then throw (.discovery "invalid Relay IPv4 address")

def validateSendConcurrency (value : UInt8) : Except ConfigError Unit :=
  if 1 ≤ value ∧ value ≤ 3 then .ok () else .error (.invalid "发送并发数仅支持 1、2 或 3")

def FileLimits.validate (limits : FileLimits) : Except ConfigError Unit :=
  if limits.uploadKib > 1048576 ∨ limits.downloadKib > 1048576 then
    .error (.invalid "文件限速须为 0～1048576 KiB/s；0 表示不限速")
  else .ok ()

def validateSpeedtestSeconds (value : UInt16) : Except ConfigError Unit :=
  if value = 30 ∨ (60 ≤ value ∧ value ≤ 600 ∧ value % 60 = 0) then .ok ()
  else .error (.invalid "测速时长仅支持 30 秒或 1 到 10 分钟（每分钟递增）")

def validateReceivePath (path : PathBuf) : Except ConfigError Unit :=
  if path.isAbsolute = false then .error (.invalid "接收目录必须是绝对路径")
  else if path.toStr.isNone then .error .unsupportedPathEncoding
  else .ok ()

/-- `ShortId::normalize` accepts the text. -/
def shortIdOk (input : String) : Bool :=
  let digits := input.toList.filter fun ch => ch != ' ' && ch != '-'
  utf8Len input.toList ≤ 32 && (digits.all isAsciiDigit) && digits.length == 9
    && decide (Discovery.firstShortId.toNat ≤ decimal digits)
    && decide (decimal digits ≤ Discovery.lastShortId.toNat)

def TrustedDevice.displayOk (device : TrustedDevice) : Bool :=
  trim device.displayName.toList != [] && utf8Len device.displayName.toList ≤ 128
    && !device.displayName.toList.any isControl && device.trustedAt ≤ device.updatedAt

/-- The loop of `trusted_devices::validate`. -/
def validateDevices (identities : List NodeId) : List TrustedDevice → Except ConfigError Unit
  | [] => .ok ()
  | device :: rest => do
    match nodeIdFromHex text device.nodeId with
    | .error _ => throw (.invalid "可信设备必须使用完整 NodeId")
    | .ok id =>
      if device.nodeId ≠ hexEncode id.toList ∨ id ∈ identities then
        throw (.invalid "可信设备身份非规范或重复")
      if !device.displayOk then throw (.invalid "可信设备展示信息无效")
      if device.lastShortId.any fun short => !shortIdOk short then
        throw (.invalid "可信设备历史 Short ID 无效")
      validateDevices (id :: identities) rest

/-- `MAX_TRUSTED_DEVICES`. -/
def maxTrustedDevices : Nat := 128

def validateTrustedDevices (devices : List TrustedDevice) : Except ConfigError Unit :=
  if devices.length > maxTrustedDevices then .error (.invalid "可信设备最多 128 个")
  else validateDevices text [] devices

def validateRuleId (id : String) : Except ConfigError Unit :=
  if id.toList == [] || utf8Len id.toList > 64
      || !id.toList.all fun ch => isAsciiAlphanumeric ch || ch == '-' || ch == '_' then
    .error (.invalid "转发规则 ID 格式无效")
  else .ok ()

def validateRuleName (name : String) : Except ConfigError Unit :=
  let name := trim name.toList
  if name == [] || utf8Len name > 128 || name.any isControl then
    .error (.invalid "转发规则名称不能为空、不能包含控制字符且最多 128 字节")
  else .ok ()

def validateForwardTarget (target : SocketAddr) : Except ConfigError Unit :=
  if target.port == 0 || target.ip.isUnspecified || target.ip.isMulticast then
    .error (.invalid ("目标地址 " ++ text.addr target ++ " 必须使用具体 IP 和 1..65535 端口"))
  else .ok ()

/-- The loop over the allowed peers of a service. -/
def validatePeers (peers : List NodeId) : List String → Except ConfigError Unit
  | [] => .ok ()
  | peer :: rest =>
    match nodeIdFromHex text peer with
    | .error err => .error (.invalid ("授权设备 ID 无效：" ++ err.display))
    | .ok id =>
      if id ∈ peers then .error (.invalid "授权设备 ID 重复")
      else validatePeers (id :: peers) rest

/-- The loop over the allowed services. -/
def validateAllowed (ids : List String) (targets : List SocketAddr) :
    List AllowedForwardTarget → Except ConfigError Unit
  | [] => .ok ()
  | entry :: rest => do
    validateRuleId entry.id
    validateRuleName entry.name
    validateForwardTarget text entry.target
    validatePeers text [] entry.allowedPeers
    if entry.id ∈ ids then throw (.invalid ("允许服务规则 ID 重复：" ++ entry.id))
    if entry.enabled = true ∧ entry.target ∈ targets then
      throw (.invalid ("已启用的允许服务目标重复：" ++ text.addr entry.target))
    validateAllowed (entry.id :: ids)
      (if entry.enabled then entry.target :: targets else targets) rest

/-- `IpAddr::is_loopback`. -/
def isLoopback : IpAddr → Bool
  | .v4 octets => octets.toList.head? == some 127
  | .v6 octets => octets.toList == List.replicate 15 0 ++ [1]

/-- The loop over the tunnel rules. -/
def validateRules (ids : List String) : List TunnelRule → Except ConfigError Unit
  | [] => .ok ()
  | rule :: rest => do
    validateRuleId rule.id
    validateRuleName rule.name
    match nodeIdFromHex text rule.peerNodeId with
    | .error err => throw (.invalid ("对端 Node ID 无效：" ++ err.display))
    | .ok _ =>
      if rule.id ∈ ids then throw (.invalid ("本机转发规则 ID 重复：" ++ rule.id))
      if isLoopback rule.listen.ip = false ∨ rule.listen.port = 0 then
        throw (.invalid ("本机监听地址 " ++ text.addr rule.listen
          ++ " 必须是 127.0.0.1 或 ::1 且端口在 1..65535 内"))
      validateForwardTarget text rule.target
      validateRules (rule.id :: ids) rest

def validateForwardConfiguration (allowed : List AllowedForwardTarget)
    (rules : List TunnelRule) : Except ConfigError Unit := do
  validateAllowed text [] [] allowed
  validateRules text [] rules

/-- `CONFIG_SCHEMA_VERSION`. -/
def configSchemaVersion : UInt32 := 11

/-- `VERSION` of the remote authentication. -/
def remoteAuthVersion : UInt16 := 1

def DesktopConfig.validate (config : DesktopConfig) : Except ConfigError Unit := do
  validateSafetyMib config.receiveSafetyMib
  config.signalTls.forM fun tls => validateSignalTls text tls config.signal
  if config.schemaVersion ≠ configSchemaVersion then
    throw (.invalid ("不支持的 schema_version " ++ toString config.schemaVersion))
  config.signal.forM fun signal => do
    validateSignalHost text signal.host
    if signal.port = 0 then throw (.invalid "信令端口必须在 1..65535 内")
  config.relayServer.forM fun relay =>
    match validateServerSpec text relay with
    | .ok () => .ok ()
    | .error err => .error (.invalid err.display)
  validateSendConcurrency config.sendConcurrency
  config.fileLimits.validate
  validateSpeedtestSeconds config.speedtestSeconds
  config.receiveDirectory.forM validateReceivePath
  if config.remoteAuth.any fun verifier => verifier.version != remoteAuthVersion then
    throw (.invalid "不支持的远程认证版本")
  validateTrustedDevices text config.trustedDevices
  validateForwardConfiguration text config.allowedForwardTargets config.tunnelRules

end P2pFile.Node
